import Mathlib

/-! Selection by rank and state changes applied in order of a key. Both results
are stated without the order in which a list happens to be walked. -/
namespace RustMcp.Ranking

variable {α β κ : Type}

def sortBy [LinearOrder κ] (key : α → κ) (xs : List α) : List α :=
  xs.insertionSort (fun a b => key a ≤ key b)

theorem memSortBy [LinearOrder κ] {key : α → κ} {xs : List α} {x : α} : x ∈ sortBy key xs ↔ x ∈ xs :=
  List.mem_insertionSort _

theorem sortByPerm [LinearOrder κ] (key : α → κ) (xs : List α) : (sortBy key xs).Perm xs :=
  List.perm_insertionSort _ xs

theorem sortBySorted [LinearOrder κ] (key : α → κ) (xs : List α) :
    (sortBy key xs).Pairwise (fun a b => key a ≤ key b) :=
  have : Std.Total (fun a b : α => key a ≤ key b) := ⟨fun a b => le_total (key a) (key b)⟩
  have : IsTrans α (fun a b => key a ≤ key b) := ⟨fun _ _ _ ab bc => le_trans ab bc⟩
  List.pairwise_insertionSort _ xs

/-- Sorting is stable: with the place in the list as a last key, the same order comes out. -/
theorem sortByPlace [LinearOrder κ] (key : α → κ) (place : α → Nat) {xs : List α}
    (placed : xs.Pairwise fun a b => place a < place b) : sortBy (fun x => toLex (key x,place x)) xs = sortBy key xs := by
  induction xs with
  | nil => rfl
  | cons x xs ih =>
    obtain ⟨first,rest⟩ := List.pairwise_cons.mp placed
    have inserted : ∀ ys : List α, (∀ y ∈ ys, place x < place y) →
        ys.orderedInsert (fun a b => toLex (key a,place a) ≤ toLex (key b,place b)) x =
          ys.orderedInsert (fun a b => key a ≤ key b) x := by
      intro ys later
      induction ys with
      | nil => rfl
      | cons y ys inner =>
        have agree : toLex (key x,place x) ≤ toLex (key y,place y) ↔ key x ≤ key y := by
          have before := (later y (by simp)).le
          simp only [Prod.Lex.toLex_le_toLex,before,and_true]
          exact le_iff_lt_or_eq.symm
        simp only [List.orderedInsert_cons,agree]
        rw [inner fun z mem => later z (List.mem_cons_of_mem _ mem)]
    unfold sortBy at ih ⊢
    rw [List.insertionSort_cons,List.insertionSort_cons,ih rest]
    exact inserted _ fun y mem => first y ((List.mem_insertionSort _).mp mem)

theorem headSome [LinearOrder κ] {key : α → κ} {xs : List α} {x : α} (first : (sortBy key xs).head? = some x) :
    x ∈ xs ∧ ∀ y ∈ xs, key x ≤ key y := by
  obtain ⟨rest,shape⟩ := List.head?_eq_some_iff.mp first
  have sorted := sortBySorted key xs
  rw [shape] at sorted
  refine ⟨memSortBy.mp (shape ▸ List.mem_cons_self),fun y mem => ?_⟩
  have inside : y ∈ x::rest := shape ▸ memSortBy.mpr mem
  rcases List.mem_cons.mp inside with rfl | later
  · exact le_refl _
  · exact (List.pairwise_cons.mp sorted).1 y later

theorem headIff [LinearOrder κ] {key : α → κ} {xs : List α} (distinct : ∀ x ∈ xs, ∀ y ∈ xs, key x = key y → x = y) {x : α} :
    (sortBy key xs).head? = some x ↔ x ∈ xs ∧ ∀ y ∈ xs, key x ≤ key y := by
  refine ⟨headSome,fun ⟨mem,least⟩ => ?_⟩
  have some_ : sortBy key xs ≠ [] := List.ne_nil_of_mem (memSortBy.mpr mem)
  have first := List.head?_eq_some_head some_
  have found := headSome first
  rw [first,distinct _ found.1 x mem (le_antisymm (found.2 x mem) (least _ found.1))]

/-! Pages of a sorted list. -/

/-- How many come before. -/
def rank [LinearOrder κ] (key : α → κ) (xs : List α) (x : α) : Nat := (xs.filter fun y => key y < key x).length

def OnPage [LinearOrder κ] (key : α → κ) (xs : List α) (offset limit : Nat) (x : α) : Prop :=
  x ∈ xs ∧ offset ≤ rank key xs x ∧ rank key xs x < offset + limit

theorem rankPerm [LinearOrder κ] (key : α → κ) {xs ys : List α} (perm : xs.Perm ys) (x : α) : rank key xs x = rank key ys x :=
  (perm.filter _).length_eq

theorem sortByStrict [LinearOrder κ] {key : α → κ} {xs : List α} (nodup : xs.Nodup)
    (distinct : ∀ x ∈ xs, ∀ y ∈ xs, key x = key y → x = y) : (sortBy key xs).Pairwise (fun a b => key a < key b) := by
  have apart : (sortBy key xs).Pairwise (· ≠ ·) := (sortByPerm key xs).nodup_iff.mpr nodup
  refine ((sortBySorted key xs).and apart).imp_of_mem fun {a b} ha hb both => lt_of_le_of_ne both.1 fun same => ?_
  exact both.2 (distinct a (memSortBy.mp ha) b (memSortBy.mp hb) same)

theorem rankAt [LinearOrder κ] {key : α → κ} {xs : List α} (strict : xs.Pairwise (fun a b => key a < key b)) {i : Nat} {x : α}
    (here : xs[i]? = some x) : rank key xs x = i := by
  induction xs generalizing i with
  | nil => simp at here
  | cons y ys ih =>
    obtain ⟨above,rest⟩ := List.pairwise_cons.mp strict
    cases i with
    | zero =>
      obtain rfl : y = x := by simpa using here
      have none_ : ys.filter (fun z => key z < key y) = [] :=
        List.filter_eq_nil_iff.mpr fun z mem => by simpa using le_of_lt (above z mem)
      simp [rank,none_]
    | succ i =>
      have here : ys[i]? = some x := by simpa using here
      have less := above x (List.mem_of_getElem? here)
      have below := ih rest here
      simp only [rank] at below ⊢
      simp [less,below]

theorem memPage [LinearOrder κ] {key : α → κ} {xs : List α} (nodup : xs.Nodup)
    (distinct : ∀ x ∈ xs, ∀ y ∈ xs, key x = key y → x = y) {offset limit : Nat} {x : α} :
    x ∈ ((sortBy key xs).drop offset).take limit ↔ OnPage key xs offset limit x := by
  have strict := sortByStrict nodup distinct
  rw [OnPage,rankPerm key (sortByPerm key xs).symm,List.mem_iff_getElem?]
  constructor
  · rintro ⟨i,found⟩
    obtain ⟨within,found⟩ : i < limit ∧ (sortBy key xs)[offset + i]? = some x := by
      rw [List.getElem?_take] at found
      split at found
      · rename_i within; exact ⟨within,by rw [← List.getElem?_drop]; exact found⟩
      · contradiction
    have position := rankAt strict found
    exact ⟨memSortBy.mp (List.mem_of_getElem? found),by omega,by omega⟩
  · rintro ⟨mem,from_,upto⟩
    obtain ⟨j,found⟩ := List.mem_iff_getElem?.mp ((memSortBy : x ∈ sortBy key xs ↔ x ∈ xs).mpr mem)
    have position := rankAt strict found
    refine ⟨j - offset,?_⟩
    rw [List.getElem?_take_of_lt (by omega),List.getElem?_drop,Nat.add_sub_cancel' (by omega)]
    exact found

theorem lastOfInsert [LinearOrder κ] (key : α → κ) (x : α) (xs : List α) :
    (xs.orderedInsert (fun a b => key a ≤ key b) x).getLast? = if ∀ b ∈ xs, key b < key x then some x else xs.getLast? := by
  induction xs with
  | nil => simp
  | cons b bs ih =>
    rw [List.orderedInsert_cons]
    by_cases first : key x ≤ key b
    · have not_ : ¬ ∀ c ∈ b::bs, key c < key x := fun all => absurd (all b (by simp)) (not_lt.mpr first)
      rw [if_pos first,if_neg not_]
      simp
    · have below : (∀ c ∈ b::bs, key c < key x) ↔ ∀ c ∈ bs, key c < key x := by simp [not_le.mp first]
      rw [if_neg first,List.getLast?_cons,ih]
      by_cases all : ∀ c ∈ bs, key c < key x
      · rw [if_pos all,if_pos (below.mpr all)]; rfl
      · rw [if_neg all,if_neg fun whole => all (below.mp whole)]
        cases bs with
        | nil => simp at all
        | cons c cs => simp [List.getLast?_cons]

/-- The sort is stable: what comes last is the last of those with the highest key. -/
theorem lastOfSort [LinearOrder κ] {key : α → κ} {xs : List α} {y : α} :
    (sortBy key xs).getLast? = some y ↔
      ∃ before after, xs = before ++ y::after ∧ (∀ r ∈ before, key r ≤ key y) ∧ ∀ r ∈ after, key r < key y := by
  induction xs with
  | nil => simp [sortBy]
  | cons x xs ih =>
    have inserted : (sortBy key (x::xs)).getLast? = if ∀ b ∈ xs, key b < key x then some x else (sortBy key xs).getLast? := by
      rw [sortBy,List.insertionSort_cons,lastOfInsert]
      simp only [List.mem_insertionSort,sortBy]
    rw [inserted]
    constructor
    · intro last
      split at last
      · rename_i all
        cases Option.some.inj last
        exact ⟨[],xs,rfl,by simp,all⟩
      · rename_i higher
        obtain ⟨before,after,rfl,left,right⟩ := ih.mp last
        simp only [not_forall,not_lt] at higher
        obtain ⟨b,mem,above⟩ := higher
        have most : key b ≤ key y := by
          rcases List.mem_append.mp mem with early | late
          · exact left b early
          · rcases List.mem_cons.mp late with rfl | late
            · exact le_refl _
            · exact le_of_lt (right b late)
        refine ⟨x::before,after,rfl,fun r mem => ?_,right⟩
        rcases List.mem_cons.mp mem with rfl | early
        · exact le_trans above most
        · exact left r early
    · rintro ⟨before,after,shape,left,right⟩
      cases before with
      | nil =>
        obtain ⟨rfl,rfl⟩ := List.cons.inj shape
        rw [if_pos right]
      | cons b before =>
        obtain ⟨rfl,rfl⟩ := List.cons.inj shape
        have above := left x (by simp)
        rw [if_neg fun all => absurd (all y (by simp)) (not_lt.mpr above)]
        exact ih.mpr ⟨before,after,rfl,fun r mem => left r (by simp [mem]),right⟩

/-- Of the elements that have a key, the last of those with the highest. -/
def lastHighest [LinearOrder κ] (key : α → Option κ) (xs : List α) : Option α :=
  ((sortBy Prod.fst (xs.filterMap fun x => (key x).map fun k => (k,x))).getLast?).map Prod.snd

theorem lastHighestNone [LinearOrder κ] {key : α → Option κ} {xs : List α} : lastHighest key xs = none ↔ ∀ x ∈ xs, key x = none := by
  rw [lastHighest,Option.map_eq_none_iff,List.getLast?_eq_none_iff,← List.length_eq_zero_iff,(sortByPerm _ _).length_eq,
    List.length_eq_zero_iff,List.filterMap_eq_nil_iff]
  simp only [Option.map_eq_none_iff]

theorem lastHighestSome [LinearOrder κ] {key : α → Option κ} {xs : List α} {y : α} :
    lastHighest key xs = some y ↔ ∃ before after k, xs = before ++ y::after ∧ key y = some k ∧
      (∀ x ∈ before, ∀ j, key x = some j → j ≤ k) ∧ ∀ x ∈ after, ∀ j, key x = some j → j < k := by
  have keyed : ∀ (xs : List α) j x, (j,x) ∈ (xs.filterMap fun x => (key x).map fun k => (k,x)) ↔ x ∈ xs ∧ key x = some j := by
    intro xs j x
    simp only [List.mem_filterMap,Option.map_eq_some_iff,Prod.mk.injEq]
    exact ⟨fun ⟨_,mem,_,at_,same,same'⟩ => same ▸ same' ▸ ⟨mem,at_⟩,fun ⟨mem,at_⟩ => ⟨x,mem,j,at_,rfl,rfl⟩⟩
  rw [lastHighest,Option.map_eq_some_iff]
  constructor
  · rintro ⟨⟨k,_⟩,last,rfl⟩
    obtain ⟨before,after,shape,below,above⟩ := lastOfSort.mp last
    obtain ⟨first,later,rfl,kept,left⟩ := List.filterMap_eq_append_iff.mp shape
    obtain ⟨skipped,chosen,rest,rfl,unkeyed,at_,right⟩ := List.filterMap_eq_cons_iff.mp left
    obtain ⟨_,at_,same⟩ := Option.map_eq_some_iff.mp at_
    cases same
    refine ⟨first ++ skipped,rest,k,by simp,at_,fun x mem j has => ?_,fun x mem j has => ?_⟩
    · rcases List.mem_append.mp mem with early | skip
      · exact below (j,x) (kept ▸ (keyed first j x).mpr ⟨early,has⟩)
      · exact absurd (unkeyed x skip) (by simp [has])
    · exact above (j,x) (right ▸ (keyed rest j x).mpr ⟨mem,has⟩)
  · rintro ⟨before,after,k,rfl,at_,below,above⟩
    refine ⟨(k,y),lastOfSort.mpr ⟨_,_,by rw [List.filterMap_append,List.filterMap_cons_some (by rw [at_]; rfl)],?_,?_⟩,rfl⟩
    · exact fun ⟨j,x⟩ mem => below x ((keyed before j x).mp mem).1 j ((keyed before j x).mp mem).2
    · exact fun ⟨j,x⟩ mem => above x ((keyed after j x).mp mem).1 j ((keyed after j x).mp mem).2
/-! The first element of the highest rank. -/

def keepBest [LinearOrder β] (rank : α → β) (kept : Option α) (x : α) : Option α :=
  if kept.all (fun y => rank y < rank x) then some x else kept

def best [LinearOrder β] (rank : α → β) (xs : List α) : Option α := xs.foldl (keepBest rank) none

theorem bestConcat [LinearOrder β] (rank : α → β) (xs : List α) (x : α) :
    best rank (xs ++ [x]) = keepBest rank (best rank xs) x := by
  simp [best]

theorem bestNone [LinearOrder β] {rank : α → β} {xs : List α} : best rank xs = none ↔ xs = [] := by
  constructor
  · intro h
    cases xs using List.reverseRecOn with
    | nil => rfl
    | append_singleton xs x =>
      rw [bestConcat,keepBest] at h
      split at h
      · contradiction
      · rename_i lower; simp [h] at lower
  · rintro rfl; rfl

theorem bestSome [LinearOrder β] {rank : α → β} {xs : List α} {y : α} (h : best rank xs = some y) :
    y ∈ xs ∧ ∀ x ∈ xs, rank x ≤ rank y := by
  induction xs using List.reverseRecOn generalizing y with
  | nil => simp [best] at h
  | append_singleton xs x ih =>
    rw [bestConcat,keepBest] at h
    split at h
    · rename_i higher
      cases Option.some.inj h
      refine ⟨by simp,fun z mem => ?_⟩
      rcases List.mem_append.mp mem with old | last
      · cases kept : best rank xs with
        | none =>
          simp [bestNone.mp kept] at old
        | some y =>
          have above : rank y < rank x := by simpa [kept] using higher
          exact le_of_lt (lt_of_le_of_lt ((ih kept).2 z old) above)
      · simp at last; subst z; exact le_refl _
    · rename_i lower
      have old := ih h
      refine ⟨List.mem_append_left _ old.1,fun z mem => ?_⟩
      rcases List.mem_append.mp mem with mem | last
      · exact old.2 z mem
      · simp only [List.mem_singleton] at last
        subst z
        exact not_lt.mp (by simpa [h] using lower)

theorem bestIff [LinearOrder β] {rank : α → β} {xs : List α} {y : α} :
    best rank xs = some y ↔ ∃ before after, xs = before ++ y::after ∧ (∀ x ∈ before, rank x < rank y) ∧ ∀ x ∈ after, rank x ≤ rank y := by
  constructor
  · intro chosen
    induction xs using List.reverseRecOn with
    | nil => simp [best] at chosen
    | append_singleton xs x ih =>
      have whole := chosen
      rw [bestConcat,keepBest] at whole
      split at whole
      · rename_i higher
        cases Option.some.inj whole
        refine ⟨xs,[],rfl,fun x mem => ?_,by simp⟩
        have some_ : best rank xs ≠ none := mt bestNone.mp (List.ne_nil_of_mem mem)
        obtain ⟨z,kept⟩ := Option.ne_none_iff_exists'.mp some_
        have above : rank z < rank y := by simpa [kept] using higher
        exact lt_of_le_of_lt ((bestSome kept).2 x mem) above
      · obtain ⟨before,after,rfl,below,above⟩ := ih whole
        refine ⟨before,after ++ [x],by simp,below,fun z mem => ?_⟩
        rcases List.mem_append.mp mem with early | last
        · exact above z early
        · exact (bestSome chosen).2 z (by simp [List.mem_singleton.mp last])
  · rintro ⟨before,after,rfl,below,above⟩
    induction after using List.reverseRecOn with
    | nil =>
      rw [bestConcat,keepBest,if_pos]
      exact Option.all_eq_true _ _ |>.mpr fun z kept => decide_eq_true (below z (bestSome kept).1)
    | append_singleton after x ih =>
      have earlier := ih fun z mem => above z (List.mem_append_left _ mem)
      have shape : before ++ y::(after ++ [x]) = (before ++ y::after) ++ [x] := by simp
      rw [shape,bestConcat,earlier,keepBest,if_neg]
      have last := above x (by simp)
      simpa using last

/-! A switch moved by those elements that have an effect. Walked in the order of
a key, it ends where the highest effective element put it. -/

def settle (effect : α → Option Bool) (state : Bool) (x : α) : Bool := (effect x).getD state

theorem settledIff [LinearOrder κ] {key : α → κ} {effect : α → Option Bool} {xs : List α}
    (sorted : xs.Pairwise (fun a b => key a ≤ key b))
    (apart : ∀ x ∈ xs, ∀ y ∈ xs, effect x = some true → effect y = some false → key x ≠ key y) :
    xs.foldl (settle effect) false = true ↔
      ∃ x ∈ xs, effect x = some true ∧ ∀ y ∈ xs, effect y = some false → key y < key x := by
  induction xs using List.reverseRecOn with
  | nil => simp
  | append_singleton xs last ih =>
    obtain ⟨before,_,below⟩ := List.pairwise_append.mp sorted
    have below : ∀ y ∈ xs, key y ≤ key last := fun y mem => below y mem last (by simp)
    have ih := ih before fun x hx y hy => apart x (by simp [hx]) y (by simp [hy])
    simp only [List.foldl_append,List.foldl_cons,List.foldl_nil,settle]
    cases act : effect last with
    | none =>
      simp only [Option.getD_none]
      rw [ih]
      constructor
      · rintro ⟨x,hx,on,above⟩
        refine ⟨x,by simp [hx],on,fun y hy off => ?_⟩
        rcases List.mem_append.mp hy with hy | hy
        · exact above y hy off
        · simp only [List.mem_singleton] at hy; subst y; simp [act] at off
      · rintro ⟨x,hx,on,above⟩
        rcases List.mem_append.mp hx with hx | hx
        · exact ⟨x,hx,on,fun y hy off => above y (by simp [hy]) off⟩
        · simp only [List.mem_singleton] at hx; subst x; simp [act] at on
    | some final =>
      simp only [Option.getD_some]
      cases final with
      | true =>
        refine ⟨fun _ => ⟨last,by simp,act,fun y hy off => ?_⟩,fun _ => rfl⟩
        rcases List.mem_append.mp hy with old | same
        · exact lt_of_le_of_ne (below y old) (apart last (by simp) y hy act off).symm
        · simp only [List.mem_singleton] at same; subst y; simp [act] at off
      | false =>
        refine ⟨by simp,?_⟩
        rintro ⟨x,hx,on,above⟩
        have higher := above last (by simp) act
        rcases List.mem_append.mp hx with old | same
        · exact absurd higher (not_lt.mpr (below x old))
        · simp only [List.mem_singleton] at same; subst x; simp [act] at on

end RustMcp.Ranking
