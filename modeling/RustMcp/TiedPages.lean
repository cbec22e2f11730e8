import RustMcp.Paging

/-! Pages of rows that a query orders by a key: rows that tie may come in another order each
time the query runs. -/
namespace RustMcp.TiedPages

/-- What is read from page `k` on; pages have offsets, and may have no successor that can be asked for. -/
inductive Reads {α : Type} (start : Nat → Nat) (can : Nat → Prop) (shown : Nat → List α) (limit : Nat) : Nat → List α → Prop where
  | last {k : Nat} (done : (shown (start k)).length ≤ limit) : Reads start can shown limit k (shown (start k))
  | more {k : Nat} {out : List α} (more : limit < (shown (start k)).length) (next : can (k + 1))
      (rest : Reads start can shown limit (k + 1) out) : Reads start can shown limit k ((shown (start k)).take limit ++ out)

section
variable {α κ : Type} [LinearOrder κ] (key : α → κ)

/-- The rows in the order of the key, those that tie in any order. -/
structure Arranged (rows xs : List α) : Prop where
  perm : xs.Perm rows
  sorted : (xs.map key).Pairwise (· ≤ ·)

/-- The rows on both sides of a boundary do not tie. -/
def ApartAt (rows : List α) (boundary : Nat) : Prop :=
  ∀ a b, (Ranking.sortBy key rows)[boundary - 1]? = some a → (Ranking.sortBy key rows)[boundary]? = some b → key a ≠ key b

variable {key} {rows xs : List α}

theorem sortedArranged (key : α → κ) (rows : List α) : Arranged key rows (Ranking.sortBy key rows) :=
  ⟨Ranking.sortByPerm key rows,List.pairwise_map.mpr (Ranking.sortBySorted key rows)⟩

theorem keysSame (arranged : Arranged key rows xs) : xs.map key = (Ranking.sortBy key rows).map key :=
  List.Perm.eq_of_pairwise (fun _ _ _ _ => le_antisymm) arranged.sorted (sortedArranged key rows).sorted
    ((arranged.perm.trans (sortedArranged key rows).perm.symm).map key)

theorem keyAt (arranged : Arranged key rows xs) {n : Nat} {b : α} (here : (Ranking.sortBy key rows)[n]? = some b) :
    ∃ x, xs[n]? = some x ∧ key x = key b := by
  have keys := congrArg (fun keys : List κ => keys[n]?) (keysSame arranged)
  simp only [List.getElem?_map,here,Option.map_some] at keys
  exact Option.map_eq_some_iff.mp keys

theorem keysAscend (arranged : Arranged key rows xs) {i j : Nat} (upto : i ≤ j) {x y : α} (here : xs[i]? = some x)
    (there : xs[j]? = some y) : key x ≤ key y := by
  rcases Nat.eq_or_lt_of_le upto with rfl | below
  · exact (congrArg key (Option.some.inj (here.symm.trans there))).le
  · obtain ⟨inside,rfl⟩ := List.getElem?_eq_some_iff.mp here
    obtain ⟨inside',rfl⟩ := List.getElem?_eq_some_iff.mp there
    exact List.pairwise_iff_getElem.mp (List.pairwise_map.mp arranged.sorted) i j inside inside' below

/-- What stands before a boundary is what has a lower key than the row behind it. -/
theorem headBelow (arranged : Arranged key rows xs) {n : Nat} {a b : α} (before : (Ranking.sortBy key rows)[n]? = some a)
    (behind : (Ranking.sortBy key rows)[n + 1]? = some b) (apart : key a ≠ key b) :
    xs.take (n + 1) = xs.filter fun x => key x < key b := by
  have step : key a < key b := lt_of_le_of_ne (keysAscend (sortedArranged key rows) (Nat.le_succ n) before behind) apart
  obtain ⟨a',before',same⟩ := keyAt arranged before
  obtain ⟨b',behind',same'⟩ := keyAt arranged behind
  have early : (xs.take (n + 1)).filter (fun x => key x < key b) = xs.take (n + 1) := by
    refine List.filter_eq_self.mpr fun x mem => decide_eq_true ?_
    obtain ⟨i,inside,here⟩ := List.mem_take_iff_getElem.mp mem
    have least := keysAscend arranged (by omega) (List.getElem?_eq_some_iff.mpr ⟨_,here⟩) before'
    exact lt_of_le_of_lt (least.trans same.le) step
  have late : (xs.drop (n + 1)).filter (fun x => key x < key b) = [] := by
    refine List.filter_eq_nil_iff.mpr fun x mem => ?_
    obtain ⟨i,here⟩ := List.mem_iff_getElem?.mp mem
    rw [List.getElem?_drop] at here
    have most := keysAscend arranged (Nat.le_add_right (n + 1) i) behind' here
    simpa using same' ▸ most
  conv_rhs => rw [← List.take_append_drop (n + 1) xs,List.filter_append,early,late,List.append_nil]

theorem takePerm (arranged : Arranged key rows xs) {boundary : Nat} (some_ : 0 < boundary) (apart : ApartAt key rows boundary) :
    (xs.take boundary).Perm ((Ranking.sortBy key rows).take boundary) := by
  have whole := arranged.perm.trans (sortedArranged key rows).perm.symm
  obtain ⟨n,rfl⟩ := Nat.exists_eq_succ_of_ne_zero some_.ne'
  by_cases inside : n + 1 < (Ranking.sortBy key rows).length
  · have before := List.getElem?_eq_getElem (show n < (Ranking.sortBy key rows).length by omega)
    have behind := List.getElem?_eq_getElem inside
    have differ := apart _ _ before behind
    rw [Nat.succ_eq_add_one,headBelow arranged before behind differ,headBelow (sortedArranged key rows) before behind differ]
    exact whole.filter _
  · have length := whole.length_eq
    rwa [List.take_of_length_le (by omega),List.take_of_length_le (by omega)]

variable {start : Nat → Nat} {can : Nat → Prop} {arrange : Nat → List α} {limit k : Nat} {out : List α}

def window (arrange : Nat → List α) (limit offset : Nat) : List α := ((arrange offset).drop offset).take (limit + 1)

/-- The end of a page that another one follows is a boundary between keys, and the next page begins there. -/
def Clean (key : α → κ) (rows : List α) (start : Nat → Nat) (can : Nat → Prop) (limit : Nat) : Prop :=
  ∀ k, k * limit + limit < rows.length →
    can (k + 1) ∧ start (k + 1) = (k + 1) * limit ∧ ApartAt key rows (k * limit + limit)

theorem cleanReads (some_ : 0 < limit) (clean : Clean key rows start can limit) (arranged : ∀ o, Arranged key rows (arrange o))
    (begins : start k = k * limit)
    (heads : ∀ xs, Arranged key rows xs → (xs.take (k * limit)).Perm ((Ranking.sortBy key rows).take (k * limit))) :
    ∃ out, Reads start can (window arrange limit) limit k out ∧ out.Perm ((Ranking.sortBy key rows).drop (k * limit)) := by
  induction left : rows.length - k * limit using Nat.strong_induction_on generalizing k with
  | _ n ih =>
    have here := arranged (k * limit)
    have length := here.perm.length_eq
    have whole := here.perm.trans (sortedArranged key rows).perm.symm
    have head := heads _ here
    have tail : ((arrange (k * limit)).drop (k * limit)).Perm ((Ranking.sortBy key rows).drop (k * limit)) := by
      rw [← List.take_append_drop (k * limit) (arrange (k * limit)),
        ← List.take_append_drop (k * limit) (Ranking.sortBy key rows)] at whole
      exact (List.perm_append_left_iff _).mp ((head.append_right _).symm.trans whole)
    by_cases more : k * limit + limit < rows.length
    · obtain ⟨next,offset,apart⟩ := clean k more
      have step : k * limit + limit = (k + 1) * limit := (Nat.succ_mul k limit).symm
      obtain ⟨out,reads,perm⟩ := ih (rows.length - (k + 1) * limit) (by omega) offset
        (fun xs arranged => step ▸ takePerm arranged (by omega) apart) rfl
      have page : (((arrange (k * limit)).drop (k * limit)).take limit).Perm
          (((Ranking.sortBy key rows).drop (k * limit)).take limit) := by
        have both := takePerm here (by omega) apart
        rw [List.take_add,List.take_add] at both
        exact (List.perm_append_left_iff _).mp ((head.append_right _).symm.trans both)
      refine ⟨_,.more ?_ next reads,?_⟩
      · rw [begins,window,List.length_take,List.length_drop]
        omega
      · rw [begins,window,List.take_take,Nat.min_eq_left (Nat.le_succ limit),
          ← List.take_append_drop limit ((Ranking.sortBy key rows).drop (k * limit)),List.drop_drop,step]
        exact page.append perm
    · have all : window arrange limit (start k) = (arrange (k * limit)).drop (k * limit) := by
        rw [begins,window,List.take_of_length_le (by rw [List.length_drop]; omega)]
      refine ⟨_,.last ?_,all ▸ tail⟩
      rw [all,List.length_drop]
      omega

/-! What a page repeats. -/

theorem readsHead {shown : Nat → List α} (reads : Reads start can shown limit k out) {x : α}
    (mem : x ∈ (shown (start k)).take limit) : x ∈ out := by
  cases reads with
  | last => exact List.mem_of_mem_take mem
  | more => exact List.mem_append_left _ mem

/-- Pages that list alike, one after the other, show the head of the listing. -/
theorem readsFull {xs : List α} (reads : Reads start can (window arrange limit) limit 0 out)
    (alike : ∀ j ≤ k, start j = j * limit ∧ arrange (j * limit) = xs) (long : k * limit + limit < xs.length) :
    ∃ rest, out = xs.take (k * limit + limit) ++ rest ∧ can (k + 1) ∧ Reads start can (window arrange limit) limit (k + 1) rest := by
  have page (j : Nat) (upto : j ≤ k) : window arrange limit (start j) = (xs.drop (j * limit)).take (limit + 1) := by
    rw [(alike j upto).1,window,(alike j upto).2]
  have further {j : Nat} (upto : j ≤ k) (inside : j * limit + limit < xs.length) {out : List α}
      (reads : Reads start can (window arrange limit) limit j out) :
      ∃ rest, out = (xs.drop (j * limit)).take limit ++ rest ∧ can (j + 1) ∧
        Reads start can (window arrange limit) limit (j + 1) rest := by
    cases reads with
    | last done =>
      rw [page j upto,List.length_take,List.length_drop] at done
      omega
    | more _ next rest =>
      refine ⟨_,?_,next,rest⟩
      rw [page j upto,List.take_take,Nat.min_eq_left (Nat.le_succ limit)]
  induction k with
  | zero =>
    obtain ⟨rest,shape,next,later⟩ := further (le_refl 0) long reads
    rw [Nat.zero_mul] at shape
    rw [Nat.zero_mul,Nat.zero_add]
    exact ⟨rest,shape,next,later⟩
  | succ k ih =>
    have shorter : k * limit + limit < xs.length := by rw [Nat.succ_mul] at long; omega
    obtain ⟨rest,rfl,_,reads⟩ := ih (fun j upto => alike j (by omega)) shorter (fun j upto => page j (by omega))
      (fun upto => further (by omega))
    obtain ⟨rest,rfl,next,later⟩ := further (le_refl (k + 1)) long reads
    refine ⟨rest,?_,next,later⟩
    rw [← List.append_assoc,← Nat.succ_mul,← List.take_add]

/-- Rows that tie may change places. -/
theorem swapArranged (arranged : Arranged key rows xs) {n : Nat} {a b : α} (before : xs[n]? = some a)
    (behind : xs[n + 1]? = some b) (same : key a = key b) : ∃ ys, Arranged key rows ys ∧ ys[n + 1]? = some a := by
  obtain ⟨inside,rfl⟩ := List.getElem?_eq_some_iff.mp before
  obtain ⟨inside',rfl⟩ := List.getElem?_eq_some_iff.mp behind
  have shape : xs = xs.take n ++ xs[n]::xs[n + 1]::xs.drop (n + 1 + 1) := by
    rw [← List.drop_eq_getElem_cons inside',← List.drop_eq_getElem_cons inside,List.take_append_drop]
  refine ⟨xs.take n ++ xs[n + 1]::xs[n]::xs.drop (n + 1 + 1),⟨?_,?_⟩,?_⟩
  · refine List.Perm.trans ((List.Perm.swap _ _ _).append_left _) ?_
    rw [← shape]
    exact arranged.perm
  · have keys := arranged.sorted
    rw [shape] at keys
    simpa only [List.map_append,List.map_cons,same] using keys
  · rw [List.getElem?_append_right (by rw [List.length_take]; omega),List.length_take,
      show n + 1 - min n xs.length = 1 by omega]
    rfl

/-- Exactly once in any order of the rows that tie, from page 0 on, needs clean pages. -/
theorem cleanOf (some_ : 0 < limit) (first : start 0 = 0) (low : ∀ k, start k ≤ k * limit) (nodup : rows.Nodup)
    (once : ∀ arrange, (∀ o, Arranged key rows (arrange o)) →
      ∃ out, Reads start can (window arrange limit) limit 0 out ∧ out.Perm rows) : Clean key rows start can limit := by
  intro k
  induction k using Nat.strong_induction_on with
  | _ k ih =>
    intro more
    have sorted := sortedArranged key rows
    have length := sorted.perm.length_eq
    have starts (j : Nat) (upto : j ≤ k) : start j = j * limit := by
      cases j with
      | zero => rw [first,Nat.zero_mul]
      | succ j =>
        have earlier := Nat.mul_le_mul_right limit upto
        rw [Nat.succ_mul] at earlier
        exact (ih j upto (by omega)).2.1
    have fresh (arrange : Nat → List α) (arranged : ∀ o, Arranged key rows (arrange o))
        (alike : ∀ j ≤ k, arrange (j * limit) = Ranking.sortBy key rows) :
        can (k + 1) ∧ ∀ x, (arrange (start (k + 1)))[start (k + 1)]? = some x →
          x ∉ (Ranking.sortBy key rows).take (k * limit + limit) := by
      obtain ⟨out,reads,perm⟩ := once arrange arranged
      obtain ⟨rest,rfl,next,later⟩ := readsFull reads (fun j upto => ⟨starts j upto,alike j upto⟩) (by omega)
      refine ⟨next,fun x here mem => List.disjoint_of_nodup_append (perm.nodup_iff.mpr nodup) mem (readsHead later ?_)⟩
      rw [window,List.take_take,Nat.min_eq_left (Nat.le_succ limit)]
      refine List.mem_iff_getElem?.mpr ⟨0,?_⟩
      rw [List.getElem?_take_of_lt some_,List.getElem?_drop]
      exact here
    obtain ⟨next,shown⟩ := fresh (fun _ => Ranking.sortBy key rows) (fun _ => sorted) fun _ _ => rfl
    have upto := low (k + 1)
    rw [Nat.succ_mul] at upto
    have offset : start (k + 1) = (k + 1) * limit := by
      by_contra lower
      rw [Nat.succ_mul] at lower
      have inside : start (k + 1) < (Ranking.sortBy key rows).length := by omega
      exact shown _ (List.getElem?_eq_getElem inside) (List.mem_take_iff_getElem.mpr ⟨_,by omega,rfl⟩)
    refine ⟨next,offset,fun a b before behind same => ?_⟩
    rw [← Nat.sub_add_cancel (show 1 ≤ k * limit + limit by omega)] at behind
    obtain ⟨ys,swapped,moved⟩ := swapArranged sorted before behind same
    rw [Nat.sub_add_cancel (by omega)] at moved
    have step : (k + 1) * limit = k * limit + limit := Nat.succ_mul k limit
    -- all pages but the next one list the rows as they are sorted
    have earlier (j : Nat) (least : j ≤ k) : j * limit ≠ k * limit + limit := by
      have below := Nat.mul_le_mul_right limit least
      omega
    have repeated := (fresh (fun o => if o = k * limit + limit then ys else Ranking.sortBy key rows)
      (fun o => by split <;> assumption) fun j least => if_neg (earlier j least)).2 a
    rw [offset,step,if_pos rfl] at repeated
    exact repeated moved (List.mem_iff_getElem?.mpr ⟨k * limit + limit - 1,by
      rw [List.getElem?_take_of_lt (by omega)]
      exact before⟩)

theorem onceIff (some_ : 0 < limit) (first : start 0 = 0) (low : ∀ k, start k ≤ k * limit) (nodup : rows.Nodup) :
    (∀ arrange, (∀ o, Arranged key rows (arrange o)) →
      ∃ out, Reads start can (window arrange limit) limit 0 out ∧ out.Perm rows) ↔ Clean key rows start can limit := by
  refine ⟨cleanOf some_ first low nodup,fun clean arrange arranged => ?_⟩
  obtain ⟨out,reads,perm⟩ := cleanReads some_ clean arranged (k := 0) (by rw [first,Nat.zero_mul]) fun xs _ => by
    rw [Nat.zero_mul]
    exact List.Perm.refl _
  rw [Nat.zero_mul,List.drop_zero] at perm
  exact ⟨out,reads,perm.trans (Ranking.sortByPerm key rows)⟩

/-- At every boundary just when the key identifies the rows. -/
theorem apartEverywhere : (∀ n, n + 1 < rows.length → ApartAt key rows (n + 1)) ↔ (rows.map key).Nodup := by
  have sorted := sortedArranged key rows
  have length := sorted.perm.length_eq
  rw [← (sorted.perm.map key).nodup_iff]
  constructor
  · intro apart
    refine List.Pairwise.imp (fun below => ne_of_lt below) (List.pairwise_iff_getElem.mpr fun i j inside inside' below => ?_)
    rw [List.length_map] at inside inside'
    have behind : (Ranking.sortBy key rows)[j - 1 + 1]? = some (Ranking.sortBy key rows)[j] := by
      rw [Nat.sub_add_cancel (by omega)]
      exact List.getElem?_eq_getElem inside'
    have before := List.getElem?_eq_getElem (show j - 1 < (Ranking.sortBy key rows).length by omega)
    have least := keysAscend sorted (show i ≤ j - 1 by omega) (List.getElem?_eq_getElem inside) before
    have step := keysAscend sorted (Nat.le_succ (j - 1)) before behind
    have differ := apart (j - 1) (by omega) _ _ before behind
    rw [List.getElem_map,List.getElem_map]
    exact lt_of_le_of_lt least (lt_of_le_of_ne step differ)
  · intro once n inside a b before behind same
    obtain ⟨first,rfl⟩ := List.getElem?_eq_some_iff.mp before
    obtain ⟨second,rfl⟩ := List.getElem?_eq_some_iff.mp behind
    have differ := List.pairwise_iff_getElem.mp once (n + 1 - 1) (n + 1) (by rw [List.length_map]; exact first)
      (by rw [List.length_map]; exact second) (Nat.lt_succ_self n)
    rw [List.getElem_map,List.getElem_map] at differ
    exact differ same

end

/-! Rows with labels, when only the rows of some labels are to come once. -/

section
variable {α β κ ι : Type} [LinearOrder κ] [DecidableEq ι] {key : α → κ} {rows xs ys : List α} {start : Nat → Nat}
  {can : Nat → Prop} {arrange : Nat → List α} {limit k : Nat}

/-- Each wanted label is that of one element. -/
def LabelsOnce (label : α → Option ι) (wanted : ι → Prop) (xs : List α) : Prop :=
  ∀ i, wanted i → (xs.filter fun x => label x = some i).length = 1

/-- A row of a wanted label ties with no other row. -/
def LabelsApart (key : α → κ) (label : α → Option ι) (wanted : ι → Prop) (rows : List α) : Prop :=
  ∀ a ∈ rows, ∀ b ∈ rows, ∀ i, wanted i → label a = some i → key a = key b → a = b

theorem readsMap {shown : Nat → List α} (g : α → β) {out : List β}
    (reads : Reads start can (fun offset => (shown offset).map g) limit k out) :
    ∃ rows, Reads start can shown limit k rows ∧ rows.map g = out := by
  induction reads with
  | last done => exact ⟨_,.last (by rwa [List.length_map] at done),rfl⟩
  | more more next _ ih =>
    obtain ⟨rows,reads,rfl⟩ := ih
    rw [List.length_map] at more
    exact ⟨_,.more more next reads,by rw [List.map_append,List.map_take]⟩

/-- Pages of one listing show it, as far as each page that is needed begins where the one before it ends. -/
theorem alikeReads (xs : List α) (some_ : 0 < limit)
    (steps : ∀ k, k * limit + limit < xs.length → can (k + 1) ∧ start (k + 1) = (k + 1) * limit)
    (begins : start k = k * limit) : Reads start can (window (fun _ => xs) limit) limit k (xs.drop (k * limit)) := by
  induction left : xs.length - k * limit using Nat.strong_induction_on generalizing k with
  | _ n ih =>
    have step : k * limit + limit = (k + 1) * limit := (Nat.succ_mul k limit).symm
    by_cases more : k * limit + limit < xs.length
    · obtain ⟨next,offset⟩ := steps k more
      have full : limit < (window (fun _ => xs) limit (start k)).length := by
        rw [begins,window,List.length_take,List.length_drop]
        omega
      have page := Reads.more full next (ih (xs.length - (k + 1) * limit) (by omega) offset rfl)
      rw [begins,window,List.take_take,Nat.min_eq_left (Nat.le_succ limit),← step,← List.drop_drop,List.take_append_drop] at page
      exact page
    · have all : window (fun _ => xs) limit (start k) = xs.drop (k * limit) := by
        rw [begins,window,List.take_of_length_le (by rw [List.length_drop]; omega)]
      have last : Reads start can (window (fun _ => xs) limit) limit k (window (fun _ => xs) limit (start k)) := .last (by
        rw [all,List.length_drop]
        omega)
      rwa [all] at last

theorem alikeRead (follows : ∀ k, can (k + 1) → start (k + 1) = (k + 1) * limit) {out : List α}
    (reads : Reads start can (window (fun _ => xs) limit) limit k out) (begins : start k = k * limit) :
    out = xs.drop (k * limit) ∧ ∀ j, k ≤ j → j * limit + limit < xs.length → can (j + 1) := by
  induction reads with
  | @last k done =>
    rw [begins,window,List.length_take,List.length_drop] at done
    refine ⟨by rw [begins,window,List.take_of_length_le (by rw [List.length_drop]; omega)],fun j upto more => ?_⟩
    have later := Nat.mul_le_mul_right limit upto
    omega
  | @more k out more next _ ih =>
    obtain ⟨rfl,further⟩ := ih (follows k next)
    constructor
    · rw [begins,window,List.take_take,Nat.min_eq_left (Nat.le_succ limit),Nat.succ_mul,← List.drop_drop,List.take_append_drop]
    · intro j upto inside
      rcases Nat.eq_or_lt_of_le upto with rfl | later
      · exact next
      · exact further j later inside

theorem mapSame {g : α → β} (agree : ∀ a ∈ rows, ∀ b ∈ rows, key a = key b → g a = g b) (arranged : Arranged key rows xs)
    (arranged' : Arranged key rows ys) : xs.map g = ys.map g := by
  refine List.ext_getElem? fun n => ?_
  have keys := congrArg (fun keys : List κ => keys[n]?) ((keysSame arranged).trans (keysSame arranged').symm)
  simp only [List.getElem?_map] at keys ⊢
  cases here : xs[n]? with
  | none =>
    rw [here] at keys
    rw [Option.map_eq_none_iff.mp keys.symm]
  | some a =>
    rw [here] at keys
    obtain ⟨b,there,same⟩ := Option.map_eq_some_iff.mp keys.symm
    rw [there,Option.map_some,Option.map_some,agree a (arranged.perm.mem_iff.mp (List.mem_of_getElem? here)) b
      (arranged'.perm.mem_iff.mp (List.mem_of_getElem? there)) same.symm]

variable {label : α → Option ι} {wanted : ι → Prop}

theorem labelsOnceOf (some_ : 0 < limit) (first : start 0 = 0)
    (steps : ∀ k, k * limit + limit < rows.length → can (k + 1) ∧ start (k + 1) = (k + 1) * limit)
    (single : LabelsOnce label wanted rows) (apart : LabelsApart key label wanted rows) (arranged : ∀ o, Arranged key rows (arrange o)) :
    ∃ out, Reads start can (window arrange limit) limit 0 out ∧ LabelsOnce label wanted out := by
  classical
  let shownLabel (x : α) : Option ι := (label x).filter fun i => wanted i
  have labelled (x : α) (i : ι) (want : wanted i) : shownLabel x = some i ↔ label x = some i := by
    rw [Option.filter_eq_some_iff,decide_eq_true_iff]
    exact and_iff_left want
  have agree : ∀ a ∈ rows, ∀ b ∈ rows, key a = key b → shownLabel a = shownLabel b := by
    intro a mem b mem' same
    refine Option.ext fun i => ?_
    by_cases want : wanted i
    · rw [labelled a i want,labelled b i want]
      exact ⟨fun here => apart a mem b mem' i want here same ▸ here,fun here => apart b mem' a mem i want here same.symm ▸ here⟩
    · have never (x : α) : shownLabel x ≠ some i := fun here => want (of_decide_eq_true (Option.filter_eq_some_iff.mp here).2)
      exact ⟨fun here => absurd here (never a),fun here => absurd here (never b)⟩
  have sorted := sortedArranged key rows
  have shown : (fun offset => (window arrange limit offset).map shownLabel) =
      window (fun _ => (Ranking.sortBy key rows).map shownLabel) limit := by
    funext offset
    rw [window,window,List.map_take,List.map_drop,mapSame agree (arranged offset) sorted]
  have reads := alikeReads ((Ranking.sortBy key rows).map shownLabel) some_
    (by rw [List.length_map,sorted.perm.length_eq]; exact steps) (k := 0) (by rw [first,Nat.zero_mul])
  rw [← shown,Nat.zero_mul,List.drop_zero] at reads
  obtain ⟨out,reads,same⟩ := readsMap shownLabel reads
  refine ⟨out,reads,fun i want => ?_⟩
  have count (xs : List α) : (xs.filter fun x => label x = some i).length = (xs.map shownLabel).count (some i) := by
    rw [List.count,List.countP_map,List.countP_eq_length_filter]
    refine congrArg List.length (List.filter_congr fun x _ => ?_)
    simp only [Function.comp_apply,beq_eq_decide,labelled x i want]
  rw [count,same,← count,(sorted.perm.filter _).length_eq]
  exact single i want

/-- Two rows that tie may stand one behind the other. -/
theorem nextTo {a b : α} (mem : a ∈ rows) (mem' : b ∈ rows) (differ : a ≠ b) (same : key a = key b) :
    ∃ xs n, Arranged key rows xs ∧ xs[n]? = some a ∧ xs[n + 1]? = some b := by
  classical
  have whole : rows.Perm (a::b::(rows.erase a).erase b) :=
    (List.perm_cons_erase mem).trans ((List.perm_cons_erase ((List.mem_erase_of_ne differ.symm).mpr mem')).cons a)
  let low := Ranking.sortBy key (((rows.erase a).erase b).filter fun x => key x < key a)
  let high := Ranking.sortBy key (((rows.erase a).erase b).filter fun x => !decide (key x < key a))
  have below : ∀ x ∈ low, key x < key a := fun x inside =>
    of_decide_eq_true (List.mem_filter.mp (Ranking.memSortBy.mp inside)).2
  have above : ∀ x ∈ high, key a ≤ key x := fun x inside => by
    simpa using (List.mem_filter.mp (Ranking.memSortBy.mp inside)).2
  refine ⟨low ++ a::b::high,low.length,⟨?_,?_⟩,?_,?_⟩
  · refine (List.perm_middle.trans (List.perm_middle.cons a)).trans (List.Perm.trans ?_ whole.symm)
    exact ((((Ranking.sortByPerm key _).append (Ranking.sortByPerm key _)).trans (List.filter_append_perm _ _)).cons b).cons a
  · refine List.pairwise_map.mpr (List.pairwise_append.mpr ⟨Ranking.sortBySorted key _,?_,?_⟩)
    · refine List.pairwise_cons.mpr ⟨?_,List.pairwise_cons.mpr ⟨fun x inside => same ▸ above x inside,Ranking.sortBySorted key _⟩⟩
      intro x inside
      rcases List.mem_cons.mp inside with rfl | inside
      · exact same.le
      · exact above x inside
    · intro x inside y behind
      refine (below x inside).le.trans ?_
      rcases List.mem_cons.mp behind with rfl | behind
      · exact le_rfl
      · rcases List.mem_cons.mp behind with rfl | behind
        · exact same.le
        · exact above y behind
  · rw [List.getElem?_append_right (Nat.le_refl _),Nat.sub_self]
    rfl
  · rw [List.getElem?_append_right (Nat.le_succ _),Nat.succ_eq_add_one,Nat.add_sub_cancel_left]
    rfl

/-- Read with one row a page. -/
theorem labelsOnceNeeds (first : start 0 = 0) (follows : ∀ k, can (k + 1) → start (k + 1) = (k + 1) * 1)
    (once : ∀ arrange, (∀ o, Arranged key rows (arrange o)) →
      ∃ out, Reads start can (window arrange 1) 1 0 out ∧ LabelsOnce label wanted out) :
    LabelsOnce label wanted rows ∧ LabelsApart key label wanted rows ∧ ∀ k, k + 1 < rows.length → can (k + 1) := by
  have every (xs : List α) (arranged : Arranged key rows xs) :
      LabelsOnce label wanted xs ∧ ∀ k, k + 1 < rows.length → can (k + 1) := by
    obtain ⟨out,reads,labels⟩ := once (fun _ => xs) fun _ => arranged
    obtain ⟨rfl,further⟩ := alikeRead follows reads (by rw [first,Nat.zero_mul])
    exact ⟨labels,fun k more => further k (Nat.zero_le k) (by rw [Nat.mul_one,arranged.perm.length_eq]; exact more)⟩
  have sorted := sortedArranged key rows
  obtain ⟨labels,further⟩ := every _ sorted
  refine ⟨fun i want => ?_,fun a mem b mem' i want here same => ?_,further⟩
  · rw [← (sorted.perm.filter _).length_eq]
    exact labels i want
  · by_contra differ
    obtain ⟨xs,n,arranged,before,behind⟩ := nextTo mem mem' differ same
    obtain ⟨ys,swapped,moved⟩ := swapArranged arranged before behind same
    have inside : n + 1 < xs.length := (List.getElem?_eq_some_iff.mp behind).1
    have starts (j : Nat) (upto : j ≤ n + 1) : start j = j * 1 := by
      cases j with
      | zero => exact first
      | succ j => exact follows j (further j (by rw [← arranged.perm.length_eq]; omega))
    -- only the page behind `a` has the two rows the other way round
    obtain ⟨out,reads,repeated⟩ := once (fun offset => if offset = n + 1 then ys else xs) fun offset => by
      split <;> assumption
    have alike (j : Nat) (upto : j ≤ n) : start j = j * 1 ∧ (if j * 1 = n + 1 then ys else xs) = xs :=
      ⟨starts j (by omega),if_neg (by omega)⟩
    obtain ⟨rest,rfl,_,later⟩ := readsFull reads alike (by omega)
    have again : a ∈ rest := readsHead later (by
      rw [starts (n + 1) (le_refl _),Nat.mul_one,window,if_pos rfl,List.take_take,Nat.min_eq_left (Nat.le_succ 1)]
      refine List.mem_iff_getElem?.mpr ⟨0,?_⟩
      rw [List.getElem?_take_of_lt Nat.one_pos,List.getElem?_drop]
      exact moved)
    have once_ : a ∈ xs.take (n * 1 + 1) := List.mem_iff_getElem?.mpr ⟨n,by
      rw [Nat.mul_one,List.getElem?_take_of_lt (Nat.lt_succ_self n)]
      exact before⟩
    have two := repeated i want
    rw [List.filter_append,List.length_append] at two
    have counts {part : List α} (mem : a ∈ part) : 0 < (part.filter fun x => label x = some i).length :=
      List.length_pos_of_mem (List.mem_filter.mpr ⟨mem,decide_eq_true here⟩)
    have early := counts once_
    have late := counts again
    omega

end

/-! A cursor asks for the pages by their offsets, which do not grow beyond a cap. -/

theorem cutsReads {α : Type} {shown : Nat → List α} {limit cap k : Nat} {out : List α} :
    Paging.Cuts shown limit cap (min (k * limit) cap) out ↔
      Reads (fun k => min (k * limit) cap) (fun _ => True) shown limit k out := by
  have next (k : Nat) : min (min (k * limit) cap + limit) cap = min ((k + 1) * limit) cap := by
    rw [Nat.succ_mul]
    omega
  constructor
  · intro cuts
    generalize at_ : min (k * limit) cap = offset at cuts
    induction cuts generalizing k with
    | last done =>
      subst at_
      exact .last done
    | more more _ ih =>
      subst at_
      exact .more more trivial (ih (next k).symm)
  · intro reads
    induction reads with
    | last done => exact .last done
    | @more k _ more _ _ ih => exact .more more (next k ▸ ih)

end RustMcp.TiedPages
