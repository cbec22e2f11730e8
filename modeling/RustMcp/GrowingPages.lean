import RustMcp.Paging

/-! Pages of a listing that is gathered anew for every page, and has more in it then: each
page is cut from a part of the whole, and the parts grow. -/
namespace RustMcp.GrowingPages
open Paging (Cuts)

section
variable {α : Type} {listing : Nat → List α} {whole : List α} {shown : Nat → List α} {limit cap k : Nat} {out : List α}

/-- What a part of a list has at its head, but the rest of the list has not, is the head of the list. -/
theorem headSame {part whole : List α} (sub : part.Sublist whole) {n : Nat} {x : α} (last : part[n]? = some x)
    (behind : x ∉ whole.drop (n + 1)) : part.take (n + 1) = whole.take (n + 1) := by
  have split := List.take_append_drop (n + 1) whole
  rw [← split,List.sublist_append_iff] at sub
  obtain ⟨head,tail,rfl,within,later⟩ := sub
  have long : n < head.length := by
    by_contra short
    rw [List.getElem?_append_right (Nat.le_of_not_lt short)] at last
    exact behind (later.subset (List.mem_of_getElem? last))
  have full := within.eq_of_length_le (by rw [List.length_take]; omega)
  have exact_ : head.length = n + 1 := by
    have least := within.length_le
    rw [List.length_take] at least
    omega
  rw [List.take_left' exact_,full]

theorem headWithin {part whole : List α} (sub : part.Sublist whole) (once : whole.Nodup) {n : Nat} (inside : whole.take n ⊆ part) :
    part.take n = whole.take n := by
  have split := List.take_append_drop n whole
  rw [← split] at sub once
  obtain ⟨head,tail,rfl,within,later⟩ := List.sublist_append_iff.mp sub
  have apart := List.disjoint_of_nodup_append once
  have all : whole.take n ⊆ head := fun x mem =>
    (List.mem_append.mp (inside mem)).resolve_right fun again => apart mem (later.subset again)
  have least := (List.subperm_of_subset (List.nodup_append.mp once).1 all).length_le
  have full := within.eq_of_length_le least
  rw [full]
  by_cases short : n ≤ whole.length
  · rw [List.take_left' (by rw [List.length_take]; omega)]
  · have none_ : tail = [] := by
      rw [List.drop_eq_nil_of_le (by omega)] at later
      exact List.sublist_nil.mp later
    rw [none_,List.append_nil,List.take_take,Nat.min_self]

structure Grows (listing : Nat → List α) (whole : List α) (cap : Nat) : Prop where
  more : ∀ o o', o ≤ o' → (listing o).Sublist (listing o')
  within : ∀ o, (listing o).Sublist whole
  once : whole.Nodup
  small : ∀ o, (listing o).length ≤ cap

/-- Ranking keeps what is left out of a part left out. -/
theorem rankedGrows {κ : Type} [LinearOrder κ] {key : α → κ} (nodup : whole.Nodup)
    (distinct : ∀ x ∈ whole, ∀ y ∈ whole, key x = key y → x = y) (more : ∀ o o', o ≤ o' → (listing o).Sublist (listing o'))
    (within : ∀ o, (listing o).Sublist whole) (small : ∀ o, (listing o).length ≤ cap) :
    Grows (fun o => Ranking.sortBy key (listing o)) (Ranking.sortBy key whole) cap := by
  have strict {part : List α} (sub : part.Sublist whole) : (Ranking.sortBy key part).Pairwise fun a b => key a < key b :=
    Ranking.sortByStrict (nodup.sublist sub) fun x mem y mem' => distinct x (sub.subset mem) y (sub.subset mem')
  have antisymm : Std.Antisymm fun a b : α => key a < key b := ⟨fun a b below above => absurd above (lt_asymm below)⟩
  have ranked {part full : List α} (sub : part.Sublist full) (inside : full.Sublist whole) :
      (Ranking.sortBy key part).Sublist (Ranking.sortBy key full) := by
    refine List.sublist_of_subperm_of_pairwise ?_ (strict (sub.trans inside)) (strict inside)
    exact ((Ranking.sortByPerm key part).subperm_right.mpr ((Ranking.sortByPerm key full).subperm_left.mpr sub.subperm))
  refine ⟨fun o o' upto => ranked (more o o' upto) (within o'),fun o => ranked (within o) (List.Sublist.refl _),?_,fun o => ?_⟩
  · exact (Ranking.sortByPerm key whole).nodup_iff.mpr nodup
  · exact (Ranking.sortByPerm key (listing o)).length_eq ▸ small o

/-- What stands behind an offset in the list of its page is shown sooner or later. -/
theorem behindShown (grows : Grows listing whole cap) (scans : ∀ o, shown o = ((listing o).drop o).take (limit + 1)) {offset : Nat}
    (cuts : Cuts shown limit cap offset out) : (listing offset).drop offset ⊆ out := by
  induction cuts with
  | @last offset done =>
    rw [scans,List.length_take] at done
    rw [scans,List.take_of_length_le (by omega)]
    exact List.Subset.refl _
  | @more offset out more rest ih =>
    rw [scans,List.length_take,List.length_drop] at more
    have small := grows.small offset
    have next : min (offset + limit) cap = offset + limit := Nat.min_eq_left (by omega)
    rw [next] at ih
    intro x mem
    rw [← List.take_append_drop limit ((listing offset).drop offset),List.drop_drop] at mem
    rcases List.mem_append.mp mem with here | later
    · refine List.mem_append_left _ ?_
      rwa [scans,List.take_take,Nat.min_eq_left (Nat.le_succ limit)]
    · have grown := (grows.more offset (offset + limit) (Nat.le_add_right _ _)).drop (offset + limit)
      exact List.mem_append_right _ (ih (grown.subset later))

/-- Where nothing is shown twice, the pages up to each one are the head of the list of the last. -/
theorem headsSame (grows : Grows listing whole cap) (scans : ∀ o, shown o = ((listing o).drop o).take (limit + 1)) (some_ : 0 < limit)
    (cuts : Cuts shown limit cap (k * limit) out) (once : out.Nodup) :
    ∃ m, k ≤ m ∧ (listing (m * limit)).length ≤ m * limit + limit ∧ out ⊆ listing (m * limit) ∧
      ∀ j, k ≤ j → j < m → j * limit + limit < (listing (j * limit)).length ∧
        (listing (j * limit)).take (j * limit + limit) = (listing (m * limit)).take (j * limit + limit) := by
  generalize at_ : k * limit = offset at cuts
  induction cuts generalizing k with
  | @last offset done =>
    subst at_
    rw [scans,List.length_take,List.length_drop] at done
    refine ⟨k,le_refl k,by omega,?_,fun j from_ below => absurd from_ (Nat.not_le_of_lt below)⟩
    rw [scans]
    exact fun x mem => List.mem_of_mem_drop (List.mem_of_mem_take mem)
  | @more offset out more rest ih =>
    subst at_
    have small := grows.small (k * limit)
    have length := more
    rw [scans,List.length_take,List.length_drop] at length
    have next : min (k * limit + limit) cap = (k + 1) * limit := by rw [Nat.succ_mul]; omega
    rw [next] at rest ih
    obtain ⟨m,least,short,inside,heads⟩ := ih (List.nodup_append.mp once).2.1 rfl
    have step : k * limit + limit = (k + 1) * limit := (Nat.succ_mul k limit).symm
    -- the last element of the page is not shown again
    obtain ⟨x,last⟩ : ∃ x, (listing (k * limit))[k * limit + limit - 1]? = some x :=
      ⟨_,List.getElem?_eq_getElem (by omega)⟩
    have page : x ∈ (shown (k * limit)).take limit := by
      rw [scans,List.take_take,Nat.min_eq_left (Nat.le_succ limit)]
      refine List.mem_iff_getElem?.mpr ⟨limit - 1,?_⟩
      rw [List.getElem?_take_of_lt (by omega),List.getElem?_drop,← last]
      congr 1
      omega
    have behind : x ∉ (listing ((k + 1) * limit)).drop (k * limit + limit - 1 + 1) := fun again => by
      rw [Nat.sub_add_cancel (by omega),step] at again
      exact List.disjoint_of_nodup_append once page (behindShown grows scans rest again)
    have same := headSame (grows.more (k * limit) ((k + 1) * limit) (by rw [Nat.succ_mul]; omega)) last behind
    rw [Nat.sub_add_cancel (by omega)] at same
    refine ⟨m,by omega,short,fun x mem => ?_,fun j from_ below => ?_⟩
    · rcases List.mem_append.mp mem with here | later
      · rw [scans] at here
        have own := List.mem_of_mem_drop (List.mem_of_mem_take (List.mem_of_mem_take here))
        exact (grows.more _ _ (Nat.mul_le_mul_right limit (by omega))).subset own
      · exact inside later
    · rcases Nat.eq_or_lt_of_le from_ with rfl | further
      · refine ⟨by omega,same.trans ?_⟩
        rcases Nat.eq_or_lt_of_le least with rfl | beyond
        · rfl
        · have head := congrArg (List.take (k * limit + limit)) (heads (k + 1) (le_refl _) beyond).2
          rwa [List.take_take,List.take_take,Nat.min_eq_left (by rw [step]; omega)] at head
      · exact heads j further below

/-- The list of a page has what is in the whole up to the end of the page, and goes on when the whole does. -/
def Reaches (listing : Nat → List α) (whole : List α) (limit k : Nat) : Prop :=
  whole.take (k * limit + limit) ⊆ listing (k * limit) ∧
    (k * limit + limit < whole.length → k * limit + limit < (listing (k * limit)).length)

theorem reachesOf (grows : Grows listing whole cap) (scans : ∀ o, shown o = ((listing o).drop o).take (limit + 1)) (some_ : 0 < limit)
    (cuts : Cuts shown limit cap 0 out) (perm : out.Perm whole) (k : Nat) (begins : k = 0 ∨ k * limit < whole.length) :
    Reaches listing whole limit k := by
  have cuts : Cuts shown limit cap (0 * limit) out := by rwa [Nat.zero_mul]
  obtain ⟨m,_,short,inside,heads⟩ := headsSame grows scans some_ cuts (perm.nodup_iff.mpr grows.once)
  have all : listing (m * limit) = whole :=
    (grows.within _).eq_of_length_le
      (perm.length_eq ▸ (List.subperm_of_subset (perm.nodup_iff.mpr grows.once) inside).length_le)
  rw [all] at short heads
  have upto : k ≤ m := by
    by_contra beyond
    have later := Nat.mul_le_mul_right limit (Nat.succ_le_of_lt (Nat.lt_of_not_le beyond))
    rw [Nat.succ_mul] at later
    rcases begins with rfl | begins <;> omega
  rcases Nat.eq_or_lt_of_le upto with rfl | before
  · rw [Reaches,all]
    exact ⟨List.take_subset _ _,id⟩
  · obtain ⟨more,head⟩ := heads k (Nat.zero_le k) before
    exact ⟨head ▸ List.take_subset _ _,fun _ => more⟩

theorem reachedCuts (grows : Grows listing whole cap) (scans : ∀ o, shown o = ((listing o).drop o).take (limit + 1)) (some_ : 0 < limit)
    (reaches : ∀ k, k = 0 ∨ k * limit < whole.length → Reaches listing whole limit k)
    (begins : k = 0 ∨ k * limit < whole.length) : Cuts shown limit cap (k * limit) (whole.drop (k * limit)) := by
  induction rest : whole.length - k * limit using Nat.strong_induction_on generalizing k with
  | _ n ih =>
    obtain ⟨inside,goesOn⟩ := reaches k begins
    have head := headWithin (grows.within (k * limit)) grows.once inside
    have fewer := (grows.within (k * limit)).length_le
    have small := grows.small (k * limit)
    by_cases more : k * limit + limit < whole.length
    · have longer := goesOn more
      have next : min (k * limit + limit) cap = (k + 1) * limit := by rw [Nat.succ_mul]; omega
      have step : k * limit + limit = (k + 1) * limit := (Nat.succ_mul k limit).symm
      have later := ih (whole.length - (k + 1) * limit) (by omega) (Or.inr (by omega)) rfl
      rw [← next] at later
      have page : (shown (k * limit)).take limit = (whole.drop (k * limit)).take limit := by
        have cut := congrArg (List.drop (k * limit)) head
        rw [List.drop_take,List.drop_take,Nat.add_sub_cancel_left] at cut
        rw [scans,List.take_take,Nat.min_eq_left (Nat.le_succ limit),cut]
      have split : (shown (k * limit)).take limit ++ whole.drop (min (k * limit + limit) cap) = whole.drop (k * limit) := by
        rw [next,← step,page,← List.drop_drop,List.take_append_drop]
      rw [← split]
      refine .more ?_ later
      rw [scans,List.length_take,List.length_drop]
      omega
    · have all : whole.drop (k * limit) = shown (k * limit) := by
        rw [List.take_of_length_le (by omega),List.take_of_length_le (by omega)] at head
        rw [scans,head,List.take_of_length_le (by rw [List.length_drop]; omega)]
      rw [all]
      refine .last ?_
      rw [← all,List.length_drop]
      omega

end
end RustMcp.GrowingPages
