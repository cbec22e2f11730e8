import Mathlib

/-! A chain of links followed to its end, or to a node that has been passed before. -/
namespace RustMcp.Chains

variable {α : Type} [DecidableEq α] (next : α → Option α)

/-- One node a round; none where the rounds do not suffice. -/
def follow : Nat → List α → α → Option α
  | 0, _, _ => none
  | rounds + 1, seen, current =>
    if current ∈ seen then some current
    else match next current with
      | none => some current
      | some following => follow rounds (current::seen) following

inductive EndsAt : α → α → Prop where
  | here {x : α} (last : next x = none) : EndsAt x x
  | link {x y e : α} (step : next x = some y) (rest : EndsAt y e) : EndsAt x e

def Acyclic : Prop := ∀ x, ¬Relation.TransGen (fun a b => next a = some b) x x

variable {next}

omit [DecidableEq α] in
theorem EndsAt.last {x e : α} (ends : EndsAt next x e) : next e = none := by
  induction ends with
  | here last => exact last
  | link _ _ ih => exact ih

omit [DecidableEq α] in
theorem EndsAt.unique {x e e' : α} (ends : EndsAt next x e) (ends' : EndsAt next x e') : e = e' := by
  induction ends with
  | here last =>
    cases ends' with
    | here => rfl
    | link step => rw [last] at step; contradiction
  | link step _ ih =>
    cases ends' with
    | here last => rw [last] at step; contradiction
    | link step' rest =>
      cases Option.some.inj (step.symm.trans step')
      exact ih rest

/-- Every round passes one more of the nodes that have a link. -/
theorem followReturns {nodes : List α} (only : ∀ x, next x ≠ none → x ∈ nodes) {rounds : Nat} {seen : List α} {x : α}
    (enough : (nodes.filter fun node => node ∉ seen).length < rounds) : ∃ e, follow next rounds seen x = some e := by
  induction rounds generalizing seen x with
  | zero => exact absurd enough (Nat.not_lt_zero _)
  | succ rounds ih =>
    rw [follow]
    split
    · exact ⟨x,rfl⟩
    · rename_i fresh
      cases step : next x with
      | none => exact ⟨x,rfl⟩
      | some y =>
        refine ih ?_
        have mem : x ∈ nodes := only x (by rw [step]; exact Option.some_ne_none y)
        have passed : (nodes.filter fun node => node ∉ x::seen) =
            (nodes.filter fun node => node ∉ seen).filter fun node => node ≠ x := by
          rw [List.filter_filter]
          exact List.filter_congr fun node _ => by simp [not_or]
        have fewer : ((nodes.filter fun node => node ∉ seen).filter fun node => node ≠ x).length <
            (nodes.filter fun node => node ∉ seen).length :=
          List.length_filter_lt_length_iff_exists.mpr ⟨x,List.mem_filter.mpr ⟨mem,by simpa using fresh⟩,by simp⟩
        rw [passed]
        omega

theorem followMore {rounds rounds' : Nat} {seen : List α} {x e : α} (returns : follow next rounds seen x = some e)
    (more : rounds ≤ rounds') : follow next rounds' seen x = some e := by
  induction rounds generalizing rounds' seen x with
  | zero => contradiction
  | succ rounds ih =>
    obtain ⟨rounds',rfl⟩ : ∃ n, rounds' = n + 1 := ⟨rounds' - 1,by omega⟩
    rw [follow] at returns ⊢
    split at returns
    · rename_i passed
      rw [if_pos passed]
      exact returns
    · rename_i fresh
      rw [if_neg fresh]
      cases step : next x with
      | none => rw [step] at returns; exact returns
      | some y => rw [step] at returns; exact ih returns (Nat.le_of_succ_le_succ more)

theorem followEnds (acyclic : Acyclic next) {rounds : Nat} {seen : List α} {x e : α}
    (behind : ∀ s ∈ seen, Relation.TransGen (fun a b => next a = some b) s x) (returns : follow next rounds seen x = some e) :
    EndsAt next x e := by
  induction rounds generalizing seen x with
  | zero => contradiction
  | succ rounds ih =>
    rw [follow] at returns
    split at returns
    · rename_i passed
      exact absurd (behind x passed) (acyclic x)
    · cases step : next x with
      | none =>
        rw [step] at returns
        cases Option.some.inj returns
        exact .here step
      | some y =>
        rw [step] at returns
        refine .link step (ih (fun s mem => ?_) returns)
        rcases List.mem_cons.mp mem with rfl | old
        · exact .single step
        · exact .tail (behind s old) step

end RustMcp.Chains
