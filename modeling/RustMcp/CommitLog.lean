import Mathlib.Data.List.Basic

/-! A state in regions, and a log of what was committed to which of them. -/
namespace RustMcp.CommitLog

variable {σ κ ρ : Type} [DecidableEq κ]

/-- What the last entry of a region left there. -/
def latest (k : κ) : List (κ × ρ) → Option ρ
  | [] => none
  | entry::log => (latest k log).or (if entry.1 = k then some entry.2 else none)

theorem latestAppend (k : κ) (log later : List (κ × ρ)) :
    latest k (log ++ later) = (latest k later).or (latest k log) := by
  induction log with
  | nil => simp [latest]
  | cons entry log ih => rw [List.cons_append,latest,latest,ih,Option.or_assoc]

theorem latestSource {k : κ} {log : List (κ × ρ)} {content : ρ} (last : latest k log = some content) : (k,content) ∈ log := by
  induction log with
  | nil => cases last
  | cons entry log ih =>
    rw [latest,Option.or_eq_some_iff] at last
    rcases last with later | ⟨-,here⟩
    · exact List.mem_cons_of_mem _ (ih later)
    · split at here
      · rename_i own
        rw [← Option.some.inj here,← own]
        exact List.mem_cons_self
      · cases here

theorem latestNone {k : κ} {log : List (κ × ρ)} : latest k log = none ↔ ∀ entry ∈ log, entry.1 ≠ k := by
  induction log with
  | nil => simp [latest]
  | cons entry log ih => simp [latest,ih,and_comm]

theorem latestSome {k : κ} {log : List (κ × ρ)} : (∃ content, latest k log = some content) ↔ ∃ entry ∈ log, entry.1 = k := by
  rw [← Option.isSome_iff_exists,← Option.ne_none_iff_isSome,ne_eq,latestNone]
  simp only [ne_eq,not_forall,not_not,exists_prop]

variable (view : κ → σ → ρ)

/-- A region holds what the log says, and without an entry what it held before. -/
def Led (before after : σ) (log : List (κ × ρ)) : Prop := ∀ k, view k after = (latest k log).getD (view k before)

theorem ledStill (state : σ) : Led view state state ([] : List (κ × ρ)) := fun _ => rfl

variable {view}

theorem ledAppend {before between after : σ} {log later : List (κ × ρ)} (first : Led view before between log)
    (second : Led view between after later) : Led view before after (log ++ later) := by
  intro k
  rw [second k,first k,latestAppend]
  cases latest k later <;> rfl

/-- A commit that leaves the other regions as they are. -/
theorem ledCommit {before after : σ} {k : κ} (others : ∀ other ≠ k, view other after = view other before) :
    Led view before after [(k,view k after)] := by
  intro other
  by_cases own : k = other
  · simp [latest,own]
  · simp [latest,own,others other (Ne.symm own)]

end RustMcp.CommitLog
