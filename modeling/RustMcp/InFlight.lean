import RustMcp.QueueSafety

/-! What the queue carries: requests on their way in, rows that can still be
claimed or put back, and rows that workers hold. It all comes from requests. -/
namespace RustMcp.InFlight
open Str (Text)
open RefreshQueue RefreshRuns QueueSafety

variable {P : Type}

structure Cargo (P : Type) where
  crateName : Text
  scope : Text
  payload : P

def requestCargo (request : Request P) : Cargo P := ⟨request.crateName,request.scope,request.payload⟩
def jobCargo (job : RefreshJob P) : Cargo P := ⟨job.crateName,job.scope,job.payload⟩
def rowCargo (row : RefreshJobQueueRow P) : Cargo P := ⟨row.crateName,row.scope,row.payload⟩

def Asks (pc : Caller P) (request : Request P) : Prop := pc = .selecting request ∨ pc = .inserting request

def Held (s : State P) (id : Nat) : Prop := ∃ worker row, s.workers worker = .holding row ∧ row.id = id

inductive Carries (s : State P) : Cargo P → Prop where
  | asked {caller : Nat} {request : Request P} (asks : Asks (s.callers caller) request) : Carries s (requestCargo request)
  | stored {job : RefreshJob P} (inside : job ∈ s.jobs) (open_ : job.status = .pending ∨ Held s job.id) :
      Carries s (jobCargo job)
  | held {worker : Nat} {row : RefreshJobQueueRow P} (here : s.workers worker = .holding row) : Carries s (rowCargo row)

variable {lower : Text → Text} {s s' : State P} {event : Event P} {cargo : Cargo P}

theorem asksUpdate {callers : Nat → Caller P} {caller k : Nat} {pc : Caller P} {request : Request P}
    (asks : Asks (Function.update callers caller pc k) request) : Asks pc request ∨ Asks (callers k) request := by
  by_cases here : k = caller
  · subst here; rw [Function.update_self] at asks; exact Or.inl asks
  · rw [Function.update_of_ne here] at asks; exact Or.inr asks

theorem heldUpdate {workers : Nat → Worker P} {worker w : Nat} {pc : Worker P} {row : RefreshJobQueueRow P}
    (holds : Function.update workers worker pc w = .holding row) :
    (w = worker ∧ pc = .holding row) ∨ workers w = .holding row := by
  by_cases here : w = worker
  · subst here; rw [Function.update_self] at holds; exact Or.inl ⟨rfl,holds⟩
  · rw [Function.update_of_ne here] at holds; exact Or.inr holds

theorem deliverAsks {id : Nat} {outcome : JobOutcome} {pc : Caller P} {request : Request P}
    (asks : Asks (deliver id outcome pc) request) : Asks pc request := by
  unfold deliver at asks
  split at asks
  · split at asks
    · rcases asks with h | h <;> contradiction
    · exact asks
  · exact asks

/-- A worker that no longer holds its row holds nothing else. -/
theorem heldLeft {worker id : Nat} {pc : Worker P} (moved : s'.workers = Function.update s.workers worker pc)
    (left : ∀ row, pc ≠ .holding row) (held : Held s' id) : Held s id := by
  obtain ⟨w,row,holds,same⟩ := held
  rw [moved] at holds
  rcases heldUpdate holds with ⟨_,now⟩ | before
  · exact absurd now (left row)
  · exact ⟨w,row,before,same⟩

/-- The caller asks for nothing new, and nothing else moves. -/
theorem Carries.calm {caller : Nat} {pc : Caller P} (calm : ∀ request, Asks pc request → Asks (s.callers caller) request)
    {waiters : List Nat} (carried : Carries ({s with waiters := waiters}.call caller pc) cargo) : Carries s cargo := by
  cases carried with
  | asked asks =>
    rcases asksUpdate asks with now | before
    · exact .asked (calm _ now)
    · exact .asked before
  | stored inside open_ => exact .stored inside open_
  | held here => exact .held here

/-- The worker lets go of its row, and rows are changed by id without their cargo. -/
theorem Carries.released (change : RefreshJob P → RefreshJob P) {worker id : Nat} {pc : Worker P}
    (left : ∀ row, pc ≠ .holding row) (here : Held s id) (kept : ∀ job, jobCargo (change job) = jobCargo job)
    (carried : Carries ((s.store (updateJob id change s.jobs)).work worker pc) cargo) : Carries s cargo := by
  cases carried with
  | asked asks => exact .asked asks
  | stored inside open_ =>
    rcases memUpdate.mp inside with ⟨old,there,rfl,rfl⟩ | ⟨there,_⟩
    · rw [kept]; exact .stored there (Or.inr here)
    · exact .stored there (open_.imp_right (heldLeft rfl left))
  | held holds =>
    rcases heldUpdate holds with ⟨_,now⟩ | before
    · exact absurd now (left _)
    · exact .held before

theorem carriedMove (inv : QueueInv s) (move : Move lower s event s') (carried : Carries s' cargo) :
    Carries s cargo ∨ ∃ caller request, event = .request caller request ∧ cargo = requestCargo request := by
  cases move with
  | tick =>
    cases carried with
    | asked asks => exact Or.inl (.asked asks)
    | stored inside open_ => exact Or.inl (.stored inside open_)
    | held here => exact Or.inl (.held here)
  | nothing => exact Or.inl carried
  | request caller request =>
    cases carried with
    | asked asks =>
      rcases asksUpdate asks with (now | now) | before
      · cases now; exact Or.inr ⟨caller,request,rfl,rfl⟩
      · contradiction
      · exact Or.inl (.asked before)
    | stored inside open_ => exact Or.inl (.stored inside open_)
    | held here => exact Or.inl (.held here)
  | coalesce | register | subscribe | missing | timeout | drop =>
    exact Or.inl (carried.calm fun _ asks => by rcases asks with h | h <;> contradiction)
  | miss caller request here =>
    refine Or.inl (carried.calm fun asked asks => ?_)
    rcases asks with h | h
    · contradiction
    · cases h; exact Or.inl here
  | insert caller request here =>
    have moved : Carries s (requestCargo request) := .asked (Or.inr here)
    cases carried with
    | asked asks =>
      rcases asksUpdate asks with (now | now) | before
      · contradiction
      · contradiction
      · exact Or.inl (.asked before)
    | stored inside open_ =>
      rcases List.mem_append.mp inside with old | new
      · exact Or.inl (.stored old open_)
      · rw [List.mem_singleton.mp new]; exact Or.inl moved
    | held here => exact Or.inl (.held here)
  | claim worker _ job here inside pending _ =>
    have taken : Carries s (jobCargo job) := .stored inside (Or.inl pending)
    cases carried with
    | asked asks => exact Or.inl (.asked asks)
    | stored changed open_ =>
      rcases memUpdate.mp changed with ⟨old,there,same,rfl⟩ | ⟨there,differ⟩
      · rw [inv.same there inside same]; exact Or.inl taken
      · refine Or.inl (.stored there (open_.imp_right ?_))
        rintro ⟨w,row,holds,ids⟩
        rcases heldUpdate holds with ⟨_,now⟩ | before
        · cases now; exact absurd ids.symm differ
        · exact ⟨w,row,before,ids⟩
    | held holds =>
      rcases heldUpdate holds with ⟨_,now⟩ | before
      · cases now; exact Or.inl taken
      · exact Or.inl (.held before)
  | finish worker row here =>
    exact Or.inl (carried.released (finishJob s.clock) (by simp) ⟨worker,row,here,rfl⟩ fun _ => rfl)
  | fail worker retryDelay error row here =>
    exact Or.inl (carried.released (failJob s.clock (decide (row.attempts ≥ maxAttempts)) retryDelay error) (by simp)
      ⟨worker,row,here,rfl⟩ fun _ => rfl)
  | unmarked worker _ row _ here =>
    cases carried with
    | asked asks => exact Or.inl (.asked asks)
    | stored inside open_ => exact Or.inl (.stored inside (open_.imp_right (heldLeft rfl (by simp))))
    | held holds =>
      rcases heldUpdate holds with ⟨_,now⟩ | before
      · contradiction
      · exact Or.inl (.held before)
  | signal worker id outcome here =>
    cases carried with
    | asked asks =>
      dsimp only [State.work] at asks
      split at asks
      · exact Or.inl (.asked (deliverAsks asks))
      · exact Or.inl (.asked asks)
    | stored inside open_ => exact Or.inl (.stored inside (open_.imp_right (heldLeft rfl (by simp))))
    | held holds =>
      rcases heldUpdate holds with ⟨_,now⟩ | before
      · contradiction
      · exact Or.inl (.held before)
  | restart =>
    cases carried with
    | asked asks => rcases asks with h | h <;> contradiction
    | stored inside open_ =>
      rcases open_ with pending | ⟨_,_,holds,_⟩
      · exact Or.inl (.stored inside (Or.inl pending))
      · contradiction
    | held holds => contradiction

end RustMcp.InFlight
