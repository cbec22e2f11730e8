import RustMcp.RefreshQueue
import RustMcp.Runs

/-! Runs of the refresh queue: callers that enqueue and wait, and workers that
claim, finish and signal. Every statement, lock and await point is a step of its
own, so that calls and workers interleave between any two of them. -/
namespace RustMcp.RefreshRuns
open Str (Text)
open Runs RefreshQueue

inductive JobOutcome where
  | pending
  | completed
  | failed (error : Text)
  deriving DecidableEq

/-- `enqueue_or_get_refresh_job_id` up to `enqueued`; a tool handler goes on to register
and wait, the other callers stop there. -/
inductive Caller (P : Type) where
  | idle
  | selecting (request : Request P)
  | inserting (request : Request P)
  | enqueued (outcome : EnqueueOutcome)
  | registered (id : Nat)
  | waiting (id : Nat)
  | answered (outcome : JobOutcome)
  | timedOut
  deriving DecidableEq

inductive Worker (P : Type) where
  | idle
  | holding (job : RefreshJobQueueRow P)
  | signalling (id : Nat) (outcome : JobOutcome)
  deriving DecidableEq

structure State (P : Type) where
  clock : Nat
  jobs : List (RefreshJob P)
  nextId : Nat
  callers : Nat → Caller P
  workers : Nat → Worker P
  /-- the keys of the coordinator's map of completion channels -/
  waiters : List Nat

inductive Event (P : Type) where
  | tick (now : Nat)
  | request (caller : Nat) (request : Request P)
  | select (caller : Nat)
  | insert (caller : Nat)
  | register (caller : Nat)
  | wait (caller : Nat)
  | timeout (caller : Nat)
  | drop (caller : Nat)
  | claim (worker : Nat) (locked : List Nat)
  | finish (worker : Nat) (persisted : Bool)
  | fail (worker : Nat) (retryDelay : Nat) (error : Text) (persisted : Bool)
  | signal (worker : Nat)
  | restart

def maxAttempts : Nat := 3

section
variable {P : Type}

def State.call (s : State P) (caller : Nat) (pc : Caller P) : State P :=
  {s with callers := Function.update s.callers caller pc}

def State.work (s : State P) (worker : Nat) (pc : Worker P) : State P :=
  {s with workers := Function.update s.workers worker pc}

def State.store (s : State P) (jobs : List (RefreshJob P)) : State P := {s with jobs := jobs}

/-- The subscribers of a channel are sent its outcome. -/
def deliver (id : Nat) (outcome : JobOutcome) (pc : Caller P) : Caller P :=
  match pc with
  | .waiting id' => if id' = id then .answered outcome else pc
  | _ => pc

theorem deliverWaiting {id id' : Nat} {outcome : JobOutcome} {pc : Caller P} :
    deliver id' outcome pc = .waiting id ↔ pc = .waiting id ∧ id ≠ id' := by
  unfold deliver
  split
  · rename_i listens
    by_cases same : listens = id'
    · simp only [same,if_true,reduceCtorEq,Caller.waiting.injEq,false_iff]
      rintro ⟨rfl,differ⟩; contradiction
    · simp only [same,if_false,Caller.waiting.injEq]
      exact ⟨fun h => ⟨h,h ▸ same⟩,fun h => h.1⟩
  · rename_i other
    exact ⟨fun h => absurd h (other id),fun h => h.1⟩

theorem deliverEnqueued {id : Nat} {told : JobOutcome} {pc : Caller P} {outcome : EnqueueOutcome}
    (h : deliver id told pc = .enqueued outcome) : pc = .enqueued outcome := by
  unfold deliver at h
  split at h
  · split at h <;> contradiction
  · exact h

def step (lower : Text → Text) (s : State P) : Event P → Option (State P)
  | .tick now => if s.clock ≤ now then some {s with clock := now} else none
  | .request caller request => some (s.call caller (.selecting request))
  | .select caller =>
      match s.callers caller with
      | .selecting request =>
          match selectActive lower request.crateName request.scope s.jobs with
          | some id => some (s.call caller (.enqueued ⟨id,false⟩))
          | none => some (s.call caller (.inserting request))
      | _ => none
  | .insert caller =>
      match s.callers caller with
      | .inserting request =>
          some ({s with jobs := s.jobs ++ [insertedJob s.clock s.nextId request], nextId := s.nextId + 1}.call caller
            (.enqueued ⟨s.nextId,true⟩))
      | _ => none
  | .register caller =>
      match s.callers caller with
      | .enqueued outcome =>
          some ({s with waiters := s.waiters.insert outcome.jobId}.call caller (.registered outcome.jobId))
      | _ => none
  | .wait caller =>
      match s.callers caller with
      | .registered id =>
          -- no entry is taken for a completion that came before
          if s.waiters.contains id then some (s.call caller (.waiting id)) else some (s.call caller (.answered .completed))
      | _ => none
  | .timeout caller =>
      match s.callers caller with
      | .waiting _ => some (s.call caller .timedOut)
      | _ => none
  | .drop caller => some (s.call caller .idle)
  | .claim worker locked =>
      match s.workers worker with
      | .idle =>
          match claimNextRefreshJob s.clock locked s.jobs with
          | some (row,jobs) => some ((s.store jobs).work worker (.holding row))
          | none => some s
      | _ => none
  | .finish worker persisted =>
      match s.workers worker with
      | .holding job =>
          let jobs := if persisted then markRefreshJobFinished s.clock job.id s.jobs else s.jobs
          some ((s.store jobs).work worker (.signalling job.id .completed))
      | _ => none
  | .fail worker retryDelay error persisted =>
      match s.workers worker with
      | .holding job =>
          let terminal := decide (job.attempts ≥ maxAttempts)
          let jobs :=
            if persisted then markRefreshJobFailedOrRequeued s.clock job.id terminal retryDelay error s.jobs else s.jobs
          some ((s.store jobs).work worker (.signalling job.id (.failed error)))
      | _ => none
  | .signal worker =>
      match s.workers worker with
      | .signalling id outcome =>
          -- without an entry nobody is told
          let told := if s.waiters.contains id then fun c => deliver id outcome (s.callers c) else s.callers
          some ({s with waiters := s.waiters.filter (· ≠ id), callers := told}.work worker .idle)
      | _ => none
  -- the process is started again: the rows are all that stays
  | .restart => some {s with callers := fun _ => .idle, workers := fun _ => .idle, waiters := []}

/-- An empty queue, with nobody at work. -/
def Fresh (s : State P) : Prop :=
  s.jobs = [] ∧ (∀ caller, s.callers caller = .idle) ∧ (∀ worker, s.workers worker = .idle) ∧ s.waiters = []

def system (lower : Text → Text) : System (State P) (Event P) := ⟨Fresh,step lower⟩

def fresh : State P := ⟨0,[],1,fun _ => .idle,fun _ => .idle,[]⟩

theorem freshFresh : Fresh (fresh : State P) := ⟨rfl,fun _ => rfl,fun _ => rfl,rfl⟩

/-! What a step can do to the rows, the workers and the map of channels. -/

inductive Move (lower : Text → Text) (s : State P) : Event P → State P → Prop where
  | tick (now : Nat) (later : s.clock ≤ now) : Move lower s (.tick now) {s with clock := now}
  | request (caller : Nat) (request : Request P) :
      Move lower s (.request caller request) (s.call caller (.selecting request))
  | coalesce (caller : Nat) (request : Request P) (id : Nat) (here : s.callers caller = .selecting request)
      (found : selectActive lower request.crateName request.scope s.jobs = some id) :
      Move lower s (.select caller) (s.call caller (.enqueued ⟨id,false⟩))
  | miss (caller : Nat) (request : Request P) (here : s.callers caller = .selecting request)
      (found : selectActive lower request.crateName request.scope s.jobs = none) :
      Move lower s (.select caller) (s.call caller (.inserting request))
  | insert (caller : Nat) (request : Request P) (here : s.callers caller = .inserting request) :
      Move lower s (.insert caller)
        ({s with jobs := s.jobs ++ [insertedJob s.clock s.nextId request], nextId := s.nextId + 1}.call caller
          (.enqueued ⟨s.nextId,true⟩))
  | register (caller : Nat) (outcome : EnqueueOutcome) (here : s.callers caller = .enqueued outcome) :
      Move lower s (.register caller)
        ({s with waiters := s.waiters.insert outcome.jobId}.call caller (.registered outcome.jobId))
  | subscribe (caller id : Nat) (here : s.callers caller = .registered id) (open_ : id ∈ s.waiters) :
      Move lower s (.wait caller) (s.call caller (.waiting id))
  | missing (caller id : Nat) (here : s.callers caller = .registered id) (closed : id ∉ s.waiters) :
      Move lower s (.wait caller) (s.call caller (.answered .completed))
  | timeout (caller id : Nat) (here : s.callers caller = .waiting id) :
      Move lower s (.timeout caller) (s.call caller .timedOut)
  | drop (caller : Nat) : Move lower s (.drop caller) (s.call caller .idle)
  | claim (worker : Nat) (locked : List Nat) (job : RefreshJob P) (here : s.workers worker = .idle)
      (inside : job ∈ s.jobs) (pending : job.status = .pending) (due : job.requestedAt ≤ s.clock) :
      Move lower s (.claim worker locked)
        ((s.store (updateJob job.id (startJob s.clock) s.jobs)).work worker
          (.holding (startJob s.clock job).queueRow))
  | nothing (worker : Nat) (locked : List Nat) (here : s.workers worker = .idle) : Move lower s (.claim worker locked) s
  | finish (worker : Nat) (job : RefreshJobQueueRow P) (here : s.workers worker = .holding job) :
      Move lower s (.finish worker true)
        ((s.store (markRefreshJobFinished s.clock job.id s.jobs)).work worker (.signalling job.id .completed))
  | fail (worker retryDelay : Nat) (error : Text) (job : RefreshJobQueueRow P) (here : s.workers worker = .holding job) :
      Move lower s (.fail worker retryDelay error true)
        ((s.store (markRefreshJobFailedOrRequeued s.clock job.id (decide (job.attempts ≥ maxAttempts)) retryDelay
          error s.jobs)).work worker (.signalling job.id (.failed error)))
  | unmarked (worker : Nat) (event : Event P) (job : RefreshJobQueueRow P) (outcome : JobOutcome)
      (here : s.workers worker = .holding job)
      (attempted : event = .finish worker false ∨ ∃ retryDelay error, event = .fail worker retryDelay error false) :
      Move lower s event (s.work worker (.signalling job.id outcome))
  | signal (worker id : Nat) (outcome : JobOutcome) (here : s.workers worker = .signalling id outcome) :
      Move lower s (.signal worker)
        ({s with
            waiters := s.waiters.filter (· ≠ id),
            callers := if s.waiters.contains id then fun c => deliver id outcome (s.callers c) else s.callers}.work worker
          .idle)
  | restart :
      Move lower s .restart {s with callers := fun _ => .idle, workers := fun _ => .idle, waiters := []}

theorem stepMove {lower : Text → Text} {s s' : State P} {event : Event P} (h : step lower s event = some s') :
    Move lower s event s' := by
  cases event with
  | tick now =>
    simp only [step] at h
    split at h <;> try contradiction
    rename_i later
    cases Option.some.inj h
    exact .tick now later
  | request caller request =>
    cases Option.some.inj h
    exact .request caller request
  | select caller =>
    simp only [step] at h
    split at h <;> try contradiction
    rename_i request here
    split at h <;> rename_i found <;> cases Option.some.inj h
    · exact .coalesce caller request _ here found
    · exact .miss caller request here found
  | insert caller =>
    simp only [step] at h
    split at h <;> try contradiction
    rename_i request here
    cases Option.some.inj h
    exact .insert caller request here
  | register caller =>
    simp only [step] at h
    split at h <;> try contradiction
    rename_i outcome here
    cases Option.some.inj h
    exact .register caller outcome here
  | wait caller =>
    simp only [step] at h
    split at h <;> try contradiction
    rename_i id here
    split at h <;> rename_i open_ <;> cases Option.some.inj h
    · exact .subscribe caller id here (by simpa using open_)
    · exact .missing caller id here (by simpa using open_)
  | timeout caller =>
    simp only [step] at h
    split at h <;> try contradiction
    rename_i id here
    cases Option.some.inj h
    exact .timeout caller id here
  | drop caller =>
    cases Option.some.inj h
    exact .drop caller
  | claim worker locked =>
    simp only [step] at h
    split at h <;> try contradiction
    rename_i here
    split at h
    · rename_i row jobs claimed
      cases Option.some.inj h
      obtain ⟨job,inside,pending,due,_,_,rfl,rfl⟩ := claimSome claimed
      exact .claim worker locked job here inside pending due
    · cases Option.some.inj h
      exact .nothing worker locked here
  | finish worker persisted =>
    simp only [step] at h
    split at h <;> try contradiction
    rename_i job here
    cases Option.some.inj h
    cases persisted with
    | true => exact .finish worker job here
    | false => exact .unmarked worker _ job _ here (Or.inl rfl)
  | fail worker retryDelay error persisted =>
    simp only [step] at h
    split at h <;> try contradiction
    rename_i job here
    cases Option.some.inj h
    cases persisted with
    | true => exact .fail worker retryDelay error job here
    | false => exact .unmarked worker _ job _ here (Or.inr ⟨retryDelay,error,rfl⟩)
  | signal worker =>
    simp only [step] at h
    split at h <;> try contradiction
    rename_i id outcome here
    cases Option.some.inj h
    exact .signal worker id outcome here
  | restart =>
    cases Option.some.inj h
    exact .restart

end
end RustMcp.RefreshRuns
