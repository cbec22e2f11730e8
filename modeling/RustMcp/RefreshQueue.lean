import RustMcp.Ranking
import RustMcp.Str

/-! The `refresh_jobs` table and the statements that act on it. Each statement is
one atomic function of the rows; `now` is the transaction's `NOW()`. -/
namespace RustMcp.RefreshQueue
open Str (Text)

inductive Status where
  | pending | running | finished | failed
  deriving DecidableEq

structure RefreshJob (P : Type) where
  id : Nat
  crateName : Text
  scope : Text
  priority : Int
  status : Status
  attempts : Nat
  includeDependencies : Bool
  payload : P
  requestedAt : Nat
  startedAt : Option Nat
  finishedAt : Option Nat
  lastError : Option Text
  deriving DecidableEq

/-- What an enqueue asks for. -/
structure Request (P : Type) where
  crateName : Text
  scope : Text
  priority : Int
  includeDependencies : Bool
  payload : P
  deriving DecidableEq

structure EnqueueOutcome where
  jobId : Nat
  isNew : Bool
  deriving DecidableEq

/-- The columns that a claim returns. -/
structure RefreshJobQueueRow (P : Type) where
  id : Nat
  crateName : Text
  scope : Text
  includeDependencies : Bool
  payload : P
  attempts : Nat
  deriving DecidableEq

/-- What tool handlers enqueue; the priorities of background work are higher numbers. -/
def priorityOnDemand : Int := 1

def Status.active : Status → Bool
  | .pending | .running => true
  | .finished | .failed => false

def Status.terminal : Status → Bool
  | .finished | .failed => true
  | .pending | .running => false

section
variable {P : Type}

/-- `crate_name_lower` is generated as `LOWER(crate_name)`. -/
def sameKey (lower : Text → Text) (crateName scope : Text) (job : RefreshJob P) : Bool :=
  lower job.crateName = lower crateName && job.scope = scope

def selectActive (lower : Text → Text) (crateName scope : Text) (jobs : List (RefreshJob P)) : Option Nat :=
  ((jobs.filter fun job => sameKey lower crateName scope job && job.status.active).map RefreshJob.id).min?

def insertedJob (now id : Nat) (request : Request P) : RefreshJob P :=
  ⟨id,request.crateName,request.scope,request.priority,.pending,0,request.includeDependencies,request.payload,now,
    none,none,none⟩

/-- `UPDATE … WHERE id = …` -/
def updateJob (id : Nat) (change : RefreshJob P → RefreshJob P) (jobs : List (RefreshJob P)) : List (RefreshJob P) :=
  jobs.map fun job => if job.id = id then change job else job

/-- Rows that other transactions have locked are skipped. -/
def claimable (now : Nat) (locked : List Nat) (job : RefreshJob P) : Bool :=
  job.status = .pending && job.requestedAt ≤ now && !locked.contains job.id

def claimKey (job : RefreshJob P) : Int ×ₗ Nat ×ₗ Nat ×ₗ Nat :=
  toLex (job.priority,toLex (job.attempts,toLex (job.requestedAt,job.id)))

def startJob (now : Nat) (job : RefreshJob P) : RefreshJob P :=
  {job with
    status := .running, startedAt := some now, finishedAt := none,
    attempts := job.attempts + 1, lastError := none}

def RefreshJob.queueRow (job : RefreshJob P) : RefreshJobQueueRow P :=
  ⟨job.id,job.crateName,job.scope,job.includeDependencies,job.payload,job.attempts⟩

def nextJob (now : Nat) (locked : List Nat) (jobs : List (RefreshJob P)) : Option (RefreshJob P) :=
  (Ranking.sortBy claimKey (jobs.filter (claimable now locked))).head?

def claimNextRefreshJob (now : Nat) (locked : List Nat) (jobs : List (RefreshJob P)) :
    Option (RefreshJobQueueRow P × List (RefreshJob P)) :=
  (nextJob now locked jobs).map fun job => ((startJob now job).queueRow,updateJob job.id (startJob now) jobs)

def finishJob (now : Nat) (job : RefreshJob P) : RefreshJob P :=
  {job with status := .finished, finishedAt := some now, lastError := none}

def markRefreshJobFinished (now id : Nat) (jobs : List (RefreshJob P)) : List (RefreshJob P) :=
  updateJob id (finishJob now) jobs

def failJob (now : Nat) (terminal : Bool) (retryDelay : Nat) (errorMessage : Text) (job : RefreshJob P) : RefreshJob P :=
  {job with
    status := if terminal then .failed else .pending,
    requestedAt := if terminal then job.requestedAt else now + retryDelay,
    finishedAt := if terminal then some now else none,
    lastError := some errorMessage}

def markRefreshJobFailedOrRequeued (now id : Nat) (terminal : Bool) (retryDelay : Nat) (errorMessage : Text)
    (jobs : List (RefreshJob P)) : List (RefreshJob P) :=
  updateJob id (failJob now terminal retryDelay errorMessage) jobs

/-! Each statement, told by the rows it leaves. -/

theorem memUpdate {id : Nat} {change : RefreshJob P → RefreshJob P} {jobs : List (RefreshJob P)} {job : RefreshJob P} :
    job ∈ updateJob id change jobs ↔ (∃ old ∈ jobs, old.id = id ∧ job = change old) ∨ (job ∈ jobs ∧ job.id ≠ id) := by
  simp only [updateJob,List.mem_map]
  constructor
  · rintro ⟨old,mem,rfl⟩
    by_cases same : old.id = id
    · exact Or.inl ⟨old,mem,same,by simp [same]⟩
    · exact Or.inr ⟨by simpa [same] using mem,by simp [same]⟩
  · rintro (⟨old,mem,same,rfl⟩ | ⟨mem,differ⟩)
    · exact ⟨old,mem,by simp [same]⟩
    · exact ⟨job,mem,by simp [differ]⟩

theorem updateIds {id : Nat} (change : RefreshJob P → RefreshJob P) (kept : ∀ job, (change job).id = job.id)
    (jobs : List (RefreshJob P)) : (updateJob id change jobs).map RefreshJob.id = jobs.map RefreshJob.id := by
  simp only [updateJob,List.map_map]
  refine List.map_congr_left fun job _ => ?_
  by_cases same : job.id = id <;> simp [same,kept]

theorem selectActiveNone {lower : Text → Text} {crateName scope : Text} {jobs : List (RefreshJob P)} :
    selectActive lower crateName scope jobs = none ↔
      ∀ job ∈ jobs, sameKey lower crateName scope job = true → job.status.active = false := by
  simp [selectActive,List.min?_eq_none_iff]

theorem selectActiveSome {lower : Text → Text} {crateName scope : Text} {jobs : List (RefreshJob P)} {id : Nat}
    (h : selectActive lower crateName scope jobs = some id) :
    ∃ job ∈ jobs, job.id = id ∧ sameKey lower crateName scope job = true ∧ job.status.active = true := by
  have mem := List.min?_mem h
  obtain ⟨job,inside,same⟩ := List.mem_map.mp mem
  simp only [List.mem_filter,Bool.and_eq_true] at inside
  exact ⟨job,inside.1,same,inside.2⟩

/-- A claim takes a pending row that is due and starts it; no due row that is free precedes it. -/
theorem claimSome {now : Nat} {locked : List Nat} {jobs jobs' : List (RefreshJob P)} {row : RefreshJobQueueRow P}
    (h : claimNextRefreshJob now locked jobs = some (row,jobs')) :
    ∃ job ∈ jobs, job.status = .pending ∧ job.requestedAt ≤ now ∧ job.id ∉ locked ∧
      (∀ other ∈ jobs, claimable now locked other = true → claimKey job ≤ claimKey other) ∧
      row = (startJob now job).queueRow ∧ jobs' = updateJob job.id (startJob now) jobs := by
  obtain ⟨job,first,same⟩ := Option.map_eq_some_iff.mp h
  obtain ⟨rfl,rfl⟩ := Prod.mk.inj same
  have mem := Ranking.memSortBy.mp (List.mem_of_mem_head? first)
  simp only [List.mem_filter,claimable,Bool.and_eq_true,decide_eq_true_eq,Bool.not_eq_true'] at mem
  obtain ⟨inside,⟨pending,due⟩,free⟩ := mem
  refine ⟨job,inside,pending,due,by simpa using free,fun other there open_ => ?_,rfl,rfl⟩
  have sorted := Ranking.sortBySorted claimKey (jobs.filter (claimable now locked))
  obtain ⟨rest,all⟩ : ∃ rest, Ranking.sortBy claimKey (jobs.filter (claimable now locked)) = job::rest := by
    cases queue : Ranking.sortBy claimKey (jobs.filter (claimable now locked)) with
    | nil => simp [nextJob,queue] at first
    | cons x xs => exact ⟨xs,by simpa [nextJob,queue] using first⟩
  have candidate : other ∈ job::rest := all ▸ Ranking.memSortBy.mpr (List.mem_filter.mpr ⟨there,open_⟩)
  rcases List.mem_cons.mp candidate with rfl | later
  · exact le_refl _
  · exact (List.pairwise_cons.mp (all ▸ sorted)).1 other later

end
end RustMcp.RefreshQueue
