import RustMcp.Completions

/-! The order in which jobs are handed out, and who waits for them. Priority and
earliest start stay as the row was inserted or put back with, whoever comes to wait
for it later. -/
namespace RustMcp.Urgency
open Str (Text)
open Runs RefreshQueue RefreshRuns QueueSafety Completions

section
variable {P : Type}

/-- A handler has registered for the job, and the channel is in the map. -/
def Waits (s : State P) (id : Nat) : Prop :=
  id ∈ s.waiters ∧ ∃ caller, s.callers caller = .registered id ∨ s.callers caller = .waiting id

/-- A job that is pending when a handler registers for it has the priority of handlers, and is due. -/
def Prompt (s : State P) (event : Event P) : Prop :=
  ∀ id ∈ registeredJob s event, ∀ job ∈ s.jobs, job.id = id → job.status = .pending →
    job.priority ≤ priorityOnDemand ∧ job.requestedAt ≤ s.clock

instance (s : State P) (event : Event P) : Decidable (Prompt s event) :=
  inferInstanceAs (Decidable (∀ id ∈ registeredJob s event, ∀ job ∈ s.jobs, job.id = id → job.status = .pending →
    job.priority ≤ priorityOnDemand ∧ job.requestedAt ≤ s.clock))

/-- No other pending job that a handler waits for is locked, or has failed without a signal as yet. -/
def Unhindered (s : State P) (locked : List Nat) (claimed : Nat) : Prop :=
  ∀ job ∈ s.jobs, job.id ≠ claimed → job.status = .pending → Waits s job.id →
    job.id ∉ locked ∧ ∀ worker outcome, s.workers worker ≠ .signalling job.id outcome

/-- What handlers wait for comes first, or is on its way to be signalled as failed. -/
def Urgent (s : State P) : Prop :=
  ∀ job ∈ s.jobs, job.status = .pending → Waits s job.id →
    (job.priority ≤ priorityOnDemand ∧ job.requestedAt ≤ s.clock) ∨
    ∃ worker outcome, s.workers worker = .signalling job.id outcome

/-- The ids that are waited for, or about to be, are of rows that were inserted. -/
structure Numbered (s : State P) : Prop where
  waiters : ∀ id ∈ s.waiters, id < s.nextId
  enqueued : ∀ caller outcome, s.callers caller = .enqueued outcome → outcome.jobId < s.nextId

variable {lower : Text → Text} {s s' : State P} {event : Event P}

theorem Numbered.called (numbered : Numbered s) {caller : Nat} {pc : Caller P}
    (known : ∀ outcome, pc = .enqueued outcome → outcome.jobId < s.nextId) : Numbered (s.call caller pc) := by
  refine ⟨numbered.waiters,fun c outcome here => ?_⟩
  by_cases mine : c = caller
  · subst mine
    simp only [State.call,Function.update_self] at here
    exact known outcome here
  · simp only [State.call,Function.update_of_ne mine] at here
    exact numbered.enqueued c outcome here

theorem Numbered.move (numbered : Numbered s) (inv : QueueInv s) (move : Move lower s event s') : Numbered s' := by
  cases move with
  | tick | claim | nothing | finish | fail | unmarked => exact ⟨numbered.waiters,numbered.enqueued⟩
  | request | miss | subscribe | missing | timeout | drop => exact numbered.called (by simp)
  | coalesce caller request id here found =>
    obtain ⟨job,mem,rfl,_⟩ := selectActiveSome found
    exact numbered.called fun outcome same => by cases same; exact inv.fresh job mem
  | insert _ request =>
    have later : Numbered {s with jobs := s.jobs ++ [insertedJob s.clock s.nextId request], nextId := s.nextId + 1} :=
      ⟨fun id mem => Nat.lt_succ_of_lt (numbered.waiters id mem),
        fun c outcome here => Nat.lt_succ_of_lt (numbered.enqueued c outcome here)⟩
    exact later.called fun outcome same => by cases same; exact Nat.lt_succ_self _
  | register caller outcome here =>
    have held : Numbered {s with waiters := s.waiters.insert outcome.jobId} := by
      refine ⟨fun id mem => ?_,numbered.enqueued⟩
      rcases List.mem_insert_iff.mp mem with rfl | old
      · exact numbered.enqueued caller outcome here
      · exact numbered.waiters id old
    exact held.called (by simp)
  | signal _ _ _ =>
    refine ⟨fun id mem => numbered.waiters id (List.mem_filter.mp mem).1,fun c outcome here => ?_⟩
    simp only [State.work] at here
    split at here
    · exact numbered.enqueued c outcome (deliverEnqueued here)
    · exact numbered.enqueued c outcome here
  | restart => exact ⟨by simp,by simp⟩

/-! Who waits after a step. -/

def listens (id : Nat) (pc : Caller P) : Prop := pc = .registered id ∨ pc = .waiting id

theorem listensUpdate {callers : Nat → Caller P} {caller c id : Nat} {pc : Caller P}
    (hears : listens id (Function.update callers caller pc c)) : listens id pc ∨ listens id (callers c) := by
  by_cases here : c = caller
  · subst here; rw [Function.update_self] at hears; exact Or.inl hears
  · rw [Function.update_of_ne here] at hears; exact Or.inr hears

theorem listensDelivered {id id' : Nat} {outcome : JobOutcome} {pc : Caller P} (hears : listens id (deliver id' outcome pc)) :
    listens id pc := by
  unfold deliver at hears
  split at hears
  · split at hears
    · rcases hears with h | h <;> contradiction
    · exact hears
  · exact hears

theorem waitsBefore (move : Move lower s event s') {id : Nat} (waits : Waits s' id) :
    Waits s id ∨ registeredJob s event = some id := by
  obtain ⟨key,caller,hears⟩ := waits
  have hears : listens id (s'.callers caller) := hears
  rcases waitersBefore move key with key | registers
  · refine (Classical.em _).symm.imp (fun other => ⟨key,caller,?_⟩) fun same => same
    change listens id (s.callers caller)
    cases move with
    | tick | claim | nothing | finish | fail | unmarked => exact hears
    | request | coalesce | miss | insert | missing | timeout | drop =>
      exact (listensUpdate hears).resolve_left (by simp [listens])
    | register c outcome here =>
      refine (listensUpdate hears).resolve_left fun now => ?_
      rcases now with same | same
      · exact other (by simp only [registeredJob,here,Caller.registered.inj same])
      · contradiction
    | subscribe c id' here =>
      by_cases mine : caller = c
      · subst mine
        simp only [listens,State.call,Function.update_self,reduceCtorEq,Caller.waiting.injEq,false_or] at hears
        exact Or.inl (hears ▸ here)
      · simpa [State.call,Function.update_of_ne mine] using hears
    | signal =>
      simp only [State.work] at hears
      split at hears
      · exact listensDelivered hears
      · exact hears
    | restart => rcases hears with h | h <;> contradiction
  · exact Or.inr registers

/-! What is waited for stays urgent. -/

theorem signallingKept {worker : Nat} {pc : Worker P} {id : Nat} (moved : s'.workers = Function.update s.workers worker pc)
    (free : ∀ outcome, s.workers worker ≠ .signalling id outcome) (signals : ∃ w outcome, s.workers w = .signalling id outcome) :
    ∃ w outcome, s'.workers w = .signalling id outcome := by
  obtain ⟨w,outcome,here⟩ := signals
  refine ⟨w,outcome,?_⟩
  rw [moved,Function.update_of_ne]
  · exact here
  · rintro rfl; exact free outcome here

theorem Urgent.move (urgent : Urgent s) (numbered : Numbered s) (prompt : Prompt s event) (move : Move lower s event s') :
    Urgent s' := by
  intro job mem pending waits
  have before : ∀ old ∈ s.jobs, old.id = job.id → old.status = .pending →
      (old.priority ≤ priorityOnDemand ∧ old.requestedAt ≤ s.clock) ∨
      ∃ worker outcome, s.workers worker = .signalling old.id outcome := fun old inside same still => by
    rcases waitsBefore move waits with waited | registers
    · exact urgent old inside still (same ▸ waited)
    · exact Or.inl (prompt _ registers old inside same still)
  cases move with
  | tick _ later => exact (before job mem rfl pending).imp_left fun first => ⟨first.1,le_trans first.2 later⟩
  | request | coalesce | miss | register | subscribe | missing | timeout | drop | nothing => exact before job mem rfl pending
  | insert caller request here =>
    rcases List.mem_append.mp mem with old | new
    · exact before job old rfl pending
    · rw [List.mem_singleton.mp new] at waits
      exact absurd (numbered.waiters _ waits.1) (lt_irrefl _)
  | claim worker _ _ here =>
    rcases memUpdate.mp mem with ⟨_,_,_,rfl⟩ | ⟨old,_⟩
    · contradiction
    · exact (before job old rfl pending).imp_right (signallingKept (s := s) rfl (by simp [here]))
  | finish worker row here =>
    rcases memUpdate.mp mem with ⟨_,_,_,rfl⟩ | ⟨old,_⟩
    · contradiction
    · exact (before job old rfl pending).imp_right (signallingKept (s := s) rfl (by simp [here]))
  | fail worker _ error row here =>
    rcases memUpdate.mp mem with ⟨failed,_,same,rfl⟩ | ⟨old,_⟩
    · exact Or.inr ⟨worker,_,by simp only [State.work,Function.update_self]; rw [← same]; rfl⟩
    · exact (before job old rfl pending).imp_right (signallingKept (s := s) rfl (by simp [here]))
  | unmarked worker _ row _ here => exact (before job mem rfl pending).imp_right (signallingKept (s := s) rfl (by simp [here]))
  | signal worker id outcome here =>
    have differ : job.id ≠ id := by simpa using (List.mem_filter.mp waits.1).2
    refine (before job mem rfl pending).imp_right (signallingKept (s := s) rfl fun told => ?_)
    rw [here]
    exact fun same => differ (Worker.signalling.inj same).1.symm
  | restart => exact absurd waits.1 (by simp)

theorem urgentReach (run : Reach (system lower) Prompt s) : Urgent s := by
  have known : ∀ t : State P, Reach (system lower) Prompt t → QueueInv t ∧ Numbered t := fun t run => by
    refine run.invariant (I := fun t => QueueInv t ∧ Numbered t) (fun t first => ?_) fun _ _ _ both _ h => ?_
    · exact ⟨freshInv first,by simp [first.2.2.2],by simp [first.2.1]⟩
    · exact ⟨both.1.move (stepMove h),both.2.move both.1 (stepMove h)⟩
  refine run.invariantOver known (fun t first job mem => ?_) fun _ _ _ both urgent prompt h => ?_
  · rw [first.1] at mem; contradiction
  · exact urgent.move both.2 prompt (stepMove h)

/-! Claims. -/

theorem claimedRow {worker : Nat} {locked : List Nat} {row : RefreshJobQueueRow P}
    (moves : step lower s (.claim worker locked) = some s') (holds : s'.workers worker = .holding row) :
    claimNextRefreshJob s.clock locked s.jobs = some (row,s'.jobs) ∧ s'.callers = s.callers ∧ s'.waiters = s.waiters := by
  simp only [step] at moves
  split at moves <;> try contradiction
  rename_i idle
  split at moves
  · rename_i found jobs claimed
    cases Option.some.inj moves
    simp only [State.work,Function.update_self,Worker.holding.injEq] at holds
    subst holds
    exact ⟨claimed,rfl,rfl⟩
  · cases Option.some.inj moves
    rw [idle] at holds; contradiction

/-- In every run whose handlers register promptly, a claim of background work leaves no pending job
that a handler waits for, just when no such job is locked or has failed without a signal. -/
theorem waitedForFirst (lower : Text → Text) {s s' : State P} (run : Reach (system lower) Prompt s)
    {worker : Nat} {locked : List Nat} (row : RefreshJobQueueRow P) (moves : step lower s (.claim worker locked) = some s')
    (holds : s'.workers worker = .holding row) (job : RefreshJob P) (mem : job ∈ s.jobs) (ids : job.id = row.id)
    (background : priorityOnDemand < job.priority) :
    (∀ other ∈ s'.jobs, other.status = .pending → ¬ Waits s' other.id) ↔ Unhindered s locked row.id := by
  have inv : QueueInv s := reachInv (run.mono fun _ _ _ => trivial)
  obtain ⟨claimed,callers,waiters⟩ := claimedRow moves holds
  obtain ⟨first,inside,_,_,_,least,rfl,jobs⟩ := claimSome claimed
  cases inv.same mem inside ids
  have same : ∀ id, Waits s' id ↔ Waits s id := fun id => by rw [Waits,Waits,callers,waiters]
  rw [jobs]
  constructor
  · intro left other there differ pending waits
    exact absurd ((same _).mpr waits) (left other (memUpdate.mpr (Or.inr ⟨there,differ⟩)) pending)
  · intro open_ other there pending waits
    rcases memUpdate.mp there with ⟨_,_,_,rfl⟩ | ⟨there,differ⟩
    · contradiction
    · have waits := (same _).mp waits
      obtain ⟨free,silent⟩ := open_ other there differ pending waits
      rcases urgentReach run other there pending waits with ⟨first,due⟩ | ⟨w,outcome,signals⟩
      · have precedes := least other there (by simp [claimable,pending,due,free])
        have higher : job.priority ≤ other.priority := by
          rcases Prod.Lex.toLex_le_toLex.mp precedes with less | ⟨equal,_⟩
          · exact le_of_lt less
          · exact le_of_eq equal
        exact absurd (le_trans higher first) (not_le.mpr background)
      · exact silent w outcome signals

end

def serdeDocs : Request Unit := ⟨"serde".toList,"rustdoc_json".toList,priorityOnDemand,false,()⟩
def serdeEnrich : Request Unit := ⟨"serde".toList,"rustdoc_json".toList,75,false,()⟩
def tokioFound : Request Unit := ⟨"tokio".toList,"crate".toList,50,false,()⟩

def tokioJob : RefreshJob Unit := insertedJob 0 2 tokioFound

def ownRow : List (Event Unit) :=
  [.request 0 serdeDocs,.select 0,.insert 0,.register 0,.request 1 tokioFound,.select 1,.insert 1,.claim 0 []]

def enrichmentRow : List (Event Unit) :=
  [.request 1 serdeEnrich,.select 1,.insert 1,.request 1 tokioFound,.select 1,.insert 1,
    .request 0 serdeDocs,.select 0,.register 0,.wait 0]

def ownRowState : State Unit := (exec (system id) Prompt fresh ownRow).get (by decide)

theorem waitedForFirstOwnRow :
    ∃ s' : State Unit, step id ownRowState (.claim 1 []) = some s' ∧ s'.workers 1 = .holding (startJob 0 tokioJob).queueRow ∧
      ∀ other ∈ s'.jobs, other.status = .pending → ¬ Waits s' other.id := by
  have run : Reach (system id) Prompt ownRowState := execReach (system id) Prompt ownRow freshFresh (by decide)
  have holds : (step id ownRowState (.claim 1 [])).map (fun t => t.workers 1) =
      some (.holding (startJob 0 tokioJob).queueRow) := by decide
  obtain ⟨s',moves,holds⟩ := Option.map_eq_some_iff.mp holds
  have pending : ownRowState.jobs.filter (fun job => job.status = .pending) = [tokioJob] := by decide
  refine ⟨s',moves,holds,(waitedForFirst id run _ moves holds tokioJob (by decide) rfl (by decide)).mpr ?_⟩
  intro job mem differ open_ _
  have only : job ∈ ownRowState.jobs.filter (fun job => job.status = .pending) :=
    List.mem_filter.mpr ⟨mem,decide_eq_true open_⟩
  rw [pending,List.mem_singleton] at only
  exact absurd (congrArg RefreshJob.id only) differ

/-- A handler joins the enrichment job of its crate, and a crate that the registry scan found is
handed out first. -/
theorem enrichmentHeldUp :
    ∃ s s' : State Unit, Reach (system id) always s ∧ step id s (.claim 0 []) = some s' ∧
      (∃ row, s'.workers 0 = .holding row ∧ ∃ job ∈ s.jobs, job.id = row.id ∧ priorityOnDemand < job.priority) ∧
      ∃ other ∈ s'.jobs, other.status = .pending ∧ Waits s' other.id := by
  have run := execReach (system id) always enrichmentRow (freshFresh : Fresh (fresh : State Unit)) (by decide)
  refine ⟨_,_,run,rfl,⟨(startJob 0 tokioJob).queueRow,rfl,tokioJob,by decide,rfl,by decide⟩,?_⟩
  exact ⟨insertedJob 0 1 serdeEnrich,by decide,rfl,by decide,0,Or.inr rfl⟩

end RustMcp.Urgency
