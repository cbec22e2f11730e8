import RustMcp.QueueSafety

/-! Completions and the handlers that wait for them. A handler registers its
channel some time after its job became visible; a channel registered for a job
that is over already is never sent to and never removed. -/
namespace RustMcp.Completions
open Str (Text)
open Runs RefreshQueue RefreshRuns QueueSafety

section
variable {P : Type}

/-- The job has finished or failed for good and no signal for it is outstanding. -/
def Settled (s : State P) (id : Nat) : Prop :=
  (∃ job ∈ s.jobs, job.id = id ∧ job.status.terminal = true) ∧
  ∀ worker outcome, s.workers worker ≠ .signalling id outcome

def NoStaleWaiter (s : State P) : Prop := ∀ id, Settled s id → id ∉ s.waiters

/-- The job that the event registers a channel for. -/
def registeredJob (s : State P) (event : Event P) : Option Nat :=
  match event with
  | .register caller => match s.callers caller with
    | .enqueued outcome => some outcome.jobId
    | _ => none
  | _ => none

/-- A channel is registered before its job is over and signalled. -/
def RegistersInTime (s : State P) (event : Event P) : Prop := ∀ id ∈ registeredJob s event, ¬ Settled s id

/-- Those who listen on a channel listen on one in the map. -/
def ListensOpen (s : State P) : Prop := ∀ caller id, s.callers caller = .waiting id → id ∈ s.waiters

variable {lower : Text → Text} {s s' : State P} {event : Event P}

/-- What is settled after a step was settled before, unless the step signals it. -/
theorem settledBefore (move : Move lower s event s') {id : Nat} (settled : Settled s' id) (quiet : id ∈ s'.waiters) :
    Settled s id := by
  obtain ⟨⟨job,mem,same,terminal⟩,silent⟩ := settled
  have others : ∀ {worker : Nat} {pc : Worker P}, (∀ outcome, s.workers worker ≠ .signalling id outcome) →
      (∀ w outcome, Function.update s.workers worker pc w ≠ .signalling id outcome) →
      ∀ w outcome, s.workers w ≠ .signalling id outcome := fun {worker pc} mine rest w outcome => by
    by_cases here : w = worker
    · subst here; exact mine outcome
    · simpa [Function.update_of_ne here] using rest w outcome
  cases move with
  | tick | request | coalesce | miss | register | subscribe | missing | timeout | drop | nothing =>
    exact ⟨⟨job,mem,same,terminal⟩,silent⟩
  | insert =>
    rcases List.mem_append.mp mem with old | new
    · exact ⟨⟨job,old,same,terminal⟩,silent⟩
    · rw [List.mem_singleton.mp new] at terminal; contradiction
  | claim worker _ _ here =>
    rcases memUpdate.mp mem with ⟨_,_,_,rfl⟩ | ⟨old,_⟩
    · contradiction
    · exact ⟨⟨job,old,same,terminal⟩,others (by simp [here]) silent⟩
  | finish worker row here =>
    have differ : row.id ≠ id := fun ids => silent worker .completed (by simp [State.work,ids])
    rcases memUpdate.mp mem with ⟨old,_,ids,rfl⟩ | ⟨old,_⟩
    · exact absurd (ids.symm.trans same) differ
    · exact ⟨⟨job,old,same,terminal⟩,others (by simp [here]) silent⟩
  | fail worker _ error row here =>
    have differ : row.id ≠ id := fun ids => silent worker (.failed error) (by simp [State.work,ids])
    rcases memUpdate.mp mem with ⟨old,_,ids,rfl⟩ | ⟨old,_⟩
    · exact absurd (ids.symm.trans same) differ
    · exact ⟨⟨job,old,same,terminal⟩,others (by simp [here]) silent⟩
  | unmarked worker _ _ _ here => exact ⟨⟨job,mem,same,terminal⟩,others (by simp [here]) silent⟩
  | signal worker id' outcome here =>
    have differ : id ≠ id' := by simpa using (List.mem_filter.mp quiet).2
    refine ⟨⟨job,mem,same,terminal⟩,others (fun _ => ?_) silent⟩
    rw [here]
    exact fun equal => differ (Worker.signalling.inj equal).1.symm
  | restart => simp at quiet

theorem waitersBefore (move : Move lower s event s') {id : Nat} (mem : id ∈ s'.waiters) :
    id ∈ s.waiters ∨ registeredJob s event = some id := by
  cases move with
  | register caller outcome here =>
    rcases List.mem_insert_iff.mp mem with rfl | old
    · exact Or.inr (by simp [registeredJob,here])
    · exact Or.inl old
  | signal => exact Or.inl (List.mem_filter.mp mem).1
  | restart => simp at mem
  | _ => exact Or.inl mem

theorem NoStaleWaiter.move (clean : NoStaleWaiter s) (inTime : RegistersInTime s event) (move : Move lower s event s') :
    NoStaleWaiter s' := by
  intro id settled mem
  have before := settledBefore move settled mem
  rcases waitersBefore move mem with old | registers
  · exact clean id before old
  · exact inTime id registers before

/-- A channel registered for a settled job stays. -/
theorem registersStale (h : step lower s event = some s') (clean : NoStaleWaiter s') : RegistersInTime s event := by
  intro id registers settled
  cases stepMove h with
  | register caller outcome here =>
    have same : outcome.jobId = id := by simpa [registeredJob,here] using registers
    exact clean id settled (List.mem_insert_iff.mpr (Or.inl same.symm))
  | unmarked _ _ _ _ _ attempted => rcases attempted with rfl | ⟨_,_,rfl⟩ <;> simp [registeredJob] at registers
  | _ => simp [registeredJob] at registers

theorem ListensOpen.move (open_ : ListensOpen s) (move : Move lower s event s') : ListensOpen s' := by
  have called : ∀ {c : Nat} {pc : Caller P}, (∀ id, pc ≠ .waiting id) → ∀ caller id,
      Function.update s.callers c pc caller = .waiting id → id ∈ s.waiters := fun {c pc} idle caller id here => by
    by_cases mine : caller = c
    · subst mine; rw [Function.update_self] at here; exact absurd here (idle id)
    · rw [Function.update_of_ne mine] at here; exact open_ caller id here
  cases move with
  | tick | claim | nothing | finish | fail | unmarked => exact open_
  | request | coalesce | miss | insert | missing | timeout | drop => exact called (by simp)
  | register =>
    intro caller id here
    exact List.mem_insert_iff.mpr (Or.inr (called (by simp) caller id here))
  | subscribe c id' here there =>
    intro caller id waits
    by_cases mine : caller = c
    · subst mine
      simp only [State.call,Function.update_self,Caller.waiting.injEq] at waits
      exact waits ▸ there
    · simp only [State.call,Function.update_of_ne mine] at waits
      exact open_ caller id waits
  | signal worker id' outcome here =>
    intro caller id waits
    simp only [State.work] at waits
    split at waits
    · -- every listener of the removed channel has been answered
      obtain ⟨listens,other⟩ := deliverWaiting.mp waits
      exact List.mem_filter.mpr ⟨open_ caller id listens,by simpa using other⟩
    · rename_i absent
      have mem := open_ caller id waits
      exact List.mem_filter.mpr ⟨mem,by simp only [decide_eq_true_eq]; rintro rfl; simp [mem] at absent⟩
  | restart =>
    intro caller id waits
    contradiction

/-- No completion is lost in a run whose handlers register in time; a later registration loses one. -/
theorem completionsKept (lower : Text → Text) {s : State P} (run : Reach (system lower) RegistersInTime s) :
    NoStaleWaiter s ∧
    (∀ caller id, Settled s id → s.callers caller ≠ .waiting id ∧
      (s.callers caller = .registered id →
        step lower s (.wait caller) = some (s.call caller (.answered .completed)))) ∧
    ∀ event s', step lower s event = some s' → (NoStaleWaiter s' ↔ RegistersInTime s event) := by
  have clean : NoStaleWaiter s :=
    run.invariant (fun s first id _ => by simp [first.2.2.2]) fun _ _ _ clean inTime h => clean.move inTime (stepMove h)
  have open_ : ListensOpen s :=
    run.invariant (fun s first c id here => by simp [first.2.1] at here) fun _ _ _ open_ _ h => open_.move (stepMove h)
  refine ⟨clean,fun caller id settled => ⟨fun listens => clean id settled (open_ caller id listens),fun here => ?_⟩,
    fun event s' h => ⟨registersStale h,fun inTime => clean.move inTime (stepMove h)⟩⟩
  have closed := clean id settled
  simp [step,here,closed]

end

/-- No channel is registered by the step. -/
def Quiet (s : State Unit) (event : Event Unit) : Prop := registeredJob s event = none

instance (s : State Unit) (event : Event Unit) : Decidable (Quiet s event) := inferInstanceAs (Decidable (_ = none))

theorem quietInTime {s : State Unit} {event : Event Unit} (quiet : Quiet s event) : RegistersInTime s event := by
  intro id registers
  have none_ : registeredJob s event = none := quiet
  simp [none_] at registers

def registerEarly : List (Event Unit) :=
  [.request 0 ⟨"serde".toList,"crate".toList,1,false,()⟩,.select 0,.insert 0]

/-- The worker is through before the handler comes to register. -/
def registerLate : List (Event Unit) := registerEarly ++ [.claim 0 [],.finish 0 true,.signal 0,.register 0]

/-- Registered while the job is pending; the handler's wait then returns. -/
theorem completionsKeptInTime :
    ∃ s : State Unit, Settled s 1 ∧ s.callers 0 = .registered 1 ∧ NoStaleWaiter s ∧
      step id s (.wait 0) = some (s.call 0 (.answered .completed)) := by
  have start := (execReach (system id) Quiet registerEarly (freshFresh : Fresh (fresh : State Unit)) (by decide)).mono
    fun _ _ => quietInTime
  have registered : Reach (system id) RegistersInTime _ := .next (e := .register 0) start (by
    rintro _ ⟨⟩ ⟨⟨job,mem,_,terminal⟩,_⟩
    cases List.mem_singleton.mp mem
    contradiction) rfl
  have run := registered.along ((execPath (system id) Quiet [.claim 0 [],.finish 0 true,.signal 0] rfl).mono
    fun _ _ => quietInTime)
  have kept := completionsKept id run
  refine ⟨_,?settled,rfl,kept.1,(kept.2.1 0 1 ?settled).2 rfl⟩
  refine ⟨⟨_,List.mem_singleton_self _,rfl,rfl⟩,fun worker outcome => ?_⟩
  rcases worker with _ | worker <;> nofun

/-- The channel is left behind for a job that is over. -/
theorem lateRegistrationBlocks : ¬ ∀ s : State Unit, Reach (system id) always s → NoStaleWaiter s := by
  intro clean
  have run := execReach (system id) always registerLate (freshFresh : Fresh (fresh : State Unit)) (by decide)
  refine clean _ run 1 ⟨⟨_,List.mem_singleton_self _,rfl,rfl⟩,fun worker outcome => ?_⟩ (by decide)
  rcases worker with _ | worker <;> nofun

end RustMcp.Completions
