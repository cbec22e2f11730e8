import RustMcp.RefreshRuns

/-! Safety of the refresh queue. The updates go by id and never look at the
status; that the id is of a running row is kept by the holder of the row. -/
namespace RustMcp.QueueSafety
open Str (Text)
open Runs RefreshQueue RefreshRuns

section
variable {P : Type}

structure QueueInv (s : State P) : Prop where
  unique : (s.jobs.map RefreshJob.id).Nodup
  fresh : ∀ job ∈ s.jobs, job.id < s.nextId
  held : ∀ worker row, s.workers worker = .holding row →
    ∃ job ∈ s.jobs, job.id = row.id ∧ job.status = .running ∧ job.attempts = row.attempts
  alone : ∀ worker worker' row row', s.workers worker = .holding row → s.workers worker' = .holding row' →
    row.id = row'.id → worker = worker'
  attempts : ∀ job ∈ s.jobs, job.attempts ≤ maxAttempts ∧ (job.status = .pending → job.attempts < maxAttempts)

variable {lower : Text → Text} {s s' : State P} {event : Event P}

theorem QueueInv.same (inv : QueueInv s) {job job' : RefreshJob P} (mem : job ∈ s.jobs) (mem' : job' ∈ s.jobs)
    (ids : job.id = job'.id) : job = job' :=
  List.inj_on_of_nodup_map inv.unique mem mem' ids

theorem freshInv (first : Fresh s) : QueueInv s := by
  obtain ⟨jobs,_,workers,_⟩ := first
  constructor <;> simp [jobs,workers]

/-- Only callers, the clock or the map of channels move. -/
theorem QueueInv.aside (inv : QueueInv s) (jobs : s'.jobs = s.jobs) (next : s'.nextId = s.nextId)
    (workers : s'.workers = s.workers) : QueueInv s' := by
  refine ⟨by rw [jobs]; exact inv.unique,by rw [jobs,next]; exact inv.fresh,?_,?_,by rw [jobs]; exact inv.attempts⟩
  · rw [jobs,workers]; exact inv.held
  · rw [workers]; exact inv.alone

theorem QueueInv.inserted (inv : QueueInv s) (request : Request P) (caller : Nat) (pc : Caller P) :
    QueueInv ({s with jobs := s.jobs ++ [insertedJob s.clock s.nextId request], nextId := s.nextId + 1}.call caller pc) := by
  constructor
  · simp only [State.call,List.map_append,List.map_cons,List.map_nil]
    refine List.nodup_append.mpr ⟨inv.unique,List.nodup_singleton _,fun id mem id' mem' => ?_⟩
    obtain ⟨job,inside,rfl⟩ := List.mem_map.mp mem
    rw [List.mem_singleton.mp mem']
    exact Nat.ne_of_lt (inv.fresh job inside)
  · intro job mem
    rcases List.mem_append.mp mem with old | new
    · exact Nat.lt_succ_of_lt (inv.fresh job old)
    · rw [List.mem_singleton.mp new]; exact Nat.lt_succ_self _
  · intro worker row holds
    obtain ⟨job,mem,facts⟩ := inv.held worker row holds
    exact ⟨job,List.mem_append_left _ mem,facts⟩
  · exact inv.alone
  · intro job mem
    rcases List.mem_append.mp mem with old | new
    · exact inv.attempts job old
    · rw [List.mem_singleton.mp new]; exact ⟨Nat.zero_le _,fun _ => Nat.zero_lt_succ _⟩

theorem QueueInv.claimed (inv : QueueInv s) {job : RefreshJob P} (inside : job ∈ s.jobs) (pending : job.status = .pending)
    {worker : Nat} :
    QueueInv ((s.store (updateJob job.id (startJob s.clock) s.jobs)).work worker
      (.holding (startJob s.clock job).queueRow)) := by
  have room := (inv.attempts job inside).2 pending
  have other : ∀ worker' row, s.workers worker' = .holding row → row.id ≠ job.id := fun worker' row holds ids => by
    obtain ⟨job',mem,same,running,_⟩ := inv.held worker' row holds
    cases inv.same mem inside (same.trans ids)
    rw [pending] at running; contradiction
  constructor
  · exact (updateIds (startJob s.clock) (fun _ => rfl) s.jobs).symm ▸ inv.unique
  · intro job' mem
    rcases memUpdate.mp mem with ⟨old,there,_,rfl⟩ | ⟨there,_⟩
    · exact inv.fresh old there
    · exact inv.fresh job' there
  · intro worker' row holds
    by_cases mine : worker' = worker
    · subst mine
      simp only [State.work,Function.update_self,Worker.holding.injEq] at holds
      subst holds
      exact ⟨startJob s.clock job,memUpdate.mpr (Or.inl ⟨job,inside,rfl,rfl⟩),rfl,rfl,rfl⟩
    · simp only [State.work,Function.update_of_ne mine] at holds
      obtain ⟨job',mem,same,facts⟩ := inv.held worker' row holds
      exact ⟨job',memUpdate.mpr (Or.inr ⟨mem,same ▸ other worker' row holds⟩),same,facts⟩
  · intro a b row row' ha hb ids
    by_cases mineA : a = worker <;> by_cases mineB : b = worker
    · exact mineA.trans mineB.symm
    · subst mineA
      simp only [State.work,Function.update_self,Worker.holding.injEq,State.store,Function.update_of_ne mineB] at ha hb
      subst ha
      exact absurd ids.symm (other b row' hb)
    · subst mineB
      simp only [State.work,Function.update_self,Worker.holding.injEq,State.store,Function.update_of_ne mineA] at ha hb
      subst hb
      exact absurd ids (other a row ha)
    · simp only [State.work,State.store,Function.update_of_ne mineA,Function.update_of_ne mineB] at ha hb
      exact inv.alone a b row row' ha hb ids
  · intro job' mem
    rcases memUpdate.mp mem with ⟨old,there,same,rfl⟩ | ⟨there,_⟩
    · cases inv.same there inside same
      exact ⟨room,nofun⟩
    · exact inv.attempts job' there

/-- A worker lets go of its row, having changed that row alone or none. -/
theorem QueueInv.released (inv : QueueInv s) {worker : Nat} {row : RefreshJobQueueRow P}
    (here : s.workers worker = .holding row) (change : RefreshJob P → RefreshJob P) (kept : ∀ job, (change job).id = job.id)
    (bounded : ∀ job ∈ s.jobs, job.attempts = row.attempts → job.id = row.id → (change job).attempts ≤ maxAttempts ∧
      ((change job).status = .pending → (change job).attempts < maxAttempts))
    (pc : Worker P) (open_ : ∀ row, pc ≠ .holding row) :
    QueueInv ((s.store (updateJob row.id change s.jobs)).work worker pc) := by
  have others : ∀ worker' row', (Function.update s.workers worker pc) worker' = .holding row' →
      worker' ≠ worker ∧ s.workers worker' = .holding row' := fun worker' row' holds => by
    by_cases mine : worker' = worker
    · subst mine; rw [Function.update_self] at holds; exact absurd holds (open_ row')
    · rw [Function.update_of_ne mine] at holds; exact ⟨mine,holds⟩
  obtain ⟨mine,inside,ids,_,count⟩ := inv.held worker row here
  constructor
  · exact (updateIds change kept s.jobs).symm ▸ inv.unique
  · intro job mem
    rcases memUpdate.mp mem with ⟨old,there,_,rfl⟩ | ⟨there,_⟩
    · rw [kept]; exact inv.fresh old there
    · exact inv.fresh job there
  · intro worker' row' holds
    obtain ⟨differ,holds⟩ := others worker' row' holds
    obtain ⟨job,mem,same,facts⟩ := inv.held worker' row' holds
    refine ⟨job,memUpdate.mpr (Or.inr ⟨mem,fun shared => differ ?_⟩),same,facts⟩
    exact inv.alone worker' worker row' row holds here (same.symm.trans shared)
  · intro a b row' row'' ha hb
    exact inv.alone a b row' row'' (others a row' ha).2 (others b row'' hb).2
  · intro job mem
    rcases memUpdate.mp mem with ⟨old,there,same,rfl⟩ | ⟨there,_⟩
    · cases inv.same there inside (same.trans ids.symm)
      exact bounded _ there count same
    · exact inv.attempts job there

theorem QueueInv.dismissed (inv : QueueInv s) (worker : Nat) (pc : Worker P) (open_ : ∀ row, pc ≠ .holding row) :
    QueueInv (s.work worker pc) := by
  have others : ∀ worker' row', (Function.update s.workers worker pc) worker' = .holding row' →
      s.workers worker' = .holding row' := fun worker' row' holds => by
    by_cases mine : worker' = worker
    · subst mine; rw [Function.update_self] at holds; exact absurd holds (open_ row')
    · rwa [Function.update_of_ne mine] at holds
  exact ⟨inv.unique,inv.fresh,fun w row holds => inv.held w row (others w row holds),
    fun a b row row' ha hb => inv.alone a b row row' (others a row ha) (others b row' hb),inv.attempts⟩

theorem QueueInv.move (inv : QueueInv s) (move : Move lower s event s') : QueueInv s' := by
  cases move with
  | tick | request | coalesce | miss | register | subscribe | missing | timeout | drop => exact inv.aside rfl rfl rfl
  | insert caller request _ => exact inv.inserted request caller _
  | claim worker _ job _ inside pending _ => exact inv.claimed inside pending
  | nothing => exact inv
  | finish worker job here =>
    exact inv.released here (finishJob s.clock) (fun _ => rfl) (fun old there _ _ => ⟨(inv.attempts old there).1,nofun⟩)
      (.signalling job.id .completed) nofun
  | fail worker retryDelay error job here =>
    refine inv.released here (failJob s.clock _ retryDelay error) (fun _ => rfl)
      (fun old there count _ => ⟨(inv.attempts old there).1,fun pending => ?_⟩) (.signalling job.id (.failed error)) nofun
    -- Requeued only while the attempts that were claimed are below the limit.
    by_contra spent
    have terminal : job.attempts ≥ maxAttempts := count ▸ not_lt.mp spent
    simp [failJob,terminal] at pending
  | unmarked worker _ job outcome _ _ => exact inv.dismissed worker (.signalling job.id outcome) nofun
  | signal worker => exact (inv.dismissed worker .idle nofun).aside rfl rfl rfl
  | restart => exact ⟨inv.unique,inv.fresh,nofun,nofun,inv.attempts⟩

/-- A finished or failed row is written by no step. -/
theorem terminalKept (inv : QueueInv s) (move : Move lower s event s') {job : RefreshJob P} (mem : job ∈ s.jobs)
    (terminal : job.status.terminal = true) : job ∈ s'.jobs := by
  have running : ∀ worker row, s.workers worker = .holding row → job.id ≠ row.id := fun worker row holds ids => by
    obtain ⟨job',there,same,busy,_⟩ := inv.held worker row holds
    cases inv.same mem there (ids.trans same.symm)
    rw [busy] at terminal; contradiction
  cases move with
  | tick | request | coalesce | miss | register | subscribe | missing | timeout | drop | nothing | unmarked | signal
  | restart => exact mem
  | insert => exact List.mem_append_left _ mem
  | claim worker _ claimed _ inside pending _ =>
    refine memUpdate.mpr (Or.inr ⟨mem,fun ids => ?_⟩)
    cases inv.same mem inside ids
    rw [pending] at terminal; contradiction
  | finish worker row here => exact memUpdate.mpr (Or.inr ⟨mem,running worker row here⟩)
  | fail worker _ _ row here => exact memUpdate.mpr (Or.inr ⟨mem,running worker row here⟩)

theorem reachInv {allowed : State P → Event P → Prop} (run : Reach (system lower) allowed s) : QueueInv s :=
  run.invariant (fun _ first => freshInv first) fun _ _ _ inv _ h => inv.move (stepMove h)

theorem terminalKeptAlong (inv : QueueInv s) {events : List (Event P)} (path : Path (system lower) always s events s')
    {job : RefreshJob P} (mem : job ∈ s.jobs) (terminal : job.status.terminal = true) : job ∈ s'.jobs := by
  have both : QueueInv s' ∧ job ∈ s'.jobs :=
    path.keeps (I := fun t => QueueInv t ∧ job ∈ t.jobs)
      (fun _ _ _ holds _ h => ⟨holds.1.move (stepMove h),terminalKept holds.1 (stepMove h) holds.2 terminal⟩) ⟨inv,mem⟩
  exact both.2

/-- A worker comes to hold a row by a claim only, and the row was pending and due. -/
theorem claimedDue {worker : Nat} {locked : List Nat} {row : RefreshJobQueueRow P}
    (h : step lower s (.claim worker locked) = some s') (holds : s'.workers worker = .holding row) :
    ∃ job ∈ s.jobs, job.id = row.id ∧ job.status = .pending ∧ job.requestedAt ≤ s.clock := by
  cases stepMove h with
  | claim _ _ job here inside pending due =>
    simp only [State.work,Function.update_self,Worker.holding.injEq] at holds
    exact ⟨job,inside,holds ▸ rfl,pending,due⟩
  | nothing _ _ here => rw [here] at holds; contradiction
  | unmarked _ _ _ _ _ attempted => rcases attempted with same | ⟨_,_,same⟩ <;> contradiction

/-- In every state of every run of the queue. -/
theorem queueSafe (lower : Text → Text) {s : State P} (run : Reach (system lower) always s) :
    (∀ worker worker' row row', s.workers worker = .holding row → s.workers worker' = .holding row' →
      row.id = row'.id → worker = worker') ∧
    (∀ job ∈ s.jobs, job.attempts ≤ 3) ∧
    (∀ worker locked s' row, step lower s (.claim worker locked) = some s' → s'.workers worker = .holding row →
      ∃ job ∈ s.jobs, job.id = row.id ∧ job.status = .pending ∧ job.requestedAt ≤ s.clock) ∧
    (∀ job ∈ s.jobs, job.status.terminal = true → ∀ events s', Path (system lower) always s events s' →
      job ∈ s'.jobs ∧ (∀ job' ∈ s'.jobs, job'.id = job.id → job' = job) ∧
      ∀ worker row, s'.workers worker = .holding row → row.id ≠ job.id) := by
  have inv := reachInv run
  refine ⟨inv.alone,fun job mem => (inv.attempts job mem).1,fun _ _ _ _ h holds => claimedDue h holds,?_⟩
  intro job mem terminal events s' path
  have inv' := reachInv (run.along path)
  have kept := terminalKeptAlong inv path mem terminal
  refine ⟨kept,fun job' there ids => inv'.same there kept ids,fun worker row holds ids => ?_⟩
  obtain ⟨job',there,same,running,_⟩ := inv'.held worker row holds
  cases inv'.same there kept (same.trans ids)
  rw [running] at terminal; contradiction

end

def refreshRequest : Request Unit := ⟨"serde".toList,"crate".toList,1,false,()⟩

/-- One job: refused once by its worker, claimed again when it is due, and finished. -/
def retriedJob : List (Event Unit) :=
  [.request 0 refreshRequest,.select 0,.insert 0,.claim 0 [],.fail 0 5 "timeout".toList true,.signal 0,.claim 0 [],
    .tick 5,.claim 1 [],.finish 1 true,.signal 1]

theorem queueSafeRetried :
    ∃ s : State Unit, s.jobs.map (fun job => (job.attempts,job.status)) = [(2,.finished)] ∧
      (∀ job ∈ s.jobs, job.attempts ≤ 3) ∧
      ∀ job ∈ s.jobs, job.status.terminal = true → ∀ events s', Path (system id) always s events s' →
        job ∈ s'.jobs ∧ (∀ job' ∈ s'.jobs, job'.id = job.id → job' = job) ∧
        ∀ worker row, s'.workers worker = .holding row → row.id ≠ job.id := by
  have run := execReach (system id) always retriedJob freshFresh (by decide)
  exact ⟨_,by decide,(queueSafe id run).2.1,(queueSafe id run).2.2.2⟩

end RustMcp.QueueSafety
