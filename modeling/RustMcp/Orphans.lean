import RustMcp.InFlight

/-! Rows that are running while no worker holds them. No statement looks for such
rows: what is left running by a stop of the process, or by an update that failed,
stays running, and requests for its crate and scope are given its id. -/
namespace RustMcp.Orphans
open Str (Text)
open Runs RefreshQueue RefreshRuns QueueSafety InFlight

section
variable {P : Type} (lower : Text → Text)

/-- Each running row is held by a worker. -/
def Attended (s : State P) : Prop := ∀ job ∈ s.jobs, job.status = .running → Held s job.id

/-- The update that ends a job is stored, and the process stops while no row is running. -/
def Orderly (s : State P) : Event P → Prop
  | .finish _ persisted => persisted = true
  | .fail _ _ _ persisted => persisted = true
  | .restart => ∀ job ∈ s.jobs, job.status ≠ .running
  | _ => True

instance (s : State P) (event : Event P) : Decidable (Orderly s event) :=
  match event with
  | .finish _ persisted => inferInstanceAs (Decidable (persisted = true))
  | .fail _ _ _ persisted => inferInstanceAs (Decidable (persisted = true))
  | .restart => inferInstanceAs (Decidable (∀ job ∈ s.jobs, job.status ≠ .running))
  | .tick _ | .request .. | .select _ | .insert _ | .register _ | .wait _ | .timeout _ | .drop _ | .claim .. | .signal _ =>
      inferInstanceAs (Decidable True)

/-- Some orderly run from here finishes the job. -/
def Ends (s : State P) (id : Nat) : Prop :=
  ∃ events s', Path (system lower) Orderly s events s' ∧ ∃ job ∈ s'.jobs, job.id = id ∧ job.status = .finished

variable {lower} {s s' : State P} {event : Event P} {id : Nat}

theorem Attended.keeps (attended : Attended s) (jobs : s'.jobs = s.jobs) (holds : ∀ id, Held s id → Held s' id) :
    Attended s' := by
  intro job mem running
  rw [jobs] at mem
  exact holds _ (attended job mem running)

/-- A worker that holds nothing may move on without letting go of a row. -/
theorem heldElsewhere {worker : Nat} (pc : Worker P) (free : ∀ row, s.workers worker ≠ .holding row)
    (moved : s'.workers = Function.update s.workers worker pc) (held : Held s id) : Held s' id := by
  obtain ⟨w,row,holds,same⟩ := held
  refine ⟨w,row,?_,same⟩
  rw [moved,Function.update_of_ne]
  · exact holds
  · rintro rfl; exact free row holds

/-- A worker that lets go of its row leaves the other rows to their holders. -/
theorem heldOthers {worker : Nat} {row : RefreshJobQueueRow P} (pc : Worker P) (here : s.workers worker = .holding row)
    (moved : s'.workers = Function.update s.workers worker pc) (other : id ≠ row.id) (held : Held s id) : Held s' id := by
  obtain ⟨w,row',holds,same⟩ := held
  refine ⟨w,row',?_,same⟩
  rw [moved,Function.update_of_ne]
  · exact holds
  · rintro rfl
    rw [here,Worker.holding.injEq] at holds
    exact other (holds ▸ same.symm)

/-- Once let go of, a row is held by nobody. -/
theorem letGo (inv : QueueInv s) {worker : Nat} {row : RefreshJobQueueRow P} (here : s.workers worker = .holding row)
    (pc : Worker P) (left : ∀ row, pc ≠ .holding row) (moved : s'.workers = Function.update s.workers worker pc) :
    ¬ Held s' row.id := by
  rintro ⟨w,row',holds,same⟩
  rw [moved] at holds
  by_cases mine : w = worker
  · subst mine
    rw [Function.update_self] at holds
    exact left _ holds
  · rw [Function.update_of_ne mine] at holds
    exact mine (inv.alone _ _ _ _ holds here same)

/-- A stored end of a job leaves its row not running, and the others as they were. -/
theorem Attended.ended (attended : Attended s) {worker : Nat} {row : RefreshJobQueueRow P}
    (here : s.workers worker = .holding row) (change : RefreshJob P → RefreshJob P)
    (after : ∀ job, (change job).status ≠ .running)
    (pc : Worker P) : Attended ((s.store (updateJob row.id change s.jobs)).work worker pc) := by
  intro job mem running
  rcases memUpdate.mp mem with ⟨old,_,_,rfl⟩ | ⟨there,differ⟩
  · exact absurd running (after old)
  · exact heldOthers pc here rfl differ (attended job there running)

theorem failNotRunning (now : Nat) (terminal : Bool) (retryDelay : Nat) (error : Text) (job : RefreshJob P) :
    (failJob now terminal retryDelay error job).status ≠ .running := by
  cases terminal <;> simp [failJob]

theorem Attended.move (attended : Attended s) (orderly : Orderly s event) (move : Move lower s event s') :
    Attended s' := by
  cases move with
  | tick | request | coalesce | miss | register | subscribe | missing | timeout | drop | nothing =>
    exact attended.keeps rfl fun _ held => held
  | insert caller request here =>
    intro job mem running
    rcases List.mem_append.mp mem with old | new
    · exact attended job old running
    · rw [List.mem_singleton.mp new] at running; contradiction
  | claim worker _ job here inside pending _ =>
    intro job' mem running
    rcases memUpdate.mp mem with ⟨old,_,same,rfl⟩ | ⟨there,_⟩
    · exact ⟨worker,_,Function.update_self _ _ _,same.symm⟩
    · exact heldElsewhere (s := s) _ (by simp [here]) rfl (attended job' there running)
  | finish worker row here => exact attended.ended here (finishJob s.clock) (fun _ => by simp [finishJob]) _
  | fail worker retryDelay error row here =>
    exact attended.ended here (failJob s.clock _ retryDelay error) (failNotRunning _ _ _ _) _
  | unmarked worker _ row _ here attempted => rcases attempted with rfl | ⟨_,_,rfl⟩ <;> contradiction
  | signal worker _ _ here => exact attended.keeps rfl fun _ held => heldElsewhere (s := s) _ (by simp [here]) rfl held
  | restart => intro job mem running; exact absurd running (orderly job mem)

/-- A step that is not orderly leaves a running row to nobody. -/
theorem orphaned (inv : QueueInv s) (move : Move lower s event s') (attended : Attended s') : Orderly s event := by
  cases move with
  | tick | request | coalesce | miss | insert | register | subscribe | missing | timeout | drop | claim | nothing
  | signal => exact trivial
  | finish | fail => exact rfl
  | unmarked worker _ row outcome here attempted =>
    obtain ⟨job,mem,same,running,_⟩ := inv.held worker row here
    have held := attended job mem running
    rw [same] at held
    exact absurd held (letGo inv here (.signalling row.id outcome) (by simp) rfl)
  | restart =>
    intro job mem running
    obtain ⟨_,_,holds,_⟩ := attended job mem running
    contradiction

theorem attendedReach (run : Reach (system lower) Orderly s) : Attended s := by
  refine run.invariant (fun s first job mem => ?_) fun _ _ _ attended orderly h => attended.move orderly (stepMove h)
  rw [first.1] at mem; contradiction

/-! Every active row can still be brought to its end. -/

theorem Ends.before {t : State P} (moves : step lower s event = some t) (orderly : Orderly s event) (ends : Ends lower t id) :
    Ends lower s id := by
  obtain ⟨events,s',path,done⟩ := ends
  exact ⟨event::events,s',.move orderly moves path,done⟩

theorem endsHeld (job : RefreshJob P) (mem : job ∈ s.jobs) {worker : Nat} {row : RefreshJobQueueRow P}
    (here : s.workers worker = .holding row) (same : job.id = row.id) : Ends lower s job.id := by
  have moves : step lower s (.finish worker true) = some ((s.store (markRefreshJobFinished s.clock row.id s.jobs)).work worker
      (.signalling row.id .completed)) := by simp [step,here]
  refine Ends.before moves rfl ⟨[],_,.done _,finishJob s.clock job,?_,rfl,rfl⟩
  exact memUpdate.mpr (Or.inl ⟨job,mem,same,rfl⟩)

/-- A worker is given the row that no other transaction locks. -/
theorem claimOnly (inv : QueueInv s) {job : RefreshJob P} (mem : job ∈ s.jobs) (pending : job.status = .pending)
    (due : job.requestedAt ≤ s.clock) :
    claimNextRefreshJob s.clock ((s.jobs.map RefreshJob.id).filter (· ≠ job.id)) s.jobs =
      some ((startJob s.clock job).queueRow,updateJob job.id (startJob s.clock) s.jobs) := by
  have ready : claimable s.clock ((s.jobs.map RefreshJob.id).filter (· ≠ job.id)) job = true := by
    simp [claimable,pending,due]
  cases next : claimNextRefreshJob s.clock ((s.jobs.map RefreshJob.id).filter (· ≠ job.id)) s.jobs with
  | none =>
    have nobody := Option.map_eq_none_iff.mp next
    rw [nextJob,List.head?_eq_none_iff] at nobody
    have there := (Ranking.sortByPerm claimKey _).mem_iff.mpr (List.mem_filter.mpr ⟨mem,ready⟩)
    rw [nobody] at there
    contradiction
  | some taken =>
    obtain ⟨row,jobs⟩ := taken
    obtain ⟨job',mem',_,_,free,_,rfl,rfl⟩ := claimSome next
    have same : job'.id = job.id := by
      by_contra differ
      exact free (List.mem_filter.mpr ⟨List.mem_map.mpr ⟨job',mem',rfl⟩,by simpa using differ⟩)
    cases inv.same mem' mem same
    rfl

theorem endsFree (inv : QueueInv s) {job : RefreshJob P} (mem : job ∈ s.jobs) (pending : job.status = .pending)
    (idle : s.workers 0 = .idle) : Ends lower s job.id := by
  have ticks : step lower s (.tick (max s.clock job.requestedAt)) = some {s with clock := max s.clock job.requestedAt} := by
    simp [step]
  have inv' := inv.move (stepMove ticks)
  have claims := claimOnly inv' mem pending (le_max_right _ _)
  have takes : step lower {s with clock := max s.clock job.requestedAt}
      (.claim 0 ((s.jobs.map RefreshJob.id).filter (· ≠ job.id))) =
      some (({s with clock := max s.clock job.requestedAt}.store
        (updateJob job.id (startJob (max s.clock job.requestedAt)) s.jobs)).work 0
          (.holding (startJob (max s.clock job.requestedAt) job).queueRow)) := by
    simp only [step,idle,claims]
  refine .before ticks trivial (.before takes trivial ?_)
  exact endsHeld (startJob (max s.clock job.requestedAt) job) (memUpdate.mpr (Or.inl ⟨job,mem,rfl,rfl⟩))
    (Function.update_self _ _ _) rfl

theorem endsSignalling (inv : QueueInv s) {job : RefreshJob P} (mem : job ∈ s.jobs) (pending : job.status = .pending)
    {done : Nat} {outcome : JobOutcome} (here : s.workers 0 = .signalling done outcome) : Ends lower s job.id := by
  cases moves : step lower s (.signal 0) with
  | none => simp [step,here] at moves
  | some t =>
    have inv' := inv.move (stepMove moves)
    cases stepMove moves with
    | signal _ _ _ _ => exact .before moves trivial (endsFree inv' mem pending (by simp [State.work]))
    | unmarked _ _ _ _ _ attempted => rcases attempted with same | ⟨_,_,same⟩ <;> contradiction

/-- The first worker ends what it is at, and then takes the row. -/
theorem endsPending (inv : QueueInv s) {job : RefreshJob P} (mem : job ∈ s.jobs) (pending : job.status = .pending) :
    Ends lower s job.id := by
  cases here : s.workers 0 with
  | idle => exact endsFree inv mem pending here
  | signalling done outcome => exact endsSignalling inv mem pending here
  | holding row =>
    have moves : step lower s (.finish 0 true) = some ((s.store (markRefreshJobFinished s.clock row.id s.jobs)).work 0
        (.signalling row.id .completed)) := by simp [step,here]
    have told : ((s.store (markRefreshJobFinished s.clock row.id s.jobs)).work 0
        (.signalling row.id .completed)).workers 0 = .signalling row.id .completed := by simp [State.work]
    refine .before moves rfl (endsSignalling (inv.move (stepMove moves)) ?_ pending told)
    refine memUpdate.mpr (Or.inr ⟨mem,fun same => ?_⟩)
    obtain ⟨job',mem',same',running,_⟩ := inv.held 0 row here
    cases inv.same mem mem' (same.trans same'.symm)
    rw [pending] at running; contradiction

theorem endsActive (inv : QueueInv s) (attended : Attended s) {job : RefreshJob P} (mem : job ∈ s.jobs)
    (active : job.status.active = true) : Ends lower s job.id := by
  cases status : job.status with
  | pending => exact endsPending inv mem status
  | running =>
    obtain ⟨worker,row,here,same⟩ := attended job mem status
    exact endsHeld job mem here same.symm
  | finished => rw [status] at active; contradiction
  | failed => rw [status] at active; contradiction

/-- In every orderly run, each running row is held, a request is given the id of a row that can
still be finished, and no key is blocked; and the next step keeps the running rows attended exactly
if it is orderly. -/
theorem runningAttended (lower : Text → Text) {s : State P} (run : Reach (system lower) Orderly s) :
    Attended s ∧
    (∀ crateName scope id, selectActive lower crateName scope s.jobs = some id → Ends lower s id) ∧
    (∀ job ∈ s.jobs, job.status.active = true → Ends lower s job.id) ∧
    ∀ event s', step lower s event = some s' → (Attended s' ↔ Orderly s event) := by
  have inv := reachInv run
  have attended := attendedReach run
  refine ⟨attended,fun crateName scope id found => ?_,fun job mem active => endsActive inv attended mem active,
    fun event s' moves => ⟨orphaned inv (stepMove moves),fun orderly => attended.move orderly (stepMove moves)⟩⟩
  obtain ⟨job,mem,rfl,_,active⟩ := selectActiveSome found
  exact endsActive inv attended mem active

/-! A row left running stays so. -/

/-- A running row that nobody holds is touched by no step, and no worker comes to hold it. -/
theorem orphanKept (inv : QueueInv s) (move : Move lower s event s') {job : RefreshJob P} (mem : job ∈ s.jobs)
    (running : job.status = .running) (alone : ¬ Held s job.id) : job ∈ s'.jobs ∧ ¬ Held s' job.id := by
  cases move with
  | tick | request | coalesce | miss | register | subscribe | missing | timeout | drop | nothing => exact ⟨mem,alone⟩
  | insert => exact ⟨List.mem_append_left _ mem,alone⟩
  | claim worker _ claimed here inside pending _ =>
    have differ : job.id ≠ claimed.id := fun same => by
      cases inv.same mem inside same
      rw [pending] at running; contradiction
    refine ⟨memUpdate.mpr (Or.inr ⟨mem,differ⟩),?_⟩
    rintro ⟨w,row,holds,same⟩
    rcases heldUpdate holds with ⟨_,now⟩ | before
    · cases now; exact differ same.symm
    · exact alone ⟨w,row,before,same⟩
  | finish worker row here =>
    exact ⟨memUpdate.mpr (Or.inr ⟨mem,fun same => alone ⟨worker,row,here,same.symm⟩⟩),
      fun held => alone (heldLeft rfl (by simp) held)⟩
  | fail worker _ _ row here =>
    exact ⟨memUpdate.mpr (Or.inr ⟨mem,fun same => alone ⟨worker,row,here,same.symm⟩⟩),
      fun held => alone (heldLeft rfl (by simp) held)⟩
  | unmarked | signal => exact ⟨mem,fun held => alone (heldLeft rfl (by simp) held)⟩
  | restart => exact ⟨mem,by rintro ⟨_,_,holds,_⟩; contradiction⟩

theorem orphanKeptAlong (inv : QueueInv s) {events : List (Event P)} (path : Path (system lower) always s events s')
    {job : RefreshJob P} (mem : job ∈ s.jobs) (running : job.status = .running) (alone : ¬ Held s job.id) :
    job ∈ s'.jobs ∧ ¬ Held s' job.id := by
  have all : QueueInv s' ∧ job ∈ s'.jobs ∧ ¬ Held s' job.id :=
    path.keeps (I := fun t => QueueInv t ∧ job ∈ t.jobs ∧ ¬ Held t job.id)
      (fun _ _ _ holds _ h => ⟨holds.1.move (stepMove h),orphanKept holds.1 (stepMove h) holds.2.1 running holds.2.2⟩)
      ⟨inv,mem,alone⟩
  exact all.2

end

def claimedJob : List (Event Unit) := [.request 0 refreshRequest,.select 0,.insert 0,.claim 0 []]

def stoppedJob : List (Event Unit) := claimedJob ++ [.restart]

theorem runningAttendedClaimed :
    ∃ s : State Unit, s.jobs.map (fun job => (job.id,job.status)) = [(1,.running)] ∧ Attended s ∧ Ends id s 1 ∧
      ∀ event s', step id s event = some s' → (Attended s' ↔ Orderly s event) := by
  have run := execReach (system id) Orderly claimedJob freshFresh (by decide)
  have all := runningAttended id run
  exact ⟨_,by decide,all.1,all.2.1 "serde".toList "crate".toList 1 (by decide),all.2.2.2⟩

/-- The process is stopped while its worker has a job: the row is never taken up again, and
requests for its crate and scope are given its id. -/
theorem stoppedJobBlocks :
    ∃ s : State Unit, Reach (system id) always s ∧ ¬ Attended s ∧
      selectActive id "serde".toList "crate".toList s.jobs = some 1 ∧
      ∀ events s', Path (system id) always s events s' →
        (∃ job ∈ s'.jobs, job.id = 1 ∧ job.status = .running) ∧ ¬ Held s' 1 ∧
        selectActive id "serde".toList "crate".toList s'.jobs ≠ none := by
  have run := execReach (system id) always stoppedJob freshFresh (by decide)
  have inv := reachInv run
  obtain ⟨job,mem,ids,running,key⟩ : ∃ job ∈ ((exec (system id) always fresh stoppedJob).get (by decide)).jobs,
      job.id = 1 ∧ job.status = .running ∧ sameKey id "serde".toList "crate".toList job = true := by decide
  have alone : ¬ Held ((exec (system id) always fresh stoppedJob).get (by decide)) job.id := by
    rintro ⟨_,_,holds,_⟩; contradiction
  refine ⟨_,run,fun attended => alone (attended job mem running),by decide,fun events s' path => ?_⟩
  have kept := orphanKeptAlong inv path mem running alone
  refine ⟨⟨job,kept.1,ids,running⟩,ids ▸ kept.2,fun none_ => ?_⟩
  have idle := selectActiveNone.mp none_ job kept.1 key
  rw [running] at idle; contradiction

end RustMcp.Orphans
