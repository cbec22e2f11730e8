import RustMcp.QueueSafety

/-! One active job a crate and scope. The enqueue looks for one and inserts in two
statements, and no unique index stands behind them. -/
namespace RustMcp.ActiveJobs
open Str (Text)
open Runs RefreshQueue RefreshRuns QueueSafety

section
variable {P : Type} (lower : Text → Text)

/-- At most one pending or running row for each `(LOWER(crate_name), scope)`. -/
def OneActive (s : State P) : Prop :=
  ∀ job ∈ s.jobs, ∀ job' ∈ s.jobs, job.status.active = true → job'.status.active = true →
    sameKey lower job.crateName job.scope job' = true → job = job'

/-- The request that the event inserts a row for. -/
def insertedRequest (s : State P) (event : Event P) : Option (Request P) :=
  match event with
  | .insert caller => match s.callers caller with
    | .inserting request => some request
    | _ => none
  | _ => none

/-- At an insert, the lookup before it would still find nothing. -/
def FreeAtInsert (s : State P) (event : Event P) : Prop :=
  ∀ request ∈ insertedRequest s event, selectActive lower request.crateName request.scope s.jobs = none

instance (s : State P) (event : Event P) : Decidable (FreeAtInsert lower s event) :=
  inferInstanceAs (Decidable (∀ request ∈ insertedRequest s event, _))

variable {lower} {s s' : State P} {event : Event P}

theorem sameKeyIff {crateName scope : Text} {job : RefreshJob P} :
    sameKey lower crateName scope job = true ↔ lower job.crateName = lower crateName ∧ job.scope = scope := by
  simp [sameKey]

/-- Rows that were there before, under the same key and active, are no more than before. -/
theorem OneActive.shrunk (one : OneActive lower s) (back : ∀ job ∈ s'.jobs, job.status.active = true →
      ∃ old ∈ s.jobs, old.id = job.id ∧ old.status.active = true ∧ old.crateName = job.crateName ∧ old.scope = job.scope)
    (inv' : QueueInv s') : OneActive lower s' := by
  intro job mem job' mem' active active' key
  obtain ⟨old,there,ids,was,name,scope⟩ := back job mem active
  obtain ⟨old',there',ids',was',name',scope'⟩ := back job' mem' active'
  refine inv'.same mem mem' ?_
  have shared : sameKey lower old.crateName old.scope old' = true := by
    rw [sameKeyIff] at key ⊢
    rw [name,name',scope,scope']
    exact key
  rw [← ids,← ids',one old there old' there' was was' shared]

/-- An update of one row that keeps its key, and leaves it active only if it was. -/
theorem activeUpdate {id : Nat} {change : RefreshJob P → RefreshJob P}
    (kept : ∀ job ∈ s.jobs, job.id = id → (change job).id = job.id ∧ (change job).crateName = job.crateName ∧
      (change job).scope = job.scope ∧ ((change job).status.active = true → job.status.active = true)) :
    ∀ job ∈ updateJob id change s.jobs, job.status.active = true →
      ∃ old ∈ s.jobs, old.id = job.id ∧ old.status.active = true ∧ old.crateName = job.crateName ∧ old.scope = job.scope := by
  intro job mem active
  rcases memUpdate.mp mem with ⟨old,there,same,rfl⟩ | ⟨there,_⟩
  · obtain ⟨ids,name,scope,was⟩ := kept old there same
    exact ⟨old,there,ids.symm,was active,name.symm,scope.symm⟩
  · exact ⟨job,there,rfl,active,rfl,rfl⟩

theorem OneActive.move (inv : QueueInv s) (one : OneActive lower s) (free : FreeAtInsert lower s event)
    (move : Move lower s event s') : OneActive lower s' := by
  have inv' := inv.move move
  cases move with
  | tick | request | coalesce | miss | register | subscribe | missing | timeout | drop | nothing | unmarked | signal
  | restart => exact one
  | insert caller request here =>
    have none_ := selectActiveNone.mp (free request (by simp [insertedRequest,here]))
    -- A row under the new row's key is not active.
    intro job mem job' mem' active active' key
    rcases List.mem_append.mp mem with old | new <;> rcases List.mem_append.mp mem' with old' | new'
    · exact one job old job' old' active active' key
    · rw [List.mem_singleton.mp new'] at key
      obtain ⟨name,scope⟩ := sameKeyIff.mp key
      have spent := none_ job old (sameKeyIff.mpr ⟨name.symm,scope.symm⟩)
      rw [active] at spent; contradiction
    · rw [List.mem_singleton.mp new] at key
      have spent := none_ job' old' key
      rw [active'] at spent; contradiction
    · rw [List.mem_singleton.mp new,List.mem_singleton.mp new']
  | claim worker _ job _ inside pending _ =>
    refine one.shrunk (activeUpdate fun old there same => ⟨rfl,rfl,rfl,fun _ => ?_⟩) inv'
    rw [inv.same there inside same,pending]; rfl
  | finish worker row here =>
    exact one.shrunk (activeUpdate fun _ _ _ => ⟨rfl,rfl,rfl,nofun⟩) inv'
  | fail worker _ _ row here =>
    refine one.shrunk (activeUpdate fun old there same => ⟨rfl,rfl,rfl,fun _ => ?_⟩) inv'
    obtain ⟨job,inside,ids,running,_⟩ := inv.held worker row here
    rw [inv.same there inside (same.trans ids.symm),running]; rfl

/-- Inserted beside an active row of its key, the row makes two. -/
theorem insertsSecond (inv : QueueInv s) (h : step lower s event = some s') (one : OneActive lower s') :
    FreeAtInsert lower s event := by
  intro request inserts
  cases found : selectActive lower request.crateName request.scope s.jobs with
  | none => rfl
  | some id =>
    obtain ⟨job,there,_,key,active⟩ := selectActiveSome found
    cases stepMove h with
    | insert caller request' here =>
      cases (show request' = request by simpa [insertedRequest,here] using inserts)
      obtain ⟨name,scope⟩ := sameKeyIff.mp key
      have same := one _ (List.mem_append_right _ (List.mem_singleton_self _)) job (List.mem_append_left _ there) rfl active
        (sameKeyIff.mpr ⟨name,scope⟩)
      have below := inv.fresh job there
      rw [← same] at below
      exact absurd below (lt_irrefl _)
    | unmarked _ _ _ _ _ attempted => rcases attempted with rfl | ⟨_,_,rfl⟩ <;> simp [insertedRequest] at inserts
    | _ => simp [insertedRequest] at inserts

/-- One active row a key in every run whose inserts find the key free; any other insert breaks it. -/
theorem activeJobsUnique (lower : Text → Text) {s : State P} (run : Reach (system lower) (FreeAtInsert lower) s) :
    OneActive lower s ∧ ∀ event s', step lower s event = some s' → (OneActive lower s' ↔ FreeAtInsert lower s event) := by
  have one : OneActive lower s :=
    run.invariantOver (fun _ run => reachInv run) (fun s first => by rintro job mem; simp [first.1] at mem)
      fun _ _ _ inv one free h => one.move inv free (stepMove h)
  exact ⟨one,fun event s' h => ⟨insertsSecond (reachInv run) h,fun free => one.move (reachInv run) free (stepMove h)⟩⟩

end

def serdeRequest (crateName : Text) : Request Unit := ⟨crateName,"crate".toList,1,false,()⟩

theorem activeJobsUniqueCoalesced :
    ∃ s : State Unit, s.jobs.length = 1 ∧ s.callers 1 = .enqueued ⟨1,false⟩ ∧ OneActive Str.toAsciiLowercase s := by
  have run := execReach (system Str.toAsciiLowercase) (FreeAtInsert Str.toAsciiLowercase)
    [.request 0 (serdeRequest "serde".toList),.select 0,.insert 0,.request 1 (serdeRequest "Serde".toList),.select 1]
    freshFresh (by decide)
  exact ⟨_,by decide,by decide,(activeJobsUnique Str.toAsciiLowercase run).1⟩

/-- Two calls look before either inserts. -/
theorem lookupsRace : ¬ ∀ s : State Unit, Reach (system Str.toAsciiLowercase) always s → OneActive Str.toAsciiLowercase s := by
  intro unique
  have run := execReach (system Str.toAsciiLowercase) always
    [.request 0 (serdeRequest "serde".toList),.request 1 (serdeRequest "serde".toList),.select 0,.select 1,.insert 0,.insert 1]
    (freshFresh (P := Unit)) (by decide)
  have one := unique _ run (insertedJob 0 1 (serdeRequest "serde".toList)) (by decide)
    (insertedJob 0 2 (serdeRequest "serde".toList)) (by decide) (by decide) (by decide) (by decide)
  exact absurd one (by decide)

end RustMcp.ActiveJobs
