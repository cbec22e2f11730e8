import RustMcp.InFlight
import RustMcp.LocalCache
import RustMcp.Provenance
import RustMcp.Registry

/-! Versions that tool handlers wait for. A request names the crate alone, and is given
any active job of the crate and scope; that job syncs one page of what its own payload
selects. -/
namespace RustMcp.OnDemand
open Str (Text)
open Runs RefreshQueue RefreshRuns QueueSafety InFlight RustdocSync LocalCache Utils

/-- The payload with the fields that the other scopes read. -/
structure RefreshJobPayload extends Registry.RefreshJobPayload where
  crateName : Option Text
  query : Option Text
  page : Option Nat
  perPage : Option Nat
  locallyPresentOnly : Option Bool

/-- What the worker reads from `{"trigger": "on_demand", "scope": …}`. -/
def onDemandPayload : RefreshJobPayload := ⟨⟨none⟩,none,none,none,none,none⟩

def enqueueOnDemand (crateName scope : Text) : Request RefreshJobPayload :=
  ⟨crateName,scope,priorityOnDemand,false,onDemandPayload⟩

def ensureRustdocIndexed (symbols : RustdocRows) (crateName : Text) (crateVersionId : Nat) : Option (Request RefreshJobPayload) :=
  if hasRustdocSymbols symbols crateVersionId then none else some (enqueueOnDemand crateName "rustdoc_json".toList)

def ensureSourceIndexed (sources : SourceRows) (crateName : Text) (crateVersionId : Nat) : Option (Request RefreshJobPayload) :=
  if hasSourceFiles sources crateVersionId then none else some (enqueueOnDemand crateName "local_cache".toList)

/-! The job. -/

def namedCrate (name : Text) : Option Text :=
  let trimmed := Str.trim name
  if trimmed = [] || trimmed = "*".toList || Str.toAsciiLowercase trimmed = "all".toList then none else some trimmed

def optionalJobCrateName (jobCrateName : Text) (payloadCrateName : Option Text) : Option Text :=
  (payloadCrateName.bind namedCrate).or (namedCrate jobCrateName)

/-- What a worker meets when it runs a job. -/
structure World (V B : Type) where
  env : Env V B
  lower : Text → Text
  retryCooldown : Nat
  disk : SourceDisk
  sha256 : Text → Text

inductive Step where
  | write (write : Write)
  | scan (pathContains : Option Text) (dir : SourceDir)

structure Stored where
  symbols : RustdocRows
  sources : SourceRows

def pathFilter (payload : RefreshJobPayload) : Option Text := (normalizeOptional payload.query).map Str.toAsciiLowercase

section
variable {V B : Type} (world : World V B)

def rustdocFilter (crateName : Text) (payload : RefreshJobPayload) : RustdocCandidateFilter :=
  ⟨optionalJobCrateName crateName payload.crateName,none,payload.locallyPresentOnly.getD false,true,some world.retryCooldown⟩

def applyStep (stored : Stored) : Step → Stored
  | .write write => {stored with symbols := applyWrite stored.symbols write}
  | .scan pathContains dir => {stored with sources := syncDir world.sha256 pathContains stored.sources dir}

def applySteps (steps : List Step) (stored : Stored) : Stored := steps.foldl (applyStep world) stored

variable [LinearOrder V]

/-- The steps of a job that completes. -/
def jobSteps (now : Nat) (job : RefreshJobQueueRow RefreshJobPayload) (versions : List CrateVersion) : Option (List Step) :=
  let locallyPresentOnly := job.payload.locallyPresentOnly.getD false
  if job.scope = "local_cache".toList then
    let crateName := optionalJobCrateName job.crateName job.payload.crateName
    match crateName.mapM fun name => normalizeRequired name "crate_name".toList with
    | .error _ => none
    | .ok crateName =>
        some ((selectedDirs world.env.parseVersion world.lower crateName job.payload.page job.payload.perPage
          locallyPresentOnly world.disk versions).map (.scan (pathFilter job.payload)))
  else if job.scope = "rustdoc_json".toList then
    match syncRustdocJsonCache world.env world.lower now (rustdocFilter world job.crateName job.payload) job.payload.page
      job.payload.perPage versions with
    | .error _ => none
    | .ok pass => some (pass.writes.map .write)
  else none

end

/-! The job that a request is given, and its row when a worker has it. -/

section
variable {P : Type} {lower : Text → Text} {s s' : State P} {event : Event P}

/-- The request is given a job, and later on a worker holds that job as `row`. -/
def Joined (lower : Text → Text) (request : Request P) (job : RefreshJob P) (row : RefreshJobQueueRow P) : Prop :=
  ∃ s s' t caller event events outcome worker, Reach (system lower) always s ∧ Asks (s.callers caller) request ∧
    step lower s event = some s' ∧ s'.callers caller = .enqueued outcome ∧ job ∈ s'.jobs ∧ job.id = outcome.jobId ∧
    Path (system lower) always s' events t ∧ t.workers worker = .holding row ∧ row.id = outcome.jobId

/-- What workers hold is what was stored. -/
def Faithful (s : State P) : Prop :=
  ∀ worker row, s.workers worker = .holding row → ∃ job ∈ s.jobs, job.id = row.id ∧ jobCargo job = rowCargo row

theorem updateCargo {id : Nat} (change : RefreshJob P → RefreshJob P) {jobs : List (RefreshJob P)}
    (kept : ∀ job, (change job).id = job.id ∧ jobCargo (change job) = jobCargo job) {job : RefreshJob P} (mem : job ∈ jobs) :
    ∃ job' ∈ updateJob id change jobs, job'.id = job.id ∧ jobCargo job' = jobCargo job := by
  by_cases same : job.id = id
  · exact ⟨change job,memUpdate.mpr (Or.inl ⟨job,mem,same,rfl⟩),kept job⟩
  · exact ⟨job,memUpdate.mpr (Or.inr ⟨mem,same⟩),rfl,rfl⟩

/-- No statement deletes a row, or changes what it carries. -/
theorem cargoKept (move : Move lower s event s') {job : RefreshJob P} (mem : job ∈ s.jobs) :
    ∃ job' ∈ s'.jobs, job'.id = job.id ∧ jobCargo job' = jobCargo job := by
  cases move with
  | tick | request | coalesce | miss | register | subscribe | missing | timeout | drop | nothing | unmarked | signal | restart =>
    exact ⟨job,mem,rfl,rfl⟩
  | insert => exact ⟨job,List.mem_append_left _ mem,rfl,rfl⟩
  | claim => exact updateCargo (startJob s.clock) (fun _ => ⟨rfl,rfl⟩) mem
  | finish => exact updateCargo (finishJob s.clock) (fun _ => ⟨rfl,rfl⟩) mem
  | fail _ retryDelay error => exact updateCargo (failJob s.clock _ retryDelay error) (fun _ => ⟨rfl,rfl⟩) mem

/-- A worker comes by its row by a claim. -/
theorem heldFrom (move : Move lower s event s') {worker : Nat} {row : RefreshJobQueueRow P}
    (holds : s'.workers worker = .holding row) :
    s.workers worker = .holding row ∨ ∃ job ∈ s.jobs, row = (startJob s.clock job).queueRow := by
  cases move with
  | tick | request | coalesce | miss | insert | register | subscribe | missing | timeout | drop | nothing => exact Or.inl holds
  | claim _ _ job _ inside =>
    rcases heldUpdate holds with ⟨_,now⟩ | before
    · cases now; exact Or.inr ⟨job,inside,rfl⟩
    · exact Or.inl before
  | finish | fail | unmarked | signal =>
    rcases heldUpdate holds with ⟨_,now⟩ | before
    · contradiction
    · exact Or.inl before
  | restart => contradiction

theorem Faithful.move (faithful : Faithful s) (move : Move lower s event s') : Faithful s' := by
  intro worker row holds
  obtain ⟨job,mem,ids,cargo⟩ : ∃ job ∈ s.jobs, job.id = row.id ∧ jobCargo job = rowCargo row := by
    rcases heldFrom move holds with before | ⟨job,mem,rfl⟩
    · exact faithful worker row before
    · exact ⟨job,mem,rfl,rfl⟩
  obtain ⟨job',mem',ids',cargo'⟩ := cargoKept move mem
  exact ⟨job',mem',ids'.trans ids,cargo'.trans cargo⟩

theorem faithfulReach (run : Reach (system lower) always s) : Faithful s := by
  refine run.invariant (fun s first worker row holds => ?_) fun _ _ _ faithful _ h => faithful.move (stepMove h)
  rw [first.2.2.1] at holds; contradiction

/-- The job that a request is given is of its crate and scope. -/
theorem givenJob {caller : Nat} {request : Request P} {outcome : EnqueueOutcome} (asks : Asks (s.callers caller) request)
    (move : Move lower s event s') (given : s'.callers caller = .enqueued outcome) :
    ∃ job ∈ s'.jobs, job.id = outcome.jobId ∧ sameKey lower request.crateName request.scope job = true := by
  have kept : ∀ pc, s.callers caller = pc → pc ≠ .enqueued outcome := by
    rintro pc here rfl
    rcases asks with h | h <;> rw [here] at h <;> contradiction
  have moved : ∀ caller' pc, Function.update s.callers caller' pc caller = .enqueued outcome →
      caller = caller' ∧ pc = .enqueued outcome := fun caller' pc h => by
    by_cases mine : caller = caller'
    · subst mine; rw [Function.update_self] at h; exact ⟨rfl,h⟩
    · rw [Function.update_of_ne mine] at h; exact absurd h (kept _ rfl)
  cases move with
  | tick | claim | nothing | finish | fail | unmarked => exact absurd given (kept _ rfl)
  | request | miss | register | subscribe | missing | timeout | drop => exact absurd (moved _ _ given).2 (by simp)
  | coalesce caller' request' id here found =>
    obtain ⟨rfl,same⟩ := moved _ _ given
    cases Caller.enqueued.inj same
    rw [here] at asks
    rcases asks with h | h
    · cases Caller.selecting.inj h
      obtain ⟨job,mem,ids,key,_⟩ := selectActiveSome found
      exact ⟨job,mem,ids,key⟩
    · contradiction
  | insert caller' request' here =>
    obtain ⟨rfl,same⟩ := moved _ _ given
    cases Caller.enqueued.inj same
    rw [here] at asks
    rcases asks with h | h
    · contradiction
    · cases Caller.inserting.inj h
      exact ⟨_,List.mem_append_right _ (List.mem_singleton.mpr rfl),rfl,by simp [sameKey,insertedJob]⟩
  | signal _ _ _ =>
    simp only [State.work] at given
    split at given
    · exact absurd (deliverEnqueued given) (kept _ rfl)
    · exact absurd given (kept _ rfl)
  | restart => contradiction

theorem joinedRow {request : Request P} {job : RefreshJob P} {row : RefreshJobQueueRow P} (joined : Joined lower request job row) :
    row.crateName = job.crateName ∧ row.scope = request.scope ∧ row.payload = job.payload ∧
      lower job.crateName = lower request.crateName := by
  obtain ⟨s,s',t,caller,event,events,outcome,worker,run,asks,moves,given,mem,ids,path,holds,same⟩ := joined
  have run' : Reach (system lower) always s' := .next run trivial moves
  obtain ⟨job',mem',ids',key⟩ := givenJob asks (stepMove moves) given
  cases (reachInv run').same mem mem' (ids.trans ids'.symm)
  obtain ⟨later,there,laterIds,laterCargo⟩ : ∃ later ∈ t.jobs, later.id = job.id ∧ jobCargo later = jobCargo job :=
    path.keeps (I := fun u => ∃ later ∈ u.jobs, later.id = job.id ∧ jobCargo later = jobCargo job)
      (fun _ _ _ ⟨old,inside,oldIds,oldCargo⟩ _ h => by
        obtain ⟨new,inside',newIds,newCargo⟩ := cargoKept (stepMove h) inside
        exact ⟨new,inside',newIds.trans oldIds,newCargo.trans oldCargo⟩)
      ⟨job,mem,rfl,rfl⟩
  have arrives := run'.along path
  obtain ⟨held,there',heldIds,heldCargo⟩ := faithfulReach arrives worker row holds
  cases (reachInv arrives).same there there' (laterIds.trans (ids.trans (same.symm.trans heldIds.symm)))
  have cargo : rowCargo row = jobCargo job := heldCargo.symm.trans laterCargo
  simp only [rowCargo,jobCargo,Cargo.mk.injEq] at cargo
  simp only [sameKey,Bool.and_eq_true,decide_eq_true_eq] at key
  exact ⟨cargo.1,cargo.2.1.trans key.2,cargo.2.2,key.1⟩

end

/-! What the job leaves of one version. -/

section
variable {V B : Type} {world : World V B}

theorem symbolsAfter (writes : List Write) (stored : Stored) :
    (applySteps world (writes.map .write) stored).symbols = applyWrites stored.symbols writes := by
  induction writes using List.reverseRecOn with
  | nil => rfl
  | append_singleton writes write ih =>
    simp only [applySteps,applyWrites,List.map_append,List.foldl_append,List.map_cons,List.map_nil,List.foldl_cons,
      List.foldl_nil] at ih ⊢
    rw [applyStep,ih]

theorem sourcesAfter (pathContains : Option Text) (dirs : List SourceDir) (stored : Stored) :
    (applySteps world (dirs.map (.scan pathContains)) stored).sources =
      syncDirs world.sha256 pathContains dirs stored.sources := by
  induction dirs using List.reverseRecOn with
  | nil => rfl
  | append_singleton dirs dir ih =>
    simp only [applySteps,syncDirs,List.map_append,List.foldl_append,List.map_cons,List.map_nil,List.foldl_cons,
      List.foldl_nil] at ih ⊢
    rw [applyStep,ih]

end

section
variable {V B : Type} [LinearOrder V] (world : World V B)

/-- The rows that the candidate query of a job chooses from. -/
def dueVersions (now : Nat) (job : RefreshJob RefreshJobPayload) (versions : List CrateVersion) : List CrateVersion :=
  versions.filter (eligible world.lower now (rustdocFilter world job.crateName job.payload))

/-- The version is on the job's page of them. -/
def RustdocReaches (now : Nat) (job : RefreshJob RefreshJobPayload) (versions : List CrateVersion) (v : CrateVersion) : Prop :=
  Ranking.OnPage newestPublished (dueVersions world now job versions)
    (min (pageOffset job.payload.page job.payload.perPage) (2 ^ 32 - 1)) (syncPerPage job.payload.perPage) v

/-- The directories that a source job chooses from. -/
def jobDirs (job : RefreshJob RefreshJobPayload) (versions : List CrateVersion) : List SourceDir :=
  sourceDirs (fetchLocalCacheVersionKeys world.lower (optionalJobCrateName job.crateName job.payload.crateName) none
    (job.payload.locallyPresentOnly.getD false) versions) world.disk

def DirReached (job : RefreshJob RefreshJobPayload) (versions : List CrateVersion) (dir : SourceDir) : Prop :=
  Ranking.OnPage (dirOrder world.env.parseVersion) (jobDirs world job versions)
    (pageOffset job.payload.page job.payload.perPage) (syncPerPage job.payload.perPage) dir

/-- The last directory of the version that is on the job's page and can be read has these files. -/
def SourceReaches (job : RefreshJob RefreshJobPayload) (versions : List CrateVersion) (v : CrateVersion)
    (files : List IndexedSourceFile) : Prop :=
  ∃ dir, DirReached world job versions dir ∧ dir.row.id = v.id ∧
    scanCacheVersionDir world.sha256 (pathFilter job.payload) dir.dir = .ok files ∧
    ∀ later, DirReached world job versions later → dirOrder world.env.parseVersion dir < dirOrder world.env.parseVersion later →
      later.row.id = v.id → ∀ files', scanCacheVersionDir world.sha256 (pathFilter job.payload) later.dir ≠ .ok files'

variable {world}

theorem requestedRustdoc {symbols : RustdocRows} {crateName : Text} {id : Nat} {request : Request RefreshJobPayload}
    (asks : ensureRustdocIndexed symbols crateName id = some request) : request.scope = "rustdoc_json".toList := by
  unfold ensureRustdocIndexed at asks
  split at asks
  · contradiction
  · cases Option.some.inj asks; rfl

theorem requestedSource {sources : SourceRows} {crateName : Text} {id : Nat} {request : Request RefreshJobPayload}
    (asks : ensureSourceIndexed sources crateName id = some request) : request.scope = "local_cache".toList := by
  unfold ensureSourceIndexed at asks
  split at asks
  · contradiction
  · cases Option.some.inj asks; rfl

theorem namedTrimmed {name trimmed : Text} (h : namedCrate name = some trimmed) : Str.trim trimmed = trimmed := by
  unfold namedCrate at h
  dsimp only at h
  split at h
  · contradiction
  · cases Option.some.inj h
    exact Str.trimTrim name

theorem optionalTrimmed (jobCrateName : Text) (payloadCrateName : Option Text) :
    (optionalJobCrateName jobCrateName payloadCrateName).map Str.trim = optionalJobCrateName jobCrateName payloadCrateName := by
  cases given : optionalJobCrateName jobCrateName payloadCrateName with
  | none => rfl
  | some name =>
    have trimmed : Str.trim name = name := by
      rcases Option.or_eq_some_iff.mp given with payload | ⟨_,own⟩
      · obtain ⟨_,_,named⟩ := Option.bind_eq_some_iff.mp payload
        exact namedTrimmed named
      · exact namedTrimmed own
    rw [Option.map_some,trimmed]

theorem newestPublishedId {a b : CrateVersion} (same : newestPublished a = newestPublished b) : a.id = b.id := by
  have last := (Prod.mk.inj (Prod.mk.inj same).2).2
  exact OrderDual.toDual.injective last

/-- A version is a candidate exactly if it is on the page. -/
theorem candidateReached {now : Nat} {job : RefreshJob RefreshJobPayload} {versions : Keyed.Table CrateVersion.id}
    {v : CrateVersion} (mem : v ∈ versions.rows) :
    v.candidate ∈ pageCandidates world.env world.lower now (rustdocFilter world job.crateName job.payload) job.payload.page
      job.payload.perPage versions.rows ↔ RustdocReaches world now job versions.rows v := by
  have once : (dueVersions world now job versions.rows).Nodup := (List.Nodup.of_map _ versions.unique).filter _
  have distinct : ∀ a ∈ dueVersions world now job versions.rows, ∀ b ∈ dueVersions world now job versions.rows,
      newestPublished a = newestPublished b → a = b := fun a ha b hb same =>
    List.inj_on_of_nodup_map versions.unique (List.mem_filter.mp ha).1 (List.mem_filter.mp hb).1 (newestPublishedId same)
  rw [Provenance.memPage,RustdocReaches,← Ranking.memPage once distinct]
  constructor
  · rintro ⟨row,fetched,same⟩
    have ids : row.id = v.id := congrArg RustdocSyncCandidateRow.crateVersionId same
    cases List.inj_on_of_nodup_map versions.unique (Provenance.memFetched fetched).1 mem ids
    exact fetched
  · exact fun fetched => ⟨v,fetched,rfl⟩

/-- After the writes, the version has the symbols that were taken, or those of before. -/
theorem rustdocAfter {now : Nat} {job : RefreshJob RefreshJobPayload} {versions : Keyed.Table CrateVersion.id}
    {v : CrateVersion} (mem : v ∈ versions.rows) {pass : Pass} (before : RustdocRows) {krate : RustdocCrate}
    (served : ingestDocsRs world.env v.candidate = .ok krate)
    (done : syncRustdocJsonCache world.env world.lower now (rustdocFilter world job.crateName job.payload) job.payload.page
      job.payload.perPage versions.rows = .ok pass) :
    hasRustdocSymbols (applyWrites before pass.writes) v.id = true ↔
      (RustdocReaches world now job versions.rows v ∧ extractSymbols krate ≠ []) ∨
      (¬ RustdocReaches world now job versions.rows v ∧ hasRustdocSymbols before v.id = true) := by
  have kept : Provenance.trimmed (rustdocFilter world job.crateName job.payload) =
      rustdocFilter world job.crateName job.payload := by
    simp only [Provenance.trimmed,rustdocFilter,optionalTrimmed]
  have takes : ∀ crateFilter, taken world.env crateFilter v.candidate = some krate := fun _ => by
    simp [taken,served,Except.toOption]
  have replaced : ∀ found, .replaceRows v.id found ∈ pass.writes ↔
      RustdocReaches world now job versions.rows v ∧ found = krate := fun found => by
    rw [Provenance.replacedAt mem done,kept,candidateReached mem,takes,Option.some.injEq,eq_comm]
  rcases applyWritesAt before pass.writes v.id with ⟨untouched,same⟩ | ⟨found,written,now_⟩
  · have missed : ¬ RustdocReaches world now job versions.rows v := fun reached =>
      untouched krate ((replaced krate).mpr ⟨reached,rfl⟩)
    simp only [hasRustdocSymbols,same,missed,false_and,not_false_eq_true,true_and,false_or]
  · obtain ⟨reached,rfl⟩ := (replaced found).mp written
    simp [hasRustdocSymbols,now_,reached]

theorem dirsStrict (job : RefreshJob RefreshJobPayload) (versions : List CrateVersion) :
    (Ranking.sortBy (dirOrder world.env.parseVersion) (jobDirs world job versions)).Pairwise
      (fun a b => dirOrder world.env.parseVersion a < dirOrder world.env.parseVersion b) :=
  Ranking.sortByStrict (List.Nodup.of_map _ (foundOnce _ _)) fun _ ha _ hb same =>
    List.inj_on_of_nodup_map (foundOnce _ _) ha hb (dirOrderFound same)

theorem dirReachedIff {job : RefreshJob RefreshJobPayload} {versions : List CrateVersion} {dir : SourceDir} :
    dir ∈ selectedDirs world.env.parseVersion world.lower (optionalJobCrateName job.crateName job.payload.crateName)
      job.payload.page job.payload.perPage (job.payload.locallyPresentOnly.getD false) world.disk versions ↔
      DirReached world job versions dir :=
  Ranking.memPage (List.Nodup.of_map _ (foundOnce _ _)) fun _ ha _ hb same =>
    List.inj_on_of_nodup_map (foundOnce _ _) ha hb (dirOrderFound same)

theorem lastScanReached {job : RefreshJob RefreshJobPayload} {versions : List CrateVersion} {v : CrateVersion}
    {files : List IndexedSourceFile} :
    LastScan world.sha256 (pathFilter job.payload) v.id
      (selectedDirs world.env.parseVersion world.lower (optionalJobCrateName job.crateName job.payload.crateName)
        job.payload.page job.payload.perPage (job.payload.locallyPresentOnly.getD false) world.disk versions) files ↔
      SourceReaches world job versions v files := by
  have strict := ((dirsStrict job versions : (Ranking.sortBy (dirOrder world.env.parseVersion) _).Pairwise _).sublist
    (List.drop_sublist (pageOffset job.payload.page job.payload.perPage) _)).sublist
      (List.take_sublist (syncPerPage job.payload.perPage) _)
  have reached : ∀ dir, dir ∈ ((Ranking.sortBy (dirOrder world.env.parseVersion) (jobDirs world job versions)).drop
      (pageOffset job.payload.page job.payload.perPage)).take (syncPerPage job.payload.perPage) ↔
      DirReached world job versions dir := fun _ => dirReachedIff
  refine (lastScanSorted strict).trans ?_
  simp only [reached,SourceReaches]

/-- A version that a handler waits for has symbols after the job exactly if it is on the page of the
job that the request was given and its payload has symbols, or had them from elsewhere; and it has
source files exactly if the last of its directories on that page has text files, or had them. -/
theorem waitedForIndexed (world : World V B) (crateName : Text) (versions : Keyed.Table CrateVersion.id) {v : CrateVersion}
    (mem : v ∈ versions.rows) (job : RefreshJob RefreshJobPayload) (row : RefreshJobQueueRow RefreshJobPayload)
    (now : Nat) (before : Stored) :
    (∀ symbols request steps krate, ensureRustdocIndexed symbols crateName v.id = some request →
      Joined world.lower request job row → jobSteps world now row versions.rows = some steps →
      ingestDocsRs world.env v.candidate = .ok krate →
      (hasRustdocSymbols (applySteps world steps before).symbols v.id = true ↔
        (RustdocReaches world now job versions.rows v ∧ extractSymbols krate ≠ []) ∨
        (¬ RustdocReaches world now job versions.rows v ∧ hasRustdocSymbols before.symbols v.id = true))) ∧
    (∀ sources request steps, ensureSourceIndexed sources crateName v.id = some request →
      Joined world.lower request job row → jobSteps world now row versions.rows = some steps →
      (hasSourceFiles (applySteps world steps before).sources v.id = true ↔
        (∃ files, SourceReaches world job versions.rows v files ∧
          ∃ file ∈ files, underRustdocPrefix file.relativePath = false) ∨
        ((∀ files, ¬ SourceReaches world job versions.rows v files) ∧ hasSourceFiles before.sources v.id = true))) := by
  constructor
  · intro symbols request steps krate asks joined run served
    obtain ⟨names,scope,payload,_⟩ := joinedRow joined
    have asked := requestedRustdoc asks
    simp only [jobSteps,scope,asked,names,payload] at run
    rw [if_neg (by decide),if_pos trivial] at run
    split at run <;> try contradiction
    rename_i pass done
    cases Option.some.inj run
    rw [symbolsAfter]
    exact rustdocAfter mem before.symbols served done
  · intro sources request steps asks joined run
    obtain ⟨names,scope,payload,_⟩ := joinedRow joined
    have asked := requestedSource asks
    simp only [jobSteps,scope,asked,names,payload] at run
    rw [if_pos trivial] at run
    split at run <;> try contradiction
    rename_i name normal
    have own := (Provenance.requiredName normal).trans (optionalTrimmed _ _)
    subst own
    cases Option.some.inj run
    rw [sourcesAfter,sourceAfter]
    simp only [lastScanReached]

end

def docsPayload : Text :=
  "\x7b\"root\":0,\"crate_version\":\"1.0.0\",\"index\":\x7b\"0\":\x7b\"name\":\"foo\",\"inner\":\x7b\"module\":\x7b\x7d\x7d\x7d,".toList ++
    "\"1\":\x7b\"name\":\"Bar\",\"inner\":\x7b\"struct\":\x7b\x7d\x7d\x7d\x7d\x7d".toList

def fooDocs : RustdocCrate :=
  ⟨0,some "1.0.0".toList,[⟨0,some "foo".toList,"module".toList⟩,⟨1,some "Bar".toList,"struct".toList⟩]⟩

def docs : Env Semver.Release Text where
  parseVersion := Semver.release
  fetchRustdocJson := fun _ _ => .ok docsPayload
  decodePayload := .ok
  parseCrate := fun content => if content = docsPayload then .ok fooDocs else .error "expected value at line 1 column 1".toList
  localDir := .unset
  store := fun _ _ => .ok ()
  mark := fun _ => true

def fooDir : VersionDir := ⟨"foo-1.0.0".toList,true,.ok [⟨["src".toList,"lib.rs".toList],16,.ok (some "pub struct Bar;\n".toList)⟩]⟩

def docsWorld : World Semver.Release Text where
  env := docs
  lower := id
  retryCooldown := 86400
  disk := ⟨[[fooDir]],[]⟩
  sha256 := fun _ => "0e13bd86270af3a00f5e9d4768640f6b1359f433d064b6fb6e95730e816d5071".toList

def fooVersion : CrateVersion := ⟨7,"foo".toList,"1.0.0".toList,some 5,false,none,none⟩

def fooVersions : Keyed.Table CrateVersion.id := ⟨[fooVersion],by decide⟩

def nothingStored : Stored := ⟨fun _ => none,fun _ => []⟩

/-- On an empty queue a request is given its own job. -/
theorem joinedOwn (lower : Text → Text) (request : Request RefreshJobPayload) :
    Joined lower request (insertedJob 0 1 request) (startJob 0 (insertedJob 0 1 request)).queueRow :=
  ⟨_,_,_,0,.insert 0,[.claim 0 []],⟨1,true⟩,0,.next (.next (.start freshFresh) trivial (e := .request 0 request) rfl) trivial
    (e := .select 0) rfl,Or.inr rfl,rfl,rfl,List.mem_singleton.mpr rfl,rfl,.move trivial rfl (.done _),rfl,rfl⟩

def ownJob (scope : Text) : RefreshJob RefreshJobPayload := insertedJob 0 1 (enqueueOnDemand "foo".toList scope)

def ownSteps (scope : Text) : Option (List Step) :=
  jobSteps docsWorld 100 (startJob 0 (ownJob scope)).queueRow fooVersions.rows

theorem ownReaches : SourceReaches docsWorld (ownJob "local_cache".toList) fooVersions.rows fooVersion
    [⟨"src/lib.rs".toList,docsWorld.sha256 [],16,some "rust".toList⟩] := by
  have dirs : jobDirs docsWorld (ownJob "local_cache".toList) fooVersions.rows = [⟨0,fooVersion,fooDir⟩] := by rfl
  have reached : ∀ dir, DirReached docsWorld (ownJob "local_cache".toList) fooVersions.rows dir → dir = ⟨0,fooVersion,fooDir⟩ :=
    fun dir on => by
      have mem := on.1
      rw [dirs] at mem
      exact List.mem_singleton.mp mem
  refine ⟨⟨0,fooVersion,fooDir⟩,⟨?_,Nat.zero_le _,by decide +kernel⟩,rfl,by rfl,fun later on above => ?_⟩
  · rw [dirs]; exact List.mem_singleton.mpr rfl
  · rw [reached later on] at above; exact absurd above (lt_irrefl _)

theorem waitedForIndexedOwnJob :
    (∃ steps, ownSteps "rustdoc_json".toList = some steps ∧
      hasRustdocSymbols (applySteps docsWorld steps nothingStored).symbols 7 = true) ∧
    ∃ steps, ownSteps "local_cache".toList = some steps ∧
      hasSourceFiles (applySteps docsWorld steps nothingStored).sources 7 = true := by
  constructor
  · obtain ⟨steps,run⟩ := Option.isSome_iff_exists.mp (by decide +kernel : (ownSteps "rustdoc_json".toList).isSome = true)
    refine ⟨steps,run,((waitedForIndexed docsWorld "foo".toList fooVersions (List.mem_singleton.mpr rfl)
      (ownJob "rustdoc_json".toList) (startJob 0 (ownJob "rustdoc_json".toList)).queueRow 100 nothingStored).1
      (fun _ => none) _ steps fooDocs rfl (joinedOwn id _) run (by rfl)).mpr (Or.inl ⟨⟨?_,?_,?_⟩,?_⟩)⟩ <;> decide +kernel
  · obtain ⟨steps,run⟩ := Option.isSome_iff_exists.mp (by decide +kernel : (ownSteps "local_cache".toList).isSome = true)
    exact ⟨steps,run,((waitedForIndexed docsWorld "foo".toList fooVersions (List.mem_singleton.mpr rfl)
      (ownJob "local_cache".toList) (startJob 0 (ownJob "local_cache".toList)).queueRow 100 nothingStored).2
      (fun _ => []) _ steps rfl (joinedOwn id _) run).mpr (Or.inl ⟨_,ownReaches,_,List.mem_singleton.mpr rfl,by decide⟩)⟩

def enrichRequest (scope : Text) : Request RefreshJobPayload :=
  ⟨"foo".toList,scope,Registry.priorityProactiveEnrich,false,⟨⟨none⟩,none,none,none,none,some true⟩⟩

def enrichJob (scope : Text) : RefreshJob RefreshJobPayload := insertedJob 0 1 (enrichRequest scope)

def enrichWaits (scope : Text) : List (Event RefreshJobPayload) :=
  [.request 1 (enrichRequest scope),.select 1,.insert 1,.request 0 (enqueueOnDemand "foo".toList scope)]

/-- The request is given the enrichment job of its crate, which is for locally present versions:
docs.rs serves the version, which was never attempted, and it is left without symbols. -/
theorem enrichmentJoined :
    ∃ request row, ensureRustdocIndexed (fun _ => none) "foo".toList 7 = some request ∧
      Joined docsWorld.lower request (enrichJob "rustdoc_json".toList) row ∧
      ingestDocsRs docs fooVersion.candidate = .ok fooDocs ∧ extractSymbols fooDocs ≠ [] ∧
      retryDue 100 (some 86400) fooVersion.rustdocLastAttemptAt = true ∧
      ∃ steps, jobSteps docsWorld 100 row fooVersions.rows = some steps ∧
        hasRustdocSymbols (applySteps docsWorld steps nothingStored).symbols 7 = false := by
  have run := execReach (system id) always (enrichWaits "rustdoc_json".toList) freshFresh (by decide)
  refine ⟨_,(startJob 0 (enrichJob "rustdoc_json".toList)).queueRow,rfl,?_,by rfl,by decide,by decide,[],by rfl,rfl⟩
  exact ⟨_,_,_,0,.select 0,[.claim 0 []],⟨1,false⟩,0,run,Or.inl rfl,rfl,rfl,List.mem_singleton.mpr rfl,rfl,
    .move trivial rfl (.done _),rfl,rfl⟩

end RustMcp.OnDemand
