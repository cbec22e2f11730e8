import RustMcp.CrateIndex
import RustMcp.InFlight
import RustMcp.Registry

/-! The versions marked as locally present. Scans, polls and callers enqueue jobs,
with a list of versions or without; a worker that has finished a crate-scope job
marks the versions of the list, or those that it finds itself. -/
namespace RustMcp.LocalPresence
open Str (Text)
open Runs RefreshQueue QueueSafety InFlight CrateIndex Registry

/-- The database's and the program's lower case, the `semver` parser and the configuration. -/
structure Host where
  lower : Text → Text
  toLowercase : Text → Text
  parses : Text → Bool
  config : Config

def crateScope (scope : Text) : Bool :=
  scope = "crate".toList || scope = "crate_deep_refresh".toList || scope = "all".toList

/-- A job whose worker marks versions when it is done. -/
structure Job where
  row : RefreshJobQueueRow RefreshJobPayload
  marks : crateScope row.scope = true

structure State (host : Host) where
  queue : RefreshRuns.State RefreshJobPayload
  registry : CargoRegistry
  index : CacheIndex
  catalog : Catalog host.lower
  /-- requests that a scan, a poll or a worker has yet to enqueue -/
  outbox : List (Request RefreshJobPayload)
  /-- finished jobs whose worker has yet to mark the versions -/
  marking : Nat → Option Job

inductive Event where
  | queue (event : RefreshRuns.Event RefreshJobPayload)
  | change (registry : CargoRegistry)
  | poll
  | scan (keys : List Text)
  | send (caller i : Nat)
  | sync (detail : CrateDetail)
  | mark (worker : Nat)

def toMark : RefreshRuns.Worker RefreshJobPayload → Option Job
  | .holding row => if marks : crateScope row.scope = true then some ⟨row,marks⟩ else none
  | _ => none

def localVersions (parses : Text → Bool) (src : Option (List SrcDir)) (job : Job) : List Text :=
  match job.row.payload.localVersions with
  | some (version::versions) => version::versions
  | _ => collectLocalVersionsForCrate parses src job.row.crateName

def enrichmentRequests (crateName : Text) : List (Request RefreshJobPayload) :=
  ["local_cache".toList,"rustdoc_json".toList].map fun scope =>
    ⟨crateName,scope,priorityProactiveEnrich,false,⟨none⟩⟩

section
variable {host : Host}

/-- A worker marks the versions of its last job before it claims another. -/
def State.lets (s : State host) : RefreshRuns.Event RefreshJobPayload → Bool
  | .claim worker _ => (s.marking worker).isNone
  | _ => true

def State.queued (s : State host) (event : RefreshRuns.Event RefreshJobPayload)
    (queue : RefreshRuns.State RefreshJobPayload) : State host :=
  match event with
  | .finish worker _ =>
      {s with queue := queue, marking := Function.update s.marking worker (toMark (s.queue.workers worker))}
  | .restart =>
      {s with queue := queue, index := buildInitialIndex s.registry.cache, outbox := [], marking := fun _ => none}
  | _ => {s with queue := queue}

/-- What `run_registry_scan` enqueues; a registry that cannot be read is skipped. -/
def State.scanned (s : State host) (keys : List Text) : Option (List (Request RefreshJobPayload)) :=
  match collectCrateVersionsFromRegistry host.parses s.registry.src with
  | none => some []
  | some discovered =>
      if keys.Perm discovered.keys then
        some (scanRequests host.toLowercase host.config s.catalog.knownCrateNames keys discovered)
      else none

def step (s : State host) : Event → Option (State host)
  | .queue event => if s.lets event then (RefreshRuns.step host.lower s.queue event).map (s.queued event) else none
  | .change registry => some {s with registry := registry}
  | .poll => some {s with
      index := (pollCacheChanges s.registry.cache s.index).1,
      outbox := s.outbox ++ pollRequests host.parses s.registry.cache s.index}
  | .scan keys => (s.scanned keys).map fun requests => {s with outbox := s.outbox ++ requests}
  | .send caller i =>
      match s.outbox[i]? with
      | some request => some {s with queue := s.queue.call caller (.selecting request), outbox := s.outbox.eraseIdx i}
      | none => none
  -- a sync that violates a constraint is rolled back
  | .sync detail => some {s with catalog := (s.catalog.persistCrateSync detail).getD s.catalog}
  -- the walk of the registry and the update are one step: a change between them counts as later
  | .mark worker =>
      match s.marking worker with
      | some job =>
          if s.queue.workers worker = .idle then
            some {s with
              catalog := s.catalog.markVersionsLocallyPresent job.row.crateName (localVersions host.parses s.registry.src job),
              outbox := s.outbox ++ enrichmentRequests job.row.crateName,
              marking := Function.update s.marking worker none}
          else none
      | none => none

def Start (s : State host) : Prop :=
  RefreshRuns.Fresh s.queue ∧ s.index = buildInitialIndex s.registry.cache ∧ s.outbox = [] ∧ ∀ worker, s.marking worker = none

def system (host : Host) : System (State host) Event := ⟨Start,step⟩

end

/-! What presence should be. -/

def dirs (host : Host) (registry : CargoRegistry) : List (Text × Text) := crateDirs host.parses (registry.src.getD [])

def Present (host : Host) (registry : CargoRegistry) (crateName version : Text) : Prop :=
  ∃ dir ∈ dirs host registry, host.lower dir.1 = host.lower crateName ∧ dir.2 = version

instance (host : Host) (registry : CargoRegistry) (crateName version : Text) :
    Decidable (Present host registry crateName version) :=
  inferInstanceAs (Decidable (∃ dir ∈ dirs host registry, _))

/-- The versions of the crate that are marked are the indexed ones in the registry. -/
def Exact {host : Host} (s : State host) (crateName : Text) : Prop :=
  ∀ v, s.catalog.OfCrate crateName v → (v.locallyPresent = true ↔ Present host s.registry crateName v.version)

instance {host : Host} (s : State host) (crateName : Text) : Decidable (Exact s crateName) :=
  decidable_of_iff (∀ v ∈ s.catalog.versions.rows, s.catalog.marks crateName v = true →
      (v.locallyPresent = true ↔ Present host s.registry crateName v.version))
    ⟨fun all v ofCrate => all v ofCrate.1 (marksIff.mpr ofCrate.2),fun exact_ v mem marks => exact_ v ⟨mem,marksIff.mp marks⟩⟩

/-- All directories of the crate are there under this very spelling of its name. -/
def Spelled (host : Host) (registry : CargoRegistry) (crateName : Text) : Prop :=
  ∀ dir ∈ dirs host registry, host.lower dir.1 = host.lower crateName → (crateName,dir.2) ∈ dirs host registry

instance (host : Host) (registry : CargoRegistry) (crateName : Text) : Decidable (Spelled host registry crateName) :=
  inferInstanceAs (Decidable (∀ dir ∈ dirs host registry, _))

/-- What a finished job needs of the registry and the indexed versions. -/
def Agrees {host : Host} (s : State host) (job : Job) : Prop :=
  match job.row.payload.localVersions with
  | some (version::versions) => ∀ v, s.catalog.OfCrate job.row.crateName v →
      (v.version ∈ version::versions ↔ Present host s.registry job.row.crateName v.version)
  | _ => ∀ v, s.catalog.OfCrate job.row.crateName v → Present host s.registry job.row.crateName v.version →
      (job.row.crateName,v.version) ∈ dirs host s.registry

section
variable {host : Host} {s s' : State host} {worker : Nat} {job : Job}

theorem collectedMem {registry : CargoRegistry} {crateName version : Text} :
    version ∈ collectLocalVersionsForCrate host.parses registry.src crateName ↔
      (crateName,version) ∈ dirs host registry := by
  simp [collectLocalVersionsForCrate,dirs]

theorem markStep (here : s.marking worker = some job) (h : step s (.mark worker) = some s') :
    s'.catalog =
      s.catalog.markVersionsLocallyPresent job.row.crateName (localVersions host.parses s.registry.src job) ∧
    s'.registry = s.registry := by
  simp only [step,here] at h
  split at h <;> try contradiction
  cases Option.some.inj h
  exact ⟨rfl,rfl⟩

theorem exactIffMarked (here : s.marking worker = some job) (h : step s (.mark worker) = some s') :
    Exact s' job.row.crateName ↔ ∀ v, s.catalog.OfCrate job.row.crateName v →
      (v.version ∈ localVersions host.parses s.registry.src job ↔ Present host s.registry job.row.crateName v.version) := by
  obtain ⟨catalog,registry⟩ := markStep here h
  unfold Exact
  rw [catalog,registry,markedVersions fun version present =>
    present = true ↔ Present host s.registry job.row.crateName version]
  simp only [List.contains_iff_mem]

theorem exactIffAgrees (here : s.marking worker = some job) (h : step s (.mark worker) = some s') :
    Exact s' job.row.crateName ↔ Agrees s job := by
  rw [exactIffMarked here h]
  unfold Agrees localVersions
  split
  · rfl
  · simp only [collectedMem]
    refine forall₂_congr fun v _ => ⟨Iff.mpr,fun spelled => ⟨fun found => ?_,spelled⟩⟩
    exact ⟨_,found,rfl,rfl⟩

/-! Presence stays exact while the registry does not change, and no sync or other
job writes the crate's versions. -/

def Quiet (crateName : Text) (s : State host) : Event → Prop
  | .change _ => False
  | .sync detail => host.lower detail.name ≠ host.lower crateName
  | .mark worker => ∀ job ∈ s.marking worker, host.lower job.row.crateName ≠ host.lower crateName
  | _ => True

theorem Exact.same {crateName : Text} (exact_ : Exact s crateName) (registry : s'.registry = s.registry)
    (rows : ∀ v, s'.catalog.OfCrate crateName v → s.catalog.OfCrate crateName v) : Exact s' crateName := by
  intro v ofCrate
  rw [registry]
  exact exact_ v (rows v ofCrate)

theorem exactQuiet {crateName : Text} {event : Event} (exact_ : Exact s crateName) (quiet : Quiet crateName s event)
    (h : step s event = some s') : Exact s' crateName := by
  cases event with
  | queue event =>
    simp only [step] at h
    split at h <;> try contradiction
    obtain ⟨queue,_,rfl⟩ := Option.map_eq_some_iff.mp h
    cases event <;> exact exact_
  | change => contradiction
  | poll => cases Option.some.inj h; exact exact_
  | scan keys =>
    obtain ⟨_,_,rfl⟩ := Option.map_eq_some_iff.mp h
    exact exact_
  | send caller i =>
    simp only [step] at h
    split at h <;> try contradiction
    cases Option.some.inj h; exact exact_
  | sync detail =>
    cases Option.some.inj h
    cases persisted : s.catalog.persistCrateSync detail with
    | none =>
      simp only [Option.getD_none]
      exact exact_
    | some catalog =>
      simp only [Option.getD_some]
      exact exact_.same rfl fun v => (persistKeeps persisted quiet v).mp
  | mark worker =>
    cases here : s.marking worker with
    | none => simp only [step,here] at h; contradiction
    | some job =>
      obtain ⟨catalog,registry⟩ := markStep here h
      refine exact_.same registry fun v ofCrate => ?_
      rw [catalog] at ofCrate
      exact (markedOthers (quiet job here) v).mp ofCrate

end
end RustMcp.LocalPresence
