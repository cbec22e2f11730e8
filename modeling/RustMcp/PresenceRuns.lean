import RustMcp.LocalPresence

/-! Which runs leave presence exact. The list of a job is made when it is enqueued
and used when it is done; the scan lists all versions of a crate, the watcher those
of its new files, and most callers none. -/
namespace RustMcp.LocalPresence
open Str (Text)
open Runs RefreshQueue QueueSafety InFlight CrateIndex Registry

section
variable {host : Host} {registry : CargoRegistry}

/-- What the payload of a crate-scope job needs of the registry: all versions of the
crate and no others, or no list and no other spelling of the name. -/
def Good (host : Host) (registry : CargoRegistry) (cargo : Cargo RefreshJobPayload) : Prop :=
  crateScope cargo.scope = true →
    let listed := cargo.payload.localVersions.getD []
    if listed = [] then Spelled host registry cargo.crateName
    else
      (∀ version ∈ listed, Present host registry cargo.crateName version) ∧
      ∀ dir ∈ dirs host registry, host.lower dir.1 = host.lower cargo.crateName → dir.2 ∈ listed

instance (cargo : Cargo RefreshJobPayload) : Decidable (Good host registry cargo) :=
  inferInstanceAs (Decidable (_ → ite _ _ _))

theorem goodList {crateName : Text} {scope : Text} {versions : List Text} (spelled : Spelled host registry crateName)
    (all : ∀ u, u ∈ versions ↔ (crateName,u) ∈ dirs host registry) :
    Good host registry ⟨crateName,scope,⟨some versions⟩⟩ := by
  intro _
  dsimp only [Option.getD_some]
  split
  · exact spelled
  · exact ⟨fun u mem => ⟨_,(all u).mp mem,rfl,rfl⟩,fun dir mem same => (all dir.2).mpr (spelled dir mem same)⟩

theorem pushVersions (pushed : List (Text × Text)) (versions : List Text) :
    pushed.foldl pushVersion (some versions) = some (versions ++ pushed.map Prod.snd) := by
  induction pushed generalizing versions with
  | nil => simp
  | cons dir rest ih => simp [pushVersion,ih]

/-- The scan lists for a crate what the worker would find itself. -/
theorem scanLists {parses : Text → Bool} {src : Option (List SrcDir)} {discovered : Keyed.Map Text (List Text)}
    (h : collectCrateVersionsFromRegistry parses src = some discovered) (name : Text) :
    discovered[name]?.getD [] = collectLocalVersionsForCrate parses src name := by
  obtain ⟨found,rfl,rfl⟩ := Option.map_eq_some_iff.mp h
  rw [Keyed.collectAt,collectLocalVersionsForCrate,Option.getD_some]
  cases (crateDirs parses found).filter fun dir => dir.1 = name with
  | nil => rfl
  | cons dir rest => simp [pushVersion,pushVersions]

theorem scanGood {s : State host} {keys : List Text} {requests : List (Request RefreshJobPayload)}
    (h : s.scanned keys = some requests) {request : Request RefreshJobPayload} (mem : request ∈ requests)
    (spelled : Spelled host s.registry request.crateName) : Good host s.registry (requestCargo request) := by
  unfold State.scanned at h
  split at h
  · cases Option.some.inj h; contradiction
  · rename_i discovered found
    split at h <;> try contradiction
    cases Option.some.inj h
    have listed : ∃ name priority, request = crateRequest name priority (discovered[name]?.getD []) := by
      rcases List.mem_append.mp mem with warm | general
      · obtain ⟨name,_,rfl⟩ := List.mem_map.mp warm
        exact ⟨name,_,rfl⟩
      · obtain ⟨name,_,rfl⟩ := List.mem_map.mp general
        exact ⟨name,_,rfl⟩
    obtain ⟨name,priority,rfl⟩ := listed
    refine goodList spelled fun u => ?_
    rw [scanLists found name]
    exact collectedMem

/-! What is on its way to a worker that will mark versions. -/

inductive Carried (s : State host) : Cargo RefreshJobPayload → Prop where
  | queued {cargo : Cargo RefreshJobPayload} (carries : Carries s.queue cargo) : Carried s cargo
  | waiting {request : Request RefreshJobPayload} (mem : request ∈ s.outbox) : Carried s (requestCargo request)
  | marking {worker : Nat} {job : Job} (here : s.marking worker = some job) : Carried s (rowCargo job.row)

/-- The requests that an event makes. -/
def produced (s : State host) : Event → List (Request RefreshJobPayload)
  | .queue (.request _ request) => [request]
  | .poll => pollRequests host.parses s.registry.cache s.index
  | .scan keys => (s.scanned keys).getD []
  | .mark worker => (s.marking worker).toList.flatMap fun job => enrichmentRequests job.row.crateName
  | _ => []

/-- The lists made are good: a watcher's has all versions of its crate, a scan finds one
spelling, and callers without a list use the registry's. -/
def Sound (s : State host) : Event → Prop
  | .queue (.request _ request) => Good host s.registry (requestCargo request)
  | .poll => ∀ request ∈ pollRequests host.parses s.registry.cache s.index, Good host s.registry (requestCargo request)
  | .scan keys => ∀ request ∈ (s.scanned keys).getD [], Spelled host s.registry request.crateName
  | _ => True

instance (s : State host) (event : Event) : Decidable (Sound s event) := by
  cases event with
  | queue event => cases event <;> first | exact isTrue trivial | (unfold Sound; exact inferInstance)
  | poll | scan => unfold Sound; exact inferInstance
  | _ => exact isTrue trivial

/-- The lists made are good, and stay so: a registry changes only where the lists on
their way still agree with it. -/
def Faithful (s : State host) (event : Event) : Prop :=
  Sound s event ∧ ∀ registry, event = .change registry → ∀ cargo, Carried s cargo → Good host registry cargo

variable {s s' : State host} {event : Event} {cargo : Cargo RefreshJobPayload}

theorem queuedQueue (s : State host) (event : RefreshRuns.Event RefreshJobPayload)
    (queue : RefreshRuns.State RefreshJobPayload) : (s.queued event queue).queue = queue := by
  cases event <;> rfl

theorem queuedRegistry (s : State host) (event : RefreshRuns.Event RefreshJobPayload)
    (queue : RefreshRuns.State RefreshJobPayload) : (s.queued event queue).registry = s.registry := by
  cases event <;> rfl

theorem queuedOutbox {queued : RefreshRuns.Event RefreshJobPayload} {queue : RefreshRuns.State RefreshJobPayload}
    {request : Request RefreshJobPayload} (mem : request ∈ (s.queued queued queue).outbox) : request ∈ s.outbox := by
  cases queued with
  | restart => contradiction
  | _ => exact mem

/-- A job to mark was to mark already, or its worker held it. -/
theorem queuedMarking {queued : RefreshRuns.Event RefreshJobPayload} {queue : RefreshRuns.State RefreshJobPayload}
    {worker : Nat} {job : Job} (here : (s.queued queued queue).marking worker = some job) :
    s.marking worker = some job ∨ s.queue.workers worker = .holding job.row := by
  cases queued with
  | finish w persisted =>
    by_cases same : worker = w
    · subst same
      simp only [State.queued,Function.update_self,toMark] at here
      split at here <;> try contradiction
      rename_i row holds
      split at here <;> try contradiction
      cases Option.some.inj here
      exact Or.inr holds
    · simp only [State.queued,Function.update_of_ne same] at here
      exact Or.inl here
  | restart => contradiction
  | _ => exact Or.inl here

theorem carriedStep (inv : QueueInv s.queue) (h : step s event = some s') (carried : Carried s' cargo) :
    Carried s cargo ∨ ∃ request ∈ produced s event, cargo = requestCargo request := by
  cases event with
  | queue event =>
    simp only [step] at h
    split at h <;> try contradiction
    obtain ⟨queue,moves,rfl⟩ := Option.map_eq_some_iff.mp h
    cases carried with
    | queued carries =>
      rw [queuedQueue] at carries
      rcases carriedMove inv (RefreshRuns.stepMove moves) carries with before | ⟨_,request,rfl,rfl⟩
      · exact Or.inl (.queued before)
      · exact Or.inr ⟨request,List.mem_singleton_self _,rfl⟩
    | waiting mem => exact Or.inl (.waiting (queuedOutbox mem))
    | marking here =>
      rcases queuedMarking here with before | held
      · exact Or.inl (.marking before)
      · exact Or.inl (.queued (.held held))
  | change | sync =>
    cases Option.some.inj h
    cases carried with
    | queued carries => exact Or.inl (.queued carries)
    | waiting mem => exact Or.inl (.waiting mem)
    | marking here => exact Or.inl (.marking here)
  | poll =>
    cases Option.some.inj h
    cases carried with
    | queued carries => exact Or.inl (.queued carries)
    | waiting mem =>
      rcases List.mem_append.mp mem with old | new
      · exact Or.inl (.waiting old)
      · exact Or.inr ⟨_,new,rfl⟩
    | marking here => exact Or.inl (.marking here)
  | scan keys =>
    obtain ⟨requests,scanned,rfl⟩ := Option.map_eq_some_iff.mp h
    cases carried with
    | queued carries => exact Or.inl (.queued carries)
    | waiting mem =>
      rcases List.mem_append.mp mem with old | new
      · exact Or.inl (.waiting old)
      · exact Or.inr ⟨_,by rw [produced,scanned]; exact new,rfl⟩
    | marking here => exact Or.inl (.marking here)
  | send caller i =>
    simp only [step] at h
    split at h <;> try contradiction
    rename_i request next
    cases Option.some.inj h
    cases carried with
    | queued carries =>
      have asks : RefreshRuns.Move host.lower s.queue (.request caller request) _ := .request caller request
      rcases carriedMove inv asks carries with before | ⟨_,_,same,rfl⟩
      · exact Or.inl (.queued before)
      · cases same
        exact Or.inl (.waiting (List.mem_of_getElem? next))
    | waiting mem => exact Or.inl (.waiting (List.mem_of_mem_eraseIdx mem))
    | marking here => exact Or.inl (.marking here)
  | mark worker =>
    cases here : s.marking worker with
    | none => simp only [step,here] at h; contradiction
    | some job =>
      simp only [step,here] at h
      split at h <;> try contradiction
      cases Option.some.inj h
      cases carried with
      | queued carries => exact Or.inl (.queued carries)
      | waiting mem =>
        rcases List.mem_append.mp mem with old | new
        · exact Or.inl (.waiting old)
        · exact Or.inr ⟨_,by simpa [produced,here] using new,rfl⟩
      | @marking w _ marks =>
        by_cases same : w = worker
        · subst same
          dsimp only at marks
          rw [Function.update_self] at marks; contradiction
        · dsimp only at marks
          rw [Function.update_of_ne same] at marks
          exact Or.inl (.marking marks)

theorem registryStep (still : ∀ registry, event ≠ .change registry) (h : step s event = some s') :
    s'.registry = s.registry := by
  cases event with
  | queue event =>
    simp only [step] at h
    split at h <;> try contradiction
    obtain ⟨queue,_,rfl⟩ := Option.map_eq_some_iff.mp h
    exact queuedRegistry s event queue
  | change registry => exact absurd rfl (still registry)
  | poll | sync => cases Option.some.inj h; rfl
  | scan keys =>
    obtain ⟨_,_,rfl⟩ := Option.map_eq_some_iff.mp h
    rfl
  | send caller i =>
    simp only [step] at h
    split at h <;> try contradiction
    cases Option.some.inj h; rfl
  | mark worker =>
    cases here : s.marking worker with
    | none => simp only [step,here] at h; contradiction
    | some job => exact (markStep here h).2

theorem enrichmentGood {crateName : Text} {request : Request RefreshJobPayload}
    (mem : request ∈ enrichmentRequests crateName) : Good host registry (requestCargo request) := by
  have none_ : ∀ scope ∈ ["local_cache".toList,"rustdoc_json".toList], crateScope scope = false := by decide
  obtain ⟨scope,inside,rfl⟩ := List.mem_map.mp mem
  intro marks
  rw [requestCargo,none_ scope inside] at marks; contradiction

theorem producedGood (sound : Sound s event) (h : step s event = some s') {request : Request RefreshJobPayload}
    (mem : request ∈ produced s event) : Good host s.registry (requestCargo request) := by
  cases event with
  | queue event =>
    cases event with
    | request caller asked => rw [List.mem_singleton.mp mem]; exact sound
    | _ => contradiction
  | poll => exact sound request mem
  | scan keys =>
    obtain ⟨requests,scanned,_⟩ := Option.map_eq_some_iff.mp h
    rw [produced,scanned] at mem
    refine scanGood scanned mem (sound request ?_)
    rw [scanned]; exact mem
  | mark worker =>
    obtain ⟨job,_,inside⟩ := List.mem_flatMap.mp mem
    exact enrichmentGood inside
  | change | send | sync => contradiction

/-- Every list on its way agrees with the registry. -/
structure PresenceInv (s : State host) : Prop where
  queue : QueueInv s.queue
  good : ∀ cargo, Carried s cargo → Good host s.registry cargo

theorem queueStep (inv : QueueInv s.queue) (h : step s event = some s') : QueueInv s'.queue := by
  cases event with
  | queue event =>
    simp only [step] at h
    split at h <;> try contradiction
    obtain ⟨queue,moves,rfl⟩ := Option.map_eq_some_iff.mp h
    rw [queuedQueue]
    exact inv.move (RefreshRuns.stepMove moves)
  | change | poll | sync => cases Option.some.inj h; exact inv
  | scan keys =>
    obtain ⟨_,_,rfl⟩ := Option.map_eq_some_iff.mp h
    exact inv
  | send caller i =>
    simp only [step] at h
    split at h <;> try contradiction
    rename_i request _
    cases Option.some.inj h
    have asks : RefreshRuns.Move host.lower s.queue (.request caller request) _ := .request caller request
    exact inv.move asks
  | mark worker =>
    simp only [step] at h
    split at h <;> try contradiction
    split at h <;> try contradiction
    cases Option.some.inj h
    exact inv

theorem PresenceInv.step (inv : PresenceInv s) (faithful : Faithful s event) (h : step s event = some s') :
    PresenceInv s' := by
  refine ⟨queueStep inv.queue h,fun cargo carried => ?_⟩
  by_cases change : ∃ registry, event = .change registry
  · obtain ⟨registry,rfl⟩ := change
    cases Option.some.inj h
    rcases carriedStep inv.queue h carried with before | ⟨_,new,_⟩
    · exact faithful.2 registry rfl cargo before
    · contradiction
  · rw [registryStep (fun registry same => change ⟨registry,same⟩) h]
    rcases carriedStep inv.queue h carried with before | ⟨request,new,rfl⟩
    · exact inv.good cargo before
    · exact producedGood faithful.1 h new

theorem startInv (first : Start s) : PresenceInv s := by
  obtain ⟨fresh,_,outbox,marking⟩ := first
  refine ⟨freshInv fresh,fun cargo carried => ?_⟩
  obtain ⟨jobs,callers,workers,_⟩ := fresh
  cases carried with
  | queued carries =>
    cases carries with
    | asked asks => rw [callers] at asks; rcases asks with h | h <;> contradiction
    | stored inside => rw [jobs] at inside; contradiction
    | held here => rw [workers] at here; contradiction
  | waiting mem => rw [outbox] at mem; contradiction
  | marking here => rw [marking] at here; contradiction

theorem goodAgrees {job : Job} (good : Good host s.registry (rowCargo job.row)) : Agrees s job := by
  have good := good job.marks
  have walked (spelled : Spelled host s.registry job.row.crateName) : ∀ v, s.catalog.OfCrate job.row.crateName v →
      Present host s.registry job.row.crateName v.version → (job.row.crateName,v.version) ∈ dirs host s.registry := by
    rintro v _ ⟨dir,inside,same,names⟩
    rw [← names]; exact spelled dir inside same
  unfold Agrees
  dsimp only [rowCargo] at good
  generalize job.row.payload.localVersions = list at good ⊢
  match list,good with
  | some (version::versions),⟨sound,complete⟩ =>
    refine fun v _ => ⟨sound v.version,fun ⟨dir,inside,same,names⟩ => ?_⟩
    rw [← names]; exact complete dir inside same
  | some [],spelled => exact walked spelled
  | none,spelled => exact walked spelled

end

/-- Every completion of a run of faithful steps leaves presence exact, until the registry
changes or the crate is written again. Any completion does exactly where the list, or the
spelling of the name, agrees with the registry on the indexed versions. -/
theorem presenceExact (host : Host) :
    (∀ s, Reach (system host) Faithful s → ∀ worker job s', s.marking worker = some job →
      step s (.mark worker) = some s' → ∀ events s'', Path (system host) (Quiet job.row.crateName) s' events s'' →
      Exact s'' job.row.crateName) ∧
    ∀ (s : State host) worker job s', s.marking worker = some job → step s (.mark worker) = some s' →
      (Exact s' job.row.crateName ↔ Agrees s job) := by
  refine ⟨fun s run worker job s' here h events s'' quiet => ?_,fun s worker job s' here h => exactIffAgrees here h⟩
  have inv : PresenceInv s :=
    run.invariant (fun _ first => startInv first) fun _ _ _ inv faithful h => inv.step faithful h
  have now := (exactIffAgrees here h).mpr (goodAgrees (inv.good _ (.marking here)))
  exact quiet.keeps (I := fun t => Exact t job.row.crateName) (fun _ _ _ exact_ quiet h => exactQuiet exact_ quiet h) now

/-! A crate with an old version in the registry, and a new one that is downloaded. -/

def plainHost : Host :=
  ⟨Str.toAsciiLowercase,Str.toAsciiLowercase,fun version => (Semver.release version).isSome,⟨[],0⟩⟩

def serdeRegistry (mtime : Nat) (versions : List Text) : CargoRegistry where
  src := some [⟨true,versions.map fun version => ⟨"serde-".toList ++ version,true⟩⟩]
  cache := [⟨"index".toList,true,some mtime,versions.map fun version => "serde-".toList ++ version ++ ".crate".toList⟩]

def started (registry : CargoRegistry) : State plainHost :=
  ⟨RefreshRuns.fresh,registry,buildInitialIndex registry.cache,empty plainHost.lower,[],fun _ => none⟩

theorem startedStart (registry : CargoRegistry) : Start (started registry) :=
  ⟨RefreshRuns.freshFresh,rfl,rfl,fun _ => rfl⟩

def serdeDetail : CrateDetail := ⟨"serde".toList,["1.0.0".toList,"1.1.0".toList],[]⟩

/-- A caller enqueues, and a worker does the job up to the marking. -/
def jobDone : List Event :=
  [.queue (.select 0),.queue (.insert 0),.queue (.claim 0 []),.sync serdeDetail,.queue (.finish 0 true),.queue (.signal 0)]

def Event.changes : Event → Bool
  | .change _ => true
  | _ => false

def State.presence (s : State plainHost) : List (Text × Bool) :=
  s.catalog.versions.rows.map fun v => (v.version,v.locallyPresent)

/-- What worker 0 marks after the events. -/
def marked (allowed : State plainHost → Event → Prop) [∀ s event, Decidable (allowed s event)] (s : State plainHost)
    (events : List Event) : Option (State plainHost × Job × State plainHost) :=
  (exec (system plainHost) allowed s events).bind fun done =>
    (done.marking 0).bind fun job => (step done (.mark 0)).map fun after => (done,job,after)

theorem markedSome {allowed : State plainHost → Event → Prop} [∀ s event, Decidable (allowed s event)]
    {s done after : State plainHost} {events : List Event} {job : Job} (h : marked allowed s events = some (done,job,after)) :
    Path (system plainHost) allowed s events done ∧ done.marking 0 = some job ∧ step done (.mark 0) = some after := by
  obtain ⟨_,ran,h⟩ := Option.bind_eq_some_iff.mp h
  obtain ⟨_,here,h⟩ := Option.bind_eq_some_iff.mp h
  obtain ⟨_,marks,same⟩ := Option.map_eq_some_iff.mp h
  cases same
  exact ⟨execPath _ allowed events ran,here,marks⟩

def scanRun : Option (State plainHost × Job × State plainHost) :=
  marked (fun s event => Sound s event ∧ event.changes = false) (started (serdeRegistry 1 ["1.0.0".toList]))
    ([.scan ["serde".toList],.send 0 0] ++ jobDone)

/-- A scan's job marks the version in the registry. -/
theorem presenceExactScanned :
    ∃ s : State plainHost, s.presence = [("1.0.0".toList,true),("1.1.0".toList,false)] ∧ Exact s "serde".toList := by
  have outcome : scanRun.map (fun run => (run.2.1.row.crateName,run.2.2.presence)) =
      some ("serde".toList,[("1.0.0".toList,true),("1.1.0".toList,false)]) := by decide +kernel
  obtain ⟨⟨done,job,after⟩,ran,same⟩ := Option.map_eq_some_iff.mp outcome
  obtain ⟨name,presence⟩ := Prod.mk.inj same
  obtain ⟨path,here,marks⟩ := markedSome ran
  have run : Reach (system plainHost) Faithful done := (Reach.start (startedStart _)).along (path.mono fun s event meets =>
    ⟨meets.1,fun registry same => by rw [same] at meets; exact absurd meets.2 Bool.noConfusion⟩)
  exact ⟨after,presence,name ▸ (presenceExact plainHost).1 done run 0 job after here marks [] after (.done after)⟩

/-- The same, and then a new version is downloaded and polled. -/
def pollRun : Option (State plainHost × Job × State plainHost) :=
  marked always (started (serdeRegistry 1 ["1.0.0".toList]))
    ([.scan ["serde".toList],.send 0 0] ++ jobDone ++ [.mark 0] ++
      [.change (serdeRegistry 2 ["1.0.0".toList,"1.1.0".toList]),.poll,.send 0 2] ++ jobDone)

/-- The job of the new version resets the old one. -/
theorem polledVersionResets :
    ¬ ∀ (s : State plainHost) worker job s', Reach (system plainHost) always s → s.marking worker = some job →
      step s (.mark worker) = some s' → Exact s' job.row.crateName := by
  intro exact_
  have outcome : pollRun.map (fun run => decide (Exact run.2.2 run.2.1.row.crateName)) = some false := by decide +kernel
  obtain ⟨⟨done,job,after⟩,ran,wrong⟩ := Option.map_eq_some_iff.mp outcome
  obtain ⟨path,here,marks⟩ := markedSome ran
  exact of_decide_eq_false wrong (exact_ done 0 job after ((Reach.start (startedStart _)).along path) here marks)

end RustMcp.LocalPresence
