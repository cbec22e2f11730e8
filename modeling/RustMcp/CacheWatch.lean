import RustMcp.Registry
import RustMcp.Runs

/-! The cache watcher, step by step: a poll reads modification times, lists directories,
enqueues and records, while files go on being created in between. What exists stays. -/
namespace RustMcp.CacheWatch
open Str (Text)
open Runs RefreshQueue Registry

/-- The directories of `cache`, with their modification times and files. -/
abbrev Disk := Keyed.Map Text (Nat × List Text)

abbrev JobRequest := Request RefreshJobPayload

/-- The files that a snapshot keeps. -/
def crateFiles (files : List Text) : List Text := files.filter fun name => (Str.stripSuffix ".crate".toList name).isSome

/-- What is kept of the past: the files in which new ones were detected, and the crates
for which a job was enqueued. -/
inductive Logged where
  | detected (subdir filename : Text)
  | enqueued (crateName : Text)
  deriving DecidableEq

/-- Where the watcher stands in a poll. A subdirectory that is new is recorded before
its files are announced, one that is known after. -/
inductive Stage where
  | idle
  | discovering
  | found (subdir : Text) (mtime : Nat) (before : List Text)
  | announcing (requests : List JobRequest)
  | checking (todo : List Text)
  | changed (subdir : Text) (todo : List Text)
  | reading (subdir : Text) (mtime : Nat) (before todo : List Text)
  | enqueueing (subdir : Text) (mtime : Nat) (files : List Text) (requests : List JobRequest) (todo : List Text)
  deriving DecidableEq

structure State where
  disk : Disk
  index : CacheIndex
  stage : Stage
  log : List Logged
  /-- the files recorded at startup -/
  startup : List (Text × Text)
  /-- the disk when the poll that is under way began -/
  begun : Disk
  /-- the disk when the last poll that has finished began -/
  covered : Disk

inductive Event where
  | makeDir (subdir : Text) (mtime : Nat)
  | create (subdir filename : Text) (mtime : Nat)
  | start
  | visit (subdir : Text)
  | list (seen : List Text)
  | enqueue (request : JobRequest) (ok : Bool)
  | record
  | discovered
  | check (subdir : Text)
  | reread
  | finish

section
variable (parses : Text → Bool)

def State.detect (s : State) (subdir : Text) (newFiles : List Text) : List Logged :=
  s.log ++ newFiles.map (.detected subdir)

/-- A listing yields all files that were there when it began, and may yield those created meanwhile. -/
def Lists (before seen files : List Text) : Prop := crateFiles before ⊆ seen ∧ seen ⊆ crateFiles files

instance (before seen files : List Text) : Decidable (Lists before seen files) := inferInstanceAs (Decidable (_ ∧ _))

/-- The requests still to be made, and what is left when one has been. -/
def Stage.without (request : JobRequest) : Stage → Option Stage
  | .announcing requests => if request ∈ requests then some (.announcing (requests.erase request)) else none
  | .enqueueing subdir mtime files requests todo =>
    if request ∈ requests then some (.enqueueing subdir mtime files (requests.erase request) todo) else none
  | _ => none

/-- `snapshot_subdir` listing a subdirectory whose modification time has been read. -/
def State.list (s : State) (seen : List Text) : Option State :=
  match s.stage with
  | .found subdir mtime before => do
      let (_,files) ← s.disk[subdir]?
      if Lists before seen files then
        some { s with
          index := s.index.insert subdir (mtime,seen)
          log := s.detect subdir seen
          stage := .announcing (enqueueNewFiles parses seen)}
      else none
  | .reading subdir mtime before todo => do
      let (_,files) ← s.disk[subdir]?
      let (_,known) ← s.index[subdir]?
      let newFiles := seen.filter fun name => !known.contains name
      if Lists before seen files then
        some { s with
          log := s.detect subdir newFiles
          stage := .enqueueing subdir mtime seen (enqueueNewFiles parses newFiles) todo}
      else none
  | _ => none

/-- When all requests have been made: back to the next subdirectory. -/
def State.record (s : State) : Option State :=
  match s.stage with
  | .announcing [] => some { s with stage := .discovering }
  | .enqueueing subdir mtime files [] todo =>
    some { s with index := s.index.insert subdir (mtime,files), stage := .checking todo }
  | _ => none

def State.check (s : State) (subdir : Text) : Option State :=
  match s.stage with
  | .checking todo =>
    if subdir ∈ todo then do
      let (currentMtime,_) ← s.disk[subdir]?
      let (storedMtime,_) ← s.index[subdir]?
      some { s with
        stage := if currentMtime = storedMtime then .checking (todo.erase subdir) else .changed subdir (todo.erase subdir)}
    else none
  | _ => none

def State.step (s : State) : Event → Option State
  | .makeDir subdir mtime =>
    if s.disk.contains subdir then none else some { s with disk := s.disk.insert subdir (mtime,[]) }
  | .create subdir filename mtime => do
    let (current,files) ← s.disk[subdir]?
    if current < mtime ∧ filename ∉ files then
      some { s with disk := s.disk.insert subdir (mtime,files ++ [filename]) }
    else none
  | .start => if s.stage = .idle then some { s with stage := .discovering, begun := s.disk } else none
  | .visit subdir =>
    if s.stage = .discovering ∧ s.index.contains subdir = false then do
      let (mtime,files) ← s.disk[subdir]?
      some { s with stage := .found subdir mtime files }
    else none
  | .list seen => s.list parses seen
  | .enqueue request ok =>
    (s.stage.without request).map fun stage =>
      { s with stage := stage, log := if ok then s.log ++ [.enqueued request.crateName] else s.log }
  | .record => s.record
  | .discovered =>
    if s.stage = .discovering ∧ s.begun.keys.all (fun subdir => s.index.contains subdir) = true then
      some { s with stage := .checking s.index.keys }
    else none
  | .check subdir => s.check subdir
  | .reread =>
    match s.stage with
    | .changed subdir todo => do
      let (mtime,files) ← s.disk[subdir]?
      some { s with stage := .reading subdir mtime files todo }
    | _ => none
  | .finish => if s.stage = .checking [] then some { s with stage := .idle, covered := s.begun } else none

end

/-! What the properties say. -/

def Known (index : CacheIndex) (subdir filename : Text) : Prop :=
  ∃ mtime known, index[subdir]? = some (mtime,known) ∧ filename ∈ known

/-- The index has seen the files of a subdirectory, all of them if none was created since `mtime` was read. -/
def Tracks (disk : Disk) (subdir : Text) (mtime : Nat) (known : List Text) : Prop :=
  ∃ current files, disk[subdir]? = some (current,files) ∧ known ⊆ crateFiles files ∧ mtime ≤ current ∧
    (mtime = current → crateFiles files ⊆ known)

/-- A job was enqueued for the crate after the file was detected. -/
def EnqueuedAfter (log : List Logged) (subdir filename crateName : Text) : Prop :=
  ∃ before after, log = before ++ .detected subdir filename :: after ∧ .enqueued crateName ∈ after

section
variable (parses : Text → Bool)

def Accounted (s : State) (subdir filename : Text) : Prop :=
  (subdir,filename) ∈ s.startup ∨ parseCrateFilename parses filename = none ∨
    ∃ crateName version, parseCrateFilename parses filename = some (crateName,version) ∧
      EnqueuedAfter s.log subdir filename crateName

/-- The requests that the poll under way has still to make. -/
def Stage.requests : Stage → List JobRequest
  | .announcing requests => requests
  | .enqueueing _ _ _ requests _ => requests
  | _ => []

/-- Detected in the poll under way, which has still to ask for its crate. -/
def Awaiting (s : State) (subdir filename : Text) : Prop :=
  .detected subdir filename ∈ s.log ∧ ∃ crateName version, parseCrateFilename parses filename = some (crateName,version) ∧
    ∃ request ∈ s.stage.requests, request.crateName = crateName

/-- A run begins between polls, with an index that is true of the disk. -/
structure Begins (s : State) : Prop where
  idle : s.stage = .idle
  tracks : ∀ subdir mtime known, s.index[subdir]? = some (mtime,known) → Tracks s.disk subdir mtime known
  recorded : ∀ subdir filename, Known s.index subdir filename → (subdir,filename) ∈ s.startup
  noPoll : s.begun = ∅ ∧ s.covered = ∅

def system : System State Event := ⟨Begins,State.step parses⟩

/-- No request for a job fails. -/
def Enqueues (_ : State) : Event → Prop
  | .enqueue _ ok => ok = true
  | _ => True

instance (s : State) (event : Event) : Decidable (Enqueues s event) := by
  cases event <;> unfold Enqueues <;> infer_instance

end

section
variable {disk disk' : Disk} {index : CacheIndex} {s s' : State} {subdir filename : Text} {mtime : Nat} {known : List Text}
  {log : List Logged} {parses : Text → Bool}

/-! The disk grows. -/

/-- Every subdirectory stays as it is, or has a later modification time and further files. -/
def Grown (disk disk' : Disk) : Prop :=
  ∀ (subdir : Text) (mtime : Nat) (files : List Text), disk[subdir]? = some (mtime,files) →
    ∃ mtime' files', disk'[subdir]? = some (mtime',files') ∧ files ⊆ files' ∧
      (mtime' = mtime ∧ files' = files ∨ mtime < mtime')

theorem Grown.refl (disk : Disk) : Grown disk disk :=
  fun _ mtime files here => ⟨mtime,files,here,List.Subset.refl _,Or.inl ⟨rfl,rfl⟩⟩

theorem crateFilesMono {files files' : List Text} (sub : files ⊆ files') : crateFiles files ⊆ crateFiles files' := by
  intro name mem
  obtain ⟨inside,kind⟩ := List.mem_filter.mp mem
  exact List.mem_filter.mpr ⟨sub inside,kind⟩

theorem Tracks.grown (tracks : Tracks disk subdir mtime known) (grown : Grown disk disk') : Tracks disk' subdir mtime known := by
  obtain ⟨current,files,here,sub,late,all⟩ := tracks
  obtain ⟨current',files',there,more,⟨rfl,rfl⟩ | later⟩ := grown subdir current files here
  · exact ⟨current',files',there,sub,late,all⟩
  · exact ⟨current',files',there,List.Subset.trans sub (crateFilesMono more),by omega,fun same => by omega⟩

theorem makeDirGrown (new : disk.contains subdir = false) : Grown disk (disk.insert subdir (mtime,[])) := by
  intro other current files here
  refine ⟨current,files,?_,List.Subset.refl _,Or.inl ⟨rfl,rfl⟩⟩
  rw [Keyed.insertAt,if_neg,here]
  rintro rfl
  rw [Keyed.containsIff.mpr ⟨_,here⟩] at new
  contradiction

theorem createGrown {current : Nat} {files : List Text} (here : disk[subdir]? = some (current,files)) (later : current < mtime) :
    Grown disk (disk.insert subdir (mtime,files ++ [filename])) := by
  intro other current' files' there
  rw [Keyed.insertAt]
  split
  · rename_i same
    subst same
    cases Option.some.inj (here.symm.trans there)
    exact ⟨mtime,_,rfl,List.subset_append_left _ _,Or.inr later⟩
  · exact ⟨current',files',there,List.Subset.refl _,Or.inl ⟨rfl,rfl⟩⟩

/-- What was seen since a modification time was read is all there is, unless it has changed again. -/
theorem Tracks.listed {before seen files : List Text} {current : Nat} (tracks : Tracks disk subdir mtime (crateFiles before))
    (here : disk[subdir]? = some (current,files)) (lists : Lists before seen files) : Tracks disk subdir mtime seen := by
  obtain ⟨current',files',there,_,late,all⟩ := tracks
  cases Option.some.inj (here.symm.trans there)
  exact ⟨current,files,here,lists.2,late,fun same => List.Subset.trans (all same) lists.1⟩

theorem tracksNow {files : List Text} (here : disk[subdir]? = some (mtime,files)) : Tracks disk subdir mtime (crateFiles files) :=
  ⟨mtime,files,here,List.Subset.refl _,le_rfl,fun _ => List.Subset.refl _⟩

/-! The log grows. -/

theorem EnqueuedAfter.append {crateName : Text} (after : EnqueuedAfter log subdir filename crateName) (more : List Logged) :
    EnqueuedAfter (log ++ more) subdir filename crateName := by
  obtain ⟨before,later,rfl,mem⟩ := after
  exact ⟨before,later ++ more,by simp,List.mem_append_left _ mem⟩

theorem enqueuedNow {crateName : Text} (detected : .detected subdir filename ∈ log) :
    EnqueuedAfter (log ++ [.enqueued crateName]) subdir filename crateName := by
  obtain ⟨before,later,rfl⟩ := List.append_of_mem detected
  exact ⟨before,later ++ [.enqueued crateName],by simp,by simp⟩

theorem Grown.trans {disk'' : Disk} (grown : Grown disk disk') (grown' : Grown disk' disk'') : Grown disk disk'' := by
  intro subdir mtime files here
  obtain ⟨mtime',files',there,sub,same | later⟩ := grown subdir mtime files here
  · obtain ⟨rfl,rfl⟩ := same
    exact grown' subdir mtime' files' there
  · obtain ⟨mtime'',files'',last,sub',more⟩ := grown' subdir mtime' files' there
    refine ⟨mtime'',files'',last,List.Subset.trans sub sub',Or.inr ?_⟩
    omega

/-! The index grows. -/

theorem knownInsert {sub name : Text} : Known (index.insert subdir (mtime,known)) sub name ↔
    sub = subdir ∧ name ∈ known ∨ sub ≠ subdir ∧ Known index sub name := by
  simp only [Known,Keyed.insertAt]
  by_cases same : subdir = sub
  · subst same
    simp
  · simp [same,Ne.symm same]

theorem knownMono {sub name : Text} (kept : ∀ name, Known index subdir name → name ∈ known) (here : Known index sub name) :
    Known (index.insert subdir (mtime,known)) sub name := by
  rw [knownInsert]
  by_cases same : sub = subdir
  · subst same
    exact Or.inl ⟨rfl,kept name here⟩
  · exact Or.inr ⟨same,here⟩

/-- Every file that was there is recorded. -/
def Covers (index : CacheIndex) (disk : Disk) (subdir : Text) : Prop :=
  ∀ (mtime : Nat) (files : List Text), disk[subdir]? = some (mtime,files) → ∀ name ∈ crateFiles files, Known index subdir name

theorem Covers.mono {sub : Text} (kept : ∀ name, Known index subdir name → name ∈ known) (covers : Covers index disk sub) :
    Covers (index.insert subdir (mtime,known)) disk sub :=
  fun mtime files here name mem => knownMono kept (covers mtime files here name mem)

/-! Files and requests. -/

theorem pushVersionSome (dirs : List (Text × Text)) (versions : List Text) :
    ∃ all, dirs.foldl pushVersion (some versions) = some all := by
  induction dirs generalizing versions with
  | nil => exact ⟨versions,rfl⟩
  | cons dir dirs ih => exact ih _

theorem requestOf {newFiles : List Text} {crateName version : Text} (mem : filename ∈ newFiles)
    (parsed : parseCrateFilename parses filename = some (crateName,version)) :
    ∃ request ∈ enqueueNewFiles parses newFiles, request.crateName = crateName := by
  have inside : (crateName,version) ∈ (newFiles.filterMap (parseCrateFilename parses)).filter fun dir => dir.1 = crateName :=
    List.mem_filter.mpr ⟨List.mem_filterMap.mpr ⟨filename,mem,parsed⟩,by simp⟩
  have entry : ∃ versions, ((newFiles.filterMap (parseCrateFilename parses)).filter fun dir => dir.1 = crateName).foldl
      pushVersion none = some versions := by
    cases dirs : (newFiles.filterMap (parseCrateFilename parses)).filter fun dir => dir.1 = crateName with
    | nil => rw [dirs] at inside; contradiction
    | cons dir rest => exact pushVersionSome rest _
  obtain ⟨versions,collected⟩ := entry
  exact ⟨_,List.mem_map.mpr ⟨_,Keyed.collectMem.mpr collected,rfl⟩,rfl⟩

/-! What holds in every run without failed requests. -/

def Settled (parses : Text → Bool) (s : State) (subdir filename : Text) : Prop :=
  Accounted parses s subdir filename ∨ Awaiting parses s subdir filename

theorem Accounted.later (accounted : Accounted parses s subdir filename) (startup : s'.startup = s.startup)
    (log : ∃ more, s'.log = s.log ++ more) : Accounted parses s' subdir filename := by
  obtain ⟨more,log⟩ := log
  rcases accounted with old | unparsed | ⟨crateName,version,parsed,after⟩
  · exact Or.inl (startup ▸ old)
  · exact Or.inr (Or.inl unparsed)
  · exact Or.inr (Or.inr ⟨crateName,version,parsed,log ▸ after.append more⟩)

/-- With no request to be made, what is settled is accounted for. -/
theorem Settled.accounted (settled : Settled parses s subdir filename) (none_ : s.stage.requests = []) :
    Accounted parses s subdir filename := by
  rcases settled with accounted | ⟨_,_,_,_,request,mem,_⟩
  · exact accounted
  · rw [none_] at mem
    contradiction

theorem settledNew {newFiles : List Text} (mem : filename ∈ newFiles) (log : s'.log = s.detect subdir newFiles)
    (requests : s'.stage.requests = enqueueNewFiles parses newFiles) : Settled parses s' subdir filename := by
  cases parsed : parseCrateFilename parses filename with
  | none => exact Or.inl (Or.inr (Or.inl parsed))
  | some dir =>
    obtain ⟨request,there,name⟩ := requestOf mem parsed
    refine Or.inr ⟨?_,dir.1,dir.2,parsed,request,requests ▸ there,name⟩
    rw [log,State.detect]
    exact List.mem_append_right _ (List.mem_map_of_mem mem)

/-- The files read for a known subdirectory are those recorded of it, and those that were there when the poll began. -/
structure Fresh (s : State) (subdir : Text) (files : List Text) : Prop where
  recorded : ∀ name, Known s.index subdir name → name ∈ files
  begun : ∀ (mtime : Nat) (old : List Text), s.begun[subdir]? = some (mtime,old) → crateFiles old ⊆ files

/-- What the parts about requests need is `strict`: that none has failed. -/
def StageInv (parses : Text → Bool) (strict : Prop) (s : State) : Prop :=
  match s.stage with
  | .found subdir mtime before => Tracks s.disk subdir mtime (crateFiles before) ∧ s.index.contains subdir = false
  | .checking todo => ∀ other, other ∉ todo → Covers s.index s.begun other
  | .changed subdir todo => ∀ other, other ≠ subdir → other ∉ todo → Covers s.index s.begun other
  | .reading subdir mtime before todo =>
    (∀ other, other ≠ subdir → other ∉ todo → Covers s.index s.begun other) ∧
      Tracks s.disk subdir mtime (crateFiles before) ∧ Fresh s subdir (crateFiles before)
  | .enqueueing subdir mtime files _ todo =>
    (∀ other, other ≠ subdir → other ∉ todo → Covers s.index s.begun other) ∧
      Tracks s.disk subdir mtime files ∧ Fresh s subdir files ∧ (strict → ∀ name ∈ files, Settled parses s subdir name)
  | _ => True

structure Inv (parses : Text → Bool) (strict : Prop) (s : State) : Prop where
  tracks : ∀ subdir mtime known, s.index[subdir]? = some (mtime,known) → Tracks s.disk subdir mtime known
  grown : Grown s.begun s.disk
  covered : ∀ subdir, Covers s.index s.covered subdir
  settled : strict → ∀ subdir filename, Known s.index subdir filename → Settled parses s subdir filename
  stage : StageInv parses strict s

variable {strict : Prop}

theorem startInv (first : Begins s) : Inv parses strict s where
  tracks := first.tracks
  grown := by
    rw [first.noPoll.1]
    intro subdir mtime files here
    simp at here
  covered subdir := by
    rw [first.noPoll.2]
    intro mtime files here
    simp at here
  settled _ subdir filename known := Or.inl (Or.inl (first.recorded subdir filename known))
  stage := by rw [StageInv,first.idle]; trivial

/-! Steps of the disk. -/

theorem growInv (inv : Inv parses strict s) (grown : Grown s.disk disk') : Inv parses strict { s with disk := disk' } where
  tracks subdir mtime known here := (inv.tracks subdir mtime known here).grown grown
  grown := inv.grown.trans grown
  covered := inv.covered
  settled := inv.settled
  stage := by
    obtain ⟨disk,index,stage,log,startup,begun,covered⟩ := s
    have before := inv.stage
    cases stage with
    | found => exact ⟨before.1.grown grown,before.2⟩
    | reading => exact ⟨before.1,before.2.1.grown grown,before.2.2.1,before.2.2.2⟩
    | enqueueing => exact ⟨before.1,before.2.1.grown grown,⟨before.2.2.1.1,before.2.2.1.2⟩,before.2.2.2⟩
    | _ => exact before

/-! Steps of a poll. Those that leave index and log alone keep what is settled, if no request is open. -/

theorem restage {stage : Stage} {begun covered : Disk} (inv : Inv parses strict s) (none_ : s.stage.requests = [])
    (grown : Grown begun s.disk) (covers : ∀ subdir, Covers s.index covered subdir)
    (holds : StageInv parses strict { s with stage := stage, begun := begun, covered := covered }) :
    Inv parses strict { s with stage := stage, begun := begun, covered := covered } where
  tracks := inv.tracks
  grown := grown
  covered := covers
  settled none_failed subdir filename known :=
    Or.inl (((inv.settled none_failed subdir filename known).accounted none_).later rfl ⟨[],(List.append_nil _).symm⟩)
  stage := holds

theorem coversUnchanged (inv : Inv parses strict s) {files : List Text} (there : s.disk[subdir]? = some (mtime,files))
    (stored : s.index[subdir]? = some (mtime,known)) : Covers s.index s.begun subdir := by
  intro old before here name mem
  obtain ⟨current,now,now_,_,_,all⟩ := inv.tracks subdir mtime known stored
  obtain ⟨current',now',there',sub,_⟩ := inv.grown subdir old before here
  cases Option.some.inj (now_.symm.trans there)
  cases Option.some.inj (now_.symm.trans there')
  exact ⟨mtime,known,stored,all rfl (crateFilesMono sub mem)⟩

theorem listFound {before seen files : List Text} {current : Nat} (inv : Inv parses strict s)
    (stage : s.stage = .found subdir mtime before) (here : s.disk[subdir]? = some (current,files))
    (lists : Lists before seen files) :
    Inv parses strict { s with
      index := s.index.insert subdir (mtime,seen)
      log := s.detect subdir seen
      stage := .announcing (enqueueNewFiles parses seen)} := by
  have holds := inv.stage
  rw [StageInv,stage] at holds
  obtain ⟨tracks,new⟩ := holds
  have kept : ∀ name, Known s.index subdir name → name ∈ seen := by
    rintro name ⟨mtime,known,there,_⟩
    rw [Keyed.containsIff.mpr ⟨_,there⟩] at new
    contradiction
  refine ⟨?_,inv.grown,fun sub => (inv.covered sub).mono kept,?_,trivial⟩
  · intro sub mtime' known' there
    rw [Keyed.insertAt] at there
    split at there
    · rename_i same
      subst same
      cases Option.some.inj there
      exact tracks.listed here lists
    · exact inv.tracks sub mtime' known' there
  · intro none_failed sub name known
    rcases knownInsert.mp known with ⟨rfl,mem⟩ | ⟨_,old⟩
    · exact settledNew mem rfl rfl
    · exact Or.inl (((inv.settled none_failed sub name old).accounted (by rw [stage]; rfl)).later rfl ⟨_,rfl⟩)

theorem listReading {before seen files todo : List Text} {current stored : Nat} (inv : Inv parses strict s)
    (stage : s.stage = .reading subdir mtime before todo) (here : s.disk[subdir]? = some (current,files))
    (recorded : s.index[subdir]? = some (stored,known)) (lists : Lists before seen files) :
    Inv parses strict { s with
      log := s.detect subdir (seen.filter fun name => !known.contains name)
      stage := .enqueueing subdir mtime seen (enqueueNewFiles parses (seen.filter fun name => !known.contains name)) todo} := by
  have holds := inv.stage
  rw [StageInv,stage] at holds
  obtain ⟨others,tracks,fresh⟩ := holds
  have kept (none_failed : strict) {sub name : Text} (old : Known s.index sub name) : Settled parses { s with
      log := s.detect subdir (seen.filter fun name => !known.contains name)
      stage := .enqueueing subdir mtime seen (enqueueNewFiles parses (seen.filter fun name => !known.contains name)) todo}
      sub name :=
    Or.inl (((inv.settled none_failed sub name old).accounted (by rw [stage]; rfl)).later rfl ⟨_,rfl⟩)
  refine ⟨inv.tracks,inv.grown,inv.covered,fun none_failed sub name old => kept none_failed old,others,tracks.listed here lists,?_,?_⟩
  · exact ⟨fun name old => lists.1 (fresh.recorded name old),fun old files there => List.Subset.trans (fresh.begun old files there) lists.1⟩
  · intro none_failed name mem
    by_cases old : name ∈ known
    · exact kept none_failed ⟨stored,known,recorded,old⟩
    · exact settledNew (List.mem_filter.mpr ⟨mem,by simpa using old⟩) rfl rfl

theorem Settled.enqueued {request : JobRequest} {stage : Stage} (settled : Settled parses s subdir filename)
    (rest : stage.requests = s.stage.requests.erase request) :
    Settled parses { s with stage := stage, log := s.log ++ [.enqueued request.crateName] } subdir filename := by
  rcases settled with accounted | ⟨detected,crateName,version,parsed,other,mem,rfl⟩
  · exact Or.inl (accounted.later rfl ⟨_,rfl⟩)
  · by_cases same : other.crateName = request.crateName
    · refine Or.inl (Or.inr (Or.inr ⟨_,version,parsed,?_⟩))
      rw [same]
      exact enqueuedNow detected
    · refine Or.inr ⟨List.mem_append_left _ detected,_,version,parsed,other,?_,rfl⟩
      rw [rest]
      exact (List.mem_erase_of_ne fun eq => same (congrArg Request.crateName eq)).mpr mem

theorem enqueueInv {request : JobRequest} {ok : Bool} {stage : Stage} (inv : Inv parses strict s) (meets : strict → ok = true)
    (made : s.stage.without request = some stage) :
    Inv parses strict { s with
      stage := stage
      log := if ok then s.log ++ [.enqueued request.crateName] else s.log } := by
  have kept (none_failed : strict) (rest : stage.requests = s.stage.requests.erase request) {sub name : Text}
      (settled : Settled parses s sub name) : Settled parses { s with
        stage := stage
        log := if ok then s.log ++ [.enqueued request.crateName] else s.log } sub name := by
    rw [if_pos (meets none_failed)]
    exact settled.enqueued rest
  obtain ⟨disk,index,stage',log,startup,begun,covered⟩ := s
  have holds := inv.stage
  cases stage' with
  | announcing requests =>
    simp only [Stage.without] at made
    split at made <;> try contradiction
    cases Option.some.inj made
    exact ⟨inv.tracks,inv.grown,inv.covered,
      fun none_failed sub name known => kept none_failed rfl (inv.settled none_failed sub name known),trivial⟩
  | enqueueing subdir mtime files requests todo =>
    simp only [Stage.without] at made
    split at made <;> try contradiction
    cases Option.some.inj made
    exact ⟨inv.tracks,inv.grown,inv.covered,
      fun none_failed sub name known => kept none_failed rfl (inv.settled none_failed sub name known),holds.1,holds.2.1,
      ⟨holds.2.2.1.1,holds.2.2.1.2⟩,fun none_failed name mem => kept none_failed rfl (holds.2.2.2 none_failed name mem)⟩
  | _ => contradiction

theorem recordInv (inv : Inv parses strict s) (h : s.record = some s') : Inv parses strict s' := by
  have holds := inv.stage
  unfold State.record at h
  split at h
  · rename_i stage
    cases Option.some.inj h
    exact restage inv (by rw [stage]; rfl) inv.grown inv.covered trivial
  · rename_i subdir mtime files todo stage
    cases Option.some.inj h
    rw [StageInv,stage] at holds
    obtain ⟨others,tracks,fresh,settled⟩ := holds
    have none_ : s.stage.requests = [] := by rw [stage]; rfl
    have accounted {sub name : Text} (before : Settled parses s sub name) :
        Settled parses { s with index := s.index.insert subdir (mtime,files), stage := .checking todo } sub name :=
      Or.inl ((before.accounted none_).later rfl ⟨[],(List.append_nil _).symm⟩)
    refine ⟨?_,inv.grown,fun sub => (inv.covered sub).mono fresh.recorded,?_,?_⟩
    · intro sub mtime' known' there
      rw [Keyed.insertAt] at there
      split at there
      · rename_i same
        subst same
        cases Option.some.inj there
        exact tracks
      · exact inv.tracks sub mtime' known' there
    · intro none_failed sub name known
      rcases knownInsert.mp known with ⟨rfl,mem⟩ | ⟨_,old⟩
      · exact accounted (settled none_failed name mem)
      · exact accounted (inv.settled none_failed sub name old)
    · intro sub left
      by_cases same : sub = subdir
      · subst same
        exact fun old before there name mem => knownInsert.mpr (Or.inl ⟨rfl,fresh.begun old before there mem⟩)
      · exact (others sub same left).mono fresh.recorded
  · contradiction

theorem checkInv (inv : Inv parses strict s) (h : s.check subdir = some s') : Inv parses strict s' := by
  have holds := inv.stage
  unfold State.check at h
  split at h <;> try contradiction
  rename_i todo stage
  rw [StageInv,stage] at holds
  split at h <;> try contradiction
  obtain ⟨⟨currentMtime,files⟩,there,h⟩ := Option.bind_eq_some_iff.mp h
  obtain ⟨⟨storedMtime,known⟩,stored,h⟩ := Option.bind_eq_some_iff.mp h
  cases Option.some.inj h
  refine restage inv (by rw [stage]; rfl) inv.grown inv.covered ?_
  by_cases same : currentMtime = storedMtime
  · subst same
    simp only [if_pos trivial,StageInv]
    intro other left
    by_cases here : other = subdir
    · subst here
      exact coversUnchanged inv there stored
    · exact holds other fun mem => left ((List.mem_erase_of_ne here).mpr mem)
  · simp only [if_neg same,StageInv]
    exact fun other here left => holds other fun mem => left ((List.mem_erase_of_ne here).mpr mem)

theorem rereadInv {files todo : List Text} (inv : Inv parses strict s) (stage : s.stage = .changed subdir todo)
    (there : s.disk[subdir]? = some (mtime,files)) : Inv parses strict { s with stage := .reading subdir mtime files todo } := by
  have holds := inv.stage
  rw [StageInv,stage] at holds
  refine restage inv (by rw [stage]; rfl) inv.grown inv.covered ⟨holds,tracksNow there,?_,?_⟩
  · rintro name ⟨stored,known,recorded,mem⟩
    obtain ⟨current,now,here,sub,_⟩ := inv.tracks subdir stored known recorded
    cases Option.some.inj (here.symm.trans there)
    exact sub mem
  · intro old before here
    obtain ⟨current,now,here',sub,_⟩ := inv.grown subdir old before here
    cases Option.some.inj (here'.symm.trans there)
    exact crateFilesMono sub

theorem stepInv {event : Event} (h : s.step parses event = some s') (inv : Inv parses strict s) (meets : strict → Enqueues s event) :
    Inv parses strict s' := by
  have holds := inv.stage
  cases event with
  | makeDir subdir mtime =>
    simp only [State.step] at h
    split at h <;> try contradiction
    rename_i new
    cases Option.some.inj h
    exact growInv inv (makeDirGrown (Bool.eq_false_iff.mpr new))
  | create subdir filename mtime =>
    obtain ⟨⟨current,files⟩,here,h⟩ := Option.bind_eq_some_iff.mp h
    dsimp only at h
    split at h <;> try contradiction
    rename_i fits
    cases Option.some.inj h
    exact growInv inv (createGrown here fits.1)
  | start =>
    simp only [State.step] at h
    split at h <;> try contradiction
    rename_i stage
    cases Option.some.inj h
    exact restage inv (by rw [stage]; rfl) (Grown.refl _) inv.covered trivial
  | visit subdir =>
    simp only [State.step] at h
    split at h <;> try contradiction
    rename_i stage
    obtain ⟨⟨mtime,files⟩,here,h⟩ := Option.bind_eq_some_iff.mp h
    cases Option.some.inj h
    exact restage inv (by rw [stage.1]; rfl) inv.grown inv.covered ⟨tracksNow here,stage.2⟩
  | list seen =>
    simp only [State.step,State.list] at h
    split at h <;> try contradiction
    · rename_i stage
      obtain ⟨⟨current,files⟩,here,h⟩ := Option.bind_eq_some_iff.mp h
      dsimp only at h
      split at h <;> try contradiction
      rename_i lists
      cases Option.some.inj h
      exact listFound inv stage here lists
    · rename_i stage
      obtain ⟨⟨current,files⟩,here,h⟩ := Option.bind_eq_some_iff.mp h
      obtain ⟨⟨stored,known⟩,recorded,h⟩ := Option.bind_eq_some_iff.mp h
      dsimp only at h
      split at h <;> try contradiction
      rename_i lists
      cases Option.some.inj h
      exact listReading inv stage here recorded lists
  | enqueue request ok =>
    obtain ⟨stage,made,rfl⟩ := Option.map_eq_some_iff.mp h
    exact enqueueInv inv meets made
  | record => exact recordInv inv h
  | discovered =>
    simp only [State.step] at h
    split at h <;> try contradiction
    rename_i stage
    cases Option.some.inj h
    refine restage inv (by rw [stage.1]; rfl) inv.grown inv.covered fun other left mtime files here => ?_
    have known := List.all_eq_true.mp stage.2 other (Keyed.memKeys.mpr ⟨_,here⟩)
    exact absurd (Keyed.memKeys.mpr (Keyed.containsIff.mp known)) left
  | check subdir => exact checkInv inv h
  | reread =>
    simp only [State.step] at h
    split at h <;> try contradiction
    rename_i stage
    obtain ⟨⟨mtime,files⟩,here,h⟩ := Option.bind_eq_some_iff.mp h
    cases Option.some.inj h
    exact rereadInv inv stage here
  | finish =>
    simp only [State.step] at h
    split at h <;> try contradiction
    rename_i stage
    cases Option.some.inj h
    rw [StageInv,stage] at holds
    exact restage inv (by rw [stage]; rfl) inv.grown (fun other => holds other List.not_mem_nil) trivial

theorem reachInv {allowed : State → Event → Prop} (meets : ∀ s event, allowed s event → strict → Enqueues s event)
    (run : Reach (system parses) allowed s) : Inv parses strict s :=
  run.invariant (I := Inv parses strict) (fun _ first => startInv first) fun s event _ inv allowed moves =>
    stepInv moves inv (meets s event allowed)

/-- Whether requests fail or not, no file stays unrecorded past a poll that began after its creation. -/
theorem coveredRecorded (run : Reach (system parses) always s) (subdir : Text) : Covers s.index s.covered subdir := by
  have inv : Inv parses False s := reachInv (fun _ _ _ impossible => impossible.elim) run
  exact inv.covered subdir

end

theorem recordedAccounted (parses : Text → Bool) {s : State} (run : Reach (system parses) Enqueues s) :
    (∀ subdir filename, Known s.index subdir filename →
      Accounted parses s subdir filename ∨ Awaiting parses s subdir filename) ∧
    (s.stage = .idle → ∀ subdir filename, Known s.index subdir filename → Accounted parses s subdir filename) ∧
    ∀ subdir, Covers s.index s.covered subdir := by
  have inv : Inv parses True s := reachInv (fun _ _ meets _ => meets) run
  refine ⟨inv.settled trivial,fun idle subdir filename known => ?_,inv.covered⟩
  exact (inv.settled trivial subdir filename known).accounted (by rw [idle]; rfl)

/-! A file is downloaded between two polls. -/

def demoParses (version : Text) : Bool := version = "1.0.0".toList

def demoStart : State where
  disk := ∅
  index := ∅
  stage := .idle
  log := []
  startup := []
  begun := ∅
  covered := ∅

theorem demoBegins : Begins demoStart where
  idle := rfl
  tracks _ _ _ here := by simp [demoStart] at here
  recorded := by
    rintro subdir filename ⟨_,_,here,_⟩
    simp [demoStart] at here
  noPoll := ⟨rfl,rfl⟩

def demoFile : Text := "a-1.0.0.crate".toList

def demoRequest : JobRequest := crateRequest "a".toList priorityCacheWatch ["1.0.0".toList]

/-- The first poll finds the subdirectory empty, the second one finds the file in it. -/
def downloaded (ok : Bool) : List Event :=
  [.makeDir "index".toList 1,.start,.visit "index".toList,.list [],.record,.discovered,.check "index".toList,.finish,
    .create "index".toList demoFile 2,.start,.discovered,.check "index".toList,.reread,.list [demoFile],
    .enqueue demoRequest ok,.record,.finish]

theorem downloadedRuns : (exec (system demoParses) Enqueues demoStart (downloaded true)).isSome = true := by decide +kernel

theorem recordedAccountedDownloaded :
    Known ((exec (system demoParses) Enqueues demoStart (downloaded true)).get downloadedRuns).index "index".toList demoFile ∧
    Accounted demoParses ((exec (system demoParses) Enqueues demoStart (downloaded true)).get downloadedRuns)
      "index".toList demoFile := by
  have known : Known ((exec (system demoParses) Enqueues demoStart (downloaded true)).get downloadedRuns).index
      "index".toList demoFile := ⟨2,[demoFile],by decide +kernel,by decide⟩
  exact ⟨known,(recordedAccounted demoParses (execReach _ _ _ demoBegins downloadedRuns)).2.1 (by decide +kernel) _ _ known⟩

theorem failedRuns : (exec (system demoParses) always demoStart (downloaded false)).isSome = true := by decide +kernel

/-- The request for the crate fails; the file is recorded all the same, and no later poll asks again. -/
theorem failedRecorded :
    ¬∀ (parses : Text → Bool) (s : State), Reach (system parses) always s → s.stage = .idle →
      ∀ subdir filename, Known s.index subdir filename → Accounted parses s subdir filename := by
  intro all
  have run := execReach (system demoParses) always (downloaded false) demoBegins failedRuns
  have known : Known ((exec (system demoParses) always demoStart (downloaded false)).get failedRuns).index
      "index".toList demoFile := ⟨2,[demoFile],by decide +kernel,by decide⟩
  have log : ((exec (system demoParses) always demoStart (downloaded false)).get failedRuns).log =
      [.detected "index".toList demoFile] := by decide +kernel
  rcases all demoParses _ run (by decide +kernel) _ _ known with old | unparsed | ⟨crateName,_,_,before,after,split,mem⟩
  · have startup : ((exec (system demoParses) always demoStart (downloaded false)).get failedRuns).startup = [] := by
      decide +kernel
    rw [startup] at old
    contradiction
  · exact absurd unparsed (by decide +kernel)
  · have inside : .enqueued crateName ∈ [Logged.detected "index".toList demoFile] := by
      rw [← log,split]
      exact List.mem_append_right _ (List.mem_cons_of_mem _ mem)
    cases List.mem_singleton.mp inside

end RustMcp.CacheWatch
