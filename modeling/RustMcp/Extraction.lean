import RustMcp.FileTree
import RustMcp.Runs
import RustMcp.Str

/-! Sources that are downloaded on demand, unpacked into a cache directory. Calls run
side by side; each looks for the directory of its version, and takes one that is there
as extracted. -/
namespace RustMcp.Extraction
open Str (Text)
open Runs FileTree

structure CrateRef where
  crateName : Text
  version : Text
  deriving DecidableEq

def CrateRef.dirName (crate : CrateRef) : Text := crate.crateName ++ '-' :: crate.version

/-- Under the cache directory. -/
def CrateRef.targetDir (crate : CrateRef) : List Text := [crate.dirName]

/-- An entry of a tarball: a directory, or a file with its contents. Its path has at
least one part, leading slashes and dots left out. -/
structure Entry where
  top : Text
  below : List Text
  contents : Option Text

def Entry.path (e : Entry) : List Text := e.top :: e.below

def dotDot : Text := "..".toList

/-- Contents on disk: a file that a call has opened and not finished, or a whole one. -/
inductive Stored where
  | writing (call : Nat)
  | whole (contents : Text)
  deriving DecidableEq

def Entry.node (e : Entry) : Node Stored :=
  match e.contents with
  | none => .directory
  | some contents => .file (.whole contents)

abbrev Disk := Tree Text Stored

/-- Unpacking takes the entries in an order of its own and skips the paths that lead
out of the directory. -/
structure Host where
  cacheDir : Text
  archive : CrateRef → List Entry
  order : List Entry → List Entry
  takes : ∀ entries e, e ∈ order entries ↔ e ∈ entries ∧ dotDot ∉ e.path

variable {host : Host}

/-- What unpacking the archive of a crate goes through. -/
def Host.plan (host : Host) (crate : CrateRef) : List Entry := host.order (host.archive crate)

/-- What a whole archive leaves at a path: an entry overwrites those before it. -/
def leaves (entries : List Entry) (p : List Text) : Option (Node Stored) :=
  (entries.filter fun e => e.path = p).getLast?.map Entry.node

/-- Every entry of the root directory of the archive is there, as unpacked. -/
def Complete (host : Host) (disk : Disk) (crate : CrateRef) : Prop :=
  ∀ e ∈ host.archive crate, e.top = crate.dirName → dotDot ∉ e.path →
    disk.node e.path = leaves (host.plan crate) e.path

/-! One call. -/

inductive Failure where
  | send (error : Text)
  | status (code : Text)
  | body (error : Text)
  | panicked (error : Text)
  | makeDir (error : Text)
  | unpack (error : Text)

def CrateRef.display (crate : CrateRef) : Text := crate.crateName ++ '@' :: crate.version

def Failure.text (host : Host) (crate : CrateRef) : Failure → Text
  | .send error => "crate source download failed for ".toList ++ crate.display ++ ": ".toList ++ error
  | .status code => "crate source download failed for ".toList ++ crate.display ++ ": HTTP ".toList ++ code
  | .body error => "failed to read crate source body for ".toList ++ crate.display ++ ": ".toList ++ error
  | .panicked error => "crate source extraction task panicked: ".toList ++ error
  | .makeDir error => "failed to create crate source cache directory ".toList ++ host.cacheDir ++ ": ".toList ++ error
  | .unpack error => "failed to extract crate source for ".toList ++ crate.display ++ ": ".toList ++ error

def unexpectedLayout (crate : CrateRef) : Text :=
  "crate source extraction produced unexpected layout for ".toList ++ crate.display

inductive Phase where
  | begun
  | downloading
  | fetched
  | checked
  | unpacking
  | returned (result : Except Text (List Text))
  deriving DecidableEq

/-- Where a failure may be met. A panic of the blocking task is met anywhere in it. -/
def Failure.metIn : Failure → Phase → Bool
  | .send _, .downloading | .status _, .downloading | .body _, .downloading => true
  | .panicked _, .fetched | .panicked _, .checked | .panicked _, .unpacking => true
  | .makeDir _, .checked => true
  | .unpack _, .unpacking => true
  | _, _ => false

/-- How far the entry that is being unpacked is: not begun, the directories above it
made, or its file opened. -/
inductive Stage where
  | next
  | placed
  | opened
  deriving DecidableEq

/-- A call has unpacked `count` entries of the archive, and the one after to `stage`. -/
structure Call where
  crate : CrateRef
  phase : Phase
  count : Nat
  stage : Stage

inductive Act where
  | look
  | receive
  | make
  | write
  | fail (failure : Failure)

def Call.returns (c : Call) (result : Except Text (List Text)) : Call := { c with phase := .returned result }

def Call.unpacked (c : Call) (disk : Disk) : Call × Disk := ({ c with count := c.count + 1, stage := .next },disk)

/-- One step of unpacking an entry. A file that another call has opened since is
that call's; what is then written is not seen. -/
def Call.advance (c : Call) (call : Nat) (disk : Disk) (e : Entry) : Option (Call × Disk) :=
  match c.stage, e.contents with
  | .next, _ => (disk.makeDirs e.path.dropLast).map fun disk => ({ c with stage := .placed },disk)
  | .placed, none => (disk.put e.path .directory).map c.unpacked
  | .placed, some _ => (disk.put e.path (.file (.writing call))).map fun disk => ({ c with stage := .opened },disk)
  | .opened, some contents =>
    if disk.node e.path = some (.file (.writing call)) then
      (disk.put e.path (.file (.whole contents))).map c.unpacked
    else some (c.unpacked disk)
  | .opened, none => none

/-- The looks of `download_and_extract_crate_source` and of `extract_crate_tarball`, the
latter before and after unpacking. -/
def Call.look (host : Host) (disk : Disk) (c : Call) : Option Call :=
  let there := disk.isDir c.crate.targetDir
  match c.phase with
  | .begun => some (if there then c.returns (.ok c.crate.targetDir) else { c with phase := .downloading })
  | .fetched => some (if there then c.returns (.ok c.crate.targetDir) else { c with phase := .checked })
  | .unpacking =>
    if c.count = (host.plan c.crate).length then
      some (c.returns (if there then .ok c.crate.targetDir else .error (unexpectedLayout c.crate)))
    else none
  | _ => none

def Call.act (host : Host) (call : Nat) (disk : Disk) (c : Call) : Act → Option (Call × Disk)
  | .look => (c.look host disk).map fun c => (c,disk)
  | .receive => if c.phase = .downloading then some ({ c with phase := .fetched },disk) else none
  | .make =>
    if c.phase = .checked then (disk.makeDirs []).map fun disk => ({ c with phase := .unpacking },disk) else none
  | .write =>
    if c.phase = .unpacking then ((host.plan c.crate)[c.count]?).bind (c.advance call disk) else none
  | .fail failure =>
    if failure.metIn c.phase then some (c.returns (.error (failure.text host c.crate)),disk) else none

/-! Calls side by side. -/

inductive Event where
  | downloadAndExtractCrateSource (crate : CrateRef)
  | extractCrateTarball (crate : CrateRef)
  | act (call : Nat) (act : Act)

/-- An `Ok` with the disk it is returned on. -/
structure Answer where
  crate : CrateRef
  disk : Disk

structure State where
  disk : Disk
  calls : List Call
  answers : List Answer

def State.begin (s : State) (crate : CrateRef) (phase : Phase) : State :=
  { s with calls := s.calls ++ [⟨crate,phase,0,.next⟩] }

def Call.answer (c : Call) (disk : Disk) : List Answer :=
  match c.phase with
  | .returned (.ok _) => [⟨c.crate,disk⟩]
  | _ => []

def State.moved (s : State) (call : Nat) (c : Call) (disk : Disk) : State :=
  ⟨disk,s.calls.set call c,s.answers ++ c.answer disk⟩

def State.step (host : Host) (s : State) : Event → Option State
  | .downloadAndExtractCrateSource crate => some (s.begin crate .begun)
  | .extractCrateTarball crate => some (s.begin crate .fetched)
  | .act call act => do
    let c ← s.calls[call]?
    let (c,disk) ← c.act host call s.disk act
    some (s.moved call c disk)

/-- A run begins with no call, on a disk without open files whose version directories
are complete. -/
structure Begins (host : Host) (s : State) : Prop where
  noCalls : s.calls = []
  noAnswers : s.answers = []
  closed : ∀ p call, s.disk.node p ≠ some (.file (.writing call))
  complete : ∀ crate, s.disk.isDir crate.targetDir = true → Complete host s.disk crate

def system (host : Host) : System State Event := ⟨Begins host,State.step host⟩

/-! What a call has left on the disk. -/

/-- The entries whose files are opened or directories made. -/
def Call.openedCount (c : Call) : Nat := if c.stage = .opened then c.count + 1 else c.count

/-- The entries for which anything is made at all. -/
def Call.touchedCount (c : Call) : Nat := if c.stage = .next then c.count else c.count + 1

def Touches (host : Host) (c : Call) (dir : Text) : Prop :=
  ∃ e ∈ (host.plan c.crate).take c.touchedCount, e.top = dir

instance (c : Call) (dir : Text) : Decidable (Touches host c dir) := inferInstanceAs (Decidable (∃ _ ∈ _, _))

/-- A call looks for a directory only where those that have left something in it are of
its version, and have unpacked their archive to the end. -/
def Undisturbed (host : Host) (s : State) : Event → Prop
  | .act call .look =>
    ∀ c ∈ s.calls[call]?, ∀ d ∈ s.calls, Touches host d c.crate.dirName →
      d.crate = c.crate ∧ d.count = (host.plan c.crate).length
  | _ => True

instance (s : State) (event : Event) : Decidable (Undisturbed host s event) := by
  unfold Undisturbed
  split <;> infer_instance

def Touched (host : Host) (s : State) (dir : Text) : Prop := ∃ c ∈ s.calls, Touches host c dir

/-- Nothing but its own archive has been unpacked into the directory of a crate. -/
def Own (host : Host) (s : State) (crate : CrateRef) : Prop :=
  ∀ c ∈ s.calls, Touches host c crate.dirName → c.crate = crate

/-! What one call does in a step. -/

inductive Moves (host : Host) (call : Nat) : Call → Disk → Call → Disk → Prop where
  | quiet {c : Call} {disk : Disk} (phase : Phase) (idle : phase ≠ .unpacking)
      (looked : phase = .checked → disk.isDir c.crate.targetDir = false) :
      Moves host call c disk { c with phase := phase } disk
  | made {c : Call} {disk disk' : Disk} (phase : c.phase = .checked) (dirs : disk.makeDirs [] = some disk') :
      Moves host call c disk { c with phase := .unpacking } disk'
  | placed {c : Call} {disk disk' : Disk} {e : Entry} (phase : c.phase = .unpacking)
      (entry : (host.plan c.crate)[c.count]? = some e) (stage : c.stage = .next)
      (dirs : disk.makeDirs e.path.dropLast = some disk') :
      Moves host call c disk { c with stage := .placed } disk'
  | directory {c : Call} {disk disk' : Disk} {e : Entry} (phase : c.phase = .unpacking)
      (entry : (host.plan c.crate)[c.count]? = some e) (stage : c.stage = .placed) (kind : e.contents = none)
      (put : disk.put e.path .directory = some disk') :
      Moves host call c disk { c with count := c.count + 1, stage := .next } disk'
  | opened {c : Call} {disk disk' : Disk} {e : Entry} {contents : Text} (phase : c.phase = .unpacking)
      (entry : (host.plan c.crate)[c.count]? = some e) (stage : c.stage = .placed)
      (kind : e.contents = some contents) (put : disk.put e.path (.file (.writing call)) = some disk') :
      Moves host call c disk { c with stage := .opened } disk'
  | closed {c : Call} {disk disk' : Disk} {e : Entry} {contents : Text} (phase : c.phase = .unpacking)
      (entry : (host.plan c.crate)[c.count]? = some e) (stage : c.stage = .opened)
      (kind : e.contents = some contents) (mine : disk.node e.path = some (.file (.writing call)))
      (put : disk.put e.path (.file (.whole contents)) = some disk') :
      Moves host call c disk { c with count := c.count + 1, stage := .next } disk'
  | lost {c : Call} {disk : Disk} {e : Entry} (phase : c.phase = .unpacking)
      (entry : (host.plan c.crate)[c.count]? = some e) (stage : c.stage = .opened)
      (other : disk.node e.path ≠ some (.file (.writing call))) :
      Moves host call c disk { c with count := c.count + 1, stage := .next } disk


variable {s s' : State} {call : Nat} {c c' d : Call} {disk disk' : Disk} {act : Act} {e : Entry} {crate : CrateRef}

theorem lookMoves (h : c.look host disk = some c') : Moves host call c disk c' disk := by
  unfold Call.look at h
  split at h
  · cases Option.some.inj h
    split
    · exact .quiet (.returned _) (by simp) (by simp)
    · exact .quiet .downloading (by simp) (by simp)
  · cases Option.some.inj h
    split
    · exact .quiet (.returned _) (by simp) (by simp)
    · rename_i absent
      exact .quiet .checked (by simp) fun _ => Bool.not_eq_true _ ▸ absent
  · split at h <;> try contradiction
    cases Option.some.inj h
    exact .quiet (.returned _) (by simp) (by simp)
  · contradiction

theorem advanceMoves (phase : c.phase = .unpacking) (entry : (host.plan c.crate)[c.count]? = some e)
    (h : c.advance call disk e = some (c',disk')) : Moves host call c disk c' disk' := by
  unfold Call.advance at h
  split at h
  · rename_i stage
    obtain ⟨made,dirs,same⟩ := Option.map_eq_some_iff.mp h
    cases same
    exact .placed phase entry stage dirs
  · rename_i stage kind
    obtain ⟨made,put,same⟩ := Option.map_eq_some_iff.mp h
    cases same
    exact .directory phase entry stage kind put
  · rename_i stage kind
    obtain ⟨made,put,same⟩ := Option.map_eq_some_iff.mp h
    cases same
    exact .opened phase entry stage kind put
  · rename_i stage kind
    split at h
    · rename_i mine
      obtain ⟨made,put,same⟩ := Option.map_eq_some_iff.mp h
      cases same
      exact .closed phase entry stage kind mine put
    · rename_i other
      cases Option.some.inj h
      exact .lost phase entry stage other
  · contradiction

theorem actMoves (h : c.act host call disk act = some (c',disk')) : Moves host call c disk c' disk' := by
  unfold Call.act at h
  split at h
  · obtain ⟨c,looked,same⟩ := Option.map_eq_some_iff.mp h
    cases same
    exact lookMoves looked
  · split at h <;> try contradiction
    cases Option.some.inj h
    exact .quiet .fetched (by simp) (by simp)
  · split at h <;> try contradiction
    rename_i phase
    obtain ⟨made,dirs,same⟩ := Option.map_eq_some_iff.mp h
    cases same
    exact .made phase dirs
  · split at h <;> try contradiction
    rename_i phase
    obtain ⟨e,entry,advanced⟩ := Option.bind_eq_some_iff.mp h
    exact advanceMoves phase entry advanced
  · split at h <;> try contradiction
    cases Option.some.inj h
    exact .quiet (.returned _) (by simp) (by simp)

theorem lookAnswer (h : c.look host disk = some c') :
    c'.answer disk = [] ∨ c'.answer disk = [⟨c.crate,disk⟩] ∧ disk.isDir c.crate.targetDir = true := by
  unfold Call.look at h
  cases there : disk.isDir c.crate.targetDir with
  | true =>
    right
    simp only [there,if_true] at h
    split at h
    · cases Option.some.inj h; exact ⟨rfl,rfl⟩
    · cases Option.some.inj h; exact ⟨rfl,rfl⟩
    · split at h <;> try contradiction
      cases Option.some.inj h
      exact ⟨rfl,rfl⟩
    · contradiction
  | false =>
    left
    simp only [there,Bool.false_eq_true,if_false] at h
    split at h
    · cases Option.some.inj h; rfl
    · cases Option.some.inj h; rfl
    · split at h <;> try contradiction
      cases Option.some.inj h
      rfl
    · contradiction

theorem advancePhase (h : c.advance call disk e = some (c',disk')) : c'.phase = c.phase := by
  unfold Call.advance at h
  split at h
  · obtain ⟨_,_,same⟩ := Option.map_eq_some_iff.mp h
    cases same; rfl
  · obtain ⟨_,_,same⟩ := Option.map_eq_some_iff.mp h
    cases same; rfl
  · obtain ⟨_,_,same⟩ := Option.map_eq_some_iff.mp h
    cases same; rfl
  · split at h
    · obtain ⟨_,_,same⟩ := Option.map_eq_some_iff.mp h
      cases same; rfl
    · cases Option.some.inj h; rfl
  · contradiction

theorem actAnswer (h : c.act host call disk act = some (c',disk')) :
    c'.answer disk' = [] ∨
    act = .look ∧ c'.answer disk' = [⟨c.crate,disk⟩] ∧ disk.isDir c.crate.targetDir = true := by
  unfold Call.act at h
  split at h
  · obtain ⟨c'',looked,same⟩ := Option.map_eq_some_iff.mp h
    cases same
    exact (lookAnswer looked).imp id fun found => ⟨rfl,found⟩
  · split at h <;> try contradiction
    cases Option.some.inj h
    exact Or.inl rfl
  · split at h <;> try contradiction
    obtain ⟨made,dirs,same⟩ := Option.map_eq_some_iff.mp h
    cases same
    exact Or.inl rfl
  · split at h <;> try contradiction
    rename_i phase
    obtain ⟨e,entry,advanced⟩ := Option.bind_eq_some_iff.mp h
    simp only [Call.answer,advancePhase advanced,phase,true_or]
  · split at h <;> try contradiction
    cases Option.some.inj h
    exact Or.inl rfl

theorem movesCrate (h : Moves host call c disk c' disk') : c'.crate = c.crate := by
  cases h <;> rfl

theorem movesKept (h : Moves host call c disk c' disk') : Kept disk disk' := by
  cases h with
  | quiet | lost => exact Kept.refl disk
  | made _ dirs | placed _ _ _ dirs => exact makeDirsKept dirs
  | directory _ _ _ _ put | opened _ _ _ _ put | closed _ _ _ _ _ put => exact putKept put

theorem movesTouched (h : Moves host call c disk c' disk') : c.touchedCount ≤ c'.touchedCount := by
  cases h with
  | quiet | made => exact le_rfl
  | placed _ _ stage | directory _ _ stage | opened _ _ stage | closed _ _ stage | lost _ _ stage =>
    simp [Call.touchedCount,stage]

theorem touchesMono (same : d.crate = c.crate) (more : c.touchedCount ≤ d.touchedCount) {dir : Text}
    (h : Touches host c dir) : Touches host d dir := by
  obtain ⟨e,mem,top⟩ := h
  rw [Touches,same]
  exact ⟨e,List.take_subset_take_left _ more mem,top⟩

theorem touchesEntry (same : d.crate = c.crate) (entry : (host.plan c.crate)[c.count]? = some e)
    (more : c.count < d.touchedCount) : Touches host d e.top := by
  obtain ⟨bound,rfl⟩ := List.getElem?_eq_some_iff.mp entry
  rw [Touches,same]
  exact ⟨_,List.mem_take_iff_getElem.mpr ⟨c.count,by omega,rfl⟩,rfl⟩

theorem outsidePath {dir : Text} (apart : e.top ≠ dir) (q : List Text) : dir::q ≠ e.path :=
  fun same => apart (List.cons.inj same).1.symm

theorem outsideParents {dir : Text} (apart : e.top ≠ dir) (q : List Text) : ¬dir::q <+: e.path.dropLast := by
  intro inside
  have inPath := inside.trans (List.dropLast_prefix _)
  exact apart (List.cons_prefix_cons.mp inPath).1.symm

/-- A step leaves alone what is not in a directory that its call touches. -/
theorem movesElsewhere (h : Moves host call c disk c' disk') {dir : Text} (apart : ¬Touches host c' dir) (q : List Text) :
    disk'.node (dir::q) = disk.node (dir::q) := by
  have outside {e : Entry} (entry : (host.plan c.crate)[c.count]? = some e) (more : c.count < c'.touchedCount) :
      e.top ≠ dir := fun top => apart (top ▸ touchesEntry (movesCrate h) entry more)
  cases h with
  | quiet | lost => rfl
  | made _ dirs => exact makeDirsElsewhere dirs (by simp)
  | placed _ entry stage dirs =>
    exact makeDirsElsewhere dirs (outsideParents (outside entry (by simp [Call.touchedCount])) q)
  | directory _ entry _ _ put | closed _ entry _ _ _ put =>
    exact putElsewhere put (outsidePath (outside entry (by simp [Call.touchedCount])) q)
  | opened _ entry _ _ put =>
    exact putElsewhere put (outsidePath (outside entry (by simp [Call.touchedCount])) q)

/-! What holds in every run, disturbed or not. -/

/-- The entries that a call has not opened. -/
def Call.pending (host : Host) (c : Call) : List Entry := (host.plan c.crate).drop c.openedCount

structure Inv (host : Host) (s : State) : Prop where
  staged : ∀ c ∈ s.calls, c.stage ≠ .next → c.count < (host.plan c.crate).length
  kinds : ∀ c ∈ s.calls, ∀ e ∈ (host.plan c.crate).take c.openedCount,
    ∃ m, s.disk.node e.path = some m ∧ m.isDirectory = e.node.isDirectory
  writer : ∀ p call, s.disk.node p = some (.file (.writing call)) →
    ∃ c e, s.calls[call]? = some c ∧ c.stage = .opened ∧ (host.plan c.crate)[c.count]? = some e ∧ e.path = p
  whole : ∀ crate : CrateRef, Own host s crate → Touched host s crate.dirName →
    ∀ x q contents, s.disk.node (crate.dirName::x::q) = some (.file (.whole contents)) →
      leaves (host.plan crate) (crate.dirName::x::q) = some (.file (.whole contents)) ∨
      ∃ c ∈ s.calls, c.crate = crate ∧ Touches host c crate.dirName ∧
        ∃ e ∈ c.pending host, e.path = crate.dirName::x::q
  fresh : ∀ c ∈ s.calls, c.phase = .checked ∨ c.phase = .unpacking → ¬Touched host s c.crate.dirName →
    s.disk.isDir c.crate.targetDir = false
  untouched : ∀ crate : CrateRef, ¬Touched host s crate.dirName → s.disk.isDir crate.targetDir = true →
    Complete host s.disk crate

theorem startInv (first : Begins host s) : Inv host s where
  staged c mem := by simp [first.noCalls] at mem
  kinds c mem := by simp [first.noCalls] at mem
  writer p call here := absurd here (first.closed p call)
  whole crate _ touched := by
    obtain ⟨c,mem,_⟩ := touched
    simp [first.noCalls] at mem
  fresh c mem := by simp [first.noCalls] at mem
  untouched crate _ there := first.complete crate there

theorem touchesNew {phase : Phase} {dir : Text} : ¬Touches host ⟨crate,phase,0,.next⟩ dir := by
  rintro ⟨e,mem,_⟩
  simp [Call.touchedCount] at mem

theorem beginTouched {phase : Phase} {dir : Text} : Touched host (s.begin crate phase) dir ↔ Touched host s dir := by
  simp only [Touched,State.begin,List.mem_append,List.mem_singleton]
  constructor
  · rintro ⟨c,mem | rfl,touches⟩
    · exact ⟨c,mem,touches⟩
    · exact absurd touches touchesNew
  · rintro ⟨c,mem,touches⟩
    exact ⟨c,Or.inl mem,touches⟩

theorem beginInv {phase : Phase} (early : phase = .begun ∨ phase = .fetched) (inv : Inv host s) :
    Inv host (s.begin crate phase) where
  staged c mem := by
    rcases List.mem_append.mp mem with old | new
    · exact inv.staged c old
    · cases List.mem_singleton.mp new
      exact fun other => absurd rfl other
  kinds c mem := by
    rcases List.mem_append.mp mem with old | new
    · exact inv.kinds c old
    · cases List.mem_singleton.mp new
      intro e mem
      simp [Call.openedCount] at mem
  writer p call here := by
    obtain ⟨c,e,at_,rest⟩ := inv.writer p call here
    exact ⟨c,e,by rw [State.begin,List.getElem?_append_left (List.getElem?_eq_some_iff.mp at_).1,at_],rest⟩
  whole crate own touched x q contents here := by
    have ownBefore : Own host s crate := fun c mem => own c (List.mem_append_left _ mem)
    rcases inv.whole crate ownBefore (beginTouched.mp touched) x q contents here with done | ⟨c,mem,rest⟩
    · exact Or.inl done
    · exact Or.inr ⟨c,List.mem_append_left _ mem,rest⟩
  fresh c mem late untouched := by
    rcases List.mem_append.mp mem with old | new
    · exact inv.fresh c old late (mt beginTouched.mpr untouched)
    · cases List.mem_singleton.mp new
      rcases early with rfl | rfl <;> simp at late
  untouched crate untouched := inv.untouched crate (mt beginTouched.mpr untouched)

/-! One call moves. -/

theorem movedCall (mem : d ∈ (s.moved call c' disk').calls) : d = c' ∨ d ∈ s.calls :=
  (List.mem_or_eq_of_mem_set mem).symm

theorem movedHere (at_ : s.calls[call]? = some c) : c' ∈ (s.moved call c' disk').calls :=
  List.mem_set (List.getElem?_eq_some_iff.mp at_).1 c'

theorem movedOther {j : Nat} (there : s.calls[j]? = some d) (other : j ≠ call) :
    (s.moved call c' disk').calls[j]? = some d := by
  rw [State.moved,List.getElem?_set_ne other.symm,there]

/-- A call of before is there as it was, or is the one that moved. -/
theorem movedStays (at_ : s.calls[call]? = some c) (mem : d ∈ s.calls) : d ∈ (s.moved call c' disk').calls ∨ d = c := by
  obtain ⟨j,there⟩ := List.mem_iff_getElem?.mp mem
  by_cases same : j = call
  · subst same
    exact Or.inr (Option.some.inj (there.symm.trans at_))
  · exact Or.inl (List.mem_iff_getElem?.mpr ⟨j,movedOther there same⟩)

theorem stagedMoves (h : Moves host call c disk c' disk')
    (staged : c.stage ≠ .next → c.count < (host.plan c.crate).length) :
    c'.stage ≠ .next → c'.count < (host.plan c'.crate).length := by
  cases h with
  | quiet | made => exact staged
  | placed _ entry | opened _ entry => exact fun _ => (List.getElem?_eq_some_iff.mp entry).1
  | directory | closed | lost => exact fun other => absurd rfl other

theorem takeEntry {n : Nat} {plan : List Entry} (entry : plan[n]? = some e) {f : Entry}
    (mem : f ∈ plan.take (n + 1)) : f ∈ plan.take n ∨ f = e := by
  rw [List.take_add_one,entry] at mem
  simpa using mem

theorem opensMoves (h : Moves host call c disk c' disk') {f : Entry}
    (mem : f ∈ (host.plan c'.crate).take c'.openedCount) :
    f ∈ (host.plan c.crate).take c.openedCount ∨
    ∃ m, disk'.node f.path = some m ∧ m.isDirectory = f.node.isDirectory := by
  cases h with
  | quiet | made => exact Or.inl mem
  | placed _ _ stage => exact Or.inl (by simpa [Call.openedCount,stage] using mem)
  | directory _ entry stage kind put =>
    rcases takeEntry entry (by simpa [Call.openedCount] using mem) with old | rfl
    · exact Or.inl (by simpa [Call.openedCount,stage] using old)
    · exact Or.inr ⟨_,putHere put,by simp [Entry.node,kind]⟩
  | opened _ entry stage kind put =>
    rcases takeEntry entry (by simpa [Call.openedCount] using mem) with old | rfl
    · exact Or.inl (by simpa [Call.openedCount,stage] using old)
    · exact Or.inr ⟨_,putHere put,by simp [Entry.node,kind,Node.isDirectory]⟩
  | closed _ _ stage | lost _ _ stage => exact Or.inl (by simpa [Call.openedCount,stage] using mem)

/-- The file that a call is writing is that of the entry it has opened, before the step and after. -/
theorem writerMoves (h : Moves host call c disk c' disk') {p : List Text} {j : Nat}
    (here : disk'.node p = some (.file (.writing j))) :
    (disk.node p = some (.file (.writing j)) ∧
      (j = call → c.stage = .opened → (∃ e, (host.plan c.crate)[c.count]? = some e ∧ e.path = p) →
        c'.stage = .opened ∧ c'.count = c.count)) ∨
    j = call ∧ c'.stage = .opened ∧ ∃ e, (host.plan c'.crate)[c'.count]? = some e ∧ e.path = p := by
  cases h with
  | quiet => exact Or.inl ⟨here,fun _ stage _ => ⟨stage,rfl⟩⟩
  | made _ dirs => exact Or.inl ⟨(makeDirsFile dirs _).mp here,fun _ stage _ => ⟨stage,rfl⟩⟩
  | placed _ _ stage dirs =>
    exact Or.inl ⟨(makeDirsFile dirs _).mp here,fun _ other => absurd (stage.symm.trans other) (by decide)⟩
  | directory _ _ stage _ put =>
    rcases putCases put here with ⟨_,same⟩ | ⟨_,before⟩
    · contradiction
    · exact Or.inl ⟨before,fun _ other => absurd (stage.symm.trans other) (by decide)⟩
  | opened _ entry stage _ put =>
    rcases putCases put here with ⟨rfl,same⟩ | ⟨_,before⟩
    · cases same
      exact Or.inr ⟨rfl,rfl,_,entry,rfl⟩
    · exact Or.inl ⟨before,fun _ other => absurd (stage.symm.trans other) (by decide)⟩
  | closed _ entry _ _ _ put =>
    rcases putCases put here with ⟨_,same⟩ | ⟨elsewhere,before⟩
    · cases same
    · refine Or.inl ⟨before,fun _ _ held => ?_⟩
      obtain ⟨f,there,rfl⟩ := held
      cases Option.some.inj (entry.symm.trans there)
      exact absurd rfl elsewhere
  | lost _ entry _ other =>
    refine Or.inl ⟨here,?_⟩
    rintro rfl _ ⟨f,there,rfl⟩
    cases Option.some.inj (entry.symm.trans there)
    exact absurd here other

theorem leavesOr {n : Nat} {plan : List Entry} (entry : plan[n]? = some e) :
    leaves plan e.path = some e.node ∨ ∃ f ∈ plan.drop (n + 1), f.path = e.path := by
  obtain ⟨bound,rfl⟩ := List.getElem?_eq_some_iff.mp entry
  cases later : (plan.drop (n + 1)).filter fun f => f.path = plan[n].path with
  | nil =>
    left
    have split : plan.take n ++ plan[n] :: plan.drop (n + 1) = plan := by
      rw [List.getElem_cons_drop,List.take_append_drop]
    have kept (p : List Text) (here : plan[n].path = p) (later : (plan.drop (n + 1)).filter (fun f => f.path = p) = []) :
        plan.filter (fun f => f.path = p) = (plan.take n).filter (fun f => f.path = p) ++ [plan[n]] := by
      rw [← congrArg (List.filter _) split,List.filter_append,List.filter_cons_of_pos (by simp [here]),later]
    rw [leaves,kept _ rfl later,List.getLast?_concat,Option.map_some]
  | cons f rest =>
    right
    have mem : f ∈ (plan.drop (n + 1)).filter fun f => f.path = plan[n].path := by simp [later]
    obtain ⟨mem,path⟩ := List.mem_filter.mp mem
    exact ⟨f,mem,of_decide_eq_true path⟩

theorem dropEntry {n : Nat} {plan : List Entry} (entry : plan[n]? = some e) {f : Entry} (mem : f ∈ plan.drop n) :
    f = e ∨ f ∈ plan.drop (n + 1) := by
  obtain ⟨bound,rfl⟩ := List.getElem?_eq_some_iff.mp entry
  rw [List.drop_eq_getElem_cons bound] at mem
  exact List.mem_cons.mp mem

/-- A whole file was so before, with no entry for it opened since, or is the one closed. -/
theorem wholeMoves (h : Moves host call c disk c' disk') {dir : Text} {q : List Text} {contents : Text}
    (here : disk'.node (dir::q) = some (.file (.whole contents))) :
    (disk.node (dir::q) = some (.file (.whole contents)) ∧
      ∀ f ∈ c.pending host, f.path = dir::q → f ∈ c'.pending host) ∨
    Touches host c' dir ∧
      (leaves (host.plan c'.crate) (dir::q) = some (.file (.whole contents)) ∨
        ∃ f ∈ c'.pending host, f.path = dir::q) := by
  cases h with
  | quiet => exact Or.inl ⟨here,fun _ mem _ => mem⟩
  | made _ dirs => exact Or.inl ⟨(makeDirsFile dirs _).mp here,fun _ mem _ => mem⟩
  | placed _ _ stage dirs =>
    exact Or.inl ⟨(makeDirsFile dirs _).mp here,fun f mem _ => by
      simpa [Call.pending,Call.openedCount,stage] using mem⟩
  | directory _ entry stage _ put =>
    rcases putCases put here with ⟨_,same⟩ | ⟨elsewhere,before⟩
    · contradiction
    · refine Or.inl ⟨before,fun f mem path => ?_⟩
      rcases dropEntry entry (by simpa [Call.pending,Call.openedCount,stage] using mem) with rfl | later
      · exact absurd path.symm elsewhere
      · simpa [Call.pending,Call.openedCount] using later
  | opened _ entry stage _ put =>
    rcases putCases put here with ⟨_,same⟩ | ⟨elsewhere,before⟩
    · cases same
    · refine Or.inl ⟨before,fun f mem path => ?_⟩
      rcases dropEntry entry (by simpa [Call.pending,Call.openedCount,stage] using mem) with rfl | later
      · exact absurd path.symm elsewhere
      · simpa [Call.pending,Call.openedCount] using later
  | closed _ entry stage kind _ put =>
    rcases putCases put here with ⟨path,same⟩ | ⟨_,before⟩
    · right
      have top := (List.cons.inj path).1
      subst top
      refine ⟨touchesEntry (by rfl) entry (by simp [Call.touchedCount]),?_⟩
      rw [path,same]
      refine (leavesOr entry).imp (fun last => last.trans (by simp [Entry.node,kind])) fun later => ?_
      simpa [Call.pending,Call.openedCount] using later
    · exact Or.inl ⟨before,fun f mem _ => by simpa [Call.pending,Call.openedCount,stage] using mem⟩
  | lost _ _ stage =>
    exact Or.inl ⟨here,fun f mem _ => by simpa [Call.pending,Call.openedCount,stage] using mem⟩

/-- What a call first leaves of an entry is the directories above it. -/
theorem touchesMoves (h : Moves host call c disk c' disk') {dir : Text} (touches : Touches host c' dir) :
    Touches host c dir ∨ c.phase = .unpacking ∧ ∃ p, disk.makeDirs p = some disk' := by
  cases h with
  | quiet | made => exact Or.inl touches
  | placed phase _ _ dirs => exact Or.inr ⟨phase,_,dirs⟩
  | directory _ _ stage | opened _ _ stage | closed _ _ stage | lost _ _ stage =>
    exact Or.inl (touchesMono (by rfl) (by simp [Call.touchedCount,stage]) touches)

section
variable (at_ : s.calls[call]? = some c) (h : Moves host call c s.disk c' disk')
include at_ h

theorem movedTouched {dir : Text} (touched : Touched host s dir) : Touched host (s.moved call c' disk') dir := by
  obtain ⟨d,mem,touches⟩ := touched
  rcases movedStays at_ mem with there | rfl
  · exact ⟨d,there,touches⟩
  · exact ⟨c',movedHere at_,touchesMono (movesCrate h) (movesTouched h) touches⟩

theorem movedOwn (own : Own host (s.moved call c' disk') crate) : Own host s crate := by
  intro d mem touches
  rcases movedStays at_ mem with there | rfl
  · exact own d there touches
  · exact (movesCrate h).symm.trans (own c' (movedHere at_) (touchesMono (movesCrate h) (movesTouched h) touches))

theorem movedUntouched {dir : Text} (untouched : ¬Touched host (s.moved call c' disk') dir) (q : List Text) :
    disk'.node (dir::q) = s.disk.node (dir::q) :=
  movesElsewhere h (fun touches => untouched ⟨c',movedHere at_,touches⟩) q

theorem movedWriter (inv : Inv host s) (p : List Text) (j : Nat) (here : disk'.node p = some (.file (.writing j))) :
    ∃ d e, (s.moved call c' disk').calls[j]? = some d ∧ d.stage = .opened ∧
      (host.plan d.crate)[d.count]? = some e ∧ e.path = p := by
  have atCall : (s.moved call c' disk').calls[call]? = some c' := by
    rw [State.moved,List.getElem?_set_self (List.getElem?_eq_some_iff.mp at_).1]
  rcases writerMoves h here with ⟨before,held⟩ | ⟨rfl,stage,e,entry,path⟩
  · obtain ⟨d,e,there,stage,entry,path⟩ := inv.writer p j before
    by_cases same : j = call
    · subst same
      cases Option.some.inj (there.symm.trans at_)
      obtain ⟨stage',count⟩ := held rfl stage ⟨e,entry,path⟩
      exact ⟨c',e,atCall,stage',by rw [movesCrate h,count,entry],path⟩
    · exact ⟨d,e,movedOther there same,stage,entry,path⟩
  · exact ⟨c',e,atCall,stage,entry,path⟩

theorem movedKinds (inv : Inv host s) (mem : d ∈ (s.moved call c' disk').calls)
    (f : Entry) (taken : f ∈ (host.plan d.crate).take d.openedCount) :
    ∃ m, disk'.node f.path = some m ∧ m.isDirectory = f.node.isDirectory := by
  have kept {b : Call} (mem : b ∈ s.calls) (taken : f ∈ (host.plan b.crate).take b.openedCount) :
      ∃ m, disk'.node f.path = some m ∧ m.isDirectory = f.node.isDirectory := by
    obtain ⟨m,here,kind⟩ := inv.kinds b mem f taken
    obtain ⟨m',there,same⟩ := movesKept h _ m here
    exact ⟨m',there,same.trans kind⟩
  rcases movedCall mem with rfl | old
  · rcases opensMoves h taken with before | opened
    · exact kept (List.mem_of_getElem? at_) before
    · exact opened
  · exact kept old taken

theorem movedFresh (inv : Inv host s) (mem : d ∈ (s.moved call c' disk').calls)
    (late : d.phase = .checked ∨ d.phase = .unpacking)
    (untouched : ¬Touched host (s.moved call c' disk') d.crate.dirName) : disk'.isDir d.crate.targetDir = false := by
  have before : ¬Touched host s d.crate.dirName := mt (movedTouched at_ h) untouched
  rw [Tree.isDir,CrateRef.targetDir,movedUntouched at_ h untouched]
  rcases movedCall mem with rfl | old
  · have crate := movesCrate h
    cases h with
    | quiet phase idle looked =>
      rcases late with checked | unpacking
      · exact looked checked
      · exact absurd unpacking idle
    | made phase => exact inv.fresh c (List.mem_of_getElem? at_) (Or.inl phase) before
    | placed phase | directory phase | opened phase | closed phase | lost phase =>
      exact inv.fresh c (List.mem_of_getElem? at_) (Or.inr phase) before
  · exact inv.fresh d old late before

theorem movedUntouchedComplete (inv : Inv host s) (untouched : ¬Touched host (s.moved call c' disk') crate.dirName)
    (there : disk'.isDir crate.targetDir = true) : Complete host disk' crate := by
  have frame := movedUntouched at_ h untouched
  rw [Tree.isDir,CrateRef.targetDir,frame] at there
  intro e mem top inside
  have before := inv.untouched crate (mt (movedTouched at_ h) untouched) there e mem top inside
  rw [Entry.path,top] at before ⊢
  rw [frame,before]

theorem movedWhole (inv : Inv host s) (own : Own host (s.moved call c' disk') crate)
    (touched : Touched host (s.moved call c' disk') crate.dirName) {x : Text} {q : List Text} {contents : Text}
    (here : disk'.node (crate.dirName::x::q) = some (.file (.whole contents))) :
    leaves (host.plan crate) (crate.dirName::x::q) = some (.file (.whole contents)) ∨
    ∃ d ∈ (s.moved call c' disk').calls, d.crate = crate ∧ Touches host d crate.dirName ∧
      ∃ e ∈ d.pending host, e.path = crate.dirName::x::q := by
  by_cases before : Touched host s crate.dirName
  · rcases wholeMoves h here with ⟨unchanged,kept⟩ | ⟨touches,closed⟩
    · refine (inv.whole crate (movedOwn at_ h own) before x q contents unchanged).imp_right ?_
      rintro ⟨d,mem,same,touches,e,pending,path⟩
      rcases movedStays at_ mem with there | rfl
      · exact ⟨d,there,same,touches,e,pending,path⟩
      · exact ⟨c',movedHere at_,(movesCrate h).trans same,
          touchesMono (movesCrate h) (movesTouched h) touches,e,kept e pending path,path⟩
    · have same := own c' (movedHere at_) touches
      rw [same] at closed
      exact closed.imp_right fun ⟨e,pending,path⟩ => ⟨c',movedHere at_,same,touches,e,pending,path⟩
  · -- the first to make the directory has found none, so no file can stand in it yet
    exfalso
    obtain ⟨d,mem,touches⟩ := touched
    rcases movedCall mem with rfl | old
    · have same := (movesCrate h).symm.trans (own d mem touches)
      rcases touchesMoves h touches with already | ⟨phase,p,dirs⟩
      · exact before ⟨c,List.mem_of_getElem? at_,already⟩
      · have absent := inv.fresh c (List.mem_of_getElem? at_) (Or.inr phase) (by rwa [same])
        rw [same] at absent
        have nothing : s.disk.node (crate.dirName::x::q) = none := nothingBelow (of_decide_eq_false absent) x q
        rw [(makeDirsFile dirs _).mp here] at nothing
        contradiction
    · exact before ⟨d,old,touches⟩

theorem movedInv (inv : Inv host s) : Inv host (s.moved call c' disk') where
  staged d mem := by
    rcases movedCall mem with rfl | old
    · exact stagedMoves h (inv.staged c (List.mem_of_getElem? at_))
    · exact inv.staged d old
  kinds _ mem := movedKinds at_ h inv mem
  writer := movedWriter at_ h inv
  whole _ own touched _ _ _ := movedWhole at_ h inv own touched
  fresh _ mem := movedFresh at_ h inv mem
  untouched _ := movedUntouchedComplete at_ h inv

end

theorem stepInv {event : Event} (h : s.step host event = some s') (inv : Inv host s) : Inv host s' := by
  cases event with
  | downloadAndExtractCrateSource crate =>
    cases Option.some.inj h
    exact beginInv (Or.inl rfl) inv
  | extractCrateTarball crate =>
    cases Option.some.inj h
    exact beginInv (Or.inr rfl) inv
  | act call act =>
    obtain ⟨c,at_,acted⟩ := Option.bind_eq_some_iff.mp h
    obtain ⟨⟨c',disk'⟩,moves,same⟩ := Option.bind_eq_some_iff.mp acted
    cases Option.some.inj same
    exact movedInv at_ (actMoves moves) inv

/-! What an undisturbed look finds. -/

theorem leavesSome {plan : List Entry} (mem : e ∈ plan) : ∃ last, leaves plan e.path = some last := by
  cases last : (plan.filter fun f => f.path = e.path).getLast? with
  | none =>
    have empty := List.getLast?_eq_none_iff.mp last
    exact absurd (List.mem_filter.mpr ⟨mem,by simp⟩) (empty ▸ List.not_mem_nil)
  | some f => exact ⟨f.node,by rw [leaves,last,Option.map_some]⟩

theorem leavesSource {plan : List Entry} {p : List Text} {last : Node Stored} (h : leaves plan p = some last) :
    ∃ f ∈ plan, f.path = p ∧ f.node = last := by
  obtain ⟨f,at_,node⟩ := Option.map_eq_some_iff.mp h
  obtain ⟨mem,path⟩ := List.mem_filter.mp (List.mem_of_getLast? at_)
  exact ⟨f,mem,of_decide_eq_true path,node⟩

theorem foundComplete (inv : Inv host s) (there : s.disk.isDir crate.targetDir = true)
    (ended : ∀ d ∈ s.calls, Touches host d crate.dirName → d.crate = crate ∧ d.count = (host.plan crate).length) :
    Complete host s.disk crate := by
  by_cases touched : Touched host s crate.dirName
  · intro e mem top inside
    obtain ⟨d,calls,touches⟩ := touched
    obtain ⟨rfl,all⟩ := ended d calls touches
    -- a call that has unpacked all of the archive has opened every entry
    have next : d.stage = .next := by
      by_contra other
      exact absurd all (Nat.ne_of_lt (inv.staged d calls other))
    have everything : (host.plan d.crate).take d.openedCount = host.plan d.crate := by
      rw [Call.openedCount,next,if_neg (by decide),all,List.take_length]
    have taken : e ∈ host.plan d.crate := (host.takes _ e).mpr ⟨mem,inside⟩
    obtain ⟨last,found⟩ := leavesSome taken
    obtain ⟨f,planned,path,rfl⟩ := leavesSource found
    obtain ⟨m,here,kind⟩ := inv.kinds d calls f (by rwa [everything])
    rw [path] at here
    rw [here,found]
    cases m with
    | directory => rw [directoryOf kind.symm]
    | file stored =>
      cases stored with
      | writing call =>
        obtain ⟨c,g,at_,stage,entry,same⟩ := inv.writer _ call here
        have top' : g.top = d.crate.dirName := (List.cons.inj same).1.trans top
        have touching := touchesEntry (d := c) rfl entry (by simp [Call.touchedCount,stage])
        rw [top'] at touching
        obtain ⟨crate,count⟩ := ended c (List.mem_of_getElem? at_) touching
        have bound := (List.getElem?_eq_some_iff.mp entry).1
        rw [crate] at bound
        omega
      | whole contents =>
        obtain ⟨_,below,contents'⟩ := e
        subst top
        cases below with
        | nil =>
          cases (of_decide_eq_true there).symm.trans here
        | cons x q =>
          have own : Own host s d.crate := fun c mem touches => (ended c mem touches).1
          rcases inv.whole d.crate own ⟨d,calls,touches⟩ x q contents here with last | ⟨c,mem,_,touches,g,pending,_⟩
          · exact last.symm.trans found
          · obtain ⟨crate,count⟩ := ended c mem touches
            have bound := List.length_pos_of_mem pending
            rw [Call.pending,List.length_drop,crate,← count,Call.openedCount] at bound
            split at bound <;> omega
  · exact inv.untouched crate touched there

theorem answersComplete (host : Host) {s : State} (run : Reach (system host) (Undisturbed host) s) :
    ∀ answer ∈ s.answers, Complete host answer.disk answer.crate := by
  suffices all : Inv host s ∧ ∀ answer ∈ s.answers, Complete host answer.disk answer.crate from all.2
  refine run.invariant (I := fun s => Inv host s ∧ ∀ answer ∈ s.answers, Complete host answer.disk answer.crate) ?_ ?_
  · intro s first
    exact ⟨startInv first,by simp [first.noAnswers]⟩
  · rintro s event s' ⟨inv,answered⟩ meets moves
    refine ⟨stepInv moves inv,?_⟩
    cases event with
    | downloadAndExtractCrateSource | extractCrateTarball => cases Option.some.inj moves; exact answered
    | act call act =>
      obtain ⟨c,at_,acted⟩ := Option.bind_eq_some_iff.mp moves
      obtain ⟨⟨c',disk'⟩,acts,same⟩ := Option.bind_eq_some_iff.mp acted
      cases Option.some.inj same
      intro answer mem
      rcases List.mem_append.mp mem with old | new
      · exact answered answer old
      · rcases actAnswer acts with none | ⟨rfl,found,there⟩
        · rw [none] at new
          contradiction
        · rw [found] at new
          cases List.mem_singleton.mp new
          exact foundComplete inv there (meets c at_)

/-! An archive of two files. -/

instance (disk : Disk) (crate : CrateRef) : Decidable (Complete host disk crate) := by
  unfold Complete
  infer_instance

def demo : CrateRef := ⟨"demo".toList,"1.0.0".toList⟩

def demoHost : Host where
  cacheDir := "/cache".toList
  archive crate :=
    [⟨crate.dirName,["Cargo.toml".toList],some "[package]".toList⟩,⟨crate.dirName,["src".toList,"lib.rs".toList],some []⟩]
  order entries := entries.filter fun e => dotDot ∉ e.path
  takes entries e := by simp

def nothing : State := ⟨Tree.empty,[],[]⟩

theorem nothingBegins : Begins demoHost nothing where
  noCalls := rfl
  noAnswers := rfl
  closed _ _ := by simp [nothing,Tree.empty]
  complete _ there := by simp [nothing,Tree.empty,Tree.isDir] at there

/-- One call extracts the archive, and another finds it extracted. -/
def extracted : List Event :=
  [.downloadAndExtractCrateSource demo,.act 0 .look,.act 0 .receive,.act 0 .look,.act 0 .make] ++
  List.replicate 6 (.act 0 .write) ++ [.act 0 .look,.downloadAndExtractCrateSource demo,.act 1 .look]

theorem extractedRuns : (exec (system demoHost) (Undisturbed demoHost) nothing extracted).isSome = true := by decide

theorem answersCompleteExtracted :
    ((exec (system demoHost) (Undisturbed demoHost) nothing extracted).get extractedRuns).answers.length = 2 ∧
    ∀ answer ∈ ((exec (system demoHost) (Undisturbed demoHost) nothing extracted).get extractedRuns).answers,
      Complete demoHost answer.disk answer.crate :=
  ⟨by decide,answersComplete demoHost (execReach _ _ _ nothingBegins extractedRuns)⟩

/-- The disk is full after the first file, and the next call takes what is there. -/
def interrupted : List Event :=
  [.extractCrateTarball demo,.act 0 .look,.act 0 .make] ++ List.replicate 3 (.act 0 .write) ++
  [.act 0 (.fail (.unpack "No space left on device".toList)),.downloadAndExtractCrateSource demo,.act 1 .look]

theorem interruptedRuns : (exec (system demoHost) always nothing interrupted).isSome = true := by decide

theorem interruptedAnswers :
    ∃ answer ∈ ((exec (system demoHost) always nothing interrupted).get interruptedRuns).answers,
      ¬Complete demoHost answer.disk answer.crate := by decide

theorem partialTakenAsExtracted :
    ¬∀ (host : Host) (s : State), Reach (system host) always s →
      ∀ answer ∈ s.answers, Complete host answer.disk answer.crate := by
  intro all
  obtain ⟨answer,mem,missing⟩ := interruptedAnswers
  exact missing (all demoHost _ (execReach _ _ _ nothingBegins interruptedRuns) answer mem)

end RustMcp.Extraction
