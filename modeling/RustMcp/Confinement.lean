import RustMcp.Extraction

/-! What one extraction changes outside of the directory of its version. -/
namespace RustMcp.Confinement
open Str (Text)
open FileTree Extraction

def run (host : Host) (call : Nat) (acts : List Act) (start : Call × Disk) : Option (Call × Disk) :=
  acts.foldlM (fun now act => now.1.act host call now.2 act) start

/-- A call of `extract_crate_tarball`. -/
def extraction (crate : CrateRef) : Call := ⟨crate,.fetched,0,.next⟩

/-- Nothing but what is at or under the directory of the version is made or written, wherever the call has got to. -/
def Confined (host : Host) (crate : CrateRef) (call : Nat) (disk : Disk) : Prop :=
  ∀ acts c disk', run host call acts (extraction crate,disk) = some (c,disk') →
    ∀ p, ¬crate.targetDir <+: p → disk'.node p = disk.node p

/-- The entries one after the other, as far as they fit in. -/
def placeAll (disk : Disk) (entries : List Entry) : Option Disk := entries.foldlM (fun disk e => disk.place e.path e.node) disk

/-- Of the entries that are got to, one that is not in the directory of the version is a directory that is there. -/
def KeepsInside (host : Host) (crate : CrateRef) (disk : Disk) : Prop :=
  ∀ done e rest, host.plan crate = done ++ e::rest → (placeAll disk (done ++ [e])).isSome = true →
    e.top = crate.dirName ∨ (e.contents = none ∧ disk.node e.path = some .directory)

/-- Where a lone call may be, and what the disk then holds. -/
inductive At (host : Host) (crate : CrateRef) (call : Nat) (disk : Disk) : Call → Disk → Prop where
  | begun : At host crate call disk ⟨crate,.fetched,0,.next⟩ disk
  | checked (absent : disk.isDir crate.targetDir = false) : At host crate call disk ⟨crate,.checked,0,.next⟩ disk
  | between {start now : Disk} {done rest : List Entry} (absent : disk.isDir crate.targetDir = false)
      (made : disk.makeDirs [] = some start) (plan : host.plan crate = done ++ rest) (placed : placeAll start done = some now) :
      At host crate call disk ⟨crate,.unpacking,done.length,.next⟩ now
  | placed {start now dirs : Disk} {done rest : List Entry} {e : Entry} (absent : disk.isDir crate.targetDir = false)
      (made : disk.makeDirs [] = some start) (plan : host.plan crate = done ++ e::rest) (placed : placeAll start done = some now)
      (above : now.makeDirs e.path.dropLast = some dirs) :
      At host crate call disk ⟨crate,.unpacking,done.length,.placed⟩ dirs
  | opened {start now dirs file : Disk} {done rest : List Entry} {e : Entry} {contents : Text}
      (absent : disk.isDir crate.targetDir = false) (made : disk.makeDirs [] = some start)
      (plan : host.plan crate = done ++ e::rest) (placed : placeAll start done = some now)
      (above : now.makeDirs e.path.dropLast = some dirs) (kind : e.contents = some contents)
      (put : dirs.put e.path (.file (.writing call)) = some file) :
      At host crate call disk ⟨crate,.unpacking,done.length,.opened⟩ file
  | returned {c : Call} {now : Disk} (result : Except Text (List Text)) (before : At host crate call disk c now) :
      At host crate call disk (c.returns result) now

variable {host : Host} {crate : CrateRef} {call : Nat} {disk now now' : Disk} {c c' : Call} {act : Act} {e : Entry}
  {done rest : List Entry}

theorem entryAt (plan : host.plan crate = done ++ e::rest) : (host.plan crate)[done.length]? = some e := by
  rw [plan]
  simp

theorem placeAllConcat {start : Disk} : placeAll start (done ++ [e]) = (placeAll start done).bind (·.place e.path e.node) := by
  simp [placeAll,List.foldlM_append]

theorem placeAllNext {start dirs : Disk} (placed : placeAll start done = some now) (above : now.makeDirs e.path.dropLast = some dirs) :
    placeAll start (done ++ [e]) = dirs.put e.path e.node := by
  rw [placeAllConcat,placed,Option.bind_some,Tree.place,above,Option.bind_some]

theorem planNext (plan : host.plan crate = done ++ e::rest) : host.plan crate = (done ++ [e]) ++ rest := by
  rw [plan,List.append_assoc]
  rfl

theorem directoryNode (kind : e.contents = none) : e.node = .directory := by
  rw [Entry.node,kind]

theorem entryNode {contents : Text} (kind : e.contents = some contents) : e.node = .file (.whole contents) := by
  rw [Entry.node,kind]

/-- The last look waits for the last entry. -/
theorem lookMidway (plan : host.plan crate = done ++ e::rest) (stage : Stage) :
    Call.look host now ⟨crate,.unpacking,done.length,stage⟩ = none := by
  simp [Call.look,plan]

theorem failed {failure : Failure} (h : c.act host call now (.fail failure) = some (c',now')) :
    now' = now ∧ ∃ result, c' = c.returns result := by
  simp only [Call.act] at h
  split at h <;> try contradiction
  cases Option.some.inj h
  exact ⟨rfl,_,rfl⟩

theorem entryDone {start : Disk} (absent : disk.isDir crate.targetDir = false) (made : disk.makeDirs [] = some start)
    (plan : host.plan crate = done ++ e::rest) (placed : placeAll start (done ++ [e]) = some now) :
    At host crate call disk ⟨crate,.unpacking,done.length + 1,.next⟩ now := by
  have there : At host crate call disk ⟨crate,.unpacking,(done ++ [e]).length,.next⟩ now :=
    At.between absent made (planNext plan) placed
  rw [List.length_append,List.length_singleton] at there
  exact there

/-- Above the next entry, the directories are made. -/
theorem betweenWrite {start : Disk} (absent : disk.isDir crate.targetDir = false) (made : disk.makeDirs [] = some start)
    (plan : host.plan crate = done ++ rest) (placed : placeAll start done = some now)
    (h : Call.act host call now ⟨crate,.unpacking,done.length,.next⟩ .write = some (c',now')) : At host crate call disk c' now' := by
  simp only [Call.act,if_true] at h
  obtain ⟨e,entry,advanced⟩ := Option.bind_eq_some_iff.mp h
  simp only [Call.advance] at advanced
  obtain ⟨dirs,above,same⟩ := Option.map_eq_some_iff.mp advanced
  cases same
  rw [plan,List.getElem?_append_right le_rfl,Nat.sub_self] at entry
  rw [← List.head?_eq_getElem?] at entry
  obtain ⟨later,rfl⟩ := List.head?_eq_some_iff.mp entry
  exact .placed absent made plan placed above

/-- A directory is done at once; a file is opened first. -/
theorem placedWrite {start dirs : Disk} (absent : disk.isDir crate.targetDir = false) (made : disk.makeDirs [] = some start)
    (plan : host.plan crate = done ++ e::rest) (placed : placeAll start done = some now)
    (above : now.makeDirs e.path.dropLast = some dirs)
    (h : Call.act host call dirs ⟨crate,.unpacking,done.length,.placed⟩ .write = some (c',now')) : At host crate call disk c' now' := by
  simp only [Call.act,if_true,entryAt plan,Option.bind_some] at h
  cases kind : e.contents with
  | none =>
    simp only [Call.advance,kind] at h
    obtain ⟨_,put,same⟩ := Option.map_eq_some_iff.mp h
    cases same
    refine entryDone absent made plan ?_
    rw [placeAllNext placed above,directoryNode kind,put]
  | some contents =>
    simp only [Call.advance,kind] at h
    obtain ⟨file,put,same⟩ := Option.map_eq_some_iff.mp h
    cases same
    exact .opened absent made plan placed above kind put

/-- What was opened is written as a whole. -/
theorem openedWrite {start dirs file : Disk} {contents : Text} (absent : disk.isDir crate.targetDir = false)
    (made : disk.makeDirs [] = some start) (plan : host.plan crate = done ++ e::rest) (placed : placeAll start done = some now)
    (above : now.makeDirs e.path.dropLast = some dirs) (kind : e.contents = some contents)
    (put : dirs.put e.path (.file (.writing call)) = some file)
    (h : Call.act host call file ⟨crate,.unpacking,done.length,.opened⟩ .write = some (c',now')) : At host crate call disk c' now' := by
  simp only [Call.act,if_true,entryAt plan,Option.bind_some] at h
  simp only [Call.advance,kind,putHere put,if_true] at h
  obtain ⟨_,put',same⟩ := Option.map_eq_some_iff.mp h
  cases same
  have both := putAgain (m := .file (.whole contents)) put rfl
  refine entryDone absent made plan ?_
  rw [placeAllNext placed above,entryNode kind,← both,put']

theorem atStep (at_ : At host crate call disk c now) (h : c.act host call now act = some (c',now')) :
    At host crate call disk c' now' := by
  by_cases fails : ∃ failure, act = .fail failure
  · obtain ⟨failure,rfl⟩ := fails
    obtain ⟨rfl,result,rfl⟩ := failed h
    exact .returned result at_
  cases at_ with
  | begun =>
    cases act with
    | look =>
      simp only [Call.act,Call.look,Option.map_some,Option.some.injEq,Prod.mk.injEq] at h
      obtain ⟨rfl,rfl⟩ := h
      split
      · exact .returned _ .begun
      · rename_i absent
        exact .checked (Bool.not_eq_true _ ▸ absent)
    | fail failure => exact absurd ⟨failure,rfl⟩ fails
    | receive | make | write => simp [Call.act] at h
  | checked absent =>
    cases act with
    | make =>
      simp only [Call.act,if_true] at h
      obtain ⟨start,made,same⟩ := Option.map_eq_some_iff.mp h
      cases same
      have whole : host.plan crate = [] ++ host.plan crate := rfl
      exact .between absent made whole rfl
    | fail failure => exact absurd ⟨failure,rfl⟩ fails
    | look | receive | write => simp [Call.act,Call.look] at h
  | returned result before =>
    cases act with
    | fail failure => exact absurd ⟨failure,rfl⟩ fails
    | look | receive | make | write => simp [Call.act,Call.look,Call.returns] at h
  | between absent made plan placed =>
    cases act with
    | look =>
      simp only [Call.act,Call.look] at h
      split at h <;> try contradiction
      cases Option.some.inj h
      exact .returned _ (.between absent made plan placed)
    | write => exact betweenWrite absent made plan placed h
    | fail failure => exact absurd ⟨failure,rfl⟩ fails
    | receive | make => simp [Call.act] at h
  | placed absent made plan placed above =>
    cases act with
    | look =>
      rw [Call.act,lookMidway plan] at h
      contradiction
    | write => exact placedWrite absent made plan placed above h
    | fail failure => exact absurd ⟨failure,rfl⟩ fails
    | receive | make => simp [Call.act] at h
  | opened absent made plan placed above kind put =>
    cases act with
    | look =>
      rw [Call.act,lookMidway plan] at h
      contradiction
    | write => exact openedWrite absent made plan placed above kind put h
    | fail failure => exact absurd ⟨failure,rfl⟩ fails
    | receive | make => simp [Call.act] at h

theorem runAt {acts : List Act} (at_ : At host crate call disk c now) (h : run host call acts (c,now) = some (c',now')) :
    At host crate call disk c' now' := by
  induction acts generalizing c now with
  | nil => cases Option.some.inj h; exact at_
  | cons act acts ih =>
    rw [run,List.foldlM_cons] at h
    obtain ⟨⟨_,_⟩,first,more⟩ := Option.bind_eq_some_iff.mp h
    exact ih (atStep at_ first) more

theorem runConcat {acts more : List Act} {start : Call × Disk} :
    run host call (acts ++ more) start = (run host call acts start).bind (run host call more) := by
  rw [run,List.foldlM_append]
  rfl

/-! A call that keeps inside. -/

section
variable (root : disk.node [] = some .directory) (same : ∀ p, ¬crate.targetDir <+: p → now.node p = disk.node p)
include root same

theorem dirsOutside {dirs : Disk} (inside : e.top = crate.dirName ∨ disk.node e.path = some .directory)
    (above : now.makeDirs e.path.dropLast = some dirs) : ∀ p, ¬crate.targetDir <+: p → dirs.node p = disk.node p := by
  intro p outside
  rw [← same p outside]
  rcases makeDirsAdded above p with kept | ⟨none_,mem,_⟩
  · exact kept
  · have up : p <+: e.path := ((List.mem_inits _ _).mp mem).trans (List.dropLast_prefix _)
    have there : disk.node p = some .directory := by
      rcases inside with top | there
      · cases p with
        | nil => exact root
        | cons x p =>
          obtain ⟨rfl,_⟩ := List.cons_prefix_cons.mp up
          exact absurd (List.cons_prefix_cons.mpr ⟨top.symm,List.nil_prefix⟩) outside
      · by_cases whole : p = e.path
        · rw [whole,there]
        · exact directoryAbove there up whole
    rw [same p outside,there] at none_
    contradiction

theorem placeOutside {dirs : Disk} (inside : e.top = crate.dirName ∨ (e.contents = none ∧ disk.node e.path = some .directory))
    (above : now.makeDirs e.path.dropLast = some dirs) (put : dirs.put e.path e.node = some now') :
    ∀ p, ¬crate.targetDir <+: p → now'.node p = disk.node p := by
  intro p outside
  have parents := dirsOutside root same (inside.imp_right And.right) above p outside
  rcases inside with top | ⟨kind,there⟩
  · have apart : p ≠ e.path := fun whole => outside (by
      rw [whole,Entry.path,top]
      exact List.cons_prefix_cons.mpr ⟨rfl,List.nil_prefix⟩)
    rw [putElsewhere put apart,parents]
  · by_cases whole : p = e.path
    · rw [whole,putHere put,there,Entry.node,kind]
    · rw [putElsewhere put whole,parents]

end

theorem placed {start : Disk} (h : placeAll start (done ++ [e]) = some now') :
    ∃ now dirs, placeAll start done = some now ∧ now.makeDirs e.path.dropLast = some dirs ∧ dirs.put e.path e.node = some now' := by
  rw [placeAllConcat] at h
  obtain ⟨now,before,last⟩ := Option.bind_eq_some_iff.mp h
  obtain ⟨dirs,above,put⟩ := Option.bind_eq_some_iff.mp last
  exact ⟨now,dirs,before,above,put⟩

section
variable (root : disk.node [] = some .directory) (keeps : KeepsInside host crate disk)
include root keeps

theorem placedOutside (plan : host.plan crate = done ++ rest) (h : placeAll disk done = some now) :
    ∀ p, ¬crate.targetDir <+: p → now.node p = disk.node p := by
  induction done using List.reverseRecOn generalizing now rest with
  | nil => cases Option.some.inj h; exact fun _ _ => rfl
  | append_singleton done e ih =>
    obtain ⟨before,dirs,first,above,put⟩ := placed h
    have next : host.plan crate = done ++ e::rest := by rw [plan,List.append_assoc]; rfl
    exact placeOutside root (ih next first) (keeps done e rest next (Option.isSome_iff_exists.mpr ⟨_,h⟩)) above put

theorem atOutside (at_ : At host crate call disk c now) : ∀ p, ¬crate.targetDir <+: p → now.node p = disk.node p := by
  induction at_ with
  | begun | checked => exact fun _ _ => rfl
  | returned _ _ ih => exact ih
  | @between start now done rest _ made plan placed_ =>
    cases Option.some.inj ((makeDirsThere root).symm.trans made)
    exact placedOutside root keeps plan placed_
  | @placed start now dirs done rest e _ made plan placed_ above =>
    cases Option.some.inj ((makeDirsThere root).symm.trans made)
    have before := placedOutside root keeps plan placed_
    cases put : dirs.put e.path e.node with
    | none =>
      rw [placeUnmade (List.cons_ne_nil _ _) above put]
      exact before
    | some after =>
      have whole : placeAll disk (done ++ [e]) = some after := (placeAllNext placed_ above).trans put
      have inside := keeps done e rest plan (Option.isSome_iff_exists.mpr ⟨_,whole⟩)
      exact dirsOutside root before (inside.imp_right And.right) above
  | @opened start now dirs file done rest e contents _ made plan placed_ above kind put =>
    cases Option.some.inj ((makeDirsThere root).symm.trans made)
    have before := placedOutside root keeps plan placed_
    have sort : e.node.isDirectory = (Node.file (Stored.writing call)).isDirectory := by rw [entryNode kind]; rfl
    obtain ⟨after,wrote⟩ := putKind put sort
    have whole : placeAll disk (done ++ [e]) = some after := (placeAllNext placed_ above).trans wrote
    have inside := keeps done e rest plan (Option.isSome_iff_exists.mpr ⟨_,whole⟩)
    have top : e.top = crate.dirName := inside.resolve_right fun other => by
      rw [kind] at other
      exact Option.some_ne_none _ other.1
    intro p outside
    have apart : p ≠ e.path := fun same => outside (by
      rw [same,Entry.path,top]
      exact List.cons_prefix_cons.mpr ⟨rfl,List.nil_prefix⟩)
    rw [putElsewhere put apart]
    exact dirsOutside root before (Or.inl top) above p outside

end

/-! A call gets to every entry that fits in after those before it. -/

variable (call) in
theorem betweenReached {start : Disk} (absent : disk.isDir crate.targetDir = false) (made : disk.makeDirs [] = some start)
    (plan : host.plan crate = done ++ rest) (h : placeAll start done = some now) :
    ∃ acts, run host call acts (extraction crate,disk) = some (⟨crate,.unpacking,done.length,.next⟩,now) := by
  induction done using List.reverseRecOn generalizing now rest with
  | nil =>
    cases Option.some.inj h
    refine ⟨[.look,.make],?_⟩
    simp [run,extraction,Call.act,Call.look,absent,made]
  | append_singleton done e ih =>
    obtain ⟨before,dirs,first,above,put⟩ := placed h
    have next : host.plan crate = done ++ e::rest := by rw [plan,List.append_assoc]; rfl
    obtain ⟨acts,reached⟩ := ih next first
    rw [List.length_append,List.length_singleton]
    cases kind : e.contents with
    | none =>
      rw [directoryNode kind] at put
      refine ⟨acts ++ [.write,.write],?_⟩
      rw [runConcat,reached,Option.bind_some]
      simp [run,Call.act,entryAt next,Call.advance,above,kind,put,Call.unpacked]
    | some contents =>
      obtain ⟨file,opened⟩ := putKind (m := .file (.writing call)) put (by rw [entryNode kind]; rfl)
      have both := putAgain (m := .file (.whole contents)) opened rfl
      rw [← entryNode kind,put,entryNode kind] at both
      refine ⟨acts ++ [.write,.write,.write],?_⟩
      rw [runConcat,reached,Option.bind_some]
      simp [run,Call.act,entryAt next,Call.advance,above,kind,opened,putHere opened,both,Call.unpacked]

theorem openedReached {start dirs file : Disk} {contents : Text} (absent : disk.isDir crate.targetDir = false)
    (made : disk.makeDirs [] = some start) (plan : host.plan crate = done ++ e::rest) (h : placeAll start done = some now)
    (above : now.makeDirs e.path.dropLast = some dirs) (kind : e.contents = some contents)
    (put : dirs.put e.path (.file (.writing call)) = some file) :
    ∃ acts, run host call acts (extraction crate,disk) = some (⟨crate,.unpacking,done.length,.opened⟩,file) := by
  obtain ⟨acts,reached⟩ := betweenReached call absent made plan h
  refine ⟨acts ++ [.write,.write],?_⟩
  rw [runConcat,reached,Option.bind_some]
  simp [run,Call.act,entryAt plan,Call.advance,above,kind,put]

theorem outsideEntry (apart : e.top ≠ crate.dirName) : ¬crate.targetDir <+: e.path :=
  fun inside => apart (List.cons_prefix_cons.mp inside).1.symm

theorem confinedKeeps {start : Disk} (closed : ∀ p, disk.node p ≠ some (.file (.writing call)))
    (absent : disk.isDir crate.targetDir = false) (made : disk.makeDirs [] = some start)
    (confined : Confined host crate call disk) : disk.node [] = some .directory ∧ KeepsInside host crate disk := by
  have root : disk.node [] = some .directory := by
    have whole : host.plan crate = [] ++ host.plan crate := rfl
    obtain ⟨acts,reached⟩ := betweenReached call absent made whole (by rfl)
    rw [← confined acts _ _ reached [] (by simp [CrateRef.targetDir]),makeDirsHere made (List.prefix_refl _)]
  refine ⟨root,fun done e rest plan fits => ?_⟩
  cases Option.some.inj ((makeDirsThere root).symm.trans made)
  by_cases top : e.top = crate.dirName
  · exact Or.inl top
  · obtain ⟨after,whole⟩ := Option.isSome_iff_exists.mp fits
    obtain ⟨before,dirs,first,above,put⟩ := placed whole
    cases kind : e.contents with
    | none =>
      obtain ⟨acts,reached⟩ := betweenReached call absent made (planNext plan) whole
      refine Or.inr ⟨rfl,?_⟩
      rw [← confined acts _ _ reached e.path (outsideEntry top),putHere put,Entry.node,kind]
    | some contents =>
      obtain ⟨file,opened⟩ := putKind (m := .file (.writing call)) put (by rw [entryNode kind]; rfl)
      obtain ⟨acts,reached⟩ := openedReached absent made plan first above kind opened
      exact absurd ((confined acts _ _ reached e.path (outsideEntry top)).symm.trans (putHere opened)) (closed e.path)

theorem atIdle (idle : disk.isDir crate.targetDir = true ∨ disk.makeDirs [] = none) (at_ : At host crate call disk c now) :
    now = disk := by
  have never {start : Disk} (absent : disk.isDir crate.targetDir = false) (made : disk.makeDirs [] = some start) : False := by
    rcases idle with there | unmade
    · rw [there] at absent
      contradiction
    · rw [unmade] at made
      contradiction
  induction at_ with
  | begun | checked => rfl
  | returned _ _ ih => exact ih
  | between absent made | placed absent made | opened absent made => exact (never absent made).elim

theorem confinedIff (host : Host) (crate : CrateRef) (call : Nat) {disk : Disk}
    (closed : ∀ p, disk.node p ≠ some (.file (.writing call))) :
    Confined host crate call disk ↔
      disk.isDir crate.targetDir = true ∨ disk.makeDirs [] = none ∨
      (disk.node [] = some .directory ∧ KeepsInside host crate disk) := by
  constructor
  · intro confined
    cases absent : disk.isDir crate.targetDir with
    | true => exact Or.inl rfl
    | false =>
      cases made : disk.makeDirs [] with
      | none => exact Or.inr (Or.inl rfl)
      | some start => exact Or.inr (Or.inr (confinedKeeps closed absent made confined))
  · rintro (there | unmade | ⟨root,keeps⟩) acts c disk' ran
    · rw [atIdle (Or.inl there) (runAt .begun ran)]
      exact fun _ _ => rfl
    · rw [atIdle (Or.inr unmade) (runAt .begun ran)]
      exact fun _ _ => rfl
    · exact atOutside root keeps (runAt .begun ran)

/-! An empty cache, an archive that keeps to its directory, and one that brings another crate. -/

def cache : Disk where
  node p := if p = [] then some .directory else none
  rooted p x there := by simp at there

theorem cacheClosed (p : List Text) : cache.node p ≠ some (.file (.writing 0)) := by
  simp only [cache]
  split <;> simp

theorem confinedDemo : Confined demoHost demo 0 cache := by
  refine (confinedIff demoHost demo 0 cacheClosed).mpr (Or.inr (Or.inr ⟨rfl,fun done e rest plan _ => Or.inl ?_⟩))
  have tops : ∀ e ∈ demoHost.plan demo, e.top = demo.dirName := by decide
  exact tops e (by rw [plan]; exact List.mem_append_right _ List.mem_cons_self)

def strangeHost : Host where
  cacheDir := "/cache".toList
  archive crate := [⟨crate.dirName,["Cargo.toml".toList],some "[package]".toList⟩,⟨"other-1.0.0".toList,["lib.rs".toList],some []⟩]
  order entries := entries.filter fun e => dotDot ∉ e.path
  takes := demoHost.takes

def unpackedWhole : List Act := [.look,.make] ++ List.replicate 6 .write ++ [.look]

theorem strangeWrites :
    (run strangeHost 0 unpackedWhole (extraction demo,cache)).map (fun now => now.2.node ["other-1.0.0".toList,"lib.rs".toList]) =
      some (some (.file (.whole []))) := by decide

theorem otherCrateWritten : ¬∀ (host : Host) (crate : CrateRef) (call : Nat) (disk : Disk),
    (∀ p, disk.node p ≠ some (.file (.writing call))) → Confined host crate call disk := by
  intro all
  obtain ⟨⟨c,disk'⟩,ran,wrote⟩ := Option.map_eq_some_iff.mp strangeWrites
  have kept := all strangeHost demo 0 cache cacheClosed unpackedWhole c disk' ran ["other-1.0.0".toList,"lib.rs".toList] (by decide)
  rw [show disk'.node _ = _ from wrote] at kept
  contradiction

end RustMcp.Confinement
