import RustMcp.SourceIndex
import RustMcp.Runs
import RustMcp.Semver

/-! The index rows of a Rust file against the hash that is recorded for it, over any sequence
of source syncs that the database and the parser may fail. -/
namespace RustMcp.IndexRepair
open Str (Text)
open LocalCache hiding indexVersion syncDir syncDirs upsertSourceFileIfShaChanged
open SourceIndex

variable {S T I κ : Type} [DecidableEq κ] (typeKey : T → κ)
  (extractRustSymbols : Text → Except Text (IndexedExtractionBatch S T I)) (sha256 : Text → Text)

/-- The rows are those of a content with the recorded hash; none if it does not parse. -/
def Exact (row : IndexedFileRow S T I) : Prop :=
  ∃ content, sha256 content = row.file.sha256 ∧ row.indexRows = extractedRows typeKey extractRustSymbols content

/-- A file without rows is extracted again at its next scan. -/
def Sound (table : IndexedFiles S T I) : Prop :=
  ∀ row ∈ table.rows, row.indexRows.count = 0 ∨ Exact typeKey extractRustSymbols sha256 row

/-- The file has index rows, and another hash than is recorded. -/
def Outdates (table : IndexedFiles S T I) (file : ScannedFile) : Prop :=
  ∃ row, table.lookup file.relativePath = some row ∧ row.file.sha256 ≠ file.sha256 ∧ row.indexRows.count ≠ 0

/-- The sync gets to record the hash of its `i`-th file. -/
def Records (fault : Option Fault) (i : Nat) : Prop :=
  ∀ f, fault = some f → i < f.file ∨ (i = f.file ∧ f.point ≠ .unwritten)

/-- A hash is recorded for a file that has index rows of another one only if they are replaced:
the file is a Rust file, its content parses, and the database does not fail in between. -/
def Replaces (fault : Option Fault) (files : List ScannedFile) (table : IndexedFiles S T I) : Prop :=
  ∀ i file, files[i]? = some file → Records fault i →
    Outdates (indexFiles typeKey extractRustSymbols (files.take i) table) file →
    file.language = some "rust".toList ∧ (∃ batch, extractRustSymbols file.content = .ok batch) ∧ fault ≠ some ⟨i,.recorded⟩

variable {typeKey extractRustSymbols sha256}

theorem noneCounted {batch : IndexedExtractionBatch S T I} (none_ : batch.count = 0) : batch = noIndexRows := by
  obtain ⟨symbols,types,impls⟩ := batch
  simp only [IndexedExtractionBatch.count,Nat.add_eq_zero_iff,List.length_eq_zero_iff] at none_
  obtain ⟨⟨rfl,rfl⟩,rfl⟩ := none_
  rfl

theorem extractedOk {content : Text} {batch : IndexedExtractionBatch S T I} (parses : extractRustSymbols content = .ok batch) :
    extractedRows typeKey extractRustSymbols content = insertedRows typeKey batch := by
  rw [extractedRows,parses]

theorem extractedError {content message : Text} (fails : extractRustSymbols content = .error message) :
    extractedRows typeKey extractRustSymbols content = noIndexRows := by
  rw [extractedRows,fails]

/-! Soundness is a matter of each row. -/

theorem soundOf {table table' : IndexedFiles S T I} {path : Text} (sound : Sound typeKey extractRustSymbols sha256 table)
    (others : ∀ other, other ≠ path → table'.lookup other = table.lookup other)
    (own : ∀ row, table'.lookup path = some row → row.indexRows.count = 0 ∨ Exact typeKey extractRustSymbols sha256 row) :
    Sound typeKey extractRustSymbols sha256 table' := by
  intro row mem
  have held : table'.lookup row.file.path = some row := Keyed.Table.lookupIff.mpr ⟨mem,rfl⟩
  by_cases same : row.file.path = path
  · exact own row (same ▸ held)
  · rw [others _ same] at held
    exact sound row (Keyed.Table.lookupIff.mp held).1

theorem soundRow {table : IndexedFiles S T I} (sound : Sound typeKey extractRustSymbols sha256 table) {path : Text}
    {row : IndexedFileRow S T I} (held : table.lookup path = some row) :
    row.indexRows.count = 0 ∨ Exact typeKey extractRustSymbols sha256 row :=
  sound row (Keyed.Table.lookupIff.mp held).1

/-- A hash that is recorded ahead of its rows does no harm where there are none. -/
theorem recordSound {table : IndexedFiles S T I} {file : ScannedFile} (sound : Sound typeKey extractRustSymbols sha256 table)
    (fresh : ¬ Outdates table file) : Sound typeKey extractRustSymbols sha256 (recordFile table file) := by
  refine soundOf sound (fun other differ => recordOther differ) fun row held => ?_
  cases old : table.lookup file.relativePath with
  | none =>
    rw [(recordNew old).1] at held
    cases Option.some.inj held
    exact Or.inl rfl
  | some before =>
    by_cases same : before.file.sha256 = file.sha256
    · rw [(recordSame old same).1] at held
      exact soundRow sound held
    · rw [(recordChanged old same).1] at held
      cases Option.some.inj held
      refine Or.inl ?_
      by_contra some_
      exact fresh ⟨before,old,same,some_⟩

theorem countHeld {table : IndexedFiles S T I} {path : Text} {row : IndexedFileRow S T I} (held : table.lookup path = some row) :
    countSourceFileIndexRows table path = row.indexRows.count := by
  rw [countSourceFileIndexRows,held]
  rfl

/-- Whichever reason there is to extract a file whose rows are not outdated, it has none. -/
theorem triedEmpty {table : IndexedFiles S T I} {file : ScannedFile} (current : ¬Outdates table file)
    (extracted : extracts table file = true) {row : IndexedFileRow S T I}
    (there : (recordFile table file).lookup file.relativePath = some row) : row.indexRows.count = 0 := by
  rw [extracts,Bool.and_eq_true,Bool.or_eq_true] at extracted
  rcases extracted.2 with written | uncounted
  · cases old : table.lookup file.relativePath with
    | none =>
      rw [(recordNew old).1] at there
      cases Option.some.inj there
      rfl
    | some before =>
      by_cases kept : before.file.sha256 = file.sha256
      · rw [(recordSame old kept).2] at written
        contradiction
      · rw [(recordChanged old kept).1] at there
        cases Option.some.inj there
        by_contra some_
        exact current ⟨before,old,kept,some_⟩
  · rw [countHeld there] at uncounted
    exact of_decide_eq_true uncounted

/-- A Rust file is exact once it has been indexed, unless its hash was recorded over other rows. -/
theorem indexExact {table : IndexedFiles S T I} {file : ScannedFile} (sound : Sound typeKey extractRustSymbols sha256 table)
    (hash : file.sha256 = sha256 file.content)
    (replaced : Outdates table file → file.language = some "rust".toList ∧ ∃ batch, extractRustSymbols file.content = .ok batch)
    {row : IndexedFileRow S T I}
    (held : (indexFile typeKey extractRustSymbols table file).lookup file.relativePath = some row) :
    (row.indexRows.count = 0 ∨ Exact typeKey extractRustSymbols sha256 row) ∧
      (file.language = some "rust".toList → Exact typeKey extractRustSymbols sha256 row) := by
  obtain ⟨recorded,there,same⟩ := recordHeld table file
  have parsed : ∀ batch, extractRustSymbols file.content = .ok batch →
      Exact typeKey extractRustSymbols sha256 {recorded with indexRows := insertedRows typeKey batch} := fun batch parses =>
    ⟨file.content,hash.symm.trans same.symm,(extractedOk parses).symm⟩
  by_cases outdated : Outdates table file
  · obtain ⟨rust,batch,parses⟩ := replaced outdated
    obtain ⟨before,old,changed,_⟩ := outdated
    have extracted : extracts table file = true := by
      rw [extracts,rust,(recordChanged old changed).2]
      rfl
    rw [indexFile,if_pos extracted,parses] at held
    change (replaceSourceFileIndexRows _ _ _).lookup _ = _ at held
    rw [replaceOwn there] at held
    cases Option.some.inj held
    exact ⟨Or.inr (parsed batch parses),fun _ => parsed batch parses⟩
  · have settled := soundRow (recordSound sound outdated) there
    unfold indexFile at held
    split at held
    · rename_i extracted
      cases parses : extractRustSymbols file.content with
      | ok batch =>
        rw [parses] at held
        change (replaceSourceFileIndexRows _ _ _).lookup _ = _ at held
        rw [replaceOwn there] at held
        cases Option.some.inj held
        exact ⟨Or.inr (parsed batch parses),fun _ => parsed batch parses⟩
      | error message =>
        rw [parses] at held
        cases Option.some.inj (there.symm.trans held)
        have none_ := triedEmpty outdated extracted there
        have exact_ : Exact typeKey extractRustSymbols sha256 row :=
          ⟨file.content,hash.symm.trans same.symm,(noneCounted none_).trans (extractedError parses).symm⟩
        exact ⟨Or.inr exact_,fun _ => exact_⟩
    · rename_i idle
      cases Option.some.inj (there.symm.trans held)
      refine ⟨settled,fun rust => settled.resolve_left fun none_ => idle ?_⟩
      rw [extracts,rust,countHeld there,none_]
      simp

/-! A version. -/

/-- The Rust files of the list are exact. -/
def Settled (typeKey : T → κ) (extractRustSymbols : Text → Except Text (IndexedExtractionBatch S T I)) (sha256 : Text → Text)
    (files : List ScannedFile) (table : IndexedFiles S T I) : Prop :=
  ∀ file ∈ files, file.language = some "rust".toList →
    ∃ row, table.lookup file.relativePath = some row ∧ Exact typeKey extractRustSymbols sha256 row

/-- What a scan knows of its files. -/
structure Scanned (sha256 : Text → Text) (files : List ScannedFile) : Prop where
  hash : ∀ file ∈ files, file.sha256 = sha256 file.content
  language : ∀ file ∈ files, ∀ other ∈ files, file.relativePath = other.relativePath → file.language = other.language

variable {files : List ScannedFile} {table : IndexedFiles S T I} {fault : Option Fault}

theorem indexSound {file : ScannedFile} (sound : Sound typeKey extractRustSymbols sha256 table)
    (hash : file.sha256 = sha256 file.content)
    (replaced : Outdates table file → file.language = some "rust".toList ∧ ∃ batch, extractRustSymbols file.content = .ok batch) :
    Sound typeKey extractRustSymbols sha256 (indexFile typeKey extractRustSymbols table file) :=
  soundOf sound (fun _ differ => indexOther differ) fun _ held => (indexExact sound hash replaced held).1

theorem filesSound (scanned : Scanned sha256 files) (sound : Sound typeKey extractRustSymbols sha256 table)
    (replaces : Replaces typeKey extractRustSymbols fault files table) {i : Nat} (within : i ≤ files.length)
    (reached : ∀ j < i, Records fault j) :
    Sound typeKey extractRustSymbols sha256 (indexFiles typeKey extractRustSymbols (files.take i) table) ∧
      Settled typeKey extractRustSymbols sha256 (files.take i) (indexFiles typeKey extractRustSymbols (files.take i) table) := by
  induction i with
  | zero => exact ⟨sound,fun file mem => absurd mem (by simp)⟩
  | succ i ih =>
    obtain ⟨before,settled⟩ := ih (Nat.le_of_succ_le within) fun j below => reached j (Nat.lt_succ_of_lt below)
    have here : files[i]? = some files[i] := List.getElem?_eq_getElem within
    have mem : files[i] ∈ files := List.getElem_mem within
    have hash := scanned.hash _ mem
    have replaced : Outdates (indexFiles typeKey extractRustSymbols (files.take i) table) files[i] →
        files[i].language = some "rust".toList ∧ ∃ batch, extractRustSymbols files[i].content = .ok batch := fun outdated =>
      have facts := replaces i _ here (reached i (Nat.lt_succ_self i)) outdated
      ⟨facts.1,facts.2.1⟩
    rw [indexFilesTake here,List.take_succ_eq_append_getElem within]
    refine ⟨indexSound before hash replaced,fun file inside rust => ?_⟩
    obtain ⟨row,held,_⟩ : ∃ row, (indexFile typeKey extractRustSymbols
        (indexFiles typeKey extractRustSymbols (files.take i) table) files[i]).lookup files[i].relativePath = some row ∧
        row.file.sha256 = files[i].sha256 := indexHeld
    by_cases same : file.relativePath = files[i].relativePath
    · have listed : file ∈ files := (List.mem_append.mp inside).elim List.mem_of_mem_take fun last =>
        (List.mem_singleton.mp last) ▸ mem
      have language := scanned.language file listed _ mem same
      exact ⟨row,same ▸ held,(indexExact before hash replaced held).2 (language ▸ rust)⟩
    · rcases List.mem_append.mp inside with earlier | last
      · obtain ⟨old,there,exact_⟩ := settled file earlier rust
        exact ⟨old,(indexOther same).trans there,exact_⟩
      · rw [List.mem_singleton.mp last] at same
        exact absurd rfl same

theorem prunedSound (sound : Sound typeKey extractRustSymbols sha256 table) (seenPaths : List Text) :
    Sound typeKey extractRustSymbols sha256 (pruneSourceFileIndexAndFiles seenPaths table) :=
  fun row mem => sound row (Keyed.Table.memDelete.mp mem).1

theorem prunedSettled (settled : Settled typeKey extractRustSymbols sha256 files table) :
    Settled typeKey extractRustSymbols sha256 files
      (pruneSourceFileIndexAndFiles (files.map fun file => file.relativePath) table) := by
  intro file mem rust
  obtain ⟨row,held,exact_⟩ := settled file mem rust
  obtain ⟨inside,path⟩ := Keyed.Table.lookupIff.mp held
  have seen : (files.map fun file => file.relativePath).contains row.file.path = true := by
    rw [path,List.contains_iff_mem]
    exact List.mem_map_of_mem mem
  exact ⟨row,Keyed.Table.lookupIff.mpr ⟨Keyed.Table.memDelete.mpr ⟨inside,by rw [seen]; rfl⟩,path⟩,exact_⟩

theorem versionSound (scanned : Scanned sha256 files) (sound : Sound typeKey extractRustSymbols sha256 table)
    (replaces : Replaces typeKey extractRustSymbols fault files table) :
    Sound typeKey extractRustSymbols sha256 (indexVersion typeKey extractRustSymbols fault files table).1 := by
  have all : (∀ j < files.length, Records fault j) →
      Sound typeKey extractRustSymbols sha256 (indexFiles typeKey extractRustSymbols files table) := fun reached => by
    have whole := (filesSound scanned sound replaces (le_refl _) reached).1
    rwa [List.take_length] at whole
  cases fault with
  | none => exact prunedSound (all fun j _ f none_ => by cases none_) _
  | some fault =>
    rw [indexVersion]
    cases here : files[fault.file]? with
    | some file =>
      obtain ⟨within,same⟩ := List.getElem?_eq_some_iff.mp here
      have before := (filesSound scanned sound replaces (Nat.le_of_lt within)
        fun j below f same => Or.inl (Option.some.inj same ▸ below)).1
      have hash := scanned.hash file (List.mem_of_getElem? here)
      have facts : fault.point ≠ .unwritten →
          Outdates (indexFiles typeKey extractRustSymbols (files.take fault.file) table) file →
          file.language = some "rust".toList ∧ (∃ batch, extractRustSymbols file.content = .ok batch) ∧
            some fault ≠ some ⟨fault.file,.recorded⟩ := fun written =>
        replaces fault.file file here fun f same => Or.inr (Option.some.inj same ▸ ⟨rfl,written⟩)
      obtain ⟨position,point⟩ := fault
      cases point with
      | unwritten => exact before
      | recorded => exact recordSound before fun outdated => (facts (by simp) outdated).2.2 rfl
      | replaced => exact indexSound before hash fun outdated => ⟨(facts (by simp) outdated).1,(facts (by simp) outdated).2.1⟩
    | none =>
      have late := List.getElem?_eq_none_iff.mp here
      have indexed := all fun j below f same => Or.inl (Option.some.inj same ▸ Nat.lt_of_lt_of_le below late)
      change Sound _ _ _ (if fault.point = .replaced then _ else _)
      split
      · exact prunedSound indexed _
      · exact indexed

/-- A version that is completed has the rows of what is recorded. -/
theorem versionSettled (scanned : Scanned sha256 files) (sound : Sound typeKey extractRustSymbols sha256 table)
    (replaces : Replaces typeKey extractRustSymbols fault files table)
    (completed : (indexVersion typeKey extractRustSymbols fault files table).2 = true) :
    Settled typeKey extractRustSymbols sha256 files (indexVersion typeKey extractRustSymbols fault files table).1 := by
  cases fault with
  | none =>
    have settled := (filesSound scanned sound replaces (le_refl _) fun j _ f none_ => by cases none_).2
    rw [List.take_length] at settled
    exact prunedSettled settled
  | some fault =>
    rw [indexVersion] at completed
    cases here : files[fault.file]? with
    | some file => rw [here] at completed; contradiction
    | none => rw [here] at completed; contradiction

/-! Calls. -/

def SoundStore (typeKey : T → κ) (extractRustSymbols : Text → Except Text (IndexedExtractionBatch S T I)) (sha256 : Text → Text)
    (store : SourceStore S T I) : Prop :=
  ∀ id, Sound typeKey extractRustSymbols sha256 (store id)

section
variable (typeKey extractRustSymbols sha256) (pathContains : Option Text)

/-- In a directory's turn no hash is recorded over the index rows of another one. -/
def TurnReplaces (visit : Pass × SourceStore S T I) : Prop :=
  ∀ files, scanContents sha256 pathContains visit.1.dir.dir = .ok files →
    Replaces typeKey extractRustSymbols visit.1.fault files (visit.2 visit.1.dir.row.id)

/-- If the directory's turn completes its version, the index rows of each of its Rust files are
those of the content whose hash is recorded. -/
def TurnExact (visit : Pass × SourceStore S T I) : Prop :=
  ∀ files, scanContents sha256 pathContains visit.1.dir.dir = .ok files →
    (syncDir typeKey extractRustSymbols sha256 pathContains visit.2 visit.1).2 = true →
    Settled typeKey extractRustSymbols sha256 files
      ((syncDir typeKey extractRustSymbols sha256 pathContains visit.2 visit.1).1 visit.1.dir.row.id)

end

variable {pathContains : Option Text}

theorem scanScanned {dir : VersionDir} (scan : scanContents sha256 pathContains dir = .ok files) : Scanned sha256 files :=
  ⟨fun _ mem => scannedHash scan mem,fun _ mem _ mem' path => scannedLanguage scan mem mem' path⟩

theorem turnSound {visit : Pass × SourceStore S T I} (sound : SoundStore typeKey extractRustSymbols sha256 visit.2)
    (replaces : TurnReplaces typeKey extractRustSymbols sha256 pathContains visit) :
    SoundStore typeKey extractRustSymbols sha256 (syncDir typeKey extractRustSymbols sha256 pathContains visit.2 visit.1).1 := by
  intro id
  cases scan : scanContents sha256 pathContains visit.1.dir.dir with
  | error _ =>
    rw [syncDir,scan]
    exact sound id
  | ok files =>
    rw [syncDirScanned scan]
    dsimp only
    by_cases mine : id = visit.1.dir.row.id
    · subst mine
      rw [Function.update_self]
      exact versionSound (scanScanned scan) (sound _) (replaces files scan)
    · rw [Function.update_of_ne mine]
      exact sound id

theorem turnExact {visit : Pass × SourceStore S T I} (sound : SoundStore typeKey extractRustSymbols sha256 visit.2)
    (replaces : TurnReplaces typeKey extractRustSymbols sha256 pathContains visit) :
    TurnExact typeKey extractRustSymbols sha256 pathContains visit := by
  intro files scan
  rw [syncDirScanned scan]
  dsimp only
  rw [Function.update_self]
  intro completed
  exact versionSettled (scanScanned scan) (sound _) (replaces files scan) completed

/-- What each turn of a call finds is sound, and so is what the call leaves. -/
theorem visitsSound {passes : List Pass} {store : SourceStore S T I} (sound : SoundStore typeKey extractRustSymbols sha256 store)
    (replaces : ∀ visit ∈ visits typeKey extractRustSymbols sha256 pathContains passes store,
      TurnReplaces typeKey extractRustSymbols sha256 pathContains visit) :
    (∀ visit ∈ visits typeKey extractRustSymbols sha256 pathContains passes store,
      SoundStore typeKey extractRustSymbols sha256 visit.2) ∧
    SoundStore typeKey extractRustSymbols sha256 (syncDirs typeKey extractRustSymbols sha256 pathContains passes store).1 := by
  induction passes generalizing store with
  | nil => exact ⟨fun visit mem => absurd mem (List.not_mem_nil),sound⟩
  | cons pass rest ih =>
    rw [visits] at replaces ⊢
    have next := turnSound sound (replaces (pass,store) List.mem_cons_self)
    rw [syncDirs]
    cases turn : syncDir typeKey extractRustSymbols sha256 pathContains store pass with
    | mk after completed =>
      simp only [turn] at next replaces ⊢
      cases completed with
      | true =>
        simp only [if_true] at replaces ⊢
        obtain ⟨later,ends⟩ := ih next fun visit mem => replaces visit (List.mem_cons_of_mem _ mem)
        exact ⟨List.forall_mem_cons.mpr ⟨sound,later⟩,ends⟩
      | false => exact ⟨List.forall_mem_cons.mpr ⟨sound,fun visit mem => absurd mem (List.not_mem_nil)⟩,next⟩

structure SyncCall where
  request : SyncRequest
  disk : SourceDisk
  rows : List RustdocSync.CrateVersion
  faults : Nat → Option Fault

section
variable {V : Type} [LinearOrder V] (parse : Text → Option V) (lower : Text → Text) (typeKey : T → κ)
  (extractRustSymbols : Text → Except Text (IndexedExtractionBatch S T I)) (sha256 : Text → Text)

def visitsOf (call : SyncCall) (store : SourceStore S T I) : List (Pass × SourceStore S T I) :=
  callVisits typeKey extractRustSymbols sha256 parse lower call.request call.disk call.rows call.faults store

/-- Any number of calls, whatever is on disk at each, from a database without source files. -/
def syncs : Runs.System (SourceStore S T I) SyncCall where
  initial store := ∀ id, (store id).rows = []
  step store call := some
    (syncLocalSourceCache typeKey extractRustSymbols sha256 parse lower call.request call.disk call.rows call.faults store).1

/-- No turn of the call records a hash over the index rows of another one. -/
def CallReplaces (store : SourceStore S T I) (call : SyncCall) : Prop :=
  ∀ visit ∈ visitsOf parse lower typeKey extractRustSymbols sha256 call store,
    TurnReplaces typeKey extractRustSymbols sha256 (queryFilter call.request) visit

variable {parse lower typeKey extractRustSymbols sha256}

theorem callSound {store : SourceStore S T I} {call : SyncCall} (sound : SoundStore typeKey extractRustSymbols sha256 store)
    (replaces : CallReplaces parse lower typeKey extractRustSymbols sha256 store call) :
    (∀ visit ∈ visitsOf parse lower typeKey extractRustSymbols sha256 call store,
      SoundStore typeKey extractRustSymbols sha256 visit.2) ∧
    SoundStore typeKey extractRustSymbols sha256
      (syncLocalSourceCache typeKey extractRustSymbols sha256 parse lower call.request call.disk call.rows call.faults store).1 := by
  rw [CallReplaces] at replaces
  rw [visitsOf,callVisits] at replaces ⊢
  rw [syncLocalSourceCache]
  cases requested : requestedPasses parse lower call.request call.disk call.rows call.faults with
  | error _ => exact ⟨fun visit mem => absurd mem (List.not_mem_nil),sound⟩
  | ok passes =>
    rw [requested] at replaces
    exact visitsSound sound replaces

theorem soundReach {store : SourceStore S T I}
    (run : Runs.Reach (syncs parse lower typeKey extractRustSymbols sha256)
      (CallReplaces parse lower typeKey extractRustSymbols sha256) store) : SoundStore typeKey extractRustSymbols sha256 store := by
  refine run.invariant (fun store first id row mem => ?_) fun store call store' sound replaces moves => ?_
  · rw [first id] at mem
    contradiction
  · cases Option.some.inj moves
    exact (callSound sound replaces).2

/-- In runs that record no hash over the index rows of another one, whatever fails, a call that
completes a version leaves each of its Rust files with the rows of the content that is recorded. -/
theorem completedExact (parse : Text → Option V) (lower : Text → Text) (typeKey : T → κ)
    (extractRustSymbols : Text → Except Text (IndexedExtractionBatch S T I)) (sha256 : Text → Text) (store : SourceStore S T I)
    (run : Runs.Reach (syncs parse lower typeKey extractRustSymbols sha256)
      (CallReplaces parse lower typeKey extractRustSymbols sha256) store)
    (call : SyncCall) (replaces : CallReplaces parse lower typeKey extractRustSymbols sha256 store call) :
    ∀ visit ∈ visitsOf parse lower typeKey extractRustSymbols sha256 call store,
      TurnExact typeKey extractRustSymbols sha256 (queryFilter call.request) visit :=
  fun visit mem => turnExact ((callSound (soundReach run) replaces).1 visit mem) (replaces visit mem)

end
/-- A content that parses has a symbol that is named for it; `broken` does not parse. -/
def parsed (content : Text) : Except Text (IndexedExtractionBatch Text Text Text) :=
  if content = "broken".toList then .error "rust parser error".toList else .ok ⟨[content],[],[]⟩

def libRs (content : Text) : DiskFile := ⟨["src".toList,"lib.rs".toList],6,.ok (some content)⟩

def libDir (content : Text) : VersionDir := ⟨"demo-1.0.0".toList,true,.ok [libRs content]⟩

def libVersion : RustdocSync.CrateVersion := ⟨7,"demo".toList,"1.0.0".toList,none,true,none,none⟩

/-- The file has this content when it is synchronized. -/
def libCall (content : Text) : SyncCall :=
  ⟨⟨some "demo".toList,none,none,none,none,false⟩,⟨[[libDir content]],[]⟩,[libVersion],fun _ => none⟩

def nothingIndexed : SourceStore Text Text Text := fun _ => ⟨[],List.nodup_nil⟩

theorem libVisits (content : Text) (store : SourceStore Text Text Text) :
    visitsOf Semver.release Str.toAsciiLowercase id parsed id (libCall content) store =
      [(⟨⟨0,libVersion,libDir content⟩,none⟩,store)] := by
  have passes : requestedPasses Semver.release Str.toAsciiLowercase (libCall content).request (libCall content).disk
      (libCall content).rows (libCall content).faults = .ok [⟨⟨0,libVersion,libDir content⟩,none⟩] := by rfl
  rw [visitsOf,callVisits,passes]
  change visits id parsed id none _ store = _
  rw [visits,visits]
  split <;> rfl

theorem libScan (content : Text) : scanContents id none (libDir content) =
    .ok [⟨⟨"src/lib.rs".toList,content,6,some "rust".toList⟩,content⟩] := by
  rfl

theorem completedExactFirst : TurnExact id parsed id (queryFilter (libCall "fn f() \x7b\x7d".toList).request)
    (⟨⟨0,libVersion,libDir "fn f() \x7b\x7d".toList⟩,none⟩,nothingIndexed) := by
  refine completedExact Semver.release Str.toAsciiLowercase id parsed id nothingIndexed (.start fun _ => rfl)
    (libCall "fn f() \x7b\x7d".toList) ?_ _ (by rw [libVisits]; exact List.mem_singleton_self _)
  intro visit mem files scan i file here _ outdated
  rw [libVisits,List.mem_singleton] at mem
  subst mem
  cases Except.ok.inj ((libScan _).symm.trans scan)
  have first : i = 0 := Nat.lt_one_iff.mp (List.getElem?_eq_some_iff.mp here).1
  subst first
  obtain ⟨row,held,_⟩ := outdated
  contradiction

/-- The file is indexed, and then changes to a content that does not parse: its hash is recorded, and
the symbol of the content before is kept. -/
theorem staleRowsKept :
    ∃ store, Runs.Reach (syncs Semver.release Str.toAsciiLowercase id parsed id) Runs.always store ∧
      ∃ visit ∈ visitsOf Semver.release Str.toAsciiLowercase id parsed id (libCall "broken".toList) store,
        ¬ TurnExact id parsed id (queryFilter (libCall "broken".toList).request) visit := by
  refine ⟨_,.next (e := libCall "fn f() \x7b\x7d".toList) (.start fun _ => rfl : Runs.Reach _ _ nothingIndexed) trivial rfl,
    _,by rw [libVisits]; exact List.mem_singleton_self _,?_⟩
  intro exact_
  obtain ⟨row,held,content,hash,rows⟩ := exact_ _ (libScan "broken".toList) rfl _ (List.mem_singleton_self _) rfl
  have stale : row = ⟨⟨"src/lib.rs".toList,"broken".toList,6,some "rust".toList⟩,⟨["fn f() \x7b\x7d".toList],[],[]⟩⟩ :=
    (Option.some.inj held).symm
  subst stale
  have same : content = "broken".toList := hash
  subst same
  exact absurd rows (by decide)

end RustMcp.IndexRepair
