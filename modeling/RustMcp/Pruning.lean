import RustMcp.Semver
import RustMcp.SourceIndex

/-! What a source sync prunes. Rows are pruned by what the scan has seen, and the scan passes
over files that are there: those outside the call's filter, and those that are not indexed. -/
namespace RustMcp.Pruning
open Str (Text)
open LocalCache hiding indexVersion syncDir syncDirs upsertSourceFileIfShaChanged
open SourceIndex

variable {S T I κ : Type} [DecidableEq κ] {typeKey : T → κ}
  {extractRustSymbols : Text → Except Text (IndexedExtractionBatch S T I)} {sha256 : Text → Text} {pathContains : Option Text}

def OnDisk (dir : VersionDir) (path : Text) : Prop :=
  ∃ disk, dir.files = .ok disk ∧ ∃ found ∈ disk, relativePath found = path

/-- The scan has the hash that is recorded, wherever it finds the path. -/
def Unchanged (files : List ScannedFile) (row : IndexedFileRow S T I) : Prop :=
  ∀ file ∈ files, file.relativePath = row.file.path → file.sha256 = row.file.sha256

/-- A row of a file that is there stays, with its index rows unless its content has changed. -/
def Spares (dir : VersionDir) (files : List ScannedFile) (before after : IndexedFiles S T I) : Prop :=
  ∀ row ∈ before.rows, OnDisk dir row.file.path → ∃ row' ∈ after.rows, row'.file.path = row.file.path ∧
    (Unchanged files row → row.indexRows.count ≠ 0 → row' = row)

/-- The pruning takes effect. -/
def Prunes (fault : Option Fault) (count : Nat) : Prop :=
  ∀ f, fault = some f → count ≤ f.file ∧ f.point = .replaced

theorem prunesWhole {count : Nat} : Prunes none count := by
  intro f same
  cases same

/-- Every file on disk that has a row is one that is indexed, or is kept as rustdoc's. -/
def AllIndexed (pathContains : Option Text) (dir : VersionDir) (before : IndexedFiles S T I) : Prop :=
  ∀ row ∈ before.rows, OnDisk dir row.file.path → underRustdocPrefix row.file.path = true ∨
    ∃ disk, dir.files = .ok disk ∧ ∃ found ∈ disk, relativePath found = row.file.path ∧ Indexable pathContains found

/-! Indexing deletes nothing. -/

/-- The row of a path stays, and stays as it is if it has index rows and the hash does not change. -/
def Stays (row : IndexedFileRow S T I) (after : IndexedFiles S T I) (unchanged : Prop) : Prop :=
  ∃ row', after.lookup row.file.path = some row' ∧ (unchanged → row.indexRows.count ≠ 0 → row' = row)

theorem recordKept {table : IndexedFiles S T I} {row : IndexedFileRow S T I} (held : table.lookup row.file.path = some row)
    (file : ScannedFile) :
    Stays row (recordFile table file) (file.relativePath = row.file.path → file.sha256 = row.file.sha256) := by
  by_cases own : file.relativePath = row.file.path
  · rw [← own] at held
    by_cases same : row.file.sha256 = file.sha256
    · exact ⟨row,by rw [(recordSame held same).1,← own,held],fun _ _ => rfl⟩
    · obtain ⟨row',held',_⟩ := recordHeld table file
      exact ⟨row',own ▸ held',fun hash _ => absurd (hash own).symm same⟩
  · exact ⟨row,(recordOther (Ne.symm own)).trans held,fun _ _ => rfl⟩

theorem fileKept {table : IndexedFiles S T I} {row : IndexedFileRow S T I} (held : table.lookup row.file.path = some row)
    (file : ScannedFile) :
    Stays row (indexFile typeKey extractRustSymbols table file)
      (file.relativePath = row.file.path → file.sha256 = row.file.sha256) := by
  by_cases own : file.relativePath = row.file.path
  · rw [← own] at held
    by_cases left : row.file.sha256 = file.sha256 ∧ row.indexRows.count ≠ 0
    · exact ⟨row,by rw [indexUnchanged held left.1 left.2,← own,held],fun _ _ => rfl⟩
    · obtain ⟨row',held',_⟩ : ∃ row', (indexFile typeKey extractRustSymbols table file).lookup file.relativePath = some row' ∧
        row'.file.sha256 = file.sha256 := indexHeld
      exact ⟨row',own ▸ held',fun hash some_ => absurd ⟨(hash own).symm,some_⟩ left⟩
  · exact ⟨row,(indexOther (Ne.symm own)).trans held,fun _ _ => rfl⟩

theorem filesKept {files : List ScannedFile} {table : IndexedFiles S T I} {row : IndexedFileRow S T I}
    (held : table.lookup row.file.path = some row) :
    Stays row (indexFiles typeKey extractRustSymbols files table) (Unchanged files row) := by
  induction files using List.reverseRecOn with
  | nil => exact ⟨row,held,fun _ _ => rfl⟩
  | append_singleton files file ih =>
    rw [indexFilesConcat]
    obtain ⟨row',held',kept⟩ := ih
    have path : row'.file.path = row.file.path := (Keyed.Table.lookupIff.mp held').2
    rw [← path] at held'
    obtain ⟨row'',held'',kept'⟩ : Stays row' (indexFile typeKey extractRustSymbols _ file)
      (file.relativePath = row'.file.path → file.sha256 = row'.file.sha256) := fileKept held' file
    refine ⟨row'',path ▸ held'',fun same some_ => ?_⟩
    have before := kept (fun f mem => same f (List.mem_append_left _ mem)) some_
    subst before
    exact kept' (fun own => same file (by simp) own) some_

theorem unchangedTake {files : List ScannedFile} {row : IndexedFileRow S T I} (same : Unchanged files row) (i : Nat) :
    Unchanged (files.take i) row := fun file mem => same file (List.mem_of_mem_take mem)

theorem stoppedKept {files : List ScannedFile} {table : IndexedFiles S T I} {row : IndexedFileRow S T I} {i : Nat}
    {file : ScannedFile} (here : files[i]? = some file) (held : table.lookup row.file.path = some row) (point : Point) :
    Stays row (stopAt typeKey extractRustSymbols point (indexFiles typeKey extractRustSymbols (files.take i) table) file)
      (Unchanged files row) := by
  obtain ⟨row',held',kept⟩ : Stays row (indexFiles typeKey extractRustSymbols (files.take i) table) (Unchanged (files.take i) row) :=
    filesKept held
  have path : row'.file.path = row.file.path := (Keyed.Table.lookupIff.mp held').2
  have mem : file ∈ files := List.mem_of_getElem? here
  have onward : ∀ after, Stays row' after (file.relativePath = row'.file.path → file.sha256 = row'.file.sha256) →
      Stays row after (Unchanged files row) := by
    rintro after ⟨row'',held'',kept'⟩
    refine ⟨row'',path ▸ held'',fun same some_ => ?_⟩
    have before := kept (unchangedTake same i) some_
    subst before
    exact kept' (fun own => same file mem own) some_
  cases point with
  | unwritten => exact ⟨row',held',fun same => kept (unchangedTake same i)⟩
  | recorded => exact onward _ (recordKept (path ▸ held') file)
  | replaced => exact onward _ (fileKept (path ▸ held') file)

/-! Pruning. -/

theorem memPruned {seenPaths : List Text} {table : IndexedFiles S T I} {row : IndexedFileRow S T I} :
    row ∈ (pruneSourceFileIndexAndFiles seenPaths table).rows ↔
      row ∈ table.rows ∧ (row.file.path ∈ seenPaths ∨ underRustdocPrefix row.file.path = true) := by
  rw [pruneSourceFileIndexAndFiles,Keyed.Table.memDelete]
  simp only [Bool.not_eq_false',Bool.or_eq_true,List.contains_iff_mem]

/-- Without the pruning, every row stays. -/
theorem unprunedKept {fault : Option Fault} {files : List ScannedFile} {table : IndexedFiles S T I}
    {row : IndexedFileRow S T I} (held : table.lookup row.file.path = some row) (spared : ¬ Prunes fault files.length) :
    Stays row (indexVersion typeKey extractRustSymbols fault files table).1 (Unchanged files row) := by
  cases fault with
  | none => exact absurd prunesWhole spared
  | some fault =>
    rw [indexVersion]
    cases here : files[fault.file]? with
    | some file => exact stoppedKept here held fault.point
    | none =>
      have late := List.getElem?_eq_none_iff.mp here
      have early : fault.point ≠ .replaced := fun replaced => spared fun f same => Option.some.inj same ▸ ⟨late,replaced⟩
      simp only [if_neg early]
      exact filesKept held

theorem prunedTable {fault : Option Fault} {files : List ScannedFile} (table : IndexedFiles S T I)
    (prunes : Prunes fault files.length) :
    (indexVersion typeKey extractRustSymbols fault files table).1 =
      pruneSourceFileIndexAndFiles (files.map fun file => file.relativePath) (indexFiles typeKey extractRustSymbols files table) := by
  cases fault with
  | none => rfl
  | some fault =>
    obtain ⟨late,replaced⟩ := prunes fault rfl
    rw [indexVersion,List.getElem?_eq_none_iff.mpr late]
    simp only [if_pos replaced]

/-- A version's rows are spared exactly if the pruning does not take place or every file that has
a row is seen. -/
theorem versionSpares {fault : Option Fault} {dir : VersionDir} {files : List ScannedFile} {table : IndexedFiles S T I}
    (scan : scanContents sha256 pathContains dir = .ok files) :
    Spares dir files table (indexVersion typeKey extractRustSymbols fault files table).1 ↔
      (Prunes fault files.length → AllIndexed pathContains dir table) := by
  constructor
  · intro spares prunes row mem onDisk
    obtain ⟨row',inside,path,_⟩ := spares row mem onDisk
    rw [prunedTable table prunes,memPruned] at inside
    rcases inside.2 with seen | rustdoc
    · obtain ⟨disk,read,_⟩ := onDisk
      obtain ⟨found,there,same,indexable⟩ := (seenIff scan read _).mp seen
      exact Or.inr ⟨disk,read,found,there,same.trans path,indexable⟩
    · exact Or.inl (path ▸ rustdoc)
  · intro indexed row mem onDisk
    have held : table.lookup row.file.path = some row := Keyed.Table.lookupIff.mpr ⟨mem,rfl⟩
    by_cases prunes : Prunes fault files.length
    · obtain ⟨row',held',kept⟩ : Stays row (indexFiles typeKey extractRustSymbols files table) (Unchanged files row) := filesKept held
      obtain ⟨inside,path⟩ := Keyed.Table.lookupIff.mp held'
      refine ⟨row',?_,path,kept⟩
      rw [prunedTable table prunes,memPruned,path]
      refine ⟨inside,?_⟩
      rcases indexed prunes row mem onDisk with rustdoc | ⟨disk,read,found⟩
      · exact Or.inr rustdoc
      · exact Or.inl ((seenIff scan read _).mpr found)
    · obtain ⟨row',held',kept⟩ : Stays row (indexVersion typeKey extractRustSymbols fault files table).1 (Unchanged files row) :=
        unprunedKept held prunes
      obtain ⟨inside,path⟩ := Keyed.Table.lookupIff.mp held'
      exact ⟨row',inside,path,kept⟩

/-! Calls. -/

section
variable (typeKey extractRustSymbols sha256 pathContains)

/-- What a directory's turn in a call deletes belongs to files that are gone. -/
def TurnSpares (visit : Pass × SourceStore S T I) : Prop :=
  ∀ files, scanContents sha256 pathContains visit.1.dir.dir = .ok files →
    Spares visit.1.dir.dir files (visit.2 visit.1.dir.row.id)
      ((syncDir typeKey extractRustSymbols sha256 pathContains visit.2 visit.1).1 visit.1.dir.row.id)

/-- Where a directory's turn comes to its pruning, every file on disk that has a row is indexed. -/
def TurnIndexed (visit : Pass × SourceStore S T I) : Prop :=
  ∀ files, scanContents sha256 pathContains visit.1.dir.dir = .ok files → Prunes visit.1.fault files.length →
    AllIndexed pathContains visit.1.dir.dir (visit.2 visit.1.dir.row.id)

end

theorem turnSparesIff (visit : Pass × SourceStore S T I) :
    TurnSpares typeKey extractRustSymbols sha256 pathContains visit ↔ TurnIndexed sha256 pathContains visit := by
  refine forall₂_congr fun files scan => ?_
  rw [syncDirScanned scan]
  dsimp only
  rw [Function.update_self]
  exact versionSpares scan

section
variable {V : Type} [LinearOrder V] (parse : Text → Option V) (lower : Text → Text) (typeKey : T → κ)
  (extractRustSymbols : Text → Except Text (IndexedExtractionBatch S T I)) (sha256 : Text → Text)

/-- A call deletes only rows of files that are gone, exactly if at each directory the files on disk
that have rows are among those that the call indexes. -/
theorem callSparesIff (request : SyncRequest) (disk : SourceDisk) (rows : List RustdocSync.CrateVersion)
    (faults : Nat → Option Fault) (store : SourceStore S T I) :
    (∀ visit ∈ callVisits typeKey extractRustSymbols sha256 parse lower request disk rows faults store,
      TurnSpares typeKey extractRustSymbols sha256 (queryFilter request) visit) ↔
    ∀ visit ∈ callVisits typeKey extractRustSymbols sha256 parse lower request disk rows faults store,
      TurnIndexed sha256 (queryFilter request) visit :=
  forall₂_congr fun visit _ => turnSparesIff visit

end

/-- A Rust file with a function. -/
def rustFile (name : Text) : DiskFile := ⟨["src".toList,name],11,.ok (some "fn f() \x7b\x7d".toList)⟩

def demoDir : VersionDir := ⟨"demo-1.0.0".toList,true,.ok [rustFile "a.rs".toList,rustFile "b.rs".toList]⟩

def demoVersion : RustdocSync.CrateVersion := ⟨7,"demo".toList,"1.0.0".toList,none,true,none,none⟩

/-- One symbol a content, named for it. -/
def oneSymbol (content : Text) : Except Text (IndexedExtractionBatch Text Text Text) := .ok ⟨[content],[],[]⟩

def indexedRow (path : Text) : IndexedFileRow Text Text Text :=
  ⟨⟨path,"fn f() \x7b\x7d".toList,11,some "rust".toList⟩,⟨["fn f() \x7b\x7d".toList],[],[]⟩⟩

/-- Both files of version 7 are indexed. -/
def bothIndexed : SourceStore Text Text Text := fun id =>
  if id = 7 then ⟨[indexedRow "src/a.rs".toList,indexedRow "src/b.rs".toList],by decide⟩ else ⟨[],List.nodup_nil⟩

def filteredRequest : SyncRequest := ⟨some "demo".toList,none,some "a.rs".toList,none,none,false⟩

/-- A call for one of two indexed files deletes the rows of the other. -/
theorem filterPrunes :
    ∃ visit ∈ callVisits id oneSymbol id Semver.release Str.toAsciiLowercase filteredRequest ⟨[[demoDir]],[]⟩ [demoVersion]
      (fun _ => none) bothIndexed, ¬ TurnSpares id oneSymbol id (queryFilter filteredRequest) visit := by
  have passes : requestedPasses Semver.release Str.toAsciiLowercase filteredRequest ⟨[[demoDir]],[]⟩ [demoVersion] (fun _ => none) =
      .ok [⟨⟨0,demoVersion,demoDir⟩,none⟩] := by rfl
  refine ⟨(⟨⟨0,demoVersion,demoDir⟩,none⟩,bothIndexed),?_,?_⟩
  · rw [callVisits,passes]
    exact List.mem_cons_self
  · rw [turnSparesIff]
    intro indexed
    have filter : queryFilter filteredRequest = some "a.rs".toList := by decide
    rw [filter] at indexed
    have scan : scanContents id (some "a.rs".toList) demoDir =
        .ok [⟨⟨"src/a.rs".toList,"fn f() \x7b\x7d".toList,11,some "rust".toList⟩,"fn f() \x7b\x7d".toList⟩] := by rfl
    have onDisk : OnDisk demoDir "src/b.rs".toList := ⟨_,rfl,rustFile "b.rs".toList,by simp,by decide⟩
    rcases indexed _ scan prunesWhole (indexedRow "src/b.rs".toList) (by decide) onDisk with
      rustdoc | ⟨disk,read,found,mem,path,indexable⟩
    · exact absurd rustdoc (by decide)
    · cases Except.ok.inj read
      have passes : passesFilter (some "a.rs".toList) found = true := indexable.2.1
      rcases List.mem_pair.mp mem with rfl | rfl
      · exact absurd path (by decide)
      · exact absurd passes (by decide)

end RustMcp.Pruning
