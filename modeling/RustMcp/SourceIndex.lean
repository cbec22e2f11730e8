import RustMcp.LocalCache

/-! The source sync with what it extracts from Rust files. A file's hash is recorded by a
statement of its own, before its symbols are extracted and its index rows replaced; the
database may fail at any statement, and what was written before stays. -/
namespace RustMcp.SourceIndex
open Str (Text)
open LocalCache hiding indexVersion syncDir syncDirs upsertSourceFileIfShaChanged
open RustdocSync Utils

/-- What the parser makes of a Rust file. -/
structure IndexedExtractionBatch (S T I : Type) where
  symbols : List S
  types : List T
  impls : List I
  deriving DecidableEq

structure ScannedFile extends IndexedSourceFile where
  content : Text

/-- A `source_files` row with the rows of `symbols`, `crate_types` and `crate_impls` that refer to
it; they are deleted with it. -/
structure IndexedFileRow (S T I : Type) where
  file : SourceFileRow
  indexRows : IndexedExtractionBatch S T I
  deriving DecidableEq

/-- `source_files` of one version, which has at most one row a path. -/
abbrev IndexedFiles (S T I : Type) := Keyed.Table fun row : IndexedFileRow S T I => row.file.path

variable {S T I κ : Type}

def noIndexRows : IndexedExtractionBatch S T I := ⟨[],[],[]⟩

def IndexedExtractionBatch.count (batch : IndexedExtractionBatch S T I) : Nat :=
  batch.symbols.length + batch.types.length + batch.impls.length

/-! Scanning. -/

/-- The path has the filter's text in it. -/
def passesFilter (pathContains : Option Text) (file : DiskFile) : Bool :=
  !pathContains.any fun filter => !Str.contains filter (Str.toAsciiLowercase (relativePath file))

def scanContent (sha256 : Text → Text) (pathContains : Option Text) (file : DiskFile) : Except Text (Option ScannedFile) :=
  if !passesFilter pathContains file then .ok none
  else if file.size > maxTextFileBytes then .ok none
  else file.content.map fun content =>
    content.map fun text => ⟨⟨relativePath file,sha256 text,file.size,extensionLanguage file.name⟩,text⟩

def scanContents (sha256 : Text → Text) (pathContains : Option Text) (dir : VersionDir) : Except Text (List ScannedFile) := do
  let files ← dir.files
  let scanned ← (Ranking.sortBy DiskFile.path (files.filter isTextFile)).mapM (scanContent sha256 pathContains)
  return scanned.filterMap id

/-! One file. -/

def upsertSourceFileIfShaChanged (table : IndexedFiles S T I) (file : ScannedFile) : Option (IndexedFiles S T I) :=
  match table.lookup file.relativePath with
  | none => some (table.upsert ⟨sourceFileRow file.toIndexedSourceFile,noIndexRows⟩)
  | some row =>
      if row.file.sha256 = file.sha256 then none
      else some (table.upsert {row with file := sourceFileRow file.toIndexedSourceFile})

/-- The table once the file's hash is recorded. -/
def recordFile (table : IndexedFiles S T I) (file : ScannedFile) : IndexedFiles S T I :=
  (upsertSourceFileIfShaChanged table file).getD table

def countSourceFileIndexRows (table : IndexedFiles S T I) (path : Text) : Nat :=
  ((table.lookup path).map fun row => row.indexRows.count).getD 0

def replaceSourceFileIndexRows (table : IndexedFiles S T I) (path : Text) (batch : IndexedExtractionBatch S T I) :
    IndexedFiles S T I :=
  match table.lookup path with
  | none => table
  | some row => table.upsert {row with indexRows := batch}

section
variable [DecidableEq κ] (typeKey : T → κ) (extractRustSymbols : Text → Except Text (IndexedExtractionBatch S T I))

/-- The rows that a batch is inserted as: of the types of one name and kind, the first. -/
def insertedRows (batch : IndexedExtractionBatch S T I) : IndexedExtractionBatch S T I :=
  {batch with types := (batch.types.foldl Keyed.Table.ensure (⟨[],List.nodup_nil⟩ : Keyed.Table typeKey)).rows}

/-- None where the content does not parse. -/
def extractedRows (content : Text) : IndexedExtractionBatch S T I :=
  match extractRustSymbols content with
  | .ok batch => insertedRows typeKey batch
  | .error _ => noIndexRows

/-- Rust files are extracted when their hash has changed, or when they have no rows. -/
def extracts (table : IndexedFiles S T I) (file : ScannedFile) : Bool :=
  file.language = some "rust".toList &&
    ((upsertSourceFileIfShaChanged table file).isSome || countSourceFileIndexRows (recordFile table file) file.relativePath = 0)

/-- A file that does not parse is passed over, with the rows that it has. -/
def indexFile (table : IndexedFiles S T I) (file : ScannedFile) : IndexedFiles S T I :=
  if extracts table file then
    match extractRustSymbols file.content with
    | .error _ => recordFile table file
    | .ok batch => replaceSourceFileIndexRows (recordFile table file) file.relativePath (insertedRows typeKey batch)
  else recordFile table file

def indexFiles (files : List ScannedFile) (table : IndexedFiles S T I) : IndexedFiles S T I :=
  files.foldl (indexFile typeKey extractRustSymbols) table

/-! One version, and where the database fails. -/

/-- How far it has come with a file, or with the pruning, when the failure is reported. -/
inductive Point where
  | unwritten | recorded | replaced
  deriving DecidableEq

/-- The file at which the database fails; behind the last one are the pruning's statements. -/
structure Fault where
  file : Nat
  point : Point

def stopAt (point : Point) (table : IndexedFiles S T I) (file : ScannedFile) : IndexedFiles S T I :=
  match point with
  | .unwritten => table
  | .recorded => recordFile table file
  | .replaced => indexFile typeKey extractRustSymbols table file

def pruneSourceFileIndexAndFiles (seenPaths : List Text) (table : IndexedFiles S T I) : IndexedFiles S T I :=
  table.delete fun row => !(seenPaths.contains row.file.path || underRustdocPrefix row.file.path)

/-- The table that is left, and whether the version was completed. -/
def indexVersion (fault : Option Fault) (files : List ScannedFile) (table : IndexedFiles S T I) : IndexedFiles S T I × Bool :=
  let indexed := indexFiles typeKey extractRustSymbols files table
  let pruned := pruneSourceFileIndexAndFiles (files.map fun file => file.relativePath) indexed
  match fault with
  | none => (pruned,true)
  | some fault =>
      match files[fault.file]? with
      | some file =>
          (stopAt typeKey extractRustSymbols fault.point (indexFiles typeKey extractRustSymbols (files.take fault.file) table) file,
            false)
      | none => (if fault.point = .replaced then pruned else indexed,false)

/-! One call. -/

/-- `source_files` of every version. -/
abbrev SourceStore (S T I : Type) := Nat → IndexedFiles S T I

/-- A version directory and the failure that the database has in store for it. -/
structure Pass where
  dir : SourceDir
  fault : Option Fault

variable (sha256 : Text → Text) (pathContains : Option Text)

/-- Directories that cannot be scanned are passed over. -/
def syncDir (store : SourceStore S T I) (pass : Pass) : SourceStore S T I × Bool :=
  match scanContents sha256 pathContains pass.dir.dir with
  | .error _ => (store,true)
  | .ok files =>
      let (table,completed) := indexVersion typeKey extractRustSymbols pass.fault files (store pass.dir.row.id)
      (Function.update store pass.dir.row.id table,completed)

/-- A failure ends the call. -/
def syncDirs : List Pass → SourceStore S T I → SourceStore S T I × Bool
  | [],store => (store,true)
  | pass::rest,store =>
      match syncDir typeKey extractRustSymbols sha256 pathContains store pass with
      | (store,true) => syncDirs rest store
      | (store,false) => (store,false)

structure SyncRequest where
  crateName : Option Text
  version : Option Text
  query : Option Text
  page : Option Nat
  perPage : Option Nat
  locallyPresentOnly : Bool

/-- The directories of a page, newest versions first. -/
def requestedDirs {V : Type} [LinearOrder V] (parse : Text → Option V) (lower : Text → Text) (request : SyncRequest)
    (crateName : Option Text) (disk : SourceDisk) (rows : List CrateVersion) : List SourceDir :=
  ((Ranking.sortBy (dirOrder parse)
    (sourceDirs (fetchLocalCacheVersionKeys lower crateName request.version request.locallyPresentOnly rows) disk)).drop
      (pageOffset request.page request.perPage)).take (syncPerPage request.perPage)

def queryFilter (request : SyncRequest) : Option Text := (normalizeOptional request.query).map Str.toAsciiLowercase

def requestedCrate (request : SyncRequest) : Except Text (Option Text) :=
  match request.crateName with
  | none => .ok none
  | some name => (normalizeRequired name "crate_name".toList).map some

/-- The directories of a call; `faults` gives the failure at each of them, if there is one. -/
def requestedPasses {V : Type} [LinearOrder V] (parse : Text → Option V) (lower : Text → Text) (request : SyncRequest)
    (disk : SourceDisk) (rows : List CrateVersion) (faults : Nat → Option Fault) : Except Text (List Pass) :=
  (requestedCrate request).map fun crateName =>
    (requestedDirs parse lower request crateName disk rows).mapIdx fun i dir => ⟨dir,faults i⟩

def syncLocalSourceCache {V : Type} [LinearOrder V] (parse : Text → Option V) (lower : Text → Text) (request : SyncRequest)
    (disk : SourceDisk) (rows : List CrateVersion) (faults : Nat → Option Fault) (store : SourceStore S T I) :
    SourceStore S T I × Bool :=
  match requestedPasses parse lower request disk rows faults with
  | .error _ => (store,false)
  | .ok passes => syncDirs typeKey extractRustSymbols sha256 (queryFilter request) passes store

/-- The directories that a call gets to, each with what it finds of the store. -/
def visits : List Pass → SourceStore S T I → List (Pass × SourceStore S T I)
  | [],_ => []
  | pass::rest,store =>
      (pass,store)::(if (syncDir typeKey extractRustSymbols sha256 pathContains store pass).2 then
        visits rest (syncDir typeKey extractRustSymbols sha256 pathContains store pass).1 else [])

/-- None where the request is refused. -/
def callVisits {V : Type} [LinearOrder V] (parse : Text → Option V) (lower : Text → Text) (request : SyncRequest)
    (disk : SourceDisk) (rows : List CrateVersion) (faults : Nat → Option Fault) (store : SourceStore S T I) :
    List (Pass × SourceStore S T I) :=
  match requestedPasses parse lower request disk rows faults with
  | .error _ => []
  | .ok passes => visits typeKey extractRustSymbols sha256 (queryFilter request) passes store

variable {typeKey extractRustSymbols sha256 pathContains}

theorem syncDirScanned {store : SourceStore S T I} {pass : Pass} {files : List ScannedFile}
    (scan : scanContents sha256 pathContains pass.dir.dir = .ok files) :
    syncDir typeKey extractRustSymbols sha256 pathContains store pass =
      (Function.update store pass.dir.row.id
        (indexVersion typeKey extractRustSymbols pass.fault files (store pass.dir.row.id)).1,
        (indexVersion typeKey extractRustSymbols pass.fault files (store pass.dir.row.id)).2) := by
  rw [syncDir,scan]

end
/-! What is done to one file leaves the others as they are. -/

section
variable {table : IndexedFiles S T I} {file : ScannedFile}

theorem recordOther {path : Text} (other : path ≠ file.relativePath) : (recordFile table file).lookup path = table.lookup path := by
  rw [recordFile,upsertSourceFileIfShaChanged]
  cases held : table.lookup file.relativePath with
  | none => exact (Keyed.Table.lookupUpsert _ _ _).trans (if_neg (Ne.symm other))
  | some row =>
    by_cases same : row.file.sha256 = file.sha256
    · simp only [if_pos same,Option.getD_none]
    · simp only [if_neg same,Option.getD_some]
      exact (Keyed.Table.lookupUpsert _ _ _).trans (if_neg (Ne.symm other))

theorem recordNew (absent : table.lookup file.relativePath = none) :
    (recordFile table file).lookup file.relativePath = some ⟨sourceFileRow file.toIndexedSourceFile,noIndexRows⟩ ∧
      (upsertSourceFileIfShaChanged table file).isSome = true := by
  rw [recordFile,upsertSourceFileIfShaChanged,absent]
  exact ⟨(Keyed.Table.lookupUpsert _ _ _).trans (if_pos rfl),rfl⟩

theorem recordSame {row : IndexedFileRow S T I} (held : table.lookup file.relativePath = some row)
    (same : row.file.sha256 = file.sha256) :
    recordFile table file = table ∧ (upsertSourceFileIfShaChanged table file).isSome = false := by
  rw [recordFile,upsertSourceFileIfShaChanged,held]
  simp only [if_pos same]
  exact ⟨rfl,rfl⟩

theorem recordChanged {row : IndexedFileRow S T I} (held : table.lookup file.relativePath = some row)
    (changed : row.file.sha256 ≠ file.sha256) :
    (recordFile table file).lookup file.relativePath = some {row with file := sourceFileRow file.toIndexedSourceFile} ∧
      (upsertSourceFileIfShaChanged table file).isSome = true := by
  rw [recordFile,upsertSourceFileIfShaChanged,held]
  simp only [if_neg changed]
  exact ⟨(Keyed.Table.lookupUpsert _ _ _).trans (if_pos rfl),rfl⟩

theorem replaceOwn {path : Text} {row : IndexedFileRow S T I} {batch : IndexedExtractionBatch S T I}
    (held : table.lookup path = some row) :
    (replaceSourceFileIndexRows table path batch).lookup path = some {row with indexRows := batch} := by
  rw [replaceSourceFileIndexRows,held]
  exact (Keyed.Table.lookupUpsert _ _ _).trans (if_pos (Keyed.Table.lookupIff.mp held).2)

theorem replaceOther {path other : Text} {batch : IndexedExtractionBatch S T I} (differ : other ≠ path) :
    (replaceSourceFileIndexRows table path batch).lookup other = table.lookup other := by
  rw [replaceSourceFileIndexRows]
  cases held : table.lookup path with
  | none => rfl
  | some row =>
    refine (Keyed.Table.lookupUpsert _ _ _).trans (if_neg fun same => differ ?_)
    exact same.symm.trans (Keyed.Table.lookupIff.mp held).2

variable [DecidableEq κ] {typeKey : T → κ} {extractRustSymbols : Text → Except Text (IndexedExtractionBatch S T I)}

theorem indexOther {path : Text} (other : path ≠ file.relativePath) :
    (indexFile typeKey extractRustSymbols table file).lookup path = table.lookup path := by
  unfold indexFile
  split
  · cases extractRustSymbols file.content with
    | error _ => exact recordOther other
    | ok batch => exact (replaceOther other).trans (recordOther other)
  · exact recordOther other

theorem recordHeld (table : IndexedFiles S T I) (file : ScannedFile) :
    ∃ row, (recordFile table file).lookup file.relativePath = some row ∧ row.file.sha256 = file.sha256 := by
  cases held : table.lookup file.relativePath with
  | none => exact ⟨_,(recordNew held).1,rfl⟩
  | some row =>
    by_cases same : row.file.sha256 = file.sha256
    · exact ⟨row,by rw [(recordSame held same).1,held],same⟩
    · exact ⟨_,(recordChanged held same).1,rfl⟩

theorem indexHeld : ∃ row, (indexFile typeKey extractRustSymbols table file).lookup file.relativePath = some row ∧
    row.file.sha256 = file.sha256 := by
  obtain ⟨row,held,same⟩ := recordHeld table file
  unfold indexFile
  split
  · cases extractRustSymbols file.content with
    | error _ => exact ⟨row,held,same⟩
    | ok batch => exact ⟨_,replaceOwn held,same⟩
  · exact ⟨row,held,same⟩

theorem indexUnchanged {row : IndexedFileRow S T I} (held : table.lookup file.relativePath = some row)
    (same : row.file.sha256 = file.sha256) (some_ : row.indexRows.count ≠ 0) :
    indexFile typeKey extractRustSymbols table file = table := by
  obtain ⟨kept,unwritten⟩ := recordSame held same
  have idle : extracts table file = false := by
    rw [extracts,unwritten,countSourceFileIndexRows,kept,held]
    simp [some_]
  rw [indexFile,idle,kept]
  rfl

theorem indexFilesConcat (files : List ScannedFile) (file : ScannedFile) (table : IndexedFiles S T I) :
    indexFiles typeKey extractRustSymbols (files ++ [file]) table =
      indexFile typeKey extractRustSymbols (indexFiles typeKey extractRustSymbols files table) file := by
  simp [indexFiles]

theorem indexFilesTake {files : List ScannedFile} {i : Nat} {file : ScannedFile} (here : files[i]? = some file)
    (table : IndexedFiles S T I) :
    indexFiles typeKey extractRustSymbols (files.take (i + 1)) table =
      indexFile typeKey extractRustSymbols (indexFiles typeKey extractRustSymbols (files.take i) table) file := by
  obtain ⟨inside,same⟩ := List.getElem?_eq_some_iff.mp here
  rw [List.take_succ_eq_append_getElem inside,same,indexFilesConcat]

end
/-! What is scanned. -/

section
variable {sha256 : Text → Text} {pathContains : Option Text}

/-- The file is one that is indexed: text, under the limit, and within the filter. -/
def Indexable (pathContains : Option Text) (file : DiskFile) : Prop :=
  isTextFile file = true ∧ passesFilter pathContains file = true ∧ file.size ≤ maxTextFileBytes ∧
    ∃ text, file.content = .ok (some text)

theorem scanContentSome {file : DiskFile} {scanned : ScannedFile} (text : isTextFile file = true) :
    scanContent sha256 pathContains file = .ok (some scanned) ↔
      Indexable pathContains file ∧ ∃ content, file.content = .ok (some content) ∧
        scanned = ⟨⟨relativePath file,sha256 content,file.size,extensionLanguage file.name⟩,content⟩ := by
  unfold scanContent
  by_cases passes : passesFilter pathContains file = true
  · by_cases large : file.size > maxTextFileBytes
    · simp [passes,large,Indexable]
    · have small : file.size ≤ maxTextFileBytes := Nat.le_of_not_lt large
      cases content : file.content with
      | error _ => simp [passes,large,Indexable,Except.map,content]
      | ok read =>
        cases read with
        | none => simp [passes,large,Indexable,Except.map,content]
        | some read => simp [passes,large,small,text,Indexable,Except.map,content,eq_comm]
  · simp [passes,Indexable]

theorem scanned {dir : VersionDir} {files : List ScannedFile} (scan : scanContents sha256 pathContains dir = .ok files) :
    ∃ disk, dir.files = .ok disk ∧ ∀ file, file ∈ files ↔ ∃ found ∈ disk, Indexable pathContains found ∧
      ∃ content, found.content = .ok (some content) ∧
        file = ⟨⟨relativePath found,sha256 content,found.size,extensionLanguage found.name⟩,content⟩ := by
  unfold scanContents at scan
  cases read : dir.files with
  | error _ => rw [read] at scan; contradiction
  | ok disk =>
    rw [read] at scan
    refine ⟨disk,rfl,fun file => ?_⟩
    change ((Ranking.sortBy DiskFile.path (disk.filter isTextFile)).mapM (scanContent sha256 pathContains) >>= _) = _ at scan
    cases all : (Ranking.sortBy DiskFile.path (disk.filter isTextFile)).mapM (scanContent sha256 pathContains) with
    | error _ => rw [all] at scan; contradiction
    | ok results =>
      rw [all] at scan
      cases Except.ok.inj scan
      simp only [List.mem_filterMap,id,exists_eq_right]
      rw [mapMOk all]
      simp only [Ranking.memSortBy,List.mem_filter]
      constructor
      · rintro ⟨found,⟨inside,text⟩,read⟩
        exact ⟨found,inside,(scanContentSome text).mp read⟩
      · rintro ⟨found,inside,indexable,content⟩
        exact ⟨found,⟨inside,indexable.1⟩,(scanContentSome indexable.1).mpr ⟨indexable,content⟩⟩

/-- The paths that a scan has seen are those of the files that are indexed. -/
theorem seenIff {dir : VersionDir} {files : List ScannedFile} (scan : scanContents sha256 pathContains dir = .ok files)
    {disk : List DiskFile} (read : dir.files = .ok disk) (path : Text) :
    path ∈ files.map (fun file => file.relativePath) ↔ ∃ found ∈ disk, relativePath found = path ∧ Indexable pathContains found := by
  obtain ⟨disk',read',mem⟩ := scanned scan
  cases Except.ok.inj (read.symm.trans read')
  simp only [List.mem_map,mem]
  constructor
  · rintro ⟨_,⟨found,inside,indexable,content,_,rfl⟩,rfl⟩
    exact ⟨found,inside,rfl,indexable⟩
  · rintro ⟨found,inside,rfl,indexable⟩
    obtain ⟨content,has⟩ := indexable.2.2.2
    exact ⟨_,⟨found,inside,indexable,content,has,rfl⟩,rfl⟩

/-! A file's language goes by its path, whatever separators that is written with. -/

theorem joinLast (parts : List Text) : ∃ before, Str.join "/".toList parts = before ++ parts.getLastD [] := by
  induction parts with
  | nil => exact ⟨[],rfl⟩
  | cons part rest ih =>
    cases rest with
    | nil => exact ⟨[],by simp [Str.join]⟩
    | cons next more =>
      obtain ⟨before,same⟩ := ih
      exact ⟨part ++ ("/".toList ++ before),by rw [Str.joinCons,same]; simp [List.getLastD]⟩

theorem extensionTail {name suffix : Text} (has : extension name = some suffix) :
    suffix = (name.reverse.takeWhile (· ≠ '.')).reverse ∧ '.' ∈ name := by
  unfold extension at has
  split at has
  · rename_i dotted
    dsimp only at has
    split at has
    · contradiction
    · refine ⟨(Option.some.inj has).symm,?_⟩
      rcases Bool.or_eq_true_iff.mp dotted with inside | last
      · exact List.mem_of_mem_dropLast (List.contains_iff_mem.mp inside)
      · exact List.mem_of_getLast? (of_decide_eq_true last)
  · contradiction

/-- The extension of a text file can be read off the path. -/
theorem textExtension {file : DiskFile} (text : isTextFile file = true) :
    extension file.name = some ((relativePath file).reverse.takeWhile (· ≠ '.')).reverse := by
  obtain ⟨language,found⟩ := Option.isSome_iff_exists.mp text
  obtain ⟨suffix,has,known⟩ := Option.bind_eq_some_iff.mp found
  obtain ⟨entry,listed,_⟩ := Option.map_eq_some_iff.mp known
  obtain ⟨same,dotted⟩ := extensionTail has
  have plain : suffix.map (fun c => if c = '\\' then '/' else c) = suffix := by
    have key : entry.1 = suffix := by simpa using List.find?_some listed
    rw [← key]
    have each : ∀ entry ∈ languages, entry.1.map (fun c => if c = '\\' then '/' else c) = entry.1 := by decide
    exact each entry (List.mem_of_find?_eq_some listed)
  obtain ⟨before,joined⟩ := joinLast file.path
  have dots : ((fun c : Char => decide (c ≠ '.')) ∘ fun c => if c = '\\' then '/' else c) = fun c => decide (c ≠ '.') := by
    funext c
    by_cases slash : c = '\\'
    · subst slash; decide
    · simp [slash]
  have short : (file.name.reverse.takeWhile fun c => decide (c ≠ '.')).length ≠ file.name.reverse.length := by
    intro whole
    have all := List.takeWhile_eq_self_iff.mp ((List.takeWhile_prefix _).eq_of_length whole)
    have bad := all '.' (List.mem_reverse.mpr dotted)
    simp at bad
  rw [has,relativePath,joined,← List.map_reverse,List.reverse_append,List.takeWhile_map,dots,List.takeWhile_append]
  change _ = some (List.map _
    (if (file.name.reverse.takeWhile fun c => decide (c ≠ '.')).length = file.name.reverse.length then _ else _)).reverse
  rw [if_neg short,← List.map_reverse]
  change some suffix = some (List.map _ (file.name.reverse.takeWhile (· ≠ '.')).reverse)
  rw [← same,plain]

theorem scannedLanguage {dir : VersionDir} {files : List ScannedFile} (scan : scanContents sha256 pathContains dir = .ok files)
    {file other : ScannedFile} (mem : file ∈ files) (mem' : other ∈ files) (path : file.relativePath = other.relativePath) :
    file.language = other.language := by
  obtain ⟨_,_,all⟩ := scanned scan
  obtain ⟨found,_,indexable,_,_,rfl⟩ := (all file).mp mem
  obtain ⟨found',_,indexable',_,_,rfl⟩ := (all other).mp mem'
  change relativePath found = relativePath found' at path
  change extensionLanguage found.name = extensionLanguage found'.name
  rw [extensionLanguage,extensionLanguage,textExtension indexable.1,textExtension indexable'.1,path]

theorem scannedHash {dir : VersionDir} {files : List ScannedFile} (scan : scanContents sha256 pathContains dir = .ok files)
    {file : ScannedFile} (mem : file ∈ files) : file.sha256 = sha256 file.content := by
  obtain ⟨_,_,all⟩ := scanned scan
  obtain ⟨_,_,_,_,_,rfl⟩ := (all file).mp mem
  rfl

end
end RustMcp.SourceIndex
