import RustMcp.Keyed
import RustMcp.RustdocSync

/-! The source sync: version directories of the cargo registry and of the download
cache, one page of them, and the `source_files` rows that are left of each. The
symbols of Rust files are extracted into other tables and are left out. -/
namespace RustMcp.LocalCache
open Str (Text)
open RustdocSync Utils

/-! Directories and their files. -/

/-- A regular file; `content` is `none` where it holds a NUL or is not UTF-8. -/
structure DiskFile where
  path : List Text
  size : Nat
  content : Except Text (Option Text)

structure VersionDir where
  name : Text
  isDir : Bool
  /-- `walk_text_files` fails as a whole -/
  files : Except Text (List DiskFile)

structure SourceDisk where
  /-- the directories under `src`, each with its entries, in the order in which they are read -/
  registries : List (List VersionDir)
  cache : List VersionDir

structure IndexedSourceFile where
  relativePath : Text
  sha256 : Text
  fileSize : Nat
  language : Option Text

/-- What follows the last dot of a file name that does not begin with it. -/
def extension (name : Text) : Option Text :=
  if name.dropLast.contains '.' || name.getLast? = some '.' then
    let stem := (name.reverse.dropWhile (· ≠ '.')).drop 1
    if stem = [] then none else some (name.reverse.takeWhile (· ≠ '.')).reverse
  else none

def languages : List (Text × Text) :=
  [("rs".toList,"rust".toList),("toml".toList,"toml".toList),("md".toList,"markdown".toList),("json".toList,"json".toList),
    ("yaml".toList,"yaml".toList),("yml".toList,"yaml".toList),("txt".toList,"text".toList)]

def extensionLanguage (name : Text) : Option Text :=
  (extension name).bind fun suffix => (languages.find? fun language => language.1 = suffix).map Prod.snd

def DiskFile.name (file : DiskFile) : Text := file.path.getLastD []

def isTextFile (file : DiskFile) : Bool := (extensionLanguage file.name).isSome

def relativePath (file : DiskFile) : Text := (Str.join "/".toList file.path).map fun c => if c = '\\' then '/' else c

def maxTextFileBytes : Nat := 512 * 1024

section
variable (sha256 : Text → Text)

def scanFile (pathContains : Option Text) (file : DiskFile) : Except Text (Option IndexedSourceFile) :=
  if pathContains.any fun filter => !Str.contains filter (Str.toAsciiLowercase (relativePath file)) then .ok none
  else if file.size > maxTextFileBytes then .ok none
  else file.content.map fun content =>
    content.map fun text => ⟨relativePath file,sha256 text,file.size,extensionLanguage file.name⟩

def scanCacheVersionDir (pathContains : Option Text) (dir : VersionDir) : Except Text (List IndexedSourceFile) := do
  let files ← dir.files
  let scanned ← (Ranking.sortBy DiskFile.path (files.filter isTextFile)).mapM (scanFile sha256 pathContains)
  return scanned.filterMap id

end

/-! Candidates. -/

def cacheDirName (row : CrateVersion) : Text := row.crateName ++ "-".toList ++ row.version

def fetchLocalCacheVersionKeys (lower : Text → Text) (crateName version : Option Text) (locallyPresentOnly : Bool)
    (rows : List CrateVersion) : List CrateVersion :=
  rows.filter fun row =>
    crateName.all (fun name => lower row.crateName = lower name) && (!locallyPresentOnly || row.locallyPresent) &&
      version.all (fun version => row.version = version)

/-- A directory that is named for a version, and its place in the order in which they are found. -/
structure SourceDir where
  found : Nat
  row : CrateVersion
  dir : VersionDir

/-- The map from directory names keeps the last row of a name. -/
def mappedDir (keys : List CrateVersion) (dir : VersionDir) : Option (CrateVersion × VersionDir) :=
  if dir.isDir then ((keys.filter fun row => cacheDirName row = dir.name).getLast?).map fun row => (row,dir) else none

/-- The cache adds what the registry does not have under the same name. -/
def foundDirs (keys : List CrateVersion) (disk : SourceDisk) : List (CrateVersion × VersionDir) :=
  (disk.cache.filterMap (mappedDir keys)).foldl
    (fun found dir => if found.any fun other => other.2.name = dir.2.name then found else found ++ [dir])
    (disk.registries.flatten.filterMap (mappedDir keys))

def sourceDirs (keys : List CrateVersion) (disk : SourceDisk) : List SourceDir :=
  (foundDirs keys disk).mapIdx fun i dir => ⟨i,dir.1,dir.2⟩

section
variable {V : Type} [LinearOrder V] (parse : Text → Option V)

/-- The sort is stable. -/
def dirOrder (dir : SourceDir) : (Bool ×ₗ Text ×ₗ (WithBot V)ᵒᵈ) ×ₗ Nat :=
  toLex (newestFirst parse dir.dir.name dir.row.version,dir.found)

def pageOffset (page perPage : Option Nat) : Nat := (syncPage page - 1) * syncPerPage perPage

def selectedDirs (lower : Text → Text) (crateName : Option Text) (page perPage : Option Nat) (locallyPresentOnly : Bool)
    (disk : SourceDisk) (rows : List CrateVersion) : List SourceDir :=
  ((Ranking.sortBy (dirOrder parse)
    (sourceDirs (fetchLocalCacheVersionKeys lower crateName none locallyPresentOnly rows) disk)).drop
      (pageOffset page perPage)).take (syncPerPage perPage)

end

/-! The rows. -/

structure SourceFileRow where
  path : Text
  sha256 : Text
  fileSize : Nat
  language : Option Text
  deriving DecidableEq

/-- The `source_files` rows of each version. -/
abbrev SourceRows := Nat → List SourceFileRow

def sourceFileRow (file : IndexedSourceFile) : SourceFileRow := ⟨file.relativePath,file.sha256,file.fileSize,file.language⟩

def upsertSourceFileIfShaChanged (rows : List SourceFileRow) (file : IndexedSourceFile) : List SourceFileRow :=
  if rows.any fun row => row.path = file.relativePath && row.sha256 = file.sha256 then rows
  else Keyed.put SourceFileRow.path (sourceFileRow file) rows

def underRustdocPrefix (path : Text) : Bool := Str.startsWith rustdocSourcePathPrefix path

def pruneSourceFiles (seenPaths : List Text) (rows : List SourceFileRow) : List SourceFileRow :=
  rows.filter fun row => seenPaths.contains row.path || underRustdocPrefix row.path

def indexVersion (files : List IndexedSourceFile) (rows : List SourceFileRow) : List SourceFileRow :=
  pruneSourceFiles (files.map IndexedSourceFile.relativePath) (files.foldl upsertSourceFileIfShaChanged rows)

/-- Directories that cannot be scanned are passed over. -/
def syncDir (sha256 : Text → Text) (pathContains : Option Text) (rows : SourceRows) (dir : SourceDir) : SourceRows :=
  match scanCacheVersionDir sha256 pathContains dir.dir with
  | .error _ => rows
  | .ok files => Function.update rows dir.row.id (indexVersion files (rows dir.row.id))

def syncDirs (sha256 : Text → Text) (pathContains : Option Text) (dirs : List SourceDir) (rows : SourceRows) : SourceRows :=
  dirs.foldl (syncDir sha256 pathContains) rows

def hasSourceFiles (rows : SourceRows) (crateVersionId : Nat) : Bool :=
  (rows crateVersionId).any fun row => !underRustdocPrefix row.path

/-! What a sync leaves of one version. -/

theorem pathsPut (row : SourceFileRow) (rows : List SourceFileRow) (path : Text) :
    path ∈ (Keyed.put SourceFileRow.path row rows).map SourceFileRow.path ↔ path = row.path ∨ path ∈ rows.map SourceFileRow.path := by
  rcases Keyed.putKeys SourceFileRow.path row rows with kept | ⟨_,grown⟩
  · have held : row.path ∈ (Keyed.put SourceFileRow.path row rows).map SourceFileRow.path := by
      refine List.mem_map_of_mem (f := SourceFileRow.path) (a := row) ?_
      clear kept
      induction rows with
      | nil => simp [Keyed.put]
      | cons r rs ih =>
        unfold Keyed.put
        split
        · simp
        · exact List.mem_cons_of_mem _ ih
    rw [kept] at held ⊢
    exact ⟨Or.inr,fun h => h.elim (fun same => same ▸ held) id⟩
  · rw [grown,List.mem_append,List.mem_singleton,or_comm]

theorem pathsUpsert (rows : List SourceFileRow) (file : IndexedSourceFile) (path : Text) :
    path ∈ (upsertSourceFileIfShaChanged rows file).map SourceFileRow.path ↔
      path = file.relativePath ∨ path ∈ rows.map SourceFileRow.path := by
  unfold upsertSourceFileIfShaChanged
  split
  · rename_i same
    simp only [List.any_eq_true,Bool.and_eq_true,decide_eq_true_eq] at same
    obtain ⟨row,mem,here,_⟩ := same
    exact ⟨Or.inr,fun h => h.elim (fun eq => eq ▸ here ▸ List.mem_map_of_mem mem) id⟩
  · exact pathsPut (sourceFileRow file) rows path

theorem pathsUpserts (files : List IndexedSourceFile) (rows : List SourceFileRow) (path : Text) :
    path ∈ (files.foldl upsertSourceFileIfShaChanged rows).map SourceFileRow.path ↔
      path ∈ files.map IndexedSourceFile.relativePath ∨ path ∈ rows.map SourceFileRow.path := by
  induction files generalizing rows with
  | nil => simp
  | cons file files ih =>
    rw [List.foldl_cons,ih,pathsUpsert]
    simp only [List.map_cons,List.mem_cons]
    tauto

/-- After a scan the version has source files exactly if some file was scanned outside the prefix. -/
theorem indexedAny (files : List IndexedSourceFile) (rows : List SourceFileRow) :
    (indexVersion files rows).any (fun row => !underRustdocPrefix row.path) = true ↔
      ∃ file ∈ files, underRustdocPrefix file.relativePath = false := by
  simp only [List.any_eq_true,Bool.not_eq_true']
  constructor
  · rintro ⟨row,mem,outside⟩
    obtain ⟨_,seen⟩ := List.mem_filter.mp mem
    rw [outside,Bool.or_false,List.contains_iff_mem] at seen
    obtain ⟨file,there,same⟩ := List.mem_map.mp seen
    exact ⟨file,there,same ▸ outside⟩
  · rintro ⟨file,there,outside⟩
    have path := (pathsUpserts files rows file.relativePath).mpr (Or.inl (List.mem_map_of_mem there))
    obtain ⟨row,mem,same⟩ := List.mem_map.mp path
    refine ⟨row,List.mem_filter.mpr ⟨mem,?_⟩,same ▸ outside⟩
    rw [same,outside,Bool.or_false,List.contains_iff_mem]
    exact List.mem_map_of_mem there

/-- The last of the directories that belongs to the version and can be scanned yields these files. -/
def LastScan (sha256 : Text → Text) (pathContains : Option Text) (id : Nat) (dirs : List SourceDir)
    (files : List IndexedSourceFile) : Prop :=
  ∃ before dir after, dirs = before ++ dir::after ∧ dir.row.id = id ∧
    scanCacheVersionDir sha256 pathContains dir.dir = .ok files ∧
    ∀ later ∈ after, later.row.id = id → ∀ files', scanCacheVersionDir sha256 pathContains later.dir ≠ .ok files'

section
variable {sha256 : Text → Text} {pathContains : Option Text} {id : Nat}

theorem lastScanConcat {dirs : List SourceDir} {dir : SourceDir} {files : List IndexedSourceFile} :
    LastScan sha256 pathContains id (dirs ++ [dir]) files ↔
      (dir.row.id = id ∧ scanCacheVersionDir sha256 pathContains dir.dir = .ok files) ∨
      ((dir.row.id = id → ∀ files', scanCacheVersionDir sha256 pathContains dir.dir ≠ .ok files') ∧
        LastScan sha256 pathContains id dirs files) := by
  constructor
  · rintro ⟨before,here,after,shape,same,scan,later⟩
    cases after using List.reverseRecOn with
    | nil =>
      have parts := List.append_inj' shape rfl
      cases (List.cons.inj parts.2).1
      exact Or.inl ⟨same,scan⟩
    | append_singleton after last =>
      have whole : dirs ++ [dir] = (before ++ here::after) ++ [last] := by simpa using shape
      have parts := List.append_inj' whole rfl
      cases (List.cons.inj parts.2).1
      exact Or.inr ⟨later dir (by simp),before,here,after,parts.1,same,scan,fun d mem => later d (by simp [mem])⟩
  · rintro (⟨same,scan⟩ | ⟨last,before,here,after,rfl,same,scan,later⟩)
    · exact ⟨dirs,dir,[],rfl,same,scan,by simp⟩
    · refine ⟨before,here,after ++ [dir],by simp,same,scan,fun d mem => ?_⟩
      rcases List.mem_append.mp mem with old | new
      · exact later d old
      · rw [List.mem_singleton.mp new]; exact last

/-- The version's rows are those of its last scan, and are kept where it has none. -/
theorem sourceAfter (dirs : List SourceDir) (rows : SourceRows) (id : Nat) :
    hasSourceFiles (syncDirs sha256 pathContains dirs rows) id = true ↔
      (∃ files, LastScan sha256 pathContains id dirs files ∧ ∃ file ∈ files, underRustdocPrefix file.relativePath = false) ∨
      ((∀ files, ¬ LastScan sha256 pathContains id dirs files) ∧ hasSourceFiles rows id = true) := by
  induction dirs using List.reverseRecOn with
  | nil => simp [syncDirs,LastScan]
  | append_singleton dirs dir ih =>
    have last : syncDirs sha256 pathContains (dirs ++ [dir]) rows =
        syncDir sha256 pathContains (syncDirs sha256 pathContains dirs rows) dir := by simp [syncDirs]
    rw [last,syncDir]
    simp only [lastScanConcat]
    cases scan : scanCacheVersionDir sha256 pathContains dir.dir with
    | error message => simpa using ih
    | ok scanned =>
      by_cases mine : dir.row.id = id
      · subst mine
        have now := indexedAny scanned ((syncDirs sha256 pathContains dirs rows) dir.row.id)
        simpa [hasSourceFiles] using now
      · have other : hasSourceFiles (Function.update (syncDirs sha256 pathContains dirs rows) dir.row.id
            (indexVersion scanned ((syncDirs sha256 pathContains dirs rows) dir.row.id))) id =
            hasSourceFiles (syncDirs sha256 pathContains dirs rows) id := by
          simp [hasSourceFiles,Function.update_of_ne (Ne.symm mine)]
        rw [other]
        simpa [mine] using ih

theorem foundOnce (keys : List CrateVersion) (disk : SourceDisk) : ((sourceDirs keys disk).map SourceDir.found).Nodup := by
  have numbered : (sourceDirs keys disk).map SourceDir.found = List.range (foundDirs keys disk).length := by
    refine List.ext_getElem (by simp [sourceDirs]) fun i inside _ => ?_
    simp [sourceDirs]
  rw [numbered]
  exact List.nodup_range

theorem dirOrderFound {V : Type} [LinearOrder V] {parse : Text → Option V} {dir other : SourceDir}
    (same : dirOrder parse dir = dirOrder parse other) : dir.found = other.found :=
  (Prod.mk.inj same).2

/-- In a sorted list, what comes after a directory are those of higher keys. -/
theorem lastScanSorted {κ : Type} [LinearOrder κ] {key : SourceDir → κ} {dirs : List SourceDir}
    (strict : dirs.Pairwise (fun a b => key a < key b)) {files : List IndexedSourceFile} :
    LastScan sha256 pathContains id dirs files ↔
      ∃ dir ∈ dirs, dir.row.id = id ∧ scanCacheVersionDir sha256 pathContains dir.dir = .ok files ∧
        ∀ later ∈ dirs, key dir < key later → later.row.id = id →
          ∀ files', scanCacheVersionDir sha256 pathContains later.dir ≠ .ok files' := by
  constructor
  · rintro ⟨before,dir,after,rfl,same,scan,last⟩
    refine ⟨dir,by simp,same,scan,fun later mem above => ?_⟩
    obtain ⟨_,_,ordered⟩ := List.pairwise_append.mp strict
    rcases List.mem_append.mp mem with old | here
    · exact absurd above (lt_asymm (ordered later old dir (by simp)))
    · rcases List.mem_cons.mp here with rfl | new
      · exact absurd above (lt_irrefl _)
      · exact last later new
  · rintro ⟨dir,mem,same,scan,last⟩
    obtain ⟨before,after,rfl⟩ := List.append_of_mem mem
    obtain ⟨_,rest,_⟩ := List.pairwise_append.mp strict
    exact ⟨before,dir,after,rfl,same,scan,fun later new => last later (by simp [new]) ((List.pairwise_cons.mp rest).1 later new)⟩

end
end RustMcp.LocalCache
