import RustMcp.Keyed
import RustMcp.Ranking
import RustMcp.Utils

/-! What crate tools look up before they read sources: the crate and its version in the
index, and the version's directory on disk. A call that waits for an on-demand job goes
on in the state that it then finds; the state is also the one that the freshness check,
which goes by the stored name, has left. -/
namespace RustMcp.Queries
open Str (Text)

structure CrateCoreRow where
  id : Nat
  name : Text
  deriving DecidableEq

structure CrateVersionRow where
  id : Nat
  crateId : Nat
  version : Text
  publishedAt : Option Nat
  deriving DecidableEq

structure SourceFileRow where
  crateVersionId : Nat
  path : Text
  language : Option Text
  deriving DecidableEq

structure SymbolRow where
  crateVersionId : Nat
  name : Text
  signature : Option Text
  indexSource : Text

/-- `fields` and `variants` are JSON; null, booleans and numbers are `other`. -/
inductive Value where
  | array (entries : List Value)
  | object (fields : List (Text × Value))
  | text (value : Text)
  | other

structure ErrorTypeTypeRow where
  crateVersionId : Nat
  typeName : Text
  kind : Text
  fields : Value
  variants : Value
  sourcePath : Text
  startLine : Int

structure ErrorTypeImplRow where
  crateVersionId : Nat
  typeName : Text
  traitName : Option Text
  traitNameDisplay : Option Text
  sourcePath : Text

structure Index (lower : Text → Text) where
  crates : Keyed.Table fun row : CrateCoreRow => lower row.name
  versions : List CrateVersionRow
  sourceFiles : List SourceFileRow
  symbols : List SymbolRow
  types : List ErrorTypeTypeRow
  impls : List ErrorTypeImplRow

/-! Replies. -/

inductive JobEnd where
  | completed
  | failed (message : Text)
  | pending
  | timedOut (message : Text)

/-- Why a call gives no response: an error, or an on-demand job of a scope to wait for; the
version named with it is downloaded first. -/
inductive Stop where
  | fails (message : Text)
  | waits (crateName scope : Text) (download : Option Text)
  deriving DecidableEq

abbrev Reply (α : Type) := Except Stop α

/-- How the wait for the job of a scope has ended, if the call has waited for it. -/
abbrev Waited := Text → Option JobEnd

def failing {α : Type} (result : Except Text α) : Reply α := result.mapError .fails

/-! The index. -/

section
variable {lower : Text → Text} (index : Index lower)

def fetchCrateCoreByName (crateName : Text) : Option CrateCoreRow := index.crates.lookup (lower crateName)

/-- `published_at DESC NULLS LAST, id DESC` -/
def latestFirst (row : CrateVersionRow) : (WithBot Nat)ᵒᵈ ×ₗ Natᵒᵈ :=
  toLex (OrderDual.toDual row.publishedAt,OrderDual.toDual row.id)

def fetchLatestCrateVersion (crateId : Nat) : Option CrateVersionRow :=
  (Ranking.sortBy latestFirst (index.versions.filter fun row => row.crateId = crateId)).head?

def fetchCrateVersionByName (crateId : Nat) (version : Text) : Option CrateVersionRow :=
  index.versions.find? fun row => row.crateId = crateId && row.version = version

def hasSourceFilesForVersion (crateVersionId : Nat) : Bool :=
  index.sourceFiles.any fun row => row.crateVersionId = crateVersionId && !Str.startsWith "rustdoc-json/".toList row.path

def hasRustdocSymbolsForVersion (crateVersionId : Nat) : Bool :=
  index.symbols.any fun row => row.crateVersionId = crateVersionId && row.indexSource = "rustdoc_json".toList

def ensureCrateIndexed (waited : Waited) (crateName : Text) : Reply Unit :=
  if (fetchCrateCoreByName index crateName).isSome then .ok ()
  else match waited "crate".toList with
    | none => .error (.waits crateName "crate".toList none)
    | some .completed => .ok ()
    | some (.failed message) =>
        .error (.fails ("on-demand indexing failed for '".toList ++ crateName ++ "': ".toList ++ message))
    | some .pending =>
        .error (.fails ("unexpected pending state after waiting for on-demand indexing of '".toList ++ crateName ++ "'".toList))
    | some (.timedOut message) => .error (.fails message)

structure CrateContext where
  crateRow : CrateCoreRow
  latestVersion : CrateVersionRow
  deriving DecidableEq

def fetchCrateContext (waited : Waited) (crateName : Text) : Reply CrateContext := do
  ensureCrateIndexed index waited crateName
  match fetchCrateCoreByName index crateName with
  | none =>
      .error (.fails ("crate '".toList ++ crateName ++ "' could not be indexed; it may not exist on crates.io".toList))
  | some crateRow =>
      match fetchLatestCrateVersion index crateRow.id with
      | none =>
          .error (.fails ("crate '".toList ++ crateRow.name ++ "' has no indexed versions yet; run index_crates first".toList))
      | some latestVersion => .ok ⟨crateRow,latestVersion⟩

def resolveVersionOrLatest (ctx : CrateContext) (requestedVersion : Option Text) : Reply CrateVersionRow :=
  match requestedVersion with
  | none => .ok ctx.latestVersion
  | some version =>
      match fetchCrateVersionByName index ctx.crateRow.id version with
      | some row => .ok row
      | none =>
          .error (.fails ("version '".toList ++ version ++ "' for crate '".toList ++ ctx.crateRow.name ++
            "' is not indexed locally (refresh attempted)".toList))

end

/-! Directories. -/

/-- An entry of the registry's `src`, with the directories that are found in it by name. -/
structure RegistryDir (D : Type) where
  isDir : Bool
  dir : Text → Option D

structure SourceDirs (D : Type) where
  /-- as `read_dir` yields them; none where `src` cannot be read -/
  registries : List (RegistryDir D)
  cache : Text → Option D

/-- The files of each directory that can be read as text. -/
abbrev Contents (D : Type) := D → Text → Option Text

section
variable {D : Type} (dirs : SourceDirs D)

def resolveSourceDir (crateName version : Text) : Option D :=
  let targetDirName := crateName ++ "-".toList ++ version
  (dirs.registries.findSome? fun entry => if entry.isDir then entry.dir targetDirName else none).or (dirs.cache targetDirName)

def readSourceFileFromDiskOrCache (contents : Contents D) (crateName version relativePath : Text) : Option Text :=
  (resolveSourceDir dirs crateName version).bind fun versionDir => contents versionDir relativePath

end

/-! Waits of a version. -/

section
variable {lower : Text → Text} (index : Index lower) {D : Type} (dirs : SourceDirs D)

/-- Best effort: however the wait has ended, the call goes on. -/
def ensureSourceIndexed (waited : Waited) (crateName version : Text) (crateVersionId : Nat) : Reply Unit :=
  if hasSourceFilesForVersion index crateVersionId || (waited "local_cache".toList).isSome then .ok ()
  else .error (.waits crateName "local_cache".toList
    (if (resolveSourceDir dirs crateName version).isSome then none else some version))

def ensureRustdocIndexed (waited : Waited) (crateName : Text) (crateVersionId : Nat) : Reply Unit :=
  if hasRustdocSymbolsForVersion index crateVersionId || (waited "rustdoc_json".toList).isSome then .ok ()
  else .error (.waits crateName "rustdoc_json".toList none)

end
/-! What the lookups yield. -/

theorem bindOption {ε α β : Type} (result : Except ε α) (next : α → Except ε β) :
    (result >>= next).toOption = result.toOption.bind fun value => (next value).toOption := by
  cases result <;> rfl

theorem okOption {ε α : Type} (value : α) : (Except.ok value : Except ε α).toOption = some value := rfl

theorem mapOption {ε α β : Type} (result : Except ε α) (f : α → β) : (result.map f).toOption = result.toOption.map f := by
  cases result <;> rfl

theorem mapAfter {α β γ : Type} (value : Option α) (next : α → Option β) (f : β → γ) :
    (value.bind next).map f = value.bind fun x => (next x).map f := by
  cases value <;> rfl

theorem failingOption {α : Type} (result : Except Text α) : (failing result).toOption = result.toOption := by
  cases result <;> rfl

theorem mapErrorOption {ε δ α : Type} (result : Except ε α) (describe : ε → δ) :
    (result.mapError describe).toOption = result.toOption := by
  cases result <;> rfl

section
variable {lower : Text → Text} (index : Index lower) (waited : Waited)

/-- A response needs the crate in the index, however the call has waited for it. -/
theorem contextOption (crateName : Text) : (fetchCrateContext index waited crateName).toOption =
    (fetchCrateCoreByName index crateName).bind fun crateRow =>
      (fetchLatestCrateVersion index crateRow.id).map fun latest => ⟨crateRow,latest⟩ := by
  rw [fetchCrateContext,bindOption]
  cases row : fetchCrateCoreByName index crateName with
  | none =>
    simp only
    cases (ensureCrateIndexed index waited crateName).toOption <;> rfl
  | some crateRow =>
    have indexed : ensureCrateIndexed index waited crateName = .ok () := by
      rw [ensureCrateIndexed,row,Option.isSome_some,if_pos rfl]
    rw [indexed]
    simp only [Except.toOption,Option.bind_some]
    cases fetchLatestCrateVersion index crateRow.id <;> rfl

theorem ensureSourceOption {D : Type} (dirs : SourceDirs D) (x y version : Text) (crateVersionId : Nat) :
    (ensureSourceIndexed index dirs waited x version crateVersionId).toOption =
      (ensureSourceIndexed index dirs waited y version crateVersionId).toOption := by
  unfold ensureSourceIndexed
  split <;> rfl

theorem ensureRustdocOption (x y : Text) (crateVersionId : Nat) :
    (ensureRustdocIndexed index waited x crateVersionId).toOption =
      (ensureRustdocIndexed index waited y crateVersionId).toOption := by
  unfold ensureRustdocIndexed
  split <;> rfl

end
end RustMcp.Queries
