import RustMcp.Like
import RustMcp.Queries

/-! `crate_error_types`: error-like types of the index, with the texts that their `Display`
impls write, which are read from the sources. -/
namespace RustMcp.ErrorTypes
open Str (Text)
open Utils Queries

/-! JSON columns. -/

def Value.get (key : Text) : Value → Option Value
  | .object fields => (fields.find? fun field => field.1 = key).map Prod.snd
  | _ => none

def asStr : Value → Option Text
  | .text value => some value
  | _ => none

/-- The texts under a key of the entries of an array. -/
def collectTexts (key : Text) : Value → List Text
  | .array entries => entries.filterMap fun entry => (Value.get key entry).bind asStr
  | _ => []

def collectFieldTypes (value : Value) : List Text := collectTexts "type".toList value
def collectVariantNames (value : Value) : List Text := collectTexts "name".toList value

/-! Names and texts. -/

/-- Between the first `<` and the last `>`. -/
def extractGenericArgument (display : Text) : Option Text := do
  let (_,rest) ← Str.splitOnce '<' display
  let inner := (rest.rdropWhile (· ≠ '>')).dropLast
  if Str.trim inner = [] then none else some (Str.trim inner)

/-- Between the first two quotes. -/
def quotedText (candidate : Text) : Option Text := do
  let (_,rest) ← Str.splitOnce '"' candidate
  let (inner,_) ← Str.splitOnce '"' rest
  if Str.trim inner = [] then none else some (Str.trim inner)

def writtenText (line : Text) : Option Text :=
  if Str.contains "write!(".toList (Str.trim line) then quotedText (Str.trim line) else none

def opensDisplay (typeName line : Text) : Bool :=
  let normalized := Str.trim line
  Str.contains "impl".toList normalized && Str.contains "Display".toList normalized && Str.contains typeName normalized

/-- Texts that are written within 24 lines from a line that looks like the impl. -/
def extractDisplayPatterns (content typeName : Text) : List Text :=
  let lines := Str.lines content
  ordered ((lines.zipIdx.filter fun numbered => opensDisplay typeName numbered.1).flatMap fun numbered =>
    ((lines.drop numbered.2).take 24).filterMap writtenText)

def matchesErrorHeuristic (name : Text) : Bool :=
  let lower := Str.toAsciiLowercase name
  "error".toList.isSuffixOf lower || "err".toList.isSuffixOf lower

def eqIgnoreAsciiCase (a b : Text) : Bool := Str.toAsciiLowercase a = Str.toAsciiLowercase b

/-! Requests. -/

structure CrateErrorTypesCursorToken extends CursorToken where
  v : Nat
  crateName : Text
  version : Option Text
  typeName : Option Text

structure CrateErrorTypesRequest where
  crateName : Text
  version : Option Text
  typeName : Option Text
  cursor : Option CrateErrorTypesCursorToken
  page : Option Nat
  limit : Option Nat

structure CrateErrorTypeEntry where
  typeName : Text
  kind : Text
  variants : List Text
  fields : List Text
  displayPatterns : List Text
  fromConversions : List Text
  returnedBy : List Text
  sourcePath : Text
  sourceLine : Int

structure CrateErrorTypesResponse where
  crateName : Text
  selectedVersion : Text
  nextCursor : Option CrateErrorTypesCursorToken
  page : Nat
  limit : Nat
  hasMore : Bool
  errorTypes : List CrateErrorTypeEntry

/-- A request whose fields are in order. -/
structure ErrorTypesQuery where
  crateName : Text
  version : Option Text
  typeName : Option Text
  pag : PaginationParams

def checkToken (token : CrateErrorTypesCursorToken) (crateName : Text) (version typeName : Option Text) : Except Text Unit := do
  checkCursor token.v token.limit
  if token.crateName ≠ crateName || token.version ≠ version || token.typeName ≠ typeName then
    .error "cursor does not match current crate_error_types filters".toList
  else .ok ()

/-- The checks of everything else than the crate name. -/
def checkedPage (request : CrateErrorTypesRequest) (crateName : Text) : Except Text PaginationParams := do
  match request.cursor with
  | some token => checkToken token crateName (normalizeOptional request.version) (normalizeOptional request.typeName)
  | none => pure ()
  resolvePagination (request.cursor.map (·.toCursorToken)) request.limit.isSome (errorTypesLimit request.limit)
    (syncPage request.page)

def readRequest (request : CrateErrorTypesRequest) : Except Text ErrorTypesQuery := do
  let crateName ← normalizeRequired request.crateName "crate_name".toList
  let pag ← checkedPage request crateName
  return ⟨crateName,normalizeOptional request.version,normalizeOptional request.typeName,pag⟩

/-! Candidates. -/

def implsError (row : ErrorTypeImplRow) : Bool :=
  Str.toAsciiLowercase (row.traitName.getD []) = "error".toList ||
    Str.contains "std::error::error".toList (Str.toAsciiLowercase (row.traitNameDisplay.getD []))

def candidateNames (typeNameFilter : Option Text) (typeRows : List ErrorTypeTypeRow) (implRows : List ErrorTypeImplRow) :
    List Text :=
  ordered ((((typeRows.map ErrorTypeTypeRow.typeName).filter matchesErrorHeuristic) ++
    (implRows.filter implsError).map ErrorTypeImplRow.typeName).filter fun name =>
      typeNameFilter.all (eqIgnoreAsciiCase name))

/-- The map of the rows by their names in lower case keeps the last of each. -/
def typeByName (typeRows : List ErrorTypeTypeRow) (candidate : Text) : Option ErrorTypeTypeRow :=
  (typeRows.filter fun row => eqIgnoreAsciiCase row.typeName candidate).getLast?

/-- From `offset` on, until there are more than `limit` entries. -/
def collectErrorTypes {E : Type} (typeRow : Text → Option ErrorTypeTypeRow) (entry : Text → ErrorTypeTypeRow → E)
    (offset limit : Nat) : Nat → List E → List Text → List E
  | _, errorTypes, [] => errorTypes
  | index, errorTypes, candidate::rest =>
      if index < offset then collectErrorTypes typeRow entry offset limit (index + 1) errorTypes rest
      else if errorTypes.length > limit then errorTypes
      else match typeRow candidate with
        | none => collectErrorTypes typeRow entry offset limit (index + 1) errorTypes rest
        | some row => collectErrorTypes typeRow entry offset limit (index + 1) (errorTypes ++ [entry candidate row]) rest

/-! Entries. -/

def implsDisplay (row : ErrorTypeImplRow) : Bool := Str.toAsciiLowercase (row.traitName.getD []) = "display".toList

/-- The `Display` impls of a candidate. -/
def displayImpls (implRows : List ErrorTypeImplRow) (candidate : Text) : List ErrorTypeImplRow :=
  implRows.filter fun row => eqIgnoreAsciiCase row.typeName candidate && implsDisplay row

def fromConversions (implRows : List ErrorTypeImplRow) (candidate : Text) : List Text :=
  ordered ((implRows.filter fun row => eqIgnoreAsciiCase row.typeName candidate &&
    (row.traitName = some "From".toList || row.traitName = some "TryFrom".toList)).filterMap fun row =>
      row.traitNameDisplay.bind extractGenericArgument)

/-- `read` yields the file of a path, empty where it cannot be read. -/
def displayPatterns (read : Text → Text) (implRows : List ErrorTypeImplRow) (candidate : Text) : List Text :=
  let found := ordered ((displayImpls implRows candidate).flatMap fun row =>
    extractDisplayPatterns (read row.sourcePath) candidate)
  if found.isEmpty && !(displayImpls implRows candidate).isEmpty then ["Display impl present".toList] else found

section
variable {C D : Type} [LinearOrder C] {lower : Text → Text} (collate : Text → C)

def listErrorTypeRows (crateVersionId : Nat) (rows : List ErrorTypeTypeRow) : List ErrorTypeTypeRow :=
  Ranking.sortBy (fun row => collate row.typeName) (rows.filter fun row => row.crateVersionId = crateVersionId)

def listErrorImplRows (crateVersionId : Nat) (rows : List ErrorTypeImplRow) : List ErrorTypeImplRow :=
  rows.filter fun row => row.crateVersionId = crateVersionId

def ilike (lower : Text → Text) (pattern text : Text) : Bool := Like.like (lower pattern) (lower text)

def listErrorReturnRows (lower : Text → Text) (crateVersionId : Nat) (typeNameLike : Text) (rows : List SymbolRow) :
    List SymbolRow :=
  (Ranking.sortBy (fun row => collate row.name) (rows.filter fun row => row.crateVersionId = crateVersionId &&
    row.signature.any fun signature => ilike lower "%Result<%".toList signature && ilike lower typeNameLike signature)).take 50

def returnedBy (row : SymbolRow) : Text :=
  let signature := row.signature.getD []
  if signature = [] then row.name else row.name ++ ": ".toList ++ signature

def errorTypeEntry (index : Index lower) (crateVersionId : Nat) (read : Text → Text) (implRows : List ErrorTypeImplRow)
    (candidate : Text) (row : ErrorTypeTypeRow) : CrateErrorTypeEntry where
  typeName := candidate
  kind := row.kind
  variants := collectVariantNames row.variants
  fields := collectFieldTypes row.fields
  displayPatterns := displayPatterns read implRows candidate
  fromConversions := fromConversions implRows candidate
  returnedBy :=
    (listErrorReturnRows collate lower crateVersionId ("%".toList ++ candidate ++ "%".toList) index.symbols).map returnedBy
  sourcePath := row.sourcePath
  sourceLine := row.startLine

def readOrEmpty (dirs : SourceDirs D) (contents : Contents D) (crateName version path : Text) : Text :=
  (readSourceFileFromDiskOrCache dirs contents crateName version path).getD []

def errorTypesPage (query : ErrorTypesQuery) (crateRow : CrateCoreRow) (selected : CrateVersionRow)
    (found : List CrateErrorTypeEntry) : CrateErrorTypesResponse :=
  let hasMore := decide (found.length > query.pag.limit)
  { crateName := crateRow.name
    selectedVersion := selected.version
    nextCursor :=
      if hasMore then some ⟨⟨saturatingAdd query.pag.offset query.pag.limit,query.pag.limit⟩,1,query.crateName,query.version,
        query.typeName⟩
      else none
    page := query.pag.effectivePage
    limit := query.pag.limit
    hasMore := hasMore
    errorTypes := if hasMore then found.take query.pag.limit else found }

def handleCrateErrorTypes (index : Index lower) (dirs : SourceDirs D) (contents : Contents D) (waited : Waited)
    (request : CrateErrorTypesRequest) : Reply CrateErrorTypesResponse := do
  let query ← failing (readRequest request)
  let ctx ← fetchCrateContext index waited query.crateName
  let selected ← resolveVersionOrLatest index ctx query.version
  ensureRustdocIndexed index waited query.crateName selected.id
  let typeRows := listErrorTypeRows collate selected.id index.types
  let implRows := listErrorImplRows selected.id index.impls
  let read := readOrEmpty dirs contents query.crateName selected.version
  return errorTypesPage query ctx.crateRow selected
    (collectErrorTypes (typeByName typeRows) (errorTypeEntry collate index selected.id read implRows) query.pag.offset
      query.pag.limit 0 [] (candidateNames query.typeName typeRows implRows))

end
end RustMcp.ErrorTypes
