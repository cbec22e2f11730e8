import RustMcp.Like
import RustMcp.Queries

/-! `crate_hotspots`: lines of a version's source files in which risky patterns occur. -/
namespace RustMcp.Hotspots
open Str (Text)
open Utils Queries

inductive HotspotKind where
  | unsafeCode
  | concurrency
  deriving DecidableEq

inductive HotspotSeverity where
  | high
  | medium
  | low
  deriving DecidableEq

structure HotspotPattern where
  kind : HotspotKind
  text : Text
  severity : HotspotSeverity

structure CrateHotspotHit where
  path : Text
  line : Nat
  kind : HotspotKind
  pattern : Text
  severity : HotspotSeverity
  snippet : Text
  deriving DecidableEq

def severityRank : HotspotSeverity → Nat
  | .high => 0
  | .medium => 1
  | .low => 2

def unsafePatterns : List HotspotPattern :=
  [⟨.unsafeCode,"unsafe".toList,.high⟩,⟨.unsafeCode,"extern \"C\"".toList,.high⟩,⟨.unsafeCode,"*const".toList,.high⟩,
    ⟨.unsafeCode,"*mut".toList,.high⟩,⟨.unsafeCode,"UnsafeCell".toList,.medium⟩]

def concurrencyPatterns : List HotspotPattern :=
  [⟨.concurrency,"std::sync".toList,.medium⟩,⟨.concurrency,"Mutex".toList,.medium⟩,⟨.concurrency,"RwLock".toList,.medium⟩,
    ⟨.concurrency,"Atomic".toList,.medium⟩,⟨.concurrency,"channel(".toList,.low⟩,⟨.concurrency,"parking_lot".toList,.medium⟩]

def hotspotPatterns (includeUnsafe includeConcurrency : Bool) : List HotspotPattern :=
  (if includeUnsafe then unsafePatterns else []) ++ if includeConcurrency then concurrencyPatterns else []

/-- The hits so far, and the lines and patterns that have been seen. -/
abbrev Detected := List CrateHotspotHit × List (Nat × Text)

def visitPattern (path : Text) (lineNumber : Nat) (line : Text) (detected : Detected) (pattern : HotspotPattern) : Detected :=
  if !Str.contains (Str.toAsciiLowercase pattern.text) (Str.toAsciiLowercase line) then detected
  else if detected.2.contains (lineNumber,pattern.text) then detected
  else
    (detected.1 ++ [⟨path,lineNumber,pattern.kind,pattern.text,pattern.severity,(Str.trim line).take 220⟩],
      detected.2 ++ [(lineNumber,pattern.text)])

def visitLine (path : Text) (patterns : List HotspotPattern) (detected : Detected) (numbered : Text × Nat) : Detected :=
  if Str.trim numbered.1 = [] then detected
  else patterns.foldl (visitPattern path (u32 (numbered.2 + 1)) numbered.1) detected

def detectHotspotsInFile (path content : Text) (patterns : List HotspotPattern) : List CrateHotspotHit :=
  ((Str.lines content).zipIdx.foldl (visitLine path patterns) ([],[])).1

/-! Requests. -/

structure CrateHotspotsCursorToken extends CursorToken where
  v : Nat
  crateName : Text
  version : Option Text
  pathGlob : Option Text
  includeUnsafe : Bool
  includeConcurrency : Bool

structure CrateHotspotsRequest where
  crateName : Text
  version : Option Text
  pathGlob : Option Text
  includeUnsafe : Option Bool
  includeConcurrency : Option Bool
  cursor : Option CrateHotspotsCursorToken
  page : Option Nat
  limit : Option Nat

/-- The part of the response that is scanned and paged. -/
structure CrateHotspotsResponse where
  crateName : Text
  selectedVersion : Text
  nextCursor : Option CrateHotspotsCursorToken
  page : Nat
  limit : Nat
  hasMore : Bool
  scannedFiles : Nat
  hotspots : List CrateHotspotHit

/-- A request whose fields are in order. -/
structure HotspotsQuery where
  crateName : Text
  version : Option Text
  pathGlob : Option Text
  includeUnsafe : Bool
  includeConcurrency : Bool
  pag : PaginationParams

def checkToken (token : CrateHotspotsCursorToken) (crateName : Text) (version pathGlob : Option Text)
    (includeUnsafe includeConcurrency : Bool) : Except Text Unit := do
  checkCursor token.v token.limit
  if token.crateName ≠ crateName || token.version ≠ version || token.pathGlob ≠ pathGlob ||
      token.includeUnsafe ≠ includeUnsafe || token.includeConcurrency ≠ includeConcurrency then
    .error "cursor does not match current crate_hotspots filters".toList
  else .ok ()

/-- The checks of everything else than the crate name. -/
def checkedPage (request : CrateHotspotsRequest) (crateName : Text) : Except Text PaginationParams := do
  let includeUnsafe := request.includeUnsafe.getD true
  let includeConcurrency := request.includeConcurrency.getD true
  match request.cursor with
  | some token =>
      checkToken token crateName (normalizeOptional request.version) (normalizeOptional request.pathGlob) includeUnsafe
        includeConcurrency
  | none => pure ()
  let pag ← resolvePagination (request.cursor.map (·.toCursorToken)) request.limit.isSome (hotspotsLimit request.limit)
    (syncPage request.page)
  if !includeUnsafe && !includeConcurrency then
    .error "at least one of include_unsafe/include_concurrency must be true".toList
  else .ok pag

def readRequest (request : CrateHotspotsRequest) : Except Text HotspotsQuery := do
  let crateName ← normalizeRequired request.crateName "crate_name".toList
  let pag ← checkedPage request crateName
  return ⟨crateName,normalizeOptional request.version,normalizeOptional request.pathGlob,request.includeUnsafe.getD true,
    request.includeConcurrency.getD true,pag⟩

/-! The handler. -/

/-- The pattern with its escape character, which has to be one character; a backslash is that of
patterns without it. -/
def likeEscape (escape pattern : Text) : Except Text Text :=
  if escape.length > 1 then .error "invalid escape string".toList else .ok pattern

section
variable {C D : Type} [LinearOrder C] (lower : Text → Text) (collate : Text → C)

def hotspotFile (crateVersionId : Nat) (row : SourceFileRow) : Bool :=
  row.crateVersionId = crateVersionId && row.language ≠ some "rustdoc_json".toList

/-- The SQL text has two backslashes behind `ESCAPE`. -/
def matchesPath (pathLike : Option Text) : Except Text (Text → Bool) :=
  match pathLike with
  | none => .ok fun _ => true
  | some pattern => (likeEscape ['\\','\\'] pattern).map fun pattern path => Like.like (lower pattern) (lower path)

def listSourceFilePathsForHotspots (crateVersionId : Nat) (pathLike : Option Text) (rows : List SourceFileRow) :
    Except Text (List Text) := do
  let selected ← matchesPath lower pathLike
  return ((Ranking.sortBy (fun row => collate row.path)
    (rows.filter fun row => hotspotFile crateVersionId row && selected row.path)).take 1000).map SourceFileRow.path

def hotspotOrder (hit : CrateHotspotHit) : Nat ×ₗ Text ×ₗ Nat ×ₗ Text :=
  toLex (severityRank hit.severity,toLex (hit.path,toLex (hit.line,hit.pattern)))

/-- Files that cannot be read are passed over, as are all where there is no directory. -/
def scanFiles (contents : Contents D) (versionDir : Option D) (patterns : List HotspotPattern) (paths : List Text) :
    List CrateHotspotHit :=
  paths.flatMap fun path => match versionDir.bind fun dir => contents dir path with
    | none => []
    | some content => detectHotspotsInFile path content patterns

def hotspotsPage (query : HotspotsQuery) (crateRow : CrateCoreRow) (selected : CrateVersionRow) (scannedFiles : Nat)
    (hits : List CrateHotspotHit) : CrateHotspotsResponse :=
  let found := ((Ranking.sortBy hotspotOrder hits).drop query.pag.offset).take (query.pag.limit + 1)
  let hasMore := decide (found.length > query.pag.limit)
  { crateName := crateRow.name
    selectedVersion := selected.version
    nextCursor :=
      if hasMore then some ⟨⟨saturatingAdd query.pag.offset query.pag.limit,query.pag.limit⟩,1,query.crateName,query.version,
        query.pathGlob,query.includeUnsafe,query.includeConcurrency⟩
      else none
    page := query.pag.effectivePage
    limit := query.pag.limit
    hasMore := hasMore
    scannedFiles := scannedFiles
    hotspots := if hasMore then found.take query.pag.limit else found }

def handleCrateHotspots (index : Index lower) (dirs : SourceDirs D) (contents : Contents D) (waited : Waited)
    (request : CrateHotspotsRequest) : Reply CrateHotspotsResponse := do
  let query ← failing (readRequest request)
  let ctx ← fetchCrateContext index waited query.crateName
  let selected ← resolveVersionOrLatest index ctx query.version
  let paths ← failing ((listSourceFilePathsForHotspots lower collate selected.id (query.pathGlob.map pathGlobToLike)
    index.sourceFiles).mapError fun error => "crate_hotspots source scan failed: ".toList ++ error)
  let versionDir := resolveSourceDir dirs query.crateName selected.version
  return hotspotsPage query ctx.crateRow selected paths.length
    (scanFiles contents versionDir (hotspotPatterns query.includeUnsafe query.includeConcurrency) paths)

end
end RustMcp.Hotspots
