import RustMcp.Like
import RustMcp.Paging
import RustMcp.Queries

/-! `crate_re_exports`, page by page. Rows of rustdoc come from the database cut to a
page; where it has none for the page, source files are scanned from the beginning. Both
pass through one cut to the page. -/
namespace RustMcp.ReExports
open Str (Text)
open Utils Queries

structure ReExportSymbol extends SymbolRow where
  kind : Text
  visibility : Option Text
  canonicalPath : Option Text
  definitionPath : Option Text
  sourcePath : Text
  startLine : Int

/-- What the tables and the disk hold of the version sources. -/
structure Data (lower : Text → Text) (D : Type) where
  index : Index lower
  symbols : List ReExportSymbol
  same : index.symbols = symbols.map ReExportSymbol.toSymbolRow
  dirs : SourceDirs D
  contents : Contents D

structure CrateReExportEntry where
  canonicalPath : Text
  originalDefinitionPath : Text
  kind : Text
  visibility : Text
  shortestPublicPath : Bool
  sourcePath : Text
  sourceLine : Nat

/-! Rustdoc rows. -/

/-- Indexed from rustdoc, public, and with a canonical path other than the one it is defined at. -/
def isRustdocReExport (crateVersionId : Nat) (row : ReExportSymbol) : Bool :=
  row.crateVersionId = crateVersionId && row.indexSource = "rustdoc_json".toList && row.visibility = some "public".toList &&
    row.canonicalPath.isSome && row.definitionPath.isSome && row.canonicalPath ≠ row.definitionPath

def rustdocEntry (row : ReExportSymbol) : CrateReExportEntry :=
  ⟨row.canonicalPath.getD [],row.definitionPath.getD [],row.kind,row.visibility.getD "public".toList,true,row.sourcePath,
    (max row.startLine 1).toNat⟩

section
variable {C : Type} [LinearOrder C] (collate : Text → C)

def listOrder (row : ReExportSymbol) : C ×ₗ C ×ₗ C ×ₗ Int :=
  toLex (collate (row.canonicalPath.getD []),toLex (collate (row.definitionPath.getD []),toLex (collate row.kind,row.startLine)))

def underPrefix (pathPrefix : Option Text) (row : ReExportSymbol) : Bool :=
  pathPrefix.all fun lead => row.canonicalPath.any fun path => Like.like (lead ++ ['%']) path

/-- All rows of the listing; those that tie are listed in the order of the table. -/
def rustdocReExports (symbols : List ReExportSymbol) (crateVersionId : Nat) (pathPrefix : Option Text) :
    List ReExportSymbol :=
  Ranking.sortBy (listOrder collate)
    (symbols.filter fun row => isRustdocReExport crateVersionId row && underPrefix pathPrefix row)

def listRustdocReExports (symbols : List ReExportSymbol) (crateVersionId : Nat) (pathPrefix : Option Text)
    (limit offset : Nat) : List ReExportSymbol :=
  ((rustdocReExports collate symbols crateVersionId pathPrefix).drop offset).take (max limit 1)

end

/-! The scan of sources. -/

structure ParsedReExport where
  targetPath : Text
  exportedName : Text
  sourceLine : Nat

def modulePrefixFromPath (crateName path : Text) : Text :=
  let path := Str.trimStartMatches "./".toList path
  if path = "src/lib.rs".toList then crateName
  else
    let parts := Str.split "/".toList (Str.trimStartMatches "src/".toList path)
    let parts := match parts.getLast? with
      | none => parts
      | some last =>
          if last = "mod.rs".toList then parts.dropLast
          else parts.dropLast ++ [(Str.stripSuffix ".rs".toList last).getD last]
    let filtered := parts.filter (· ≠ [])
    if filtered = [] then crateName else crateName ++ "::".toList ++ Str.join "::".toList filtered

example : modulePrefixFromPath "demo".toList "src/io/mod.rs".toList = "demo::io".toList := by decide

def splitAlias (entry : Text) : Option (Text × Text) :=
  let trimmed := Str.trim entry
  if trimmed = [] then none
  else
    let renamed := (Str.splitOnceAt " as ".toList trimmed).map fun (left,right) => (Str.trim left,Str.trim right)
    match renamed.filter fun (target,name) => target ≠ [] && name ≠ [] with
    | some pair => some pair
    | none => some (trimmed,Str.trim (((Str.split "::".toList trimmed).getLast?).getD trimmed))

/-- What stands between the first brace and the last one after it, with what stands before them. -/
def betweenBraces (body : Text) : Option (Text × Text) := do
  let (lead,rest) ← Str.splitOnce '\x7b' body
  let (_,inner) ← Str.splitOnce '\x7d' rest.reverse
  some (lead,inner.reverse)

def parsePubUseStatement (statement : Text) (lineNo : Nat) : List ParsedReExport :=
  let normalized := match Str.splitOnceAt "//".toList (Str.trim statement) with
    | some (left,_) => Str.trim left
    | none => Str.trim statement
  if !Str.startsWith "pub use ".toList normalized then []
  else
    let body := Str.trim (Str.trimStartMatches "pub use ".toList normalized)
    let body := Str.trim (body.rdropWhile (· = ';'))
    if body = [] then []
    else match betweenBraces body with
      | some (lead,inner) =>
          let lead := Str.trim (Str.trimEndMatches "::".toList (Str.trim lead))
          ((Str.split ",".toList (Str.trim inner)).filterMap splitAlias).map fun (target,exportedName) =>
            ⟨if lead = [] then target else lead ++ "::".toList ++ target,exportedName,lineNo⟩
      | none => (splitAlias body).toList.map fun (targetPath,exportedName) => ⟨targetPath,exportedName,lineNo⟩

def normalizeTargetPath (crateName targetPath : Text) : Text :=
  let trimmed := Str.trim targetPath
  match (Str.stripPrefix "crate::".toList trimmed).or (Str.stripPrefix "self::".toList trimmed) with
  | some rest => crateName ++ "::".toList ++ rest
  | none => trimmed

section
variable {C : Type} [LinearOrder C] (collate : Text → C) {lower : Text → Text} {D : Type} (data : Data lower D)

def listReExportSourcesForVersion (crateVersionId : Nat) : List SourceFileRow :=
  Ranking.sortBy (fun row => toLex (if row.path = "src/lib.rs".toList then 0 else 1,collate row.path) : SourceFileRow → Nat ×ₗ C)
    (data.index.sourceFiles.filter fun row => row.crateVersionId = crateVersionId &&
      (row.path = "src/lib.rs".toList || Like.like "src/%/mod.rs".toList row.path))

def fetchReExportSymbolKind (crateVersionId : Nat) (symbolName : Text) : Option ReExportSymbol :=
  (Ranking.sortBy (fun row => toLex (if row.visibility = some "public".toList then 0 else 1,row.startLine) :
      ReExportSymbol → Nat ×ₗ Int)
    (data.symbols.filter fun row => row.crateVersionId = crateVersionId && lower row.name = lower symbolName)).head?

def scannedEntry (crateName : Text) (crateVersionId : Nat) (pathPrefix : Option Text) (sourcePath : Text)
    (entry : ParsedReExport) : Option CrateReExportEntry :=
  let canonicalPath := modulePrefixFromPath crateName sourcePath ++ "::".toList ++ entry.exportedName
  if pathPrefix.all fun lead => Str.startsWith lead canonicalPath then
    let symbol := fetchReExportSymbolKind data crateVersionId entry.exportedName
    some ⟨canonicalPath,normalizeTargetPath crateName entry.targetPath,(symbol.map (·.kind)).getD "unknown".toList,
      (symbol.bind (·.visibility)).getD "public".toList,true,sourcePath,entry.sourceLine⟩
  else none

/-- The entries of one source; a source that cannot be read has none. -/
def scannedSource (ctx : CrateContext) (version : CrateVersionRow) (pathPrefix : Option Text) (source : SourceFileRow) :
    List CrateReExportEntry :=
  match readSourceFileFromDiskOrCache data.dirs data.contents ctx.crateRow.name version.version source.path with
  | none => []
  | some content =>
      (Str.lines content).zipIdx.flatMap fun (line,lineIdx) =>
        (parsePubUseStatement line (u32 (lineIdx + 1))).filterMap
          (scannedEntry data ctx.crateRow.name version.id pathPrefix source.path)

/-- All that a scan can find, in its order. -/
def scannedEntries (ctx : CrateContext) (version : CrateVersionRow) (pathPrefix : Option Text) : List CrateReExportEntry :=
  (listReExportSourcesForVersion collate data version.id).flatMap (scannedSource data ctx version pathPrefix)

end

/-- The loops of the scan stop once they have collected `maxResults`. -/
def collectUpTo {α : Type} (maxResults : Nat) : List α → List α → List α
  | entries, [] => entries
  | entries, entry::rest =>
    if (entries ++ [entry]).length ≥ maxResults then entries ++ [entry] else collectUpTo maxResults (entries ++ [entry]) rest

/-! The handler. -/

structure CrateReExportsCursorToken extends CursorToken where
  v : Nat
  crateName : Text
  version : Option Text
  pathPrefix : Option Text

structure CrateReExportsRequest where
  crateName : Text
  version : Option Text
  pathPrefix : Option Text
  cursor : Option CrateReExportsCursorToken
  page : Option Nat
  limit : Option Nat

inductive ConfidenceLevel where
  | low
  | medium
  | high

/-- What a page is drawn from: the entries gathered for it, and what is said about them. -/
structure Gathered where
  entries : List CrateReExportEntry
  level : ConfidenceLevel
  reason : Text
  provenance : Text

structure CrateReExportsResponse where
  nextCursor : Option CrateReExportsCursorToken
  page : Nat
  limit : Nat
  hasMore : Bool
  reExports : List CrateReExportEntry
  confidence : ConfidenceLevel
  reason : Text
  provenance : Text

def fromRustdoc (entries : List CrateReExportEntry) : Gathered :=
  ⟨entries,.high,"re-export canonical paths were resolved from rustdoc_json symbol graph".toList,
    "local_postgres_index(symbols[rustdoc_json], source_files)".toList⟩

def fromScan (entries : List CrateReExportEntry) : Gathered :=
  let provenance := "local_postgres_index(source_files, symbols)".toList
  if entries = [] then ⟨entries,.low,"no public re-exports were detected in indexed module roots".toList,provenance⟩
  else if entries.any (·.kind = "unknown".toList) then
    ⟨entries,.medium,"some re-export entries could not be mapped to indexed symbol kinds".toList,provenance⟩
  else ⟨entries,.high,"re-export paths and symbol kinds were resolved from indexed source".toList,provenance⟩

section
variable {C : Type} [LinearOrder C] (collate : Text → C) {lower : Text → Text} {D : Type} (data : Data lower D)

/-- The database cuts to the page, the scan begins anew. -/
def gather (ctx : CrateContext) (version : CrateVersionRow) (pathPrefix : Option Text) (pag : PaginationParams) : Gathered :=
  let rows := listRustdocReExports collate data.symbols version.id pathPrefix (saturatingAdd pag.limit 1) pag.offset
  if rows ≠ [] then fromRustdoc (rows.map rustdocEntry)
  else
    let maxResults := saturatingAdd (saturatingAdd pag.offset pag.limit) 1
    fromScan (collectUpTo maxResults [] (scannedEntries collate data ctx version pathPrefix))

/-- The crate and the version that a request is about, its rustdoc indexed if that can be. -/
def located (waited : Waited) (crateName : Text) (requestedVersion : Option Text) :
    Reply (CrateContext × CrateVersionRow) := do
  let ctx ← fetchCrateContext data.index waited crateName
  let version ← resolveVersionOrLatest data.index ctx requestedVersion
  ensureRustdocIndexed data.index waited crateName version.id
  .ok (ctx,version)

def checkFilters (cursor : Option CrateReExportsCursorToken) (crateName : Text) (version pathPrefix : Option Text) :
    Except Text Unit :=
  match cursor with
  | none => .ok ()
  | some token => do
      checkCursor token.v token.limit
      if token.crateName ≠ crateName || token.version ≠ version || token.pathPrefix ≠ pathPrefix then
        .error "cursor does not match current crate_re_exports filters".toList

def handleCrateReExports (waited : Waited) (request : CrateReExportsRequest) : Reply CrateReExportsResponse := do
  let crateName ← failing (normalizeRequired request.crateName "crate_name".toList)
  let requestedVersion := normalizeOptional request.version
  let pathPrefix := normalizeOptional request.pathPrefix
  failing (checkFilters request.cursor crateName requestedVersion pathPrefix)
  let pag ← failing (resolvePagination (request.cursor.map (·.toCursorToken)) request.limit.isSome
    (reExportsLimit request.limit) (syncPage request.page))
  let (ctx,version) ← located data waited crateName requestedVersion
  let gathered := gather collate data ctx version pathPrefix pag
  let reExports := gathered.entries.drop pag.offset
  let hasMore := decide (reExports.length > pag.limit)
  .ok {
    nextCursor :=
      if hasMore then some ⟨⟨saturatingAdd pag.offset pag.limit,pag.limit⟩,1,crateName,requestedVersion,pathPrefix⟩ else none
    page := pag.effectivePage
    limit := pag.limit
    hasMore := hasMore
    reExports := if hasMore then reExports.take pag.limit else reExports
    confidence := gathered.level
    reason := gathered.reason
    provenance := gathered.provenance}

/-- The re-exports that are returned when `next_cursor` is followed until `has_more` is false. -/
inductive Follows (waited : Waited) (request : CrateReExportsRequest) :
    Option CrateReExportsCursorToken → List CrateReExportEntry → Prop where
  | last {cursor : Option CrateReExportsCursorToken} {response : CrateReExportsResponse}
      (answer : handleCrateReExports collate data waited {request with cursor := cursor} = .ok response)
      (done : response.hasMore = false) : Follows waited request cursor response.reExports
  | more {cursor : Option CrateReExportsCursorToken} {response : CrateReExportsResponse} {out : List CrateReExportEntry}
      (answer : handleCrateReExports collate data waited {request with cursor := cursor} = .ok response)
      (more : response.hasMore = true) (rest : Follows waited request response.nextCursor out) :
      Follows waited request cursor (response.reExports ++ out)

end

/-! The handler reads page by page. -/

theorem collectsUpTo {α : Type} {maxResults : Nat} (rest : List α) {entries : List α} (short : entries.length < maxResults) :
    collectUpTo maxResults entries rest = (entries ++ rest).take maxResults := by
  induction rest generalizing entries with
  | nil => rw [collectUpTo,List.append_nil,List.take_of_length_le (Nat.le_of_lt short)]
  | cons entry rest ih =>
    have split : entries ++ entry::rest = (entries ++ [entry]) ++ rest := by simp
    rw [collectUpTo]
    split
    · rename_i full
      have length : (entries ++ [entry]).length = maxResults := by
        rw [List.length_append,List.length_singleton] at full ⊢
        omega
      rw [split,← length,List.take_left]
    · rename_i more
      rw [ih (Nat.lt_of_not_le more),split]

theorem limitBounds (limit : Option Nat) : 0 < reExportsLimit limit ∧ reExportsLimit limit ≤ 1000 :=
  clampBounds (by decide) _

section
variable {C : Type} [LinearOrder C] (collate : Text → C) {lower : Text → Text} {D : Type} (data : Data lower D)
  (ctx : CrateContext) (version : CrateVersionRow) (request : CrateReExportsRequest)

/-- Whether the version has rustdoc re-exports, under the prefix or not. -/
def hasRustdocReExports (symbols : List ReExportSymbol) (version : CrateVersionRow) : Bool :=
  symbols.any (isRustdocReExport version.id)

def rustdocListing : List CrateReExportEntry :=
  (rustdocReExports collate data.symbols version.id (normalizeOptional request.pathPrefix)).map rustdocEntry

def scanListing : List CrateReExportEntry := scannedEntries collate data ctx version (normalizeOptional request.pathPrefix)

/-- The re-exports that a request is for: those of rustdoc, if the version has any. -/
def listing : List CrateReExportEntry :=
  if hasRustdocReExports data.symbols version then rustdocListing collate data version request
  else scanListing collate data ctx version request

/-- What the page at an offset has left of what it gathers. -/
def shownAt (offset : Nat) : List CrateReExportEntry :=
  (gather collate data ctx version (normalizeOptional request.pathPrefix) ⟨offset,reExportsLimit request.limit,1⟩).entries.drop
    offset

/-- The cursor that stands at an offset. -/
def tokenAt (offset : Nat) : CrateReExportsCursorToken :=
  ⟨⟨offset,reExportsLimit request.limit⟩,1,Str.trim request.crateName,normalizeOptional request.version,
    normalizeOptional request.pathPrefix⟩

/-- A request for the first page, of a crate version that is found. -/
structure Opens (waited : Waited) : Prop where
  named : Str.trim request.crateName ≠ []
  first : syncPage request.page = 1
  found : located data waited (Str.trim request.crateName) (normalizeOptional request.version) = .ok (ctx,version)

def StandsAt (cursor : Option CrateReExportsCursorToken) (offset : Nat) : Prop :=
  (cursor = none ∧ offset = 0) ∨ cursor = some (tokenAt request offset)

variable {collate data ctx version request} {waited : Waited}

variable (collate) in
theorem handledAt (opens : Opens data ctx version request waited) {cursor : Option CrateReExportsCursorToken} {offset : Nat}
    (stands : StandsAt request cursor offset) :
    ∃ response, handleCrateReExports collate data waited {request with cursor := cursor} = .ok response ∧
      response.hasMore = decide (reExportsLimit request.limit < (shownAt collate data ctx version request offset).length) ∧
      response.nextCursor = (if response.hasMore then
        some (tokenAt request (saturatingAdd offset (reExportsLimit request.limit))) else none) ∧
      response.reExports = (if response.hasMore then
        (shownAt collate data ctx version request offset).take (reExportsLimit request.limit)
        else shownAt collate data ctx version request offset) := by
  have bounds := limitBounds request.limit
  have name := requiredNamed "crate_name".toList opens.named
  have filters : checkFilters cursor (Str.trim request.crateName) (normalizeOptional request.version)
      (normalizeOptional request.pathPrefix) = .ok () := by
    rcases stands with ⟨rfl,rfl⟩ | rfl
    · rfl
    · have passes := cursorPasses bounds.1
      simp [checkFilters,passes,tokenAt,bind,Except.bind]
      rfl
  obtain ⟨effective,paginated⟩ : ∃ effective, resolvePagination (cursor.map (·.toCursorToken)) request.limit.isSome
      (reExportsLimit request.limit) (syncPage request.page) = .ok ⟨offset,reExportsLimit request.limit,effective⟩ :=
    paginatedAt opens.first (Paging.StandsAt.map CrateReExportsCursorToken.toCursorToken stands)
  simp only [handleCrateReExports,name,filters,paginated,opens.found,failing,Except.mapError,bind,Except.bind]
  exact ⟨_,rfl,rfl,rfl,rfl⟩

theorem followsCuts (opens : Opens data ctx version request waited) {cursor : Option CrateReExportsCursorToken} {offset : Nat}
    {out : List CrateReExportEntry} (stands : StandsAt request cursor offset) :
    Follows collate data waited request cursor out ↔
      Paging.Cuts (shownAt collate data ctx version request) (reExportsLimit request.limit) (2 ^ 32 - 1) offset out := by
  constructor
  · intro follows
    induction follows generalizing offset with
    | last answer done =>
      obtain ⟨response,answered,more,_,shows⟩ := handledAt collate opens stands
      cases Except.ok.inj (answer.symm.trans answered)
      rw [shows,done]
      exact .last (Nat.le_of_not_lt (of_decide_eq_false (more.symm.trans done)))
    | more answer more _ ih =>
      obtain ⟨response,answered,cut,next,shows⟩ := handledAt collate opens stands
      cases Except.ok.inj (answer.symm.trans answered)
      rw [shows,if_pos more]
      exact .more (of_decide_eq_true (cut.symm.trans more)) (ih (Or.inr (next.trans (if_pos more))))
  · intro cuts
    induction cuts generalizing cursor with
    | last done =>
      obtain ⟨response,answered,cut,_,shows⟩ := handledAt collate opens stands
      rw [decide_eq_false (Nat.not_lt_of_le done)] at cut
      rw [cut] at shows
      have last := Follows.last answered cut
      rwa [shows] at last
    | more more _ ih =>
      obtain ⟨response,answered,cut,next,shows⟩ := handledAt collate opens stands
      rw [decide_eq_true more] at cut
      rw [cut,if_pos rfl] at shows next
      have rest := Follows.more answered cut (ih (Or.inr next))
      rwa [shows] at rest

theorem rustdocWindow (offset : Nat) :
    listRustdocReExports collate data.symbols version.id (normalizeOptional request.pathPrefix)
      (saturatingAdd (reExportsLimit request.limit) 1) offset =
    ((rustdocReExports collate data.symbols version.id (normalizeOptional request.pathPrefix)).drop offset).take
      (reExportsLimit request.limit + 1) := by
  have bounds := limitBounds request.limit
  have asked : saturatingAdd (reExportsLimit request.limit) 1 = reExportsLimit request.limit + 1 := saturatingAddSmall (by omega)
  rw [listRustdocReExports,asked,Nat.max_eq_left (Nat.le_add_left 1 _)]

variable (ctx) in
/-- A page with rustdoc rows skips its offset once more. -/
theorem shownRustdoc {offset : Nat} (inside : offset < (rustdocListing collate data version request).length) :
    shownAt collate data ctx version request offset =
      (((rustdocListing collate data version request).drop offset).take (reExportsLimit request.limit + 1)).drop offset := by
  have some_ : ((rustdocReExports collate data.symbols version.id (normalizeOptional request.pathPrefix)).drop offset).take
      (reExportsLimit request.limit + 1) ≠ [] := by
    rw [rustdocListing,List.length_map] at inside
    intro empty
    have length := congrArg List.length empty
    rw [List.length_take,List.length_drop,List.length_nil] at length
    omega
  simp only [shownAt,gather,rustdocWindow,if_pos some_,fromRustdoc,rustdocListing,List.map_take,List.map_drop]

theorem fromScanEntries (entries : List CrateReExportEntry) : (fromScan entries).entries = entries := by
  unfold fromScan
  dsimp only
  split
  · rfl
  · split <;> rfl

variable (ctx) in
theorem shownScan (none_ : rustdocListing collate data version request = []) (offset : Nat) :
    shownAt collate data ctx version request offset =
      ((scanListing collate data ctx version request).take
        (min (offset + reExportsLimit request.limit + 1) (2 ^ 32 - 1))).drop offset := by
  have empty : rustdocReExports collate data.symbols version.id (normalizeOptional request.pathPrefix) = [] :=
    List.map_eq_nil_iff.mp none_
  have stops : saturatingAdd (saturatingAdd offset (reExportsLimit request.limit)) 1 =
      min (offset + reExportsLimit request.limit + 1) (2 ^ 32 - 1) := by
    simp only [saturatingAdd]; omega
  have positive : ([] : List CrateReExportEntry).length < min (offset + reExportsLimit request.limit + 1) (2 ^ 32 - 1) := by
    rw [List.length_nil]; omega
  simp only [shownAt,gather,rustdocWindow,empty,List.drop_nil,List.take_nil,ne_eq,not_true_eq_false,if_false,stops,
    fromScanEntries,collectsUpTo _ positive,List.nil_append,scanListing]

theorem readsScan (none_ : rustdocListing collate data version request = []) {out : List CrateReExportEntry} :
    Paging.Cuts (shownAt collate data ctx version request) (reExportsLimit request.limit) (2 ^ 32 - 1) 0 out ↔
      out = (scanListing collate data ctx version request).take (2 ^ 32 - 1) := by
  have cuts := Paging.cutsScan (limitBounds request.limit).1 (shownScan ctx none_) (Nat.zero_le (2 ^ 32 - 1))
  rw [List.drop_zero] at cuts
  exact ⟨fun other => other.unique cuts,fun same => same ▸ cuts⟩

/-- Of a listing of rustdoc rows that takes more than a page, some row is not returned. -/
theorem readsRustdoc (some_ : rustdocListing collate data version request ≠ []) :
    Paging.Cuts (shownAt collate data ctx version request) (reExportsLimit request.limit) (2 ^ 32 - 1) 0
        (rustdocListing collate data version request) ↔
      (rustdocListing collate data version request).length ≤ reExportsLimit request.limit := by
  have bounds := limitBounds request.limit
  have first := shownRustdoc ctx (List.length_pos_of_ne_nil some_)
  rw [List.drop_zero,List.drop_zero] at first
  constructor
  · intro cuts
    by_contra longer
    -- the second page skips its offset of the rows behind it, and is the last
    have second := shownRustdoc ctx (Nat.lt_of_not_le longer)
    have firstLength := congrArg List.length first
    have secondLength := congrArg List.length second
    simp only [List.length_drop,List.length_take] at firstLength secondLength
    have next : min (0 + reExportsLimit request.limit) (2 ^ 32 - 1) = reExportsLimit request.limit := by omega
    have read : Paging.Cuts (shownAt collate data ctx version request) (reExportsLimit request.limit) (2 ^ 32 - 1) 0
        ((shownAt collate data ctx version request 0).take (reExportsLimit request.limit) ++
          shownAt collate data ctx version request (reExportsLimit request.limit)) := by
      refine .more (by omega) ?_
      rw [next]
      exact .last (by omega)
    have length := congrArg List.length (cuts.unique read)
    rw [List.length_append,List.length_take] at length
    omega
  · intro short
    have all : shownAt collate data ctx version request 0 = rustdocListing collate data version request := by
      rw [first,List.take_of_length_le (by omega)]
    have read : Paging.Cuts (shownAt collate data ctx version request) (reExportsLimit request.limit) (2 ^ 32 - 1) 0
        (shownAt collate data ctx version request 0) := .last (by rw [all]; exact short)
    rwa [all] at read

theorem noRustdocListing (without : hasRustdocReExports data.symbols version = false) :
    rustdocListing collate data version request = [] := by
  rw [rustdocListing,List.map_eq_nil_iff,← List.length_eq_zero_iff,rustdocReExports,(Ranking.sortByPerm _ _).length_eq,
    List.length_eq_zero_iff,List.filter_eq_nil_iff]
  intro row mem kept
  rw [Bool.and_eq_true] at kept
  exact absurd kept.1 (List.any_eq_false.mp without row mem)

variable (collate data ctx version request) in
/-- The rustdoc rows are a page at most, where the version has any; a prefix that none is under
finds nothing in the sources either. -/
def WithinPage : Prop :=
  if hasRustdocReExports data.symbols version then
    rustdocListing collate data version request ≠ [] ∧
        (rustdocListing collate data version request).length ≤ reExportsLimit request.limit ∨
      rustdocListing collate data version request = [] ∧ scanListing collate data ctx version request = []
  else (scanListing collate data ctx version request).length ≤ 2 ^ 32 - 1

end

theorem listedOnceIffWithinPage {C : Type} [LinearOrder C] (collate : Text → C) {lower : Text → Text} {D : Type}
    (data : Data lower D) (ctx : CrateContext) (version : CrateVersionRow) (request : CrateReExportsRequest) (waited : Waited)
    (opens : Opens data ctx version request waited) :
    Follows collate data waited request none (listing collate data ctx version request) ↔
      WithinPage collate data ctx version request := by
  rw [followsCuts opens (Or.inl ⟨rfl,rfl⟩),listing,WithinPage]
  by_cases rustdoc : hasRustdocReExports data.symbols version = true
  · rw [if_pos rustdoc,if_pos rustdoc]
    by_cases none_ : rustdocListing collate data version request = []
    · rw [readsScan none_,none_]
      constructor
      · intro empty
        exact Or.inr ⟨rfl,(List.take_eq_nil_iff.mp empty.symm).resolve_left (by decide)⟩
      · rintro (⟨some_,_⟩ | ⟨_,empty⟩)
        · exact absurd rfl some_
        · rw [empty,List.take_nil]
    · rw [readsRustdoc none_]
      exact ⟨fun short => Or.inl ⟨none_,short⟩,fun either => either.elim And.right fun empty => absurd empty.1 none_⟩
  · rw [if_neg rustdoc,if_neg rustdoc,readsScan (noRustdocListing (Bool.eq_false_iff.mpr rustdoc))]
    exact ⟨fun all => (List.take_eq_self_iff _).mp all.symm,fun short => (List.take_of_length_le short).symm⟩

/-! A crate with three re-exports. -/

def demoSymbol (name : String) : ReExportSymbol :=
  ⟨⟨7,name.toList,none,"rustdoc_json".toList⟩,"struct".toList,some "public".toList,some ("demo::".toList ++ name.toList),
    some ("demo::inner::".toList ++ name.toList),"src/lib.rs".toList,3⟩

def demoSymbols : List ReExportSymbol := [demoSymbol "A",demoSymbol "B",demoSymbol "C"]

def demoData : Data Str.toAsciiLowercase Nat where
  index := {
    crates := ⟨[⟨1,"demo".toList⟩],by decide⟩
    versions := [⟨7,1,"1.0.0".toList,some 5⟩]
    sourceFiles := [⟨7,"src/lib.rs".toList,some "rust".toList⟩]
    symbols := demoSymbols.map ReExportSymbol.toSymbolRow
    types := []
    impls := []}
  symbols := demoSymbols
  same := rfl
  dirs := ⟨[],fun _ => none⟩
  contents := fun _ _ => none

def demoVersion : CrateVersionRow := ⟨7,1,"1.0.0".toList,some 5⟩

def demoContext : CrateContext := ⟨⟨1,"demo".toList⟩,demoVersion⟩

def demoRequest (limit : Option Nat) : CrateReExportsRequest := ⟨"demo".toList,none,none,none,none,limit⟩

theorem demoOpens (limit : Option Nat) : Opens demoData demoContext demoVersion (demoRequest limit) (fun _ => none) where
  named := by change Str.trim "demo".toList ≠ []; decide
  first := rfl
  found := rfl

theorem listedOnceIffWithinPageDefault :
    Follows (id : Text → Text) demoData (fun _ => none) (demoRequest none) none
      (listing (id : Text → Text) demoData demoContext demoVersion (demoRequest none)) := by
  refine (listedOnceIffWithinPage (id : Text → Text) demoData demoContext demoVersion (demoRequest none) (fun _ => none)
    (demoOpens none)).mpr ?_
  rw [WithinPage,if_pos (by decide)]
  exact Or.inl ⟨by decide +kernel,by decide +kernel⟩

/-- One re-export a page: the second page skips the second one, and says that there is no more. -/
theorem secondPageSkips :
    ¬∃ out, Follows (id : Text → Text) demoData (fun _ => none) (demoRequest (some 1)) none out ∧
      out = listing (id : Text → Text) demoData demoContext demoVersion (demoRequest (some 1)) := by
  rintro ⟨out,follows,rfl⟩
  have some_ : rustdocListing (id : Text → Text) demoData demoVersion (demoRequest (some 1)) ≠ [] := by decide +kernel
  have cuts := (followsCuts (demoOpens (some 1)) (Or.inl ⟨rfl,rfl⟩)).mp follows
  rw [listing,if_pos (by decide)] at cuts
  exact absurd ((readsRustdoc some_).mp cuts) (by decide +kernel)

end RustMcp.ReExports
