import RustMcp.ErrorTypes
import RustMcp.LatestVersions
import RustMcp.Paging

/-! `symbol_search`, page by page. The text that is searched for becomes part of a `LIKE` pattern
as it is. Over the same tables an earlier response in the query cache lists the same symbols,
so the cache is not modelled. -/
namespace RustMcp.SymbolSearch
open Str (Text)
open Utils
open Queries (CrateCoreRow CrateVersionRow latestFirst)

structure SourceFileRow where
  id : Nat
  path : Text
  deriving DecidableEq

structure SymbolRow where
  id : Nat
  crateVersionId : Nat
  sourceFileId : Nat
  name : Text
  kind : Text
  signature : Option Text
  visibility : Option Text
  docs : Option Text
  startLine : Int
  endLine : Int
  indexSource : Text
  indexedAt : Text
  deriving DecidableEq

/-- Tables by their primary keys, with their foreign keys. -/
structure Catalog where
  crates : Keyed.Table CrateCoreRow.id
  versions : Keyed.Table CrateVersionRow.id
  sourceFiles : Keyed.Table SourceFileRow.id
  symbols : Keyed.Table SymbolRow.id
  crateOf : ∀ cv ∈ versions.rows, ∃ crateRow ∈ crates.rows, crateRow.id = cv.crateId
  versionOf : ∀ s ∈ symbols.rows, ∃ cv ∈ versions.rows, cv.id = s.crateVersionId
  fileOf : ∀ s ∈ symbols.rows, ∃ sf ∈ sourceFiles.rows, sf.id = s.sourceFileId

/-- A symbol with what it is joined to. -/
structure SymbolSearchRow where
  s : SymbolRow
  cv : CrateVersionRow
  c : CrateCoreRow
  sf : SourceFileRow
  deriving DecidableEq

structure SymbolSearchFilters where
  query : Text
  crateName : Option Text
  version : Option Text
  kind : Option Text
  includeAllVersions : Bool
  collapseByCanonical : Bool
  deriving DecidableEq

structure SymbolCursorToken extends CursorToken, SymbolSearchFilters where
  v : Nat

structure SymbolSearchRequest where
  query : Text
  crateName : Option Text
  version : Option Text
  kind : Option Text
  includeAllVersions : Option Bool
  collapseByCanonical : Option Bool
  includeDocs : Option Bool
  cursor : Option SymbolCursorToken
  page : Option Nat
  limit : Option Nat

structure SymbolSearchHit where
  crateName : Text
  version : Text
  sourcePath : Text
  name : Text
  kind : Text
  signature : Option Text
  visibility : Option Text
  docs : Option Text
  startLine : Int
  endLine : Int
  indexSource : Text
  indexedAt : Text

inductive ConfidenceLevel where
  | low
  | medium

structure SymbolSearchResponse where
  nextCursor : Option SymbolCursorToken
  page : Nat
  limit : Nat
  totalCount : Nat
  hasMore : Bool
  count : Nat
  confidence : ConfidenceLevel
  reason : Text
  suggestedNextTools : List Text
  hits : List SymbolSearchHit

/-! The queries. -/

section
variable (catalog : Catalog)

def joinRow (s : SymbolRow) : Option SymbolSearchRow := do
  let cv ← catalog.versions.lookup s.crateVersionId
  let c ← catalog.crates.lookup cv.crateId
  let sf ← catalog.sourceFiles.lookup s.sourceFileId
  some ⟨s,cv,c,sf⟩

def joined : List SymbolSearchRow := catalog.symbols.rows.filterMap (joinRow catalog)

def latestId (crateId : Nat) : Option Nat :=
  (Ranking.sortBy latestFirst (catalog.versions.rows.filter fun cv => cv.crateId = crateId)).head?.map (·.id)

variable (lower : Text → Text) (filters : SymbolSearchFilters)

/-- What the conditions other than that on the name let through. -/
def selects (row : SymbolSearchRow) : Bool :=
  filters.crateName.all (lower row.c.name = lower ·) && filters.version.all (row.cv.version = ·) &&
    filters.kind.all (row.s.kind = ·) &&
    (filters.version.isSome || filters.includeAllVersions || latestId catalog row.c.id = some row.cv.id)

def queryPattern (query : Text) : Text := '%'::(query ++ ['%'])

def searchedRows : List SymbolSearchRow :=
  (joined catalog).filter fun row => selects catalog lower filters row &&
    ErrorTypes.ilike lower (queryPattern filters.query) row.s.name

def canonical (row : SymbolSearchRow) : Text × Text × Text × Text := (row.c.name,row.sf.path,row.s.name,row.s.kind)

def rowCount (collapse : Bool) (rows : List SymbolSearchRow) : Nat :=
  if collapse then (rows.map canonical).dedup.length else rows.length

def countSymbolSearchHits : Nat := rowCount filters.collapseByCanonical (searchedRows catalog lower filters)

variable {C : Type} [LinearOrder C] (collate : Text → C)

abbrev Recent := (WithBot Nat)ᵒᵈ ×ₗ Natᵒᵈ

/-- `c.name, sf.path, s.name, s.kind, cv.published_at DESC NULLS LAST, cv.id DESC, s.start_line, s.end_line, s.id` -/
def canonicalOrder (row : SymbolSearchRow) : C ×ₗ C ×ₗ C ×ₗ C ×ₗ Recent ×ₗ Int ×ₗ Int ×ₗ Nat :=
  toLex (collate row.c.name,toLex (collate row.sf.path,toLex (collate row.s.name,toLex (collate row.s.kind,
    toLex (latestFirst row.cv,toLex (row.s.startLine,toLex (row.s.endLine,row.s.id)))))))

/-- `c.name, cv.published_at DESC NULLS LAST, cv.id DESC, s.name, s.kind, sf.path, s.start_line, s.end_line, s.id` -/
def versionOrder (row : SymbolSearchRow) : C ×ₗ Recent ×ₗ C ×ₗ C ×ₗ C ×ₗ Int ×ₗ Int ×ₗ Nat :=
  toLex (collate row.c.name,toLex (latestFirst row.cv,toLex (collate row.s.name,toLex (collate row.s.kind,
    toLex (collate row.sf.path,toLex (row.s.startLine,toLex (row.s.endLine,row.s.id)))))))

def arrange (collapse : Bool) (rows : List SymbolSearchRow) : List SymbolSearchRow :=
  if collapse then Paging.firstOfEach canonical [] (Ranking.sortBy (canonicalOrder collate) rows)
  else Ranking.sortBy (versionOrder collate) rows

def orderedRows : List SymbolSearchRow := arrange collate filters.collapseByCanonical (searchedRows catalog lower filters)

def searchSymbolHits (limit offset : Nat) : List SymbolSearchRow :=
  ((orderedRows catalog lower filters collate).drop offset).take (max limit 1)

end

/-! The handler. -/

def docSummary (docs : Text) : Text := Str.trim (((Str.splitOnceAt "\n\n".toList docs).map Prod.fst).getD docs)

def hitOf (includeDocs : Bool) (row : SymbolSearchRow) : SymbolSearchHit :=
  ⟨row.c.name,row.cv.version,row.sf.path,row.s.name,row.s.kind,row.s.signature,row.s.visibility,
    if includeDocs then row.s.docs.map docSummary else none,row.s.startLine,row.s.endLine,row.s.indexSource,row.s.indexedAt⟩

def filtersOf (request : SymbolSearchRequest) (query : Text) : SymbolSearchFilters :=
  ⟨query,normalizeOptional request.crateName,normalizeOptional request.version,normalizeOptional request.kind,
    request.includeAllVersions.getD false,request.collapseByCanonical.getD false⟩

def checkFilters (cursor : Option SymbolCursorToken) (filters : SymbolSearchFilters) : Except Text Unit :=
  match cursor with
  | none => .ok ()
  | some token => do
      checkCursor token.v token.limit
      if token.toSymbolSearchFilters ≠ filters then
        .error "cursor does not match current symbol_search filters".toList

def assess (hits : List SymbolSearchHit) : ConfidenceLevel × Text × List Text :=
  if hits = [] then
    (.low,"no indexed symbols matched the query/filter set".toList,
      ["index_crates".toList,"index_refresh".toList,"source_search".toList])
  else
    (.medium,"symbol hits resolved by indexed name matching; verify with source_read".toList,
      ["source_read".toList,"crate_intel".toList])

def tokenAt (filters : SymbolSearchFilters) (limit offset : Nat) : SymbolCursorToken := ⟨⟨offset,limit⟩,filters,1⟩

section
variable (catalog : Catalog) (lower : Text → Text) {C : Type} [LinearOrder C] (collate : Text → C)

def handleSymbolSearch (request : SymbolSearchRequest) : Except Text SymbolSearchResponse := do
  let query ← normalizeRequired request.query "query".toList
  let filters := filtersOf request query
  checkFilters request.cursor filters
  let pag ← resolvePagination (request.cursor.map (·.toCursorToken)) request.limit.isSome
    (symbolSearchLimit request.limit) (syncPage request.page)
  let totalCount := countSymbolSearchHits catalog lower filters
  let hits := (searchSymbolHits catalog lower filters collate pag.limit pag.offset).map (hitOf (request.includeDocs.getD false))
  let hasMore := decide (pag.offset + hits.length < totalCount)
  let (confidence,reason,suggestedNextTools) := assess hits
  .ok {
    nextCursor := if hasMore then some (tokenAt filters pag.limit (saturatingAdd pag.offset pag.limit)) else none
    page := pag.effectivePage
    limit := pag.limit
    totalCount := totalCount
    hasMore := hasMore
    count := hits.length
    confidence := confidence
    reason := reason
    suggestedNextTools := suggestedNextTools
    hits := hits}

def respond (request : SymbolSearchRequest) (cursor : Option SymbolCursorToken) : Option SymbolSearchResponse :=
  (handleSymbolSearch catalog lower collate {request with cursor := cursor}).toOption

def answer (request : SymbolSearchRequest) (cursor : Option SymbolCursorToken) :
    Option (Paging.Page SymbolCursorToken SymbolSearchHit) :=
  (respond catalog lower collate request cursor).map fun response => ⟨response.hits,response.hasMore,response.nextCursor⟩

end

/-! The join. -/

section
variable (catalog : Catalog)

theorem joinedRow {s : SymbolRow} (mem : s ∈ catalog.symbols.rows) : (joinRow catalog s).map SymbolSearchRow.s = some s := by
  obtain ⟨cv,version,ofVersion⟩ := catalog.versionOf s mem
  obtain ⟨c,crate,ofCrate⟩ := catalog.crateOf cv version
  obtain ⟨sf,file,ofFile⟩ := catalog.fileOf s mem
  have foundVersion : catalog.versions.lookup s.crateVersionId = some cv := Keyed.Table.lookupIff.mpr ⟨version,ofVersion⟩
  have foundCrate : catalog.crates.lookup cv.crateId = some c := Keyed.Table.lookupIff.mpr ⟨crate,ofCrate⟩
  have foundFile : catalog.sourceFiles.lookup s.sourceFileId = some sf := Keyed.Table.lookupIff.mpr ⟨file,ofFile⟩
  simp only [joinRow,foundVersion,foundCrate,foundFile,bind,Option.bind,Option.map]

/-- Every symbol is joined once. -/
theorem joinedAll : (joined catalog).map SymbolSearchRow.s = catalog.symbols.rows := by
  have each : ∀ s ∈ catalog.symbols.rows, (joinRow catalog s).map SymbolSearchRow.s = some s := fun _ => joinedRow catalog
  rw [joined,List.map_filterMap,List.filterMap_congr each,List.filterMap_some]

/-- The orders end with the id of the symbol, so they leave no ties. -/
theorem joinedApart {row other : SymbolSearchRow} (mem : row ∈ joined catalog) (mem' : other ∈ joined catalog)
    (id : row.s.id = other.s.id) : row = other := by
  have unique : ((joined catalog).map fun row => row.s.id).Nodup := by
    have ids := catalog.symbols.unique
    rw [← joinedAll,List.map_map] at ids
    exact ids
  exact List.inj_on_of_nodup_map unique mem mem' id

end

/-! What the pages list. -/

/-- Of each canonical symbol one row, of the newest version that has it. -/
structure Newest (wanted rows : List SymbolSearchRow) : Prop where
  once : (rows.map canonical).Nodup
  newest : ∀ row ∈ rows, row ∈ wanted ∧
    ∀ other ∈ wanted, canonical other = canonical row → LatestVersions.recency other.cv ≤ LatestVersions.recency row.cv
  all : ∀ row ∈ wanted, canonical row ∈ rows.map canonical

def Lists (collapse : Bool) (wanted rows : List SymbolSearchRow) : Prop :=
  if collapse then Newest wanted rows else rows.Perm wanted

theorem listsCanonical {collapse : Bool} {wanted rows : List SymbolSearchRow} (lists : Lists collapse wanted rows)
    (k : Text × Text × Text × Text) : k ∈ rows.map canonical ↔ k ∈ wanted.map canonical := by
  cases collapse with
  | false =>
    have perm : rows.Perm wanted := lists
    exact (perm.map canonical).mem_iff
  | true =>
    have newest : Newest wanted rows := lists
    constructor
    · intro mem
      obtain ⟨row,inside,rfl⟩ := List.mem_map.mp mem
      exact List.mem_map_of_mem (newest.newest row inside).1
    · intro mem
      obtain ⟨row,inside,rfl⟩ := List.mem_map.mp mem
      exact newest.all row inside

section
variable {C : Type} [LinearOrder C] (collate : Text → C)

theorem orderRecent {row other : SymbolSearchRow} (same : canonical other = canonical row)
    (first : canonicalOrder collate row ≤ canonicalOrder collate other) :
    LatestVersions.recency other.cv ≤ LatestVersions.recency row.cv := by
  obtain ⟨name,rest⟩ := Prod.mk.inj same
  obtain ⟨path,rest⟩ := Prod.mk.inj rest
  obtain ⟨symbol,kind⟩ := Prod.mk.inj rest
  rw [canonicalOrder,canonicalOrder,name,path,symbol,kind] at first
  simp only [Prod.Lex.toLex_le_toLex,lt_irrefl,false_or,true_and] at first
  exact LatestVersions.latestFirstIff.mp (first.elim le_of_lt fun tied => le_of_eq tied.1)

theorem arrangedLists (collapse : Bool) (wanted : List SymbolSearchRow) : Lists collapse wanted (arrange collate collapse wanted) := by
  cases collapse with
  | false => exact Ranking.sortByPerm (versionOrder collate) wanted
  | true =>
    have sorted := Ranking.sortBySorted (canonicalOrder collate) wanted
    have member : ∀ row, row ∈ Ranking.sortBy (canonicalOrder collate) wanted ↔ row ∈ wanted := fun _ => Ranking.memSortBy
    refine (⟨Paging.firstOnce [] _,fun row kept => ⟨?_,fun other mem same => ?_⟩,fun row mem => ?_⟩ : Newest wanted _)
    · exact (member row).mp ((Paging.firstSublist [] _).subset kept)
    · exact orderRecent collate same (Paging.firstLeast sorted kept ((member other).mpr mem) same)
    · exact Paging.memFirst.mpr ⟨List.mem_map_of_mem ((member row).mpr mem),List.not_mem_nil⟩

theorem arrangedLength (collapse : Bool) (wanted : List SymbolSearchRow) :
    (arrange collate collapse wanted).length = rowCount collapse wanted := by
  cases collapse with
  | false => exact (Ranking.sortByPerm (versionOrder collate) wanted).length_eq
  | true =>
    have lists : Newest wanted (arrange collate true wanted) := arrangedLists collate true wanted
    have perm : ((arrange collate true wanted).map canonical).Perm (wanted.map canonical).dedup := by
      refine (List.perm_ext_iff_of_nodup lists.once (List.nodup_dedup _)).mpr fun k => ?_
      rw [List.mem_dedup]
      exact listsCanonical (arrangedLists collate true wanted) k
    have length := perm.length_eq
    rwa [List.length_map] at length

end

section
variable (catalog : Catalog) (lower : Text → Text) (filters : SymbolSearchFilters)

/-- The rows that the filters let through and whose name contains the query. -/
def soughtRows : List SymbolSearchRow :=
  (joined catalog).filter fun row => selects catalog lower filters row && decide (lower filters.query <:+: lower row.s.name)

/-- The pattern matches just the names that contain the query. -/
def Literal : Prop := ∀ row ∈ joined catalog, selects catalog lower filters row = true →
  (ErrorTypes.ilike lower (queryPattern filters.query) row.s.name = true ↔ lower filters.query <:+: lower row.s.name)

theorem memSearched {row : SymbolSearchRow} : row ∈ searchedRows catalog lower filters ↔ row ∈ joined catalog ∧
    selects catalog lower filters row = true ∧ ErrorTypes.ilike lower (queryPattern filters.query) row.s.name = true := by
  rw [searchedRows,List.mem_filter,Bool.and_eq_true]

theorem memSought {row : SymbolSearchRow} : row ∈ soughtRows catalog lower filters ↔
    row ∈ joined catalog ∧ selects catalog lower filters row = true ∧ lower filters.query <:+: lower row.s.name := by
  rw [soughtRows,List.mem_filter,Bool.and_eq_true,decide_eq_true_eq]

variable {catalog lower filters}

theorem literalRows (literal : Literal catalog lower filters) :
    searchedRows catalog lower filters = soughtRows catalog lower filters := by
  refine List.filter_congr fun row mem => ?_
  by_cases selected : selects catalog lower filters row = true
  · rw [selected,Bool.true_and,Bool.true_and,Bool.eq_iff_iff,decide_eq_true_eq]
    exact literal row mem selected
  · rw [Bool.not_eq_true] at selected
    rw [selected,Bool.false_and,Bool.false_and]

/-- The canonical symbols show whether the pattern was literal. -/
theorem literalOf (same : ∀ k, k ∈ (searchedRows catalog lower filters).map canonical ↔
    k ∈ (soughtRows catalog lower filters).map canonical) : Literal catalog lower filters := by
  intro row mem selected
  constructor
  · intro matches_
    have listed := List.mem_map_of_mem (f := canonical) ((memSearched catalog lower filters).mpr ⟨mem,selected,matches_⟩)
    obtain ⟨other,there,key⟩ := List.mem_map.mp ((same _).mp listed)
    have name : other.s.name = row.s.name := congrArg (fun key => key.2.2.1) key
    exact name ▸ ((memSought catalog lower filters).mp there).2.2
  · intro contains
    have listed := List.mem_map_of_mem (f := canonical) ((memSought catalog lower filters).mpr ⟨mem,selected,contains⟩)
    obtain ⟨other,there,key⟩ := List.mem_map.mp ((same _).mpr listed)
    have name : other.s.name = row.s.name := congrArg (fun key => key.2.2.1) key
    exact name ▸ ((memSearched catalog lower filters).mp there).2.2

/-- A query without wildcards and escapes is matched literally. -/
theorem plainLiteral (kept : lower (queryPattern filters.query) = queryPattern (lower filters.query))
    (plain : ∀ c ∈ lower filters.query, c ≠ '%' ∧ c ≠ '_' ∧ c ≠ '\\') : Literal catalog lower filters := by
  intro row _ _
  rw [ErrorTypes.ilike,kept,queryPattern,Like.likeAny]
  constructor
  · rintro ⟨before,behind,text,matches_⟩
    obtain ⟨rest,rfl,_⟩ := (Like.likeText plain).mp matches_
    exact ⟨before,rest,by rw [text,List.append_assoc]⟩
  · rintro ⟨before,rest,text⟩
    exact ⟨before,lower filters.query ++ rest,by rw [← text,List.append_assoc],
      (Like.likeText plain).mpr ⟨rest,rfl,Like.likeEverything rest⟩⟩

end

/-! What the pages return. -/

section
variable (catalog : Catalog) (lower : Text → Text) {C : Type} [LinearOrder C] (collate : Text → C) (request : SymbolSearchRequest)

def requested : SymbolSearchFilters := filtersOf request (Str.trim request.query)

/-- A request for the first page. -/
structure Opens : Prop where
  named : Str.trim request.query ≠ []
  first : syncPage request.page = 1

/-- The pages list these rows, and each response counts them. -/
structure Answers (rows : List SymbolSearchRow) : Prop where
  lists : Lists (requested request).collapseByCanonical (soughtRows catalog lower (requested request)) rows
  pages : Paging.Follows (answer catalog lower collate request) none (rows.map (hitOf (request.includeDocs.getD false)))
  counted : ∀ cursor response, respond catalog lower collate request cursor = some response → response.totalCount = rows.length

/-- The query is matched literally, and offsets reach through what it finds. -/
structure Reads : Prop where
  literal : Literal catalog lower (requested request)
  reachable : Paging.Reachable (symbolSearchLimit request.limit) (2 ^ 32 - 1)
    (rowCount (requested request).collapseByCanonical (soughtRows catalog lower (requested request)))

variable {catalog lower collate request}

theorem limitBounds (limit : Option Nat) : 0 < symbolSearchLimit limit := (clampBounds (by decide) _).1

theorem countedRows {cursor : Option SymbolCursorToken} {response : SymbolSearchResponse}
    (responds : respond catalog lower collate request cursor = some response) :
    response.totalCount = countSymbolSearchHits catalog lower (requested request) := by
  obtain ⟨query,named,rest⟩ := bindOk (okOfOption responds)
  obtain ⟨_,_,rest⟩ := bindOk rest
  obtain ⟨pag,_,last⟩ := bindOk rest
  cases Except.ok.inj last
  have trimmed : query = Str.trim request.query := by
    unfold normalizeRequired at named
    split at named
    · contradiction
    · exact (Except.ok.inj named).symm
  rw [trimmed]
  rfl

theorem answeredAt (opens : Opens request) {cursor : Option SymbolCursorToken} {offset : Nat}
    (stands : Paging.StandsAt (tokenAt (requested request) (symbolSearchLimit request.limit)) cursor offset) :
    answer catalog lower collate request cursor = some (Paging.cutPage
      ((((orderedRows catalog lower (requested request) collate).map (hitOf (request.includeDocs.getD false))).drop offset).take
        (symbolSearchLimit request.limit + 1)) (symbolSearchLimit request.limit)
      (tokenAt (requested request) (symbolSearchLimit request.limit)
        (min (offset + symbolSearchLimit request.limit) (2 ^ 32 - 1)))) := by
  have some_ := limitBounds request.limit
  have query := requiredNamed "query".toList opens.named
  have filters : filtersOf {request with cursor := cursor} (Str.trim request.query) = requested request := rfl
  have checked : checkFilters cursor (requested request) = .ok () := by
    rcases stands with ⟨rfl,rfl⟩ | rfl
    · rfl
    · have passes := cursorPasses some_
      simp [checkFilters,passes,tokenAt,bind,Except.bind]
      rfl
  obtain ⟨effective,paginated⟩ : ∃ effective, resolvePagination (cursor.map (·.toCursorToken)) request.limit.isSome
      (symbolSearchLimit request.limit) (syncPage request.page) = .ok ⟨offset,symbolSearchLimit request.limit,effective⟩ :=
    paginatedAt opens.first (stands.map SymbolCursorToken.toCursorToken)
  have total : countSymbolSearchHits catalog lower (requested request) =
      ((orderedRows catalog lower (requested request) collate).map (hitOf (request.includeDocs.getD false))).length := by
    rw [List.length_map,orderedRows,arrangedLength,countSymbolSearchHits]
  have found : (searchSymbolHits catalog lower (requested request) collate (symbolSearchLimit request.limit) offset).map
      (hitOf (request.includeDocs.getD false)) =
        (((orderedRows catalog lower (requested request) collate).map (hitOf (request.includeDocs.getD false))).drop offset).take
          (max (symbolSearchLimit request.limit) 1) := by
    rw [searchSymbolHits,List.map_take,List.map_drop]
  simp only [answer,respond,handleSymbolSearch,query,filters,checked,paginated,total,found,bind,Except.bind]
  exact congrArg some (Paging.countWritten _ some_ _)

/-- The pages are the rows in their order, where offsets reach through them. -/
theorem readsIff (opens : Opens request) {out : List SymbolSearchHit} :
    (Paging.Follows (answer catalog lower collate request) none out ∧
      out.length = countSymbolSearchHits catalog lower (requested request)) ↔
    out = (orderedRows catalog lower (requested request) collate).map (hitOf (request.includeDocs.getD false)) ∧
      Paging.Reachable (symbolSearchLimit request.limit) (2 ^ 32 - 1) (countSymbolSearchHits catalog lower (requested request)) := by
  have length : ((orderedRows catalog lower (requested request) collate).map (hitOf (request.includeDocs.getD false))).length =
      countSymbolSearchHits catalog lower (requested request) := by
    rw [List.length_map,orderedRows,arrangedLength,countSymbolSearchHits]
  rw [← length,Paging.followsCuts (answeredAt opens) (Or.inl ⟨rfl,rfl⟩)]
  exact Paging.cutsWholeIff (fun _ => rfl) (limitBounds _)

variable (catalog lower collate) in
theorem respondsFirst (opens : Opens request) : ∃ response, respond catalog lower collate request none = some response := by
  have page : answer catalog lower collate request none = some _ := answeredAt opens (Or.inl ⟨rfl,rfl⟩)
  obtain ⟨response,responds,_⟩ := Option.map_eq_some_iff.mp page
  exact ⟨response,responds⟩

theorem answersReads (opens : Opens request) {rows : List SymbolSearchRow}
    (answers : Answers catalog lower collate request rows) : Reads catalog lower request := by
  obtain ⟨response,responds⟩ := respondsFirst catalog lower collate opens
  have count := (answers.counted none response responds).symm.trans (countedRows responds)
  obtain ⟨same,reachable⟩ := (readsIff opens).mp ⟨answers.pages,by rw [List.length_map,count]⟩
  have keys : rows.map canonical = (orderedRows catalog lower (requested request) collate).map canonical := by
    have hits := congrArg (List.map fun hit : SymbolSearchHit => (hit.crateName,hit.sourcePath,hit.name,hit.kind)) same
    rwa [List.map_map,List.map_map] at hits
  have literal : Literal catalog lower (requested request) := by
    refine literalOf fun k => ?_
    rw [← listsCanonical (arrangedLists collate (requested request).collapseByCanonical _) k,← listsCanonical answers.lists k,keys]
    rfl
  refine ⟨literal,?_⟩
  rwa [countSymbolSearchHits,literalRows literal] at reachable

end

theorem symbolsListedIff (catalog : Catalog) (lower : Text → Text) {C : Type} [LinearOrder C] (collate : Text → C)
    (request : SymbolSearchRequest) (opens : Opens request) :
    (∃ rows, Answers catalog lower collate request rows) ↔ Reads catalog lower request := by
  constructor
  · rintro ⟨rows,answers⟩
    exact answersReads opens answers
  · intro reads
    have same := literalRows reads.literal
    have count : countSymbolSearchHits catalog lower (requested request) =
        (orderedRows catalog lower (requested request) collate).length := by
      rw [orderedRows,arrangedLength,countSymbolSearchHits]
    have reachable := reads.reachable
    rw [← same] at reachable
    refine ⟨orderedRows catalog lower (requested request) collate,?_,((readsIff opens).mpr ⟨rfl,reachable⟩).1,
      fun cursor response responds => (countedRows responds).trans count⟩
    rw [orderedRows,same]
    exact arrangedLists collate _ _

/-! Two functions, one of which has an underscore in its name. -/

def demoVersion : CrateVersionRow := ⟨1,1,"1.0.0".toList,some 10⟩

def demoFile : SourceFileRow := ⟨1,"src/lib.rs".toList⟩

def demoSymbol (id : Nat) (name : String) : SymbolRow :=
  ⟨id,1,1,name.toList,"function".toList,none,none,none,1,1,"rustdoc_json".toList,"2024-01-01".toList⟩

theorem demoIds : ([demoSymbol 1 "as_str",demoSymbol 2 "asastr"].map (·.id)).Nodup := by decide

def demoCatalog : Catalog where
  crates := ⟨[⟨1,"demo".toList⟩],List.nodup_singleton _⟩
  versions := ⟨[demoVersion],List.nodup_singleton _⟩
  sourceFiles := ⟨[demoFile],List.nodup_singleton _⟩
  symbols := ⟨[demoSymbol 1 "as_str",demoSymbol 2 "asastr"],demoIds⟩
  crateOf := by decide
  versionOf := by decide
  fileOf := by decide

def demoRequest (query : String) : SymbolSearchRequest := ⟨query.toList,none,none,none,none,none,none,none,none,none⟩

theorem symbolsListedIffPlain : Opens (demoRequest "str") ∧
    ∃ rows, Answers demoCatalog Str.toAsciiLowercase (id : Text → Text) (demoRequest "str") rows := by
  have opens : Opens (demoRequest "str") := ⟨by decide,rfl⟩
  refine ⟨opens,(symbolsListedIff demoCatalog Str.toAsciiLowercase id (demoRequest "str") opens).mpr ⟨plainLiteral rfl ?_,?_⟩⟩
  · have query : Str.toAsciiLowercase (requested (demoRequest "str")).query = ['s','t','r'] := by decide
    rw [query]
    simp
  · exact fun k below => le_trans (le_of_lt below) (by decide)

/-- The underscore of the query stands for any character. -/
theorem underscoreMatchesAny :
    ¬ ∃ rows, Answers demoCatalog Str.toAsciiLowercase (id : Text → Text) (demoRequest "as_str") rows := by
  rintro ⟨rows,answers⟩
  have literal := (answersReads ⟨by decide,rfl⟩ answers).literal
  have matched := (literal ⟨demoSymbol 2 "asastr",demoVersion,⟨1,"demo".toList⟩,demoFile⟩ (by decide) (by decide)).mp (by decide)
  exact absurd matched (by decide)

end RustMcp.SymbolSearch
