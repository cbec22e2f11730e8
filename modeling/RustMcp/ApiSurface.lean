import RustMcp.Deprecated
import RustMcp.ErrorTypes

/-! `crate_api`, page by page: the public symbols of a version, by their kinds, names and places. -/
namespace RustMcp.ApiSurface
open Str (Text)
open Utils Queries

structure ApiSurfaceRow extends SymbolRow where
  id : Nat
  kind : Text
  visibility : Option Text
  docs : Option Text
  sourcePath : Text
  startLine : Int
  endLine : Int

structure Data (lower : Text → Text) where
  index : Index lower
  symbols : List ApiSurfaceRow
  same : index.symbols = symbols.map ApiSurfaceRow.toSymbolRow
  ids : (symbols.map ApiSurfaceRow.id).Nodup

structure ApiSurfaceListParams where
  crateVersionId : Nat
  kinds : Option (List Text)
  preferredSource : Option Text
  pathLike : Option Text
  limit : Nat
  offset : Nat
  deriving DecidableEq

structure CrateApiCursorToken extends CursorToken where
  v : Nat
  crateName : Text
  version : Option Text
  pathGlob : Option Text
  kinds : List Text

structure CrateApiRequest where
  crateName : Text
  version : Option Text
  pathGlob : Option Text
  kinds : Option (List Text)
  cursor : Option CrateApiCursorToken
  page : Option Nat
  limit : Option Nat

/-- The part of the response that is paged; a symbol shows the fields of its row. -/
structure CrateApiResponse where
  nextCursor : Option CrateApiCursorToken
  page : Nat
  limit : Nat
  hasMore : Bool
  symbols : List ApiSurfaceRow

def crateApiLimit (value : Option Nat) : Nat := clamp 1 1000 (value.getD 200)

/-- `method` stands for `function`. -/
def normalizeKind (value : Text) : Text :=
  let normalized := Str.toAsciiLowercase (Str.trim value)
  if normalized = "method".toList then "function".toList else normalized

def normalizeKindFilters (input : Option (List Text)) : List Text := ordered (((input.getD []).map normalizeKind).filter (· ≠ []))

def allowedKinds : List Text :=
  ["function".toList,"struct".toList,"enum".toList,"trait".toList,"type_alias".toList,"const".toList,"static".toList,
    "module".toList]

def allowedKindFilters (values : List Text) : List Text := values.filter (· ∈ allowedKinds)

section
variable {C : Type} [LinearOrder C] (collate : Text → C) {lower : Text → Text} (data : Data lower)

def isPublic (crateVersionId : Nat) (row : ApiSurfaceRow) : Bool :=
  row.crateVersionId = crateVersionId && row.visibility = some "public".toList

def hasRustdocSymbols (crateVersionId : Nat) : Bool :=
  data.symbols.any fun row => isPublic crateVersionId row && row.indexSource = "rustdoc_json".toList

def matchesPath (lower : Text → Text) (pathLike : Text) (row : ApiSurfaceRow) : Bool :=
  ErrorTypes.ilike lower pathLike row.sourcePath || ErrorTypes.ilike lower pathLike row.name

def apiRows (params : ApiSurfaceListParams) : List ApiSurfaceRow :=
  data.symbols.filter fun row => isPublic params.crateVersionId row && params.kinds.all (row.kind ∈ ·) &&
    params.preferredSource.all (row.indexSource = ·) && params.pathLike.all fun pathLike => matchesPath lower pathLike row

/-- `kind ASC, name ASC, path ASC, start_line ASC, end_line ASC` -/
def listOrder (row : ApiSurfaceRow) : C ×ₗ C ×ₗ C ×ₗ Int ×ₗ Int :=
  toLex (collate row.kind,toLex (collate row.name,toLex (collate row.sourcePath,toLex (row.startLine,row.endLine))))

/-- In which order each query has its rows. -/
def Orders (listing : ApiSurfaceListParams → List ApiSurfaceRow) : Prop :=
  ∀ params, TiedPages.Arranged (listOrder collate) (apiRows data params) (listing params)

end

section
variable {lower : Text → Text} (data : Data lower) (listing : ApiSurfaceListParams → List ApiSurfaceRow)

def listPublicApiSymbolsForVersion (params : ApiSurfaceListParams) : List ApiSurfaceRow :=
  ((listing params).drop params.offset).take (max params.limit 1)

def checkFilters (cursor : Option CrateApiCursorToken) (crateName : Text) (version pathGlob : Option Text) (kinds : List Text) :
    Except Text Unit :=
  match cursor with
  | none => .ok ()
  | some token => do
      checkCursor token.v token.limit
      if token.crateName ≠ crateName || token.version ≠ version || token.pathGlob ≠ pathGlob || token.kinds ≠ kinds then
        .error "cursor does not match current crate_api filters".toList
      else .ok ()

def paramsAt (request : CrateApiRequest) (selected : CrateVersionRow) (limit offset : Nat) : ApiSurfaceListParams :=
  let kinds := allowedKindFilters (normalizeKindFilters request.kinds)
  { crateVersionId := selected.id
    kinds := if kinds = [] then none else some kinds
    preferredSource := if hasRustdocSymbols data selected.id then some "rustdoc_json".toList else none
    pathLike := (normalizeOptional request.pathGlob).map pathGlobToLike
    limit := limit
    offset := offset }

def handleCrateApi (waited : Waited) (request : CrateApiRequest) : Reply CrateApiResponse := do
  let crateName ← failing (normalizeRequired request.crateName "crate_name".toList)
  let version := normalizeOptional request.version
  let pathGlob := normalizeOptional request.pathGlob
  let kinds := allowedKindFilters (normalizeKindFilters request.kinds)
  failing (checkFilters request.cursor crateName version pathGlob kinds)
  let pag ← failing (resolvePagination (request.cursor.map (·.toCursorToken)) request.limit.isSome (crateApiLimit request.limit)
    (syncPage request.page))
  let ctx ← fetchCrateContext data.index waited crateName
  let selected ← resolveVersionOrLatest data.index ctx version
  ensureRustdocIndexed data.index waited crateName selected.id
  let rows := listPublicApiSymbolsForVersion listing (paramsAt data request selected (saturatingAdd pag.limit 1) pag.offset)
  let hasMore := decide (rows.length > pag.limit)
  return {
    nextCursor :=
      if hasMore then some ⟨⟨saturatingAdd pag.offset pag.limit,pag.limit⟩,1,crateName,version,pathGlob,kinds⟩ else none
    page := pag.effectivePage
    limit := pag.limit
    hasMore := hasMore
    symbols := if hasMore then rows.take pag.limit else rows}

def answer (waited : Waited) (request : CrateApiRequest) (cursor : Option CrateApiCursorToken) :
    Option (Paging.Page CrateApiCursorToken ApiSurfaceRow) :=
  (handleCrateApi data listing waited {request with cursor := cursor}).toOption.map fun response =>
    ⟨response.symbols,response.hasMore,response.nextCursor⟩

end

section
variable {lower : Text → Text} {data : Data lower} {waited : Waited} {request : CrateApiRequest} {ctx : CrateContext}
  {selected : CrateVersionRow}

def tokenAt (request : CrateApiRequest) (offset : Nat) : CrateApiCursorToken :=
  ⟨⟨offset,crateApiLimit request.limit⟩,1,Str.trim request.crateName,normalizeOptional request.version,
    normalizeOptional request.pathGlob,allowedKindFilters (normalizeKindFilters request.kinds)⟩

/-- A request for the first page, of a crate version that is found and indexed. -/
structure Opens (data : Data lower) (waited : Waited) (request : CrateApiRequest) (ctx : CrateContext)
    (selected : CrateVersionRow) : Prop where
  named : Str.trim request.crateName ≠ []
  first : syncPage request.page = 1
  found : fetchCrateContext data.index waited (Str.trim request.crateName) = .ok ctx
  resolved : resolveVersionOrLatest data.index ctx (normalizeOptional request.version) = .ok selected
  indexed : ensureRustdocIndexed data.index waited (Str.trim request.crateName) selected.id = .ok ()

theorem limitBounds (limit : Option Nat) : 0 < crateApiLimit limit ∧ crateApiLimit limit ≤ 1000 :=
  clampBounds (by decide) _

def queryAt (data : Data lower) (request : CrateApiRequest) (selected : CrateVersionRow) (offset : Nat) : ApiSurfaceListParams :=
  paramsAt data request selected (crateApiLimit request.limit + 1) offset

theorem answeredAt (opens : Opens data waited request ctx selected) (listing : ApiSurfaceListParams → List ApiSurfaceRow)
    {cursor : Option CrateApiCursorToken} {offset : Nat} (stands : Paging.StandsAt (tokenAt request) cursor offset) :
    answer data listing waited request cursor =
      some (Paging.cutPage (TiedPages.window (fun offset => listing (queryAt data request selected offset))
        (crateApiLimit request.limit) offset) (crateApiLimit request.limit)
        (tokenAt request (min (offset + crateApiLimit request.limit) (2 ^ 32 - 1)))) := by
  have bounds := limitBounds request.limit
  have name := requiredNamed "crate_name".toList opens.named
  have filters : checkFilters cursor (Str.trim request.crateName) (normalizeOptional request.version)
      (normalizeOptional request.pathGlob) (allowedKindFilters (normalizeKindFilters request.kinds)) = .ok () := by
    rcases stands with ⟨rfl,rfl⟩ | rfl
    · rfl
    · have passes := cursorPasses bounds.1
      simp [checkFilters,passes,tokenAt,bind,Except.bind]
  obtain ⟨effective,paginated⟩ : ∃ effective, resolvePagination (cursor.map (·.toCursorToken)) request.limit.isSome
      (crateApiLimit request.limit) (syncPage request.page) = .ok ⟨offset,crateApiLimit request.limit,effective⟩ :=
    paginatedAt opens.first (stands.map CrateApiCursorToken.toCursorToken)
  have asked : saturatingAdd (crateApiLimit request.limit) 1 = crateApiLimit request.limit + 1 := saturatingAddSmall (by omega)
  have window : listPublicApiSymbolsForVersion listing (queryAt data request selected offset) =
      TiedPages.window (fun offset => listing (queryAt data request selected offset)) (crateApiLimit request.limit) offset := by
    rw [listPublicApiSymbolsForVersion,show max (queryAt data request selected offset).limit 1 = crateApiLimit request.limit + 1 from
      Nat.max_eq_left (Nat.le_add_left 1 _)]
    rfl
  simp only [answer,handleCrateApi,name,filters,paginated,opens.found,opens.resolved,opens.indexed,failing,Except.mapError,bind,
    Except.bind,pure,Except.pure,Except.toOption,Option.map_some,Option.some.injEq,asked]
  rw [show paramsAt data {request with cursor := cursor} selected = paramsAt data request selected from rfl,← queryAt,window]
  exact Paging.cutWritten _ _ _

theorem rowsOnce (data : Data lower) (params : ApiSurfaceListParams) : (apiRows data params).Nodup := (data.ids.of_map _).filter _

/-- Following the cursor, in whatever order the queries have the rows that tie, every row is returned once. -/
def PagesOnce {C : Type} [LinearOrder C] (collate : Text → C) (data : Data lower) (waited : Waited) (request : CrateApiRequest)
    (selected : CrateVersionRow) : Prop :=
  ∀ listing, Orders collate data listing →
    ∃ out, Paging.Follows (answer data listing waited request) none out ∧ out.Perm (apiRows data (queryAt data request selected 0))

variable {C : Type} [LinearOrder C] {collate : Text → C}

theorem pagesRead (opens : Opens data waited request ctx selected) (listing : ApiSurfaceListParams → List ApiSurfaceRow)
    {out : List ApiSurfaceRow} : Paging.Follows (answer data listing waited request) none out ↔
      TiedPages.Reads (fun k => min (k * crateApiLimit request.limit) (2 ^ 32 - 1)) (fun _ => True)
        (TiedPages.window (fun offset => listing (queryAt data request selected offset)) (crateApiLimit request.limit))
        (crateApiLimit request.limit) 0 out := by
  rw [Paging.followsCuts (answeredAt opens listing) (Or.inl ⟨rfl,rfl⟩),← TiedPages.cutsReads,Nat.zero_mul,Nat.zero_min]

theorem pagesOnceIff (opens : Opens data waited request ctx selected) :
    PagesOnce collate data waited request selected ↔
      TiedPages.Clean (listOrder collate) (apiRows data (queryAt data request selected 0))
        (fun k => min (k * crateApiLimit request.limit) (2 ^ 32 - 1)) (fun _ => True) (crateApiLimit request.limit) := by
  rw [← TiedPages.onceIff (limitBounds request.limit).1 (by rw [Nat.zero_mul,Nat.zero_min]) (fun k => Nat.min_le_left _ _)
    (rowsOnce data _)]
  constructor
  · intro once arrange arranged
    -- the queries with other filters have their rows as they are sorted
    obtain ⟨out,follows,perm⟩ := once
      (fun params => if params = queryAt data request selected params.offset then arrange params.offset
        else Ranking.sortBy (listOrder collate) (apiRows data params)) fun params => by
      dsimp only
      split
      · rename_i own
        rw [own]
        exact arranged _
      · exact TiedPages.sortedArranged _ _
    have shown := (pagesRead opens _).mp follows
    simp only [queryAt,paramsAt,if_true] at shown
    exact ⟨out,shown,perm⟩
  · intro once listing orders
    obtain ⟨out,reads,perm⟩ := once (fun offset => listing (queryAt data request selected offset))
      fun offset => orders (queryAt data request selected offset)
    exact ⟨out,(pagesRead opens listing).mpr reads,perm⟩

/-- For every page size: the order's key identifies the rows, and the offsets reach them. -/
theorem everySizeIff (opens : Opens data waited request ctx selected) :
    (∀ limit, PagesOnce collate data waited {request with limit := limit} selected) ↔
      ((apiRows data (queryAt data request selected 0)).map (listOrder collate)).Nodup ∧
        (apiRows data (queryAt data request selected 0)).length ≤ 2 ^ 32 := by
  have each (limit : Option Nat) : PagesOnce collate data waited {request with limit := limit} selected ↔ _ :=
    pagesOnceIff ⟨opens.named,opens.first,opens.found,opens.resolved,opens.indexed⟩
  simp only [each]
  have rows (limit : Option Nat) : apiRows data (queryAt data {request with limit := limit} selected 0) =
      apiRows data (queryAt data request selected 0) := rfl
  simp only [rows]
  constructor
  · intro clean
    have single (k : Nat) (more : k + 1 < (apiRows data (queryAt data request selected 0)).length) := clean (some 1) k (by
      rw [show crateApiLimit (some 1) = 1 from rfl,Nat.mul_one]
      exact more)
    refine ⟨TiedPages.apartEverywhere.mp fun k more => ?_,?_⟩
    · have apart := (single k more).2.2
      rwa [show crateApiLimit (some 1) = 1 from rfl,Nat.mul_one] at apart
    · by_contra many
      have beyond : min ((2 ^ 32 - 1 + 1) * 1) (2 ^ 32 - 1) = (2 ^ 32 - 1 + 1) * 1 := (single (2 ^ 32 - 1) (by omega)).2.1
      omega
  · rintro ⟨identifies,few⟩ limit k more
    have step : (k + 1) * crateApiLimit limit = _ := Nat.succ_mul k _
    have some_ := (limitBounds limit).1
    refine ⟨trivial,Nat.min_eq_left (by omega),?_⟩
    have apart := TiedPages.apartEverywhere.mpr identifies (k * crateApiLimit limit + crateApiLimit limit - 1) (by omega)
    rwa [Nat.sub_add_cancel (by omega)] at apart

end

/-- With every page size both tools return each row once, just when the keys of their orders identify
the rows and there is an offset, or a page number, for each. -/
theorem keysIdentifyIff {C : Type} [LinearOrder C] (collate : Text → C) (tables : Deprecated.Tables) {lower : Text → Text}
    {data : Data lower} {waited : Waited} {request : CrateApiRequest} {deprecatedRequest : Deprecated.CrateDeprecatedRequest}
    {ctx ctx' : CrateContext} {selected selected' : CrateVersionRow} (opens : Opens data waited request ctx selected)
    (opens' : Deprecated.Opens data.index waited deprecatedRequest ctx' selected') :
    let symbols := apiRows data (queryAt data request selected 0)
    let items := Deprecated.deprecatedRows tables selected'.id
    ((∀ limit, PagesOnce collate data waited {request with limit := limit} selected) ↔
      (symbols.map (listOrder collate)).Nodup ∧ symbols.length ≤ 2 ^ 32) ∧
    ((∀ limit, Deprecated.PagesOnce collate tables data.index waited {deprecatedRequest with limit := limit} selected') ↔
      (items.map (Deprecated.listOrder collate)).Nodup ∧ items.length < 2 ^ 32) :=
  ⟨everySizeIff opens,Deprecated.everySizeIff opens'⟩

/-- Two public functions on one line, the first of which is called `new`. -/
def twoFunctions (second : Text) : Data Str.toAsciiLowercase where
  index := {
    crates := ⟨[⟨1,"surface".toList⟩],by decide⟩
    versions := [⟨7,1,"1.0.0".toList,some 5⟩]
    sourceFiles := []
    symbols := [⟨7,"new".toList,none,"rustdoc_json".toList⟩,⟨7,second,none,"rustdoc_json".toList⟩]
    types := []
    impls := []}
  symbols := [
    ⟨⟨7,"new".toList,none,"rustdoc_json".toList⟩,1,"function".toList,some "public".toList,none,"src/lib.rs".toList,3,3⟩,
    ⟨⟨7,second,none,"rustdoc_json".toList⟩,2,"function".toList,some "public".toList,none,"src/lib.rs".toList,3,3⟩]
  same := rfl
  ids := by change ([1,2] : List Nat).Nodup; decide

def twoDeprecated (second : Text) : Deprecated.Tables where
  symbols := [⟨1,7,"new".toList,"function".toList,some "1.1".toList,none,none,none,"rustdoc_json".toList⟩,
    ⟨2,7,second,"function".toList,some "1.1".toList,none,none,none,"rustdoc_json".toList⟩]
  crateTypes := []
  symbolIds := by change ([1,2] : List Nat).Nodup; decide
  typeIds := by decide

def apiRequest : CrateApiRequest := ⟨"surface".toList,none,none,none,none,none,none⟩

def deprecatedRequest : Deprecated.CrateDeprecatedRequest := ⟨"surface".toList,none,none,none⟩

def demoSelected : CrateVersionRow := ⟨7,1,"1.0.0".toList,some 5⟩

def demoContext : CrateContext := ⟨⟨1,"surface".toList⟩,demoSelected⟩

theorem apiOpens (second : Text) (limit : Option Nat) :
    Opens (twoFunctions second) (fun _ => none) {apiRequest with limit := limit} demoContext demoSelected where
  named := by change Str.trim "surface".toList ≠ []; decide
  first := rfl
  found := rfl
  resolved := rfl
  indexed := rfl

theorem deprecatedOpens (second : Text) (limit : Option Nat) :
    Deprecated.Opens (twoFunctions second).index (fun _ => none) {deprecatedRequest with limit := limit} demoContext demoSelected where
  named := by change Str.trim "surface".toList ≠ []; decide
  found := rfl
  resolved := rfl

theorem keysIdentifyIffNames :
    (∀ limit, PagesOnce (id : Text → Text) (twoFunctions "len".toList) (fun _ => none) {apiRequest with limit := limit} demoSelected) ∧
    ∀ limit, Deprecated.PagesOnce (id : Text → Text) (twoDeprecated "len".toList) (twoFunctions "len".toList).index (fun _ => none)
      {deprecatedRequest with limit := limit} demoSelected := by
  obtain ⟨api,deprecated⟩ := keysIdentifyIff (id : Text → Text) (twoDeprecated "len".toList) (apiOpens "len".toList none)
    (deprecatedOpens "len".toList none)
  exact ⟨api.mpr ⟨by decide +kernel,by decide +kernel⟩,deprecated.mpr ⟨by decide +kernel,by decide +kernel⟩⟩

/-- Both functions are called `new`. With one row a page the second page may show the row of the first. -/
theorem sameNameRepeats :
    ¬PagesOnce (id : Text → Text) (twoFunctions "new".toList) (fun _ => none) {apiRequest with limit := some 1} demoSelected ∧
    ¬Deprecated.PagesOnce (id : Text → Text) (twoDeprecated "new".toList) (twoFunctions "new".toList).index (fun _ => none)
      {deprecatedRequest with limit := some 1} demoSelected := by
  constructor
  · rw [pagesOnceIff (apiOpens "new".toList (some 1))]
    intro clean
    exact (clean 0 (by decide +kernel)).2.2 _ _ (by rfl) (by rfl) (by decide +kernel)
  · rw [Deprecated.pagesOnceIff (deprecatedOpens "new".toList (some 1))]
    intro clean
    exact (clean 0 (by decide +kernel)).2.2 _ _ (by rfl) (by rfl) (by decide +kernel)

end RustMcp.ApiSurface
