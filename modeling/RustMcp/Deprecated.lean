import RustMcp.PageArithmetic
import RustMcp.Queries
import RustMcp.TiedPages

/-! `crate_deprecated`, page by page: deprecated rows of `symbols` and of `crate_types`, by their
names and kinds. -/
namespace RustMcp.Deprecated
open Str (Text)
open Utils Queries

/-- The columns of both tables that the listing reads. -/
structure ItemRow where
  id : Nat
  crateVersionId : Nat
  name : Text
  kind : Text
  deprecatedSince : Option Text
  deprecatedNote : Option Text
  canonicalPath : Option Text
  docs : Option Text
  indexSource : Text

inductive ItemTable where
  | symbols | crateTypes

structure DeprecatedItemRow extends ItemRow where
  table : ItemTable

structure Tables where
  symbols : List ItemRow
  crateTypes : List ItemRow
  symbolIds : (symbols.map ItemRow.id).Nodup
  typeIds : (crateTypes.map ItemRow.id).Nodup

def isDeprecated (crateVersionId : Nat) (row : ItemRow) : Bool :=
  row.crateVersionId = crateVersionId && (row.deprecatedSince.isSome || row.deprecatedNote.isSome)

/-- `UNION ALL` -/
def deprecatedRows (tables : Tables) (crateVersionId : Nat) : List DeprecatedItemRow :=
  ((tables.symbols.filter (isDeprecated crateVersionId)).map fun row => ⟨row,.symbols⟩) ++
    (tables.crateTypes.filter (isDeprecated crateVersionId)).map fun row => ⟨row,.crateTypes⟩

structure CrateDeprecatedRequest where
  crateName : Text
  version : Option Text
  page : Option Nat
  limit : Option Nat

/-- The part of the response that is paged; an item shows the fields of its row. -/
structure CrateDeprecatedResponse where
  hasMore : Bool
  deprecatedItems : List DeprecatedItemRow

structure DeprecatedQuery where
  crateVersionId : Nat
  limit : Nat
  offset : Nat
  deriving DecidableEq

section
variable {C : Type} [LinearOrder C] (collate : Text → C) (tables : Tables)

/-- `name ASC, kind ASC` -/
def listOrder (row : DeprecatedItemRow) : C ×ₗ C := toLex (collate row.name,collate row.kind)

/-- In which order each query has its rows. -/
def Orders (listing : DeprecatedQuery → List DeprecatedItemRow) : Prop :=
  ∀ query, TiedPages.Arranged (listOrder collate) (deprecatedRows tables query.crateVersionId) (listing query)

end

section
variable (listing : DeprecatedQuery → List DeprecatedItemRow)

def listDeprecatedItems (query : DeprecatedQuery) : List DeprecatedItemRow :=
  ((listing query).drop query.offset).take (max query.limit 1)

variable {lower : Text → Text} (index : Index lower) (waited : Waited)

/-- That rustdoc could not be indexed is only logged. -/
def handleCrateDeprecated (request : CrateDeprecatedRequest) : Reply CrateDeprecatedResponse := do
  let crateName ← failing (normalizeRequired request.crateName "crate_name".toList)
  let ctx ← fetchCrateContext index waited crateName
  let selected ← resolveVersionOrLatest index ctx (normalizeOptional request.version)
  let window := PageArithmetic.crateDeprecated request.page request.limit
  let rows := listDeprecatedItems listing ⟨selected.id,saturatingAdd window.limit 1,window.offset⟩
  let hasMore := decide (rows.length > window.limit)
  return ⟨hasMore,if hasMore then rows.take window.limit else rows⟩

/-- What the pages return from a number on, until there is no more; numbers are of 32 bits. -/
inductive ReadsPages (request : CrateDeprecatedRequest) : Nat → List DeprecatedItemRow → Prop where
  | last {page : Nat} {response : CrateDeprecatedResponse}
      (answer : handleCrateDeprecated listing index waited {request with page := some page} = .ok response)
      (done : response.hasMore = false) : ReadsPages request page response.deprecatedItems
  | more {page : Nat} {response : CrateDeprecatedResponse} {out : List DeprecatedItemRow}
      (answer : handleCrateDeprecated listing index waited {request with page := some page} = .ok response)
      (more : response.hasMore = true) (next : page + 1 < 2 ^ 32) (rest : ReadsPages request (page + 1) out) :
      ReadsPages request page (response.deprecatedItems ++ out)

end

section
variable {lower : Text → Text} {index : Index lower} {waited : Waited} {request : CrateDeprecatedRequest} {ctx : CrateContext}
  {selected : CrateVersionRow} {listing : DeprecatedQuery → List DeprecatedItemRow}

/-- A crate version that is found. -/
structure Opens (index : Index lower) (waited : Waited) (request : CrateDeprecatedRequest) (ctx : CrateContext)
    (selected : CrateVersionRow) : Prop where
  named : Str.trim request.crateName ≠ []
  found : fetchCrateContext index waited (Str.trim request.crateName) = .ok ctx
  resolved : resolveVersionOrLatest index ctx (normalizeOptional request.version) = .ok selected

theorem Opens.limited (opens : Opens index waited request ctx selected) (limit : Option Nat) :
    Opens index waited {request with limit := limit} ctx selected := ⟨opens.named,opens.found,opens.resolved⟩

def limitOf (request : CrateDeprecatedRequest) : Nat := PageArithmetic.deprecatedLimit request.limit

theorem limitBounds (request : CrateDeprecatedRequest) : 0 < limitOf request ∧ limitOf request ≤ 200 :=
  clampBounds (by decide) _

def queryAt (request : CrateDeprecatedRequest) (selected : CrateVersionRow) (offset : Nat) : DeprecatedQuery :=
  ⟨selected.id,limitOf request + 1,offset⟩

def shownAt (listing : DeprecatedQuery → List DeprecatedItemRow) (request : CrateDeprecatedRequest) (selected : CrateVersionRow) :
    Nat → List DeprecatedItemRow :=
  TiedPages.window (fun offset => listing (queryAt request selected offset)) (limitOf request)

theorem handledAt (opens : Opens index waited request ctx selected) (listing : DeprecatedQuery → List DeprecatedItemRow) (k : Nat) :
    let shown := shownAt listing request selected (u32 (k * limitOf request))
    let hasMore := decide (limitOf request < shown.length)
    handleCrateDeprecated listing index waited {request with page := some (k + 1)} =
      .ok ⟨hasMore,if hasMore then shown.take (limitOf request) else shown⟩ := by
  have name := requiredNamed "crate_name".toList opens.named
  have bounds := limitBounds request
  have numbered : syncPage (some (k + 1)) = k + 1 := Nat.max_eq_left (Nat.le_add_left 1 k)
  have asked : saturatingAdd (limitOf request) 1 = limitOf request + 1 := saturatingAddSmall (by omega)
  simp only [handleCrateDeprecated,name,opens.found,opens.resolved,failing,Except.mapError,bind,Except.bind,pure,Except.pure,
    PageArithmetic.crateDeprecated,PageArithmetic.windowOf,numbered,Nat.add_sub_cancel,listDeprecatedItems]
  rw [← limitOf,asked,Nat.max_eq_left (Nat.le_add_left 1 _)]
  rfl

theorem pagesRead (opens : Opens index waited request ctx selected) {k : Nat} {out : List DeprecatedItemRow} :
    ReadsPages listing index waited request (k + 1) out ↔
      TiedPages.Reads (fun k => u32 (k * limitOf request)) (fun k => k + 1 < 2 ^ 32) (shownAt listing request selected)
        (limitOf request) k out := by
  constructor
  · intro reads
    generalize at_ : k + 1 = page at reads
    induction reads generalizing k with
    | last answer done =>
      subst at_
      cases Except.ok.inj (answer.symm.trans (handledAt opens listing k))
      have few := of_decide_eq_false done
      rw [if_neg (by simpa using few)]
      exact .last (Nat.le_of_not_lt few)
    | more answer more next _ ih =>
      subst at_
      cases Except.ok.inj (answer.symm.trans (handledAt opens listing k))
      rw [if_pos more]
      exact .more (of_decide_eq_true more) next (ih rfl)
  · intro reads
    induction reads with
    | @last k done =>
      have last := ReadsPages.last (handledAt opens listing k) (decide_eq_false (Nat.not_lt_of_le done))
      rwa [if_neg (by simpa using done)] at last
    | @more k _ more next _ ih =>
      have further := ReadsPages.more (handledAt opens listing k) (decide_eq_true more) next ih
      rwa [if_pos (decide_eq_true more)] at further

theorem rowsOnce (tables : Tables) (crateVersionId : Nat) : (deprecatedRows tables crateVersionId).Nodup := by
  have table (rows : List ItemRow) (ids : (rows.map ItemRow.id).Nodup) (from_ : ItemTable) :
      ((rows.filter (isDeprecated crateVersionId)).map fun row => (⟨row,from_⟩ : DeprecatedItemRow)).Nodup :=
    ((ids.of_map _).filter _).map fun one other same => congrArg DeprecatedItemRow.toItemRow same
  refine List.nodup_append.mpr ⟨table _ tables.symbolIds .symbols,table _ tables.typeIds .crateTypes,fun one mem other mem' same => ?_⟩
  obtain ⟨_,_,rfl⟩ := List.mem_map.mp mem
  obtain ⟨_,_,rfl⟩ := List.mem_map.mp mem'
  cases congrArg DeprecatedItemRow.table same

/-- Page by page, in whatever order the queries have the rows that tie, every row is returned once. -/
def PagesOnce {C : Type} [LinearOrder C] (collate : Text → C) (tables : Tables) (index : Index lower) (waited : Waited)
    (request : CrateDeprecatedRequest) (selected : CrateVersionRow) : Prop :=
  ∀ listing, Orders collate tables listing →
    ∃ out, ReadsPages listing index waited request 1 out ∧ out.Perm (deprecatedRows tables selected.id)

variable {C : Type} [LinearOrder C] {collate : Text → C} {tables : Tables}

/-- What holds of what is read, in whatever order the queries have the rows that tie. -/
theorem listingsIff (opens : Opens index waited request ctx selected) {Holds : List DeprecatedItemRow → Prop} :
    (∀ listing, Orders collate tables listing → ∃ out, ReadsPages listing index waited request 1 out ∧ Holds out) ↔
      ∀ arrange, (∀ o, TiedPages.Arranged (listOrder collate) (deprecatedRows tables selected.id) (arrange o)) →
        ∃ out, TiedPages.Reads (fun k => u32 (k * limitOf request)) (fun k => k + 1 < 2 ^ 32)
          (TiedPages.window arrange (limitOf request)) (limitOf request) 0 out ∧ Holds out := by
  constructor
  · intro read arrange arranged
    -- the queries of other pages and versions have their rows as they are sorted
    obtain ⟨out,reads,holds⟩ := read
      (fun query => if query = queryAt request selected query.offset then arrange query.offset
        else Ranking.sortBy (listOrder collate) (deprecatedRows tables query.crateVersionId)) fun query => by
      dsimp only
      split
      · rename_i own
        rw [show query.crateVersionId = selected.id from congrArg DeprecatedQuery.crateVersionId own]
        exact arranged _
      · exact TiedPages.sortedArranged _ _
    have shown := (pagesRead opens).mp reads
    simp only [shownAt,queryAt,if_true] at shown
    exact ⟨out,shown,holds⟩
  · intro read listing orders
    obtain ⟨out,reads,holds⟩ := read (fun offset => listing (queryAt request selected offset))
      fun offset => orders (queryAt request selected offset)
    exact ⟨out,(pagesRead opens).mpr reads,holds⟩

theorem pagesOnceIff (opens : Opens index waited request ctx selected) :
    PagesOnce collate tables index waited request selected ↔
      TiedPages.Clean (listOrder collate) (deprecatedRows tables selected.id) (fun k => u32 (k * limitOf request))
        (fun k => k + 1 < 2 ^ 32) (limitOf request) := by
  have low (k : Nat) : u32 (k * limitOf request) ≤ k * limitOf request := Nat.mod_le _ _
  rw [← TiedPages.onceIff (limitBounds request).1 (by rw [Nat.zero_mul]; rfl) low (rowsOnce tables selected.id)]
  exact listingsIff opens

/-- For every page size: the order's key identifies the rows, and there is a page number for each of them. -/
theorem everySizeIff (opens : Opens index waited request ctx selected) :
    (∀ limit, PagesOnce collate tables index waited {request with limit := limit} selected) ↔
      ((deprecatedRows tables selected.id).map (listOrder collate)).Nodup ∧ (deprecatedRows tables selected.id).length < 2 ^ 32 := by
  have each (limit : Option Nat) : PagesOnce collate tables index waited {request with limit := limit} selected ↔ _ :=
    pagesOnceIff (opens.limited limit)
  simp only [each]
  constructor
  · intro clean
    have single (k : Nat) (more : k + 1 < (deprecatedRows tables selected.id).length) := clean (some 1) k (by
      rw [show limitOf {request with limit := some 1} = 1 from rfl,Nat.mul_one]
      exact more)
    refine ⟨TiedPages.apartEverywhere.mp fun k more => ?_,?_⟩
    · have apart := (single k more).2.2
      rwa [show limitOf {request with limit := some 1} = 1 from rfl,Nat.mul_one] at apart
    · by_contra many
      have beyond := (single (2 ^ 32 - 2) (by omega)).1
      omega
  · rintro ⟨identifies,few⟩ limit k more
    have some_ := (limitBounds {request with limit := limit}).1
    have most : k + 1 ≤ (k + 1) * limitOf {request with limit := limit} := Nat.le_mul_of_pos_right _ some_
    have step : (k + 1) * limitOf {request with limit := limit} = _ := Nat.succ_mul k _
    refine ⟨by omega,Nat.mod_eq_of_lt (by omega),?_⟩
    have apart := TiedPages.apartEverywhere.mpr identifies (k * limitOf {request with limit := limit} +
      limitOf {request with limit := limit} - 1) (by omega)
    rwa [Nat.sub_add_cancel (by omega)] at apart

/-! Rows with labels, page by page. -/

section
variable {ι : Type} [DecidableEq ι] {label : DeprecatedItemRow → Option ι} {wanted : ι → Prop}

/-- Page by page, in whatever order the queries have the rows that tie, each wanted label comes once. -/
def LabelsOnce {C : Type} [LinearOrder C] (collate : Text → C) (tables : Tables) (index : Index lower) (waited : Waited)
    (request : CrateDeprecatedRequest) {ι : Type} [DecidableEq ι] (label : DeprecatedItemRow → Option ι) (wanted : ι → Prop) : Prop :=
  ∀ listing, Orders collate tables listing →
    ∃ out, ReadsPages listing index waited request 1 out ∧ TiedPages.LabelsOnce label wanted out

theorem labelsNeed (opens : Opens index waited request ctx selected) (single : limitOf request = 1)
    (once : LabelsOnce collate tables index waited request label wanted) :
    TiedPages.LabelsOnce label wanted (deprecatedRows tables selected.id) ∧
      TiedPages.LabelsApart (listOrder collate) label wanted (deprecatedRows tables selected.id) ∧
      (deprecatedRows tables selected.id).length < 2 ^ 32 := by
  have read := (listingsIff opens).mp once
  rw [single] at read
  obtain ⟨labels,apart,further⟩ := TiedPages.labelsOnceNeeds (by rw [Nat.zero_mul]; rfl)
    (fun k few => Nat.mod_eq_of_lt (by omega)) read
  refine ⟨labels,apart,?_⟩
  by_contra many
  have beyond := further (2 ^ 32 - 2) (by omega)
  omega

theorem labelsEverySizeIff (opens : Opens index waited request ctx selected) :
    (∀ limit, LabelsOnce collate tables index waited {request with limit := limit} label wanted) ↔
      TiedPages.LabelsOnce label wanted (deprecatedRows tables selected.id) ∧
      TiedPages.LabelsApart (listOrder collate) label wanted (deprecatedRows tables selected.id) ∧
      (deprecatedRows tables selected.id).length < 2 ^ 32 := by
  constructor
  · intro once
    exact labelsNeed (opens.limited (some 1)) rfl (once (some 1))
  · rintro ⟨labels,apart,few⟩ limit
    refine (listingsIff (opens.limited limit)).mpr fun arrange arranged => ?_
    have some_ := (limitBounds {request with limit := limit}).1
    refine TiedPages.labelsOnceOf some_ (by rw [Nat.zero_mul]; rfl) (fun k more => ?_) labels apart arranged
    have most : k + 1 ≤ (k + 1) * limitOf {request with limit := limit} := Nat.le_mul_of_pos_right _ some_
    have step : (k + 1) * limitOf {request with limit := limit} = _ := Nat.succ_mul k _
    exact ⟨by omega,Nat.mod_eq_of_lt (by omega)⟩

end

end
end RustMcp.Deprecated
