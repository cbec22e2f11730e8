import RustMcp.Paging
import RustMcp.Utils

/-! `crate_trait_impls`, page by page. The database orders and cuts the rows; the
handler then collapses the duplicates of what it was given, sorts by a ranking of its
own and cuts again. -/
namespace RustMcp.TraitImpls
open Str (Text)
open Utils

/-- The sources that impl rows are indexed from. -/
inductive IndexSource where
  | syn
  | rustdocJson
  deriving DecidableEq

structure ImplMethodEntry where
  name : Text
  signature : Text
  deriving DecidableEq

structure CrateImplLookupRow where
  typeName : Text
  typeNameDisplay : Option Text
  traitName : Option Text
  traitNameDisplay : Option Text
  implKind : Text
  methods : List ImplMethodEntry
  isBlanket : Bool
  isSynthetic : Bool
  isNegative : Bool
  blanketType : Option Text
  /-- as rendered -/
  generics : List Text
  whereClauses : List Text
  docs : Option Text
  sourcePath : Text
  startLine : Int
  endLine : Int
  indexSource : IndexSource
  deriving DecidableEq

/-! The database's order. -/

def kindOrder (implKind : Text) : Nat :=
  if implKind = "inherent".toList then 0
  else if implKind = "derive".toList then 1
  else if implKind = "trait".toList then 2
  else 3

def sourceOrder (row : CrateImplLookupRow) : Nat :=
  match row.indexSource with
  | .rustdocJson =>
      if row.methods ≠ [] || row.traitNameDisplay.isSome || row.isBlanket || row.isSynthetic || row.isNegative then 0 else 1
  | .syn => 2

section
variable {C : Type} [LinearOrder C] (lower : Text → Text) (collate : Text → C)

def listOrder (row : CrateImplLookupRow) : Nat ×ₗ Nat ×ₗ C ×ₗ Int :=
  toLex (kindOrder row.implKind,toLex (sourceOrder row,toLex (collate row.typeName,row.startLine)))

def matchesFilters (traitName typeName : Option Text) (row : CrateImplLookupRow) : Bool :=
  traitName.all (fun name => row.traitName.any fun own => lower own = lower name) &&
    typeName.all fun name => lower row.typeName = lower name

/-- Rows of one version; those that tie are listed in the order of the table. -/
def listedRows (traitName typeName : Option Text) (rows : List CrateImplLookupRow) : List CrateImplLookupRow :=
  Ranking.sortBy (listOrder collate) (rows.filter (matchesFilters lower traitName typeName))

def listCrateImplRowsForFilters (traitName typeName : Option Text) (limit offset : Nat) (rows : List CrateImplLookupRow) :
    List CrateImplLookupRow :=
  ((listedRows lower collate traitName typeName rows).drop offset).take (max limit 1)

end

/-! The handler's order. -/

def implKindRank (kind : Text) : Nat :=
  if kind = "derive".toList then 0 else if kind = "trait".toList then 1 else 2

def implRowIdentity (row : CrateImplLookupRow) : Text :=
  Str.join "|".toList [Str.toAsciiLowercase row.typeName,Str.toAsciiLowercase (row.typeNameDisplay.getD []),
    Str.toAsciiLowercase (row.traitName.getD []),Str.toAsciiLowercase (row.traitNameDisplay.getD []),row.implKind]

def implRowPriority (row : CrateImplLookupRow) : Nat :=
  (if row.indexSource = .rustdocJson then 4 else 0) +
  (if row.methods ≠ [] then 2 else 0) +
  (if row.traitNameDisplay.isSome || row.typeNameDisplay.isSome then 1 else 0) +
  (if row.generics ≠ [] || row.whereClauses ≠ [] then 1 else 0) +
  if row.isBlanket || row.isSynthetic || row.isNegative || row.blanketType.isSome then 1 else 0

def responseOrder (row : CrateImplLookupRow) : Nat ×ₗ Nat ×ₗ Text ×ₗ Int ×ₗ Int :=
  toLex (implKindRank row.implKind,toLex (if row.indexSource = .rustdocJson then 0 else 1,
    toLex (row.typeName,toLex (row.startLine,row.endLine))))

/-- `walk` is the order in which the hash map yields its values; the sort is stable. -/
def prioritizeImplRows (walk : List CrateImplLookupRow → List CrateImplLookupRow) (rows : List CrateImplLookupRow) :
    List CrateImplLookupRow :=
  Ranking.sortBy responseOrder (walk (Paging.distinct implRowIdentity implRowPriority rows))

/-! The handler. -/

/-- A cursor, decoded: what is encoded and decoded again comes back as it was. -/
structure CrateTraitImplsCursorToken extends CursorToken where
  v : Nat
  crateName : Text
  version : Option Text
  traitName : Option Text
  typeName : Option Text

structure CrateTraitImplsRequest where
  crateName : Text
  version : Option Text
  traitName : Option Text
  typeName : Option Text
  cursor : Option CrateTraitImplsCursorToken
  page : Option Nat
  limit : Option Nat

/-- The part of the response that is paged; a relation shows the fields of its row. -/
structure CrateTraitImplsResponse where
  nextCursor : Option CrateTraitImplsCursorToken
  page : Nat
  limit : Nat
  hasMore : Bool
  impls : List CrateImplLookupRow

def checkToken (token : CrateTraitImplsCursorToken) : Except Text Unit :=
  if token.v ≠ 1 then .error "cursor version is not supported".toList
  else if token.limit = 0 then .error "cursor is invalid".toList
  else .ok ()

/-- The order of a call's hash map, by the offset of the call. -/
structure HashOrder where
  walk : Nat → List CrateImplLookupRow → List CrateImplLookupRow
  each : ∀ offset rows, (walk offset rows).Perm rows

section
variable {C : Type} [LinearOrder C] (lower : Text → Text) (collate : Text → C) (order : HashOrder)

def handleCrateTraitImpls (request : CrateTraitImplsRequest) (rows : List CrateImplLookupRow) :
    Except Text CrateTraitImplsResponse := do
  let crateName ← normalizeRequired request.crateName "crate_name".toList
  let version := normalizeOptional request.version
  let traitName := normalizeOptional request.traitName
  let typeName := normalizeOptional request.typeName
  let page := syncPage request.page
  let requestedLimit := traitImplsLimit request.limit
  match request.cursor with
  | some token =>
      checkToken token
      if token.crateName ≠ crateName || token.version ≠ version || token.traitName ≠ traitName || token.typeName ≠ typeName then
        .error "cursor does not match current crate_trait_impls filters".toList
  | none => pure ()
  let pag ← resolvePagination (request.cursor.map (·.toCursorToken)) request.limit.isSome requestedLimit page
  if traitName.isNone && typeName.isNone then
    .error "either trait_name or type_name must be provided".toList
  else
    let listed := listCrateImplRowsForFilters lower collate traitName typeName (saturatingAdd pag.limit 1) pag.offset rows
    let prioritized := prioritizeImplRows (order.walk pag.offset) listed
    let hasMore := decide (prioritized.length > pag.limit)
    .ok {
      nextCursor :=
        if hasMore then some ⟨⟨saturatingAdd pag.offset pag.limit,pag.limit⟩,1,crateName,version,traitName,typeName⟩ else none
      page := pag.effectivePage
      limit := pag.limit
      hasMore := hasMore
      impls := if hasMore then prioritized.take pag.limit else prioritized}

/-- The relations that are returned when `next_cursor` is followed until `has_more` is false. -/
inductive Follows (request : CrateTraitImplsRequest) (rows : List CrateImplLookupRow) :
    Option CrateTraitImplsCursorToken → List CrateImplLookupRow → Prop where
  | last {cursor : Option CrateTraitImplsCursorToken} {response : CrateTraitImplsResponse}
      (answer : handleCrateTraitImpls lower collate order {request with cursor := cursor} rows = .ok response)
      (done : response.hasMore = false) : Follows request rows cursor response.impls
  | more {cursor : Option CrateTraitImplsCursorToken} {response : CrateTraitImplsResponse} {out : List CrateImplLookupRow}
      (answer : handleCrateTraitImpls lower collate order {request with cursor := cursor} rows = .ok response)
      (more : response.hasMore = true) (rest : Follows request rows response.nextCursor out) :
      Follows request rows cursor (response.impls ++ out)

/-! The handler reads a listing page by page. -/

theorem limitBounds (limit : Option Nat) : 0 < traitImplsLimit limit ∧ traitImplsLimit limit ≤ 1000 :=
  clampBounds (by decide) _

def reader (request : CrateTraitImplsRequest) (rows : List CrateImplLookupRow) : Paging.Reader CrateImplLookupRow Text where
  rows := listedRows lower collate (normalizeOptional request.traitName) (normalizeOptional request.typeName) rows
  identity := implRowIdentity
  priority := implRowPriority
  limit := traitImplsLimit request.limit
  cap := 2 ^ 32 - 1
  arrange := fun offset rows => Ranking.sortBy responseOrder (order.walk offset rows)
  arranged := fun offset rows => (Ranking.sortByPerm responseOrder _).trans (order.each offset rows)
  holdsSome := (limitBounds request.limit).1

/-- The cursor that stands at an offset. -/
def tokenAt (request : CrateTraitImplsRequest) (offset : Nat) : CrateTraitImplsCursorToken :=
  ⟨⟨offset,traitImplsLimit request.limit⟩,1,Str.trim request.crateName,normalizeOptional request.version,
    normalizeOptional request.traitName,normalizeOptional request.typeName⟩

/-- A request for the first page, of a crate and for a trait or a type. -/
structure Opens (request : CrateTraitImplsRequest) : Prop where
  named : Str.trim request.crateName ≠ []
  filtered : (normalizeOptional request.traitName).isSome = true ∨ (normalizeOptional request.typeName).isSome = true
  first : syncPage request.page = 1

def StandsAt (request : CrateTraitImplsRequest) (cursor : Option CrateTraitImplsCursorToken) (offset : Nat) : Prop :=
  (cursor = none ∧ offset = 0) ∨ cursor = some (tokenAt request offset)

variable {lower collate order} {request : CrateTraitImplsRequest} {rows : List CrateImplLookupRow}

theorem listedWindow (lower : Text → Text) (collate : Text → C) (order : HashOrder) (request : CrateTraitImplsRequest)
    (rows : List CrateImplLookupRow) (offset : Nat) :
    listCrateImplRowsForFilters lower collate (normalizeOptional request.traitName) (normalizeOptional request.typeName)
      (traitImplsLimit request.limit + 1) offset rows = (reader lower collate order request rows).window offset := by
  rw [listCrateImplRowsForFilters,Nat.max_eq_left (Nat.succ_pos _)]
  rfl

theorem handledAt (lower : Text → Text) (collate : Text → C) (order : HashOrder) (rows : List CrateImplLookupRow)
    (opens : Opens request) {cursor : Option CrateTraitImplsCursorToken} {offset : Nat} (stands : StandsAt request cursor offset) :
    ∃ page, handleCrateTraitImpls lower collate order {request with cursor := cursor} rows = .ok {
      nextCursor :=
        if (reader lower collate order request rows).hasMore offset then
          some (tokenAt request ((reader lower collate order request rows).next offset)) else none
      page := page
      limit := traitImplsLimit request.limit
      hasMore := (reader lower collate order request rows).hasMore offset
      impls := (reader lower collate order request rows).items offset} := by
  have bounds := limitBounds request.limit
  have reads : saturatingAdd (traitImplsLimit request.limit) 1 = traitImplsLimit request.limit + 1 := saturatingAddSmall (by omega)
  have given : ((normalizeOptional request.traitName).isNone && (normalizeOptional request.typeName).isNone) = false := by
    rcases opens.filtered with some_ | some_
    · rw [Option.isNone_eq_false_iff.mpr some_,Bool.false_and]
    · rw [Option.isNone_eq_false_iff.mpr some_,Bool.and_false]
  obtain ⟨effective,paginated⟩ : ∃ effective, resolvePagination (cursor.map (·.toCursorToken)) request.limit.isSome
      (traitImplsLimit request.limit) (syncPage request.page) = .ok ⟨offset,traitImplsLimit request.limit,effective⟩ :=
    paginatedAt opens.first (Paging.StandsAt.map CrateTraitImplsCursorToken.toCursorToken stands)
  refine ⟨effective,?_⟩
  have name := requiredNamed "crate_name".toList opens.named
  have window := listedWindow lower collate order request rows offset
  rcases stands with ⟨rfl,rfl⟩ | rfl
  · simp only [handleCrateTraitImpls,name,paginated,given,reads,bind,Except.bind,window]
    rfl
  · have checked : checkToken (tokenAt request offset) = .ok () := by
      have some_ : traitImplsLimit request.limit ≠ 0 := by omega
      simp [checkToken,tokenAt,some_]
    simp only [handleCrateTraitImpls,name,paginated,given,reads,checked,bind,Except.bind,window]
    simp only [tokenAt,ne_eq,not_true_eq_false,decide_false,Bool.or_self]
    rfl

theorem followsReads (opens : Opens request) {cursor : Option CrateTraitImplsCursorToken} {offset : Nat}
    {out : List CrateImplLookupRow} (stands : StandsAt request cursor offset) :
    Follows lower collate order request rows cursor out ↔ (reader lower collate order request rows).Reads offset out := by
  constructor
  · intro follows
    induction follows generalizing offset with
    | last answer done =>
      obtain ⟨_,answered⟩ := handledAt lower collate order rows opens stands
      cases Except.ok.inj (answer.symm.trans answered)
      exact .last done
    | more answer more _ ih =>
      obtain ⟨_,answered⟩ := handledAt lower collate order rows opens stands
      cases Except.ok.inj (answer.symm.trans answered)
      exact .more more (ih (Or.inr (if_pos more)))
  · intro reads
    induction reads generalizing cursor with
    | last done =>
      obtain ⟨_,answered⟩ := handledAt lower collate order rows opens stands
      exact .last answered done
    | more more _ ih =>
      obtain ⟨_,answered⟩ := handledAt lower collate order rows opens stands
      exact .more answered more (ih (Or.inr (if_pos more)))

/-- In the handler's order the row after the page comes last of those that were read; rows that tie
come as the hash map yields them. -/
def NextLast (order : HashOrder) (limit : Nat) (listed : List CrateImplLookupRow) (offset : Nat) : Prop :=
  ∃ y before after, listed[offset + limit]? = some y ∧
    order.walk offset (Paging.distinct implRowIdentity implRowPriority ((listed.drop offset).take (limit + 1))) =
      before ++ y::after ∧
    (∀ r ∈ before, responseOrder r ≤ responseOrder y) ∧ ∀ r ∈ after, responseOrder r < responseOrder y

theorem nextLastFull {offset : Nat} (full : (reader lower collate order request rows).Full offset) :
    (reader lower collate order request rows).InPlace offset ↔
      NextLast order (traitImplsLimit request.limit)
        (listedRows lower collate (normalizeOptional request.traitName) (normalizeOptional request.typeName) rows) offset := by
  obtain ⟨y,next,_⟩ := Paging.fullNext full
  rw [Paging.Reader.InPlace,next]
  constructor
  · intro last
    obtain ⟨before,after,facts⟩ := Ranking.lastOfSort.mp last
    exact ⟨y,before,after,next,facts⟩
  · rintro ⟨y',before,after,next',facts⟩
    cases Option.some.inj (next.symm.trans next')
    exact Ranking.lastOfSort.mpr ⟨before,after,facts⟩

end

def cloneImpl (typeName : Text) (startLine : Int) (indexSource : IndexSource) : CrateImplLookupRow :=
  ⟨typeName,none,some "Clone".toList,none,"trait".toList,[],false,false,false,none,[],[],none,"src/lib.rs".toList,startLine,
    startLine + 1,indexSource⟩

/-- All implementations of `Clone`, one a page. -/
def cloneRequest : CrateTraitImplsRequest := ⟨"demo".toList,none,some "Clone".toList,none,none,none,some 1⟩

def asStored : HashOrder := ⟨fun _ rows => rows,fun _ _ => List.Perm.refl _⟩

theorem cloneOpens : Opens cloneRequest := ⟨by decide,Or.inl (by decide),rfl⟩

def synOnly : List CrateImplLookupRow := [cloneImpl "Bar".toList 3 .syn,cloneImpl "Foo".toList 9 .syn]

/-- The syntax tree and rustdoc both have the first implementation; the page that is read for it
collapses to one row, and the second implementation is never returned. -/
def bothSources : List CrateImplLookupRow :=
  [cloneImpl "Bar".toList 3 .rustdocJson,cloneImpl "Bar".toList 3 .syn,cloneImpl "Foo".toList 9 .syn]

end RustMcp.TraitImpls
