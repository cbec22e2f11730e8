import RustMcp.GrowingPages
import RustMcp.LicensePolicy
import RustMcp.Queries

/-! `crate_alternatives`: candidates that the database orders by similarity, as many as the
page may need, filtered and ranked by a score. The score is a parameter. -/
namespace RustMcp.Alternatives
open Str (Text)
open Utils Queries
open LicensePolicy (LicensePolicyResult normalizePolicyList extractLicenseIdentifiers)

structure LatestVersion where
  version : Text
  totalDownloads : Option Int
  licenseExpression : Option Text

structure CrateRow extends CrateCoreRow where
  categories : List Text
  keywords : List Text
  latest : Option LatestVersion

structure Data (lower : Text → Text) where
  index : Index lower
  crates : List CrateRow
  same : index.crates.rows = crates.map CrateRow.toCrateCoreRow

structure AlternativesCandidateRow where
  crateId : Nat
  crateName : Text
  categories : List Text
  keywords : List Text
  latestVersion : Option Text
  totalDownloads : Int
  licenseExpression : Option Text
  nameSimilarity : ℚ
  deriving DecidableEq

structure CrateAlternativeHit (S : Type) where
  candidate : AlternativesCandidateRow
  policyResult : LicensePolicyResult
  policyReasons : List Text
  score : S
  deriving DecidableEq

structure CrateAlternativesCursorToken extends CursorToken where
  v : Nat
  crateName : Text
  version : Option Text
  allowLicenses : List Text
  denyLicenses : List Text

structure CrateAlternativesRequest where
  crateName : Text
  version : Option Text
  allowLicenses : Option (List Text)
  denyLicenses : Option (List Text)
  cursor : Option CrateAlternativesCursorToken
  page : Option Nat
  limit : Option Nat

structure CrateAlternativesResponse (S : Type) where
  nextCursor : Option CrateAlternativesCursorToken
  page : Nat
  limit : Nat
  hasMore : Bool
  alternatives : List (CrateAlternativeHit S)

def alternativesLimit (value : Option Nat) : Nat := clamp 1 50 (value.getD 10)

def saturatingMul (a b : Nat) : Nat := min (a * b) (2 ^ 32 - 1)

def candidateLimit (offset limit : Nat) : Nat := saturatingMul (saturatingAdd (saturatingAdd offset limit) 1) 8

def overlapCount (left right : List Text) : Nat :=
  ((ordered (left.map Str.toAsciiLowercase)).filter (· ∈ ordered (right.map Str.toAsciiLowercase))).length

/-- The double that `0.30` stands for. -/
def relevanceGate : ℚ := 5404319552844595 / 2 ^ 54

def applyPaginationLimit {T α : Type} (items : List α) (limit offset : Nat) (buildNextToken : Nat → T) : Paging.Page T α :=
  let hasMore := decide (items.length > limit)
  ⟨if hasMore then items.take limit else items,hasMore,
    if hasMore then some (buildNextToken (saturatingAdd offset limit)) else none⟩

theorem limitCut {T α : Type} (items : List α) (limit offset : Nat) (buildNextToken : Nat → T) :
    applyPaginationLimit items limit offset buildNextToken =
      Paging.cutPage items limit (buildNextToken (min (offset + limit) (2 ^ 32 - 1))) :=
  Paging.cutWritten items limit _

section
variable {C S : Type} [LinearOrder C] [LinearOrder S] (similarity : Text → Text → ℚ) (collate : Text → C)
  (score : AlternativesCandidateRow → S)

/-! The candidates. -/

def candidateRow (crateName : Text) (row : CrateRow) : AlternativesCandidateRow where
  crateId := row.id
  crateName := row.name
  categories := row.categories
  keywords := row.keywords
  latestVersion := row.latest.map LatestVersion.version
  totalDownloads := (row.latest.bind LatestVersion.totalDownloads).getD 0
  licenseExpression := row.latest.bind LatestVersion.licenseExpression
  nameSimilarity := similarity row.name crateName

/-- `similarity DESC, total_downloads DESC, name ASC` -/
def candidateOrder (row : AlternativesCandidateRow) : ℚᵒᵈ ×ₗ Intᵒᵈ ×ₗ C :=
  toLex (OrderDual.toDual row.nameSimilarity,toLex (OrderDual.toDual row.totalDownloads,collate row.crateName))

def isCandidate (own row : CrateRow) : Bool :=
  row.id ≠ own.id && (1 / 4 ≤ similarity row.name own.name || row.categories.any (· ∈ own.categories) ||
    row.keywords.any (· ∈ own.keywords))

def orderedCandidates (own : CrateRow) (rows : List CrateRow) : List AlternativesCandidateRow :=
  Ranking.sortBy (candidateOrder collate) ((rows.filter (isCandidate similarity own)).map (candidateRow similarity own.name))

def listAlternativesCandidates (own : CrateRow) (limit : Nat) (rows : List CrateRow) : List AlternativesCandidateRow :=
  (orderedCandidates similarity collate own rows).take (max limit 1)

/-- What is made of a candidate that passes the policy and the relevance gate. -/
def alternativeHit (own : CrateRow) (allowLicenses denyLicenses : List Text) (candidate : AlternativesCandidateRow) :
    Option (CrateAlternativeHit S) :=
  let matchedLicenses := (candidate.licenseExpression.map extractLicenseIdentifiers).getD []
  let (policyResult,policyReasons) := LicensePolicy.Alternatives.evaluatePolicy matchedLicenses allowLicenses denyLicenses
  if policyResult = .denied && (allowLicenses ≠ [] || denyLicenses ≠ []) then none
  else if overlapCount own.categories candidate.categories = 0 && overlapCount own.keywords candidate.keywords = 0 &&
      candidate.nameSimilarity < relevanceGate then none
  else some ⟨candidate,policyResult,policyReasons,score candidate⟩

def rankOrder (hit : CrateAlternativeHit S) : Sᵒᵈ ×ₗ Intᵒᵈ ×ₗ Text :=
  toLex (OrderDual.toDual hit.score,toLex (OrderDual.toDual hit.candidate.totalDownloads,hit.candidate.crateName))

/-! The handler. -/

variable {lower : Text → Text} (data : Data lower)

/-- The columns of a crate that was looked up. -/
def crateRowOf (core : CrateCoreRow) : CrateRow := (data.crates.find? (·.toCrateCoreRow = core)).getD ⟨core,[],[],none⟩

def checkFilters (cursor : Option CrateAlternativesCursorToken) (crateName : Text) (version : Option Text)
    (allowLicenses denyLicenses : List Text) : Except Text Unit :=
  match cursor with
  | none => .ok ()
  | some token => do
      checkCursor token.v token.limit
      if token.crateName ≠ crateName || token.version ≠ version || token.allowLicenses ≠ allowLicenses ||
          token.denyLicenses ≠ denyLicenses then
        .error "cursor does not match current crate_alternatives filters".toList
      else .ok ()

def handleCrateAlternatives (waited : Waited) (request : CrateAlternativesRequest) : Reply (CrateAlternativesResponse S) := do
  let crateName ← failing (normalizeRequired request.crateName "crate_name".toList)
  let version := normalizeOptional request.version
  let allowLicenses := normalizePolicyList request.allowLicenses
  let denyLicenses := normalizePolicyList request.denyLicenses
  failing (checkFilters request.cursor crateName version allowLicenses denyLicenses)
  let pag ← failing (resolvePagination (request.cursor.map (·.toCursorToken)) request.limit.isSome
    (alternativesLimit request.limit) (syncPage request.page))
  let ctx ← fetchCrateContext data.index waited crateName
  let _ ← resolveVersionOrLatest data.index ctx version
  let own := crateRowOf data ctx.crateRow
  let candidates := listAlternativesCandidates similarity collate own (candidateLimit pag.offset pag.limit) data.crates
  let alternatives := Ranking.sortBy rankOrder (candidates.filterMap (alternativeHit score own allowLicenses denyLicenses))
  let paginated := applyPaginationLimit ((alternatives.drop pag.offset).take (pag.limit + 1)) pag.limit pag.offset
    fun nextOffset => (⟨⟨nextOffset,pag.limit⟩,1,crateName,version,allowLicenses,denyLicenses⟩ : CrateAlternativesCursorToken)
  return ⟨paginated.nextCursor,pag.effectivePage,pag.limit,paginated.hasMore,paginated.items⟩

def answer (waited : Waited) (request : CrateAlternativesRequest) (cursor : Option CrateAlternativesCursorToken) :
    Option (Paging.Page CrateAlternativesCursorToken (CrateAlternativeHit S)) :=
  (handleCrateAlternatives similarity collate score data waited {request with cursor := cursor}).toOption.map fun response =>
    ⟨response.alternatives,response.hasMore,response.nextCursor⟩

/-! What the pages are cut from. -/

variable (ctx : CrateContext) (request : CrateAlternativesRequest)

def tokenAt (offset : Nat) : CrateAlternativesCursorToken :=
  ⟨⟨offset,alternativesLimit request.limit⟩,1,Str.trim request.crateName,normalizeOptional request.version,
    normalizePolicyList request.allowLicenses,normalizePolicyList request.denyLicenses⟩

/-- A request for the first page, of a crate version that is found. -/
structure Opens (waited : Waited) (selected : CrateVersionRow) : Prop where
  named : Str.trim request.crateName ≠ []
  first : syncPage request.page = 1
  found : fetchCrateContext data.index waited (Str.trim request.crateName) = .ok ctx
  resolved : resolveVersionOrLatest data.index ctx (normalizeOptional request.version) = .ok selected

def hitOf (candidate : AlternativesCandidateRow) : Option (CrateAlternativeHit S) :=
  alternativeHit score (crateRowOf data ctx.crateRow) (normalizePolicyList request.allowLicenses)
    (normalizePolicyList request.denyLicenses) candidate

def candidates : List AlternativesCandidateRow :=
  orderedCandidates similarity collate (crateRowOf data ctx.crateRow) data.crates

/-- The hits of all candidates that pass the policy and the gate. -/
def passing : List (CrateAlternativeHit S) := (candidates similarity collate data ctx).filterMap (hitOf score data ctx request)

/-- The hits among the candidates that the page at an offset reads. -/
def pool (offset : Nat) : List (CrateAlternativeHit S) :=
  ((candidates similarity collate data ctx).take (max (candidateLimit offset (alternativesLimit request.limit)) 1)).filterMap
    (hitOf score data ctx request)

variable {data ctx request} {waited : Waited} {selected : CrateVersionRow}

theorem limitBounds (limit : Option Nat) : 0 < alternativesLimit limit := (clampBounds (by decide) _).1

theorem answeredAt (opens : Opens data ctx request waited selected) {cursor : Option CrateAlternativesCursorToken} {offset : Nat}
    (stands : Paging.StandsAt (tokenAt request) cursor offset) :
    answer similarity collate score data waited request cursor =
      some (Paging.cutPage (((Ranking.sortBy rankOrder (pool similarity collate score data ctx request offset)).drop offset).take
        (alternativesLimit request.limit + 1)) (alternativesLimit request.limit)
        (tokenAt request (min (offset + alternativesLimit request.limit) (2 ^ 32 - 1)))) := by
  have some_ := limitBounds request.limit
  have name := requiredNamed "crate_name".toList opens.named
  have filters : checkFilters cursor (Str.trim request.crateName) (normalizeOptional request.version)
      (normalizePolicyList request.allowLicenses) (normalizePolicyList request.denyLicenses) = .ok () := by
    rcases stands with ⟨rfl,rfl⟩ | rfl
    · rfl
    · have passes := cursorPasses some_
      simp [checkFilters,passes,tokenAt,bind,Except.bind]
  obtain ⟨effective,paginated⟩ : ∃ effective, resolvePagination (cursor.map (·.toCursorToken)) request.limit.isSome
      (alternativesLimit request.limit) (syncPage request.page) = .ok ⟨offset,alternativesLimit request.limit,effective⟩ :=
    paginatedAt opens.first (stands.map CrateAlternativesCursorToken.toCursorToken)
  simp only [answer,handleCrateAlternatives,name,filters,paginated,opens.found,opens.resolved,failing,Except.mapError,bind,
    Except.bind,pure,Except.pure,Except.toOption,Option.map_some,Option.some.injEq]
  rw [limitCut]
  rfl

omit [LinearOrder S] in
theorem hitCandidate {candidate : AlternativesCandidateRow} {hit : CrateAlternativeHit S}
    (passes : hitOf score data ctx request candidate = some hit) : hit.candidate = candidate := by
  unfold hitOf alternativeHit at passes
  simp only at passes
  split at passes
  · cases passes
  · split at passes
    · cases passes
    · cases passes
      rfl

section
variable (data ctx)

theorem namesOnce : ((candidates similarity collate data ctx).map (·.crateName)).Nodup := by
  have unique := data.index.crates.unique
  rw [data.same,List.map_map] at unique
  have names : (data.crates.map (·.name)).Nodup := by
    rw [show (fun row : CrateCoreRow => lower row.name) ∘ CrateRow.toCrateCoreRow = lower ∘ fun row => row.name from rfl,
      ← List.map_map] at unique
    exact unique.of_map _
  have perm := (Ranking.sortByPerm (candidateOrder collate) ((data.crates.filter (isCandidate similarity
    (crateRowOf data ctx.crateRow))).map (candidateRow similarity (crateRowOf data ctx.crateRow).name))).map (·.crateName)
  refine perm.nodup_iff.mpr ?_
  rw [List.map_map]
  exact names.sublist (List.filter_sublist.map _)

variable (request)

omit [LinearOrder S] in
theorem passingOnce : (passing similarity collate score data ctx request).Nodup := by
  refine ((namesOnce similarity collate data ctx).of_map _).filterMap fun one other hit mem mem' => ?_
  rw [← hitCandidate score mem,← hitCandidate score mem']

omit [LinearOrder S] in
theorem passingDistinct : ∀ hit ∈ passing similarity collate score data ctx request,
    ∀ hit' ∈ passing similarity collate score data ctx request, rankOrder hit = rankOrder hit' → hit = hit' := by
  intro hit mem hit' mem' same
  obtain ⟨one,inside,passes⟩ := List.mem_filterMap.mp mem
  obtain ⟨other,inside',passes'⟩ := List.mem_filterMap.mp mem'
  have name : hit.candidate.crateName = hit'.candidate.crateName := congrArg (fun key => (ofLex (ofLex key).2).2) same
  rw [hitCandidate score passes,hitCandidate score passes'] at name
  obtain rfl := List.inj_on_of_nodup_map (namesOnce similarity collate data ctx) inside inside' name
  exact Option.some.inj (passes.symm.trans passes')

theorem poolsGrow :
    GrowingPages.Grows (fun offset => Ranking.sortBy rankOrder (pool similarity collate score data ctx request offset))
      (Ranking.sortBy rankOrder (passing similarity collate score data ctx request)) (2 ^ 32 - 1) := by
  refine GrowingPages.rankedGrows (passingOnce similarity collate score data ctx request)
    (passingDistinct similarity collate score data ctx request) (fun o o' upto => ?_) (fun o => ?_) fun o => ?_
  · have read : max (candidateLimit o (alternativesLimit request.limit)) 1 ≤
        max (candidateLimit o' (alternativesLimit request.limit)) 1 := by
      simp only [candidateLimit,saturatingMul,saturatingAdd]
      omega
    exact (List.take_sublist_take_left read).filterMap _
  · exact (List.take_sublist _ _).filterMap _
  · have read : max (candidateLimit o (alternativesLimit request.limit)) 1 ≤ 2 ^ 32 - 1 := by
      simp only [candidateLimit,saturatingMul,saturatingAdd]
      omega
    exact le_trans (List.length_filterMap_le _ _) (le_trans (List.length_take_le _ _) read)

theorem scoresDescend : (Ranking.sortBy rankOrder (passing similarity collate score data ctx request)).Pairwise
    fun earlier later => later.score ≤ earlier.score :=
  (Ranking.sortBySorted rankOrder _).imp fun {earlier later} below =>
    OrderDual.toDual_le_toDual.mp (Prod.Lex.monotone_fst (rankOrder earlier) (rankOrder later) below)

end

/-- Every candidate that passes is listed once and in the order of the scores just when each page reads
all candidates of the pages up to it, and one more passing candidate where there is one. -/
theorem alternativesOnceIff (opens : Opens data ctx request waited selected) :
    let limit := alternativesLimit request.limit
    let hits := passing similarity collate score data ctx request
    (∃ out, Paging.Follows (answer similarity collate score data waited request) none out ∧ out.Perm hits ∧
      out.Pairwise fun earlier later => later.score ≤ earlier.score) ↔
    ∀ k, k = 0 ∨ k * limit < hits.length →
      (∀ hit ∈ (Ranking.sortBy rankOrder hits).take (k * limit + limit),
        hit ∈ pool similarity collate score data ctx request (k * limit)) ∧
      (k * limit + limit < hits.length →
        k * limit + limit < (pool similarity collate score data ctx request (k * limit)).length) := by
  intro limit hits
  have some_ := limitBounds request.limit
  have grows := poolsGrow similarity collate score data ctx request
  have length : (Ranking.sortBy rankOrder hits).length = hits.length := (Ranking.sortByPerm _ _).length_eq
  simp only [Paging.followsCuts (answeredAt similarity collate score opens) (Or.inl ⟨rfl,rfl⟩)]
  have reaches (k : Nat) : GrowingPages.Reaches
        (fun offset => Ranking.sortBy rankOrder (pool similarity collate score data ctx request offset))
        (Ranking.sortBy rankOrder hits) limit k ↔ _ :=
    and_congr (forall_congr' fun hit => imp_congr_right fun _ => Ranking.memSortBy)
      (by rw [length,(Ranking.sortByPerm _ _).length_eq])
  constructor
  · rintro ⟨out,cuts,perm,_⟩ k begins
    refine (reaches k).mp (GrowingPages.reachesOf grows (fun _ => rfl) some_ cuts (perm.trans (Ranking.sortByPerm _ _).symm) k ?_)
    rwa [length]
  · intro condition
    have cuts := GrowingPages.reachedCuts grows (fun _ => rfl) some_ (fun k begins => (reaches k).mpr (condition k (length ▸ begins)))
      (Or.inl rfl)
    rw [Nat.zero_mul,List.drop_zero] at cuts
    exact ⟨_,cuts,Ranking.sortByPerm _ _,scoresDescend similarity collate score data ctx request⟩

end

def bareCrate (id : Nat) (name : Char) : CrateRow := ⟨⟨id,[name]⟩,[],[],none⟩

/-- The crate `z`, which has a version, and others. -/
def alikeData (names : List Char) (unique : ((bareCrate 0 'z'::names.mapIdx fun i name => bareCrate (i + 1) name).map
    fun row => Str.toAsciiLowercase row.name).Nodup) : Data Str.toAsciiLowercase where
  index := {
    crates := ⟨(bareCrate 0 'z'::names.mapIdx fun i name => bareCrate (i + 1) name).map CrateRow.toCrateCoreRow,by
      rw [List.map_map]; exact unique⟩
    versions := [⟨7,0,"1.0.0".toList,some 5⟩]
    sourceFiles := []
    symbols := []
    types := []
    impls := []}
  crates := bareCrate 0 'z'::names.mapIdx fun i name => bareCrate (i + 1) name
  same := rfl

def zContext : CrateContext := ⟨⟨0,['z']⟩,⟨7,0,"1.0.0".toList,some 5⟩⟩

def zRequest : CrateAlternativesRequest := ⟨['z'],none,none,none,none,none,some 1⟩

/-- `b` has the higher score, and every page reads both. -/
theorem alternativesOnceIffTwo :
    let score (candidate : AlternativesCandidateRow) : Nat := if candidate.crateName = ['b'] then 1 else 0
    let data := alikeData ['a','b'] (by decide +kernel)
    ∃ out, Paging.Follows (answer (fun _ _ => 1 / 2) (id : Text → Text) score data (fun _ => none) zRequest) none out ∧
      out.Perm (passing (fun _ _ => 1 / 2) (id : Text → Text) score data zContext zRequest) ∧
      out.Pairwise fun earlier later => later.score ≤ earlier.score := by
  intro score data
  have opens : Opens data zContext zRequest (fun _ => none) ⟨7,0,"1.0.0".toList,some 5⟩ :=
    ⟨by decide,rfl,by decide +kernel,rfl⟩
  have two : (candidates (fun _ _ => 1 / 2) (id : Text → Text) data zContext).length = 2 := by decide +kernel
  have whole (offset : Nat) : pool (fun _ _ => 1 / 2) (id : Text → Text) score data zContext zRequest offset =
      passing (fun _ _ => 1 / 2) (id : Text → Text) score data zContext zRequest := by
    have read : 2 ≤ max (candidateLimit offset (alternativesLimit zRequest.limit)) 1 := by
      simp only [candidateLimit,saturatingMul,saturatingAdd]
      omega
    rw [pool,List.take_of_length_le (two ▸ read),passing]
  refine (alternativesOnceIff (fun _ _ => 1 / 2) (id : Text → Text) score opens).mpr fun k _ => ?_
  rw [whole]
  exact ⟨fun hit mem => Ranking.memSortBy.mp (List.mem_of_mem_take mem),id⟩

def scoreOfQ (candidate : AlternativesCandidateRow) : Nat := if candidate.crateName = ['q'] then 1 else 0

def seventeen : Data Str.toAsciiLowercase := alikeData "abcdefghijklmnopq".toList (by decide +kernel)

theorem seventeenOpens : Opens seventeen zContext zRequest (fun _ => none) ⟨7,0,"1.0.0".toList,some 5⟩ where
  named := by decide
  first := rfl
  found := by decide +kernel
  resolved := rfl

/-- All seventeen are equally similar. The first page reads sixteen and shows `a`; the second reads the
last one too, which the score puts before `a`, and shows `a` again. -/
theorem lastPushesIn :
    ¬∃ out, Paging.Follows (answer (fun _ _ => 1 / 2) (id : Text → Text) scoreOfQ seventeen (fun _ => none) zRequest) none out ∧
      out.Perm (passing (fun _ _ => 1 / 2) (id : Text → Text) scoreOfQ seventeen zContext zRequest) := by
  rintro ⟨out,follows,perm⟩
  have cuts := (Paging.followsCuts (answeredAt (fun _ _ => 1 / 2) (id : Text → Text) scoreOfQ seventeenOpens)
    (Or.inl ⟨rfl,rfl⟩)).mp follows
  have reaches := GrowingPages.reachesOf (poolsGrow (fun _ _ => 1 / 2) (id : Text → Text) scoreOfQ seventeen zContext zRequest)
    (fun _ => rfl) (limitBounds _) cuts (perm.trans (Ranking.sortByPerm _ _).symm) 0 (Or.inl rfl)
  exact absurd reaches.1 (by decide +kernel)

end RustMcp.Alternatives
