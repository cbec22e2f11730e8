import RustMcp.Advisories
import RustMcp.Cursors
import RustMcp.Queries
import RustMcp.TiedPages

/-! `crate_versions`: the versions of a crate, newest first, page by page with the cursors as
clients see them. What a page says of a version's age is of the moment at which it is asked for. -/
namespace RustMcp.VersionTimeline
open Str (Text)
open Utils Queries Cursors
open Advisories (CrateAdvisoryRow)

/-- A row of `crate_versions`; times are in microseconds. -/
structure CrateVersionTimelineRow extends CrateVersionRow where
  rustVersion : Option Text
  yanked : Bool
  totalDownloads : Int

structure Data (lower : Text → Text) where
  index : Index lower
  versions : List CrateVersionTimelineRow
  same : index.versions = versions.map CrateVersionTimelineRow.toCrateVersionRow
  ids : (versions.map (·.id)).Nodup
  /-- `UNIQUE (crate_id, version)` -/
  once : (versions.map fun row => (row.crateId,row.version)).Nodup
  advisories : List CrateAdvisoryRow

structure CrateVersionsRequest where
  crateName : Text
  cursor : Option Text
  page : Option Nat
  limit : Option Nat

structure CrateVersionTimelineItem where
  version : Text
  rustVersion : Option Text
  publishedAt : Option Nat
  yanked : Bool
  downloads : Int
  advisoryCount : Nat
  releaseAgeDays : Option Int
  isLatest : Bool
  adoptionSignal : Text
  markers : List Text

structure ConfidenceAssessment where
  level : Text
  reason : Text

structure CrateVersionsResponse where
  crateName : Text
  cursor : Option Text
  nextCursor : Option Text
  page : Nat
  limit : Nat
  hasMore : Bool
  count : Nat
  versions : List CrateVersionTimelineItem
  confidenceAssessment : ConfidenceAssessment

def versionLimit (value : Option Nat) : Nat := clamp 1 500 (value.getD 100)

def adoptionSignal (downloads : Int) (yanked : Bool) : Text :=
  if yanked then "deprecated".toList
  else if downloads ≥ 1000000 then "high".toList
  else if downloads ≥ 100000 then "medium".toList
  else "low".toList

/-- A cast to `BIGINT` rounds half away from zero, and the division truncates. -/
def releaseAgeDays (now : Nat) (row : CrateVersionTimelineRow) : Option Int :=
  row.publishedAt.map fun published =>
    let age : Int := (now : Int) - published
    (age.sign * ((age.natAbs + 500000) / 1000000 : Nat)).tdiv 86400

section
variable {V R : Type} [LinearOrder V] (sv : Semver.Package V R) {lower : Text → Text} (data : Data lower)

def newestFirst (crateId : Nat) : List CrateVersionTimelineRow :=
  Ranking.sortBy (fun row => latestFirst row.toCrateVersionRow) (data.versions.filter fun row => row.crateId = crateId)

def listCrateVersionTimeline (crateId limit offset : Nat) : List CrateVersionTimelineRow :=
  ((newestFirst data crateId).drop offset).take (max limit 1)

def fetchAdvisoryRows (crateId : Nat) : List CrateAdvisoryRow := data.advisories.filter fun row => row.crateId = crateId

variable {data}

def timelineItem (advisories : List CrateAdvisoryRow) (latest : CrateVersionRow) (now : Nat) (row : CrateVersionTimelineRow) :
    CrateVersionTimelineItem :=
  let isLatest := decide (row.version = latest.version)
  let counts := Advisories.advisoryCounts sv advisories row.id row.version
  let days := releaseAgeDays now row
  { version := row.version
    rustVersion := row.rustVersion
    publishedAt := row.publishedAt
    yanked := row.yanked
    downloads := row.totalDownloads
    advisoryCount := counts.affected
    releaseAgeDays := days
    isLatest := isLatest
    adoptionSignal := adoptionSignal row.totalDownloads row.yanked
    markers := (if isLatest then ["latest".toList] else []) ++ (if row.yanked then ["yanked".toList] else []) ++
      (if counts.affected > 0 then ["security_advisory".toList] else []) ++
      (if counts.unknown > 0 then ["security_advisory_unknown".toList] else []) ++
      (if days.any (365 ≤ ·) then ["legacy".toList] else []) }

def confidence (items : List CrateVersionTimelineItem) : ConfidenceAssessment :=
  if items = [] then ⟨"low".toList,"no versions were returned from local index for selected crate".toList⟩
  else if items.any fun item => item.markers.contains "security_advisory_unknown".toList then
    ⟨"medium".toList,"some listed versions have advisories of unknown applicability".toList⟩
  else ⟨"high".toList,"version timeline resolved from indexed crate versions and advisories".toList⟩

def crateNameOf (token : Token .crateVersions) : Text :=
  match token.filters with
  | [.text name] => name
  | _ => []

/-- The encoded `CrateVersionsCursorToken` of an offset. -/
def nextCursor (name : Text) (limit offset : Nat) : Option Text :=
  (ofValues .crateVersions [.number 1,.number offset,.number limit,.text name]).map encodeCursor

variable (data)

/-- A page is asked for when `clock` says, by the offset that it begins at. -/
def handleCrateVersions (errors : Errors) (clock : Nat → Nat) (waited : Waited) (request : CrateVersionsRequest) :
    Reply CrateVersionsResponse := do
  let crateName ← failing (normalizeRequired request.crateName "crate_name".toList)
  let cursor := normalizeOptional request.cursor
  let decoded ← failing (decodeGiven errors .crateVersions cursor)
  failing (if decoded.any fun token => crateNameOf token ≠ crateName then
    .error "cursor does not match current crate_versions filters".toList else .ok ())
  let pag ← failing (resolvePagination (decoded.map fun token => ⟨token.offset,token.limit⟩) request.limit.isSome
    (versionLimit request.limit) (syncPage request.page))
  let ctx ← fetchCrateContext data.index waited crateName
  let rows := listCrateVersionTimeline data ctx.crateRow.id (saturatingAdd pag.limit 1) pag.offset
  let advisoryRows := fetchAdvisoryRows data ctx.crateRow.id
  let versions := rows.map (timelineItem sv advisoryRows ctx.latestVersion (clock pag.offset))
  let hasMore := decide (versions.length > pag.limit)
  let items := if hasMore then versions.take pag.limit else versions
  return {
    crateName := ctx.crateRow.name
    cursor := cursor
    nextCursor := if hasMore then nextCursor crateName pag.limit (saturatingAdd pag.offset pag.limit) else none
    page := pag.effectivePage
    limit := pag.limit
    hasMore := hasMore
    count := items.length
    versions := items
    confidenceAssessment := confidence items }

def answer (errors : Errors) (clock : Nat → Nat) (waited : Waited) (request : CrateVersionsRequest) (cursor : Option Text) :
    Option (Paging.Page Text CrateVersionTimelineItem) :=
  (handleCrateVersions sv data errors clock waited {request with cursor := cursor}).toOption.map fun response =>
    ⟨response.versions,response.hasMore,response.nextCursor⟩

end

/-! Following the cursors. -/

/-- What a page says of a version whenever it is asked for. -/
def undated (item : CrateVersionTimelineItem) : CrateVersionTimelineItem :=
  {item with releaseAgeDays := none, markers := item.markers.filter (· ≠ "legacy".toList)}

section
variable {V R : Type} [LinearOrder V] {sv : Semver.Package V R} {lower : Text → Text} {data : Data lower} {errors : Errors}
  {clock : Nat → Nat} {waited : Waited} {request : CrateVersionsRequest} {ctx : CrateContext}

/-- A request for the first page, of a crate that is found. -/
structure Opens (data : Data lower) (waited : Waited) (request : CrateVersionsRequest) (ctx : CrateContext) : Prop where
  named : Str.trim request.crateName ≠ []
  first : syncPage request.page = 1
  found : fetchCrateContext data.index waited (Str.trim request.crateName) = .ok ctx

theorem undatedItem (advisories : List CrateAdvisoryRow) (latest : CrateVersionRow) (now now' : Nat) (row : CrateVersionTimelineRow) :
    undated (timelineItem sv advisories latest now row) = undated (timelineItem sv advisories latest now' row) := by
  have legacy (days : Option Int) :
      (if days.any (365 ≤ ·) then ["legacy".toList] else []).filter (· ≠ "legacy".toList) = [] := by split <;> rfl
  simp only [undated,timelineItem,List.filter_append,legacy]

theorem limitBounds (limit : Option Nat) : 0 < versionLimit limit ∧ versionLimit limit ≤ 500 := clampBounds (by decide) _

theorem nextCursorSome (name : Text) (limit : Nat) {offset : Nat} (low : offset ≤ 2 ^ 32 - 1) (small : limit ≤ 2 ^ 32 - 1) :
    ∃ token : Token .crateVersions, nextCursor name limit offset = some (encodeCursor token) ∧ token.v = 1 ∧ token.offset = offset ∧
      token.limit = limit ∧ crateNameOf token = name := by
  have fits : JsonRead.Fits CursorTool.crateVersions.filters [.text name] := .cons rfl .nil
  refine ⟨⟨1,offset,limit,[.text name],by decide,⟨low,small⟩,fits⟩,?_,rfl,rfl,rfl,rfl⟩
  exact congrArg (Option.map encodeCursor) (dif_pos ⟨by decide,⟨low,small⟩,fits⟩)

def tokenAt (request : CrateVersionsRequest) (offset : Nat) : Text :=
  (nextCursor (Str.trim request.crateName) (versionLimit request.limit) offset).getD []

/-- What a page has gathered: its rows and the one behind them. -/
def shownAt (sv : Semver.Package V R) (data : Data lower) (clock : Nat → Nat) (request : CrateVersionsRequest)
    (ctx : CrateContext) (offset : Nat) : List CrateVersionTimelineItem :=
  (((newestFirst data ctx.crateRow.id).drop offset).take (versionLimit request.limit + 1)).map
    (timelineItem sv (fetchAdvisoryRows data ctx.crateRow.id) ctx.latestVersion (clock offset))

theorem answeredAt (opens : Opens data waited request ctx) {cursor : Option Text} {offset : Nat} (low : offset ≤ 2 ^ 32 - 1)
    (stands : Paging.StandsAt (tokenAt request) cursor offset) :
    answer sv data errors clock waited request cursor =
      some (Paging.cutPage (shownAt sv data clock request ctx offset) (versionLimit request.limit)
        (tokenAt request (min (offset + versionLimit request.limit) (2 ^ 32 - 1)))) := by
  obtain ⟨positive,most⟩ := limitBounds request.limit
  have name := requiredNamed "crate_name".toList opens.named
  have next (o : Nat) (within : o ≤ 2 ^ 32 - 1) :
      nextCursor (Str.trim request.crateName) (versionLimit request.limit) o = some (tokenAt request o) := by
    obtain ⟨token,same,_⟩ := nextCursorSome (Str.trim request.crateName) (versionLimit request.limit) within (by omega)
    rw [tokenAt,same]
    rfl
  have asked : saturatingAdd (versionLimit request.limit) 1 = versionLimit request.limit + 1 := saturatingAddSmall (by omega)
  -- the first page, or the cursor's token
  obtain ⟨decoded,read,named,paginated⟩ : ∃ decoded : Option (Token .crateVersions),
      decodeGiven errors .crateVersions (normalizeOptional cursor) = .ok decoded ∧
      (decoded.any fun token => crateNameOf token ≠ Str.trim request.crateName) = false ∧
      ∃ effective, resolvePagination (decoded.map fun token => ⟨token.offset,token.limit⟩) request.limit.isSome
        (versionLimit request.limit) (syncPage request.page) = .ok ⟨offset,versionLimit request.limit,effective⟩ := by
    rcases stands with ⟨rfl,rfl⟩ | rfl
    · exact ⟨none,rfl,rfl,paginatedAt opens.first (Or.inl ⟨rfl,rfl⟩)⟩
    · obtain ⟨token,same,one,rfl,sized,owned⟩ := nextCursorSome (Str.trim request.crateName)
        (versionLimit request.limit) low (by omega)
      have text : tokenAt request token.offset = encodeCursor token := by rw [tokenAt,same]; rfl
      refine ⟨some token,?_,?_,paginatedAt opens.first (Or.inr (by rw [← sized]; rfl))⟩
      · rw [text,cursorKept,decodeGiven,decodeOwn errors token one (by omega)]
        rfl
      · simp [owned]
  obtain ⟨effective,paginated⟩ := paginated
  have window : listCrateVersionTimeline data ctx.crateRow.id (versionLimit request.limit + 1) offset =
      ((newestFirst data ctx.crateRow.id).drop offset).take (versionLimit request.limit + 1) := by
    rw [listCrateVersionTimeline,Nat.max_eq_left (Nat.le_add_left 1 _)]
  have step : saturatingAdd offset (versionLimit request.limit) = min (offset + versionLimit request.limit) (2 ^ 32 - 1) := rfl
  have further := next (min (offset + versionLimit request.limit) (2 ^ 32 - 1)) (Nat.min_le_right _ _)
  rw [answer,handleCrateVersions]
  simp only [name,read,named,paginated,opens.found,failing,Except.mapError,bind,Except.bind,pure,Except.pure,Except.toOption,
    Option.map_some,asked,step,window,further,Bool.false_eq_true,if_false,Option.some.injEq]
  exact Paging.cutWritten (shownAt sv data clock request ctx offset) _ _

theorem latestListed (crateId : Nat) :
    fetchLatestCrateVersion data.index crateId = ((newestFirst data crateId).head?).map CrateVersionTimelineRow.toCrateVersionRow := by
  have sorted : Ranking.sortBy latestFirst ((data.versions.filter fun row => row.crateId = crateId).map
      CrateVersionTimelineRow.toCrateVersionRow) = (newestFirst data crateId).map CrateVersionTimelineRow.toCrateVersionRow :=
    (List.map_insertionSort (fun a b : CrateVersionTimelineRow => latestFirst a.toCrateVersionRow ≤ latestFirst b.toCrateVersionRow)
      (fun a b => latestFirst a ≤ latestFirst b) CrateVersionTimelineRow.toCrateVersionRow _ fun a _ b _ => Iff.rfl).symm
  rw [fetchLatestCrateVersion,data.same,List.filter_map,← List.head?_map,← sorted]
  rfl

/-- The latest version stands first, and no other one has its number. -/
theorem latestFirstOnly (opens : Opens data waited request ctx) : ∃ first rest, newestFirst data ctx.crateRow.id = first::rest ∧
    first.version = ctx.latestVersion.version ∧ ∀ row ∈ rest, row.version ≠ ctx.latestVersion.version := by
  have context := contextOption data.index waited (Str.trim request.crateName)
  rw [opens.found] at context
  obtain ⟨crateRow,_,context⟩ := Option.bind_eq_some_iff.mp context.symm
  obtain ⟨latest,found,rfl⟩ := Option.map_eq_some_iff.mp context
  rw [latestListed,Option.map_eq_some_iff] at found
  obtain ⟨first,head,rfl⟩ := found
  obtain ⟨rest,shape⟩ := List.head?_eq_some_iff.mp head
  refine ⟨first,rest,shape,rfl,fun row mem same => ?_⟩
  have perm := Ranking.sortByPerm (fun row : CrateVersionTimelineRow => latestFirst row.toCrateVersionRow)
    (data.versions.filter fun row => row.crateId = crateRow.id)
  have once : ((newestFirst data crateRow.id).map fun row => (row.crateId,row.version)).Nodup :=
    (perm.map _).nodup_iff.mpr ((data.once.of_map _ |>.filter _).map_on fun a mem b mem' same =>
      List.inj_on_of_nodup_map data.once (List.mem_of_mem_filter mem) (List.mem_of_mem_filter mem') same)
  have owner (row : CrateVersionTimelineRow) (mem : row ∈ newestFirst data crateRow.id) : row.crateId = crateRow.id :=
    of_decide_eq_true (List.mem_filter.mp (perm.mem_iff.mp mem)).2
  have mine := owner first (shape ▸ List.mem_cons_self)
  have other := owner row (shape ▸ List.mem_cons_of_mem first mem)
  rw [shape,List.map_cons,List.nodup_cons] at once
  exact once.1 (List.mem_map.mpr ⟨row,mem,Prod.ext (other.trans mine.symm) same⟩)

/-- Following the cursors lists every version of the crate once, newest first, and the first one alone as the latest,
as far as the offsets reach. -/
theorem everyVersionOnce (opens : Opens data waited request ctx) :
    let rows := newestFirst data ctx.crateRow.id
    let shown (row : CrateVersionTimelineRow) :=
      undated (timelineItem sv (fetchAdvisoryRows data ctx.crateRow.id) ctx.latestVersion 0 row)
    (∃ out, Paging.Follows (answer sv data errors clock waited request) none out ∧ out.map undated = rows.map shown ∧
      ∃ first rest, out = first::rest ∧ first.isLatest = true ∧ ∀ item ∈ rest, item.isLatest = false) ↔
    Paging.Reachable (versionLimit request.limit) (2 ^ 32 - 1) rows.length := by
  intro rows shown
  have positive := (limitBounds request.limit).1
  have follows {out : List CrateVersionTimelineItem} : Paging.Follows (answer sv data errors clock waited request) none out ↔
      Paging.Cuts (shownAt sv data clock request ctx) (versionLimit request.limit) (2 ^ 32 - 1) 0 out :=
    Paging.followsWithin (fun offset => offset ≤ 2 ^ 32 - 1) (fun _ => Nat.min_le_right _ _)
      (fun low stands => answeredAt opens low stands) (Nat.zero_le _) (Or.inl ⟨rfl,rfl⟩)
  have scans (o : Nat) : (shownAt sv data clock request ctx o).map undated =
      ((rows.map shown).drop o).take (versionLimit request.limit + 1) := by
    rw [shownAt,List.map_map,← List.map_drop,← List.map_take]
    exact List.map_congr_left fun row _ => undatedItem _ _ _ _ row
  have whole : (Paging.Cuts _ _ (2 ^ 32 - 1) 0 (rows.map shown) ∧ _) ↔ _ := Paging.cutsWholeIff scans positive
  rw [List.length_map] at whole
  constructor
  · rintro ⟨out,read,same,_⟩
    exact (whole.mp ⟨Paging.cutsMap.mpr ⟨out,follows.mp read,same⟩,rfl⟩).2
  · intro reachable
    obtain ⟨out,read,same⟩ := Paging.cutsMap.mp (whole.mpr ⟨rfl,reachable⟩).1
    obtain ⟨first,rest,shape,newest,others⟩ := latestFirstOnly opens
    refine ⟨out,follows.mpr read,same,?_⟩
    rw [show rows = first::rest from shape,List.map_cons] at same
    obtain ⟨item,items,rfl,top,below⟩ := List.map_eq_cons_iff.mp same
    have latest (item : CrateVersionTimelineItem) : item.isLatest = (undated item).isLatest := rfl
    refine ⟨item,items,rfl,?_,fun other mem => ?_⟩
    · rw [latest,top]
      exact decide_eq_true newest
    · have inside : undated other ∈ rest.map shown := below ▸ List.mem_map_of_mem mem
      obtain ⟨row,there,same⟩ := List.mem_map.mp inside
      rw [latest,← same]
      exact decide_eq_false (others row there)

end

/-- A version that is newer than another one. -/
def twoVersions : Data Str.toAsciiLowercase where
  index := {
    crates := ⟨[⟨1,"timeline".toList⟩],by decide⟩
    versions := [⟨7,1,"1.0.0".toList,some 5⟩,⟨8,1,"1.1.0".toList,some 9⟩]
    sourceFiles := []
    symbols := []
    types := []
    impls := []}
  versions := [⟨⟨7,1,"1.0.0".toList,some 5⟩,none,false,12⟩,⟨⟨8,1,"1.1.0".toList,some 9⟩,none,true,3⟩]
  same := rfl
  ids := by change ([7,8] : List Nat).Nodup; decide
  once := by change ([(1,"1.0.0".toList),(1,"1.1.0".toList)] : List (Nat × Text)).Nodup; decide
  advisories := []

def versionsRequest : CrateVersionsRequest := ⟨"timeline".toList,none,none,some 1⟩

theorem versionsOpen :
    Opens twoVersions (fun _ => none) versionsRequest ⟨⟨1,"timeline".toList⟩,⟨8,1,"1.1.0".toList,some 9⟩⟩ where
  named := by change Str.trim "timeline".toList ≠ []; decide
  first := rfl
  found := rfl

theorem bothVersionsOnce : ∃ out,
    Paging.Follows (answer Semver.releases twoVersions ⟨id,fun _ => []⟩ id (fun _ => none) versionsRequest) none out ∧
      out.map CrateVersionTimelineItem.version = ["1.1.0".toList,"1.0.0".toList] := by
  have reachable : Paging.Reachable (versionLimit (some 1)) (2 ^ 32 - 1) (newestFirst twoVersions 1).length := fun k more => by
    rw [show versionLimit (some 1) = 1 from rfl,show (newestFirst twoVersions 1).length = 2 from rfl] at more
    rw [show versionLimit (some 1) = 1 from rfl]
    omega
  have whole := @everyVersionOnce Semver.Release Unit _ Semver.releases _ _ ⟨id,fun _ => []⟩ id _ _ _ versionsOpen
  obtain ⟨out,follows,same,_⟩ := whole.mpr reachable
  refine ⟨out,follows,?_⟩
  have versions := congrArg (List.map CrateVersionTimelineItem.version) same
  rw [List.map_map,List.map_map] at versions
  exact versions

end RustMcp.VersionTimeline
