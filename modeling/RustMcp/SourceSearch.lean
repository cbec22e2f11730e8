import RustMcp.Paging
import RustMcp.Queries
import RustMcp.Ripgrep

/-! `source_search`, page by page: every page runs ripgrep anew in the directories of the
searchable versions, keeps one hit a file, and stops one hit behind itself. Over the same
sources an earlier response in the query cache is what would be computed, so the cache is
not modelled. -/
namespace RustMcp.SourceSearch
open Str (Text)
open Utils Queries
open Ripgrep (Rg RipgrepMatch RipgrepMode)

inductive SourceSearchMode where
  | text
  | regex
  deriving DecidableEq

structure SourceSearchHit where
  crateName : Text
  version : Text
  path : Text
  indexedAt : Text
  matchLine : Option Nat
  snippet : Text

structure SourceCursorToken extends CursorToken where
  v : Nat
  query : Text
  crateName : Option Text
  version : Option Text
  pathGlob : Option Text
  mode : SourceSearchMode

structure SourceSearchRequest where
  query : Text
  crateName : Option Text
  version : Option Text
  pathGlob : Option Text
  mode : Option SourceSearchMode
  cursor : Option SourceCursorToken
  page : Option Nat
  limit : Option Nat

inductive ConfidenceLevel where
  | low
  | medium

structure SourceSearchResponse where
  nextCursor : Option SourceCursorToken
  page : Nat
  limit : Nat
  hasMore : Bool
  count : Nat
  confidence : ConfidenceLevel
  reason : Text
  suggestedNextTools : List Text
  hits : List SourceSearchHit

@[ext] structure SearchableCrateVersionRow where
  crateName : Text
  version : Text
  deriving DecidableEq

/-- What a request searches for, its texts trimmed. -/
structure Search where
  query : Text
  crateName : Option Text
  version : Option Text
  pathGlob : Option Text
  mode : SourceSearchMode

def rgMode : SourceSearchMode → RipgrepMode
  | .text => .fixedString
  | .regex => .regex

section
variable {C : Type} [LinearOrder C] (collate : Text → C) {lower : Text → Text} (index : Index lower)

/-- The versions that have indexed source files, under the filters. -/
def searchableCrateVersions (crateName version : Option Text) : List SearchableCrateVersionRow :=
  let joined := index.sourceFiles.flatMap fun file =>
    (index.versions.filter fun row => row.id = file.crateVersionId && version.all (row.version = ·)).flatMap fun row =>
      (index.crates.rows.filter fun crateRow => crateRow.id = row.crateId &&
        crateName.all (lower crateRow.name = lower ·)).map fun crateRow => ⟨crateRow.name,row.version⟩
  Ranking.sortBy (fun row => toLex (collate row.crateName,OrderDual.toDual (collate row.version)) :
    SearchableCrateVersionRow → C ×ₗ Cᵒᵈ) joined.dedup

def listSearchableCrateVersions (crateName version : Option Text) (limit : Nat) : List SearchableCrateVersionRow :=
  (searchableCrateVersions collate index crateName version).take (max limit 1)

end

/-! The hits that a page gathers. -/

def hitOf (cv : SearchableCrateVersionRow) (m : RipgrepMatch) : SourceSearchHit :=
  ⟨cv.crateName,cv.version,m.path,[],some m.lineNumber,(Str.trim m.lineContent).take 220⟩

def gatherMatches (targetCount : Nat) (cv : SearchableCrateVersionRow) (seenPaths : List Text) (fileHits : List SourceSearchHit) :
    List RipgrepMatch → List SourceSearchHit
  | [] => fileHits
  | m::rest =>
    if fileHits.length ≥ targetCount then fileHits
    else if m.path ∈ seenPaths then gatherMatches targetCount cv seenPaths fileHits rest
    else gatherMatches targetCount cv (m.path::seenPaths) (fileHits ++ [hitOf cv m]) rest

section
variable {D : Type} (dirs : SourceDirs D) (rg : Rg D) (sought : Search)

/-- A version with no directory is skipped. -/
def gatherHits (targetCount : Nat) (fileHits : List SourceSearchHit) :
    List SearchableCrateVersionRow → Except Text (List SourceSearchHit)
  | [] => .ok fileHits
  | cv::rest =>
    if fileHits.length ≥ targetCount then .ok fileHits
    else match resolveSourceDir dirs cv.crateName cv.version with
      | none => gatherHits targetCount fileHits rest
      | some versionDir => do
          let found ← (Ripgrep.search rg versionDir sought.query (rgMode sought.mode) sought.pathGlob 500).mapError fun error =>
            "source_search ripgrep failed: ".toList ++ error.describe
          gatherHits targetCount (gatherMatches targetCount cv [] fileHits found) rest

end

/-! The handler. -/

def checkFilters (cursor : Option SourceCursorToken) (sought : Search) : Except Text Unit :=
  match cursor with
  | none => .ok ()
  | some token => do
      checkCursor token.v token.limit
      if token.query ≠ sought.query || token.crateName ≠ sought.crateName || token.version ≠ sought.version ||
          token.pathGlob ≠ sought.pathGlob || token.mode ≠ sought.mode then
        .error "cursor does not match current source_search filters".toList

def assess (hits : List SourceSearchHit) : ConfidenceLevel × Text × List Text :=
  if hits = [] then
    (.low,"no indexed source content matched the query".toList,
      ["index_crates".toList,"symbol_search".toList,"docs_search".toList])
  else
    (.medium,"matches are lexical and may require source_read confirmation".toList,
      ["source_read".toList,"source_context".toList])

section
variable {C : Type} [LinearOrder C] (collate : Text → C) {lower : Text → Text} (index : Index lower) {D : Type}
  (dirs : SourceDirs D) (rg : Rg D) (waited : Waited)

/-- A search within one crate has its sources indexed first, where it finds the version. -/
def ensureSearched (sought : Search) : Reply Unit :=
  match sought.crateName.bind fun crateName => (fetchCrateCoreByName index crateName).map fun row => (crateName,row) with
  | none => .ok ()
  | some (crateName,crateRow) =>
      let version := match sought.version with
        | some version => fetchCrateVersionByName index crateRow.id version
        | none => fetchLatestCrateVersion index crateRow.id
      match version with
      | none => .ok ()
      | some row => ensureSourceIndexed index dirs waited crateName row.version row.id

def soughtOf (request : SourceSearchRequest) (query : Text) : Search :=
  ⟨query,normalizeOptional request.crateName,normalizeOptional request.version,normalizeOptional request.pathGlob,
    request.mode.getD .text⟩

def tokenAt (sought : Search) (limit offset : Nat) : SourceCursorToken :=
  ⟨⟨offset,limit⟩,1,sought.query,sought.crateName,sought.version,sought.pathGlob,sought.mode⟩

def handleSourceSearch (request : SourceSearchRequest) : Reply SourceSearchResponse := do
  let query ← failing (normalizeRequired request.query "query".toList)
  let sought := soughtOf request query
  failing (checkFilters request.cursor sought)
  let pag ← failing (resolvePagination (request.cursor.map (·.toCursorToken)) request.limit.isSome
    (sourceSearchLimit request.limit) (syncPage request.page))
  ensureSearched index dirs waited sought
  let crateVersions := listSearchableCrateVersions collate index sought.crateName sought.version 200
  let fileHits ← failing (gatherHits dirs rg sought (pag.offset + pag.limit + 1) [] crateVersions)
  let hits := fileHits.drop pag.offset
  let hasMore := decide (hits.length > pag.limit)
  let hits := if hasMore then hits.take pag.limit else hits
  let (confidence,reason,suggestedNextTools) := assess hits
  .ok {
    nextCursor := if hasMore then some (tokenAt sought pag.limit (saturatingAdd pag.offset pag.limit)) else none
    page := pag.effectivePage
    limit := pag.limit
    hasMore := hasMore
    count := hits.length
    confidence := confidence
    reason := reason
    suggestedNextTools := suggestedNextTools
    hits := hits}

/-- The page that a cursor is answered with. -/
def answer (request : SourceSearchRequest) (cursor : Option SourceCursorToken) :
    Option (Paging.Page SourceCursorToken SourceSearchHit) :=
  (handleSourceSearch collate index dirs rg waited {request with cursor := cursor}).toOption.map fun response =>
    ⟨response.hits,response.hasMore,response.nextCursor⟩

end

/-! The gathering is a cut. -/

section
variable {D : Type} {dirs : SourceDirs D} {rg : Rg D} {sought : Search} {targetCount : Nat}

theorem gathersMatches (cv : SearchableCrateVersionRow) (found : List RipgrepMatch) {seenPaths : List Text}
    {fileHits : List SourceSearchHit} (short : fileHits.length ≤ targetCount) :
    gatherMatches targetCount cv seenPaths fileHits found =
      (fileHits ++ (Paging.firstOfEach RipgrepMatch.path seenPaths found).map (hitOf cv)).take targetCount := by
  induction found generalizing seenPaths fileHits with
  | nil =>
    rw [gatherMatches,Paging.firstOfEach,List.map_nil,List.append_nil,List.take_of_length_le short]
  | cons m rest ih =>
    rw [gatherMatches,Paging.firstOfEach]
    by_cases full : fileHits.length ≥ targetCount
    · have length := Nat.le_antisymm short full
      rw [if_pos full,← length,List.take_left]
    · rw [if_neg full]
      split
      · exact ih short
      · rw [ih (by rw [List.length_append,List.length_singleton]; omega),List.map_cons,List.append_assoc,List.singleton_append]

variable (dirs rg sought) in
/-- All matches of a version. -/
def versionMatches (cv : SearchableCrateVersionRow) : List RipgrepMatch :=
  match resolveSourceDir dirs cv.crateName cv.version with
  | none => []
  | some versionDir => Ripgrep.allMatches rg versionDir sought.query (rgMode sought.mode) sought.pathGlob

variable (dirs rg sought) in
/-- Ripgrep answers where there is a directory to search. -/
def Searches (cv : SearchableCrateVersionRow) : Prop :=
  ∀ versionDir, resolveSourceDir dirs cv.crateName cv.version = some versionDir →
    Ripgrep.Answers rg versionDir sought.query (rgMode sought.mode) sought.pathGlob 500

variable (dirs rg sought) in
/-- The hits of the matches that are read of a version. -/
def versionHits (cv : SearchableCrateVersionRow) : List SourceSearchHit :=
  (Paging.firstOfEach RipgrepMatch.path [] ((versionMatches dirs rg sought cv).take 500)).map (hitOf cv)

theorem gatherSkips {cv : SearchableCrateVersionRow} (gone : resolveSourceDir dirs cv.crateName cv.version = none) :
    versionHits dirs rg sought cv = [] := by
  rw [versionHits,versionMatches,gone]
  rfl

theorem gathersVersion {cv : SearchableCrateVersionRow} {rest : List SearchableCrateVersionRow}
    {fileHits : List SourceSearchHit} (short : fileHits.length < targetCount) (searches : Searches dirs rg sought cv) :
    gatherHits dirs rg sought targetCount fileHits (cv::rest) =
      gatherHits dirs rg sought targetCount ((fileHits ++ versionHits dirs rg sought cv).take targetCount) rest := by
  rw [gatherHits,if_neg (Nat.not_le_of_lt short)]
  cases dir : resolveSourceDir dirs cv.crateName cv.version with
  | none => rw [gatherSkips dir,List.append_nil,List.take_of_length_le (Nat.le_of_lt short)]
  | some versionDir =>
    have searched := Ripgrep.searchIff.mpr ⟨searches versionDir dir,rfl⟩
    simp only [searched,Except.mapError,bind,Except.bind]
    rw [gathersMatches cv _ (Nat.le_of_lt short),versionHits,versionMatches,dir]

theorem gathersAll {versions : List SearchableCrateVersionRow} {fileHits : List SourceSearchHit}
    (short : fileHits.length ≤ targetCount) (searches : ∀ cv ∈ versions, Searches dirs rg sought cv) :
    gatherHits dirs rg sought targetCount fileHits versions =
      .ok ((fileHits ++ versions.flatMap (versionHits dirs rg sought)).take targetCount) := by
  induction versions generalizing fileHits with
  | nil => rw [gatherHits,List.flatMap_nil,List.append_nil,List.take_of_length_le short]
  | cons cv rest ih =>
    obtain ⟨here,later⟩ := List.forall_mem_cons.mp searches
    by_cases full : fileHits.length ≥ targetCount
    · have length := Nat.le_antisymm short full
      rw [gatherHits,if_pos full,← length,List.take_left]
    · rw [gathersVersion (Nat.lt_of_not_le full) here,ih (List.length_take_le _ _) later,List.flatMap_cons]
      rw [Paging.takeAgain,List.append_assoc]

/-- Conversely, a gathering that has not reached its target has searched everything. -/
theorem gathersShort {versions : List SearchableCrateVersionRow} {fileHits out : List SourceSearchHit}
    (gathered : gatherHits dirs rg sought targetCount fileHits versions = .ok out) (short : out.length < targetCount) :
    fileHits.length ≤ out.length ∧ ∀ cv ∈ versions, Searches dirs rg sought cv := by
  induction versions generalizing fileHits with
  | nil =>
    cases Except.ok.inj gathered
    exact ⟨le_refl _,fun _ mem => absurd mem List.not_mem_nil⟩
  | cons cv rest ih =>
    have unfilled : fileHits.length < targetCount := by
      by_contra full
      rw [gatherHits,if_pos (Nat.le_of_not_lt full)] at gathered
      cases Except.ok.inj gathered
      exact full short
    have searches : Searches dirs rg sought cv := fun versionDir dir => by
      rw [gatherHits,if_neg (Nat.not_le_of_lt unfilled),dir] at gathered
      obtain ⟨found,searched,_⟩ := bindOk gathered
      cases run : Ripgrep.search rg versionDir sought.query (rgMode sought.mode) sought.pathGlob 500 with
      | error error => rw [run] at searched; contradiction
      | ok found => exact (Ripgrep.searchIff.mp run).1
    rw [gathersVersion unfilled searches] at gathered
    obtain ⟨grown,later⟩ := ih gathered
    refine ⟨?_,List.forall_mem_cons.mpr ⟨searches,later⟩⟩
    rw [List.length_take,List.length_append] at grown
    omega

end

/-! What the pages return. -/

section
variable {C : Type} [LinearOrder C] (collate : Text → C) {lower : Text → Text} (index : Index lower) {D : Type}
  (dirs : SourceDirs D) (rg : Rg D) (waited : Waited) (request : SourceSearchRequest)

def requested : Search := soughtOf request (Str.trim request.query)

/-- A request for the first page, once the sources of the crate that it names have been indexed. -/
structure Opens : Prop where
  named : Str.trim request.query ≠ []
  first : syncPage request.page = 1
  settled : ensureSearched index dirs waited (requested request) = .ok ()

/-- All versions that can be searched, and those that are. -/
def searchable : List SearchableCrateVersionRow :=
  searchableCrateVersions collate index (requested request).crateName (requested request).version

def searched : List SearchableCrateVersionRow := (searchable collate index request).take 200

def readHits : List SourceSearchHit := (searched collate index request).flatMap (versionHits dirs rg (requested request))

abbrev Key := Text × Text × Text

def keyOf (hit : SourceSearchHit) : Key := (hit.crateName,hit.version,hit.path)

/-- The files of some matches of each version, once each, in the order of the versions and of the matches. -/
def filesOf (versions : List SearchableCrateVersionRow) (found : SearchableCrateVersionRow → List RipgrepMatch) : List Key :=
  versions.flatMap fun cv => (Paging.firstOfEach RipgrepMatch.path [] (found cv)).map fun m => keyOf (hitOf cv m)

/-- All files with a match, of all versions that can be searched. -/
def matchedFiles : List Key := filesOf (searchable collate index request) (versionMatches dirs rg (requested request))

/-- Every file of a searched version has a match among those that are read of it, and the versions
that are not searched have none. -/
structure WithinCaps : Prop where
  searches : ∀ cv ∈ searched collate index request, Searches dirs rg (requested request) cv
  early : ∀ cv ∈ searched collate index request, ∀ m ∈ versionMatches dirs rg (requested request) cv,
    ∃ m' ∈ (versionMatches dirs rg (requested request) cv).take 500, m'.path = m.path
  few : ∀ cv ∈ (searchable collate index request).drop 200, versionMatches dirs rg (requested request) cv = []

variable {collate index dirs rg waited request}

theorem limitBounds (limit : Option Nat) : 0 < sourceSearchLimit limit := (clampBounds (by decide) _).1

theorem answeredAt (opens : Opens index dirs waited request) {cursor : Option SourceCursorToken} {offset : Nat}
    (stands : Paging.StandsAt (tokenAt (requested request) (sourceSearchLimit request.limit)) cursor offset) :
    answer collate index dirs rg waited request cursor =
      (gatherHits dirs rg (requested request) (offset + sourceSearchLimit request.limit + 1) []
        (searched collate index request)).toOption.map fun fileHits =>
          Paging.cutPage (fileHits.drop offset) (sourceSearchLimit request.limit)
            (tokenAt (requested request) (sourceSearchLimit request.limit)
              (min (offset + sourceSearchLimit request.limit) (2 ^ 32 - 1))) := by
  have some_ := limitBounds request.limit
  have query := requiredNamed "query".toList opens.named
  have sought : soughtOf {request with cursor := cursor} (Str.trim request.query) = requested request := rfl
  have filters : checkFilters cursor (requested request) = .ok () := by
    rcases stands with ⟨rfl,rfl⟩ | rfl
    · rfl
    · have passes := cursorPasses some_
      simp [checkFilters,passes,tokenAt,bind,Except.bind]
      rfl
  obtain ⟨effective,paginated⟩ : ∃ effective, resolvePagination (cursor.map (·.toCursorToken)) request.limit.isSome
      (sourceSearchLimit request.limit) (syncPage request.page) = .ok ⟨offset,sourceSearchLimit request.limit,effective⟩ :=
    paginatedAt opens.first (stands.map SourceCursorToken.toCursorToken)
  have versions : listSearchableCrateVersions collate index (requested request).crateName (requested request).version 200 =
      searched collate index request := rfl
  simp only [answer,handleSourceSearch,query,sought,filters,paginated,opens.settled,versions,failing,Except.mapError,bind,
    Except.bind]
  cases gatherHits dirs rg (requested request) (offset + sourceSearchLimit request.limit + 1) []
      (searched collate index request) with
  | error message => rfl
  | ok fileHits =>
    exact congrArg some (Paging.cutWritten (fileHits.drop offset) (sourceSearchLimit request.limit) _)

variable (collate index dirs rg request) in
theorem readLength : (readHits collate index dirs rg request).length ≤ 2 ^ 32 - 1 := by
  have version : ∀ n ∈ (searched collate index request).map fun cv => (versionHits dirs rg (requested request) cv).length,
      n ≤ 500 := by
    intro n mem
    obtain ⟨cv,_,rfl⟩ := List.mem_map.mp mem
    rw [versionHits,List.length_map]
    exact le_trans (Paging.firstLength _ _) (List.length_take_le _ _)
  have total := List.sum_le_card_nsmul _ 500 version
  have few : (searched collate index request).length ≤ 200 := List.length_take_le _ _
  rw [List.length_map,smul_eq_mul] at total
  rw [readHits,List.length_flatMap]
  have bound := Nat.mul_le_mul_right 500 few
  omega

theorem readsIff (opens : Opens index dirs waited request) {out : List SourceSearchHit} :
    Paging.Follows (answer collate index dirs rg waited request) none out ↔
      (∀ cv ∈ searched collate index request, Searches dirs rg (requested request) cv) ∧
        out = readHits collate index dirs rg request := by
  have begins : Paging.StandsAt (tokenAt (requested request) (sourceSearchLimit request.limit)) none 0 := Or.inl ⟨rfl,rfl⟩
  -- with every search answered, the pages cut one list
  have cuts : (∀ cv ∈ searched collate index request, Searches dirs rg (requested request) cv) →
      (Paging.Follows (answer collate index dirs rg waited request) none out ↔ out = readHits collate index dirs rg request) := by
    intro searches
    have answers : ∀ {cursor offset},
        Paging.StandsAt (tokenAt (requested request) (sourceSearchLimit request.limit)) cursor offset →
        answer collate index dirs rg waited request cursor =
          some (Paging.cutPage (((readHits collate index dirs rg request).take
            (offset + sourceSearchLimit request.limit + 1)).drop offset) (sourceSearchLimit request.limit)
            (tokenAt (requested request) (sourceSearchLimit request.limit)
              (min (offset + sourceSearchLimit request.limit) (2 ^ 32 - 1)))) := by
      intro cursor offset stands
      rw [answeredAt opens stands,gathersAll (Nat.zero_le _) searches]
      rfl
    have all := Paging.cutsWithin (limitBounds request.limit) (readLength collate index dirs rg request) fun offset => rfl
    exact (Paging.followsCuts answers begins).trans ⟨fun other => other.unique all,fun same => same ▸ all⟩
  refine ⟨fun follows => ?_,fun ⟨searches,same⟩ => (cuts searches).mpr same⟩
  have searches : ∀ cv ∈ searched collate index request, Searches dirs rg (requested request) cv := by
    obtain ⟨cursor,offset,page,stands,answered,done⟩ := Paging.followsEnds (fun {cursor offset page} stands answered => by
      rw [answeredAt opens stands,Option.map_eq_some_iff] at answered
      obtain ⟨fileHits,_,rfl⟩ := answered
      exact ⟨_,rfl⟩) follows begins
    rw [answeredAt opens stands,Option.map_eq_some_iff] at answered
    obtain ⟨fileHits,gathered,rfl⟩ := answered
    have short : fileHits.length < offset + sourceSearchLimit request.limit + 1 := by
      by_contra long
      have more : sourceSearchLimit request.limit < (fileHits.drop offset).length := by rw [List.length_drop]; omega
      rw [Paging.cutPage,if_pos more] at done
      contradiction
    cases result : gatherHits dirs rg (requested request) (offset + sourceSearchLimit request.limit + 1) []
        (searched collate index request) with
    | error message => rw [result] at gathered; contradiction
    | ok hits =>
      rw [result] at gathered
      cases Option.some.inj gathered
      exact (gathersShort result short).2
  exact ⟨searches,(cuts searches).mp follows⟩

theorem memFiles {versions : List SearchableCrateVersionRow} {found : SearchableCrateVersionRow → List RipgrepMatch}
    {key : Key} : key ∈ filesOf versions found ↔
      ∃ cv ∈ versions, ∃ m ∈ found cv, (cv.crateName,cv.version,m.path) = key := by
  have each : ∀ cv, key ∈ ((Paging.firstOfEach RipgrepMatch.path [] (found cv)).map fun m => keyOf (hitOf cv m)) ↔
      ∃ m ∈ found cv, (cv.crateName,cv.version,m.path) = key := fun cv => by
    have paths : ((Paging.firstOfEach RipgrepMatch.path [] (found cv)).map fun m => keyOf (hitOf cv m)) =
        ((Paging.firstOfEach RipgrepMatch.path [] (found cv)).map RipgrepMatch.path).map fun path =>
          (cv.crateName,cv.version,path) := by rw [List.map_map]; rfl
    rw [paths,List.mem_map]
    constructor
    · rintro ⟨path,mem,rfl⟩
      obtain ⟨m,inside,rfl⟩ := List.mem_map.mp (Paging.memFirst.mp mem).1
      exact ⟨m,inside,rfl⟩
    · rintro ⟨m,inside,rfl⟩
      exact ⟨m.path,Paging.memFirst.mpr ⟨List.mem_map_of_mem inside,List.not_mem_nil⟩,rfl⟩
  rw [filesOf,List.mem_flatMap]
  exact exists_congr fun cv => and_congr_right fun _ => each cv

theorem searchableOnce : (searchable collate index request).Nodup :=
  (Ranking.sortByPerm _ _).nodup_iff.mpr (List.nodup_dedup _)

variable (collate index dirs rg request) in
theorem matchedOnce : (matchedFiles collate index dirs rg request).Nodup := by
  rw [matchedFiles,filesOf,List.nodup_flatMap]
  constructor
  · intro cv _
    have once : ((Paging.firstOfEach RipgrepMatch.path [] (versionMatches dirs rg (requested request) cv)).map
        RipgrepMatch.path).Nodup := Paging.firstOnce [] _
    refine List.Nodup.of_map (fun key : Key => key.2.2) ?_
    rw [List.map_map]
    exact once
  · have versions : (searchable collate index request).Nodup := searchableOnce
    refine versions.imp fun {cv cv'} other => ?_
    intro key mem mem'
    obtain ⟨m,_,rfl⟩ := List.mem_map.mp mem
    obtain ⟨m',_,same⟩ := List.mem_map.mp mem'
    obtain ⟨name,rest⟩ := Prod.mk.inj same
    exact other (SearchableCrateVersionRow.ext name.symm (Prod.mk.inj rest).1.symm)

variable (collate index dirs rg request) in
theorem readFiles : (readHits collate index dirs rg request).map keyOf =
    filesOf (searched collate index request) fun cv => (versionMatches dirs rg (requested request) cv).take 500 := by
  rw [readHits,filesOf,List.map_flatMap]
  exact List.flatMap_congr fun cv _ => by rw [versionHits,List.map_map]; rfl

/-- Every matched file is read, just if none lies beyond the caps. -/
theorem readsAllIff : (readHits collate index dirs rg request).map keyOf = matchedFiles collate index dirs rg request ↔
    (∀ cv ∈ searched collate index request, ∀ m ∈ versionMatches dirs rg (requested request) cv,
      ∃ m' ∈ (versionMatches dirs rg (requested request) cv).take 500, m'.path = m.path) ∧
    ∀ cv ∈ (searchable collate index request).drop 200, versionMatches dirs rg (requested request) cv = [] := by
  have split := List.take_append_drop 200 (searchable collate index request)
  rw [readFiles]
  constructor
  · intro same
    have found : ∀ cv ∈ searchable collate index request, ∀ m ∈ versionMatches dirs rg (requested request) cv,
        cv ∈ searched collate index request ∧
          ∃ m' ∈ (versionMatches dirs rg (requested request) cv).take 500, m'.path = m.path := by
      intro cv mem m inside
      have listed : (cv.crateName,cv.version,m.path) ∈ matchedFiles collate index dirs rg request :=
        memFiles.mpr ⟨cv,mem,m,inside,rfl⟩
      rw [← same,memFiles] at listed
      obtain ⟨cv',mem',m',inside',key⟩ := listed
      obtain ⟨name,rest⟩ := Prod.mk.inj key
      cases SearchableCrateVersionRow.ext name (Prod.mk.inj rest).1
      exact ⟨mem',m',inside',(Prod.mk.inj rest).2⟩
    refine ⟨fun cv mem m inside => (found cv (List.mem_of_mem_take mem) m inside).2,fun cv mem => ?_⟩
    refine List.eq_nil_iff_forall_not_mem.mpr fun m inside => ?_
    have once : (searchable collate index request).Nodup := searchableOnce
    rw [← split] at once
    exact List.disjoint_of_nodup_append once (found cv (List.mem_of_mem_drop mem) m inside).1 mem
  · rintro ⟨early,few⟩
    have late : filesOf ((searchable collate index request).drop 200) (versionMatches dirs rg (requested request)) = [] :=
      List.flatMap_eq_nil_iff.mpr fun cv mem => by rw [few cv mem]; rfl
    have first : filesOf (searched collate index request) (versionMatches dirs rg (requested request)) =
        filesOf (searched collate index request) fun cv => (versionMatches dirs rg (requested request) cv).take 500 := by
      refine List.flatMap_congr fun cv mem => ?_
      have whole := List.take_append_drop 500 (versionMatches dirs rg (requested request) cv)
      have kept : Paging.firstOfEach RipgrepMatch.path [] (versionMatches dirs rg (requested request) cv) =
          Paging.firstOfEach RipgrepMatch.path [] ((versionMatches dirs rg (requested request) cv).take 500) := by
        conv_lhs => rw [← whole]
        refine Paging.firstAppend fun m inside => ?_
        obtain ⟨m',there,path⟩ := early cv mem m (List.mem_of_mem_drop inside)
        exact Or.inl (path ▸ List.mem_map_of_mem there)
      rw [kept]
    rw [← first,matchedFiles,← split,filesOf,filesOf,List.flatMap_append]
    change _ = _ ++ filesOf ((searchable collate index request).drop 200) _
    rw [late,List.append_nil]
    rfl

end

theorem eachFileOnceIffWithinCaps {C : Type} [LinearOrder C] (collate : Text → C) {lower : Text → Text} (index : Index lower)
    {D : Type} (dirs : SourceDirs D) (rg : Rg D) (waited : Waited) (request : SourceSearchRequest)
    (opens : Opens index dirs waited request) :
    (∃ out, Paging.Follows (answer collate index dirs rg waited request) none out ∧
        out.map keyOf = matchedFiles collate index dirs rg request) ↔ WithinCaps collate index dirs rg request := by
  constructor
  · rintro ⟨out,follows,same⟩
    obtain ⟨searches,rfl⟩ := (readsIff opens).mp follows
    obtain ⟨early,few⟩ := readsAllIff.mp same
    exact ⟨searches,early,few⟩
  · intro within
    exact ⟨_,(readsIff opens).mpr ⟨within.searches,rfl⟩,readsAllIff.mpr ⟨within.early,within.few⟩⟩

/-! Of a crate with two files, every line of the first matches. Only the lines that report a
match are printed here. -/

def demoPath (path : String) : Text := "/cache/demo-1.0.0/".toList ++ path.toList

def demoHead (path : String) : Text :=
  "\x7b\"type\":\"match\",\"data\":\x7b\"path\":\x7b\"text\":\"".toList ++ demoPath path ++
    "\"\x7d,\"lines\":\x7b\"text\":\"use x;\\n\"\x7d,\"line_number\":".toList

def demoTail : Text :=
  "\"submatches\":[\x7b\"match\":\x7b\"text\":\"x\"\x7d,\"start\":4,\"end\":5\x7d]\x7d\x7d".toList

def demoLine (path : String) (n : Nat) : Text :=
  demoHead path ++ Nat.toDigits 10 n ++ ",\"absolute_offset\":".toList ++ Nat.toDigits 10 (7 * (n - 1)) ++ [','] ++ demoTail

def demoMatch (path : String) (n : Nat) : Ripgrep.Json :=
  .object [("type".toList,.text "match".toList),("data".toList,.object [
    ("path".toList,.object [("text".toList,.text (demoPath path))]),
    ("lines".toList,.object [("text".toList,.text "use x;\n".toList)]),
    ("line_number".toList,.number (some n)),
    ("absolute_offset".toList,.number (some (7 * (n - 1)))),
    ("submatches".toList,.array [.object [("match".toList,.object [("text".toList,.text "x".toList)]),
      ("start".toList,.number (some 4)),("end".toList,.number (some 5))]])])]

def demoNumber (rest : Text) : Nat := (rest.takeWhile Char.isDigit).foldl (fun n c => 10 * n + (c.toNat - 48)) 0

def demoFromStr (line : Text) : Except Text Ripgrep.Json :=
  match Str.stripPrefix (demoHead "a.rs") line, Str.stripPrefix (demoHead "b.rs") line with
  | some rest, _ => .ok (demoMatch "a.rs" (demoNumber rest))
  | none, some rest => .ok (demoMatch "b.rs" (demoNumber rest))
  | none, none => .error "expected value at line 1 column 1".toList

def demoLines (matching : Nat) : List Text := (List.range matching).map (fun n => demoLine "a.rs" (n + 1)) ++ [demoLine "b.rs" 1]

def demoRg (matching : Nat) : Rg Nat where
  output _ _ := .ok ⟨some 0,(demoLines matching).flatMap (· ++ ['\n']),[]⟩
  fromStr := demoFromStr
  pathText _ := "/cache/demo-1.0.0".toList

theorem demoUnique : (([⟨1,"demo".toList⟩] : List CrateCoreRow).map fun row => Str.toAsciiLowercase row.name).Nodup :=
  List.nodup_singleton _

def demoIndex : Index Str.toAsciiLowercase where
  crates := ⟨[⟨1,"demo".toList⟩],demoUnique⟩
  versions := [⟨7,1,"1.0.0".toList,some 5⟩]
  sourceFiles := [⟨7,"a.rs".toList,some "rust".toList⟩,⟨7,"b.rs".toList,some "rust".toList⟩]
  symbols := []
  types := []
  impls := []

def demoDirs : SourceDirs Nat := ⟨[],fun name => if name = "demo-1.0.0".toList then some 0 else none⟩

def demoRequest : SourceSearchRequest := ⟨"x".toList,some "demo".toList,none,none,none,none,none,some 1⟩

def demoVersion : SearchableCrateVersionRow := ⟨"demo".toList,"1.0.0".toList⟩

theorem demoOpens : Opens demoIndex demoDirs (fun _ => none) demoRequest where
  named := by decide
  first := rfl
  settled := by rfl

theorem demoSearchable : searchable (id : Text → Text) demoIndex demoRequest = [demoVersion] := by decide +kernel

theorem demoLineClean {path : String} (head : Str.lacks ['\n','\r'] (demoHead path) = true) (n : Nat) {c : Char}
    (ends : c ∈ ['\n','\r']) : c ∉ demoLine path n := by
  have digits : ∀ m, c ∉ Nat.toDigits 10 m := fun m mem => by
    have digit : c.isDigit = true := Nat.isDigit_of_mem_toDigits (by decide) (by decide) mem
    rcases List.mem_pair.mp ends with rfl | rfl <;> contradiction
  have lacks : ∀ text, Str.lacks ['\n','\r'] text = true → c ∉ text := fun _ clean => Str.lacksChar clean ends
  have label := lacks ",\"absolute_offset\":".toList (by rw [String.toList_ofList]; decide)
  have comma := lacks [','] (by decide)
  have tail := lacks demoTail (by unfold demoTail; rw [String.toList_ofList]; decide)
  simp only [demoLine,List.mem_append,lacks _ head,digits,label,comma,tail,or_self,not_false_eq_true]

theorem demoHeadClean {path : String} (bare : Str.lacks ['\n','\r'] path.toList = true) :
    Str.lacks ['\n','\r'] (demoHead path) = true := by
  unfold demoHead demoPath
  rw [String.toList_ofList,String.toList_ofList,String.toList_ofList,Str.lacks,List.all_append,List.all_append,List.all_append]
  rw [Str.lacks] at bare
  rw [bare]
  decide

theorem demoClean (matching : Nat) : ∀ line ∈ demoLines matching, '\n' ∉ line ∧ '\r' ∉ line := by
  intro line mem
  rcases List.mem_append.mp mem with first | second
  · obtain ⟨n,_,rfl⟩ := List.mem_map.mp first
    have head := @demoHeadClean "a.rs" (by decide)
    exact ⟨demoLineClean head _ (by decide),demoLineClean head _ (by decide)⟩
  · rw [List.mem_singleton.mp second]
    have head := @demoHeadClean "b.rs" (by decide)
    exact ⟨demoLineClean head _ (by decide),demoLineClean head _ (by decide)⟩

theorem demoMatches (matching : Nat) :
    versionMatches demoDirs (demoRg matching) (requested demoRequest) demoVersion =
      Ripgrep.lineMatches (demoRg matching) "/cache/demo-1.0.0".toList (demoLines matching) := by
  rw [versionMatches,show resolveSourceDir demoDirs demoVersion.crateName demoVersion.version = some 0 by decide +kernel]
  change Ripgrep.lineMatches _ _ (Str.lines _) = _
  rw [Str.linesJoined (demoClean matching)]
  rfl

theorem demoReads (line : Text) (path : String) (found : Text)
    (parsed : ∃ n, demoFromStr line = .ok (demoMatch path n))
    (relative : Ripgrep.relativePath "/cache/demo-1.0.0".toList (demoPath path) = found) :
    ((demoFromStr line).toOption.bind (Ripgrep.matchOf "/cache/demo-1.0.0".toList)).map RipgrepMatch.path = some found := by
  obtain ⟨n,parsed⟩ := parsed
  rw [parsed,← relative]
  rfl

theorem demoReadsFirst (n : Nat) : ((demoFromStr (demoLine "a.rs" n)).toOption.bind
    (Ripgrep.matchOf "/cache/demo-1.0.0".toList)).map RipgrepMatch.path = some "a.rs".toList := by
  have stripped : ∀ rest, Str.stripPrefix (demoHead "a.rs") (demoHead "a.rs" ++ rest) = some rest := fun _ =>
    Str.stripPrefixIff.mpr rfl
  have relative : Ripgrep.relativePath "/cache/demo-1.0.0".toList (demoPath "a.rs") = "a.rs".toList := by
    unfold demoPath
    rw [String.toList_ofList,String.toList_ofList,String.toList_ofList]
    decide
  refine demoReads _ "a.rs" _ ?_ relative
  rw [demoLine,List.append_assoc,List.append_assoc,List.append_assoc,List.append_assoc,demoFromStr,stripped]
  exact ⟨_,rfl⟩

theorem demoReadsSecond : ((demoFromStr (demoLine "b.rs" 1)).toOption.bind
    (Ripgrep.matchOf "/cache/demo-1.0.0".toList)).map RipgrepMatch.path = some "b.rs".toList := by decide +kernel

theorem demoPaths (matching : Nat) : (versionMatches demoDirs (demoRg matching) (requested demoRequest) demoVersion).map
    RipgrepMatch.path = List.replicate matching "a.rs".toList ++ ["b.rs".toList] := by
  have read : ∀ lines, (Ripgrep.lineMatches (demoRg matching) "/cache/demo-1.0.0".toList lines).map RipgrepMatch.path =
      lines.filterMap fun line => ((demoFromStr line).toOption.bind
        (Ripgrep.matchOf "/cache/demo-1.0.0".toList)).map RipgrepMatch.path := fun lines => by
    rw [Ripgrep.lineMatches,List.map_filterMap]
    rfl
  rw [demoMatches,read,demoLines,List.filterMap_append,List.filterMap_map]
  refine congrArg₂ _ ?_ ?_
  · have each : ((fun line => ((demoFromStr line).toOption.bind
        (Ripgrep.matchOf "/cache/demo-1.0.0".toList)).map RipgrepMatch.path) ∘ fun n => demoLine "a.rs" (n + 1)) =
        some ∘ fun _ : Nat => "a.rs".toList := funext fun n => demoReadsFirst (n + 1)
    rw [each,List.filterMap_eq_map,List.map_const',List.length_range]
  · rw [List.filterMap_cons,demoReadsSecond]
    rfl

theorem demoEarly (matching : Nat) : ((versionMatches demoDirs (demoRg matching) (requested demoRequest) demoVersion).take
    matching).map RipgrepMatch.path = List.replicate matching "a.rs".toList := by
  rw [List.map_take,demoPaths,List.take_left' List.length_replicate]

theorem demoSearches (matching : Nat) : Searches demoDirs (demoRg matching) (requested demoRequest) demoVersion := by
  intro versionDir _
  refine ⟨_,rfl,Or.inl rfl,fun before line after split _ => ?_⟩
  change Str.lines _ = _ at split
  rw [Str.linesJoined (demoClean matching)] at split
  have mem : line ∈ demoLines matching := split ▸ List.mem_append_right _ List.mem_cons_self
  have reads : ∀ {path}, ((demoFromStr line).toOption.bind
      (Ripgrep.matchOf "/cache/demo-1.0.0".toList)).map RipgrepMatch.path = some path → ∃ value, demoFromStr line = .ok value := by
    intro path found
    cases parsed : demoFromStr line with
    | error message => rw [parsed] at found; contradiction
    | ok value => exact ⟨value,rfl⟩
  rcases List.mem_append.mp mem with first | second
  · obtain ⟨n,_,rfl⟩ := List.mem_map.mp first
    exact reads (demoReadsFirst (n + 1))
  · rw [List.mem_singleton.mp second] at reads ⊢
    exact reads demoReadsSecond

theorem eachFileOnceIffWithinCapsFew :
    ∃ out, Paging.Follows (answer (id : Text → Text) demoIndex demoDirs (demoRg 2) (fun _ => none) demoRequest) none out ∧
      out.map keyOf = matchedFiles (id : Text → Text) demoIndex demoDirs (demoRg 2) demoRequest := by
  refine (eachFileOnceIffWithinCaps (id : Text → Text) demoIndex demoDirs (demoRg 2) (fun _ => none) demoRequest
    demoOpens).mpr ⟨?_,?_,?_⟩
  · rw [searched,demoSearchable]
    exact List.forall_mem_singleton.mpr (demoSearches 2)
  · rw [searched,demoSearchable]
    refine List.forall_mem_singleton.mpr fun m mem => ⟨m,?_,rfl⟩
    have length := congrArg List.length (demoPaths 2)
    rw [List.length_map] at length
    rwa [List.take_of_length_le (by rw [length]; decide)]
  · rw [demoSearchable]
    exact fun _ mem => absurd mem List.not_mem_nil

/-- The first file has all of the matches that are read, so the second is returned on no page. -/
theorem secondFileHidden :
    ¬∃ out, Paging.Follows (answer (id : Text → Text) demoIndex demoDirs (demoRg 500) (fun _ => none) demoRequest) none out ∧
      out.map keyOf = matchedFiles (id : Text → Text) demoIndex demoDirs (demoRg 500) demoRequest := by
  rintro ⟨out,follows,same⟩
  obtain ⟨_,whole⟩ := (readsIff demoOpens).mp follows
  rw [whole] at same
  have early := (readsAllIff.mp same).1
  rw [searched,demoSearchable] at early
  have paths := demoPaths 500
  have second : "b.rs".toList ∈ (versionMatches demoDirs (demoRg 500) (requested demoRequest) demoVersion).map
      RipgrepMatch.path := by
    rw [paths]
    exact List.mem_append_right _ (List.mem_singleton.mpr rfl)
  obtain ⟨m,inside,named⟩ := List.mem_map.mp second
  obtain ⟨m',read,path⟩ := early demoVersion (List.mem_singleton.mpr rfl) m inside
  have first := List.mem_map_of_mem (f := RipgrepMatch.path) read
  rw [demoEarly,path,named] at first
  exact absurd (List.eq_of_mem_replicate first) (by decide)

end RustMcp.SourceSearch
