import RustMcp.LatestVersions
import RustMcp.Paging
import RustMcp.Ripgrep

/-! `crate_usage_patterns`, page by page: every page runs ripgrep anew in the directories of
the dependents, from the most downloaded on, and stops one match behind itself. -/
namespace RustMcp.UsagePatterns
open Str (Text)
open Utils Queries
open LatestVersions (Catalog VersionRow)
open Ripgrep (Rg RipgrepMatch)

structure DependencyEdgeRow where
  fromVersionId : Nat
  toCrateId : Nat

structure DependentCrateVersionRow where
  dependentCrate : Text
  dependentVersion : Text
  dependentDownloads : Int

structure CrateUsagePatternsCursorToken extends CursorToken where
  v : Nat
  crateName : Text
  symbolName : Text
  version : Option Text

structure CrateUsagePatternsRequest where
  crateName : Text
  symbolName : Text
  version : Option Text
  cursor : Option CrateUsagePatternsCursorToken
  page : Option Nat
  limit : Option Nat

structure CrateUsagePattern where
  dependentCrate : Text
  dependentVersion : Text
  dependentDownloads : Int
  path : Text
  lineStart : Nat
  lineEnd : Nat
  snippet : Text
  deriving DecidableEq

inductive ConfidenceLevel where
  | low
  | high

/-- The part of the response that is searched and paged. -/
structure CrateUsagePatternsResponse where
  crateName : Text
  selectedVersion : Text
  latestVersion : Text
  symbolName : Text
  nextCursor : Option CrateUsagePatternsCursorToken
  page : Nat
  limit : Nat
  hasMore : Bool
  count : Nat
  scannedDependents : Nat
  patterns : List CrateUsagePattern
  confidence : ConfidenceLevel
  reason : Text
  suggestedNextTools : List Text

def usagePatternsLimit (value : Option Nat) : Nat := clamp 1 200 (value.getD 20)

/-! The dependents. -/

section
variable {lower : Text → Text} (catalog : Catalog lower) (edges : List DependencyEdgeRow)

/-- The versions that depend on a crate, each with the crate that it is of. -/
def dependentVersions (crateId : Nat) : List (CrateCoreRow × VersionRow) :=
  (edges.filter fun de => de.toCrateId = crateId).flatMap fun de =>
    (catalog.versions.filter fun dcv => dcv.id = de.fromVersionId).flatMap fun dcv =>
      (catalog.index.crates.rows.filter fun dc => dc.id = dcv.crateId).map fun dc => (dc,dcv)

/-- `DISTINCT ON (dc.id)`, in the order of `dc.id, dcv.published_at DESC NULLS LAST, dcv.id DESC` -/
def distinctDependents (crateId : Nat) : List DependentCrateVersionRow :=
  (Paging.firstOfEach (fun row : CrateCoreRow × VersionRow => row.1.id) [] (Ranking.sortBy
    (fun row => toLex (row.1.id,latestFirst row.2.toCrateVersionRow) : CrateCoreRow × VersionRow → Nat ×ₗ (WithBot Nat)ᵒᵈ ×ₗ Natᵒᵈ)
    (dependentVersions catalog edges crateId))).map fun row => ⟨row.1.name,row.2.version,row.2.totalDownloads⟩

/-- All dependents, those that are downloaded more before others, and by name. -/
def sortedDependents (crateId : Nat) : List DependentCrateVersionRow :=
  Ranking.sortBy (fun row => toLex (OrderDual.toDual row.dependentDownloads,row.dependentCrate) :
    DependentCrateVersionRow → Intᵒᵈ ×ₗ Text) (distinctDependents catalog edges crateId)

def listDependentCrateVersions (crateId limit offset : Nat) : List DependentCrateVersionRow :=
  ((sortedDependents catalog edges crateId).drop offset).take (max limit 1)

end

/-! The patterns that a page gathers. -/

def patternOf (dep : DependentCrateVersionRow) (m : RipgrepMatch) : CrateUsagePattern :=
  ⟨dep.dependentCrate,dep.dependentVersion,dep.dependentDownloads,m.path,m.lineNumber,m.lineNumber,(Str.trim m.lineContent).take 300⟩

def gatherMatches (targetCount : Nat) (dep : DependentCrateVersionRow) (patterns : List CrateUsagePattern) :
    List RipgrepMatch → List CrateUsagePattern
  | [] => patterns
  | m::rest =>
    if patterns.length ≥ targetCount then patterns
    else gatherMatches targetCount dep (patterns ++ [patternOf dep m]) rest

section
variable {D : Type} (dirs : SourceDirs D) (rg : Rg D) (symbolName : Text)

/-- The matches that are read of a directory; a search that fails has none. -/
def searchDir (versionDir : D) : List RipgrepMatch :=
  (Ripgrep.search rg versionDir symbolName .fixedString (some "*.rs".toList) 20).toOption.getD []

/-- What is gathered, and of how many dependents that have a directory. -/
def gatherPatterns (targetCount : Nat) (patterns : List CrateUsagePattern) (scanned : Nat) :
    List DependentCrateVersionRow → List CrateUsagePattern × Nat
  | [] => (patterns,scanned)
  | dep::rest =>
    if patterns.length ≥ targetCount then (patterns,scanned)
    else match resolveSourceDir dirs dep.dependentCrate dep.dependentVersion with
      | none => gatherPatterns targetCount patterns scanned rest
      | some versionDir =>
          gatherPatterns targetCount (gatherMatches targetCount dep patterns (searchDir rg symbolName versionDir)) (scanned + 1) rest

end

/-! The handler. -/

def checkFilters (cursor : Option CrateUsagePatternsCursorToken) (crateName symbolName : Text) (version : Option Text) :
    Except Text Unit :=
  match cursor with
  | none => .ok ()
  | some token => do
      checkCursor token.v token.limit
      if token.crateName ≠ crateName || token.symbolName ≠ symbolName || token.version ≠ version then
        .error "cursor does not match current crate_usage_patterns filters".toList

def assess (patterns : List CrateUsagePattern) (scannedDependents : Nat) : ConfidenceLevel × Text :=
  if patterns = [] && scannedDependents = 0 then
    (.low,("no dependent crate source files are locally cached; try crate_type_info ".toList ++
      "or symbol_search for rustdoc-based intelligence".toList))
  else if patterns = [] then
    (.low,"no dependent source snippets matched the requested symbol in local index".toList)
  else (.high,"usage snippets were resolved from indexed dependent crate source files".toList)

def suggestedTools (patterns : List CrateUsagePattern) : List Text :=
  if patterns = [] then
    ["index_crates".toList,"crate_type_info".toList,"symbol_search".toList,"crate_api".toList]
  else ["source_read".toList,"crate_type_info".toList,"crate_api".toList]

def tokenAt (crateName symbolName : Text) (version : Option Text) (limit offset : Nat) : CrateUsagePatternsCursorToken :=
  ⟨⟨offset,limit⟩,1,crateName,symbolName,version⟩

section
variable {lower : Text → Text} (catalog : Catalog lower) (edges : List DependencyEdgeRow) {D : Type} (dirs : SourceDirs D)
  (rg : Rg D) (waited : Waited)

def handleCrateUsagePatterns (request : CrateUsagePatternsRequest) : Reply CrateUsagePatternsResponse := do
  let crateName ← failing (normalizeRequired request.crateName "crate_name".toList)
  let symbolName ← failing (normalizeRequired request.symbolName "symbol_name".toList)
  let version := normalizeOptional request.version
  failing (checkFilters request.cursor crateName symbolName version)
  let pag ← failing (resolvePagination (request.cursor.map (·.toCursorToken)) request.limit.isSome
    (usagePatternsLimit request.limit) (syncPage request.page))
  let ctx ← fetchCrateContext catalog.index waited crateName
  let selected ← resolveVersionOrLatest catalog.index ctx version
  let dependents := listDependentCrateVersions catalog edges ctx.crateRow.id 200 0
  let (allPatterns,scannedDependents) := gatherPatterns dirs rg symbolName (pag.offset + pag.limit + 1) [] 0 dependents
  let patterns := allPatterns.drop pag.offset
  let hasMore := decide (patterns.length > pag.limit)
  let patterns := if hasMore then patterns.take pag.limit else patterns
  let (confidence,reason) := assess patterns scannedDependents
  .ok {
    crateName := ctx.crateRow.name
    selectedVersion := selected.version
    latestVersion := ctx.latestVersion.version
    symbolName := symbolName
    nextCursor :=
      if hasMore then some (tokenAt crateName symbolName version pag.limit (saturatingAdd pag.offset pag.limit)) else none
    page := pag.effectivePage
    limit := pag.limit
    hasMore := hasMore
    count := patterns.length
    scannedDependents := scannedDependents
    patterns := patterns
    confidence := confidence
    reason := reason
    suggestedNextTools := suggestedTools patterns}

/-- The page that a cursor is answered with. -/
def answer (request : CrateUsagePatternsRequest) (cursor : Option CrateUsagePatternsCursorToken) :
    Option (Paging.Page CrateUsagePatternsCursorToken CrateUsagePattern) :=
  (handleCrateUsagePatterns catalog edges dirs rg waited {request with cursor := cursor}).toOption.map fun response =>
    ⟨response.patterns,response.hasMore,response.nextCursor⟩

end

/-! The gathering is a cut of all patterns. -/

section
variable {D : Type} (dirs : SourceDirs D) (rg : Rg D) (symbolName : Text)

/-- The matches in a directory, where they can be read. -/
def matchList (versionDir : D) : List RipgrepMatch :=
  match Ripgrep.search rg versionDir symbolName .fixedString (some "*.rs".toList) 20 with
  | .error _ => []
  | .ok _ => Ripgrep.allMatches rg versionDir symbolName .fixedString (some "*.rs".toList)

theorem searchedMatches (versionDir : D) : searchDir rg symbolName versionDir = (matchList rg symbolName versionDir).take 20 := by
  rw [searchDir,matchList]
  cases found : Ripgrep.search rg versionDir symbolName .fixedString (some "*.rs".toList) 20 with
  | error error => rfl
  | ok matches_ => exact (Ripgrep.searchIff.mp found).2

def hasSourceDir (dep : DependentCrateVersionRow) : Bool :=
  (resolveSourceDir dirs dep.dependentCrate dep.dependentVersion).isSome

/-- The patterns of a dependent, of up to 20 matches. -/
def dependentPatterns (dep : DependentCrateVersionRow) : List CrateUsagePattern :=
  match resolveSourceDir dirs dep.dependentCrate dep.dependentVersion with
  | none => []
  | some versionDir => ((matchList rg symbolName versionDir).take 20).map (patternOf dep)

variable {dirs rg symbolName} {targetCount : Nat}

theorem dependentLength (dep : DependentCrateVersionRow) : (dependentPatterns dirs rg symbolName dep).length ≤ 20 := by
  unfold dependentPatterns
  split
  · exact Nat.zero_le 20
  · rw [List.length_map]
    exact List.length_take_le _ _

theorem sourcelessSkipped (dependents : List DependentCrateVersionRow) :
    (dependents.filter (hasSourceDir dirs)).flatMap (dependentPatterns dirs rg symbolName) =
      dependents.flatMap (dependentPatterns dirs rg symbolName) := by
  induction dependents with
  | nil => rfl
  | cons dep rest ih =>
    rw [List.flatMap_cons,List.filter_cons]
    cases dir : resolveSourceDir dirs dep.dependentCrate dep.dependentVersion with
    | none =>
      have skipped : hasSourceDir dirs dep = false := by rw [hasSourceDir,dir]; rfl
      have nothing : dependentPatterns dirs rg symbolName dep = [] := by rw [dependentPatterns,dir]
      rw [skipped,nothing,List.nil_append,← ih]
      rfl
    | some versionDir =>
      have scanned : hasSourceDir dirs dep = true := by rw [hasSourceDir,dir]; rfl
      rw [scanned,if_pos rfl,List.flatMap_cons,ih]

theorem gathersMatches (dep : DependentCrateVersionRow) (found : List RipgrepMatch) {patterns : List CrateUsagePattern}
    (short : patterns.length ≤ targetCount) :
    gatherMatches targetCount dep patterns found = (patterns ++ found.map (patternOf dep)).take targetCount := by
  induction found generalizing patterns with
  | nil => rw [gatherMatches,List.map_nil,List.append_nil,List.take_of_length_le short]
  | cons m rest ih =>
    rw [gatherMatches]
    by_cases full : patterns.length ≥ targetCount
    · have length := Nat.le_antisymm short full
      rw [if_pos full,← length,List.take_left]
    · rw [if_neg full,ih (by rw [List.length_append,List.length_singleton]; omega),List.map_cons,List.append_assoc,
        List.singleton_append]

theorem gathersDependent {dep : DependentCrateVersionRow} {rest : List DependentCrateVersionRow}
    {patterns : List CrateUsagePattern} {scanned : Nat} (short : patterns.length < targetCount) : ∃ scanned',
    gatherPatterns dirs rg symbolName targetCount patterns scanned (dep::rest) = gatherPatterns dirs rg symbolName targetCount
      ((patterns ++ dependentPatterns dirs rg symbolName dep).take targetCount) scanned' rest := by
  rw [gatherPatterns,if_neg (Nat.not_le_of_lt short),dependentPatterns]
  cases resolveSourceDir dirs dep.dependentCrate dep.dependentVersion with
  | none => exact ⟨scanned,by rw [List.append_nil,List.take_of_length_le (Nat.le_of_lt short)]⟩
  | some versionDir =>
    refine ⟨scanned + 1,?_⟩
    simp only [gathersMatches dep _ (Nat.le_of_lt short),searchedMatches]

/-- Both loops stop at the target, so what they have gathered is a prefix of all patterns. -/
theorem gathersAll (dependents : List DependentCrateVersionRow) {patterns : List CrateUsagePattern} {scanned : Nat}
    (short : patterns.length ≤ targetCount) : (gatherPatterns dirs rg symbolName targetCount patterns scanned dependents).1 =
      (patterns ++ dependents.flatMap (dependentPatterns dirs rg symbolName)).take targetCount := by
  induction dependents generalizing patterns scanned with
  | nil => rw [gatherPatterns,List.flatMap_nil,List.append_nil,List.take_of_length_le short]
  | cons dep rest ih =>
    by_cases full : patterns.length ≥ targetCount
    · have length := Nat.le_antisymm short full
      rw [gatherPatterns,if_pos full,← length,List.take_left]
    · obtain ⟨scanned',step⟩ := gathersDependent (Nat.lt_of_not_le full)
      rw [step,ih (List.length_take_le _ _),Paging.takeAgain,List.append_assoc,List.flatMap_cons]

end

/-! What the pages return. -/

section
variable {lower : Text → Text} (catalog : Catalog lower) (edges : List DependencyEdgeRow) {D : Type} (dirs : SourceDirs D)
  (rg : Rg D) (waited : Waited) (request : CrateUsagePatternsRequest) (ctx : CrateContext)

/-- A request for the first page, of a crate and a version that are indexed. -/
structure Opens : Prop where
  crate : Str.trim request.crateName ≠ []
  symbol : Str.trim request.symbolName ≠ []
  first : syncPage request.page = 1
  context : fetchCrateContext catalog.index waited (Str.trim request.crateName) = .ok ctx
  version : ∃ selected, resolveVersionOrLatest catalog.index ctx (normalizeOptional request.version) = .ok selected

/-- All patterns of some dependents, one after another. -/
def patternsOf (dependents : List DependentCrateVersionRow) : List CrateUsagePattern :=
  dependents.flatMap (dependentPatterns dirs rg (Str.trim request.symbolName))

def searchedDependents : List DependentCrateVersionRow :=
  ((sortedDependents catalog edges ctx.crateRow.id).take 200).filter (hasSourceDir dirs)

variable {catalog edges dirs rg waited request ctx}

theorem limitBounds (limit : Option Nat) : 0 < usagePatternsLimit limit := (clampBounds (by decide) _).1

theorem answeredAt (opens : Opens catalog waited request ctx) {cursor : Option CrateUsagePatternsCursorToken} {offset : Nat}
    (stands : Paging.StandsAt (tokenAt (Str.trim request.crateName) (Str.trim request.symbolName)
      (normalizeOptional request.version) (usagePatternsLimit request.limit)) cursor offset) :
    answer catalog edges dirs rg waited request cursor = some (Paging.cutPage
      (((patternsOf dirs rg request (searchedDependents catalog edges dirs ctx)).take
        (offset + usagePatternsLimit request.limit + 1)).drop offset) (usagePatternsLimit request.limit)
      (tokenAt (Str.trim request.crateName) (Str.trim request.symbolName) (normalizeOptional request.version)
        (usagePatternsLimit request.limit) (min (offset + usagePatternsLimit request.limit) (2 ^ 32 - 1)))) := by
  have some_ := limitBounds request.limit
  have crate := requiredNamed "crate_name".toList opens.crate
  have symbol := requiredNamed "symbol_name".toList opens.symbol
  obtain ⟨selected,version⟩ := opens.version
  have checked : checkFilters cursor (Str.trim request.crateName) (Str.trim request.symbolName)
      (normalizeOptional request.version) = .ok () := by
    rcases stands with ⟨rfl,rfl⟩ | rfl
    · rfl
    · have passes := cursorPasses some_
      simp [checkFilters,passes,tokenAt,bind,Except.bind]
      rfl
  obtain ⟨effective,paginated⟩ : ∃ effective, resolvePagination (cursor.map (·.toCursorToken)) request.limit.isSome
      (usagePatternsLimit request.limit) (syncPage request.page) = .ok ⟨offset,usagePatternsLimit request.limit,effective⟩ :=
    paginatedAt opens.first (stands.map CrateUsagePatternsCursorToken.toCursorToken)
  have gathered : (gatherPatterns dirs rg (Str.trim request.symbolName) (offset + usagePatternsLimit request.limit + 1) [] 0
      (listDependentCrateVersions catalog edges ctx.crateRow.id 200 0)).1 =
        (patternsOf dirs rg request (searchedDependents catalog edges dirs ctx)).take
          (offset + usagePatternsLimit request.limit + 1) := by
    rw [gathersAll _ (Nat.zero_le _),List.nil_append,patternsOf,searchedDependents,sourcelessSkipped]
    rfl
  simp only [answer,handleCrateUsagePatterns,crate,symbol,checked,paginated,opens.context,version,gathered,failing,
    Except.mapError,bind,Except.bind]
  exact congrArg some (Paging.cutWritten _ (usagePatternsLimit request.limit) _)

variable (catalog edges dirs rg request ctx) in
theorem searchedLength : (patternsOf dirs rg request (searchedDependents catalog edges dirs ctx)).length ≤ 2 ^ 32 - 1 := by
  have each : ∀ n ∈ (searchedDependents catalog edges dirs ctx).map fun dep =>
      (dependentPatterns dirs rg (Str.trim request.symbolName) dep).length, n ≤ 20 := by
    intro n mem
    obtain ⟨dep,_,rfl⟩ := List.mem_map.mp mem
    exact dependentLength dep
  have total := List.sum_le_card_nsmul _ 20 each
  have few : (searchedDependents catalog edges dirs ctx).length ≤ 200 :=
    le_trans (List.length_filter_le _ _) (List.length_take_le _ _)
  rw [List.length_map,smul_eq_mul] at total
  rw [patternsOf,List.length_flatMap]
  omega

theorem pagesIff (opens : Opens catalog waited request ctx) {out : List CrateUsagePattern} :
    Paging.Follows (answer catalog edges dirs rg waited request) none out ↔
      out = patternsOf dirs rg request (searchedDependents catalog edges dirs ctx) := by
  have whole := Paging.cutsWithin (limitBounds request.limit) (searchedLength catalog edges dirs rg request ctx) fun _ => rfl
  rw [Paging.followsCuts (answeredAt opens) (Or.inl ⟨rfl,rfl⟩)]
  exact ⟨fun cuts => cuts.unique whole,fun same => same ▸ whole⟩

end

theorem pagesListSearched {lower : Text → Text} (catalog : Catalog lower) (edges : List DependencyEdgeRow) {D : Type}
    (dirs : SourceDirs D) (rg : Rg D) (waited : Waited) (request : CrateUsagePatternsRequest) (ctx : CrateContext)
    (opens : Opens catalog waited request ctx) (out : List CrateUsagePattern) :
    Paging.Follows (answer catalog edges dirs rg waited request) none out ↔
      out = patternsOf dirs rg request (((sortedDependents catalog edges ctx.crateRow.id).take 200).filter (hasSourceDir dirs)) :=
  pagesIff opens

/-! A crate with so many dependents that the one that has a directory need not be among the first 200. -/

section
variable {α : Type} {f : Nat → α} {p : α → Bool} {k m : Nat}

theorem rangeFilter (own : ∀ n, p (f n) = decide (n = k)) :
    ((List.range m).map f).filter p = if k < m then [f k] else [] := by
  have same : p ∘ f = fun n => decide (n = k) := funext own
  rw [List.filter_map,same,List.filter_eq]
  by_cases within : k < m
  · rw [List.count_eq_one_of_mem List.nodup_range (List.mem_range.mpr within),if_pos within]
    rfl
  · rw [List.count_eq_zero_of_not_mem (mt List.mem_range.mp within),if_neg within]
    rfl

theorem rangeSorted {κ : Type} [LinearOrder κ] {key : α → κ} (ascends : ∀ i j, i < j → key (f i) ≤ key (f j)) :
    Ranking.sortBy key ((List.range m).map f) = (List.range m).map f := by
  refine List.Pairwise.insertionSort_eq ?_
  rw [List.pairwise_map]
  exact List.pairwise_lt_range.imp fun {i j} below => ascends i j below

end

def demoCrate (n : Nat) : LatestVersions.CrateRow := ⟨⟨n,List.replicate (n + 1) 'a'⟩,[],[]⟩

def demoVersion (n : Nat) : VersionRow := ⟨⟨n,n,"1.0.0".toList,none⟩,false,-n,none⟩

theorem demoNames (n : Nat) :
    ((((List.range n).map demoCrate).map LatestVersions.CrateRow.toCrateCoreRow).map fun row => id row.name).Nodup := by
  rw [List.map_map,List.map_map]
  refine List.Nodup.map (fun a b same => ?_) List.nodup_range
  have length := congrArg List.length same
  simpa [demoCrate] using length

theorem demoIds (n : Nat) : (((List.range n).map demoVersion).map (·.id)).Nodup := by
  rw [List.map_map]
  exact List.Nodup.map (fun _ _ same => same) List.nodup_range

/-- The crate `0` and its dependents. -/
def demoCatalog (dependents : Nat) : Catalog id where
  index := ⟨⟨((List.range (dependents + 1)).map demoCrate).map LatestVersions.CrateRow.toCrateCoreRow,demoNames _⟩,
    ((List.range (dependents + 1)).map demoVersion).map VersionRow.toCrateVersionRow,[],[],[],[]⟩
  crates := (List.range (dependents + 1)).map demoCrate
  versions := (List.range (dependents + 1)).map demoVersion
  same := rfl
  sameVersions := rfl
  ids := demoIds _

def demoEdges (dependents : Nat) : List DependencyEdgeRow := (List.range dependents).map fun n => ⟨n + 1,0⟩

def demoDependent (n : Nat) : DependentCrateVersionRow := ⟨(demoCrate (n + 1)).name,"1.0.0".toList,-(n + 1)⟩

/-- Only the dependent `n` has a directory. -/
def demoDirs (n : Nat) : SourceDirs Unit :=
  ⟨[],fun name => if name = (demoDependent n).dependentCrate ++ "-".toList ++ "1.0.0".toList then some () else none⟩

theorem demoHasDir (k n : Nat) : hasSourceDir (demoDirs k) (demoDependent n) = decide (n = k) := by
  have names : (demoDependent n).dependentCrate ++ "-".toList ++ "1.0.0".toList =
      (demoDependent k).dependentCrate ++ "-".toList ++ "1.0.0".toList ↔ n = k := by
    refine ⟨fun same => ?_,fun same => same ▸ rfl⟩
    have length := congrArg List.length same
    simpa [demoDependent,demoCrate] using length
  have opened : resolveSourceDir (demoDirs k) (demoDependent n).dependentCrate (demoDependent n).dependentVersion =
      if (demoDependent n).dependentCrate ++ "-".toList ++ "1.0.0".toList =
        (demoDependent k).dependentCrate ++ "-".toList ++ "1.0.0".toList then some () else none := rfl
  rw [hasSourceDir,opened]
  by_cases same : n = k
  · rw [if_pos (names.mpr same),decide_eq_true same]
    rfl
  · rw [if_neg (mt names.mp same),decide_eq_false same]
    rfl

theorem demoJoined (m : Nat) : dependentVersions (demoCatalog m) (demoEdges m) 0 =
    (List.range m).map fun n => ((demoCrate (n + 1)).toCrateCoreRow,demoVersion (n + 1)) := by
  have edges : (demoEdges m).filter (fun de => de.toCrateId = 0) = demoEdges m :=
    List.filter_eq_self.mpr fun de mem => by
      obtain ⟨n,_,rfl⟩ := List.mem_map.mp mem
      rfl
  have version (n : Nat) : (demoCatalog m).versions.filter (fun dcv => dcv.id = n) =
      if n < m + 1 then [demoVersion n] else [] := rangeFilter fun _ => rfl
  have crate (n : Nat) : (demoCatalog m).index.crates.rows.filter (fun dc => dc.id = n) =
      if n < m + 1 then [(demoCrate n).toCrateCoreRow] else [] := by
    change (((List.range (m + 1)).map demoCrate).map LatestVersions.CrateRow.toCrateCoreRow).filter _ = _
    rw [List.map_map]
    exact rangeFilter fun _ => rfl
  rw [dependentVersions,edges,demoEdges,List.flatMap_map,← List.flatMap_pure_eq_map]
  refine List.flatMap_congr fun n mem => ?_
  have within : n + 1 < m + 1 := Nat.succ_lt_succ (List.mem_range.mp mem)
  rw [version,if_pos within,List.flatMap_singleton]
  change List.map _ ((demoCatalog m).index.crates.rows.filter fun dc => dc.id = n + 1) = _
  rw [crate,if_pos within]
  rfl

theorem demoSorted (m : Nat) : sortedDependents (demoCatalog m) (demoEdges m) 0 = (List.range m).map demoDependent := by
  have byId : Ranking.sortBy (fun row : CrateCoreRow × VersionRow => (toLex (row.1.id,latestFirst row.2.toCrateVersionRow) :
      Nat ×ₗ (WithBot Nat)ᵒᵈ ×ₗ Natᵒᵈ)) ((List.range m).map fun n => ((demoCrate (n + 1)).toCrateCoreRow,demoVersion (n + 1))) =
        (List.range m).map fun n => ((demoCrate (n + 1)).toCrateCoreRow,demoVersion (n + 1)) :=
    rangeSorted fun i j below => Prod.Lex.toLex_le_toLex.mpr (Or.inl (Nat.succ_lt_succ below))
  have ids : (((List.range m).map fun n => ((demoCrate (n + 1)).toCrateCoreRow,demoVersion (n + 1))).map fun row => row.1.id).Nodup := by
    rw [List.map_map]
    exact List.Nodup.map (fun _ _ same => Nat.succ_injective same) List.nodup_range
  have distinct : distinctDependents (demoCatalog m) (demoEdges m) 0 = (List.range m).map demoDependent := by
    rw [distinctDependents,demoJoined,byId,Paging.firstAll ids,List.map_map]
    rfl
  rw [sortedDependents,distinct]
  refine rangeSorted fun i j below => Prod.Lex.toLex_le_toLex.mpr (Or.inl ?_)
  exact OrderDual.toDual_lt_toDual.mpr (by simp only [demoDependent]; omega)

def demoPath (k : Nat) : Text := "/cache/".toList ++ (demoDependent k).dependentCrate ++ "-1.0.0".toList

def demoLine (k : Nat) : Text :=
  "\x7b\"type\":\"match\",\"data\":\x7b\"path\":\x7b\"text\":\"".toList ++ demoPath k ++
    "/src/lib.rs\"\x7d,\"lines\":\x7b\"text\":\"use a::x;\\n\"\x7d,\"line_number\":1,\"absolute_offset\":0,".toList ++
    "\"submatches\":[\x7b\"match\":\x7b\"text\":\"x\"\x7d,\"start\":7,\"end\":8\x7d]\x7d\x7d".toList

def demoJson (k : Nat) : Ripgrep.Json :=
  .object [("type".toList,.text "match".toList),("data".toList,.object [
    ("path".toList,.object [("text".toList,.text (demoPath k ++ "/src/lib.rs".toList))]),
    ("lines".toList,.object [("text".toList,.text "use a::x;\n".toList)]),
    ("line_number".toList,.number (some 1)),("absolute_offset".toList,.number (some 0)),
    ("submatches".toList,.array [.object [("match".toList,.object [("text".toList,.text "x".toList)]),
      ("start".toList,.number (some 7)),("end".toList,.number (some 8))]])])]

/-- The run in the directory of the dependent `k`; other lines than that of the match are not printed. -/
def demoRg (k : Nat) : Rg Unit where
  output _ _ := .ok ⟨some 0,demoLine k ++ ['\n'],[]⟩
  fromStr line := if line = demoLine k then .ok (demoJson k) else .error "expected value at line 1 column 1".toList
  pathText _ := demoPath k

def demoRequest : CrateUsagePatternsRequest := ⟨"a".toList,"x".toList,none,none,none,none⟩

def demoContext : CrateContext := ⟨(demoCrate 0).toCrateCoreRow,(demoVersion 0).toCrateVersionRow⟩

theorem demoOpens (m : Nat) : Opens (demoCatalog m) (fun _ => none) demoRequest demoContext where
  crate := by decide
  symbol := by decide
  first := rfl
  context := by
    have core : fetchCrateCoreByName (demoCatalog m).index (Str.trim demoRequest.crateName) = some (demoCrate 0).toCrateCoreRow :=
      Keyed.Table.lookupIff.mpr ⟨List.mem_map_of_mem (List.mem_map_of_mem (List.mem_range.mpr (Nat.succ_pos m))),by decide⟩
    have own : (demoCatalog m).versions.filter (fun row => row.crateId = 0) = [demoVersion 0] := by
      have found : (demoCatalog m).versions.filter (fun row => row.crateId = 0) = if 0 < m + 1 then [demoVersion 0] else [] :=
        rangeFilter fun _ => rfl
      rwa [if_pos (Nat.succ_pos m)] at found
    have latest : fetchLatestCrateVersion (demoCatalog m).index 0 = some (demoVersion 0).toCrateVersionRow := by
      rw [LatestVersions.latestLookup,LatestVersions.latestRow,own]
      rfl
    refine okOfOption ?_
    rw [contextOption,core,Option.bind_some]
    change (fetchLatestCrateVersion (demoCatalog m).index 0).map _ = _
    rw [latest]
    rfl
  version := ⟨_,rfl⟩

theorem pagesListSearchedOne : Paging.Follows (answer (demoCatalog 1) (demoEdges 1) (demoDirs 0) (demoRg 0) (fun _ => none) demoRequest)
    none [⟨"aa".toList,"1.0.0".toList,-1,"src/lib.rs".toList,1,1,"use a::x;".toList⟩] :=
  (pagesListSearched (demoCatalog 1) (demoEdges 1) (demoDirs 0) (demoRg 0) (fun _ => none) demoRequest demoContext (demoOpens 1)
    _).mpr (by rw [show demoContext.crateRow.id = 0 from rfl,demoSorted]; decide +kernel)

/-- Two hundred dependents without a directory stand before the one that has one. -/
theorem sourcelessCounted : ¬ Paging.Follows
    (answer (demoCatalog 201) (demoEdges 201) (demoDirs 200) (demoRg 200) (fun _ => none) demoRequest) none
    (patternsOf (demoDirs 200) (demoRg 200) demoRequest
      (((sortedDependents (demoCatalog 201) (demoEdges 201) 0).filter (hasSourceDir (demoDirs 200))).take 200)) := by
  intro follows
  have same := (pagesIff (demoOpens 201)).mp follows
  have among (m : Nat) : ((List.range m).map demoDependent).filter (hasSourceDir (demoDirs 200)) =
      if 200 < m then [demoDependent 200] else [] := rangeFilter fun n => demoHasDir 200 n
  have searched : searchedDependents (demoCatalog 201) (demoEdges 201) (demoDirs 200) demoContext = [] := by
    rw [searchedDependents,show demoContext.crateRow.id = 0 from rfl,demoSorted,← List.map_take,List.take_range,among]
    rfl
  rw [searched,demoSorted,among,if_pos (by decide)] at same
  have one : (patternsOf (demoDirs 200) (demoRg 200) demoRequest ([demoDependent 200].take 200)).length = 1 := by decide +kernel
  rw [same,patternsOf,List.flatMap_nil] at one
  exact absurd one (by decide)

end RustMcp.UsagePatterns
