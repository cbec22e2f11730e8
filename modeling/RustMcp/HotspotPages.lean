import RustMcp.HotspotScan
import RustMcp.PathGlobs

/-! `crate_hotspots`, page by page, and the hits that its pages should show. -/
namespace RustMcp.HotspotPages
open Str (Text)
open Utils Queries Hotspots HotspotScan

section
variable {C D : Type} [LinearOrder C] {lower : Text → Text} (collate : Text → C) (index : Index lower) (dirs : SourceDirs D)
  (contents : Contents D) (waited : Waited) (request : CrateHotspotsRequest)

/-- The page that a cursor is answered with. -/
def answer (cursor : Option CrateHotspotsCursorToken) : Option (Paging.Page CrateHotspotsCursorToken CrateHotspotHit) :=
  (handleCrateHotspots lower collate index dirs contents waited {request with cursor := cursor}).toOption.map fun response =>
    ⟨response.hotspots,response.hasMore,response.nextCursor⟩

/-- A request for the first page, of a crate and a version that are indexed. The paths of a version
are unique. -/
structure Opens (ctx : CrateContext) (selected : CrateVersionRow) : Prop where
  crate : Str.trim request.crateName ≠ []
  first : syncPage request.page = 1
  enabled : (request.includeUnsafe.getD true || request.includeConcurrency.getD true) = true
  context : fetchCrateContext index waited (Str.trim request.crateName) = .ok ctx
  version : resolveVersionOrLatest index ctx (normalizeOptional request.version) = .ok selected
  files : (index.sourceFiles.map fun row => (row.crateVersionId,row.path)).Nodup

def enabledPatterns : List HotspotPattern :=
  hotspotPatterns (request.includeUnsafe.getD true) (request.includeConcurrency.getD true)

variable (selected : CrateVersionRow)

def readFile (path : Text) : Option Text :=
  readSourceFileFromDiskOrCache dirs contents (Str.trim request.crateName) selected.version path

/-- A hit of a pattern in a line of a file whose path matches the glob. -/
def Occurs (hit : CrateHotspotHit) : Prop := ∃ row ∈ index.sourceFiles, hotspotFile selected.id row = true ∧
  (∀ glob, normalizeOptional request.pathGlob = some glob → PathGlobs.Globs (lower glob) (lower row.path)) ∧
  ∃ content, readFile dirs contents request selected row.path = some content ∧
    ∃ i line, (Str.lines content)[i]? = some line ∧
      ∃ pattern ∈ enabledPatterns request, occurs pattern line = true ∧ hitAt id row.path line i pattern = hit

/-- Every hit once, in order. -/
structure Complete (out : List CrateHotspotHit) : Prop where
  ordered : out.Pairwise fun a b => hotspotOrder a < hotspotOrder b
  listed : ∀ hit, hit ∈ out ↔ Occurs index dirs contents request selected hit

/-- The source files of the version, by path. -/
def versionFiles : List SourceFileRow :=
  Ranking.sortBy (fun row => collate row.path) (index.sourceFiles.filter (hotspotFile selected.id))

/-- The hits in a file that can be read. -/
def hitsIn (row : SourceFileRow) : List CrateHotspotHit :=
  rowHits (readFile dirs contents request selected) (enabledPatterns request) row

/-- No glob is given, the files behind the first thousand have no hits, lines with hits have numbers of
`u32`, and offsets reach through the hits. -/
structure Reads : Prop where
  unglobbed : normalizeOptional request.pathGlob = none
  early : ∀ row ∈ (versionFiles collate index selected).drop 1000, hitsIn dirs contents request selected row = []
  small : ∀ row ∈ versionFiles collate index selected, ∀ hit ∈ hitsIn dirs contents request selected row, hit.line < 2 ^ 32
  reachable : Paging.Reachable (hotspotsLimit request.limit) (2 ^ 32 - 1)
    ((versionFiles collate index selected).flatMap (hitsIn dirs contents request selected)).length

end

/-! The hits. -/

section
variable {C D : Type} [LinearOrder C] {lower : Text → Text} {collate : Text → C} {index : Index lower} {dirs : SourceDirs D}
  {contents : Contents D} {waited : Waited} {request : CrateHotspotsRequest} {ctx : CrateContext} {selected : CrateVersionRow}

theorem memFiles {row : SourceFileRow} :
    row ∈ versionFiles collate index selected ↔ row ∈ index.sourceFiles ∧ hotspotFile selected.id row = true := by
  rw [versionFiles,Ranking.memSortBy,List.mem_filter]

theorem filesOnce (unique : (index.sourceFiles.map fun row => (row.crateVersionId,row.path)).Nodup) :
    ((versionFiles collate index selected).map SourceFileRow.path).Nodup := by
  have keyed : ((versionFiles collate index selected).map fun row => (row.crateVersionId,row.path)).Nodup := by
    have perm := Ranking.sortByPerm (fun row : SourceFileRow => collate row.path) (index.sourceFiles.filter (hotspotFile selected.id))
    exact (perm.map _).nodup_iff.mpr (unique.sublist (List.filter_sublist.map _))
  have own : ∀ row ∈ versionFiles collate index selected, row.crateVersionId = selected.id := fun row mem => by
    have file := (memFiles.mp mem).2
    rw [hotspotFile,Bool.and_eq_true,decide_eq_true_eq] at file
    exact file.1
  refine (List.pairwise_map.mpr ((List.pairwise_map.mp keyed).imp_of_mem fun {a b} mem mem' other same => ?_))
  exact other (Prod.ext ((own a mem).trans (own b mem').symm) same)

variable (collate) in
theorem occursIff (unglobbed : normalizeOptional request.pathGlob = none) {hit : CrateHotspotHit} :
    Occurs index dirs contents request selected hit ↔
      hit ∈ (versionFiles collate index selected).flatMap (hitsIn dirs contents request selected) := by
  have any : ∀ row : SourceFileRow, (∀ glob, normalizeOptional request.pathGlob = some glob →
      PathGlobs.Globs (lower glob) (lower row.path)) ↔ True := fun row => by simp [unglobbed]
  simp only [Occurs,List.mem_flatMap,memFiles,hitsIn,memRow,memFile,any,true_and,and_assoc]

theorem orderSpot {a b : CrateHotspotHit} (same : hotspotOrder a = hotspotOrder b) : spot a = spot b := by
  have rest := (Prod.mk.inj (toLex.injective same)).2
  obtain ⟨path,rest⟩ := Prod.mk.inj (toLex.injective rest)
  obtain ⟨line,pattern⟩ := Prod.mk.inj (toLex.injective rest)
  exact Prod.ext path (Prod.ext line pattern)

/-- Hits at different spots are ordered strictly. -/
theorem sortedStrict {hits : List CrateHotspotHit} (once : (hits.map spot).Nodup) :
    (Ranking.sortBy hotspotOrder hits).Pairwise fun a b => hotspotOrder a < hotspotOrder b :=
  Ranking.sortByStrict (List.Nodup.of_map _ once) fun _ mem _ mem' same =>
    List.inj_on_of_nodup_map once mem mem' (orderSpot same)

theorem allOnce (opens : Opens index waited request ctx selected) :
    (((versionFiles collate index selected).flatMap (hitsIn dirs contents request selected)).map spot).Nodup :=
  hitsOnce (patternsOnce _ _) (filesOnce opens.files)

/-! The pages. -/

variable (collate index dirs contents request selected) in
def scannedRows : List CrateHotspotHit :=
  ((versionFiles collate index selected).take 1000).flatMap (rowScan (readFile dirs contents request selected) (enabledPatterns request))

variable (request) in
def tokenAt (offset : Nat) : CrateHotspotsCursorToken :=
  ⟨⟨offset,hotspotsLimit request.limit⟩,1,Str.trim request.crateName,normalizeOptional request.version,
    normalizeOptional request.pathGlob,request.includeUnsafe.getD true,request.includeConcurrency.getD true⟩

theorem limitBounds (limit : Option Nat) : 0 < hotspotsLimit limit := (clampBounds (by decide) _).1

theorem requestRead (opens : Opens index waited request ctx selected) {cursor : Option CrateHotspotsCursorToken} {offset : Nat}
    (stands : Paging.StandsAt (tokenAt request) cursor offset) : ∃ effective,
      readRequest {request with cursor := cursor} = .ok ⟨Str.trim request.crateName,normalizeOptional request.version,
        normalizeOptional request.pathGlob,request.includeUnsafe.getD true,request.includeConcurrency.getD true,
        ⟨offset,hotspotsLimit request.limit,effective⟩⟩ := by
  have crate := requiredNamed "crate_name".toList opens.crate
  obtain ⟨effective,paginated⟩ : ∃ effective, resolvePagination (cursor.map (·.toCursorToken)) request.limit.isSome
      (hotspotsLimit request.limit) (syncPage request.page) = .ok ⟨offset,hotspotsLimit request.limit,effective⟩ :=
    paginatedAt opens.first (stands.map CrateHotspotsCursorToken.toCursorToken)
  have enabled : (!request.includeUnsafe.getD true && !request.includeConcurrency.getD true) = false := by
    rw [← Bool.not_or,opens.enabled]
    rfl
  refine ⟨effective,?_⟩
  rcases stands with ⟨rfl,rfl⟩ | rfl
  · simp only [readRequest,checkedPage,crate,paginated,enabled,bind,Except.bind,pure,Except.pure,Bool.false_eq_true,if_false]
  · have passes := cursorPasses (limitBounds request.limit)
    have checked : checkToken (tokenAt request offset) (Str.trim request.crateName) (normalizeOptional request.version)
        (normalizeOptional request.pathGlob) (request.includeUnsafe.getD true) (request.includeConcurrency.getD true) = .ok () := by
      simp [checkToken,tokenAt,passes,bind,Except.bind]
    simp only [readRequest,checkedPage,checked,crate,paginated,enabled,bind,Except.bind,pure,Except.pure,Bool.false_eq_true,
      if_false]

theorem scanRead (paths : List SourceFileRow) : scanFiles contents (resolveSourceDir dirs (Str.trim request.crateName) selected.version)
    (enabledPatterns request) (paths.map SourceFileRow.path) =
      paths.flatMap (rowScan (readFile dirs contents request selected) (enabledPatterns request)) := by
  rw [scanFiles,List.flatMap_map]
  refine List.flatMap_congr fun row _ => ?_
  unfold rowScan readFile readSourceFileFromDiskOrCache
  cases (resolveSourceDir dirs (Str.trim request.crateName) selected.version).bind fun dir => contents dir row.path <;> rfl

theorem answeredAt (opens : Opens index waited request ctx selected) (unglobbed : normalizeOptional request.pathGlob = none)
    {cursor : Option CrateHotspotsCursorToken} {offset : Nat} (stands : Paging.StandsAt (tokenAt request) cursor offset) :
    answer collate index dirs contents waited request cursor = some (Paging.cutPage
      (((Ranking.sortBy hotspotOrder (scannedRows collate index dirs contents request selected)).drop offset).take
        (hotspotsLimit request.limit + 1)) (hotspotsLimit request.limit)
      (tokenAt request (min (offset + hotspotsLimit request.limit) (2 ^ 32 - 1)))) := by
  obtain ⟨effective,read⟩ := requestRead opens stands
  have paths : listSourceFilePathsForHotspots lower collate selected.id ((normalizeOptional request.pathGlob).map pathGlobToLike)
      index.sourceFiles = .ok (((versionFiles collate index selected).take 1000).map SourceFileRow.path) := by
    have every : (fun row => hotspotFile selected.id row && true) = hotspotFile selected.id := funext fun _ => Bool.and_true _
    rw [unglobbed,versionFiles,← every]
    rfl
  have scanned : scanFiles contents (resolveSourceDir dirs (Str.trim request.crateName) selected.version)
      (hotspotPatterns (request.includeUnsafe.getD true) (request.includeConcurrency.getD true))
      (((versionFiles collate index selected).take 1000).map SourceFileRow.path) =
        scannedRows collate index dirs contents request selected := scanRead _
  simp only [answer,handleCrateHotspots,read,opens.context,opens.version,paths,scanned,failing,Except.mapError,bind,Except.bind]
  exact congrArg some (Paging.cutWritten _ (hotspotsLimit request.limit) _)

/-- The escape string has two characters. -/
theorem globFails (opens : Opens index waited request ctx selected) {glob : Text}
    (globbed : normalizeOptional request.pathGlob = some glob) :
    answer collate index dirs contents waited request none = none := by
  obtain ⟨effective,read⟩ := requestRead opens (Or.inl ⟨rfl,rfl⟩)
  have refused : listSourceFilePathsForHotspots lower collate selected.id ((normalizeOptional request.pathGlob).map pathGlobToLike)
      index.sourceFiles = .error "invalid escape string".toList := by
    rw [globbed]
    rfl
  simp only [answer,handleCrateHotspots,read,opens.context,opens.version,refused,failing,Except.mapError,bind,Except.bind]
  rfl

theorem globUnanswered (opens : Opens index waited request ctx selected) {glob : Text}
    (globbed : normalizeOptional request.pathGlob = some glob) {out : List CrateHotspotHit} :
    ¬ Paging.Follows (answer collate index dirs contents waited request) none out := by
  intro follows
  have fails : answer collate index dirs contents waited request none = none := globFails opens globbed
  cases follows with
  | last answered => rw [fails] at answered; contradiction
  | more answered => rw [fails] at answered; contradiction

theorem scannedFrom {hit : CrateHotspotHit} (mem : hit ∈ scannedRows collate index dirs contents request selected) :
    ∃ row ∈ (versionFiles collate index selected).take 1000, hit.path = row.path ∧ hit.line < 2 ^ 32 := by
  obtain ⟨row,here,inside⟩ := List.mem_flatMap.mp mem
  exact ⟨row,here,scannedRow (patternsVisible _ _) inside⟩

/-- What the conditions need of the files: with each hit scanned, none is behind the first thousand,
and no line has a number that wraps. -/
theorem scannedNeeds (opens : Opens index waited request ctx selected)
    (all : ∀ row ∈ versionFiles collate index selected, ∀ hit ∈ hitsIn dirs contents request selected row,
      hit ∈ scannedRows collate index dirs contents request selected) :
    (∀ row ∈ (versionFiles collate index selected).drop 1000, hitsIn dirs contents request selected row = []) ∧
      ∀ row ∈ versionFiles collate index selected, ∀ hit ∈ hitsIn dirs contents request selected row, hit.line < 2 ^ 32 := by
  refine ⟨fun row late => List.eq_nil_iff_forall_not_mem.mpr fun hit inside => ?_,fun row mem hit inside => ?_⟩
  · obtain ⟨other,early,path,_⟩ := scannedFrom (all row (List.mem_of_mem_drop late) hit inside)
    obtain ⟨content,_,found⟩ := memRow.mp inside
    obtain ⟨_,_,_,_,_,_,rfl⟩ := memFile.mp found
    have once : ((versionFiles collate index selected).map SourceFileRow.path).Nodup := filesOnce opens.files
    rw [← List.take_append_drop 1000 (versionFiles collate index selected),List.map_append] at once
    have shared : row.path = other.path := path
    exact List.disjoint_of_nodup_append once (shared ▸ List.mem_map_of_mem early) (List.mem_map_of_mem late)
  · obtain ⟨_,_,_,small⟩ := scannedFrom (all row mem hit inside)
    exact small

/-- Under the conditions the scan finds all hits. -/
theorem scannedAll (reads : Reads collate index dirs contents request selected) :
    scannedRows collate index dirs contents request selected =
      (versionFiles collate index selected).flatMap (hitsIn dirs contents request selected) := by
  have late : ((versionFiles collate index selected).drop 1000).flatMap (hitsIn dirs contents request selected) = [] :=
    List.flatMap_eq_nil_iff.mpr reads.early
  conv_rhs => rw [← List.take_append_drop 1000 (versionFiles collate index selected)]
  rw [List.flatMap_append,late,List.append_nil,scannedRows]
  exact List.flatMap_congr fun row mem =>
    scansAll (patternsVisible _ _) (patternsOnce _ _) (reads.small row (List.mem_of_mem_take mem))

end

theorem hotspotsCompleteIff {C D : Type} [LinearOrder C] {lower : Text → Text} (collate : Text → C) (index : Index lower)
    (dirs : SourceDirs D) (contents : Contents D) (waited : Waited) (request : CrateHotspotsRequest) (ctx : CrateContext)
    (selected : CrateVersionRow) (opens : Opens index waited request ctx selected) :
    (∃ out, Paging.Follows (answer collate index dirs contents waited request) none out ∧
        Complete index dirs contents request selected out) ↔ Reads collate index dirs contents request selected := by
  constructor
  · rintro ⟨out,follows,complete⟩
    have unglobbed : normalizeOptional request.pathGlob = none := by
      by_contra globbed
      obtain ⟨glob,globbed⟩ := Option.ne_none_iff_exists'.mp globbed
      exact globUnanswered opens globbed follows
    have cuts := (Paging.followsCuts (answeredAt opens unglobbed) (Or.inl ⟨rfl,rfl⟩)).mp follows
    have once : out.Nodup := complete.ordered.imp fun below => ne_of_apply_ne hotspotOrder below.ne
    obtain ⟨rfl,reachable⟩ := Paging.cutsOnce (fun _ => rfl) (limitBounds _) cuts once
    have listed : ∀ hit, hit ∈ scannedRows collate index dirs contents request selected ↔
        hit ∈ (versionFiles collate index selected).flatMap (hitsIn dirs contents request selected) := fun hit => by
      rw [← occursIff collate unglobbed,← complete.listed hit,Ranking.memSortBy]
    obtain ⟨early,small⟩ := scannedNeeds opens fun row mem hit inside => (listed hit).mpr (List.mem_flatMap.mpr ⟨row,mem,inside⟩)
    have perm : (scannedRows collate index dirs contents request selected).Perm
        ((versionFiles collate index selected).flatMap (hitsIn dirs contents request selected)) :=
      (List.perm_ext_iff_of_nodup ((Ranking.sortByPerm hotspotOrder _).nodup_iff.mp once)
        (List.Nodup.of_map _ (allOnce opens))).mpr listed
    refine ⟨unglobbed,early,small,?_⟩
    rwa [(Ranking.sortByPerm hotspotOrder _).length_eq,perm.length_eq] at reachable
  · intro reads
    have whole := scannedAll reads
    have reachable := reads.reachable
    rw [← whole,← (Ranking.sortByPerm hotspotOrder (scannedRows collate index dirs contents request selected)).length_eq] at reachable
    have cuts := ((Paging.cutsWholeIff (fun _ => rfl) (limitBounds request.limit)).mpr ⟨rfl,reachable⟩).1
    refine ⟨Ranking.sortBy hotspotOrder (scannedRows collate index dirs contents request selected),
      (Paging.followsCuts (answeredAt opens reads.unglobbed) (Or.inl ⟨rfl,rfl⟩)).mpr cuts,?_,fun hit => ?_⟩
    · rw [whole]
      exact sortedStrict (allOnce opens)
    · rw [Ranking.memSortBy,whole,occursIff collate reads.unglobbed]

/-! A crate with one file, in which a pattern occurs. -/

theorem demoUnique : (([⟨1,"demo".toList⟩] : List CrateCoreRow).map fun row => Str.toAsciiLowercase row.name).Nodup :=
  List.nodup_singleton _

def demoFile : SourceFileRow := ⟨3,"src/lib.rs".toList,some "rust".toList⟩

def demoSelected : CrateVersionRow := ⟨3,1,"0.1.0".toList,some 9⟩

def demoIndex : Index Str.toAsciiLowercase where
  crates := ⟨[⟨1,"demo".toList⟩],demoUnique⟩
  versions := [demoSelected]
  sourceFiles := [demoFile]
  symbols := []
  types := []
  impls := []

def demoDirs : SourceDirs Unit := ⟨[],fun name => if name = "demo-0.1.0".toList then some () else none⟩

def demoContents : Contents Unit := fun _ path => if path = "src/lib.rs".toList then some "\nlet m = Mutex::new(1);\n".toList else none

def demoRequest (pathGlob : Option Text) : CrateHotspotsRequest := ⟨"demo".toList,none,pathGlob,none,none,none,none,none⟩

theorem demoOpens (pathGlob : Option Text) :
    Opens demoIndex (fun _ => none) (demoRequest pathGlob) ⟨⟨1,"demo".toList⟩,demoSelected⟩ demoSelected where
  crate := by
    change Str.trim "demo".toList ≠ []
    decide
  first := rfl
  enabled := rfl
  context := rfl
  version := rfl
  files := List.nodup_singleton _

theorem hotspotsCompleteIffUnglobbed : ∃ out,
    Paging.Follows (answer (id : Text → Text) demoIndex demoDirs demoContents (fun _ => none) (demoRequest none)) none out ∧
      Complete demoIndex demoDirs demoContents (demoRequest none) demoSelected out := by
  have files : versionFiles (id : Text → Text) demoIndex demoSelected = [demoFile] := by decide
  refine (hotspotsCompleteIff id demoIndex demoDirs demoContents (fun _ => none) (demoRequest none) _ demoSelected
    (demoOpens none)).mpr ⟨rfl,?_,?_,?_⟩
  · rw [files]
    exact fun _ mem => absurd mem List.not_mem_nil
  · rw [files]
    exact List.forall_mem_singleton.mpr (by decide)
  · rw [files]
    exact fun k below => le_trans (le_of_lt below) (by decide)

/-- With a glob that matches every file, the call fails. -/
theorem everyGlobFails : ¬ ∃ out,
    Paging.Follows (answer (id : Text → Text) demoIndex demoDirs demoContents (fun _ => none) (demoRequest (some ['*']))) none out ∧
      Complete demoIndex demoDirs demoContents (demoRequest (some ['*'])) demoSelected out := by
  rintro ⟨out,follows,_⟩
  have globbed : normalizeOptional (demoRequest (some ['*'])).pathGlob = some ['*'] := by decide
  exact globUnanswered (demoOpens (some ['*'])) globbed follows

end RustMcp.HotspotPages
