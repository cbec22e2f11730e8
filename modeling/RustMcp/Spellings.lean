import RustMcp.DeriveMacros
import RustMcp.ErrorTypes
import RustMcp.Hotspots

/-! Two spellings of a crate name. The index is searched by the name in lower case, the
disk by the name as it was typed. -/
namespace RustMcp.Spellings
open Str (Text)
open Utils Queries Hotspots DeriveMacros ErrorTypes

/-! A request in another spelling, with the cursor that a response to it has. -/

def hotspotsSpelled (request : CrateHotspotsRequest) (name : Text) : CrateHotspotsRequest :=
  {request with crateName := name, cursor := request.cursor.map fun token => {token with crateName := Str.trim name}}

def macrosSpelled (request : CrateDeriveMacrosRequest) (name : Text) : CrateDeriveMacrosRequest :=
  {request with crateName := name}

def errorTypesSpelled (request : CrateErrorTypesRequest) (name : Text) : CrateErrorTypesRequest :=
  {request with crateName := name, cursor := request.cursor.map fun token => {token with crateName := Str.trim name}}

section
variable {C D : Type} [LinearOrder C] {lower : Text → Text} (collate : Text → C) (parseFile : Text → Option (List ItemFn))
  (index : Index lower) (dirs : SourceDirs D) (contents : Contents D) (waited : Waited)

def hotspotsOf (request : CrateHotspotsRequest) : Option (List CrateHotspotHit) :=
  (handleCrateHotspots lower collate index dirs contents waited request).toOption.map CrateHotspotsResponse.hotspots

def macrosOf (request : CrateDeriveMacrosRequest) : Option MacroExports :=
  (handleCrateDeriveMacros collate parseFile index dirs contents waited request).toOption.map CrateDeriveMacrosResponse.macros

def errorTypesOf (request : CrateErrorTypesRequest) : Option (List CrateErrorTypeEntry) :=
  (handleCrateErrorTypes collate index dirs contents waited request).toOption.map CrateErrorTypesResponse.errorTypes

/-- The three tools answer alike, whatever the request asks of the crate. -/
structure SameAnswers (a b : Text) : Prop where
  hotspots : ∀ request, hotspotsOf collate index dirs contents waited (hotspotsSpelled request a) =
    hotspotsOf collate index dirs contents waited (hotspotsSpelled request b)
  macros : ∀ request, macrosOf collate parseFile index dirs contents waited (macrosSpelled request a) =
    macrosOf collate parseFile index dirs contents waited (macrosSpelled request b)
  errorTypes : ∀ request, errorTypesOf collate index dirs contents waited (errorTypesSpelled request a) =
    errorTypesOf collate index dirs contents waited (errorTypesSpelled request b)

end

/-! What the sources are read for. -/

section
variable {C D : Type} [LinearOrder C] {lower : Text → Text} (collate : Text → C) (index : Index lower) (dirs : SourceDirs D)

/-- The version of a request, where the crate is in the index. -/
def selectedVersion (name : Text) (requestedVersion : Option Text) : Option CrateVersionRow :=
  (fetchCrateCoreByName index (Str.trim name)).bind fun crateRow =>
    (fetchLatestCrateVersion index crateRow.id).bind fun latest =>
      (resolveVersionOrLatest index ⟨crateRow,latest⟩ (normalizeOptional requestedVersion)).toOption

/-- The types that a request lists, with their rows. -/
def listedTypes (query : ErrorTypesQuery) (v : CrateVersionRow) : List (Text × ErrorTypeTypeRow) :=
  let typeRows := listErrorTypeRows collate v.id index.types
  (collectErrorTypes (typeByName typeRows) Prod.mk query.pag.offset query.pag.limit 0 []
    (candidateNames query.typeName typeRows (listErrorImplRows v.id index.impls))).take query.pag.limit

/-- A request for the version lists a type with a `Display` impl, whose name is on one line. -/
def ListsDisplay (name : Text) (requestedVersion : Option Text) (v : CrateVersionRow) : Prop :=
  ∃ request query, request.version = requestedVersion ∧ ErrorTypes.readRequest (errorTypesSpelled request name) = .ok query ∧
    ∃ listed ∈ listedTypes collate index query v,
      displayImpls (listErrorImplRows v.id index.impls) listed.1 ≠ [] ∧ '\n' ∉ listed.1

/-- Some tool reads a file of the version. -/
def ReadsSource (name : Text) (requestedVersion : Option Text) (v : CrateVersionRow) : Prop :=
  (∃ row ∈ index.sourceFiles, hotspotFile v.id row = true) ∨ ListsDisplay collate index name requestedVersion v

/-- Both spellings lead to one directory, or to none, for every version of which some tool reads a file. -/
def SameDirectories (a b : Text) : Prop :=
  ∀ requestedVersion v, selectedVersion index a requestedVersion = some v → ReadsSource collate index a requestedVersion v →
    resolveSourceDir dirs (Str.trim a) v.version = resolveSourceDir dirs (Str.trim b) v.version

end

/-! The answers, in either spelling. -/

section
variable {x y : Text}

theorem hotspotsTokenSpelled (token : CrateHotspotsCursorToken) (version pathGlob : Option Text) (includeUnsafe includeConcurrency : Bool) :
    Hotspots.checkToken {token with crateName := x} x version pathGlob includeUnsafe includeConcurrency =
      Hotspots.checkToken {token with crateName := y} y version pathGlob includeUnsafe includeConcurrency := by
  simp only [Hotspots.checkToken,ne_eq,not_true_eq_false,decide_false,Bool.false_or]

theorem errorTypesTokenSpelled (token : CrateErrorTypesCursorToken) (version typeName : Option Text) :
    ErrorTypes.checkToken {token with crateName := x} x version typeName =
      ErrorTypes.checkToken {token with crateName := y} y version typeName := by
  simp only [ErrorTypes.checkToken,ne_eq,not_true_eq_false,decide_false,Bool.false_or]

theorem hotspotsPageSpelled (request : CrateHotspotsRequest) (x y : Text) :
    Hotspots.checkedPage (hotspotsSpelled request x) (Str.trim x) =
      Hotspots.checkedPage (hotspotsSpelled request y) (Str.trim y) := by
  simp only [Hotspots.checkedPage,hotspotsSpelled]
  cases request.cursor with
  | none => rfl
  | some token =>
    simp only [Option.map_some,hotspotsTokenSpelled (x := Str.trim x) (y := Str.trim y)]
    rfl

theorem errorTypesPageSpelled (request : CrateErrorTypesRequest) (x y : Text) :
    ErrorTypes.checkedPage (errorTypesSpelled request x) (Str.trim x) =
      ErrorTypes.checkedPage (errorTypesSpelled request y) (Str.trim y) := by
  simp only [ErrorTypes.checkedPage,errorTypesSpelled]
  cases request.cursor with
  | none => rfl
  | some token => simp only [Option.map_some,errorTypesTokenSpelled (x := Str.trim x) (y := Str.trim y)]

end

section
variable {C D : Type} [LinearOrder C] {lower : Text → Text} (collate : Text → C) (parseFile : Text → Option (List ItemFn))
  (index : Index lower) (dirs : SourceDirs D) (contents : Contents D) (waited : Waited) {name : Text}

def shownHotspots (pag : PaginationParams) (hits : List CrateHotspotHit) : List CrateHotspotHit :=
  ((Ranking.sortBy hotspotOrder hits).drop pag.offset).take pag.limit

theorem pageShown (query : HotspotsQuery) (crateRow : CrateCoreRow) (selected : CrateVersionRow) (scannedFiles : Nat)
    (hits : List CrateHotspotHit) :
    (hotspotsPage query crateRow selected scannedFiles hits).hotspots = shownHotspots query.pag hits := by
  simp only [hotspotsPage,shownHotspots]
  split
  · rw [List.take_take,Nat.min_eq_left (Nat.le_succ _)]
  · rename_i all
    have short : (((Ranking.sortBy hotspotOrder hits).drop query.pag.offset).take (query.pag.limit + 1)).length ≤ query.pag.limit := by
      simpa using all
    rw [← List.take_of_length_le short,List.take_take,Nat.min_eq_left (Nat.le_succ _)]

theorem contextSelected {β : Type} (requestedVersion : Option Text) (next : CrateVersionRow → Option β) :
    ((fetchCrateContext index waited (Str.trim name)).toOption.bind fun ctx =>
      (resolveVersionOrLatest index ctx (normalizeOptional requestedVersion)).toOption.bind next) =
      (selectedVersion index name requestedVersion).bind next := by
  rw [contextOption,selectedVersion]
  cases fetchCrateCoreByName index (Str.trim name) with
  | none => rfl
  | some crateRow =>
    simp only [Option.bind_some]
    cases fetchLatestCrateVersion index crateRow.id <;> rfl

theorem hotspotsRead (named : Str.trim name ≠ []) (request : CrateHotspotsRequest) :
    Hotspots.readRequest (hotspotsSpelled request name) =
      (Hotspots.checkedPage (hotspotsSpelled request name) (Str.trim name)).map fun pag =>
        ⟨Str.trim name,normalizeOptional request.version,normalizeOptional request.pathGlob,request.includeUnsafe.getD true,
          request.includeConcurrency.getD true,pag⟩ := by
  have required := requiredNamed "crate_name".toList named
  rw [Hotspots.readRequest,show (hotspotsSpelled request name).crateName = name from rfl,required]
  rfl

theorem hotspotsAnswer (named : Str.trim name ≠ []) (request : CrateHotspotsRequest) :
    hotspotsOf collate index dirs contents waited (hotspotsSpelled request name) =
      (Hotspots.checkedPage (hotspotsSpelled request name) (Str.trim name)).toOption.bind fun pag =>
        (selectedVersion index name request.version).bind fun v =>
          (listSourceFilePathsForHotspots lower collate v.id ((normalizeOptional request.pathGlob).map pathGlobToLike)
            index.sourceFiles).toOption.map fun paths =>
              shownHotspots pag (scanFiles contents (resolveSourceDir dirs (Str.trim name) v.version)
                (hotspotPatterns (request.includeUnsafe.getD true) (request.includeConcurrency.getD true)) paths) := by
  rw [hotspotsOf,handleCrateHotspots,bindOption,failingOption,hotspotsRead named,mapOption]
  cases (Hotspots.checkedPage (hotspotsSpelled request name) (Str.trim name)).toOption with
  | none => rfl
  | some pag =>
    rw [Option.map_some,Option.bind_some,Option.bind_some,← contextSelected index waited request.version]
    simp only [pure,Except.pure,okOption,bindOption,failingOption,mapErrorOption,mapAfter]
    refine Option.bind_congr fun ctx _ => Option.bind_congr fun v _ => ?_
    exact (Option.bind_congr fun paths _ => congrArg some (pageShown _ _ _ _ _)).trans Option.map_eq_bind.symm

theorem macrosAnswer (named : Str.trim name ≠ []) (request : CrateDeriveMacrosRequest) :
    macrosOf collate parseFile index dirs contents waited (macrosSpelled request name) =
      (selectedVersion index name request.version).bind fun v =>
        (ensureSourceIndexed index dirs waited (Str.trim name) v.version v.id).toOption.map fun _ =>
          mergeExports ((listRustSourceFilePathsForVersion collate v.id index.sourceFiles).filterMap fun path =>
            ((resolveSourceDir dirs (Str.trim name) v.version).bind fun dir => contents dir path).map
              (collectMacroExports parseFile path)) := by
  have required := requiredNamed "crate_name".toList named
  rw [macrosOf,handleCrateDeriveMacros,bindOption,failingOption,show (macrosSpelled request name).crateName = name from rfl,
    required,okOption,Option.bind_some,← contextSelected index waited request.version]
  simp only [pure,Except.pure,okOption,bindOption,mapAfter]
  refine Option.bind_congr fun ctx _ => Option.bind_congr fun v _ => ?_
  exact Option.map_eq_bind.symm

/-- Entries are made of names and rows that are collected in the same way. -/
theorem collectMap {E : Type} (typeRow : Text → Option ErrorTypeTypeRow) (entry : Text → ErrorTypeTypeRow → E)
    (offset limit i : Nat) (listed : List (Text × ErrorTypeTypeRow)) (candidates : List Text) :
    collectErrorTypes typeRow entry offset limit i (listed.map fun l => entry l.1 l.2) candidates =
      (collectErrorTypes typeRow Prod.mk offset limit i listed candidates).map fun l => entry l.1 l.2 := by
  induction candidates generalizing i listed with
  | nil => rfl
  | cons candidate rest ih =>
    simp only [collectErrorTypes,List.length_map]
    split
    · exact ih (i + 1) listed
    · split
      · rfl
      · cases typeRow candidate with
        | none => exact ih (i + 1) listed
        | some row =>
          have grown := ih (i + 1) (listed ++ [(candidate,row)])
          rwa [List.map_append] at grown

theorem errorTypesShown (query : ErrorTypesQuery) (crateRow : CrateCoreRow) (selected : CrateVersionRow)
    (found : List CrateErrorTypeEntry) :
    (errorTypesPage query crateRow selected found).errorTypes = found.take query.pag.limit := by
  simp only [errorTypesPage]
  split
  · rfl
  · rename_i all
    exact (List.take_of_length_le (by simpa using all)).symm

theorem errorTypesRead (named : Str.trim name ≠ []) (request : CrateErrorTypesRequest) :
    ErrorTypes.readRequest (errorTypesSpelled request name) =
      (ErrorTypes.checkedPage (errorTypesSpelled request name) (Str.trim name)).map fun pag =>
        ⟨Str.trim name,normalizeOptional request.version,normalizeOptional request.typeName,pag⟩ := by
  have required := requiredNamed "crate_name".toList named
  rw [ErrorTypes.readRequest,show (errorTypesSpelled request name).crateName = name from rfl,required]
  rfl

theorem errorTypesReadOther {a b : Text} (named : Str.trim a ≠ []) (named' : Str.trim b ≠ []) {request : CrateErrorTypesRequest}
    {query : ErrorTypesQuery} (read : ErrorTypes.readRequest (errorTypesSpelled request a) = .ok query) :
    ErrorTypes.readRequest (errorTypesSpelled request b) = .ok {query with crateName := Str.trim b} := by
  rw [errorTypesRead named] at read
  rw [errorTypesRead named',errorTypesPageSpelled request b a]
  cases checked : ErrorTypes.checkedPage (errorTypesSpelled request a) (Str.trim a) with
  | error message => rw [checked] at read; cases read
  | ok pag => rw [checked] at read; cases read; rfl

theorem errorTypesAnswer (named : Str.trim name ≠ []) (request : CrateErrorTypesRequest) :
    errorTypesOf collate index dirs contents waited (errorTypesSpelled request name) =
      (ErrorTypes.checkedPage (errorTypesSpelled request name) (Str.trim name)).toOption.bind fun pag =>
        (selectedVersion index name request.version).bind fun v =>
          (ensureRustdocIndexed index waited (Str.trim name) v.id).toOption.map fun _ =>
            (listedTypes collate index ⟨Str.trim name,normalizeOptional request.version,normalizeOptional request.typeName,pag⟩ v).map
              fun listed => errorTypeEntry collate index v.id (readOrEmpty dirs contents (Str.trim name) v.version)
                (listErrorImplRows v.id index.impls) listed.1 listed.2 := by
  rw [errorTypesOf,handleCrateErrorTypes,bindOption,failingOption,errorTypesRead named,mapOption]
  cases (ErrorTypes.checkedPage (errorTypesSpelled request name) (Str.trim name)).toOption with
  | none => rfl
  | some pag =>
    rw [Option.map_some,Option.bind_some,Option.bind_some,← contextSelected index waited request.version]
    simp only [pure,Except.pure,okOption,bindOption,mapAfter]
    refine Option.bind_congr fun ctx _ => Option.bind_congr fun v _ => ?_
    refine (Option.bind_congr fun _ _ => congrArg some ?_).trans Option.map_eq_bind.symm
    rw [errorTypesShown,listedTypes,List.map_take]
    exact congrArg (List.take pag.limit) (collectMap _ _ _ _ _ [] _)

/-! Where it makes no difference. -/

theorem hotspotPathsNone (crateVersionId : Nat) (pathLike : Option Text) (rows : List SourceFileRow)
    (absent : ∀ row ∈ rows, hotspotFile crateVersionId row = false) {paths : List Text}
    (listed : listSourceFilePathsForHotspots lower collate crateVersionId pathLike rows = .ok paths) : paths = [] := by
  rw [listSourceFilePathsForHotspots] at listed
  cases selected : matchesPath lower pathLike with
  | error message => rw [selected] at listed; cases listed
  | ok selects =>
    rw [selected] at listed
    have none_ : rows.filter (fun row => hotspotFile crateVersionId row && selects row.path) = [] :=
      List.filter_eq_nil_iff.mpr fun row mem => by simp [absent row mem]
    change Except.ok _ = Except.ok paths at listed
    cases listed
    rw [none_]
    rfl

theorem rustPathsNone (crateVersionId : Nat) (rows : List SourceFileRow)
    (absent : ∀ row ∈ rows, hotspotFile crateVersionId row = false) :
    listRustSourceFilePathsForVersion collate crateVersionId rows = [] := by
  have none_ : rows.filter (fun row => row.crateVersionId = crateVersionId && row.language = some "rust".toList) = [] := by
    refine List.filter_eq_nil_iff.mpr fun row mem rust => ?_
    simp only [Bool.and_eq_true,decide_eq_true_eq] at rust
    have other : some "rust".toList ≠ some "rustdoc_json".toList := by decide
    have scanned := absent row mem
    simp only [hotspotFile,rust.1,rust.2,decide_true,Bool.true_and,decide_eq_false_iff_not,not_not] at scanned
    exact other scanned
  rw [listRustSourceFilePathsForVersion,none_]
  rfl

theorem opensDisplayName {typeName line : Text} (opens : opensDisplay typeName line = true) : typeName <:+: line := by
  simp only [opensDisplay,Bool.and_eq_true] at opens
  exact (Str.containsIff.mp opens.2).trans (Str.trimInfix line)

theorem extractBroken (content : Text) {typeName : Text} (broken : '\n' ∈ typeName) : extractDisplayPatterns content typeName = [] := by
  have none_ : ((Str.lines content).zipIdx.filter fun numbered => opensDisplay typeName numbered.1) = [] := by
    refine List.filter_eq_nil_iff.mpr fun numbered mem opens => ?_
    exact Str.linesClean (List.fst_mem_of_mem_zipIdx mem) ((opensDisplayName opens).subset broken)
  simp only [extractDisplayPatterns,none_]
  rfl

theorem patternsSame {implRows : List ErrorTypeImplRow} {candidate : Text} (read other : Text → Text)
    (idle : displayImpls implRows candidate = [] ∨ '\n' ∈ candidate) :
    displayPatterns read implRows candidate = displayPatterns other implRows candidate := by
  rcases idle with absent | broken
  · simp only [displayPatterns,absent,List.flatMap_nil]
  · simp only [displayPatterns,extractBroken _ broken]

theorem blankAnswers (blank : Str.trim name = []) :
    (∀ request, hotspotsOf collate index dirs contents waited (hotspotsSpelled request name) = none) ∧
    (∀ request, macrosOf collate parseFile index dirs contents waited (macrosSpelled request name) = none) ∧
    ∀ request, errorTypesOf collate index dirs contents waited (errorTypesSpelled request name) = none := by
  have required : ∃ message, normalizeRequired name "crate_name".toList = .error message := ⟨_,if_pos blank⟩
  obtain ⟨message,refused⟩ := required
  refine ⟨fun request => ?_,fun request => ?_,fun request => ?_⟩
  · rw [hotspotsOf,handleCrateHotspots,Hotspots.readRequest,show (hotspotsSpelled request name).crateName = name from rfl,refused]
    rfl
  · rw [macrosOf,handleCrateDeriveMacros,show (macrosSpelled request name).crateName = name from rfl,refused]
    rfl
  · rw [errorTypesOf,handleCrateErrorTypes,ErrorTypes.readRequest,show (errorTypesSpelled request name).crateName = name from rfl,
      refused]
    rfl

theorem selectedSpelled {a b : Text} (same : lower (Str.trim a) = lower (Str.trim b)) (requestedVersion : Option Text) :
    selectedVersion index a requestedVersion = selectedVersion index b requestedVersion := by
  have row : fetchCrateCoreByName index (Str.trim a) = fetchCrateCoreByName index (Str.trim b) := by
    rw [fetchCrateCoreByName,same]
    rfl
  rw [selectedVersion,selectedVersion,row]

theorem unscanned {name : Text} {requestedVersion : Option Text} {v : CrateVersionRow}
    (reads : ¬ ReadsSource collate index name requestedVersion v) : ∀ row ∈ index.sourceFiles, hotspotFile v.id row = false := by
  intro row mem
  by_contra scanned
  exact reads (Or.inl ⟨row,mem,by simpa using scanned⟩)

/-- Directories that are the same, or that nothing is read from, make no difference. -/
theorem sameAnswers {a b : Text} (named : Str.trim a ≠ []) (named' : Str.trim b ≠ [])
    (same : lower (Str.trim a) = lower (Str.trim b)) (alike : SameDirectories collate index dirs a b) :
    SameAnswers collate parseFile index dirs contents waited a b where
  hotspots := fun request => by
    rw [hotspotsAnswer collate index dirs contents waited named,hotspotsAnswer collate index dirs contents waited named',
      hotspotsPageSpelled request a b,selectedSpelled index same]
    refine Option.bind_congr fun pag _ => Option.bind_congr fun v selected => ?_
    by_cases reads : ReadsSource collate index a request.version v
    · rw [alike request.version v ((selectedSpelled index same _).trans selected) reads]
    · have absent := unscanned collate index reads
      cases listed : listSourceFilePathsForHotspots lower collate v.id ((normalizeOptional request.pathGlob).map pathGlobToLike)
          index.sourceFiles with
      | error message => rfl
      | ok paths => rw [hotspotPathsNone collate v.id _ _ absent listed]; rfl
  macros := fun request => by
    rw [macrosAnswer collate parseFile index dirs contents waited named,
      macrosAnswer collate parseFile index dirs contents waited named',selectedSpelled index same]
    refine Option.bind_congr fun v selected => ?_
    by_cases reads : ReadsSource collate index a request.version v
    · rw [alike request.version v ((selectedSpelled index same _).trans selected) reads,
        ensureSourceOption index waited dirs (Str.trim a) (Str.trim b)]
    · have absent := unscanned collate index reads
      rw [rustPathsNone collate v.id _ absent,ensureSourceOption index waited dirs (Str.trim a) (Str.trim b)]
      rfl
  errorTypes := fun request => by
    rw [errorTypesAnswer collate index dirs contents waited named,errorTypesAnswer collate index dirs contents waited named',
      errorTypesPageSpelled request a b,selectedSpelled index same]
    refine Option.bind_congr fun pag paged => Option.bind_congr fun v selected => ?_
    rw [ensureRustdocOption index waited (Str.trim a) (Str.trim b)]
    refine congrArg (fun entries => Option.map (fun _ => entries) _) (List.map_congr_left fun listed mem => ?_)
    have read : ErrorTypes.readRequest (errorTypesSpelled request a) = .ok ⟨Str.trim a,normalizeOptional request.version,
        normalizeOptional request.typeName,pag⟩ := by
      rw [errorTypesRead named,errorTypesPageSpelled request a b,okOfOption paged]
      rfl
    rw [errorTypeEntry,errorTypeEntry]
    refine congrArg (fun patterns => CrateErrorTypeEntry.mk _ _ _ _ patterns _ _ _ _) ?_
    by_cases reads : ReadsSource collate index a request.version v
    · have dir := alike request.version v ((selectedSpelled index same _).trans selected) reads
      have read : readOrEmpty dirs contents (Str.trim a) v.version = readOrEmpty dirs contents (Str.trim b) v.version := by
        funext path
        rw [readOrEmpty,readOrEmpty,readSourceFileFromDiskOrCache,readSourceFileFromDiskOrCache,dir]
      rw [read]
    · refine patternsSame _ _ (or_iff_not_imp_left.mpr fun shows => ?_)
      by_contra single
      exact reads (Or.inr ⟨request,_,rfl,read,listed,mem,shows,single⟩)

end

/-! Where it makes a difference. -/

section
variable {C D : Type} [LinearOrder C] {lower : Text → Text} (collate : Text → C) (parseFile : Text → Option (List ItemFn))
  (index : Index lower) (dirs : SourceDirs D) {name : Text}

open Classical in
/-- Files that all have the same text, in one directory. -/
noncomputable def only (dir : D) (text : Text) : Contents D := fun d _ => if d = dir then some text else none

theorem onlyThere (dir : D) (text path : Text) : ((some dir).bind fun d => only dir text d path) = some text := if_pos rfl

theorem onlyElsewhere {dir : D} {other : Option D} (differ : other ≠ some dir) (text path : Text) :
    (other.bind fun d => only dir text d path) = none := by
  cases other with
  | none => rfl
  | some d => exact if_neg fun same => differ (congrArg some same)

theorem detectUnsafe (path : Text) : detectHotspotsInFile path "unsafe".toList (hotspotPatterns true true) =
    [⟨path,1,.unsafeCode,"unsafe".toList,.high,"unsafe".toList⟩] := rfl

theorem scanThere (dir : D) {paths : List Text} (some_ : paths ≠ []) :
    scanFiles (only dir "unsafe".toList) (some dir) (hotspotPatterns true true) paths ≠ [] := by
  cases paths with
  | nil => exact absurd rfl some_
  | cons path paths =>
    rw [scanFiles,List.flatMap_cons]
    simp only [onlyThere,detectUnsafe]
    exact List.cons_ne_nil _ _

theorem scanElsewhere {dir : D} {other : Option D} (differ : other ≠ some dir) (patterns : List HotspotPattern)
    (paths : List Text) : scanFiles (only dir "unsafe".toList) other patterns paths = [] := by
  simp only [scanFiles,onlyElsewhere differ,List.flatMap_eq_nil_iff,implies_true]

/-- What an impl of `name` looks like that writes `zq`. -/
def displayText (name : Text) : Text := "write!(\"zq\") impl Display ".toList ++ name ++ ".".toList

theorem displayTextTrimmed (name : Text) : Str.trim (displayText name) = displayText name := by
  have start : Str.trimStart (displayText name) = displayText name := Str.trimStartKept (c := 'w') (by decide) _
  rw [Str.trim,start]
  exact Str.trimEndAppend (c := '.') (by decide) _ []

theorem displayTextLines {name : Text} (single : '\n' ∉ name) : Str.lines (displayText name) = [displayText name] := by
  refine Str.linesSingle (List.append_ne_nil_of_right_ne_nil _ (by decide)) fun broken => ?_
  have fixed : '\n' ∉ "write!(\"zq\") impl Display ".toList := by decide
  have ended : '\n' ∉ ".".toList := by decide
  rcases List.mem_append.mp broken with front | last
  · exact (List.mem_append.mp front).elim fixed single
  · exact ended last

theorem displayTextOpens (name : Text) : opensDisplay name (displayText name) = true := by
  simp only [opensDisplay,displayTextTrimmed,Bool.and_eq_true,Str.containsIff]
  refine ⟨⟨⟨"write!(\"zq\") ".toList," Display ".toList ++ name ++ ".".toList,?_⟩,
    ⟨"write!(\"zq\") impl ".toList," ".toList ++ name ++ ".".toList,?_⟩⟩,⟨_,".".toList,rfl⟩⟩
  · rfl
  · rfl

theorem displayTextWrites (name : Text) : writtenText (displayText name) = some "zq".toList := by
  have writes : Str.contains "write!(".toList (displayText name) = true :=
    Str.containsIff.mpr ⟨[],"\"zq\") impl Display ".toList ++ name ++ ".".toList,rfl⟩
  have opening : Str.splitOnce '"' (displayText name) =
      some ("write!(".toList,"zq\") impl Display ".toList ++ name ++ ".".toList) :=
    Str.splitOnceAppend (show '"' ∉ "write!(".toList by decide) _
  have closing : Str.splitOnce '"' ("zq\") impl Display ".toList ++ name ++ ".".toList) =
      some ("zq".toList,") impl Display ".toList ++ name ++ ".".toList) :=
    Str.splitOnceAppend (show '"' ∉ "zq".toList by decide) _
  rw [writtenText,displayTextTrimmed,if_pos writes,quotedText,opening]
  simp only [bind,Option.bind_some,closing]
  rfl

theorem displayTextWritten {name : Text} (single : '\n' ∉ name) : "zq".toList ∈ extractDisplayPatterns (displayText name) name := by
  rw [extractDisplayPatterns,displayTextLines single,memOrdered]
  refine List.mem_flatMap.mpr ⟨(displayText name,0),?_,?_⟩
  · exact List.mem_filter.mpr ⟨List.mem_singleton.mpr rfl,displayTextOpens name⟩
  · exact List.mem_filterMap.mpr ⟨displayText name,List.mem_singleton.mpr rfl,displayTextWrites name⟩

theorem patternsThere {implRows : List ErrorTypeImplRow} {candidate : Text} (shows : displayImpls implRows candidate ≠ [])
    (single : '\n' ∉ candidate) {read : Text → Text} (reads : ∀ path, read path = displayText candidate) :
    "zq".toList ∈ displayPatterns read implRows candidate := by
  obtain ⟨row,mem⟩ := List.exists_mem_of_ne_nil _ shows
  have found : "zq".toList ∈ ordered ((displayImpls implRows candidate).flatMap fun row =>
      extractDisplayPatterns (read row.sourcePath) candidate) :=
    memOrdered.mpr (List.mem_flatMap.mpr ⟨row,mem,by rw [reads]; exact displayTextWritten single⟩)
  rw [displayPatterns]
  split
  · rename_i empty
    rw [Bool.and_eq_true,List.isEmpty_iff] at empty
    rw [empty.1] at found
    exact absurd found List.not_mem_nil
  · exact found

theorem patternsElsewhere {implRows : List ErrorTypeImplRow} {candidate : Text} {read : Text → Text}
    (reads : ∀ path, read path = []) : "zq".toList ∉ displayPatterns read implRows candidate := by
  have nothing : extractDisplayPatterns [] candidate = [] := rfl
  have found : ((displayImpls implRows candidate).flatMap fun row => extractDisplayPatterns (read row.sourcePath) candidate) = [] :=
    List.flatMap_eq_nil_iff.mpr fun row _ => by rw [reads,nothing]
  simp only [displayPatterns,found]
  split
  · decide
  · exact List.not_mem_nil

theorem hotspotPathsSome (lower : Text → Text) (collate : Text → C) {crateVersionId : Nat} {rows : List SourceFileRow}
    {row : SourceFileRow} (mem : row ∈ rows) (scanned : hotspotFile crateVersionId row = true) :
    ∃ paths, listSourceFilePathsForHotspots lower collate crateVersionId none rows = .ok paths ∧ paths ≠ [] := by
  refine ⟨_,rfl,fun none_ => ?_⟩
  have there : row ∈ Ranking.sortBy (fun row => collate row.path) (rows.filter fun row => hotspotFile crateVersionId row && true) :=
    Ranking.memSortBy.mpr (List.mem_filter.mpr ⟨mem,by simpa using scanned⟩)
  rcases List.take_eq_nil_iff.mp (List.map_eq_nil_iff.mp none_) with cut | empty
  · exact absurd cut (by decide)
  · rw [empty] at there
    exact List.not_mem_nil there

theorem shownSome {hits : List CrateHotspotHit} (some_ : hits ≠ []) {limit : Nat} (room : limit ≠ 0) (page : Nat) :
    shownHotspots ⟨0,limit,page⟩ hits ≠ [] := by
  intro none_
  rcases List.take_eq_nil_iff.mp none_ with cut | empty
  · exact room cut
  · have perm := (Ranking.sortByPerm hotspotOrder hits).symm
    rw [List.drop_zero] at empty
    rw [empty] at perm
    exact some_ perm.eq_nil

/-- A file that is scanned for hotspots tells which directory it is read from. -/
theorem hotspotsTell {a b : Text} {requestedVersion : Option Text} {v : CrateVersionRow} (named : Str.trim a ≠ [])
    (named' : Str.trim b ≠ []) (selected : selectedVersion index a requestedVersion = some v)
    (selected' : selectedVersion index b requestedVersion = some v) {row : SourceFileRow} (mem : row ∈ index.sourceFiles)
    (scanned : hotspotFile v.id row = true) {dir : D}
    (same : ∀ request, hotspotsOf collate index dirs (only dir "unsafe".toList) (fun _ => none) (hotspotsSpelled request a) =
      hotspotsOf collate index dirs (only dir "unsafe".toList) (fun _ => none) (hotspotsSpelled request b))
    (there : resolveSourceDir dirs (Str.trim a) v.version = some dir) :
    resolveSourceDir dirs (Str.trim b) v.version = some dir := by
  by_contra elsewhere
  obtain ⟨paths,listed,some_⟩ := hotspotPathsSome lower collate mem scanned
  have shown := same ⟨[],requestedVersion,none,none,none,none,none,none⟩
  have page : ∀ name, Hotspots.checkedPage (hotspotsSpelled ⟨[],requestedVersion,none,none,none,none,none,none⟩ name)
      (Str.trim name) = .ok ⟨0,100,1⟩ := fun _ => rfl
  have glob : (normalizeOptional none).map pathGlobToLike = none := rfl
  rw [hotspotsAnswer collate index dirs _ _ named,hotspotsAnswer collate index dirs _ _ named',page,page,okOption,
    Option.bind_some,Option.bind_some,selected,selected',Option.bind_some,Option.bind_some,glob,listed,okOption,Option.map_some,
    Option.map_some,there,scanElsewhere elsewhere] at shown
  exact shownSome (scanThere dir some_) (by decide) 1 (Option.some.inj shown)

theorem errorTypesTell {a b : Text} {requestedVersion : Option Text} {v : CrateVersionRow} (named : Str.trim a ≠ [])
    (named' : Str.trim b ≠ []) (selected : selectedVersion index a requestedVersion = some v)
    (selected' : selectedVersion index b requestedVersion = some v) {request : CrateErrorTypesRequest} {query : ErrorTypesQuery}
    (own : request.version = requestedVersion) (read : ErrorTypes.readRequest (errorTypesSpelled request a) = .ok query)
    {listed : Text × ErrorTypeTypeRow} (mem : listed ∈ listedTypes collate index query v)
    (shows : displayImpls (listErrorImplRows v.id index.impls) listed.1 ≠ []) (single : '\n' ∉ listed.1) {dir : D}
    (same : errorTypesOf collate index dirs (only dir (displayText listed.1)) (fun _ => some .completed) (errorTypesSpelled request a) =
      errorTypesOf collate index dirs (only dir (displayText listed.1)) (fun _ => some .completed) (errorTypesSpelled request b))
    (there : resolveSourceDir dirs (Str.trim a) v.version = some dir) :
    resolveSourceDir dirs (Str.trim b) v.version = some dir := by
  by_contra elsewhere
  subst own
  rw [errorTypesRead named] at read
  cases checked : ErrorTypes.checkedPage (errorTypesSpelled request a) (Str.trim a) with
  | error message => rw [checked] at read; cases read
  | ok pag =>
    rw [checked] at read
    cases read
    have indexed : ∀ name, ensureRustdocIndexed index (fun _ => some .completed) name v.id = .ok () := fun _ =>
      if_pos (Bool.or_true _)
    rw [errorTypesAnswer collate index dirs _ _ named,errorTypesAnswer collate index dirs _ _ named',
      errorTypesPageSpelled request b a,checked,okOption,Option.bind_some,Option.bind_some,selected,selected',Option.bind_some,
      Option.bind_some,indexed,indexed,okOption,Option.map_some,Option.map_some] at same
    have entry := List.map_inj_left.mp (Option.some.inj same) listed mem
    have patterns : displayPatterns (readOrEmpty dirs (only dir (displayText listed.1)) (Str.trim a) v.version)
        (listErrorImplRows v.id index.impls) listed.1 =
      displayPatterns (readOrEmpty dirs (only dir (displayText listed.1)) (Str.trim b) v.version)
        (listErrorImplRows v.id index.impls) listed.1 := congrArg CrateErrorTypeEntry.displayPatterns entry
    have full : ∀ path, readOrEmpty dirs (only dir (displayText listed.1)) (Str.trim a) v.version path = displayText listed.1 :=
      fun path => by
        rw [readOrEmpty,readSourceFileFromDiskOrCache,there,onlyThere]
        rfl
    have written := patternsThere shows single full
    rw [patterns] at written
    have empty : ∀ path, readOrEmpty dirs (only dir (displayText listed.1)) (Str.trim b) v.version path = [] := fun path => by
      rw [readOrEmpty,readSourceFileFromDiskOrCache,onlyElsewhere elsewhere]
      rfl
    exact patternsElsewhere empty written

end

def inflector : Index Str.toAsciiLowercase where
  crates := ⟨[⟨1,"Inflector".toList⟩],by decide⟩
  versions := [⟨7,1,"0.11.4".toList,some 5⟩]
  sourceFiles := [⟨7,"src/lib.rs".toList,some "rust".toList⟩]
  symbols := []
  types := []
  impls := []

/-- A download cache on a file system whose names are not case sensitive. -/
def foldedCache : SourceDirs Nat :=
  ⟨[],fun name => if Str.toAsciiLowercase name = "inflector-0.11.4".toList then some 0 else none⟩

theorem foldedSame {x y : Text} (same : Str.toAsciiLowercase x = Str.toAsciiLowercase y) (version : Text) :
    resolveSourceDir foldedCache x version = resolveSourceDir foldedCache y version := by
  have target : Str.toAsciiLowercase (x ++ "-".toList ++ version) = Str.toAsciiLowercase (y ++ "-".toList ++ version) := by
    simp only [Str.toAsciiLowercase,List.map_append] at same ⊢
    rw [same]
  simp only [resolveSourceDir,foldedCache,target,List.findSome?_nil]

def inflectorFiles : Contents Nat := fun _ path => if path = "src/lib.rs".toList then some "unsafe fn f() \x7b\x7d\n".toList else none

/-- A registry whose directory has the name as it is stored. -/
def inflectorRegistry : SourceDirs Nat :=
  ⟨[⟨true,fun name => if name = "Inflector-0.11.4".toList then some 0 else none⟩],fun _ => none⟩

def hotspotsRequest (crateName : Text) : CrateHotspotsRequest := ⟨crateName,none,none,none,none,none,none,none⟩

end RustMcp.Spellings
