import RustMcp.Queries
import RustMcp.Worklist

/-! `dependency_feature_impact`: the optional dependencies that a feature brings in, as
the closure over the indexed feature table finds them and as Cargo activates them. -/
namespace RustMcp.FeatureImpact
open Str (Text)
open Utils Queries

structure FeatureImpactFeatureRow where
  crateVersionId : Nat
  featureName : Text
  enables : Value

structure FeatureImpactDependencyRow where
  fromVersionId : Nat
  dependencyName : Text
  optional : Bool

def listCrateFeaturesForVersion (crateVersionId : Nat) (rows : List FeatureImpactFeatureRow) :
    List FeatureImpactFeatureRow :=
  Ranking.sortBy (·.featureName) (rows.filter fun row => row.crateVersionId = crateVersionId)

def listFeatureImpactDependenciesForVersion (crateVersionId : Nat) (rows : List FeatureImpactDependencyRow) :
    List FeatureImpactDependencyRow :=
  rows.filter fun row => row.fromVersionId = crateVersionId

def asStr : Value → Option Text
  | .text value => some value
  | _ => none

def valueToStringVec : Value → List Text
  | .array items => items.filterMap asStr
  | _ => []

/-! The closure. -/

def depPrefix : Text := "dep:".toList

def depTarget (value : Text) : Option Text := (Str.stripPrefix depPrefix value).map Str.trim

def splitFeatureTargets (values : List Text) : List Text × List Text :=
  let trimmed := (values.map Str.trim).filter (· ≠ [])
  (ordered (trimmed.filter fun value => depTarget value = none),ordered ((trimmed.filterMap depTarget).filter (· ≠ [])))

section
variable (rows : List FeatureImpactFeatureRow)

/-- What the hash maps hold of a feature: the last row inserted for it. -/
def featureRow (feature : Text) : Option FeatureImpactFeatureRow :=
  (rows.filter fun row => row.featureName = feature).getLast?

def enablesOf (feature : Text) : List Text :=
  ((featureRow rows feature).map fun row => valueToStringVec row.enables).getD []

def featureToFeatures (feature : Text) : List Text := (splitFeatureTargets (enablesOf rows feature)).1

def featureToDependencies (feature : Text) : List Text := (splitFeatureTargets (enablesOf rows feature)).2

def expandFeatureDependencies (roots : List Text) : List Text :=
  ordered ((Worklist.reachable (featureToFeatures rows) (rows.map (·.featureName)) roots).flatMap (featureToDependencies rows))

end

/-! The handler. -/

structure DependencyFeatureImpactRequest where
  crateName : Text
  version : Option Text
  features : List Text
  heavyThreshold : Option Nat

structure DependencyFeatureImpactEntry where
  feature : Text
  additionalDependencyCount : Nat
  additionalDependencies : List Text
  deriving DecidableEq

inductive ConfidenceLevel where
  | medium
  | high
  deriving DecidableEq

structure ConfidenceAssessment where
  level : ConfidenceLevel
  reason : Text
  deriving DecidableEq

/-- The response shows the version of the rows that are used. -/
structure DependencyFeatureImpactResponse where
  crateName : Text
  selectedVersion : CrateVersionRow
  latestVersion : CrateVersionRow
  features : List Text
  heavyThreshold : Nat
  baselineDependencyCount : Nat
  combinedDependencyCount : Nat
  perFeature : List DependencyFeatureImpactEntry
  heavyFeatures : List Text
  confidenceAssessment : ConfidenceAssessment
  deriving DecidableEq

def allDependencies (deps : List FeatureImpactDependencyRow) : List Text := ordered (deps.map (·.dependencyName))

def baselineDependencies (deps : List FeatureImpactDependencyRow) : List Text :=
  ordered ((deps.filter fun row => !row.optional).map (·.dependencyName))

section
variable (rows : List FeatureImpactFeatureRow) (deps : List FeatureImpactDependencyRow)

def additionalDependencies (feature : Text) : List Text :=
  (expandFeatureDependencies rows [feature]).filter fun dep =>
    (allDependencies deps).contains dep && !(baselineDependencies deps).contains dep

def impactEntry (feature : Text) : DependencyFeatureImpactEntry :=
  ⟨feature,(additionalDependencies rows deps feature).length,additionalDependencies rows deps feature⟩

end

def assessImpact (perFeature : List DependencyFeatureImpactEntry) : ConfidenceAssessment :=
  if perFeature.all (·.additionalDependencyCount = 0) then
    ⟨.medium,"feature enables were resolved but no additional indexed dependencies were detected".toList⟩
  else ⟨.high,"feature impact computed from indexed feature metadata and dependency edges".toList⟩

section
variable {lower : Text → Text} (index : Index lower) (waited : Waited)

def handleDependencyFeatureImpact (featureRows : List FeatureImpactFeatureRow)
    (dependencyRows : List FeatureImpactDependencyRow) (request : DependencyFeatureImpactRequest) :
    Reply DependencyFeatureImpactResponse := do
  let crateName ← failing (normalizeRequired request.crateName "crate_name".toList)
  let requestedVersion := normalizeOptional request.version
  let heavyThreshold := featureImpactHeavyThreshold request.heavyThreshold
  let features := dedupeStrings request.features
  if features = [] then
    .error (.fails "features must include at least one non-empty feature name".toList)
  else
    let ctx ← fetchCrateContext index waited crateName
    let selectedVersion ← resolveVersionOrLatest index ctx requestedVersion
    let rows := listCrateFeaturesForVersion selectedVersion.id featureRows
    let deps := listFeatureImpactDependenciesForVersion selectedVersion.id dependencyRows
    let perFeature := features.map (impactEntry rows deps)
    let baselineCount := (baselineDependencies deps).length
    .ok {
      crateName := ctx.crateRow.name
      selectedVersion := selectedVersion
      latestVersion := ctx.latestVersion
      features := features
      heavyThreshold := heavyThreshold
      baselineDependencyCount := baselineCount
      combinedDependencyCount := baselineCount + (ordered (perFeature.flatMap (·.additionalDependencies))).length
      perFeature := perFeature
      heavyFeatures :=
        (perFeature.filter fun entry => u32 entry.additionalDependencyCount ≥ heavyThreshold).map (·.feature)
      confidenceAssessment := assessImpact perFeature}

end

/-! What Cargo activates. -/

/-- An entry of a feature, with blanks around it left out. -/
inductive FeatureValue where
  | feature (name : Text)
  | dep (name : Text)
  | depFeature (name feature : Text) (weak : Bool)
  deriving DecidableEq

/-- A blank entry says nothing, nor does `dep:` without a name. -/
def FeatureValue.read (entry : Text) : Option FeatureValue :=
  let value := Str.trim entry
  if value = [] then none
  else match depTarget value with
    | some name => if name = [] then none else some (.dep name)
    | none =>
        match Str.splitOnce '/' value with
        | some (name,own) =>
            match Str.stripSuffix ['?'] name with
            | some name => some (.depFeature name own true)
            | none => some (.depFeature name own false)
        | none => some (.feature value)

def featureValues (rows : List FeatureImpactFeatureRow) (feature : Text) : List FeatureValue :=
  (enablesOf rows feature).filterMap FeatureValue.read

/-- Optional wherever it is listed. -/
def Extra (deps : List FeatureImpactDependencyRow) (d : Text) : Prop :=
  (∃ row ∈ deps, row.dependencyName = d) ∧ ∀ row ∈ deps, row.dependencyName = d → row.optional = true

instance (deps : List FeatureImpactDependencyRow) (d : Text) : Decidable (Extra deps d) :=
  inferInstanceAs (Decidable (_ ∧ _))

/-- The features that a requested one turns on. Whether `d/f` also turns on a feature
that bears the name of the optional dependency `d`, as Cargo has it, is left open. -/
inductive Enabled (also : Bool) (rows : List FeatureImpactFeatureRow) (deps : List FeatureImpactDependencyRow)
    (requested : Text) : Text → Prop where
  | requested : Enabled also rows deps requested requested
  | entry {f g : Text} (on : Enabled also rows deps requested f) (named : .feature g ∈ featureValues rows f) :
      Enabled also rows deps requested g
  | slash {f d x : Text} (on : Enabled also rows deps requested f)
      (named : .depFeature d x false ∈ featureValues rows f) (both : also = true) (extra : Extra deps d) :
      Enabled also rows deps requested d

/-- Activated by `dep:d` or `d/f` of a feature that is turned on, or by the bare name of a
dependency without a feature of its name. -/
inductive Activated (also : Bool) (rows : List FeatureImpactFeatureRow) (deps : List FeatureImpactDependencyRow)
    (requested : Text) (d : Text) : Prop where
  | dep {f : Text} (on : Enabled also rows deps requested f) (named : .dep d ∈ featureValues rows f)
  | slash {f x : Text} (on : Enabled also rows deps requested f) (named : .depFeature d x false ∈ featureValues rows f)
  | bare (on : Enabled also rows deps requested d) (implicit : featureRow rows d = none)

def Exact (also : Bool) (rows : List FeatureImpactFeatureRow) (deps : List FeatureImpactDependencyRow)
    (entry : DependencyFeatureImpactEntry) : Prop :=
  ∀ d, d ∈ entry.additionalDependencies ↔ Extra deps d ∧ Activated also rows deps entry.feature d

/-! What the closure takes for features: every entry that does not begin with `dep:`. -/

section
variable (rows : List FeatureImpactFeatureRow) (deps : List FeatureImpactDependencyRow)

def TakenFrom (a b : Text) : Prop := ∃ entry ∈ enablesOf rows a, Str.trim entry = b ∧ b ≠ [] ∧ depTarget b = none

def Taken (requested f : Text) : Prop := Relation.ReflTransGen (TakenFrom rows) requested f

def Listed (requested d : Text) : Prop := ∃ f, Taken rows requested f ∧ .dep d ∈ featureValues rows f

/-- Every optional dependency that is activated otherwise is also listed with `dep:`. The
last two fields are about tables in which an entry with a slash is a feature's name, and
about the features that only such an entry turns on. -/
structure Covered (also : Bool) (requested : Text) : Prop where
  slash : ∀ f d x, Enabled also rows deps requested f → .depFeature d x false ∈ featureValues rows f → Extra deps d →
    Listed rows requested d
  bare : ∀ d, Enabled also rows deps requested d → featureRow rows d = none → Extra deps d → Listed rows requested d
  through : ∀ f d, Enabled also rows deps requested f → ¬Taken rows requested f → .dep d ∈ featureValues rows f →
    Extra deps d → Listed rows requested d
  names : ∀ f d, Taken rows requested f → ¬Enabled also rows deps requested f → .dep d ∈ featureValues rows f →
    Extra deps d → Activated also rows deps requested d

end

section
variable {rows : List FeatureImpactFeatureRow} {deps : List FeatureImpactDependencyRow} {also : Bool}
  {requested feature d f a b : Text}

theorem memFeatureToFeatures : b ∈ featureToFeatures rows a ↔ TakenFrom rows a b := by
  simp only [featureToFeatures,splitFeatureTargets,memOrdered,List.mem_filter,List.mem_map,decide_eq_true_eq,TakenFrom]
  constructor
  · rintro ⟨⟨⟨entry,mem,rfl⟩,some_⟩,kind⟩
    exact ⟨entry,mem,rfl,some_,kind⟩
  · rintro ⟨entry,mem,rfl,some_,kind⟩
    exact ⟨⟨⟨entry,mem,rfl⟩,some_⟩,kind⟩

theorem readDep {entry : Text} :
    FeatureValue.read entry = some (.dep d) ↔ Str.trim entry ≠ [] ∧ depTarget (Str.trim entry) = some d ∧ d ≠ [] := by
  unfold FeatureValue.read
  dsimp only
  split
  · rename_i blank
    simp [blank]
  · rename_i some_
    split
    · rename_i name target
      by_cases empty : name = []
      · subst empty
        simp only [if_pos trivial,target,Option.some.injEq]
        constructor
        · intro h; contradiction
        · rintro ⟨_,rfl,some_⟩; exact absurd rfl some_
      · simp only [if_neg empty,target,Option.some.injEq,FeatureValue.dep.injEq]
        constructor
        · rintro rfl; exact ⟨some_,rfl,empty⟩
        · rintro ⟨_,same,_⟩; exact same
    · rename_i target
      simp only [target]
      split
      · split <;> simp
      · simp

theorem memFeatureToDependencies : d ∈ featureToDependencies rows f ↔ .dep d ∈ featureValues rows f := by
  simp only [featureToDependencies,splitFeatureTargets,memOrdered,List.mem_filter,List.mem_filterMap,List.mem_map,
    decide_eq_true_eq,featureValues]
  constructor
  · rintro ⟨⟨_,⟨⟨entry,mem,rfl⟩,some_⟩,target⟩,name⟩
    exact ⟨entry,mem,readDep.mpr ⟨some_,target,name⟩⟩
  · rintro ⟨entry,mem,read⟩
    obtain ⟨some_,target,name⟩ := readDep.mp read
    exact ⟨⟨_,⟨⟨entry,mem,rfl⟩,some_⟩,target⟩,name⟩

theorem unknownFeature (unknown : f ∉ rows.map (·.featureName)) : featureToFeatures rows f = [] := by
  have none : rows.filter (fun row => row.featureName = f) = [] := by
    rw [List.filter_eq_nil_iff]
    exact fun row mem same => unknown (List.mem_map.mpr ⟨row,mem,of_decide_eq_true same⟩)
  rw [featureToFeatures,enablesOf,featureRow,none]
  rfl

theorem memExpand : d ∈ expandFeatureDependencies rows [requested] ↔ Listed rows requested d := by
  rw [expandFeatureDependencies,memOrdered,List.mem_flatMap,Listed]
  refine exists_congr fun f => ?_
  rw [Worklist.memReachable fun _ => unknownFeature,memFeatureToDependencies]
  simp only [List.mem_singleton,exists_eq_left,Worklist.Leads,memFeatureToFeatures,Taken]

theorem extraIff : Extra deps d ↔ d ∈ allDependencies deps ∧ d ∉ baselineDependencies deps := by
  simp only [Extra,allDependencies,baselineDependencies,memOrdered,List.mem_map,List.mem_filter,Bool.not_eq_true',not_exists,
    not_and]
  refine and_congr_right fun _ => forall_congr' fun row => ?_
  constructor
  · rintro optional ⟨mem,required⟩ rfl
    rw [optional mem rfl] at required
    contradiction
  · intro other mem same
    by_contra required
    exact other ⟨mem,Bool.eq_false_iff.mpr required⟩ same

theorem memAdditional :
    d ∈ additionalDependencies rows deps requested ↔ Extra deps d ∧ Listed rows requested d := by
  rw [additionalDependencies,List.mem_filter,memExpand,Bool.and_eq_true,List.contains_iff_mem,extraIff,and_comm]
  simp

/-- The reported dependencies are those that Cargo activates, exactly where all of them are listed. -/
theorem exactIff : Exact also rows deps (impactEntry rows deps requested) ↔ Covered rows deps also requested := by
  simp only [Exact,impactEntry,memAdditional]
  constructor
  · intro exact_
    have listed {d : Text} (extra : Extra deps d) (active : Activated also rows deps requested d) :
        Listed rows requested d := ((exact_ d).mpr ⟨extra,active⟩).2
    exact {
      slash := fun f d x on named extra => listed extra (.slash on named)
      bare := fun d on implicit extra => listed extra (.bare on implicit)
      through := fun f d on _ named extra => listed extra (.dep on named)
      names := fun f d taken _ named extra => ((exact_ d).mp ⟨extra,f,taken,named⟩).2}
  · intro covered d
    refine and_congr_right fun extra => ⟨?_,?_⟩
    · rintro ⟨f,taken,named⟩
      by_cases on : Enabled also rows deps requested f
      · exact .dep on named
      · exact covered.names f d taken on named extra
    · rintro (⟨on,named⟩ | ⟨on,named⟩ | ⟨on,implicit⟩)
      · rename_i f
        by_cases taken : Taken rows requested f
        · exact ⟨f,taken,named⟩
        · exact covered.through f d on taken named extra
      · exact covered.slash _ d _ on named extra
      · exact covered.bare d on implicit extra

/-! Tables as Cargo allows them: no feature has a slash in its name. -/

theorem readFeature {entry : Text} : FeatureValue.read entry = some (.feature b) ↔
    Str.trim entry = b ∧ b ≠ [] ∧ depTarget b = none ∧ '/' ∉ b := by
  unfold FeatureValue.read
  dsimp only
  split
  · rename_i blank
    rw [blank]
    constructor
    · intro h; contradiction
    · rintro ⟨rfl,some_,_⟩; exact absurd rfl some_
  · rename_i some_
    split
    · rename_i name target
      constructor
      · intro h
        split at h <;> cases h
      · rintro ⟨rfl,_,none_,_⟩
        rw [target] at none_
        contradiction
    · rename_i target
      split
      · rename_i name own cut
        constructor
        · intro h
          split at h <;> cases h
        · rintro ⟨rfl,_,_,plain⟩
          rw [Str.splitOnceNone.mpr plain] at cut
          contradiction
      · rename_i plain
        simp only [Option.some.injEq,FeatureValue.feature.injEq]
        constructor
        · rintro rfl; exact ⟨rfl,some_,target,Str.splitOnceNone.mp plain⟩
        · rintro ⟨same,_⟩; exact same

theorem featureTaken (named : .feature b ∈ featureValues rows a) : TakenFrom rows a b := by
  obtain ⟨entry,mem,read⟩ := List.mem_filterMap.mp named
  obtain ⟨text,some_,kind,_⟩ := readFeature.mp read
  exact ⟨entry,mem,text,some_,kind⟩

theorem takenFeature (step : TakenFrom rows a b) (plain : '/' ∉ b) : .feature b ∈ featureValues rows a := by
  obtain ⟨entry,mem,text,some_,kind⟩ := step
  exact List.mem_filterMap.mpr ⟨entry,mem,readFeature.mpr ⟨text,some_,kind,plain⟩⟩

theorem enabledTaken (on : Enabled false rows deps requested f) : Taken rows requested f := by
  induction on with
  | requested => exact .refl
  | entry _ named ih => exact .tail ih (featureTaken named)
  | slash _ _ both => contradiction

/-- A feature that enables anything is in the table. -/
theorem namedOfEntry {entry : Text} (mem : entry ∈ enablesOf rows f) : ∃ row ∈ rows, row.featureName = f := by
  rw [enablesOf] at mem
  cases found : featureRow rows f with
  | none => rw [found] at mem; contradiction
  | some row =>
    obtain ⟨inside,same⟩ := List.mem_filter.mp (List.mem_of_getLast? found)
    exact ⟨row,inside,of_decide_eq_true same⟩

theorem takenEnabled (plain : ∀ row ∈ rows, '/' ∉ row.featureName) (taken : Taken rows requested f)
    (inTable : ∃ row ∈ rows, row.featureName = f) : Enabled also rows deps requested f := by
  induction taken with
  | refl => exact .requested
  | tail _ step ih =>
    obtain ⟨row,mem,rfl⟩ := inTable
    have fromRow : ∃ row ∈ rows, row.featureName = _ := namedOfEntry step.choose_spec.1
    exact .entry (ih fromRow) (takenFeature step (plain row mem))

/-- What is needed of a table without such names: what a requested feature activates through
`d/f` or a bare name is listed with `dep:` by a feature that it turns on. -/
theorem coveredIff (plain : ∀ row ∈ rows, '/' ∉ row.featureName) : Covered rows deps false requested ↔
    ∀ d, Extra deps d →
      (∃ f x, Enabled false rows deps requested f ∧ .depFeature d x false ∈ featureValues rows f) ∨
        (Enabled false rows deps requested d ∧ featureRow rows d = none) →
      ∃ f, Enabled false rows deps requested f ∧ .dep d ∈ featureValues rows f := by
  have enabled {f d : Text} (taken : Taken rows requested f) (named : .dep d ∈ featureValues rows f) :
      Enabled false rows deps requested f := by
    obtain ⟨entry,mem,_⟩ := List.mem_filterMap.mp named
    exact takenEnabled plain taken (namedOfEntry mem)
  constructor
  · rintro covered d extra (⟨f,x,on,named⟩ | ⟨on,implicit⟩)
    · obtain ⟨g,taken,dep⟩ := covered.slash f d x on named extra
      exact ⟨g,enabled taken dep,dep⟩
    · obtain ⟨g,taken,dep⟩ := covered.bare d on implicit extra
      exact ⟨g,enabled taken dep,dep⟩
  · intro all
    have listed {d : Text} (found : ∃ f, Enabled false rows deps requested f ∧ .dep d ∈ featureValues rows f) :
        Listed rows requested d := by
      obtain ⟨f,on,dep⟩ := found
      exact ⟨f,enabledTaken on,dep⟩
    exact {
      slash := fun f d x on named extra => listed (all d extra (Or.inl ⟨f,x,on,named⟩))
      bare := fun d on implicit extra => listed (all d extra (Or.inr ⟨on,implicit⟩))
      through := fun f d on untaken _ _ => absurd (enabledTaken on) untaken
      names := fun f d taken off named _ => absurd (enabled taken named) off}

end

/-! The handler. -/

section
variable {lower : Text → Text} {index : Index lower} {waited : Waited} {featureRows : List FeatureImpactFeatureRow}
  {dependencyRows : List FeatureImpactDependencyRow} {request : DependencyFeatureImpactRequest}
  {response : DependencyFeatureImpactResponse}

theorem handledSource (h : handleDependencyFeatureImpact index waited featureRows dependencyRows request = .ok response) :
    response.perFeature = (dedupeStrings request.features).map
      (impactEntry (listCrateFeaturesForVersion response.selectedVersion.id featureRows)
        (listFeatureImpactDependenciesForVersion response.selectedVersion.id dependencyRows)) := by
  unfold handleDependencyFeatureImpact at h
  obtain ⟨crateName,_,h⟩ := bindOk h
  dsimp only at h
  split at h <;> try contradiction
  obtain ⟨ctx,_,h⟩ := bindOk h
  obtain ⟨selected,_,h⟩ := bindOk h
  cases Except.ok.inj h
  rfl

end

theorem impactExactIffCovered (also : Bool) {lower : Text → Text} (index : Index lower) (waited : Waited)
    (featureRows : List FeatureImpactFeatureRow) (dependencyRows : List FeatureImpactDependencyRow)
    (request : DependencyFeatureImpactRequest) {response : DependencyFeatureImpactResponse}
    (h : handleDependencyFeatureImpact index waited featureRows dependencyRows request = .ok response) :
    response.perFeature.map (·.feature) = dedupeStrings request.features ∧
    ∀ entry ∈ response.perFeature,
      let rows := listCrateFeaturesForVersion response.selectedVersion.id featureRows
      let deps := listFeatureImpactDependenciesForVersion response.selectedVersion.id dependencyRows
      Exact also rows deps entry ↔ Covered rows deps also entry.feature := by
  rw [handledSource h]
  refine ⟨by simp [impactEntry,Function.comp_def],?_⟩
  intro entry mem
  obtain ⟨feature,_,rfl⟩ := List.mem_map.mp mem
  exact exactIff

/-! A crate whose `std` feature turns on the one of an optional dependency. -/

theorem demoUnique : (([⟨1,"demo".toList⟩] : List CrateCoreRow).map fun row => Str.toAsciiLowercase row.name).Nodup :=
  List.nodup_singleton _

def demoIndex : Index Str.toAsciiLowercase where
  crates := ⟨[⟨1,"demo".toList⟩],demoUnique⟩
  versions := [⟨7,1,"1.0.0".toList,some 5⟩]
  sourceFiles := []
  symbols := []
  types := []
  impls := []

def demoFeature (name : String) (enables : List String) : FeatureImpactFeatureRow :=
  ⟨7,name.toList,.array (enables.map fun entry => .text entry.toList)⟩

def demoDependencies : List FeatureImpactDependencyRow :=
  [⟨7,"serde".toList,true⟩,⟨7,"libc".toList,false⟩,⟨7,"rand".toList,true⟩]

def demoRequest : DependencyFeatureImpactRequest := ⟨"demo".toList,none,["std".toList],none⟩

def demoVersion : CrateVersionRow := ⟨7,1,"1.0.0".toList,some 5⟩

def stdResponse (additional : List Text) (level : ConfidenceLevel) (reason : String) : DependencyFeatureImpactResponse :=
  ⟨"demo".toList,demoVersion,demoVersion,["std".toList],5,1,1 + additional.length,
    [⟨"std".toList,additional.length,additional⟩],[],⟨level,reason.toList⟩⟩

def listedFeatures : List FeatureImpactFeatureRow := [demoFeature "std" ["dep:serde","libc/std"]]

theorem impactExactIffCoveredListed :
    let rows := listCrateFeaturesForVersion 7 listedFeatures
    let deps := listFeatureImpactDependenciesForVersion 7 demoDependencies
    Exact true rows deps ⟨"std".toList,1,["serde".toList]⟩ ↔ Covered rows deps true "std".toList :=
  (impactExactIffCovered true demoIndex (fun _ => none) listedFeatures demoDependencies demoRequest
    (show _ = Except.ok (stdResponse ["serde".toList] .high
      "feature impact computed from indexed feature metadata and dependency edges") by decide +kernel)).2 _
      List.mem_cons_self

def slashFeatures : List FeatureImpactFeatureRow := [demoFeature "std" ["serde/std"]]

theorem slashOverlooked : ¬∃ also : Bool, ∀ (index : Index Str.toAsciiLowercase) (waited : Waited)
    (featureRows : List FeatureImpactFeatureRow) (dependencyRows : List FeatureImpactDependencyRow)
    (request : DependencyFeatureImpactRequest) (response : DependencyFeatureImpactResponse),
    handleDependencyFeatureImpact index waited featureRows dependencyRows request = .ok response →
    ∀ entry ∈ response.perFeature,
      Exact also (listCrateFeaturesForVersion response.selectedVersion.id featureRows)
        (listFeatureImpactDependenciesForVersion response.selectedVersion.id dependencyRows) entry := by
  rintro ⟨also,all⟩
  have exact_ := all demoIndex (fun _ => none) slashFeatures demoDependencies demoRequest
    (stdResponse [] .medium "feature enables were resolved but no additional indexed dependencies were detected")
    (by decide +kernel) _ List.mem_cons_self
  have named : .depFeature "serde".toList "std".toList false ∈
      featureValues (listCrateFeaturesForVersion 7 slashFeatures) "std".toList := by decide +kernel
  exact List.not_mem_nil ((exact_ "serde".toList).mpr ⟨by decide +kernel,.slash .requested named⟩)

end RustMcp.FeatureImpact
