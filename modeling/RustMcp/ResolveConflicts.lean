import RustMcp.DependencyResolve

/-! `dependency_resolve`: which conflicts it looks for among the versions that it selects, and
what an answer without any says. -/
namespace RustMcp.ResolveConflicts
open Str Semver DependencyResolve
open DependencyAudit (DependencyCrateRow DependencyVersionRow Manifest parseManifest ConfidenceAssessment counted)
open Queries (Value)

/-! The index. -/

structure IndexedVersion extends DependencyVersionRow where
  crateId : Int
  publishedAt : Option Nat
  deriving DecidableEq

structure DependencyEdgeRow where
  fromVersionId : Int
  toCrateId : Int
  requirement : Text
  optional : Bool
  features : Value

structure ResolveIndex (lower : Text → Text) where
  crates : Keyed.Table fun row : DependencyCrateRow => lower row.name
  versions : List IndexedVersion
  dependencyEdges : List DependencyEdgeRow
  crateIds : (crates.rows.map (·.id)).Nodup

structure DependencyResolveEdgeRow where
  toCrateName : Text
  requirement : Text
  optional : Bool
  features : Value

/-- `published_at DESC NULLS LAST, id DESC` -/
def newestFirst (row : IndexedVersion) : (WithBot Nat)ᵒᵈ ×ₗ Intᵒᵈ := toLex (OrderDual.toDual row.publishedAt,OrderDual.toDual row.id)

section
variable {lower : Text → Text} (index : ResolveIndex lower)

def fetchDependencyCrateByName (crateName : Text) : Option DependencyCrateRow := index.crates.lookup (lower crateName)

def versionsOf (crateId : Int) : List IndexedVersion := index.versions.filter fun row => row.crateId = crateId

def listDependencyVersionsByCrate (crateId : Int) : List DependencyVersionRow :=
  (Ranking.sortBy newestFirst (versionsOf index crateId)).map (·.toDependencyVersionRow)

def listDependencyVersionsByLowerName (crateNameLower : Text) : List DependencyVersionRow :=
  (index.crates.rows.filter fun c => lower c.name = crateNameLower).flatMap fun c =>
    (versionsOf index c.id).map (·.toDependencyVersionRow)

def resolveEdge (edge : DependencyEdgeRow) (toCrate : DependencyCrateRow) : DependencyResolveEdgeRow :=
  ⟨toCrate.name,edge.requirement,edge.optional,edge.features⟩

def listDependencyResolveEdgesForVersions (rows : Shuffle DependencyResolveEdgeRow) (versionIds : List Int) :
    List DependencyResolveEdgeRow :=
  rows.order ((index.dependencyEdges.filter fun edge => edge.fromVersionId ∈ versionIds).flatMap fun edge =>
    (index.crates.rows.filter fun toCrate => toCrate.id = edge.toCrateId).map (resolveEdge edge))

end

/-! The response. -/

structure SelectedDependency where
  crateName : Text
  versionId : Int
  version : Text
  yanked : Bool
  deriving DecidableEq

structure DependencyResolveConflict where
  dependencyName : Text
  requirement : Option Text
  message : Text

structure DependencyResolveResolvedVersion where
  name : Text
  version : Text
  yanked : Bool

structure DependencyResolveFeatureSummary where
  dependencyEdgesEvaluated : Nat
  uniqueOptionalDependencies : Nat
  uniqueFeatureFlagsReferenced : Nat

/-- The response, without its fixed texts. -/
structure DependencyResolveResponse where
  inputDependencies : List NormalizedDependency
  resolvable : Bool
  resolvedVersions : List DependencyResolveResolvedVersion
  conflicts : List DependencyResolveConflict
  checkFeatures : Bool
  featureUnificationSummary : Option DependencyResolveFeatureSummary
  confidenceAssessment : ConfidenceAssessment

def collectFeatureNames : Value → List Text
  | .array entries => entries.filterMap fun entry => match entry with
    | .text feature => some feature
    | _ => none
  | _ => []

def evaluateConfidence (selectedCount conflictCount unindexedCount : Nat) : ConfidenceAssessment :=
  if selectedCount = 0 then ⟨.low,"no requested dependencies could be resolved from local index".toList⟩
  else if unindexedCount > 0 then
    ⟨.medium,counted unindexedCount " requested dependencies were not present in the local index".toList⟩
  else if conflictCount > 0 then
    ⟨.medium,"resolution found ".toList ++
      counted conflictCount " compatibility conflicts across selected versions".toList⟩
  else ⟨.high,"selected versions and indexed dependency requirements were mutually compatible".toList⟩

def dependencyResolveLimit (value : Option Nat) : Nat := Utils.clamp 1 1000 (value.getD 100)

structure DependencyResolveRequest where
  dependencies : Option (List DependencyResolveInputDependency)
  cargoToml : Option Text
  additions : Option (List DependencyResolveInputDependency)
  checkFeatures : Option Bool
  limit : Option Nat

/-! The loops. -/

inductive Outcome where
  | unindexed
  | unsatisfied
  | selected (entry : SelectedDependency)
  deriving DecidableEq

/-- The orders of the hash maps and of the rows that a resolution goes by. -/
structure Orders where
  values : Shuffle NormalizedDependency
  edges : Shuffle DependencyResolveEdgeRow
  targets : Shuffle (Text × List DependencyResolveEdgeRow)

section
variable {V R : Type} (sv : Package V R) [LinearOrder V] (matches_ : R → V → Bool)
variable {lower : Text → Text} (index : ResolveIndex lower)

/-- `reqError` is the error of `VersionReq::parse`. -/
def readRequirement (reqError : Text → Text) (dependency : NormalizedDependency) : Except Text (Option R) :=
  match dependency.versionReq with
  | none => .ok none
  | some versionReq =>
      match sv.parseReq versionReq with
      | some req => .ok (some req)
      | none => .error ("invalid version requirement '".toList ++ versionReq ++ "' for ".toList ++ dependency.name ++ ": ".toList ++
          reqError versionReq)

def resolveOne (reqError : Text → Text) (dependency : NormalizedDependency) : Except Text Outcome :=
  match fetchDependencyCrateByName index dependency.name with
  | none => .ok .unindexed
  | some crateRow =>
      match readRequirement sv reqError dependency with
      | .error e => .error e
      | .ok requirement =>
          match selectVersion sv matches_ requirement (listDependencyVersionsByCrate index crateRow.id) with
          | none => .ok .unsatisfied
          | some row => .ok (.selected ⟨crateRow.name,row.id,row.version,row.yanked⟩)

def outcomeConflict (dependency : NormalizedDependency) : Outcome → Option DependencyResolveConflict
  | .unindexed => some ⟨dependency.name,dependency.versionReq,
      "dependency is not present in local index; run index_crates first".toList⟩
  | .unsatisfied => some ⟨dependency.name,dependency.versionReq,
      "no indexed version satisfies the declared version requirement".toList⟩
  | .selected _ => none

def selectedOf : Outcome → Option SelectedDependency
  | .selected entry => some entry
  | _ => none

def selectedByCrate (selected : List SelectedDependency) : Keyed.Map Text SelectedDependency :=
  Keyed.ofPairs (selected.map fun entry => (toAsciiLowercase entry.crateName,entry))

/-- A requirement that the selected version of its target does not satisfy. -/
def edgeConflict (selected : List SelectedDependency) (edge : DependencyResolveEdgeRow) : Option DependencyResolveConflict :=
  match (selectedByCrate selected)[toAsciiLowercase edge.toCrateName]? with
  | none => none
  | some targetSelected =>
      match DependencyResolve.parseSemverForMatching sv targetSelected.version,sv.parseReq edge.requirement with
      | some targetVersion,some requirement =>
          if matches_ requirement targetVersion then none
          else some ⟨edge.toCrateName,some edge.requirement,"selected version ".toList ++ targetSelected.version ++
            " does not satisfy transitive requirement '".toList ++ edge.requirement ++ ['\'']⟩
      | _,_ => none

def targetRequirements (edges : List DependencyResolveEdgeRow) : Keyed.Map Text (List DependencyResolveEdgeRow) :=
  Keyed.collect (fun edge => toAsciiLowercase edge.toCrateName) Keyed.pushGroup edges

def satisfiesAll (requirements : List R) (row : DependencyVersionRow) : Bool :=
  match DependencyResolve.parseSemverForMatching sv row.version with
  | none => false
  | some parsed => requirements.all fun req => matches_ req parsed

/-- Requirements on a target, two at least, that no version of it satisfies together. -/
def targetConflict (target : Text × List DependencyResolveEdgeRow) : Option DependencyResolveConflict :=
  let requirements := target.2.map (·.requirement)
  if requirements.length < 2 then none
  else
    let parsedRequirements := requirements.filterMap sv.parseReq
    if parsedRequirements.length < 2 then none
    else if (listDependencyVersionsByLowerName index target.1).any (satisfiesAll sv matches_ parsedRequirements) then none
    else some ⟨target.1,none,"no indexed version satisfies all transitive requirements".toList⟩

variable (orders : Orders)

/-- The edges of the selected versions. -/
def selectedEdges (selected : List SelectedDependency) : List DependencyResolveEdgeRow :=
  if selected.isEmpty then [] else listDependencyResolveEdgesForVersions index orders.edges (selected.map (·.versionId))

/-- The conflicts in the order in which they are found. -/
def conflictsOf (outcomes : List (NormalizedDependency × Outcome)) : List DependencyResolveConflict :=
  let selected := outcomes.filterMap fun pair => selectedOf pair.2
  let edges := selectedEdges index orders selected
  (outcomes.filterMap fun pair => outcomeConflict pair.1 pair.2) ++ edges.filterMap (edgeConflict sv matches_ selected) ++
    (orders.targets.order (targetRequirements edges).toList).filterMap (targetConflict sv matches_ index)

def featureSummary (edges : List DependencyResolveEdgeRow) : DependencyResolveFeatureSummary where
  dependencyEdgesEvaluated := edges.length
  uniqueOptionalDependencies := ((edges.filter (·.optional)).map (·.toCrateName)).dedup.length
  uniqueFeatureFlagsReferenced := (edges.flatMap fun edge => collectFeatureNames edge.features).dedup.length

def collectManifestDependencies (fromSlice : Text → Except Text Manifest) (manifest : Text) :
    Except Text (List DependencyResolveInputDependency) :=
  match fromSlice manifest with
  | .error e => .error ("invalid Cargo.toml: ".toList ++ e)
  | .ok parsed => .ok ((parseManifest parsed).dependencies.map fun dep => ⟨dep.name,dep.requirement⟩)

def manifestDependencies (fromSlice : Text → Except Text Manifest) (cargoToml : Option Text) :
    Except Text (List DependencyResolveInputDependency) :=
  match cargoToml with
  | none => .ok []
  | some text => if (trim text).isEmpty then .ok [] else collectManifestDependencies fromSlice (trim text)

def handleDependencyResolve (fromSlice : Text → Except Text Manifest) (reqError : Text → Text) (request : DependencyResolveRequest) :
    Except Text DependencyResolveResponse := do
  let checkFeatures := request.checkFeatures.getD false
  let manifest ← manifestDependencies fromSlice request.cargoToml
  let inputs := normalizeInputs request.dependencies manifest request.additions orders.values
  if inputs.isEmpty then .error "provide dependencies, cargo_toml, or additions to evaluate resolution".toList
  else
    let requested := inputs.take (dependencyResolveLimit request.limit)
    let outcomes ← requested.mapM fun dependency =>
      (resolveOne sv matches_ index reqError dependency).map fun outcome => (dependency,outcome)
    let selected := outcomes.filterMap fun pair => selectedOf pair.2
    let conflicts := conflictsOf sv matches_ index orders outcomes
    .ok
      { inputDependencies := requested
        resolvable := conflicts.isEmpty
        resolvedVersions := selected.map fun entry => ⟨entry.crateName,entry.version,entry.yanked⟩
        conflicts := conflicts
        checkFeatures := checkFeatures
        featureUnificationSummary := if checkFeatures then some (featureSummary (selectedEdges index orders selected)) else none
        confidenceAssessment := evaluateConfidence selected.length conflicts.length
          (outcomes.countP fun pair => pair.2 = .unindexed) }

end

/-! What an answer without conflicts says. -/

/-- What is relied on of `LOWER`: it lowercases ASCII letters too, and lowercases a text once. -/
structure Lowers (lower : Text → Text) : Prop where
  folds : ∀ text, lower (toAsciiLowercase text) = lower text
  once : ∀ text, lower (lower text) = lower text

section
variable {V R : Type} (sv : Package V R) [LinearOrder V] (matches_ : R → V → Bool)
variable {lower : Text → Text} (index : ResolveIndex lower)

/-- The versions that are selected for the inputs. -/
def selections (reqError : Text → Text) (inputs : List NormalizedDependency) : List SelectedDependency :=
  inputs.filterMap fun dep => (resolveOne sv matches_ index reqError dep).toOption.bind selectedOf

/-- The requirements of selected versions on a crate. -/
def requirementsOn (selected : List SelectedDependency) (crate : DependencyCrateRow) : List Text :=
  (index.dependencyEdges.filter fun edge =>
    edge.fromVersionId ∈ selected.map (·.versionId) && edge.toCrateId = crate.id).map (·.requirement)

/-- The version satisfies the requirements, of those that can be read. -/
def Meets (requirements : List Text) (version : V) : Prop :=
  ∀ requirement ∈ requirements, ∀ req, sv.parseReq requirement = some req → matches_ req version = true

/-- An entry is an indexed version of a crate of that name, and satisfies the requirement. -/
def Selected (dep : NormalizedDependency) (entry : SelectedDependency) : Prop :=
  ∃ crate ∈ index.crates.rows, ∃ row ∈ versionsOf index crate.id, lower crate.name = lower dep.name ∧
    entry = ⟨crate.name,row.id,row.version,row.yanked⟩ ∧ ∀ requirement, dep.versionReq = some requirement →
      ∃ req version, sv.parseReq requirement = some req ∧
        DependencyResolve.parseSemverForMatching sv row.version = some version ∧ matches_ req version = true

/-- What is looked for of the evaluated inputs and of the targets of the versions that are selected for them. -/
structure Resolved (reqError : Text → Text) (response : DependencyResolveResponse) : Prop where
  chosen : ∀ dep ∈ response.inputDependencies, ∃ entry ∈ selections sv matches_ index reqError response.inputDependencies,
    Selected sv matches_ index dep entry ∧ ⟨entry.crateName,entry.version,entry.yanked⟩ ∈ response.resolvedVersions
  requested : ∀ crate ∈ index.crates.rows, (∃ dep ∈ response.inputDependencies, lower dep.name = lower crate.name) →
    ∃ entry ∈ selections sv matches_ index reqError response.inputDependencies, entry.crateName = crate.name ∧
      ∀ version, DependencyResolve.parseSemverForMatching sv entry.version = some version →
        Meets sv matches_ (requirementsOn index (selections sv matches_ index reqError response.inputDependencies) crate) version
  jointly : ∀ crate ∈ index.crates.rows,
    2 ≤ ((requirementsOn index (selections sv matches_ index reqError response.inputDependencies) crate).filterMap sv.parseReq).length →
    ∃ row ∈ versionsOf index crate.id, ∃ version, DependencyResolve.parseSemverForMatching sv row.version = some version ∧
      Meets sv matches_ (requirementsOn index (selections sv matches_ index reqError response.inputDependencies) crate) version

end

section
variable {V R : Type} {sv : Package V R} [LinearOrder V] {matches_ : R → V → Bool}
variable {lower : Text → Text} {index : ResolveIndex lower} {reqError : Text → Text}

theorem sameCrate {a b : DependencyCrateRow} (memA : a ∈ index.crates.rows) (memB : b ∈ index.crates.rows)
    (same : lower a.name = lower b.name) : a = b :=
  List.inj_on_of_nodup_map index.crates.unique memA memB same

theorem memVersionsByCrate {crateId : Int} {row : DependencyVersionRow} : row ∈ listDependencyVersionsByCrate index crateId ↔
    ∃ version ∈ versionsOf index crateId, version.toDependencyVersionRow = row := by
  rw [listDependencyVersionsByCrate,List.mem_map]
  simp only [Ranking.memSortBy]

theorem selectsRow {requirement : Option R} {versions : List DependencyVersionRow} {row : DependencyVersionRow}
    (found : selectVersion sv matches_ requirement versions = some row) : row ∈ versions ∧ ∀ req, requirement = some req →
      ∃ version, DependencyResolve.parseSemverForMatching sv row.version = some version ∧ matches_ req version = true := by
  cases requirement with
  | none => exact ⟨List.mem_of_mem_head? (Option.mem_def.mpr found),fun req none_ => by cases none_⟩
  | some req =>
    obtain ⟨before,after,version,rfl,satisfied,_⟩ := Ranking.lastHighestSome.mp found
    refine ⟨by simp,fun other same => ?_⟩
    cases same
    exact ⟨version,Option.filter_eq_some_iff.mp satisfied⟩

omit [LinearOrder V] in
theorem requirementRead {dep : NormalizedDependency} {requirement : Option R}
    (read : readRequirement sv reqError dep = .ok requirement) {text : Text} (declared : dep.versionReq = some text) :
    ∃ req, sv.parseReq text = some req ∧ requirement = some req := by
  simp only [readRequirement,declared] at read
  split at read
  · cases read
    exact ⟨_,‹_›,rfl⟩
  · cases read

theorem resolveSelected {dep : NormalizedDependency} {entry : SelectedDependency}
    (resolved : resolveOne sv matches_ index reqError dep = .ok (.selected entry)) : Selected sv matches_ index dep entry := by
  rw [resolveOne] at resolved
  split at resolved
  · cases resolved
  · rename_i crateRow found
    obtain ⟨listed,named⟩ := Keyed.Table.lookupIff.mp found
    split at resolved
    · cases resolved
    · rename_i requirement read
      split at resolved
      · cases resolved
      · rename_i row chosen
        cases resolved
        obtain ⟨mem,satisfied⟩ := selectsRow chosen
        obtain ⟨version,among,rfl⟩ := memVersionsByCrate.mp mem
        refine ⟨crateRow,listed,version,among,named,rfl,fun text declared => ?_⟩
        obtain ⟨req,parsed,rfl⟩ := requirementRead read declared
        obtain ⟨v,reads,matched⟩ := satisfied req rfl
        exact ⟨req,v,parsed,reads,matched⟩

theorem outcomesSelected {requested : List NormalizedDependency} {outcomes : List (NormalizedDependency × Outcome)}
    (ran : (requested.mapM fun dependency => (resolveOne sv matches_ index reqError dependency).map fun outcome =>
      (dependency,outcome)) = .ok outcomes)
    (none_ : outcomes.filterMap (fun pair => outcomeConflict pair.1 pair.2) = []) :
    (outcomes.filterMap fun pair => selectedOf pair.2) = selections sv matches_ index reqError requested ∧
    ∀ dep ∈ requested, ∃ entry, resolveOne sv matches_ index reqError dep = .ok (.selected entry) ∧
      entry ∈ selections sv matches_ index reqError requested := by
  induction requested generalizing outcomes with
  | nil =>
    cases ran
    exact ⟨rfl,by simp⟩
  | cons dep deps ih =>
    rw [List.mapM_cons] at ran
    obtain ⟨pair,first,ran⟩ := Utils.bindOk ran
    obtain ⟨rest,later,ran⟩ := Utils.bindOk ran
    cases ran
    cases resolved : resolveOne sv matches_ index reqError dep with
    | error e =>
      rw [resolved] at first
      cases first
    | ok outcome =>
      rw [resolved] at first
      cases first
      cases outcome with
      | unindexed => cases none_
      | unsatisfied => cases none_
      | selected entry =>
        obtain ⟨same,each⟩ := ih later none_
        have here : selections sv matches_ index reqError (dep::deps) = entry :: selections sv matches_ index reqError deps := by
          rw [selections,List.filterMap_cons_some (by rw [resolved]; rfl)]
          rfl
        rw [here]
        refine ⟨congrArg (List.cons entry) same,fun other mem => ?_⟩
        rcases List.mem_cons.mp mem with rfl | mem
        · exact ⟨entry,resolved,List.mem_cons_self⟩
        · obtain ⟨entry,resolved,among⟩ := each other mem
          exact ⟨entry,resolved,List.mem_cons_of_mem _ among⟩

section
variable (lowers : Lowers lower)
include lowers

theorem foldedCrate {a b : DependencyCrateRow} (memA : a ∈ index.crates.rows) (memB : b ∈ index.crates.rows)
    (same : toAsciiLowercase a.name = toAsciiLowercase b.name) : a = b :=
  sameCrate memA memB (by rw [← lowers.folds a.name,← lowers.folds b.name,same])

theorem versionsByLowerName {crate : DependencyCrateRow} (listed : crate ∈ index.crates.rows) {row : DependencyVersionRow}
    (mem : row ∈ listDependencyVersionsByLowerName index (toAsciiLowercase crate.name)) :
    ∃ version ∈ versionsOf index crate.id, version.toDependencyVersionRow = row := by
  simp only [listDependencyVersionsByLowerName,List.mem_flatMap,List.mem_filter,decide_eq_true_eq,List.mem_map] at mem
  obtain ⟨other,⟨among,named⟩,version,own,rfl⟩ := mem
  have same : lower other.name = lower crate.name := by rw [← lowers.once other.name,named,lowers.folds]
  cases sameCrate among listed same
  exact ⟨version,own,rfl⟩

omit lowers in
theorem onlyCrate {crate : DependencyCrateRow} (listed : crate ∈ index.crates.rows) {keep : DependencyCrateRow → Bool}
    (own : ∀ other ∈ index.crates.rows, keep other = true → other = crate) :
    index.crates.rows.filter keep = if keep crate then [crate] else [] := by
  have once : (index.crates.rows.filter keep).Nodup := (index.crates.unique.of_map).filter keep
  have only : ∀ other ∈ index.crates.rows.filter keep, other = crate := by
    intro other mem
    obtain ⟨among,kept⟩ := List.mem_filter.mp mem
    exact own other among kept
  split
  · rename_i kept
    exact List.perm_singleton.mp ((List.perm_ext_iff_of_nodup once (List.nodup_singleton crate)).mpr fun other =>
      ⟨fun mem => List.mem_singleton.mpr (only other mem),fun same => List.mem_singleton.mp same ▸ List.mem_filter.mpr ⟨listed,kept⟩⟩)
  · rename_i dropped
    refine List.eq_nil_iff_forall_not_mem.mpr fun other mem => dropped ?_
    exact only other mem ▸ (List.mem_filter.mp mem).2

theorem edgesOnto {crate : DependencyCrateRow} (listed : crate ∈ index.crates.rows) (edges : List DependencyEdgeRow) :
    (edges.flatMap fun edge => (index.crates.rows.filter fun toCrate => toCrate.id = edge.toCrateId).map (resolveEdge edge)).filter
      (fun edge => toAsciiLowercase edge.toCrateName = toAsciiLowercase crate.name) =
    (edges.filter fun edge => edge.toCrateId = crate.id).map fun edge => resolveEdge edge crate := by
  induction edges with
  | nil => rfl
  | cons edge edges ih =>
    have here : ((index.crates.rows.filter fun toCrate => toCrate.id = edge.toCrateId).map (resolveEdge edge)).filter
        (fun edge => toAsciiLowercase edge.toCrateName = toAsciiLowercase crate.name) =
        if edge.toCrateId = crate.id then [resolveEdge edge crate] else [] := by
      rw [List.filter_map,List.filter_filter]
      refine (congrArg (List.map _) (onlyCrate listed fun other among both => ?_)).trans ?_
      · rw [Bool.and_eq_true] at both
        exact foldedCrate lowers among listed (of_decide_eq_true both.1)
      · by_cases same : crate.id = edge.toCrateId <;> simp [same,eq_comm,resolveEdge]
    rw [List.flatMap_cons,List.filter_append,here,ih,List.filter_cons]
    split <;> simp_all

theorem requirementsListed (orders : Orders) {crate : DependencyCrateRow} (listed : crate ∈ index.crates.rows)
    (selected : List SelectedDependency) :
    (((selectedEdges index orders selected).filter fun edge => toAsciiLowercase edge.toCrateName = toAsciiLowercase crate.name).map
      (·.requirement)).Perm (requirementsOn index selected crate) := by
  rw [selectedEdges,requirementsOn]
  split
  · rename_i empty
    rw [List.isEmpty_iff.mp empty]
    simp
  · rw [listDependencyResolveEdgesForVersions]
    refine (((orders.edges.perm _).filter _).map _).trans (List.Perm.of_eq ?_)
    rw [edgesOnto lowers listed,List.map_map,List.filter_filter]
    simp only [Function.comp_def,resolveEdge,Bool.and_comm]

omit [LinearOrder V] in
/-- Where no edge conflicts, the version that is compared with the edges onto a crate meets their requirements. -/
theorem requestedMeets {orders : Orders} {selected : List SelectedDependency}
    (own : ∀ entry ∈ selected, ∃ crate ∈ index.crates.rows, entry.crateName = crate.name)
    (edges : (selectedEdges index orders selected).filterMap (edgeConflict sv matches_ selected) = [])
    {crate : DependencyCrateRow} (listed : crate ∈ index.crates.rows) {entry : SelectedDependency} (mem : entry ∈ selected)
    (named : entry.crateName = crate.name) : ∃ last ∈ selected, last.crateName = crate.name ∧
      ∀ version, DependencyResolve.parseSemverForMatching sv last.version = some version →
        Meets sv matches_ (requirementsOn index selected crate) version := by
  have keyed : (toAsciiLowercase crate.name,entry) ∈ selected.map fun entry => (toAsciiLowercase entry.crateName,entry) :=
    List.mem_map.mpr ⟨entry,mem,by rw [named]⟩
  obtain ⟨last,found,among⟩ := Keyed.ofPairsFound keyed
  obtain ⟨other,member,same⟩ := List.mem_map.mp among
  obtain ⟨folded,rfl⟩ := Prod.mk.inj same
  obtain ⟨crate',listed',named'⟩ := own other member
  have alike : other.crateName = crate.name := by
    rw [named'] at folded ⊢
    rw [foldedCrate lowers listed' listed folded]
  refine ⟨other,member,alike,fun version reads requirement stated req parsed => ?_⟩
  rw [← (requirementsListed lowers orders listed selected).mem_iff] at stated
  obtain ⟨edge,onto,rfl⟩ := List.mem_map.mp stated
  obtain ⟨onto,target⟩ := List.mem_filter.mp onto
  have unconflicted := List.filterMap_eq_nil_iff.mp edges edge onto
  rw [edgeConflict,of_decide_eq_true target,selectedByCrate,found] at unconflicted
  simp only [reads,parsed] at unconflicted
  split at unconflicted
  · assumption
  · cases unconflicted

omit [LinearOrder V] in
/-- Where no target conflicts, a version meets the requirements on it, two at least. -/
theorem targetsMet {orders : Orders} {selected : List SelectedDependency}
    (targets : (orders.targets.order (targetRequirements (selectedEdges index orders selected)).toList).filterMap
      (targetConflict sv matches_ index) = [])
    {crate : DependencyCrateRow} (listed : crate ∈ index.crates.rows)
    (two : 2 ≤ ((requirementsOn index selected crate).filterMap sv.parseReq).length) :
    ∃ row ∈ versionsOf index crate.id, ∃ version, DependencyResolve.parseSemverForMatching sv row.version = some version ∧
      Meets sv matches_ (requirementsOn index selected crate) version := by
  have perm := requirementsListed lowers orders listed selected
  generalize grouped : (selectedEdges index orders selected).filter
    (fun edge => toAsciiLowercase edge.toCrateName = toAsciiLowercase crate.name) = group at perm
  have parsed := (perm.filterMap sv.parseReq).length_eq
  have some_ : group ≠ [] := by
    rintro rfl
    simp at parsed
    omega
  have target : (toAsciiLowercase crate.name,group) ∈ (targetRequirements (selectedEdges index orders selected)).toList := by
    refine Keyed.collectMem.mpr ?_
    rw [grouped]
    exact Keyed.pushGroupsIff.mpr ⟨rfl,some_⟩
  have unconflicted := List.filterMap_eq_nil_iff.mp targets _ ((orders.targets.perm _).mem_iff.mpr target)
  have enough : ¬ ((group.map (·.requirement)).filterMap sv.parseReq).length < 2 := by omega
  have more := List.length_filterMap_le sv.parseReq (group.map (·.requirement))
  rw [targetConflict] at unconflicted
  dsimp only at unconflicted
  rw [if_neg (by omega),if_neg enough,ite_eq_left_iff] at unconflicted
  have any := Decidable.by_contra fun no => nomatch unconflicted no
  obtain ⟨row,mem,satisfied⟩ := List.any_eq_true.mp any
  obtain ⟨version,among,rfl⟩ := versionsByLowerName lowers listed mem
  rw [satisfiesAll] at satisfied
  split at satisfied
  · cases satisfied
  · rename_i read reads
    refine ⟨version,among,read,reads,fun requirement stated req parses => ?_⟩
    rw [← perm.mem_iff] at stated
    exact List.all_eq_true.mp satisfied req (List.mem_filterMap.mpr ⟨requirement,stated,parses⟩)

end

theorem memSelections {inputs : List NormalizedDependency} {entry : SelectedDependency} :
    entry ∈ selections sv matches_ index reqError inputs ↔
      ∃ dep ∈ inputs, resolveOne sv matches_ index reqError dep = .ok (.selected entry) := by
  rw [selections,List.mem_filterMap]
  refine exists_congr fun dep => and_congr_right fun _ => ?_
  cases resolveOne sv matches_ index reqError dep with
  | error e => simp [Except.toOption]
  | ok outcome => cases outcome <;> simp [Except.toOption,selectedOf]

theorem answerConflicts {orders : Orders} {fromSlice : Text → Except Text Manifest} {request : DependencyResolveRequest}
    {response : DependencyResolveResponse}
    (answered : handleDependencyResolve sv matches_ index orders fromSlice reqError request = .ok response) :
    ∃ outcomes, (response.inputDependencies.mapM fun dependency =>
        (resolveOne sv matches_ index reqError dependency).map fun outcome => (dependency,outcome)) = .ok outcomes ∧
      response.resolvedVersions = (outcomes.filterMap fun pair => selectedOf pair.2).map
        (fun entry => ⟨entry.crateName,entry.version,entry.yanked⟩) ∧
      response.resolvable = (conflictsOf sv matches_ index orders outcomes).isEmpty := by
  obtain ⟨manifest,_,answered⟩ := Utils.bindOk answered
  dsimp only at answered
  split at answered
  · cases answered
  · obtain ⟨outcomes,ran,answered⟩ := Utils.bindOk answered
    cases answered
    exact ⟨outcomes,ran,rfl,rfl⟩

theorem resolvableResolved (lowers : Lowers lower) {orders : Orders} {fromSlice : Text → Except Text Manifest}
    {request : DependencyResolveRequest} {response : DependencyResolveResponse}
    (answered : handleDependencyResolve sv matches_ index orders fromSlice reqError request = .ok response)
    (resolvable : response.resolvable = true) : Resolved sv matches_ index reqError response := by
  obtain ⟨outcomes,ran,versions,empty⟩ := answerConflicts answered
  rw [resolvable,eq_comm,List.isEmpty_iff,conflictsOf,List.append_eq_nil_iff,List.append_eq_nil_iff] at empty
  obtain ⟨⟨unresolved,edges⟩,targets⟩ := empty
  obtain ⟨same,each⟩ := outcomesSelected ran unresolved
  rw [same] at versions edges targets
  generalize chosen : selections sv matches_ index reqError response.inputDependencies = selected at *
  have own : ∀ entry ∈ selected, ∃ dep ∈ response.inputDependencies, Selected sv matches_ index dep entry := by
    intro entry mem
    obtain ⟨dep,among,resolved⟩ := memSelections.mp (chosen ▸ mem)
    exact ⟨dep,among,resolveSelected resolved⟩
  constructor
  · intro dep mem
    obtain ⟨entry,resolved,among⟩ := each dep mem
    refine ⟨entry,chosen ▸ among,resolveSelected resolved,?_⟩
    rw [versions]
    exact List.mem_map_of_mem among
  · rintro crate listed ⟨dep,mem,named⟩
    rw [chosen]
    obtain ⟨entry,resolved,among⟩ := each dep mem
    obtain ⟨other,listed',_,_,named',rfl,_⟩ := resolveSelected resolved
    cases sameCrate listed' listed (named'.trans named)
    refine requestedMeets lowers (fun entry mem => ?_) edges listed among rfl
    obtain ⟨_,_,crate,listed,_,_,_,rfl,_⟩ := own entry mem
    exact ⟨crate,listed,rfl⟩
  · intro crate listed two
    rw [chosen] at two ⊢
    exact targetsMet lowers targets listed two

end

/-! A crate that requires version 2 of a crate that is indexed at version 1. -/

def demoResolve (requirement : Text) : ResolveIndex toAsciiLowercase where
  crates := ⟨[⟨1,"app".toList⟩,⟨2,"lib".toList⟩],by decide +kernel⟩
  versions := [⟨⟨10,"1.0.0".toList,none,false⟩,1,none⟩,⟨⟨20,"1.0.0".toList,none,false⟩,2,none⟩]
  dependencyEdges := [⟨10,2,requirement,false,.array []⟩]
  crateIds := by decide

theorem asciiLowers : Lowers toAsciiLowercase := ⟨toAsciiLowercaseOnce,toAsciiLowercaseOnce⟩

def unshuffled {α : Type} : Shuffle α := ⟨id,List.Perm.refl⟩

def demoAnswer (requirement : Text) : Except Text DependencyResolveResponse :=
  handleDependencyResolve buildPackage majorMatches (demoResolve requirement) ⟨unshuffled,unshuffled,unshuffled⟩
    (fun _ => .error []) (fun _ => []) ⟨some [⟨"app".toList,some "1".toList⟩],none,none,none,none⟩

/-- The answer says resolvable, although no version of the target satisfies the one requirement on it. -/
theorem resolvableUnmet : ∃ response, demoAnswer "2".toList = .ok response ∧ response.resolvable = true ∧
    buildPackage.parseReq "1".toList = some 1 ∧ buildPackage.parseReq "2".toList = some 2 ∧
    ∃ crate ∈ (demoResolve "2".toList).crates.rows,
      requirementsOn (demoResolve "2".toList) (selections buildPackage majorMatches (demoResolve "2".toList) (fun _ => [])
        response.inputDependencies) crate = ["2".toList] ∧
      ¬ ∃ row ∈ versionsOf (demoResolve "2".toList) crate.id, ∃ version,
        DependencyResolve.parseSemverForMatching buildPackage row.version = some version ∧
        Meets buildPackage majorMatches ["2".toList] version := by
  obtain ⟨response,answered,shape⟩ := Utils.okAny (p := fun response : DependencyResolveResponse => response.resolvable &&
    (requirementsOn (demoResolve "2".toList) (selections buildPackage majorMatches (demoResolve "2".toList) (fun _ => [])
      response.inputDependencies) ⟨2,"lib".toList⟩ = ["2".toList]))
    (show (demoAnswer "2".toList).toOption.any _ = true by decide +kernel)
  rw [Bool.and_eq_true,decide_eq_true_eq] at shape
  have second : buildPackage.parseReq "2".toList = some 2 := by decide +kernel
  refine ⟨response,answered,shape.1,by decide +kernel,second,⟨2,"lib".toList⟩,by simp [demoResolve],shape.2,?_⟩
  rintro ⟨row,mem,version,reads,meets⟩
  have one : versionsOf (demoResolve "2".toList) 2 = [⟨⟨20,"1.0.0".toList,none,false⟩,2,none⟩] := by decide +kernel
  have written : DependencyResolve.parseSemverForMatching buildPackage "1.0.0".toList = some (toLex (100,0)) := by decide +kernel
  rw [one] at mem
  cases List.mem_singleton.mp mem
  cases written.symm.trans reads
  exact absurd (meets _ (List.mem_singleton.mpr rfl) 2 second) (by decide)

theorem resolvableMet : ∃ response, demoAnswer "1".toList = .ok response ∧
    Resolved buildPackage majorMatches (demoResolve "1".toList) (fun _ => []) response := by
  obtain ⟨response,answered,resolvable⟩ := Utils.okAny (p := fun response : DependencyResolveResponse => response.resolvable)
    (show (demoAnswer "1".toList).toOption.any _ = true by decide +kernel)
  exact ⟨response,answered,resolvableResolved asciiLowers answered resolvable⟩

end RustMcp.ResolveConflicts
