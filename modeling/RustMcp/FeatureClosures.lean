import RustMcp.FeatureImpact

/-! The two closures over a feature graph: the features that a feature enables, and the
dependencies that features bring in. -/
namespace RustMcp.FeatureClosures
open Str (Text)
open Worklist (drain drainExact turns Leads)

/-- A hash map from features to names. -/
abbrev FeatureMap := Keyed.Map Text (List Text)

def names (map : FeatureMap) (feature : Text) : List Text := map[feature]?.getD []

def Enables (graph : FeatureMap) (a b : Text) : Prop := b ∈ names graph a

/-! `fuel` bounds the turns of a loop; there is no result where it does not suffice. -/

def transitiveFeatureEnables (fuel : Nat) (root : Text) (featureGraph : FeatureMap) : Option (List Text) :=
  (drain (names featureGraph) fuel (names featureGraph root) []).map (Ranking.sortBy id)

section
variable (featureToFeatures featureToDependencies : FeatureMap)

def expandLoop : Nat → List Text → List Text → Finset Text → Option (Finset Text)
  | _, [], _, dependencies => some dependencies
  | 0, _::_, _, _ => none
  | fuel + 1, feature::queue, visited, dependencies =>
    if feature ∈ visited then expandLoop fuel queue visited dependencies
    else expandLoop fuel (queue ++ (names featureToFeatures feature).filter fun child => child ∉ visited ++ [feature])
      (visited ++ [feature]) (dependencies ∪ (names featureToDependencies feature).toFinset)

def expandFeatureDependencies (fuel : Nat) (roots : List Text) : Option (Finset Text) :=
  expandLoop featureToFeatures featureToDependencies fuel roots [] ∅

end

theorem onlyKeys {graph : FeatureMap} {feature : Text} (absent : feature ∉ graph.keys) : names graph feature = [] := by
  cases found : graph[feature]? with
  | none => rw [names,found]; rfl
  | some listed => exact absurd (Keyed.memKeys.mpr ⟨listed,found⟩) absent

def dependenciesOf (map : FeatureMap) (visited : List Text) : Finset Text := (visited.flatMap (names map)).toFinset

/-- The dependencies are those of the features that have been visited. -/
theorem expandDrains {features dependencies : FeatureMap} {fuel : Nat} {queue visited : List Text} :
    expandLoop features dependencies fuel queue visited (dependenciesOf dependencies visited) =
      (drain (names features) fuel queue visited).map (dependenciesOf dependencies) := by
  induction fuel generalizing queue visited with
  | zero => cases queue <;> rfl
  | succ fuel ih =>
    cases queue with
    | nil => rfl
    | cons feature queue =>
      rw [expandLoop,drain]
      split
      · exact ih
      · have more : dependenciesOf dependencies visited ∪ (names dependencies feature).toFinset =
            dependenciesOf dependencies (visited ++ [feature]) := by
          simp [dependenciesOf]
        -- the two tests of membership differ in their instances alone
        rw [more]
        convert @ih (queue ++ (names features feature).filter fun child => child ∉ visited ++ [feature]) (visited ++ [feature])

section
variable {graph : FeatureMap}

theorem leadsTrans {root x : Text} :
    (∃ child ∈ names graph root, Leads (names graph) child x) ↔ Relation.TransGen (Enables graph) root x := by
  rw [Relation.TransGen.head'_iff]
  rfl

theorem transitiveMem {fuel : Nat} {root : Text} {enables : List Text}
    (ran : transitiveFeatureEnables fuel root graph = some enables) (x : Text) :
    x ∈ enables ↔ Relation.TransGen (Enables graph) root x := by
  obtain ⟨seen,drained,rfl⟩ := Option.map_eq_some_iff.mp ran
  obtain ⟨out,ends,_,mem⟩ := drainExact (fun _ => onlyKeys) (names graph root)
  rw [Worklist.drainUnique drained (ends _ le_rfl),Ranking.memSortBy,mem,leadsTrans]

theorem expandMem {dependencies : FeatureMap} {fuel : Nat} {roots : List Text} {found : Finset Text}
    (ran : expandFeatureDependencies graph dependencies fuel roots = some found) (dep : Text) :
    dep ∈ found ↔ ∃ root ∈ roots, ∃ feature, Relation.ReflTransGen (Enables graph) root feature ∧ dep ∈ names dependencies feature := by
  have drains : expandLoop graph dependencies fuel roots [] (dependenciesOf dependencies []) = _ := expandDrains
  obtain ⟨visited,drained,rfl⟩ := Option.map_eq_some_iff.mp (drains.symm.trans ran)
  obtain ⟨out,ends,_,mem⟩ := drainExact (fun _ => onlyKeys) roots
  rw [Worklist.drainUnique drained (ends _ le_rfl),dependenciesOf,List.mem_toFinset,List.mem_flatMap]
  constructor
  · rintro ⟨feature,inside,brings⟩
    obtain ⟨root,from_,leads⟩ := (mem feature).mp inside
    exact ⟨root,from_,feature,leads,brings⟩
  · rintro ⟨root,from_,feature,leads,brings⟩
    exact ⟨feature,(mem feature).mpr ⟨root,from_,leads⟩,brings⟩

variable (graph) in
theorem transitiveEnds (root : Text) : ∃ enables,
    (∀ fuel, turns (names graph) graph.keys (names graph root) ≤ fuel → transitiveFeatureEnables fuel root graph = some enables) ∧
    enables.Pairwise (· < ·) := by
  obtain ⟨seen,ran,nodup,_⟩ := drainExact (fun _ => onlyKeys) (names graph root)
  refine ⟨Ranking.sortBy id seen,fun fuel enough => ?_,Ranking.sortByStrict nodup fun _ _ _ _ => id⟩
  rw [transitiveFeatureEnables,ran fuel enough]
  rfl

variable (graph) in
theorem expandEnds (dependencies : FeatureMap) (roots : List Text) : ∃ found,
    ∀ fuel, turns (names graph) graph.keys roots ≤ fuel → expandFeatureDependencies graph dependencies fuel roots = some found := by
  obtain ⟨visited,ran,_⟩ := drainExact (fun _ => onlyKeys) roots
  refine ⟨dependenciesOf dependencies visited,fun fuel enough => ?_⟩
  have drains : expandLoop graph dependencies fuel roots [] (dependenciesOf dependencies []) = _ := expandDrains
  rw [ran fuel enough] at drains
  exact drains

end

/-! The maps that the handlers build of the feature rows. -/

section
open FeatureImpact (FeatureImpactFeatureRow enablesOf splitFeatureTargets featureToFeatures featureToDependencies)

def mapOf (side : List Text × List Text → List Text) (rows : List FeatureImpactFeatureRow) : FeatureMap :=
  Keyed.ofPairs (rows.map fun row => (row.featureName,side (splitFeatureTargets (FeatureImpact.valueToStringVec row.enables))))

theorem mapOfNames {side : List Text × List Text → List Text} (none_ : side (splitFeatureTargets []) = [])
    (rows : List FeatureImpactFeatureRow) (feature : Text) :
    names (mapOf side rows) feature = side (splitFeatureTargets (enablesOf rows feature)) := by
  induction rows using List.reverseRecOn with
  | nil => exact none_.symm
  | append_singleton rows row ih =>
    have last : mapOf side (rows ++ [row]) = (mapOf side rows).insert row.featureName
        (side (splitFeatureTargets (FeatureImpact.valueToStringVec row.enables))) := by simp [mapOf,Keyed.ofPairs]
    rw [names,last,Keyed.insertAt]
    by_cases same : row.featureName = feature
    · rw [if_pos same]
      simp [enablesOf,FeatureImpact.featureRow,same]
    · rw [if_neg same]
      have kept : enablesOf (rows ++ [row]) feature = enablesOf rows feature := by
        simp [enablesOf,FeatureImpact.featureRow,same]
      rw [kept,← ih,names]

/-- The closure of `dependency_feature_impact` is the one of the maps. -/
theorem impactExpands {fuel : Nat} {rows : List FeatureImpactFeatureRow} {roots : List Text} {found : Finset Text}
    (ran : expandFeatureDependencies (mapOf Prod.fst rows) (mapOf Prod.snd rows) fuel roots = some found) (dep : Text) :
    dep ∈ found ↔ dep ∈ FeatureImpact.expandFeatureDependencies rows roots := by
  have features : names (mapOf Prod.fst rows) = featureToFeatures rows := funext (mapOfNames (by decide) rows)
  have dependencies : names (mapOf Prod.snd rows) = featureToDependencies rows := funext (mapOfNames (by decide) rows)
  rw [expandMem ran,FeatureImpact.expandFeatureDependencies,Utils.memOrdered,List.mem_flatMap]
  simp only [Worklist.memReachable fun _ => FeatureImpact.unknownFeature,dependencies,Worklist.Leads]
  change (∃ root ∈ roots, ∃ feature, Relation.ReflTransGen (fun a b => b ∈ names (mapOf Prod.fst rows) a) root feature ∧ _) ↔ _
  rw [features]
  constructor
  · rintro ⟨root,from_,feature,leads,brings⟩
    exact ⟨feature,⟨root,from_,leads⟩,brings⟩
  · rintro ⟨feature,⟨root,from_,leads⟩,brings⟩
    exact ⟨root,from_,feature,leads,brings⟩

end

theorem closuresExact (graph dependencies : FeatureMap) :
    (∀ root, ∃ enables, (∃ turns, ∀ fuel, turns ≤ fuel → transitiveFeatureEnables fuel root graph = some enables) ∧
      enables.Pairwise (· < ·) ∧ ∀ x, x ∈ enables ↔ Relation.TransGen (Enables graph) root x) ∧
    (∀ roots, ∃ found, (∃ turns, ∀ fuel, turns ≤ fuel → expandFeatureDependencies graph dependencies fuel roots = some found) ∧
      ∀ dep, dep ∈ found ↔ ∃ root ∈ roots, ∃ feature, Relation.ReflTransGen (Enables graph) root feature ∧
        dep ∈ names dependencies feature) ∧
    ∀ feature fuel fuel' enables found, transitiveFeatureEnables fuel feature graph = some enables →
      expandFeatureDependencies graph dependencies fuel' [feature] = some found →
      ∀ dep, dep ∈ found ↔ dep ∈ names dependencies feature ∨ ∃ enabled ∈ enables, dep ∈ names dependencies enabled := by
  refine ⟨fun root => ?_,fun roots => ?_,fun feature fuel fuel' enables found closed expanded dep => ?_⟩
  · obtain ⟨enables,ends,sorted⟩ := transitiveEnds graph root
    exact ⟨enables,⟨_,ends⟩,sorted,transitiveMem (ends _ le_rfl)⟩
  · obtain ⟨found,ends⟩ := expandEnds graph dependencies roots
    exact ⟨found,⟨_,ends⟩,expandMem (ends _ le_rfl)⟩
  · rw [expandMem expanded]
    simp only [List.mem_singleton,exists_eq_left,transitiveMem closed]
    constructor
    · rintro ⟨enabled,leads,brings⟩
      rcases Relation.reflTransGen_iff_eq_or_transGen.mp leads with rfl | steps
      · exact Or.inl brings
      · exact Or.inr ⟨enabled,steps,brings⟩
    · rintro (own | ⟨enabled,steps,brings⟩)
      · exact ⟨feature,.refl,own⟩
      · exact ⟨enabled,steps.to_reflTransGen,brings⟩

end RustMcp.FeatureClosures
