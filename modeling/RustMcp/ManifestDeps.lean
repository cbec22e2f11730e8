import RustMcp.DependencyAudit

/-! The dependencies of a manifest with the packages that they name: what is merged from all
sections under the table key, against what Cargo would fetch. -/
namespace RustMcp.ManifestDeps
open Str (Text toAsciiLowercase)
open DependencyAudit (ParsedDependency ParsedManifest versionReq collectDep)

/-! Manifests, as the `cargo_toml` package reads them. -/

inductive Dependency where
  | simple (requirement : Text)
  | inherited
  | detailed (version package : Option Text)

/-- `try_req`, where it does not fail. -/
def Dependency.tryReq : Dependency → Option Text
  | .simple requirement => some requirement
  | .inherited => none
  | .detailed version _ => some (version.getD "*".toList)

def Dependency.package : Dependency → Option Text
  | .detailed _ package => package
  | _ => none

abbrev DepsSet := Keyed.Map Text Dependency

structure Target where
  dependencies : DepsSet
  devDependencies : DepsSet
  buildDependencies : DepsSet

inductive Inheritable where
  | set (value : Text)
  | inherited

structure Package where
  name : Text
  rustVersion : Option Inheritable

structure Manifest where
  package : Option Package
  dependencies : DepsSet
  devDependencies : DepsSet
  buildDependencies : DepsSet
  target : Keyed.Map Text Target

/-! The code. -/

def collectDepsSet (merged : Keyed.Map Text ParsedDependency) (deps : DepsSet) : Keyed.Map Text ParsedDependency :=
  deps.toList.foldl (fun merged dep => collectDep merged (dep.1,dep.2.tryReq)) merged

def collectTarget (merged : Keyed.Map Text ParsedDependency) (target : Target) : Keyed.Map Text ParsedDependency :=
  collectDepsSet (collectDepsSet (collectDepsSet merged target.dependencies) target.devDependencies) target.buildDependencies

def explicitRustVersion : Option Inheritable → Option Text
  | some (.set value) => some value
  | _ => none

def mergedDependencies (parsed : Manifest) : Keyed.Map Text ParsedDependency :=
  let merged := collectDepsSet (collectDepsSet (collectDepsSet ∅ parsed.dependencies) parsed.devDependencies)
    parsed.buildDependencies
  (parsed.target.toList.map Prod.snd).foldl collectTarget merged

def parseManifest (fromSlice : Text → Except Text Manifest) (manifest : Text) : Except Text ParsedManifest :=
  match fromSlice manifest with
  | .error e => .error ("invalid Cargo.toml: ".toList ++ e)
  | .ok parsed =>
      .ok ⟨parsed.package.map Package.name,parsed.package.bind fun package => explicitRustVersion package.rustVersion,
        (mergedDependencies parsed).toList.map Prod.snd⟩

/-! What is declared. -/

/-- A dependency under its table key. -/
abbrev Declared := Text × Dependency

def Target.sections (target : Target) : List DepsSet := [target.dependencies,target.devDependencies,target.buildDependencies]

def Manifest.sections (parsed : Manifest) : List DepsSet :=
  [parsed.dependencies,parsed.devDependencies,parsed.buildDependencies] ++
    (parsed.target.toList.map Prod.snd).flatMap Target.sections

def Manifest.declared (parsed : Manifest) : List Declared := parsed.sections.flatMap fun section_ => section_.toList

/-- The package that Cargo fetches for a dependency. -/
def registryPackage (dep : Declared) : Text := dep.2.package.getD dep.1

section
variable (nameOf : Declared → Text)

/-- The dependencies that have this name, letter case aside. -/
def named (deps : List Declared) (name : Text) : List Declared := deps.filter fun dep => toAsciiLowercase (nameOf dep) = name

def firstExplicit (deps : List Declared) (name : Text) : Option Text :=
  (named nameOf deps name).findSome? fun dep => versionReq dep.2.tryReq

/-- The requirements of the entries that a name is to have: one entry, where it is declared. -/
def expected (deps : List Declared) (name : Text) : List (Option Text) :=
  if named nameOf deps name = [] then [] else [firstExplicit nameOf deps name]

end

/-- One entry for every package that is declared, with its first explicit requirement. -/
def OnePerPackage (deps : List Declared) (entries : List ParsedDependency) : Prop :=
  ∀ name, (entries.filter fun entry => toAsciiLowercase entry.name = name).map ParsedDependency.requirement =
    expected registryPackage deps name

/-- What is declared under a name as table key is, as far as it matters, what is declared for the package
of this name. -/
def RenamesHarmless (deps : List Declared) : Prop :=
  ∀ name, ((∃ dep ∈ deps, toAsciiLowercase dep.1 = name) ↔ ∃ dep ∈ deps, toAsciiLowercase (registryPackage dep) = name) ∧
    firstExplicit Prod.fst deps name = firstExplicit registryPackage deps name

/-! The merge. -/

section
variable {nameOf : Declared → Text} {deps : List Declared} {dep : Declared} {name : Text}

theorem namedConcat (nameOf : Declared → Text) (deps : List Declared) (dep : Declared) (name : Text) :
    named nameOf (deps ++ [dep]) name = named nameOf deps name ++ if toAsciiLowercase (nameOf dep) = name then [dep] else [] := by
  rw [named,List.filter_append]
  by_cases own : toAsciiLowercase (nameOf dep) = name <;> simp [named,own]

theorem namedNil : named nameOf deps name = [] ↔ ¬∃ dep ∈ deps, toAsciiLowercase (nameOf dep) = name := by
  simp [named,List.filter_eq_nil_iff]

theorem firstExplicitConcat (nameOf : Declared → Text) (deps : List Declared) (dep : Declared) (name : Text) :
    firstExplicit nameOf (deps ++ [dep]) name =
      (firstExplicit nameOf deps name).or (if toAsciiLowercase (nameOf dep) = name then versionReq dep.2.tryReq else none) := by
  rw [firstExplicit,namedConcat,List.findSome?_append]
  by_cases own : toAsciiLowercase (nameOf dep) = name
  · have last : [dep].findSome? (fun dep => versionReq dep.2.tryReq) = versionReq dep.2.tryReq := by
      rw [List.findSome?_cons]
      cases versionReq dep.2.tryReq <;> rfl
    rw [if_pos own,if_pos own,last]
    rfl
  · rw [if_neg own,if_neg own]
    rfl

/-- What the merged map holds under a key once `deps` have been collected. -/
def Stands (deps : List Declared) (key : Text) (held : Option ParsedDependency) : Prop :=
  match held with
  | none => named Prod.fst deps key = []
  | some entry => named Prod.fst deps key ≠ [] ∧ toAsciiLowercase entry.name = key ∧ entry.requirement = firstExplicit Prod.fst deps key

def collected (deps : List Declared) : Keyed.Map Text ParsedDependency :=
  deps.foldl (fun merged dep => collectDep merged (dep.1,dep.2.tryReq)) ∅

theorem collectOther {merged : Keyed.Map Text ParsedDependency} {key : Text} {requirement : Option Text}
    (other : toAsciiLowercase name ≠ key) : (collectDep merged (name,requirement))[key]? = merged[key]? := by
  simp only [collectDep]
  split
  · rw [Keyed.insertAt,if_neg other]
  · split
    · rw [Keyed.insertAt,if_neg other]
    · rfl

theorem collectOwn {merged : Keyed.Map Text ParsedDependency} {requirement : Option Text} :
    (collectDep merged (name,requirement))[toAsciiLowercase name]? =
      match merged[toAsciiLowercase name]? with
      | none => some ⟨name,versionReq requirement⟩
      | some existing =>
          if existing.requirement.isNone && (versionReq requirement).isSome then some ⟨name,versionReq requirement⟩ else some existing := by
  simp only [collectDep]
  cases held : merged[toAsciiLowercase name]? with
  | none => simp only [Keyed.insertAt,if_pos]
  | some existing =>
    simp only
    split
    · rw [Keyed.insertAt,if_pos rfl]
    · rw [held]

section
variable {deps : List Declared} {dep : Declared}

theorem standsOther {key : Text} {held : Option ParsedDependency} (other : toAsciiLowercase dep.1 ≠ key)
    (before : Stands deps key held) : Stands (deps ++ [dep]) key held := by
  cases held with
  | none =>
    simp only [Stands] at before ⊢
    rw [namedConcat,before,if_neg other]
    rfl
  | some existing =>
    obtain ⟨some_,name,first⟩ := before
    refine ⟨by simp [namedConcat,other,some_],name,?_⟩
    rw [firstExplicitConcat,if_neg other,Option.or_none,first]

theorem standsOwn {merged : Keyed.Map Text ParsedDependency} (before : Stands deps (toAsciiLowercase dep.1) merged[toAsciiLowercase dep.1]?) :
    Stands (deps ++ [dep]) (toAsciiLowercase dep.1) (collectDep merged (dep.1,dep.2.tryReq))[toAsciiLowercase dep.1]? := by
  have more : named Prod.fst (deps ++ [dep]) (toAsciiLowercase dep.1) ≠ [] := by simp [namedConcat]
  rw [collectOwn]
  cases held : merged[toAsciiLowercase dep.1]? with
  | none =>
    have none_ : named Prod.fst deps (toAsciiLowercase dep.1) = [] := by simpa only [held,Stands] using before
    refine ⟨more,rfl,?_⟩
    rw [firstExplicitConcat,if_pos rfl,firstExplicit,none_]
    rfl
  | some existing =>
    rw [held] at before
    obtain ⟨-,name,first⟩ := before
    simp only
    split
    · rename_i replaces
      obtain ⟨bare,explicit⟩ := Bool.and_eq_true_iff.mp replaces
      refine ⟨more,rfl,?_⟩
      rw [firstExplicitConcat,← first,Option.isNone_iff_eq_none.mp bare,if_pos rfl]
      rfl
    · rename_i stays
      refine ⟨more,name,?_⟩
      rw [firstExplicitConcat,← first,if_pos rfl]
      cases own_ : existing.requirement with
      | some _ => rfl
      | none =>
        cases found : versionReq dep.2.tryReq with
        | none => rfl
        | some _ => simp [own_,found] at stays

end

theorem collectedStands (deps : List Declared) (key : Text) : Stands deps key (collected deps)[key]? := by
  induction deps using List.reverseRecOn with
  | nil => simp [collected,Stands,named]
  | append_singleton deps dep ih =>
    have step : collected (deps ++ [dep]) = collectDep (collected deps) (dep.1,dep.2.tryReq) := List.foldl_concat ..
    rw [step]
    by_cases own : toAsciiLowercase dep.1 = key
    · subst own
      exact standsOwn ih
    · rw [collectOther own]
      exact standsOther own ih

theorem collectSections (sections : List DepsSet) (merged : Keyed.Map Text ParsedDependency) :
    sections.foldl collectDepsSet merged =
      (sections.flatMap fun section_ => section_.toList).foldl (fun merged dep => collectDep merged (dep.1,dep.2.tryReq)) merged := by
  induction sections generalizing merged with
  | nil => rfl
  | cons section_ sections ih =>
    rw [List.foldl_cons,ih,List.flatMap_cons,List.foldl_append]
    rfl

theorem collectTargets (targets : List Target) (merged : Keyed.Map Text ParsedDependency) :
    targets.foldl collectTarget merged = (targets.flatMap Target.sections).foldl collectDepsSet merged := by
  induction targets generalizing merged with
  | nil => rfl
  | cons target targets ih =>
    rw [List.foldl_cons,ih,List.flatMap_cons,List.foldl_append]
    rfl

theorem mergedCollected (parsed : Manifest) : mergedDependencies parsed = collected parsed.declared := by
  rw [collected,Manifest.declared,← collectSections,Manifest.sections,List.foldl_append,← collectTargets]
  rfl

/-- The entries of a name are those that its table key calls for. -/
theorem entriesByKey (deps : List Declared) (name : Text) :
    (((collected deps).toList.map Prod.snd).filter fun entry => toAsciiLowercase entry.name = name).map ParsedDependency.requirement =
      expected Prod.fst deps name := by
  have keyed : ∀ key entry, (key,entry) ∈ (collected deps).toList → toAsciiLowercase entry.name = key := by
    intro key entry mem
    have stands := collectedStands deps key
    rw [Keyed.mapMem.mp mem] at stands
    exact stands.2.1
  rw [Keyed.valuesAt (collected deps) (fun entry => toAsciiLowercase entry.name) keyed name,expected]
  have stands := collectedStands deps name
  cases held : (collected deps)[name]? with
  | none =>
    rw [held] at stands
    have none_ : named Prod.fst deps name = [] := stands
    rw [if_pos none_]
    rfl
  | some entry =>
    rw [held] at stands
    rw [if_neg stands.1,← stands.2.2]
    rfl

theorem expectedSame {one other : Declared → Text} :
    expected one deps name = expected other deps name ↔
      ((∃ dep ∈ deps, toAsciiLowercase (one dep) = name) ↔ ∃ dep ∈ deps, toAsciiLowercase (other dep) = name) ∧
        firstExplicit one deps name = firstExplicit other deps name := by
  have none_ {nameOf : Declared → Text} (absent : named nameOf deps name = []) : firstExplicit nameOf deps name = none := by
    rw [firstExplicit,absent]
    rfl
  unfold expected
  rw [← not_iff_not (a := ∃ dep ∈ deps, toAsciiLowercase (one dep) = name),← namedNil,← namedNil]
  by_cases first : named one deps name = [] <;> by_cases second : named other deps name = [] <;>
    simp_all

/-- Where no package differs from its table key, nothing can go wrong. -/
theorem unrenamedHarmless (same : ∀ dep ∈ deps, toAsciiLowercase (registryPackage dep) = toAsciiLowercase dep.1) :
    RenamesHarmless deps := by
  intro name
  have alike : named Prod.fst deps name = named registryPackage deps name :=
    List.filter_congr fun dep mem => by rw [same dep mem]
  refine ⟨?_,by rw [firstExplicit,alike,firstExplicit]⟩
  rw [← not_iff_not,← namedNil,← namedNil,alike]

end

def noDeps : DepsSet := ∅

def rootManifest (dependencies : DepsSet) : Manifest := ⟨none,dependencies,noDeps,noDeps,∅⟩

theorem rootDeclared (dependencies : DepsSet) : (rootManifest dependencies).declared = dependencies.toList := by
  have none_ : (∅ : DepsSet).toList = [] := rfl
  have targets : (∅ : Keyed.Map Text Target).toList = [] := rfl
  simp [Manifest.declared,Manifest.sections,rootManifest,noDeps,none_,targets]

def plainSerde : DepsSet := Keyed.ofPairs [("serde".toList,.simple "1".toList)]

def renamedSerde : DepsSet := Keyed.ofPairs [("my_serde".toList,.detailed (some "1".toList) (some "serde".toList))]

end RustMcp.ManifestDeps
