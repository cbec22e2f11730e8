import RustMcp.DependencyAudit
import RustMcp.Queries

/-! `dependency_resolve`: the inputs of a request merged by crate, a version of each crate
selected, and the requirements of the selected versions checked against each other. -/
namespace RustMcp.DependencyResolve
open Str Semver
open DependencyAudit (DependencyCrateRow DependencyVersionRow Manifest parseManifest)
open Utils (normalizeOptional clamp)
open Queries (Value)

/-! Inputs. -/

structure DependencyResolveInputDependency where
  name : Text
  versionReq : Option Text

inductive Source where
  | explicit | cargoToml | addition
  deriving DecidableEq

structure NormalizedDependency where
  name : Text
  versionReq : Option Text
  source : Source

def NormalizedDependency.key (dep : NormalizedDependency) : Text := toAsciiLowercase dep.name

/-- None where the name is blank. -/
def normalizedEntry (source : Source) (entry : DependencyResolveInputDependency) : Option NormalizedDependency :=
  if trim entry.name = [] then none else some ⟨trim entry.name,normalizeOptional entry.versionReq,source⟩

def mergeEntry (existing : Option NormalizedDependency) (normalized : NormalizedDependency) : Option NormalizedDependency :=
  match existing with
  | none => some normalized
  | some existing =>
      if normalized.versionReq.isSome && (normalized.source = .addition || existing.versionReq.isNone) then some normalized
      else some existing

/-- In which order hash maps are iterated, and a query without `ORDER BY` lists its rows. -/
structure Shuffle (α : Type) where
  order : List α → List α
  perm : ∀ xs, (order xs).Perm xs

section
variable (explicitDependencies : Option (List DependencyResolveInputDependency))
  (manifestDependencies : List DependencyResolveInputDependency) (additions : Option (List DependencyResolveInputDependency))

/-- The inputs that are merged, the additions last. -/
def mergedInputs : List NormalizedDependency :=
  ((explicitDependencies.getD []).filterMap (normalizedEntry .explicit) ++
    manifestDependencies.filterMap (normalizedEntry .cargoToml)) ++ (additions.getD []).filterMap (normalizedEntry .addition)

def normalizeInputs (values : Shuffle NormalizedDependency) : List NormalizedDependency :=
  Ranking.sortBy NormalizedDependency.key (values.order
    ((Keyed.collect NormalizedDependency.key mergeEntry (mergedInputs explicitDependencies manifestDependencies additions)).toList.map
      Prod.snd))

/-! Which requirement an entry has. -/

/-- A non-blank requirement of an input for a crate. -/
def requirementAt (key : Text) (entry : DependencyResolveInputDependency) : Option Text :=
  if trim entry.name ≠ [] ∧ toAsciiLowercase (trim entry.name) = key then normalizeOptional entry.versionReq else none

/-- The last of the additions, or else the first of the others. -/
def requirementOf (key : Text) : Option Text :=
  ((additions.getD []).filterMap (requirementAt key)).getLast?.or
    ((explicitDependencies.getD [] ++ manifestDependencies).filterMap (requirementAt key)).head?

end

theorem mergeNone {entries : List NormalizedDependency} : entries.foldl mergeEntry none = none ↔ entries = [] := by
  have kept : ∀ (entries : List NormalizedDependency) existing, (entries.foldl mergeEntry (some existing)).isSome = true := by
    intro entries
    induction entries with
    | nil => exact fun _ => rfl
    | cons entry entries ih =>
      intro existing
      rw [List.foldl_cons,mergeEntry]
      split <;> exact ih _
  cases entries with
  | nil => simp
  | cons entry entries =>
    refine ⟨fun merged => ?_,fun empty => by cases empty⟩
    have some_ := kept entries entry
    rw [List.foldl_cons,mergeEntry] at merged
    rw [merged] at some_
    cases some_

theorem mergeOthers {entries : List NormalizedDependency} (others : ∀ entry ∈ entries, entry.source ≠ .addition)
    (existing : Option NormalizedDependency) : (entries.foldl mergeEntry existing).bind NormalizedDependency.versionReq =
      (existing.bind NormalizedDependency.versionReq).or (entries.filterMap NormalizedDependency.versionReq).head? := by
  induction entries generalizing existing with
  | nil => simp
  | cons entry entries ih =>
    have other : decide (entry.source = .addition) = false := decide_eq_false (others entry List.mem_cons_self)
    rw [List.foldl_cons,ih fun entry mem => others entry (List.mem_cons_of_mem _ mem)]
    cases existing with
    | none => cases req : entry.versionReq <;> simp [mergeEntry,req]
    | some existing =>
      cases req : entry.versionReq <;> cases old : existing.versionReq <;> simp [mergeEntry,other,req,old]

theorem mergeAdditions {entries : List NormalizedDependency} (additions : ∀ entry ∈ entries, entry.source = .addition)
    (existing : Option NormalizedDependency) : (entries.foldl mergeEntry existing).bind NormalizedDependency.versionReq =
      (entries.filterMap NormalizedDependency.versionReq).getLast?.or (existing.bind NormalizedDependency.versionReq) := by
  induction entries using List.reverseRecOn with
  | nil => simp
  | append_singleton entries entry ih =>
    have addition : decide (entry.source = .addition) = true := decide_eq_true (additions entry (by simp))
    have before := ih fun entry mem => additions entry (List.mem_append_left _ mem)
    rw [List.foldl_append,List.foldl_cons,List.foldl_nil,List.filterMap_append]
    cases merged : entries.foldl mergeEntry existing with
    | none =>
      rw [merged] at before
      cases req : entry.versionReq <;> simp_all [mergeEntry]
    | some old =>
      rw [merged] at before
      cases req : entry.versionReq <;> simp_all [mergeEntry]

theorem mergeFrom {entries : List NormalizedDependency} {merged : NormalizedDependency}
    (from_ : entries.foldl mergeEntry none = some merged) : merged ∈ entries := by
  induction entries using List.reverseRecOn generalizing merged with
  | nil => cases from_
  | append_singleton entries entry ih =>
    rw [List.foldl_append,List.foldl_cons,List.foldl_nil] at from_
    cases before : entries.foldl mergeEntry none with
    | none =>
      rw [before] at from_
      cases from_
      simp
    | some old =>
      rw [before,mergeEntry] at from_
      split at from_
      · cases from_
        simp
      · cases from_
        exact List.mem_append_left _ (ih before)

/-- Of the inputs for a crate, the additions come last. -/
theorem mergeRequirement {others additions : List NormalizedDependency} (first : ∀ entry ∈ others, entry.source ≠ .addition)
    (last : ∀ entry ∈ additions, entry.source = .addition) :
    ((others ++ additions).foldl mergeEntry none).bind NormalizedDependency.versionReq =
      (additions.filterMap NormalizedDependency.versionReq).getLast?.or (others.filterMap NormalizedDependency.versionReq).head? := by
  rw [List.foldl_append,mergeAdditions last,mergeOthers first,Option.bind_none,Option.none_or]

theorem entrySource {source : Source} {inputs : List DependencyResolveInputDependency} {key : Text} {entry : NormalizedDependency}
    (mem : entry ∈ (inputs.filterMap (normalizedEntry source)).filter fun entry => entry.key = key) : entry.source = source := by
  obtain ⟨input,_,normal⟩ := List.mem_filterMap.mp (List.mem_filter.mp mem).1
  rw [normalizedEntry] at normal
  split at normal
  · cases normal
  · cases normal
    rfl

theorem entryRequirements (source : Source) (inputs : List DependencyResolveInputDependency) (key : Text) :
    ((inputs.filterMap (normalizedEntry source)).filter fun entry => entry.key = key).filterMap NormalizedDependency.versionReq =
      inputs.filterMap (requirementAt key) := by
  rw [List.filter_filterMap,List.filterMap_filterMap]
  refine List.filterMap_congr fun input _ => ?_
  rw [normalizedEntry,requirementAt]
  by_cases blank : trim input.name = []
  · simp [blank]
  · by_cases same : toAsciiLowercase (trim input.name) = key <;> simp [blank,same,NormalizedDependency.key,Option.filter]

theorem entryKey {source : Source} {inputs : List DependencyResolveInputDependency} {key : Text} :
    (∃ entry ∈ inputs.filterMap (normalizedEntry source), entry.key = key) ↔
      ∃ input ∈ inputs, trim input.name ≠ [] ∧ toAsciiLowercase (trim input.name) = key := by
  simp only [List.mem_filterMap,normalizedEntry,Option.ite_none_left_eq_some,Option.some.injEq]
  constructor
  · rintro ⟨entry,⟨input,mem,named,rfl⟩,same⟩
    exact ⟨input,mem,named,same⟩
  · rintro ⟨input,mem,named,same⟩
    exact ⟨_,⟨input,mem,named,rfl⟩,same⟩

theorem mergedKey {entries : List NormalizedDependency} {key : Text} {entry : NormalizedDependency}
    (mem : (key,entry) ∈ (Keyed.collect NormalizedDependency.key mergeEntry entries).toList) : entry.key = key := by
  simpa using (List.mem_filter.mp (mergeFrom (Keyed.collectMem.mp mem))).2

section
variable (explicitDependencies : Option (List DependencyResolveInputDependency))
  (manifestDependencies : List DependencyResolveInputDependency) (additions : Option (List DependencyResolveInputDependency))
  (values : Shuffle NormalizedDependency)

theorem memInputs {entry : NormalizedDependency} : entry ∈ normalizeInputs explicitDependencies manifestDependencies additions values ↔
    ((mergedInputs explicitDependencies manifestDependencies additions).filter fun other => other.key = entry.key).foldl mergeEntry none =
      some entry := by
  rw [normalizeInputs,Ranking.memSortBy,(values.perm _).mem_iff,List.mem_map]
  constructor
  · rintro ⟨⟨key,entry⟩,mem,rfl⟩
    rw [mergedKey mem]
    exact Keyed.collectMem.mp mem
  · exact fun merged => ⟨(entry.key,entry),Keyed.collectMem.mpr merged,rfl⟩

theorem inputsAscending :
    (normalizeInputs explicitDependencies manifestDependencies additions values).Pairwise fun a b => a.key < b.key := by
  have once : ((values.order ((Keyed.collect NormalizedDependency.key mergeEntry
      (mergedInputs explicitDependencies manifestDependencies additions)).toList.map Prod.snd)).map NormalizedDependency.key).Nodup := by
    rw [((values.perm _).map _).nodup_iff]
    exact Keyed.valuesOnce fun key entry mem => mergedKey mem
  exact Ranking.sortByStrict once.of_map fun x memX y memY => List.inj_on_of_nodup_map once memX memY

/-- One entry for each name that is not blank, by name, with the requirement that takes precedence. -/
theorem inputsNormalized :
    (normalizeInputs explicitDependencies manifestDependencies additions values).Pairwise (fun a b => a.key < b.key) ∧
    (∀ key, (∃ entry ∈ normalizeInputs explicitDependencies manifestDependencies additions values, entry.key = key) ↔
      ∃ input ∈ explicitDependencies.getD [] ++ manifestDependencies ++ additions.getD [],
        trim input.name ≠ [] ∧ toAsciiLowercase (trim input.name) = key) ∧
    ∀ entry ∈ normalizeInputs explicitDependencies manifestDependencies additions values,
      entry.versionReq = requirementOf explicitDependencies manifestDependencies additions entry.key := by
  refine ⟨inputsAscending explicitDependencies manifestDependencies additions values,fun key => ?_,fun entry mem => ?_⟩
  · have keys : (∃ entry ∈ mergedInputs explicitDependencies manifestDependencies additions, entry.key = key) ↔
        ∃ input ∈ explicitDependencies.getD [] ++ manifestDependencies ++ additions.getD [],
          trim input.name ≠ [] ∧ toAsciiLowercase (trim input.name) = key := by
      simp only [mergedInputs,List.mem_append,or_and_right,exists_or,entryKey]
    rw [← keys]
    constructor
    · rintro ⟨entry,mem,rfl⟩
      have from_ := mergeFrom ((memInputs explicitDependencies manifestDependencies additions values).mp mem)
      exact ⟨entry,List.mem_of_mem_filter from_,rfl⟩
    · rintro ⟨input,mem,rfl⟩
      cases merged : ((mergedInputs explicitDependencies manifestDependencies additions).filter
          fun other => other.key = input.key).foldl mergeEntry none with
      | none =>
        have among : input ∈ (mergedInputs explicitDependencies manifestDependencies additions).filter
            fun other => other.key = input.key := List.mem_filter.mpr ⟨mem,decide_eq_true rfl⟩
        rw [mergeNone.mp merged] at among
        cases among
      | some entry =>
        have own := (List.mem_filter.mp (mergeFrom merged)).2
        rw [decide_eq_true_eq] at own
        exact ⟨entry,(memInputs explicitDependencies manifestDependencies additions values).mpr (own ▸ merged),own⟩
  · have merged := (memInputs explicitDependencies manifestDependencies additions values).mp mem
    rw [mergedInputs,List.filter_append] at merged
    have others : ∀ other ∈ ((explicitDependencies.getD []).filterMap (normalizedEntry .explicit) ++
        manifestDependencies.filterMap (normalizedEntry .cargoToml)).filter fun other => other.key = entry.key,
        other.source ≠ .addition := by
      intro other mem
      rw [List.filter_append] at mem
      rcases List.mem_append.mp mem with mem | mem <;> rw [entrySource mem] <;> decide
    have requirement := congrArg (Option.bind · NormalizedDependency.versionReq) merged
    rw [mergeRequirement others fun other mem => entrySource mem,entryRequirements,List.filter_append,List.filterMap_append,
      entryRequirements,entryRequirements,← List.filterMap_append] at requirement
    exact requirement.symm

end

/-! Selection. -/

section
variable {V R : Type} (sv : Package V R)

def parseSemverForMatching (version : Text) : Option V := (sv.parse version).or (sv.parse (trimStartMatches "v".toList version))

/-- `matches_` is `VersionReq::matches`. -/
def satisfyingVersion (matches_ : R → V → Bool) (req : R) (row : DependencyVersionRow) : Option V :=
  (parseSemverForMatching sv row.version).filter fun version => matches_ req version

variable [LinearOrder V] (matches_ : R → V → Bool)

/-- The highest version that satisfies the requirement, of equal ones the last, or the latest one. -/
def selectVersion (requirement : Option R) (versions : List DependencyVersionRow) : Option DependencyVersionRow :=
  match requirement with
  | some req => Ranking.lastHighest (satisfyingVersion sv matches_ req) versions
  | none => versions.head?

/-! The version that an audit selects. -/

/-- What is relied on of the `semver` package: the text of a version begins with no `v`, its order compares build
metadata last, and a requirement does not look at it. -/
structure Documented : Prop where
  digit : ∀ text v, sv.parse text = some v → stripPrefix "v".toList text = none
  order : ∀ a b, a ≤ b → sv.clearBuild a ≤ sv.clearBuild b
  build : ∀ req v, matches_ req (sv.clearBuild v) = matches_ req v

/-- No version that satisfies the requirement is of higher precedence. -/
def Highest (req : R) (versions : List DependencyVersionRow) (selected : Option DependencyVersionRow) : Prop :=
  match selected with
  | none => ∀ row ∈ versions, satisfyingVersion sv matches_ req row = none
  | some selected => selected ∈ versions ∧ ∃ high, satisfyingVersion sv matches_ req selected = some high ∧
      ∀ row ∈ versions, ∀ version, satisfyingVersion sv matches_ req row = some version → sv.clearBuild version ≤ sv.clearBuild high

/-- Among the versions that satisfy the requirement, one with at most one leading `v` is of the highest precedence
and of the highest build metadata there, and later than all of its precedence that are written so, and than all
of its build metadata. -/
def WrittenLast (req : R) (versions : List DependencyVersionRow) : Prop :=
  ∃ before chosen after high, versions = before ++ chosen::after ∧ satisfyingVersion sv matches_ req chosen = some high ∧
    (Semver.parseSemverForMatching sv chosen.version).isSome = true ∧
    (∀ row ∈ before, ∀ version, satisfyingVersion sv matches_ req row = some version → version ≤ high) ∧
    ∀ row ∈ after, ∀ version, satisfyingVersion sv matches_ req row = some version → version < high ∧
      ((Semver.parseSemverForMatching sv row.version).isSome = true → sv.clearBuild version < sv.clearBuild high)

end

theorem trimOnce {text rest : Text} (stripped : stripPrefix "v".toList text = some rest) (bare : stripPrefix "v".toList rest = none) :
    trimStartMatches "v".toList text = rest := by
  rw [stripPrefixIff.mp stripped]
  exact trimStartOnce (by decide) bare

theorem splitLast {α : Type} {before before' after after' : List α} {x : α} (same : before ++ x::after = before' ++ x::after')
    (last : x ∉ after) (last' : x ∉ after') : before = before' ∧ after = after' := by
  rcases List.append_eq_append_iff.mp same with ⟨more,rfl,shape⟩ | ⟨more,rfl,shape⟩
  · cases more with
    | nil => exact ⟨(List.append_nil _).symm,(List.cons.inj shape).2⟩
    | cons y more =>
      obtain ⟨_,rfl⟩ := List.cons.inj shape
      exact absurd (List.mem_append_right _ List.mem_cons_self) last
  · cases more with
    | nil => exact ⟨List.append_nil _,(List.cons.inj shape).2.symm⟩
    | cons y more =>
      obtain ⟨_,rfl⟩ := List.cons.inj shape
      exact absurd (List.mem_append_right _ List.mem_cons_self) last'

section
variable {V R : Type} {sv : Package V R} [LinearOrder V] {matches_ : R → V → Bool} (documented : Documented sv matches_)
include documented

/-- A version text that an audit reads is read to the same version, with its build metadata. -/
theorem auditReads {text : Text} {version : V} : Semver.parseSemverForMatching sv text = some version ↔
    (Semver.parseSemverForMatching sv text).isSome = true ∧ (parseSemverForMatching sv text).map sv.clearBuild = some version := by
  have same : (Semver.parseSemverForMatching sv text).isSome = true →
      Semver.parseSemverForMatching sv text = (parseSemverForMatching sv text).map sv.clearBuild := by
    rw [Semver.parseSemverForMatching,parseSemverForMatching,Option.isSome_map]
    cases stripped : stripPrefix "v".toList text with
    | none =>
      rw [Option.getD_none]
      intro reads
      obtain ⟨x,read⟩ := Option.isSome_iff_exists.mp reads
      rw [read,Option.some_or]
    | some rest =>
      rw [Option.getD_some]
      intro reads
      obtain ⟨x,read⟩ := Option.isSome_iff_exists.mp reads
      have unread : sv.parse text = none := by
        by_contra some_
        obtain ⟨y,other⟩ := Option.ne_none_iff_exists'.mp some_
        cases (documented.digit text y other).symm.trans stripped
      rw [unread,Option.none_or,trimOnce stripped (documented.digit rest x read)]
  constructor
  · intro reads
    have some_ : (Semver.parseSemverForMatching sv text).isSome = true := by rw [reads]; rfl
    exact ⟨some_,same some_ ▸ reads⟩
  · rintro ⟨some_,reads⟩
    exact (same some_).trans reads

theorem auditSatisfies {req : R} {row : DependencyVersionRow} {version : V} :
    DependencyAudit.satisfyingVersion sv matches_ req row = some version ↔
      (Semver.parseSemverForMatching sv row.version).isSome = true ∧ ∃ read, satisfyingVersion sv matches_ req row = some read ∧
        sv.clearBuild read = version := by
  rw [DependencyAudit.satisfyingIff,auditReads documented,Option.map_eq_some_iff]
  simp only [satisfyingVersion,Option.filter_eq_some_iff]
  constructor
  · rintro ⟨⟨written,read,reads,rfl⟩,satisfied⟩
    exact ⟨written,read,⟨reads,(documented.build req read).symm.trans satisfied⟩,rfl⟩
  · rintro ⟨written,read,⟨reads,satisfied⟩,rfl⟩
    exact ⟨⟨written,read,reads,rfl⟩,(documented.build req read).trans satisfied⟩

theorem selectedHighest (req : R) (versions : List DependencyVersionRow) :
    Highest sv matches_ req versions (selectVersion sv matches_ (some req) versions) := by
  cases chosen : selectVersion sv matches_ (some req) versions with
  | none => exact Ranking.lastHighestNone.mp chosen
  | some selected =>
    obtain ⟨before,after,high,rfl,here,below,above⟩ := Ranking.lastHighestSome.mp chosen
    refine ⟨by simp,high,here,fun row mem version reads => documented.order _ _ ?_⟩
    rcases List.mem_append.mp mem with early | late
    · exact below row early version reads
    · rcases List.mem_cons.mp late with rfl | late
      · exact le_of_eq (Option.some.inj (reads.symm.trans here))
      · exact le_of_lt (above row late version reads)

theorem selectionsAgree (req : R) (versions : List DependencyVersionRow) :
    (DependencyAudit.selectVersion sv matches_ (some req) versions = selectVersion sv matches_ (some req) versions ∧
      Highest sv matches_ req versions (selectVersion sv matches_ (some req) versions)) ↔
    (∀ row ∈ versions, satisfyingVersion sv matches_ req row = none) ∨ WrittenLast sv matches_ req versions := by
  rw [and_iff_left (selectedHighest documented req versions),DependencyAudit.selectsHighest]
  constructor
  · intro same
    cases chosen : selectVersion sv matches_ (some req) versions with
    | none => exact .inl (Ranking.lastHighestNone.mp chosen)
    | some selected =>
      rw [chosen] at same
      obtain ⟨before,after,version,shape,audited,earlier,later⟩ := Ranking.lastHighestSome.mp same
      obtain ⟨before',after',high,shape',resolved,below,above⟩ := Ranking.lastHighestSome.mp chosen
      obtain ⟨rfl,rfl⟩ := splitLast (shape.symm.trans shape') (fun mem => lt_irrefl _ (later _ mem _ audited))
        fun mem => lt_irrefl _ (above _ mem _ resolved)
      obtain ⟨written,read,reads,rfl⟩ := (auditSatisfies documented).mp audited
      cases reads.symm.trans resolved
      refine .inr ⟨before,selected,after,high,shape,resolved,written,below,fun row mem version reads => ⟨above row mem version reads,?_⟩⟩
      exact fun alike => later row mem _ ((auditSatisfies documented).mpr ⟨alike,version,reads,rfl⟩)
  · rintro (none_ | ⟨before,chosen,after,high,shape,resolved,written,below,above⟩)
    · have unaudited : ∀ row ∈ versions, DependencyAudit.satisfyingVersion sv matches_ req row = none := by
        intro row mem
        by_contra some_
        obtain ⟨version,audited⟩ := Option.ne_none_iff_exists'.mp some_
        obtain ⟨_,read,reads,_⟩ := (auditSatisfies documented).mp audited
        cases (none_ row mem).symm.trans reads
      rw [Ranking.lastHighestNone.mpr unaudited]
      exact (Ranking.lastHighestNone.mpr none_).symm
    · have audited : Ranking.lastHighest (DependencyAudit.satisfyingVersion sv matches_ req) versions = some chosen := by
        refine Ranking.lastHighestSome.mpr ⟨before,after,sv.clearBuild high,shape,
          (auditSatisfies documented).mpr ⟨written,high,resolved,rfl⟩,fun row mem version keyed => ?_,fun row mem version keyed => ?_⟩
        · obtain ⟨_,read,reads,rfl⟩ := (auditSatisfies documented).mp keyed
          exact documented.order _ _ (below row mem read reads)
        · obtain ⟨alike,read,reads,rfl⟩ := (auditSatisfies documented).mp keyed
          exact (above row mem read reads).2 alike
      rw [audited]
      exact (Ranking.lastHighestSome.mpr ⟨before,after,high,shape,resolved,below,fun row mem version reads =>
        (above row mem version reads).1⟩).symm

end

/-! Versions that differ in their build metadata. -/

def builds : List (Text × Nat ×ₗ Nat) :=
  [("1.0.0".toList,toLex (100,0)),("1.0.0+a".toList,toLex (100,1)),("1.0.0+b".toList,toLex (100,2)),("2.0.0".toList,toLex (200,0))]

def buildPackage : Package (Nat ×ₗ Nat) Nat where
  parse text := (builds.find? fun entry => entry.1 = text).map Prod.snd
  clearBuild v := toLex ((ofLex v).1,0)
  parseReq := number
  isVulnerable _ _ _ := none

def majorMatches (req : Nat) (v : Nat ×ₗ Nat) : Bool := (ofLex v).1 / 100 = req

theorem buildDocumented : Documented buildPackage majorMatches where
  digit text v parsed := by
    obtain ⟨entry,found,rfl⟩ := Option.map_eq_some_iff.mp parsed
    have named : entry.1 = text := by simpa using List.find?_some found
    have bare : ∀ entry ∈ builds, stripPrefix "v".toList entry.1 = none := by decide +kernel
    exact named ▸ bare entry (List.mem_of_find?_eq_some found)
  order a b below := by
    rw [Prod.Lex.le_iff] at below ⊢
    rcases below with less | ⟨same,_⟩
    · exact .inl less
    · exact .inr ⟨same,le_refl _⟩
  build _ _ := rfl

def buildRows : List DependencyVersionRow := [⟨2,"1.0.0+b".toList,none,false⟩,⟨1,"1.0.0+a".toList,none,false⟩]

/-- The audit selects the version that is listed last, the resolver the one of the higher build metadata. -/
theorem buildsDiffer : buildPackage.parseReq "1".toList = some 1 ∧
    (DependencyAudit.selectVersion buildPackage majorMatches (some 1) buildRows).map DependencyVersionRow.version = some "1.0.0+a".toList ∧
    (selectVersion buildPackage majorMatches (some 1) buildRows).map DependencyVersionRow.version = some "1.0.0+b".toList := by
  decide +kernel

theorem releasesAgree :
    let rows : List DependencyVersionRow := [⟨2,"2.0.0".toList,none,false⟩,⟨1,"1.0.0".toList,none,false⟩]
    (DependencyAudit.selectVersion buildPackage majorMatches (some 1) rows = selectVersion buildPackage majorMatches (some 1) rows ∧
      Highest buildPackage majorMatches 1 rows (selectVersion buildPackage majorMatches (some 1) rows)) ↔
    (∀ row ∈ rows, satisfyingVersion buildPackage majorMatches 1 row = none) ∨ WrittenLast buildPackage majorMatches 1 rows :=
  selectionsAgree buildDocumented 1 _

end RustMcp.DependencyResolve
