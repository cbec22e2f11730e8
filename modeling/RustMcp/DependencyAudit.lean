import RustMcp.Advisories

/-! Auditing the dependencies of a manifest against the index. -/
namespace RustMcp.DependencyAudit
open Str Semver
open Advisories (CrateAdvisoryRow AdvisoryCounts advisoryCounts)

/-! Manifests. -/

/-- A `Cargo.toml` as the `cargo_toml` package reads it. The sections are those of the root
and of every target, each a dependency key and its requirement. -/
structure Manifest where
  packageName : Option Text
  /-- `rust-version`, where it is set and not inherited -/
  rustVersion : Option Text
  sections : List (List (Text × Option Text))

structure ParsedDependency where
  name : Text
  requirement : Option Text

structure ParsedManifest where
  packageName : Option Text
  packageRustVersion : Option Text
  dependencies : List ParsedDependency

def versionReq (requirement : Option Text) : Option Text := requirement.filter fun r => !r.isEmpty && r ≠ "*".toList

def collectDep (merged : Keyed.Map Text ParsedDependency) (dep : Text × Option Text) : Keyed.Map Text ParsedDependency :=
  let parsed : ParsedDependency := ⟨dep.1,versionReq dep.2⟩
  let key := toAsciiLowercase dep.1
  match merged[key]? with
  | none => merged.insert key parsed
  | some existing => if existing.requirement.isNone && parsed.requirement.isSome then merged.insert key parsed else merged

def parseManifest (parsed : Manifest) : ParsedManifest :=
  ⟨parsed.packageName,parsed.rustVersion,(parsed.sections.flatten.foldl collectDep ∅).toList.map Prod.snd⟩

/-! The index. -/

structure DependencyCrateRow where
  id : Int
  name : Text

structure DependencyVersionRow where
  id : Int
  version : Text
  rustVersion : Option Text
  yanked : Bool
  deriving DecidableEq

/-- The answers of the database to the queries of an audit, or its errors. -/
structure Index where
  /-- by name, case ignored -/
  fetchDependencyCrateByName : Text → Except Text (Option DependencyCrateRow)
  /-- newest first -/
  listDependencyVersionsByCrate : Int → Except Text (List DependencyVersionRow)
  fetchAdvisoryRows : Int → Except Text (List CrateAdvisoryRow)

/-! The response. -/

inductive IssueCategory where
  | yanked | advisory | outdated | msrvConflict | unresolved
  deriving DecidableEq

/-- Declaration order, which the derived `Ord` follows. -/
def IssueCategory.rank : IssueCategory → Nat
  | .yanked => 0
  | .advisory => 1
  | .outdated => 2
  | .msrvConflict => 3
  | .unresolved => 4

inductive IssueSeverity where
  | low | medium | high
  deriving DecidableEq

structure DependencyAuditIssue where
  dependencyName : Text
  category : IssueCategory
  severity : IssueSeverity
  message : Text
  selectedVersion : Option Text
  latestVersion : Option Text
  deriving DecidableEq

structure DependencyAuditDependency where
  dependencyName : Text
  requirement : Option Text
  selectedVersion : Option Text
  latestVersion : Option Text
  selectedRustVersion : Option Text
  yanked : Bool
  advisoryCount : Nat
  statusMarkers : List Text
  deriving DecidableEq

inductive ConfidenceLevel where
  | low | medium | high
  deriving DecidableEq

structure ConfidenceAssessment where
  level : ConfidenceLevel
  reason : Text
  deriving DecidableEq

/-- The response, without its fixed texts. -/
structure DependencyAuditResponse where
  packageName : Option Text
  packageRustVersion : Option Text
  dependencyCount : Nat
  issueCount : Nat
  dependencies : List DependencyAuditDependency
  issues : List DependencyAuditIssue
  confidenceAssessment : ConfidenceAssessment
  deriving DecidableEq

def counted (count : Nat) (rest : Text) : Text := Nat.toDigits 10 count ++ rest

def evaluateConfidence (dependencyCount unresolvedCount noRequirementCount unknownAdvisoryCount : Nat) : ConfidenceAssessment :=
  if dependencyCount = 0 then ⟨.low,"manifest has no dependencies to audit".toList⟩
  else if unresolvedCount > 0 then
    ⟨.medium,counted unresolvedCount " dependencies could not be resolved against indexed versions".toList⟩
  else if unknownAdvisoryCount > 0 then
    ⟨.medium,counted unknownAdvisoryCount " advisories have unknown applicability".toList⟩
  else if noRequirementCount > 0 then
    ⟨.medium,counted noRequirementCount " dependencies do not declare semver requirements".toList⟩
  else ⟨.high,"all dependencies resolved against indexed versions and advisories".toList⟩

/-! One dependency. -/

section
variable {V R : Type} (sv : Package V R)

def parseRustVersionFloor (version : Text) : Option V :=
  let trimmed := trim version
  if trimmed.isEmpty then none
  else
    match sv.parse trimmed with
    | some parsed => some parsed
    | none =>
        match split ".".toList (trimStartMatches "v".toList trimmed) with
        | [major] => sv.parse (major ++ ".0.0".toList)
        | [major,minor] => sv.parse (major ++ '.'::minor ++ ".0".toList)
        | [major,minor,patch] => sv.parse (major ++ '.'::minor ++ '.'::patch)
        | _ => none

/-- `matches_` is `VersionReq::matches`. -/
def satisfying (matches_ : R → V → Bool) (req : R) (row : DependencyVersionRow) : Option (V × DependencyVersionRow) :=
  match parseSemverForMatching sv row.version with
  | some parsed => if matches_ req parsed then some (parsed,row) else none
  | none => none

variable [LinearOrder V] (matches_ : R → V → Bool)

/-- The highest version that satisfies the requirement, of equal ones the last, or the latest one. -/
def selectVersion (requirement : Option R) (versions : List DependencyVersionRow) : Option DependencyVersionRow :=
  match requirement with
  | some req => ((Ranking.sortBy Prod.fst (versions.filterMap (satisfying sv matches_ req))).getLast?).map Prod.snd
  | none => versions.head?

def msrvConflict (packageRustFloor : Option V) (selected : DependencyVersionRow) : Bool :=
  match packageRustFloor,selected.rustVersion.bind (parseRustVersionFloor sv) with
  | some packageMsrv,some depMsrv => packageMsrv < depMsrv
  | _,_ => false

def issueOf (dep : ParsedDependency) (selected latest : Option DependencyVersionRow) (category : IssueCategory)
    (severity : IssueSeverity) (message : Text) : DependencyAuditIssue :=
  ⟨dep.name,category,severity,message,selected.map DependencyVersionRow.version,latest.map DependencyVersionRow.version⟩

/-- The status markers of a selected version, each with its issue. -/
def findings (manifest : ParsedManifest) (dep : ParsedDependency) (latest : Option DependencyVersionRow)
    (counts : AdvisoryCounts) (selected : DependencyVersionRow) : List (Text × DependencyAuditIssue) :=
  let issue := issueOf dep (some selected) latest
  (if selected.yanked then [("yanked".toList,issue .yanked .high "selected dependency version is yanked".toList)] else []) ++
  (if counts.affected > 0 then
    [("has_advisory".toList,issue .advisory .high (counted counts.affected " indexed advisories affect selected version".toList))]
  else []) ++
  (if counts.unknown > 0 then
    [("advisory_applicability_unknown".toList,issue .advisory .low
      (counted counts.unknown " indexed advisories could not be evaluated against selected version".toList))]
  else []) ++
  (if latest.any fun latest => latest.version ≠ selected.version then
    [("outdated".toList,issue .outdated .low "newer indexed version is available".toList)]
  else []) ++
  (if msrvConflict sv (manifest.packageRustVersion.bind (parseRustVersionFloor sv)) selected then
    [("msrv_conflict".toList,issue .msrvConflict .medium
      ("dependency MSRV ".toList ++ selected.rustVersion.getD "unknown".toList ++ " exceeds package rust-version ".toList ++
        manifest.packageRustVersion.getD "unknown".toList))]
  else [])

/-- What the loop has pushed and counted. -/
structure Audit where
  dependencies : List DependencyAuditDependency
  issues : List DependencyAuditIssue
  unresolvedCount : Nat
  noRequirementCount : Nat
  unknownAdvisoryCount : Nat

def Audit.start : Audit := ⟨[],[],0,0,0⟩

def Audit.add (audit : Audit) (more : Audit) : Audit :=
  ⟨audit.dependencies ++ more.dependencies,audit.issues ++ more.issues,audit.unresolvedCount + more.unresolvedCount,
    audit.noRequirementCount + more.noRequirementCount,audit.unknownAdvisoryCount + more.unknownAdvisoryCount⟩

def notIndexed (dep : ParsedDependency) : Audit where
  dependencies := [⟨dep.name,dep.requirement,none,none,none,false,0,["not_indexed".toList]⟩]
  issues := [issueOf dep none none .unresolved .medium
    "dependency not found in local index; run index_crates or index_refresh".toList]
  unresolvedCount := 1
  noRequirementCount := 0
  unknownAdvisoryCount := 0

/-- A dependency whose crate is in the index. -/
def indexed (manifest : ParsedManifest) (dep : ParsedDependency) (versions : List DependencyVersionRow)
    (selected : Option DependencyVersionRow) (counts : AdvisoryCounts) : Audit :=
  let latest := versions.head?
  let found := selected.elim [] (findings sv manifest dep latest counts)
  let markers := (if dep.requirement.isNone then ["missing_requirement".toList] else []) ++ found.map Prod.fst
  let unsatisfied := (dep.requirement.bind sv.parseReq).isSome && selected.isNone
  { dependencies := [⟨dep.name,dep.requirement,selected.map DependencyVersionRow.version,latest.map DependencyVersionRow.version,
      selected.bind DependencyVersionRow.rustVersion,selected.any DependencyVersionRow.yanked,counts.affected,
      if markers.isEmpty then ["ok".toList] else markers⟩]
    issues := (if unsatisfied then
      [issueOf dep none latest .unresolved .medium "no indexed versions satisfy declared semver requirement".toList]
      else []) ++ found.map Prod.snd
    unresolvedCount := 0
    noRequirementCount := if dep.requirement.isNone then 1 else 0
    unknownAdvisoryCount := selected.elim 0 fun _ => counts.unknown }

variable (index : Index)

def auditDependency (manifest : ParsedManifest) (dep : ParsedDependency) : Except Text Audit :=
  match index.fetchDependencyCrateByName dep.name with
  | .error e => .error ("dependency lookup failed for ".toList ++ dep.name ++ ": ".toList ++ e)
  | .ok none => .ok (notIndexed dep)
  | .ok (some crateRow) =>
      match index.listDependencyVersionsByCrate crateRow.id with
      | .error e => .error ("version lookup failed for ".toList ++ crateRow.name ++ ": ".toList ++ e)
      | .ok versions =>
          match selectVersion sv matches_ (dep.requirement.bind sv.parseReq) versions with
          | none => .ok (indexed sv manifest dep versions none ⟨0,0⟩)
          | some selected =>
              match index.fetchAdvisoryRows crateRow.id with
              | .error e => .error ("advisory lookup failed for ".toList ++ dep.name ++ ": ".toList ++ e)
              | .ok rows =>
                  .ok (indexed sv manifest dep versions (some selected) (advisoryCounts sv rows selected.id selected.version))

def auditAll (manifest : ParsedManifest) : List ParsedDependency → Audit → Except Text Audit
  | [],audit => .ok audit
  | dep::deps,audit =>
      match auditDependency sv matches_ index manifest dep with
      | .error e => .error e
      | .ok more => auditAll manifest deps (audit.add more)

def issueKey (issue : DependencyAuditIssue) : Text ×ₗ Nat := toLex (issue.dependencyName,issue.category.rank)

/-- `fromSlice` is `Manifest::from_slice` of the `cargo_toml` package. -/
def handleDependencyAudit (fromSlice : Text → Except Text Manifest) (cargoToml : Text) : Except Text DependencyAuditResponse :=
  let manifestText := trim cargoToml
  if manifestText.isEmpty then .error "cargo_toml must not be empty".toList
  else
    match fromSlice manifestText with
    | .error e => .error ("invalid Cargo.toml: ".toList ++ e)
    | .ok parsed =>
        let manifest := parseManifest parsed
        match auditAll sv matches_ index manifest manifest.dependencies Audit.start with
        | .error e => .error e
        | .ok audit => .ok
            { packageName := manifest.packageName
              packageRustVersion := manifest.packageRustVersion
              dependencyCount := audit.dependencies.length
              issueCount := audit.issues.length
              dependencies := Ranking.sortBy DependencyAuditDependency.dependencyName audit.dependencies
              issues := Ranking.sortBy issueKey audit.issues
              confidenceAssessment := evaluateConfidence audit.dependencies.length audit.unresolvedCount
                audit.noRequirementCount audit.unknownAdvisoryCount }

/-! What the verdicts say. -/

/-- A selected version that gives no reason for a marker. -/
structure Clean (manifest : ParsedManifest) (requirement : Option Text) (versions : List DependencyVersionRow)
    (rows : List CrateAdvisoryRow) (selected : DependencyVersionRow) : Prop where
  listed : selected ∈ versions
  satisfies : ∃ text req parsed, requirement = some text ∧ sv.parseReq text = some req ∧
    parseSemverForMatching sv selected.version = some parsed ∧ matches_ req parsed = true
  kept : selected.yanked = false
  counts : advisoryCounts sv rows selected.id selected.version = ⟨0,0⟩
  newest : ∀ latest, versions.head? = some latest → latest.version = selected.version
  msrv : msrvConflict sv (manifest.packageRustVersion.bind (parseRustVersionFloor sv)) selected = false

/-- What the marker "ok" of an entry says. -/
def Sound (manifest : ParsedManifest) (entry : DependencyAuditDependency) : Prop :=
  ∃ crateRow versions rows selected, index.fetchDependencyCrateByName entry.dependencyName = .ok (some crateRow) ∧
    index.listDependencyVersionsByCrate crateRow.id = .ok versions ∧ index.fetchAdvisoryRows crateRow.id = .ok rows ∧
    entry.selectedVersion = some selected.version ∧ Clean sv matches_ manifest entry.requirement versions rows selected

/-- The requirement of an indexed dependency can be met, or it is passed over for a latest version that is marked. -/
def Resolves (manifest : ParsedManifest) (dep : ParsedDependency) : Prop :=
  ∀ crateRow versions text, index.fetchDependencyCrateByName dep.name = .ok (some crateRow) →
    index.listDependencyVersionsByCrate crateRow.id = .ok versions → dep.requirement = some text →
    match sv.parseReq text with
    | some req => ∃ row ∈ versions, ∃ parsed, parseSemverForMatching sv row.version = some parsed ∧ matches_ req parsed = true
    | none => ∃ latest rows, versions.head? = some latest ∧ index.fetchAdvisoryRows crateRow.id = .ok rows ∧
        (latest.yanked = true ∨ advisoryCounts sv rows latest.id latest.version ≠ ⟨0,0⟩ ∨
          msrvConflict sv (manifest.packageRustVersion.bind (parseRustVersionFloor sv)) latest = true)

/-- High confidence and the marker "ok" are deserved. -/
def Deserved (manifest : ParsedManifest) (response : DependencyAuditResponse) : Prop :=
  (response.confidenceAssessment.level = .high →
    (∀ entry ∈ response.dependencies, entry.selectedVersion.isSome = true) ∧
    ∀ issue ∈ response.issues, issue.category ≠ .unresolved) ∧
  ∀ entry ∈ response.dependencies, "ok".toList ∈ entry.statusMarkers → Sound sv matches_ index manifest entry

end

/-! The loop. -/

theorem totalEntries (parts : List Audit) (audit : Audit) :
    (parts.foldl Audit.add audit).dependencies = audit.dependencies ++ parts.flatMap Audit.dependencies := by
  induction parts generalizing audit with
  | nil => simp
  | cons part parts ih => rw [List.foldl_cons,ih,List.flatMap_cons,Audit.add,List.append_assoc]

theorem totalIssues (parts : List Audit) (audit : Audit) :
    (parts.foldl Audit.add audit).issues = audit.issues ++ parts.flatMap Audit.issues := by
  induction parts generalizing audit with
  | nil => simp
  | cons part parts ih => rw [List.foldl_cons,ih,List.flatMap_cons,Audit.add,List.append_assoc]

/-- Nothing has been counted. -/
def Audit.Uncounted (audit : Audit) : Prop :=
  audit.unresolvedCount = 0 ∧ audit.noRequirementCount = 0 ∧ audit.unknownAdvisoryCount = 0

theorem addUncounted {audit more : Audit} : (audit.add more).Uncounted ↔ audit.Uncounted ∧ more.Uncounted := by
  simp only [Audit.Uncounted,Audit.add]
  omega

theorem totalUncounted {parts : List Audit} {audit : Audit} :
    (parts.foldl Audit.add audit).Uncounted ↔ audit.Uncounted ∧ ∀ part ∈ parts, part.Uncounted := by
  induction parts generalizing audit with
  | nil => simp
  | cons part parts ih => rw [List.foldl_cons,ih,addUncounted,List.forall_mem_cons,and_assoc]

theorem highUncounted {dependencyCount unresolvedCount noRequirementCount unknownAdvisoryCount : Nat}
    (high : (evaluateConfidence dependencyCount unresolvedCount noRequirementCount unknownAdvisoryCount).level = .high) :
    unresolvedCount = 0 ∧ noRequirementCount = 0 ∧ unknownAdvisoryCount = 0 := by
  rw [evaluateConfidence] at high
  split at high
  · cases high
  · split at high
    · cases high
    · split at high
      · cases high
      · split at high
        · cases high
        · omega

section
variable {V R : Type} {sv : Package V R} [LinearOrder V] {matches_ : R → V → Bool} {index : Index} {manifest : ParsedManifest}

theorem auditParts {deps : List ParsedDependency} {start audit : Audit}
    (audited : auditAll sv matches_ index manifest deps start = .ok audit) :
    ∃ parts : List Audit, (∀ dep ∈ deps, ∃ part ∈ parts, auditDependency sv matches_ index manifest dep = .ok part) ∧
      (∀ part ∈ parts, ∃ dep ∈ deps, auditDependency sv matches_ index manifest dep = .ok part) ∧
      audit = parts.foldl Audit.add start := by
  induction deps generalizing start with
  | nil =>
    cases audited
    exact ⟨[],by simp,by simp,rfl⟩
  | cons dep deps ih =>
    rw [auditAll] at audited
    cases one : auditDependency sv matches_ index manifest dep with
    | error e =>
      rw [one] at audited
      cases audited
    | ok more =>
      rw [one] at audited
      obtain ⟨parts,each,source,total⟩ := ih audited
      refine ⟨more::parts,?_,?_,total⟩
      · intro other mem
        rcases List.mem_cons.mp mem with rfl | later
        · exact ⟨more,List.mem_cons_self,one⟩
        · obtain ⟨part,among,ran⟩ := each other later
          exact ⟨part,List.mem_cons_of_mem _ among,ran⟩
      · intro part mem
        rcases List.mem_cons.mp mem with rfl | later
        · exact ⟨dep,List.mem_cons_self,one⟩
        · obtain ⟨other,among,ran⟩ := source part later
          exact ⟨other,List.mem_cons_of_mem _ among,ran⟩

/-! One dependency. -/

theorem findingsNone {dep : ParsedDependency} {latest : Option DependencyVersionRow} {counts : AdvisoryCounts}
    {selected : DependencyVersionRow} :
    findings sv manifest dep latest counts selected = [] ↔
      selected.yanked = false ∧ counts = ⟨0,0⟩ ∧ (∀ row, latest = some row → row.version = selected.version) ∧
        msrvConflict sv (manifest.packageRustVersion.bind (parseRustVersionFloor sv)) selected = false := by
  obtain ⟨affected,unknown⟩ := counts
  have newest : (latest.any fun latest => latest.version ≠ selected.version) = false ↔
      ∀ row, latest = some row → row.version = selected.version := by
    cases latest <;> simp
  simp only [findings,List.append_eq_nil_iff,ite_eq_right_iff,List.cons_ne_nil,imp_false,Bool.not_eq_true,newest,Nat.not_lt,
    Nat.le_zero,AdvisoryCounts.mk.injEq,and_assoc]

/-- A marker of a selected version is not "ok", and its issue is not that nothing is selected. -/
theorem findingsMark {dep : ParsedDependency} {latest : Option DependencyVersionRow} {counts : AdvisoryCounts}
    {selected : DependencyVersionRow} {found : Text × DependencyAuditIssue}
    (mem : found ∈ findings sv manifest dep latest counts selected) :
    found.1 ≠ "ok".toList ∧ found.2.category ≠ .unresolved := by
  have long {mark : Text} (least : 2 < mark.length) : mark ≠ "ok".toList := fun same =>
    absurd (same ▸ least) (by rw [String.toList_ofList]; decide)
  simp only [findings,List.mem_append,List.mem_ite_nil_right,List.mem_singleton,-String.reduceToList] at mem
  rcases mem with (((⟨_,rfl⟩ | ⟨_,rfl⟩) | ⟨_,rfl⟩) | ⟨_,rfl⟩) | ⟨_,rfl⟩
  all_goals
    refine ⟨long ?_,fun same => by cases same⟩
    change 2 < (String.toList _).length
    rw [String.toList_ofList]
    decide

/-- A version that satisfies the requirement. -/
def satisfyingVersion (sv : Package V R) (matches_ : R → V → Bool) (req : R) (row : DependencyVersionRow) : Option V :=
  (parseSemverForMatching sv row.version).filter fun version => matches_ req version

omit [LinearOrder V] in
theorem satisfyingIff {req : R} {row : DependencyVersionRow} {version : V} : satisfyingVersion sv matches_ req row = some version ↔
    parseSemverForMatching sv row.version = some version ∧ matches_ req version = true := by
  rw [satisfyingVersion,Option.filter_eq_some_iff]

theorem selectsHighest (req : R) (versions : List DependencyVersionRow) : selectVersion sv matches_ (some req) versions =
    Ranking.lastHighest (satisfyingVersion sv matches_ req) versions := by
  have keyed : satisfying sv matches_ req = fun row => (satisfyingVersion sv matches_ req row).map fun version => (version,row) := by
    funext row
    rw [satisfying,satisfyingVersion]
    cases parseSemverForMatching sv row.version with
    | none => rfl
    | some version => cases satisfied : matches_ req version <;> simp [Option.filter,satisfied]
  rw [selectVersion,Ranking.lastHighest,keyed]

theorem selectsSatisfying {req : R} {versions : List DependencyVersionRow} {selected : DependencyVersionRow}
    (found : selectVersion sv matches_ (some req) versions = some selected) :
    selected ∈ versions ∧ ∃ parsed, parseSemverForMatching sv selected.version = some parsed ∧ matches_ req parsed = true := by
  rw [selectsHighest] at found
  obtain ⟨before,after,version,rfl,satisfied,_⟩ := Ranking.lastHighestSome.mp found
  exact ⟨by simp,version,satisfyingIff.mp satisfied⟩

theorem selectsNone {req : R} {versions : List DependencyVersionRow}
    (missing : selectVersion sv matches_ (some req) versions = none) {row : DependencyVersionRow} (mem : row ∈ versions)
    {parsed : V} (reads : parseSemverForMatching sv row.version = some parsed) : matches_ req parsed = false := by
  rw [selectsHighest] at missing
  by_contra satisfied
  rw [Bool.not_eq_false] at satisfied
  cases (Ranking.lastHighestNone.mp missing row mem).symm.trans (satisfyingIff.mpr ⟨reads,satisfied⟩)

theorem auditCases {dep : ParsedDependency} {part : Audit} (audited : auditDependency sv matches_ index manifest dep = .ok part) :
    (index.fetchDependencyCrateByName dep.name = .ok none ∧ part = notIndexed dep) ∨
    ∃ crateRow versions, index.fetchDependencyCrateByName dep.name = .ok (some crateRow) ∧
      index.listDependencyVersionsByCrate crateRow.id = .ok versions ∧
      ((selectVersion sv matches_ (dep.requirement.bind sv.parseReq) versions = none ∧
          part = indexed sv manifest dep versions none ⟨0,0⟩) ∨
        ∃ selected rows, selectVersion sv matches_ (dep.requirement.bind sv.parseReq) versions = some selected ∧
          index.fetchAdvisoryRows crateRow.id = .ok rows ∧
          part = indexed sv manifest dep versions (some selected) (advisoryCounts sv rows selected.id selected.version)) := by
  rw [auditDependency] at audited
  cases looked : index.fetchDependencyCrateByName dep.name with
  | error e =>
    rw [looked] at audited
    cases audited
  | ok answer =>
    simp only [looked] at audited
    cases answer with
    | none => exact .inl ⟨rfl,(Except.ok.inj audited).symm⟩
    | some crateRow =>
      dsimp only at audited
      cases listed : index.listDependencyVersionsByCrate crateRow.id with
      | error e =>
        rw [listed] at audited
        cases audited
      | ok versions =>
        simp only [listed] at audited
        refine .inr ⟨crateRow,versions,rfl,listed,?_⟩
        cases chosen : selectVersion sv matches_ (dep.requirement.bind sv.parseReq) versions with
        | none =>
          simp only [chosen] at audited
          exact .inl ⟨rfl,(Except.ok.inj audited).symm⟩
        | some selected =>
          simp only [chosen] at audited
          cases advised : index.fetchAdvisoryRows crateRow.id with
          | error e =>
            rw [advised] at audited
            cases audited
          | ok rows =>
            simp only [advised] at audited
            exact .inr ⟨selected,rows,rfl,rfl,(Except.ok.inj audited).symm⟩

theorem indexedMark {dep : ParsedDependency} {versions : List DependencyVersionRow} {selected : Option DependencyVersionRow}
    {counts : AdvisoryCounts} {entry : DependencyAuditDependency}
    (mem : entry ∈ (indexed sv manifest dep versions selected counts).dependencies) :
    entry.dependencyName = dep.name ∧ entry.requirement = dep.requirement ∧
      entry.selectedVersion = selected.map DependencyVersionRow.version ∧
      ("ok".toList ∈ entry.statusMarkers ↔ dep.requirement.isSome = true ∧
        ∀ row, selected = some row → findings sv manifest dep versions.head? counts row = []) := by
  cases List.mem_singleton.mp mem
  refine ⟨rfl,rfl,rfl,?_⟩
  dsimp only
  have others : ∀ row, selected = some row → "ok".toList ∉ (findings sv manifest dep versions.head? counts row).map Prod.fst := by
    intro row _ listed
    obtain ⟨mark,among,named⟩ := List.mem_map.mp listed
    exact (findingsMark among).1 named
  cases declared : dep.requirement with
  | none => cases selected with
    | none => simp
    | some row => simpa using others row rfl
  | some text =>
    cases selected with
    | none => simp
    | some row =>
      cases found : findings sv manifest dep versions.head? counts row with
      | nil => simp [found]
      | cons first rest =>
        have unlike := others row rfl
        rw [found] at unlike
        simpa [found] using unlike

theorem entryUnselected {dep : ParsedDependency} {crateRow : DependencyCrateRow} {versions : List DependencyVersionRow}
    (looked : index.fetchDependencyCrateByName dep.name = .ok (some crateRow))
    (listed : index.listDependencyVersionsByCrate crateRow.id = .ok versions)
    (missing : selectVersion sv matches_ (dep.requirement.bind sv.parseReq) versions = none) :
    Resolves sv matches_ index manifest dep ↔ dep.requirement = none := by
  constructor
  · intro resolves
    cases declared : dep.requirement with
    | none => rfl
    | some text =>
      have met := resolves crateRow versions text looked listed declared
      rw [declared,Option.bind_some] at missing
      cases parsed : sv.parseReq text with
      | none =>
        rw [parsed] at met missing
        obtain ⟨latest,_,newest,_⟩ := met
        exact absurd (newest.symm.trans missing) (by simp)
      | some req =>
        rw [parsed] at met missing
        obtain ⟨row,mem,version,reads,satisfied⟩ := met
        exact absurd satisfied (by simp [selectsNone missing mem reads])
  · intro absent _ _ text _ _ declared
    exact absurd (absent.symm.trans declared) (by simp)

theorem cleanSelected {dep : ParsedDependency} {versions : List DependencyVersionRow} {selected : DependencyVersionRow}
    {rows : List CrateAdvisoryRow} (readable : (dep.requirement.bind sv.parseReq).isSome = true)
    (chosen : selectVersion sv matches_ (dep.requirement.bind sv.parseReq) versions = some selected)
    (unmarked : findings sv manifest dep versions.head? (advisoryCounts sv rows selected.id selected.version) selected = []) :
    Clean sv matches_ manifest dep.requirement versions rows selected := by
  obtain ⟨req,parsed⟩ := Option.isSome_iff_exists.mp readable
  obtain ⟨text,declared,reads⟩ := Option.bind_eq_some_iff.mp parsed
  rw [parsed] at chosen
  obtain ⟨mem,version,versionReads,satisfied⟩ := selectsSatisfying chosen
  obtain ⟨kept,counts,newest,msrv⟩ := findingsNone.mp unmarked
  exact ⟨mem,⟨text,req,version,declared,reads,versionReads,satisfied⟩,kept,counts,newest,msrv⟩

/-- A requirement that is read is met by the version that it selects. -/
theorem entryRead {dep : ParsedDependency} {crateRow : DependencyCrateRow} {versions : List DependencyVersionRow}
    {selected : DependencyVersionRow} {text : Text} {req : R}
    (looked : index.fetchDependencyCrateByName dep.name = .ok (some crateRow))
    (listed : index.listDependencyVersionsByCrate crateRow.id = .ok versions) (declared : dep.requirement = some text)
    (parsed : sv.parseReq text = some req) (chosen : selectVersion sv matches_ (some req) versions = some selected) :
    Resolves sv matches_ index manifest dep := by
  obtain ⟨mem,version,reads,satisfied⟩ := selectsSatisfying chosen
  intro crateRow' versions' text' looked' listed' declared'
  cases looked.symm.trans looked'
  cases listed.symm.trans listed'
  cases declared.symm.trans declared'
  rw [parsed]
  exact ⟨selected,mem,version,reads,satisfied⟩

/-- One that is not read takes the newest version, and resolves if that is marked. -/
theorem entryUnread {dep : ParsedDependency} {crateRow : DependencyCrateRow} {versions : List DependencyVersionRow}
    {selected : DependencyVersionRow} {rows : List CrateAdvisoryRow} {text : Text}
    (looked : index.fetchDependencyCrateByName dep.name = .ok (some crateRow))
    (listed : index.listDependencyVersionsByCrate crateRow.id = .ok versions)
    (advised : index.fetchAdvisoryRows crateRow.id = .ok rows) (declared : dep.requirement = some text)
    (parsed : sv.parseReq text = none) (newest : versions.head? = some selected) :
    Resolves sv matches_ index manifest dep ↔
      findings sv manifest dep versions.head? (advisoryCounts sv rows selected.id selected.version) selected ≠ [] := by
  constructor
  · intro resolves unmarked
    have met := resolves crateRow versions text looked listed declared
    rw [parsed] at met
    obtain ⟨latest,rows',head,advised',marked⟩ := met
    cases newest.symm.trans head
    cases advised.symm.trans advised'
    obtain ⟨kept,counts,_,msrv⟩ := findingsNone.mp unmarked
    rcases marked with yanked | counted | conflict
    · exact absurd (kept.symm.trans yanked) (by simp)
    · exact absurd counts counted
    · exact absurd (msrv.symm.trans conflict) (by simp)
  · intro marked crateRow' versions' text' looked' listed' declared'
    cases looked.symm.trans looked'
    cases listed.symm.trans listed'
    cases declared.symm.trans declared'
    rw [parsed]
    refine ⟨selected,rows,newest,advised,?_⟩
    by_contra unmarked
    simp only [not_or,Bool.not_eq_true,not_not] at unmarked
    obtain ⟨kept,counts,msrv⟩ := unmarked
    have alike (row : DependencyVersionRow) (same : versions.head? = some row) : row.version = selected.version := by
      rw [Option.some.inj (newest.symm.trans same)]
    exact marked (findingsNone.mpr ⟨kept,counts,alike,msrv⟩)

theorem entrySelected {dep : ParsedDependency} {crateRow : DependencyCrateRow} {versions : List DependencyVersionRow}
    {selected : DependencyVersionRow} {rows : List CrateAdvisoryRow}
    (looked : index.fetchDependencyCrateByName dep.name = .ok (some crateRow))
    (listed : index.listDependencyVersionsByCrate crateRow.id = .ok versions)
    (advised : index.fetchAdvisoryRows crateRow.id = .ok rows)
    (chosen : selectVersion sv matches_ (dep.requirement.bind sv.parseReq) versions = some selected) :
    Resolves sv matches_ index manifest dep ↔
      (dep.requirement.isSome = true →
        findings sv manifest dep versions.head? (advisoryCounts sv rows selected.id selected.version) selected = [] →
        (dep.requirement.bind sv.parseReq).isSome = true) := by
  cases declared : dep.requirement with
  | none =>
    refine ⟨fun _ some_ => by simp at some_,fun _ _ _ text _ _ same => ?_⟩
    exact absurd (declared.symm.trans same) (by simp)
  | some text =>
    rw [declared,Option.bind_some] at chosen
    rw [Option.bind_some]
    cases parsed : sv.parseReq text with
    | some req =>
      rw [parsed] at chosen
      exact iff_of_true (entryRead looked listed declared parsed chosen) fun _ _ => rfl
    | none =>
      rw [parsed] at chosen
      rw [entryUnread looked listed advised declared parsed chosen]
      simp

/-- The entry is marked "ok" wrongly where nothing resolves the requirement. -/
theorem entrySound {dep : ParsedDependency} {part : Audit} (audited : auditDependency sv matches_ index manifest dep = .ok part) :
    (∀ entry ∈ part.dependencies, "ok".toList ∈ entry.statusMarkers → Sound sv matches_ index manifest entry) ↔
      Resolves sv matches_ index manifest dep := by
  rcases auditCases audited with ⟨absent,rfl⟩ | ⟨crateRow,versions,looked,listed,⟨missing,rfl⟩ | ⟨selected,rows,chosen,advised,rfl⟩⟩
  · constructor
    · intro _ crateRow versions text looked
      exact absurd (absent.symm.trans looked) (by simp)
    · intro _ entry mem marked
      cases List.mem_singleton.mp mem
      exact absurd marked (by dsimp only; decide)
  · rw [entryUnselected looked listed missing]
    constructor
    · intro sound
      by_contra declared
      have mem : _ ∈ (indexed sv manifest dep versions none ⟨0,0⟩).dependencies := List.mem_singleton.mpr rfl
      obtain ⟨_,_,unselected,mark⟩ := indexedMark mem
      obtain ⟨_,_,_,selected,_,_,_,named,_⟩ := sound _ mem (mark.mpr ⟨Option.isSome_iff_ne_none.mpr declared,by simp⟩)
      cases unselected.symm.trans named
    · intro absent entry mem marked
      obtain ⟨_,_,_,mark⟩ := indexedMark mem
      exact absurd (mark.mp marked).1 (by simp [absent])
  · rw [entrySelected looked listed advised chosen]
    constructor
    · intro sound declared unmarked
      have mem : _ ∈ (indexed sv manifest dep versions (some selected)
          (advisoryCounts sv rows selected.id selected.version)).dependencies := List.mem_singleton.mpr rfl
      obtain ⟨_,required,_,mark⟩ := indexedMark mem
      obtain ⟨_,_,_,_,_,_,_,_,clean⟩ := sound _ mem (mark.mpr ⟨declared,fun row same => Option.some.inj same ▸ unmarked⟩)
      obtain ⟨text,req,_,same,reads,_⟩ := clean.satisfies
      rw [← required,same,Option.bind_some,reads]
      rfl
    · intro readable entry mem marked
      obtain ⟨named,required,version,mark⟩ := indexedMark mem
      obtain ⟨declared,unmarked⟩ := mark.mp marked
      have silent := unmarked selected rfl
      rw [Sound,named,required]
      exact ⟨crateRow,versions,rows,selected,looked,listed,advised,version,
        cleanSelected (readable declared silent) chosen silent⟩

theorem resolvesSelected {dep : ParsedDependency} {part : Audit}
    (audited : auditDependency sv matches_ index manifest dep = .ok part) (resolves : Resolves sv matches_ index manifest dep)
    (uncounted : part.Uncounted) :
    (∀ entry ∈ part.dependencies, entry.selectedVersion.isSome = true) ∧ ∀ issue ∈ part.issues, issue.category ≠ .unresolved := by
  rcases auditCases audited with ⟨_,rfl⟩ | ⟨crateRow,versions,looked,listed,⟨missing,rfl⟩ | ⟨selected,rows,_,_,rfl⟩⟩
  · exact absurd uncounted.1 Nat.one_ne_zero
  · have absent := (entryUnselected looked listed missing).mp resolves
    have counted : (if dep.requirement.isNone then 1 else 0) = 0 := uncounted.2.1
    simp [absent] at counted
  · constructor
    · intro entry mem
      rw [(indexedMark mem).2.2.1]
      rfl
    · intro issue mem
      simp only [indexed,Option.isNone_some,Bool.and_false,Bool.false_eq_true,if_false,List.nil_append,Option.elim_some] at mem
      obtain ⟨found,among,rfl⟩ := List.mem_map.mp mem
      exact (findingsMark among).2

theorem auditResponse {fromSlice : Text → Except Text Manifest} {cargoToml : Text} {parsed : Manifest}
    {response : DependencyAuditResponse} (read : fromSlice (trim cargoToml) = .ok parsed)
    (audited : handleDependencyAudit sv matches_ index fromSlice cargoToml = .ok response) :
    ∃ parts : List Audit, (∀ dep ∈ (parseManifest parsed).dependencies, ∃ part ∈ parts,
        auditDependency sv matches_ index (parseManifest parsed) dep = .ok part) ∧
      (∀ part ∈ parts, ∃ dep ∈ (parseManifest parsed).dependencies,
        auditDependency sv matches_ index (parseManifest parsed) dep = .ok part) ∧
      (∀ entry, entry ∈ response.dependencies ↔ ∃ part ∈ parts, entry ∈ part.dependencies) ∧
      (∀ issue, issue ∈ response.issues ↔ ∃ part ∈ parts, issue ∈ part.issues) ∧
      (response.confidenceAssessment.level = .high → ∀ part ∈ parts, part.Uncounted) := by
  simp only [handleDependencyAudit,read] at audited
  split at audited
  · cases audited
  · cases looped : auditAll sv matches_ index (parseManifest parsed) (parseManifest parsed).dependencies Audit.start with
    | error e => simp [looped] at audited
    | ok audit =>
      simp only [looped] at audited
      obtain ⟨parts,each,source,rfl⟩ := auditParts looped
      cases audited
      refine ⟨parts,each,source,fun entry => ?_,fun issue => ?_,fun high => ?_⟩
      · rw [Ranking.memSortBy,totalEntries,Audit.start,List.nil_append,List.mem_flatMap]
      · rw [Ranking.memSortBy,totalIssues,Audit.start,List.nil_append,List.mem_flatMap]
      · exact (totalUncounted.mp (highUncounted high)).2

theorem deservedVerdicts {fromSlice : Text → Except Text Manifest} {cargoToml : Text} {parsed : Manifest}
    {response : DependencyAuditResponse} (read : fromSlice (trim cargoToml) = .ok parsed)
    (audited : handleDependencyAudit sv matches_ index fromSlice cargoToml = .ok response) :
    Deserved sv matches_ index (parseManifest parsed) response ↔
      ∀ dep ∈ (parseManifest parsed).dependencies, Resolves sv matches_ index (parseManifest parsed) dep := by
  obtain ⟨parts,each,source,entries,issues,uncounted⟩ := auditResponse read audited
  constructor
  · rintro ⟨_,sound⟩ dep mem
    obtain ⟨part,among,one⟩ := each dep mem
    refine (entrySound one).mp fun entry here => sound entry ?_
    exact (entries entry).mpr ⟨part,among,here⟩
  · intro resolves
    constructor
    · intro high
      have none_ := uncounted high
      constructor
      · intro entry mem
        obtain ⟨part,among,here⟩ := (entries entry).mp mem
        obtain ⟨dep,listed,one⟩ := source part among
        exact (resolvesSelected one (resolves dep listed) (none_ part among)).1 entry here
      · intro issue mem
        obtain ⟨part,among,here⟩ := (issues issue).mp mem
        obtain ⟨dep,listed,one⟩ := source part among
        exact (resolvesSelected one (resolves dep listed) (none_ part among)).2 issue here
    · intro entry mem
      obtain ⟨part,among,here⟩ := (entries entry).mp mem
      obtain ⟨dep,listed,one⟩ := source part among
      exact (entrySound one).mpr (resolves dep listed) entry here

end

/-! A manifest that requires version 3 of a crate that is indexed up to 1.5.0, and one that requires version 1. -/

def demoReqs : Package Nat Nat where
  parse := demoPackage.parse
  clearBuild := id
  parseReq text := number text
  isVulnerable _ _ _ := none

def demoMatches (req version : Nat) : Bool := version / 100 = req

def demoIndex : Index where
  fetchDependencyCrateByName name := .ok (if name = "demo".toList then some ⟨1,name⟩ else none)
  listDependencyVersionsByCrate _ := .ok [⟨11,"1.5.0".toList,none,false⟩,⟨10,"1.0.0".toList,none,false⟩]
  fetchAdvisoryRows _ := .ok []

def demoManifest (requirement : Text) : Manifest := ⟨some "app".toList,none,[[("demo".toList,some requirement)]]⟩

/-- The requirement stands for the manifest's text. -/
def demoAudit (requirement : Text) : Except Text DependencyAuditResponse :=
  handleDependencyAudit demoReqs demoMatches demoIndex (fun text => .ok (demoManifest text)) requirement

def unsatisfiedResponse : DependencyAuditResponse where
  packageName := some "app".toList
  packageRustVersion := none
  dependencyCount := 1
  issueCount := 1
  dependencies := [⟨"demo".toList,some "3".toList,none,some "1.5.0".toList,none,false,0,["ok".toList]⟩]
  issues := [⟨"demo".toList,.unresolved,.medium,"no indexed versions satisfy declared semver requirement".toList,none,
    some "1.5.0".toList⟩]
  confidenceAssessment := ⟨.high,"all dependencies resolved against indexed versions and advisories".toList⟩

theorem unsatisfiedMarkedOk : demoAudit "3".toList = .ok unsatisfiedResponse ∧
    ¬ Deserved demoReqs demoMatches demoIndex (parseManifest (demoManifest "3".toList)) unsatisfiedResponse := by
  constructor
  · decide +kernel
  · rintro ⟨confident,_⟩
    exact absurd ((confident rfl).1 _ (List.mem_singleton.mpr rfl)) (by decide)

def satisfiedResponse : DependencyAuditResponse where
  packageName := some "app".toList
  packageRustVersion := none
  dependencyCount := 1
  issueCount := 0
  dependencies := [⟨"demo".toList,some "1".toList,some "1.5.0".toList,some "1.5.0".toList,none,false,0,["ok".toList]⟩]
  issues := []
  confidenceAssessment := ⟨.high,"all dependencies resolved against indexed versions and advisories".toList⟩

theorem satisfiedRun : demoAudit "1".toList = .ok satisfiedResponse := by decide +kernel

theorem satisfiedDeserved : Deserved demoReqs demoMatches demoIndex (parseManifest (demoManifest "1".toList)) satisfiedResponse ↔
    ∀ dep ∈ (parseManifest (demoManifest "1".toList)).dependencies,
      Resolves demoReqs demoMatches demoIndex (parseManifest (demoManifest "1".toList)) dep :=
  deservedVerdicts rfl satisfiedRun

end RustMcp.DependencyAudit
