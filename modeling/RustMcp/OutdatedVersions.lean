import RustMcp.DependencyAudit
import RustMcp.Utils

/-! The marker "outdated" of an audit goes by the dates of versions: where a newer version is of
higher precedence than the selected one, and where it is not. -/
namespace RustMcp.OutdatedVersions
open Str Semver DependencyAudit
open Advisories (AdvisoryCounts)

section
variable {V R : Type} (sv : Package V R) [LinearOrder V] (matches_ : R → V → Bool) (index : Index)

def Higher (newer older : Text) : Prop :=
  ∃ high low, parseSemverForMatching sv newer = some high ∧ parseSemverForMatching sv older = some low ∧ low < high

/-- The latest version that is shown is indexed, and of higher precedence than the selected one. -/
def NewerIndexed (dependencyName : Text) (selected latest : Option Text) : Prop :=
  ∃ crateRow versions row older, index.fetchDependencyCrateByName dependencyName = .ok (some crateRow) ∧
    index.listDependencyVersionsByCrate crateRow.id = .ok versions ∧ row ∈ versions ∧ latest = some row.version ∧
    selected = some older ∧ Higher sv row.version older

/-- What the marker and the issue say of the entries of an audit. -/
def Truthful (dependencies : List DependencyAuditDependency) (issues : List DependencyAuditIssue) : Prop :=
  (∀ entry ∈ dependencies, "outdated".toList ∈ entry.statusMarkers →
    NewerIndexed sv index entry.dependencyName entry.selectedVersion entry.latestVersion) ∧
  ∀ issue ∈ issues, issue.category = .outdated →
    NewerIndexed sv index issue.dependencyName issue.selectedVersion issue.latestVersion

/-- No other version that satisfies the requirement reaches the version that is listed first. -/
def LatestHighest (dep : ParsedDependency) : Prop :=
  ∀ crateRow versions latest req, index.fetchDependencyCrateByName dep.name = .ok (some crateRow) →
    index.listDependencyVersionsByCrate crateRow.id = .ok versions → versions.head? = some latest →
    dep.requirement.bind sv.parseReq = some req →
    ∀ row ∈ versions, ∀ version, parseSemverForMatching sv row.version = some version → matches_ req version = true →
      row.version ≠ latest.version → Higher sv latest.version row.version

/-- `UNIQUE (crate_id, version)` -/
def UniqueVersions : Prop :=
  ∀ crateId versions, index.listDependencyVersionsByCrate crateId = .ok versions → (versions.map DependencyVersionRow.version).Nodup

end

section
variable {V R : Type} {sv : Package V R} [LinearOrder V] {matches_ : R → V → Bool} {index : Index} {manifest : ParsedManifest}

/-- The selected version is the highest that satisfies the requirement, and where it is listed first no
other is as high. -/
theorem selectedHighest {req : R} {versions : List DependencyVersionRow} {selected : DependencyVersionRow}
    (chosen : selectVersion sv matches_ (some req) versions = some selected) :
    ∃ high, parseSemverForMatching sv selected.version = some high ∧ matches_ req high = true ∧ selected ∈ versions ∧
      ∀ row ∈ versions, ∀ version, parseSemverForMatching sv row.version = some version → matches_ req version = true →
        version ≤ high ∧ (versions.Nodup → versions.head? = some selected → row ≠ selected → version < high) := by
  rw [selectsHighest] at chosen
  obtain ⟨before,after,high,rfl,here,below,above⟩ := Ranking.lastHighestSome.mp chosen
  obtain ⟨reads,satisfied⟩ := satisfyingIff.mp here
  refine ⟨high,reads,satisfied,by simp,fun row mem version otherReads otherSatisfied => ⟨?_,fun once first unlike => ?_⟩⟩
  · have keyed := satisfyingIff.mpr ⟨otherReads,otherSatisfied⟩
    rcases List.mem_append.mp mem with early | late
    · exact below row early version keyed
    · rcases List.mem_cons.mp late with rfl | late
      · exact le_of_eq (Option.some.inj (keyed.symm.trans here))
      · exact le_of_lt (above row late version keyed)
  · cases before with
    | nil =>
      refine above row ?_ version (satisfyingIff.mpr ⟨otherReads,otherSatisfied⟩)
      exact (List.mem_cons.mp mem).resolve_left unlike
    | cons head before =>
      cases first
      exact absurd (List.mem_append_right before List.mem_cons_self) (List.nodup_cons.mp once).1

theorem findingsOutdated {dep : ParsedDependency} {latest : Option DependencyVersionRow} {counts : AdvisoryCounts}
    {selected : DependencyVersionRow} {found : Text × DependencyAuditIssue}
    (mem : found ∈ findings sv manifest dep latest counts selected) :
    (found.1 = "outdated".toList ↔ found.2.category = .outdated) ∧
      (found.2.category = .outdated → ∃ row, latest = some row ∧ row.version ≠ selected.version) ∧
      found.2.dependencyName = dep.name ∧ found.2.selectedVersion = some selected.version ∧
      found.2.latestVersion = latest.map DependencyVersionRow.version := by
  have newest : (latest.any fun row => row.version ≠ selected.version) = true →
      ∃ row, latest = some row ∧ row.version ≠ selected.version := by
    cases latest with
    | none => simp
    | some row => exact fun unlike => ⟨row,rfl,by simpa using unlike⟩
  have other {mark : Text} (unlike : mark ≠ ['o','u','t','d','a','t','e','d']) : mark ≠ "outdated".toList :=
    fun same => unlike (same.trans String.toList_ofList)
  simp only [findings,List.mem_append,List.mem_ite_nil_right,List.mem_singleton,-String.reduceToList] at mem
  rcases mem with (((⟨_,rfl⟩ | ⟨_,rfl⟩) | ⟨_,rfl⟩) | ⟨unlike,rfl⟩) | ⟨_,rfl⟩
  · exact ⟨iff_of_false (other (show "yanked".toList ≠ _ by rw [String.toList_ofList]; decide)) (fun same => by cases same),
      (fun same => by cases same),rfl,rfl,rfl⟩
  · exact ⟨iff_of_false (other (show "has_advisory".toList ≠ _ by rw [String.toList_ofList]; decide)) (fun same => by cases same),
      (fun same => by cases same),rfl,rfl,rfl⟩
  · exact ⟨iff_of_false (other (show "advisory_applicability_unknown".toList ≠ _ by rw [String.toList_ofList]; decide)) (fun same => by cases same),
      (fun same => by cases same),rfl,rfl,rfl⟩
  · exact ⟨iff_of_true rfl rfl,fun _ => newest unlike,rfl,rfl,rfl⟩
  · exact ⟨iff_of_false (other (show "msrv_conflict".toList ≠ _ by rw [String.toList_ofList]; decide)) (fun same => by cases same),
      (fun same => by cases same),rfl,rfl,rfl⟩

variable (sv manifest) in
theorem outdatedListed (dep : ParsedDependency) (counts : AdvisoryCounts) {first : Option DependencyVersionRow}
    {latest selected : DependencyVersionRow} (listed : first = some latest) (unlike : latest.version ≠ selected.version) :
    ("outdated".toList,issueOf dep (some selected) first .outdated .low "newer indexed version is available".toList) ∈
      findings sv manifest dep first counts selected := by
  have newer : (first.any fun row => row.version ≠ selected.version) = true := by
    rw [listed]
    simpa using unlike
  refine List.mem_append_left _ (List.mem_append_right _ ?_)
  rw [if_pos newer]
  exact List.mem_singleton.mpr rfl

theorem markerFound {missing found : List Text} {marker : Text} (unmissed : marker ∉ "ok".toList::missing)
    (marked : marker ∈ if (missing ++ found).isEmpty then ["ok".toList] else missing ++ found) : marker ∈ found := by
  obtain ⟨unlike,unmissed⟩ := not_or.mp (List.mem_cons.not.mp unmissed)
  split at marked
  · exact absurd (List.mem_singleton.mp marked) unlike
  · exact (List.mem_append.mp marked).resolve_left unmissed

/-- An entry and the issues of a dependency with a selected version speak of a newer one as their findings do. -/
theorem truthfulIndexed {dep : ParsedDependency} {versions : List DependencyVersionRow} {selected : DependencyVersionRow}
    {counts : AdvisoryCounts} :
    Truthful sv index (indexed sv manifest dep versions (some selected) counts).dependencies
      (indexed sv manifest dep versions (some selected) counts).issues ↔
    ∀ latest, versions.head? = some latest → latest.version ≠ selected.version →
      NewerIndexed sv index dep.name (some selected.version) (some latest.version) := by
  constructor
  · intro truthful latest first unlike
    have found := List.mem_map_of_mem (f := Prod.snd) (outdatedListed sv manifest dep counts first unlike)
    have newer := truthful.2 _ (List.mem_append_right _ found) rfl
    have shown : versions.head?.map DependencyVersionRow.version = some latest.version := by rw [first,Option.map_some]
    rw [← shown]
    exact newer
  · intro newer
    have told : ∀ found ∈ findings sv manifest dep versions.head? counts selected, found.2.category = .outdated →
        NewerIndexed sv index dep.name (some selected.version) (versions.head?.map DependencyVersionRow.version) := by
      intro found mem outdated
      obtain ⟨row,first,unlike⟩ := (findingsOutdated mem).2.1 outdated
      rw [first]
      exact newer row first unlike
    constructor
    · intro entry mem marked
      cases List.mem_singleton.mp mem
      have among := markerFound (by split <;> decide) marked
      obtain ⟨found,mem,named⟩ := List.mem_map.mp among
      exact told found mem ((findingsOutdated mem).1.mp named)
    · intro issue mem outdated
      rcases List.mem_append.mp mem with unsatisfied | mem
      · simp at unsatisfied
      · obtain ⟨found,among,rfl⟩ := List.mem_map.mp mem
        obtain ⟨_,_,named,chosen,latest⟩ := findingsOutdated among
        rw [named,chosen,latest]
        exact told found among outdated

theorem truthfulUnselected {dep : ParsedDependency} {versions : List DependencyVersionRow} {counts : AdvisoryCounts} :
    Truthful sv index (indexed sv manifest dep versions none counts).dependencies
      (indexed sv manifest dep versions none counts).issues := by
  constructor
  · intro entry mem marked
    cases List.mem_singleton.mp mem
    exact absurd (markerFound (by split <;> decide) marked) List.not_mem_nil
  · intro issue mem outdated
    rw [indexed,Option.elim_none,List.map_nil,List.append_nil] at mem
    dsimp only at mem
    split at mem
    · cases List.mem_singleton.mp mem
      cases outdated
    · cases mem

theorem truthfulUnindexed {dep : ParsedDependency} : Truthful sv index (notIndexed dep).dependencies (notIndexed dep).issues := by
  constructor
  · intro entry mem marked
    cases List.mem_singleton.mp mem
    exact absurd marked (by dsimp only; decide)
  · intro issue mem outdated
    cases List.mem_singleton.mp mem
    cases outdated

section
variable {dep : ParsedDependency} {crateRow : DependencyCrateRow} {versions : List DependencyVersionRow}
  (looked : index.fetchDependencyCrateByName dep.name = .ok (some crateRow))
  (listed : index.listDependencyVersionsByCrate crateRow.id = .ok versions)
include looked listed

theorem newerIndexed {latest : DependencyVersionRow} (first : versions.head? = some latest) {older : Text} :
    NewerIndexed sv index dep.name (some older) (some latest.version) ↔ Higher sv latest.version older := by
  constructor
  · rintro ⟨_,_,row,_,_,_,_,shown,same,higher⟩
    cases same
    exact Option.some.inj shown ▸ higher
  · intro higher
    exact ⟨crateRow,versions,latest,older,looked,listed,List.mem_of_mem_head? (Option.mem_def.mpr first),rfl,rfl,higher⟩

theorem selectedTruthful (unique : UniqueVersions index) {selected : DependencyVersionRow}
    (chosen : selectVersion sv matches_ (dep.requirement.bind sv.parseReq) versions = some selected) :
    (∀ latest, versions.head? = some latest → latest.version ≠ selected.version →
      NewerIndexed sv index dep.name (some selected.version) (some latest.version)) ↔ LatestHighest sv matches_ index dep := by
  constructor
  · intro newer crateRow' versions' latest req looked' listed' first parsed row mem version reads satisfied unlike
    cases looked.symm.trans looked'
    cases listed.symm.trans listed'
    rw [parsed] at chosen
    obtain ⟨high,highReads,_,among,highest⟩ := selectedHighest chosen
    obtain ⟨below,strictly⟩ := highest row mem version reads satisfied
    have once := unique _ _ listed
    by_cases same : latest.version = selected.version
    · have here := List.inj_on_of_nodup_map once (List.mem_of_mem_head? (Option.mem_def.mpr first)) among same
      subst here
      exact ⟨high,version,highReads,reads,strictly once.of_map first fun equal => unlike (congrArg _ equal)⟩
    · obtain ⟨higher,low,latestReads,lowReads,less⟩ := (newerIndexed looked listed first).mp (newer latest first same)
      cases highReads.symm.trans lowReads
      exact ⟨higher,version,latestReads,reads,below.trans_lt less⟩
  · intro highest latest first unlike
    rw [newerIndexed looked listed first]
    cases parsed : dep.requirement.bind sv.parseReq with
    | none =>
      rw [parsed] at chosen
      cases first.symm.trans chosen
      exact absurd rfl unlike
    | some req =>
      rw [parsed] at chosen
      obtain ⟨mem,version,reads,satisfied⟩ := selectsSatisfying chosen
      exact highest crateRow versions latest req looked listed first parsed selected mem version reads satisfied unlike.symm

end

theorem truthfulPart (unique : UniqueVersions index) {dep : ParsedDependency} {part : Audit}
    (audited : auditDependency sv matches_ index manifest dep = .ok part) :
    Truthful sv index part.dependencies part.issues ↔ LatestHighest sv matches_ index dep := by
  obtain ⟨missing,rfl⟩ | ⟨crateRow,versions,looked,listed,⟨missing,rfl⟩ | ⟨selected,rows,chosen,_,rfl⟩⟩ := auditCases audited
  · refine iff_of_true truthfulUnindexed fun crateRow versions latest req looked => ?_
    cases missing.symm.trans looked
  · refine iff_of_true truthfulUnselected fun crateRow' versions' latest req looked' listed' _ parsed row mem version reads satisfied => ?_
    cases looked.symm.trans looked'
    cases listed.symm.trans listed'
    rw [parsed] at missing
    exact absurd satisfied (by rw [selectsNone missing mem reads]; decide)
  · rw [truthfulIndexed,selectedTruthful looked listed unique chosen]

theorem outdatedTruthful (unique : UniqueVersions index) {fromSlice : Text → Except Text Manifest} {cargoToml : Text} {parsed : Manifest}
    {response : DependencyAuditResponse} (read : fromSlice (trim cargoToml) = .ok parsed)
    (audited : handleDependencyAudit sv matches_ index fromSlice cargoToml = .ok response) :
    Truthful sv index response.dependencies response.issues ↔
      ∀ dep ∈ (parseManifest parsed).dependencies, LatestHighest sv matches_ index dep := by
  obtain ⟨parts,each,source,entries,issues,_⟩ := auditResponse read audited
  constructor
  · intro truthful dep mem
    obtain ⟨part,among,one⟩ := each dep mem
    exact (truthfulPart unique one).mp ⟨fun entry here => truthful.1 entry ((entries entry).mpr ⟨part,among,here⟩),
      fun issue here => truthful.2 issue ((issues issue).mpr ⟨part,among,here⟩)⟩
  · intro highest
    have told : ∀ part ∈ parts, Truthful sv index part.dependencies part.issues := by
      intro part among
      obtain ⟨dep,mem,one⟩ := source part among
      exact (truthfulPart unique one).mpr (highest dep mem)
    constructor
    · intro entry mem
      obtain ⟨part,among,here⟩ := (entries entry).mp mem
      exact (told part among).1 entry here
    · intro issue mem
      obtain ⟨part,among,here⟩ := (issues issue).mp mem
      exact (told part among).2 issue here

end

/-! A crate whose version 1 has been fixed after its version 2. -/

def backportIndex : Index where
  fetchDependencyCrateByName name := .ok (if name = "demo".toList then some ⟨1,name⟩ else none)
  listDependencyVersionsByCrate _ := .ok [⟨11,"1.5.0".toList,none,false⟩,⟨12,"2.0.0".toList,none,false⟩]
  fetchAdvisoryRows _ := .ok []

theorem backportUnique : UniqueVersions backportIndex := by
  intro crateId versions listed
  cases listed
  decide

def backportAudit (requirement : Text) : Except Text DependencyAuditResponse :=
  handleDependencyAudit demoReqs demoMatches backportIndex (fun text => .ok (demoManifest text)) requirement

/-- Version 2.0.0 is selected and the later version 1.5.0 is called newer. -/
theorem backportOutdated : ∃ response, backportAudit "2".toList = .ok response ∧
    (∃ entry ∈ response.dependencies, entry.selectedVersion = some "2.0.0".toList ∧ entry.latestVersion = some "1.5.0".toList ∧
      "outdated".toList ∈ entry.statusMarkers) ∧
    ¬ Truthful demoReqs backportIndex response.dependencies response.issues := by
  obtain ⟨response,audited,shape⟩ := Utils.okAny (p := fun response : DependencyAuditResponse =>
    response.dependencies.any fun entry => entry.selectedVersion = some "2.0.0".toList &&
      (entry.latestVersion = some "1.5.0".toList && entry.statusMarkers.contains "outdated".toList))
    (show (backportAudit "2".toList).toOption.any _ = true by decide +kernel)
  obtain ⟨entry,mem,shows⟩ := List.any_eq_true.mp shape
  simp only [Bool.and_eq_true,decide_eq_true_eq,List.contains_iff_mem] at shows
  obtain ⟨selected,latest,marked⟩ := shows
  refine ⟨response,audited,⟨entry,mem,selected,latest,marked⟩,fun truthful => ?_⟩
  obtain ⟨_,_,row,older,_,_,_,newer,shown,higher⟩ := truthful.1 entry mem marked
  rw [← Option.some.inj (latest.symm.trans newer),← Option.some.inj (selected.symm.trans shown)] at higher
  obtain ⟨high,low,latestReads,selectedReads,less⟩ := higher
  have lower : parseSemverForMatching demoReqs "1.5.0".toList = some 150 := by decide +kernel
  have higher : parseSemverForMatching demoReqs "2.0.0".toList = some 200 := by decide +kernel
  cases latestReads.symm.trans lower
  cases selectedReads.symm.trans higher
  exact absurd less (by decide)

theorem currentTruthful : ∃ response, backportAudit "1".toList = .ok response ∧
    (Truthful demoReqs backportIndex response.dependencies response.issues ↔
      ∀ dep ∈ (parseManifest (demoManifest "1".toList)).dependencies, LatestHighest demoReqs demoMatches backportIndex dep) := by
  obtain ⟨response,audited,_⟩ := Utils.okAny (p := fun _ => true)
    (show (backportAudit "1".toList).toOption.any _ = true by decide +kernel)
  exact ⟨response,audited,outdatedTruthful backportUnique rfl audited⟩

end RustMcp.OutdatedVersions
