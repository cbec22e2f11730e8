import RustMcp.Advisories

/-! Merging the stored rows of a crate. The abstract verdict reads the rows as a
set; the code's grouping, sorting and priority fold computes it for every list. -/
namespace RustMcp.AdvisoryMerge
open Str Semver Advisories

section
variable {V R : Type} [LinearOrder V] (sv : Package V R) (versionId : Int) (version : Text)

def Withdrawn (rows : Set CrateAdvisoryRow) (id : Text) : Prop :=
  ∃ row ∈ rows, row.advisoryId = id ∧ row.requiresResync = false ∧ isWithdrawn row.affectedRange = true

def Cleared (rows : Set CrateAdvisoryRow) (id : Text) : Prop :=
  ∀ row ∈ rows, row.advisoryId = id → rowApplicability sv versionId version row = .notAffected

def AffectedBy (rows : Set CrateAdvisoryRow) (id : Text) : Prop :=
  ∃ row ∈ rows, row.advisoryId = id ∧ row.requiresResync = false ∧
    (row.versionId = some versionId ∨
      rangeApplicability sv row.source row.affectedRange version = .affected)

open Classical in
/-- What a set of rows says about an advisory; `none` where it is not reported. -/
noncomputable def verdict (rows : Set CrateAdvisoryRow) (id : Text) : Option Applicability :=
  if Withdrawn rows id ∨ Cleared sv versionId version rows id then none
  else if AffectedBy sv versionId version rows id then some .affected
  else some .unknown

def summary (advisories : List VersionAdvisory) : List (Text × Applicability) :=
  advisories.map fun a => (a.row.advisoryId,a.applicability)

variable {sv versionId version}

theorem withdrawsIff {row : CrateAdvisoryRow} :
    withdraws row = true ↔ row.requiresResync = false ∧ isWithdrawn row.affectedRange = true := by
  simp [withdraws]

theorem rowAffectedIff {row : CrateAdvisoryRow} :
    rowApplicability sv versionId version row = .affected ↔
      row.requiresResync = false ∧ (row.versionId = some versionId ∨
        rangeApplicability sv row.source row.affectedRange version = .affected) := by
  unfold rowApplicability
  cases row.requiresResync with
  | true => simp
  | false => by_cases explicit : row.versionId = some versionId <;> simp [explicit]

theorem candidateSome {row : CrateAdvisoryRow} {advisory : VersionAdvisory} :
    candidate sv versionId version row = some advisory ↔
      rowApplicability sv versionId version row ≠ .notAffected ∧
      advisory = ⟨rowApplicability sv versionId version row,row⟩ := by
  unfold candidate
  by_cases clear : rowApplicability sv versionId version row = .notAffected
  · simp [clear]
  · simp [clear,eq_comm]

theorem candidatesMem {rows : List CrateAdvisoryRow} {advisory : VersionAdvisory} :
    advisory ∈ (Ranking.sortBy rowKey rows).filterMap (candidate sv versionId version) ↔
      advisory.row ∈ rows ∧ advisory.applicability ≠ .notAffected ∧
      advisory.applicability = rowApplicability sv versionId version advisory.row := by
  simp only [List.mem_filterMap,Ranking.memSortBy,candidateSome]
  constructor
  · rintro ⟨row,mem,clear,rfl⟩
    exact ⟨mem,clear,rfl⟩
  · rintro ⟨mem,clear,same⟩
    exact ⟨advisory.row,mem,same ▸ clear,by rw [← same]⟩

theorem selectNone {rows : List CrateAdvisoryRow} :
    selectAdvisory sv versionId version rows = none ↔
      (∃ row ∈ rows, withdraws row = true) ∨
      ∀ row ∈ rows, rowApplicability sv versionId version row = .notAffected := by
  unfold selectAdvisory
  have sorted : (Ranking.sortBy rowKey rows).any withdraws = true ↔ ∃ row ∈ rows, withdraws row = true := by
    simp [Ranking.memSortBy]
  by_cases gone : ∃ row ∈ rows, withdraws row = true
  · simp [sorted.mpr gone,gone]
  · have kept : (Ranking.sortBy rowKey rows).any withdraws = false := by
      simpa only [Bool.not_eq_true] using mt sorted.mp gone
    simp only [kept,Bool.false_eq_true,if_false,gone,false_or,Ranking.bestNone,List.filterMap_eq_nil_iff,
      Ranking.memSortBy]
    simp [candidate]

/-- The selected entry stands for the whole group: it is affected exactly when a
row of the group is. -/
theorem selectSome {rows : List CrateAdvisoryRow} {advisory : VersionAdvisory}
    (h : selectAdvisory sv versionId version rows = some advisory) :
    advisory.row ∈ rows ∧ advisory.applicability ≠ .notAffected ∧
    (advisory.applicability = .affected ↔
      ∃ row ∈ rows, rowApplicability sv versionId version row = .affected) := by
  unfold selectAdvisory at h
  simp only at h
  split at h <;> try contradiction
  obtain ⟨mem,highest⟩ := Ranking.bestSome h
  obtain ⟨row,open_,same⟩ := candidatesMem.mp mem
  refine ⟨row,open_,fun affected => ⟨advisory.row,row,same ▸ affected⟩,?_⟩
  rintro ⟨other,otherMem,otherAffected⟩
  have below := highest ⟨.affected,other⟩ (candidatesMem.mpr ⟨otherMem,nofun,otherAffected.symm⟩)
  -- An affected candidate has the first component of its rank set, which no other rank exceeds.
  by_contra lower
  simp only [priority,lower,decide_true,decide_false] at below
  rcases Prod.Lex.toLex_le_toLex.mp below with less | ⟨equal,_⟩
  · have impossible : true < false := less
    contradiction
  · exact absurd equal Bool.noConfusion

/-- The fold over the rows of one advisory id computes the abstract verdict. -/
theorem selectVerdict (rows : List CrateAdvisoryRow) (id : Text) :
    (selectAdvisory sv versionId version (rows.filter (fun r => r.advisoryId = id))).map (·.applicability) =
      verdict sv versionId version {r | r ∈ rows} id := by
  have gone : (∃ row ∈ rows.filter (fun r => r.advisoryId = id), withdraws row = true) ↔
      Withdrawn {r | r ∈ rows} id := by
    simp [Withdrawn,withdrawsIff,and_assoc]
  have clear : (∀ row ∈ rows.filter (fun r => r.advisoryId = id),
      rowApplicability sv versionId version row = .notAffected) ↔ Cleared sv versionId version {r | r ∈ rows} id := by
    simp [Cleared]
  have hit : (∃ row ∈ rows.filter (fun r => r.advisoryId = id),
      rowApplicability sv versionId version row = .affected) ↔ AffectedBy sv versionId version {r | r ∈ rows} id := by
    simp [AffectedBy,rowAffectedIff,and_assoc]
  have absent : selectAdvisory sv versionId version (rows.filter (fun r => r.advisoryId = id)) = none ↔ _ := selectNone
  rw [gone,clear] at absent
  unfold verdict
  cases selected : selectAdvisory sv versionId version (rows.filter (fun r => r.advisoryId = id)) with
  | none => rw [if_pos (absent.mp selected)]; rfl
  | some advisory =>
    have present : ¬ (Withdrawn {r | r ∈ rows} id ∨ Cleared sv versionId version {r | r ∈ rows} id) := by
      rw [← absent,selected]; simp
    obtain ⟨_,open_,affected⟩ := selectSome selected
    rw [hit] at affected
    rw [if_neg present]
    by_cases h : AffectedBy sv versionId version {r | r ∈ rows} id
    · rw [if_pos h]; simp [affected.mpr h]
    · rw [if_neg h]
      have unknown : advisory.applicability = .unknown := by
        cases kind : advisory.applicability with
        | affected => exact absurd (affected.mp kind) h
        | notAffected => exact absurd kind open_
        | unknown => rfl
      simp [unknown]

/-- Refinement: the reported entries are those of the abstract verdict. -/
theorem memSummary {rows : List CrateAdvisoryRow} {id : Text} {applicability : Applicability} :
    (id,applicability) ∈ summary (advisoriesForVersion sv rows versionId version) ↔
      verdict sv versionId version {r | r ∈ rows} id = some applicability := by
  rw [← selectVerdict]
  simp only [summary,advisoriesForVersion,List.mem_map,List.mem_filterMap,Prod.mk.injEq,Prod.exists,
    Keyed.collectMem,Keyed.pushGroupsIff,Option.map_eq_some_iff]
  constructor
  · rintro ⟨advisory,⟨key,group,⟨rfl,_⟩,selected⟩,rfl,rfl⟩
    have mem := (selectSome selected).1
    simp only [List.mem_filter,decide_eq_true_eq] at mem
    exact ⟨advisory,by rw [mem.2]; exact selected,rfl⟩
  · rintro ⟨advisory,selected,rfl⟩
    have mem := (selectSome selected).1
    have key : advisory.row.advisoryId = id := by simpa using (List.mem_filter.mp mem).2
    exact ⟨advisory,⟨id,_,⟨rfl,List.ne_nil_of_mem mem⟩,selected⟩,key,rfl⟩

theorem summaryAscending (rows : List CrateAdvisoryRow) :
    (summary (advisoriesForVersion sv rows versionId version)).Pairwise (fun a b => a.1 < b.1) := by
  simp only [summary,advisoriesForVersion,List.pairwise_map,List.pairwise_filterMap]
  refine List.Pairwise.imp_of_mem ?_ (Keyed.collectAscending CrateAdvisoryRow.advisoryId Keyed.pushGroup rows)
  intro a b ha hb less x hx y hy
  obtain ⟨same,_⟩ := Keyed.pushGroupsIff.mp (Keyed.collectMem.mp ha)
  obtain ⟨same',_⟩ := Keyed.pushGroupsIff.mp (Keyed.collectMem.mp hb)
  have left := (selectSome hx).1
  have right := (selectSome hy).1
  rw [← same] at left
  rw [← same'] at right
  simp only [List.mem_filter,decide_eq_true_eq] at left right
  rw [left.2,right.2]
  exact less

/-- Two lists of rows report the same wherever their verdicts agree. -/
theorem summaryEq {rows rows' : List CrateAdvisoryRow}
    (same : ∀ id, verdict sv versionId version {r | r ∈ rows} id = verdict sv versionId version {r | r ∈ rows'} id) :
    summary (advisoriesForVersion sv rows versionId version) =
      summary (advisoriesForVersion sv rows' versionId version) := by
  have : Std.Irrefl (fun a b : Text × Applicability => a.1 < b.1) := ⟨fun a => lt_irrefl a.1⟩
  have : Std.Asymm (fun a b : Text × Applicability => a.1 < b.1) := ⟨fun _ _ h => lt_asymm h⟩
  refine List.Pairwise.eq_of_mem_iff (summaryAscending rows) (summaryAscending rows') ?_
  rintro ⟨id,applicability⟩
  rw [memSummary,memSummary,same]

/-- Rows that keep every range text and every version column of a larger set say the same. -/
theorem verdictCovered {fewer more : Set CrateAdvisoryRow} (sub : fewer ⊆ more)
    (texts : ∀ row ∈ more, ∃ kept ∈ fewer, kept.advisoryId = row.advisoryId ∧
      kept.requiresResync = row.requiresResync ∧ kept.source = row.source ∧ kept.affectedRange = row.affectedRange)
    (columns : ∀ row ∈ more, ∃ kept ∈ fewer, kept.advisoryId = row.advisoryId ∧
      kept.requiresResync = row.requiresResync ∧ kept.versionId = row.versionId) (id : Text) :
    verdict sv versionId version fewer id = verdict sv versionId version more id := by
  have withdrawn : Withdrawn fewer id ↔ Withdrawn more id := by
    constructor
    · rintro ⟨row,mem,gone⟩; exact ⟨row,sub mem,gone⟩
    · rintro ⟨row,mem,same,fresh,gone⟩
      obtain ⟨kept,inside,id_,resync,_,text⟩ := texts row mem
      exact ⟨kept,inside,id_.trans same,resync.trans fresh,text ▸ gone⟩
  have affected : AffectedBy sv versionId version fewer id ↔ AffectedBy sv versionId version more id := by
    constructor
    · rintro ⟨row,mem,hit⟩; exact ⟨row,sub mem,hit⟩
    · rintro ⟨row,mem,same,fresh,explicit | range⟩
      · obtain ⟨kept,inside,id_,resync,column⟩ := columns row mem
        exact ⟨kept,inside,id_.trans same,resync.trans fresh,Or.inl (column.trans explicit)⟩
      · obtain ⟨kept,inside,id_,resync,source,text⟩ := texts row mem
        exact ⟨kept,inside,id_.trans same,resync.trans fresh,Or.inr (by rw [source,text]; exact range)⟩
  have cleared : Cleared sv versionId version fewer id ↔ Cleared sv versionId version more id := by
    constructor
    · intro clear row mem same
      obtain ⟨kept,inside,id_,resync,source,text⟩ := texts row mem
      obtain ⟨kept',inside',id_',resync',column⟩ := columns row mem
      have byText := clear kept inside (id_.trans same)
      have byColumn := clear kept' inside' (id_'.trans same)
      unfold rowApplicability at byText byColumn ⊢
      rw [resync,source,text] at byText
      rw [resync',column] at byColumn
      cases fresh : row.requiresResync with
      | true => simp [fresh] at byText
      | false =>
        by_cases explicit : row.versionId = some versionId
        · simp [fresh,explicit] at byColumn
        · by_cases hit : kept.versionId = some versionId
          · simp [fresh,hit] at byText
          · simpa [fresh,explicit,hit] using byText
    · intro clear row mem same
      exact clear row (sub mem) same
  classical exact if_congr (or_congr withdrawn cleared) rfl (if_congr affected rfl rfl)

theorem countsFold (advisories : List VersionAdvisory) (counts : AdvisoryCounts) :
    advisories.foldl countAdvisory counts =
      ⟨counts.affected + (summary advisories).countP (fun a => a.2 = .affected),
        counts.unknown + (summary advisories).countP (fun a => a.2 = .unknown)⟩ := by
  induction advisories generalizing counts with
  | nil => rfl
  | cons advisory rest ih =>
    rw [List.foldl_cons,ih]
    cases kind : advisory.applicability <;> simp [countAdvisory,summary,kind] <;> omega

theorem verdictAffected {rows : Set CrateAdvisoryRow} {id : Text} :
    verdict sv versionId version rows id = some .affected ↔
      ¬ (Withdrawn rows id ∨ Cleared sv versionId version rows id) ∧ AffectedBy sv versionId version rows id := by
  unfold verdict
  split
  · simp_all
  · split <;> simp_all

theorem verdictUnknown {rows : Set CrateAdvisoryRow} {id : Text} :
    verdict sv versionId version rows id = some .unknown ↔
      ¬ (Withdrawn rows id ∨ Cleared sv versionId version rows id) ∧ ¬ AffectedBy sv versionId version rows id := by
  unfold verdict
  split
  · simp_all
  · split <;> simp_all

theorem verdictNone {rows : Set CrateAdvisoryRow} {id : Text} :
    verdict sv versionId version rows id = none ↔ Withdrawn rows id ∨ Cleared sv versionId version rows id := by
  unfold verdict
  split
  · simp_all
  · split <;> simp_all

theorem absentIff {rows : List CrateAdvisoryRow} {id : Text} :
    id ∉ (summary (advisoriesForVersion sv rows versionId version)).map Prod.fst ↔
      verdict sv versionId version {r | r ∈ rows} id = none := by
  simp [memSummary,Option.eq_none_iff_forall_ne_some]

theorem countsOfSummary (rows : List CrateAdvisoryRow) :
    advisoryCounts sv rows versionId version =
      ⟨(summary (advisoriesForVersion sv rows versionId version)).countP (fun a => a.2 = .affected),
        (summary (advisoriesForVersion sv rows versionId version)).countP (fun a => a.2 = .unknown)⟩ := by
  simp [advisoryCounts,countsFold]

/-- The report of a crate version, from its rows in any order. -/
theorem advisoriesIndependentOfRowOrder (sv : Package V R) (versionId : Int) (version : Text)
    (rows rows' : List CrateAdvisoryRow) (reordered : rows'.Perm rows) :
    let report := summary (advisoriesForVersion sv rows versionId version)
    summary (advisoriesForVersion sv rows' versionId version) = report ∧
    report.Pairwise (fun a b => a.1 < b.1) ∧
    (∀ id, id ∉ report.map Prod.fst ↔
      Withdrawn {r | r ∈ rows} id ∨ Cleared sv versionId version {r | r ∈ rows} id) ∧
    (∀ id, (id,.affected) ∈ report ↔
      ¬ (Withdrawn {r | r ∈ rows} id ∨ Cleared sv versionId version {r | r ∈ rows} id) ∧
      AffectedBy sv versionId version {r | r ∈ rows} id) ∧
    (∀ id, (id,.unknown) ∈ report ↔
      ¬ (Withdrawn {r | r ∈ rows} id ∨ Cleared sv versionId version {r | r ∈ rows} id) ∧
      ¬ AffectedBy sv versionId version {r | r ∈ rows} id) ∧
    advisoryCounts sv rows' versionId version =
      ⟨report.countP (fun a => a.2 = .affected),report.countP (fun a => a.2 = .unknown)⟩ := by
  intro report
  have same : summary (advisoriesForVersion sv rows' versionId version) = report :=
    summaryEq fun id => by
      have : {r | r ∈ rows'} = {r | r ∈ rows} := Set.ext fun r => reordered.mem_iff
      rw [this]
  refine ⟨same,summaryAscending rows,?_,?_,?_,?_⟩
  · intro id
    rw [absentIff,verdictNone]
  · intro id
    rw [memSummary,verdictAffected]
  · intro id
    rw [memSummary,verdictUnknown]
  · rw [countsOfSummary,same]

end

def explicitRow : CrateAdvisoryRow :=
  ⟨false,1,some 7,"RUSTSEC-1".toList,"SEMVER(introduced=0,fixed=1.0.0)".toList,"osv".toList⟩

def quarantinedRow : CrateAdvisoryRow :=
  ⟨true,1,none,"RUSTSEC-1".toList,"withdrawn=2024-01-01".toList,"rustsec_db".toList⟩

theorem advisoriesIndependentOfRowOrderReversed :
    let report := summary (advisoriesForVersion releases [explicitRow,quarantinedRow] 7 "2.0.0".toList)
    summary (advisoriesForVersion releases [quarantinedRow,explicitRow] 7 "2.0.0".toList) = report ∧
    report = [("RUSTSEC-1".toList,.affected)] :=
  ⟨(advisoriesIndependentOfRowOrder releases 7 "2.0.0".toList [explicitRow,quarantinedRow]
    [quarantinedRow,explicitRow] (List.Perm.swap _ _ _)).1,by decide⟩

end RustMcp.AdvisoryMerge
