import RustMcp.AdvisoryMerge
import RustMcp.Security

/-! What survives of OSV records that fold onto one identity. Rows of one key
overwrite each other, so the response order decides unless every range text has
a version column of its own. -/
namespace RustMcp.OsvEvidence
open Str Semver Security
open Advisories (CrateAdvisoryRow advisoriesForVersion)
open AdvisoryMerge (summary)

section
variable (krate : SecurityCrateRow) (versions : List SecurityVersionRow) (vulns : List OsvVulnerability)
  (table : AdvisoryMatches)

/-- A row of the record's identity still holds its range or withdrawal. -/
def Survives (vuln : OsvVulnerability) (stored : AdvisoryMatches) : Prop :=
  ∃ row ∈ stored.rows, row.crateId = krate.id ∧ (row.advisoryId,row.source) = advisoryIdentity vuln ∧
    row.affectedRange = affectedRange vuln

/-- No order of the response changes a report or loses what a kept record supplies. -/
def OrderFree {V R : Type} [LinearOrder V] (sv : Package V R) : Prop :=
  ∀ vulns' : List OsvVulnerability, vulns'.Perm vulns →
    (∀ versionId version,
      summary (advisoriesForVersion sv
        (fetchAdvisoryRows krate.id (syncOsvSecurity krate versions vulns' table)) versionId version) =
      summary (advisoriesForVersion sv
        (fetchAdvisoryRows krate.id (syncOsvSecurity krate versions vulns table)) versionId version)) ∧
    ∀ vuln ∈ keptRecords krate vulns', Survives krate vuln (syncOsvSecurity krate versions vulns' table)

/-- Each range text of an identity has a version column that no other text of it is written under. -/
def Anchored : Prop :=
  ∀ vuln ∈ keptRecords krate vulns, ∃ other ∈ keptRecords krate vulns,
    advisoryIdentity other = advisoryIdentity vuln ∧ affectedRange other = affectedRange vuln ∧
    ∃ slot ∈ versionSlots versions other, ∀ rival ∈ keptRecords krate vulns,
      advisoryIdentity rival = advisoryIdentity vuln → slot ∈ versionSlots versions rival →
        affectedRange rival = affectedRange vuln

variable {krate versions vulns table}

/-! The rows written for the kept records. -/

theorem memRows {row : CrateAdvisoryRow} :
    row ∈ (keptRecords krate vulns).flatMap (recordRows krate versions) ↔
      ∃ vuln ∈ keptRecords krate vulns, ∃ slot ∈ versionSlots versions vuln, row = matchRow krate.id vuln slot := by
  simp only [List.mem_flatMap,recordRows,List.mem_map,eq_comm]

theorem identitySource (vuln : OsvVulnerability) : osvSource (advisoryIdentity vuln).2 = true := by
  have both : osvSource "osv".toList = true ∧ osvSource "rustsec_osv".toList = true := by decide
  unfold advisoryIdentity
  split
  · exact both.2
  · split
    · exact both.2
    · exact both.1

theorem matchRowKey {vuln rival : OsvVulnerability} {slot slot' : Option Int} :
    sourceKey (matchRow krate.id vuln slot) = sourceKey (matchRow krate.id rival slot') ↔
      slot = slot' ∧ advisoryIdentity vuln = advisoryIdentity rival := by
  simp [sourceKey,matchRow,Prod.ext_iff]

theorem keptPerm {vulns' : List OsvVulnerability} (reordered : vulns'.Perm vulns) {vuln : OsvVulnerability} :
    vuln ∈ keptRecords krate vulns' ↔ vuln ∈ keptRecords krate vulns :=
  (reordered.filterMap (retain krate)).mem_iff

theorem anchoredPerm {vulns' : List OsvVulnerability} (reordered : vulns'.Perm vulns) :
    Anchored krate versions vulns' ↔ Anchored krate versions vulns := by
  simp only [Anchored,keptPerm reordered]

/-- The stored rows: the last one written to each key, and those of other sources. -/
theorem memSync {row : CrateAdvisoryRow} :
    row ∈ (syncOsvSecurity krate versions vulns table).rows ↔
      Keyed.Table.LastOfKey sourceKey ((keptRecords krate vulns).flatMap (recordRows krate versions)) row ∨
      (row ∈ table.rows ∧ ¬ (row.crateId = krate.id ∧ osvSource row.source = true)) := by
  unfold syncOsvSecurity clearOsvAdvisoryMatches
  rw [Keyed.Table.memUpsertAll,Keyed.Table.memDelete]
  have reserved : ∀ row : CrateAdvisoryRow,
      sourceKey row ∈ ((keptRecords krate vulns).flatMap (recordRows krate versions)).map sourceKey →
      row.crateId = krate.id ∧ osvSource row.source = true := by
    intro row mem
    obtain ⟨written,inside,same⟩ := List.mem_map.mp mem
    obtain ⟨vuln,_,slot,_,rfl⟩ := memRows.mp inside
    simp only [sourceKey,matchRow,Prod.mk.injEq] at same
    exact ⟨same.1.symm,same.2.2.2 ▸ identitySource vuln⟩
  refine or_congr_right ⟨?_,?_⟩
  · rintro ⟨⟨mem,kept⟩,_⟩
    exact ⟨mem,by simpa using kept⟩
  · rintro ⟨mem,kept⟩
    exact ⟨⟨mem,by simpa using kept⟩,fun written => kept (reserved row written)⟩

/-! Under an anchor, the last writer carries the anchored text. -/

theorem anchoredText (table : AdvisoryMatches) (anchored : Anchored krate versions vulns) {vuln : OsvVulnerability}
    (kept : vuln ∈ keptRecords krate vulns) :
    ∃ row ∈ (syncOsvSecurity krate versions vulns table).rows, ∃ slot, ∃ writer,
      row = matchRow krate.id writer slot ∧ advisoryIdentity writer = advisoryIdentity vuln ∧
      affectedRange writer = affectedRange vuln := by
  obtain ⟨other,ho,identity,text,slot,hs,alone⟩ := anchored vuln kept
  obtain ⟨row,last,key⟩ := Keyed.Table.lastOfKeyExists sourceKey
    (memRows.mpr ⟨other,ho,slot,hs,rfl⟩ : matchRow krate.id other slot ∈ _)
  obtain ⟨rival,hr,slot',hs',rfl⟩ := memRows.mp (Keyed.Table.lastOfKeyMem last)
  obtain ⟨rfl,same⟩ := matchRowKey.mp key
  have folded := same.trans identity
  exact ⟨_,memSync.mpr (Or.inl last),_,rival,rfl,folded,alone rival hr folded hs'⟩

/-- Whatever is written to a key, the key keeps a row. -/
theorem writtenColumn (table : AdvisoryMatches) {vuln : OsvVulnerability} (kept : vuln ∈ keptRecords krate vulns) {slot : Option Int}
    (used : slot ∈ versionSlots versions vuln) :
    ∃ row ∈ (syncOsvSecurity krate versions vulns table).rows, ∃ writer,
      row = matchRow krate.id writer slot ∧ advisoryIdentity writer = advisoryIdentity vuln := by
  obtain ⟨row,last,key⟩ := Keyed.Table.lastOfKeyExists sourceKey
    (memRows.mpr ⟨vuln,kept,slot,used,rfl⟩ : matchRow krate.id vuln slot ∈ _)
  obtain ⟨writer,_,slot',_,rfl⟩ := memRows.mp (Keyed.Table.lastOfKeyMem last)
  obtain ⟨rfl,same⟩ := matchRowKey.mp key
  exact ⟨_,memSync.mpr (Or.inl last),writer,rfl,same⟩

/-- All rows the response supplies, with those of the other sources. -/
def supplied (krate : SecurityCrateRow) (versions : List SecurityVersionRow) (vulns : List OsvVulnerability)
    (table : AdvisoryMatches) : Set CrateAdvisoryRow :=
  {row | row ∈ (keptRecords krate vulns).flatMap (recordRows krate versions)} ∪
  {row | row ∈ table.rows ∧ row.crateId = krate.id ∧ osvSource row.source = false}

theorem suppliedPerm {vulns' : List OsvVulnerability} (reordered : vulns'.Perm vulns) :
    supplied krate versions vulns' table = supplied krate versions vulns table := by
  unfold supplied
  congr 1
  ext row
  simp only [Set.mem_ofPred_eq,memRows,keptPerm reordered]

theorem memFetch {row : CrateAdvisoryRow} :
    row ∈ fetchAdvisoryRows krate.id (syncOsvSecurity krate versions vulns table) ↔
      row ∈ (syncOsvSecurity krate versions vulns table).rows ∧ row.crateId = krate.id := by
  simp [fetchAdvisoryRows]

/-- With every text anchored, overwriting changes no verdict. -/
theorem anchoredVerdict (anchored : Anchored krate versions vulns) {V R : Type} [LinearOrder V] {sv : Package V R}
    (versionId : Int) (version id : Text) :
    AdvisoryMerge.verdict sv versionId version
      {row | row ∈ fetchAdvisoryRows krate.id (syncOsvSecurity krate versions vulns table)} id =
    AdvisoryMerge.verdict sv versionId version (supplied krate versions vulns table) id := by
  have other : ∀ row ∈ table.rows, row.crateId = krate.id → osvSource row.source = false →
      row ∈ fetchAdvisoryRows krate.id (syncOsvSecurity krate versions vulns table) := fun row mem own foreign =>
    memFetch.mpr ⟨memSync.mpr (Or.inr ⟨mem,by simp [foreign]⟩),own⟩
  refine AdvisoryMerge.verdictCovered ?_ ?_ ?_ id
  · intro row mem
    obtain ⟨stored,own⟩ := memFetch.mp mem
    rcases memSync.mp stored with last | ⟨mem,foreign⟩
    · exact Or.inl (Keyed.Table.lastOfKeyMem last)
    · exact Or.inr ⟨mem,own,by simpa [own] using foreign⟩
  · rintro row (written | ⟨mem,own,foreign⟩)
    · obtain ⟨vuln,kept,slot,_,rfl⟩ := memRows.mp written
      obtain ⟨row,stored,slot',writer,rfl,identity,text⟩ := anchoredText table anchored kept
      refine ⟨_,memFetch.mpr ⟨stored,rfl⟩,?_⟩
      simp [matchRow,identity,text]
    · exact ⟨row,other row mem own foreign,rfl,rfl,rfl,rfl⟩
  · rintro row (written | ⟨mem,own,foreign⟩)
    · obtain ⟨vuln,kept,slot,used,rfl⟩ := memRows.mp written
      obtain ⟨row,stored,writer,rfl,identity⟩ := writtenColumn table kept used
      refine ⟨_,memFetch.mpr ⟨stored,rfl⟩,?_⟩
      simp [matchRow,identity]
    · exact ⟨row,other row mem own foreign,rfl,rfl,rfl⟩

theorem anchoredSurvives (anchored : Anchored krate versions vulns) {vuln : OsvVulnerability}
    (kept : vuln ∈ keptRecords krate vulns) : Survives krate vuln (syncOsvSecurity krate versions vulns table) := by
  obtain ⟨row,stored,slot,writer,rfl,identity,text⟩ := anchoredText table anchored kept
  exact ⟨_,stored,rfl,identity,text⟩

/-! Without one, the order that writes the record's text first loses it. -/

def sameText (krate : SecurityCrateRow) (vuln other : OsvVulnerability) : Bool :=
  (retain krate other).any fun kept => advisoryIdentity kept = advisoryIdentity vuln ∧ affectedRange kept = affectedRange vuln

theorem keptSameText {vuln kept : OsvVulnerability} :
    kept ∈ keptRecords krate (vulns.filter (sameText krate vuln)) ↔
      kept ∈ keptRecords krate vulns ∧ advisoryIdentity kept = advisoryIdentity vuln ∧
        affectedRange kept = affectedRange vuln := by
  simp only [keptRecords,List.mem_filterMap,List.mem_filter,sameText]
  constructor
  · rintro ⟨record,⟨mem,same⟩,retained⟩
    exact ⟨⟨record,mem,retained⟩,by simpa [retained] using same⟩
  · rintro ⟨⟨record,mem,retained⟩,same⟩
    exact ⟨record,⟨mem,by simpa [retained] using same⟩,retained⟩

theorem keptOtherText {vuln kept : OsvVulnerability} :
    kept ∈ keptRecords krate (vulns.filter (fun record => !sameText krate vuln record)) ↔
      kept ∈ keptRecords krate vulns ∧
        ¬ (advisoryIdentity kept = advisoryIdentity vuln ∧ affectedRange kept = affectedRange vuln) := by
  simp only [keptRecords,List.mem_filterMap,List.mem_filter,sameText]
  constructor
  · rintro ⟨record,⟨mem,differ⟩,retained⟩
    exact ⟨⟨record,mem,retained⟩,by simpa [retained,imp_iff_not_or] using differ⟩
  · rintro ⟨⟨record,mem,retained⟩,differ⟩
    exact ⟨record,⟨mem,by simpa [retained,imp_iff_not_or] using differ⟩,retained⟩

theorem textFirstLost (table : AdvisoryMatches) {vuln : OsvVulnerability}
    (rivals : ∀ other ∈ keptRecords krate vulns, advisoryIdentity other = advisoryIdentity vuln →
      affectedRange other = affectedRange vuln → ∀ slot ∈ versionSlots versions other,
      ∃ rival ∈ keptRecords krate vulns, advisoryIdentity rival = advisoryIdentity vuln ∧
        slot ∈ versionSlots versions rival ∧ affectedRange rival ≠ affectedRange vuln) :
    ¬ Survives krate vuln (syncOsvSecurity krate versions
      (vulns.filter (sameText krate vuln) ++ vulns.filter (fun record => !sameText krate vuln record)) table) := by
  rintro ⟨row,stored,own,identity,text⟩
  rcases memSync.mp stored with last | ⟨_,foreign⟩
  · rw [keptRecords,List.filterMap_append,List.flatMap_append,Keyed.Table.lastOfKeyAppend] at last
    rcases last with later | ⟨first,fresh⟩
    · obtain ⟨kept,inside,slot,_,rfl⟩ := memRows.mp (Keyed.Table.lastOfKeyMem later)
      exact (keptOtherText.mp inside).2 ⟨identity,text⟩
    · obtain ⟨kept,inside,slot,used,rfl⟩ := memRows.mp (Keyed.Table.lastOfKeyMem first)
      obtain ⟨mem,same,same'⟩ := keptSameText.mp inside
      obtain ⟨rival,hr,folded,shared,differ⟩ := rivals kept mem same same' slot used
      have after := memRows.mpr ⟨rival,keptOtherText.mpr ⟨hr,fun both => differ both.2⟩,slot,shared,rfl⟩
      exact fresh (List.mem_map.mpr ⟨_,after,matchRowKey.mpr ⟨rfl,folded.trans same.symm⟩⟩)
  · have source : row.source = (advisoryIdentity vuln).2 := (Prod.ext_iff.mp identity).2
    exact foreign ⟨own,source ▸ identitySource vuln⟩

/-- The response order matters exactly where some text has no column to itself. -/
theorem orderFreeIffAnchored {V R : Type} [LinearOrder V] (sv : Package V R) (krate : SecurityCrateRow)
    (versions : List SecurityVersionRow) (vulns : List OsvVulnerability) (table : AdvisoryMatches) :
    OrderFree krate versions vulns table sv ↔ Anchored krate versions vulns := by
  constructor
  · intro free vuln kept
    by_contra unanchored
    have reordered := List.filter_append_perm (sameText krate vuln) vulns
    refine textFirstLost table ?_ ((free _ reordered).2 vuln ((keptPerm reordered).mpr kept))
    intro other ho identity text slot used
    by_contra lone
    refine unanchored ⟨other,ho,identity,text,slot,used,fun rival hr folded shared => ?_⟩
    by_contra differ
    exact lone ⟨rival,hr,folded,shared,differ⟩
  · intro anchored vulns' reordered
    have anchored' := (anchoredPerm reordered).mpr anchored
    refine ⟨fun versionId version => AdvisoryMerge.summaryEq fun id => ?_,fun vuln kept => anchoredSurvives anchored' kept⟩
    rw [anchoredVerdict anchored',anchoredVerdict anchored,suppliedPerm reordered]

end

def serde : SecurityCrateRow := ⟨1,"serde".toList⟩

def semverRecord (id : Text) (aliases : List Text) (fixed : Text) : OsvVulnerability :=
  ⟨id,none,aliases,[⟨some ⟨"crates.io".toList,"serde".toList⟩,[],
    [⟨"SEMVER".toList,[⟨some "0".toList,none,none,none⟩,⟨none,some fixed,none,none⟩]⟩]⟩]⟩

def rustsecRecord : OsvVulnerability := semverRecord "RUSTSEC-1".toList [] "1.0.0".toList

def aliasRecord : OsvVulnerability := semverRecord "GHSA-1".toList ["RUSTSEC-1".toList] "2.0.0".toList

/-- A record and its alias, with no listed version indexed: the last one written decides. -/
theorem aliasOverwrites :
    ¬ OrderFree serde [] [rustsecRecord,aliasRecord] ⟨[],List.nodup_nil⟩ releases ∧
    summary (advisoriesForVersion releases (fetchAdvisoryRows serde.id
      (syncOsvSecurity serde [] [rustsecRecord,aliasRecord] ⟨[],List.nodup_nil⟩)) 7 "1.5.0".toList) =
        [("RUSTSEC-1".toList,.affected)] ∧
    summary (advisoriesForVersion releases (fetchAdvisoryRows serde.id
      (syncOsvSecurity serde [] [aliasRecord,rustsecRecord] ⟨[],List.nodup_nil⟩)) 7 "1.5.0".toList) = [] := by
  refine ⟨fun free => ?_,by decide,by decide⟩
  have same := (free [aliasRecord,rustsecRecord] (List.Perm.swap _ _ _)).1 7 "1.5.0".toList
  exact absurd same (by decide)

end RustMcp.OsvEvidence
