import RustMcp.Alternatives

/-! The version that tools take when none is asked for, as each place looks it up: the
context of a crate, its license, and the candidates of `crate_alternatives`. -/
namespace RustMcp.LatestVersions
open Str (Text)
open Queries

structure VersionRow extends CrateVersionRow where
  yanked : Bool
  totalDownloads : Int
  licenseExpression : Option Text

structure CrateRow extends CrateCoreRow where
  categories : List Text
  keywords : List Text

/-- The ids of versions are a primary key. -/
structure Catalog (lower : Text → Text) where
  index : Index lower
  crates : List CrateRow
  versions : List VersionRow
  same : index.crates.rows = crates.map CrateRow.toCrateCoreRow
  sameVersions : index.versions = versions.map VersionRow.toCrateVersionRow
  ids : (versions.map (·.id)).Nodup

structure CrateVersionLicenseRow where
  version : Text
  licenseExpression : Option Text

structure AlternativesCandidateRow extends Alternatives.AlternativesCandidateRow where
  latestVersionId : Option Nat
  yanked : Bool

/-- A row without a date comes before those that have one. -/
def recency (row : CrateVersionRow) : WithBot Nat ×ₗ Nat := toLex (row.publishedAt,row.id)

theorem latestFirstIff {row other : CrateVersionRow} : latestFirst row ≤ latestFirst other ↔ recency other ≤ recency row := by
  rw [latestFirst,latestFirst,recency,recency,Prod.Lex.toLex_le_toLex,Prod.Lex.toLex_le_toLex]
  exact or_congr OrderDual.toDual_lt_toDual (and_congr (OrderDual.toDual_inj.trans eq_comm) OrderDual.toDual_le_toDual)

/-- `WHERE crate_id = … ORDER BY published_at DESC NULLS LAST, id DESC LIMIT 1` -/
def latestRow (versions : List VersionRow) (crateId : Nat) : Option VersionRow :=
  (Ranking.sortBy (fun row => latestFirst row.toCrateVersionRow) (versions.filter fun row => row.crateId = crateId)).head?

theorem latestIff {versions : List VersionRow} (ids : (versions.map (·.id)).Nodup) {crateId : Nat} {row : VersionRow} :
    latestRow versions crateId = some row ↔ (row ∈ versions ∧ row.crateId = crateId) ∧
      ∀ other ∈ versions, other.crateId = crateId → recency other.toCrateVersionRow ≤ recency row.toCrateVersionRow := by
  have listed : ∀ other, (other ∈ versions.filter fun row => row.crateId = crateId) ↔
      other ∈ versions ∧ other.crateId = crateId := by simp
  rw [latestRow,Ranking.headIff,listed]
  · simp only [listed,latestFirstIff,and_imp]
  · intro one mem other mem' key
    have id : one.id = other.id := OrderDual.toDual_inj.mp (congrArg (fun key => (ofLex key).2) key)
    exact List.inj_on_of_nodup_map ids ((listed one).mp mem).1 ((listed other).mp mem').1 id

section
variable {lower : Text → Text} (catalog : Catalog lower)

def fetchLatestCrateLicenseForCrate (crateId : Nat) : Option CrateVersionLicenseRow :=
  (latestRow catalog.versions crateId).map fun row => ⟨row.version,row.licenseExpression⟩

/-- `LEFT JOIN LATERAL (…) lv` -/
def joinLatest (row : CrateRow) : Alternatives.CrateRow :=
  ⟨row.toCrateCoreRow,row.categories,row.keywords,
    (latestRow catalog.versions row.id).map fun lv => ⟨lv.version,some lv.totalDownloads,lv.licenseExpression⟩⟩

variable {C : Type} [LinearOrder C] (similarity : Text → Text → ℚ) (collate : Text → C)

def listAlternativesCandidates (own : CrateRow) (limit : Nat) : List AlternativesCandidateRow :=
  (Alternatives.listAlternativesCandidates similarity collate (joinLatest catalog own) limit
    (catalog.crates.map (joinLatest catalog))).map fun candidate =>
      let lv := latestRow catalog.versions candidate.crateId
      ⟨candidate,lv.map (·.id),(lv.map VersionRow.yanked).getD false⟩

/-- What a crate's version is in each of the places that choose one. -/
structure ChosenIn (crate : CrateRow) (row : VersionRow) : Prop where
  indexed : row ∈ catalog.versions
  context (waited : Waited) : (fetchCrateContext catalog.index waited crate.name).toOption =
    some ⟨crate.toCrateCoreRow,row.toCrateVersionRow⟩
  license : fetchLatestCrateLicenseForCrate catalog crate.id = some ⟨row.version,row.licenseExpression⟩
  candidate (own : CrateRow) (limit : Nat) : ∀ candidate ∈ listAlternativesCandidates catalog similarity collate own limit,
    candidate.crateId = crate.id →
      candidate.latestVersionId = some row.id ∧ candidate.latestVersion = some row.version ∧ candidate.yanked = row.yanked

variable {catalog}

theorem latestLookup (crateId : Nat) :
    fetchLatestCrateVersion catalog.index crateId = (latestRow catalog.versions crateId).map VersionRow.toCrateVersionRow := by
  have rows : catalog.index.versions.filter (fun row => row.crateId = crateId) =
      (catalog.versions.filter fun row => row.crateId = crateId).map VersionRow.toCrateVersionRow := by
    rw [catalog.sameVersions,List.filter_map]
    rfl
  have sorted : Ranking.sortBy latestFirst ((catalog.versions.filter fun row => row.crateId = crateId).map
      VersionRow.toCrateVersionRow) = (Ranking.sortBy (fun row => latestFirst row.toCrateVersionRow)
        (catalog.versions.filter fun row => row.crateId = crateId)).map VersionRow.toCrateVersionRow :=
    (List.map_insertionSort (fun a b : VersionRow => latestFirst a.toCrateVersionRow ≤ latestFirst b.toCrateVersionRow)
      (fun a b : CrateVersionRow => latestFirst a ≤ latestFirst b) VersionRow.toCrateVersionRow _ fun one _ other _ => Iff.rfl).symm
  rw [fetchLatestCrateVersion,rows,sorted,List.head?_map]
  rfl

omit [LinearOrder C] in
theorem joinedLatest {own row : CrateRow} :
    (Alternatives.candidateRow similarity own.name (joinLatest catalog row)).latestVersion =
      (latestRow catalog.versions row.id).map (·.version) := by
  simp only [Alternatives.candidateRow,joinLatest,Option.map_map]
  rfl

theorem candidateOf {own : CrateRow} {limit : Nat} {candidate : AlternativesCandidateRow}
    (mem : candidate ∈ listAlternativesCandidates catalog similarity collate own limit) :
    candidate.latestVersionId = (latestRow catalog.versions candidate.crateId).map (·.id) ∧
      candidate.latestVersion = (latestRow catalog.versions candidate.crateId).map (·.version) ∧
      candidate.yanked = ((latestRow catalog.versions candidate.crateId).map VersionRow.yanked).getD false := by
  obtain ⟨found,listed,rfl⟩ := List.mem_map.mp mem
  have sorted := Ranking.memSortBy.mp (List.mem_of_mem_take listed)
  obtain ⟨joined,passes,rfl⟩ := List.mem_map.mp sorted
  obtain ⟨row,_,rfl⟩ := List.mem_map.mp (List.mem_filter.mp passes).1
  exact ⟨rfl,joinedLatest similarity,rfl⟩

/-- The places agree on the last row by date and id. -/
theorem chosenLatest {crate : CrateRow} (mem : crate ∈ catalog.crates) {row : VersionRow} :
    ChosenIn catalog similarity collate crate row ↔ latestRow catalog.versions crate.id = some row := by
  constructor
  · intro chosen
    have context := chosen.context fun _ => none
    rw [contextOption] at context
    obtain ⟨core,_,last⟩ := Option.bind_eq_some_iff.mp context
    obtain ⟨latest,found,same⟩ := Option.map_eq_some_iff.mp last
    obtain ⟨rfl,rfl⟩ := CrateContext.mk.inj same
    rw [latestLookup] at found
    obtain ⟨row',found,same⟩ := Option.map_eq_some_iff.mp found
    have id : row'.id = row.id := congrArg CrateVersionRow.id same
    rwa [List.inj_on_of_nodup_map catalog.ids ((latestIff catalog.ids).mp found).1.1 chosen.indexed id] at found
  · intro latest
    refine ⟨((latestIff catalog.ids).mp latest).1.1,fun waited => ?_,by rw [fetchLatestCrateLicenseForCrate,latest]; rfl,
      fun own limit candidate listed ids => ?_⟩
    · have core : fetchCrateCoreByName catalog.index crate.name = some crate.toCrateCoreRow :=
        Keyed.Table.lookupIff.mpr ⟨catalog.same ▸ List.mem_map_of_mem mem,rfl⟩
      rw [contextOption,core,Option.bind_some,latestLookup,latest]
      rfl
    · have carried := candidateOf similarity collate listed
      rw [ids,latest] at carried
      exact carried

/-- The version that all places choose is not yanked just when the last row of the crate is not. -/
theorem unyankedIff {crate : CrateRow} (mem : crate ∈ catalog.crates) :
    (∃ row, ChosenIn catalog similarity collate crate row ∧ row.yanked = false) ↔
      ∃ row ∈ catalog.versions, row.crateId = crate.id ∧ row.yanked = false ∧
        ∀ other ∈ catalog.versions, other.crateId = crate.id →
          recency other.toCrateVersionRow ≤ recency row.toCrateVersionRow := by
  constructor
  · rintro ⟨row,chosen,kept⟩
    obtain ⟨⟨inside,own⟩,last⟩ := (latestIff catalog.ids).mp ((chosenLatest similarity collate mem).mp chosen)
    exact ⟨row,inside,own,kept,last⟩
  · rintro ⟨row,inside,own,kept,last⟩
    exact ⟨row,(chosenLatest similarity collate mem).mpr ((latestIff catalog.ids).mpr ⟨⟨inside,own⟩,last⟩),kept⟩

end

/-! The release that follows a yanked one, and the yanked release that follows another. -/

def shelf : CrateRow := ⟨⟨1,"shelf".toList⟩,[],[]⟩

def shelfVersions (firstYanked lastYanked : Bool) : List VersionRow :=
  [⟨⟨1,1,"1.0.0".toList,some 10⟩,firstYanked,0,none⟩,⟨⟨2,1,"1.1.0".toList,some 20⟩,lastYanked,0,none⟩]

theorem shelfIds (firstYanked lastYanked : Bool) : ((shelfVersions firstYanked lastYanked).map (·.id)).Nodup := by
  change [1,2].Nodup
  decide

def shelfCatalog (firstYanked lastYanked : Bool) : Catalog id :=
  ⟨⟨⟨[shelf.toCrateCoreRow],List.nodup_singleton _⟩,(shelfVersions firstYanked lastYanked).map VersionRow.toCrateVersionRow,
    [],[],[],[]⟩,[shelf],shelfVersions firstYanked lastYanked,rfl,rfl,shelfIds firstYanked lastYanked⟩

theorem unyankedAfterYanked : shelf ∈ (shelfCatalog true false).crates ∧
    ∃ row, ChosenIn (shelfCatalog true false) (fun _ _ => 0) id shelf row ∧ row.yanked = false :=
  ⟨List.mem_singleton.mpr rfl,(unyankedIff (fun _ _ => 0) id (List.mem_singleton.mpr rfl)).mpr (by decide)⟩

/-- `1.0.0` is there, and all places choose the yanked `1.1.0`. -/
theorem yankedChosen :
    (∃ row ∈ (shelfCatalog false true).versions, row.crateId = shelf.id ∧ row.yanked = false) ∧
      ¬ ∃ row, ChosenIn (shelfCatalog false true) (fun _ _ => 0) id shelf row ∧ row.yanked = false := by
  refine ⟨⟨⟨⟨1,1,"1.0.0".toList,some 10⟩,false,0,none⟩,List.mem_cons_self,rfl,rfl⟩,?_⟩
  rintro ⟨row,chosen,kept⟩
  have last := (chosenLatest _ _ (List.mem_singleton.mpr rfl)).mp chosen
  have yanked : (latestRow (shelfCatalog false true).versions shelf.id).map VersionRow.yanked = some true := by decide
  rw [last] at yanked
  exact Bool.false_ne_true (kept.symm.trans (Option.some.inj yanked))

end RustMcp.LatestVersions
