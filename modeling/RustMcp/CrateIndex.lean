import RustMcp.Keyed
import RustMcp.Str

/-! The rows of `crates` and `crate_versions` that presence is kept in: the sync
that inserts them and the update that marks what is in the registry. -/
namespace RustMcp.CrateIndex
open Str (Text)

structure CrateRow where
  id : Nat
  name : Text

structure VersionRow where
  crateId : Nat
  version : Text
  locallyPresent : Bool
  sourceOrigin : Int

def versionKey (row : VersionRow) : Nat × Text := (row.crateId,row.version)

variable {lower : Text → Text}

/-- `name_lower` is unique, ids are those of a sequence, and versions belong to crates. -/
structure Catalog (lower : Text → Text) where
  crates : Keyed.Table (fun row : CrateRow => lower row.name)
  versions : Keyed.Table versionKey
  nextId : Nat
  ids : (crates.rows.map CrateRow.id).Nodup
  below : ∀ c ∈ crates.rows, c.id < nextId
  owned : ∀ v ∈ versions.rows, ∃ c ∈ crates.rows, c.id = v.crateId

def empty (lower : Text → Text) : Catalog lower :=
  ⟨⟨[],List.nodup_nil⟩,⟨[],List.nodup_nil⟩,1,List.nodup_nil,by simp,by simp⟩

/-- The version is one of the crate with this `name_lower`. -/
def Catalog.OfCrate (catalog : Catalog lower) (crateName : Text) (v : VersionRow) : Prop :=
  v ∈ catalog.versions.rows ∧ ∃ c ∈ catalog.crates.rows, c.id = v.crateId ∧ lower c.name = lower crateName

def Catalog.knownCrateNames (catalog : Catalog lower) : List Text := catalog.crates.rows.map CrateRow.name

/-! `mark_versions_locally_present` -/

def markRow (localVersions : List Text) (v : VersionRow) : VersionRow :=
  let here := localVersions.contains v.version
  if v.locallyPresent ≠ here ∨ (here = true ∧ v.sourceOrigin ≠ 1) then
    {v with locallyPresent := here, sourceOrigin := if here then 1 else v.sourceOrigin}
  else v

theorem markRowKey (localVersions : List Text) (v : VersionRow) : versionKey (markRow localVersions v) = versionKey v := by
  unfold markRow
  dsimp only
  split <;> rfl

theorem markRowPresent (localVersions : List Text) (v : VersionRow) :
    (markRow localVersions v).locallyPresent = localVersions.contains v.version := by
  unfold markRow
  dsimp only
  split
  · rfl
  · rename_i unchanged
    exact not_not.mp (not_or.mp unchanged).1

def Catalog.marks (catalog : Catalog lower) (crateName : Text) (v : VersionRow) : Bool :=
  catalog.crates.rows.any fun c => c.id = v.crateId && lower c.name = lower crateName

theorem marksIff {catalog : Catalog lower} {crateName : Text} {v : VersionRow} :
    catalog.marks crateName v = true ↔ ∃ c ∈ catalog.crates.rows, c.id = v.crateId ∧ lower c.name = lower crateName := by
  simp [Catalog.marks]

def Catalog.markedRow (catalog : Catalog lower) (crateName : Text) (localVersions : List Text) (v : VersionRow) :
    VersionRow :=
  if catalog.marks crateName v then markRow localVersions v else v

theorem markedRowKey (catalog : Catalog lower) (crateName : Text) (localVersions : List Text) (v : VersionRow) :
    versionKey (catalog.markedRow crateName localVersions v) = versionKey v := by
  unfold Catalog.markedRow
  split
  · exact markRowKey localVersions v
  · rfl

theorem markedRowCrate (catalog : Catalog lower) (crateName : Text) (localVersions : List Text) (v : VersionRow) :
    (catalog.markedRow crateName localVersions v).crateId = v.crateId :=
  congrArg Prod.fst (markedRowKey catalog crateName localVersions v)

def Catalog.markVersionsLocallyPresent (catalog : Catalog lower) (crateName : Text) (localVersions : List Text) :
    Catalog lower :=
  {catalog with
    versions := ⟨catalog.versions.rows.map (catalog.markedRow crateName localVersions),by
      rw [List.map_map]
      exact (List.map_congr_left fun v _ => markedRowKey catalog crateName localVersions v) ▸ catalog.versions.unique⟩
    owned := fun v mem => by
      obtain ⟨old,inside,rfl⟩ := List.mem_map.mp mem
      obtain ⟨c,here,same⟩ := catalog.owned old inside
      exact ⟨c,here,same.trans (markedRowCrate catalog crateName localVersions old).symm⟩}

theorem ofCrateMarked {catalog : Catalog lower} {crateName : Text} {localVersions : List Text} {name : Text}
    {v : VersionRow} :
    (catalog.markVersionsLocallyPresent crateName localVersions).OfCrate name v ↔
      ∃ old, catalog.OfCrate name old ∧ v = catalog.markedRow crateName localVersions old := by
  constructor
  · rintro ⟨mem,c,here,same,names⟩
    obtain ⟨old,inside,rfl⟩ := List.mem_map.mp mem
    rw [markedRowCrate] at same
    exact ⟨old,⟨inside,c,here,same,names⟩,rfl⟩
  · rintro ⟨old,⟨inside,c,here,same,names⟩,rfl⟩
    exact ⟨List.mem_map_of_mem inside,c,here,same.trans (markedRowCrate catalog crateName localVersions old).symm,names⟩

theorem markedVersions {catalog : Catalog lower} {crateName : Text} {localVersions : List Text} (Q : Text → Bool → Prop) :
    (∀ v, (catalog.markVersionsLocallyPresent crateName localVersions).OfCrate crateName v → Q v.version v.locallyPresent) ↔
      ∀ v, catalog.OfCrate crateName v → Q v.version (localVersions.contains v.version) := by
  have marked : ∀ v, catalog.OfCrate crateName v → catalog.markedRow crateName localVersions v = markRow localVersions v :=
    fun v ofCrate => if_pos (marksIff.mpr ofCrate.2)
  have version : ∀ v, (markRow localVersions v).version = v.version := fun v => congrArg Prod.snd (markRowKey localVersions v)
  constructor
  · intro holds v ofCrate
    have written := holds _ (ofCrateMarked.mpr ⟨v,ofCrate,rfl⟩)
    rwa [marked v ofCrate,markRowPresent,version] at written
  · intro holds v written
    obtain ⟨old,ofCrate,rfl⟩ := ofCrateMarked.mp written
    rw [marked old ofCrate,markRowPresent,version]
    exact holds old ofCrate

theorem markedOthers {catalog : Catalog lower} {crateName name : Text} {localVersions : List Text}
    (other : lower crateName ≠ lower name) (v : VersionRow) :
    (catalog.markVersionsLocallyPresent crateName localVersions).OfCrate name v ↔ catalog.OfCrate name v := by
  have untouched : ∀ old, catalog.OfCrate name old → catalog.markedRow crateName localVersions old = old := by
    rintro old ⟨_,c,here,same,names⟩
    refine if_neg fun marks => ?_
    obtain ⟨c',here',same',names'⟩ := marksIff.mp marks
    cases List.inj_on_of_nodup_map catalog.ids here here' (same.trans same'.symm)
    exact other (names'.symm.trans names)
  rw [ofCrateMarked]
  constructor
  · rintro ⟨old,ofCrate,rfl⟩
    rw [untouched old ofCrate]; exact ofCrate
  · exact fun ofCrate => ⟨v,ofCrate,(untouched v ofCrate).symm⟩

/-! `persist_crate_sync`, with the columns of the two tables above. -/

/-- What crates.io returned: the crate, its versions, and the dependencies to link. -/
structure CrateDetail where
  name : Text
  versions : List Text
  dependencies : List Text

/-- A name whose `name_lower` is taken by another spelling violates the unique index. -/
def Catalog.ensureCrate (catalog : Catalog lower) (name : Text) : Option (Nat × Catalog lower) :=
  match catalog.crates.rows.find? (fun c => c.name = name) with
  | some c => some (c.id,catalog)
  | none =>
      if fresh : lower name ∈ catalog.crates.rows.map (fun c => lower c.name) then none
      else some (catalog.nextId,
        {catalog with
          crates := catalog.crates.ensure ⟨catalog.nextId,name⟩
          nextId := catalog.nextId + 1
          ids := by
            rw [Keyed.Table.ensure,dif_neg fresh,List.map_append]
            refine List.nodup_append.mpr ⟨catalog.ids,List.nodup_singleton _,fun id mem id' mem' => ?_⟩
            obtain ⟨c,inside,rfl⟩ := List.mem_map.mp mem
            rw [List.mem_singleton.mp mem']
            exact Nat.ne_of_lt (catalog.below c inside)
          below := fun c mem => by
            rcases Keyed.Table.memEnsure.mp mem with old | ⟨rfl,_⟩
            · exact Nat.lt_succ_of_lt (catalog.below c old)
            · exact Nat.lt_succ_self _
          owned := fun v mem => by
            obtain ⟨c,here,same⟩ := catalog.owned v mem
            exact ⟨c,Keyed.Table.memEnsure.mpr (Or.inl here),same⟩})

/-- `ON CONFLICT` leaves the presence of a version that is there already. -/
def Catalog.ensureVersion (catalog : Catalog lower) (crateId : Nat) (version : Text) : Catalog lower :=
  if known : ∃ c ∈ catalog.crates.rows, c.id = crateId then
    {catalog with
      versions := catalog.versions.ensure ⟨crateId,version,false,0⟩
      owned := fun v mem => by
        rcases Keyed.Table.memEnsure.mp mem with old | ⟨rfl,_⟩
        · exact catalog.owned v old
        · exact known}
  else catalog

def Catalog.ensureVersions (catalog : Catalog lower) (crateId : Nat) (versions : List Text) : Catalog lower :=
  versions.foldl (fun catalog version => catalog.ensureVersion crateId version) catalog

def Catalog.ensureStubs (catalog : Catalog lower) (names : List Text) : Option (Catalog lower) :=
  names.foldlM (fun catalog name => (catalog.ensureCrate name).map Prod.snd) catalog

def Catalog.persistCrateSync (catalog : Catalog lower) (detail : CrateDetail) : Option (Catalog lower) := do
  let (crateId,catalog) ← catalog.ensureCrate detail.name
  let catalog := catalog.ensureVersions crateId detail.versions
  catalog.ensureStubs ((detail.dependencies.map Str.trim).filter fun name => !name.isEmpty)

/-! A sync leaves the versions of every other crate alone. -/

variable {catalog catalog' : Catalog lower} {name crateName : Text} {crateId : Nat}

theorem ensureCrateKeeps (h : catalog.ensureCrate name = some (crateId,catalog')) :
    (∀ v, catalog'.OfCrate crateName v ↔ catalog.OfCrate crateName v) ∧ ⟨crateId,name⟩ ∈ catalog'.crates.rows := by
  unfold Catalog.ensureCrate at h
  split at h
  · rename_i c found
    cases Option.some.inj h
    have here := List.find?_some found
    simp only [decide_eq_true_eq] at here
    exact ⟨fun _ => Iff.rfl,here ▸ List.mem_of_find?_eq_some found⟩
  · split at h <;> try contradiction
    rename_i fresh
    cases Option.some.inj h
    refine ⟨fun v => ⟨?_,?_⟩,Keyed.Table.memEnsure.mpr (Or.inr ⟨rfl,fresh⟩)⟩
    · rintro ⟨mem,c,here,same,names⟩
      rcases Keyed.Table.memEnsure.mp here with old | ⟨rfl,_⟩
      · exact ⟨mem,c,old,same,names⟩
      · -- no version refers to an id of the sequence's future
        obtain ⟨owner,there,owns⟩ := catalog.owned v mem
        exact absurd (catalog.below owner there) (by rw [owns,← same]; exact lt_irrefl _)
    · rintro ⟨mem,c,here,same,names⟩
      exact ⟨mem,c,Keyed.Table.memEnsure.mpr (Or.inl here),same,names⟩

theorem ensureVersionCrates (version : Text) : (catalog.ensureVersion crateId version).crates = catalog.crates := by
  unfold Catalog.ensureVersion
  split <;> rfl

theorem ensureVersionKeeps (version : Text) (other : ∀ c ∈ catalog.crates.rows, c.id = crateId → lower c.name ≠ lower crateName)
    (v : VersionRow) : (catalog.ensureVersion crateId version).OfCrate crateName v ↔ catalog.OfCrate crateName v := by
  unfold Catalog.OfCrate
  rw [ensureVersionCrates]
  refine and_congr_left ?_
  rintro ⟨c,here,same,names⟩
  unfold Catalog.ensureVersion
  split
  · rw [Keyed.Table.memEnsure,or_iff_left]
    rintro ⟨rfl,_⟩
    exact other c here same names
  · rfl

theorem ensureVersionsKeeps (versions : List Text)
    (other : ∀ c ∈ catalog.crates.rows, c.id = crateId → lower c.name ≠ lower crateName) (v : VersionRow) :
    (catalog.ensureVersions crateId versions).OfCrate crateName v ↔ catalog.OfCrate crateName v := by
  induction versions generalizing catalog with
  | nil => rfl
  | cons version rest ih =>
    exact (ih (by rw [ensureVersionCrates]; exact other)).trans (ensureVersionKeeps version other v)

theorem ensureStubsKeeps {names : List Text} (h : catalog.ensureStubs names = some catalog') (v : VersionRow) :
    catalog'.OfCrate crateName v ↔ catalog.OfCrate crateName v := by
  induction names generalizing catalog with
  | nil => cases Option.some.inj h; rfl
  | cons stub rest ih =>
    rw [Catalog.ensureStubs,List.foldlM_cons] at h
    obtain ⟨next,grown,rest⟩ := Option.bind_eq_some_iff.mp h
    obtain ⟨⟨id,_⟩,first,rfl⟩ := Option.map_eq_some_iff.mp grown
    exact (ih rest).trans ((ensureCrateKeeps first).1 v)

theorem persistKeeps {detail : CrateDetail} (h : catalog.persistCrateSync detail = some catalog')
    (other : lower detail.name ≠ lower crateName) (v : VersionRow) :
    catalog'.OfCrate crateName v ↔ catalog.OfCrate crateName v := by
  obtain ⟨⟨id,grown⟩,first,stubs⟩ := Option.bind_eq_some_iff.mp h
  obtain ⟨kept,here⟩ := ensureCrateKeeps first
  refine (ensureStubsKeeps stubs v).trans ((ensureVersionsKeeps detail.versions ?_ v).trans (kept v))
  intro c inside same
  rw [List.inj_on_of_nodup_map grown.ids inside here same]
  exact other

end RustMcp.CrateIndex
