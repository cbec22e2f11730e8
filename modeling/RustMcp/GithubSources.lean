import RustMcp.GithubSync
import RustMcp.Runs

/-! All that the sync stores of a crate's repository. Metadata, releases and the commit probe are
written one after the other, each with its own requests and statements; what was fetched is kept
here with the repository that it was fetched from. -/
namespace RustMcp.GithubSources
open Str (Text)
open GithubSync hiding syncCandidate syncGithubMetadata

structure GitHubRelease where
  tagName : Text
  name : Option Text
  body : Option Text
  publishedAt : Option Text
  prerelease : Bool
  draft : Bool

structure GitHubReleaseRow where
  tagName : Text
  releaseName : Option Text
  body : Option Text
  publishedAt : Option Text
  prerelease : Bool

structure GitProbeResult where
  lastCommitAt : Option Text
  lastCommitMessage : Option Text
  recentCommitCount : Int

variable {R : Type}

/-- A stored value; its source is not stored. -/
structure Sourced (R α : Type) where
  value : α
  source : R

/-- `github_repo_metadata` and `github_releases`, by crate. The commit columns of a row are kept beside it,
and so is the source of its counters. -/
structure Store (R : Type) where
  metadata : MetadataTable
  countersOf : Nat → Option R
  probes : Nat → Option (Sourced R GitProbeResult)
  releases : Nat → List (Sourced R GitHubReleaseRow)

def emptyStore : Store R := ⟨⟨[],List.nodup_nil⟩,fun _ => none,fun _ => none,fun _ => []⟩

/-! The code. -/

/-- What a pass meets beside the metadata's API: the releases' API, the probe, its settings, and the failures
of the database. `releasesFault` is the number of statements that a crate's releases get done. -/
structure Rest where
  candidatesError : Option Text
  fetchReleases : Text → Text → Except Text (List GitHubRelease)
  releasesFault : Nat → Option Nat
  gitProbeEnabled : Bool
  gitProbeCloneDepth : Nat
  probeRepo : Text → Text → Except Text GitProbeResult
  probeError : Nat → Option Text

def releaseRow (release : GitHubRelease) : GitHubReleaseRow :=
  ⟨release.tagName,release.name,release.body,release.publishedAt,release.prerelease⟩

/-- A delete, then an insert for each release. -/
def upsertGithubReleases (fault : Option Nat) (rows old : List (Sourced R GitHubReleaseRow)) : List (Sourced R GitHubReleaseRow) :=
  let insert := fun rows : List (Sourced R GitHubReleaseRow) =>
    rows.foldl (fun stored row => Keyed.put (fun r : Sourced R GitHubReleaseRow => r.value.tagName) row stored) []
  match fault with
  | none => insert rows
  | some 0 => old
  | some (inserted+1) => insert (rows.take inserted)

/-- An update of the row, if there is one. -/
def updateGitProbeData (crateId : Nat) (probe : Sourced R GitProbeResult) (store : Store R) : Store R :=
  if (metadataOf store.metadata crateId).isSome then {store with probes := Function.update store.probes crateId (some probe)}
  else store

section
variable (identify : Text → Text → R) (rest : Rest) (crateId : Nat) (owner repo : Text)

def storeMetadata (now : Nat) (insert : GitHubMetadataInsert) (store : Store R) : Store R :=
  {store with
    metadata := upsertGithubMetadata now crateId insert store.metadata
    countersOf := Function.update store.countersOf crateId (some (identify owner repo))}

def storeReleases (store : Store R) : Store R :=
  match rest.fetchReleases owner repo with
  | .error _ => store
  | .ok releases =>
      let rows := (releases.filter fun release => !release.draft).map fun release => ⟨releaseRow release,identify owner repo⟩
      {store with
        releases := Function.update store.releases crateId
          (upsertGithubReleases (rest.releasesFault crateId) rows (store.releases crateId))}

def storeProbe (store : Store R) : Store R :=
  if rest.gitProbeEnabled && 0 < rest.gitProbeCloneDepth then
    match rest.probeRepo owner repo with
    | .error _ => store
    | .ok probe =>
        match rest.probeError crateId with
        | some _ => store
        | none => updateGitProbeData crateId ⟨probe,identify owner repo⟩ store
  else store

end

section
variable (identify : Text → Text → R) (github : GitHub) (rest : Rest) (pass : Pass)

def syncCandidate (state : Store R × GitHubSyncOutcome) (candidate : CrateRow) : Store R × GitHubSyncOutcome :=
  match candidate.repositoryUrl.bind parseGithubOwnerRepo with
  | none => state
  | some (owner,repo) =>
      match github.fetchRepoMetadata owner repo with
      | .error error => (state.1,{state.2 with errors := state.2.errors ++ [error]})
      | .ok fetched =>
          match github.upsertError candidate.id with
          | some error =>
              (state.1,{state.2 with
                errors := state.2.errors ++ ["failed to upsert GitHub metadata for ".toList ++ candidate.name ++ ": ".toList ++ error]})
          | none =>
              let stored := storeMetadata identify candidate.id owner repo (pass.storedAt candidate.id)
                (metadataInsert github owner repo fetched) state.1
              (storeProbe identify rest candidate.id owner repo (storeReleases identify rest candidate.id owner repo stored),
                {state.2 with cratesProcessed := state.2.cratesProcessed + 1})

def syncGithubMetadata (limit maxAgeSecs : Nat) (crates : Keyed.Table CrateRow.id) (store : Store R) :
    Except Text (Store R × GitHubSyncOutcome) :=
  match rest.candidatesError with
  | some error => .error ("failed to fetch GitHub metadata candidates: ".toList ++ error)
  | none =>
      .ok ((fetchCratesNeedingGithubMetadata maxAgeSecs limit pass.now crates store.metadata).foldl
        (syncCandidate identify github rest pass) (store,⟨0,[]⟩))

end

/-! What the parts write. -/

section
variable (identify : Text → Text → R) (rest : Rest) (crateId : Nat) (owner repo : Text) (store : Store R)

theorem releasesWritten : storeReleases identify rest crateId owner repo store = store ∨
    ∃ rows : List (Sourced R GitHubReleaseRow), (∀ row ∈ rows, row.source = identify owner repo) ∧
      storeReleases identify rest crateId owner repo store =
        {store with
          releases := Function.update store.releases crateId
            (upsertGithubReleases (rest.releasesFault crateId) rows (store.releases crateId))} := by
  unfold storeReleases
  split
  · exact .inl rfl
  · refine .inr ⟨_,fun row mem => ?_,rfl⟩
    obtain ⟨release,-,rfl⟩ := List.mem_map.mp mem
    rfl

theorem probeWritten : storeProbe identify rest crateId owner repo store = store ∨
    ∃ result, storeProbe identify rest crateId owner repo store =
      {store with probes := Function.update store.probes crateId (some ⟨result,identify owner repo⟩)} := by
  unfold storeProbe updateGitProbeData
  split <;> try exact .inl rfl
  split <;> try exact .inl rfl
  split <;> try exact .inl rfl
  split <;> try exact .inl rfl
  exact .inr ⟨_,rfl⟩

theorem releasesMetadata : (storeReleases identify rest crateId owner repo store).metadata = store.metadata := by
  rcases releasesWritten identify rest crateId owner repo store with same | ⟨_,_,same⟩ <;> rw [same]

theorem probeMetadata : (storeProbe identify rest crateId owner repo store).metadata = store.metadata := by
  rcases probeWritten identify rest crateId owner repo store with same | ⟨_,same⟩ <;> rw [same]

end

/-- The metadata is that of the sync without the other data. -/
theorem candidateMetadata (identify : Text → Text → R) (github : GitHub) (rest : Rest) (pass : Pass)
    (state : Store R × GitHubSyncOutcome) (candidate : CrateRow) :
    ((syncCandidate identify github rest pass state candidate).1.metadata,(syncCandidate identify github rest pass state candidate).2) =
      GithubSync.syncCandidate github pass (state.1.metadata,state.2) candidate := by
  unfold syncCandidate GithubSync.syncCandidate
  cases candidate.repositoryUrl.bind parseGithubOwnerRepo with
  | none => rfl
  | some repository =>
    obtain ⟨owner,repo⟩ := repository
    dsimp only
    cases github.fetchRepoMetadata owner repo with
    | error => rfl
    | ok fetched =>
      dsimp only
      cases github.upsertError candidate.id with
      | some => rfl
      | none =>
        dsimp only
        rw [probeMetadata,releasesMetadata]
        rfl

/-- So is that of a pass, with its outcome. -/
theorem passMetadata (identify : Text → Text → R) (github : GitHub) {rest : Rest} (queried : rest.candidatesError = none) (pass : Pass)
    (limit maxAgeSecs : Nat) (crates : Keyed.Table CrateRow.id) (store : Store R) :
    (syncGithubMetadata identify github rest pass limit maxAgeSecs crates store).map (fun state => (state.1.metadata,state.2)) =
      .ok (GithubSync.syncGithubMetadata github limit maxAgeSecs crates pass store.metadata) := by
  have turns (candidates : List CrateRow) (state : Store R × GitHubSyncOutcome) :
      candidates.foldl (GithubSync.syncCandidate github pass) (state.1.metadata,state.2) =
        ((candidates.foldl (syncCandidate identify github rest pass) state).1.metadata,
          (candidates.foldl (syncCandidate identify github rest pass) state).2) :=
    List.foldl_hom (fun state : Store R × GitHubSyncOutcome => (state.1.metadata,state.2))
      fun state candidate => (candidateMetadata identify github rest pass state candidate).symm
  rw [syncGithubMetadata,queried]
  exact congrArg Except.ok (turns _ (store,⟨0,[]⟩)).symm

/-! What is stored of one crate. -/

structure Kept (R : Type) where
  row : Option GitHubMetadataRow
  counters : Option R
  probe : Option (Sourced R GitProbeResult)
  releases : List (Sourced R GitHubReleaseRow)

def kept (store : Store R) (crateId : Nat) : Kept R :=
  ⟨metadataOf store.metadata crateId,store.countersOf crateId,store.probes crateId,store.releases crateId⟩

/-- The repository that a row names. -/
def rowOf (identify : Text → Text → R) (row : GitHubMetadataRow) : R := identify row.metadata.owner row.metadata.repo

/-- All that is stored is of one repository. -/
def Unmixed (identify : Text → Text → R) (data : Kept R) : Prop :=
  ∃ r, (∀ row ∈ data.row, rowOf identify row = r) ∧ (∀ source ∈ data.counters, source = r) ∧
    (∀ probe ∈ data.probe, probe.source = r) ∧ ∀ release ∈ data.releases, release.source = r

/-- Without a row there is nothing else. -/
def RowFirst (data : Kept R) : Prop := data.row = none → data.probe = none ∧ data.releases = []

/-- What a sync from a repository makes of the data. -/
structure StoredFrom (identify : Text → Text → R) (r : R) (before after : Kept R) : Prop where
  row : ∃ row, after.row = some row ∧ rowOf identify row = (before.row.map (rowOf identify)).getD r
  counters : after.counters = some r
  probe : after.probe = before.probe ∨ ∃ result, after.probe = some ⟨result,r⟩
  releases : after.releases = before.releases ∨ ∀ release ∈ after.releases, release.source = r

theorem rowFirstStored {identify : Text → Text → R} {r : R} {before after : Kept R} (stored : StoredFrom identify r before after) :
    RowFirst after := by
  obtain ⟨row,there,-⟩ := stored.row
  intro missing
  rw [there] at missing
  contradiction

/-- The data stays of one repository exactly if the row was of this one, if there was a row. -/
theorem unmixedStored {identify : Text → Text → R} {r : R} {before after : Kept R} (stored : StoredFrom identify r before after)
    (unmixed : Unmixed identify before) (first : RowFirst before) :
    Unmixed identify after ↔ ∀ row ∈ before.row, rowOf identify row = r := by
  obtain ⟨named,there,same⟩ := stored.row
  constructor
  · rintro ⟨s,rows,counters,-,-⟩ row mem
    rw [Option.mem_def.mp mem,Option.map_some,Option.getD_some] at same
    rw [← same,rows named there,counters r stored.counters]
  · intro own
    have all : (∀ probe ∈ before.probe, probe.source = r) ∧ ∀ release ∈ before.releases, release.source = r := by
      cases old : before.row with
      | none =>
        obtain ⟨probe,releases⟩ := first old
        rw [probe,releases]
        exact ⟨fun _ none_ => absurd none_ (by simp),fun _ none_ => absurd none_ List.not_mem_nil⟩
      | some row =>
        obtain ⟨s,rows,-,probes,releases⟩ := unmixed
        have is : s = r := (rows row old).symm.trans (own row old)
        exact ⟨is ▸ probes,is ▸ releases⟩
    refine ⟨r,fun row mem => ?_,fun source mem => ?_,fun probe mem => ?_,fun release mem => ?_⟩
    · cases Option.some.inj (there.symm.trans mem)
      rw [same]
      cases old : before.row with
      | none => rfl
      | some row => exact own row old
    · exact Option.some.inj (mem.symm.trans stored.counters)
    · rcases stored.probe with same | ⟨result,new⟩
      · exact all.1 probe (same ▸ mem)
      · cases Option.some.inj (new.symm.trans mem)
        rfl
    · rcases stored.releases with same | new
      · exact all.2 release (same ▸ mem)
      · exact new release mem

/-! A crate's turn. -/

theorem putSource {key : Sourced R GitHubReleaseRow → Text} {row x : Sourced R GitHubReleaseRow} {stored : List (Sourced R GitHubReleaseRow)}
    (mem : x ∈ Keyed.put key row stored) : x = row ∨ x ∈ stored := by
  induction stored with
  | nil => exact .inl (List.mem_singleton.mp mem)
  | cons first later ih =>
    rw [Keyed.put] at mem
    split at mem
    · exact (List.mem_cons.mp mem).imp_right (List.mem_cons_of_mem _)
    · rcases List.mem_cons.mp mem with here | there
      · exact .inr (List.mem_cons.mpr (.inl here))
      · exact (ih there).imp_right (List.mem_cons_of_mem _)

theorem insertedSource {r : R} {key : Sourced R GitHubReleaseRow → Text} {rows : List (Sourced R GitHubReleaseRow)}
    (all : ∀ row ∈ rows, row.source = r) :
    ∀ release ∈ rows.foldl (fun stored row => Keyed.put key row stored) [], release.source = r := by
  induction rows using List.reverseRecOn with
  | nil => exact fun _ none_ => absurd none_ List.not_mem_nil
  | append_singleton rows row ih =>
    rw [List.foldl_append,List.foldl_cons,List.foldl_nil]
    intro release mem
    rcases putSource mem with rfl | before
    · exact all release List.mem_concat_self
    · exact ih (fun row mem => all row (List.mem_append_left _ mem)) release before

/-- The old releases, or such of the new ones. -/
theorem releasesUpserted {r : R} {rows : List (Sourced R GitHubReleaseRow)} (all : ∀ row ∈ rows, row.source = r)
    (fault : Option Nat) (old : List (Sourced R GitHubReleaseRow)) :
    upsertGithubReleases fault rows old = old ∨ ∀ release ∈ upsertGithubReleases fault rows old, release.source = r := by
  cases fault with
  | none => exact .inr (insertedSource all)
  | some done =>
    cases done with
    | zero => exact .inl rfl
    | succ inserted => exact .inr (insertedSource fun row mem => all row (List.mem_of_mem_take mem))

section
variable (identify : Text → Text → R) (rest : Rest) (crateId : Nat) (owner repo : Text) (store : Store R)

theorem metadataUpserted (now : Nat) (insert : GitHubMetadataInsert) (table : MetadataTable) (id : Nat) :
    metadataOf (upsertGithubMetadata now crateId insert table) id =
      if crateId = id then
        some ⟨crateId,((metadataOf table crateId).map fun old =>
          {insert with owner := old.metadata.owner, repo := old.metadata.repo}).getD insert,now⟩
      else metadataOf table id := by
  unfold upsertGithubMetadata
  cases old : metadataOf table crateId <;> exact Keyed.Table.lookupUpsert _ _ _

theorem keptMetadata (now : Nat) (insert : GitHubMetadataInsert) (own : insert.owner = owner ∧ insert.repo = repo) :
    StoredFrom identify (identify owner repo) (kept store crateId)
      (kept (storeMetadata identify crateId owner repo now insert store) crateId) where
  row := by
    refine ⟨_,(metadataUpserted crateId now insert store.metadata crateId).trans (if_pos rfl),?_⟩
    obtain ⟨rfl,rfl⟩ := own
    rw [kept]
    cases metadataOf store.metadata crateId <;> rfl
  counters := Function.update_self ..
  probe := .inl rfl
  releases := .inl rfl

theorem keptReleases {before : Kept R} (stored : StoredFrom identify (identify owner repo) before (kept store crateId)) :
    StoredFrom identify (identify owner repo) before (kept (storeReleases identify rest crateId owner repo store) crateId) := by
  rcases releasesWritten identify rest crateId owner repo store with same | ⟨rows,all,same⟩
  · rw [same]
    exact stored
  · rw [same]
    refine ⟨stored.row,stored.counters,stored.probe,?_⟩
    dsimp only [kept]
    rw [Function.update_self]
    rcases releasesUpserted all (rest.releasesFault crateId) (store.releases crateId) with old | new
    · rw [old]
      exact stored.releases
    · exact .inr new

theorem keptProbe {before : Kept R} (stored : StoredFrom identify (identify owner repo) before (kept store crateId)) :
    StoredFrom identify (identify owner repo) before (kept (storeProbe identify rest crateId owner repo store) crateId) := by
  rcases probeWritten identify rest crateId owner repo store with same | ⟨result,same⟩
  · rw [same]
    exact stored
  · rw [same]
    exact ⟨stored.row,stored.counters,.inr ⟨result,Function.update_self ..⟩,stored.releases⟩

/-! Other crates are left as they are. -/

variable {id : Nat} (other : id ≠ crateId)
include other

theorem metadataOther (now : Nat) (insert : GitHubMetadataInsert) :
    kept (storeMetadata identify crateId owner repo now insert store) id = kept store id := by
  simp [kept,storeMetadata,metadataUpserted,Function.update_of_ne other,Ne.symm other]

theorem releasesOther : kept (storeReleases identify rest crateId owner repo store) id = kept store id := by
  rcases releasesWritten identify rest crateId owner repo store with same | ⟨_,_,same⟩
  · rw [same]
  · simp [same,kept,Function.update_of_ne other]

theorem probeOther : kept (storeProbe identify rest crateId owner repo store) id = kept store id := by
  rcases probeWritten identify rest crateId owner repo store with same | ⟨_,same⟩
  · rw [same]
  · simp [same,kept,Function.update_of_ne other]

end

section
variable {identify : Text → Text → R} {github : GitHub} {rest : Rest} {pass : Pass} {state : Store R × GitHubSyncOutcome}
  {candidate : CrateRow}

/-- The repository that the crate's URL names. -/
def repositoryOf (identify : Text → Text → R) (crate : CrateRow) : Option R :=
  (crate.repositoryUrl.bind parseGithubOwnerRepo).map fun repository => identify repository.1 repository.2

theorem turnSkipped (cannot : storable github candidate = false) :
    (syncCandidate identify github rest pass state candidate).1 = state.1 := by
  unfold syncCandidate
  split <;> try rfl
  rename_i owner repo parsed
  split <;> try rfl
  rename_i fetched answer
  split <;> try rfl
  rename_i stored
  simp [storable,fetchable,parsed,answer,stored,Except.toOption] at cannot

theorem turnStored (can : storable github candidate = true) : ∃ r, repositoryOf identify candidate = some r ∧
    StoredFrom identify r (kept state.1 candidate.id) (kept (syncCandidate identify github rest pass state candidate).1 candidate.id) := by
  obtain ⟨⟨owner,repo⟩,parsed,answered⟩ := (Option.any_eq_true _ _).mp (storableFetchable can)
  refine ⟨identify owner repo,by rw [repositoryOf,parsed]; rfl,?_⟩
  cases answer : github.fetchRepoMetadata owner repo with
  | error => simp [answer,Except.toOption] at answered
  | ok fetched =>
    simp only [syncCandidate,parsed,answer,storableUpsert can]
    exact keptProbe _ _ _ _ _ _ (keptReleases _ _ _ _ _ _ (keptMetadata _ _ _ _ _ _ _ ⟨rfl,rfl⟩))

theorem turnOther {id : Nat} (other : id ≠ candidate.id) :
    kept (syncCandidate identify github rest pass state candidate).1 id = kept state.1 id := by
  unfold syncCandidate
  split <;> try rfl
  split <;> try rfl
  split <;> try rfl
  dsimp only
  rw [probeOther _ _ _ _ _ _ other,releasesOther _ _ _ _ _ _ other,metadataOther _ _ _ _ _ other]

end

/-! A pass. -/

section
variable (identify : Text → Text → R) (github : GitHub) (rest : Rest) (pass : Pass)

/-- A crate is synced once, or it keeps what it has. -/
theorem turnsKept {candidates : List CrateRow} (unique : (candidates.map CrateRow.id).Nodup) (state : Store R × GitHubSyncOutcome)
    (id : Nat) :
    ((∀ candidate ∈ candidates, storable github candidate = true → candidate.id ≠ id) ∧
      kept (candidates.foldl (syncCandidate identify github rest pass) state).1 id = kept state.1 id) ∨
    ∃ candidate ∈ candidates, candidate.id = id ∧ storable github candidate = true ∧ ∃ r, repositoryOf identify candidate = some r ∧
      StoredFrom identify r (kept state.1 id) (kept (candidates.foldl (syncCandidate identify github rest pass) state).1 id) := by
  induction candidates using List.reverseRecOn with
  | nil => exact .inl ⟨fun _ none_ => absurd none_ List.not_mem_nil,rfl⟩
  | append_singleton candidates last ih =>
    rw [List.map_append,List.map_singleton,← List.concat_eq_append,List.nodup_concat] at unique
    obtain ⟨fresh,unique⟩ := unique
    rw [List.foldl_append,List.foldl_cons,List.foldl_nil]
    by_cases own : last.id = id
    · subst own
      have before : kept (candidates.foldl (syncCandidate identify github rest pass) state).1 last.id = kept state.1 last.id := by
        rcases ih unique with ⟨-,same⟩ | ⟨candidate,mem,same,-⟩
        · exact same
        · exact absurd (same ▸ List.mem_map_of_mem mem) fresh
      cases can : storable github last with
      | true =>
        refine .inr ⟨last,List.mem_concat_self,rfl,can,?_⟩
        rw [← before]
        exact turnStored can
      | false =>
        refine .inl ⟨fun candidate mem able same => ?_,by rw [turnSkipped can,before]⟩
        rcases List.mem_append.mp mem with mem | mem
        · exact fresh (same ▸ List.mem_map_of_mem mem)
        · cases List.mem_singleton.mp mem
          rw [can] at able
          contradiction
    · rw [turnOther (Ne.symm own)]
      refine (ih unique).imp (fun ⟨none_,same⟩ => ⟨fun candidate mem able => ?_,same⟩) fun ⟨candidate,mem,rest⟩ =>
        ⟨candidate,List.mem_append_left _ mem,rest⟩
      rcases List.mem_append.mp mem with mem | mem
      · exact none_ candidate mem able
      · exact List.mem_singleton.mp mem ▸ own

end

theorem batchUnique (maxAgeSecs limit now : Nat) (crates : Keyed.Table CrateRow.id) (table : MetadataTable) :
    ((fetchCratesNeedingGithubMetadata maxAgeSecs limit now crates table).map CrateRow.id).Nodup := by
  have needed : ((candidates maxAgeSecs now crates table).map CrateRow.id).Nodup :=
    crates.unique.sublist (List.filter_sublist.map CrateRow.id)
  have sorted := ((Ranking.sortByPerm CrateRow.id (candidates maxAgeSecs now crates table)).map CrateRow.id).nodup_iff.mpr needed
  exact sorted.sublist ((List.take_sublist _ _).map CrateRow.id)

/-! Runs. -/

structure World (R : Type) where
  crates : Keyed.Table CrateRow.id
  store : Store R

/-- A crate is written, with whatever repository URL, or a pass runs, whatever fails in it. -/
inductive Event where
  | crate (row : CrateRow)
  | pass (limit maxAgeSecs : Nat) (github : GitHub) (rest : Rest) (times : Pass)

def step (identify : Text → Text → R) (world : World R) : Event → Option (World R)
  | .crate row => some {world with crates := world.crates.upsert row}
  | .pass limit maxAgeSecs github rest times =>
      match syncGithubMetadata identify github rest times limit maxAgeSecs world.crates world.store with
      | .error _ => some world
      | .ok (store,_) => some {world with store := store}

def system (identify : Text → Text → R) : Runs.System (World R) Event := ⟨fun world => world.store = emptyStore,step identify⟩

/-- Of the crates that the pass stores metadata for, those with a row have a URL that names the row's repository. -/
def NamesStored (identify : Text → Text → R) (world : World R) : Event → Prop
  | .crate _ => True
  | .pass limit maxAgeSecs github rest times =>
      rest.candidatesError = none →
        ∀ candidate ∈ fetchCratesNeedingGithubMetadata maxAgeSecs limit times.now world.crates world.store.metadata,
          storable github candidate = true → ∀ row ∈ metadataOf world.store.metadata candidate.id,
            repositoryOf identify candidate = some (rowOf identify row)

section
variable {identify : Text → Text → R} {world next : World R} {event : Event}

theorem rowFirstStep (moves : step identify world event = some next) (first : ∀ id, RowFirst (kept world.store id)) (id : Nat) :
    RowFirst (kept next.store id) := by
  cases event with
  | crate row => cases Option.some.inj moves; exact first id
  | pass limit maxAgeSecs github rest times =>
    simp only [step,syncGithubMetadata] at moves
    cases failed : rest.candidatesError with
    | some error =>
      simp only [failed] at moves
      cases Option.some.inj moves
      exact first id
    | none =>
      simp only [failed] at moves
      cases Option.some.inj moves
      rcases turnsKept identify github rest times (batchUnique maxAgeSecs limit times.now world.crates world.store.metadata)
        (world.store,⟨0,[]⟩) id with ⟨-,same⟩ | ⟨_,_,_,_,r,_,stored⟩
      · exact same ▸ first id
      · exact rowFirstStored stored

theorem unmixedStep (moves : step identify world event = some next) (first : ∀ id, RowFirst (kept world.store id))
    (unmixed : ∀ id, Unmixed identify (kept world.store id)) :
    (∀ id, Unmixed identify (kept next.store id)) ↔ NamesStored identify world event := by
  cases event with
  | crate row =>
    cases Option.some.inj moves
    exact iff_of_true unmixed trivial
  | pass limit maxAgeSecs github rest times =>
    simp only [step,syncGithubMetadata] at moves
    cases failed : rest.candidatesError with
    | some error =>
      simp only [failed] at moves
      cases Option.some.inj moves
      refine iff_of_true unmixed fun none_ => ?_
      rw [failed] at none_
      contradiction
    | none =>
      simp only [failed] at moves
      cases Option.some.inj moves
      have unique := batchUnique maxAgeSecs limit times.now world.crates world.store.metadata
      have turns := turnsKept identify github rest times unique (world.store,⟨0,[]⟩)
      constructor
      · intro after _ candidate mem can row there
        rcases turns candidate.id with ⟨skipped,-⟩ | ⟨synced,mem',same,_,r,named,stored⟩
        · exact absurd rfl (skipped candidate mem can)
        · cases List.inj_on_of_nodup_map unique mem' mem same
          rw [named,(unmixedStored stored (unmixed _) (first _)).mp (after _) row there]
      · intro names id
        rcases turns id with ⟨-,same⟩ | ⟨candidate,mem,rfl,can,r,named,stored⟩
        · exact same ▸ unmixed id
        · refine (unmixedStored stored (unmixed _) (first _)).mpr fun row there => ?_
          have here := names failed candidate mem can row there
          exact Option.some.inj (here.symm.trans named)

end

variable (identify : Text → Text → R)

theorem reachFirst {allowed : World R → Event → Prop} {world : World R} (run : Runs.Reach (system identify) allowed world) :
    ∀ id, RowFirst (kept world.store id) := by
  refine run.invariant (I := fun world => ∀ id, RowFirst (kept world.store id)) (fun world fresh id => ?_)
    fun _ _ _ first _ moves => rowFirstStep moves first
  rw [show world.store = emptyStore from fresh]
  exact fun _ => ⟨rfl,rfl⟩

theorem reachUnmixed {world : World R} (run : Runs.Reach (system identify) (NamesStored identify) world) :
    ∀ id, Unmixed identify (kept world.store id) := by
  refine run.invariantOver (I := fun world => ∀ id, Unmixed identify (kept world.store id)) (fun _ run => reachFirst identify run)
    (fun world fresh id => ?_)
    fun _ _ _ first unmixed meets moves => (unmixedStep moves first unmixed).mpr meets
  rw [show world.store = emptyStore from fresh]
  exact ⟨identify [] [],fun _ none_ => absurd none_ (by simp [kept,emptyStore,metadataOf,Keyed.Table.lookup]),
    fun _ none_ => absurd none_ (by simp [kept,emptyStore]),fun _ none_ => absurd none_ (by simp [kept,emptyStore]),
    fun _ none_ => absurd none_ List.not_mem_nil⟩

def movedGitHub : GitHub where
  fetchRepoMetadata owner _ := .ok (if owner = "a".toList then ⟨5,1,0,false,none,none⟩ else ⟨900,70,3,false,none,none⟩)
  fetchContributorCount _ _ := .ok (some 2)
  upsertError _ := none

def movedRest : Rest where
  candidatesError := none
  fetchReleases _ _ := .ok []
  releasesFault _ := none
  gitProbeEnabled := false
  gitProbeCloneDepth := 0
  probeRepo _ _ := .error "disabled".toList
  probeError _ := none

def movedStart : World (Text × Text) where
  crates := ⟨[⟨1,"c".toList,some "https://github.com/a/x".toList⟩],List.nodup_singleton _⟩
  store := emptyStore

def movedEvents : List Event :=
  [.pass 50 50 movedGitHub movedRest (passAt 100),.crate ⟨1,"c".toList,some "https://github.com/b/y".toList⟩,
    .pass 50 50 movedGitHub movedRest (passAt 200)]

theorem movedRuns : (Runs.exec (system Prod.mk) Runs.always movedStart movedEvents).isSome = true := by decide +kernel

def movedEnd : World (Text × Text) := (Runs.exec (system Prod.mk) Runs.always movedStart movedEvents).get movedRuns

end RustMcp.GithubSources
