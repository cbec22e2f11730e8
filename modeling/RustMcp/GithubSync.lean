import RustMcp.Batches
import RustMcp.Keyed
import RustMcp.Like

/-! The sync of GitHub metadata: batches of crates without recent metadata, in order of
id. Failures are reported and not stored, so that a crate whose repository cannot be
fetched is a candidate again in every pass. -/
namespace RustMcp.GithubSync
open Str (Text)

structure CrateRow where
  id : Nat
  name : Text
  repositoryUrl : Option Text
  deriving DecidableEq

/-- What the API returns for a repository; `spdxId` is that of its license, if it has one. -/
structure GitHubRepoMetadata where
  stargazersCount : Nat
  forksCount : Nat
  openIssuesCount : Nat
  archived : Bool
  pushedAt : Option Text
  spdxId : Option Text

structure GitHubMetadataInsert where
  owner : Text
  repo : Text
  stargazersCount : Nat
  forksCount : Nat
  openIssuesCount : Nat
  archived : Bool
  pushedAt : Option Text
  licenseSpdx : Option Text
  contributorCount : Option Nat

/-- A row of `github_repo_metadata`. -/
structure GitHubMetadataRow where
  crateId : Nat
  metadata : GitHubMetadataInsert
  fetchedAt : Nat

abbrev MetadataTable := Keyed.Table GitHubMetadataRow.crateId

def metadataOf (table : MetadataTable) (crateId : Nat) : Option GitHubMetadataRow := table.lookup crateId

/-! Repository URLs. -/

def trimEndFrom (tail : Text) : Nat → Text → Text
  | 0, text => text
  | n+1, text => match Str.stripSuffix tail text with
    | some rest => trimEndFrom tail n rest
    | none => text

def trimEndMatches (tail text : Text) : Text := trimEndFrom tail text.length text

def parseGithubOwnerRepo (url : Text) : Option (Text × Text) := do
  let url := (Str.trim url).rdropWhile (· = '/')
  let path ← (Str.stripPrefix "https://github.com/".toList url).or (Str.stripPrefix "http://github.com/".toList url)
  let (owner,rest) ← Str.splitOnce '/' path
  let repo := trimEndMatches ".git".toList (((Str.splitOnce '/' rest).map Prod.fst).getD rest)
  if owner = [] || repo = [] then none else some (owner,repo)

/-! A pass. -/

/-- The API, and the database's error for the metadata of a crate. -/
structure GitHub where
  fetchRepoMetadata : Text → Text → Except Text GitHubRepoMetadata
  fetchContributorCount : Text → Text → Except Text (Option Nat)
  upsertError : Nat → Option Text

/-- The times of a pass: of its query, and of each upsert. -/
structure Pass where
  now : Nat
  storedAt : Nat → Nat
  later : ∀ crateId, now ≤ storedAt crateId

structure GitHubSyncOutcome where
  cratesProcessed : Nat
  errors : List Text

def stale (maxAgeSecs now : Nat) (row : GitHubMetadataRow) : Bool := row.fetchedAt + maxAgeSecs < now

def needsMetadata (maxAgeSecs now : Nat) (table : MetadataTable) (crate : CrateRow) : Bool :=
  crate.repositoryUrl.any (Like.like "%github.com/%".toList) && (metadataOf table crate.id).all (stale maxAgeSecs now)

def candidates (maxAgeSecs now : Nat) (crates : Keyed.Table CrateRow.id) (table : MetadataTable) : List CrateRow :=
  crates.rows.filter (needsMetadata maxAgeSecs now table)

def fetchCratesNeedingGithubMetadata (maxAgeSecs limit now : Nat) (crates : Keyed.Table CrateRow.id)
    (table : MetadataTable) : List CrateRow :=
  (Ranking.sortBy CrateRow.id (candidates maxAgeSecs now crates table)).take limit

/-- On conflict the owner and the repository stay as they were. -/
def upsertGithubMetadata (now crateId : Nat) (insert : GitHubMetadataInsert) (table : MetadataTable) : MetadataTable :=
  match metadataOf table crateId with
  | none => table.upsert ⟨crateId,insert,now⟩
  | some old => table.upsert ⟨crateId,{insert with owner := old.metadata.owner, repo := old.metadata.repo},now⟩

def metadataInsert (github : GitHub) (owner repo : Text) (fetched : GitHubRepoMetadata) : GitHubMetadataInsert where
  owner := owner
  repo := repo
  stargazersCount := fetched.stargazersCount
  forksCount := fetched.forksCount
  openIssuesCount := fetched.openIssuesCount
  archived := fetched.archived
  pushedAt := fetched.pushedAt
  licenseSpdx := fetched.spdxId.filter (· ≠ "NOASSERTION".toList)
  contributorCount := match github.fetchContributorCount owner repo with
    | .ok count => count
    | .error _ => none

/-- Releases and the commit probe are stored elsewhere, and their failures are logged only. -/
def syncCandidate (github : GitHub) (pass : Pass) (state : MetadataTable × GitHubSyncOutcome) (candidate : CrateRow) :
    MetadataTable × GitHubSyncOutcome :=
  match candidate.repositoryUrl.bind parseGithubOwnerRepo with
  | none => state
  | some (owner,repo) =>
      match github.fetchRepoMetadata owner repo with
      | .error error => (state.1,{state.2 with errors := state.2.errors ++ [error]})
      | .ok fetched =>
          match github.upsertError candidate.id with
          | some error =>
              (state.1,{state.2 with
                errors := state.2.errors ++ ["failed to upsert GitHub metadata for ".toList ++ candidate.name ++ ": ".toList ++ error]})
          | none =>
              (upsertGithubMetadata (pass.storedAt candidate.id) candidate.id (metadataInsert github owner repo fetched) state.1,
                {state.2 with cratesProcessed := state.2.cratesProcessed + 1})

section
variable (github : GitHub) (limit maxAgeSecs : Nat) (crates : Keyed.Table CrateRow.id)

def syncGithubMetadata (pass : Pass) (table : MetadataTable) : MetadataTable × GitHubSyncOutcome :=
  (fetchCratesNeedingGithubMetadata maxAgeSecs limit pass.now crates table).foldl (syncCandidate github pass) (table,⟨0,[]⟩)

def syncPasses (passes : List Pass) (table : MetadataTable) : MetadataTable :=
  passes.foldl (fun table pass => (syncGithubMetadata github limit maxAgeSecs crates pass table).1) table

/-- What is stored and not stale after a pass is not stale at the later ones. -/
def Lasting : List Pass → MetadataTable → Prop
  | [], _ => True
  | pass::passes, table =>
      let after := (syncGithubMetadata github limit maxAgeSecs crates pass table).1
      (∀ row ∈ after.rows, stale maxAgeSecs pass.now row = false → ∀ later ∈ passes, stale maxAgeSecs later.now row = false) ∧
        Lasting passes after

end

def fetchable (github : GitHub) (crate : CrateRow) : Bool :=
  (crate.repositoryUrl.bind parseGithubOwnerRepo).any fun repository =>
    (github.fetchRepoMetadata repository.1 repository.2).toOption.isSome

def storable (github : GitHub) (crate : CrateRow) : Bool := fetchable github crate && (github.upsertError crate.id).isNone

/-! What a pass leaves. -/

def fetchedAt (table : MetadataTable) (crateId : Nat) : Option Nat := (metadataOf table crateId).map GitHubMetadataRow.fetchedAt

theorem fetchedUpsert (now crateId : Nat) (insert : GitHubMetadataInsert) (table : MetadataTable) (id : Nat) :
    fetchedAt (upsertGithubMetadata now crateId insert table) id = if crateId = id then some now else fetchedAt table id := by
  unfold upsertGithubMetadata fetchedAt
  cases metadataOf table crateId <;> simp only [metadataOf,Keyed.Table.lookupUpsert] <;> split <;> rfl

theorem fetchedCandidate (github : GitHub) (pass : Pass) (state : MetadataTable × GitHubSyncOutcome) (candidate : CrateRow)
    (id : Nat) : fetchedAt (syncCandidate github pass state candidate).1 id =
      if storable github candidate = true ∧ candidate.id = id then some (pass.storedAt id) else fetchedAt state.1 id := by
  cases parsed : candidate.repositoryUrl.bind parseGithubOwnerRepo with
  | none => simp [syncCandidate,storable,fetchable,parsed]
  | some repository =>
    obtain ⟨owner,repo⟩ := repository
    cases fetched : github.fetchRepoMetadata owner repo with
    | error => simp [syncCandidate,storable,fetchable,parsed,fetched,Except.toOption]
    | ok metadata =>
      cases stored : github.upsertError candidate.id with
      | some => simp [syncCandidate,storable,parsed,fetched,stored]
      | none =>
        have can : storable github candidate = true := by simp [storable,fetchable,parsed,fetched,stored,Except.toOption]
        simp only [syncCandidate,parsed,fetched,stored,fetchedUpsert,can,true_and]
        split
        · rename_i same; rw [same]
        · rfl

theorem fetchedCandidates (github : GitHub) (pass : Pass) (candidates : List CrateRow) (table : MetadataTable)
    (outcome : GitHubSyncOutcome) (id : Nat) : fetchedAt (candidates.foldl (syncCandidate github pass) (table,outcome)).1 id =
      if ∃ candidate ∈ candidates, storable github candidate = true ∧ candidate.id = id then some (pass.storedAt id)
      else fetchedAt table id := by
  induction candidates using List.reverseRecOn with
  | nil => simp
  | append_singleton candidates candidate ih =>
    rw [List.foldl_append,List.foldl_cons,List.foldl_nil,fetchedCandidate,ih]
    by_cases last : storable github candidate = true ∧ candidate.id = id
    · simp [last]
    · simp [last]

theorem hasRow (table : MetadataTable) (crateId : Nat) : (metadataOf table crateId).isSome = (fetchedAt table crateId).isSome := by
  rw [fetchedAt,Option.isSome_map]

theorem needsIff {maxAgeSecs now : Nat} {table : MetadataTable} {crate : CrateRow} :
    needsMetadata maxAgeSecs now table crate = true ↔ crate.repositoryUrl.any (Like.like "%github.com/%".toList) = true ∧
      ∀ stored, fetchedAt table crate.id = some stored → stored + maxAgeSecs < now := by
  unfold needsMetadata fetchedAt
  cases metadataOf table crate.id <;> simp [stale]

/-! Repository URLs are among those that the query looks for. -/

theorem parsedInfix {url : Text} {repository : Text × Text} (parsed : parseGithubOwnerRepo url = some repository) :
    "github.com/".toList <:+: url := by
  have cut : (Str.trim url).rdropWhile (· = '/') <:+: url := (List.rdropWhile_prefix _ _).isInfix.trans (Str.trimInfix url)
  refine List.IsInfix.trans ?_ cut
  simp only [parseGithubOwnerRepo,bind,Option.bind_eq_some_iff] at parsed
  obtain ⟨path,found,-⟩ := parsed
  rcases Option.or_eq_some_iff.mp found with secure | ⟨-,plain⟩
  · exact ⟨"https://".toList,path,(Str.stripPrefixIff.mp secure).symm⟩
  · exact ⟨"http://".toList,path,(Str.stripPrefixIff.mp plain).symm⟩

theorem fetchableLike {github : GitHub} {crate : CrateRow} (can : fetchable github crate = true) :
    crate.repositoryUrl.any (Like.like "%github.com/%".toList) = true := by
  obtain ⟨repository,found,-⟩ := (Option.any_eq_true _ _).mp can
  obtain ⟨url,stored,parsed⟩ := Option.bind_eq_some_iff.mp found
  rw [stored,Option.any_some]
  exact Like.likeInfix (by decide) (parsedInfix parsed)

section
variable {github : GitHub} {limit maxAgeSecs : Nat} {crates : Keyed.Table CrateRow.id}

theorem sameId {crate other : CrateRow} (mem : crate ∈ crates.rows) (there : other ∈ crates.rows) (same : crate.id = other.id) :
    crate = other := List.inj_on_of_nodup_map crates.unique mem there same

theorem batchIff {now : Nat} {table : MetadataTable} {crate : CrateRow} :
    crate ∈ fetchCratesNeedingGithubMetadata maxAgeSecs limit now crates table ↔
      crate ∈ candidates maxAgeSecs now crates table ∧
        Ranking.rank CrateRow.id (candidates maxAgeSecs now crates table) crate < limit := by
  have nodup : (candidates maxAgeSecs now crates table).Nodup := (List.Nodup.of_map _ crates.unique).filter _
  have distinct : ∀ x ∈ candidates maxAgeSecs now crates table, ∀ y ∈ candidates maxAgeSecs now crates table, x.id = y.id → x = y :=
    fun x mem y there => sameId (List.mem_of_mem_filter mem) (List.mem_of_mem_filter there)
  have page : crate ∈ ((Ranking.sortBy CrateRow.id (candidates maxAgeSecs now crates table)).drop 0).take limit ↔
      Ranking.OnPage CrateRow.id (candidates maxAgeSecs now crates table) 0 limit crate := Ranking.memPage nodup distinct
  rw [List.drop_zero] at page
  rw [fetchCratesNeedingGithubMetadata,page,Ranking.OnPage,Nat.zero_add]
  simp

/-- A pass stores the metadata of the candidates of its batch that can be stored. -/
theorem fetchedPass (pass : Pass) (table : MetadataTable) {crate : CrateRow} (mem : crate ∈ crates.rows) :
    fetchedAt (syncGithubMetadata github limit maxAgeSecs crates pass table).1 crate.id =
      if storable github crate = true ∧ crate ∈ fetchCratesNeedingGithubMetadata maxAgeSecs limit pass.now crates table
      then some (pass.storedAt crate.id) else fetchedAt table crate.id := by
  rw [syncGithubMetadata,fetchedCandidates]
  refine if_congr ⟨?_,fun ⟨can,here⟩ => ⟨crate,here,can,rfl⟩⟩ rfl rfl
  rintro ⟨candidate,here,can,same⟩
  cases sameId (List.mem_of_mem_filter (batchIff.mp here).1) mem same
  exact ⟨can,here⟩

theorem memCandidates {now : Nat} {table : MetadataTable} {crate : CrateRow} (mem : crate ∈ crates.rows) :
    crate ∈ candidates maxAgeSecs now crates table ↔ needsMetadata maxAgeSecs now table crate = true := by
  rw [candidates,List.mem_filter]
  exact and_iff_right mem

theorem freshLater {table : MetadataTable} {now later id stored : Nat}
    (lasting : ∀ row ∈ table.rows, stale maxAgeSecs now row = false → stale maxAgeSecs later row = false)
    (found : fetchedAt table id = some stored) (fresh : now ≤ stored + maxAgeSecs) : later ≤ stored + maxAgeSecs := by
  obtain ⟨row,here,rfl⟩ := Option.map_eq_some_iff.mp found
  simpa [stale] using lasting row (Keyed.Table.lookupIff.mp here).1 (by simpa [stale] using fresh)

/-- Whoever is served leaves; nobody else leaves, and nobody comes. -/
theorem needsAfter {pass : Pass} {table : MetadataTable} {now : Nat} (after : pass.now ≤ now)
    (lasting : ∀ row ∈ (syncGithubMetadata github limit maxAgeSecs crates pass table).1.rows,
      stale maxAgeSecs pass.now row = false → stale maxAgeSecs now row = false)
    {crate : CrateRow} (mem : crate ∈ crates.rows) :
    needsMetadata maxAgeSecs now (syncGithubMetadata github limit maxAgeSecs crates pass table).1 crate = true ↔
      needsMetadata maxAgeSecs pass.now table crate = true ∧
        ¬ (storable github crate = true ∧ crate ∈ fetchCratesNeedingGithubMetadata maxAgeSecs limit pass.now crates table) := by
  have stored : fetchedAt (syncGithubMetadata github limit maxAgeSecs crates pass table).1 crate.id = _ := fetchedPass pass table mem
  have lastingAt : ∀ at_, fetchedAt (syncGithubMetadata github limit maxAgeSecs crates pass table).1 crate.id = some at_ →
      pass.now ≤ at_ + maxAgeSecs → now ≤ at_ + maxAgeSecs := fun _ => freshLater lasting
  rw [needsIff,needsIff,and_assoc]
  refine and_congr_right fun _ => ?_
  by_cases served : storable github crate = true ∧ crate ∈ fetchCratesNeedingGithubMetadata maxAgeSecs limit pass.now crates table
  · rw [if_pos served] at stored
    have fresh := lastingAt _ stored ((pass.later crate.id).trans (Nat.le_add_right _ _))
    exact ⟨fun all => absurd (all _ stored) (not_lt.mpr fresh),fun ⟨_,not⟩ => absurd served not⟩
  · rw [if_neg served] at stored
    rw [stored] at lastingAt ⊢
    refine ⟨fun all => ⟨fun at_ found => ?_,served⟩,fun ⟨all,_⟩ at_ found => lt_of_lt_of_le (all at_ found) after⟩
    by_contra fresh
    exact absurd (all at_ found) (not_lt.mpr (lastingAt at_ found (not_lt.mp fresh)))

/-- The candidates of a later pass are those that the batch of this one has left. -/
theorem candidatesNext {pass : Pass} {table : MetadataTable} {now : Nat} (after : pass.now ≤ now)
    (lasting : ∀ row ∈ (syncGithubMetadata github limit maxAgeSecs crates pass table).1.rows,
      stale maxAgeSecs pass.now row = false → stale maxAgeSecs now row = false) :
    candidates maxAgeSecs now crates (syncGithubMetadata github limit maxAgeSecs crates pass table).1 =
      Batches.batch CrateRow.id (storable github) limit (candidates maxAgeSecs pass.now crates table) := by
  rw [Batches.batch,candidates]
  conv_rhs => rw [candidates,List.filter_filter]
  refine List.filter_congr fun crate mem => Bool.eq_iff_iff.mpr ?_
  rw [needsAfter after lasting mem,batchIff,memCandidates mem,Bool.and_eq_true,and_comm]
  refine and_congr_left fun needs => ?_
  rw [← candidates]
  cases storable github crate <;> simp [needs]

theorem storableFetchable {crate : CrateRow} (able : storable github crate = true) : fetchable github crate = true :=
  (Bool.and_eq_true_iff.mp able).1

theorem storableUpsert {crate : CrateRow} (able : storable github crate = true) : github.upsertError crate.id = none :=
  Option.isNone_iff_eq_none.mp (Bool.and_eq_true_iff.mp able).2

theorem needsMissing {now : Nat} {table : MetadataTable} {crate : CrateRow} (can : fetchable github crate = true)
    (missing : metadataOf table crate.id = none) : needsMetadata maxAgeSecs now table crate = true :=
  needsIff.mpr ⟨fetchableLike can,by simp [fetchedAt,missing]⟩

/-- After the passes a crate has a row if it had one, or if it can be stored and is no more left. -/
theorem storedRun {passes : List Pass} (inOrder : passes.Pairwise fun pass later => pass.now ≤ later.now)
    {table : MetadataTable} (lasting : Lasting github limit maxAgeSecs crates passes table) {now : Nat}
    (first : ∀ pass ∈ passes.head?, pass.now = now) {crate : CrateRow} (mem : crate ∈ crates.rows)
    (can : fetchable github crate = true) :
    (fetchedAt (syncPasses github limit maxAgeSecs crates passes table) crate.id).isSome = true ↔
      (fetchedAt table crate.id).isSome = true ∨ (storable github crate = true ∧
        crate ∉ Batches.left CrateRow.id (storable github) limit passes.length (candidates maxAgeSecs now crates table)) := by
  induction passes generalizing table now with
  | nil =>
    refine ⟨Or.inl,fun either => either.elim id fun ⟨_,gone⟩ => ?_⟩
    rw [syncPasses,List.foldl_nil,← hasRow,Option.isSome_iff_ne_none]
    exact fun missing => gone ((memCandidates mem).mpr (needsMissing can missing))
  | cons pass passes ih =>
    obtain ⟨before,inOrder⟩ := List.pairwise_cons.mp inOrder
    obtain ⟨fresh,lasting⟩ := lasting
    cases first pass rfl
    -- the time of the next pass, or of this one where it is the last
    obtain ⟨next,isNext,later,stays⟩ : ∃ next, (∀ q ∈ passes.head?, q.now = next) ∧ pass.now ≤ next ∧
        ∀ row ∈ (syncGithubMetadata github limit maxAgeSecs crates pass table).1.rows,
          stale maxAgeSecs pass.now row = false → stale maxAgeSecs next row = false := by
      cases passes with
      | nil => exact ⟨pass.now,by simp,le_refl _,fun _ _ same => same⟩
      | cons q rest => exact ⟨q.now,by simp,before q List.mem_cons_self,fun row here ok => fresh row here ok q List.mem_cons_self⟩
    have rest := ih inOrder lasting isNext
    rw [candidatesNext later stays] at rest
    rw [syncPasses,List.foldl_cons,← syncPasses,rest,Batches.leftAfter,fetchedPass pass table mem,List.length_cons]
    split
    · rename_i served
      have gone : crate ∉ Batches.left CrateRow.id (storable github) limit (passes.length + 1)
          (candidates maxAgeSecs pass.now crates table) := fun stays =>
        (Batches.memLeftNext.mp (Batches.leftBefore (Nat.le_add_left 1 _) stays)).2 ⟨served.1,(batchIff.mp served.2).2⟩
      exact iff_of_true (Or.inl rfl) (Or.inr ⟨served.1,gone⟩)
    · rfl

theorem allFetchedIffTurns (github : GitHub) (limit maxAgeSecs : Nat) (crates : Keyed.Table CrateRow.id) (passes : List Pass)
    (table : MetadataTable) (inOrder : passes.Pairwise fun pass later => pass.now ≤ later.now)
    (lasting : Lasting github limit maxAgeSecs crates passes table) :
    (∀ crate ∈ crates.rows, fetchable github crate = true →
      (metadataOf (syncPasses github limit maxAgeSecs crates passes table) crate.id).isSome = true) ↔
      (∀ crate ∈ crates.rows, fetchable github crate = true →
        (metadataOf table crate.id).isSome = true ∨ github.upsertError crate.id = none) ∧
      ∃ turn, Batches.Turns CrateRow.id (storable github) limit
        (candidates maxAgeSecs ((passes.head?.map Pass.now).getD 0) crates table)
        (fun crate => storable github crate = true ∧ metadataOf table crate.id = none) passes.length turn := by
  have first : ∀ pass ∈ passes.head?, pass.now = (passes.head?.map Pass.now).getD 0 := fun pass head => by
    simp [Option.mem_def.mp head]
  have run := fun (crate : CrateRow) (mem : crate ∈ crates.rows) (can : fetchable github crate = true) =>
    storedRun inOrder lasting first mem can
  rw [← Batches.leftIffTurns fun _ _ needed => needed.1]
  constructor
  · intro all
    refine ⟨fun crate mem can => ?_,fun crate waits ⟨able,missing⟩ => ?_⟩
    · have stored := all crate mem can
      rw [hasRow,run crate mem can,← hasRow] at stored
      exact stored.imp_right fun able => storableUpsert able.1
    · have mem := List.mem_of_mem_filter waits
      have can := storableFetchable able
      have stored := all crate mem can
      rw [hasRow,run crate mem can,← hasRow,missing] at stored
      exact (stored.resolve_left Bool.false_ne_true).2
  · rintro ⟨stores,gone⟩ crate mem can
    rw [hasRow,run crate mem can,← hasRow]
    refine or_iff_not_imp_left.mpr fun absent => ?_
    have missing : metadataOf table crate.id = none := by simpa using absent
    have able : storable github crate = true := by
      simp [storable,can,(stores crate mem can).resolve_left absent]
    exact ⟨able,gone crate ((memCandidates mem).mpr (needsMissing can missing)) ⟨able,missing⟩⟩

end

/-- A repository that is gone, and one that is there. -/
def goneFirst : GitHub where
  fetchRepoMetadata _ repo := if repo = "gone".toList then .error "404".toList else .ok ⟨5,1,0,false,none,none⟩
  fetchContributorCount _ _ := .error "rate limit".toList
  upsertError _ := none

def goneFirstCrates : Keyed.Table CrateRow.id where
  rows := [⟨1,"a".toList,some "https://github.com/o/gone".toList⟩,⟨2,"b".toList,some "https://github.com/o/kept".toList⟩]
  unique := by decide

def noMetadata : MetadataTable := ⟨[],List.nodup_nil⟩

def passAt (now : Nat) : Pass := ⟨now,fun _ => now,fun _ => le_refl now⟩

theorem allFetchedIffTurnsPair :
    (metadataOf (syncPasses goneFirst 2 50 goneFirstCrates [passAt 100] noMetadata) 2).isSome = true := by
  have room : ∀ x ∈ candidates 50 100 goneFirstCrates noMetadata,
      ((candidates 50 100 goneFirstCrates noMetadata).filter fun y =>
        y.id < x.id && (!storable goneFirst y || 0 = 0)).length < 2 := by decide
  refine (allFetchedIffTurns goneFirst 2 50 goneFirstCrates [passAt 100] noMetadata (by decide) ⟨by decide,trivial⟩).mpr
    ⟨fun _ _ _ => Or.inr rfl,fun _ => 0,?_,?_,fun x mem _ => room x mem⟩ ⟨2,"b".toList,some "https://github.com/o/kept".toList⟩
    (by decide) (by decide)
  · exact fun _ _ _ => Nat.zero_lt_one
  · exact fun _ _ _ _ _ _ _ => le_refl 0

/-- Two passes of one crate each reach only the first crate of two. -/
theorem goneRepositoryBlocks : goneFirstCrates.rows.length ≤ [passAt 100,passAt 101].length * 1 ∧
    ([passAt 100,passAt 101].Pairwise fun pass later => pass.now ≤ later.now) ∧
    Lasting goneFirst 1 50 goneFirstCrates [passAt 100,passAt 101] noMetadata ∧
    ∃ crate ∈ goneFirstCrates.rows, fetchable goneFirst crate = true ∧
      metadataOf (syncPasses goneFirst 1 50 goneFirstCrates [passAt 100,passAt 101] noMetadata) crate.id = none := by
  refine ⟨by decide,by decide,⟨by decide,by decide,trivial⟩,?_⟩
  exact ⟨⟨2,"b".toList,some "https://github.com/o/kept".toList⟩,by decide,by decide,by decide⟩

end RustMcp.GithubSync
