import RustMcp.LatestVersions
import RustMcp.Semver
import RustMcp.SerialTables

/-! The freshness check that an interaction makes of a crate: a probe of crates.io when one is
due, and a sync of the crate where the probe differs. What crates.io and the job queue
answer is an input of each call. -/
namespace RustMcp.Freshness
open Str (Text)
open Utils Queries
open LatestVersions (VersionRow latestRow latestIff)
open SerialTables (Serial Upsert)

/-! The tables. Times are in microseconds since the epoch. -/

def seconds (n : Nat) : Nat := n * 1000000

structure CheckColumns where
  lastCheckedAt : Option Nat
  nextCheckAt : Option Nat
  ttlHintSeconds : Nat
  ttlReason : Option Text
  lastRefreshError : Option Text

structure CrateRow extends CrateCoreRow where
  checks : CheckColumns

abbrev CrateTable (lower : Text → Text) := Serial (fun row : CrateRow => lower row.name) (fun row => row.id)

abbrev VersionTable := Serial (fun row : VersionRow => (row.crateId,row.version)) (fun row => row.id)

structure Db (lower : Text → Text) where
  crates : CrateTable lower
  versions : VersionTable

/-- What makes a statement fail. -/
inductive DbError where
  | nameTaken | timestamp | rowNotFound

/-! What crates.io returns. -/

structure CratesIoVersionRecord where
  num : Text
  createdAt : Option Text
  updatedAt : Option Text
  yanked : Bool
  downloads : Option Int
  license : Option Text

structure CratesIoCrateDetailResponse where
  name : Text
  maxVersion : Option Text
  versions : List CratesIoVersionRecord

/-- The answers to a call: those of crates.io to the probe and to what the sync asks for, and
that of the queue. -/
structure Replies where
  probe : Except Text CratesIoCrateDetailResponse
  detail : Except Text CratesIoCrateDetailResponse
  readme : Text → Except Text (Option Text)
  dependencies : Text → Except Text (List Text)
  job : Except Text Text

structure InteractionRefreshOutcome where
  freshnessCheckPerformed : Bool
  freshnessCheckResult : Text
  refreshEnqueued : Bool
  refreshJobId : Option Text

def ttlHintSeconds (daysSinceLatestRelease : Option Int) (releasesLastYear : Nat) : Nat × Text :=
  let ttl :=
    if releasesLastYear ≥ 24 || daysSinceLatestRelease.getD 0 < 30 then (6 * 60 * 60,"high_activity".toList)
    else if releasesLastYear ≥ 6 || daysSinceLatestRelease.getD 365 < 180 then (2 * 24 * 60 * 60,"moderate_activity".toList)
    else if daysSinceLatestRelease.getD 0 > 365 * 5 then (60 * 24 * 60 * 60,"long_stable".toList)
    else (14 * 24 * 60 * 60,"default".toList)
  (clamp (60 * 60) (90 * 24 * 60 * 60) ttl.1,ttl.2)

def pickPrimaryVersion (detail : CratesIoCrateDetailResponse) : Option Text :=
  match detail.maxVersion.filter fun maxVersion => detail.versions.any fun v => v.num = maxVersion with
  | some maxVersion => some maxVersion
  | none => ((detail.versions.find? fun v => !v.yanked).map (·.num)).or (detail.versions.head?.map (·.num))

section
variable {lower : Text → Text} (timestamptz : Text → Option Nat) (printed : DbError → Text)

/-! `persist_crate_sync` -/

def syncWriteColumns (now : Nat) : CheckColumns := ⟨some now,some (now + seconds 86400),86400,some "sync_write".toList,none⟩

def stubColumns : CheckColumns := ⟨none,none,86400,none,none⟩

variable (lower) in
def crateWrite (name : Text) (columns : CheckColumns) (change : CheckColumns → CheckColumns) :
    Upsert (fun row : CrateRow => lower row.name) (fun row => row.id) where
  target := lower name
  fresh id := ⟨⟨id,name⟩,columns⟩
  change row := {row with checks := change row.checks}
  freshKey _ := rfl
  freshId _ := rfl
  changeKey _ := rfl
  changeId _ := rfl

/-- `ON CONFLICT (name)`: another spelling with the same `name_lower` violates that index. -/
def writeCrate (crates : CrateTable lower) (name : Text) (columns : CheckColumns) (change : CheckColumns → CheckColumns) :
    Except DbError (Nat × CrateTable lower) :=
  match crates.table.lookup (lower name) with
  | some old => if old.name = name then .ok (old.id,crates.upsert (crateWrite lower name columns change)) else .error .nameTaken
  | none => .ok (crates.nextId,crates.upsert (crateWrite lower name columns change))

def ensureCrateStubs (crates : CrateTable lower) : List Text → Except DbError (CrateTable lower)
  | [] => .ok crates
  | name::names => do
      let (_,crates) ← writeCrate crates name stubColumns id
      ensureCrateStubs crates names

def publishedAt (version : CratesIoVersionRecord) : Except DbError (Option Nat) :=
  match version.createdAt.or version.updatedAt with
  | none => .ok none
  | some text => match timestamptz text with
      | some time => .ok (some time)
      | none => .error .timestamp

def versionWrite (crateId : Nat) (version : CratesIoVersionRecord) (published : Option Nat) :
    Upsert (fun row : VersionRow => (row.crateId,row.version)) (fun row => row.id) where
  target := (crateId,version.num)
  fresh id := ⟨⟨id,crateId,version.num,published⟩,version.yanked,version.downloads.getD 0,version.license⟩
  change row := {row with
    publishedAt := published.or row.publishedAt
    yanked := version.yanked
    totalDownloads := version.downloads.getD 0
    licenseExpression := version.license.or row.licenseExpression}
  freshKey _ := rfl
  freshId _ := rfl
  changeKey _ := rfl
  changeId _ := rfl

def persistVersions (crateId : Nat) : List CratesIoVersionRecord → VersionTable → Except DbError VersionTable
  | [],versions => .ok versions
  | record::records,versions => do
      let published ← publishedAt timestamptz record
      persistVersions crateId records (versions.upsert (versionWrite crateId record published))

def persistCrateSync (now : Nat) (db : Db lower) (detail : CratesIoCrateDetailResponse) (selectedVersion : Option Text)
    (dependencies : Option (List Text)) : Except DbError (Db lower) := do
  let (crateId,crates) ← writeCrate db.crates detail.name (syncWriteColumns now) fun _ => syncWriteColumns now
  let versions ← persistVersions timestamptz crateId detail.versions db.versions
  let linked := if detail.versions.any fun v => selectedVersion = some v.num then dependencies.getD [] else []
  let crates ← ensureCrateStubs crates ((linked.map Str.trim).filter fun name => !name.isEmpty)
  .ok ⟨crates,versions⟩

def syncedReadme (replies : Replies) : Option Text → Except Text (Option Text)
  | some version => replies.readme version
  | none => .ok none

def syncedDependencies (replies : Replies) (includeDependencies : Bool) : Option Text → Except Text (Option (List Text))
  | some version => if includeDependencies then (replies.dependencies version).map some else .ok none
  | none => .ok none

def syncSingleCrate (now : Nat) (db : Db lower) (crateName : Text) (includeDependencies : Bool) (replies : Replies) :
    Except Text (Db lower) := do
  let detail ← replies.detail
  let selectedVersion := pickPrimaryVersion detail
  let _ ← syncedReadme replies selectedVersion
  let dependencies ← syncedDependencies replies includeDependencies selectedVersion
  (persistCrateSync timestamptz now db detail selectedVersion dependencies).mapError fun e =>
    "failed to persist sync for ".toList ++ crateName ++ ": ".toList ++ printed e

/-! `ensure_freshness_for_interaction` -/

def rowOf (db : Db lower) (crateId : Nat) : Option CrateRow := db.crates.table.rows.find? fun row => row.id = crateId

def isCrateRefreshDue (now : Nat) (db : Db lower) (crateId : Nat) : Except DbError Bool :=
  match rowOf db crateId with
  | none => .error .rowNotFound
  | some row => .ok (row.checks.nextCheckAt.all fun next => next ≤ now)

def countCrateReleasesLastYear (now : Nat) (db : Db lower) (crateId : Nat) : Nat :=
  (db.versions.table.rows.filter fun row => row.crateId = crateId && row.publishedAt.any fun published =>
    now ≤ published + seconds (365 * 86400)).length

/-- A cast to `BIGINT` rounds half away from zero, and the division truncates. -/
def daysSinceLatestCrateRelease (now : Nat) (db : Db lower) (crateId : Nat) : Option Int :=
  (((db.versions.table.rows.filter fun row => row.crateId = crateId).filterMap (·.publishedAt)).max?).map fun published =>
    let age : Int := (now : Int) - published
    (age.sign * ((age.natAbs + 500000) / 1000000 : Nat)).tdiv 86400

def setChecks (db : Db lower) (crateId : Nat) (columns : CheckColumns) : Db lower :=
  {db with crates := db.crates.update crateId (fun row => {row with checks := columns}) (fun _ => rfl) fun _ => rfl}

def markCrateProbeFailed (now : Nat) (db : Db lower) (crateId : Nat) (errorMessage : Text) : Db lower :=
  setChecks db crateId ⟨some now,some (now + seconds 3600),3600,some "probe_failed".toList,some errorMessage⟩

def markCrateFreshnessChecked (now : Nat) (db : Db lower) (crateId ttlSeconds : Nat) (ttlReason : Text) : Db lower :=
  setChecks db crateId ⟨some now,some (now + seconds ttlSeconds),ttlSeconds,some ttlReason,none⟩

def ensureFreshnessForInteraction (now : Nat) (db : Db lower) (crateId : Nat) (crateName localLatestVersion : Text)
    (replies : Replies) : Except Text InteractionRefreshOutcome × Db lower :=
  match isCrateRefreshDue now db crateId with
  | .error e => (.error ("failed to evaluate freshness deadline for ".toList ++ crateName ++ ": ".toList ++ printed e),db)
  | .ok false => (.ok ⟨false,"skipped".toList,false,none⟩,db)
  | .ok true =>
      let ttl := ttlHintSeconds (daysSinceLatestCrateRelease now db crateId) (countCrateReleasesLastYear now db crateId)
      match replies.probe with
      | .error error => (.ok ⟨true,"failed".toList,false,none⟩,markCrateProbeFailed now db crateId error)
      | .ok detail =>
          let remoteLatest := detail.maxVersion.getD []
          if remoteLatest ≠ [] ∧ remoteLatest ≠ localLatestVersion then
            match syncSingleCrate timestamptz printed now db crateName false replies with
            | .error e => (.error ("inline minimal refresh failed for ".toList ++ crateName ++ ": ".toList ++ e),db)
            | .ok synced =>
                match replies.job with
                | .error e => (.error e,synced)
                | .ok refreshJobId =>
                    (.ok ⟨true,"changed".toList,true,some refreshJobId⟩,
                      markCrateFreshnessChecked now synced crateId ttl.1 "changed_inline".toList)
          else (.ok ⟨true,"unchanged".toList,false,none⟩,markCrateFreshnessChecked now db crateId ttl.1 ttl.2)

/-- A tool's check of a crate that has versions. -/
def check (now : Nat) (db : Db lower) (row : CrateRow) (replies : Replies) :
    Option (Except Text InteractionRefreshOutcome × Db lower) :=
  (latestRow db.versions.table.rows row.id).map fun latest =>
    ensureFreshnessForInteraction timestamptz printed now db row.id row.name latest.version replies

inductive Event where
  | interaction (now : Nat) (crateName : Text) (replies : Replies)
  | sync (now : Nat) (crateName : Text) (includeDependencies : Bool) (replies : Replies)
  | prune (crateId : Nat)

def step (db : Db lower) : Event → Db lower
  | .interaction now crateName replies =>
      (((db.crates.table.lookup (lower crateName)).bind fun row => check timestamptz printed now db row replies).map Prod.snd).getD db
  | .sync now crateName includeDependencies replies =>
      (syncSingleCrate timestamptz printed now db crateName includeDependencies replies).toOption.getD db
  | .prune crateId => ⟨db.crates.delete fun row => row.id = crateId,db.versions.delete fun row => row.crateId = crateId⟩

def run (db : Db lower) (events : List Event) : Db lower := events.foldl (step timestamptz printed) db

/-! What a sync leaves of the versions of a crate: the date and the id of each. -/

/-- A row without a date comes before those that have one, and then ids decide. -/
def order (standing : Option Nat × Nat) : WithBot Nat ×ₗ Nat := toLex standing

/-- No version stands after this one. -/
def Leads (versions : Text → Option (Option Nat × Nat)) (version : Text) : Prop :=
  ∃ standing, versions version = some standing ∧ ∀ other later, versions other = some later → order later ≤ order standing

def facts (versions : VersionTable) (crateId : Nat) (version : Text) : Option (Option Nat × Nat) :=
  (versions.table.lookup (crateId,version)).map fun row => (row.publishedAt,row.id)

/-- The date that a record gives, if it gives one that can be read. -/
def dateOf (record : CratesIoVersionRecord) : Option Nat := (record.createdAt.or record.updatedAt).bind timestamptz

/-- The last date that the records of a version give, or else the one that is kept. -/
def dateAfter (records : List CratesIoVersionRecord) (version : Text) (kept : Option Nat) : Option Nat :=
  (records.filter fun record => record.num = version).foldl (fun kept record => (dateOf timestamptz record).or kept) kept

/-- A version that was there keeps its id; the ids of new ones follow the order of the records. -/
def standing (versions : VersionTable) (crateId : Nat) (records : List CratesIoVersionRecord) (version : Text) :
    Option (Option Nat × Nat) :=
  match facts versions crateId version with
  | some kept => some (dateAfter timestamptz records version kept.1,kept.2)
  | none =>
      if version ∈ records.map (·.num) then
        some (dateAfter timestamptz records version none,versions.nextId + records.findIdx fun record => record.num = version)
      else none

theorem leadsLatest {versions : VersionTable} {crateId : Nat} {version : Text} :
    (∃ row, latestRow versions.table.rows crateId = some row ∧ row.version = version) ↔ Leads (facts versions crateId) version := by
  have found : ∀ name at_, facts versions crateId name = some at_ ↔
      ∃ row ∈ versions.table.rows, (row.crateId,row.version) = (crateId,name) ∧ (row.publishedAt,row.id) = at_ := by
    intro name at_
    simp only [facts,Option.map_eq_some_iff,Keyed.Table.lookupIff,and_assoc]
  simp only [latestIff versions.ids]
  constructor
  · rintro ⟨row,⟨⟨mem,rfl⟩,last⟩,rfl⟩
    refine ⟨_,(found _ _).mpr ⟨row,mem,rfl,rfl⟩,fun other later known => ?_⟩
    obtain ⟨row',mem',own,rfl⟩ := (found _ _).mp known
    exact last row' mem' (Prod.mk.inj own).1
  · rintro ⟨at_,known,last⟩
    obtain ⟨row,mem,own,rfl⟩ := (found _ _).mp known
    refine ⟨row,⟨⟨mem,(Prod.mk.inj own).1⟩,fun other mem' own' => ?_⟩,(Prod.mk.inj own).2⟩
    exact last other.version _ ((found _ _).mpr ⟨other,mem',by rw [own'],rfl⟩)

section
variable {timestamptz}

theorem publishedDate {record : CratesIoVersionRecord} {published : Option Nat}
    (read : publishedAt timestamptz record = .ok published) : published = dateOf timestamptz record := by
  unfold publishedAt at read
  unfold dateOf
  cases given : record.createdAt.or record.updatedAt with
  | none => rw [given] at read; cases read; rfl
  | some text =>
    rw [given] at read
    dsimp only at read
    cases time : timestamptz text with
    | none => rw [time] at read; cases read
    | some time' => rw [time] at read; cases read; simp [time]

theorem persisted {crateId : Nat} {records : List CratesIoVersionRecord} {versions versions' : VersionTable}
    (written : persistVersions timestamptz crateId records versions = .ok versions') :
    (∀ version, facts versions' crateId version = standing timestamptz versions crateId records version) ∧
      ∀ other ≠ crateId, ∀ version, facts versions' other version = facts versions other version := by
  induction records generalizing versions with
  | nil =>
    cases written
    refine ⟨fun version => ?_,fun _ _ _ => rfl⟩
    unfold standing
    cases facts versions' crateId version <;> simp [dateAfter]
  | cons record records ih =>
    obtain ⟨published,read,rest⟩ := bindOk written
    obtain ⟨own,others⟩ := ih rest
    have date := publishedDate read
    have looked : ∀ id version, (versions.upsert (versionWrite crateId record published)).table.lookup (id,version) =
        if (crateId,record.num) = (id,version) then some ((versionWrite crateId record published).row versions)
        else versions.table.lookup (id,version) := fun id version => SerialTables.upsertLookup _
    refine ⟨fun version => ?_,fun other apart version => ?_⟩
    · rw [own]
      by_cases same : record.num = version
      · subst same
        have here : facts (versions.upsert (versionWrite crateId record published)) crateId record.num =
            some (((facts versions crateId record.num).map fun kept => (published.or kept.1,kept.2)).getD
              (published,versions.nextId)) := by
          rw [facts,looked,if_pos rfl,facts,Upsert.row]
          change ((((versions.table.lookup (crateId,record.num)).map _).getD _ : VersionRow) |> fun row => some (row.publishedAt,row.id)) = _
          cases versions.table.lookup (crateId,record.num) <;> rfl
        unfold standing
        rw [here]
        cases facts versions crateId record.num with
        | none => simp [dateAfter,date,List.findIdx_cons]
        | some kept => simp [dateAfter,date]
      · have here : facts (versions.upsert (versionWrite crateId record published)) crateId version =
            facts versions crateId version := by
          rw [facts,looked,if_neg fun eq => same (Prod.mk.inj eq).2,facts]
        have next : (versions.upsert (versionWrite crateId record published)).nextId = versions.nextId + 1 := rfl
        unfold standing
        rw [here,next]
        cases facts versions crateId version with
        | none => simp [dateAfter,same,Ne.symm same,List.findIdx_cons,Nat.add_assoc,Nat.add_comm]
        | some kept => simp [dateAfter,same]
    · rw [others other apart,facts,looked,if_neg fun eq => apart (Prod.mk.inj eq).1.symm,facts]

/-! What a call leaves of the crates: no statement renames one, and ids are not used again. -/

def Named (crates : CrateTable lower) (crateId : Nat) (name : Text) : Prop :=
  ∃ row ∈ crates.table.rows, row.id = crateId ∧ row.name = name

/-- The crates of the first table are those of the second that had an id by then. -/
structure Continues (crates crates' : CrateTable lower) : Prop where
  next : crates.nextId ≤ crates'.nextId
  named : ∀ {crateId name}, crateId < crates.nextId → (Named crates' crateId name ↔ Named crates crateId name)

theorem Continues.trans {crates crates' crates'' : CrateTable lower} (first : Continues crates crates')
    (second : Continues crates' crates'') : Continues crates crates'' :=
  ⟨first.next.trans second.next,fun below => (second.named (below.trans_le first.next)).trans (first.named below)⟩

theorem namedBelow {crates : CrateTable lower} {crateId : Nat} {name : Text} (named : Named crates crateId name) :
    crateId < crates.nextId := by
  obtain ⟨row,mem,rfl,_⟩ := named
  exact crates.below row mem

theorem namedOnce {crates : CrateTable lower} {crateId : Nat} {name name' : Text} (one : Named crates crateId name)
    (other : Named crates crateId name') : name = name' := by
  obtain ⟨row,mem,same,rfl⟩ := one
  obtain ⟨row',mem',same',rfl⟩ := other
  rw [SerialTables.rowOfId mem mem' (same.trans same'.symm)]

theorem namedByName {crates : CrateTable lower} {crateId crateId' : Nat} {name : Text} (one : Named crates crateId name)
    (other : Named crates crateId' name) : crateId = crateId' := by
  obtain ⟨row,mem,rfl,same⟩ := one
  obtain ⟨row',mem',rfl,same'⟩ := other
  have key : lower row.name = lower row'.name := by rw [same,same']
  rw [List.inj_on_of_nodup_map crates.table.unique mem mem' key]

/-- The row that is written has the id that is returned and the name that was asked for, also where it was there before. -/
theorem writtenRow {crates crates' : CrateTable lower} {name : Text} {columns : CheckColumns}
    {change : CheckColumns → CheckColumns} {crateId : Nat}
    (written : writeCrate crates name columns change = .ok (crateId,crates')) :
    ∃ row : CrateRow, crates' = crates.upsert (crateWrite lower name columns change) ∧
      row = (crateWrite lower name columns change).row crates ∧ row.id = crateId ∧ row.name = name ∧
      (crateId < crates.nextId → Named crates crateId name) := by
  unfold writeCrate at written
  unfold Upsert.row
  cases found : crates.table.lookup (lower name) with
  | none =>
    rw [found] at written
    cases written
    have none_ : crates.table.lookup (crateWrite lower name columns change).target = none := found
    exact ⟨_,rfl,rfl,by rw [none_]; rfl,by rw [none_]; rfl,fun less => absurd less (lt_irrefl _)⟩
  | some old =>
    rw [found] at written
    dsimp only at written
    have inside := (Keyed.Table.lookupIff.mp found).1
    have some_ : crates.table.lookup (crateWrite lower name columns change).target = some old := found
    split at written
    · rename_i same
      cases written
      exact ⟨_,rfl,rfl,by rw [some_]; rfl,by rw [some_]; exact same,fun _ => ⟨old,inside,rfl,same⟩⟩
    · cases written

/-- A row with the same key is written only under the same name. -/
theorem writtenSame {crates crates' : CrateTable lower} {name : Text} {columns : CheckColumns}
    {change : CheckColumns → CheckColumns} {crateId : Nat} {old : CrateRow}
    (written : writeCrate crates name columns change = .ok (crateId,crates')) (mem : old ∈ crates.table.rows)
    (key : lower old.name = lower name) : old.id = crateId ∧ old.name = name := by
  have found : crates.table.lookup (lower name) = some old := Keyed.Table.lookupIff.mpr ⟨mem,key⟩
  unfold writeCrate at written
  rw [found] at written
  dsimp only at written
  split at written
  · rename_i same
    cases written
    exact ⟨rfl,same⟩
  · cases written

theorem wroteCrate {crates crates' : CrateTable lower} {name : Text} {columns : CheckColumns}
    {change : CheckColumns → CheckColumns} {crateId : Nat}
    (written : writeCrate crates name columns change = .ok (crateId,crates')) :
    Continues crates crates' ∧ Named crates' crateId name := by
  obtain ⟨row,rfl,shape,id,named,known⟩ := writtenRow written
  have own : Named (crates.upsert (crateWrite lower name columns change)) crateId name :=
    ⟨row,Keyed.Table.memUpsert.mpr (Or.inl shape),id,named⟩
  refine ⟨⟨Nat.le_succ _,fun {crateId' name'} below => ⟨?_,?_⟩⟩,own⟩
  · rintro ⟨row',mem,rfl,rfl⟩
    rcases Keyed.Table.memUpsert.mp mem with rfl | ⟨old,_⟩
    · rw [← shape,id] at below
      rw [← shape,id,named]
      exact known below
    · exact ⟨row',old,rfl,rfl⟩
  · rintro ⟨old,mem,rfl,rfl⟩
    by_cases key : lower old.name = lower ((crateWrite lower name columns change).row crates).name
    · obtain ⟨same,same'⟩ := writtenSame written mem (by rw [key,← shape,named])
      rw [same,same']
      exact own
    · exact ⟨old,Keyed.Table.memUpsert.mpr (Or.inr ⟨mem,key⟩),rfl,rfl⟩

theorem stubsContinue {crates crates' : CrateTable lower} {names : List Text}
    (written : ensureCrateStubs crates names = .ok crates') : Continues crates crates' := by
  induction names generalizing crates with
  | nil => cases written; exact ⟨le_refl _,fun _ => Iff.rfl⟩
  | cons name names ih =>
    obtain ⟨⟨crateId,next⟩,one,rest⟩ := bindOk written
    exact (wroteCrate one).1.trans (ih rest)

/-- A sync writes the versions of the crate that the record names, and no others. -/
theorem syncWrites {now : Nat} {db db' : Db lower} {detail : CratesIoCrateDetailResponse} {selectedVersion : Option Text}
    {dependencies : Option (List Text)}
    (written : persistCrateSync timestamptz now db detail selectedVersion dependencies = .ok db') :
    Continues db.crates db'.crates ∧ ∃ crateId, Named db'.crates crateId detail.name ∧
      (∀ version, facts db'.versions crateId version = standing timestamptz db.versions crateId detail.versions version) ∧
      ∀ other ≠ crateId, ∀ version, facts db'.versions other version = facts db.versions other version := by
  obtain ⟨⟨crateId,crates⟩,one,rest⟩ := bindOk written
  obtain ⟨versions,two,rest⟩ := bindOk rest
  obtain ⟨crates',three,rest⟩ := bindOk rest
  cases rest
  have wrote := wroteCrate one
  have stubs := stubsContinue three
  exact ⟨wrote.1.trans stubs,crateId,(stubs.named (namedBelow wrote.2)).mpr wrote.2,persisted two⟩

variable {printed : DbError → Text}

theorem syncedFrom {now : Nat} {db db' : Db lower} {crateName : Text} {includeDependencies : Bool} {replies : Replies}
    (synced : syncSingleCrate timestamptz printed now db crateName includeDependencies replies = .ok db') :
    ∃ detail selectedVersion dependencies, replies.detail = .ok detail ∧
      persistCrateSync timestamptz now db detail selectedVersion dependencies = .ok db' := by
  obtain ⟨detail,answered,rest⟩ := bindOk synced
  obtain ⟨_,_,rest⟩ := bindOk rest
  obtain ⟨dependencies,_,rest⟩ := bindOk rest
  refine ⟨detail,pickPrimaryVersion detail,dependencies,answered,?_⟩
  cases written : persistCrateSync timestamptz now db detail (pickPrimaryVersion detail) dependencies with
  | error e => rw [written] at rest; cases rest
  | ok db'' => rw [written] at rest; cases rest; rfl

theorem checksContinue (db : Db lower) (crateId : Nat) (columns : CheckColumns) :
    Continues db.crates (setChecks db crateId columns).crates := by
  refine ⟨le_refl _,fun {id name} _ => ⟨?_,?_⟩⟩
  · rintro ⟨row,mem,rfl,rfl⟩
    obtain ⟨old,inside,rfl⟩ := List.mem_map.mp mem
    exact ⟨old,inside,by split <;> rfl,by split <;> rfl⟩
  · rintro ⟨row,mem,rfl,rfl⟩
    exact ⟨_,List.mem_map_of_mem mem,by split <;> rfl,by split <;> rfl⟩

/-- A check writes the schedule of its crate, after a sync if it makes one. -/
theorem checkLeaves {now : Nat} {db db' : Db lower} {crateId : Nat} {crateName localLatest : Text} {replies : Replies}
    {answer : Except Text InteractionRefreshOutcome}
    (checked : ensureFreshnessForInteraction timestamptz printed now db crateId crateName localLatest replies = (answer,db')) :
    ∃ synced, (synced = db ∨ syncSingleCrate timestamptz printed now db crateName false replies = .ok synced) ∧
      (db' = synced ∨ ∃ columns, db' = setChecks synced crateId columns) := by
  unfold ensureFreshnessForInteraction at checked
  split at checked
  · cases checked; exact ⟨db,Or.inl rfl,Or.inl rfl⟩
  · cases checked; exact ⟨db,Or.inl rfl,Or.inl rfl⟩
  · dsimp only at checked
    split at checked
    · cases checked; exact ⟨db,Or.inl rfl,Or.inr ⟨_,rfl⟩⟩
    · split at checked
      · split at checked
        · cases checked; exact ⟨db,Or.inl rfl,Or.inl rfl⟩
        · rename_i synced sync
          split at checked
          · cases checked; exact ⟨_,Or.inr sync,Or.inl rfl⟩
          · cases checked; exact ⟨synced,Or.inr sync,Or.inr ⟨_,rfl⟩⟩
      · cases checked; exact ⟨db,Or.inl rfl,Or.inr ⟨_,rfl⟩⟩

/-- A due check whose probe answers compares the highest version with the local one. -/
theorem checkedAgain {now : Nat} {db db' : Db lower} {crateId : Nat} {crateName localLatest : Text} {replies : Replies}
    {record : CratesIoCrateDetailResponse} {answer : Except Text InteractionRefreshOutcome}
    (due : isCrateRefreshDue now db crateId = .ok true) (probe : replies.probe = .ok record)
    (checked : ensureFreshnessForInteraction timestamptz printed now db crateId crateName localLatest replies = (answer,db')) :
    answer = .ok ⟨true,"unchanged".toList,false,none⟩ ↔ record.maxVersion.getD [] = [] ∨ record.maxVersion.getD [] = localLatest := by
  unfold ensureFreshnessForInteraction at checked
  rw [due,probe] at checked
  dsimp only at checked
  split at checked
  · rename_i changed
    refine iff_of_false (fun same => ?_) fun either => either.elim changed.1 changed.2
    split at checked
    · cases checked; cases same
    · split at checked
      · cases checked; cases same
      · cases checked; cases same
  · rename_i same
    cases checked
    refine iff_of_true rfl ?_
    by_cases empty : record.maxVersion.getD [] = []
    · exact Or.inl empty
    · exact Or.inr (not_not.mp fun differ => same ⟨empty,differ⟩)

/-- What a check leaves that answers that the crate has changed. -/
theorem changedCheck {now : Nat} {db db' : Db lower} {crateId : Nat} {crateName localLatest jobId : Text} {replies : Replies}
    {record : CratesIoCrateDetailResponse} (probe : replies.probe = .ok record)
    (checked : ensureFreshnessForInteraction timestamptz printed now db crateId crateName localLatest replies =
      (.ok ⟨true,"changed".toList,true,some jobId⟩,db')) :
    record.maxVersion.getD [] ≠ [] ∧ record.maxVersion.getD [] ≠ localLatest ∧
      ∃ synced columns, syncSingleCrate timestamptz printed now db crateName false replies = .ok synced ∧
        db' = setChecks synced crateId columns := by
  unfold ensureFreshnessForInteraction at checked
  rw [probe] at checked
  split at checked
  · cases checked
  · cases checked
  · dsimp only at checked
    split at checked
    · rename_i changed
      split at checked
      · cases checked
      · rename_i synced sync
        split at checked
        · cases checked
        · cases checked; exact ⟨changed.1,changed.2,synced,_,sync,rfl⟩
    · cases checked

end

/-! Runs. -/

/-- Whatever crates.io returns for the crate, and whatever carries its name, is the record. -/
def Steady (lower : Text → Text) (record : CratesIoCrateDetailResponse) (crateName : Text) : Event → Prop
  | .interaction _ asked replies => ∀ detail, replies.probe = .ok detail ∨ replies.detail = .ok detail →
      lower asked = lower crateName ∨ lower detail.name = lower crateName → detail = record
  | .sync _ asked _ replies => ∀ detail, replies.detail = .ok detail →
      lower asked = lower crateName ∨ lower detail.name = lower crateName → detail = record
  | .prune _ => True

/-- Whatever happens while the record stays, a check of the crate that is due and reaches crates.io tells of no change. -/
def StaysUnchanged (db : Db lower) (crateId : Nat) (crateName : Text) (record : CratesIoCrateDetailResponse) : Prop :=
  ∀ events, (∀ event ∈ events, Steady lower record crateName event) →
    ∀ row ∈ (run timestamptz printed db events).crates.table.rows, row.id = crateId →
      ∀ now replies answer db', isCrateRefreshDue now (run timestamptz printed db events) crateId = .ok true →
        replies.probe = .ok record → check timestamptz printed now (run timestamptz printed db events) row replies = some (answer,db') →
          answer = .ok ⟨true,"unchanged".toList,false,none⟩

/-- A check of an indexed crate that tells of a change, in which crates.io returns the record. -/
structure Changed (now : Nat) (db : Db lower) (row : CrateRow) (replies : Replies) (record : CratesIoCrateDetailResponse)
    (db' : Db lower) : Prop where
  mem : row ∈ db.crates.table.rows
  probe : replies.probe = .ok record
  detail : replies.detail = .ok record
  answered : ∃ jobId, check timestamptz printed now db row replies = some (.ok ⟨true,"changed".toList,true,some jobId⟩,db')

/-- While the crate is there: its highest version leads, and another sync of the record would move no version. -/
structure Settled (record : CratesIoCrateDetailResponse) (crateId : Nat) (crateName : Text) (db : Db lower) : Prop where
  below : crateId < db.crates.nextId
  named : ∀ name, Named db.crates crateId name → name = crateName
  leads : Named db.crates crateId crateName → Leads (facts db.versions crateId) (record.maxVersion.getD [])
  synced : Named db.crates crateId crateName → ∀ version ∈ record.versions.map (·.num),
    ∃ kept, facts db.versions crateId version = some kept ∧ dateAfter timestamptz record.versions version kept.1 = kept.1

section
variable {timestamptz printed}

theorem dateFold (records : List CratesIoVersionRecord) (kept : Option Nat) :
    records.foldl (fun kept record => (dateOf timestamptz record).or kept) kept =
      (records.foldl (fun kept record => (dateOf timestamptz record).or kept) none).or kept := by
  induction records using List.reverseRecOn with
  | nil => rfl
  | append_singleton records record ih =>
    simp only [List.foldl_append,List.foldl_cons,List.foldl_nil]
    rw [ih,Option.or_assoc]

theorem dateAgain (records : List CratesIoVersionRecord) (version : Text) (kept : Option Nat) :
    dateAfter timestamptz records version (dateAfter timestamptz records version kept) =
      dateAfter timestamptz records version kept := by
  unfold dateAfter
  rw [dateFold _ (List.foldl _ kept _),dateFold _ kept,← Option.or_assoc,Option.or_self]

theorem settledContinues {record : CratesIoCrateDetailResponse} {crateId : Nat} {crateName : Text} {db db' : Db lower}
    (settled : Settled timestamptz record crateId crateName db) (continues : Continues db.crates db'.crates)
    (same : Named db.crates crateId crateName → ∀ version, facts db'.versions crateId version = facts db.versions crateId version) :
    Settled timestamptz record crateId crateName db' := by
  have names : ∀ name, Named db'.crates crateId name ↔ Named db.crates crateId name := fun _ => continues.named settled.below
  refine ⟨settled.below.trans_le continues.next,fun name named => settled.named name ((names name).mp named),?_,?_⟩
  · intro named
    have named := (names crateName).mp named
    rw [funext (same named)]
    exact settled.leads named
  · intro named version mem
    have named := (names crateName).mp named
    rw [same named]
    exact settled.synced named version mem

/-- A sync of the record finds every version as it would leave it. -/
theorem standingKept {record : CratesIoCrateDetailResponse} {crateId : Nat} {crateName : Text} {db : Db lower}
    (settled : Settled timestamptz record crateId crateName db) (named : Named db.crates crateId crateName) (version : Text) :
    standing timestamptz db.versions crateId record.versions version = facts db.versions crateId version := by
  unfold standing
  cases known : facts db.versions crateId version with
  | none =>
    refine if_neg fun mem => ?_
    obtain ⟨kept,some_,_⟩ := settled.synced named version mem
    rw [known] at some_
    cases some_
  | some kept =>
    by_cases mem : version ∈ record.versions.map (·.num)
    · obtain ⟨kept',some_,date⟩ := settled.synced named version mem
      cases known.symm.trans some_
      dsimp only
      rw [date]
    · have none_ : record.versions.filter (fun record => record.num = version) = [] :=
        List.filter_eq_nil_iff.mpr fun r inside eq => mem (List.mem_map.mpr ⟨r,inside,of_decide_eq_true eq⟩)
      simp [dateAfter,none_]

theorem settledSync {record : CratesIoCrateDetailResponse} {crateId : Nat} {crateName : Text} {now : Nat} {db db' : Db lower}
    {asked : Text} {includeDependencies : Bool} {replies : Replies} (settled : Settled timestamptz record crateId crateName db)
    (steady : ∀ detail, replies.detail = .ok detail → lower detail.name = lower crateName → detail = record)
    (synced : syncSingleCrate timestamptz printed now db asked includeDependencies replies = .ok db') :
    Settled timestamptz record crateId crateName db' := by
  obtain ⟨detail,_,_,answered,written⟩ := syncedFrom synced
  obtain ⟨continues,written,named,own,others⟩ := syncWrites written
  refine settledContinues settled continues fun here version => ?_
  by_cases same : crateId = written
  · subst same
    have name := settled.named _ ((continues.named settled.below).mp named)
    obtain rfl := steady detail answered (congrArg lower name)
    rw [own,standingKept settled here]
  · exact others crateId same version

theorem settledCheck {record : CratesIoCrateDetailResponse} {crateId : Nat} {crateName : Text} {now : Nat} {db db' : Db lower}
    {row : CrateRow} {replies : Replies} {answer : Except Text InteractionRefreshOutcome}
    (settled : Settled timestamptz record crateId crateName db)
    (steady : ∀ detail, replies.detail = .ok detail → lower detail.name = lower crateName → detail = record)
    (checked : check timestamptz printed now db row replies = some (answer,db')) :
    Settled timestamptz record crateId crateName db' := by
  obtain ⟨latest,_,checked⟩ := Option.map_eq_some_iff.mp checked
  obtain ⟨synced,left,scheduled⟩ := checkLeaves checked
  have after : Settled timestamptz record crateId crateName synced := by
    rcases left with rfl | sync
    · exact settled
    · exact settledSync settled steady sync
  rcases scheduled with rfl | ⟨columns,rfl⟩
  · exact after
  · exact settledContinues after (checksContinue synced _ columns) fun _ _ => rfl

theorem settledPrune {record : CratesIoCrateDetailResponse} {crateId : Nat} {crateName : Text} {db : Db lower}
    (settled : Settled timestamptz record crateId crateName db) (pruned : Nat) :
    Settled timestamptz record crateId crateName (step timestamptz printed db (.prune pruned)) := by
  have rows : ∀ name, Named (step timestamptz printed db (.prune pruned)).crates crateId name →
      Named db.crates crateId name ∧ crateId ≠ pruned := by
    rintro name ⟨row,mem,rfl,rfl⟩
    obtain ⟨inside,left⟩ := Keyed.Table.memDelete.mp mem
    exact ⟨⟨row,inside,rfl,rfl⟩,of_decide_eq_false left⟩
  have kept : crateId ≠ pruned → ∀ version,
      facts (step timestamptz printed db (.prune pruned)).versions crateId version = facts db.versions crateId version := by
    intro other version
    unfold facts
    refine congrArg _ (Option.ext fun row => ?_)
    rw [Keyed.Table.lookupIff,Keyed.Table.lookupIff]
    change row ∈ (db.versions.table.delete _).rows ∧ _ ↔ _
    rw [Keyed.Table.memDelete,and_assoc]
    refine and_congr_right fun _ => ⟨And.right,fun own => ⟨decide_eq_false fun same => other ?_,own⟩⟩
    exact (Prod.mk.inj own).1.symm.trans same
  refine ⟨settled.below,fun name named => settled.named name (rows name named).1,fun named => ?_,fun named version mem => ?_⟩
  · rw [funext (kept (rows _ named).2)]
    exact settled.leads (rows _ named).1
  · rw [kept (rows _ named).2]
    exact settled.synced (rows _ named).1 version mem

theorem settledStep {record : CratesIoCrateDetailResponse} {crateId : Nat} {crateName : Text} {db : Db lower} {event : Event}
    (settled : Settled timestamptz record crateId crateName db) (steady : Steady lower record crateName event) :
    Settled timestamptz record crateId crateName (step timestamptz printed db event) := by
  cases event with
  | interaction now asked replies =>
    change Settled timestamptz record crateId crateName (Option.getD (Option.map Prod.snd
      ((db.crates.table.lookup (lower asked)).bind fun row => check timestamptz printed now db row replies)) db)
    cases called : (db.crates.table.lookup (lower asked)).bind fun row => check timestamptz printed now db row replies with
    | none => exact settled
    | some reply =>
      obtain ⟨row,_,checked⟩ := Option.bind_eq_some_iff.mp called
      exact settledCheck settled (fun detail answered name => steady detail (Or.inr answered) (Or.inr name)) checked
  | sync now asked includeDependencies replies =>
    change Settled timestamptz record crateId crateName
      ((syncSingleCrate timestamptz printed now db asked includeDependencies replies).toOption.getD db)
    cases synced : syncSingleCrate timestamptz printed now db asked includeDependencies replies with
    | error e => exact settled
    | ok db' => exact settledSync settled (fun detail answered name => steady detail answered (Or.inr name)) synced
  | prune pruned => exact settledPrune settled pruned

theorem settledRun {record : CratesIoCrateDetailResponse} {crateId : Nat} {crateName : Text} {db : Db lower} {events : List Event}
    (settled : Settled timestamptz record crateId crateName db) (steady : ∀ event ∈ events, Steady lower record crateName event) :
    Settled timestamptz record crateId crateName (run timestamptz printed db events) := by
  induction events generalizing db with
  | nil => exact settled
  | cons event events ih =>
    exact ih (settledStep settled (steady event List.mem_cons_self)) fun e mem => steady e (List.mem_cons_of_mem _ mem)

theorem settledUnchanged {record : CratesIoCrateDetailResponse} {crateId : Nat} {crateName : Text} {db : Db lower}
    (settled : Settled timestamptz record crateId crateName db) : StaysUnchanged timestamptz printed db crateId crateName record := by
  intro events steady row mem id now replies answer db' due probe checked
  have after : Settled timestamptz record crateId crateName (run timestamptz printed db events) := settledRun settled steady
  subst id
  have named : Named (run timestamptz printed db events).crates row.id crateName :=
    after.named row.name ⟨row,mem,rfl,rfl⟩ ▸ ⟨row,mem,rfl,rfl⟩
  obtain ⟨latest,found,version⟩ := leadsLatest.mpr (after.leads named)
  obtain ⟨latest',found',checked⟩ := Option.map_eq_some_iff.mp checked
  cases found.symm.trans found'
  exact (checkedAgain due probe checked).mpr (Or.inr version.symm)

theorem latestOf {versions : VersionTable} {crateId : Nat} {version : Text} (known : facts versions crateId version ≠ none) :
    ∃ latest, latestRow versions.table.rows crateId = some latest := by
  obtain ⟨_,some_⟩ := Option.ne_none_iff_exists'.mp known
  obtain ⟨row,found,_⟩ := Option.map_eq_some_iff.mp some_
  obtain ⟨mem,own⟩ := Keyed.Table.lookupIff.mp found
  have listed : row ∈ versions.table.rows.filter fun row => row.crateId = crateId :=
    List.mem_filter.mpr ⟨mem,decide_eq_true (Prod.mk.inj own).1⟩
  exact ⟨_,List.head?_eq_some_head (List.ne_nil_of_mem (Ranking.memSortBy.mpr listed))⟩

theorem dueAt {db : Db lower} {row : CrateRow} (mem : row ∈ db.crates.table.rows) {now : Nat}
    (passed : row.checks.nextCheckAt.getD 0 ≤ now) : isCrateRefreshDue now db row.id = .ok true := by
  have found : rowOf db row.id = some row := by
    have some_ : (rowOf db row.id).isSome := List.find?_isSome.mpr ⟨row,mem,decide_eq_true rfl⟩
    obtain ⟨other,found⟩ := Option.isSome_iff_exists.mp some_
    have same : other.id = row.id := by simpa using List.find?_some found
    rw [found,SerialTables.rowOfId (List.mem_of_find?_eq_some found) mem same]
  rw [isCrateRefreshDue,found]
  refine congrArg Except.ok ?_
  cases next : row.checks.nextCheckAt with
  | none => rfl
  | some time => exact decide_eq_true (next ▸ passed : (some time).getD 0 ≤ now)

/-- The check that synced the record leaves the crate as the record has it just when the record carries the crate's name. -/
theorem changedSettles {now : Nat} {db db' : Db lower} {row : CrateRow} {replies : Replies}
    {record : CratesIoCrateDetailResponse} (changed : Changed timestamptz printed now db row replies record db') :
    record.maxVersion.getD [] ≠ [] ∧ Named db'.crates row.id row.name ∧
      (record.name = row.name → ∀ version,
        facts db'.versions row.id version = standing timestamptz db.versions row.id record.versions version) ∧
      (record.name ≠ row.name → ¬ Leads (facts db'.versions row.id) (record.maxVersion.getD [])) ∧
      ∃ latest, latestRow db'.versions.table.rows row.id = some latest := by
  obtain ⟨jobId,answered⟩ := changed.answered
  obtain ⟨latest,found,checked⟩ := Option.map_eq_some_iff.mp answered
  obtain ⟨some_,differs,synced,columns,sync,rfl⟩ := changedCheck changed.probe checked
  obtain ⟨detail,_,_,replied,written⟩ := syncedFrom sync
  cases changed.detail.symm.trans replied
  obtain ⟨continues,written,named,own,others⟩ := syncWrites written
  have here : Named synced.crates row.id row.name :=
    (continues.named (db.crates.below row changed.mem)).mpr ⟨row,changed.mem,rfl,rfl⟩
  have leadsBefore : Leads (facts db.versions row.id) latest.version := leadsLatest.mp ⟨latest,found,rfl⟩
  refine ⟨some_,((checksContinue synced row.id columns).named (namedBelow here)).mpr here,fun same => ?_,fun other leads => ?_,?_⟩
  · rw [same] at named
    rw [namedByName here named]
    exact own
  · have apart : row.id ≠ written := fun same => other (namedOnce (same ▸ named) here)
    have kept : facts synced.versions row.id = facts db.versions row.id := funext (others row.id apart)
    obtain ⟨latest',found',version⟩ := leadsLatest.mpr (kept ▸ leads)
    cases found.symm.trans found'
    exact differs version.symm
  · obtain ⟨_,known,_⟩ := leadsBefore
    have kept : facts synced.versions row.id latest.version ≠ none := by
      by_cases same : row.id = written
      · subst same
        rw [own]
        simp [standing,known]
      · rw [others row.id same,known]
        exact Option.some_ne_none _
    exact latestOf kept

theorem unchangedLeads {now : Nat} {db db' : Db lower} {row : CrateRow} {replies : Replies}
    {record : CratesIoCrateDetailResponse} (changed : Changed timestamptz printed now db row replies record db')
    (stays : StaysUnchanged timestamptz printed db' row.id row.name record) :
    record.name = row.name ∧ Leads (standing timestamptz db.versions row.id record.versions) (record.maxVersion.getD []) := by
  obtain ⟨some_,⟨row',mem,id,name⟩,own,other,latest,found⟩ := changedSettles changed
  have due : isCrateRefreshDue (row'.checks.nextCheckAt.getD 0) db' row'.id = .ok true := dueAt mem (le_refl _)
  have checked : check timestamptz printed (row'.checks.nextCheckAt.getD 0) db' row' replies =
      some (ensureFreshnessForInteraction timestamptz printed (row'.checks.nextCheckAt.getD 0) db' row'.id row'.name
        latest.version replies) := by
    rw [check,id,found]
    rfl
  have unchanged := stays [] (by simp) row' mem id _ replies _ _ (id ▸ due) changed.probe checked
  have version : record.maxVersion.getD [] = latest.version :=
    ((checkedAgain due changed.probe rfl).mp unchanged).resolve_left some_
  have leads : Leads (facts db'.versions row.id) (record.maxVersion.getD []) := leadsLatest.mp ⟨latest,found,version.symm⟩
  have same : record.name = row.name := not_not.mp fun apart => other apart leads
  exact ⟨same,funext (own same) ▸ leads⟩

/-- After a check that told of a change and synced, every later due check tells of none just when the record carries the
crate's name and no version of the crate, dated as the record and the rows before the sync have it, stands after the highest. -/
theorem unchangedIff {now : Nat} {db db' : Db lower} {row : CrateRow} {replies : Replies}
    {record : CratesIoCrateDetailResponse} (changed : Changed timestamptz printed now db row replies record db') :
    StaysUnchanged timestamptz printed db' row.id row.name record ↔
      record.name = row.name ∧
        Leads (standing timestamptz db.versions row.id record.versions) (record.maxVersion.getD []) := by
  refine ⟨unchangedLeads changed,fun ⟨same,leads⟩ => ?_⟩
  obtain ⟨_,named,own,_,_⟩ := changedSettles changed
  refine settledUnchanged ⟨namedBelow named,fun name other => namedOnce other named,fun _ => ?_,fun _ version mem => ?_⟩
  · rw [funext (own same)]
    exact leads
  · rw [own same,standing]
    cases facts db.versions row.id version with
    | none => exact ⟨_,if_pos mem,dateAgain _ _ _⟩
    | some kept => exact ⟨_,rfl,dateAgain _ _ _⟩

end
end

/-! A crate whose first release is indexed, and the records that may follow. -/

def january : Text := "2024-01-01T00:00:00Z".toList
def february : Text := "2024-02-01T00:00:00Z".toList
def march : Text := "2024-03-01T00:00:00Z".toList

def dates (text : Text) : Option Nat :=
  [(january,1704067200000000),(february,1706745600000000),(march,1709251200000000)].lookup text

def relay : CrateRow := ⟨⟨1,"relay".toList⟩,stubColumns⟩

def relayDb : Db id where
  crates := ⟨⟨[relay],List.nodup_singleton _⟩,2,List.nodup_singleton _,fun _ mem => List.mem_singleton.mp mem ▸ Nat.lt_succ_self 1⟩
  versions := ⟨⟨[⟨⟨1,1,"1.0.0".toList,dates january⟩,false,0,none⟩],List.nodup_singleton _⟩,2,List.nodup_singleton _,
    fun _ mem => List.mem_singleton.mp mem ▸ Nat.lt_succ_self 1⟩

def relayRecord (later : List (Text × Text)) : CratesIoCrateDetailResponse :=
  ⟨"relay".toList,some "2.0.0".toList,(later ++ [("2.0.0".toList,february),("1.0.0".toList,january)]).map fun (num,date) =>
    ⟨num,some date,none,false,none,none⟩⟩

def relayReplies (record : CratesIoCrateDetailResponse) : Replies :=
  ⟨.ok record,.ok record,fun _ => .ok none,fun _ => .ok [],.ok "refresh-job-1".toList⟩

def relayCheck (record : CratesIoCrateDetailResponse) : Option (Except Text InteractionRefreshOutcome × Db id) :=
  check dates (fun _ => []) 1711929600000000 relayDb relay (relayReplies record)

def relayAfter (record : CratesIoCrateDetailResponse) : Db id := ((relayCheck record).map Prod.snd).getD relayDb

theorem relayChanged {record : CratesIoCrateDetailResponse}
    (answered : (relayCheck record).map Prod.fst = some (.ok ⟨true,"changed".toList,true,some "refresh-job-1".toList⟩)) :
    Changed dates (fun _ => []) 1711929600000000 relayDb relay (relayReplies record) record (relayAfter record) := by
  refine ⟨List.mem_singleton.mpr rfl,rfl,rfl,"refresh-job-1".toList,?_⟩
  obtain ⟨⟨answer,db'⟩,called,same⟩ := Option.map_eq_some_iff.mp answered
  have after : relayAfter record = db' := by rw [relayAfter,called]; rfl
  rw [after]
  exact called.trans (congrArg (fun answer => some (answer,db')) same)

theorem relayLeads : Leads (standing dates relayDb.versions 1 (relayRecord []).versions) "2.0.0".toList := by
  refine ⟨_,rfl,fun other later known => ?_⟩
  by_cases second : other = "2.0.0".toList
  · subst second
    cases known
    exact le_refl _
  · by_cases first : other = "1.0.0".toList
    · subst first
      cases known
      decide
    · have none_ : standing dates relayDb.versions 1 (relayRecord []).versions other = none := by
        have row : facts relayDb.versions 1 other = none := by
          refine Option.map_eq_none_iff.mpr (List.find?_eq_none.mpr fun row mem => ?_)
          obtain rfl := List.mem_singleton.mp mem
          exact fun same => first (Prod.mk.inj (of_decide_eq_true same)).2.symm
        rw [standing,row]
        exact if_neg fun mem => by
          rcases List.mem_cons.mp mem with same | rest
          · exact second same
          · exact first (List.mem_singleton.mp rest)
      rw [none_] at known
      cases known

theorem relayUnchanged : Changed dates (fun _ => []) 1711929600000000 relayDb relay (relayReplies (relayRecord [])) (relayRecord [])
      (relayAfter (relayRecord [])) ∧
    StaysUnchanged dates (fun _ => []) (relayAfter (relayRecord [])) relay.id relay.name (relayRecord []) :=
  have changed : Changed dates (fun _ => []) 1711929600000000 relayDb relay (relayReplies (relayRecord [])) (relayRecord [])
      (relayAfter (relayRecord [])) := relayChanged rfl
  ⟨changed,(unchangedIff changed).mpr ⟨rfl,relayLeads⟩⟩

/-- `1.0.1` is published after `2.0.0`. -/
theorem backportChanges :
    let record := relayRecord [("1.0.1".toList,march)]
    (record.versions.filterMap fun version => Semver.release version.num).max? = record.maxVersion.bind Semver.release ∧
      Changed dates (fun _ => []) 1711929600000000 relayDb relay (relayReplies record) record (relayAfter record) ∧
      ¬ StaysUnchanged dates (fun _ => []) (relayAfter record) relay.id relay.name record := by
  intro record
  have changed : Changed dates (fun _ => []) 1711929600000000 relayDb relay (relayReplies record) record (relayAfter record) :=
    relayChanged rfl
  refine ⟨by decide,changed,fun stays => ?_⟩
  obtain ⟨_,standing,known,last⟩ := unchangedLeads changed stays
  cases known
  have below := last "1.0.1".toList _ rfl
  exact absurd below (by decide)

end RustMcp.Freshness
