import RustMcp.OsvEvidence
import RustMcp.SecuritySync

/-! Which crates the security sync reports as checked, and what it leaves in the rows of the others. -/
namespace RustMcp.CheckedCrates
open Str Semver SecuritySync
open Security (SecurityCrateRow SecurityVersionRow AdvisoryMatches OsvVulnerability sourceKey)
open Advisories (CrateAdvisoryRow)
open CommitLog (latest)

/-! The rows of a source for a crate. -/

theorem labelsApart {source other : Source} {label : Text} (mine : label ∈ source.labels) (theirs : label ∈ other.labels) :
    source = other := by
  cases source <;> cases other <;> first | rfl | (revert label; decide)

theorem ownedIff {source : Source} {crateId : Int} {row : CrateAdvisoryRow} :
    owned source crateId row = true ↔ row.crateId = crateId ∧ row.source ∈ source.labels := by
  simp [owned]

theorem ownedSlot {slot other : Source × Int} {row : CrateAdvisoryRow} (mine : owned slot.1 slot.2 row = true)
    (theirs : owned other.1 other.2 row = true) : slot = other := by
  rw [ownedIff] at mine theirs
  exact Prod.ext (labelsApart mine.2 theirs.2) (mine.1.symm.trans theirs.1)

theorem ownedKey {source : Source} {crateId : Int} {row other : CrateAdvisoryRow} (same : sourceKey row = sourceKey other) :
    owned source crateId row = owned source crateId other := by
  simp only [sourceKey,Prod.mk.injEq] at same
  simp only [owned,same.1,same.2.2.2]

theorem upsertRows (slot : Source × Int) (table : AdvisoryMatches) (row : CrateAdvisoryRow) :
    rowsOf slot (table.upsert row) =
      if owned slot.1 slot.2 row then Keyed.put sourceKey row (rowsOf slot table) else rowsOf slot table :=
  Keyed.putFilter table.rows fun _ => ownedKey

theorem clearOwn (source : Source) (crateId : Int) (table : AdvisoryMatches) :
    rowsOf (source,crateId) (clearAdvisoryMatches source crateId table) = [] := by
  simp [rowsOf,clearAdvisoryMatches,Keyed.Table.delete,List.filter_filter]

theorem clearOthers {source : Source} {crateId : Int} {other : Source × Int} (differ : other ≠ (source,crateId)) (table : AdvisoryMatches) :
    rowsOf other (clearAdvisoryMatches source crateId table) = rowsOf other table := by
  simp only [rowsOf,clearAdvisoryMatches,Keyed.Table.delete,List.filter_filter]
  refine List.filter_congr fun row _ => ?_
  cases theirs : owned other.1 other.2 row
  · rfl
  · cases mine : owned source crateId row
    · rfl
    · have same : other = (source,crateId) := ownedSlot theirs mine
      exact absurd same differ

/-! The writes of a transaction. -/

def writeAll (table : AdvisoryMatches) (writes : List Write) : AdvisoryMatches := table.upsertAll (writes.map Write.row)

def Owns (slot : Source × Int) (writes : List Write) : Prop := ∀ write ∈ writes, owned slot.1 slot.2 write.row = true

/-- The rows that writes leave where there were none. -/
def writtenRows (writes : List Write) : List CrateAdvisoryRow :=
  writes.foldl (fun rows write => Keyed.put sourceKey write.row rows) []

theorem writeOthers {slot other : Source × Int} (differ : other ≠ slot) {writes : List Write} (own : Owns slot writes)
    (table : AdvisoryMatches) :
    rowsOf other (writeAll table writes) = rowsOf other table := by
  induction writes generalizing table with
  | nil => rfl
  | cons write writes ih =>
    have foreign : ¬ owned other.1 other.2 write.row = true := fun theirs => differ (ownedSlot theirs (own write List.mem_cons_self))
    exact (ih (fun w mem => own w (List.mem_cons_of_mem _ mem)) (table.upsert write.row)).trans
      ((upsertRows other table write.row).trans (if_neg foreign))

theorem writeOwn {slot : Source × Int} {writes : List Write} (own : Owns slot writes) (table : AdvisoryMatches) :
    rowsOf slot (writeAll table writes) = writes.foldl (fun rows write => Keyed.put sourceKey write.row rows) (rowsOf slot table) := by
  induction writes generalizing table with
  | nil => rfl
  | cons write writes ih =>
    refine (ih (fun w mem => own w (List.mem_cons_of_mem _ mem)) (table.upsert write.row)).trans ?_
    rw [upsertRows,if_pos (own write List.mem_cons_self),List.foldl_cons]

theorem matchOwned {krate : SecurityCrateRow} {subject : Text} {row : Option Int → CrateAdvisoryRow} {found : List (Text × Int)}
    {slot : Source × Int} (own : ∀ id, owned slot.1 slot.2 (row id) = true) : Owns slot (matchWrites krate subject row found) := by
  intro write mem
  unfold matchWrites at mem
  split at mem
  · rw [List.mem_singleton.mp mem]
    exact own none
  · obtain ⟨version,-,rfl⟩ := List.mem_map.mp mem
    exact own (some version.2)

theorem osvOwned (krate : SecurityCrateRow) (versions : List SecurityVersionRow) (vulns : List OsvVulnerability) :
    Owns (.osv,krate.id) (osvWrites krate versions vulns) := by
  intro write mem
  obtain ⟨vuln,-,mem⟩ := List.mem_flatMap.mp mem
  have own : Owns (.osv,krate.id) (osvRecordWrites krate versions vuln) :=
    matchOwned fun id => ownedIff.mpr ⟨rfl,List.contains_iff_mem.mp (OsvEvidence.identitySource vuln)⟩
  exact own write mem

theorem ghsaOwned {V R : Type} [LinearOrder V] (sv : Package V R) (krate : SecurityCrateRow) (versionMap : List (Text × Int))
    (advisories : List GhsaAdvisory) : Owns (.ghsa,krate.id) (ghsaWrites sv krate versionMap advisories) := by
  intro write mem
  obtain ⟨advisory,-,mem⟩ := List.mem_flatMap.mp mem
  unfold ghsaAdvisoryWrites at mem
  dsimp only at mem
  split at mem
  · cases mem
  · exact matchOwned (fun id => ownedIff.mpr ⟨rfl,List.mem_singleton_self _⟩) write mem

theorem rustsecOwned {V R : Type} [LinearOrder V] (sv : Package V R) (krate : SecurityCrateRow) (versions : List SecurityVersionRow)
    (fileStem : Option Text) (parsed : RustsecText.RustSecFrontmatter) :
    Owns (.rustsecDb,krate.id) (rustsecWrites sv krate versions fileStem parsed) := by
  intro write mem
  unfold rustsecWrites at mem
  dsimp only at mem
  split at mem
  · cases mem
  · exact matchOwned (fun id => ownedIff.mpr ⟨rfl,List.mem_singleton_self _⟩) write mem

theorem matchRows (krate : SecurityCrateRow) (subject : Text) (row : Option Int → CrateAdvisoryRow) (found : List (Text × Int)) :
    (matchWrites krate subject row found).map Write.row =
      (if (found.map Prod.snd).isEmpty then [none] else (found.map Prod.snd).map some).map row := by
  cases found with
  | nil => rfl
  | cons version found => simp [matchWrites]

/-- The OSV transaction is the one that `Security.syncOsvSecurity` computes. -/
theorem osvTransaction (krate : SecurityCrateRow) (versions : List SecurityVersionRow) (vulns : List OsvVulnerability)
    (table : AdvisoryMatches) :
    writeAll (clearAdvisoryMatches .osv krate.id table) (osvWrites krate versions vulns) =
      Security.syncOsvSecurity krate versions vulns table := by
  have found (vuln : OsvVulnerability) :
      (vuln.affected.flatMap fun affected => affected.versions.filterMap fun version =>
        (Security.versionMap versions version).map (version,·)).map Prod.snd = Security.matchedVersions versions vuln := by
    simp [Security.matchedVersions,List.map_flatMap,List.map_filterMap,Function.comp_def]
  have rows : (osvWrites krate versions vulns).map Write.row =
      (Security.keptRecords krate vulns).flatMap (Security.recordRows krate versions) := by
    rw [osvWrites,List.map_flatMap]
    refine congrArg (List.flatMap · _) (funext fun vuln => ?_)
    rw [osvRecordWrites,matchRows,found]
    rfl
  rw [writeAll,rows]
  rfl

/-! A transaction. -/

section
variable (env : Env)

/-- Neither the rows nor the log have changed. -/
structure Quiet (before after : World) : Prop where
  table : after.table = before.table
  commits : after.commits = before.commits

theorem quietTick {before after : World} (quiet : Quiet before after) : Quiet before after.tick := ⟨quiet.table,quiet.commits⟩

theorem openSpec (source : Source) (krate : SecurityCrateRow) (w : World) :
    Quiet w (openTransaction env source krate w).1 ∧
    ∀ table, (openTransaction env source krate w).2 = .ok table → table = clearAdvisoryMatches source krate.id w.table := by
  have still : Quiet w w.tick := ⟨rfl,rfl⟩
  unfold openTransaction
  split
  · exact ⟨still,fun _ h => nomatch h⟩
  · split
    · exact ⟨quietTick still,fun _ h => nomatch h⟩
    · exact ⟨quietTick still,fun _ h => (Except.ok.inj h).symm⟩

theorem upsertsSpec (writes : List Write) (w : World) (table : AdvisoryMatches) :
    Quiet w (upserts env writes w table).1 ∧ ∀ after, (upserts env writes w table).2 = .ok after → after = writeAll table writes := by
  induction writes generalizing w table with
  | nil => exact ⟨⟨rfl,rfl⟩,fun _ h => (Except.ok.inj h).symm⟩
  | cons write writes ih =>
    unfold upserts
    split
    · exact ⟨⟨rfl,rfl⟩,fun _ h => nomatch h⟩
    · obtain ⟨quiet,written⟩ := ih w.tick (table.upsert write.row)
      exact ⟨⟨quiet.table,quiet.commits⟩,written⟩

end

/-! A job: what it commits, for whom, and what it reports as checked. -/

section
variable {V R : Type} [LinearOrder V] (sv : Package V R) (env : Env)

/-- The files were read, and these are the writes of each. -/
def Scanned (db : RustsecDb) (krate : SecurityCrateRow) (versions : List SecurityVersionRow) :
    List AdvisoryFile → List (List Write) → Prop :=
  List.Forall₂ fun file writes => ∃ parsed, readAdvisory db file = .ok parsed ∧
    writes = rustsecWrites sv krate versions file.fileStem parsed

/-- The writes for a crate that follow from answers of this run. -/
def Delivered (krate : SecurityCrateRow) (writes : List Write) : Source → Prop
  | .osv => ∃ load versions query vulns, env.fetchSecurityVersionsForCrate load krate.id = .ok versions ∧
      env.queryCrate query krate.name = .ok vulns ∧ writes = osvWrites krate versions vulns
  | .ghsa => ∃ load versions fetch advisories call, env.fetchSecurityVersionsForCrate load krate.id = .ok versions ∧
      env.fetchAdvisories fetch krate.name = .ok advisories ∧
      writes = ghsaWrites sv krate (iterated env call versions) advisories
  | .rustsecDb => ∃ db load versions listing fileWrites, env.rustsecDbDir = some db ∧
      env.fetchSecurityVersionsForCrate load krate.id = .ok versions ∧
      Scanned sv db krate versions (db.advisoryMarkdownFiles listing krate.name) fileWrites ∧ writes = fileWrites.flatten

/-- What a source delivered for a crate, as rows. -/
def Fresh (krate : SecurityCrateRow) (source : Source) (rows : List CrateAdvisoryRow) : Prop :=
  ∃ writes, Delivered sv env krate writes source ∧ rows = writtenRows writes

structure Keeps (source : Source) (crates : List SecurityCrateRow) (w : World) (checked : List Int)
    (result : World × Except Text SecuritySyncOutcome) (entries : List ((Source × Int) × List CrateAdvisoryRow)) : Prop where
  commits : result.1.commits = w.commits ++ entries
  led : CommitLog.Led rowsOf w.table result.1.table entries
  fresh : ∀ entry ∈ entries, entry.1.1 = source ∧ ∃ krate ∈ crates, krate.id = entry.1.2 ∧ Fresh sv env krate source entry.2
  checks : ∀ outcome, result.2 = .ok outcome → outcome.checkedCrateIds = checked ++ entries.map fun entry => entry.1.2

variable {sv env} {source : Source} {crates : List SecurityCrateRow} {krate : SecurityCrateRow} {w : World} {checked : List Int}
variable {result : World × Except Text SecuritySyncOutcome} {entries : List ((Source × Int) × List CrateAdvisoryRow)}

theorem keepsQuiet (quiet : Quiet w result.1) (checks : ∀ outcome, result.2 = .ok outcome → outcome.checkedCrateIds = checked) :
    Keeps sv env source crates w checked result [] where
  commits := by rw [quiet.commits,List.append_nil]
  led := by rw [quiet.table]; exact CommitLog.ledStill rowsOf _
  fresh := fun _ mem => absurd mem List.not_mem_nil
  checks := fun outcome ok => by rw [checks outcome ok,List.map_nil,List.append_nil]

theorem keepsAfter {between : World} (quiet : Quiet w between) (keeps : Keeps sv env source crates between checked result entries) :
    Keeps sv env source crates w checked result entries where
  commits := by rw [keeps.commits,quiet.commits]
  led := quiet.table ▸ keeps.led
  fresh := keeps.fresh
  checks := keeps.checks

/-- A transaction that is carried out leaves the rows of the writes, and touches no other slot. -/
theorem keepsCommitted {writes : List Write} (delivered : Delivered sv env krate writes source) (own : Owns (source,krate.id) writes)
    (there : krate ∈ crates) (table : result.1.table = writeAll (clearAdvisoryMatches source krate.id w.table) writes)
    (commits : result.1.commits = w.commits ++ [((source,krate.id),rowsOf (source,krate.id) result.1.table)])
    (checks : ∀ outcome, result.2 = .ok outcome → outcome.checkedCrateIds = checked ++ [krate.id]) :
    Keeps sv env source crates w checked result [((source,krate.id),rowsOf (source,krate.id) result.1.table)] where
  commits := commits
  led := CommitLog.ledCommit fun other differ => by
    rw [table,writeOthers differ own,clearOthers differ]
  fresh := by
    intro entry mem
    cases List.mem_singleton.mp mem
    refine ⟨rfl,krate,there,rfl,writes,delivered,?_⟩
    rw [table,writeOwn own,clearOwn]
    rfl
  checks := checks

theorem finishKeeps {writes : List Write} (delivered : Delivered sv env krate writes source) (own : Owns (source,krate.id) writes)
    (there : krate ∈ crates) (w : World) (outcome : SecuritySyncOutcome) :
    ∃ entries, Keeps sv env source crates w outcome.checkedCrateIds
      (finish env source krate w (writeAll (clearAdvisoryMatches source krate.id w.table) writes) outcome) entries := by
  have carried {result : World × Except Text SecuritySyncOutcome}
      (shape : Quiet (w.committed source krate.id (writeAll (clearAdvisoryMatches source krate.id w.table) writes)) result.1)
      (checks : ∀ after, result.2 = .ok after → after.checkedCrateIds = outcome.checkedCrateIds ++ [krate.id]) :
      ∃ entries, Keeps sv env source crates w outcome.checkedCrateIds result entries :=
    ⟨_,keepsCommitted delivered own there shape.table (by rw [shape.commits,shape.table]; rfl) checks⟩
  unfold finish
  split
  · cases env.lost w.clock
    · exact ⟨[],keepsQuiet ⟨rfl,rfl⟩ fun _ h => nomatch h⟩
    · exact carried ⟨rfl,rfl⟩ fun _ h => nomatch h
  · dsimp only
    split
    · exact carried ⟨rfl,rfl⟩ fun _ h => nomatch h
    · refine carried ⟨rfl,rfl⟩ fun after h => ?_
      rw [← Except.ok.inj h]
      rfl

theorem replaceKeeps {writes : List Write} (delivered : Delivered sv env krate writes source) (own : Owns (source,krate.id) writes)
    (there : krate ∈ crates) (w : World) (outcome : SecuritySyncOutcome) :
    ∃ entries, Keeps sv env source crates w outcome.checkedCrateIds (replace env source krate writes w outcome) entries := by
  obtain ⟨opened,cleared⟩ := openSpec env source krate w
  unfold replace
  split
  · rename_i shape
    rw [shape] at opened
    exact ⟨[],keepsQuiet opened fun _ h => nomatch h⟩
  · rename_i begun table shape
    rw [shape] at opened cleared
    cases cleared table rfl
    obtain ⟨quiet,written⟩ := upsertsSpec env writes begun (clearAdvisoryMatches source krate.id w.table)
    have still : Quiet w (upserts env writes begun (clearAdvisoryMatches source krate.id w.table)).1 :=
      ⟨quiet.table.trans opened.table,quiet.commits.trans opened.commits⟩
    split
    · rename_i stopped
      rw [stopped] at still
      exact ⟨[],keepsQuiet still fun _ h => nomatch h⟩
    · rename_i done after through
      rw [through] at still written
      cases written after rfl
      obtain ⟨entries,keeps⟩ := finishKeeps delivered own there done (outcome.wrote writes.length)
      rw [still.table] at keeps
      exact ⟨entries,keepsAfter still keeps⟩

/-! The jobs of the sources. -/

theorem loadSpec (env : Env) (krate : SecurityCrateRow) (w : World) :
    Quiet w (loadVersions env krate w).1 ∧
    ∀ versions, (loadVersions env krate w).2 = .ok versions → ∃ load, env.fetchSecurityVersionsForCrate load krate.id = .ok versions := by
  refine ⟨⟨rfl,rfl⟩,fun versions ok => ⟨w.clock,?_⟩⟩
  unfold loadVersions at ok
  cases answer : env.fetchSecurityVersionsForCrate w.clock krate.id with
  | error e => rw [answer] at ok; cases ok
  | ok rows => rw [answer] at ok; exact ok

theorem osvKeeps (there : krate ∈ crates) (w : World) (outcome : SecuritySyncOutcome) :
    ∃ entries, Keeps sv env .osv crates w outcome.checkedCrateIds (syncOsvCrate env krate w outcome) entries := by
  obtain ⟨loading,loaded⟩ := loadSpec env krate w
  unfold syncOsvCrate
  split
  · rename_i shape
    rw [shape] at loading
    exact ⟨[],keepsQuiet loading fun _ h => nomatch h⟩
  · rename_i between versions shape
    rw [shape] at loading loaded
    obtain ⟨load,answer⟩ := loaded versions rfl
    split
    · exact ⟨[],keepsQuiet (quietTick loading) fun after h => by rw [← Except.ok.inj h]; rfl⟩
    · rename_i vulns found
      have delivered : Delivered sv env krate (osvWrites krate versions vulns) .osv :=
        ⟨load,versions,between.clock,vulns,answer,found,rfl⟩
      obtain ⟨entries,keeps⟩ := replaceKeeps delivered (osvOwned krate versions vulns) there between.tick (outcome.processing krate)
      exact ⟨entries,keepsAfter (quietTick loading) keeps⟩

theorem ghsaKeeps (there : krate ∈ crates) (w : World) (outcome : SecuritySyncOutcome) :
    ∃ entries, Keeps sv env .ghsa crates w outcome.checkedCrateIds (syncGhsaCrate sv env krate w outcome) entries := by
  unfold syncGhsaCrate
  split
  · exact ⟨[],keepsQuiet ⟨rfl,rfl⟩ fun after h => by rw [← Except.ok.inj h]; rfl⟩
  · rename_i advisories found
    obtain ⟨loading,loaded⟩ := loadSpec env krate w.tick
    split
    · rename_i shape
      rw [shape] at loading
      exact ⟨[],keepsQuiet ⟨loading.table,loading.commits⟩ fun _ h => nomatch h⟩
    · rename_i between versions shape
      rw [shape] at loading loaded
      obtain ⟨load,answer⟩ := loaded versions rfl
      have delivered : Delivered sv env krate (ghsaWrites sv krate (iterated env between.clock versions) advisories) .ghsa :=
        ⟨load,versions,w.clock,advisories,between.clock,answer,found,rfl⟩
      obtain ⟨entries,keeps⟩ := replaceKeeps delivered (ghsaOwned sv krate _ advisories) there between (outcome.processing krate)
      exact ⟨entries,keepsAfter ⟨loading.table,loading.commits⟩ keeps⟩

theorem writeAppend (table : AdvisoryMatches) (writes later : List Write) :
    writeAll (writeAll table writes) later = writeAll table (writes ++ later) := by
  simp [writeAll,Keyed.Table.upsertAll]

variable (sv env) in
theorem scanSpec (db : RustsecDb) (krate : SecurityCrateRow) (versions : List SecurityVersionRow) (files : List AdvisoryFile)
    (w : World) (table : AdvisoryMatches) (outcome : SecuritySyncOutcome) :
    Quiet w (scanFiles sv env db krate versions files w table outcome).1 ∧
    ∀ after scanned, (scanFiles sv env db krate versions files w table outcome).2 = .ok (after,scanned) →
      scanned.checkedCrateIds = outcome.checkedCrateIds ∧ outcome.errors.length ≤ scanned.errors.length ∧
      (scanned.errors.length = outcome.errors.length →
        ∃ fileWrites, Scanned sv db krate versions files fileWrites ∧ after = writeAll table fileWrites.flatten) := by
  induction files generalizing w table outcome with
  | nil =>
    refine ⟨⟨rfl,rfl⟩,fun after scanned h => ?_⟩
    cases Except.ok.inj h
    exact ⟨rfl,le_rfl,fun _ => ⟨[],List.Forall₂.nil,rfl⟩⟩
  | cons file files ih =>
    unfold scanFiles
    split
    · rename_i e _
      obtain ⟨quiet,through⟩ := ih w table (outcome.failed e)
      refine ⟨quiet,fun after scanned h => ?_⟩
      obtain ⟨checked,grown,-⟩ := through after scanned h
      -- the error is kept, so the scan does not end as it began
      have more : outcome.errors.length + 1 ≤ scanned.errors.length := by simpa [SecuritySyncOutcome.failed] using grown
      exact ⟨checked,by omega,fun same => by omega⟩
    · rename_i parsed read
      obtain ⟨quiet,written⟩ := upsertsSpec env (rustsecWrites sv krate versions file.fileStem parsed) w table
      dsimp only
      split
      · rename_i shape
        rw [shape] at quiet
        exact ⟨quiet,fun _ _ h => nomatch h⟩
      · rename_i between middle shape
        rw [shape] at quiet written
        cases written middle rfl
        obtain ⟨still,through⟩ := ih between (writeAll table (rustsecWrites sv krate versions file.fileStem parsed))
          (outcome.wrote (rustsecWrites sv krate versions file.fileStem parsed).length)
        refine ⟨⟨still.table.trans quiet.table,still.commits.trans quiet.commits⟩,fun after scanned h => ?_⟩
        obtain ⟨checked,grown,clean⟩ := through after scanned h
        refine ⟨checked,grown,fun same => ?_⟩
        obtain ⟨fileWrites,all,eq⟩ := clean same
        exact ⟨_,List.Forall₂.cons ⟨parsed,read,rfl⟩ all,by rw [eq,writeAppend,List.flatten_cons]⟩

theorem scannedOwned {db : RustsecDb} {versions : List SecurityVersionRow} {files : List AdvisoryFile} {fileWrites : List (List Write)}
    (scanned : Scanned sv db krate versions files fileWrites) : Owns (.rustsecDb,krate.id) fileWrites.flatten := by
  induction scanned with
  | nil => exact fun _ mem => absurd mem List.not_mem_nil
  | cons first _ ih =>
    obtain ⟨parsed,-,rfl⟩ := first
    intro write mem
    rcases List.mem_append.mp mem with own | later
    · exact rustsecOwned sv krate versions _ parsed write own
    · exact ih write later

theorem rustsecKeeps {db : RustsecDb} (dir : env.rustsecDbDir = some db) (there : krate ∈ crates) (w : World) (outcome : SecuritySyncOutcome) :
    ∃ entries, Keeps sv env .rustsecDb crates w outcome.checkedCrateIds (syncRustsecDbCrate sv env db krate w outcome) entries := by
  obtain ⟨loading,loaded⟩ := loadSpec env krate w
  unfold syncRustsecDbCrate
  split
  · rename_i shape
    rw [shape] at loading
    exact ⟨[],keepsQuiet loading fun _ h => nomatch h⟩
  · rename_i between versions shape
    rw [shape] at loading loaded
    obtain ⟨load,answer⟩ := loaded versions rfl
    obtain ⟨opened,cleared⟩ := openSpec env .rustsecDb krate between
    split
    · rename_i stopped
      rw [stopped] at opened
      exact ⟨[],keepsQuiet ⟨opened.table.trans loading.table,opened.commits.trans loading.commits⟩ fun _ h => nomatch h⟩
    · rename_i begun table open_
      rw [open_] at opened cleared
      cases cleared table rfl
      dsimp only
      obtain ⟨scanning,through⟩ := scanSpec sv env db krate versions (db.advisoryMarkdownFiles begun.clock krate.name) begun.tick
        (clearAdvisoryMatches .rustsecDb krate.id between.table) (outcome.processing krate)
      have still : Quiet w (scanFiles sv env db krate versions (db.advisoryMarkdownFiles begun.clock krate.name) begun.tick
          (clearAdvisoryMatches .rustsecDb krate.id between.table) (outcome.processing krate)).1 :=
        ⟨(scanning.table.trans opened.table).trans loading.table,(scanning.commits.trans opened.commits).trans loading.commits⟩
      split
      · rename_i stopped
        rw [stopped] at still
        exact ⟨[],keepsQuiet still fun _ h => nomatch h⟩
      · rename_i done table scanned shape
        rw [shape] at still through
        obtain ⟨checked,-,clean⟩ := through table scanned rfl
        split
        · exact ⟨[],keepsQuiet still fun after h => by rw [← Except.ok.inj h]; exact checked⟩
        · rename_i same
          obtain ⟨fileWrites,all,rfl⟩ := clean (not_not.mp same)
          have delivered : Delivered sv env krate fileWrites.flatten .rustsecDb :=
            ⟨db,load,versions,begun.clock,fileWrites,dir,answer,all,rfl⟩
          obtain ⟨entries,keeps⟩ := finishKeeps delivered (scannedOwned all) there done scanned
          rw [still.table,← loading.table,checked] at keeps
          exact ⟨entries,keepsAfter still keeps⟩

/-! Whole runs. -/

theorem keepsAppend {between : World} {outcome : SecuritySyncOutcome} {later : List ((Source × Int) × List CrateAdvisoryRow)}
    (first : Keeps sv env source crates w checked (between,.ok outcome) entries)
    (second : Keeps sv env source crates between outcome.checkedCrateIds result later) :
    Keeps sv env source crates w checked result (entries ++ later) where
  commits := by rw [second.commits,first.commits,List.append_assoc]
  led := CommitLog.ledAppend first.led second.led
  fresh := fun entry mem => (List.mem_append.mp mem).elim (first.fresh entry) (second.fresh entry)
  checks := fun after ok => by
    rw [second.checks after ok,first.checks outcome rfl,List.map_append,List.append_assoc]

theorem eachKeeps {job : SecurityCrateRow → World → SecuritySyncOutcome → World × Except Text SecuritySyncOutcome}
    {todo : List SecurityCrateRow}
    (step : ∀ krate ∈ todo, ∀ w outcome, ∃ entries, Keeps sv env source crates w outcome.checkedCrateIds (job krate w outcome) entries)
    (w : World) (outcome : SecuritySyncOutcome) :
    ∃ entries, Keeps sv env source crates w outcome.checkedCrateIds (eachCrate job todo w outcome) entries := by
  induction todo generalizing w outcome with
  | nil => exact ⟨[],keepsQuiet ⟨rfl,rfl⟩ fun after h => by rw [← Except.ok.inj h]⟩
  | cons krate todo ih =>
    obtain ⟨entries,first⟩ := step krate List.mem_cons_self w outcome
    unfold eachCrate
    split
    · rename_i shape
      rw [shape] at first
      exact ⟨entries,first.commits,first.led,first.fresh,fun _ h => nomatch h⟩
    · rename_i between middle shape
      rw [shape] at first
      obtain ⟨later,second⟩ := ih (fun other mem => step other (List.mem_cons_of_mem _ mem)) between middle
      exact ⟨entries ++ later,keepsAppend first second⟩

variable (sv env crates) in
theorem sourceKeeps (source : Source) (w : World) :
    ∃ entries, Keeps sv env source crates w [] (syncSource sv env crates source w) entries := by
  cases source with
  | osv => exact eachKeeps (fun krate there => osvKeeps there) w .empty
  | ghsa => exact eachKeeps (fun krate there => ghsaKeeps there) w .empty
  | rustsecDb =>
    change ∃ entries, Keeps sv env .rustsecDb crates w [] (syncRustsecDbSecurity sv env crates w) entries
    unfold syncRustsecDbSecurity
    split
    · exact ⟨[],keepsQuiet ⟨rfl,rfl⟩ fun after h => by rw [← Except.ok.inj h]; rfl⟩
    · rename_i db dir
      split
      · exact ⟨[],keepsQuiet ⟨rfl,rfl⟩ fun _ h => nomatch h⟩
      · have run : ∃ entries, Keeps sv env .rustsecDb crates w [] (eachCrate (syncRustsecDbCrate sv env db) crates w .empty) entries :=
          eachKeeps (fun krate there => rustsecKeeps dir there) w .empty
        obtain ⟨entries,keeps⟩ := run
        split
        · rename_i shape
          rw [shape] at keeps
          exact ⟨entries,keeps.commits,keeps.led,keeps.fresh,fun _ h => nomatch h⟩
        · rename_i outcome shape
          rw [shape] at keeps
          exact ⟨entries,keeps.commits,keeps.led,keeps.fresh,fun after h => by rw [← Except.ok.inj h]; exact keeps.checks outcome rfl⟩

/-- What the sources of a run leave together. -/
structure Synced (sv : Package V R) (env : Env) (crates : List SecurityCrateRow) (sources : List Source) (w : World)
    (after : World × List (Source × Except Text SecuritySyncOutcome)) (entries : List ((Source × Int) × List CrateAdvisoryRow)) :
    Prop where
  commits : after.1.commits = w.commits ++ entries
  led : CommitLog.Led rowsOf w.table after.1.table entries
  fresh : ∀ entry ∈ entries, entry.1.1 ∈ sources ∧ ∃ krate ∈ crates, krate.id = entry.1.2 ∧ Fresh sv env krate entry.1.1 entry.2
  sources : after.2.map Prod.fst = sources
  checks : ∀ source outcome, (source,.ok outcome) ∈ after.2 → ∀ id, id ∈ outcome.checkedCrateIds ↔ ∃ entry ∈ entries, entry.1 = (source,id)

variable (sv env crates) in
theorem resultsSynced (sources : List Source) (distinct : sources.Nodup) (w : World) :
    ∃ entries, Synced sv env crates sources w (sourceResults sv env crates sources w) entries := by
  induction sources generalizing w with
  | nil => exact ⟨[],by simp [sourceResults],CommitLog.ledStill rowsOf _,by simp,rfl,by simp [sourceResults]⟩
  | cons source sources ih =>
    obtain ⟨new,distinct⟩ := List.nodup_cons.mp distinct
    obtain ⟨entries,keeps⟩ := sourceKeeps sv env crates source w
    obtain ⟨later,rest⟩ := ih distinct (syncSource sv env crates source w).1
    have own (entry) (mem : entry ∈ entries) : entry.1.1 = source := (keeps.fresh entry mem).1
    refine ⟨entries ++ later,⟨?_,CommitLog.ledAppend keeps.led rest.led,?_,?_,?_⟩⟩
    · change (sourceResults sv env crates sources (syncSource sv env crates source w).1).1.commits = _
      rw [rest.commits,keeps.commits,List.append_assoc]
    · intro entry mem
      rcases List.mem_append.mp mem with mem | mem
      · obtain ⟨mine,fresh⟩ := keeps.fresh entry mem
        exact ⟨mine ▸ List.mem_cons_self,mine ▸ fresh⟩
      · obtain ⟨theirs,fresh⟩ := rest.fresh entry mem
        exact ⟨List.mem_cons_of_mem _ theirs,fresh⟩
    · exact congrArg (source :: ·) rest.sources
    · intro other outcome mem id
      rcases List.mem_cons.mp mem with here | there
      · obtain ⟨rfl,result⟩ := Prod.mk.inj here
        rw [keeps.checks outcome result.symm,List.nil_append,List.mem_map]
        constructor
        · rintro ⟨entry,mem,rfl⟩
          exact ⟨entry,List.mem_append_left later mem,Prod.ext (own entry mem) rfl⟩
        · rintro ⟨entry,mem,slot⟩
          rcases List.mem_append.mp mem with mem | mem
          · exact ⟨entry,mem,by rw [slot]⟩
          · exact absurd (rest.fresh entry mem).1 (by rw [slot]; exact new)
      · rw [rest.checks other outcome there id]
        have listed : other ∈ sources := rest.sources ▸ List.mem_map_of_mem there
        constructor
        · rintro ⟨entry,mem,slot⟩
          exact ⟨entry,List.mem_append_right entries mem,slot⟩
        · rintro ⟨entry,mem,slot⟩
          rcases List.mem_append.mp mem with mem | mem
          · have mine : other = source := by rw [← own entry mem,slot]
            exact absurd (mine ▸ listed) new
          · exact ⟨entry,mem,slot⟩

theorem absorbed (results : List (Except Text SecuritySyncOutcome)) (state : List Int × SecuritySyncOutcome) (id : Int) :
    id ∈ (results.foldl absorb state).1 ↔
      id ∈ state.1 ∧ ∀ result ∈ results, ∃ outcome, result = .ok outcome ∧ id ∈ outcome.checkedCrateIds := by
  induction results generalizing state with
  | nil => simp
  | cons result results ih =>
    rw [List.foldl_cons,ih]
    cases result with
    | error e => simp [absorb]
    | ok outcome => simp [absorb,and_assoc]

def start (table : AdvisoryMatches) : World := ⟨table,[],0⟩

/-- A crate stays on the list when it is on that of every source and no source failed. -/
theorem reported {sources : List Source} (distinct : sources.Nodup) (some_ : sources ≠ [])
    {after : World × List (Source × Except Text SecuritySyncOutcome)}
    (synced : Synced sv env crates sources (start table) after entries) (state : SecuritySyncOutcome) (id : Int) :
    id ∈ ((after.2.map Prod.snd).foldl absorb ((crates.map SecurityCrateRow.id).dedup,state)).1 ↔
      ∀ source ∈ sources, (∃ outcome, (source,.ok outcome) ∈ after.2) ∧ ∃ rows, latest (source,id) entries = some rows := by
  have keys : (after.2.map Prod.fst).Nodup := synced.sources ▸ distinct
  have resultOf {source : Source} (listed : source ∈ sources) : ∃ result, (source,result) ∈ after.2 := by
    obtain ⟨⟨_,result⟩,mem,rfl⟩ := List.mem_map.mp (synced.sources ▸ listed : source ∈ after.2.map Prod.fst)
    exact ⟨result,mem⟩
  rw [absorbed,List.mem_dedup]
  constructor
  · rintro ⟨-,all⟩ source listed
    obtain ⟨result,mem⟩ := resultOf listed
    obtain ⟨outcome,rfl,checked⟩ := all result (List.mem_map_of_mem mem)
    exact ⟨⟨outcome,mem⟩,CommitLog.latestSome.mpr ((synced.checks source outcome mem id).mp checked)⟩
  · intro all
    constructor
    · obtain ⟨source,listed⟩ := List.exists_mem_of_ne_nil sources some_
      obtain ⟨entry,mem,slot⟩ := CommitLog.latestSome.mp (all source listed).2
      obtain ⟨-,krate,there,same,-⟩ := synced.fresh entry mem
      exact List.mem_map.mpr ⟨krate,there,by rw [same,slot]⟩
    · intro result of
      obtain ⟨⟨source,result⟩,there,rfl⟩ := List.mem_map.mp of
      have listed : source ∈ after.2.map Prod.fst := List.mem_map.mpr ⟨(source,result),there,rfl⟩
      rw [synced.sources] at listed
      obtain ⟨⟨outcome,done⟩,last⟩ := all source listed
      have same := List.inj_on_of_nodup_map keys there done rfl
      exact ⟨outcome,(Prod.mk.inj same).2,(synced.checks source outcome done id).mpr (CommitLog.latestSome.mp last)⟩

end

theorem configuredDistinct (env : Env) : (configured env).Nodup := by
  unfold configured
  split <;> decide

/-- Of two crates the GHSA versions of the second are not loaded; the first has been committed by both sources. -/
def demoEnv : Env where
  fetchSecurityVersionsForCrate := fun call _ => if call = 19 then .error "disk I/O error".toList else .ok []
  queryCrate := fun _ _ => .ok []
  fetchAdvisories := fun _ _ => .ok []
  fails := fun _ => none
  lost := fun _ => false
  rustsecDbDir := none
  order := fun _ entries => entries

def demoCrates : List SecurityCrateRow := [⟨1,"alpha".toList⟩,⟨2,"beta".toList⟩]

def demoRun : World × SecuritySyncOutcome := syncSecurityCrates releases demoEnv demoCrates (start ⟨[],List.nodup_nil⟩)

end RustMcp.CheckedCrates
