import RustMcp.CommitLog
import RustMcp.GhsaRanges
import RustMcp.RustsecText
import RustMcp.Security

/-! The security sync: for every crate each configured source replaces its own rows of
`advisory_matches` in a transaction, and the crates that all sources checked are reported.
Every call to the database or to a source may fail. -/
namespace RustMcp.SecuritySync
open Str Semver
open Security (SecurityCrateRow SecurityVersionRow AdvisoryMatches OsvVulnerability sourceKey)
open Advisories (CrateAdvisoryRow)
open CommitLog (latest)
open RustsecText (RustSecFrontmatter)

/-! Outcomes. -/

structure SecuritySyncOutcome where
  cratesProcessed : Nat
  advisoriesWritten : Nat
  errors : List Text
  touchedCrates : List Text
  checkedCrateIds : List Int

def SecuritySyncOutcome.empty : SecuritySyncOutcome := ⟨0,0,[],[],[]⟩

def sortDedup {α : Type} [LinearOrder α] (xs : List α) : List α := (Ranking.sortBy id xs).destutter (· ≠ ·)

def SecuritySyncOutcome.merge (outcome other : SecuritySyncOutcome) : SecuritySyncOutcome where
  cratesProcessed := outcome.cratesProcessed + other.cratesProcessed
  advisoriesWritten := outcome.advisoriesWritten + other.advisoriesWritten
  errors := outcome.errors ++ other.errors
  touchedCrates := sortDedup (outcome.touchedCrates ++ other.touchedCrates)
  checkedCrateIds := sortDedup (outcome.checkedCrateIds ++ other.checkedCrateIds)

def SecuritySyncOutcome.failed (outcome : SecuritySyncOutcome) (error : Text) : SecuritySyncOutcome :=
  {outcome with errors := outcome.errors ++ [error]}

def SecuritySyncOutcome.processing (outcome : SecuritySyncOutcome) (krate : SecurityCrateRow) : SecuritySyncOutcome :=
  {outcome with cratesProcessed := outcome.cratesProcessed + 1, touchedCrates := outcome.touchedCrates ++ [krate.name]}

def SecuritySyncOutcome.wrote (outcome : SecuritySyncOutcome) (count : Nat) : SecuritySyncOutcome :=
  {outcome with advisoriesWritten := outcome.advisoriesWritten + count}

def SecuritySyncOutcome.checked (outcome : SecuritySyncOutcome) (krate : SecurityCrateRow) : SecuritySyncOutcome :=
  {outcome with checkedCrateIds := outcome.checkedCrateIds ++ [krate.id]}

/-! The database. -/

inductive Source where
  | osv | ghsa | rustsecDb
  deriving DecidableEq

/-- The values of the `source` column that a source writes. -/
def Source.labels : Source → List Text
  | .osv => ["osv".toList,"rustsec_osv".toList]
  | .ghsa => ["ghsa".toList]
  | .rustsecDb => ["rustsec_db".toList]

def Source.display : Source → Text
  | .osv => "OSV".toList
  | .ghsa => "GHSA".toList
  | .rustsecDb => "RustSec".toList

def owned (source : Source) (crateId : Int) (row : CrateAdvisoryRow) : Bool :=
  row.crateId = crateId && source.labels.contains row.source

def clearAdvisoryMatches (source : Source) (crateId : Int) (table : AdvisoryMatches) : AdvisoryMatches :=
  table.delete (owned source crateId)

def clearGhsaAdvisoryMatches (crateId : Int) (table : AdvisoryMatches) : AdvisoryMatches := clearAdvisoryMatches .ghsa crateId table

def clearRustsecDbAdvisoryMatches (crateId : Int) (table : AdvisoryMatches) : AdvisoryMatches :=
  clearAdvisoryMatches .rustsecDb crateId table

/-- The rows that a source has for a crate. -/
def rowsOf (slot : Source × Int) (table : AdvisoryMatches) : List CrateAdvisoryRow := table.rows.filter (owned slot.1 slot.2)

structure World where
  table : AdvisoryMatches
  /-- the transactions that were carried out, each with the rows of its crate and source -/
  commits : List ((Source × Int) × List CrateAdvisoryRow)
  /-- the number of calls to the outside so far -/
  clock : Nat

def World.tick (w : World) : World := {w with clock := w.clock + 1}

def World.committed (w : World) (source : Source) (crateId : Int) (table : AdvisoryMatches) : World :=
  {w with table := table, commits := w.commits ++ [((source,crateId),rowsOf (source,crateId) table)]}

/-! The sources. -/

structure GhsaPackage where
  ecosystem : Option Text
  name : Option Text

structure GhsaVulnerability where
  package : Option GhsaPackage
  vulnerableVersionRange : Option Text

structure GhsaAdvisory where
  ghsaId : Text
  withdrawnAt : Option Text
  vulnerabilities : List GhsaVulnerability

/-- A file of a crate's directory whose extension is `md`. -/
structure AdvisoryFile where
  display : Text
  fileStem : Option Text
  content : Except Text Text

structure RustsecDb where
  /-- `crates` is a directory -/
  available : Bool
  /-- of the directory of a crate, sorted by path -/
  advisoryMarkdownFiles : Nat → Text → List AdvisoryFile
  /-- `toml::from_str` -/
  fromStr : Text → Except Text RustSecFrontmatter

/-- What is outside. A call is answered by its number, counted over the whole run. -/
structure Env where
  fetchSecurityVersionsForCrate : Nat → Int → Except Text (List SecurityVersionRow)
  queryCrate : Nat → Text → Except Text (List OsvVulnerability)
  fetchAdvisories : Nat → Text → Except Text (List GhsaAdvisory)
  /-- the error of a statement -/
  fails : Nat → Option Text
  /-- a commit that is carried out although it returns an error -/
  lost : Nat → Bool
  rustsecDbDir : Option RustsecDb
  /-- in which order a hash map is iterated -/
  order : Nat → List (Text × Int) → List (Text × Int)

structure Write where
  row : CrateAdvisoryRow
  failure : Text

section
variable (env : Env)

def openTransaction (source : Source) (krate : SecurityCrateRow) (w : World) : World × Except Text AdvisoryMatches :=
  match env.fails w.clock with
  | some e => (w.tick,.error e)
  | none =>
      match env.fails w.tick.clock with
      | some e => (w.tick.tick,.error ("failed to clear ".toList ++ source.display ++ " advisories for ".toList ++ krate.name ++
          ": ".toList ++ e))
      | none => (w.tick.tick,.ok (clearAdvisoryMatches source krate.id w.table))

def upserts : List Write → World → AdvisoryMatches → World × Except Text AdvisoryMatches
  | [],w,table => (w,.ok table)
  | write::writes,w,table =>
      match env.fails w.clock with
      | some e => (w.tick,.error (write.failure ++ e))
      | none => upserts writes w.tick (table.upsert write.row)

/-- Commits, and drops what is cached of the crate. -/
def finish (source : Source) (krate : SecurityCrateRow) (w : World) (table : AdvisoryMatches) (outcome : SecuritySyncOutcome) :
    World × Except Text SecuritySyncOutcome :=
  match env.fails w.clock with
  | some e => ((if env.lost w.clock then w.committed source krate.id table else w).tick,.error e)
  | none =>
      let w := (w.committed source krate.id table).tick
      match env.fails w.clock with
      | some e => (w.tick,.error ("query cache invalidation failed for ".toList ++ krate.name ++ ": ".toList ++ e))
      | none => (w.tick,.ok (outcome.checked krate))

/-- Clears, writes and commits. -/
def replace (source : Source) (krate : SecurityCrateRow) (writes : List Write) (w : World) (outcome : SecuritySyncOutcome) :
    World × Except Text SecuritySyncOutcome :=
  match openTransaction env source krate w with
  | (w,.error e) => (w,.error e)
  | (w,.ok table) =>
      match upserts env writes w table with
      | (w,.error e) => (w,.error e)
      | (w,.ok table) => finish env source krate w table (outcome.wrote writes.length)

def loadVersions (krate : SecurityCrateRow) (w : World) : World × Except Text (List SecurityVersionRow) :=
  (w.tick,(env.fetchSecurityVersionsForCrate w.clock krate.id).mapError fun e =>
    "failed to load versions for ".toList ++ krate.name ++ ": ".toList ++ e)

/-- Crate after crate, until one fails as a whole. -/
def eachCrate (job : SecurityCrateRow → World → SecuritySyncOutcome → World × Except Text SecuritySyncOutcome) :
    List SecurityCrateRow → World → SecuritySyncOutcome → World × Except Text SecuritySyncOutcome
  | [],w,outcome => (w,.ok outcome)
  | krate::crates,w,outcome =>
      match job krate w outcome with
      | (w,.error e) => (w,.error e)
      | (w,.ok outcome) => eachCrate job crates w outcome

end

/-- The writes for an advisory: one for every version found, or one for the crate as a whole. -/
def matchWrites (krate : SecurityCrateRow) (subject : Text) (row : Option Int → CrateAdvisoryRow) (found : List (Text × Int)) :
    List Write :=
  if found.isEmpty then
    [⟨row none,"failed to insert crate-level ".toList ++ subject ++ " for ".toList ++ krate.name ++ ": ".toList⟩]
  else found.map fun version =>
    ⟨row (some version.2),"failed to upsert ".toList ++ subject ++ " for ".toList ++ krate.name ++ '@'::version.1 ++ ": ".toList⟩

def sourceRow (crateId : Int) (advisoryId affectedRange source : Text) (versionId : Option Int) : CrateAdvisoryRow :=
  ⟨false,crateId,versionId,advisoryId,affectedRange,source⟩

/-! OSV. -/

def osvRecordWrites (krate : SecurityCrateRow) (versions : List SecurityVersionRow) (vuln : OsvVulnerability) : List Write :=
  matchWrites krate ("advisory ".toList ++ vuln.id) (Security.matchRow krate.id vuln)
    (vuln.affected.flatMap fun affected => affected.versions.filterMap fun version =>
      (Security.versionMap versions version).map (version,·))

def osvWrites (krate : SecurityCrateRow) (versions : List SecurityVersionRow) (vulns : List OsvVulnerability) : List Write :=
  (Security.keptRecords krate vulns).flatMap (osvRecordWrites krate versions)

def syncOsvCrate (env : Env) (krate : SecurityCrateRow) (w : World) (outcome : SecuritySyncOutcome) :
    World × Except Text SecuritySyncOutcome :=
  match loadVersions env krate w with
  | (w,.error e) => (w,.error e)
  | (w,.ok versions) =>
      match env.queryCrate w.clock krate.name with
      | .error e => (w.tick,.ok (outcome.failed e))
      | .ok vulns => replace env .osv krate (osvWrites krate versions vulns) w.tick (outcome.processing krate)

def syncOsvSecurity (env : Env) (crates : List SecurityCrateRow) (w : World) : World × Except Text SecuritySyncOutcome :=
  eachCrate (syncOsvCrate env) crates w .empty

section
variable {V R : Type} [LinearOrder V] (sv : Package V R)

/-! GHSA. -/

def ghsaConcerns (krate : SecurityCrateRow) (vulnerability : GhsaVulnerability) : Bool :=
  vulnerability.package.any fun package => package.ecosystem = some "rust".toList && package.name = some krate.name

def ghsaAdvisoryWrites (krate : SecurityCrateRow) (versionMap : List (Text × Int)) (advisory : GhsaAdvisory) : List Write :=
  let crateVulns := advisory.vulnerabilities.filter (ghsaConcerns krate)
  match GhsaRanges.affectedRange advisory.withdrawnAt (crateVulns.map GhsaVulnerability.vulnerableVersionRange) with
  | none => []
  | some range =>
      matchWrites krate ("GHSA ".toList ++ advisory.ghsaId) (sourceRow krate.id advisory.ghsaId range "ghsa".toList)
        (versionMap.filter fun version => Advisories.rangeApplicability sv "ghsa".toList range version.1 = .affected)

/-- The version map as it is iterated. -/
def iterated (env : Env) (call : Nat) (versions : List SecurityVersionRow) : List (Text × Int) :=
  env.order call (Keyed.collect SecurityVersionRow.version (fun _ row => some row.id) versions).toList

def ghsaWrites (krate : SecurityCrateRow) (versionMap : List (Text × Int)) (advisories : List GhsaAdvisory) : List Write :=
  advisories.flatMap (ghsaAdvisoryWrites sv krate versionMap)

def syncGhsaCrate (env : Env) (krate : SecurityCrateRow) (w : World) (outcome : SecuritySyncOutcome) :
    World × Except Text SecuritySyncOutcome :=
  match env.fetchAdvisories w.clock krate.name with
  | .error e => (w.tick,.ok (outcome.failed e))
  | .ok advisories =>
      match loadVersions env krate w.tick with
      | (w,.error e) => (w,.error e)
      | (w,.ok versions) =>
          replace env .ghsa krate (ghsaWrites sv krate (iterated env w.clock versions) advisories) w (outcome.processing krate)

def syncGhsaSecurity (env : Env) (crates : List SecurityCrateRow) (w : World) : World × Except Text SecuritySyncOutcome :=
  eachCrate (syncGhsaCrate sv env) crates w .empty

/-! RustSec. -/

def splitTomlFrontmatter (markdown : Text) : Option (Text × Text) := do
  let first := trim (← (lines markdown).head?)
  if first ≠ "+++".toList && first ≠ "---".toList then none
  else do
    let (_,tail) ← splitOnce '\n' markdown
    splitOnceAt ('\n'::first ++ "\n".toList) tail

/-- What a file is read as, or the error that is noted for it. -/
def readAdvisory (db : RustsecDb) (file : AdvisoryFile) : Except Text RustSecFrontmatter :=
  match file.content with
  | .error e => .error ("failed reading advisory file ".toList ++ file.display ++ ": ".toList ++ e)
  | .ok raw =>
      match splitTomlFrontmatter raw with
      | none => .error ("missing TOML frontmatter in ".toList ++ file.display)
      | some (frontmatter,_) =>
          (db.fromStr frontmatter).mapError fun e =>
            "failed parsing TOML frontmatter in ".toList ++ file.display ++ ": ".toList ++ e

def rustsecWrites (krate : SecurityCrateRow) (versions : List SecurityVersionRow) (fileStem : Option Text)
    (parsed : RustSecFrontmatter) : List Write :=
  let advisoryId := (parsed.advisory.id.or fileStem).getD "RUSTSEC-UNKNOWN".toList
  if parsed.advisory.package.any (· ≠ krate.name) then []
  else
    let range := RustsecText.affectedRange parsed
    matchWrites krate ("RustSec advisory ".toList ++ advisoryId) (sourceRow krate.id advisoryId range "rustsec_db".toList)
      ((versions.filter fun version => Advisories.rangeApplicability sv "rustsec_db".toList range version.version = .affected).map
        fun version => (version.version,version.id))

/-- The files of a crate, one after the other; a file that is not read is noted and passed over. -/
def scanFiles (env : Env) (db : RustsecDb) (krate : SecurityCrateRow) (versions : List SecurityVersionRow) :
    List AdvisoryFile → World → AdvisoryMatches → SecuritySyncOutcome → World × Except Text (AdvisoryMatches × SecuritySyncOutcome)
  | [],w,table,outcome => (w,.ok (table,outcome))
  | file::files,w,table,outcome =>
      match readAdvisory db file with
      | .error e => scanFiles env db krate versions files w table (outcome.failed e)
      | .ok parsed =>
          let writes := rustsecWrites sv krate versions file.fileStem parsed
          match upserts env writes w table with
          | (w,.error e) => (w,.error e)
          | (w,.ok table) => scanFiles env db krate versions files w table (outcome.wrote writes.length)

def syncRustsecDbCrate (env : Env) (db : RustsecDb) (krate : SecurityCrateRow) (w : World) (outcome : SecuritySyncOutcome) :
    World × Except Text SecuritySyncOutcome :=
  match loadVersions env krate w with
  | (w,.error e) => (w,.error e)
  | (w,.ok versions) =>
      match openTransaction env .rustsecDb krate w with
      | (w,.error e) => (w,.error e)
      | (w,.ok table) =>
          let files := db.advisoryMarkdownFiles w.clock krate.name
          let begun := outcome.processing krate
          match scanFiles sv env db krate versions files w.tick table begun with
          | (w,.error e) => (w,.error e)
          | (w,.ok (table,scanned)) =>
              -- the transaction is dropped with an advisory unread
              if scanned.errors.length ≠ begun.errors.length then
                (w,.ok {scanned with advisoriesWritten := begun.advisoriesWritten})
              else finish env .rustsecDb krate w table scanned

def syncRustsecDbSecurity (env : Env) (crates : List SecurityCrateRow) (w : World) : World × Except Text SecuritySyncOutcome :=
  match env.rustsecDbDir with
  | none => (w,.ok .empty)
  | some db =>
      if !db.available then (w,.error "RustSec database is unavailable: missing crates directory".toList)
      else
        match eachCrate (syncRustsecDbCrate sv env db) crates w .empty with
        | (w,.error e) => (w,.error e)
        | (w,.ok outcome) => (w,.ok {outcome with touchedCrates := sortDedup outcome.touchedCrates})

/-! All sources. -/

def configured (env : Env) : List Source := [.osv,.ghsa] ++ (if env.rustsecDbDir.isSome then [.rustsecDb] else [])

def syncSource (env : Env) (crates : List SecurityCrateRow) : Source → World → World × Except Text SecuritySyncOutcome
  | .osv => syncOsvSecurity env crates
  | .ghsa => syncGhsaSecurity sv env crates
  | .rustsecDb => syncRustsecDbSecurity sv env crates

/-- The results of the sources; a source is synchronized also after one that failed. -/
def sourceResults (env : Env) (crates : List SecurityCrateRow) :
    List Source → World → World × List (Source × Except Text SecuritySyncOutcome)
  | [],w => (w,[])
  | source::sources,w =>
      let (w,result) := syncSource sv env crates source w
      let (w,results) := sourceResults env crates sources w
      (w,(source,result)::results)

/-- A result is taken into the checked crates and the outcome. -/
def absorb : List Int × SecuritySyncOutcome → Except Text SecuritySyncOutcome → List Int × SecuritySyncOutcome
  | (checked,outcome),.ok source => (checked.filter source.checkedCrateIds.contains,outcome.merge source)
  | (_,outcome),.error error => ([],outcome.failed error)

def syncSecurityCrates (env : Env) (crates : List SecurityCrateRow) (w : World) : World × SecuritySyncOutcome :=
  let (w,results) := sourceResults sv env crates (configured env) w
  let (checked,outcome) := (results.map Prod.snd).foldl absorb ((crates.map SecurityCrateRow.id).dedup,.empty)
  (w,{outcome with checkedCrateIds := Ranking.sortBy id checked, cratesProcessed := crates.length})

end

end RustMcp.SecuritySync
