import RustMcp.Advisories

/-! OSV synchronization of one crate: identities, stored range texts and the
transaction that replaces the OSV-derived rows of `advisory_matches`. -/
namespace RustMcp.Security
open Str
open Advisories (CrateAdvisoryRow)

/-! OSV responses, with the fields the synchronization decides by. -/

structure OsvRangeEvent where
  introduced : Option Text
  fixed : Option Text
  lastAffected : Option Text
  limit : Option Text

structure OsvRange where
  rangeType : Text
  events : List OsvRangeEvent

structure OsvPackage where
  ecosystem : Text
  name : Text

structure OsvAffected where
  package : Option OsvPackage
  versions : List Text
  ranges : List OsvRange

structure OsvVulnerability where
  id : Text
  withdrawn : Option Text
  aliases : List Text
  affected : List OsvAffected

/-- The fields an event carries, in the order they are written. -/
def eventFields (event : OsvRangeEvent) : List (Text × Text) :=
  [("introduced".toList,event.introduced),("fixed".toList,event.fixed),
    ("last_affected".toList,event.lastAffected),("limit".toList,event.limit)].filterMap
    fun field => field.2.map (field.1,·)

def eventPart (field : Text × Text) : Text := field.1 ++ '='::field.2

/-- `none` where the loop breaks at an event without exactly one field. -/
def rangeParts : List OsvRangeEvent → Option (List Text)
  | [] => some []
  | event::rest =>
      if (eventFields event).length ≠ 1 then none
      else (rangeParts rest).map ((eventFields event).map eventPart ++ ·)

def rangeTexts (range : OsvRange) : List Text :=
  match rangeParts range.events with
  -- the parts are cleared, so the type is pushed bare after the marker
  | none => ["osv_invalid_event".toList,range.rangeType]
  | some [] => [range.rangeType]
  | some parts => [range.rangeType ++ '('::(join ",".toList parts ++ ")".toList)]

def affectedRangeText (affected : List OsvAffected) : Text :=
  let ranges := affected.flatMap fun item => item.ranges.flatMap rangeTexts
  if ranges.isEmpty then "osv_affected_unknown".toList else join "; ".toList ranges

def firstRustsecAlias (aliases : List Text) : Option Text := aliases.find? (startsWith "RUSTSEC-".toList)

def advisoryIdentity (vuln : OsvVulnerability) : Text × Text :=
  if startsWith "RUSTSEC-".toList vuln.id then (vuln.id,"rustsec_osv".toList)
  else
    match vuln.withdrawn, firstRustsecAlias vuln.aliases with
    | none, some rustsecId => (rustsecId,"rustsec_osv".toList)
    | _, _ => (vuln.id,"osv".toList)

/-! `advisory_matches`, and the statements of the transaction. -/

structure SecurityCrateRow where
  id : Int
  name : Text

structure SecurityVersionRow where
  id : Int
  version : Text

/-- The columns of `advisory_matches_source_key`, in which nulls are equal. -/
def sourceKey (row : CrateAdvisoryRow) : Int × Option Int × Text × Text :=
  (row.crateId,row.versionId,row.advisoryId,row.source)

abbrev AdvisoryMatches := Keyed.Table sourceKey

def osvSource (source : Text) : Bool := ["osv".toList,"rustsec_osv".toList].contains source

def clearOsvAdvisoryMatches (crateId : Int) (table : AdvisoryMatches) : AdvisoryMatches :=
  table.delete fun row => row.crateId = crateId && osvSource row.source

/-- The id a version string is collected under; a later row replaces an earlier one. -/
def versionMap (versions : List SecurityVersionRow) (version : Text) : Option Int :=
  (Keyed.collect SecurityVersionRow.version (fun _ row => some row.id) versions)[version]?

def concerns (krate : SecurityCrateRow) (affected : OsvAffected) : Bool :=
  affected.package.any fun package =>
    package.ecosystem = "crates.io".toList && (package.name = krate.name || package.name = "*".toList)

/-- The record as it is written, `none` where the loop skips it. -/
def retain (krate : SecurityCrateRow) (vuln : OsvVulnerability) : Option OsvVulnerability :=
  let affected := vuln.affected.filter (concerns krate)
  if vuln.withdrawn.isSome then some {vuln with affected := []}
  else if affected.isEmpty then none
  else some {vuln with affected := affected}

def affectedRange (vuln : OsvVulnerability) : Text :=
  match vuln.withdrawn with
  | some date => "withdrawn=".toList ++ date
  | none => affectedRangeText vuln.affected

def matchedVersions (versions : List SecurityVersionRow) (vuln : OsvVulnerability) : List Int :=
  vuln.affected.flatMap fun affected => affected.versions.filterMap (versionMap versions)

/-- The version columns a record is written under. -/
def versionSlots (versions : List SecurityVersionRow) (vuln : OsvVulnerability) : List (Option Int) :=
  let found := matchedVersions versions vuln
  if found.isEmpty then [none] else found.map some

def matchRow (crateId : Int) (vuln : OsvVulnerability) (versionId : Option Int) : CrateAdvisoryRow :=
  let (advisoryId,source) := advisoryIdentity vuln
  ⟨false,crateId,versionId,advisoryId,affectedRange vuln,source⟩

def keptRecords (krate : SecurityCrateRow) (vulns : List OsvVulnerability) : List OsvVulnerability :=
  vulns.filterMap (retain krate)

def recordRows (krate : SecurityCrateRow) (versions : List SecurityVersionRow) (vuln : OsvVulnerability) :
    List CrateAdvisoryRow :=
  (versionSlots versions vuln).map (matchRow krate.id vuln)

def syncOsvSecurity (krate : SecurityCrateRow) (versions : List SecurityVersionRow)
    (vulns : List OsvVulnerability) (table : AdvisoryMatches) : AdvisoryMatches :=
  (clearOsvAdvisoryMatches krate.id table).upsertAll ((keptRecords krate vulns).flatMap (recordRows krate versions))

/-- The rows that a crate's reports are computed from. -/
def fetchAdvisoryRows (crateId : Int) (table : AdvisoryMatches) : List CrateAdvisoryRow :=
  table.rows.filter fun row => row.crateId = crateId

end RustMcp.Security
