import RustMcp.Keyed
import RustMcp.Ranking
import RustMcp.Semver

/-! Advisory applicability: whether a stored advisory affects a crate version.
Range texts are evaluated as stored, in the format of their source. -/
namespace RustMcp.Advisories
open Str Semver

inductive Applicability where
  | affected | notAffected | unknown
  deriving DecidableEq

/-- An `advisory_matches` row; the columns that only describe the advisory are
left out. Primary keys are `i64`. -/
structure CrateAdvisoryRow where
  requiresResync : Bool
  crateId : Int
  versionId : Option Int
  advisoryId : Text
  affectedRange : Text
  source : Text

def isWithdrawn (affectedRange : Text) : Bool :=
  (split "; ".toList affectedRange).any (startsWith "withdrawn=".toList)

/-! OSV ranges, rendered as `TYPE(introduced=..,fixed=..)` joined by `; `. -/

inductive OsvEvent where
  | introduced | fixed | lastAffected
  deriving DecidableEq

/-- Declaration order, which the derived `Ord` follows. -/
def OsvEvent.rank : OsvEvent → Nat
  | .introduced => 0
  | .fixed => 1
  | .lastAffected => 2

/-- `None` is below every version in transitions and above them in limits. -/
structure OsvRange (V : Type) where
  events : List (WithBot V × OsvEvent)
  limits : List (Option V)

section
variable {V R : Type} (sv : Package V R)

def osvEventKind (kind : Text) : Option OsvEvent :=
  if kind = "introduced".toList then some .introduced
  else if kind = "fixed".toList then some .fixed
  else if kind = "last_affected".toList then some .lastAffected
  else none

def readOsvEvent (range : OsvRange V) (event : Text) : Option (OsvRange V) := do
  let (kind,value) ← splitOnce '=' (trim event)
  if kind = "limit".toList then
    if value.contains '*' then some {range with limits := range.limits ++ [none]}
    else do
      let bound ← parseSemverForMatching sv value
      some {range with limits := range.limits ++ [some bound]}
  else do
    let kind ← osvEventKind kind
    if kind = .introduced ∧ value = "0".toList then
      some {range with events := range.events ++ [(⊥,kind)]}
    else do
      let bound ← parseSemverForMatching sv value
      some {range with events := range.events ++ [((bound : WithBot V),kind)]}

def OsvRange.has (range : OsvRange V) (kind : OsvEvent) : Bool := range.events.any (fun e => e.2 = kind)

def eventKey (event : WithBot V × OsvEvent) : WithBot V ×ₗ Nat := toLex (event.1,event.2.rank)

variable [LinearOrder V]

def parseOsvEvents (text : Text) : Option (OsvRange V) := do
  let range ← (split ",".toList text).foldlM (readOsvEvent sv) ⟨[],[]⟩
  if !range.has .introduced || (range.has .fixed && range.has .lastAffected) then none
  else some {range with events := Ranking.sortBy eventKey range.events}

def applyOsvEvent (version : V) (affected : Bool) (event : WithBot V × OsvEvent) : Bool :=
  match event.2 with
  | .introduced => if event.1 ≤ version then true else affected
  | .fixed => if event.1 ≤ version then false else affected
  | .lastAffected => if event.1 ≠ ⊥ ∧ event.1 < version then false else affected

def osvRangeAffects (range : OsvRange V) (version : V) : Bool :=
  if !range.limits.isEmpty && !range.limits.any (fun limit => limit.all (fun bound => version < bound)) then false
  else range.events.foldl (applyOsvEvent version) false

def readOsvRange (range : Text) : Option (OsvRange V) := do
  let rest ← (stripPrefix "SEMVER(".toList range).orElse fun _ => stripPrefix "ECOSYSTEM(".toList range
  let events ← stripSuffix ")".toList rest
  parseOsvEvents sv events

/-- The loop over the ranges; `unknown` is what the ranges before leave open. -/
def osvRanges (version : V) : Bool → List Text → Applicability
  | unknown, [] => if unknown then .unknown else .notAffected
  | unknown, range::rest =>
      match readOsvRange sv range with
      | some events => if osvRangeAffects events version then .affected else osvRanges version unknown rest
      | none => osvRanges version true rest

def osvApplicability (affectedRange : Text) (version : V) : Applicability :=
  osvRanges sv version false (split "; ".toList affectedRange)

/-! RustSec ranges, rendered as `patched=a | b; unaffected=c; withdrawn=..`. -/

def readRustsecClause (lists : List R × List R) (clause : Text) : Option (List R × List R) := do
  let (key,value) ← splitOnce '=' clause
  if key = "categories".toList then some lists
  else if key = "patched".toList then do
    let requirements ← (split " | ".toList value).mapM sv.parseReq
    some (lists.1 ++ requirements,lists.2)
  else if key = "unaffected".toList then do
    let requirements ← (split " | ".toList value).mapM sv.parseReq
    some (lists.1,lists.2 ++ requirements)
  else none

omit [LinearOrder V] in
def rustsecApplicability (affectedRange : Text) (version : V) : Applicability :=
  if isWithdrawn affectedRange then .notAffected
  else
    match ((split "; ".toList affectedRange).filter (fun clause => !clause.isEmpty)).foldlM
        (readRustsecClause sv) ([],[]) with
    | none => .unknown
    | some (patched,unaffected) =>
        match sv.isVulnerable patched unaffected version with
        | some true => .affected
        | some false => .notAffected
        | none => .unknown

/-! GHSA ranges: comma-separated comparators, alternatives joined by ` || `. -/

def ghsaOperator (comparator : Text) : Option (Text × Text) :=
  [">=".toList,"<=".toList,">".toList,"<".toList,"=".toList].findSome? fun op =>
    (stripPrefix op comparator).map fun bound => (op,trim bound)

def ghsaHolds (operator : Text) (version bound : V) : Bool :=
  if operator = ">=".toList then bound ≤ version
  else if operator = "<=".toList then version ≤ bound
  else if operator = ">".toList then bound < version
  else if operator = "<".toList then version < bound
  else version = bound

/-- `None` where the comparator does not parse. -/
def ghsaComparator (version : V) (comparator : Text) : Option Bool := do
  let (operator,bound) ← ghsaOperator (trim comparator)
  let bound ← parseSemverForMatching sv bound
  some (ghsaHolds operator version bound)

def ghsaRanges (version : V) : Bool → List Text → Applicability
  | unknown, [] => if unknown then .unknown else .notAffected
  | unknown, range::rest =>
      let comparators := (split ",".toList range).map (ghsaComparator sv version)
      let valid := comparators.all Option.isSome
      let holds := comparators.all (fun c => c.getD true)
      if valid && holds then .affected else ghsaRanges version (unknown || !valid) rest

def ghsaApplicability (ranges : Text) (version : V) : Applicability :=
  ghsaRanges sv version false (split " || ".toList ranges)

/-- Evaluates an advisory's stored range text against `version`. -/
def rangeApplicability (source affectedRange version : Text) : Applicability :=
  if isWithdrawn affectedRange then .notAffected
  else
    match parseSemverForMatching sv version with
    | none => .unknown
    | some version =>
      if contains "SEMVER(".toList affectedRange || contains "ECOSYSTEM(".toList affectedRange then
        osvApplicability sv affectedRange version
      else if source = "rustsec_db".toList ||
          ["patched=".toList,"unaffected=".toList,"withdrawn=".toList].any (fun key => contains key affectedRange) then
        rustsecApplicability sv affectedRange version
      else if source = "ghsa".toList then ghsaApplicability sv affectedRange version
      else .unknown

/-! One entry an advisory id, merged across the stored rows. -/

structure VersionAdvisory where
  applicability : Applicability
  row : CrateAdvisoryRow

def versionKey : Option Int → WithBot Int
  | none => ⊥
  | some id => id

/-- Stable representatives, independent of database row order. -/
def rowKey (row : CrateAdvisoryRow) : Text ×ₗ Text ×ₗ WithBot Int :=
  toLex (row.source,toLex (row.affectedRange,versionKey row.versionId))

def rowApplicability (versionId : Int) (version : Text) (row : CrateAdvisoryRow) : Applicability :=
  if row.requiresResync then .unknown
  else if row.versionId = some versionId then .affected
  else rangeApplicability sv row.source row.affectedRange version

def priority (versionId : Int) (advisory : VersionAdvisory) : Bool ×ₗ Bool :=
  toLex (decide (advisory.applicability = .affected),decide (advisory.row.versionId = some versionId))

def candidate (versionId : Int) (version : Text) (row : CrateAdvisoryRow) : Option VersionAdvisory :=
  let applicability := rowApplicability sv versionId version row
  if applicability = .notAffected then none else some ⟨applicability,row⟩

def withdraws (row : CrateAdvisoryRow) : Bool := !row.requiresResync && isWithdrawn row.affectedRange

def selectAdvisory (versionId : Int) (version : Text) (rows : List CrateAdvisoryRow) : Option VersionAdvisory :=
  let rows := Ranking.sortBy rowKey rows
  if rows.any withdraws then none
  else Ranking.best (priority versionId) (rows.filterMap (candidate sv versionId version))

def advisoriesForVersion (rows : List CrateAdvisoryRow) (versionId : Int) (version : Text) : List VersionAdvisory :=
  let byId := Keyed.collect CrateAdvisoryRow.advisoryId Keyed.pushGroup rows
  byId.toList.filterMap fun group => selectAdvisory sv versionId version group.2

structure AdvisoryCounts where
  affected : Nat
  unknown : Nat
  deriving DecidableEq

def countAdvisory (counts : AdvisoryCounts) (advisory : VersionAdvisory) : AdvisoryCounts :=
  match advisory.applicability with
  | .affected => {counts with affected := counts.affected + 1}
  | .unknown => {counts with unknown := counts.unknown + 1}
  | .notAffected => counts

def advisoryCounts (rows : List CrateAdvisoryRow) (versionId : Int) (version : Text) : AdvisoryCounts :=
  (advisoriesForVersion sv rows versionId version).foldl countAdvisory ⟨0,0⟩

end
end RustMcp.Advisories
