import RustMcp.Keyed
import RustMcp.Ranking
import RustMcp.Str

/-! Comparing the public symbols of two versions: the query that picks one row a
name and kind, and the summary built from the picked rows. -/
namespace RustMcp.ApiDiff
open Str (Text)

/-- A `symbols` row, with the columns the comparison reads. -/
structure SymbolRow where
  id : Int
  crateVersionId : Int
  name : Text
  kind : Text
  signature : Option Text
  visibility : Option Text
  startLine : Int
  endLine : Int
  indexSource : Text

abbrev Symbols := Keyed.Table SymbolRow.id

structure ApiDiffSymbolRow where
  name : Text
  kind : Text
  signature : Option Text
  visibility : Option Text
  indexSource : Text
  deriving DecidableEq

def SymbolRow.apiRow (row : SymbolRow) : ApiDiffSymbolRow :=
  ⟨row.name,row.kind,row.signature,row.visibility,row.indexSource⟩

def visible (row : SymbolRow) : Bool := row.visibility = some "public".toList || row.visibility = none

def rowKey (row : ApiDiffSymbolRow) : Text ×ₗ Text := toLex (row.name,row.kind)

/-- `CASE WHEN index_source = 'rustdoc_json' THEN 0 ELSE 1 END` -/
def sourceRank (row : ApiDiffSymbolRow) : Nat := if row.indexSource = "rustdoc_json".toList then 0 else 1

/-- `CASE WHEN signature IS NULL THEN 1 ELSE 0 END` -/
def signatureRank (row : ApiDiffSymbolRow) : Nat := if row.signature = none then 1 else 0

def contentRank (row : ApiDiffSymbolRow) : Nat ×ₗ Nat := toLex (sourceRank row,signatureRank row)

def layoutRank (row : SymbolRow) : Int ×ₗ Int ×ₗ Int := toLex (row.startLine,toLex (row.endLine,row.id))

def orderKey (row : SymbolRow) : (Text ×ₗ Text) ×ₗ (Nat ×ₗ Nat) ×ₗ Int ×ₗ Int ×ₗ Int :=
  toLex (rowKey row.apiRow,toLex (contentRank row.apiRow,layoutRank row))

def keepFirst {α β : Type} (read : α → β) (kept : Option β) (x : α) : Option β := some (kept.getD (read x))

def visibleRows (symbols : Symbols) (crateVersionId : Int) : List SymbolRow :=
  symbols.rows.filter fun row => row.crateVersionId = crateVersionId && visible row

/-- `DISTINCT ON (name, kind)` keeps the first row of each group. -/
def listApiDiffSymbolsForVersion (symbols : Symbols) (crateVersionId : Int) : List ApiDiffSymbolRow :=
  (Keyed.collect (fun row => rowKey row.apiRow) (keepFirst SymbolRow.apiRow)
    (Ranking.sortBy orderKey (visibleRows symbols crateVersionId))).toList.map Prod.snd

/-! The symbols of a version, by name and kind. -/

structure SymbolFingerprint where
  signature : Option Text
  visibility : Option Text
  deriving DecidableEq

def normalizeSignature (value : Option Text) : Option Text :=
  (value.map Str.trim).filter (fun v => !v.isEmpty)

def normalizeVisibility (value : Option Text) : Option Text :=
  (value.map fun v => Str.toAsciiLowercase (Str.trim v)).filter (fun v => !v.isEmpty)

def symbolRowPriority (row : ApiDiffSymbolRow) : Nat :=
  (if row.indexSource = "rustdoc_json".toList then 4 else 0) +
  (if (normalizeSignature row.signature).isSome then 2 else 0) +
  (if (normalizeVisibility row.visibility).isSome then 1 else 0)

def keepHigher (kept : Option (Nat × ApiDiffSymbolRow)) (row : ApiDiffSymbolRow) : Option (Nat × ApiDiffSymbolRow) :=
  match kept with
  | some (priority,existing) =>
      if priority ≥ symbolRowPriority row then some (priority,existing) else some (symbolRowPriority row,row)
  | none => some (symbolRowPriority row,row)

def prioritizeSymbolRows (rows : List ApiDiffSymbolRow) : List ApiDiffSymbolRow :=
  ((Keyed.collect rowKey keepHigher rows).toList.map Prod.snd).map Prod.snd

def fingerprint (row : ApiDiffSymbolRow) : SymbolFingerprint :=
  ⟨normalizeSignature row.signature,normalizeVisibility row.visibility⟩

abbrev SymbolMap := Keyed.Map (Text ×ₗ Text) SymbolFingerprint

def mapSymbols (rows : List ApiDiffSymbolRow) : SymbolMap :=
  Keyed.collect rowKey (keepFirst fingerprint) (prioritizeSymbolRows rows)

/-! The summary. -/

inductive ChangeType where
  | added | removed | signatureChanged | visibilityChanged
  deriving DecidableEq

structure CrateApiDiffChange where
  name : Text
  kind : Text
  changeType : ChangeType
  fromSignature : Option Text
  toSignature : Option Text
  fromVisibility : Option Text
  toVisibility : Option Text
  breakingChange : Bool
  deriving DecidableEq

inductive ConfidenceLevel where
  | low | medium | high

structure ConfidenceAssessment where
  level : ConfidenceLevel
  reason : Text

structure ApiDiffSummary where
  addedCount : Nat
  removedCount : Nat
  changedCount : Nat
  breakingChangesDetected : Bool
  changes : List CrateApiDiffChange
  confidenceAssessment : ConfidenceAssessment

/-- What the two loops have counted so far. -/
structure Tally where
  changes : List CrateApiDiffChange
  added : Nat
  removed : Nat
  changed : Nat
  breaking : Bool
  missingSignatures : Nat

def Tally.start : Tally := ⟨[],0,0,0,false,0⟩

def changeSortRank : ChangeType → Nat
  | .removed => 0
  | .visibilityChanged => 1
  | .signatureChanged => 2
  | .added => 3

def changeKey (change : CrateApiDiffChange) : Nat ×ₗ Text ×ₗ Text :=
  toLex (changeSortRank change.changeType,toLex (change.name,change.kind))

def compareSymbol (toMap : SymbolMap) (tally : Tally) (entry : (Text ×ₗ Text) × SymbolFingerprint) : Tally :=
  let (key,fromSymbol) := entry
  let (name,kind) := ofLex key
  match toMap[key]? with
  | none =>
      {tally with
        removed := tally.removed + 1, breaking := true,
        changes := tally.changes ++
          [⟨name,kind,.removed,fromSymbol.signature,none,fromSymbol.visibility,none,true⟩]}
  | some toSymbol =>
      let visibilityChanged := decide (fromSymbol.visibility ≠ toSymbol.visibility)
      let signatureChanged := decide (fromSymbol.signature ≠ toSymbol.signature)
      if !(visibilityChanged || signatureChanged) then tally
      else
        let downgraded :=
          decide (fromSymbol.visibility = some "public".toList ∧ toSymbol.visibility = some "private".toList)
        let missing := fromSymbol.signature.isNone || toSymbol.signature.isNone
        let breakingChange := downgraded || signatureChanged
        {tally with
          changed := tally.changed + 1,
          missingSignatures := if missing then tally.missingSignatures + 1 else tally.missingSignatures,
          breaking := tally.breaking || breakingChange,
          changes := tally.changes ++
            [⟨name,kind,if visibilityChanged then .visibilityChanged else .signatureChanged,fromSymbol.signature,
              toSymbol.signature,fromSymbol.visibility,toSymbol.visibility,breakingChange⟩]}

def addSymbol (fromMap : SymbolMap) (tally : Tally) (entry : (Text ×ₗ Text) × SymbolFingerprint) : Tally :=
  let (key,toSymbol) := entry
  let (name,kind) := ofLex key
  match fromMap[key]? with
  | some _ => tally
  | none =>
      {tally with
        added := tally.added + 1,
        changes := tally.changes ++ [⟨name,kind,.added,none,toSymbol.signature,none,toSymbol.visibility,false⟩]}

def assessConfidence (fromMap toMap : SymbolMap) (missingSignatures : Nat) : ConfidenceAssessment :=
  if fromMap.toList.isEmpty || toMap.toList.isEmpty then
    ⟨.low,"one or both versions have no indexed public symbols".toList⟩
  else if missingSignatures > 0 then
    ⟨.medium,(Nat.repr missingSignatures).toList ++ " changed symbols lack complete signatures".toList⟩
  else ⟨.high,"public symbol snapshots available for both versions".toList⟩

def tallyMaps (fromMap toMap : SymbolMap) : Tally :=
  toMap.toList.foldl (addSymbol fromMap) (fromMap.toList.foldl (compareSymbol toMap) Tally.start)

def buildDiffSummary (fromRows toRows : List ApiDiffSymbolRow) : ApiDiffSummary :=
  let fromMap := mapSymbols fromRows
  let toMap := mapSymbols toRows
  let tally := tallyMaps fromMap toMap
  ⟨tally.added,tally.removed,tally.changed,tally.breaking,Ranking.sortBy changeKey tally.changes,
    assessConfidence fromMap toMap tally.missingSignatures⟩

def crateApiDiff (symbols : Symbols) (fromId toId : Int) : ApiDiffSummary :=
  buildDiffSummary (listApiDiffSymbolsForVersion symbols fromId) (listApiDiffSymbolsForVersion symbols toId)

/-! The two loops leave the tally alone exactly where the maps agree. -/

theorem compareSame {toMap : SymbolMap} {entries : List ((Text ×ₗ Text) × SymbolFingerprint)}
    (same : ∀ e ∈ entries, toMap[e.1]? = some e.2) (tally : Tally) :
    entries.foldl (compareSymbol toMap) tally = tally := by
  induction entries generalizing tally with
  | nil => rfl
  | cons e rest ih =>
    have step : compareSymbol toMap tally e = tally := by
      simp [compareSymbol,same e List.mem_cons_self]
    rw [List.foldl_cons,step]
    exact ih (fun x mem => same x (List.mem_cons_of_mem _ mem)) tally

theorem addSame {fromMap : SymbolMap} {entries : List ((Text ×ₗ Text) × SymbolFingerprint)}
    (same : ∀ e ∈ entries, fromMap[e.1]? ≠ none) (tally : Tally) : entries.foldl (addSymbol fromMap) tally = tally := by
  induction entries generalizing tally with
  | nil => rfl
  | cons e rest ih =>
    have step : addSymbol fromMap tally e = tally := by
      cases found : fromMap[e.1]? with
      | none => exact absurd found (same e List.mem_cons_self)
      | some _ => simp [addSymbol,found]
    rw [List.foldl_cons,step]
    exact ih (fun x mem => same x (List.mem_cons_of_mem _ mem)) tally

theorem compareStep (toMap : SymbolMap) (tally : Tally) (entry : (Text ×ₗ Text) × SymbolFingerprint) :
    (compareSymbol toMap tally entry).removed + (compareSymbol toMap tally entry).changed =
      tally.removed + tally.changed + (if toMap[entry.1]? = some entry.2 then 0 else 1) := by
  obtain ⟨key,fromSymbol⟩ := entry
  unfold compareSymbol
  cases found : toMap[key]? with
  | none =>
    simp only [found,reduceCtorEq,if_false]
    omega
  | some toSymbol =>
    simp only [found,Option.some.injEq]
    split
    · rename_i kept
      have same : toSymbol = fromSymbol := by
        obtain ⟨_,_⟩ := fromSymbol
        obtain ⟨_,_⟩ := toSymbol
        simp only [ne_eq,decide_not,Bool.not_or,Bool.not_not,Bool.and_eq_true,decide_eq_true_eq] at kept
        rw [kept.1,kept.2]
      rw [if_pos same]
      omega
    · rename_i moved
      have differ : toSymbol ≠ fromSymbol := by
        rintro rfl
        simp at moved
      rw [if_neg differ]
      exact (Nat.add_assoc _ _ _).symm

/-- Entries that differ are counted as removed or changed. -/
theorem compareCounts (toMap : SymbolMap) (entries : List ((Text ×ₗ Text) × SymbolFingerprint)) (tally : Tally) :
    (entries.foldl (compareSymbol toMap) tally).removed + (entries.foldl (compareSymbol toMap) tally).changed =
      tally.removed + tally.changed + entries.countP (fun e => decide (toMap[e.1]? ≠ some e.2)) := by
  induction entries generalizing tally with
  | nil => simp
  | cons e rest ih =>
    rw [List.foldl_cons,ih,compareStep,List.countP_cons]
    by_cases same : toMap[e.1]? = some e.2
    · simp [same]
    · simp [same]; omega

theorem addCounts (fromMap : SymbolMap) (entries : List ((Text ×ₗ Text) × SymbolFingerprint)) (tally : Tally) :
    (entries.foldl (addSymbol fromMap) tally).added =
        tally.added + entries.countP (fun e => decide (fromMap[e.1]? = none)) ∧
    (entries.foldl (addSymbol fromMap) tally).removed = tally.removed ∧
    (entries.foldl (addSymbol fromMap) tally).changed = tally.changed := by
  induction entries generalizing tally with
  | nil => simp
  | cons e rest ih =>
    obtain ⟨added,removed,changed⟩ := ih (addSymbol fromMap tally e)
    rw [List.foldl_cons,added,removed,changed,List.countP_cons]
    cases found : fromMap[e.1]? with
    | none => simp [addSymbol,found]; omega
    | some _ => simp [addSymbol,found]

def NoChange (summary : ApiDiffSummary) : Prop :=
  summary.addedCount = 0 ∧ summary.removedCount = 0 ∧ summary.changedCount = 0 ∧ summary.changes = [] ∧
  summary.breakingChangesDetected = false

theorem noChangeIff (fromRows toRows : List ApiDiffSymbolRow) :
    NoChange (buildDiffSummary fromRows toRows) ↔ ∀ k : Text ×ₗ Text, (mapSymbols fromRows)[k]? = (mapSymbols toRows)[k]? := by
  generalize fromIs : mapSymbols fromRows = fromMap
  generalize toIs : mapSymbols toRows = toMap
  simp only [NoChange,buildDiffSummary,tallyMaps,fromIs,toIs]
  constructor
  · rintro ⟨noneAdded,noneRemoved,noneChanged,_,_⟩ k
    obtain ⟨added,removed,changed⟩ := addCounts fromMap toMap.toList (fromMap.toList.foldl (compareSymbol toMap) Tally.start)
    have compared := compareCounts toMap fromMap.toList Tally.start
    rw [added] at noneAdded
    rw [removed] at noneRemoved
    rw [changed] at noneChanged
    have keptEntries : ∀ e ∈ fromMap.toList, toMap[e.1]? = some e.2 := by
      have := List.countP_eq_zero.mp (Nat.add_eq_zero_iff.mp (compared.symm.trans (by rw [noneRemoved,noneChanged]))).2
      simpa using this
    have knownEntries : ∀ e ∈ toMap.toList, fromMap[e.1]? ≠ none := by
      have := List.countP_eq_zero.mp (Nat.add_eq_zero_iff.mp noneAdded).2
      simpa using this
    cases left : fromMap[k]? with
    | some v => exact (keptEntries (k,v) (Keyed.mapMem.mpr left)).symm
    | none =>
      cases right : toMap[k]? with
      | none => rfl
      | some v => exact absurd left (knownEntries (k,v) (Keyed.mapMem.mpr right))
  · intro same
    have kept : ∀ e ∈ fromMap.toList, toMap[e.1]? = some e.2 := fun e mem =>
      (same e.1).symm.trans (Keyed.mapMem.mp mem)
    have known : ∀ e ∈ toMap.toList, fromMap[e.1]? ≠ none := fun e mem => by
      rw [same e.1,Keyed.mapMem.mp mem]
      exact Option.some_ne_none _
    rw [compareSame kept,addSame known]
    exact ⟨rfl,rfl,rfl,rfl,rfl⟩

end RustMcp.ApiDiff
