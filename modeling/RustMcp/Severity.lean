import RustMcp.Str

/-! The severity label of an advisory, and the CVSS texts that it is computed from. -/
namespace RustMcp.Severity
open Str

/-- `f64` as far as severities need it, in its order: what texts parse to, and the bounds of the bands. -/
structure Floats (F : Type) where
  parse : Text → Option F
  zero : F
  four : F
  seven : F
  nine : F

structure OsvSeverity where
  severityType : Option Text
  score : Option Text

structure OsvDatabaseSpecific where
  severity : Option Text

def tokenChar (ch : Char) : Bool := ch.isDigit || ch = '.'

/-- The first run of digits and dots, of which `token` has been read. -/
def firstToken (token : Text) : Text → Text
  | [] => token
  | ch::rest =>
      if tokenChar ch then firstToken (token ++ [ch]) rest
      else if token.isEmpty then firstToken token rest
      else token

/-- The labels that a database may give. -/
def databaseLabel (databaseSpecific : Option OsvDatabaseSpecific) : Option Text :=
  ((databaseSpecific.bind OsvDatabaseSpecific.severity).map toAsciiLowercase).filter fun lower =>
    ["critical".toList,"high".toList,"medium".toList,"low".toList,"unknown".toList].contains lower

def kindLabel (item : OsvSeverity) : Option Text :=
  (item.severityType.map toAsciiLowercase).filter fun kind =>
    ["critical".toList,"high".toList,"medium".toList,"low".toList].any fun word => contains word kind

section
variable {F : Type} (floats : Floats F)

def extractFirstFloat (text : Text) : Option F :=
  let token := firstToken [] text
  if token.isEmpty then none else floats.parse token

variable [LinearOrder F]

def severityBand (score : F) : Text :=
  if floats.nine ≤ score then "critical".toList
  else if floats.seven ≤ score then "high".toList
  else if floats.four ≤ score then "medium".toList
  else if floats.zero < score then "low".toList
  else "unknown".toList

def scoreLabel (text : Text) : Option Text := (extractFirstFloat floats text).map (severityBand floats)

def itemLabel (item : OsvSeverity) : Option Text := (item.score.bind (scoreLabel floats)).or (kindLabel item)

def normalizeSeverityLabel (severity : List OsvSeverity) (databaseSpecific : Option OsvDatabaseSpecific) : Option Text :=
  (databaseLabel databaseSpecific).or (severity.findSome? (itemLabel floats))

/-- The severity of an advisory of the RustSec database, from its `cvss`. -/
def rustsecSeverity (cvss : Option Text) : Option Text := cvss.bind (scoreLabel floats)

end

/-! CVSS texts. -/

section
variable {F : Type} (floats : Floats F)

structure Decimal where
  text : Text
  value : F
  some_ : text ≠ []
  chars : text.all tokenChar = true
  parsed : floats.parse text = some value

structure Vector where
  specVersion : Decimal floats
  metrics : Text
  clean : ' ' ∉ metrics

inductive ScoreText where
  | plain (score : Decimal floats)
  | vector (v : Vector floats) (score : Option (Decimal floats))

end

section
variable {F : Type} {floats : Floats F}

def ScoreText.text : ScoreText floats → Text
  | .plain score => score.text
  | .vector v score => "CVSS:".toList ++ (v.specVersion.text ++ '/'::(v.metrics ++ score.elim [] fun score => ' '::score.text))

def ScoreText.score : ScoreText floats → Option (Decimal floats)
  | .plain score => some score
  | .vector _ score => score

def ScoreText.withSpecVersion (specVersion : Decimal floats) : ScoreText floats → ScoreText floats
  | .plain score => .plain score
  | .vector v score => .vector {v with specVersion := specVersion} score

theorem firstTokenRun {token : Text} (run : token.all tokenChar = true) (before : Text) (rest : Text) :
    firstToken before (token ++ rest) = firstToken (before ++ token) rest := by
  induction token generalizing before with
  | nil => simp
  | cons c cs ih =>
    obtain ⟨here,later⟩ := Bool.and_eq_true_iff.mp (List.all_cons.symm.trans run)
    rw [List.cons_append,firstToken,if_pos here,ih later,List.append_assoc]
    rfl

theorem firstTokenEnd {token : Text} (some_ : token ≠ []) {c : Char} (other : tokenChar c = false) (rest : Text) :
    firstToken token (c::rest) = token := by
  rw [firstToken,if_neg (by simp [other]),if_neg (by simpa using some_)]

theorem plainToken (score : Decimal floats) : extractFirstFloat floats score.text = some score.value := by
  have run := firstTokenRun score.chars [] []
  rw [List.append_nil,List.nil_append,firstToken] at run
  rw [extractFirstFloat,run]
  simp only [List.isEmpty_iff,score.some_,if_false,score.parsed]

/-- The first digits of a vector are those of its specification's version. -/
theorem vectorToken (vector : Vector floats) (score : Option (Decimal floats)) :
    extractFirstFloat floats (ScoreText.vector vector score).text = some vector.specVersion.value := by
  have lead : ∀ rest, firstToken [] ("CVSS:".toList ++ rest) = firstToken [] rest := fun _ => rfl
  have slash : tokenChar '/' = false := by decide
  rw [extractFirstFloat,ScoreText.text,lead,firstTokenRun vector.specVersion.chars,List.nil_append,
    firstTokenEnd vector.specVersion.some_ slash]
  simp only [List.isEmpty_iff,vector.specVersion.some_,if_false,vector.specVersion.parsed]

end

section
variable {F : Type} [LinearOrder F] (floats : Floats F)

/-- What is relied on of `f64`. -/
structure Floats.Documented : Prop where
  ordered : floats.four < floats.seven ∧ floats.seven < floats.nine
  three : ∃ x, floats.parse "3.1".toList = some x ∧ floats.zero < x ∧ x < floats.four
  fourth : floats.parse "4.0".toList = some floats.four

/-- Where a score text stands among the severities of a record: no database label, and no label before it. -/
structure Place where
  before : List OsvSeverity
  kind : Option Text
  after : List OsvSeverity
  databaseSpecific : Option OsvDatabaseSpecific
  quiet : ∀ item ∈ before, itemLabel floats item = none
  unlabelled : databaseLabel databaseSpecific = none

def Place.label {floats : Floats F} (place : Place floats) (text : Text) : Option Text :=
  normalizeSeverityLabel floats (place.before ++ ⟨place.kind,some text⟩::place.after) place.databaseSpecific

/-- Both callers give the band of the score. -/
def LabelsScore {floats : Floats F} (place : Place floats) (text : ScoreText floats) : Prop :=
  ∀ score, text.score = some score → place.label text.text = some (severityBand floats score.value) ∧
    rustsecSeverity floats (some text.text) = some (severityBand floats score.value)

/-- Neither label depends on the version of the specification. -/
def SpecFree {floats : Floats F} (place : Place floats) (text : ScoreText floats) : Prop :=
  ∀ specVersion, place.label (text.withSpecVersion specVersion).text = place.label text.text ∧
    rustsecSeverity floats (some (text.withSpecVersion specVersion).text) = rustsecSeverity floats (some text.text)

end

section
variable {F : Type} [LinearOrder F] {floats : Floats F}

theorem placeLabel (place : Place floats) {text : Text} {score : F} (found : extractFirstFloat floats text = some score) :
    place.label text = some (severityBand floats score) := by
  have here : itemLabel floats ⟨place.kind,some text⟩ = some (severityBand floats score) := by
    rw [itemLabel,Option.bind_some,scoreLabel,found]
    rfl
  rw [Place.label,normalizeSeverityLabel,place.unlabelled,Option.none_or,List.findSome?_append,
    List.findSome?_eq_none_iff.mpr place.quiet,Option.none_or,List.findSome?_cons,here]

theorem rustsecLabel {text : Text} {score : F} (found : extractFirstFloat floats text = some score) :
    rustsecSeverity floats (some text) = some (severityBand floats score) := by
  rw [rustsecSeverity,Option.bind_some,scoreLabel,found,Option.map_some]

theorem labelsScoreIff (place : Place floats) (text : ScoreText floats) : LabelsScore place text ↔
    ∀ vector score, text = .vector vector (some score) →
      severityBand floats vector.specVersion.value = severityBand floats score.value := by
  cases text with
  | plain score =>
    refine ⟨fun _ _ _ other => by contradiction,fun _ found same => ?_⟩
    cases Option.some.inj same
    exact ⟨placeLabel place (plainToken score),rustsecLabel (plainToken score)⟩
  | vector vector found =>
    have labelled := placeLabel place (vectorToken vector found)
    have rustsec := rustsecLabel (vectorToken vector found)
    constructor
    · rintro labels _ score ⟨⟩
      exact Option.some.inj (labelled.symm.trans (labels score rfl).1)
    · rintro same score rfl
      rw [labelled,rustsec,same vector score rfl]
      exact ⟨rfl,rfl⟩

theorem decimalsApart (documented : floats.Documented) : ∃ low medium : Decimal floats,
    severityBand floats low.value = "low".toList ∧ severityBand floats medium.value = "medium".toList := by
  obtain ⟨x,three,above,below⟩ := documented.three
  have seven := documented.ordered.1
  have nine := seven.trans documented.ordered.2
  refine ⟨⟨"3.1".toList,x,by decide,by decide,three⟩,⟨"4.0".toList,floats.four,by decide,by decide,documented.fourth⟩,?_,?_⟩
  · rw [severityBand,if_neg (below.trans nine).not_ge,if_neg (below.trans seven).not_ge,if_neg below.not_ge,if_pos above]
  · rw [severityBand,if_neg nine.not_ge,if_neg seven.not_ge,if_pos le_rfl]

theorem specFreeIff (documented : floats.Documented) (place : Place floats) (text : ScoreText floats) :
    SpecFree place text ↔ ∃ score, text = .plain score := by
  constructor
  · intro free
    cases text with
    | plain score => exact ⟨score,rfl⟩
    | vector v score =>
      obtain ⟨low,medium,isLow,isMedium⟩ := decimalsApart documented
      have labelled (specVersion : Decimal floats) : place.label (ScoreText.vector v score).text =
          some (severityBand floats specVersion.value) :=
        (free specVersion).1.symm.trans (placeLabel place (vectorToken {v with specVersion := specVersion} score))
      have clash := (labelled low).symm.trans (labelled medium)
      rw [isLow,isMedium] at clash
      exact absurd clash (by decide)
  · rintro ⟨score,rfl⟩ specVersion
    exact ⟨rfl,rfl⟩

/-- Of the texts with a vector none is labelled regardless of the version of the specification, and those with a
score are labelled by it where the version taken for a score is of the same band. -/
theorem severityIff (documented : floats.Documented) (place : Place floats) (text : ScoreText floats) :
    ((LabelsScore place text ∧ SpecFree place text) ↔ ∃ score, text = .plain score) ∧
    (LabelsScore place text ↔ ∀ vector score, text = .vector vector (some score) →
      severityBand floats vector.specVersion.value = severityBand floats score.value) := by
  refine ⟨?_,labelsScoreIff place text⟩
  rw [specFreeIff documented,labelsScoreIff]
  refine and_iff_right_of_imp ?_
  rintro ⟨score,rfl⟩ _ _ other
  contradiction

end

/-! Scores in tenths. -/

def tenths : Floats Nat where
  parse text := (["3.1","4.0","9.8"].find? fun known => known.toList = text).bind fun known =>
    if known = "3.1" then some 31 else if known = "4.0" then some 40 else some 98
  zero := 0
  four := 40
  seven := 70
  nine := 90

theorem tenthsDocumented : tenths.Documented where
  ordered := by decide
  three := ⟨31,by decide,by decide,by decide⟩
  fourth := by decide

def critical : Decimal tenths := ⟨"9.8".toList,98,by decide,by decide,by decide⟩

def alone : Place tenths := ⟨[],some "CVSS_V3".toList,[],none,by simp,rfl⟩

theorem severityIffPlain :
    normalizeSeverityLabel tenths [⟨some "CVSS_V3".toList,some "9.8".toList⟩] none = some "critical".toList := by
  have meets := (severityIff tenthsDocumented alone (.plain critical)).1.mpr ⟨critical,rfl⟩
  exact (meets.1 critical rfl).1

def versionThree : Decimal tenths := ⟨"3.1".toList,31,by decide,by decide,by decide⟩

def scoredVector : ScoreText tenths := .vector ⟨versionThree,"AV:N/AC:L/PR:N/UI:N/S:U/C:H/I:H/A:H".toList,by decide⟩ (some critical)

theorem criticalLabelledLow : ¬∀ (F : Type) (_ : LinearOrder F) (floats : Floats F), floats.Documented →
    ∀ (place : Place floats) (text : ScoreText floats), LabelsScore place text ∧ SpecFree place text := by
  intro all
  have labels := ((all Nat _ tenths tenthsDocumented alone scoredVector).1 critical rfl).2
  rw [scoredVector,rustsecLabel (vectorToken _ _)] at labels
  exact absurd (Option.some.inj labels) (by decide)

end RustMcp.Severity
