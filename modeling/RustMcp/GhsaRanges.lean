import RustMcp.Advisories
import RustMcp.Splitting

/-! What the range text of a GHSA advisory says of a version. -/
namespace RustMcp.GhsaRanges
open Str Semver
open Splitting (splitJoinSecond)
open Advisories (Applicability ghsaOperator ghsaHolds ghsaComparator ghsaRanges ghsaApplicability)

structure Range where
  comparators : List Text
  some_ : comparators ≠ []
  clean : ∀ comparator ∈ comparators, ',' ∉ comparator ∧ '|' ∉ comparator

def Range.text (range : Range) : Text := join ",".toList range.comparators

/-- The `affected_range` of an advisory with these vulnerabilities of the crate; `none` where it is passed over. -/
def affectedRange (withdrawnAt : Option Text) (crateVulns : List (Option Text)) : Option Text :=
  if crateVulns.isEmpty && withdrawnAt.isNone then none
  else match withdrawnAt with
    | some date => some ("withdrawn=".toList ++ date)
    | none => some (join " || ".toList (crateVulns.map fun range => range.getD "unknown".toList))

/-- The comparators of an alternative, where an absent range counts as one that is not readable. -/
def comparatorsOf : Option Range → List Text
  | some range => range.comparators
  | none => ["unknown".toList]

inductive Comparison where
  | atLeast | atMost | above | below | equal

def Comparison.mark : Comparison → Text
  | .atLeast => ">=".toList
  | .atMost => "<=".toList
  | .above => ">".toList
  | .below => "<".toList
  | .equal => "=".toList

def Comparison.Holds {V : Type} [LinearOrder V] (version bound : V) : Comparison → Prop
  | .atLeast => bound ≤ version
  | .atMost => version ≤ bound
  | .above => bound < version
  | .below => version < bound
  | .equal => version = bound

section
variable {V R : Type} (sv : Package V R)

/-- A comparator is an operator and the text of its bound, either with blanks around. -/
def Reads (comparator : Text) (op : Comparison) (bound : V) : Prop :=
  ∃ rest, trim comparator = op.mark ++ rest ∧ parseSemverForMatching sv (trim rest) = some bound

def Parses (comparator : Text) : Prop := ∃ op bound, Reads sv comparator op bound

/-- Comparators that differ in the build metadata of their bounds at most. -/
def SameComparator (comparator other : Text) : Prop :=
  comparator = other ∨ ∃ (op : Comparison) (rest rest' : Text), trim comparator = op.mark ++ rest ∧
    trim other = op.mark ++ rest' ∧ SameButBuild sv (trim rest) (trim rest')

/-- Alternatives with the same comparators in any order. -/
def SameRange (range other : Option Range) : Prop :=
  ∃ listed, (comparatorsOf range).Perm listed ∧ List.Forall₂ (SameComparator sv) listed (comparatorsOf other)

variable [LinearOrder V]

/-- An alternative that parses completely and of which all comparators hold. -/
def Satisfied (version : V) (range : Option Range) : Prop :=
  ∀ comparator ∈ comparatorsOf range, ∃ op bound, Reads sv comparator op bound ∧ op.Holds version bound

end

theorem partner {α β : Type} {r : α → β → Prop} {xs : List α} {ys : List β} (alike : List.Forall₂ r xs ys) {x : α}
    (mem : x ∈ xs) : ∃ y ∈ ys, r x y := by
  induction alike with
  | nil => contradiction
  | cons one _ ih =>
    rcases List.mem_cons.mp mem with rfl | later
    · exact ⟨_,List.mem_cons_self,one⟩
    · obtain ⟨y,mem',related⟩ := ih later
      exact ⟨y,List.mem_cons_of_mem _ mem',related⟩

theorem operatorSource {text mark bound : Text} (found : ghsaOperator text = some (mark,bound)) :
    ∃ (op : Comparison) (rest : Text), mark = op.mark ∧ text = op.mark ++ rest ∧ bound = trim rest := by
  obtain ⟨lead,mem,stripped⟩ := List.exists_of_findSome?_eq_some found
  obtain ⟨rest,strips,same⟩ := Option.map_eq_some_iff.mp stripped
  obtain ⟨rfl,rfl⟩ := Prod.mk.inj same
  have source := stripPrefixIff.mp strips
  simp only [List.mem_cons,List.not_mem_nil,or_false] at mem
  rcases mem with rfl | rfl | rfl | rfl | rfl
  · exact ⟨.atLeast,rest,rfl,source,rfl⟩
  · exact ⟨.atMost,rest,rfl,source,rfl⟩
  · exact ⟨.above,rest,rfl,source,rfl⟩
  · exact ⟨.below,rest,rfl,source,rfl⟩
  · exact ⟨.equal,rest,rfl,source,rfl⟩

/-- The longer operators are tried first, so that the shorter ones are found where no `=` follows. -/
theorem operatorFound (op : Comparison) {rest : Text} (plain : ¬ ['='] <+: rest) :
    ghsaOperator (op.mark ++ rest) = some (op.mark,trim rest) := by
  have unequal : ¬ (['='].isPrefixOf rest = true) := fun opens => plain (List.isPrefixOf_iff_prefix.mp opens)
  cases op <;>
    simp [ghsaOperator,Comparison.mark,stripPrefix,startsWith,List.findSome?_cons] at unequal ⊢
  all_goals rw [if_neg unequal]

theorem holdsMark {V : Type} [LinearOrder V] (op : Comparison) (version bound : V) :
    ghsaHolds op.mark version bound = true ↔ op.Holds version bound := by
  cases op <;> simp [ghsaHolds,Comparison.mark,Comparison.Holds]

section
variable {V R : Type} {sv : Package V R}

/-- Versions do not start with `=`, so that an operator is not read as the start of a longer one. -/
theorem readsOperator (grammar : sv.Grammar) {comparator : Text} {op : Comparison} {bound : V}
    (reads : Reads sv comparator op bound) : ∃ text, ghsaOperator (trim comparator) = some (op.mark,text) ∧
      parseSemverForMatching sv text = some bound := by
  obtain ⟨rest,source,parsed⟩ := reads
  refine ⟨trim rest,?_,parsed⟩
  rw [source]
  refine operatorFound op fun opens => ?_
  obtain ⟨more,rfl⟩ := opens
  have kept : '=' ∈ trim (['='] ++ more) := by
    rw [trim,List.singleton_append,trimStartKept (by decide)]
    have whole := trimEndAppend (c := '=') (by decide) [] more
    rw [List.nil_append,List.nil_append] at whole
    rw [whole]
    exact List.mem_cons_self
  exact absurd (matchingChars grammar parsed '=' kept) (by decide)

variable [LinearOrder V]

theorem comparatorReads (grammar : sv.Grammar) (version : V) {comparator : Text} {op : Comparison} {bound : V}
    (reads : Reads sv comparator op bound) :
    ghsaComparator sv version comparator = some (ghsaHolds op.mark version bound) := by
  obtain ⟨text,found,parsed⟩ := readsOperator grammar reads
  rw [ghsaComparator,found]
  simp only [Option.bind_eq_bind,Option.bind_some,parsed]

theorem comparatorSource {version : V} {comparator : Text} {holds : Bool}
    (read : ghsaComparator sv version comparator = some holds) :
    ∃ op bound, Reads sv comparator op bound ∧ holds = ghsaHolds op.mark version bound := by
  obtain ⟨⟨mark,text⟩,found,rest⟩ := Option.bind_eq_some_iff.mp read
  obtain ⟨bound,parsed,answer⟩ := Option.bind_eq_some_iff.mp rest
  obtain ⟨op,more,rfl,source,rfl⟩ := operatorSource found
  exact ⟨op,bound,⟨more,source,parsed⟩,(Option.some.inj answer).symm⟩

theorem comparatorParses (grammar : sv.Grammar) (version : V) (comparator : Text) :
    ghsaComparator sv version comparator = none ↔ ¬Parses sv comparator := by
  constructor
  · rintro unread ⟨op,bound,reads⟩
    rw [comparatorReads grammar version reads] at unread
    contradiction
  · intro unread
    cases read : ghsaComparator sv version comparator with
    | none => rfl
    | some holds =>
      obtain ⟨op,bound,reads,_⟩ := comparatorSource read
      exact absurd ⟨op,bound,reads⟩ unread

theorem comparatorHolds (grammar : sv.Grammar) (version : V) (comparator : Text) :
    ghsaComparator sv version comparator = some true ↔
      ∃ op bound, Reads sv comparator op bound ∧ op.Holds version bound := by
  constructor
  · intro read
    obtain ⟨op,bound,reads,holds⟩ := comparatorSource read
    exact ⟨op,bound,reads,(holdsMark op version bound).mp holds.symm⟩
  · rintro ⟨op,bound,reads,holds⟩
    rw [comparatorReads grammar version reads,(holdsMark op version bound).mpr holds]

theorem comparatorSame (grammar : sv.Grammar) (version : V) {comparator other : Text}
    (same : SameComparator sv comparator other) :
    ghsaComparator sv version comparator = ghsaComparator sv version other := by
  rcases same with rfl | ⟨op,rest,rest',source,source',build⟩
  · rfl
  · obtain ⟨equal,some_⟩ := matchingSame build
    obtain ⟨bound,parsed⟩ := Option.isSome_iff_exists.mp some_
    have reads : Reads sv comparator op bound := ⟨rest,source,parsed⟩
    have reads' : Reads sv other op bound := ⟨rest',source',equal.symm.trans parsed⟩
    rw [comparatorReads grammar version reads,comparatorReads grammar version reads']

/-- The verdict on alternatives, from what is read of the comparators of each. -/
def verdict (unknown : Bool) (alternatives : List (List (Option Bool))) : Applicability :=
  if ∃ read ∈ alternatives, ∀ holds ∈ read, holds = some true then .affected
  else if unknown = true ∨ ∃ read ∈ alternatives, none ∈ read then .unknown
  else .notAffected

theorem alternativeHolds (read : List (Option Bool)) :
    (read.all Option.isSome && read.all fun holds => holds.getD true) = true ↔ ∀ holds ∈ read, holds = some true := by
  simp only [Bool.and_eq_true,List.all_eq_true]
  constructor
  · rintro ⟨valid,matches_⟩ holds mem
    obtain ⟨answer,rfl⟩ := Option.isSome_iff_exists.mp (valid holds mem)
    exact congrArg some (matches_ _ mem)
  · intro all
    exact ⟨fun holds mem => by rw [all holds mem]; rfl,fun holds mem => by rw [all holds mem]; rfl⟩

theorem alternativeUnread (read : List (Option Bool)) : read.all Option.isSome = false ↔ none ∈ read := by
  rw [List.all_eq_false]
  constructor
  · rintro ⟨holds,mem,unread⟩
    rwa [Option.not_isSome_iff_eq_none.mp unread] at mem
  · exact fun mem => ⟨none,mem,by decide⟩

theorem rangesVerdict (version : V) (unknown : Bool) (ranges : List Text) :
    ghsaRanges sv version unknown ranges =
      verdict unknown (ranges.map fun range => (split ",".toList range).map (ghsaComparator sv version)) := by
  induction ranges generalizing unknown with
  | nil => cases unknown <;> simp [ghsaRanges,verdict]
  | cons range rest ih =>
    rw [ghsaRanges,List.map_cons]
    generalize (split ",".toList range).map (ghsaComparator sv version) = read
    by_cases holds : ∀ answer ∈ read, answer = some true
    · rw [if_pos ((alternativeHolds read).mpr holds),verdict,if_pos ⟨read,List.mem_cons_self,holds⟩]
    · rw [if_neg fun all => holds ((alternativeHolds read).mp all),ih]
      have unread : (unknown || !read.all Option.isSome) = true ↔ unknown = true ∨ none ∈ read := by
        rw [Bool.or_eq_true,Bool.not_eq_true',alternativeUnread]
      simp only [verdict,List.exists_mem_cons_iff,holds,false_or,unread,or_assoc]

theorem verdictCases (alternatives : List (List (Option Bool))) :
    (verdict false alternatives = .affected ↔ ∃ read ∈ alternatives, ∀ holds ∈ read, holds = some true) ∧
    (verdict false alternatives = .unknown ↔
      (¬∃ read ∈ alternatives, ∀ holds ∈ read, holds = some true) ∧ ∃ read ∈ alternatives, none ∈ read) ∧
    (verdict false alternatives = .notAffected ↔
      (¬∃ read ∈ alternatives, ∀ holds ∈ read, holds = some true) ∧ ¬∃ read ∈ alternatives, none ∈ read) := by
  unfold verdict
  by_cases affected : ∃ read ∈ alternatives, ∀ holds ∈ read, holds = some true
  · simp [affected]
  · by_cases unread : ∃ read ∈ alternatives, none ∈ read
    · simp [affected,unread]
    · simp [affected,unread]

/-- Neither the order nor the repetition of alternatives counts, nor the order within one. -/
theorem verdictSame {alternatives others : List (List (Option Bool))}
    (one : ∀ read ∈ alternatives, ∃ read' ∈ others, read.Perm read')
    (two : ∀ read ∈ others, ∃ read' ∈ alternatives, read.Perm read') : verdict false alternatives = verdict false others := by
  have carried : ∀ {P : List (Option Bool) → Prop}, (∀ read read', read.Perm read' → P read → P read') →
      ((∃ read ∈ alternatives, P read) ↔ ∃ read ∈ others, P read) := by
    intro P stable
    constructor
    · rintro ⟨read,mem,holds⟩
      obtain ⟨read',mem',perm⟩ := one read mem
      exact ⟨read',mem',stable read read' perm holds⟩
    · rintro ⟨read,mem,holds⟩
      obtain ⟨read',mem',perm⟩ := two read mem
      exact ⟨read',mem',stable read read' perm holds⟩
  have all := carried (P := fun read => ∀ holds ∈ read, holds = some true)
    fun read read' perm holds answer mem => holds answer (perm.mem_iff.mpr mem)
  have some_ := carried (P := fun read => none ∈ read) fun read read' perm mem => perm.mem_iff.mp mem
  simp only [verdict,all,some_]

theorem rangeSplit (range : Option Range) :
    split ",".toList ((range.map Range.text).getD "unknown".toList) = comparatorsOf range := by
  cases range with
  | none => exact splitClean [] (by decide)
  | some range => exact splitJoin ',' [] range.some_ fun comparator mem => (range.clean comparator mem).1

theorem rangeBars (range : Option Range) : '|' ∉ (range.map Range.text).getD "unknown".toList := by
  cases range with
  | none => decide
  | some range =>
    have apart : '|' ∉ ",".toList := by decide
    exact joinClean apart fun comparator mem => (range.clean comparator mem).2

theorem applicabilityVerdict (version : V) {ranges : List (Option Range)} {text : Text}
    (rendered : affectedRange none (ranges.map (Option.map Range.text)) = some text) :
    ghsaApplicability sv text version =
      verdict false (ranges.map fun range => (comparatorsOf range).map (ghsaComparator sv version)) := by
  unfold affectedRange at rendered
  split at rendered <;> try contradiction
  rename_i kept
  have some_ : (ranges.map (Option.map Range.text)).map (fun range => range.getD "unknown".toList) ≠ [] := by
    intro none_
    rw [List.map_eq_nil_iff.mp none_] at kept
    exact kept rfl
  have bars : ∀ part ∈ (ranges.map (Option.map Range.text)).map (fun range => range.getD "unknown".toList), '|' ∉ part := by
    intro part mem
    obtain ⟨text,mem',rfl⟩ := List.mem_map.mp mem
    obtain ⟨range,_,rfl⟩ := List.mem_map.mp mem'
    exact rangeBars range
  have blankBar : ' ' ≠ '|' := by decide
  have pieces := splitJoinSecond blankBar "| ".toList some_ bars
  cases Option.some.inj rendered
  rw [ghsaApplicability,rangesVerdict]
  refine congrArg (verdict false) ?_
  rw [show " || ".toList = ' ' :: '|' :: "| ".toList from rfl,pieces,List.map_map,List.map_map]
  refine List.map_congr_left fun range _ => ?_
  simp only [Function.comp_apply,rangeSplit]

theorem satisfiedRead (grammar : sv.Grammar) (version : V) (range : Option Range) :
    (∀ holds ∈ (comparatorsOf range).map (ghsaComparator sv version), holds = some true) ↔ Satisfied sv version range := by
  rw [List.forall_mem_map]
  exact forall₂_congr fun comparator _ => comparatorHolds grammar version comparator

theorem unreadComparator (grammar : sv.Grammar) (version : V) (range : Option Range) :
    none ∈ (comparatorsOf range).map (ghsaComparator sv version) ↔
      ∃ comparator ∈ comparatorsOf range, ¬Parses sv comparator := by
  rw [List.mem_map]
  exact exists_congr fun comparator => and_congr_right fun _ => comparatorParses grammar version comparator

theorem sameRead (grammar : sv.Grammar) (version : V) {range other : Option Range} (same : SameRange sv range other) :
    ((comparatorsOf range).map (ghsaComparator sv version)).Perm ((comparatorsOf other).map (ghsaComparator sv version)) := by
  obtain ⟨listed,perm,alike⟩ := same
  have equal : listed.map (ghsaComparator sv version) = (comparatorsOf other).map (ghsaComparator sv version) := by
    clear perm
    generalize comparatorsOf other = others at alike
    induction alike with
    | nil => rfl
    | cons one _ ih => rw [List.map_cons,List.map_cons,comparatorSame grammar version one,ih]
  exact equal ▸ perm.map _

theorem sameReads (grammar : sv.Grammar) (version : V) {ranges others : List (Option Range)}
    (same : ∃ listed, ranges.Perm listed ∧ List.Forall₂ (SameRange sv) listed others) :
    verdict false (others.map fun range => (comparatorsOf range).map (ghsaComparator sv version)) =
      verdict false (ranges.map fun range => (comparatorsOf range).map (ghsaComparator sv version)) := by
  obtain ⟨listed,perm,alike⟩ := same
  refine verdictSame ?_ ?_
  · intro read mem
    obtain ⟨other,mem',rfl⟩ := List.mem_map.mp mem
    obtain ⟨range,listed_,one⟩ := partner alike.flip mem'
    exact ⟨_,List.mem_map_of_mem (perm.mem_iff.mpr listed_),(sameRead grammar version one).symm⟩
  · intro read mem
    obtain ⟨range,mem',rfl⟩ := List.mem_map.mp mem
    obtain ⟨other,listed_,one⟩ := partner alike (perm.mem_iff.mp mem')
    exact ⟨_,List.mem_map_of_mem listed_,sameRead grammar version one⟩

end

theorem applicableByAlternatives {V R : Type} [LinearOrder V] (sv : Package V R) (grammar : sv.Grammar)
    {ranges : List (Option Range)} {text : Text}
    (rendered : affectedRange none (ranges.map (Option.map Range.text)) = some text) {version : Text} {v : V}
    (parsed : parseSemverForMatching sv version = some v) :
    (ghsaApplicability sv text v = .affected ↔ ∃ range ∈ ranges, Satisfied sv v range) ∧
    (ghsaApplicability sv text v = .unknown ↔
      (¬∃ range ∈ ranges, Satisfied sv v range) ∧ ∃ range ∈ ranges, ∃ comparator ∈ comparatorsOf range, ¬Parses sv comparator) ∧
    (ghsaApplicability sv text v = .notAffected ↔
      (¬∃ range ∈ ranges, Satisfied sv v range) ∧ ∀ range ∈ ranges, ∀ comparator ∈ comparatorsOf range, Parses sv comparator) ∧
    (∀ ranges' text' version' v', affectedRange none (ranges'.map (Option.map Range.text)) = some text' →
      (∃ listed, ranges.Perm listed ∧ List.Forall₂ (SameRange sv) listed ranges') → SameButBuild sv version version' →
      parseSemverForMatching sv version' = some v' → ghsaApplicability sv text' v' = ghsaApplicability sv text v) ∧
    ∀ ranges' text', affectedRange none (ranges'.map (Option.map Range.text)) = some text' → ranges ⊆ ranges' →
      ghsaApplicability sv text v = .affected → ghsaApplicability sv text' v = .affected := by
  have answer : ghsaApplicability sv text v = _ := applicabilityVerdict v rendered
  have holds : (∃ read ∈ ranges.map fun range => (comparatorsOf range).map (ghsaComparator sv v),
      ∀ holds ∈ read, holds = some true) ↔ ∃ range ∈ ranges, Satisfied sv v range := by
    simp only [List.mem_map (f := fun range => (comparatorsOf range).map (ghsaComparator sv v)),exists_exists_and_eq_and,
      satisfiedRead grammar]
  have unread : (∃ read ∈ ranges.map fun range => (comparatorsOf range).map (ghsaComparator sv v), none ∈ read) ↔
      ∃ range ∈ ranges, ∃ comparator ∈ comparatorsOf range, ¬Parses sv comparator := by
    simp only [List.mem_map (f := fun range => (comparatorsOf range).map (ghsaComparator sv v)),exists_exists_and_eq_and,
      unreadComparator grammar]
  obtain ⟨affected,unknown,clear_⟩ := verdictCases (ranges.map fun range => (comparatorsOf range).map (ghsaComparator sv v))
  rw [← answer,holds] at affected
  rw [← answer,holds,unread] at unknown clear_
  refine ⟨affected,unknown,clear_.trans (and_congr_right fun _ => ?_),?_,?_⟩
  · simp only [not_exists,not_and,not_not]
  · intro ranges' text' version' v' rendered' same build parsed'
    have equal : v = v' := Option.some.inj (parsed.symm.trans ((matchingSame build).1.trans parsed'))
    rw [applicabilityVerdict v' rendered',answer,← equal]
    exact sameReads grammar v same
  · intro ranges' text' rendered' more holds_
    obtain ⟨range,mem,satisfied⟩ := affected.mp holds_
    rw [applicabilityVerdict v rendered']
    exact (verdictCases _).1.mpr ⟨_,List.mem_map_of_mem (more mem),(satisfiedRead grammar v range).mpr satisfied⟩

/-! Two alternatives and one without a range. -/

def demoRanges : List (Option Range) :=
  [some ⟨["< 1.0.0".toList],by decide,by decide⟩,none,some ⟨[">= 1.2.0".toList," < 2.0.0".toList],by decide,by decide⟩]

theorem applicableByAlternativesAgain :
    ghsaApplicability demoPackage "< 1.0.0 || unknown || >= 1.2.0, < 2.0.0".toList 150 = .affected := by
  have rendered : affectedRange none (demoRanges.map (Option.map Range.text)) =
      some "< 1.0.0 || unknown || >= 1.2.0, < 2.0.0".toList := by decide
  have parsed : parseSemverForMatching demoPackage "1.5.0".toList = some 150 := by decide
  refine (applicableByAlternatives demoPackage demoGrammar rendered parsed).1.mpr
    ⟨_,List.mem_cons_of_mem _ (List.mem_cons_of_mem _ List.mem_cons_self),?_⟩
  intro comparator mem
  rcases List.mem_cons.mp mem with rfl | later
  · exact ⟨.atLeast,120,⟨" 1.2.0".toList,by decide,by decide⟩,(holdsMark .atLeast 150 120).mp (by decide)⟩
  · rw [List.mem_singleton.mp later]
    exact ⟨.below,200,⟨" 2.0.0".toList,by decide,by decide⟩,(holdsMark .below 150 200).mp (by decide)⟩

end RustMcp.GhsaRanges
