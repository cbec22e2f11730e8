import RustMcp.OsvRanges

/-! The whole stored range text of an OSV record. It is taken apart into the
texts it was joined from, whatever other ranges stand beside them. -/
namespace RustMcp.OsvText
open Str Semver Security OsvRanges
open Advisories (Applicability)

/-! Clauses of other sources are told apart by the word before their `=`. -/

/-- Every `=` stands after the name of an event field. -/
def FieldsOnly (text : Text) : Prop :=
  ∀ before after, text = before ++ '='::after →
    ∃ name, (name = "limit".toList ∨ ∃ kind, name = kindName kind) ∧ name <:+ before

theorem fieldsNone {text : Text} (clean : '=' ∉ text) : FieldsOnly text := by
  rintro before after rfl
  simp at clean

theorem fieldsAppend {left right : Text} (hl : FieldsOnly left) (hr : FieldsOnly right) : FieldsOnly (left ++ right) := by
  intro before after same
  rcases List.append_eq_append_iff.mp same with ⟨middle,rfl,rest⟩ | ⟨middle,start,rest⟩
  · obtain ⟨name,known,ends⟩ := hr middle after rest
    exact ⟨name,known,ends.trans (List.suffix_append left middle)⟩
  · cases middle with
    | nil =>
      obtain ⟨name,known,ends⟩ := hr [] after (by simpa using rest.symm)
      exact ⟨name,known,ends.trans List.nil_suffix⟩
    | cons c cs =>
      obtain ⟨rfl,_⟩ := List.cons.inj rest
      exact hl before cs start

theorem fieldsJoin {sep : Text} {parts : List Text} (hs : FieldsOnly sep) (hp : ∀ part ∈ parts, FieldsOnly part) :
    FieldsOnly (join sep parts) := by
  induction parts with
  | nil => exact fieldsNone (by simp [join,List.intercalate])
  | cons part rest ih =>
    have later := ih fun p mem => hp p (List.mem_cons_of_mem _ mem)
    cases rest with
    | nil => simpa [join,List.intercalate] using hp part (by simp)
    | cons q qs =>
      rw [joinCons]
      exact fieldsAppend (hp part (by simp)) (fieldsAppend hs later)

theorem fieldsPart {name value : Text} (known : name = "limit".toList ∨ ∃ kind, name = kindName kind)
    (clean : '=' ∉ value) : FieldsOnly (eventPart (name,value)) := by
  have plain : '=' ∉ name := by
    rcases known with rfl | ⟨kind,rfl⟩
    · decide
    · cases kind <;> decide
  intro before after same
  have same : name ++ '='::value = before ++ '='::after := same
  refine ⟨name,known,?_⟩
  rcases List.append_eq_append_iff.mp same with ⟨middle,rfl,rest⟩ | ⟨middle,start,rest⟩
  · cases middle with
    | nil => simp
    | cons c cs =>
      obtain ⟨_,inner⟩ := List.cons.inj rest
      simp [inner] at clean
  · cases middle with
    | nil => simp [start]
    | cons c cs =>
      obtain ⟨rfl,_⟩ := List.cons.inj rest
      simp [start] at plain

/-- A key of another source ends in no field name, nor a field name in it. -/
theorem fieldsForeign (word : Text) {text : Text} (only : FieldsOnly text)
    (limit : ¬ "limit".toList <:+ word ∧ ¬ word <:+ "limit".toList)
    (kinds : ∀ kind, ¬ kindName kind <:+ word ∧ ¬ word <:+ kindName kind) : ¬ word ++ ['='] <:+: text := by
  rintro ⟨before,after,rfl⟩
  obtain ⟨name,known,ends⟩ := only (before ++ word) after (by simp)
  have comparable := List.suffix_or_suffix_of_suffix ends (List.suffix_append before word)
  rcases known with rfl | ⟨kind,rfl⟩
  · exact comparable.elim limit.1 limit.2
  · exact comparable.elim (kinds kind).1 (kinds kind).2

theorem rangeTextsPlain {range : OsvRange} (clean : CleanRange range) {text : Text} (mem : text ∈ rangeTexts range) :
    FieldsOnly text ∧ ';' ∉ text := by
  have rangeType : FieldsOnly range.rangeType ∧ ';' ∉ range.rangeType :=
    ⟨fieldsNone (lacksChar clean.1 (by decide)),lacksChar clean.1 (by decide)⟩
  cases written : rangeParts range.events with
  | none =>
    rw [rangeTexts,written] at mem
    rcases List.mem_pair.mp mem with rfl | rfl
    · exact ⟨fieldsNone (by decide),by decide⟩
    · exact rangeType
  | some parts =>
    have part : ∀ part ∈ parts, FieldsOnly part ∧ ';' ∉ part := fun part inside => by
      obtain ⟨event,he,⟨name,value⟩,carried,rfl⟩ := partsMem written inside
      exact ⟨fieldsPart (fieldNames carried) (lacksChar (clean.2 event he (name,value) carried) (by decide)),
        partClean clean he carried (by decide)⟩
    cases parts with
    | nil =>
      rw [rangeTexts,written,List.mem_singleton] at mem
      subst mem
      exact rangeType
    | cons first rest =>
      rw [rangeTexts,written,List.mem_singleton] at mem
      · subst mem
        have body : FieldsOnly (join ",".toList (first::rest)) ∧ ';' ∉ join ",".toList (first::rest) :=
          ⟨fieldsJoin (fieldsNone (by decide)) fun p h => (part p h).1,joinClean (by decide) fun p h => (part p h).2⟩
        refine ⟨fieldsAppend rangeType.1 (fieldsAppend (fieldsNone (by decide) : FieldsOnly ['('])
          (fieldsAppend body.1 (fieldsNone (by decide)))),?_⟩
        simp only [List.mem_append,List.mem_cons,not_or]
        exact ⟨rangeType.2,by decide,body.2,by decide⟩

section
variable {V R : Type} [LinearOrder V] {sv : Package V R}

/-! The loop over the stored texts. -/

theorem osvRangesAffected {version : V} {unknown : Bool} {texts : List Text} :
    Advisories.osvRanges sv version unknown texts = .affected ↔
      ∃ text ∈ texts, ∃ parsed, Advisories.readOsvRange sv text = some parsed ∧
        Advisories.osvRangeAffects parsed version = true := by
  induction texts generalizing unknown with
  | nil => cases unknown <;> simp [Advisories.osvRanges]
  | cons text rest ih =>
    simp only [Advisories.osvRanges,List.mem_cons,exists_eq_or_imp]
    split
    · rename_i parsed read
      by_cases hit : Advisories.osvRangeAffects parsed version = true <;> simp [read,hit,ih]
    · rename_i read
      simp [read,ih]

theorem osvRangesUnknown {version : V} {unknown : Bool} {texts : List Text} :
    Advisories.osvRanges sv version unknown texts = .unknown ↔
      Advisories.osvRanges sv version unknown texts ≠ .affected ∧
      (unknown = true ∨ ∃ text ∈ texts, Advisories.readOsvRange sv text = none) := by
  induction texts generalizing unknown with
  | nil => cases unknown <;> simp [Advisories.osvRanges]
  | cons text rest ih =>
    simp only [Advisories.osvRanges,List.mem_cons,exists_eq_or_imp]
    split
    · rename_i parsed read
      by_cases hit : Advisories.osvRangeAffects parsed version = true
      · simp [hit]
      · simp only [hit,read,reduceCtorEq,false_or,if_false]
        exact ih
    · rename_i read
      simp only [read,true_or,or_true,and_true]
      rw [ih]
      simp

/-- A text of event fields alone is evaluated range by range, by the rules for OSV. -/
theorem storedDispatch {texts : List Text} (some_ : texts ≠ []) (plain : ∀ text ∈ texts, FieldsOnly text ∧ ';' ∉ text)
    {version : Text} {v : V} (parsed : parseSemverForMatching sv version = some v) :
    Advisories.rangeApplicability sv "osv".toList (join "; ".toList texts) version =
      Advisories.osvRanges sv v false texts := by
  have pieces : split "; ".toList (join "; ".toList texts) = texts :=
    splitJoin ';' [' '] some_ fun text mem => (plain text mem).2
  have only : FieldsOnly (join "; ".toList texts) := fieldsJoin (fieldsNone (by decide)) fun text mem => (plain text mem).1
  have kept : Advisories.isWithdrawn (join "; ".toList texts) = false := by
    rw [Advisories.isWithdrawn,pieces,List.any_eq_false]
    intro text mem starts
    exact fieldsForeign "withdrawn".toList (plain text mem).1 (by decide) (by rintro (_ | _ | _) <;> decide)
      (startsWithIff.mp starts).isInfix
  unfold Advisories.rangeApplicability
  rw [kept,parsed]
  simp only [Bool.false_eq_true,if_false]
  split
  · rw [Advisories.osvApplicability,pieces]
  · rename_i foreign
    have rustsec : ¬ ("osv".toList = "rustsec_db".toList ||
        ["patched=".toList,"unaffected=".toList,"withdrawn=".toList].any
          (fun key => contains key (join "; ".toList texts))) = true := by
      simp only [List.any_cons,List.any_nil,Bool.or_eq_true,decide_eq_true_eq,containsIff,Bool.false_eq_true,or_false,not_or]
      refine ⟨by decide,?_,?_,?_⟩
      · exact fieldsForeign "patched".toList only (by decide) (by rintro (_ | _ | _) <;> decide)
      · exact fieldsForeign "unaffected".toList only (by decide) (by rintro (_ | _ | _) <;> decide)
      · exact fieldsForeign "withdrawn".toList only (by decide) (by rintro (_ | _ | _) <;> decide)
    rw [if_neg rustsec,if_neg (by decide)]
    -- No text opens a range, so none of them reads.
    have unread : ∀ text ∈ texts, Advisories.readOsvRange sv text = none := fun text mem => by
      simp only [Bool.or_eq_true,containsIff,not_or] at foreign
      have bare : ∀ lead : Text, ¬ lead <:+: join "; ".toList texts → stripPrefix lead text = none :=
        fun lead absent => Option.eq_none_iff_forall_ne_some.mpr fun rest same => by
          have opens : lead <+: text := ⟨rest,(stripPrefixIff.mp same).symm⟩
          exact absent (opens.isInfix.trans (infixJoin mem))
      unfold Advisories.readOsvRange
      rw [bare _ foreign.1,bare _ foreign.2]
      rfl
    obtain ⟨text,mem⟩ := List.exists_mem_of_ne_nil texts some_
    refine (osvRangesUnknown.mpr ⟨fun affected => ?_,Or.inr ⟨text,mem,unread text mem⟩⟩).symm
    obtain ⟨t,ht,range,read,_⟩ := osvRangesAffected.mp affected
    rw [unread t ht] at read
    contradiction

/-! The text as a whole, against the verdict on the structured ranges. -/

/-- The texts that are joined; the marker stands alone where there is no range. -/
def storedTexts (affected : List OsvAffected) : List Text :=
  if ranges affected = [] then ["osv_affected_unknown".toList] else (ranges affected).flatMap rangeTexts

theorem rangeTextsSome {range : OsvRange} : rangeTexts range ≠ [] := by
  cases written : rangeParts range.events with
  | none => simp [rangeTexts,written]
  | some parts => cases parts <;> simp [rangeTexts,written]

theorem affectedRangeTextJoins (affected : List OsvAffected) :
    affectedRangeText affected = join "; ".toList (storedTexts affected) := by
  have flat : (affected.flatMap fun item => item.ranges.flatMap rangeTexts) = (ranges affected).flatMap rangeTexts := by
    simp [ranges,List.flatMap_assoc]
  simp only [affectedRangeText,storedTexts,flat]
  cases all : ranges affected with
  | nil => rfl
  | cons range rest => simp [rangeTextsSome]

theorem storedTextsPlain {affected : List OsvAffected} (clean : Clean affected) :
    storedTexts affected ≠ [] ∧ ∀ text ∈ storedTexts affected, FieldsOnly text ∧ ';' ∉ text := by
  unfold storedTexts
  split
  · refine ⟨List.cons_ne_nil _ _,fun text mem => ?_⟩
    rw [List.mem_singleton] at mem
    subst mem
    exact ⟨fieldsNone (by decide),by decide⟩
  · rename_i some_
    obtain ⟨range,inside⟩ := List.exists_mem_of_ne_nil _ some_
    refine ⟨fun none_ => rangeTextsSome (List.flatMap_eq_nil_iff.mp none_ range inside),fun text mem => ?_⟩
    obtain ⟨range,inside,written⟩ := List.mem_flatMap.mp mem
    exact rangeTextsPlain (clean range inside) written

theorem storedAffected {affected : List OsvAffected} (clean : Clean affected) (version : V) :
    (∃ text ∈ storedTexts affected, ∃ parsed, Advisories.readOsvRange sv text = some parsed ∧
      Advisories.osvRangeAffects parsed version = true) ↔
    ∃ range ∈ ranges affected, WellFormed sv trimEnd range ∧ Affects sv trimEnd range version := by
  unfold storedTexts
  split
  · rename_i none_
    simp only [none_,List.mem_singleton,exists_eq_left,List.not_mem_nil,false_and,exists_false,iff_false]
    rintro ⟨parsed,read,_⟩
    rw [readUntyped (by decide)] at read
    contradiction
  · constructor
    · rintro ⟨text,mem,parsed,read,hit⟩
      obtain ⟨range,inside,written⟩ := List.mem_flatMap.mp mem
      rcases readRange sv (clean range inside) with ⟨well,text',parsed',only,read',affects⟩ | ⟨_,_,unread⟩
      · rw [only,List.mem_singleton] at written
        subst text
        rw [read'] at read
        cases Option.some.inj read
        exact ⟨range,inside,well,(affects version).mp hit⟩
      · rw [unread text written] at read
        contradiction
    · rintro ⟨range,inside,well,hit⟩
      rcases readRange sv (clean range inside) with ⟨_,text,parsed,only,read,affects⟩ | ⟨bad,_⟩
      · exact ⟨text,List.mem_flatMap.mpr ⟨range,inside,by simp [only]⟩,parsed,read,(affects version).mpr hit⟩
      · contradiction

theorem storedUnread {affected : List OsvAffected} (clean : Clean affected) :
    (∃ text ∈ storedTexts affected, Advisories.readOsvRange sv text = none) ↔
      ranges affected = [] ∨ ∃ range ∈ ranges affected, ¬ WellFormed sv trimEnd range := by
  unfold storedTexts
  split
  · rename_i none_
    simp only [none_,List.mem_singleton,exists_eq_left,true_or,iff_true]
    exact readUntyped (by decide)
  · rename_i some_
    simp only [some_,false_or]
    constructor
    · rintro ⟨text,mem,read⟩
      obtain ⟨range,inside,written⟩ := List.mem_flatMap.mp mem
      rcases readRange sv (clean range inside) with ⟨_,text',parsed,only,read',_⟩ | ⟨bad,_⟩
      · rw [only,List.mem_singleton] at written
        subst text
        rw [read'] at read
        contradiction
      · exact ⟨range,inside,bad⟩
    · rintro ⟨range,inside,bad⟩
      rcases readRange sv (clean range inside) with ⟨well,_⟩ | ⟨_,someText,unread⟩
      · contradiction
      · obtain ⟨text,written⟩ := List.exists_mem_of_ne_nil _ someText
        exact ⟨text,List.mem_flatMap.mpr ⟨range,inside,written⟩,unread text written⟩

/-- Rendering the ranges and reading them back loses none and invents none. -/
theorem storedTextVerdict (sv : Package V R) (affected : List OsvAffected) (clean : Clean affected)
    (version : Text) (v : V) (parsed : parseSemverForMatching sv version = some v) :
    Advisories.rangeApplicability sv "osv".toList (affectedRangeText affected) version =
      verdict sv trimEnd affected v := by
  obtain ⟨some_,plain⟩ := storedTextsPlain clean
  rw [affectedRangeTextJoins,storedDispatch some_ plain parsed]
  have hit : Advisories.osvRanges sv v false (storedTexts affected) = .affected ↔ _ :=
    osvRangesAffected.trans (storedAffected clean v)
  have open_ : Advisories.osvRanges sv v false (storedTexts affected) = .unknown ↔ _ :=
    osvRangesUnknown.trans (and_congr (not_congr hit) (by simpa using storedUnread clean))
  unfold verdict
  split
  · rename_i affects
    exact hit.mpr affects
  · rename_i spared
    split
    · rename_i unread
      exact open_.mpr ⟨spared,unread⟩
    · rename_i allRead
      cases result : Advisories.osvRanges sv v false (storedTexts affected) with
      | affected => exact absurd (hit.mp result) spared
      | unknown => exact absurd (open_.mp result).2 allRead
      | notAffected => rfl

end

def semverRange (events : List OsvRangeEvent) : List OsvAffected := [⟨none,[],[⟨"SEMVER".toList,events⟩]⟩]

theorem storedTextVerdictFixed :
    Advisories.rangeApplicability releases "osv".toList
      (affectedRangeText (semverRange [⟨some "0".toList,none,none,none⟩,⟨none,some "1.2.0".toList,none,none⟩]))
      "1.1.0".toList =
    verdict releases trimEnd (semverRange [⟨some "0".toList,none,none,none⟩,⟨none,some "1.2.0".toList,none,none⟩])
      (toLex (1,toLex (1,0))) :=
  storedTextVerdict releases _ (by decide) _ _ (by decide)

/-- Taken as it stands, a bound with a blank after it is no version. -/
theorem trailingBlankReads :
    Clean (semverRange [⟨some "1.0.0 ".toList,none,none,none⟩]) ∧
    parseSemverForMatching releases "2.0.0".toList = some (toLex (2,toLex (0,0))) ∧
    Advisories.rangeApplicability releases "osv".toList
      (affectedRangeText (semverRange [⟨some "1.0.0 ".toList,none,none,none⟩])) "2.0.0".toList = .affected ∧
    verdict releases id (semverRange [⟨some "1.0.0 ".toList,none,none,none⟩]) (toLex (2,toLex (0,0))) = .unknown := by
  refine ⟨by decide,by decide,by decide,?_⟩
  have malformed : ∀ range ∈ ranges (semverRange [⟨some "1.0.0 ".toList,none,none,none⟩]),
      ¬ WellFormed releases id range := by
    simp only [semverRange,ranges,List.flatMap_cons,List.flatMap_nil,List.append_nil,List.mem_singleton]
    rintro range rfl ⟨_,_,⟨event,inside,bound,value,single,bounded⟩,_⟩
    rw [List.mem_singleton] at inside
    subst event
    have same : value = "1.0.0 ".toList := (Prod.mk.inj (List.cons.inj single).1).2.symm
    subst same
    exact absurd bounded (by rw [show transitionAt releases .introduced (id "1.0.0 ".toList) = none by decide]; simp)
  unfold verdict
  rw [if_neg (fun ⟨range,inside,well,_⟩ => malformed range inside well),
    if_pos (Or.inr ⟨_,List.mem_singleton_self _,malformed _ (List.mem_singleton_self _)⟩)]

end RustMcp.OsvText
