import RustMcp.Security

/-! OSV ranges and the text each of them is stored as. The verdict on structured
ranges is stated first; a range's text then reads back to what the verdict says
of the range, with every bound taken up to the white space after it. -/
namespace RustMcp.OsvRanges
open Str Semver Security
open Advisories (Applicability OsvEvent)

section
variable {V R : Type} (sv : Package V R) (read : Text → Text)

def kindName : OsvEvent → Text
  | .introduced => "introduced".toList
  | .fixed => "fixed".toList
  | .lastAffected => "last_affected".toList

/-! Bounds, from a value as `read` presents it. -/

def transitionAt (kind : OsvEvent) (value : Text) : Option (WithBot V) :=
  if kind = .introduced ∧ value = "0".toList then some ⊥
  else (parseSemverForMatching sv value).map WithBot.some

/-- An upper limit; `none` within is no limit at all. -/
def limitAt (value : Text) : Option (Option V) :=
  if value.contains '*' then some none else (parseSemverForMatching sv value).map some

def EventAt (event : OsvRangeEvent) (bound : WithBot V) (kind : OsvEvent) : Prop :=
  ∃ value, eventFields event = [(kindName kind,value)] ∧ transitionAt sv kind (read value) = some bound

def LimitOf (event : OsvRangeEvent) (bound : Option V) : Prop :=
  ∃ value, eventFields event = [("limit".toList,value)] ∧ limitAt sv (read value) = some bound

def Valid (event : OsvRangeEvent) : Prop :=
  (∃ bound kind, EventAt sv read event bound kind) ∨ ∃ bound, LimitOf sv read event bound

def Has (range : OsvRange) (kind : OsvEvent) : Prop :=
  ∃ event ∈ range.events, ∃ bound, EventAt sv read event bound kind

structure WellFormed (range : OsvRange) : Prop where
  semantic : range.rangeType = "SEMVER".toList ∨ range.rangeType = "ECOSYSTEM".toList
  valid : ∀ event ∈ range.events, Valid sv read event
  starts : Has sv read range .introduced
  unmixed : ¬ (Has sv read range .fixed ∧ Has sv read range .lastAffected)

/-- Below one of the limits, and past an `introduced` that nothing closes again. -/
def Affects [LinearOrder V] (range : OsvRange) (version : V) : Prop :=
  ((∀ event ∈ range.events, ∀ bound, ¬ LimitOf sv read event bound) ∨
    ∃ event ∈ range.events, ∃ bound, LimitOf sv read event bound ∧ ∀ limit ∈ bound, version < limit) ∧
  ∃ event ∈ range.events, ∃ start, EventAt sv read event start .introduced ∧ start ≤ version ∧
    (∀ event ∈ range.events, ∀ stop, EventAt sv read event stop .fixed → stop ≤ version → stop < start) ∧
    (∀ event ∈ range.events, ∀ last, EventAt sv read event last .lastAffected → last < version → last < start)

def ranges (affected : List OsvAffected) : List OsvRange := affected.flatMap OsvAffected.ranges

open Classical in
/-- The verdict computed on the structured ranges. -/
noncomputable def verdict [LinearOrder V] (affected : List OsvAffected) (version : V) : Applicability :=
  if ∃ range ∈ ranges affected, WellFormed sv read range ∧ Affects sv read range version then .affected
  else if ranges affected = [] ∨ ∃ range ∈ ranges affected, ¬ WellFormed sv read range then .unknown
  else .notAffected

/-! The characters that the text format gives a meaning. -/

def CleanRange (range : OsvRange) : Prop :=
  lacks ";(=".toList range.rangeType = true ∧
  ∀ event ∈ range.events, ∀ field ∈ eventFields event, lacks ",;)=".toList field.2 = true

instance (range : OsvRange) : Decidable (CleanRange range) :=
  inferInstanceAs (Decidable (lacks ";(=".toList range.rangeType = true ∧
    ∀ event ∈ range.events, ∀ field ∈ eventFields event, lacks ",;)=".toList field.2 = true))

def Clean (affected : List OsvAffected) : Prop := ∀ range ∈ ranges affected, CleanRange range

instance (affected : List OsvAffected) : Decidable (Clean affected) :=
  inferInstanceAs (Decidable (∀ range ∈ ranges affected, CleanRange range))

variable {sv}

/-! One event, written and read. -/

theorem fieldNames {event : OsvRangeEvent} {field : Text × Text} (h : field ∈ eventFields event) :
    field.1 = "limit".toList ∨ ∃ kind, field.1 = kindName kind := by
  simp only [eventFields,List.mem_filterMap,List.mem_cons,List.not_mem_nil,or_false,Option.map_eq_some_iff] at h
  obtain ⟨slot,rfl | rfl | rfl | rfl,value,_,rfl⟩ := h
  · exact Or.inr ⟨.introduced,rfl⟩
  · exact Or.inr ⟨.fixed,rfl⟩
  · exact Or.inr ⟨.lastAffected,rfl⟩
  · exact Or.inl rfl

theorem kindNameInj {kind kind' : OsvEvent} (h : kindName kind = kindName kind') : kind = kind' := by
  revert h; cases kind <;> cases kind' <;> decide

theorem kindNameLimit (kind : OsvEvent) : kindName kind ≠ "limit".toList := by
  cases kind <;> decide

theorem osvEventKindName (kind : OsvEvent) : Advisories.osvEventKind (kindName kind) = some kind := by
  cases kind <;> decide

/-- A field keeps its name and its value up to trailing white space. -/
theorem splitPart {name value : Text} (known : name = "limit".toList ∨ ∃ kind, name = kindName kind) :
    splitOnce '=' (trim (eventPart (name,value))) = some (name,trimEnd value) := by
  have shape : '=' ∉ name ∧ ∃ c cs, name = c::cs ∧ isWhiteSpace c = false := by
    rcases known with rfl | ⟨kind,rfl⟩
    · exact ⟨by decide,_,_,rfl,by decide⟩
    · cases kind <;> exact ⟨by decide,_,_,rfl,by decide⟩
  obtain ⟨clean,c,cs,rfl,kept⟩ := shape
  have start : trimStart (eventPart (c::cs,value)) = (c::cs) ++ '='::value := trimStartKept kept _
  rw [trim,start,trimEndAppend (by decide),splitOnceAppend clean]

theorem readTransition (acc : Advisories.OsvRange V) (kind : OsvEvent) (value : Text) :
    Advisories.readOsvEvent sv acc (eventPart (kindName kind,value)) =
      (transitionAt sv kind (trimEnd value)).map fun bound => {acc with events := acc.events ++ [(bound,kind)]} := by
  simp only [Advisories.readOsvEvent,splitPart (Or.inr ⟨kind,rfl⟩),bind,Option.bind_some,
    if_neg (kindNameLimit kind),osvEventKindName,transitionAt]
  split
  · rfl
  · cases parseSemverForMatching sv (trimEnd value) <;> rfl

theorem readLimit (acc : Advisories.OsvRange V) (value : Text) :
    Advisories.readOsvEvent sv acc (eventPart ("limit".toList,value)) =
      (limitAt sv (trimEnd value)).map fun bound => {acc with limits := acc.limits ++ [bound]} := by
  simp only [Advisories.readOsvEvent,splitPart (Or.inl rfl),bind,Option.bind_some,if_true,limitAt]
  split
  · rfl
  · cases parseSemverForMatching sv (trimEnd value) <;> rfl

/-! The events of a range, read one after the other. -/

structure ReadInto (sv : Package V R) (acc out : Advisories.OsvRange V) (events : List OsvRangeEvent) : Prop where
  valid : ∀ event ∈ events, Valid sv trimEnd event
  transitions : ∀ bound kind, (bound,kind) ∈ out.events ↔
    (bound,kind) ∈ acc.events ∨ ∃ event ∈ events, EventAt sv trimEnd event bound kind
  limits : ∀ bound, bound ∈ out.limits ↔ bound ∈ acc.limits ∨ ∃ event ∈ events, LimitOf sv trimEnd event bound

theorem ReadInto.next {acc mid out : Advisories.OsvRange V} {event : OsvRangeEvent} {rest : List OsvRangeEvent}
    (first : ReadInto sv acc mid [event]) (later : ReadInto sv mid out rest) : ReadInto sv acc out (event::rest) := by
  refine ⟨?_,fun bound kind => ?_,fun bound => ?_⟩
  · intro e mem
    rcases List.mem_cons.mp mem with rfl | mem
    · exact first.valid e (by simp)
    · exact later.valid e mem
  · rw [later.transitions,first.transitions]
    simp [or_assoc]
  · rw [later.limits,first.limits]
    simp [or_assoc]

theorem eventAtField {event : OsvRangeEvent} {kind : OsvEvent} {value : Text}
    (single : eventFields event = [(kindName kind,value)]) {bound : WithBot V} {kind' : OsvEvent} :
    EventAt sv trimEnd event bound kind' ↔ kind' = kind ∧ transitionAt sv kind (trimEnd value) = some bound := by
  simp only [EventAt,single,List.cons.injEq,Prod.mk.injEq,and_true]
  constructor
  · rintro ⟨_,⟨same,rfl⟩,bounded⟩
    cases kindNameInj same
    exact ⟨rfl,bounded⟩
  · rintro ⟨rfl,bounded⟩
    exact ⟨value,⟨rfl,rfl⟩,bounded⟩

theorem readTransitionInto (acc : Advisories.OsvRange V) {event : OsvRangeEvent} {kind : OsvEvent} {value : Text}
    (single : eventFields event = [(kindName kind,value)]) :
    (∀ out, Advisories.readOsvEvent sv acc (eventPart (kindName kind,value)) = some out →
      ReadInto sv acc out [event]) ∧
    (Advisories.readOsvEvent sv acc (eventPart (kindName kind,value)) = none → ¬ Valid sv trimEnd event) := by
  have unlimited : ∀ bound, ¬ LimitOf sv trimEnd event bound := by
    rintro bound ⟨_,same,_⟩
    rw [single] at same
    exact kindNameLimit kind (Prod.mk.inj (List.cons.inj same).1).1
  rw [readTransition]
  cases known : transitionAt sv kind (trimEnd value) with
  | none =>
    refine ⟨by simp,fun _ => ?_⟩
    rintro (⟨bound,kind',at_⟩ | ⟨bound,limit⟩)
    · simpa [known] using ((eventAtField single).mp at_).2
    · exact unlimited bound limit
  | some bound =>
    refine ⟨fun out same => ?_,by simp⟩
    cases Option.some.inj same
    refine ⟨?_,fun b k => ?_,fun b => ?_⟩
    · simp only [List.mem_singleton]
      rintro e rfl
      exact Or.inl ⟨bound,kind,(eventAtField single).mpr ⟨rfl,known⟩⟩
    · simp [eventAtField single,known,eq_comm,and_comm]
    · simp [unlimited]

theorem readLimitInto (acc : Advisories.OsvRange V) {event : OsvRangeEvent} {value : Text}
    (single : eventFields event = [("limit".toList,value)]) :
    (∀ out, Advisories.readOsvEvent sv acc (eventPart ("limit".toList,value)) = some out →
      ReadInto sv acc out [event]) ∧
    (Advisories.readOsvEvent sv acc (eventPart ("limit".toList,value)) = none → ¬ Valid sv trimEnd event) := by
  have untimed : ∀ bound kind, ¬ EventAt sv trimEnd event bound kind := by
    rintro bound kind ⟨_,same,_⟩
    rw [single] at same
    exact kindNameLimit kind (Prod.mk.inj (List.cons.inj same).1).1.symm
  have limits : ∀ bound, LimitOf sv trimEnd event bound ↔ limitAt sv (trimEnd value) = some bound := by
    simp [LimitOf,single]
  rw [readLimit]
  cases known : limitAt sv (trimEnd value) with
  | none =>
    refine ⟨by simp,fun _ => ?_⟩
    rintro (⟨bound,kind,at_⟩ | ⟨bound,limit⟩)
    · exact untimed bound kind at_
    · simpa [known] using (limits bound).mp limit
  | some bound =>
    refine ⟨fun out same => ?_,by simp⟩
    cases Option.some.inj same
    refine ⟨?_,fun b k => ?_,fun b => ?_⟩
    · simp only [List.mem_singleton]
      rintro e rfl
      exact Or.inr ⟨bound,(limits bound).mpr known⟩
    · simp [untimed]
    · simp [limits,known,eq_comm]

theorem readEvents (sv : Package V R) {events : List OsvRangeEvent} {parts : List Text} (written : rangeParts events = some parts)
    (acc : Advisories.OsvRange V) :
    (∀ out, parts.foldlM (Advisories.readOsvEvent sv) acc = some out → ReadInto sv acc out events) ∧
    (parts.foldlM (Advisories.readOsvEvent sv) acc = none → ∃ event ∈ events, ¬ Valid sv trimEnd event) := by
  induction events generalizing parts acc with
  | nil =>
    cases Option.some.inj written
    refine ⟨fun out same => ?_,by simp⟩
    cases Option.some.inj same
    exact ⟨by simp,by simp,by simp⟩
  | cons event rest ih =>
    simp only [rangeParts] at written
    split at written <;> try contradiction
    rename_i one
    obtain ⟨⟨name,value⟩,single⟩ := List.length_eq_one_iff.mp (not_not.mp one)
    obtain ⟨later,hl,rfl⟩ := Option.map_eq_some_iff.mp written
    have first : (∀ out, Advisories.readOsvEvent sv acc (eventPart (name,value)) = some out →
          ReadInto sv acc out [event]) ∧
        (Advisories.readOsvEvent sv acc (eventPart (name,value)) = none → ¬ Valid sv trimEnd event) := by
      have carried : (name,value) ∈ eventFields event := by rw [single]; exact List.mem_singleton_self _
      rcases fieldNames carried with same | ⟨kind,same⟩
      · obtain rfl : name = "limit".toList := same
        exact readLimitInto acc single
      · obtain rfl : name = kindName kind := same
        exact readTransitionInto acc single
    simp only [single,List.map_cons,List.map_nil,List.singleton_append,List.foldlM_cons,bind]
    cases step : Advisories.readOsvEvent sv acc (eventPart (name,value)) with
    | none => exact ⟨by simp,fun _ => ⟨event,by simp,first.2 step⟩⟩
    | some mid =>
      simp only [Option.bind_some]
      refine ⟨fun out same => (first.1 mid step).next ((ih hl mid).1 out same),fun fails => ?_⟩
      obtain ⟨e,mem,invalid⟩ := (ih hl mid).2 fails
      exact ⟨e,List.mem_cons_of_mem _ mem,invalid⟩

theorem partsMem {events : List OsvRangeEvent} {parts : List Text} (written : rangeParts events = some parts)
    {part : Text} (mem : part ∈ parts) : ∃ event ∈ events, ∃ field ∈ eventFields event, part = eventPart field := by
  induction events generalizing parts with
  | nil => cases Option.some.inj written; simp at mem
  | cons event rest ih =>
    simp only [rangeParts] at written
    split at written <;> try contradiction
    obtain ⟨later,hl,rfl⟩ := Option.map_eq_some_iff.mp written
    rcases List.mem_append.mp mem with here | there
    · obtain ⟨field,hf,rfl⟩ := List.mem_map.mp here
      exact ⟨event,by simp,field,hf,rfl⟩
    · obtain ⟨e,he,field,hf,same⟩ := ih hl there
      exact ⟨e,List.mem_cons_of_mem _ he,field,hf,same⟩

/-- No separator of the text format occurs within a part. -/
theorem partClean {range : OsvRange} (clean : CleanRange range) {event : OsvRangeEvent} (inside : event ∈ range.events)
    {field : Text × Text} (carried : field ∈ eventFields event) {c : Char} (separates : c ∈ ",;)".toList) :
    c ∉ eventPart field := by
  have one : c = ',' ∨ c = ';' ∨ c = ')' := by simpa using separates
  have names : c ∉ field.1 ∧ c ≠ '=' := by
    rcases fieldNames carried with same | ⟨kind,same⟩
    · rw [same]; rcases one with rfl | rfl | rfl <;> decide
    · rw [same]; rcases one with rfl | rfl | rfl <;> cases kind <;> decide
  have value : c ∉ field.2 := lacksChar (clean.2 event inside field carried) (by
    rcases one with rfl | rfl | rfl <;> decide)
  simp [eventPart,names,value]

theorem lastAffectedBounded {event : OsvRangeEvent} {bound : WithBot V}
    (h : EventAt sv trimEnd event bound .lastAffected) : bound ≠ ⊥ := by
  obtain ⟨_,_,h⟩ := h
  simp only [transitionAt,reduceCtorEq,false_and,if_false,Option.map_eq_some_iff] at h
  obtain ⟨v,_,rfl⟩ := h
  exact WithBot.coe_ne_bot

theorem hasIff {range : OsvRange} {out : Advisories.OsvRange V} (reading : ReadInto sv ⟨[],[]⟩ out range.events)
    (kind : OsvEvent) : out.has kind = true ↔ Has sv trimEnd range kind := by
  simp only [Advisories.OsvRange.has,List.any_eq_true,decide_eq_true_eq,Prod.exists,Has]
  constructor
  · rintro ⟨bound,_,mem,rfl⟩
    rcases (reading.transitions bound _).mp mem with none_ | ⟨event,inside,at_⟩
    · simp at none_
    · exact ⟨event,inside,bound,at_⟩
  · rintro ⟨event,inside,bound,at_⟩
    exact ⟨bound,kind,(reading.transitions bound kind).mpr (Or.inr ⟨event,inside,at_⟩),rfl⟩

/-! Transitions, walked in their order. -/

variable [LinearOrder V]

def effect (version : V) (event : WithBot V × OsvEvent) : Option Bool :=
  match event.2 with
  | .introduced => if event.1 ≤ version then some true else none
  | .fixed => if event.1 ≤ version then some false else none
  | .lastAffected => if event.1 ≠ ⊥ ∧ event.1 < version then some false else none

theorem applySettles (version : V) : Advisories.applyOsvEvent version = Ranking.settle (effect version) := by
  funext affected event
  obtain ⟨bound,kind⟩ := event
  cases kind <;> simp only [Advisories.applyOsvEvent,effect,Ranking.settle] <;> split <;> rfl

theorem effectOn {version : V} {event : WithBot V × OsvEvent} :
    effect version event = some true ↔ event.2 = .introduced ∧ event.1 ≤ version := by
  obtain ⟨bound,kind⟩ := event
  cases kind <;> simp [effect]

theorem effectOff {version : V} {event : WithBot V × OsvEvent} :
    effect version event = some false ↔ (event.2 = .fixed ∧ event.1 ≤ version) ∨
      (event.2 = .lastAffected ∧ event.1 ≠ ⊥ ∧ event.1 < version) := by
  obtain ⟨bound,kind⟩ := event
  cases kind <;> simp [effect]

/-- At one bound an `introduced` comes before what closes it. -/
theorem keyBelowStart {start : WithBot V} {event : WithBot V × OsvEvent} :
    Advisories.eventKey event < Advisories.eventKey (start,.introduced) ↔ event.1 < start := by
  simp [Advisories.eventKey,Prod.Lex.toLex_lt_toLex,OsvEvent.rank]

theorem settledAffects (events : List (WithBot V × OsvEvent)) (version : V) :
    (Ranking.sortBy Advisories.eventKey events).foldl (Advisories.applyOsvEvent version) false = true ↔
      ∃ start, (start,.introduced) ∈ events ∧ start ≤ version ∧
        (∀ stop, (stop,.fixed) ∈ events → stop ≤ version → stop < start) ∧
        (∀ last, (last,.lastAffected) ∈ events → last ≠ ⊥ → last < version → last < start) := by
  rw [applySettles,Ranking.settledIff (Ranking.sortBySorted Advisories.eventKey events)]
  · simp only [Ranking.memSortBy,effectOn,effectOff]
    constructor
    · rintro ⟨⟨start,kind⟩,mem,⟨rfl,reached⟩,closed⟩
      exact ⟨start,mem,reached,fun stop hs past => keyBelowStart.mp (closed (stop,.fixed) hs (Or.inl ⟨rfl,past⟩)),
        fun last hl bounded past => keyBelowStart.mp (closed (last,.lastAffected) hl (Or.inr ⟨rfl,bounded,past⟩))⟩
    · rintro ⟨start,mem,reached,fixed,last⟩
      refine ⟨(start,.introduced),mem,⟨rfl,reached⟩,?_⟩
      rintro ⟨bound,kind⟩ hb (⟨rfl,past⟩ | ⟨rfl,bounded,past⟩)
      · exact keyBelowStart.mpr (fixed bound hb past)
      · exact keyBelowStart.mpr (last bound hb bounded past)
  · rintro ⟨x,kx⟩ _ ⟨y,ky⟩ _ on off same
    have rank := congrArg (fun key => (ofLex key).2) same
    obtain ⟨rfl,_⟩ := effectOn.mp on
    rcases effectOff.mp off with ⟨rfl,_⟩ | ⟨rfl,_⟩ <;> simp [Advisories.eventKey,OsvEvent.rank] at rank

theorem limitsPermit (limits : List (Option V)) (version : V) :
    (!limits.isEmpty && !limits.any (fun limit => limit.all (fun bound => version < bound))) = false ↔
      (∀ bound, bound ∉ limits) ∨ ∃ bound ∈ limits, ∀ limit ∈ bound, version < limit := by
  cases limits with
  | nil => simp
  | cons limit rest =>
    have some_ : ¬ ∀ bound, bound ∉ limit::rest := fun none_ => none_ limit (by simp)
    simp only [some_,false_or,List.isEmpty_cons,Bool.not_false,Bool.true_and,Bool.not_eq_false',
      List.any_eq_true,Option.all_eq_true,decide_eq_true_eq,Option.mem_def]

theorem osvRangeAffectsIff {range : OsvRange} {out : Advisories.OsvRange V}
    (reading : ReadInto sv ⟨[],[]⟩ out range.events) (version : V) :
    Advisories.osvRangeAffects {out with events := Ranking.sortBy Advisories.eventKey out.events} version = true ↔
      Affects sv trimEnd range version := by
  have transitions : ∀ bound kind, (bound,kind) ∈ out.events ↔
      ∃ event ∈ range.events, EventAt sv trimEnd event bound kind := by simpa using reading.transitions
  have limits : ∀ bound, bound ∈ out.limits ↔ ∃ event ∈ range.events, LimitOf sv trimEnd event bound := by
    simpa using reading.limits
  have permits : ((!out.limits.isEmpty && !out.limits.any (fun limit => limit.all (fun bound => version < bound))) = false) ↔
      ((∀ event ∈ range.events, ∀ bound, ¬ LimitOf sv trimEnd event bound) ∨
        ∃ event ∈ range.events, ∃ bound, LimitOf sv trimEnd event bound ∧ ∀ limit ∈ bound, version < limit) := by
    rw [limitsPermit]
    simp only [limits]
    refine or_congr ⟨fun h e he b hb => h b ⟨e,he,hb⟩,fun h b ⟨e,he,hb⟩ => h e he b hb⟩ ⟨?_,?_⟩
    · rintro ⟨b,⟨e,he,hb⟩,below⟩; exact ⟨e,he,b,hb,below⟩
    · rintro ⟨e,he,b,hb,below⟩; exact ⟨b,⟨e,he,hb⟩,below⟩
  have settled : ((Ranking.sortBy Advisories.eventKey out.events).foldl (Advisories.applyOsvEvent version) false = true) ↔
      ∃ event ∈ range.events, ∃ start, EventAt sv trimEnd event start .introduced ∧ start ≤ version ∧
        (∀ event ∈ range.events, ∀ stop, EventAt sv trimEnd event stop .fixed → stop ≤ version → stop < start) ∧
        (∀ event ∈ range.events, ∀ last, EventAt sv trimEnd event last .lastAffected → last < version → last < start) := by
    rw [settledAffects]
    simp only [transitions]
    constructor
    · rintro ⟨start,⟨e,he,hs⟩,reached,fixed,last⟩
      exact ⟨e,he,start,hs,reached,fun e he b hb => fixed b ⟨e,he,hb⟩,
        fun e he b hb => last b ⟨e,he,hb⟩ (lastAffectedBounded hb)⟩
    · rintro ⟨e,he,start,hs,reached,fixed,last⟩
      exact ⟨start,⟨e,he,hs⟩,reached,fun b ⟨e,he,hb⟩ => fixed e he b hb,fun b ⟨e,he,hb⟩ _ => last e he b hb⟩
  unfold Advisories.osvRangeAffects Affects
  rw [← permits,← settled]
  split
  · rename_i blocked
    simp only [Bool.false_eq_true,false_iff,not_and]
    exact fun open_ => by rw [blocked] at open_; contradiction
  · rename_i open_
    simp only [Bool.not_eq_true] at open_
    simp only [open_,true_and]

/-! A whole range. -/

theorem parseWritten (sv : Package V R) {range : OsvRange} {parts : List Text} (written : rangeParts range.events = some parts)
    (some_ : parts ≠ []) (clean : CleanRange range) :
    (∀ parsed, Advisories.parseOsvEvents sv (join ",".toList parts) = some parsed →
      (∀ event ∈ range.events, Valid sv trimEnd event) ∧ Has sv trimEnd range .introduced ∧
      ¬ (Has sv trimEnd range .fixed ∧ Has sv trimEnd range .lastAffected) ∧
      ∀ version, Advisories.osvRangeAffects parsed version = true ↔ Affects sv trimEnd range version) ∧
    (Advisories.parseOsvEvents sv (join ",".toList parts) = none → ¬ WellFormed sv trimEnd range) := by
  have pieces : split ",".toList (join ",".toList parts) = parts := splitJoin ',' [] some_ fun part mem => by
    obtain ⟨event,inside,field,carried,rfl⟩ := partsMem written mem
    exact partClean clean inside carried (by decide)
  unfold Advisories.parseOsvEvents
  rw [pieces]
  obtain ⟨good,bad⟩ := readEvents sv written ⟨[],[]⟩
  cases folded : parts.foldlM (Advisories.readOsvEvent sv) (⟨[],[]⟩ : Advisories.OsvRange V) with
  | none =>
    refine ⟨by simp,fun _ well => ?_⟩
    obtain ⟨event,inside,invalid⟩ := bad folded
    exact invalid (well.valid event inside)
  | some out =>
    have reading := good out folded
    have shape := fun kind => hasIff reading kind
    simp only [bind,Option.bind_some]
    split
    · rename_i rejected
      refine ⟨by simp,fun _ well => ?_⟩
      have starts := (shape .introduced).mpr well.starts
      simp only [starts,Bool.not_true,Bool.false_or,Bool.and_eq_true,shape] at rejected
      exact well.unmixed rejected
    · rename_i accepted
      refine ⟨fun parsed same => ?_,by simp⟩
      cases Option.some.inj same
      simp only [Bool.or_eq_true,Bool.not_eq_true',Bool.and_eq_true,not_or,Bool.not_eq_false,shape] at accepted
      exact ⟨reading.valid,accepted.1,accepted.2,osvRangeAffectsIff reading⟩

omit [LinearOrder V] in
theorem allValidWritten {events : List OsvRangeEvent} (valid : ∀ event ∈ events, Valid sv read event) :
    ∃ parts, rangeParts events = some parts := by
  induction events with
  | nil => exact ⟨[],rfl⟩
  | cons event rest ih =>
    obtain ⟨later,hl⟩ := ih fun e mem => valid e (List.mem_cons_of_mem _ mem)
    have one : (eventFields event).length = 1 := by
      rcases valid event (by simp) with ⟨_,_,_,single,_⟩ | ⟨_,_,single,_⟩ <;> simp [single]
    exact ⟨(eventFields event).map eventPart ++ later,by simp [rangeParts,one,hl]⟩

theorem partsEmpty {events : List OsvRangeEvent} (written : rangeParts events = some []) : events = [] := by
  cases events with
  | nil => rfl
  | cons event rest =>
    simp only [rangeParts] at written
    split at written <;> try contradiction
    rename_i one
    obtain ⟨later,_,same⟩ := Option.map_eq_some_iff.mp written
    have none_ := (List.append_eq_nil_iff.mp same).1
    simp [List.map_eq_nil_iff.mp none_] at one

theorem stripTyped (name : Text) {rangeType : Text} (named : '(' ∉ name) (clean : '(' ∉ rangeType) (tail : Text) :
    stripPrefix (name ++ ['(']) (rangeType ++ '('::tail) = if rangeType = name then some tail else none := by
  split
  · rename_i same
    subst same
    exact stripPrefixIff.mpr (by simp)
  · rename_i differ
    refine Option.eq_none_iff_forall_ne_some.mpr fun rest same => differ ?_
    have both := stripPrefixIff.mp same
    have left := splitOnceAppend clean tail
    rw [both,List.append_assoc,List.singleton_append,splitOnceAppend named] at left
    exact (Prod.mk.inj (Option.some.inj left)).1.symm

theorem readTyped {rangeType : Text} (clean : '(' ∉ rangeType) (body : Text) :
    Advisories.readOsvRange sv (rangeType ++ '('::(body ++ ")".toList)) =
      if rangeType = "SEMVER".toList ∨ rangeType = "ECOSYSTEM".toList then Advisories.parseOsvEvents sv body else none := by
  have semver := stripTyped "SEMVER".toList (by decide) clean (body ++ ")".toList)
  have ecosystem := stripTyped "ECOSYSTEM".toList (by decide) clean (body ++ ")".toList)
  have lead : "SEMVER(".toList = "SEMVER".toList ++ ['('] ∧ "ECOSYSTEM(".toList = "ECOSYSTEM".toList ++ ['('] := by decide
  unfold Advisories.readOsvRange
  rw [lead.1,lead.2,semver,ecosystem]
  by_cases first : rangeType = "SEMVER".toList
  · rw [if_pos first,if_pos (Or.inl first)]
    simp only [Option.orElse,bind,Option.bind_some,stripSuffixAppend]
  · by_cases second : rangeType = "ECOSYSTEM".toList
    · rw [if_neg first,if_pos second,if_pos (Or.inr second)]
      simp only [Option.orElse,bind,Option.bind_some,stripSuffixAppend]
    · rw [if_neg first,if_neg second,if_neg (not_or.mpr ⟨first,second⟩)]
      rfl

theorem readUntyped {text : Text} (clean : '(' ∉ text) : Advisories.readOsvRange sv text = none := by
  have bare : ∀ lead : Text, '(' ∈ lead → stripPrefix lead text = none := fun lead mem =>
    Option.eq_none_iff_forall_ne_some.mpr fun rest same => clean (by
      rw [stripPrefixIff.mp same]; exact List.mem_append_left _ mem)
  unfold Advisories.readOsvRange
  rw [bare _ (by decide),bare _ (by decide)]
  rfl

/-- A range is stored as one text that reads back to it, or as texts none of which reads. -/
theorem readRange (sv : Package V R) {range : OsvRange} (clean : CleanRange range) :
    (WellFormed sv trimEnd range ∧ ∃ text parsed, rangeTexts range = [text] ∧
      Advisories.readOsvRange sv text = some parsed ∧
      ∀ version, Advisories.osvRangeAffects parsed version = true ↔ Affects sv trimEnd range version) ∨
    (¬ WellFormed sv trimEnd range ∧ rangeTexts range ≠ [] ∧
      ∀ text ∈ rangeTexts range, Advisories.readOsvRange sv text = none) := by
  have typed : '(' ∉ range.rangeType := lacksChar clean.1 (by decide)
  cases written : rangeParts range.events with
  | none =>
    have texts : rangeTexts range = ["osv_invalid_event".toList,range.rangeType] := by rw [rangeTexts,written]
    rw [texts]
    refine Or.inr ⟨fun well => ?_,List.cons_ne_nil _ _,fun text mem => ?_⟩
    · obtain ⟨parts,some_⟩ := allValidWritten trimEnd well.valid
      rw [written] at some_; contradiction
    · rcases List.mem_pair.mp mem with rfl | rfl
      · exact readUntyped (by decide)
      · exact readUntyped typed
  | some parts =>
    cases parts with
    | nil =>
      refine Or.inr ⟨fun well => ?_,by simp [rangeTexts,written],?_⟩
      · obtain ⟨event,inside,_⟩ := well.starts
        simp [partsEmpty written] at inside
      · simp only [rangeTexts,written,List.mem_singleton]
        rintro text rfl
        exact readUntyped typed
    | cons part rest =>
      obtain ⟨good,bad⟩ := parseWritten sv written (by simp) clean
      have text : rangeTexts range =
          [range.rangeType ++ '('::(join ",".toList (part::rest) ++ ")".toList)] := by simp [rangeTexts,written]
      rw [text]
      by_cases semantic : range.rangeType = "SEMVER".toList ∨ range.rangeType = "ECOSYSTEM".toList
      · cases parsed : Advisories.parseOsvEvents sv (join ",".toList (part::rest)) with
        | none =>
          refine Or.inr ⟨bad parsed,by simp,?_⟩
          simp only [List.mem_singleton]
          rintro text rfl
          rw [readTyped typed,if_pos semantic,parsed]
        | some range' =>
          obtain ⟨valid,starts,unmixed,affects⟩ := good range' parsed
          exact Or.inl ⟨⟨semantic,valid,starts,unmixed⟩,_,range',rfl,by rw [readTyped typed,if_pos semantic,parsed],affects⟩
      · refine Or.inr ⟨fun well => semantic well.semantic,by simp,?_⟩
        simp only [List.mem_singleton]
        rintro text rfl
        rw [readTyped typed,if_neg semantic]

end
end RustMcp.OsvRanges
