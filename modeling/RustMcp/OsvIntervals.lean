import RustMcp.OsvRanges

/-! The intervals that an OSV event list stands for, and what its text evaluates to. -/
namespace RustMcp.OsvIntervals
open Str Semver
open Advisories (OsvEvent parseOsvEvents osvRangeAffects)
open OsvRanges (kindName transitionAt limitAt)
open Security (eventPart)

/-- From an `introduced` up to what closes it, if anything does. -/
structure Span (V : Type) [LinearOrder V] where
  start : WithBot V
  stop : Option V
  ordered : ∀ last : V, stop = some last → start < last

section
variable {V : Type} [LinearOrder V]

def Inside (closing : OsvEvent) (version : V) (span : Span V) : Prop :=
  span.start ≤ version ∧ ∀ last, span.stop = some last → if closing = .fixed then version < last else version ≤ last

def Before (span next : Span V) : Prop := ∃ last : V, span.stop = some last ∧ (last : WithBot V) < next.start

/-- Only the last span may stay open. -/
def Alternates (spans : List (Span V)) : Prop := spans.IsChain Before

/-- The transitions of the spans, in their order. -/
def transitions (closing : OsvEvent) (spans : List (Span V)) : List (WithBot V × OsvEvent) :=
  spans.flatMap fun span => (span.start,.introduced) :: span.stop.toList.map fun last => ((last : WithBot V),closing)

def Permitted (limits : List (Option V)) (version : V) : Prop :=
  limits = [] ∨ ∃ limit ∈ limits, ∀ bound ∈ limit, version < bound

theorem beforeTrans {a b c : Span V} (ab : Before a b) (bc : Before b c) : Before a c := by
  obtain ⟨last,stops,before⟩ := ab
  obtain ⟨last',stops',before'⟩ := bc
  exact ⟨last,stops,before.trans ((b.ordered last' stops').trans before')⟩

/-- Of two spans the earlier one is closed before the later one begins. -/
theorem spanOrder {spans : List (Span V)} (alternates : Alternates spans) {span other : Span V} (mem : span ∈ spans)
    (mem' : other ∈ spans) : span = other ∨ Before span other ∨ Before other span := by
  have : IsTrans (Span V) Before := ⟨fun _ _ _ => beforeTrans⟩
  have either : spans.Pairwise fun a b => a = b ∨ Before a b ∨ Before b a :=
    (List.IsChain.pairwise alternates).imp fun before => Or.inr (Or.inl before)
  have : Std.Symm fun a b : Span V => a = b ∨ Before a b ∨ Before b a :=
    ⟨fun _ _ order => order.imp Eq.symm Or.symm⟩
  have same : ∀ a ∈ spans, a = a ∨ Before a a ∨ Before a a := fun _ _ => Or.inl rfl
  exact List.Pairwise.forall_of_forall same either mem mem'

theorem memTransitions {closing : OsvEvent} {spans : List (Span V)} {bound : WithBot V} {kind : OsvEvent} :
    (bound,kind) ∈ transitions closing spans ↔ ∃ span ∈ spans,
      (bound = span.start ∧ kind = .introduced) ∨ ∃ last : V, span.stop = some last ∧ bound = last ∧ kind = closing := by
  simp [transitions,eq_comm]

/-- Whether a version is past the end of a span. -/
def Past (closing : OsvEvent) (last version : V) : Prop := if closing = .fixed then last ≤ version else last < version

theorem insideOpen {closing : OsvEvent} {version : V} {span : Span V} (inside : Inside closing version span) {last : V}
    (stops : span.stop = some last) : ¬Past closing last version := by
  have within := inside.2 last stops
  unfold Past
  by_cases fixed : closing = .fixed
  · rw [if_pos fixed] at within ⊢
    exact not_le.mpr within
  · rw [if_neg fixed] at within ⊢
    exact not_lt.mpr within

theorem pastEarlier {closing : OsvEvent} {last last' version : V} (earlier : last' < last) (past : Past closing last version) :
    Past closing last' version := by
  unfold Past at *
  split at past
  · rename_i fixed
    rw [if_pos fixed]
    exact (earlier.trans_le past).le
  · rename_i other
    rw [if_neg other]
    exact earlier.trans past

/-- What ends at or before a version ends before every span that the version is in. -/
theorem endedBefore {closing : OsvEvent} {spans : List (Span V)} (alternates : Alternates spans) {version : V}
    {span other : Span V} (mem : span ∈ spans) (inside : Inside closing version span) (mem' : other ∈ spans) {last : V}
    (stops : other.stop = some last) (past : Past closing last version) : (last : WithBot V) < span.start := by
  rcases spanOrder alternates mem' mem with same | ⟨last',stops',before⟩ | ⟨last',stops',before⟩
  · exact absurd past (insideOpen inside (same ▸ stops))
  · cases Option.some.inj (stops.symm.trans stops')
    exact before
  · have earlier : (last' : WithBot V) < last := before.trans (other.ordered last stops)
    exact absurd (pastEarlier (WithBot.coe_lt_coe.mp earlier) past) (insideOpen inside stops')

theorem transitionsAffect {closing : OsvEvent} (closes : closing ≠ .introduced) {spans : List (Span V)}
    (alternates : Alternates spans) {events : List (WithBot V × OsvEvent)} (listed : events.Perm (transitions closing spans))
    (version : V) : (Ranking.sortBy Advisories.eventKey events).foldl (Advisories.applyOsvEvent version) false = true ↔
      ∃ span ∈ spans, Inside closing version span := by
  rw [OsvRanges.settledAffects]
  simp only [listed.mem_iff,memTransitions]
  constructor
  · rintro ⟨start,⟨span,mem,own⟩,reached,fixed,last⟩
    obtain rfl : start = span.start := (own.resolve_right fun other => by
      obtain ⟨_,_,_,same⟩ := other
      exact closes same.symm).1
    refine ⟨span,mem,reached,fun stop stops => ?_⟩
    have after : ¬(stop : WithBot V) < span.start := not_lt.mpr (span.ordered stop stops).le
    split
    · rename_i isFixed
      by_contra past
      exact after (fixed stop ⟨span,mem,Or.inr ⟨stop,stops,rfl,isFixed.symm⟩⟩ (WithBot.coe_le_coe.mpr (not_lt.mp past)))
    · rename_i notFixed
      have isLast : closing = .lastAffected := by cases closing <;> simp_all
      by_contra past
      exact after (last stop ⟨span,mem,Or.inr ⟨stop,stops,rfl,isLast.symm⟩⟩ (WithBot.coe_ne_bot)
        (WithBot.coe_lt_coe.mpr (not_le.mp past)))
  · rintro ⟨span,mem,inside⟩
    refine ⟨span.start,⟨span,mem,Or.inl ⟨rfl,trivial⟩⟩,inside.1,?_,?_⟩
    · rintro stop ⟨other,mem',either⟩ past
      obtain ⟨last,stops,rfl,isFixed⟩ := either.resolve_left fun own => by cases own.2
      refine endedBefore alternates mem inside mem' stops ?_
      rw [Past,if_pos isFixed.symm]
      exact WithBot.coe_le_coe.mp past
    · rintro stop ⟨other,mem',either⟩ _ past
      obtain ⟨last,stops,rfl,isLast⟩ := either.resolve_left fun own => by cases own.2
      refine endedBefore alternates mem inside mem' stops ?_
      rw [Past,if_neg (by rw [← isLast]; decide)]
      exact WithBot.coe_lt_coe.mp past

end

/-! The text of the events. -/

section
variable {V R : Type} (sv : Package V R)

/-- Events with what they read as: transitions in any order, and limits anywhere among them. -/
inductive Written : List (Text × Text) → List (WithBot V × OsvEvent) → List (Option V) → Prop where
  | nil : Written [] [] []
  | transition {kind : OsvEvent} {value : Text} {bound : WithBot V} {fields : List (Text × Text)}
      {events : List (WithBot V × OsvEvent)} {limits : List (Option V)} (reads : transitionAt sv kind value = some bound)
      (rest : Written fields events limits) : Written ((kindName kind,value)::fields) ((bound,kind)::events) limits
  | limit {value : Text} {bound : Option V} {fields : List (Text × Text)} {events : List (WithBot V × OsvEvent)}
      {limits : List (Option V)} (reads : limitAt sv value = some bound) (single : ',' ∉ value)
      (rest : Written fields events limits) : Written (("limit".toList,value)::fields) events (bound::limits)

def eventsText (fields : List (Text × Text)) : Text := join ",".toList (fields.map eventPart)

/-- The same event, or one whose bound has other build metadata. -/
def SameBound (field other : Text × Text) : Prop :=
  field.1 = other.1 ∧ (field.2 = other.2 ∨ SameButBuild sv field.2 other.2)

variable {sv} (grammar : sv.Grammar)
include grammar

theorem boundEnds {value : Text} {v : V} (parsed : parseSemverForMatching sv value = some v) : trimEnd value = value := by
  rw [trimEnd,List.rdropWhile_eq_self_iff]
  intro some_ space
  rw [versionNotSpace (matchingChars grammar parsed _ (List.getLast_mem some_))] at space
  contradiction

theorem transitionEnds {kind : OsvEvent} {value : Text} {bound : WithBot V} (reads : transitionAt sv kind value = some bound) :
    trimEnd value = value ∧ ',' ∉ value := by
  unfold transitionAt at reads
  split at reads
  · rename_i start
    rw [start.2]
    decide
  · obtain ⟨v,parsed,_⟩ := Option.map_eq_some_iff.mp reads
    exact ⟨boundEnds grammar parsed,fun comma => absurd (matchingChars grammar parsed _ comma) (by decide)⟩

theorem limitEnds {value : Text} {bound : Option V} (reads : limitAt sv value = some bound) :
    limitAt sv (trimEnd value) = some bound := by
  unfold limitAt at reads
  split at reads
  · rename_i star
    have kept : (trimEnd value).contains '*' = true :=
      List.contains_iff_mem.mpr (keptAtEnd (by decide) (List.contains_iff_mem.mp star))
    rw [limitAt,if_pos kept]
    exact reads
  · rename_i plain
    obtain ⟨v,parsed,_⟩ := Option.map_eq_some_iff.mp reads
    rw [boundEnds grammar parsed,limitAt,if_neg plain]
    exact reads

theorem readsFields {fields : List (Text × Text)} {events : List (WithBot V × OsvEvent)} {limits : List (Option V)}
    (written : Written sv fields events limits) (acc : Advisories.OsvRange V) :
    (fields.map eventPart).foldlM (Advisories.readOsvEvent sv) acc =
      some ⟨acc.events ++ events,acc.limits ++ limits⟩ := by
  induction written generalizing acc with
  | nil => simp
  | transition reads _ ih =>
    rw [List.map_cons,List.foldlM_cons,OsvRanges.readTransition,(transitionEnds grammar reads).1,reads]
    simp [ih]
  | limit reads _ _ ih =>
    rw [List.map_cons,List.foldlM_cons,OsvRanges.readLimit,limitEnds grammar reads]
    simp [ih]

omit grammar in
theorem partSingle {name value : Text} (known : name = "limit".toList ∨ ∃ kind, name = kindName kind) (single : ',' ∉ value) :
    ',' ∉ eventPart (name,value) := by
  have named : ',' ∉ name := by
    rcases known with rfl | ⟨kind,rfl⟩
    · decide
    · cases kind <;> decide
  simp [eventPart,named,single]

theorem partsSingle {fields : List (Text × Text)} {events : List (WithBot V × OsvEvent)} {limits : List (Option V)}
    (written : Written sv fields events limits) : ∀ part ∈ fields.map eventPart, ',' ∉ part := by
  induction written with
  | nil => simp
  | transition reads _ ih =>
    exact List.forall_mem_cons.mpr ⟨partSingle (Or.inr ⟨_,rfl⟩) (transitionEnds grammar reads).2,ih⟩
  | limit _ single _ ih => exact List.forall_mem_cons.mpr ⟨partSingle (Or.inl rfl) single,ih⟩

variable [LinearOrder V]

theorem parsesFields {closing : OsvEvent} {fields : List (Text × Text)} {events : List (WithBot V × OsvEvent)}
    {limits : List (Option V)} (written : Written sv fields events limits) {spans : List (Span V)} (some_ : spans ≠ [])
    (listed : events.Perm (transitions closing spans)) :
    parseOsvEvents sv (eventsText fields) = some ⟨Ranking.sortBy Advisories.eventKey events,limits⟩ := by
  obtain ⟨first,rest,rfl⟩ := List.exists_cons_of_ne_nil some_
  have starts : (first.start,OsvEvent.introduced) ∈ events :=
    listed.mem_iff.mpr (memTransitions.mpr ⟨first,List.mem_cons_self,Or.inl ⟨rfl,rfl⟩⟩)
  have kinds : ∀ event ∈ events, event.2 = .introduced ∨ event.2 = closing := fun event mem => by
    obtain ⟨_,_,⟨_,kind⟩ | ⟨_,_,_,kind⟩⟩ := memTransitions.mp (listed.mem_iff.mp mem)
    · exact Or.inl kind
    · exact Or.inr kind
  have pieces : fields.map eventPart ≠ [] := by
    intro none_
    cases written with
    | nil => contradiction
    | transition => contradiction
    | limit => contradiction
  have read := readsFields grammar written ⟨[],[]⟩
  rw [List.nil_append,List.nil_append] at read
  have introduced : Advisories.OsvRange.has ⟨events,limits⟩ .introduced = true :=
    List.any_eq_true.mpr ⟨_,starts,by simp⟩
  have unmixed : (Advisories.OsvRange.has ⟨events,limits⟩ .fixed && Advisories.OsvRange.has ⟨events,limits⟩ .lastAffected) = false := by
    rw [Bool.and_eq_false_iff]
    by_cases fixed : closing = .fixed
    · refine Or.inr (List.any_eq_false.mpr fun event mem => ?_)
      rcases kinds event mem with kind | kind <;> simp [kind,fixed]
    · refine Or.inl (List.any_eq_false.mpr fun event mem => ?_)
      rcases kinds event mem with kind | kind <;> simp [kind,fixed]
  have split_ : split ",".toList (eventsText fields) = fields.map eventPart := splitJoin ',' [] pieces (partsSingle grammar written)
  simp only [parseOsvEvents,split_,read,bind,Option.bind_some,introduced,unmixed,Bool.not_true,Bool.or_self,Bool.false_eq_true,
    if_false]

omit grammar in
/-- Below a limit, if there is one, and in a span. -/
theorem affectsSpans {closing : OsvEvent} (closes : closing ≠ .introduced) {spans : List (Span V)}
    (alternates : Alternates spans) {events : List (WithBot V × OsvEvent)} (listed : events.Perm (transitions closing spans))
    (limits : List (Option V)) (version : V) :
    osvRangeAffects ⟨Ranking.sortBy Advisories.eventKey events,limits⟩ version = true ↔
      (∃ span ∈ spans, Inside closing version span) ∧ Permitted limits version := by
  have permitted : (!limits.isEmpty && !limits.any fun limit => limit.all fun bound => version < bound) = false ↔
      Permitted limits version := by
    rw [OsvRanges.limitsPermit,Permitted,List.eq_nil_iff_forall_not_mem]
  rw [← transitionsAffect closes alternates listed,← permitted,osvRangeAffects]
  split
  · rename_i blocked
    rw [blocked]
    simp
  · rename_i open_
    simp [Bool.eq_false_iff.mpr open_]

omit [LinearOrder V] in
theorem sameWritten {fields fields' : List (Text × Text)} {events : List (WithBot V × OsvEvent)} {limits : List (Option V)}
    (written : Written sv fields events limits) (same : List.Forall₂ (SameBound sv) fields fields') :
    Written sv fields' events limits := by
  -- a text that differs in build metadata is a version's, so neither `0` nor a wildcard
  have plain : ∀ {a b : Text}, SameButBuild sv a b → ∀ c, versionChar c = false → c ∉ b := by
    rintro a b ⟨_,y,_,parsed,_⟩ c other mem
    have read : parseSemverForMatching sv b = some (sv.clearBuild y) := by rw [parseSemverForMatching,parsed]; rfl
    rw [matchingChars grammar read c mem] at other
    contradiction
  have zero : ∀ {a : Text}, (parseSemverForMatching sv a).isSome = true → a ≠ "0".toList := by
    rintro a parsed rfl
    obtain ⟨v,parsed⟩ := Option.isSome_iff_exists.mp parsed
    obtain ⟨x,read,_⟩ := Option.map_eq_some_iff.mp parsed
    exact absurd (grammar.dotted _ x read) (by decide)
  induction written generalizing fields' with
  | nil => cases same; exact .nil
  | @transition kind value bound _ _ _ reads _ ih =>
    obtain ⟨⟨name,other⟩,rest,⟨named,either⟩,later,rfl⟩ := List.forall₂_cons_left_iff.mp same
    cases named
    refine .transition ?_ (ih later)
    rcases either with rfl | build
    · exact reads
    · have equal := matchingSame build
      rw [transitionAt,if_neg fun start => zero equal.2 start.2,equal.1] at reads
      rw [transitionAt,if_neg fun start => zero (equal.1 ▸ equal.2) start.2]
      exact reads
  | @limit value bound _ _ _ reads single _ ih =>
    obtain ⟨⟨name,other⟩,rest,⟨named,either⟩,later,rfl⟩ := List.forall₂_cons_left_iff.mp same
    cases named
    rcases either with rfl | build
    · exact .limit reads single (ih later)
    · have equal := matchingSame build
      have star : value.contains '*' ≠ true := fun star => by
        obtain ⟨v,parsed⟩ := Option.isSome_iff_exists.mp equal.2
        exact absurd (matchingChars grammar parsed '*' (List.contains_iff_mem.mp star)) (by decide)
      have star' : other.contains '*' ≠ true := fun star => plain build '*' (by decide) (List.contains_iff_mem.mp star)
      refine .limit ?_ (plain build ',' (by decide)) (ih later)
      rw [limitAt,if_neg star,equal.1] at reads
      rw [limitAt,if_neg star']
      exact reads

end

theorem affectsIffInSpan {V R : Type} [LinearOrder V] (sv : Package V R) (grammar : sv.Grammar) {closing : OsvEvent}
    (closes : closing ≠ .introduced) {spans : List (Span V)} (some_ : spans ≠ []) (alternates : Alternates spans)
    {fields : List (Text × Text)} {events : List (WithBot V × OsvEvent)} {limits : List (Option V)}
    (written : Written sv fields events limits) (listed : events.Perm (transitions closing spans)) {version : Text} {v : V}
    (parsed : parseSemverForMatching sv version = some v) :
    ((parseOsvEvents sv (eventsText fields)).map (fun range => osvRangeAffects range v) = some true ↔
      (∃ span ∈ spans, Inside closing v span) ∧ Permitted limits v) ∧
    ∀ fields' version' v', List.Forall₂ (SameBound sv) fields fields' → SameButBuild sv version version' →
      parseSemverForMatching sv version' = some v' →
      (parseOsvEvents sv (eventsText fields')).map (fun range => osvRangeAffects range v') =
        (parseOsvEvents sv (eventsText fields)).map (fun range => osvRangeAffects range v) := by
  constructor
  · rw [parsesFields grammar written some_ listed,Option.map_some,Option.some.injEq]
    exact affectsSpans closes alternates listed limits v
  · intro fields' version' v' same build parsed'
    have equal : v = v' := Option.some.inj (parsed.symm.trans ((matchingSame build).1.trans parsed'))
    rw [parsesFields grammar (sameWritten grammar written same) some_ listed,parsesFields grammar written some_ listed,equal]

/-! Affected below 1.0.0 and again from 1.2.0 on, if below 2.0.0. -/

def demoSpans : List (Span Nat) :=
  [⟨⊥,some 100,fun _ _ => WithBot.bot_lt_coe _⟩,⟨(120 : Nat),none,fun _ stops => by contradiction⟩]

def demoFields : List (Text × Text) :=
  [(kindName .introduced,"1.2.0".toList),("limit".toList,"2.0.0".toList),(kindName .fixed,"1.0.0".toList),
    (kindName .introduced,"0".toList)]

def demoEvents : List (WithBot Nat × OsvEvent) := [((120 : Nat),.introduced),((100 : Nat),.fixed),(⊥,.introduced)]

theorem affectsIffInSpanAgain :
    (parseOsvEvents demoPackage (eventsText demoFields)).map (fun range => osvRangeAffects range 150) = some true := by
  have closes : OsvEvent.fixed ≠ .introduced := by decide
  have alternates : Alternates demoSpans := .cons_cons ⟨100,rfl,by decide⟩ (.singleton _)
  have written : Written demoPackage demoFields demoEvents [some 200] :=
    .transition (by decide) (.limit (by decide) (by decide) (.transition (by decide) (.transition (by decide) .nil)))
  have listed : demoEvents.Perm (transitions .fixed demoSpans) := by decide
  have parsed : parseSemverForMatching demoPackage "1.5.0".toList = some 150 := by decide
  refine (affectsIffInSpan demoPackage demoGrammar closes (List.cons_ne_nil _ _) alternates written listed parsed).1.mpr ⟨?_,?_⟩
  · exact ⟨_,List.mem_cons_of_mem _ List.mem_cons_self,by decide,fun _ stops => by contradiction⟩
  · exact Or.inr ⟨some 200,List.mem_singleton_self _,fun bound mem => by cases mem; decide⟩

end RustMcp.OsvIntervals
