import RustMcp.Splitting
import RustMcp.StdioProxy

/-! Server-sent events as lists of lines, how they are written with either line ending, and
what the adapter reads from them. -/
namespace RustMcp.EventStream
open Str StdioProxy Splitting

/-- A text within one line. -/
def Clean := {text : Text // '\n' ∉ text ∧ '\r' ∉ text}

inductive Field where
  | event | id | retry

def Field.name : Field → Text
  | .event => "event".toList
  | .id => "id".toList
  | .retry => "retry".toList

inductive Line where
  | data (space : Bool) (text : Clean)
  | field (name : Field) (space : Bool) (value : Clean)
  | comment (text : Clean)

def gap (space : Bool) : Text := if space then [' '] else []

def Line.raw : Line → Text
  | .data space text => "data:".toList ++ (gap space ++ text.val)
  | .field name space value => name.name ++ ':'::(gap space ++ value.val)
  | .comment text => ':'::text.val

def Line.dataText : Line → Option Text
  | .data _ text => some text.val
  | _ => none

structure Event where
  lines : List Line
  some_ : lines ≠ []

def Event.texts (event : Event) : List Text := event.lines.filterMap Line.dataText

/-- What a stream carries: the events whose data is JSON. -/
def valuesOf (fromStr : Text → Option Json) (stream : List Event) : List Json :=
  stream.filterMap fun event => if event.texts.isEmpty then none else fromStr (join ['\n'] event.texts)

/-- A blank line ends an event. -/
def rawLines (stream : List Event) : List Text := stream.flatMap fun event => event.lines.map Line.raw ++ [[]]

def written (eol : Text) (lines : List Text) : Text := lines.flatMap (· ++ eol)

def isJsonBlank (c : Char) : Bool := [' ','\t','\n','\r'].contains c

/-- At the start of a text or behind a raw line feed, which no string has. -/
def AtStart (lead : Text) : Prop := lead = [] ∨ ['\n'] <:+ lead

/-- What a decoder of JSON does with white space at the start of a line. -/
structure ReadsJson (fromStr : Text → Option Json) : Prop where
  empty : fromStr [] = none
  blank : ∀ lead c rest, AtStart lead → isJsonBlank c = true → fromStr (lead ++ c::rest) = fromStr (lead ++ rest)
  other : ∀ lead c rest, AtStart lead → isJsonBlank c = false → isWhiteSpace c = true → fromStr (lead ++ c::rest) = none

/-- The data of all events, as if it were one event's, with no white space at the start of a line. -/
def wholeData (stream : List Event) : Text := join ['\n'] ((stream.flatMap Event.texts).map trimStart)

/-- Where a line feed ends the lines: no data that is not JSON is JSON once the white space at
the start of its lines is gone. -/
def StaysUnread (fromStr : Text → Option Json) (stream : List Event) : Prop :=
  ∀ event ∈ stream, fromStr (join ['\n'] event.texts) = none → fromStr (join ['\n'] (event.texts.map trimStart)) = none

/-- Where a carriage return and a line feed do: one value at most, which the data of all
events together is read as. -/
def ReadAsOne (fromStr : Text → Option Json) (stream : List Event) : Prop :=
  match valuesOf fromStr stream with
  | [] => fromStr (wholeData stream) = none
  | [value] => fromStr (wholeData stream) = some value
  | _ => False

section
variable {fromStr : Text → Option Json} (reads : ReadsJson fromStr)
include reads

theorem startsDropped {lead : Text} (start : AtStart lead) {text rest : Text} {value : Json}
    (read : fromStr (lead ++ (text ++ rest)) = some value) : fromStr (lead ++ (trimStart text ++ rest)) = some value := by
  induction text with
  | nil => exact read
  | cons c text ih =>
    cases white : isWhiteSpace c with
    | false => rwa [trimStartKept white]
    | true =>
      have dropped : trimStart (c::text) = trimStart text := by simp [trimStart,white]
      rw [List.cons_append] at read
      cases json : isJsonBlank c with
      | false => exact absurd read (by simp [reads.other lead c (text ++ rest) start json white])
      | true =>
        rw [reads.blank lead c (text ++ rest) start json] at read
        exact dropped ▸ ih read

/-- White space at the start of its lines does not make a text JSON, or another value. -/
theorem linesDropped {parts : List Text} {value : Json} : ∀ {lead : Text}, AtStart lead →
    fromStr (lead ++ join ['\n'] parts) = some value → fromStr (lead ++ join ['\n'] (parts.map trimStart)) = some value := by
  induction parts with
  | nil => exact fun _ read => read
  | cons part parts ih =>
    intro lead start read
    cases parts with
    | nil =>
      have alone : fromStr (lead ++ (trimStart part ++ [])) = some value := startsDropped reads start (by simpa [join] using read)
      simpa [join] using alone
    | cons next more =>
      rw [joinCons] at read
      have here := startsDropped reads start read
      rw [List.map_cons,List.map_cons,joinCons,← List.map_cons]
      have started : AtStart (lead ++ trimStart part ++ ['\n']) := Or.inr (List.suffix_append _ _)
      have later := ih started (by simpa using here)
      simpa using later

theorem blankUnread {text : Text} (blank : ∀ c ∈ text, isWhiteSpace c = true) : fromStr text = none := by
  induction text with
  | nil => exact reads.empty
  | cons c text ih =>
    obtain ⟨here,later⟩ := List.forall_mem_cons.mp blank
    cases json : isJsonBlank c with
    | false => exact reads.other [] c text (Or.inl rfl) json here
    | true => exact (reads.blank [] c text (Or.inl rfl) json).trans (ih later)

end

/-! Lines. -/

/-- A line that can be told from a blank one, and from the line behind it. -/
structure Whole (line : Text) : Prop where
  feed : '\n' ∉ line
  carriage : '\r' ∉ line
  some_ : line ≠ []

def spaced (space : Bool) (text : Clean) : Clean :=
  ⟨gap space ++ text.val,by cases space <;> simp [gap,text.property.1],by cases space <;> simp [gap,text.property.2]⟩

theorem wholeLed {lead : Text} (some_ : lead ≠ []) (feed : '\n' ∉ lead) (carriage : '\r' ∉ lead) (rest : Clean) :
    Whole (lead ++ rest.val) where
  feed mem := (List.mem_append.mp mem).elim feed rest.property.1
  carriage mem := (List.mem_append.mp mem).elim carriage rest.property.2
  some_ := List.append_ne_nil_of_left_ne_nil some_ _

theorem rawWhole (line : Line) : Whole line.raw := by
  cases line with
  | data space text => exact wholeLed (by decide) (by decide) (by decide) (spaced space text)
  | field name space value =>
    change Whole (name.name ++ ':'::(spaced space value).val)
    rw [List.append_cons]
    have some_ : name.name ++ [':'] ≠ [] := List.append_ne_nil_of_right_ne_nil _ (List.cons_ne_nil _ _)
    exact wholeLed some_ (by cases name <;> decide) (by cases name <;> decide) (spaced space value)
  | comment text => exact wholeLed (List.cons_ne_nil ':' []) (by decide) (by decide) text

/-- Only a data line is read, with one space or none behind the colon. -/
theorem rawData (line : Line) : dataOf line.raw = line.dataText.map trimStart := by
  cases line with
  | data space text =>
    have stripped : stripPrefix "data:".toList (Line.raw (.data space text)) = some (gap space ++ text.val) := stripPrefixIff.mpr rfl
    rw [dataOf,stripped]
    cases space with
    | false => rfl
    | true => exact congrArg some (List.dropWhile_cons_of_pos rfl)
  | field name space value => cases name <;> rfl
  | comment text => rfl

theorem rawsData (lines : List Line) :
    (lines.map Line.raw).filterMap dataOf = (lines.filterMap Line.dataText).map trimStart := by
  rw [List.filterMap_map,List.map_filterMap]
  exact congrArg (List.filterMap · lines) (funext rawData)

theorem feedLead {line rest : Text} (clean : '\n' ∉ line) (other : ¬ ['\n'] <+: rest) :
    split ['\n','\n'] (line ++ '\n'::rest) = (split ['\n','\n'] rest).modifyHead (line ++ ['\n'] ++ ·) := by
  have apart : Apart ['\n','\n'] (line ++ ['\n']) rest := by
    intro ending ends some_ opens
    rcases List.suffix_concat_iff.mp ends with rfl | ⟨lead,rfl,within⟩
    · exact some_ rfl
    · cases lead with
      | nil => exact other (List.cons_prefix_cons.mp opens).2
      | cons c lead =>
        obtain ⟨rfl,-⟩ := List.cons_prefix_cons.mp opens
        exact clean (within.subset List.mem_cons_self)
  simpa using splitLead apart

theorem writtenCons (eol line : Text) (lines : List Text) : written eol (line::lines) = line ++ (eol ++ written eol lines) := by
  simp [written]

theorem feedFirst {line : Text} (whole : Whole line) (rest : Text) : ¬ ['\n'] <+: line ++ rest := by
  cases line with
  | nil => exact absurd rfl whole.some_
  | cons c line =>
    intro opens
    exact whole.feed ((List.cons_prefix_cons.mp opens).1 ▸ List.mem_cons_self)

/-- Lines that a blank one follows are one piece. -/
theorem eventSplit {lines : List Text} (some_ : lines ≠ []) (whole : ∀ line ∈ lines, Whole line) (rest : Text) :
    split ['\n','\n'] (written ['\n'] (lines ++ [[]]) ++ rest) = join ['\n'] lines::split ['\n','\n'] rest := by
  induction lines with
  | nil => exact absurd rfl some_
  | cons line lines ih =>
    obtain ⟨here,later⟩ := List.forall_mem_cons.mp whole
    cases lines with
    | nil => simpa [written,join] using splitCleanAppend ['\n'] here.feed rest
    | cons next more =>
      have other : ¬ ['\n'] <+: written ['\n'] ((next::more) ++ [[]]) ++ rest := by
        rw [List.cons_append,writtenCons,List.append_assoc]
        exact feedFirst (later next List.mem_cons_self) _
      have first := feedLead here.feed other
      rw [ih (List.cons_ne_nil _ _) later] at first
      rw [List.cons_append,writtenCons,joinCons]
      simpa using first

theorem streamSplit (stream : List Event) : split ['\n','\n'] (written ['\n'] (rawLines stream)) =
    stream.map (fun event => join ['\n'] (event.lines.map Line.raw)) ++ [[]] := by
  induction stream with
  | nil => rfl
  | cons event stream ih =>
    have lines : written ['\n'] (rawLines (event::stream)) =
        written ['\n'] (event.lines.map Line.raw ++ [[]]) ++ written ['\n'] (rawLines stream) := by
      simp [written,rawLines]
    rw [lines,eventSplit (by simpa using event.some_) (by simpa using fun line _ => rawWhole line),ih]
    rfl

theorem linesJoin {lines : List Text} (whole : ∀ line ∈ lines, Whole line) : Str.lines (join ['\n'] lines) = lines := by
  induction lines with
  | nil => rfl
  | cons line lines ih =>
    obtain ⟨here,later⟩ := List.forall_mem_cons.mp whole
    cases lines with
    | nil => simpa [join] using linesSingle here.some_ here.feed
    | cons next more =>
      rw [joinCons,List.singleton_append,linesCons here.feed here.carriage,ih later]

/-- With carriage returns there are never two line feeds in a row. -/
theorem crlfSplit {lines : List Text} (clean : ∀ line ∈ lines, '\n' ∉ line) :
    split ['\n','\n'] (written ['\r','\n'] lines) = [written ['\r','\n'] lines] := by
  induction lines with
  | nil => rfl
  | cons line lines ih =>
    obtain ⟨here,later⟩ := List.forall_mem_cons.mp clean
    have other : ¬ ['\n'] <+: written ['\r','\n'] lines := by
      cases lines with
      | nil => simp [written]
      | cons next more =>
        rw [writtenCons]
        intro opens
        cases next with
        | nil => exact absurd (List.cons_prefix_cons.mp opens).1 (by decide)
        | cons c next =>
          exact later _ List.mem_cons_self ((List.cons_prefix_cons.mp opens).1 ▸ List.mem_cons_self)
    have ended : '\n' ∉ line ++ ['\r'] := by simpa using here
    have first := feedLead ended other
    rw [ih later] at first
    rw [writtenCons]
    simpa using first

theorem crlfLines {lines : List Text} (clean : ∀ line ∈ lines, '\n' ∉ line) : Str.lines (written ['\r','\n'] lines) = lines := by
  induction lines with
  | nil => rfl
  | cons line lines ih =>
    obtain ⟨here,later⟩ := List.forall_mem_cons.mp clean
    have clean : '\n' ∉ line ++ ['\r'] := by simpa using here
    have first := splitInclusiveLine clean (written ['\r','\n'] lines)
    have ended : stripLineEnd (line ++ ['\r'] ++ ['\n']) = line := by
      rw [stripLineEnd,stripSuffixAppend]
      change (stripSuffix ['\r'] (line ++ ['\r'])).getD _ = line
      rw [stripSuffixAppend]
      rfl
    rw [writtenCons]
    simp only [List.append_assoc,List.cons_append,List.nil_append] at first ended ⊢
    rw [Str.lines,first,List.map_cons,ended]
    exact congrArg (line::·) (ih later)

/-! The stream. -/

theorem trimBlank {text : Text} (blank : trim text = []) : ∀ c ∈ text, isWhiteSpace c = true := by
  have start : trimStart text = [] := by
    cases kept : trimStart text with
    | nil => rfl
    | cons c rest =>
      have first := List.head?_dropWhile_not isWhiteSpace text
      rw [show text.dropWhile isWhiteSpace = c::rest from kept] at first
      rw [trim,kept,← List.nil_append (c::rest),trimEndAppend (by simpa using first)] at blank
      cases blank
  exact fun c mem => List.dropWhile_eq_nil_iff.mp start c mem

theorem eventRead {wire : Wire} (reads : ReadsJson wire.fromStr) (event : Text) :
    sseEvent wire event = wire.fromStr (join ['\n'] ((lines event).filterMap dataOf)) := by
  change (if (trim (join ['\n'] ((lines event).filterMap dataOf))).isEmpty = true then none else wire.fromStr _) = _
  split
  · rename_i blank
    exact (blankUnread reads (trimBlank (List.isEmpty_iff.mp blank))).symm
  · rfl

theorem valuesRead {wire : Wire} (reads : ReadsJson wire.fromStr) (stream : List Event) :
    valuesOf wire.fromStr stream = stream.filterMap fun event => wire.fromStr (join ['\n'] event.texts) := by
  refine congrArg (List.filterMap · stream) (funext fun event => ?_)
  split
  · rename_i none_
    rw [List.isEmpty_iff.mp none_]
    exact reads.empty.symm
  · rfl

theorem feedRead {wire : Wire} (reads : ReadsJson wire.fromStr) (stream : List Event) :
    parseSseJsonEvents wire (written ['\n'] (rawLines stream)) =
      stream.filterMap fun event => wire.fromStr (join ['\n'] (event.texts.map trimStart)) := by
  have pieces := congrArg (List.filterMap (sseEvent wire)) (streamSplit stream)
  rw [List.filterMap_append,List.filterMap_map] at pieces
  have last : [[]].filterMap (sseEvent wire) = [] := rfl
  rw [last,List.append_nil] at pieces
  refine pieces.trans (congrArg (List.filterMap · stream) (funext fun event => ?_))
  have read := eventRead reads (join ['\n'] (event.lines.map Line.raw))
  rw [linesJoin (by simpa using fun line _ => rawWhole line),rawsData] at read
  rw [Function.comp_apply,read]
  rfl

theorem carriageRead {wire : Wire} (reads : ReadsJson wire.fromStr) (stream : List Event) :
    parseSseJsonEvents wire (written ['\r','\n'] (rawLines stream)) = (wire.fromStr (wholeData stream)).toList := by
  have clean : ∀ line ∈ rawLines stream, '\n' ∉ line := by
    intro line mem
    obtain ⟨event,-,inside⟩ := List.mem_flatMap.mp mem
    rcases List.mem_append.mp inside with raw | blank
    · obtain ⟨line_,-,rfl⟩ := List.mem_map.mp raw
      exact (rawWhole line_).feed
    · simp [List.mem_singleton.mp blank]
  have data : (rawLines stream).filterMap dataOf = (stream.flatMap Event.texts).map trimStart := by
    rw [rawLines,List.filterMap_flatMap,List.map_flatMap]
    refine congrArg (List.flatMap · stream) (funext fun event => ?_)
    rw [List.filterMap_append,rawsData]
    exact List.append_nil _
  have pieces := congrArg (List.filterMap (sseEvent wire)) (crlfSplit clean)
  have read := eventRead reads (written ['\r','\n'] (rawLines stream))
  rw [crlfLines clean,data] at read
  refine pieces.trans ?_
  rw [List.filterMap_cons,read,← wholeData]
  cases wire.fromStr (wholeData stream) <;> rfl

/-- Two readings of a list of which one reads more are the same where it does not. -/
theorem sameReadings {α β : Type} {f g : α → Option β} (more : ∀ x y, f x = some y → g x = some y) (xs : List α) :
    xs.filterMap g = xs.filterMap f ↔ ∀ x ∈ xs, f x = none → g x = none := by
  have longer (xs : List α) : (xs.filterMap f).length ≤ (xs.filterMap g).length := by
    induction xs with
    | nil => exact le_rfl
    | cons x xs ih =>
      cases first : f x with
      | some y => simpa [first,more x y first] using ih
      | none =>
        cases second : g x with
        | none => simpa [first,second] using ih
        | some y => simpa [first,second] using ih.trans (Nat.le_succ _)
  induction xs with
  | nil => simp
  | cons x xs ih =>
    cases first : f x with
    | some y => simpa [first,more x y first] using ih
    | none =>
      cases second : g x with
      | none => simpa [first,second] using ih
      | some y =>
        refine iff_of_false (fun same => ?_) fun all => by simpa [second] using all x List.mem_cons_self first
        rw [List.filterMap_cons_some second,List.filterMap_cons_none first] at same
        have length := congrArg List.length same
        have least := longer xs
        simp only [List.length_cons] at length
        omega

/-- A stream with line feeds is read exactly unless white space is all that keeps a data event
from being JSON; one with carriage returns only if it reads as one event. -/
theorem eventsIff (wire : Wire) (reads : ReadsJson wire.fromStr) (stream : List Event) :
    (parseSseJsonEvents wire (written ['\n'] (rawLines stream)) = valuesOf wire.fromStr stream ↔
      StaysUnread wire.fromStr stream) ∧
    (parseSseJsonEvents wire (written ['\r','\n'] (rawLines stream)) = valuesOf wire.fromStr stream ↔
      ReadAsOne wire.fromStr stream) := by
  constructor
  · rw [feedRead reads,valuesRead reads]
    have start : AtStart [] := Or.inl rfl
    exact sameReadings (fun event value read => linesDropped reads start read) stream
  · rw [carriageRead reads,ReadAsOne]
    cases valuesOf wire.fromStr stream with
    | nil => cases wire.fromStr (wholeData stream) <;> simp
    | cons value values =>
      cases values with
      | nil => cases wire.fromStr (wholeData stream) <;> simp
      | cons next more => cases wire.fromStr (wholeData stream) <;> simp

/-! A decoder of numbers, and two of them on a stream. -/

def readNumber (text : Text) : Option Json :=
  let digits := text.dropWhile isJsonBlank
  if digits.takeWhile Char.isDigit ≠ [] ∧ (digits.dropWhile Char.isDigit).all isJsonBlank then
    some (.number (digits.takeWhile Char.isDigit))
  else none

theorem startDigits {lead : Text} (start : AtStart lead) : (∀ rest, (lead ++ rest).dropWhile isJsonBlank = rest.dropWhile isJsonBlank) ∨
    ∃ c digits, isJsonBlank c = false ∧ ∀ rest, (lead ++ rest).dropWhile isJsonBlank = c::digits ++ '\n'::rest := by
  rcases start with rfl | ⟨before,rfl⟩
  · exact Or.inl fun _ => rfl
  · cases kept : before.dropWhile isJsonBlank with
    | nil =>
      refine Or.inl fun rest => ?_
      rw [List.append_assoc,List.dropWhile_append,kept]
      rfl
    | cons c digits =>
      have first := List.head?_dropWhile_not isJsonBlank before
      rw [kept] at first
      refine Or.inr ⟨c,digits,by simpa using first,fun rest => ?_⟩
      rw [List.append_assoc,List.dropWhile_append,kept]
      rfl

theorem digitsFeed (digits rest : Text) :
    ((digits ++ '\n'::rest).takeWhile Char.isDigit = digits.takeWhile Char.isDigit) ∧
    ((digits ++ '\n'::rest).dropWhile Char.isDigit = digits.dropWhile Char.isDigit ++ '\n'::rest) := by
  induction digits with
  | nil => exact ⟨rfl,rfl⟩
  | cons c digits ih =>
    cases digit : c.isDigit with
    | false => simp [digit]
    | true => simp [digit,ih.1,ih.2]

theorem readNumberReads : ReadsJson readNumber where
  empty := rfl
  blank lead c rest start json := by
    rcases startDigits start with same | ⟨d,digits,-,same⟩
    · simp only [readNumber,same,List.dropWhile_cons_of_pos json]
    · simp only [readNumber,same,(digitsFeed _ _).1,(digitsFeed _ _).2,List.all_append,List.all_cons,json,Bool.true_and]
  other lead c rest start json white := by
    have digit : c.isDigit = false := by
      rw [Bool.eq_false_iff]
      intro digit
      simp only [Char.isDigit,Bool.and_eq_true,decide_eq_true_eq] at digit
      simp only [isWhiteSpace,Bool.or_eq_true,Bool.and_eq_true,decide_eq_true_eq,beq_iff_eq] at white
      have low : 48 ≤ c.toNat := UInt32.le_iff_toNat_le.mp digit.1
      have high : c.toNat ≤ 57 := UInt32.le_iff_toNat_le.mp digit.2
      omega
    rcases startDigits start with same | ⟨d,digits,-,same⟩
    · simp [readNumber,same,List.dropWhile_cons_of_neg,json,digit]
    · simp only [readNumber,same,(digitsFeed _ _).1,(digitsFeed _ _).2,List.all_append,List.all_cons,json]
      simp

def numbersWire : Wire := ⟨id,readNumber,fun _ => [],"0.1.0".toList⟩

def clean (text : Text) (plain : lacks ['\n','\r'] text = true) : Clean :=
  ⟨text,lacksChar plain (by decide),lacksChar plain (by decide)⟩

def event (line : Line) (lines : List Line) : Event := ⟨line::lines,List.cons_ne_nil _ _⟩

/-- A comment, a number, data that is no JSON, and a number with its fields. -/
def numbers : List Event :=
  [event (.comment (clean " ok".toList rfl)) [],
    event (.field .event true (clean "message".toList rfl)) [.data true (clean "12".toList rfl)],
    event (.data true (clean "keepalive".toList rfl)) [],
    event (.data false (clean "7".toList rfl)) [.data true (clean [] rfl),.field .id false (clean "3".toList rfl)]]

theorem numbersRead :
    parseSseJsonEvents numbersWire (written ['\n'] (rawLines numbers)) = [.number "12".toList,.number "7".toList] ∧
    parseSseJsonEvents numbersWire (written ['\r','\n'] (rawLines numbers)) ≠ valuesOf readNumber numbers := by
  obtain ⟨feed,carriage⟩ := eventsIff numbersWire readNumberReads numbers
  exact ⟨feed.mpr (by unfold StaysUnread; decide),carriage.mp⟩

/-- Two values, each an event of one line. -/
theorem carriageLost :
    let stream := [event (.data true (clean "1".toList rfl)) [],event (.data true (clean "2".toList rfl)) []]
    written ['\r','\n'] (rawLines stream) = "data: 1\r\n\r\ndata: 2\r\n\r\n".toList ∧
    valuesOf readNumber stream = [.number "1".toList,.number "2".toList] ∧
    parseSseJsonEvents numbersWire (written ['\r','\n'] (rawLines stream)) = [] := ⟨rfl,rfl,rfl⟩

end RustMcp.EventStream
