import RustMcp.Ranking
import RustMcp.Splitting

/-! The imports that are in scope at a line of a file: what is collected line by line, and
which declarations a file has above that line. -/
namespace RustMcp.ImportsInScope
open Str
open Splitting (joinFlat sameSum)

/-! The code. -/

structure Scan where
  imports : List Text
  buffer : Text
  collecting : Bool

def opens (line : Text) : Bool :=
  startsWith "use ".toList (trim line) || startsWith "pub use ".toList (trim line)

def closes (line : Text) : Bool := (trim line).getLast? = some ';'

def takeLine (s : Scan) (rawLine : Text) : Scan :=
  let trimmed := trim rawLine
  if trimmed = [] then s
  else if s.collecting then
    let buffer := (if s.buffer = [] then [] else s.buffer ++ [' ']) ++ trimmed
    if closes rawLine then ⟨s.imports ++ [trim buffer],[],false⟩ else ⟨s.imports,buffer,true⟩
  else if opens rawLine then
    let buffer := s.buffer ++ trimmed
    if closes rawLine then ⟨s.imports ++ [trim buffer],[],false⟩ else ⟨s.imports,buffer,true⟩
  else s

/-- `sort`, then `dedup`, at the end. -/
def collectImportsInScope (content : Text) (line : Nat) : List Text :=
  Ranking.sortBy id (((lines content).take line).foldl takeLine ⟨[],[],false⟩).imports.dedup

/-! What is read, and where. -/

/-- The lines that are not empty, trimmed. -/
def filled (lines : List Text) : List Text := (lines.map trim).filter (· ≠ [])

/-- Lines as they are collected, with a blank between them. -/
def spaced (lines : List Text) : Text := join [' '] (filled lines)

/-- `Reads start lines imports`: of lines that begin at `start`, these imports are read, each at the line
where it was begun. -/
inductive Reads : Nat → List Text → List (Nat × Text) → Prop where
  | done (start : Nat) : Reads start [] []
  | skip {start : Nat} {line : Text} {rest : List Text} {imports : List (Nat × Text)} (closed : opens line = false)
      (later : Reads (start + 1) rest imports) : Reads start (line::rest) imports
  /-- nothing ends what is begun here -/
  | cut {start : Nat} {line : Text} {rest : List Text} (opened : opens line = true)
      (never : ∀ l ∈ line::rest, closes l = false) : Reads start (line::rest) []
  | whole {start : Nat} (init : List Text) (last : Text) {rest : List Text} {imports : List (Nat × Text)}
      (opened : opens (init.headD last) = true) (before : ∀ l ∈ init, closes l = false) (ends : closes last = true)
      (later : Reads (start + (init.length + 1)) rest imports) :
      Reads start (init ++ last::rest) ((start,spaced (init ++ [last]))::imports)

theorem opensFirst {line : Text} (opened : opens line = true) : ∃ c, (trim line).head? = some c ∧ isWhiteSpace c = false := by
  have lead : ∃ c, (trim line).head? = some c := by
    rcases Bool.or_eq_true_iff.mp opened with use | pub
    · obtain ⟨rest,same⟩ := startsWithIff.mp use
      exact ⟨'u',by rw [← same]; rfl⟩
    · obtain ⟨rest,same⟩ := startsWithIff.mp pub
      exact ⟨'p',by rw [← same]; rfl⟩
  obtain ⟨c,first⟩ := lead
  exact ⟨c,first,trimOpens first⟩

theorem opensFilled {line : Text} (opened : opens line = true) : trim line ≠ [] := by
  obtain ⟨c,first,-⟩ := opensFirst opened
  intro none_
  rw [none_] at first
  contradiction

theorem closesFilled {line : Text} (ends : closes line = true) : trim line ≠ [] := by
  intro none_
  simp [closes,none_] at ends

theorem filledMem {lines : List Text} {text : Text} (mem : text ∈ filled lines) : text ≠ [] := by
  simpa using (List.mem_filter.mp mem).2

theorem filledAppend (lines more : List Text) : filled (lines ++ more) = filled lines ++ filled more := by
  rw [filled,List.map_append,List.filter_append,filled,filled]

theorem filledOne (line : Text) : filled [line] = if trim line = [] then [] else [trim line] := by
  by_cases blank : trim line = [] <;> simp [filled,blank]

theorem spacedNil {lines : List Text} : spaced lines = [] ↔ filled lines = [] := by
  rw [spaced]
  cases texts : filled lines with
  | nil => exact iff_of_true rfl rfl
  | cons first rest =>
    have some_ : first ≠ [] := filledMem (texts ▸ List.mem_cons_self)
    rw [joinFlat]
    simp [some_]

theorem spacedConcat (lines : List Text) (line : Text) :
    spaced (lines ++ [line]) =
      if trim line = [] then spaced lines else (if spaced lines = [] then [] else spaced lines ++ [' ']) ++ trim line := by
  rw [spaced,filledAppend,filledOne]
  by_cases blank : trim line = []
  · rw [if_pos blank,if_pos blank,List.append_nil,spaced]
  rw [if_neg blank,if_neg blank]
  cases texts : filled lines with
  | nil =>
    rw [if_pos (spacedNil.mpr texts)]
    simp [join,List.intercalate]
  | cons first rest =>
    rw [if_neg (mt spacedNil.mp (by simp [texts])),List.cons_append,joinFlat,List.flatMap_append,spaced,texts,joinFlat]
    simp

theorem spacedFirst {line : Text} (opened : opens line = true) (rest : List Text) : (spaced (line::rest)).head? = (trim line).head? := by
  have some_ := opensFilled opened
  have first : filled (line::rest) = trim line :: filled rest := by
    rw [← List.singleton_append,filledAppend,filledOne,if_neg some_]
    rfl
  rw [spaced,first,joinFlat,List.head?_append]
  cases same : (trim line).head? with
  | none => exact absurd (List.head?_eq_none_iff.mp same) some_
  | some c => rfl

theorem spacedLast {last : Text} (ends : closes last = true) (init : List Text) : (spaced (init ++ [last])).getLast? = some ';' := by
  have semicolon : (trim last).getLast? = some ';' := of_decide_eq_true ends
  rw [spacedConcat,if_neg (closesFilled ends),List.getLast?_append_of_ne_nil _ (closesFilled ends),semicolon]

/-- What is pushed is the buffer as it is. -/
theorem spacedTrimmed {init : List Text} {last : Text} (opened : opens (init.headD last) = true) (ends : closes last = true) :
    trim (spaced (init ++ [last])) = spaced (init ++ [last]) := by
  obtain ⟨c,first,kept⟩ := opensFirst opened
  have head : (spaced (init ++ [last])).head? = some c := by
    cases init with
    | nil => exact (spacedFirst opened []).trans first
    | cons line init => exact (spacedFirst opened _).trans first
  refine trimKept (fun d mem => ?_) fun d mem => ?_
  · rw [head] at mem
    cases Option.some.inj mem
    exact kept
  · rw [spacedLast ends] at mem
    cases Option.some.inj mem
    decide

/-! The scan reads. -/

theorem takeSkip {line : Text} (closed : opens line = false) (imports : List Text) :
    takeLine ⟨imports,[],false⟩ line = ⟨imports,[],false⟩ := by
  simp [takeLine,closed]

theorem takeOpen {line : Text} (opened : opens line = true) (imports : List Text) :
    takeLine ⟨imports,[],false⟩ line =
      if closes line then ⟨imports ++ [spaced [line]],[],false⟩ else ⟨imports,spaced [line],true⟩ := by
  have one : spaced [line] = trim line := by
    rw [spaced,filledOne,if_neg (opensFilled opened)]
    simp [join,List.intercalate]
  simp [takeLine,opened,opensFilled opened,one,trimTrim]

theorem takeMore {first : Text} (opened : opens first = true) (more : List Text) (line : Text) (imports : List Text) :
    takeLine ⟨imports,spaced (first::more),true⟩ line =
      if closes line then ⟨imports ++ [spaced (first::more ++ [line])],[],false⟩ else ⟨imports,spaced (first::more ++ [line]),true⟩ := by
  by_cases blank : trim line = []
  · have goesOn : closes line = false := Bool.eq_false_iff.mpr fun ends => closesFilled ends blank
    rw [goesOn,spacedConcat,if_pos blank]
    simp [takeLine,blank]
  · have buffer : (if spaced (first::more) = [] then [] else spaced (first::more) ++ [' ']) ++ trim line = spaced (first::more ++ [line]) := by
      rw [spacedConcat,if_neg blank]
    simp only [takeLine,if_neg blank,if_true,buffer]
    cases ends : closes line with
    | false => rfl
    | true =>
      have whole : trim (spaced (first::more ++ [line])) = spaced (first::more ++ [line]) := spacedTrimmed opened ends
      rw [whole]

/-- Once begun, lines are collected up to the first that ends in a semicolon. -/
theorem collects {first : Text} (opened : opens first = true) (rest more : List Text) (imports : List Text) :
    ((∀ l ∈ rest, closes l = false) ∧ (rest.foldl takeLine ⟨imports,spaced (first::more),true⟩).imports = imports) ∨
    ∃ init last tail, rest = init ++ last::tail ∧ (∀ l ∈ init, closes l = false) ∧ closes last = true ∧
      rest.foldl takeLine ⟨imports,spaced (first::more),true⟩ =
        tail.foldl takeLine ⟨imports ++ [spaced (first::more ++ init ++ [last])],[],false⟩ := by
  induction rest generalizing more with
  | nil => exact .inl ⟨fun _ mem => absurd mem List.not_mem_nil,rfl⟩
  | cons line rest ih =>
    rw [List.foldl_cons,takeMore opened]
    cases ends : closes line with
    | true => exact .inr ⟨[],line,rest,rfl,fun _ mem => absurd mem List.not_mem_nil,ends,by rw [if_pos rfl,List.append_nil]⟩
    | false =>
      rw [if_neg Bool.false_ne_true,List.cons_append]
      rcases ih (more ++ [line]) with ⟨never,same⟩ | ⟨init,last,tail,rfl,before,closing,same⟩
      · exact .inl ⟨List.forall_mem_cons.mpr ⟨ends,never⟩,same⟩
      · refine .inr ⟨line::init,last,tail,rfl,List.forall_mem_cons.mpr ⟨ends,before⟩,closing,?_⟩
        rw [same]
        simp only [List.cons_append,List.append_assoc,List.nil_append]

theorem readsScan (n : Nat) : ∀ (lines : List Text), lines.length ≤ n → ∀ (start : Nat) (imports : List Text),
    ∃ read, Reads start lines read ∧ (lines.foldl takeLine ⟨imports,[],false⟩).imports = imports ++ read.map Prod.snd := by
  induction n with
  | zero =>
    intro lines short start imports
    rw [List.length_eq_zero_iff.mp (Nat.le_zero.mp short)]
    exact ⟨[],.done start,(List.append_nil _).symm⟩
  | succ n ih =>
    intro lines short start imports
    cases lines with
    | nil => exact ⟨[],.done start,(List.append_nil _).symm⟩
    | cons line rest =>
      rw [List.length_cons] at short
      rw [List.foldl_cons]
      cases opened : opens line with
      | false =>
        obtain ⟨read,reads,same⟩ := ih rest (by omega) (start + 1) imports
        exact ⟨read,.skip opened reads,by rw [takeSkip opened,same]⟩
      | true =>
        rw [takeOpen opened]
        cases ends : closes line with
        | true =>
          obtain ⟨read,reads,same⟩ := ih rest (by omega) (start + 1) (imports ++ [spaced [line]])
          refine ⟨(start,spaced [line])::read,.whole [] line opened (fun _ mem => absurd mem List.not_mem_nil) ends reads,?_⟩
          rw [if_pos rfl,same,List.append_assoc]
          rfl
        | false =>
          rw [if_neg Bool.false_ne_true]
          rcases collects opened rest [] imports with ⟨never,same⟩ | ⟨init,last,tail,rfl,before,closing,same⟩
          · exact ⟨[],.cut opened (List.forall_mem_cons.mpr ⟨ends,never⟩),by rw [same]; exact (List.append_nil _).symm⟩
          · rw [List.length_append,List.length_cons] at short
            obtain ⟨read,reads,rest_⟩ := ih tail (by omega) (start + (init.length + 1 + 1)) (imports ++ [spaced (line::init ++ [last])])
            refine ⟨(start,spaced (line::init ++ [last]))::read,
              .whole (line::init) last opened (List.forall_mem_cons.mpr ⟨ends,before⟩) closing reads,?_⟩
            rw [same]
            have joined : [line] ++ init ++ [last] = line::init ++ [last] := rfl
            rw [joined,rest_,List.append_assoc]
            rfl

/-! Source files. -/

/-- A part of a line in which a declaration stands: its own code, or a comment or what else is there. -/
inductive Piece where
  | code (text : Text)
  | other (text : Text)

abbrev SourceLine := List Piece

def rawOf (line : SourceLine) : Text := line.flatMap fun | .code text => text | .other text => text

def codeOf (line : SourceLine) : Text := line.flatMap fun | .code text => text | .other _ => []

/-- A `use` declaration by its lines. It ends with a semicolon, the only one of its code, which has no slash. -/
structure Declaration where
  init : List SourceLine
  last : SourceLine
  keyword : "use".toList <+: trim (codeOf (init.headD last)) ∨ "pub".toList <+: trim (codeOf (init.headD last))
  goesOn : ∀ line ∈ init, ';' ∉ codeOf line
  ends : closes (codeOf last) = true
  slashless : ∀ line ∈ init ++ [last], '/' ∉ codeOf line
  /-- before its last line, only comments stand beside its code -/
  comments : ∀ line ∈ init, ∀ text, Piece.other text ∈ line → '/' ∈ text

def Declaration.lines (d : Declaration) : List SourceLine := d.init ++ [d.last]

def Declaration.text (d : Declaration) : Text := spaced (d.lines.map codeOf)

/-- A line outside of all declarations, or a declaration on lines of its own. -/
inductive Block where
  | line (raw : Text)
  | use (d : Declaration)

def Block.lines : Block → List Text
  | .line raw => [raw]
  | .use d => d.lines.map rawOf

def rawLines (file : List Block) : List Text := file.flatMap Block.lines

def declared : Nat → List Block → List (Nat × Declaration)
  | _,[] => []
  | start,.line _::rest => declared (start + 1) rest
  | start,.use d::rest => (start,d)::declared (start + d.lines.length) rest

/-- The declarations that start in line `n` or before, each with its line and its text. -/
def startedBy (n start : Nat) (file : List Block) : List (Nat × Text) :=
  ((declared start file).filter fun place => place.1 ≤ n).map fun place => (place.1,place.2.text)

/-- The code of a declaration is all that stands on its lines, and it begins as the scan looks for it. -/
structure Declaration.Plain (d : Declaration) : Prop where
  opened : opens (rawOf (d.init.headD d.last)) = true
  alone : ∀ line ∈ d.lines, trim (rawOf line) = trim (codeOf line)

/-- Of the first `n` lines: a declaration that starts there also ends there and stands plainly, and what only
looks like the start of one is followed by no line that ends in a semicolon. -/
structure ReadCleanly (n : Nat) (file : List Block) : Prop where
  whole : ∀ before d after, file = before ++ .use d::after → (rawLines before).length < n →
    (rawLines before).length + d.lines.length ≤ n ∧ d.Plain
  quiet : ∀ before raw after, file = before ++ .line raw::after → (rawLines before).length < n → opens raw = true →
    ∀ l ∈ (raw::rawLines after).take (n - (rawLines before).length), closes l = false

/-! Lengths of what is collected. -/

theorem dropWhileSublist {α : Type} (p : α → Bool) {a b : List α} (h : a.Sublist b) : (a.dropWhile p).Sublist (b.dropWhile p) := by
  induction h with
  | slnil => exact .slnil
  | @cons a b x h ih =>
    by_cases drop : p x
    · rw [List.dropWhile_cons_of_pos drop]
      exact ih
    · rw [List.dropWhile_cons_of_neg drop]
      exact (List.dropWhile_sublist p).trans (h.cons x)
  | @cons_cons a b x h ih =>
    by_cases drop : p x
    · rw [List.dropWhile_cons_of_pos drop,List.dropWhile_cons_of_pos drop]
      exact ih
    · rw [List.dropWhile_cons_of_neg drop,List.dropWhile_cons_of_neg drop]
      exact h.cons_cons x

theorem trimSublist {a b : Text} (h : a.Sublist b) : (trim a).Sublist (trim b) :=
  List.reverse_sublist.mpr (dropWhileSublist _ (List.reverse_sublist.mpr (dropWhileSublist _ h)))

theorem codeSublist (line : SourceLine) : (codeOf line).Sublist (rawOf line) := by
  induction line with
  | nil => exact .slnil
  | cons piece line ih =>
    cases piece with
    | code text => exact (List.Sublist.refl text).append ih
    | other text => exact (List.nil_sublist text).append ih

/-- What a line adds to the length of the collected text. -/
def weight (line : Text) : Nat := if trim line = [] then 0 else (trim line).length + 1

theorem spacedLength {lines : List Text} (some_ : filled lines ≠ []) : (spaced lines).length + 1 = (lines.map weight).sum := by
  have weights : ((filled lines).map fun text => text.length + 1).sum = (lines.map weight).sum := by
    clear some_
    induction lines with
    | nil => rfl
    | cons line rest ih =>
      rw [← List.singleton_append,filledAppend,filledOne,List.map_append,List.sum_append,ih]
      by_cases blank : trim line = [] <;> simp [weight,blank]
  rw [← weights,spaced]
  cases texts : filled lines with
  | nil => exact absurd texts some_
  | cons first rest =>
    rw [joinFlat,List.length_append,List.length_flatMap,List.map_cons,List.sum_cons]
    simp only [List.length_append,List.length_singleton,Nat.add_comm 1]
    omega

theorem weightLe (line : SourceLine) : weight (codeOf line) ≤ weight (rawOf line) := by
  have shorter := (trimSublist (codeSublist line)).length_le
  unfold weight
  split
  · exact Nat.zero_le _
  · rename_i some_
    have filled : trim (rawOf line) ≠ [] := fun none_ => by
      rw [none_,List.length_nil,Nat.le_zero,List.length_eq_zero_iff] at shorter
      exact some_ shorter
    rw [if_neg filled]
    omega

theorem weightSame {line : SourceLine} (same : weight (codeOf line) = weight (rawOf line)) : trim (rawOf line) = trim (codeOf line) := by
  have sub := trimSublist (codeSublist line)
  have lengths : (trim (codeOf line)).length = (trim (rawOf line)).length := by
    unfold weight at same
    split at same <;> split at same <;> simp_all
  exact (sub.eq_of_length lengths).symm

/-! One declaration and what is read of it. -/

theorem spacedKept {c : Char} (kept : isWhiteSpace c = false) {line : Text} {lines : List Text} (inside : c ∈ line)
    (mem : line ∈ lines) : c ∈ spaced lines := by
  have trimmed := trimMem kept inside
  have part : trim line ∈ filled lines :=
    List.mem_filter.mpr ⟨List.mem_map_of_mem mem,by simpa using List.ne_nil_of_mem trimmed⟩
  exact (infixJoin part).subset trimmed

theorem spacedLacks {c : Char} (other : c ≠ ' ') {lines : List Text} (clean : ∀ line ∈ lines, c ∉ line) : c ∉ spaced lines := by
  refine joinClean (by simpa using other) fun part mem => ?_
  obtain ⟨line,inside,rfl⟩ := List.mem_map.mp (List.mem_filter.mp mem).1
  exact fun found => clean line inside ((trimInfix line).subset found)

theorem closesSame {a b : Text} (same : trim a = trim b) : closes a = closes b := by rw [closes,same,closes]

theorem closesSemicolon {line : Text} (ends : closes line = true) : ';' ∈ line :=
  (trimInfix _).subset (List.mem_of_getLast? (of_decide_eq_true ends))

section
variable {d : Declaration}

theorem rawAlone {line : SourceLine} (none_ : ∀ text, Piece.other text ∉ line) : rawOf line = codeOf line := by
  induction line with
  | nil => rfl
  | cons piece line ih =>
    have rest := ih fun text mem => none_ text (List.mem_cons_of_mem _ mem)
    cases piece with
    | code text => exact congrArg (text ++ ·) rest
    | other text => exact absurd List.mem_cons_self (none_ text)

theorem rawKept {line : SourceLine} {text : Text} {c : Char} (other : Piece.other text ∈ line) (mem : c ∈ text) : c ∈ rawOf line :=
  List.mem_flatMap.mpr ⟨.other text,other,mem⟩

theorem codeFilled (d : Declaration) : filled (d.lines.map codeOf) ≠ [] := by
  have some_ : trim (codeOf d.last) ≠ [] := closesFilled d.ends
  rw [Declaration.lines,List.map_append,filledAppend]
  simp [filledOne,some_]

/-- A line before the last never ends in a semicolon by its own code. -/
theorem goesOnRaw (plain : d.Plain) : ∀ l ∈ d.init.map rawOf, closes l = false := by
  intro l mem
  obtain ⟨line,inside,rfl⟩ := List.mem_map.mp mem
  rw [closesSame (plain.alone line (List.mem_append_left _ inside)),Bool.eq_false_iff]
  exact fun ends => d.goesOn line inside (closesSemicolon ends)

theorem endsRaw (plain : d.Plain) : closes (rawOf d.last) = true := by
  rw [closesSame (plain.alone d.last (List.mem_append_right _ List.mem_cons_self))]
  exact d.ends

theorem plainText (plain : d.Plain) : spaced (d.lines.map rawOf) = d.text := by
  have trims : (d.lines.map rawOf).map trim = (d.lines.map codeOf).map trim := by
    rw [List.map_map,List.map_map]
    exact List.map_congr_left plain.alone
  rw [Declaration.text,spaced,filled,trims,spaced,filled]

theorem declarationRaws (d : Declaration) : d.lines.map rawOf = d.init.map rawOf ++ [rawOf d.last] := by
  rw [Declaration.lines,List.map_append]
  rfl

/-- The last of further lines weighs something, if there are any. -/
theorem weightless {parts extra init : List Text} {last : Text} (whole : parts ++ extra = init ++ [last]) (ends : closes last = true)
    (none_ : (extra.map weight).sum = 0) : extra = [] := by
  rcases List.eq_nil_or_concat extra with empty | ⟨front,final,rfl⟩
  · exact empty
  · have final_ : final = last := by
      have lasts := congrArg List.getLast? whole
      rw [List.concat_eq_append,← List.append_assoc,List.getLast?_concat,List.getLast?_concat] at lasts
      exact Option.some.inj lasts
    subst final_
    have heavy : 0 < weight final := by
      rw [weight,if_neg (closesFilled ends)]
      exact Nat.succ_pos _
    rw [List.concat_eq_append,List.map_append,List.sum_append,List.map_singleton,List.sum_singleton] at none_
    omega

section
variable {init : List Text} {last : Text} (ends : closes last = true) (text : spaced (init ++ [last]) = d.text)
include ends text

/-- All lines of the declaration are read: the lengths leave room for nothing else. -/
theorem readCovers (opened : opens (init.headD last) = true) (covers : d.lines.map rawOf <+: init ++ [last]) :
    init ++ [last] = d.lines.map rawOf ∧ d.Plain := by
  obtain ⟨extra,whole⟩ := covers
  have read : (spaced (init ++ [last])).length + 1 = ((init ++ [last]).map weight).sum :=
    spacedLength fun none_ => by simp [filledAppend,filledOne,closesFilled ends] at none_
  have declared_ : d.text.length + 1 = ((d.lines.map codeOf).map weight).sum := spacedLength (codeFilled d)
  have le : (d.lines.map fun line => weight (codeOf line)).sum ≤ (d.lines.map fun line => weight (rawOf line)).sum :=
    List.sum_le_sum fun line _ => weightLe line
  rw [text,declared_,← whole,List.map_append,List.sum_append,List.map_map,List.map_map] at read
  simp only [Function.comp_def] at read
  have same : (d.lines.map fun line => weight (codeOf line)).sum = (d.lines.map fun line => weight (rawOf line)).sum := by omega
  have nothing : extra = [] := weightless whole ends (by omega)
  rw [nothing,List.append_nil] at whole
  refine ⟨whole.symm,?_,fun line mem => weightSame (sameSum (fun line _ => weightLe line) same line mem)⟩
  have heads := congrArg List.head? whole
  rw [declarationRaws] at heads
  cases own : d.init <;> cases begun : init <;> simp_all

/-- A reading that stops before the last line stops at a comment, and has the slash of it in its text. -/
theorem readShort (inside : init ++ [last] <+: d.init.map rawOf) : False := by
  have slashless : '/' ∉ d.text := spacedLacks (by decide) fun l mem => by
    obtain ⟨line,inside,rfl⟩ := List.mem_map.mp mem
    exact d.slashless line inside
  obtain ⟨line,mem,rfl⟩ := List.mem_map.mp (inside.subset (List.mem_append_right _ List.mem_cons_self))
  have bare : '/' ∉ rawOf line := fun slash =>
    slashless (text ▸ spacedKept (by decide) slash (List.mem_append_right _ List.mem_cons_self))
  have alone : rawOf line = codeOf line := rawAlone fun comment other =>
    bare (rawKept other (d.comments line mem comment other))
  rw [alone] at ends
  exact absurd (closesSemicolon ends) (d.goesOn line mem)

/-- What is read as the text of a declaration, from its first line on, is all of its lines and they are plain. -/
theorem readWhole {more : List Text} (opened : opens (init.headD last) = true)
    (from_ : init ++ [last] <+: d.lines.map rawOf ++ more) : init ++ [last] = d.lines.map rawOf ∧ d.Plain := by
  rcases Nat.lt_or_ge d.init.length (init ++ [last]).length with long | short
  · exact readCovers ends text opened
      (List.prefix_of_prefix_length_le (List.prefix_append _ _) from_ (by simpa [Declaration.lines] using long))
  · rw [declarationRaws,List.append_assoc] at from_
    exact (readShort ends text (List.prefix_of_prefix_length_le from_ (List.prefix_append _ _) (by simpa using short))).elim

end

end

/-! Files, block by block. -/

section
variable {n start : Nat} {block : Block} {rest : List Block}

theorem rawCons (block : Block) (rest : List Block) : rawLines (block::rest) = block.lines ++ rawLines rest := List.flatMap_cons

/-- What is asked of the first block. -/
def HeadClean (n : Nat) (rest : List Block) : Block → Prop
  | .use d => 0 < n → d.lines.length ≤ n ∧ d.Plain
  | .line raw => 0 < n → opens raw = true → ∀ l ∈ (raw::rawLines rest).take n, closes l = false

theorem cleanCons : ReadCleanly n (block::rest) ↔ HeadClean n rest block ∧ ReadCleanly (n - block.lines.length) rest := by
  have lengths (before : List Block) : (rawLines (block::before)).length = block.lines.length + (rawLines before).length := by
    rw [rawCons,List.length_append]
  constructor
  · intro clean
    refine ⟨?_,⟨fun before d after same inside => ?_,fun before raw after same inside => ?_⟩⟩
    · cases block with
      | line raw => exact fun some_ => clean.quiet [] raw rest rfl some_
      | use d =>
        intro some_
        have whole := clean.whole [] d rest rfl some_
        exact ⟨by simpa [rawLines] using whole.1,whole.2⟩
    · have whole := clean.whole (block::before) d after (by rw [same]; rfl) (by rw [lengths]; omega)
      rw [lengths] at whole
      exact ⟨by omega,whole.2⟩
    · have quiet := clean.quiet (block::before) raw after (by rw [same]; rfl) (by rw [lengths]; omega)
      rwa [lengths,← Nat.sub_sub] at quiet
  · rintro ⟨head,tail⟩
    refine ⟨fun before d after same inside => ?_,fun before raw after same inside => ?_⟩
    · cases before with
      | nil =>
        obtain ⟨rfl,rfl⟩ := List.cons.inj same
        have whole := head inside
        exact ⟨by simpa [rawLines] using whole.1,whole.2⟩
      | cons first before =>
        obtain ⟨rfl,tails⟩ := List.cons.inj same
        rw [lengths] at inside ⊢
        have whole := tail.whole before d after tails (by omega)
        exact ⟨by omega,whole.2⟩
    · cases before with
      | nil =>
        obtain ⟨rfl,rfl⟩ := List.cons.inj same
        exact head inside
      | cons first before =>
        obtain ⟨rfl,tails⟩ := List.cons.inj same
        rw [lengths] at inside ⊢
        rw [← Nat.sub_sub]
        exact tail.quiet before raw after tails (by omega)

theorem cleanNone (file : List Block) : ReadCleanly 0 file := ⟨fun _ _ _ _ inside => absurd inside (Nat.not_lt_zero _),
  fun _ _ _ _ inside => absurd inside (Nat.not_lt_zero _)⟩

theorem declaredFrom {file : List Block} {place : Nat × Declaration} (mem : place ∈ declared start file) : start ≤ place.1 := by
  induction file generalizing start with
  | nil => contradiction
  | cons block file ih =>
    cases block with
    | line raw =>
      have later := ih mem
      omega
    | use d =>
      rcases List.mem_cons.mp mem with rfl | later
      · exact le_rfl
      · have after := ih later
        omega

theorem startedFrom {file : List Block} {place : Nat × Text} (mem : place ∈ startedBy n start file) : start ≤ place.1 ∧ place.1 ≤ n := by
  obtain ⟨found,kept,rfl⟩ := List.mem_map.mp mem
  obtain ⟨inside,early⟩ := List.mem_filter.mp kept
  exact ⟨declaredFrom inside,of_decide_eq_true early⟩

theorem startedLine (raw : Text) : startedBy n start (.line raw::rest) = startedBy n (start + 1) rest := rfl

theorem startedUse (d : Declaration) (early : start ≤ n) :
    startedBy n start (.use d::rest) = (start,d.text)::startedBy n (start + d.lines.length) rest := by
  simp [startedBy,declared,early]

theorem startedLate {file : List Block} (late : n < start) : startedBy n start file = [] := by
  rw [List.eq_nil_iff_forall_not_mem]
  intro place mem
  have bounds := startedFrom mem
  omega

theorem readsFrom {lines : List Text} {read : List (Nat × Text)} (reads : Reads start lines read) :
    ∀ place ∈ read, start ≤ place.1 := by
  induction reads with
  | done => exact fun _ mem => absurd mem List.not_mem_nil
  | skip closed later ih => exact fun place mem => Nat.le_of_succ_le (ih place mem)
  | cut opened never => exact fun _ mem => absurd mem List.not_mem_nil
  | whole init last opened before ends later ih =>
    exact List.forall_mem_cons.mpr ⟨le_rfl,fun place mem => le_trans (Nat.le_add_right _ _) (ih place mem)⟩

/-- Where no line ends in a semicolon, a file reads cleanly exactly if nothing starts. -/
theorem cleanQuiet {file : List Block} (never : ∀ l ∈ (rawLines file).take (n + 1 - start), closes l = false) :
    ReadCleanly (n + 1 - start) file ↔ startedBy n start file = [] := by
  induction file generalizing start with
  | nil => exact iff_of_true ⟨fun before _ _ same => by simp at same,fun before _ _ same => by simp at same⟩ rfl
  | cons block file ih =>
    rcases Nat.lt_or_ge n start with late | early
    · have none_ : n + 1 - start = 0 := by omega
      rw [none_]
      exact iff_of_true (cleanNone _) (startedLate late)
    cases block with
    | line raw =>
      have step : n + 1 - start = (n + 1 - (start + 1)) + 1 := by omega
      have rest_ : ∀ l ∈ (rawLines file).take (n + 1 - (start + 1)), closes l = false := fun l mem => by
        refine never l ?_
        rw [step]
        exact List.mem_cons_of_mem _ mem
      have later : n + 1 - start - [raw].length = n + 1 - (start + 1) := by
        rw [List.length_singleton]
        omega
      rw [cleanCons,startedLine,Block.lines,later,ih rest_]
      exact and_iff_right fun _ _ => never
    | use d =>
      rw [startedUse d early]
      refine iff_of_false (fun clean => ?_) (List.cons_ne_nil _ _)
      obtain ⟨short,plain⟩ := (cleanCons.mp clean).1 (by omega)
      have last : rawOf d.last ∈ (rawLines (.use d::file)).take (n + 1 - start) := by
        have inside : rawOf d.last ∈ d.lines.map rawOf := List.mem_map_of_mem (List.mem_append_right _ List.mem_cons_self)
        rw [rawCons,Block.lines,List.take_append,List.take_of_length_le (by simpa using short)]
        exact List.mem_append_left _ inside
      have ends := endsRaw plain
      rw [never _ last] at ends
      contradiction

theorem readsInv {lines : List Text} {read : List (Nat × Text)} (reads : Reads start lines read) :
    (lines = [] ∧ read = []) ∨
    (∃ line rest, lines = line::rest ∧ opens line = false ∧ Reads (start + 1) rest read) ∨
    (∃ line rest, lines = line::rest ∧ opens line = true ∧ (∀ l ∈ lines, closes l = false) ∧ read = []) ∨
    ∃ init last rest imports, lines = init ++ last::rest ∧ opens (init.headD last) = true ∧ (∀ l ∈ init, closes l = false) ∧
      closes last = true ∧ Reads (start + (init.length + 1)) rest imports ∧ read = (start,spaced (init ++ [last]))::imports := by
  cases reads with
  | done => exact .inl ⟨rfl,rfl⟩
  | skip closed later => exact .inr (.inl ⟨_,_,rfl,closed,later⟩)
  | cut opened never => exact .inr (.inr (.inl ⟨_,_,rfl,opened,never,rfl⟩))
  | whole init last opened before ends later => exact .inr (.inr (.inr ⟨init,last,_,_,rfl,opened,before,ends,later,rfl⟩))

theorem readsNil {read : List (Nat × Text)} (reads : Reads start [] read) : read = [] := by
  rcases readsInv reads with ⟨-,none_⟩ | ⟨_,_,same,-⟩ | ⟨_,_,same,-⟩ | ⟨init,_,_,_,same,-⟩
  · exact none_
  · simp at same
  · simp at same
  · simp at same

theorem firstClosing {init init' tail tail' : List Text} {last last' : Text} (same : init ++ last::tail = init' ++ last'::tail')
    (before : ∀ l ∈ init, closes l = false) (ends : closes last = true) (before' : ∀ l ∈ init', closes l = false)
    (ends' : closes last' = true) : init = init' ∧ last = last' ∧ tail = tail' := by
  induction init generalizing init' with
  | nil =>
    cases init' with
    | nil => exact ⟨rfl,List.cons.inj same⟩
    | cons line init' =>
      have here := before' line List.mem_cons_self
      rw [← (List.cons.inj same).1,ends] at here
      contradiction
  | cons line init ih =>
    cases init' with
    | nil =>
      have here := before line List.mem_cons_self
      rw [(List.cons.inj same).1,ends'] at here
      contradiction
    | cons line' init' =>
      obtain ⟨head,tails⟩ := List.cons.inj same
      obtain ⟨inits,rest_⟩ := ih tails (fun l mem => before l (List.mem_cons_of_mem _ mem))
        fun l mem => before' l (List.mem_cons_of_mem _ mem)
      exact ⟨by rw [head,inits],rest_⟩

theorem useHead {d : Declaration} {count : Nat} (some_ : count ≠ 0) {line : Text} {tail : List Text}
    (same : (rawLines (.use d::rest)).take count = line::tail) : line = rawOf (d.init.headD d.last) := by
  have heads := congrArg List.head? same
  rw [List.head?_take,if_neg some_,rawCons,Block.lines,declarationRaws] at heads
  cases own : d.init with
  | nil => rw [own] at heads; exact (Option.some.inj heads).symm
  | cons first others => rw [own] at heads; exact (Option.some.inj heads).symm

/-- A line outside of all declarations: nothing may be read there. -/
theorem readsLine {raw : Text} {read : List (Nat × Text)} (early : start ≤ n)
    (ih : ∀ {start : Nat} {read : List (Nat × Text)}, Reads start ((rawLines rest).take (n + 1 - start)) read →
      (read = startedBy n start rest ↔ ReadCleanly (n + 1 - start) rest))
    (reads : Reads start ((rawLines (.line raw::rest)).take (n + 1 - start)) read) :
    read = startedBy n start (.line raw::rest) ↔ ReadCleanly (n + 1 - start) (.line raw::rest) := by
  have step : (rawLines (.line raw::rest)).take (n + 1 - start) = raw::(rawLines rest).take (n + 1 - (start + 1)) := by
    have more : n + 1 - start = (n + 1 - (start + 1)) + 1 := by omega
    rw [more]
    rfl
  have later : n + 1 - start - [raw].length = n + 1 - (start + 1) := by
    rw [List.length_singleton]
    omega
  rcases readsInv reads with ⟨none_,-⟩ | ⟨line,tail,same,closed,skipped⟩ | ⟨line,tail,-,-,never,rfl⟩
    | ⟨init,last,tail,imports,same,opened,before,ends,after,rfl⟩
  · rw [step] at none_
    contradiction
  · rw [step] at same
    obtain ⟨rfl,rfl⟩ := List.cons.inj same
    rw [cleanCons,startedLine,Block.lines,later,ih skipped]
    exact (and_iff_right fun _ opened => absurd opened (by simp [closed])).symm
  · rw [cleanQuiet never,eq_comm]
  · refine iff_of_false (fun placed => ?_) fun clean => ?_
    · rw [startedLine] at placed
      have first := startedFrom (n := n) (placed ▸ List.mem_cons_self)
      omega
    · have first : raw = init.headD last := by
        rw [step] at same
        cases init with
        | nil => exact (List.cons.inj same).1
        | cons line init => exact (List.cons.inj same).1
      have inside : last ∈ (rawLines (.line raw::rest)).take (n + 1 - start) := by
        rw [same]
        simp
      have quiet := (cleanCons.mp clean).1 (by omega) (first ▸ opened) last inside
      rw [ends] at quiet
      contradiction

theorem wholeCount {d : Declaration} {init : List Text} {last : Text} (whole : init ++ [last] = d.lines.map rawOf) :
    init.length + 1 = d.lines.length := by
  have lengths := congrArg List.length whole
  rwa [List.length_map,List.length_append,List.length_singleton] at lengths

/-- A declaration at the head of a file: it is read in its place exactly if it ends in time and is plain, and
what follows is read as it would be alone. -/
theorem readsUse {d : Declaration} {read : List (Nat × Text)} (early : start ≤ n)
    (ih : ∀ {start : Nat} {read : List (Nat × Text)}, Reads start ((rawLines rest).take (n + 1 - start)) read →
      (read = startedBy n start rest ↔ ReadCleanly (n + 1 - start) rest))
    (reads : Reads start ((rawLines (.use d::rest)).take (n + 1 - start)) read) :
    read = startedBy n start (.use d::rest) ↔ ReadCleanly (n + 1 - start) (.use d::rest) := by
  have raws := declarationRaws d
  have count : (d.lines.map rawOf).length = d.lines.length := List.length_map _
  have later : n + 1 - start - d.lines.length = n + 1 - (start + d.lines.length) := Nat.sub_sub ..
  have enough (short : d.lines.length ≤ n + 1 - start) : (rawLines (.use d::rest)).take (n + 1 - start) =
      d.lines.map rawOf ++ (rawLines rest).take (n + 1 - (start + d.lines.length)) := by
    rw [rawCons,Block.lines,List.take_append,List.take_of_length_le (by rw [count]; exact short),count,later]
  rw [startedUse d early]
  rcases readsInv reads with ⟨none_,-⟩ | ⟨line,tail,same,closed,skipped⟩ | ⟨line,tail,-,-,never,rfl⟩
    | ⟨init,last,tail,imports,same,opened,before,ends,after,rfl⟩
  · have lengths := congrArg List.length none_
    rw [List.length_take,rawCons,List.length_append,Block.lines,count] at lengths
    have some_ : 0 < d.lines.length := by simp [Declaration.lines]
    simp only [List.length_nil] at lengths
    omega
  · refine iff_of_false (fun placed => ?_) fun clean => ?_
    · have first := readsFrom skipped _ (placed ▸ List.mem_cons_self)
      omega
    · obtain ⟨-,plain⟩ := (cleanCons.mp clean).1 (by omega)
      rw [useHead (by omega) same,plain.opened] at closed
      contradiction
  · rw [cleanQuiet never,startedUse d early,eq_comm]
  constructor
  · intro placed
    obtain ⟨first,others⟩ := List.cons.inj placed
    have front : init ++ [last] <+: d.lines.map rawOf ++ rawLines rest := by
      refine (?_ : init ++ [last] <+: (rawLines (.use d::rest)).take (n + 1 - start)).trans ?_
      · rw [same]
        exact ⟨tail,by simp⟩
      · rw [rawCons]
        exact List.take_prefix _ _
    obtain ⟨whole,plain⟩ := readWhole ends (congrArg Prod.snd first) opened front
    have short : d.lines.length ≤ n + 1 - start := by
      have lengths := congrArg List.length same
      have read_ := wholeCount whole
      rw [List.length_take,List.length_append,List.length_cons] at lengths
      omega
    have tails : tail = (rawLines rest).take (n + 1 - (start + d.lines.length)) := by
      rw [enough short,← whole,List.append_assoc] at same
      exact (List.cons.inj (List.append_cancel_left same)).2.symm
    rw [tails,wholeCount whole] at after
    rw [cleanCons,Block.lines,count,later]
    exact ⟨fun _ => ⟨short,plain⟩,(ih after).mp others⟩
  · intro clean
    obtain ⟨now,then_⟩ := cleanCons.mp clean
    obtain ⟨short,plain⟩ := now (by omega)
    rw [Block.lines,count,later] at then_
    rw [enough short,raws,List.append_assoc] at same
    obtain ⟨inits,lasts,tails⟩ := firstClosing same.symm before ends (goesOnRaw plain) (endsRaw plain)
    have whole : init ++ [last] = d.lines.map rawOf := by rw [inits,lasts,raws]
    have at_ := wholeCount whole
    rw [whole,plainText plain]
    change Reads _ tail imports at after
    have rests : tail = (rawLines rest).take (n + 1 - (start + d.lines.length)) := tails
    rw [rests,at_] at after
    rw [(ih after).mpr then_]

end

theorem readsIff (n : Nat) (file : List Block) : ∀ {start : Nat} {read : List (Nat × Text)},
    Reads start ((rawLines file).take (n + 1 - start)) read → (read = startedBy n start file ↔ ReadCleanly (n + 1 - start) file) := by
  induction file with
  | nil =>
    intro start read reads
    have none_ : read = [] := by
      rw [rawLines,List.flatMap_nil,List.take_nil] at reads
      exact readsNil reads
    rw [none_]
    exact iff_of_true rfl ⟨fun before _ _ same => by simp at same,fun before _ _ same => by simp at same⟩
  | cons block rest ih =>
    intro start read reads
    rcases Nat.lt_or_ge n start with late | early
    · have none_ : n + 1 - start = 0 := by omega
      rw [none_] at reads ⊢
      exact iff_of_true (by rw [readsNil reads,startedLate late]) (cleanNone _)
    cases block with
    | use d => exact readsUse early ih reads
    | line raw => exact readsLine early ih reads

theorem collectedMem (content : Text) (n : Nat) {read : List (Nat × Text)}
    (same : (((lines content).take n).foldl takeLine ⟨[],[],false⟩).imports = read.map Prod.snd) (text : Text) :
    text ∈ collectImportsInScope content n ↔ ∃ place ∈ read, place.2 = text := by
  rw [collectImportsInScope,Ranking.memSortBy,List.mem_dedup,same,List.mem_map]

/-- What is read are the declarations, each in its place, exactly where the file reads cleanly up to the line; the
result is then the set of their texts. -/
theorem importsIff (content : Text) (file : List Block) (n : Nat) (laidOut : lines content = rawLines file) :
    ∃ read, Reads 1 ((lines content).take n) read ∧
      (∀ text, text ∈ collectImportsInScope content n ↔ ∃ place ∈ read, place.2 = text) ∧
      (read = startedBy n 1 file ↔ ReadCleanly n file) ∧
      (ReadCleanly n file → (collectImportsInScope content n).Nodup ∧
        ∀ text, text ∈ collectImportsInScope content n ↔ ∃ place ∈ startedBy n 1 file, place.2 = text) := by
  obtain ⟨read,reads,same⟩ := readsScan _ ((lines content).take n) le_rfl 1 []
  rw [List.nil_append] at same
  have cut : Reads 1 ((rawLines file).take (n + 1 - 1)) read := laidOut ▸ reads
  have inPlace := readsIff n file cut
  refine ⟨read,reads,collectedMem content n same,inPlace,fun clean => ⟨?_,?_⟩⟩
  · exact (Ranking.sortByPerm _ _).nodup_iff.mpr (List.nodup_dedup _)
  · rw [← inPlace.mpr clean]
    exact collectedMem content n same

/-- A declaration on one line. -/
def oneLine (line : SourceLine) (keyword : "use".toList <+: trim (codeOf line)) (ends : closes (codeOf line) = true)
    (slashless : '/' ∉ codeOf line) : Declaration where
  init := []
  last := line
  keyword := .inl keyword
  goesOn := fun _ mem => absurd mem List.not_mem_nil
  ends := ends
  slashless := fun _ mem => List.mem_singleton.mp mem ▸ slashless
  comments := fun _ mem => absurd mem List.not_mem_nil

def plainUse : Declaration := oneLine [.code "use a::b;".toList] (by decide) (by decide) (by decide)

theorem importsIffPlain :
    ∃ read, Reads 1 ((lines "use a::b;\n".toList).take 1) read ∧
      (∀ text, text ∈ collectImportsInScope "use a::b;\n".toList 1 ↔ ∃ place ∈ read, place.2 = text) ∧
      (read = startedBy 1 1 [.use plainUse] ↔ ReadCleanly 1 [.use plainUse]) ∧
      (ReadCleanly 1 [.use plainUse] → (collectImportsInScope "use a::b;\n".toList 1).Nodup ∧
        ∀ text, text ∈ collectImportsInScope "use a::b;\n".toList 1 ↔ ∃ place ∈ startedBy 1 1 [.use plainUse], place.2 = text) :=
  importsIff "use a::b;\n".toList [.use plainUse] 1 (by decide)

def notedUse : Declaration :=
  oneLine [.code "use a::b;".toList,.other " // note".toList] (by decide) (by decide) (by decide)

def otherUse : Declaration := oneLine [.code "use c::d;".toList] (by decide) (by decide) (by decide)

/-- A comment behind the semicolon keeps the scan collecting. -/
theorem commentSwallows :
    lines "use a::b; // note\nuse c::d;\n".toList = rawLines [.use notedUse,.use otherUse] ∧
    collectImportsInScope "use a::b; // note\nuse c::d;\n".toList 2 = ["use a::b; // note use c::d;".toList] ∧
    startedBy 2 1 [.use notedUse,.use otherUse] = [(1,"use a::b;".toList),(2,"use c::d;".toList)] := by decide

end RustMcp.ImportsInScope
