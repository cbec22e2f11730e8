import Mathlib

/-! Text as the list of its characters, with the `str` operations that text
formats are written and read with. Splitting is left to right, without overlap,
and keeps empty pieces; nothing here knows a particular format. -/
namespace RustMcp.Str

abbrev Text := List Char

instance textLawful : LawfulBEq Text := inferInstance

/-- Pieces between the non-overlapping occurrences of `sep`; `skip` counts the
characters of an occurrence that are still to be passed over. -/
def splitFrom (sep : Text) : Nat → Text → List Text
  | _, [] => [[]]
  | skip+1, _::cs => splitFrom sep skip cs
  | 0, c::cs =>
      if sep.isPrefixOf (c::cs) then [] :: splitFrom sep (sep.length-1) cs
      else (splitFrom sep 0 cs).modifyHead (c :: ·)

def split (sep text : Text) : List Text := splitFrom sep 0 text

def splitOnce (sep : Char) : Text → Option (Text × Text)
  | [] => none
  | c::cs => if c = sep then some ([],cs) else (splitOnce sep cs).map fun p => (c::p.1,p.2)

def join (sep : Text) (parts : List Text) : Text := sep.intercalate parts

def startsWith (lead text : Text) : Bool := lead.isPrefixOf text

def stripPrefix (lead text : Text) : Option Text :=
  if startsWith lead text then some (text.drop lead.length) else none

def stripSuffix (tail text : Text) : Option Text :=
  if tail.isSuffixOf text then some (text.take (text.length - tail.length)) else none

def trimStartFrom (lead : Text) : Nat → Text → Text
  | 0, text => text
  | n+1, text => match stripPrefix lead text with
    | some rest => trimStartFrom lead n rest
    | none => text

/-- Takes a non-empty lead away as often as it is there. -/
def trimStartMatches (lead text : Text) : Text := trimStartFrom lead text.length text

def trimEndMatches (tail text : Text) : Text := (trimStartMatches tail.reverse text.reverse).reverse

/-- Cut at the first occurrence of a text that is not empty. -/
def splitOnceAt (sep : Text) : Text → Option (Text × Text)
  | [] => none
  | c::cs => match stripPrefix sep (c::cs) with
    | some rest => some ([],rest)
    | none => (splitOnceAt sep cs).map fun p => (c::p.1,p.2)

def contains (pat : Text) : Text → Bool
  | [] => pat.isEmpty
  | c::cs => startsWith pat (c::cs) || contains pat cs

/-- No character of `chars` occurs. -/
def lacks (chars text : Text) : Bool := text.all (fun c => !chars.contains c)

/-- The characters of the Unicode property White_Space. -/
def isWhiteSpace (c : Char) : Bool :=
  let n := c.toNat
  (9 ≤ n && n ≤ 13) || n == 32 || n == 0x85 || n == 0xA0 || n == 0x1680 ||
  (0x2000 ≤ n && n ≤ 0x200A) || n == 0x2028 || n == 0x2029 || n == 0x202F || n == 0x205F || n == 0x3000

def trimStart (text : Text) : Text := text.dropWhile isWhiteSpace
def trimEnd (text : Text) : Text := text.rdropWhile isWhiteSpace
def trim (text : Text) : Text := trimEnd (trimStart text)

def toAsciiLowercase (text : Text) : Text := text.map Char.toLower

theorem toLowerOnce (c : Char) : c.toLower.toLower = c.toLower := by
  unfold Char.toLower
  split
  · rename_i upper
    split
    · rename_i lowered
      simp only at lowered
      grind
    · rfl
  · rfl

theorem whiteLower (c : Char) : isWhiteSpace c.toLower = isWhiteSpace c := by
  have plain (n : Nat) (le : 65 ≤ n) (ge : n ≤ 122) : ∀ d : Char, d.toNat = n → isWhiteSpace d = false := by
    rintro d rfl
    unfold isWhiteSpace
    simp only
    grind
  unfold Char.toLower
  split
  · rename_i upper
    have le : 65 ≤ c.toNat := UInt32.le_iff_toNat_le.mp upper.1
    have ge : c.toNat ≤ 90 := UInt32.le_iff_toNat_le.mp upper.2
    have lowered : (c.val + 32).toNat = c.toNat + 32 := by
      rw [UInt32.toNat_add]
      change (c.toNat + 32) % 2 ^ 32 = c.toNat + 32
      omega
    rw [plain c.toNat le (by omega) c rfl]
    exact plain (c.toNat + 32) (by omega) (by omega) _ lowered
  · rfl

theorem toAsciiLowercaseOnce (text : Text) : toAsciiLowercase (toAsciiLowercase text) = toAsciiLowercase text := by
  rw [toAsciiLowercase,toAsciiLowercase,List.map_map]
  exact List.map_congr_left fun c _ => toLowerOnce c

/-- Lines with their ends; after a last end there is no further line. -/
def splitInclusive : Text → List Text
  | [] => []
  | c::cs =>
      if c = '\n' then [c]::splitInclusive cs
      else match splitInclusive cs with
        | [] => [[c]]
        | line::rest => (c::line)::rest

def stripLineEnd (line : Text) : Text :=
  match stripSuffix ['\n'] line with
  | none => line
  | some line => (stripSuffix ['\r'] line).getD line

def lines (text : Text) : List Text := (splitInclusive text).map stripLineEnd

example : lines "a\r\n\nb\r".toList = ["a".toList,[],"b\r".toList] := by decide

theorem joinCons (sep p q : Text) (qs : List Text) :
    join sep (p::q::qs) = p ++ (sep ++ join sep (q::qs)) := by
  simp [join,List.intercalate,List.intersperse]

theorem startsWithIff {lead text : Text} : startsWith lead text = true ↔ lead <+: text :=
  List.isPrefixOf_iff_prefix

theorem lacksChar {chars text : Text} (clean : lacks chars text = true) {c : Char} (h : c ∈ chars) : c ∉ text := by
  intro mem
  have absent := List.all_eq_true.mp clean c mem
  simp [h] at absent

theorem containsIff {pat text : Text} : contains pat text = true ↔ pat <:+: text := by
  induction text with
  | nil => simp [contains,List.isEmpty_iff]
  | cons c cs ih =>
    simp only [contains,Bool.or_eq_true,startsWithIff,ih]
    exact List.infix_cons_iff.symm

theorem stripPrefixIff {lead text rest : Text} :
    stripPrefix lead text = some rest ↔ text = lead ++ rest := by
  unfold stripPrefix
  split
  · rename_i h
    obtain ⟨tail,rfl⟩ := startsWithIff.mp h
    simp
  · rename_i h
    refine ⟨by simp,?_⟩
    rintro rfl
    exact absurd (startsWithIff.mpr (List.prefix_append lead rest)) h

theorem stripPrefixNone {lead text : Text} : stripPrefix lead text = none ↔ ¬lead <+: text := by
  rw [Option.eq_none_iff_forall_ne_some]
  exact ⟨fun bare ⟨rest,same⟩ => bare rest (stripPrefixIff.mpr same.symm),
    fun absent rest stripped => absent ⟨rest,(stripPrefixIff.mp stripped).symm⟩⟩

/-! A lead is taken away until there is none. -/

theorem trimStartBare {lead text : Text} (bare : stripPrefix lead text = none) : trimStartMatches lead text = text := by
  rw [trimStartMatches]
  cases text with
  | nil => rfl
  | cons c text => rw [List.length_cons,trimStartFrom,bare]

theorem trimStartEnough {lead : Text} (some_ : lead ≠ []) : ∀ (n m : Nat) (text : Text), text.length ≤ n → text.length ≤ m →
    trimStartFrom lead n text = trimStartFrom lead m text := by
  have empty (m : Nat) : trimStartFrom lead m [] = [] := by
    have bare : stripPrefix lead [] = none := stripPrefixNone.mpr fun opens => some_ (List.prefix_nil.mp opens)
    cases m with
    | zero => rfl
    | succ m => rw [trimStartFrom,bare]
  intro n
  induction n with
  | zero =>
    intro m text short _
    rw [List.length_eq_zero_iff.mp (Nat.le_zero.mp short),empty,empty]
  | succ n ih =>
    intro m text short short'
    cases m with
    | zero => rw [List.length_eq_zero_iff.mp (Nat.le_zero.mp short'),empty,empty]
    | succ m =>
      rw [trimStartFrom,trimStartFrom]
      cases stripped : stripPrefix lead text with
      | none => rfl
      | some rest =>
        have whole := congrArg List.length (stripPrefixIff.mp stripped)
        have positive := List.length_pos_of_ne_nil some_
        rw [List.length_append] at whole
        exact ih m rest (by omega) (by omega)

theorem trimStartStep {lead : Text} (some_ : lead ≠ []) (rest : Text) :
    trimStartMatches lead (lead ++ rest) = trimStartMatches lead rest := by
  have positive := List.length_pos_of_ne_nil some_
  obtain ⟨n,long⟩ : ∃ n, (lead ++ rest).length = n + 1 := ⟨(lead ++ rest).length - 1,by rw [List.length_append]; omega⟩
  have enough : rest.length ≤ n := by rw [List.length_append] at long; omega
  rw [trimStartMatches,long,trimStartFrom,stripPrefixIff.mpr rfl]
  exact trimStartEnough some_ _ _ rest enough le_rfl

theorem trimStartOnce {lead rest : Text} (some_ : lead ≠ []) (bare : stripPrefix lead rest = none) :
    trimStartMatches lead (lead ++ rest) = rest := (trimStartStep some_ rest).trans (trimStartBare bare)

theorem stripSuffixAppend (rest tail : Text) : stripSuffix tail (rest ++ tail) = some rest := by
  simp [stripSuffix]

/-! A separator is found nowhere inside a piece that lacks its first character. -/

theorem stripSuffixPrefix {tail text rest : Text} (stripped : stripSuffix tail text = some rest) : rest <+: text := by
  unfold stripSuffix at stripped
  split at stripped <;> try contradiction
  cases Option.some.inj stripped
  exact List.take_prefix _ _

theorem stripSuffixAbsent {c : Char} {text : Text} (absent : c ∉ text) : stripSuffix [c] text = none := by
  unfold stripSuffix
  rw [if_neg]
  intro ends
  exact absent ((List.isSuffixOf_iff_suffix.mp ends).subset List.mem_cons_self)

theorem splitFromSkip (sep head tail : Text) :
    splitFrom sep head.length (head ++ tail) = splitFrom sep 0 tail := by
  induction head with
  | nil => rfl
  | cons c cs ih => simpa [splitFrom] using ih

theorem splitClean {a : Char} (sep : Text) {piece : Text} (clean : a ∉ piece) :
    split (a::sep) piece = [piece] := by
  induction piece with
  | nil => rfl
  | cons c cs ih =>
    have head : ¬ (a::sep).isPrefixOf (c::cs) = true := by
      simp only [List.isPrefixOf,Bool.and_eq_true,beq_iff_eq]
      rintro ⟨rfl,_⟩
      exact clean List.mem_cons_self
    have rest := ih fun mem => clean (List.mem_cons_of_mem _ mem)
    simp only [split] at rest ⊢
    simp [splitFrom,head,rest]

theorem splitCleanAppend {a : Char} (sep : Text) {piece : Text} (clean : a ∉ piece) (tail : Text) :
    split (a::sep) (piece ++ (a::sep) ++ tail) = piece :: split (a::sep) tail := by
  induction piece with
  | nil =>
    have here : (a::sep).isPrefixOf (a::(sep ++ tail)) = true :=
      List.isPrefixOf_iff_prefix.mpr (List.prefix_append (a::sep) tail)
    simp only [split,List.nil_append,List.cons_append,splitFrom,here,if_true]
    simp only [List.length_cons,Nat.add_sub_cancel,splitFromSkip]
  | cons c cs ih =>
    have head : ¬ (a::sep).isPrefixOf (c::(cs ++ (a::sep) ++ tail)) = true := by
      simp only [List.isPrefixOf,Bool.and_eq_true,beq_iff_eq]
      rintro ⟨rfl,_⟩
      exact clean List.mem_cons_self
    have rest := ih fun mem => clean (List.mem_cons_of_mem _ mem)
    simp only [split] at rest ⊢
    simp only [List.cons_append] at head rest ⊢
    simp only [splitFrom,if_neg head,rest,List.modifyHead_cons]

/-- Splitting undoes joining: no piece is lost and none appears. -/
theorem splitJoin (a : Char) (sep : Text) {parts : List Text} (some : parts ≠ [])
    (clean : ∀ p ∈ parts, a ∉ p) : split (a::sep) (join (a::sep) parts) = parts := by
  induction parts with
  | nil => contradiction
  | cons p ps ih =>
    have first := clean p List.mem_cons_self
    have rest : ∀ q ∈ ps, a ∉ q := fun q mem => clean q (List.mem_cons_of_mem _ mem)
    cases ps with
    | nil => simpa [join,List.intercalate] using splitClean sep first
    | cons q qs =>
      have step := splitCleanAppend sep first (join (a::sep) (q::qs))
      rw [ih (by simp) rest] at step
      simpa [join,List.intercalate,List.intersperse,List.append_assoc] using step

theorem joinClean {a : Char} {sep : Text} {parts : List Text} (hs : a ∉ sep) (hp : ∀ part ∈ parts, a ∉ part) :
    a ∉ join sep parts := by
  induction parts with
  | nil => simp [join,List.intercalate]
  | cons p ps ih =>
    have rest := ih fun q mem => hp q (List.mem_cons_of_mem _ mem)
    cases ps with
    | nil => simpa [join,List.intercalate] using hp p (by simp)
    | cons q qs =>
      rw [joinCons]
      simp only [List.mem_append,not_or]
      exact ⟨hp p (by simp),hs,rest⟩

theorem infixJoin {sep part : Text} {parts : List Text} (mem : part ∈ parts) : part <:+: join sep parts := by
  induction parts with
  | nil => simp at mem
  | cons p ps ih =>
    cases ps with
    | nil =>
      simp only [List.mem_singleton] at mem
      subst part; simp [join,List.intercalate]
    | cons q qs =>
      rw [joinCons]
      rcases List.mem_cons.mp mem with rfl | rest
      · exact (List.prefix_append _ _).isInfix
      · exact (ih rest).trans ((List.suffix_append _ _).trans (List.suffix_append _ _)).isInfix

theorem splitOnceNone {sep : Char} {text : Text} : splitOnce sep text = none ↔ sep ∉ text := by
  induction text with
  | nil => simp [splitOnce]
  | cons c cs ih =>
    by_cases same : c = sep
    · subst same; simp [splitOnce]
    · simp [splitOnce,same,ih,Ne.symm same]

theorem splitOnceAppend {sep : Char} {head : Text} (clean : sep ∉ head) (tail : Text) :
    splitOnce sep (head ++ sep::tail) = some (head,tail) := by
  induction head with
  | nil => simp [splitOnce]
  | cons c cs ih =>
    have differ : c ≠ sep := fun same => clean (by simp [same])
    have rest := ih fun mem => clean (List.mem_cons_of_mem _ mem)
    simp [splitOnce,differ,rest]

theorem trimEndAppend {c : Char} (kept : isWhiteSpace c = false) (head tail : Text) :
    trimEnd (head ++ c::tail) = head ++ c::trimEnd tail := by
  simp only [trimEnd,List.rdropWhile,List.reverse_append,List.reverse_cons,List.append_assoc,
    List.dropWhile_append]
  split
  · rename_i blank
    have all : tail.reverse.dropWhile isWhiteSpace = [] := List.isEmpty_iff.mp blank
    simp [all,kept]
  · simp

theorem trimStartKept {c : Char} (kept : isWhiteSpace c = false) (tail : Text) :
    trimStart (c::tail) = c::tail := by
  simp [trimStart,kept]

theorem trimTrim (text : Text) : trim (trim text) = trim text := by
  unfold trim
  cases start : trimStart text with
  | nil => rfl
  | cons c tail =>
    have kept : isWhiteSpace c = false := by
      have first := List.head?_dropWhile_not isWhiteSpace text
      rw [show List.dropWhile isWhiteSpace text = c::tail from start] at first
      simpa using first
    have whole := trimEndAppend kept [] tail
    have again := trimEndAppend kept [] (trimEnd tail)
    rw [List.nil_append,List.nil_append] at whole again
    rw [whole,trimStartKept kept,again,trimEnd,trimEnd,List.rdropWhile_idempotent]

theorem trimStartAround {lead : Text} (rest : Text) :
    trimStart (lead ++ rest) = if trimStart lead = [] then trimStart rest else trimStart lead ++ rest := by
  rw [trimStart,List.dropWhile_append]
  simp only [List.isEmpty_iff]
  rfl

theorem trimEndAround (head trail : Text) :
    trimEnd (head ++ trail) = if trimEnd trail = [] then trimEnd head else head ++ trimEnd trail := by
  rw [trimEnd,List.rdropWhile,List.reverse_append,List.dropWhile_append]
  simp only [List.isEmpty_iff,trimEnd,List.rdropWhile,List.reverse_eq_nil_iff]
  split
  · rfl
  · rw [List.reverse_append,List.reverse_reverse]

theorem trimOpens {text : Text} {c : Char} (first : (trim text).head? = some c) : isWhiteSpace c = false := by
  have inside : (trimStart text).head? = some c := by
    obtain ⟨rest,same⟩ := List.rdropWhile_prefix isWhiteSpace (trimStart text)
    change trim text ++ rest = _ at same
    rw [← same,List.head?_append,first]
    rfl
  have kept := List.head?_dropWhile_not isWhiteSpace text
  rw [show (List.dropWhile isWhiteSpace text).head? = some c from inside] at kept
  simpa using kept

theorem trimCloses {text : Text} {c : Char} (last : (trim text).getLast? = some c) : isWhiteSpace c = false := by
  have kept := List.head?_dropWhile_not isWhiteSpace (trimStart text).reverse
  rw [trim,trimEnd,List.rdropWhile,List.getLast?_reverse] at last
  rw [last] at kept
  simpa using kept

theorem trimKept {text : Text} (first : ∀ c ∈ text.head?, isWhiteSpace c = false)
    (last : ∀ c ∈ text.getLast?, isWhiteSpace c = false) : trim text = text := by
  have start : trimStart text = text := by
    cases text with
    | nil => rfl
    | cons c text => exact trimStartKept (first c rfl) text
  rw [trim,start,trimEnd,List.rdropWhile_eq_self_iff]
  intro some_
  simp [last _ (List.getLast?_eq_some_getLast some_)]

theorem trimClean {text : Text} (clean : ∀ c ∈ text, isWhiteSpace c = false) : trim text = text :=
  trimKept (fun c first => clean c (List.mem_of_mem_head? first)) fun c last => clean c (List.mem_of_getLast? last)

theorem keptAtEnd {c : Char} (kept : isWhiteSpace c = false) {text : Text} (mem : c ∈ text) : c ∈ trimEnd text := by
  obtain ⟨head,tail,rfl⟩ := List.append_of_mem mem
  rw [trimEndAppend kept]
  simp

theorem trimMem {c : Char} (kept : isWhiteSpace c = false) {text : Text} (mem : c ∈ text) : c ∈ trim text := by
  refine keptAtEnd kept ?_
  rw [← List.takeWhile_append_dropWhile (p := isWhiteSpace) (l := text)] at mem
  rcases List.mem_append.mp mem with dropped | rest
  · have white : isWhiteSpace c = true := List.mem_takeWhile_imp dropped
    rw [kept] at white
    contradiction
  · exact rest

theorem trimInfix (text : Text) : trim text <:+: text :=
  (List.rdropWhile_prefix _ _).isInfix.trans (List.dropWhile_suffix _).isInfix

theorem takeUntil {c : Char} {head : Text} (absent : c ∉ head) (tail : Text) :
    (head ++ tail).takeWhile (· ≠ c) = head ++ tail.takeWhile (· ≠ c) :=
  List.takeWhile_append_of_pos fun _ mem => decide_eq_true fun same => absent (same ▸ mem)

theorem dropUntil {c : Char} {head : Text} (absent : c ∉ head) (tail : Text) :
    (head ++ tail).dropWhile (· ≠ c) = tail.dropWhile (· ≠ c) :=
  List.dropWhile_append_of_pos fun _ mem => decide_eq_true fun same => absent (same ▸ mem)

theorem splitInclusiveSingle {text : Text} (some_ : text ≠ []) (single : '\n' ∉ text) : splitInclusive text = [text] := by
  induction text with
  | nil => exact absurd rfl some_
  | cons c cs ih =>
    obtain ⟨here,rest⟩ := not_or.mp (mt List.mem_cons.mpr single)
    rw [splitInclusive,if_neg (Ne.symm here)]
    cases cs with
    | nil => rfl
    | cons d ds => rw [ih (List.cons_ne_nil _ _) rest]

theorem linesSingle {text : Text} (some_ : text ≠ []) (single : '\n' ∉ text) : lines text = [text] := by
  rw [lines,splitInclusiveSingle some_ single,List.map_singleton,stripLineEnd,stripSuffixAbsent single]

theorem splitInclusiveEnds {text line : Text} (mem : line ∈ splitInclusive text) :
    ∃ body, '\n' ∉ body ∧ (line = body ∨ line = body ++ ['\n']) := by
  induction text generalizing line with
  | nil => simp [splitInclusive] at mem
  | cons c cs ih =>
    unfold splitInclusive at mem
    split at mem
    · rename_i ends
      rcases List.mem_cons.mp mem with rfl | later
      · exact ⟨[],by simp,Or.inr (by rw [ends]; rfl)⟩
      · exact ih later
    · rename_i other
      have alone : '\n' ∉ [c] := by simpa using Ne.symm other
      cases rest : splitInclusive cs with
      | nil =>
        rw [rest] at mem
        exact ⟨[c],alone,Or.inl (by simpa using mem)⟩
      | cons first later =>
        rw [rest] at mem
        rcases List.mem_cons.mp mem with rfl | inside
        · obtain ⟨body,clean,ends⟩ := ih (rest ▸ List.mem_cons_self)
          refine ⟨c::body,?_,ends.imp (by rintro rfl; rfl) (by rintro rfl; rfl)⟩
          exact fun inside => (List.mem_cons.mp inside).elim (fun same => other same.symm) clean
        · exact ih (rest ▸ List.mem_cons_of_mem _ inside)

theorem linesClean {text line : Text} (mem : line ∈ lines text) : '\n' ∉ line := by
  obtain ⟨piece,inside,rfl⟩ := List.mem_map.mp mem
  obtain ⟨body,clean,rfl | rfl⟩ := splitInclusiveEnds inside
  · rwa [stripLineEnd,stripSuffixAbsent clean]
  · rw [stripLineEnd,stripSuffixAppend]
    change '\n' ∉ (stripSuffix ['\r'] body).getD body
    cases stripped : stripSuffix ['\r'] body with
    | none => exact clean
    | some rest => exact fun inside => clean ((stripSuffixPrefix stripped).subset inside)

theorem splitInclusiveLine {line : Text} (clean : '\n' ∉ line) (rest : Text) :
    splitInclusive (line ++ '\n'::rest) = (line ++ ['\n'])::splitInclusive rest := by
  induction line with
  | nil => rw [List.nil_append,List.nil_append,splitInclusive,if_pos rfl]
  | cons c line ih =>
    obtain ⟨other,later⟩ := not_or.mp (mt List.mem_cons.mpr clean)
    rw [List.cons_append,splitInclusive,if_neg (Ne.symm other),ih later]
    rfl

theorem linesCons {line : Text} (clean : '\n' ∉ line) (kept : '\r' ∉ line) (rest : Text) :
    lines (line ++ '\n'::rest) = line::lines rest := by
  rw [lines,splitInclusiveLine clean,List.map_cons,stripLineEnd,stripSuffixAppend]
  change (stripSuffix ['\r'] line).getD line :: _ = _
  rw [stripSuffixAbsent kept]
  rfl

theorem linesJoined {parts : List Text} (clean : ∀ part ∈ parts, '\n' ∉ part ∧ '\r' ∉ part) :
    lines (parts.flatMap (· ++ ['\n'])) = parts := by
  induction parts with
  | nil => rfl
  | cons part rest ih =>
    obtain ⟨here,later⟩ := List.forall_mem_cons.mp clean
    rw [List.flatMap_cons,List.append_assoc,List.singleton_append,linesCons here.1 here.2,ih later]

end RustMcp.Str
