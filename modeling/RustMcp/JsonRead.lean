import RustMcp.JsonText
import RustMcp.Utf8Text

/-! Flat records in JSON: how they are written, and how they are read from bytes. A reader takes
what it reads from the front of the bytes and leaves the rest; it is told of each field what it
has to be. Members whose names it was not told are passed over. -/
namespace RustMcp.JsonRead
open Str (Text)
open Utf8Text (bytes)

abbrev Bytes := List UInt8

def code (c : Char) : UInt8 := UInt8.ofNat c.toNat

/-! What is written. -/

inductive Value where
  | null
  | bool (b : Bool)
  | number (n : Nat)
  | text (text : Text)
  | texts (texts : List Text)
  deriving DecidableEq

def joined : List Text → Text
  | [] => []
  | [item] => item
  | item::next::rest => item ++ ',' :: joined (next::rest)

def write : Value → Text
  | .null => "null".toList
  | .bool true => "true".toList
  | .bool false => "false".toList
  | .number n => Nat.toDigits 10 n
  | .text text => JsonText.quoted text
  | .texts texts => '[' :: (joined (texts.map JsonText.quoted) ++ [']'])

abbrev Field := Text × Value

def member (field : Field) : Text := JsonText.quoted field.1 ++ ':' :: write field.2

def object (fields : List Field) : Text := '{' :: (joined (fields.map member) ++ ['}'])

/-! Pieces. -/

def blank (b : UInt8) : Bool := b == code ' ' || b == code '\n' || b == code '\t' || b == code '\r'

def skipBlanks (rest : Bytes) : Bytes := rest.dropWhile blank

def expect (b : UInt8) (rest : Bytes) : Option Bytes :=
  match skipBlanks rest with
  | [] => none
  | c::rest => if c = b then some rest else none

/-- A word that stands here, without blanks before it. -/
def word (text : Text) (rest : Bytes) : Option Bytes :=
  if bytes text <+: rest then some (rest.drop (bytes text).length) else none

def digitOf (b : UInt8) : Option Nat := if 48 ≤ b.toNat ∧ b.toNat ≤ 57 then some (b.toNat - 48) else none

def digits : Nat → Bytes → Nat × Bytes
  | n,[] => (n,[])
  | n,b::rest =>
      match digitOf b with
      | some d => digits (n * 10 + d) rest
      | none => (n,b::rest)

/-- What makes a number of digits another number. -/
def continues (leading : Nat) (b : UInt8) : Bool :=
  b == code '.' || b == code 'e' || b == code 'E' || (leading == 0 && (digitOf b).isSome)

/-- A number without a sign, a fraction or an exponent. -/
def unsigned (maximum : Nat) (rest : Bytes) : Option (Nat × Bytes) :=
  match skipBlanks rest with
  | [] => none
  | b::rest =>
      match digitOf b with
      | none => none
      | some d =>
          let read := if d = 0 then (0,rest) else digits d rest
          if read.2.head?.any (continues d) then none
          else if read.1 ≤ maximum then some read
          else none

def hexDigit (b : UInt8) : Option Nat :=
  let n := b.toNat
  if 48 ≤ n ∧ n ≤ 57 then some (n - 48)
  else if 97 ≤ n ∧ n ≤ 102 then some (n - 87)
  else if 65 ≤ n ∧ n ≤ 70 then some (n - 55)
  else none

def hexCode (p q r s : UInt8) : Option Nat := do
  let a ← hexDigit p
  let b ← hexDigit q
  let c ← hexDigit r
  let d ← hexDigit s
  some (((a * 16 + b) * 16 + c) * 16 + d)

/-- What stands for one byte behind a backslash. -/
def unescape (b : UInt8) : Option UInt8 :=
  if b = code '"' then some (code '"')
  else if b = code '\\' then some (code '\\')
  else if b = code '/' then some (code '/')
  else if b = code 'b' then some 8
  else if b = code 'f' then some 12
  else if b = code 'n' then some 10
  else if b = code 'r' then some 13
  else if b = code 't' then some 9
  else none

def prepend (head : Bytes) (read : Bytes × Bytes) : Bytes × Bytes := (head ++ read.1,read.2)

/-- The bytes of a text up to the quote that ends it. Outside the basic plane a character is
two escapes, the first of them a leading surrogate and the second a trailing one. -/
def textBody : Bytes → Option (Bytes × Bytes)
  | [] => none
  | b::rest =>
      if b = code '"' then some ([],rest)
      else if b ≠ code '\\' then
        if b.toNat < 32 then none else (textBody rest).map (prepend [b])
      else
        match rest with
        | [] => none
        | e::rest =>
            if e ≠ code 'u' then
              match unescape e with
              | none => none
              | some c => (textBody rest).map (prepend [c])
            else
              match rest with
              | p::q::r::s::rest =>
                  match hexCode p q r s with
                  | none => none
                  | some n =>
                      if n < 0xD800 ∨ 0xDFFF < n then (textBody rest).map (prepend (bytes [Char.ofNat n]))
                      else if 0xDC00 ≤ n then none
                      else
                        match rest with
                        | b'::e'::p'::q'::r'::s'::rest =>
                            if b' ≠ code '\\' ∨ e' ≠ code 'u' then none
                            else
                              match hexCode p' q' r' s' with
                              | none => none
                              | some m =>
                                  if m < 0xDC00 ∨ 0xDFFF < m then none
                                  else (textBody rest).map (prepend (bytes [Char.ofNat ((n - 0xD800) * 1024 + (m - 0xDC00) + 0x10000)]))
                        | _ => none
              | _ => none

def text (rest : Bytes) : Option (Text × Bytes) := do
  let rest ← expect (code '"') rest
  let (body,rest) ← textBody rest
  let text ← Utf8Text.fromUtf8 body
  some (text,rest)

def boolean (rest : Bytes) : Option (Bool × Bytes) :=
  match word "true".toList (skipBlanks rest) with
  | some rest => some (true,rest)
  | none => (word "false".toList (skipBlanks rest)).map (false,·)

/-- Items with commas between them, up to what ends them. Each item takes at least one byte. -/
def separated {α : Type} (close : UInt8) (item : Bytes → Option (α × Bytes)) : Nat → Bool → Bytes → Option (List α × Bytes)
  | 0,_,_ => none
  | fuel + 1,first,rest =>
      match skipBlanks rest with
      | [] => none
      | b::after =>
          if b = close then some ([],after)
          else do
            let rest ← if first then some (b::after) else if b = code ',' then some after else none
            let (a,rest) ← item rest
            let (more,rest) ← separated close item fuel false rest
            some (a::more,rest)

def array {α : Type} (item : Bytes → Option (α × Bytes)) (rest : Bytes) : Option (List α × Bytes) := do
  let rest ← expect (code '[') rest
  separated (code ']') item (rest.length + 1) true rest

/-! Values that are passed over. -/

def skipText : Bytes → Option Bytes
  | [] => none
  | b::rest =>
      if b = code '"' then some rest
      else if b ≠ code '\\' then if b.toNat < 32 then none else skipText rest
      else
        match rest with
        | [] => none
        | e::rest =>
            if e ≠ code 'u' then if (unescape e).isSome then skipText rest else none
            else
              match rest with
              | p::q::r::s::rest => if (hexCode p q r s).isSome then skipText rest else none
              | _ => none

def isDigit (b : UInt8) : Bool := (digitOf b).isSome

def skipDigits : Bytes → Option Bytes
  | [] => none
  | b::rest => if isDigit b then some (rest.dropWhile isDigit) else none

def skipExponent (rest : Bytes) : Option Bytes :=
  match rest with
  | [] => some []
  | b::after =>
      if b = code 'e' ∨ b = code 'E' then
        match after with
        | [] => none
        | sign::unsigned => skipDigits (if sign = code '+' ∨ sign = code '-' then unsigned else after)
      else some rest

/-- No digit stands behind a zero that begins a number. -/
def skipWhole (rest : Bytes) : Option Bytes :=
  match rest with
  | [] => none
  | b::after => if b = code '0' then if after.head?.any isDigit then none else some after else skipDigits rest

def skipFraction (rest : Bytes) : Option Bytes :=
  match rest with
  | [] => some []
  | b::after => if b = code '.' then (skipDigits after).bind skipExponent else skipExponent rest

def skipNumber (rest : Bytes) : Option Bytes := (skipWhole rest).bind skipFraction

def skipMember (skip : Bytes → Option Bytes) (rest : Bytes) : Option (Unit × Bytes) := do
  let rest ← expect (code '"') rest
  let rest ← skipText rest
  let rest ← expect (code ':') rest
  (skip rest).map ((),·)

/-- A value by its first byte; `skip` passes over the values inside. -/
def skipFrom (skip : Bytes → Option Bytes) (b : UInt8) (rest : Bytes) : Option Bytes :=
  if b = code 'n' then word "ull".toList rest
  else if b = code 't' then word "rue".toList rest
  else if b = code 'f' then word "alse".toList rest
  else if b = code '-' then skipNumber rest
  else if isDigit b then skipNumber (b::rest)
  else if b = code '"' then skipText rest
  else if b = code '[' then
    (separated (code ']') (fun rest => (skip rest).map ((),·)) (rest.length + 1) true rest).map Prod.snd
  else if b = code '\x7b' then (separated (code '\x7d') (skipMember skip) (rest.length + 1) true rest).map Prod.snd
  else none

def skipValue : Nat → Bytes → Option Bytes
  | 0,_ => none
  | fuel + 1,rest =>
      match skipBlanks rest with
      | [] => none
      | b::rest => skipFrom (skipValue fuel) b rest

/-! Records. -/

inductive Kind where
  | unsigned (maximum : Nat)
  | bool
  | text
  | optional
  | texts
  /-- the spellings of each variant, the first of them the one that is written -/
  | variant (names : List (List Text))
  deriving DecidableEq

abbrev Schema := List (Text × Kind)

def variantOf (names : List (List Text)) (text : Text) : Option Text := (names.find? fun spellings => text ∈ spellings).bind List.head?

/-- A variant is its name, or a record of one member of that name. -/
def variant (names : List (List Text)) (rest : Bytes) : Option (Text × Bytes) :=
  match expect (code '\x7b') rest with
  | some rest => do
      let (name,rest) ← text rest
      let name ← variantOf names name
      let rest ← expect (code ':') rest
      let rest ← word "null".toList (skipBlanks rest)
      let rest ← expect (code '\x7d') rest
      some (name,rest)
  | none => do
      let (name,rest) ← text rest
      let name ← variantOf names name
      some (name,rest)

def optional (rest : Bytes) : Option (Value × Bytes) :=
  match word "null".toList (skipBlanks rest) with
  | some rest => some (.null,rest)
  | none => (text rest).map fun read => (.text read.1,read.2)

def readKind : Kind → Bytes → Option (Value × Bytes)
  | .unsigned maximum,rest => (unsigned maximum rest).map fun read => (.number read.1,read.2)
  | .bool,rest => (boolean rest).map fun read => (.bool read.1,read.2)
  | .text,rest => (text rest).map fun read => (.text read.1,read.2)
  | .optional,rest => optional rest
  | .texts,rest => (array text rest).map fun read => (.texts read.1,read.2)
  | .variant names,rest => (variant names rest).map fun read => (.text read.1,read.2)

/-- A member, with its value where the schema has its name. -/
def entry (schema : Schema) (rest : Bytes) : Option ((Text × Option Value) × Bytes) := do
  let (name,rest) ← text rest
  let rest ← expect (code ':') rest
  match schema.lookup name with
  | some kind => (readKind kind rest).map fun read => ((name,some read.1),read.2)
  | none => (skipValue (rest.length + 1) rest).map fun rest => ((name,none),rest)

/-- No member may be there twice; one that is not there is `null` where it may be. -/
def slot (entries : List (Text × Option Value)) (field : Text × Kind) : Option Value :=
  match entries.filter fun entry => entry.1 = field.1 with
  | [] => if field.2 = .optional then some .null else none
  | [entry] => entry.2
  | _ => none

/-- The record as an array of its values. -/
def elements : Schema → Bool → Bytes → Option (List Value × Bytes)
  | [],_,rest => (expect (code ']') rest).map ([],·)
  | field::schema,first,rest => do
      let rest ← if first then some rest else expect (code ',') rest
      let (value,rest) ← readKind field.2 rest
      let (values,rest) ← elements schema false rest
      some (value::values,rest)

def record (schema : Schema) (rest : Bytes) : Option (List Value × Bytes) :=
  match expect (code '\x7b') rest with
  | some rest => do
      let (entries,rest) ← separated (code '\x7d') (entry schema) (rest.length + 1) true rest
      let values ← schema.mapM (slot entries)
      some (values,rest)
  | none => do
      let rest ← expect (code '[') rest
      elements schema true rest

def fromSlice (schema : Schema) (slice : Bytes) : Option (List Value) := do
  let (values,rest) ← record schema slice
  if skipBlanks rest = [] then some values else none

/-! Bytes of what is written. -/

theorem codeNat {c : Char} (ascii : c.utf8Size = 1) : (code c).toNat = c.toNat := by
  rw [code,UInt8.toNat_ofNat']
  exact Nat.mod_eq_of_lt ((Utf8Text.asciiSmall ascii).trans (by decide))

theorem codeInj {c d : Char} (ascii : c.utf8Size = 1) (ascii' : d.utf8Size = 1) : code c = code d ↔ c = d := by
  rw [← UInt8.toNat_inj,codeNat ascii,codeNat ascii',Char.toNat_inj]

theorem bytesAscii {c : Char} (ascii : c.utf8Size = 1) (text : Text) : bytes (c::text) = code c :: bytes text := by
  obtain ⟨byte,same,split_⟩ := Utf8Text.asciiByte ascii
  have number : byte.toNat = (code c).toNat := by
    rw [codeNat ascii,← same,Utf8Text.asCharNat]
  rw [split_,UInt8.toNat_inj.mp number]

theorem smallAscii {c : Char} (small : c.toNat < 128) : c.utf8Size = 1 := by
  rw [Char.utf8Size_eq_one_iff,UInt32.le_iff_toNat_le]
  exact Nat.le_of_lt_succ small

/-- A piece that a text has as it is: no quote, no backslash and no control character. -/
def Raw (piece : Bytes) : Prop := ∀ b ∈ piece, b ≠ code '"' ∧ b ≠ code '\\' ∧ 32 ≤ b.toNat

theorem rawChar {c : Char} (plain : JsonText.Plain c) : Raw (String.utf8EncodeChar c) := by
  intro b mem
  obtain ⟨quote,backslash,printed⟩ := plain
  by_cases ascii : c.utf8Size = 1
  · have single := bytesAscii ascii []
    rw [Utf8Text.bytesCons] at single
    have same : b = code c := by
      have inside := List.mem_append_left (bytes []) mem
      rw [single] at inside
      exact List.mem_singleton.mp inside
    rw [same,Ne,Ne,codeInj ascii (by decide),codeInj ascii (by decide),codeNat ascii]
    exact ⟨quote,backslash,printed⟩
  · have high := Utf8Text.encodedWide ascii mem
    refine ⟨?_,?_,by omega⟩
    · rintro rfl
      exact absurd high (by decide)
    · rintro rfl
      exact absurd high (by decide)

theorem bodyPlain {b : UInt8} (quote : b ≠ code '"') (backslash : b ≠ code '\\') (printed : 32 ≤ b.toNat) (rest : Bytes) :
    textBody (b::rest) = (textBody rest).map (prepend [b]) := by
  rw [textBody.eq_def]
  simp only [if_neg quote,if_pos backslash,if_neg (Nat.not_lt.mpr printed)]

theorem skipPlain {b : UInt8} (quote : b ≠ code '"') (backslash : b ≠ code '\\') (printed : 32 ≤ b.toNat) (rest : Bytes) :
    skipText (b::rest) = skipText rest := by
  rw [skipText.eq_def]
  simp only [if_neg quote,if_pos backslash,if_neg (Nat.not_lt.mpr printed)]

theorem prependNil (read : Option (Bytes × Bytes)) : read.map (prepend []) = read := by
  cases read <;> rfl

theorem bodyRaw {piece : Bytes} (raw : Raw piece) (rest : Bytes) : textBody (piece ++ rest) = (textBody rest).map (prepend piece) := by
  induction piece with
  | nil => exact (prependNil _).symm
  | cons b piece ih =>
    obtain ⟨⟨quote,backslash,printed⟩,later⟩ := List.forall_mem_cons.mp raw
    rw [List.cons_append,bodyPlain quote backslash printed,ih later,Option.map_map]
    rfl

theorem skipRaw {piece : Bytes} (raw : Raw piece) (rest : Bytes) : skipText (piece ++ rest) = skipText rest := by
  induction piece with
  | nil => rfl
  | cons b piece ih =>
    obtain ⟨⟨quote,backslash,printed⟩,later⟩ := List.forall_mem_cons.mp raw
    rw [List.cons_append,skipPlain quote backslash printed,ih later]

theorem bodyUnescape {e c : UInt8} (same : unescape e = some c) (notCode : e ≠ code 'u') (rest : Bytes) :
    textBody (code '\\' :: e :: rest) = (textBody rest).map (prepend [c]) := by
  rw [textBody.eq_def]
  simp only [show code '\\' ≠ code '"' by decide,ne_eq,not_true_eq_false,if_false,notCode,not_false_eq_true,if_true,same]

theorem skipUnescape {e c : UInt8} (same : unescape e = some c) (notCode : e ≠ code 'u') (rest : Bytes) :
    skipText (code '\\' :: e :: rest) = skipText rest := by
  rw [skipText.eq_def]
  simp only [show code '\\' ≠ code '"' by decide,ne_eq,not_true_eq_false,if_false,notCode,not_false_eq_true,if_true,same,
    Option.isSome_some]

theorem bodyCode {p q r s : UInt8} {n : Nat} (same : hexCode p q r s = some n) (small : n < 0xD800) (rest : Bytes) :
    textBody (code '\\' :: code 'u' :: p :: q :: r :: s :: rest) = (textBody rest).map (prepend (bytes [Char.ofNat n])) := by
  rw [textBody.eq_def]
  simp only [show code '\\' ≠ code '"' by decide,ne_eq,not_true_eq_false,if_false,same,small,true_or,if_true]

theorem skipCode {p q r s : UInt8} {n : Nat} (same : hexCode p q r s = some n) (rest : Bytes) :
    skipText (code '\\' :: code 'u' :: p :: q :: r :: s :: rest) = skipText rest := by
  rw [skipText.eq_def]
  simp only [show code '\\' ≠ code '"' by decide,ne_eq,not_true_eq_false,if_false,same,Option.isSome_some,if_true]

theorem hexWritten {n : Nat} (small : n < 16) : hexDigit (code n.digitChar) = some n := by
  interval_cases n <;> decide


/-- What stands for a character in a written text. -/
inductive Written (c : Char) : Bytes → Prop where
  | plain (plain : JsonText.Plain c) : Written c (String.utf8EncodeChar c)
  | letter {e b : UInt8} (same : unescape e = some b) (notCode : e ≠ code 'u') (one : String.utf8EncodeChar c = [b]) :
      Written c [code '\\',e]
  | number {p q r s : UInt8} (same : hexCode p q r s = some c.toNat) (small : c.toNat < 0xD800) :
      Written c [code '\\',code 'u',p,q,r,s]

theorem hexLow {n : Nat} (small : n < 32) :
    hexCode (code '0') (code '0') (code (n / 16).digitChar) (code (n % 16).digitChar) = some n := by
  interval_cases n <;> decide

theorem digitAscii {n : Nat} (small : n < 16) : n.digitChar.utf8Size = 1 := by
  interval_cases n <;> decide

theorem escapeWritten (c : Char) : Written c (bytes (JsonText.escapeChar c)) := by
  unfold JsonText.escapeChar
  split_ifs with quote backslash newline carriage tab backspace feed small
  · subst quote
    exact .letter (e := code '"') (b := code '"') (by decide) (by decide) (by decide)
  · subst backslash
    exact .letter (e := code '\\') (b := code '\\') (by decide) (by decide) (by decide)
  · subst newline
    exact .letter (e := code 'n') (b := 10) (by decide) (by decide) (by decide)
  · subst carriage
    exact .letter (e := code 'r') (b := 13) (by decide) (by decide) (by decide)
  · subst tab
    exact .letter (e := code 't') (b := 9) (by decide) (by decide) (by decide)
  · obtain rfl : c = '\x08' := Char.toNat_inj.mp backspace
    exact .letter (e := code 'b') (b := 8) (by decide) (by decide) (by decide)
  · obtain rfl : c = '\x0c' := Char.toNat_inj.mp feed
    exact .letter (e := code 'f') (b := 12) (by decide) (by decide) (by decide)
  · rw [bytesAscii (by decide),bytesAscii (by decide),bytesAscii (by decide),bytesAscii (by decide),bytesAscii (digitAscii (by omega)),
      bytesAscii (digitAscii (by omega))]
    exact .number (hexLow small) (by omega)
  · rw [Utf8Text.bytesCons,Utf8Text.bytes,List.flatMap_nil,List.append_nil]
    exact .plain ⟨quote,backslash,not_lt.mp small⟩

theorem bodyChar (c : Char) (rest : Bytes) :
    textBody (bytes (JsonText.escapeChar c) ++ rest) = (textBody rest).map (prepend (String.utf8EncodeChar c)) := by
  have written := escapeWritten c
  generalize bytes (JsonText.escapeChar c) = piece at written ⊢
  cases written with
  | plain plain => exact bodyRaw (rawChar plain) rest
  | letter same notCode one => exact one ▸ bodyUnescape same notCode rest
  | number same small =>
    refine (bodyCode same small rest).trans ?_
    rw [Char.ofNat_toNat,Utf8Text.bytesCons,Utf8Text.bytes,List.flatMap_nil,List.append_nil]

theorem skipChar (c : Char) (rest : Bytes) : skipText (bytes (JsonText.escapeChar c) ++ rest) = skipText rest := by
  have written := escapeWritten c
  generalize bytes (JsonText.escapeChar c) = piece at written ⊢
  cases written with
  | plain plain => exact skipRaw (rawChar plain) rest
  | letter same notCode one => exact skipUnescape same notCode rest
  | number same small => exact skipCode same rest

theorem bodyEnd (rest : Bytes) : textBody (code '"' :: rest) = some ([],rest) := by
  rw [textBody.eq_def]
  exact if_pos rfl

theorem skipEnd (rest : Bytes) : skipText (code '"' :: rest) = some rest := by
  rw [skipText.eq_def]
  exact if_pos rfl

theorem bodyEscape (text : Text) (rest : Bytes) :
    textBody (bytes (JsonText.escape text) ++ code '"' :: rest) = some (bytes text,rest) := by
  induction text with
  | nil => exact bodyEnd rest
  | cons c text ih =>
    rw [JsonText.escapeCons,Utf8Text.bytesAppend,List.append_assoc,bodyChar,ih,Utf8Text.bytesCons]
    rfl

theorem skipEscape (text : Text) (rest : Bytes) : skipText (bytes (JsonText.escape text) ++ code '"' :: rest) = some rest := by
  induction text with
  | nil => exact skipEnd rest
  | cons c text ih => rw [JsonText.escapeCons,Utf8Text.bytesAppend,List.append_assoc,skipChar,ih]

theorem bytesQuoted (text : Text) (rest : Bytes) :
    bytes (JsonText.quoted text) ++ rest = code '"' :: (bytes (JsonText.escape text) ++ code '"' :: rest) := by
  rw [JsonText.quoted,bytesAscii (by decide),Utf8Text.bytesAppend,bytesAscii (by decide),List.cons_append,List.append_assoc]
  rfl

theorem quotedLead (text : Text) : bytes (JsonText.quoted text) = code '"' :: (bytes (JsonText.escape text) ++ [code '"']) := by
  have whole := bytesQuoted text []
  rwa [List.append_nil] at whole

/-! Readers at what is written. -/

theorem skipNone {b : UInt8} (notBlank : blank b = false) (rest : Bytes) : skipBlanks (b::rest) = b::rest := by
  rw [skipBlanks,List.dropWhile_cons_of_neg (by rw [notBlank]; exact Bool.false_ne_true)]

theorem expectHere {b : UInt8} (notBlank : blank b = false) (rest : Bytes) : expect b (b::rest) = some rest := by
  rw [expect,skipNone notBlank]
  exact if_pos rfl

theorem expectOther {b c : UInt8} (notBlank : blank c = false) (other : c ≠ b) (rest : Bytes) : expect b (c::rest) = none := by
  rw [expect,skipNone notBlank]
  exact if_neg other

theorem textQuoted (given : Text) (rest : Bytes) : text (bytes (JsonText.quoted given) ++ rest) = some (given,rest) := by
  rw [bytesQuoted,text,expectHere (by decide)]
  simp only [Option.bind_eq_bind,Option.bind_some,bodyEscape,Utf8Text.fromUtf8Bytes]

/-- What stands behind a value. -/
def Closer (b : UInt8) : Prop := b = code ',' ∨ b = code ']' ∨ b = code '\x7d'

theorem closerPlain {b : UInt8} (closer : Closer b) :
    digitOf b = none ∧ blank b = false ∧ ∀ d, d ≠ 0 → continues d b = false := by
  rcases closer with rfl | rfl | rfl <;> exact ⟨by decide,by decide,fun d some_ => by simp [continues,digitOf,code]⟩

/-! Numbers. -/

theorem digitCode {c : Char} (digit : c.isDigit = true) : c.utf8Size = 1 ∧ digitOf (code c) = some (c.toNat - 48) := by
  have small : 48 ≤ c.toNat ∧ c.toNat ≤ 57 := by
    simpa [Char.isDigit,UInt32.le_iff_toNat_le] using digit
  have ascii : c.utf8Size = 1 := smallAscii (by omega)
  refine ⟨ascii,?_⟩
  rw [digitOf,codeNat ascii,if_pos small]

theorem digitsRead {ds : Text} (all : ∀ c ∈ ds, c.isDigit = true) {b : UInt8} (stop : digitOf b = none) (n : Nat) (rest : Bytes) :
    digits n (bytes ds ++ b::rest) = (Nat.ofDigitChars 10 ds n,b::rest) := by
  induction ds generalizing n with
  | nil =>
    show digits n (b::rest) = _
    rw [digits,stop,Nat.ofDigitChars_nil]
  | cons c ds ih =>
    obtain ⟨here,later⟩ := List.forall_mem_cons.mp all
    obtain ⟨ascii,value⟩ := digitCode here
    rw [bytesAscii ascii,List.cons_append,digits,value,Nat.ofDigitChars_cons,← ih later,Nat.mul_comm 10 n]
    rfl

/-- No number but zero begins with a zero. -/
theorem leadingDigit {n : Nat} (some_ : 0 < n) : ∃ k cs, 0 < k ∧ k < 10 ∧ Nat.toDigits 10 n = k.digitChar :: cs := by
  induction n using Nat.strong_induction_on with
  | _ n ih =>
    by_cases small : n < 10
    · exact ⟨n,[],some_,small,Nat.toDigits_of_lt_base small⟩
    · obtain ⟨k,cs,positive,digit,same⟩ := ih (n / 10) (by omega) (by omega)
      refine ⟨k,cs ++ [(n % 10).digitChar],positive,digit,?_⟩
      rw [Nat.toDigits_of_base_le (by decide) (not_lt.mp small),same,List.cons_append]

theorem unsignedWritten (maximum n : Nat) {b : UInt8} (closer : Closer b) (rest : Bytes) :
    unsigned maximum (bytes (Nat.toDigits 10 n) ++ b::rest) = if n ≤ maximum then some (n,b::rest) else none := by
  obtain ⟨stop,_,apart⟩ := closerPlain closer
  have all : ∀ c ∈ Nat.toDigits 10 n, c.isDigit = true := fun c mem => Nat.isDigit_of_mem_toDigits (by decide) (by decide) mem
  rcases Nat.eq_zero_or_pos n with rfl | some_
  · rcases closer with rfl | rfl | rfl <;> rfl
  · obtain ⟨k,cs,positive,small,shape⟩ := leadingDigit some_
    have value : Nat.ofDigitChars 10 cs k = n := by
      have whole := Nat.ofDigitChars_ten_toDigits (n := n)
      rwa [shape,Nat.ofDigitChars_cons_digitChar_of_lt_ten small,Nat.mul_zero,Nat.zero_add] at whole
    rw [shape] at all ⊢
    obtain ⟨here,later⟩ := List.forall_mem_cons.mp all
    obtain ⟨ascii,first⟩ := digitCode here
    rw [Nat.toNat_digitChar_sub_48_of_lt_ten small] at first
    have notBlank : blank (code k.digitChar) = false := by interval_cases k <;> decide
    rw [bytesAscii ascii,List.cons_append,unsigned,skipNone notBlank]
    simp only [first,positive.ne',if_false,digitsRead later stop,value,List.head?_cons,Option.any_some,apart k positive.ne',
      Bool.false_eq_true]

theorem skipNumberWritten (n : Nat) {b : UInt8} (closer : Closer b) (rest : Bytes) :
    skipNumber (bytes (Nat.toDigits 10 n) ++ b::rest) = some (b::rest) := by
  have stop : isDigit b = false := by rw [isDigit,(closerPlain closer).1]; rfl
  have ends : skipFraction (b::rest) = some (b::rest) := by rcases closer with rfl | rfl | rfl <;> rfl
  have all : ∀ c ∈ Nat.toDigits 10 n, c.isDigit = true := fun c mem => Nat.isDigit_of_mem_toDigits (by decide) (by decide) mem
  rcases Nat.eq_zero_or_pos n with rfl | some_
  · rcases closer with rfl | rfl | rfl <;> rfl
  · obtain ⟨k,cs,positive,small,shape⟩ := leadingDigit some_
    rw [shape] at all ⊢
    obtain ⟨here,later⟩ := List.forall_mem_cons.mp all
    obtain ⟨ascii,first⟩ := digitCode here
    have notZero : code k.digitChar ≠ code '0' := by interval_cases k <;> decide
    have whole : (bytes cs ++ b::rest).dropWhile isDigit = b::rest := by
      rw [List.dropWhile_append_of_pos,List.dropWhile_cons_of_neg (by rw [stop]; exact Bool.false_ne_true)]
      intro d mem
      obtain ⟨c,inside,piece⟩ := List.mem_flatMap.mp mem
      obtain ⟨ascii,value⟩ := digitCode (later c inside)
      have single := bytesAscii ascii []
      rw [Utf8Text.bytesCons] at single
      have same : d = code c := by
        have there := List.mem_append_left (bytes []) piece
        rw [single] at there
        exact List.mem_singleton.mp there
      rw [isDigit,same,value]
      rfl
    rw [bytesAscii ascii,List.cons_append,skipNumber,skipWhole]
    simp only [if_neg notZero,skipDigits,isDigit,first,Option.isSome_some,if_true]
    exact (congrArg (fun more : Bytes => (some more).bind skipFraction) whole).trans ends

/-! Lists. -/

section
variable {α β : Type} (close : UInt8) (w : β → Text)

/-- What stands behind an item of a list: the items after it, each behind a comma, and the end. -/
def behind (rest : Bytes) : List β → Bytes
  | [] => close::rest
  | x::xs => code ',' :: (bytes (w x) ++ behind rest xs)

variable {close w}

theorem behindHead (rest : Bytes) (xs : List β) : ∃ b more, behind close w rest xs = b::more ∧ (b = code ',' ∨ b = close) := by
  cases xs with
  | nil => exact ⟨_,_,rfl,Or.inr rfl⟩
  | cons x xs => exact ⟨_,_,rfl,Or.inl rfl⟩

theorem joinedBehind (rest : Bytes) (x : β) (xs : List β) :
    bytes (joined ((x::xs).map w)) ++ close::rest = bytes (w x) ++ behind close w rest xs := by
  induction xs generalizing x with
  | nil => rfl
  | cons y ys ih =>
    have step : joined ((x::y::ys).map w) = w x ++ ',' :: joined ((y::ys).map w) := rfl
    rw [step,Utf8Text.bytesAppend,bytesAscii (by decide),List.append_assoc,List.cons_append,ih y]
    rfl

/-- The item reader reads what is written, or fails there, wherever a comma or the end is behind it. -/
def Reads (close : UInt8) (w : β → Text) (item : Bytes → Option (α × Bytes)) (f : β → Option α) (xs : List β) : Prop :=
  ∀ x ∈ xs, (∃ h t, bytes (w x) = h::t ∧ blank h = false ∧ h ≠ close) ∧
    ∀ b rest, b = code ',' ∨ b = close → item (bytes (w x) ++ b::rest) = (f x).map (·,b::rest)

variable {item : Bytes → Option (α × Bytes)} {f : β → Option α} {xs : List β}

theorem readItem {x : β} (reads : Reads close w item f (x::xs)) (rest : Bytes) (ys : List β) :
    item (bytes (w x) ++ behind close w rest ys) = (f x).map (·,behind close w rest ys) := by
  obtain ⟨b,more,shape,stop⟩ : ∃ b more, behind close w rest ys = b::more ∧ (b = code ',' ∨ b = close) := behindHead rest ys
  rw [shape]
  exact (reads x List.mem_cons_self).2 b more stop

theorem separatedBehind (notBlank : blank close = false) (apart : code ',' ≠ close) (reads : Reads close w item f xs) (rest : Bytes)
    {fuel : Nat} (enough : xs.length < fuel) :
    separated close item fuel false (behind close w rest xs) = (xs.mapM f).map (·,rest) := by
  induction xs generalizing fuel with
  | nil =>
    obtain ⟨fuel,rfl⟩ := Nat.exists_eq_succ_of_ne_zero (Nat.pos_iff_ne_zero.mp enough)
    rw [behind,separated,skipNone notBlank]
    exact if_pos rfl
  | cons x xs ih =>
    obtain ⟨fuel,rfl⟩ := Nat.exists_eq_succ_of_ne_zero (Nat.pos_iff_ne_zero.mp (Nat.zero_lt_of_lt enough))
    have later := ih (fun y mem => reads y (List.mem_cons_of_mem x mem)) (Nat.lt_of_succ_lt_succ enough)
    rw [behind,separated,skipNone (by decide)]
    simp only [if_neg apart,Bool.false_eq_true,if_false,if_true,Option.bind_eq_bind,Option.bind_some,readItem reads,List.mapM_cons]
    cases f x with
    | none => rfl
    | some a =>
      simp only [Option.map_some,Option.bind_some,later]
      cases xs.mapM f <;> rfl

theorem separatedWritten (notBlank : blank close = false) (apart : code ',' ≠ close) (reads : Reads close w item f xs) (rest : Bytes)
    {fuel : Nat} (enough : xs.length < fuel) :
    separated close item fuel true (bytes (joined (xs.map w)) ++ close::rest) = (xs.mapM f).map (·,rest) := by
  cases xs with
  | nil =>
    obtain ⟨fuel,rfl⟩ := Nat.exists_eq_succ_of_ne_zero (Nat.pos_iff_ne_zero.mp enough)
    show separated close item (fuel + 1) true (close::rest) = _
    rw [separated,skipNone notBlank]
    exact if_pos rfl
  | cons x xs =>
    obtain ⟨fuel,rfl⟩ := Nat.exists_eq_succ_of_ne_zero (Nat.pos_iff_ne_zero.mp (Nat.zero_lt_of_lt enough))
    have later := separatedBehind notBlank apart (fun y mem => reads y (List.mem_cons_of_mem x mem)) rest (Nat.lt_of_succ_lt_succ enough)
    obtain ⟨h,t,shape,clean,other⟩ := (reads x List.mem_cons_self).1
    have read := readItem reads rest xs
    rw [joinedBehind]
    rw [shape,List.cons_append] at read ⊢
    rw [separated,skipNone clean]
    simp only [if_neg other,if_true,Option.bind_eq_bind,Option.bind_some,read,List.mapM_cons]
    cases f x with
    | none => rfl
    | some a =>
      simp only [Option.map_some,Option.bind_some,later]
      cases xs.mapM f <;> rfl

/-- There are no more items than bytes. -/
theorem joinedLength (reads : Reads close w item f xs) (rest : Bytes) :
    xs.length ≤ (bytes (joined (xs.map w)) ++ close::rest).length := by
  have all : ∀ ys : List β, (∀ y ∈ ys, (bytes (w y)).length ≠ 0) → ys.length < (behind close w rest ys).length := by
    intro ys
    induction ys with
    | nil => intro _; exact Nat.succ_pos _
    | cons y ys ih =>
      intro some_
      have later := ih fun z mem => some_ z (List.mem_cons_of_mem y mem)
      simp only [behind,List.length_cons,List.length_append]
      omega
  have some_ : ∀ x ∈ xs, (bytes (w x)).length ≠ 0 := fun x mem => by
    obtain ⟨h,t,shape,_⟩ := (reads x mem).1
    rw [shape]
    exact Nat.succ_ne_zero _
  cases xs with
  | nil => exact Nat.zero_le _
  | cons x xs =>
    have later := all xs fun y mem => some_ y (List.mem_cons_of_mem x mem)
    have here := some_ x List.mem_cons_self
    rw [joinedBehind,List.length_append,List.length_cons]
    omega

end

theorem mapMSome {α : Type} (xs : List α) : xs.mapM some = some xs := by
  induction xs with
  | nil => rfl
  | cons x xs ih =>
    rw [List.mapM_cons,ih]
    rfl

theorem arrayTexts (texts : List Text) (rest : Bytes) : array text (bytes (write (.texts texts)) ++ rest) = some (texts,rest) := by
  have reads : Reads (code ']') JsonText.quoted text some texts := fun given _ => by
    refine ⟨⟨code '"',_,quotedLead given,by decide,by decide⟩,fun b rest _ => ?_⟩
    rw [textQuoted]
    rfl
  rw [write,bytesAscii (by decide),Utf8Text.bytesAppend,bytesAscii (by decide),List.cons_append,array,expectHere (by decide),
    List.append_assoc]
  have enough := joinedLength reads rest
  have read := separatedWritten (by decide) (by decide) reads rest (Nat.lt_succ_of_le enough)
  rw [mapMSome] at read
  exact read

/-! Values, each as its kind. -/

/-- What a field of the kind takes of a value. -/
def accept : Kind → Value → Option Value
  | .unsigned maximum,.number n => if n ≤ maximum then some (.number n) else none
  | .bool,.bool b => some (.bool b)
  | .text,.text text => some (.text text)
  | .optional,.null => some .null
  | .optional,.text text => some (.text text)
  | .texts,.texts texts => some (.texts texts)
  | .variant names,.text text => (variantOf names text).map .text
  | _,_ => none

/-- What a written value begins with. -/
inductive Lead : Value → UInt8 → Prop where
  | null : Lead .null (code 'n')
  | yes : Lead (.bool true) (code 't')
  | no : Lead (.bool false) (code 'f')
  | number {n : Nat} {h : UInt8} (digit : (digitOf h).isSome = true) : Lead (.number n) h
  | text {text : Text} : Lead (.text text) (code '"')
  | texts {texts : List Text} : Lead (.texts texts) (code '[')

theorem writeLead (value : Value) : ∃ h t, bytes (write value) = h::t ∧ Lead value h := by
  cases value with
  | null => exact ⟨_,_,rfl,.null⟩
  | bool b =>
    cases b with
    | true => exact ⟨_,_,rfl,.yes⟩
    | false => exact ⟨_,_,rfl,.no⟩
  | number n =>
    cases shape : Nat.toDigits 10 n with
    | nil => exact absurd shape Nat.toDigits_ne_nil
    | cons c cs =>
      have digit : c.isDigit = true := Nat.isDigit_of_mem_toDigits (by decide) (by decide) (shape ▸ List.mem_cons_self)
      obtain ⟨ascii,value⟩ := digitCode digit
      exact ⟨code c,bytes cs,by rw [write,shape,bytesAscii ascii],.number (by rw [value]; rfl)⟩
  | text text => exact ⟨code '"',_,quotedLead text,.text⟩
  | texts texts => exact ⟨code '[',_,by rw [write,bytesAscii (by decide)],.texts⟩

theorem digitApart {h c : UInt8} (digit : (digitOf h).isSome = true) (other : digitOf c = none) : h ≠ c := by
  rintro rfl
  rw [other] at digit
  contradiction

theorem leadClean {value : Value} {h : UInt8} (lead : Lead value h) :
    blank h = false ∧ h ≠ code '\x7b' ∧ h ≠ code ']' ∧ h ≠ code '\x7d' := by
  cases lead with
  | number digit =>
    refine ⟨?_,digitApart digit (by decide),digitApart digit (by decide),digitApart digit (by decide)⟩
    simp only [blank,Bool.or_eq_false_iff,beq_eq_false_iff_ne]
    exact ⟨⟨⟨digitApart digit (by decide),digitApart digit (by decide)⟩,digitApart digit (by decide)⟩,digitApart digit (by decide)⟩
  | _ => decide

section
variable {value : Value} {h : UInt8} (lead : Lead value h)
include lead

theorem leadDigit (other : ∀ n, value ≠ .number n) : digitOf h = none := by
  cases lead with
  | number digit => exact absurd rfl (other _)
  | _ => decide

theorem leadBool (other : ∀ b, value ≠ .bool b) : h ≠ code 't' ∧ h ≠ code 'f' := by
  cases lead with
  | number digit => exact ⟨digitApart digit (by decide),digitApart digit (by decide)⟩
  | yes => exact absurd rfl (other _)
  | no => exact absurd rfl (other _)
  | _ => decide

theorem leadNull (other : value ≠ .null) : h ≠ code 'n' := by
  cases lead with
  | number digit => exact digitApart digit (by decide)
  | null => exact absurd rfl other
  | _ => decide

theorem leadQuote (other : ∀ text, value ≠ .text text) : h ≠ code '"' := by
  cases lead with
  | number digit => exact digitApart digit (by decide)
  | text => exact absurd rfl (other _)
  | _ => decide

theorem leadBracket (other : ∀ texts, value ≠ .texts texts) : h ≠ code '[' := by
  cases lead with
  | number digit => exact digitApart digit (by decide)
  | texts => exact absurd rfl (other _)
  | _ => decide

end

section
variable {h : UInt8} (clean : blank h = false)
include clean

theorem unsignedOther (maximum : Nat) (other : digitOf h = none) (t : Bytes) : unsigned maximum (h::t) = none := by
  rw [unsigned,skipNone clean]
  simp only [other]

theorem textOther (other : h ≠ code '"') (t : Bytes) : text (h::t) = none := by
  rw [text,expectOther clean other]
  rfl

theorem wordOther {c : Char} {cs : Text} (ascii : c.utf8Size = 1) (other : h ≠ code c) (t : Bytes) :
    word (c::cs) (skipBlanks (h::t)) = none := by
  rw [skipNone clean,word,bytesAscii ascii]
  exact if_neg fun inside => other (List.cons_prefix_cons.mp inside).1.symm

theorem booleanOther (notYes : h ≠ code 't') (notNo : h ≠ code 'f') (t : Bytes) : boolean (h::t) = none := by
  have yes : word "true".toList (skipBlanks (h::t)) = none := wordOther clean (by decide) notYes t
  have no : word "false".toList (skipBlanks (h::t)) = none := wordOther clean (by decide) notNo t
  rw [boolean,yes,no]
  rfl

theorem optionalOther (notNull : h ≠ code 'n') (t : Bytes) :
    optional (h::t) = (text (h::t)).map fun read => (.text read.1,read.2) := by
  have null : word "null".toList (skipBlanks (h::t)) = none := wordOther clean (by decide) notNull t
  rw [optional,null]

theorem arrayOther (other : h ≠ code '[') (t : Bytes) : array text (h::t) = none := by
  rw [array,expectOther clean other]
  rfl

theorem variantPlain (names : List (List Text)) (other : h ≠ code '\x7b') (t : Bytes) :
    variant names (h::t) = (text (h::t)).bind fun read => (variantOf names read.1).map (·,read.2) := by
  rw [variant,expectOther clean other]
  simp only [Option.bind_eq_bind]
  refine congrArg (text (h::t)).bind (funext fun read => ?_)
  cases variantOf names read.1 <;> rfl

end

theorem textRead (given : Text) (rest : Bytes) : text (bytes (write (.text given)) ++ rest) = some (given,rest) := textQuoted given rest

/-- A written value is read as what the kind takes of it. -/
theorem kindWritten (kind : Kind) (value : Value) {b : UInt8} (closer : Closer b) (rest : Bytes) :
    readKind kind (bytes (write value) ++ b::rest) = (accept kind value).map (·,b::rest) := by
  obtain ⟨h,t,shape,lead⟩ := writeLead value
  obtain ⟨clean,notRecord,_⟩ := leadClean lead
  have whole : bytes (write value) ++ b::rest = h::(t ++ b::rest) := by rw [shape,List.cons_append]
  cases kind with
  | unsigned maximum =>
    cases value with
    | number n =>
      show (unsigned maximum (bytes (Nat.toDigits 10 n) ++ b::rest)).map _ = _
      rw [unsignedWritten maximum n closer,accept]
      split <;> rfl
    | _ =>
      rw [whole,readKind,unsignedOther clean maximum (leadDigit lead (by simp))]
      rfl
  | bool =>
    cases value with
    | bool given => cases given <;> rfl
    | _ =>
      obtain ⟨notYes,notNo⟩ := leadBool lead (by simp)
      rw [whole,readKind,booleanOther clean notYes notNo]
      rfl
  | text =>
    cases value with
    | text given => rw [readKind,textRead]; rfl
    | _ =>
      rw [whole,readKind,textOther clean (leadQuote lead (by simp))]
      rfl
  | optional =>
    cases value with
    | null => rfl
    | text given =>
      rw [whole,readKind,optionalOther clean (leadNull lead (by simp)),← whole,textRead]
      rfl
    | _ =>
      rw [whole,readKind,optionalOther clean (leadNull lead (by simp)),textOther clean (leadQuote lead (by simp))]
      rfl
  | texts =>
    cases value with
    | texts given => rw [readKind,arrayTexts]; rfl
    | _ =>
      rw [whole,readKind,arrayOther clean (leadBracket lead (by simp))]
      rfl
  | variant names =>
    rw [whole,readKind,variantPlain clean names notRecord]
    cases value with
    | text given =>
      rw [← whole,textRead,accept]
      cases found : variantOf names given <;> simp only [Option.bind_some,found] <;> rfl
    | _ =>
      rw [textOther clean (leadQuote lead (by simp))]
      rfl

theorem skipValueAt {b : UInt8} (clean : blank b = false) (fuel : Nat) (rest : Bytes) :
    skipValue (fuel + 1) (b::rest) = skipFrom (skipValue fuel) b rest := by
  rw [skipValue,skipNone clean]

theorem skipQuoted (given : Text) (fuel : Nat) (rest : Bytes) :
    skipValue (fuel + 1) (bytes (JsonText.quoted given) ++ rest) = some rest := by
  rw [bytesQuoted,skipValueAt (by decide)]
  exact skipEscape given rest

/-- A written value is passed over. -/
theorem valueSkipped (value : Value) {b : UInt8} (closer : Closer b) (rest : Bytes) (fuel : Nat) :
    skipValue (fuel + 2) (bytes (write value) ++ b::rest) = some (b::rest) := by
  cases value with
  | null => rfl
  | bool given => cases given <;> rfl
  | number n =>
    obtain ⟨h,t,shape,lead⟩ := writeLead (.number n)
    cases lead with
    | number digit =>
      have skipped := skipNumberWritten n closer rest
      have clean := (leadClean (.number (n := n) digit)).1
      rw [shape,List.cons_append,skipValueAt clean,skipFrom,if_neg (digitApart digit (by decide)),if_neg (digitApart digit (by decide)),
        if_neg (digitApart digit (by decide)),if_neg (digitApart digit (by decide)),if_pos (show isDigit h = true from digit),
        ← List.cons_append,← shape]
      exact skipped
  | text given => exact skipQuoted given (fuel + 1) (b::rest)
  | texts given =>
    have reads : Reads (code ']') JsonText.quoted (fun rest => (skipValue (fuel + 1) rest).map ((),·)) (fun _ => some ()) given :=
      fun item _ => by
        refine ⟨⟨code '"',_,quotedLead item,by decide,by decide⟩,fun b rest _ => ?_⟩
        simp only [skipQuoted]
        rfl
    have read := separatedWritten (by decide) (by decide) reads (b::rest) (Nat.lt_succ_of_le (joinedLength reads (b::rest)))
    have all : ∀ items : List Text, ∃ units, items.mapM (fun _ => some ()) = some units := fun items => by
      induction items with
      | nil => exact ⟨[],rfl⟩
      | cons item items ih =>
        obtain ⟨units,same⟩ := ih
        exact ⟨()::units,by rw [List.mapM_cons,same]; rfl⟩
    obtain ⟨units,same⟩ := all given
    rw [same] at read
    rw [write,bytesAscii (by decide),Utf8Text.bytesAppend,bytesAscii (by decide),List.cons_append,List.append_assoc,
      skipValueAt (by decide)]
    exact congrArg (Option.map Prod.snd) read

/-! Records. -/

theorem mapMIff {α β : Type} {f : α → Option β} {xs : List α} {ys : List β} :
    xs.mapM f = some ys ↔ List.Forall₂ (fun x y => f x = some y) xs ys := by
  induction xs generalizing ys with
  | nil =>
    rw [List.mapM_nil,List.forall₂_nil_left_iff]
    exact ⟨fun same => (Option.some.inj same).symm,fun same => same ▸ rfl⟩
  | cons x xs ih =>
    rw [List.mapM_cons,List.forall₂_cons_left_iff]
    constructor
    · intro same
      obtain ⟨y,first,same⟩ := Option.bind_eq_some_iff.mp same
      obtain ⟨more,later,same⟩ := Option.bind_eq_some_iff.mp same
      cases Option.some.inj same
      exact ⟨y,more,first,ih.mp later,rfl⟩
    · rintro ⟨y,more,first,later,rfl⟩
      rw [first,ih.mpr later]
      rfl

theorem mapMFails {α β : Type} {f : α → Option β} {xs : List α} : xs.mapM f = none ↔ ∃ x ∈ xs, f x = none := by
  induction xs with
  | nil => simp
  | cons x xs ih =>
    rw [List.mapM_cons]
    cases first : f x with
    | none => exact iff_of_true rfl ⟨x,List.mem_cons_self,first⟩
    | some y =>
      have later : ((some y >>= fun y => xs.mapM f >>= fun ys => pure (y::ys)) = none) ↔ xs.mapM f = none := by
        cases xs.mapM f <;> simp [bind,pure]
      rw [later,ih]
      constructor
      · rintro ⟨z,mem,none_⟩
        exact ⟨z,List.mem_cons_of_mem x mem,none_⟩
      · rintro ⟨z,mem,none_⟩
        rcases List.mem_cons.mp mem with rfl | mem
        · rw [first] at none_; contradiction
        · exact ⟨z,mem,none_⟩

theorem lookupMem {β : Type} {pairs : List (Text × β)} (once : (pairs.map Prod.fst).Nodup) {name : Text} {b : β} :
    pairs.lookup name = some b ↔ (name,b) ∈ pairs := by
  induction pairs with
  | nil => simp
  | cons pair pairs ih =>
    rw [List.map_cons,List.nodup_cons] at once
    rw [List.lookup_cons,List.mem_cons]
    cases same : name == pair.1 with
    | true =>
      obtain rfl := eq_of_beq same
      constructor
      · exact fun found => Or.inl (Prod.ext rfl (Option.some.inj found).symm)
      · rintro (here | mem)
        · exact congrArg some (congrArg Prod.snd here).symm
        · exact absurd (List.mem_map_of_mem mem) once.1
    | false =>
      rw [ih once.2]
      refine ⟨Or.inr,fun mem => mem.resolve_left ?_⟩
      rintro rfl
      exact absurd same (by simp)

/-- What is read of a written member. -/
def taken (schema : Schema) (field : Field) : Option (Text × Option Value) :=
  match schema.lookup field.1 with
  | some kind => (accept kind field.2).map fun value => (field.1,some value)
  | none => some (field.1,none)

/-- The value of a field in a written record. -/
def given (fields : List Field) (field : Text × Kind) : Option Value :=
  match fields.lookup field.1 with
  | some value => accept field.2 value
  | none => if field.2 = .optional then some .null else none

/-- The values that a schema has in a written record. -/
def project (schema : Schema) (fields : List Field) : Option (List Value) := schema.mapM (given fields)

theorem entryWritten (schema : Schema) (field : Field) {b : UInt8} (closer : Closer b) (rest : Bytes) :
    entry schema (bytes (member field) ++ b::rest) = (taken schema field).map (·,b::rest) := by
  have shape : bytes (member field) ++ b::rest =
      bytes (JsonText.quoted field.1) ++ code ':' :: (bytes (write field.2) ++ b::rest) := by
    rw [member,Utf8Text.bytesAppend,bytesAscii (by decide),List.append_assoc,List.cons_append]
  rw [shape,entry,textQuoted,taken]
  simp only [Option.bind_eq_bind,Option.bind_some,expectHere (show blank (code ':') = false by decide)]
  cases schema.lookup field.1 with
  | none =>
    have some_ : ∃ fuel, (bytes (write field.2) ++ b::rest).length + 1 = fuel + 2 := by
      obtain ⟨h,t,shape,_⟩ := writeLead field.2
      exact ⟨_,by rw [shape,List.cons_append,List.length_cons]⟩
    obtain ⟨fuel,enough⟩ := some_
    simp only [enough,valueSkipped field.2 closer rest fuel]
    rfl
  | some kind =>
    simp only [kindWritten kind field.2 closer rest]
    cases accept kind field.2 <;> rfl

theorem entriesRead (schema : Schema) (fields : List Field) :
    Reads (code '\x7d') member (entry schema) (taken schema) fields := fun field _ => by
  have shape : ∃ t, bytes (member field) = code '"' :: t := by
    rw [member,Utf8Text.bytesAppend,bytesQuoted]
    exact ⟨_,rfl⟩
  obtain ⟨t,shape⟩ := shape
  refine ⟨⟨code '"',t,shape,by decide,by decide⟩,fun b rest stop => entryWritten schema field ?_ rest⟩
  exact stop.elim Or.inl fun same => Or.inr (Or.inr same)

theorem recordWritten (schema : Schema) (fields : List Field) (rest : Bytes) :
    record schema (bytes (object fields) ++ rest) =
      ((fields.mapM (taken schema)).bind fun entries => schema.mapM (slot entries)).map (·,rest) := by
  have shape : bytes (object fields) ++ rest = code '\x7b' :: (bytes (joined (fields.map member)) ++ code '\x7d' :: rest) := by
    rw [object,bytesAscii (by decide),Utf8Text.bytesAppend,bytesAscii (by decide),List.cons_append,List.append_assoc]
    rfl
  have reads := entriesRead schema fields
  rw [shape,record,expectHere (by decide)]
  simp only [separatedWritten (by decide) (by decide) reads rest (Nat.lt_succ_of_le (joinedLength reads rest))]
  cases fields.mapM (taken schema) with
  | none => rfl
  | some entries =>
    simp only [Option.map_some,Option.bind_eq_bind,Option.bind_some]
    cases schema.mapM (slot entries) <;> rfl

theorem filterOnce {β : Type} {pairs : List (Text × β)} (once : (pairs.map Prod.fst).Nodup) {pair : Text × β} (mem : pair ∈ pairs) :
    (pairs.filter fun p => p.1 = pair.1) = [pair] := by
  induction pairs with
  | nil => contradiction
  | cons p pairs ih =>
    rw [List.map_cons,List.nodup_cons] at once
    rcases List.mem_cons.mp mem with rfl | later
    · rw [List.filter_cons_of_pos (by simp),List.filter_eq_nil_iff.mpr]
      intro q there
      rw [decide_eq_true_eq]
      exact fun same => once.1 (same ▸ List.mem_map_of_mem there)
    · rw [List.filter_cons_of_neg,ih once.2 later]
      rw [decide_eq_true_eq]
      exact fun same => once.1 (same ▸ List.mem_map_of_mem later)

theorem mapMSame {α β : Type} {f g : α → Option β} {xs : List α} (same : ∀ x ∈ xs, f x = g x) : xs.mapM f = xs.mapM g := by
  induction xs with
  | nil => rfl
  | cons x xs ih =>
    obtain ⟨here,later⟩ := List.forall_mem_cons.mp same
    rw [List.mapM_cons,List.mapM_cons,here,ih later]

theorem takenName {schema : Schema} {field : Field} {entry : Text × Option Value} (same : taken schema field = some entry) :
    entry.1 = field.1 := by
  rw [taken] at same
  cases known : schema.lookup field.1 with
  | none =>
    rw [known] at same
    exact (congrArg Prod.fst (Option.some.inj same)).symm
  | some kind =>
    rw [known] at same
    obtain ⟨_,_,rfl⟩ := Option.map_eq_some_iff.mp same
    rfl

theorem takenNames {schema : Schema} {fields : List Field} {entries : List (Text × Option Value)}
    (each : List.Forall₂ (fun field entry => taken schema field = some entry) fields entries) :
    entries.map Prod.fst = fields.map Prod.fst := by
  induction each with
  | nil => rfl
  | cons first _ ih => rw [List.map_cons,List.map_cons,takenName first,ih]

theorem takenEntry {schema : Schema} {fields : List Field} {entries : List (Text × Option Value)}
    (each : List.Forall₂ (fun field entry => taken schema field = some entry) fields entries) {field : Field} (mem : field ∈ fields) :
    ∃ entry ∈ entries, taken schema field = some entry := by
  induction each with
  | nil => contradiction
  | @cons _ entry _ entries first _ ih =>
    rcases List.mem_cons.mp mem with rfl | later
    · exact ⟨entry,List.mem_cons_self,first⟩
    · obtain ⟨entry',there,same⟩ := ih later
      exact ⟨entry',List.mem_cons_of_mem entry there,same⟩

/-- The schema finds its values by their names; what it does not name it passes over. -/
theorem projected {schema : Schema} {fields : List Field} (names : (schema.map Prod.fst).Nodup) (once : (fields.map Prod.fst).Nodup) :
    ((fields.mapM (taken schema)).bind fun entries => schema.mapM (slot entries)) = project schema fields := by
  cases read : fields.mapM (taken schema) with
  | none =>
    obtain ⟨field,mem,fails⟩ := mapMFails.mp read
    rw [taken] at fails
    cases known : schema.lookup field.1 with
    | none => rw [known] at fails; contradiction
    | some kind =>
      rw [known] at fails
      refine (mapMFails.mpr ⟨(field.1,kind),(lookupMem names).mp known,?_⟩).symm
      rw [given,(lookupMem once).mpr mem]
      exact Option.map_eq_none_iff.mp fails
  | some entries =>
    have each := mapMIff.mp read
    have sameNames := takenNames each
    refine mapMSame fun field mem => ?_
    have known : schema.lookup field.1 = some field.2 := (lookupMem names).mpr mem
    rw [slot,given]
    cases here : fields.lookup field.1 with
    | none =>
      have nobody : (entries.filter fun entry => entry.1 = field.1) = [] := by
        rw [List.filter_eq_nil_iff]
        intro entry there
        rw [decide_eq_true_eq]
        intro same
        have inside : field.1 ∈ fields.map Prod.fst := sameNames ▸ same ▸ List.mem_map_of_mem there
        obtain ⟨pair,mem',same'⟩ := List.mem_map.mp inside
        have found := (lookupMem once).mpr (same' ▸ mem' : (field.1,pair.2) ∈ fields)
        rw [here] at found
        contradiction
      rw [nobody]
    | some value =>
      obtain ⟨entry,there,same⟩ := takenEntry each ((lookupMem once).mp here)
      have only := filterOnce (sameNames.symm ▸ once) there
      rw [takenName same] at only
      rw [only]
      simp only [taken,known] at same
      obtain ⟨taken_,accepted,rfl⟩ := Option.map_eq_some_iff.mp same
      exact accepted.symm

/-- A written record, as another schema reads it. -/
theorem sliceWritten {schema : Schema} {fields : List Field} (names : (schema.map Prod.fst).Nodup) (once : (fields.map Prod.fst).Nodup) :
    fromSlice schema (bytes (object fields)) = project schema fields := by
  have read := recordWritten schema fields []
  rw [List.append_nil,projected names once] at read
  rw [fromSlice,read]
  cases project schema fields <;> rfl

/-- A record that its own schema reads back. -/
def Fits (schema : Schema) (values : List Value) : Prop :=
  List.Forall₂ (fun field value => accept field.2 value = some value) schema values

theorem projectOwn {schema : Schema} {values : List Value} (names : (schema.map Prod.fst).Nodup) (fits : Fits schema values) :
    project schema ((schema.map Prod.fst).zip values) = some values := by
  obtain ⟨long,each⟩ := List.forall₂_iff_zip.mp fits
  have once : (((schema.map Prod.fst).zip values).map Prod.fst).Nodup := by
    rwa [List.map_fst_zip (by rw [List.length_map,long])]
  refine mapMIff.mpr (List.forall₂_iff_zip.mpr ⟨long,fun {field value} mem => ?_⟩)
  have here : (field.1,value) ∈ (schema.map Prod.fst).zip values := by
    rw [List.zip_map_left]
    exact List.mem_map.mpr ⟨(field,value),mem,rfl⟩
  rw [given,(lookupMem once).mpr here]
  exact each mem

end RustMcp.JsonRead
