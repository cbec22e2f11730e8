import RustMcp.Str

/-! Base64 with the standard alphabet and padding, as RFC 4648 has it: three bytes are four
characters, and what is left at the end is padded with `=`. A decoder takes only what an
encoder writes. -/
namespace RustMcp.Base64
open Str (Text)

def alphabet : Text := "ABCDEFGHIJKLMNOPQRSTUVWXYZabcdefghijklmnopqrstuvwxyz0123456789+/".toList

def digit (n : Nat) : Char := alphabet.getD n '='

def value (c : Char) : Option Nat := alphabet.idxOf? c

def encode : List UInt8 → Text
  | [] => []
  | [a] => [digit (a.toNat / 4),digit (a.toNat % 4 * 16),'=','=']
  | [a,b] => [digit (a.toNat / 4),digit (a.toNat % 4 * 16 + b.toNat / 16),digit (b.toNat % 16 * 4),'=']
  | a::b::c::rest =>
      digit (a.toNat / 4) :: digit (a.toNat % 4 * 16 + b.toNat / 16) :: digit (b.toNat % 16 * 4 + c.toNat / 64)
        :: digit (c.toNat % 64) :: encode rest

/-- The last group, where its fourth character is `=`. The bits that no byte takes are zero. -/
def decodeLast (p q r : Char) : Option (List UInt8) := do
  let x ← value p
  let y ← value q
  if r = '=' then
    if y % 16 = 0 then some [UInt8.ofNat (x * 4 + y / 16)] else none
  else
    let z ← value r
    if z % 4 = 0 then some [UInt8.ofNat (x * 4 + y / 16),UInt8.ofNat (y % 16 * 16 + z / 4)] else none

def decode : Text → Option (List UInt8)
  | [] => some []
  | p::q::r::s::rest =>
      if s = '=' then if rest = [] then decodeLast p q r else none
      else do
        let x ← value p
        let y ← value q
        let z ← value r
        let w ← value s
        let more ← decode rest
        some (UInt8.ofNat (x * 4 + y / 16) :: UInt8.ofNat (y % 16 * 16 + z / 4) :: UInt8.ofNat (z % 4 * 64 + w) :: more)
  | _ => none

/-! Digits. -/

theorem charAt {letters : Text} {n : Nat} (inside : n < letters.length) (pad : Char) : letters.getD n pad ∈ letters := by
  rw [List.getD_eq_getElem letters pad inside]
  exact List.getElem_mem inside

theorem placeOf {letters : Text} (once : letters.Nodup) {n : Nat} (inside : n < letters.length) (pad : Char) :
    letters.idxOf? (letters.getD n pad) = some n := by
  have earlier : ∀ j, (before : j < n) → letters[j] ≠ letters[n] := fun j before same =>
    Nat.ne_of_lt before ((List.Nodup.getElem_inj_iff once).mp same)
  rw [List.getD_eq_getElem letters pad inside]
  exact List.findIdx?_eq_some_iff_getElem.mpr ⟨inside,by simp,fun j before => by simpa using earlier j before⟩

theorem alphabetLetters : alphabet = ['A','B','C','D','E','F','G','H','I','J','K','L','M','N','O','P','Q','R','S','T','U','V',
    'W','X','Y','Z','a','b','c','d','e','f','g','h','i','j','k','l','m','n','o','p','q','r','s','t','u','v','w','x','y','z','0',
    '1','2','3','4','5','6','7','8','9','+','/'] := String.toList_ofList

example : encode [227,131,132] = "44OE".toList := by
  simp only [encode,digit,alphabetLetters]
  rfl

theorem alphabetCodes : alphabet.map Char.toNat = [65,66,67,68,69,70,71,72,73,74,75,76,77,78,79,80,81,82,83,84,85,86,87,88,89,
    90,97,98,99,100,101,102,103,104,105,106,107,108,109,110,111,112,113,114,115,116,117,118,119,120,121,122,48,49,50,51,52,53,
    54,55,56,57,43,47] := by
  rw [alphabetLetters]
  rfl

/-- Where the character of a code stands. -/
def rank (code : Nat) : Nat :=
  if 97 ≤ code ∧ code ≤ 122 then code - 71 else if 65 ≤ code ∧ code ≤ 90 then code - 65 else if 48 ≤ code ∧ code ≤ 57 then code + 4
  else if code = 43 then 62 else 63

theorem rankCodes : (alphabet.map Char.toNat).map rank = List.range 64 := by
  rw [alphabetCodes]
  rfl

theorem alphabetOnce : alphabet.Nodup := by
  refine List.Nodup.of_map Char.toNat (List.Nodup.of_map rank ?_)
  rw [rankCodes]
  exact List.nodup_range

theorem alphabetLength : alphabet.length = 64 := by
  rw [← List.length_map Char.toNat,alphabetCodes]
  rfl

theorem valueDigit {n : Nat} (small : n < 64) : value (digit n) = some n :=
  placeOf alphabetOnce (alphabetLength ▸ small) '='

theorem digitMem {n : Nat} (small : n < 64) : digit n ∈ alphabet := charAt (alphabetLength ▸ small) '='

theorem digitPad {n : Nat} (small : n < 64) : digit n ≠ '=' := by
  intro pad
  have code : '='.toNat ∈ alphabet.map Char.toNat := List.mem_map_of_mem (pad ▸ digitMem small)
  rw [alphabetCodes] at code
  exact absurd code (by decide)

/-- A character that is written as it is wherever graphic ASCII is. -/
def graphic (c : Char) : Bool := '!' ≤ c && c ≤ '~'

theorem graphicIff (c : Char) : graphic c = true ↔ 33 ≤ c.toNat ∧ c.toNat ≤ 126 := by
  simp only [graphic,Bool.and_eq_true,decide_eq_true_eq]
  rfl

theorem digitGraphic (n : Nat) : graphic (digit n) = true := by
  rcases Nat.lt_or_ge n 64 with small | large
  · have codes : ∀ k ∈ alphabet.map Char.toNat, 33 ≤ k ∧ k ≤ 126 := by rw [alphabetCodes]; decide
    exact (graphicIff _).mpr (codes _ (List.mem_map_of_mem (digitMem small)))
  · have pad : digit n = '=' := List.getD_eq_default _ _ (alphabetLength ▸ large)
    rw [pad]
    decide

/-! What is encoded. -/

theorem encodeGraphic (bytes : List UInt8) : ∀ c ∈ encode bytes, graphic c = true := by
  have pad : graphic '=' = true := by decide
  fun_induction encode bytes <;> simp_all [digitGraphic]

theorem byteOf {n : Nat} {a : UInt8} (same : n = a.toNat) : UInt8.ofNat n = a := by rw [same,UInt8.ofNat_toNat]

theorem firstByte (a : UInt8) {y : Nat} (small : y < 16) : UInt8.ofNat (a.toNat / 4 * 4 + (a.toNat % 4 * 16 + y) / 16) = a :=
  byteOf (by omega)

theorem secondByte (b : UInt8) {x z : Nat} (small : z < 4) :
    UInt8.ofNat ((x * 16 + b.toNat / 16) % 16 * 16 + (b.toNat % 16 * 4 + z) / 4) = b :=
  byteOf (by have := b.toNat_lt; omega)

theorem thirdByte (c : UInt8) (y : Nat) : UInt8.ofNat ((y * 4 + c.toNat / 64) % 4 * 64 + c.toNat % 64) = c :=
  byteOf (by have := c.toNat_lt; omega)

theorem decodeEncode (bytes : List UInt8) : decode (encode bytes) = some bytes := by
  fun_induction encode bytes with
  | case1 => rfl
  | case2 a =>
    have bound := a.toNat_lt
    have first := firstByte a (y := 0) (by omega)
    simp only [decode,decodeLast,↓reduceIte,valueDigit (n := a.toNat / 4) (by omega),valueDigit (n := a.toNat % 4 * 16) (by omega),
      bind,Option.bind]
    rw [if_pos (by omega),← Nat.add_zero (a.toNat % 4 * 16),first]
  | case3 a b =>
    have boundA := a.toNat_lt
    have boundB := b.toNat_lt
    have last : digit (b.toNat % 16 * 4) ≠ '=' := digitPad (by omega)
    have second := secondByte b (x := a.toNat % 4) (z := 0) (by omega)
    simp only [decode,decodeLast,↓reduceIte,if_neg last,valueDigit (n := a.toNat / 4) (by omega),
      valueDigit (n := a.toNat % 4 * 16 + b.toNat / 16) (by omega),valueDigit (n := b.toNat % 16 * 4) (by omega),bind,Option.bind]
    rw [if_pos (by omega),firstByte a (by omega),← Nat.add_zero (b.toNat % 16 * 4),second]
  | case4 a b c rest ih =>
    have boundA := a.toNat_lt
    have boundB := b.toNat_lt
    have boundC := c.toNat_lt
    have last : digit (c.toNat % 64) ≠ '=' := digitPad (by omega)
    simp only [decode,if_neg last,ih,valueDigit (n := a.toNat / 4) (by omega),
      valueDigit (n := a.toNat % 4 * 16 + b.toNat / 16) (by omega),valueDigit (n := b.toNat % 16 * 4 + c.toNat / 64) (by omega),
      valueDigit (n := c.toNat % 64) (by omega),bind,Option.bind]
    rw [firstByte a (by omega),secondByte b (by omega),thirdByte c]

end RustMcp.Base64
