import RustMcp.Base64

/-! Base64 with the alphabet for URLs and file names and without padding, as RFC 4648 has it.
A decoder takes only what an encoder writes: the bits that no byte takes are zero. -/
namespace RustMcp.Base64Url
open Str (Text)
open Base64 (charAt placeOf graphic graphicIff firstByte secondByte thirdByte)

def alphabet : Text := "ABCDEFGHIJKLMNOPQRSTUVWXYZabcdefghijklmnopqrstuvwxyz0123456789-_".toList

def digit (n : Nat) : Char := alphabet.getD n '='

def value (c : Char) : Option Nat := alphabet.idxOf? c

def encode : List UInt8 → Text
  | [] => []
  | [a] => [digit (a.toNat / 4),digit (a.toNat % 4 * 16)]
  | [a,b] => [digit (a.toNat / 4),digit (a.toNat % 4 * 16 + b.toNat / 16),digit (b.toNat % 16 * 4)]
  | a::b::c::rest =>
      digit (a.toNat / 4) :: digit (a.toNat % 4 * 16 + b.toNat / 16) :: digit (b.toNat % 16 * 4 + c.toNat / 64)
        :: digit (c.toNat % 64) :: encode rest

def decode : Text → Option (List UInt8)
  | [] => some []
  | [_] => none
  | [p,q] => do
      let x ← value p
      let y ← value q
      if y % 16 = 0 then some [UInt8.ofNat (x * 4 + y / 16)] else none
  | [p,q,r] => do
      let x ← value p
      let y ← value q
      let z ← value r
      if z % 4 = 0 then some [UInt8.ofNat (x * 4 + y / 16),UInt8.ofNat (y % 16 * 16 + z / 4)] else none
  | p::q::r::s::rest => do
      let x ← value p
      let y ← value q
      let z ← value r
      let w ← value s
      let more ← decode rest
      some (UInt8.ofNat (x * 4 + y / 16) :: UInt8.ofNat (y % 16 * 16 + z / 4) :: UInt8.ofNat (z % 4 * 64 + w) :: more)

/-! Digits. -/

theorem alphabetLetters : alphabet = ['A','B','C','D','E','F','G','H','I','J','K','L','M','N','O','P','Q','R','S','T','U','V',
    'W','X','Y','Z','a','b','c','d','e','f','g','h','i','j','k','l','m','n','o','p','q','r','s','t','u','v','w','x','y','z','0',
    '1','2','3','4','5','6','7','8','9','-','_'] := String.toList_ofList

example : encode [251,255] = "-_8".toList := by
  simp only [encode,digit,alphabetLetters]
  rfl

theorem alphabetCodes : alphabet.map Char.toNat = [65,66,67,68,69,70,71,72,73,74,75,76,77,78,79,80,81,82,83,84,85,86,87,88,89,
    90,97,98,99,100,101,102,103,104,105,106,107,108,109,110,111,112,113,114,115,116,117,118,119,120,121,122,48,49,50,51,52,53,
    54,55,56,57,45,95] := by
  rw [alphabetLetters]
  rfl

/-- Where the character of a code stands. -/
def rank (code : Nat) : Nat :=
  if 97 ≤ code ∧ code ≤ 122 then code - 71 else if 65 ≤ code ∧ code ≤ 90 then code - 65 else if 48 ≤ code ∧ code ≤ 57 then code + 4
  else if code = 45 then 62 else 63

theorem rankCodes : (alphabet.map Char.toNat).map rank = List.range 64 := by
  rw [alphabetCodes]
  rfl

theorem alphabetOnce : alphabet.Nodup := by
  refine List.Nodup.of_map Char.toNat (List.Nodup.of_map rank ?_)
  rw [rankCodes]
  exact List.nodup_range

theorem alphabetLength : alphabet.length = 64 := by
  rw [← List.length_map Char.toNat,alphabetCodes]
  rfl

theorem valueDigit {n : Nat} (small : n < 64) : value (digit n) = some n :=
  placeOf alphabetOnce (alphabetLength ▸ small) '='

theorem digitMem {n : Nat} (small : n < 64) : digit n ∈ alphabet := charAt (alphabetLength ▸ small) '='

theorem valueSome {c : Char} {n : Nat} (found : value c = some n) : n < 64 ∧ digit n = c := by
  obtain ⟨inside,same,_⟩ := List.findIdx?_eq_some_iff_getElem.mp found
  refine ⟨alphabetLength ▸ inside,?_⟩
  rw [digit,List.getD_eq_getElem alphabet '=' inside]
  exact eq_of_beq same

theorem digitGraphic {n : Nat} (small : n < 64) : graphic (digit n) = true := by
  have codes : ∀ k ∈ alphabet.map Char.toNat, 33 ≤ k ∧ k ≤ 126 := by rw [alphabetCodes]; decide
  exact (graphicIff _).mpr (codes _ (List.mem_map_of_mem (digitMem small)))

/-! What is encoded is read back, and nothing else is. -/

theorem encodeGraphic (bytes : List UInt8) : ∀ c ∈ encode bytes, graphic c = true := by
  fun_induction encode bytes with
  | case1 => simp
  | case2 a =>
    have bound := a.toNat_lt
    simp only [List.mem_cons,List.not_mem_nil,or_false]
    rintro c (rfl | rfl) <;> exact digitGraphic (by omega)
  | case3 a b =>
    have boundA := a.toNat_lt
    have boundB := b.toNat_lt
    simp only [List.mem_cons,List.not_mem_nil,or_false]
    rintro c (rfl | rfl | rfl) <;> exact digitGraphic (by omega)
  | case4 a b c rest ih =>
    have boundA := a.toNat_lt
    have boundB := b.toNat_lt
    have boundC := c.toNat_lt
    simp only [List.mem_cons]
    rintro d (rfl | rfl | rfl | rfl | later)
    iterate 4 exact digitGraphic (by omega)
    exact ih d later

theorem decodeEncode (bytes : List UInt8) : decode (encode bytes) = some bytes := by
  fun_induction encode bytes with
  | case1 => rfl
  | case2 a =>
    have bound := a.toNat_lt
    have first := firstByte a (y := 0) (by omega)
    simp only [decode,valueDigit (n := a.toNat / 4) (by omega),valueDigit (n := a.toNat % 4 * 16) (by omega),bind,Option.bind]
    rw [if_pos (by omega),← Nat.add_zero (a.toNat % 4 * 16),first]
  | case3 a b =>
    have boundA := a.toNat_lt
    have boundB := b.toNat_lt
    have second := secondByte b (x := a.toNat % 4) (z := 0) (by omega)
    simp only [decode,valueDigit (n := a.toNat / 4) (by omega),valueDigit (n := a.toNat % 4 * 16 + b.toNat / 16) (by omega),
      valueDigit (n := b.toNat % 16 * 4) (by omega),bind,Option.bind]
    rw [if_pos (by omega),firstByte a (by omega),← Nat.add_zero (b.toNat % 16 * 4),second]
  | case4 a b c rest ih =>
    have boundA := a.toNat_lt
    have boundB := b.toNat_lt
    have boundC := c.toNat_lt
    simp only [decode,ih,valueDigit (n := a.toNat / 4) (by omega),valueDigit (n := a.toNat % 4 * 16 + b.toNat / 16) (by omega),
      valueDigit (n := b.toNat % 16 * 4 + c.toNat / 64) (by omega),valueDigit (n := c.toNat % 64) (by omega),bind,Option.bind]
    rw [firstByte a (by omega),secondByte b (by omega),thirdByte c]

theorem byteNat {n : Nat} (small : n < 256) : (UInt8.ofNat n).toNat = n := by
  rw [UInt8.toNat_ofNat']
  exact Nat.mod_eq_of_lt small

/-- Two digits are the byte that is written as them. -/
theorem digitsFirst {p q : Char} {x y : Nat} (first : value p = some x) (second : value q = some y) :
    digit ((UInt8.ofNat (x * 4 + y / 16)).toNat / 4) = p ∧ (UInt8.ofNat (x * 4 + y / 16)).toNat % 4 * 16 = y / 16 * 16 := by
  obtain ⟨smallX,rfl⟩ := valueSome first
  obtain ⟨smallY,_⟩ := valueSome second
  rw [byteNat (by omega)]
  exact ⟨congrArg digit (by omega),by omega⟩

theorem encodeDecode {text : Text} : ∀ {bytes : List UInt8}, decode text = some bytes → encode bytes = text := by
  fun_induction decode text with
  | case1 =>
    rintro bytes same
    cases same
    rfl
  | case2 => rintro bytes ⟨⟩
  | case3 p q =>
    intro bytes same
    obtain ⟨x,first,same⟩ := Option.bind_eq_some_iff.mp same
    obtain ⟨y,second,same⟩ := Option.bind_eq_some_iff.mp same
    split at same
    · rename_i zero
      cases same
      obtain ⟨high,low⟩ := digitsFirst first second
      rw [encode,high,low,show y / 16 * 16 = y by omega,(valueSome second).2]
    · cases same
  | case4 p q r =>
    intro bytes same
    obtain ⟨x,first,same⟩ := Option.bind_eq_some_iff.mp same
    obtain ⟨y,second,same⟩ := Option.bind_eq_some_iff.mp same
    obtain ⟨z,third,same⟩ := Option.bind_eq_some_iff.mp same
    split at same
    · rename_i zero
      cases same
      obtain ⟨high,low⟩ := digitsFirst first second
      obtain ⟨smallY,second'⟩ := valueSome second
      obtain ⟨smallZ,third'⟩ := valueSome third
      rw [encode,high,low,byteNat (by omega : y % 16 * 16 + z / 4 < 256),
        show y / 16 * 16 + (y % 16 * 16 + z / 4) / 16 = y by omega,show (y % 16 * 16 + z / 4) % 16 * 4 = z by omega,second',third']
    · cases same
  | case5 p q r s rest ih =>
    intro bytes same
    obtain ⟨x,first,same⟩ := Option.bind_eq_some_iff.mp same
    obtain ⟨y,second,same⟩ := Option.bind_eq_some_iff.mp same
    obtain ⟨z,third,same⟩ := Option.bind_eq_some_iff.mp same
    obtain ⟨w,fourth,same⟩ := Option.bind_eq_some_iff.mp same
    obtain ⟨more,later,same⟩ := Option.bind_eq_some_iff.mp same
    cases same
    obtain ⟨high,low⟩ := digitsFirst first second
    obtain ⟨smallY,second'⟩ := valueSome second
    obtain ⟨smallZ,third'⟩ := valueSome third
    obtain ⟨smallW,fourth'⟩ := valueSome fourth
    rw [encode,high,low,byteNat (by omega : y % 16 * 16 + z / 4 < 256),byteNat (by omega : z % 4 * 64 + w < 256),
      show y / 16 * 16 + (y % 16 * 16 + z / 4) / 16 = y by omega,
      show (y % 16 * 16 + z / 4) % 16 * 4 + (z % 4 * 64 + w) / 64 = z by omega,show (z % 4 * 64 + w) % 64 = w by omega,
      second',third',fourth',ih later]

theorem encodedIff {text : Text} {bytes : List UInt8} : decode text = some bytes ↔ encode bytes = text :=
  ⟨encodeDecode,fun same => same ▸ decodeEncode bytes⟩

theorem encodeInjective : Function.Injective encode := fun a b same => by
  have read := decodeEncode a
  rw [same,decodeEncode] at read
  exact (Option.some.inj read).symm

end RustMcp.Base64Url
