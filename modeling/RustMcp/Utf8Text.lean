import RustMcp.Str

/-! Text in UTF-8: its bytes, and the operations of `str` that count in bytes.
An offset that is not between two characters has no slice (`none`); where the code of a
program slices there, it panics. -/
namespace RustMcp.Utf8Text
open Str

def byteLength (text : Text) : Nat := (text.map Char.utf8Size).sum

def bytes (text : Text) : List UInt8 := text.flatMap String.utf8EncodeChar

/-- The text that has these bytes. -/
def fromUtf8 (bytes : List UInt8) : Option Text := (String.fromUTF8? bytes.toByteArray).map String.toList

def splitAtByte : Nat → Text → Option (Text × Text)
  | 0,text => some ([],text)
  | _+1,[] => none
  | n+1,c::text =>
      if c.utf8Size ≤ n + 1 then (splitAtByte (n + 1 - c.utf8Size) text).map fun parts => (c::parts.1,parts.2) else none
termination_by _ text => text.length

def sliceFrom (start : Nat) (text : Text) : Option Text := (splitAtByte start text).map Prod.snd

def sliceTo (stop : Nat) (text : Text) : Option Text := (splitAtByte stop text).map Prod.fst

def slice (start stop : Nat) (text : Text) : Option Text :=
  if start ≤ stop then (sliceFrom start text).bind (sliceTo (stop - start)) else none

/-- Where a pattern occurs first. -/
def find (pat : Text) : Text → Option Nat
  | [] => if pat = [] then some 0 else none
  | c::text => if startsWith pat (c::text) then some 0 else (find pat text).map (· + c.utf8Size)

/-! Lengths. -/

@[simp] theorem byteLengthNil : byteLength [] = 0 := rfl

@[simp] theorem byteLengthCons (c : Char) (text : Text) : byteLength (c::text) = c.utf8Size + byteLength text := by
  simp [byteLength]

@[simp] theorem byteLengthAppend (head tail : Text) : byteLength (head ++ tail) = byteLength head + byteLength tail := by
  simp [byteLength]

theorem byteLengthZero {text : Text} : byteLength text = 0 ↔ text = [] := by
  cases text with
  | nil => simp
  | cons c text =>
    have some_ := c.utf8Size_pos
    simp only [byteLengthCons,reduceCtorEq,iff_false]
    omega

theorem bytesLength (text : Text) : (bytes text).length = byteLength text := by
  induction text with
  | nil => rfl
  | cons c text ih =>
    rw [byteLengthCons,← ih]
    simp [bytes]

theorem bytesAppend (head tail : Text) : bytes (head ++ tail) = bytes head ++ bytes tail := List.flatMap_append

theorem bytesAfter (head tail : Text) : (bytes (head ++ tail)).drop (byteLength head) = bytes tail := by
  rw [bytesAppend,List.drop_left' (bytesLength head)]

theorem byteAt (head tail : Text) : (bytes (head ++ tail))[byteLength head]? = (bytes tail).head? := by
  rw [← List.head?_drop,bytesAfter]

theorem suffixOfLe {text a b : Text} (one : a <:+ text) (other : b <:+ text) (le : byteLength a ≤ byteLength b) : a <:+ b := by
  rcases List.suffix_or_suffix_of_suffix one other with shorter | ⟨more,same⟩
  · exact shorter
  · rw [← same,byteLengthAppend] at le
    have none_ : more = [] := byteLengthZero.mp (by omega)
    rw [none_,List.nil_append] at same
    exact same ▸ List.suffix_rfl

theorem prefixOfLe {text a b : Text} (one : a <+: text) (other : b <+: text) (le : byteLength a ≤ byteLength b) : a <+: b := by
  rcases List.prefix_or_prefix_of_prefix one other with shorter | ⟨more,same⟩
  · exact shorter
  · rw [← same,byteLengthAppend] at le
    have none_ : more = [] := byteLengthZero.mp (by omega)
    rw [none_,List.append_nil] at same
    exact same ▸ List.prefix_rfl

/-! Slices. -/

theorem splitAtByteIff {n : Nat} {text before after : Text} :
    splitAtByte n text = some (before,after) ↔ text = before ++ after ∧ byteLength before = n := by
  induction n,text using splitAtByte.induct generalizing before with
  | case1 text =>
    rw [splitAtByte,byteLengthZero]
    constructor
    · intro same
      cases same
      exact ⟨rfl,rfl⟩
    · rintro ⟨rfl,rfl⟩
      rfl
  | case2 n =>
    rw [splitAtByte]
    refine ⟨nofun,?_⟩
    rintro ⟨empty,long⟩
    obtain ⟨rfl,rfl⟩ := List.append_eq_nil_iff.mp empty.symm
    cases long
  | case3 n c text fits ih =>
    rw [splitAtByte,if_pos fits,Option.map_eq_some_iff]
    constructor
    · rintro ⟨parts,found,same⟩
      cases same
      obtain ⟨rfl,long⟩ := ih.mp found
      rw [byteLengthCons]
      exact ⟨rfl,by omega⟩
    · rintro ⟨same,long⟩
      cases before with
      | nil => cases long
      | cons d before =>
        obtain ⟨rfl,rfl⟩ := List.cons.inj same
        rw [byteLengthCons] at long
        exact ⟨(before,after),ih.mpr ⟨rfl,by omega⟩,rfl⟩
  | case4 n c text long =>
    rw [splitAtByte,if_neg long]
    refine ⟨nofun,?_⟩
    rintro ⟨same,short⟩
    cases before with
    | nil => cases short
    | cons d before =>
      obtain ⟨rfl,_⟩ := List.cons.inj same
      rw [byteLengthCons] at short
      omega

theorem sliceFromIff {start : Nat} {text after : Text} :
    sliceFrom start text = some after ↔ ∃ before, text = before ++ after ∧ byteLength before = start := by
  rw [sliceFrom,Option.map_eq_some_iff]
  constructor
  · rintro ⟨⟨before,_⟩,found,rfl⟩
    exact ⟨before,splitAtByteIff.mp found⟩
  · rintro ⟨before,split_⟩
    exact ⟨(before,after),splitAtByteIff.mpr split_,rfl⟩

theorem sliceToIff {stop : Nat} {text before : Text} :
    sliceTo stop text = some before ↔ before <+: text ∧ byteLength before = stop := by
  rw [sliceTo,Option.map_eq_some_iff]
  constructor
  · rintro ⟨⟨_,after⟩,found,rfl⟩
    obtain ⟨same,long⟩ := splitAtByteIff.mp found
    exact ⟨⟨after,same.symm⟩,long⟩
  · rintro ⟨⟨after,same⟩,long⟩
    exact ⟨(before,after),splitAtByteIff.mpr ⟨same.symm,long⟩,rfl⟩

theorem sliceIff {start stop : Nat} {text piece : Text} :
    slice start stop text = some piece ↔
      ∃ before after, text = before ++ piece ++ after ∧ byteLength before = start ∧ start + byteLength piece = stop := by
  rw [slice]
  split
  · rename_i le
    rw [Option.bind_eq_some_iff]
    constructor
    · rintro ⟨rest,found,cut⟩
      obtain ⟨before,rfl,long⟩ := sliceFromIff.mp found
      obtain ⟨⟨after,rfl⟩,short⟩ := sliceToIff.mp cut
      exact ⟨before,after,(List.append_assoc _ _ _).symm,long,by omega⟩
    · rintro ⟨before,after,rfl,long,short⟩
      refine ⟨piece ++ after,sliceFromIff.mpr ⟨before,List.append_assoc _ _ _,long⟩,sliceToIff.mpr ⟨List.prefix_append _ _,?_⟩⟩
      omega
  · rename_i gt
    refine ⟨nofun,?_⟩
    rintro ⟨_,_,_,_,short⟩
    omega

/-- A slice around a piece of the text, by what it has of the text before the piece and after it. -/
theorem sliceAround (before piece after : Text) {start stop : Nat} (le : start ≤ byteLength before)
    (ge : byteLength before + byteLength piece ≤ stop) (slice_ : Text) :
    slice start stop (before ++ piece ++ after) = some slice_ ↔
      ∃ lead trail, sliceFrom start before = some lead ∧
        sliceTo (stop - (byteLength before + byteLength piece)) after = some trail ∧ slice_ = lead ++ piece ++ trail := by
  rw [sliceIff]
  constructor
  · rintro ⟨a,b,same,long,short⟩
    have cut : a <+: before ++ piece ++ after := ⟨slice_ ++ b,by rw [same,List.append_assoc]⟩
    have whole : before <+: before ++ piece ++ after := ⟨piece ++ after,by rw [List.append_assoc]⟩
    obtain ⟨lead,rfl⟩ := prefixOfLe cut whole (by omega)
    have rest : lead ++ piece ++ after = slice_ ++ b := by
      refine List.append_cancel_left (?_ : a ++ (lead ++ piece ++ after) = a ++ (slice_ ++ b))
      simpa only [List.append_assoc] using same
    rw [byteLengthAppend] at ge
    have found : slice_ <+: lead ++ piece ++ after := ⟨b,rest.symm⟩
    have covers : byteLength (lead ++ piece) ≤ byteLength slice_ := by
      rw [byteLengthAppend]
      omega
    obtain ⟨trail,rfl⟩ := prefixOfLe (List.prefix_append _ _) found covers
    have ends : after = trail ++ b := by
      refine List.append_cancel_left (?_ : lead ++ piece ++ after = lead ++ piece ++ (trail ++ b))
      simpa only [List.append_assoc] using rest
    refine ⟨lead,trail,sliceFromIff.mpr ⟨a,rfl,long⟩,sliceToIff.mpr ⟨⟨b,ends.symm⟩,?_⟩,rfl⟩
    simp only [byteLengthAppend] at short ⊢
    omega
  · rintro ⟨lead,trail,opens,ends,rfl⟩
    obtain ⟨a,rfl,long⟩ := sliceFromIff.mp opens
    obtain ⟨⟨b,rfl⟩,short⟩ := sliceToIff.mp ends
    refine ⟨a,b,by simp only [List.append_assoc],long,?_⟩
    simp only [byteLengthAppend] at short ge ⊢
    omega

/-! ASCII: every offset lies between two characters. -/

def Ascii (text : Text) : Prop := ∀ c ∈ text, c.utf8Size = 1

instance (text : Text) : Decidable (Ascii text) := List.decidableBAll _ _

theorem asciiLength {text : Text} (ascii : Ascii text) : byteLength text = text.length := by
  induction text with
  | nil => rfl
  | cons c text ih =>
    obtain ⟨here,rest⟩ := List.forall_mem_cons.mp ascii
    rw [byteLengthCons,ih rest,here,List.length_cons,Nat.add_comm]

theorem asciiSplit {text : Text} (ascii : Ascii text) {n : Nat} (le : n ≤ byteLength text) :
    splitAtByte n text = some (text.take n,text.drop n) := by
  refine splitAtByteIff.mpr ⟨(List.take_append_drop n text).symm,?_⟩
  rw [asciiLength ascii] at le
  rw [asciiLength fun c mem => ascii c (List.mem_of_mem_take mem),List.length_take,Nat.min_eq_left le]

/-- There is no slice from inside a character. -/
theorem insideNone {head tail : Text} {c : Char} {n : Nat} (gt : byteLength head < n) (lt : n < byteLength head + c.utf8Size) :
    sliceFrom n (head ++ c::tail) = none := by
  rw [Option.eq_none_iff_forall_ne_some]
  intro after cut
  obtain ⟨before,same,long⟩ := sliceFromIff.mp cut
  obtain ⟨more,rfl⟩ := prefixOfLe ⟨c::tail,rfl⟩ (⟨after,same.symm⟩ : before <+: head ++ c::tail) (by omega)
  rw [List.append_assoc] at same
  rw [byteLengthAppend] at long
  cases more with
  | nil =>
    rw [byteLengthNil] at long
    omega
  | cons d more =>
    obtain ⟨rfl,_⟩ := List.cons.inj (List.append_cancel_left same)
    rw [byteLengthCons] at long
    omega

/-! Characters and their bytes. -/

/-- A byte as a character, by its number. -/
def asChar (byte : UInt8) : Char := Char.ofNat byte.toNat

theorem asCharNat (byte : UInt8) : (asChar byte).toNat = byte.toNat := by
  have lt := byte.toNat_lt
  rw [asChar,Char.ofNat,dif_pos (Or.inl (by omega))]
  rfl

theorem highByte {n : Nat} (le : 128 ≤ n) (lt : n < 256) : 128 ≤ (UInt8.ofNat n).toNat := by
  rw [UInt8.toNat_ofNat']
  omega

/-- No byte of a longer character is an ASCII one. -/
theorem encodedWide {c : Char} (wide : c.utf8Size ≠ 1) {byte : UInt8} (mem : byte ∈ String.utf8EncodeChar c) :
    128 ≤ byte.toNat := by
  rw [Ne,Char.utf8Size_eq_one_iff,UInt32.le_iff_toNat_le] at wide
  unfold String.utf8EncodeChar at mem
  simp only at mem
  split at mem
  · rename_i small
    exact absurd small wide
  · split at mem
    · simp only [List.mem_cons,List.not_mem_nil,or_false] at mem
      rcases mem with rfl | rfl <;> exact highByte (by omega) (by omega)
    · split at mem
      · simp only [List.mem_cons,List.not_mem_nil,or_false] at mem
        rcases mem with rfl | rfl | rfl <;> exact highByte (by omega) (by omega)
      · simp only [List.mem_cons,List.not_mem_nil,or_false] at mem
        rcases mem with rfl | rfl | rfl | rfl <;> exact highByte (by omega) (by omega)

theorem asciiSmall {c : Char} (ascii : c.utf8Size = 1) : c.toNat < 128 := by
  rw [Char.utf8Size_eq_one_iff,UInt32.le_iff_toNat_le] at ascii
  exact Nat.lt_succ_of_le ascii

theorem encodedAscii {c : Char} (ascii : c.utf8Size = 1) : (String.utf8EncodeChar c).map asChar = [c] := by
  have small := asciiSmall ascii
  have number : c.val.toUInt8.toNat = c.toNat := by
    rw [UInt32.toNat_toUInt8]
    exact Nat.mod_eq_of_lt (small.trans (by decide))
  have same : (asChar c.val.toUInt8).toNat = c.toNat := (asCharNat _).trans number
  rw [String.utf8EncodeChar_eq_singleton ascii,List.map_singleton,Char.toNat_inj.mp same]

theorem encodedApart {c stop : Char} (ascii : stop.utf8Size = 1) (other : c ≠ stop) {byte : UInt8}
    (mem : byte ∈ String.utf8EncodeChar c) : asChar byte ≠ stop := by
  by_cases single : c.utf8Size = 1
  · have inside := List.mem_map_of_mem (f := asChar) mem
    rw [encodedAscii single,List.mem_singleton] at inside
    exact inside ▸ other
  · rintro rfl
    have high := encodedWide single mem
    have low := asciiSmall ascii
    rw [asCharNat] at low
    omega

theorem bytesCons (c : Char) (text : Text) : bytes (c::text) = String.utf8EncodeChar c ++ bytes text := rfl

/-- The first byte of a text is an ASCII character where its first character is that one. -/
theorem firstByte (c : Char) (text : Text) : ∃ byte more, bytes (c::text) = byte::more ∧
    ∀ stop : Char, stop.utf8Size = 1 → (asChar byte = stop ↔ c = stop) := by
  have long : (String.utf8EncodeChar c).length = c.utf8Size := String.length_utf8EncodeChar c
  rw [bytesCons]
  cases encoded : String.utf8EncodeChar c with
  | nil =>
    have some_ := c.utf8Size_pos
    rw [encoded] at long
    exact absurd long (by simp only [List.length_nil]; omega)
  | cons byte more =>
    refine ⟨byte,more ++ bytes text,rfl,fun stop ascii => ⟨fun same => ?_,?_⟩⟩
    · by_contra other
      exact encodedApart ascii other (encoded ▸ List.mem_cons_self) same
    · rintro rfl
      have single := encodedAscii ascii
      rw [encoded] at single
      exact (List.cons.inj single).1

theorem asciiByte {c : Char} (ascii : c.utf8Size = 1) : ∃ byte, asChar byte = c ∧ ∀ text, bytes (c::text) = byte::bytes text := by
  have single := encodedAscii ascii
  rw [String.utf8EncodeChar_eq_singleton ascii,List.map_singleton] at single
  refine ⟨c.val.toUInt8,(List.cons.inj single).1,fun text => ?_⟩
  rw [bytesCons,String.utf8EncodeChar_eq_singleton ascii]
  rfl

/-- The bytes up to an ASCII character are the bytes of the text up to it. -/
theorem bytesUntil {stop : Char} (ascii : stop.utf8Size = 1) (text : Text) :
    (bytes text).takeWhile (fun byte => asChar byte ≠ stop) = bytes (text.takeWhile (· ≠ stop)) := by
  induction text with
  | nil => rfl
  | cons c text ih =>
    by_cases same : c = stop
    · obtain ⟨byte,more,split_,first⟩ := firstByte c text
      rw [split_,List.takeWhile_cons_of_neg (by simp [(first stop ascii).mpr same]),List.takeWhile_cons_of_neg (by simp [same])]
      rfl
    · have apart (byte : UInt8) (mem : byte ∈ String.utf8EncodeChar c) : decide (asChar byte ≠ stop) = true :=
        decide_eq_true (encodedApart ascii same mem)
      rw [bytesCons,List.takeWhile_append_of_pos apart,ih,List.takeWhile_cons_of_pos (by simp [same]),bytesCons]

theorem fromUtf8Bytes (text : Text) : fromUtf8 (bytes text) = some text := by
  have valid : (bytes text).toByteArray.IsValidUTF8 := .intro text rfl
  have same : String.fromUTF8 (bytes text).toByteArray valid = String.ofList text := rfl
  rw [fromUtf8,String.fromUTF8?,dif_pos valid,same,Option.map_some,String.toList_ofList]

/-! Finding. -/

theorem findSome {pat text : Text} {idx : Nat} (found : find pat text = some idx) :
    ∃ before after, text = before ++ pat ++ after ∧ byteLength before = idx ∧
      ∀ before' after', text = before' ++ pat ++ after' → before.length ≤ before'.length := by
  induction text generalizing idx with
  | nil =>
    rw [find] at found
    split at found
    · rename_i empty
      cases found
      exact ⟨[],[],by simp [empty],rfl,fun _ _ _ => Nat.zero_le _⟩
    · cases found
  | cons c text ih =>
    rw [find] at found
    split at found
    · rename_i here
      cases found
      obtain ⟨after,same⟩ := startsWithIff.mp here
      exact ⟨[],after,same.symm,rfl,fun _ _ _ => Nat.zero_le _⟩
    · rename_i elsewhere
      obtain ⟨later,rest,rfl⟩ := Option.map_eq_some_iff.mp found
      obtain ⟨before,after,rfl,long,first⟩ := ih rest
      refine ⟨c::before,after,rfl,by rw [byteLengthCons]; omega,fun before' after' same => ?_⟩
      cases before' with
      | nil => exact absurd (startsWithIff.mpr ⟨after',same.symm⟩) elsewhere
      | cons d before' => exact Nat.succ_le_succ (first before' after' (List.cons.inj same).2)

theorem findNone {pat text : Text} : find pat text = none ↔ ¬ pat <:+: text := by
  induction text with
  | nil =>
    rw [find,List.infix_nil]
    split
    · rename_i empty
      simp [empty]
    · rename_i some_
      simp [some_]
  | cons c text ih =>
    rw [find,List.infix_cons_iff,not_or,← ih,← startsWithIff]
    split
    · rename_i here
      simp [here]
    · rename_i elsewhere
      simp [elsewhere]

/-- The offset that is found, from any first occurrence. -/
theorem findFirst {pat before after : Text}
    (first : ∀ before' after', before ++ pat ++ after = before' ++ pat ++ after' → before.length ≤ before'.length) :
    find pat (before ++ pat ++ after) = some (byteLength before) := by
  cases found : find pat (before ++ pat ++ after) with
  | none => exact absurd ⟨before,after,rfl⟩ (findNone.mp found)
  | some idx =>
    obtain ⟨before',after',same,long,first'⟩ := findSome found
    have le := first before' after' same
    have ge := first' before after rfl
    rw [List.append_assoc,List.append_assoc] at same
    obtain ⟨rfl,_⟩ := List.append_inj same (by omega)
    rw [long]

/-! Lower-case letters are as long as upper-case ones. -/

theorem toLowerSize (c : Char) : c.toLower.utf8Size = c.utf8Size := by
  unfold Char.toLower
  split
  · rename_i upper
    have small : c.utf8Size = 1 := Char.utf8Size_eq_one_iff.mpr (by grind)
    rw [small,Char.utf8Size_eq_one_iff]
    simp only
    grind
  · rfl

theorem lowerByteLength (text : Text) : byteLength (toAsciiLowercase text) = byteLength text := by
  induction text with
  | nil => rfl
  | cons c text ih =>
    change byteLength (c.toLower::toAsciiLowercase text) = _
    rw [byteLengthCons,byteLengthCons,toLowerSize,ih]

theorem lowerAppend (head tail : Text) : toAsciiLowercase (head ++ tail) = toAsciiLowercase head ++ toAsciiLowercase tail :=
  List.map_append

theorem lowerLength (text : Text) : (toAsciiLowercase text).length = text.length := List.length_map _

/-! Occurrences without case. -/

/-- The first place where the query occurs, without case. -/
structure FirstMatch (content query before occ after : Text) : Prop where
  whole : content = before ++ occ ++ after
  alike : toAsciiLowercase occ = toAsciiLowercase query
  first : ∀ before' occ' after', content = before' ++ occ' ++ after' → toAsciiLowercase occ' = toAsciiLowercase query →
    before.length ≤ before'.length

section
variable {content query before occ after : Text}

theorem FirstMatch.long (found : FirstMatch content query before occ after) : byteLength occ = byteLength query := by
  rw [← lowerByteLength occ,found.alike,lowerByteLength]

theorem FirstMatch.some_ (found : FirstMatch content query before occ after) (asked : query ≠ []) : occ ≠ [] := by
  rintro rfl
  exact asked (byteLengthZero.mp found.long.symm)

theorem lowerSplit {head tail : Text} (same : toAsciiLowercase content = head ++ tail) :
    ∃ head' tail', content = head' ++ tail' ∧ toAsciiLowercase head' = head ∧ toAsciiLowercase tail' = tail :=
  List.map_eq_append_iff.mp same

theorem FirstMatch.found (found : FirstMatch content query before occ after) :
    find (toAsciiLowercase query) (toAsciiLowercase content) = some (byteLength before) := by
  rw [found.whole,lowerAppend,lowerAppend,← found.alike,← lowerByteLength before]
  refine findFirst fun before' after' same => ?_
  rw [← lowerAppend,← lowerAppend] at same
  obtain ⟨front,tail,split_,fronts,rfl⟩ := lowerSplit same
  obtain ⟨head,occ',rfl,rfl,alike⟩ := lowerSplit fronts
  rw [lowerLength,lowerLength]
  exact found.first head occ' tail (found.whole.trans split_) (alike.trans found.alike)

theorem matchExists {idx : Nat} (found : find (toAsciiLowercase query) (toAsciiLowercase content) = some idx) :
    ∃ before occ after, FirstMatch content query before occ after := by
  obtain ⟨before,after,same,_,first⟩ := findSome found
  obtain ⟨front,tail,rfl,fronts,rfl⟩ := lowerSplit same
  obtain ⟨head,occ,rfl,rfl,alike⟩ := lowerSplit fronts
  refine ⟨head,occ,tail,rfl,alike,fun before' occ' after' split_ alike' => ?_⟩
  have later := first (toAsciiLowercase before') (toAsciiLowercase after') (by
    rw [split_,lowerAppend,lowerAppend,alike'])
  rwa [lowerLength,lowerLength] at later

theorem matchUnique {before' occ' after' : Text} (one : FirstMatch content query before occ after)
    (other : FirstMatch content query before' occ' after') : before' = before ∧ occ' = occ ∧ after' = after := by
  have same : before' ++ (occ' ++ after') = before ++ (occ ++ after) := by
    rw [← List.append_assoc,← List.append_assoc,← other.whole,one.whole]
  have starts := Nat.le_antisymm (other.first _ _ _ one.whole one.alike) (one.first _ _ _ other.whole other.alike)
  obtain ⟨rfl,rest⟩ := List.append_inj same starts
  have occs : occ'.length = occ.length := by
    rw [← lowerLength occ',← lowerLength occ,other.alike,one.alike]
  obtain ⟨rfl,rfl⟩ := List.append_inj rest occs
  exact ⟨rfl,rfl,rfl⟩

end

end RustMcp.Utf8Text
