import RustMcp.Base64
import RustMcp.StdioProxy
import RustMcp.Utf8Text

/-! Names in the headers of a request: what is sent can travel in a header, and who reads it
by the rule for encoded values has the name again. -/
namespace RustMcp.HeaderValues
open Str StdioProxy
open Utf8Text (bytes fromUtf8 fromUtf8Bytes)

def encodedPrefix : Text := "=?base64?".toList

def encodedSuffix : Text := "?=".toList

/-- What a receiver makes of a header value. -/
def decodeHeaderValue (text : Text) : Option Text :=
  if encodedPrefix <+: text ∧ encodedSuffix <:+ text ∧ encodedPrefix.length + encodedSuffix.length ≤ text.length then
    (Base64.decode ((text.drop encodedPrefix.length).take (text.length - encodedPrefix.length - encodedSuffix.length))).bind fromUtf8
  else some text

def printable (c : Char) : Bool := ' ' ≤ c && c ≤ '~'

def blank (c : Char) : Bool := c = ' ' || c = '\t'

structure Travels (text : Text) : Prop where
  ascii : ∀ c ∈ text, printable c = true
  starts : text.head?.all (! blank ·) = true
  ends : text.getLast?.all (! blank ·) = true

theorem graphicPrintable {c : Char} (h : Base64.graphic c = true) : printable c = true := by
  simp only [Base64.graphic,Bool.and_eq_true,decide_eq_true_eq] at h
  simp only [printable,Bool.and_eq_true,decide_eq_true_eq]
  exact ⟨le_trans (by decide) h.1,h.2⟩

/-! Values that are encoded. -/

section
variable {text : Text}

theorem wrappedTravels (written : ∀ c ∈ text, Base64.graphic c = true) : Travels (encodedPrefix ++ text ++ encodedSuffix) where
  ascii c mem := by
    rcases List.mem_append.mp mem with inner | tail
    · rcases List.mem_append.mp inner with lead | body
      · exact List.all_eq_true.mp (by decide : encodedPrefix.all printable = true) c lead
      · exact graphicPrintable (written c body)
    · exact List.all_eq_true.mp (by decide : encodedSuffix.all printable = true) c tail
  starts := rfl
  ends := by
    rw [List.getLast?_append_of_ne_nil _ (by decide)]
    decide

end

theorem wrappedDecoded (text : Text) :
    decodeHeaderValue (encodedPrefix ++ text ++ encodedSuffix) = (Base64.decode text).bind fromUtf8 := by
  have lengths : (encodedPrefix ++ text ++ encodedSuffix).length = encodedPrefix.length + text.length + encodedSuffix.length := by
    simp only [List.length_append]
  have inner : ((encodedPrefix ++ text ++ encodedSuffix).drop encodedPrefix.length).take
      ((encodedPrefix ++ text ++ encodedSuffix).length - encodedPrefix.length - encodedSuffix.length) = text := by
    rw [lengths,List.append_assoc,List.drop_left,List.take_left' (by omega)]
  have marked : encodedPrefix <+: encodedPrefix ++ text ++ encodedSuffix := ⟨text ++ encodedSuffix,by rw [List.append_assoc]⟩
  rw [decodeHeaderValue,if_pos ⟨marked,List.suffix_append _ _,by omega⟩,inner]

/-! Values that are sent as they are. -/

structure Verbatim (value : Text) : Prop where
  travels : Travels value
  unmarked : ¬(encodedPrefix <+: value ∧ encodedSuffix <:+ value)

theorem notBlank {at_ : Option Char} (plain : ([' ','\t'].any fun c => at_ = some c) = false) : at_.all (! blank ·) = true := by
  cases at_ with
  | none => rfl
  | some c => simpa [blank] using plain

theorem verbatimOf {value : Text} (plain : requiresBase64 value = false) : Verbatim value := by
  cases value with
  | nil => exact ⟨⟨fun c mem => absurd mem List.not_mem_nil,rfl,rfl⟩,fun marked => absurd marked.1 (by decide)⟩
  | cons c rest =>
    simp only [requiresBase64,List.isEmpty_cons,Bool.not_false,Bool.true_and,Bool.or_eq_false_iff] at plain
    obtain ⟨⟨⟨starts,ends⟩,ascii⟩,unmarked⟩ := plain
    refine ⟨⟨fun d mem => ?_,?_,?_⟩,fun marked => ?_⟩
    · have inside := List.any_eq_false.mp ascii d mem
      simpa [printable] using inside
    · exact notBlank starts
    · exact notBlank ends
    · have found : (startsWith encodedPrefix (c::rest) && encodedSuffix.isSuffixOf (c::rest)) = true := by
        rw [startsWithIff.mpr marked.1,List.isSuffixOf_iff_suffix.mpr marked.2]
        rfl
      exact absurd found (Bool.eq_false_iff.mp unmarked)

/-! The round trip. -/

section
variable {wire : Wire} (standard : ∀ text, wire.encodeBase64 text = Base64.encode (bytes text))
include standard

theorem headerTravels (value : Text) : Travels (encodeHeaderValue wire value) := by
  unfold encodeHeaderValue
  split
  · rw [standard]
    exact wrappedTravels (Base64.encodeGraphic _)
  · rename_i plain
    exact (verbatimOf (Bool.eq_false_iff.mpr plain)).travels

theorem headerDecoded (value : Text) : decodeHeaderValue (encodeHeaderValue wire value) = some value := by
  unfold encodeHeaderValue
  split
  · rw [standard]
    refine (wrappedDecoded _).trans ?_
    rw [Base64.decodeEncode,Option.bind_some,fromUtf8Bytes]
  · rename_i plain
    have unmarked := (verbatimOf (Bool.eq_false_iff.mpr plain)).unmarked
    rw [decodeHeaderValue,if_neg fun marked => unmarked ⟨marked.1,marked.2.1⟩]

/-- The name header of a request carries the name that its params have under the key of its method. -/
theorem nameHeaderDecoded {message : Json} {version header : Text}
    (sent : ("Mcp-Name".toList,header) ∈ statelessRequestHeaders wire message version) :
    ∃ name key value, method message = some name ∧ nameKey name = some key ∧
      ((message.get "params".toList).bind (Json.get key)).bind Json.asStr = some value ∧ decodeHeaderValue header = some value := by
  unfold statelessRequestHeaders at sent
  rcases List.mem_cons.mp sent with protocol | sent
  · have names : "Mcp-Name".toList = "MCP-Protocol-Version".toList := congrArg Prod.fst protocol
    exact absurd names (by decide)
  cases asked : method message with
  | none => simp [asked] at sent
  | some name =>
    simp only [asked] at sent
    rcases List.mem_cons.mp sent with routing | sent
    · have names : "Mcp-Name".toList = "Mcp-Method".toList := congrArg Prod.fst routing
      exact absurd names (by decide)
    rw [Option.mem_toList,Option.map_eq_some_iff] at sent
    obtain ⟨value,routed,same⟩ := sent
    have sentValue : encodeHeaderValue wire value = header := congrArg Prod.snd same
    obtain ⟨key,ofMethod,carried⟩ := Option.bind_eq_some_iff.mp routed
    refine ⟨name,key,value,rfl,ofMethod,carried,?_⟩
    rw [← sentValue]
    exact headerDecoded standard value

end

/-- Every name can travel in its header, is read back from it, and shares it with no other name. -/
theorem headerValueRoundTrip (wire : Wire) (standard : ∀ text, wire.encodeBase64 text = Base64.encode (bytes text)) (value : Text) :
    Travels (encodeHeaderValue wire value) ∧ decodeHeaderValue (encodeHeaderValue wire value) = some value ∧
    ∀ other, encodeHeaderValue wire other = encodeHeaderValue wire value → other = value := by
  refine ⟨headerTravels standard value,headerDecoded standard value,fun other same => ?_⟩
  have read := headerDecoded standard other
  rw [same,headerDecoded standard value] at read
  exact (Option.some.inj read).symm

def headerWire : Wire := ⟨fun text => Base64.encode (bytes text),fun _ => none,fun _ => [],"0.1.0".toList⟩

theorem headerValueRoundTripPadded :
    Travels (encodeHeaderValue headerWire " padded".toList) ∧
    decodeHeaderValue (encodeHeaderValue headerWire " padded".toList) = some " padded".toList ∧
    ∀ other, encodeHeaderValue headerWire other = encodeHeaderValue headerWire " padded".toList → other = " padded".toList :=
  headerValueRoundTrip headerWire (fun _ => rfl) " padded".toList

end RustMcp.HeaderValues
