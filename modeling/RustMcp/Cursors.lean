import RustMcp.Base64Url
import RustMcp.JsonRead
import RustMcp.PageArithmetic

/-! The cursors that the tools hand out: a record in JSON, in base64 for URLs. A cursor does not
say which tool it is of, and a tool reads what it knows of it. -/
namespace RustMcp.Cursors
open Str (Text)
open JsonRead (Schema Kind Value Field Fits project given accept)
open PageArithmetic (Tokens)

inductive CursorTool where
  | crateImportPath | crateApi | crateAlternatives | crateReExports | crateHotspots | crateSearch | crateErrorTypes
  | crateTraitImpls | crateUsagePatterns | crateVersions | symbolSearch | sourceSearch | docsSearch

def crateSearchSort : Kind := .variant [["relevance".toList],["downloads".toList],["recent".toList]]

def sourceSearchMode : Kind := .variant [["text".toList,"contains".toList],["regex".toList]]

/-- The fields of a tool's tokens behind `v`, `offset` and `limit`. -/
def CursorTool.filters : CursorTool → Schema
  | .crateImportPath =>
      [("crate_name".toList,.text),("symbol_name".toList,.text),("version".toList,.optional),("kind".toList,.optional)]
  | .crateApi =>
      [("crate_name".toList,.text),("version".toList,.optional),("path_glob".toList,.optional),("kinds".toList,.texts)]
  | .crateAlternatives =>
      [("crate_name".toList,.text),("version".toList,.optional),("allow_licenses".toList,.texts),("deny_licenses".toList,.texts)]
  | .crateReExports => [("crate_name".toList,.text),("version".toList,.optional),("path_prefix".toList,.optional)]
  | .crateHotspots =>
      [("crate_name".toList,.text),("version".toList,.optional),("path_glob".toList,.optional),("include_unsafe".toList,.bool),
        ("include_concurrency".toList,.bool)]
  | .crateSearch =>
      [("query".toList,.optional),("category".toList,.optional),("keyword".toList,.optional),("sort".toList,crateSearchSort)]
  | .crateErrorTypes => [("crate_name".toList,.text),("version".toList,.optional),("type_name".toList,.optional)]
  | .crateTraitImpls =>
      [("crate_name".toList,.text),("version".toList,.optional),("trait_name".toList,.optional),("type_name".toList,.optional)]
  | .crateUsagePatterns => [("crate_name".toList,.text),("symbol_name".toList,.text),("version".toList,.optional)]
  | .crateVersions => [("crate_name".toList,.text)]
  | .symbolSearch =>
      [("query".toList,.text),("crate_name".toList,.optional),("version".toList,.optional),("kind".toList,.optional),
        ("include_all_versions".toList,.bool),("collapse_by_canonical".toList,.bool)]
  | .sourceSearch =>
      [("query".toList,.text),("crate_name".toList,.optional),("version".toList,.optional),("path_glob".toList,.optional),
        ("mode".toList,sourceSearchMode)]
  | .docsSearch =>
      [("query".toList,.text),("crate_name".toList,.optional),("version".toList,.optional),("path_prefix".toList,.optional)]

/-- `v: u8`, `offset: u32`, `limit: u32` -/
def position : Schema := [("v".toList,.unsigned 255),("offset".toList,.unsigned (2 ^ 32 - 1)),("limit".toList,.unsigned (2 ^ 32 - 1))]

def CursorTool.schema (tool : CursorTool) : Schema := position ++ tool.filters

@[ext] structure Token (tool : CursorTool) where
  v : Nat
  offset : Nat
  limit : Nat
  filters : List Value
  byte : v ≤ 255
  small : offset ≤ 2 ^ 32 - 1 ∧ limit ≤ 2 ^ 32 - 1
  fits : Fits tool.filters filters

variable {tool : CursorTool}

def Token.values (token : Token tool) : List Value := [.number token.v,.number token.offset,.number token.limit] ++ token.filters

instance (schema : Schema) (values : List Value) : Decidable (Fits schema values) := inferInstanceAs (Decidable (List.Forall₂ _ _ _))

def ofValues (tool : CursorTool) : List Value → Option (Token tool)
  | .number v::.number offset::.number limit::filters =>
      if sound : v ≤ 255 ∧ (offset ≤ 2 ^ 32 - 1 ∧ limit ≤ 2 ^ 32 - 1) ∧ Fits tool.filters filters then
        some ⟨v,offset,limit,filters,sound.1,sound.2.1,sound.2.2⟩
      else none
  | _ => none

def fields (schema : Schema) (values : List Value) : List Field := (schema.map Prod.fst).zip values

def encodeCursor (token : Token tool) : Text :=
  Base64Url.encode (Utf8Text.bytes (JsonRead.object (fields tool.schema token.values)))

/-- The texts of the errors of base64 and of the JSON reader. -/
structure Errors where
  decode : Text → Text
  deserialize : JsonRead.Bytes → Text

def deserialize (errors : Errors) (tool : CursorTool) (cursor : Text) : Except Text (Token tool) :=
  match Base64Url.decode cursor with
  | none => .error ("cursor is invalid (base64 decode failed: ".toList ++ errors.decode cursor ++ [')'])
  | some slice =>
      match (JsonRead.fromSlice tool.schema slice).bind (ofValues tool) with
      | none => .error ("cursor is invalid (deserialization failed: ".toList ++ errors.deserialize slice ++ [')'])
      | some token => .ok token

/-- The tokens of a tool whose handler compares `same` with its request. -/
def tokens (errors : Errors) (tool : CursorTool) (same : Token tool → Bool) : Tokens (Token tool) where
  deserialize := deserialize errors tool
  version := Token.v
  position := fun token => ⟨token.offset,token.limit⟩
  filters := same

def decodeCursor (errors : Errors) (tool : CursorTool) (cursor : Text) : Except Text (Token tool) :=
  PageArithmetic.decodeCursor (tokens errors tool fun _ => true) cursor

/-- The token of a request that may have a cursor. -/
def decodeGiven (errors : Errors) (tool : CursorTool) : Option Text → Except Text (Option (Token tool))
  | none => .ok none
  | some cursor => (decodeCursor errors tool cursor).map some

/-! What one tool's token is to another tool. -/

theorem namesOnce (tool : CursorTool) : (tool.schema.map Prod.fst).Nodup := by
  cases tool
  all_goals
    rw [CursorTool.schema,position,CursorTool.filters]
    repeat rw [String.toList_ofList]
    decide

theorem tokenLong (token : Token tool) : token.filters.length = tool.filters.length := (List.Forall₂.length_eq token.fits).symm

theorem fieldsOnce (token : Token tool) : ((fields tool.schema token.values).map Prod.fst).Nodup := by
  rw [fields,List.map_fst_zip]
  · exact namesOnce tool
  · rw [List.length_map,Token.values,CursorTool.schema,List.length_append,List.length_append,tokenLong]
    exact le_rfl

/-- The spelling of a variant that is written is read as itself. -/
def Settled : Kind → Prop
  | .variant names => ∀ spellings ∈ names, ∀ first, spellings.head? = some first → JsonRead.variantOf names first = some first
  | _ => True

theorem filtersSettled (tool : CursorTool) : ∀ field ∈ tool.filters, Settled field.2 := by
  have sort : Settled crateSearchSort := by
    rw [crateSearchSort]
    repeat rw [String.toList_ofList]
    intro spellings mem first same
    rcases List.mem_cons.mp mem with rfl | mem
    · cases same; decide
    · rcases List.mem_cons.mp mem with rfl | mem
      · cases same; decide
      · cases List.mem_singleton.mp mem
        cases same; decide
  have mode : Settled sourceSearchMode := by
    rw [sourceSearchMode]
    repeat rw [String.toList_ofList]
    intro spellings mem first same
    rcases List.mem_cons.mp mem with rfl | mem
    · cases same; decide
    · cases List.mem_singleton.mp mem
      cases same; decide
  have others : Settled .text ∧ Settled .optional ∧ Settled .bool ∧ Settled .texts := ⟨trivial,trivial,trivial,trivial⟩
  cases tool <;> simp [CursorTool.filters,sort,mode,others,-String.reduceToList]

theorem acceptAgain {kind : Kind} (settled : Settled kind) {value read : Value} (accepted : accept kind value = some read) :
    accept kind read = some read := by
  cases kind with
  | variant names =>
    cases value with
    | text text =>
      obtain ⟨name,found,rfl⟩ := Option.map_eq_some_iff.mp accepted
      obtain ⟨spellings,first,head⟩ := Option.bind_eq_some_iff.mp found
      rw [accept,settled spellings (List.mem_of_find?_eq_some first) name head]
      rfl
    | _ => contradiction
  | unsigned maximum =>
    cases value with
    | number n =>
      rw [accept] at accepted
      split at accepted
      · rename_i small
        cases accepted
        exact if_pos small
      · contradiction
    | _ => contradiction
  | _ => cases value <;> first | contradiction | (cases accepted; rfl)

theorem givenAgain {field : Text × Kind} (settled : Settled field.2) {members : List Field} {read : Value}
    (found : given members field = some read) : accept field.2 read = some read := by
  rw [given] at found
  split at found
  · exact acceptAgain settled found
  · split at found
    · rename_i absent
      rw [show field.2 = .optional from absent]
      cases found
      rfl
    · contradiction

theorem projectFits (b : CursorTool) {members : List Field} {filters : List Value} (read : project b.filters members = some filters) :
    Fits b.filters filters := by
  obtain ⟨long,each⟩ := List.forall₂_iff_zip.mp (JsonRead.mapMIff.mp read)
  exact List.forall₂_iff_zip.mpr ⟨long,fun {field value} mem =>
    givenAgain (filtersSettled b field (List.of_mem_zip mem).1) (each mem)⟩

theorem fieldsShape (token : Token tool) : fields tool.schema token.values =
    ("v".toList,.number token.v)::("offset".toList,.number token.offset)::("limit".toList,.number token.limit)
      ::fields tool.filters token.filters := rfl

theorem mapMPrefix {α β : Type} {f : α → Option β} {xs : List α} {ys : List β}
    (each : List.Forall₂ (fun x y => f x = some y) xs ys) (zs : List α) : (xs ++ zs).mapM f = (zs.mapM f).map (ys ++ ·) := by
  induction each with
  | nil =>
    rw [List.nil_append]
    cases zs.mapM f <;> rfl
  | cons first _ ih =>
    rw [List.cons_append,List.mapM_cons,first,ih]
    cases zs.mapM f <;> rfl

theorem projectAcross {a : CursorTool} (b : CursorTool) (token : Token a) :
    project b.schema (fields a.schema token.values) =
      (project b.filters (fields a.filters token.filters)).map
        ([.number token.v,.number token.offset,.number token.limit] ++ ·) := by
  have once := namesOnce b
  have rest : b.filters.mapM (given (fields a.schema token.values)) = project b.filters (fields a.filters token.filters) := by
    refine JsonRead.mapMSame fun field mem => ?_
    have apart : ∀ p ∈ position.map Prod.fst, p ≠ field.1 := fun p inside => by
      rw [CursorTool.schema,List.map_append] at once
      rintro rfl
      exact List.disjoint_of_nodup_append once inside (List.mem_map_of_mem mem)
    have skip : (fields a.schema token.values).lookup field.1 = (fields a.filters token.filters).lookup field.1 := by
      rw [fieldsShape,List.lookup_cons,List.lookup_cons,List.lookup_cons,beq_false_of_ne (apart _ (.head _)).symm,
        beq_false_of_ne (apart _ (.tail _ (.head _))).symm,beq_false_of_ne (apart _ (.tail _ (.tail _ (.head _)))).symm]
    rw [given,given,skip]
  have first : List.Forall₂ (fun field value => given (fields a.schema token.values) field = some value) position
      [.number token.v,.number token.offset,.number token.limit] := by
    refine .cons ?_ (.cons ?_ (.cons ?_ .nil))
    · exact if_pos token.byte
    · exact if_pos token.small.1
    · exact if_pos token.small.2
  exact (mapMPrefix first b.filters).trans (congrArg _ rest)

theorem ofValuesSome {b : CursorTool} {v offset limit : Nat} {filters : List Value} {u : Token b} (fits : Fits b.filters filters)
    (byte : v ≤ 255) (small : offset ≤ 2 ^ 32 - 1 ∧ limit ≤ 2 ^ 32 - 1) :
    ofValues b ([.number v,.number offset,.number limit] ++ filters) = some u ↔
      u.v = v ∧ u.offset = offset ∧ u.limit = limit ∧ u.filters = filters := by
  show (if sound : _ then _ else _) = _ ↔ _
  rw [dif_pos ⟨byte,small,fits⟩,Option.some.injEq]
  constructor
  · rintro rfl
    exact ⟨rfl,rfl,rfl,rfl⟩
  · rintro ⟨rfl,rfl,rfl,rfl⟩
    rfl

theorem deserializeAcross (errors : Errors) {a : CursorTool} (b : CursorTool) (token : Token a) (u : Token b) :
    deserialize errors b (encodeCursor token) = .ok u ↔
      u.v = token.v ∧ u.offset = token.offset ∧ u.limit = token.limit ∧
        project b.filters (fields a.filters token.filters) = some u.filters := by
  rw [deserialize,encodeCursor,Base64Url.decodeEncode]
  simp only [JsonRead.sliceWritten (namesOnce b) (fieldsOnce token),projectAcross]
  cases read : project b.filters (fields a.filters token.filters) with
  | none => simp
  | some filters =>
    have made (u : Token b) := ofValuesSome (u := u) (projectFits b read) token.byte token.small
    simp only [Option.map_some,Option.bind_some]
    cases built : ofValues b ([.number token.v,.number token.offset,.number token.limit] ++ filters) with
    | none =>
      have some_ := (made ⟨token.v,token.offset,token.limit,filters,token.byte,token.small,projectFits b read⟩).mpr
        ⟨rfl,rfl,rfl,rfl⟩
      rw [built] at some_
      contradiction
    | some w =>
      rw [built] at made
      have exact_ := made u
      rw [Option.some.injEq] at exact_
      simp only [Except.ok.injEq,Option.some.injEq,exact_]
      exact ⟨fun ⟨v,offset,limit,same⟩ => ⟨v,offset,limit,same.symm⟩,
        fun ⟨v,offset,limit,same⟩ => ⟨v,offset,limit,same.symm⟩⟩

theorem checkPasses {v limit : Nat} : Utils.checkCursor v limit = .ok () ↔ v = 1 ∧ 0 < limit := by
  rw [Utils.checkCursor]
  split_ifs with other zero
  · exact iff_of_false (fun failed => by cases failed) fun both => other both.1
  · exact iff_of_false (fun failed => by cases failed) fun both => both.2.ne' zero
  · exact iff_of_true rfl ⟨not_not.mp other,Nat.pos_of_ne_zero zero⟩

theorem decodeChecked (errors : Errors) (cursor : Text) (u : Token tool) :
    decodeCursor errors tool cursor = .ok u ↔ deserialize errors tool cursor = .ok u ∧ u.v = 1 ∧ 0 < u.limit := by
  rw [decodeCursor,PageArithmetic.decodeCursor,tokens]
  dsimp only
  cases deserialize errors tool cursor with
  | error e => exact iff_of_false (fun failed => by cases failed) fun both => by cases both.1
  | ok decoded =>
    dsimp only
    cases checked : Utils.checkCursor decoded.v decoded.limit with
    | error e =>
      refine iff_of_false (fun failed => by cases failed) fun both => ?_
      cases both.1
      rw [checkPasses.mpr both.2] at checked
      contradiction
    | ok _ =>
      rw [Except.ok.injEq]
      exact ⟨fun same => ⟨same,same ▸ checkPasses.mp checked⟩,fun both => both.1⟩

/-- A cursor of one tool, as another reads it. -/
theorem decodeAcross (errors : Errors) {a : CursorTool} (b : CursorTool) (token : Token a) (u : Token b) :
    decodeCursor errors b (encodeCursor token) = .ok u ↔
      token.v = 1 ∧ 0 < token.limit ∧ u.v = token.v ∧ u.offset = token.offset ∧ u.limit = token.limit ∧
        project b.filters (fields a.filters token.filters) = some u.filters := by
  rw [decodeChecked,deserializeAcross]
  constructor
  · rintro ⟨⟨v,offset,limit,same⟩,one,some_⟩
    exact ⟨v ▸ one,limit ▸ some_,v,offset,limit,same⟩
  · rintro ⟨one,some_,v,offset,limit,same⟩
    exact ⟨⟨v,offset,limit,same⟩,v ▸ one,limit ▸ some_⟩

theorem filtersOnce (tool : CursorTool) : (tool.filters.map Prod.fst).Nodup :=
  (List.nodup_append.mp (List.map_append ▸ namesOnce tool)).2.1

/-- A cursor is read back by its own tool. -/
theorem decodeOwn (errors : Errors) (token : Token tool) (one : token.v = 1) (some_ : 0 < token.limit) :
    decodeCursor errors tool (encodeCursor token) = .ok token :=
  (decodeAcross errors tool token token).mpr ⟨one,some_,rfl,rfl,rfl,JsonRead.projectOwn (filtersOnce tool) token.fits⟩

theorem encodeInjective : Function.Injective (encodeCursor : Token tool → Text) := fun t u same => by
  have errors : Errors := ⟨id,fun _ => []⟩
  have read (w : Token tool) : deserialize errors tool (encodeCursor w) = .ok w :=
    (deserializeAcross errors tool w w).mpr ⟨rfl,rfl,rfl,JsonRead.projectOwn (filtersOnce tool) w.fits⟩
  exact Except.ok.inj ((read t).symm.trans (same ▸ read u))

theorem graphicKept {c : Char} (graphic : Base64.graphic c = true) : Str.isWhiteSpace c = false := by
  simp only [Base64.graphic,Bool.and_eq_true,decide_eq_true_eq] at graphic
  have low : 33 ≤ c.toNat := graphic.1
  have high : c.toNat ≤ 126 := graphic.2
  simp only [Str.isWhiteSpace,Bool.or_eq_false_iff,Bool.and_eq_false_iff,decide_eq_false_iff_not,beq_eq_false_iff_ne]
  omega

theorem encodeSome (token : Token tool) : encodeCursor token ≠ [] := fun none_ => by
  have read := Base64Url.decodeEncode (Utf8Text.bytes (JsonRead.object (fields tool.schema token.values)))
  rw [← encodeCursor,none_] at read
  have bytes : Utf8Text.bytes (JsonRead.object (fields tool.schema token.values)) = [] := (Option.some.inj read).symm
  rw [JsonRead.object,JsonRead.bytesAscii (by decide)] at bytes
  contradiction

/-- No part of a cursor is lost where the texts of a request are trimmed. -/
theorem cursorKept (token : Token tool) : Utils.normalizeOptional (some (encodeCursor token)) = some (encodeCursor token) :=
  Utils.normalizeOptionalSome.mpr
    ⟨encodeCursor token,rfl,Str.trimClean fun c mem => graphicKept (Base64Url.encodeGraphic _ c mem),encodeSome token⟩

end RustMcp.Cursors
