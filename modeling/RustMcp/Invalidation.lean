import RustMcp.QueryCache

/-! Invalidation of a crate's cached results. The pattern holds the name as it is
stored, the keys hold it as it was typed, and lookups compare the two lowered. -/
namespace RustMcp.Invalidation
open Str (Text)
open JsonText Like QueryCache Utils

/-- `LOWER`, character by character; the underscore alone is lowered to an underscore. -/
structure Lower where
  char : Char → Char
  underscore : ∀ c, char c = '_' ↔ c = '_'

def Lower.text (lower : Lower) (text : Text) : Text := text.map lower.char

/-- Characters that a key writes as they are and a pattern reads as they are, the underscore apart. -/
def Clean (text : Text) : Prop := ∀ c ∈ text, Plain c ∧ c ≠ '%'

instance (text : Text) : Decidable (Clean text) := List.decidableBAll (fun c => Plain c ∧ c ≠ '%') text

/-- The name of a crate in the index. -/
structure CrateName where
  text : Text
  some_ : text ≠ []
  clean : Clean text

variable {V : Type} {decodeCursor : Text → Except Text DocsCursorToken}

/-- The request names the crate, as a lookup compares names. -/
def Names (lower : Lower) (name : CrateName) (request : ToolRequest) : Prop :=
  ∃ typed, request.crateName = some typed ∧ lower.text (Str.trim typed) = lower.text name.text

/-- The request names the crate in the stored spelling. -/
def SpelledAsStored (name : CrateName) (request : ToolRequest) : Prop :=
  ∃ typed, request.crateName = some typed ∧ Str.trim typed = name.text

def label : Text := "crate_name".toList

theorem optionalText {value : Option Text} {text : Text} : Value.optional value = .text text ↔ value = some text := by
  cases value <;> simp [Value.optional]

/-! The crate name stands in one field of each key. -/

/-- What the pattern relies on in the fields of a key. -/
structure KeyShape (crateName : Option Text) (fields : List Field) : Prop where
  words : ∀ f ∈ fields, Word f.1
  only : ∀ name text, (name,.text text) ∈ fields → name.length = 10 → name = label ∧ crateName = some text
  there : ∀ text, crateName = some text → (label,.text text) ∈ fields

/-- The fields' names are known, and the crate name stands under its own. -/
theorem keyShape (names : List Text) {fields : List Field} {crateName : Option Text} (same : fields.map Prod.fst = names)
    (words : ∀ name ∈ names, Word name ∧ (name.length = 10 → name = label)) (unique : names.Nodup)
    (there : (label,Value.optional crateName) ∈ fields) : KeyShape crateName fields := by
  refine ⟨fun f mem => (words f.1 (same ▸ List.mem_map_of_mem mem)).1,fun name text mem ten => ?_,fun text known => ?_⟩
  · have named := (words name (same ▸ List.mem_map_of_mem mem)).2 ten
    subst named
    have one := List.inj_on_of_nodup_map (same ▸ unique) mem there rfl
    rw [Prod.mk.injEq] at one
    exact ⟨rfl,optionalText.mp one.2.symm⟩
  · rw [known] at there; exact there

theorem sourceShape {request : SourceSearchRequest} {fields : List Field} (h : request.keyFields = .ok fields) :
    KeyShape (normalizeOptional request.crateName) fields := by
  unfold SourceSearchRequest.keyFields at h
  cases query : normalizeRequired request.query "query".toList with
  | error => rw [query] at h; contradiction
  | ok text =>
    rw [query] at h
    cases Except.ok.inj h
    exact keyShape ["query".toList,label,"version".toList,"path_glob".toList,"mode".toList,"cursor".toList,"page".toList,
      "limit".toList] rfl (by decide +kernel) (by decide +kernel) (List.mem_cons_of_mem _ List.mem_cons_self)

theorem symbolShape {request : SymbolSearchRequest} {fields : List Field} (h : request.keyFields = .ok fields) :
    KeyShape (normalizeOptional request.crateName) fields := by
  unfold SymbolSearchRequest.keyFields at h
  cases query : normalizeRequired request.query "query".toList with
  | error => rw [query] at h; contradiction
  | ok text =>
    rw [query] at h
    cases Except.ok.inj h
    exact keyShape ["query".toList,label,"version".toList,"kind".toList,"include_all_versions".toList,
      "collapse_by_canonical".toList,"cursor".toList,"page".toList,"limit".toList] rfl (by decide +kernel)
      (by decide +kernel) (List.mem_cons_of_mem _ List.mem_cons_self)

theorem docsShape {request : DocsSearchRequest} {fields : List Field} (h : request.keyFields decodeCursor = .ok fields) :
    KeyShape (normalizeOptional request.crateName) fields := by
  unfold DocsSearchRequest.keyFields at h
  obtain ⟨query,_,h⟩ := bindOk h
  obtain ⟨decoded,_,h⟩ := bindOk h
  split at h
  · contradiction
  · obtain ⟨pagination,_,h⟩ := bindOk h
    cases Except.ok.inj h
    exact keyShape ["query".toList,label,"version".toList,"path_prefix".toList,"cursor".toList,"page".toList,"limit".toList]
      rfl (by decide +kernel) (by decide +kernel) (List.mem_cons_of_mem _ List.mem_cons_self)

/-- A crate search names no crate, and none of its fields is as long as the label. -/
theorem crateShape (request : CrateSearchRequest) : KeyShape none request.keyFields := by
  have words : ∀ name ∈ request.keyFields.map Prod.fst, Word name ∧ name.length ≠ 10 := by
    change ∀ name ∈ ["query".toList,"category".toList,"keyword".toList,"sort".toList,"cursor".toList,"page".toList,
      "limit".toList], _
    decide +kernel
  exact ⟨fun f mem => (words f.1 (List.mem_map_of_mem mem)).1,
    fun name text mem ten => absurd ten (words name (List.mem_map_of_mem mem)).2,fun text known => nomatch known⟩

theorem toolShape {request : ToolRequest} {fields : List Field} (h : request.keyFields decodeCursor = .ok fields) :
    KeyShape (normalizeOptional request.crateName) fields := by
  cases request with
  | sourceSearch => exact sourceShape h
  | symbolSearch => exact symbolShape h
  | docsSearch => exact docsShape h
  | crateSearch request => cases Except.ok.inj h; exact crateShape request

/-! What the pattern matches. -/

theorem likePattern (name : CrateName) (key : Text) :
    like (cratePattern name.text) key = true ↔
      ∃ before lead typed after, key = before ++ (lead ++ (typed ++ '"'::after)) ∧ Fits "\"crate_name\":\"".toList lead ∧
        Fits name.text typed := by
  have leadLiteral : Literal "\"crate_name\":\"".toList := by decide +kernel
  have nameLiteral : Literal name.text := fun c mem => ⟨(name.clean c mem).2,(name.clean c mem).1.2.1⟩
  have quoteLiteral : Literal ['"'] := by decide +kernel
  have shape : cratePattern name.text = '%'::("\"crate_name\":\"".toList ++ (name.text ++ (['"'] ++ ['%']))) := by
    change ('%'::"\"crate_name\":\"".toList) ++ name.text ++ ['"','%'] = _
    simp
  rw [shape,likeAny]
  constructor
  · rintro ⟨before,rest,rfl,matches_⟩
    obtain ⟨lead,rest,rfl,fitsLead,matches_⟩ := (likeLiteral leadLiteral).mp matches_
    obtain ⟨typed,rest,rfl,fitsName,matches_⟩ := (likeLiteral nameLiteral).mp matches_
    obtain ⟨quote,after,rfl,fitsQuote,_⟩ := (likeLiteral quoteLiteral).mp matches_
    obtain ⟨c,rfl,fits⟩ : ∃ c, quote = [c] ∧ FitsChar '"' c := by
      cases fitsQuote with
      | cons fits none_ => cases none_; exact ⟨_,rfl,fits⟩
    rcases fits with wrong | rfl
    · contradiction
    · exact ⟨before,lead,typed,after,rfl,fitsLead,fitsName⟩
  · rintro ⟨before,lead,typed,after,rfl,fitsLead,fitsName⟩
    refine ⟨before,_,rfl,(likeLiteral leadLiteral).mpr ⟨lead,_,rfl,fitsLead,?_⟩⟩
    refine (likeLiteral nameLiteral).mpr ⟨typed,_,rfl,fitsName,?_⟩
    exact (likeLiteral quoteLiteral).mpr ⟨['"'],after,rfl,fitsSelf _,likeEverything after⟩

/-- What fits the pattern's label is a label whose underscore may be another character. -/
theorem leadLabelled {lead : Text} (fits : Fits "\"crate_name\":\"".toList lead) (rest : Text) :
    ∃ x, lead ++ rest = '"'::labelled "crate".toList "name".toList x rest := by
  change Fits ['"','c','r','a','t','e','_','n','a','m','e','"',':','"'] lead at fits
  simp only [Fits,List.forall₂_cons_left_iff,List.forall₂_nil_left_iff,FitsChar,Char.reduceEq,false_or,true_or,true_and] at fits
  obtain ⟨_,_,rfl,⟨_,_,rfl,⟨_,_,rfl,⟨_,_,rfl,⟨_,_,rfl,⟨_,_,rfl,⟨x,_,⟨_,_,rfl,⟨_,_,rfl,⟨_,_,rfl,⟨_,_,rfl,⟨_,_,rfl,⟨_,_,rfl,
    ⟨_,_,rfl,rfl,rfl⟩,rfl⟩,rfl⟩,rfl⟩,rfl⟩,rfl⟩,rfl⟩,rfl⟩,rfl⟩,rfl⟩,rfl⟩,rfl⟩,rfl⟩,rfl⟩ := fits
  exact ⟨x,rfl⟩

/-- A typed name that the stored one fits, and that lowers to the same, is the stored one. An
underscore of the stored name fits any character, but only an underscore lowers as it does. -/
theorem spelling (lower : Lower) {name part text : Text} (clean : Clean name) (fits : Fits name part)
    {rest after : Text} (same : part ++ rest = escape text ++ after) (lowered : lower.text text = lower.text name) :
    text = name := by
  induction fits generalizing text with
  | nil => exact List.map_eq_nil_iff.mp lowered
  | @cons x c xs cs fit fits ih =>
    cases text with
    | nil => contradiction
    | cons t ts =>
      obtain ⟨head,tail⟩ := List.cons.inj lowered
      rw [escapeCons] at same
      have wild : x = '_' → t = '_' := fun under => by
        rw [under,(lower.underscore '_').mpr rfl] at head
        exact (lower.underscore t).mp head
      rcases escapeCases t with ⟨_,plain⟩ | ⟨more,escaped⟩
      · rw [plain] at same
        obtain ⟨here,later⟩ := List.cons.inj same
        have equal : t = x := by
          rcases fit with under | rfl
          · rw [wild under,under]
          · exact here.symm
        rw [equal,ih (fun d mem => clean d (List.mem_cons_of_mem _ mem)) later tail]
      · rw [escaped] at same
        have slash : c = '\\' := (List.cons.inj same).1
        rcases fit with under | rfl
        · rw [wild under] at escaped
          exact absurd (List.cons.inj escaped).1 (by decide)
        · exact absurd slash (clean _ List.mem_cons_self).1.2.1

variable (lower : Lower) (name : CrateName)

/-- A key is matched exactly if it spells the crate as it is stored. -/
theorem matchedIff {request : ToolRequest} {key : Text} (keyed : request.cacheKey decodeCursor = .ok key)
    (names : Names lower name request) : like (cratePattern name.text) key = true ↔ SpelledAsStored name request := by
  obtain ⟨typed,named,lowered⟩ := names
  have some_ : Str.trim typed ≠ [] := fun none_ => by
    rw [none_] at lowered
    exact name.some_ (List.map_eq_nil_iff.mp lowered.symm)
  have normal : normalizeOptional request.crateName = some (Str.trim typed) :=
    normalizeOptionalSome.mpr ⟨typed,named,rfl,some_⟩
  obtain ⟨fields,built,rfl⟩ : ∃ fields, request.keyFields decodeCursor = .ok fields ∧ key = object fields := by
    unfold ToolRequest.cacheKey at keyed
    cases built : request.keyFields decodeCursor with
    | error => rw [built] at keyed; contradiction
    | ok fields => rw [built] at keyed; exact ⟨fields,rfl,(Except.ok.inj keyed).symm⟩
  have shape := toolShape built
  rw [likePattern]
  constructor
  · rintro ⟨before,lead,part,after,same,fitsLead,fitsName⟩
    obtain ⟨x,label_⟩ := leadLabelled fitsLead (part ++ '"'::after)
    rw [label_] at same
    have here : Occurs (labelled "crate".toList "name".toList x (part ++ '"'::after)) (members fields) := by
      rcases occursCons (c := '{') ⟨before,same⟩ with ⟨wrong,_⟩ | there
      · contradiction
      · exact there
    obtain ⟨text,rest,mem,read⟩ := labelFound (by decide +kernel) (by decide +kernel) (by decide +kernel) (by decide +kernel)
      shape.words here
    obtain ⟨_,known⟩ := shape.only _ _ mem rfl
    rw [normal] at known
    cases Option.some.inj known
    exact ⟨typed,named,spelling lower name.clean fitsName read lowered⟩
  · rintro ⟨typed',named',spelled⟩
    rw [named] at named'
    cases Option.some.inj named'
    obtain ⟨before,after,inside⟩ := fieldInside (shape.there _ normal)
    refine ⟨'{'::before,_,name.text,after,?_,fitsSelf _,fitsSelf _⟩
    have written : escape name.text = name.text := escapeSame fun c mem => (name.clean c mem).1
    have labelWritten : escape label = label := escapeSame fun c mem => wordPlain ((by decide +kernel : Word label) c mem)
    change '{'::members fields = '{'::(before ++ ('"'::(label ++ ['"',':','"']) ++ (name.text ++ '"'::after)))
    rw [inside]
    simp [field,quoted,write,spelled,written,labelWritten]

/-- After the deletion no entry is left whose request names the crate, and later lookups that name
it miss, exactly if every entry whose request names it spells it as it is stored. -/
theorem clearedIffSpelledAsStored (cache : Cache V) :
    ((∀ row ∈ (deleteQueryCacheForCrate name.text cache).rows, ∀ request : ToolRequest,
        request.cacheKey decodeCursor = .ok row.key → ¬ Names lower name request) ∧
      ∀ request : ToolRequest, Names lower name request → ∀ key, request.cacheKey decodeCursor = .ok key →
        ∀ source now, fetchQueryCacheValue now key source (deleteQueryCacheForCrate name.text cache) = none) ↔
    ∀ row ∈ cache.rows, ∀ request : ToolRequest, request.cacheKey decodeCursor = .ok row.key → Names lower name request →
      SpelledAsStored name request := by
  have left : ∀ row, row ∈ (deleteQueryCacheForCrate name.text cache).rows ↔
      row ∈ cache.rows ∧ like (cratePattern name.text) row.key = false := fun row => Keyed.Table.memDelete
  constructor
  · rintro ⟨cleared,_⟩ row mem request keyed names
    by_contra other
    have unmatched : like (cratePattern name.text) row.key = false :=
      Bool.eq_false_iff.mpr fun hit => other ((matchedIff lower name keyed names).mp hit)
    exact cleared row ((left row).mpr ⟨mem,unmatched⟩) request keyed names
  · intro spelled
    have cleared : ∀ row ∈ (deleteQueryCacheForCrate name.text cache).rows, ∀ request : ToolRequest,
        request.cacheKey decodeCursor = .ok row.key → ¬ Names lower name request := by
      intro row mem request keyed names
      obtain ⟨inside,unmatched⟩ := (left row).mp mem
      rw [(matchedIff lower name keyed names).mpr (spelled row inside request keyed names)] at unmatched
      contradiction
    refine ⟨cleared,fun request names key keyed source now => ?_⟩
    refine Option.map_eq_none_iff.mpr (List.find?_eq_none.mpr fun row mem found => ?_)
    simp only [Bool.and_eq_true,decide_eq_true_eq] at found
    exact cleared row mem request (found.1.1 ▸ keyed) names

theorem asciiUnderscore (c : Char) : c.toLower = '_' ↔ c = '_' := by
  unfold Char.toLower
  split
  · rename_i upper
    constructor
    · intro same
      have value := congrArg (fun d : Char => d.val) same
      have least := upper.1
      have most := upper.2
      simp only [ge_iff_le,UInt32.le_iff_toNat_le] at least most
      have sum := congrArg UInt32.toNat value
      simp only [UInt32.toNat_add] at sum
      change (c.val.toNat + 32) % 4294967296 = 95 at sum
      change 65 ≤ c.val.toNat at least
      change c.val.toNat ≤ 90 at most
      omega
    · rintro rfl
      exact absurd upper (by decide)
  · rfl

def asciiLower : Lower := ⟨Char.toLower,asciiUnderscore⟩

def serde : CrateName := ⟨"serde".toList,by decide +kernel,by decide +kernel⟩

def typedSearch : SymbolSearchRequest := ⟨"Serialize".toList,some "Serde".toList,none,none,none,none,none,none,none⟩

def typedKey : Text :=
  "\x7b\"query\":\"Serialize\",\"crate_name\":\"Serde\",\"version\":null,\"kind\":null,".toList ++
    "\"include_all_versions\":false,\"collapse_by_canonical\":false,\"cursor\":null,\"page\":1,\"limit\":25\x7d".toList

/-- What was found for `Serde` is still served after the entries of `serde` were deleted. -/
theorem typedSpellingSurvives :
    Names asciiLower serde (.symbolSearch typedSearch) ∧
    (ToolRequest.symbolSearch typedSearch).cacheKey (fun _ => .error []) = .ok typedKey ∧
    fetchQueryCacheValue 10 typedKey "symbol_search".toList (deleteQueryCacheForCrate serde.text
      (upsertQueryCacheValue 0 typedKey "symbol_search".toList 7 300 ⟨[],List.nodup_nil⟩)) = some 7 := by
  refine ⟨⟨_,rfl,?_⟩,?_,?_⟩ <;> decide +kernel

end RustMcp.Invalidation
