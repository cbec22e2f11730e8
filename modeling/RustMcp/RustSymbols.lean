import RustMcp.SourceIndex

/-! What is stored of the items of a Rust file. The parser says what the items are; the line of
each is searched for in the text, by its name. -/
namespace RustMcp.RustSymbols
open Str
open SourceIndex (IndexedExtractionBatch)

/-! The syntax tree, as far as it is walked. -/

/-- A name and the line on which it stands. The walk does not read the line. -/
structure Ident where
  name : Text
  line : Nat
  filled : name ≠ []
  solid : (name.all fun c => !isWhiteSpace c) = true

inductive Visibility where
  | pub | restricted | inherited

structure Named where
  ident : Ident
  vis : Visibility

structure Path where
  segments : List Text
  tokens : Text

/-- An attribute; `paths` is what its arguments parse to. -/
structure Attribute where
  isDerive : Bool
  paths : Option (List Path)

structure Field where
  ident : Option Text
  ty : Text

structure Variant where
  ident : Text
  fields : List Field
  discriminant : Option Text

inductive Ty where
  | path (segments : List Text)
  | reference (elem : Ty)
  | paren (elem : Ty)
  | group (elem : Ty)
  | other

inductive ImplItem where
  | fn (ident tokens : Text)
  | other

/-- The lines from the first to the last. -/
structure Extent where
  first : Nat
  last : Nat
  deriving DecidableEq

structure ImplBlock where
  selfTy : Ty
  selfTokens : Text
  traitPath : Option Path
  items : List ImplItem
  extent : Extent

inductive Item where
  | function (item : Named)
  | struct (item : Named) (generics : List Text) (fields : List Field) (attrs : List Attribute)
  | enum (item : Named) (generics : List Text) (variants : List Variant) (attrs : List Attribute)
  | union (item : Named) (generics : List Text) (fields : List Field) (attrs : List Attribute)
  | trait (item : Named)
  | typeAlias (item : Named)
  | const (item : Named)
  | static (item : Named)
  | module (item : Named)
  | impl (block : ImplBlock)
  | other

/-- A file and, beside its items, the `impl` blocks that stand deeper: in modules and in bodies. -/
structure File where
  items : List Item
  innerImpls : List Extent

/-! The rows. -/

structure IndexedSymbolInsert where
  name : Text
  kind : Text
  signature : Option Text
  visibility : Option Text
  startLine : Nat
  endLine : Nat

structure IndexedTypeInsert where
  typeName : Text
  kind : Text
  visibility : Option Text
  genericParams : List Text
  fields : List Field
  variants : List Variant
  startLine : Nat
  endLine : Nat

structure MethodEntry where
  name : Text
  signature : Option Text
  deriving DecidableEq

structure IndexedImplInsert where
  typeName : Text
  typeNameDisplay : Option Text
  traitName : Option Text
  traitNameDisplay : Option Text
  implKind : Text
  methods : List MethodEntry
  startLine : Nat
  endLine : Nat
  deriving DecidableEq

/-- A type has one row a name and kind. -/
def IndexedTypeInsert.key (row : IndexedTypeInsert) : Text × Text := (row.typeName,row.kind)

abbrev Batch := IndexedExtractionBatch IndexedSymbolInsert IndexedTypeInsert IndexedImplInsert

/-! The code. What is scanned has at most `maxTextFileBytes`, so that a line's number is an `i32`. -/

def lineForSymbolName (content name : Text) : Nat :=
  match (lines content).findIdx? (contains name) with
  | some idx => idx + 1
  | none => 1

def lineForMethodName (content methodName : Text) : Nat := lineForSymbolName content ("fn ".toList ++ methodName)

def normalizeSymbolSignature (line : Text) : Option Text :=
  let trimmed := trim line
  if trimmed = [] then none else some (trimmed.take 240)

def signatureAt (content : Text) (startLine : Nat) : Option Text :=
  (lines content)[startLine - 1]?.bind normalizeSymbolSignature

def Visibility.marker : Visibility → Text
  | .pub => "public".toList
  | .restricted | .inherited => "private".toList

def extractTypeTerminalName : Ty → Option Text
  | .path segments => segments.getLast?
  | .reference elem | .paren elem | .group elem => extractTypeTerminalName elem
  | .other => none

def deriveTraits (attrs : List Attribute) : List (Text × Text) :=
  (attrs.filter Attribute.isDerive).flatMap fun attr =>
    (attr.paths.getD []).filterMap fun path => path.segments.getLast?.map fun terminal => (terminal,path.tokens)

section
variable (content : Text)

/-- The row of a symbol, the same for all kinds. -/
def symbolRow (kind : Text) (item : Named) : IndexedSymbolInsert :=
  let startLine := lineForSymbolName content item.ident.name
  ⟨item.ident.name,kind,signatureAt content startLine,some item.vis.marker,startLine,startLine⟩

def deriveImpls (item : Named) (attrs : List Attribute) : List IndexedImplInsert :=
  let startLine := lineForSymbolName content item.ident.name
  (deriveTraits attrs).map fun (traitName,display) =>
    ⟨item.ident.name,some item.ident.name,some traitName,some display,"derive".toList,[],startLine,startLine⟩

/-- What a type is stored as: a symbol, a type and the impls that it derives. -/
def typeRows (kind : Text) (item : Named) (generics : List Text) (fields : List Field) (variants : List Variant)
    (attrs : List Attribute) : Batch :=
  let startLine := lineForSymbolName content item.ident.name
  ⟨[symbolRow content kind item],
    [⟨item.ident.name,kind,some item.vis.marker,generics,fields,variants,startLine,startLine⟩],
    deriveImpls content item attrs⟩

def methodEntries (items : List ImplItem) : List MethodEntry :=
  items.filterMap fun
    | .fn ident tokens => some ⟨ident,(signatureAt content (lineForMethodName content ident)).or (some tokens)⟩
    | .other => none

def implRow (block : ImplBlock) : Option IndexedImplInsert :=
  (extractTypeTerminalName block.selfTy).map fun typeName =>
    let entries := methodEntries content block.items
    let startLine :=
      (entries.map fun method => lineForMethodName content method.name).min?.getD (lineForSymbolName content typeName)
    { typeName := typeName
      typeNameDisplay := some block.selfTokens
      traitName := block.traitPath.bind fun path => path.segments.getLast?
      traitNameDisplay := block.traitPath.map Path.tokens
      implKind := if block.traitPath.isSome then "trait".toList else "inherent".toList
      methods := entries
      startLine := startLine
      endLine := startLine }

def itemRows : Item → Batch
  | .function item => ⟨[symbolRow content "function".toList item],[],[]⟩
  | .struct item generics fields attrs => typeRows content "struct".toList item generics fields [] attrs
  | .enum item generics variants attrs => typeRows content "enum".toList item generics [] variants attrs
  | .union item generics fields attrs => typeRows content "union".toList item generics fields [] attrs
  | .trait item => ⟨[symbolRow content "trait".toList item],[],[]⟩
  | .typeAlias item => ⟨[symbolRow content "type_alias".toList item],[],[]⟩
  | .const item => ⟨[symbolRow content "const".toList item],[],[]⟩
  | .static item => ⟨[symbolRow content "static".toList item],[],[]⟩
  | .module item => ⟨[symbolRow content "module".toList item],[],[]⟩
  | .impl block => ⟨[],[],(implRow content block).toList⟩
  | .other => ⟨[],[],[]⟩

end

def extractRustSymbols (parseFile : Text → Except Text File) (content : Text) : Except Text Batch := do
  let file ← (parseFile content).mapError ("rust parser error: ".toList ++ ·)
  let rows := file.items.map (itemRows content)
  return ⟨rows.flatMap (·.symbols),rows.flatMap (·.types),rows.flatMap (·.impls)⟩

/-! The first line that has a text in it. -/

/-- The `n`-th line, counted from 1, is `text`. -/
def LineIs (content : Text) (n : Nat) (text : Text) : Prop := 0 < n ∧ (lines content)[n - 1]? = some text

/-- No line before the `n`-th has the text in it. -/
def Unseen (content pat : Text) (n : Nat) : Prop := ∀ k < n, ∀ text, LineIs content k text → ¬pat <:+: text

/-- The first line with the text in it; where there is none, the first line of all. -/
inductive FirstWith (content pat : Text) : Nat → Prop where
  | seen {n : Nat} {text : Text} (line : LineIs content n text) (has : pat <:+: text) (before : Unseen content pat n) :
      FirstWith content pat n
  | never (nowhere : ∀ n, Unseen content pat n) : FirstWith content pat 1

theorem lineIsSucc {content text : Text} {i : Nat} : LineIs content (i + 1) text ↔ (lines content)[i]? = some text :=
  and_iff_right (Nat.succ_pos i)

theorem firstLine (content pat : Text) : FirstWith content pat (lineForSymbolName content pat) := by
  rw [lineForSymbolName]
  cases found : (lines content).findIdx? (contains pat) with
  | none =>
    refine .never fun n k _ text line has => ?_
    have absent := List.findIdx?_eq_none_iff.mp found text (List.mem_of_getElem? line.2)
    rw [containsIff.mpr has] at absent
    contradiction
  | some idx =>
    obtain ⟨inside,has,before⟩ := List.findIdx?_eq_some_iff_getElem.mp found
    refine .seen (lineIsSucc.mpr (List.getElem?_eq_getElem inside)) (containsIff.mp has) fun k early text line other => ?_
    have early : k < idx + 1 := early
    obtain ⟨positive,there⟩ := line
    obtain ⟨bound,same⟩ := List.getElem?_eq_some_iff.mp there
    exact before (k - 1) (by omega) (same ▸ containsIff.mpr other)

/-- There is one first line. -/
theorem firstUnique {content pat : Text} {n m : Nat} (first : FirstWith content pat n) (other : FirstWith content pat m) : n = m := by
  cases first with
  | seen line has before =>
    cases other with
    | seen line' has' before' =>
      rcases Nat.lt_trichotomy n m with less | same | more
      · exact absurd has (before' n less _ line)
      · exact same
      · exact absurd has' (before m more _ line')
    | never nowhere => exact absurd has (nowhere (n + 1) n (Nat.lt_succ_self n) _ line)
  | never nowhere =>
    cases other with
    | seen line' has' _ => exact absurd has' (nowhere (m + 1) m (Nat.lt_succ_self m) _ line')
    | never _ => rfl

theorem lineIff {content pat : Text} {n : Nat} : lineForSymbolName content pat = n ↔ FirstWith content pat n :=
  ⟨fun same => same ▸ firstLine content pat,firstUnique (firstLine content pat)⟩

/-- A line that has the text is found exactly if no line before it has. -/
theorem lineUnseen {content pat text : Text} {n : Nat} (line : LineIs content n text) (has : pat <:+: text) :
    lineForSymbolName content pat = n ↔ Unseen content pat n := by
  refine lineIff.trans ⟨fun first => ?_,.seen line has⟩
  cases first with
  | seen _ _ before => exact before
  | never nowhere => exact nowhere 1

theorem signatureLine {content text : Text} {n : Nat} (line : LineIs content n text) :
    signatureAt content n = normalizeSymbolSignature text := by
  rw [signatureAt,line.2,Option.bind_some]

/-! Signatures. -/

/-- How the text of a line is stored: without the blanks around it, and no longer than 240. -/
def stored (text : Text) : Text := (trim text).take 240

/-- A line with a name on it is not blank. -/
theorem normalizeStored (ident : Ident) {text : Text} (has : ident.name <:+: text) : normalizeSymbolSignature text = some (stored text) := by
  obtain ⟨c,mem⟩ := List.exists_mem_of_ne_nil _ ident.filled
  have solid : isWhiteSpace c = false := by simpa using List.all_eq_true.mp ident.solid c mem
  have kept : c ∈ trim text := trimMem solid (has.subset mem)
  exact if_neg (List.ne_nil_of_mem kept)

/-- What is stored is the text of the line, to the letter. -/
theorem storedWhole {text : Text} : stored text = text ↔ trim text = text ∧ text.length ≤ 240 := by
  constructor
  · intro whole
    have lengths := congrArg List.length whole
    have shorter := (trimInfix text).length_le
    rw [stored,List.length_take] at lengths
    have all : stored text = trim text := List.take_of_length_le (by omega)
    exact ⟨all.symm.trans whole,by omega⟩
  · rintro ⟨bare,short⟩
    rw [stored,bare,List.take_of_length_le short]

/-! The items that are declared by a name. -/

def Item.named : Item → Option Named
  | .function item | .struct item _ _ _ | .enum item _ _ _ | .union item _ _ _ => some item
  | .trait item | .typeAlias item | .const item | .static item | .module item => some item
  | .impl _ | .other => none

/-- The parser reads each name on the line that it says. -/
def ReadsNames (parseFile : Text → Except Text File) : Prop :=
  ∀ content file, parseFile content = .ok file → ∀ item ∈ file.items.filterMap Item.named,
    ∃ text, LineIs content item.ident.line text ∧ item.ident.name <:+: text

theorem extracted {parseFile : Text → Except Text File} {content : Text} {file : File} (parsed : parseFile content = .ok file) :
    extractRustSymbols parseFile content = .ok ⟨file.items.flatMap fun item => (itemRows content item).symbols,
      file.items.flatMap fun item => (itemRows content item).types,file.items.flatMap fun item => (itemRows content item).impls⟩ := by
  simp [extractRustSymbols,parsed,Except.mapError,bind,Except.bind,pure,Except.pure,List.flatMap_map]

/-- A named item has one row, the others have none. -/
theorem itemSymbol (content : Text) (item : Item) :
    ∃ kind, (itemRows content item).symbols = item.named.toList.map (symbolRow content kind) := by
  cases item with
  | impl | other => exact ⟨[],rfl⟩
  | _ => exact ⟨_,rfl⟩

/-- The row has the line of the name, and the text of that line as the signature. -/
def AtName (ident : Ident) (text : Text) (row : IndexedSymbolInsert) : Prop :=
  row.startLine = ident.line ∧ row.signature = some text

theorem rowStored {content text : Text} {item : Named} (line : LineIs content item.ident.line text)
    (has : item.ident.name <:+: text) (kind : Text) :
    AtName item.ident (stored text) (symbolRow content kind item) ↔ Unseen content item.ident.name item.ident.line := by
  constructor
  · rintro ⟨start,-⟩
    exact (lineUnseen line has).mp start
  · intro before
    have start := (lineUnseen line has).mpr before
    refine ⟨start,?_⟩
    rw [symbolRow,start,signatureLine line,normalizeStored item.ident has]

theorem rowWhole {content text : Text} {item : Named} (line : LineIs content item.ident.line text)
    (has : item.ident.name <:+: text) (kind : Text) :
    AtName item.ident text (symbolRow content kind item) ↔
      Unseen content item.ident.name item.ident.line ∧ trim text = text ∧ text.length ≤ 240 := by
  rw [← storedWhole]
  constructor
  · rintro ⟨start,signature⟩
    have before := (lineUnseen line has).mp start
    have kept := ((rowStored line has kind).mpr before).2
    exact ⟨before,Option.some.inj (kept.symm.trans signature)⟩
  · rintro ⟨before,whole⟩
    have kept := (rowStored line has kind).mpr before
    rwa [whole] at kept

/-- What a row of a named item says of it. -/
def Locates (content : Text) (item : Named) (row : IndexedSymbolInsert) : Prop :=
  row.name = item.ident.name ∧ ∃ text, LineIs content item.ident.line text ∧
    (AtName item.ident (stored text) row ↔ Unseen content item.ident.name item.ident.line) ∧
    (AtName item.ident text row ↔
      Unseen content item.ident.name item.ident.line ∧ trim text = text ∧ text.length ≤ 240)

theorem itemsLocated {content : Text} : ∀ {items : List Item},
    (∀ item ∈ items.filterMap Item.named, ∃ text, LineIs content item.ident.line text ∧ item.ident.name <:+: text) →
    List.Forall₂ (Locates content) (items.filterMap Item.named) (items.flatMap fun item => (itemRows content item).symbols)
  | [],_ => .nil
  | item::items,reads => by
    obtain ⟨kind,rows⟩ := itemSymbol content item
    rw [List.flatMap_cons,rows]
    cases named : item.named with
    | none =>
      rw [List.filterMap_cons_none named] at reads ⊢
      exact itemsLocated reads
    | some known =>
      rw [List.filterMap_cons_some named] at reads ⊢
      obtain ⟨text,line,has⟩ := reads known List.mem_cons_self
      exact .cons ⟨rfl,text,line,rowStored line has kind,rowWhole line has kind⟩
        (itemsLocated fun other mem => reads other (List.mem_cons_of_mem _ mem))

/-- The row of a type stands where its symbol does. -/
theorem itemType {content : Text} {item : Item} {row : IndexedTypeInsert} (mem : row ∈ (itemRows content item).types) :
    ∃ symbol ∈ (itemRows content item).symbols,
      symbol.name = row.typeName ∧ symbol.kind = row.kind ∧ symbol.startLine = row.startLine := by
  cases item with
  | struct | enum | union =>
    cases List.mem_singleton.mp mem
    exact ⟨_,List.mem_singleton_self _,rfl,rfl,rfl⟩
  | _ => exact absurd mem List.not_mem_nil

/-- Each named item has a row, and the row stands at the line of the declaration exactly if no line
above it has the name in it, as a word or within another. -/
theorem locatedIff {parseFile : Text → Except Text File} (reads : ReadsNames parseFile) {content : Text} {file : File}
    (parsed : parseFile content = .ok file) :
    ∃ batch, extractRustSymbols parseFile content = .ok batch ∧
      List.Forall₂ (Locates content) (file.items.filterMap Item.named) batch.symbols ∧
      ∀ row ∈ batch.types, ∃ symbol ∈ batch.symbols,
        symbol.name = row.typeName ∧ symbol.kind = row.kind ∧ symbol.startLine = row.startLine := by
  refine ⟨_,extracted parsed,itemsLocated (reads content file parsed),fun row mem => ?_⟩
  obtain ⟨item,member,inside⟩ := List.mem_flatMap.mp mem
  obtain ⟨symbol,there,same⟩ := itemType inside
  exact ⟨symbol,List.mem_flatMap.mpr ⟨item,member,there⟩,same⟩

/-! A file with a comment above a function. -/

def commentedText : Text := "// run first\nfn run() {}\n".toList

def runItem : Named := ⟨⟨"run".toList,2,by decide,by decide⟩,.inherited⟩

def commentedParse (content : Text) : Except Text File :=
  if content = commentedText then .ok ⟨[.function runItem],[]⟩ else .error "expected an item".toList

theorem commentedParsed : commentedParse commentedText = .ok ⟨[.function runItem],[]⟩ := if_pos rfl

theorem commentedReads : ReadsNames commentedParse := by
  intro content file parsed item mem
  rw [commentedParse] at parsed
  split at parsed
  · rename_i same
    cases parsed
    cases List.mem_singleton.mp mem
    exact ⟨"fn run() {}".toList,⟨by decide,by rw [same]; decide⟩,"fn ".toList,"() {}".toList,rfl⟩
  · contradiction

theorem locatedIffCommented : ∃ batch, extractRustSymbols commentedParse commentedText = .ok batch ∧
    List.Forall₂ (Locates commentedText) [runItem] batch.symbols ∧
    ∀ row ∈ batch.types, ∃ symbol ∈ batch.symbols,
      symbol.name = row.typeName ∧ symbol.kind = row.kind ∧ symbol.startLine = row.startLine :=
  locatedIff commentedReads commentedParsed

/-- The comment is stored for the function. -/
theorem commentTaken : LineIs commentedText 2 "fn run() {}".toList ∧ runItem.ident.line = 2 ∧
    ∃ batch row, extractRustSymbols commentedParse commentedText = .ok batch ∧ batch.symbols = [row] ∧
      row.name = runItem.ident.name ∧ row.startLine = 1 ∧ row.signature = some "// run first".toList :=
  ⟨⟨by decide,by decide⟩,rfl,_,symbolRow commentedText "function".toList runItem,extracted commentedParsed,rfl,rfl,
    by decide,by decide⟩

end RustMcp.RustSymbols
