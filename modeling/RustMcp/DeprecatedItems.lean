import RustMcp.CanonicalPaths
import RustMcp.Deprecated
import RustMcp.RustdocSync

/-! From the items of a rustdoc crate to the rows of `crate_deprecated`: an item is extracted as a
symbol, as a type or as both, the extraction replaces what the version has, and the listing unites
the two tables. -/
namespace RustMcp.DeprecatedItems
open Str (Text)
open Utils Queries
open CanonicalPaths (Id RustdocVisibility)
open Deprecated (ItemRow ItemTable DeprecatedItemRow CrateDeprecatedRequest)

structure Deprecation where
  since : Option Text
  note : Option Text
  deriving DecidableEq

inductive ItemEnum where
  | moduleItem (items : List Id)
  | externCrate
  | useItem (id : Option Id) (isGlob : Bool)
  | structItem | structField | enumItem | variant | union | function | traitItem | traitAlias | implItem | typeAlias
  | constant | staticItem | externType | macroItem | procMacro | primitive | assocConst | assocType
  deriving DecidableEq

def itemEnumToKind : ItemEnum → Text
  | .moduleItem _ => "module".toList
  | .externCrate => "extern_crate".toList
  | .useItem _ _ => "use".toList
  | .structItem => "struct".toList
  | .structField => "struct_field".toList
  | .enumItem => "enum".toList
  | .variant => "variant".toList
  | .union => "union".toList
  | .function => "function".toList
  | .traitItem => "trait".toList
  | .traitAlias => "trait_alias".toList
  | .implItem => "impl".toList
  | .typeAlias => "type_alias".toList
  | .constant => "constant".toList
  | .staticItem => "static".toList
  | .externType => "extern_type".toList
  | .macroItem => "macro".toList
  | .procMacro => "proc_macro".toList
  | .primitive => "primitive".toList
  | .assocConst => "assoc_const".toList
  | .assocType => "assoc_type".toList

structure Item where
  name : Option Text
  visibility : RustdocVisibility
  docs : Option Text
  deprecation : Option Deprecation
  inner : ItemEnum
  deriving DecidableEq

def Item.pathItem (item : Item) : CanonicalPaths.Item where
  name := item.name
  visibility := item.visibility
  inner := match item.inner with
    | .moduleItem items => .moduleItem items
    | .useItem id isGlob => .useItem id isGlob
    | _ => .other

/-- Ids are of 32 bits. -/
structure RustdocCrate where
  index : Keyed.Table fun row : Id × Item => row.1
  paths : Keyed.Table fun row : Id × List Text => row.1
  ids : ∀ row ∈ index.rows, row.1 < 2 ^ 32

def RustdocCrate.pathCrate (krate : RustdocCrate) : CanonicalPaths.RustdocCrate where
  index := ⟨krate.index.rows.map fun row => (row.1,row.2.pathItem),by rw [List.map_map]; exact krate.index.unique⟩
  paths := krate.paths

/-! Extraction. -/

/-- The columns that the inserts of symbols and of types have in common. -/
structure IndexedInsert where
  name : Text
  kind : Text
  rustdocItemId : Int
  canonicalPath : Option Text
  deprecatedSince : Option Text
  deprecatedNote : Option Text
  docs : Option Text

structure IndexedExtractionBatch where
  symbols : List IndexedInsert
  types : List IndexedInsert

def asI32 (id : Id) : Int := if id < 2 ^ 31 then id else id - 2 ^ 32

section
variable (krate : RustdocCrate) (canonicalPaths : CanonicalPaths.Paths)

def insertOf (row : Id × Item) (name kind : Text) : IndexedInsert where
  name := name
  kind := kind
  rustdocItemId := asI32 row.1
  canonicalPath := canonicalPaths[row.1]?.or (CanonicalPaths.ownPath krate.pathCrate row.1)
  deprecatedSince := row.2.deprecation.bind Deprecation.since
  deprecatedNote := row.2.deprecation.bind Deprecation.note
  docs := row.2.docs

/-- The name under which the symbol extractor keeps an item. -/
def symbolName (item : Item) : Option Text :=
  match item.name with
  | none => none
  | some name =>
      if Str.trim name = [] then none
      else if ["module".toList,"use".toList,"extern_crate".toList].contains (itemEnumToKind item.inner) then none
      else some (Str.trim name)

def symbolOf (row : Id × Item) : Option IndexedInsert :=
  (symbolName row.2).map fun name => insertOf krate canonicalPaths row name (itemEnumToKind row.2.inner)

def extractSymbols : List IndexedInsert := krate.index.rows.filterMap (symbolOf krate canonicalPaths)

def typeNamed (kind : Text) (row : Id × Item) : IndexedInsert := insertOf krate canonicalPaths row (row.2.name.getD []) kind

def extractStruct (row : Id × Item) : IndexedInsert := typeNamed krate canonicalPaths "struct".toList row

def extractEnum (row : Id × Item) : IndexedInsert := typeNamed krate canonicalPaths "enum".toList row

def extractUnion (row : Id × Item) : IndexedInsert := typeNamed krate canonicalPaths "union".toList row

def extractTypeAlias (row : Id × Item) : IndexedInsert := typeNamed krate canonicalPaths "type_alias".toList row

def typeOf (row : Id × Item) : Option IndexedInsert :=
  match row.2.inner with
  | .structItem => some (extractStruct krate canonicalPaths row)
  | .enumItem => some (extractEnum krate canonicalPaths row)
  | .union => some (extractUnion krate canonicalPaths row)
  | .typeAlias => some (extractTypeAlias krate canonicalPaths row)
  | _ => none

def extractTypes : List IndexedInsert := krate.index.rows.filterMap (typeOf krate canonicalPaths)

end

def extractAll (krate : RustdocCrate) : IndexedExtractionBatch :=
  let canonicalPaths := CanonicalPaths.buildCanonicalPathMap krate.pathCrate
  ⟨extractSymbols krate canonicalPaths,extractTypes krate canonicalPaths⟩

/-- The same items are symbols here and in the sync. -/
theorem syncSymbol (krate : RustdocCrate) (canonicalPaths : CanonicalPaths.Paths) (row : Id × Item) :
    RustdocSync.symbolOf ⟨row.1,row.2.name,itemEnumToKind row.2.inner⟩ =
      (symbolOf krate canonicalPaths row).map fun x => ⟨x.name,x.kind,row.1⟩ := by
  unfold RustdocSync.symbolOf symbolOf symbolName
  cases row.2.name with
  | none => rfl
  | some name =>
    dsimp only
    split_ifs <;> rfl

/-! Storage. -/

structure IndexRow extends ItemRow where
  rustdocItemId : Option Int

def rustdocJson : Text := "rustdoc_json".toList

/-- `symbols` or `crate_types`: ids are those of a sequence, and from sources no deprecation is read. -/
structure IndexTable where
  rows : Keyed.Table fun row : IndexRow => row.id
  nextId : Nat
  below : ∀ row ∈ rows.rows, row.id < nextId
  enriched : ∀ row ∈ rows.rows, row.indexSource ≠ rustdocJson → row.deprecatedSince = none ∧ row.deprecatedNote = none

namespace IndexTable

variable (table : IndexTable) (crateVersionId : Nat)

def clear (indexSource : Text) : IndexTable where
  rows := table.rows.delete fun row => row.crateVersionId = crateVersionId && row.indexSource = indexSource
  nextId := table.nextId
  below row mem := table.below row (Keyed.Table.memDelete.mp mem).1
  enriched row mem := table.enriched row (Keyed.Table.memDelete.mp mem).1

def rowOf (id : Nat) (x : IndexedInsert) : IndexRow where
  id := id
  crateVersionId := crateVersionId
  name := x.name
  kind := x.kind
  deprecatedSince := x.deprecatedSince
  deprecatedNote := x.deprecatedNote
  canonicalPath := x.canonicalPath
  docs := x.docs
  indexSource := rustdocJson
  rustdocItemId := some x.rustdocItemId

/-- A version has one rustdoc row for each item. -/
def taken (x : IndexedInsert) : Bool := table.rows.rows.any fun row =>
  row.crateVersionId = crateVersionId && row.indexSource = rustdocJson && row.rustdocItemId = some x.rustdocItemId

def insert (x : IndexedInsert) : Option IndexTable :=
  if table.taken crateVersionId x then none
  else some {
    rows := ⟨table.rows.rows ++ [rowOf crateVersionId table.nextId x],by
      rw [List.map_append]
      refine List.nodup_append_comm.mp (List.nodup_cons.mpr ⟨fun mem => ?_,table.rows.unique⟩)
      obtain ⟨row,mem,same⟩ := List.mem_map.mp mem
      exact absurd same (Nat.ne_of_lt (table.below row mem))⟩
    nextId := table.nextId + 1
    below := fun row mem => by
      rcases List.mem_append.mp mem with mem | mem
      · exact Nat.lt_succ_of_lt (table.below row mem)
      · rw [List.mem_singleton.mp mem]
        exact Nat.lt_succ_self _
    enriched := fun row mem differ => by
      rcases List.mem_append.mp mem with mem | mem
      · exact table.enriched row mem differ
      · rw [List.mem_singleton.mp mem] at differ
        exact absurd rfl differ}

def insertAll (batch : List IndexedInsert) : Option IndexTable := batch.foldlM (fun table x => table.insert crateVersionId x) table

end IndexTable

structure IndexTables where
  symbols : IndexTable
  crateTypes : IndexTable

def replaceCrateVersionIndexRows (tables : IndexTables) (crateVersionId : Nat) (batch : IndexedExtractionBatch) :
    Option IndexTables := do
  let symbols ← (tables.symbols.clear crateVersionId rustdocJson).insertAll crateVersionId batch.symbols
  let crateTypes ← (tables.crateTypes.clear crateVersionId rustdocJson).insertAll crateVersionId batch.types
  return ⟨symbols,crateTypes⟩

def IndexTables.listed (tables : IndexTables) : Deprecated.Tables where
  symbols := tables.symbols.rows.rows.map IndexRow.toItemRow
  crateTypes := tables.crateTypes.rows.rows.map IndexRow.toItemRow
  symbolIds := by rw [List.map_map]; exact tables.symbols.rows.unique
  typeIds := by rw [List.map_map]; exact tables.crateTypes.rows.unique

def IndexTables.table (tables : IndexTables) : ItemTable → IndexTable
  | .symbols => tables.symbols
  | .crateTypes => tables.crateTypes

/-- The item that a row was extracted from. -/
def IndexTables.itemOf (tables : IndexTables) (shown : DeprecatedItemRow) : Option Int :=
  ((tables.table shown.table).rows.lookup shown.id).bind IndexRow.rustdocItemId

/-! Which items are listed. -/

def isType : ItemEnum → Bool
  | .structItem | .enumItem | .union | .typeAlias => true
  | _ => false

def keptDeprecated (item : Item) : Bool := (symbolName item).isSome && item.deprecation.isSome

/-- The attribute says since when, or has a note. -/
def stated (item : Item) : Bool := item.deprecation.any fun deprecation => deprecation.since.isSome || deprecation.note.isSome

def listed (item : Item) : Bool := stated item && ((symbolName item).isSome || isType item.inner)

/-- Page by page, in whatever order the queries have the rows that tie, each deprecated item that is
kept as a symbol has one row. -/
def ItemsOnce {C : Type} [LinearOrder C] (collate : Text → C) (krate : RustdocCrate) (tables : IndexTables) {lower : Text → Text}
    (index : Index lower) (waited : Waited) (request : CrateDeprecatedRequest) : Prop :=
  ∀ listing, Deprecated.Orders collate tables.listed listing → ∃ out, Deprecated.ReadsPages listing index waited request 1 out ∧
    ∀ row ∈ krate.index.rows, keptDeprecated row.2 → (out.filter fun shown => tables.itemOf shown = some (asI32 row.1)).length = 1

def itemKey {C : Type} [LinearOrder C] (collate : Text → C) (item : Item) : C ×ₗ C :=
  toLex (collate ((symbolName item).getD (item.name.getD [])),collate (itemEnumToKind item.inner))

structure Listable {C : Type} [LinearOrder C] (collate : Text → C) (krate : RustdocCrate) : Prop where
  said : ∀ row ∈ krate.index.rows, keptDeprecated row.2 → stated row.2
  single : ∀ row ∈ krate.index.rows, keptDeprecated row.2 → ¬isType row.2.inner
  apart : ∀ row ∈ krate.index.rows, ∀ other ∈ krate.index.rows, keptDeprecated row.2 → listed other.2 → row.1 ≠ other.1 →
    itemKey collate row.2 ≠ itemKey collate other.2
  few : (krate.index.rows.filter fun row => listed row.2).length < 2 ^ 32

/-! What the extraction inserts. -/

section
variable {krate : RustdocCrate} {canonicalPaths : CanonicalPaths.Paths}

theorem typeOfIsType (row : Id × Item) : typeOf krate canonicalPaths row =
    if isType row.2.inner then some (typeNamed krate canonicalPaths (itemEnumToKind row.2.inner) row) else none := by
  unfold typeOf
  cases row.2.inner <;> rfl

theorem idsApart {one other : Nat} (low : one < 2 ^ 32) (low' : other < 2 ^ 32) (same : asI32 one = asI32 other) : one = other := by
  unfold asI32 at same
  split_ifs at same <;> omega

theorem sameRow {row other : Id × Item} (mem : row ∈ krate.index.rows) (mem' : other ∈ krate.index.rows)
    (same : asI32 row.1 = asI32 other.1) : row = other :=
  List.inj_on_of_nodup_map krate.index.unique mem mem' (idsApart (krate.ids row mem) (krate.ids other mem') same)

/-- An extraction inserts at most one row for an item, with the item's id. -/
def Extracts (krate : RustdocCrate) (extract : Id × Item → Option IndexedInsert) : Prop :=
  ∀ row x, extract row = some x → x = insertOf krate (CanonicalPaths.buildCanonicalPathMap krate.pathCrate) row x.name
    (itemEnumToKind row.2.inner)

theorem symbolsExtract : Extracts krate (symbolOf krate (CanonicalPaths.buildCanonicalPathMap krate.pathCrate)) := by
  intro row x found
  obtain ⟨name,_,rfl⟩ := Option.map_eq_some_iff.mp found
  rfl

theorem typesExtract : Extracts krate (typeOf krate (CanonicalPaths.buildCanonicalPathMap krate.pathCrate)) := by
  intro row x found
  rw [typeOfIsType] at found
  split at found
  · cases found
    rfl
  · cases found

variable {extract : Id × Item → Option IndexedInsert}

theorem insertedIds (extracts : Extracts krate extract) (rows : List (Id × Item)) :
    ((rows.filterMap extract).map IndexedInsert.rustdocItemId).Sublist (rows.map fun row => asI32 row.1) := by
  induction rows with
  | nil => exact List.Sublist.slnil
  | cons row rows ih =>
    cases found : extract row with
    | none =>
      rw [List.filterMap_cons_none found]
      exact ih.cons _
    | some x =>
      rw [List.filterMap_cons_some found,List.map_cons,List.map_cons,extracts row x found]
      exact ih.cons_cons _

theorem insertedOnce (extracts : Extracts krate extract) :
    ((krate.index.rows.filterMap extract).map IndexedInsert.rustdocItemId).Nodup := by
  refine List.Nodup.sublist (insertedIds extracts _) ?_
  exact (List.Nodup.of_map _ krate.index.unique).map_on fun row mem other mem' same => sameRow mem mem' same

def shows (x : IndexedInsert) : Bool := x.deprecatedSince.isSome || x.deprecatedNote.isSome

@[simp] theorem insertOfId (row : Id × Item) (name kind : Text) :
    (insertOf krate canonicalPaths row name kind).rustdocItemId = asI32 row.1 := rfl

@[simp] theorem showsStated (row : Id × Item) (name kind : Text) : shows (insertOf krate canonicalPaths row name kind) = stated row.2 := by
  unfold shows insertOf stated
  cases row.2.deprecation <;> rfl

end

/-! What is stored. -/

namespace IndexTable

variable {table after : IndexTable} {crateVersionId : Nat} {batch : List IndexedInsert}

theorem insertAllRows (inserted : table.insertAll crateVersionId batch = some after) :
    after.rows.rows = table.rows.rows ++ (batch.zipIdx table.nextId).map fun numbered => rowOf crateVersionId numbered.2 numbered.1 := by
  induction batch generalizing table with
  | nil =>
    cases inserted
    simp
  | cons x batch ih =>
    obtain ⟨next,step,rest⟩ := Option.bind_eq_some_iff.mp inserted
    change table.insert crateVersionId x = some next at step
    unfold insert at step
    split at step
    · cases step
    · cases step
      rw [ih rest,List.zipIdx_cons,List.map_cons,List.append_assoc]
      rfl

theorem insertAllReturns (once : (batch.map IndexedInsert.rustdocItemId).Nodup) (free : ∀ x ∈ batch, table.taken crateVersionId x = false) :
    ∃ after, table.insertAll crateVersionId batch = some after := by
  induction batch generalizing table with
  | nil => exact ⟨table,rfl⟩
  | cons x batch ih =>
    obtain ⟨fresh,once⟩ := List.nodup_cons.mp once
    have step : ∃ next, table.insert crateVersionId x = some next ∧
        next.rows.rows = table.rows.rows ++ [rowOf crateVersionId table.nextId x] := by
      unfold insert
      rw [if_neg (by rw [free x List.mem_cons_self]; exact Bool.false_ne_true)]
      exact ⟨_,rfl,rfl⟩
    obtain ⟨next,step,rows⟩ := step
    have later : ∀ y ∈ batch, next.taken crateVersionId y = false := by
      intro y mem
      have differ : x.rustdocItemId ≠ y.rustdocItemId := fun same => fresh (same ▸ List.mem_map_of_mem mem)
      have earlier := free y (List.mem_cons_of_mem x mem)
      unfold taken at earlier ⊢
      rw [rows,List.any_append,earlier]
      simp [rowOf,differ]
    obtain ⟨after,rest⟩ := ih once later
    exact ⟨after,Option.bind_eq_some_iff.mpr ⟨next,step,rest⟩⟩

theorem clearedFree (table : IndexTable) (crateVersionId : Nat) (x : IndexedInsert) :
    (table.clear crateVersionId rustdocJson).taken crateVersionId x = false := by
  refine List.any_eq_false.mpr fun row mem holds => ?_
  have kept := (Keyed.Table.memDelete.mp mem).2
  simp only [Bool.and_eq_true,decide_eq_true_eq] at holds
  simp [holds.1.1,holds.1.2] at kept

/-- What is left of the version has no deprecations. -/
theorem clearedPlain (row : IndexRow) (mem : row ∈ (table.clear crateVersionId rustdocJson).rows.rows) :
    Deprecated.isDeprecated crateVersionId row.toItemRow = false := by
  obtain ⟨before,kept⟩ := Keyed.Table.memDelete.mp mem
  by_cases own : row.crateVersionId = crateVersionId
  · have foreign : row.indexSource ≠ rustdocJson := fun rustdoc => by simp [own,rustdoc] at kept
    obtain ⟨since,note⟩ := table.enriched row before foreign
    simp [Deprecated.isDeprecated,since,note]
  · simp [Deprecated.isDeprecated,own]

/-- The deprecated rows of the version are among those of the batch. -/
def Filled (table : IndexTable) (crateVersionId : Nat) (batch : List IndexedInsert) : Prop :=
  ∃ earlier first, table.rows.rows = earlier ++ (batch.zipIdx first).map (fun numbered => rowOf crateVersionId numbered.2 numbered.1) ∧
    ∀ row ∈ earlier, Deprecated.isDeprecated crateVersionId row.toItemRow = false

theorem refilled (table : IndexTable) (crateVersionId : Nat) (once : (batch.map IndexedInsert.rustdocItemId).Nodup) :
    ∃ after, (table.clear crateVersionId rustdocJson).insertAll crateVersionId batch = some after ∧ after.Filled crateVersionId batch := by
  obtain ⟨after,inserted⟩ := insertAllReturns once fun x _ => clearedFree table crateVersionId x
  exact ⟨after,inserted,_,_,insertAllRows inserted,clearedPlain⟩

end IndexTable

theorem replaced (tables : IndexTables) (crateVersionId : Nat) (krate : RustdocCrate) :
    ∃ after, replaceCrateVersionIndexRows tables crateVersionId (extractAll krate) = some after ∧
      after.symbols.Filled crateVersionId (extractAll krate).symbols ∧ after.crateTypes.Filled crateVersionId (extractAll krate).types := by
  obtain ⟨symbols,first,filled⟩ := tables.symbols.refilled crateVersionId (insertedOnce symbolsExtract)
  obtain ⟨types,second,filled'⟩ := tables.crateTypes.refilled crateVersionId (insertedOnce typesExtract)
  exact ⟨⟨symbols,types⟩,Option.bind_eq_some_iff.mpr ⟨symbols,first,Option.bind_eq_some_iff.mpr ⟨types,second,rfl⟩⟩,filled,filled'⟩

/-! What is listed. -/

section
variable {tables : IndexTables} {crateVersionId : Nat} {krate : RustdocCrate} {origin : ItemTable} {batch : List IndexedInsert}

theorem itemOfRow {row : IndexRow} (mem : row ∈ (tables.table origin).rows.rows) :
    tables.itemOf ⟨row.toItemRow,origin⟩ = row.rustdocItemId := by
  unfold IndexTables.itemOf
  rw [Keyed.Table.lookupIff.mpr ⟨mem,rfl⟩,Option.bind_some]

def part (tables : IndexTables) (crateVersionId : Nat) (origin : ItemTable) : List DeprecatedItemRow :=
  (((tables.table origin).rows.rows.map IndexRow.toItemRow).filter (Deprecated.isDeprecated crateVersionId)).map fun row => ⟨row,origin⟩

theorem listedParts : Deprecated.deprecatedRows tables.listed crateVersionId =
    part tables crateVersionId .symbols ++ part tables crateVersionId .crateTypes := rfl

theorem partCount (origin : ItemTable) (filled : (tables.table origin).Filled crateVersionId batch) (counts : Option Int → Bool) :
    (part tables crateVersionId origin).countP (fun shown => counts (tables.itemOf shown)) =
      batch.countP fun x => shows x && counts (some x.rustdocItemId) := by
  obtain ⟨earlier,first,rows,plain⟩ := filled
  have direct : (part tables crateVersionId origin).countP (fun shown => counts (tables.itemOf shown)) =
      (tables.table origin).rows.rows.countP fun row =>
        Deprecated.isDeprecated crateVersionId row.toItemRow && counts row.rustdocItemId := by
    unfold part
    rw [List.filter_map,List.map_map,List.countP_map,List.countP_filter]
    refine List.countP_congr fun row mem => ?_
    simp only [Function.comp_apply,itemOfRow mem,Bool.and_comm]
  rw [direct,rows,List.countP_append,List.countP_map]
  have none_ : earlier.countP (fun row => Deprecated.isDeprecated crateVersionId row.toItemRow && counts row.rustdocItemId) = 0 :=
    List.countP_eq_zero.mpr fun row mem => by simp [plain row mem]
  rw [none_,Nat.zero_add]
  conv_rhs => rw [← List.zipIdx_map_fst first batch,List.countP_map]
  refine List.countP_congr fun numbered _ => ?_
  simp [Deprecated.isDeprecated,IndexTable.rowOf,shows]

theorem memPart (origin : ItemTable) (filled : (tables.table origin).Filled crateVersionId batch) {shown : DeprecatedItemRow}
    (mem : shown ∈ part tables crateVersionId origin) :
    ∃ x ∈ batch, shows x ∧ shown.name = x.name ∧ shown.kind = x.kind ∧ tables.itemOf shown = some x.rustdocItemId := by
  obtain ⟨earlier,first,rows,plain⟩ := filled
  unfold part at mem
  rw [List.filter_map,List.map_map] at mem
  obtain ⟨row,inside,rfl⟩ := List.mem_map.mp mem
  obtain ⟨stored,deprecated⟩ := List.mem_filter.mp inside
  have item := itemOfRow stored
  rw [rows] at stored
  rcases List.mem_append.mp stored with old | new
  · have bare : Deprecated.isDeprecated crateVersionId row.toItemRow = true := deprecated
    rw [plain row old] at bare
    cases bare
  · obtain ⟨numbered,listed_,rfl⟩ := List.mem_map.mp new
    refine ⟨numbered.1,List.fst_mem_of_mem_zipIdx listed_,?_,rfl,rfl,item⟩
    simpa [Deprecated.isDeprecated,IndexTable.rowOf,shows] using deprecated

structure Stored (krate : RustdocCrate) (crateVersionId : Nat) (tables : IndexTables) : Prop where
  symbols : tables.symbols.Filled crateVersionId (extractAll krate).symbols
  types : tables.crateTypes.Filled crateVersionId (extractAll krate).types

variable (stored : Stored krate crateVersionId tables)

def asSymbol (item : Item) : Bool := (symbolName item).isSome && stated item

def asType (item : Item) : Bool := isType item.inner && stated item

theorem listedEither (item : Item) : listed item = (asSymbol item || asType item) := by
  unfold listed asSymbol asType
  cases stated item <;> simp

include stored in
/-- An item is listed from each table that it is in. -/
theorem listedCount (counts : Option Int → Bool) :
    (Deprecated.deprecatedRows tables.listed crateVersionId).countP (fun shown => counts (tables.itemOf shown)) =
      krate.index.rows.countP (fun row => asSymbol row.2 && counts (some (asI32 row.1))) +
        krate.index.rows.countP fun row => asType row.2 && counts (some (asI32 row.1)) := by
  rw [listedParts,List.countP_append,partCount .symbols stored.symbols,partCount .crateTypes stored.types]
  unfold extractAll extractSymbols extractTypes
  dsimp only
  rw [List.countP_filterMap,List.countP_filterMap]
  congr 1
  · refine List.countP_congr fun row _ => ?_
    rw [symbolOf,asSymbol]
    cases symbolName row.2 with
    | none => rfl
    | some name => simp
  · refine List.countP_congr fun row _ => ?_
    rw [typeOfIsType,asType]
    cases isType row.2.inner with
    | false => rfl
    | true => simp [typeNamed]

theorem ownCount {row : Id × Item} (mem : row ∈ krate.index.rows) (p : Item → Bool) :
    (krate.index.rows.countP fun other => p other.2 && decide (some (asI32 other.1) = some (asI32 row.1))) =
      if p row.2 then 1 else 0 := by
  have own : ∀ other ∈ krate.index.rows, (p other.2 && decide (some (asI32 other.1) = some (asI32 row.1))) = true ↔
      (p row.2 && (other == row)) = true := by
    intro other mem'
    simp only [Bool.and_eq_true,decide_eq_true_eq,Option.some.injEq,beq_iff_eq]
    constructor
    · rintro ⟨holds,same⟩
      cases sameRow mem' mem same
      exact ⟨holds,rfl⟩
    · rintro ⟨holds,rfl⟩
      exact ⟨holds,rfl⟩
  rw [List.countP_congr own]
  cases p row.2 with
  | false => simp
  | true =>
    simp only [Bool.true_and,if_true]
    exact List.count_eq_one_of_mem (List.Nodup.of_map _ krate.index.unique) mem

include stored in
theorem rowsOfItem {row : Id × Item} (mem : row ∈ krate.index.rows) :
    ((Deprecated.deprecatedRows tables.listed crateVersionId).filter fun shown => tables.itemOf shown = some (asI32 row.1)).length =
      (if asSymbol row.2 then 1 else 0) + if asType row.2 then 1 else 0 := by
  rw [← List.countP_eq_length_filter,listedCount stored fun item => decide (item = some (asI32 row.1)),ownCount mem asSymbol,
    ownCount mem asType]

include stored in
/-- Every row that is listed is that of an item. -/
theorem shownItem {shown : DeprecatedItemRow} (mem : shown ∈ Deprecated.deprecatedRows tables.listed crateVersionId) :
    ∃ row ∈ krate.index.rows, tables.itemOf shown = some (asI32 row.1) ∧ shown.kind = itemEnumToKind row.2.inner ∧
      ((symbolName row.2 = some shown.name ∧ stated row.2) ∨ (asType row.2 ∧ shown.name = row.2.name.getD [])) := by
  rw [listedParts] at mem
  rcases List.mem_append.mp mem with mem | mem
  · obtain ⟨x,inside,holds,named,kind,item⟩ := memPart .symbols stored.symbols mem
    obtain ⟨row,member,found⟩ := List.mem_filterMap.mp inside
    have shape := symbolsExtract row x found
    obtain ⟨name,kept,rfl⟩ := Option.map_eq_some_iff.mp found
    refine ⟨row,member,item,kind,Or.inl ⟨?_,?_⟩⟩
    · rw [named]
      exact kept
    · rwa [showsStated] at holds
  · obtain ⟨x,inside,holds,named,kind,item⟩ := memPart .crateTypes stored.types mem
    obtain ⟨row,member,found⟩ := List.mem_filterMap.mp inside
    rw [typeOfIsType] at found
    split at found
    · rename_i type
      cases found
      rw [typeNamed,showsStated] at holds
      exact ⟨row,member,item,kind,Or.inr ⟨Bool.and_eq_true_iff.mpr ⟨type,holds⟩,named⟩⟩
    · cases found

include stored in
theorem itemShown {row : Id × Item} (mem : row ∈ krate.index.rows) (listed_ : listed row.2) :
    ∃ shown ∈ Deprecated.deprecatedRows tables.listed crateVersionId, tables.itemOf shown = some (asI32 row.1) := by
  have some_ : 0 < (if asSymbol row.2 then 1 else 0) + if asType row.2 then 1 else 0 := by
    rw [listedEither] at listed_
    rcases Bool.or_eq_true_iff.mp listed_ with symbol | type
    · rw [if_pos symbol]
      exact Nat.add_pos_left Nat.one_pos _
    · rw [if_pos type]
      exact Nat.succ_pos _
  rw [← rowsOfItem stored mem] at some_
  obtain ⟨shown,inside⟩ := List.exists_mem_of_length_pos some_
  obtain ⟨member,own⟩ := List.mem_filter.mp inside
  exact ⟨shown,member,of_decide_eq_true own⟩

end

/-! The items that are asked for. -/

section
variable {C : Type} [LinearOrder C] {collate : Text → C} {krate : RustdocCrate} {tables : IndexTables} {crateVersionId : Nat}

def Wanted (krate : RustdocCrate) (id : Int) : Prop := ∃ row ∈ krate.index.rows, keptDeprecated row.2 ∧ asI32 row.1 = id

theorem statedDeprecated {item : Item} (said : stated item) : item.deprecation.isSome := by
  unfold stated at said
  cases found : item.deprecation with
  | none =>
    rw [found] at said
    cases said
  | some _ => rfl

/-- A deprecated item that is kept has one row just when the attribute says something and it is no type. -/
theorem oneRowIff {item : Item} (asked : keptDeprecated item) :
    (if asSymbol item then 1 else 0) + (if asType item then 1 else 0) = 1 ↔ stated item ∧ ¬isType item.inner := by
  have kept : (symbolName item).isSome = true := (Bool.and_eq_true_iff.mp asked).1
  unfold asSymbol asType
  rw [kept]
  cases stated item <;> cases isType item.inner <;> simp

theorem notBoth (single : ∀ row ∈ krate.index.rows, keptDeprecated row.2 → ¬isType row.2.inner) {row : Id × Item}
    (mem : row ∈ krate.index.rows) : ¬(asSymbol row.2 ∧ asType row.2) := by
  rintro ⟨symbol,type⟩
  obtain ⟨kept,said⟩ := Bool.and_eq_true_iff.mp symbol
  exact single row mem (Bool.and_eq_true_iff.mpr ⟨kept,statedDeprecated said⟩) (Bool.and_eq_true_iff.mp type).1

theorem keyOfShown (single : ∀ row ∈ krate.index.rows, keptDeprecated row.2 → ¬isType row.2.inner) {row : Id × Item}
    (mem : row ∈ krate.index.rows) {shown : DeprecatedItemRow} (kind : shown.kind = itemEnumToKind row.2.inner)
    (named : (symbolName row.2 = some shown.name ∧ stated row.2) ∨ (asType row.2 ∧ shown.name = row.2.name.getD [])) :
    Deprecated.listOrder collate shown = itemKey collate row.2 := by
  unfold Deprecated.listOrder itemKey
  rw [kind]
  rcases named with ⟨symbol,_⟩ | ⟨type,raw⟩
  · rw [symbol,Option.getD_some]
  · cases symbol : symbolName row.2 with
    | none => rw [raw,Option.getD_none]
    | some name =>
      have both : asSymbol row.2 := by
        rw [asSymbol,symbol]
        exact (Bool.and_eq_true_iff.mp type).2
      exact absurd ⟨both,type⟩ (notBoth single mem)

theorem countEither {α : Type} {p q : α → Bool} (xs : List α) (apart : ∀ x ∈ xs, ¬(p x ∧ q x)) :
    xs.countP p + xs.countP q = xs.countP fun x => p x || q x := by
  induction xs with
  | nil => rfl
  | cons x xs ih =>
    have rest := ih fun y mem => apart y (List.mem_cons_of_mem x mem)
    have here := apart x List.mem_cons_self
    have sum : ∀ b c : Bool, ¬(b ∧ c) → (if b then 1 else 0) + (if c then 1 else 0) = if (b || c) then 1 else 0 := by decide
    rw [List.countP_cons,List.countP_cons,List.countP_cons,← rest,← sum (p x) (q x) here]
    omega

theorem rowsAsMany (stored : Stored krate crateVersionId tables)
    (single : ∀ row ∈ krate.index.rows, keptDeprecated row.2 → ¬isType row.2.inner) :
    (Deprecated.deprecatedRows tables.listed crateVersionId).length = (krate.index.rows.filter fun row => listed row.2).length := by
  have all := listedCount stored fun _ => true
  simp only [Bool.and_true,List.countP_true] at all
  rw [all,countEither (p := fun row : Id × Item => asSymbol row.2) krate.index.rows fun row mem => notBoth single mem,
    List.countP_eq_length_filter]
  exact congrArg List.length (List.filter_congr fun row _ => (listedEither row.2).symm)

/-- The key of a row that is shown for an item. -/
theorem shownKey (stored : Stored krate crateVersionId tables)
    (single : ∀ row ∈ krate.index.rows, keptDeprecated row.2 → ¬isType row.2.inner) {row : Id × Item} (mem : row ∈ krate.index.rows)
    {shown : DeprecatedItemRow} (inside : shown ∈ Deprecated.deprecatedRows tables.listed crateVersionId)
    (item : tables.itemOf shown = some (asI32 row.1)) : Deprecated.listOrder collate shown = itemKey collate row.2 := by
  obtain ⟨source,member,origin,kind,named⟩ := shownItem stored inside
  cases sameRow member mem (Option.some.inj (origin.symm.trans item))
  exact keyOfShown single mem kind named

/-- Where the rows have keys of their own, so have the items. -/
theorem itemsApart (stored : Stored krate crateVersionId tables) (said : ∀ row ∈ krate.index.rows, keptDeprecated row.2 → stated row.2)
    (single : ∀ row ∈ krate.index.rows, keptDeprecated row.2 → ¬isType row.2.inner)
    (apart : TiedPages.LabelsApart (Deprecated.listOrder collate) tables.itemOf (Wanted krate)
      (Deprecated.deprecatedRows tables.listed crateVersionId)) :
    ∀ row ∈ krate.index.rows, ∀ other ∈ krate.index.rows, keptDeprecated row.2 → listed other.2 → row.1 ≠ other.1 →
      itemKey collate row.2 ≠ itemKey collate other.2 := by
  intro row mem other mem' asked listed_ differ same
  have own : listed row.2 := by
    rw [listed,said row mem asked,(Bool.and_eq_true_iff.mp asked).1]
    rfl
  obtain ⟨shown,inside,item⟩ := itemShown stored mem own
  obtain ⟨shown',inside',item'⟩ := itemShown stored mem' listed_
  have tied : Deprecated.listOrder collate shown = Deprecated.listOrder collate shown' := by
    rw [shownKey stored single mem inside item,shownKey stored single mem' inside' item',same]
  cases apart shown inside shown' inside' _ ⟨row,mem,asked,rfl⟩ item tied
  exact differ (congrArg Prod.fst (sameRow mem mem' (Option.some.inj (item.symm.trans item'))))

/-- Where the items have keys of their own, so have the rows, as each item has one. -/
theorem rowsApart (stored : Stored krate crateVersionId tables)
    (labels : TiedPages.LabelsOnce tables.itemOf (Wanted krate) (Deprecated.deprecatedRows tables.listed crateVersionId))
    (listable : Listable collate krate) :
    TiedPages.LabelsApart (Deprecated.listOrder collate) tables.itemOf (Wanted krate)
      (Deprecated.deprecatedRows tables.listed crateVersionId) := by
  rintro shown inside shown' inside' id ⟨row,mem,asked,rfl⟩ item tied
  obtain ⟨other,member',origin',kind',named'⟩ := shownItem stored inside'
  by_cases same : row.1 = other.1
  · -- both are rows of the one item, which has one
    have own : tables.itemOf shown' = some (asI32 row.1) := same ▸ origin'
    obtain ⟨only,rows⟩ := List.length_eq_one_iff.mp (labels _ ⟨row,mem,asked,rfl⟩)
    have alone {shown : DeprecatedItemRow} (inside : shown ∈ Deprecated.deprecatedRows tables.listed crateVersionId)
        (item : tables.itemOf shown = some (asI32 row.1)) : shown = only := by
      refine List.mem_singleton.mp (rows ▸ List.mem_filter.mpr ⟨inside,?_⟩)
      exact decide_eq_true item
    exact (alone inside item).trans (alone inside' own).symm
  · have shown_ : listed other.2 := by
      rw [listedEither]
      rcases named' with ⟨symbol,said'⟩ | ⟨type,_⟩
      · rw [asSymbol,symbol,said']
        rfl
      · rw [type,Bool.or_true]
    refine absurd ?_ (listable.apart row mem other member' asked shown_ same)
    rw [← shownKey stored listable.single mem inside item,← keyOfShown listable.single member' kind' named',tied]

theorem listableIff (stored : Stored krate crateVersionId tables) :
    TiedPages.LabelsOnce tables.itemOf (Wanted krate) (Deprecated.deprecatedRows tables.listed crateVersionId) ∧
      TiedPages.LabelsApart (Deprecated.listOrder collate) tables.itemOf (Wanted krate)
        (Deprecated.deprecatedRows tables.listed crateVersionId) ∧
      (Deprecated.deprecatedRows tables.listed crateVersionId).length < 2 ^ 32 ↔ Listable collate krate := by
  have one (row : Id × Item) (mem : row ∈ krate.index.rows) (asked : keptDeprecated row.2) :
      ((Deprecated.deprecatedRows tables.listed crateVersionId).filter fun shown => tables.itemOf shown = some (asI32 row.1)).length =
        1 ↔ stated row.2 ∧ ¬isType row.2.inner := by
    rw [rowsOfItem stored mem]
    exact oneRowIff asked
  constructor
  · rintro ⟨labels,apart,few⟩
    have each (row : Id × Item) (mem : row ∈ krate.index.rows) (asked : keptDeprecated row.2) :=
      (one row mem asked).mp (labels _ ⟨row,mem,asked,rfl⟩)
    have said := fun row mem asked => (each row mem asked).1
    have single := fun row mem asked => (each row mem asked).2
    refine ⟨said,single,itemsApart stored said single apart,?_⟩
    rw [← rowsAsMany stored single]
    exact few
  · intro listable
    have labels : TiedPages.LabelsOnce tables.itemOf (Wanted krate) (Deprecated.deprecatedRows tables.listed crateVersionId) := by
      rintro id ⟨row,mem,asked,rfl⟩
      exact (one row mem asked).mpr ⟨listable.said row mem asked,listable.single row mem asked⟩
    exact ⟨labels,rowsApart stored labels listable,by rw [rowsAsMany stored listable.single]; exact listable.few⟩

variable {lower : Text → Text} {index : Index lower} {waited : Waited} {request : CrateDeprecatedRequest} {ctx : CrateContext}
  {selected : CrateVersionRow}

theorem itemsLabels : ItemsOnce collate krate tables index waited request ↔
    Deprecated.LabelsOnce collate tables.listed index waited request tables.itemOf (Wanted krate) := by
  refine forall_congr' fun listing => imp_congr_right fun _ => exists_congr fun out => and_congr_right fun _ => ?_
  constructor
  · rintro once id ⟨row,mem,asked,rfl⟩
    exact once row mem asked
  · intro once row mem asked
    exact once _ ⟨row,mem,asked,rfl⟩

theorem itemsNeed (opens : Deprecated.Opens index waited request ctx selected) (stored : Stored krate selected.id tables)
    (page : Deprecated.limitOf request = 1) (once : ItemsOnce collate krate tables index waited request) : Listable collate krate :=
  (listableIff stored).mp (Deprecated.labelsNeed opens page (itemsLabels.mp once))

end

/-- Whatever the version had: once a rustdoc crate is ingested, with every page size each deprecated item
that is kept as a symbol has one row, just when the attribute of each says since when or why, none is a
struct, enum, union or type alias, and none has the name and the kind of another item that is listed. -/
theorem itemsOnceIff {C : Type} [LinearOrder C] (collate : Text → C) (tables : IndexTables) (krate : RustdocCrate)
    {lower : Text → Text} {index : Index lower} {waited : Waited} {request : CrateDeprecatedRequest} {ctx : CrateContext}
    {selected : CrateVersionRow} (opens : Deprecated.Opens index waited request ctx selected) :
    ∃ after, replaceCrateVersionIndexRows tables selected.id (extractAll krate) = some after ∧
      ((∀ limit, ItemsOnce collate krate after index waited {request with limit := limit}) ↔ Listable collate krate) := by
  obtain ⟨after,ingested,symbols,types⟩ := replaced tables selected.id krate
  have stored : Stored krate selected.id after := ⟨symbols,types⟩
  refine ⟨after,ingested,?_⟩
  rw [← listableIff stored,← Deprecated.labelsEverySizeIff opens]
  exact forall_congr' fun limit => itemsLabels

def oldItem (name : Text) (inner : ItemEnum) (deprecation : Deprecation) : Item := ⟨some name,.public_,none,some deprecation,inner⟩

def demoCrate (items : List Item) (few : items.length < 2 ^ 32) : RustdocCrate where
  index := ⟨items.zipIdx.map fun numbered => (numbered.2,numbered.1),by
    rw [List.map_map,show (fun row : Id × Item => row.1) ∘ (fun numbered : Item × Nat => (numbered.2,numbered.1)) = Prod.snd from rfl,
      List.zipIdx_map_snd]
    exact List.nodup_range'⟩
  paths := ⟨[],List.nodup_nil⟩
  ids row mem := by
    obtain ⟨numbered,inside,rfl⟩ := List.mem_map.mp mem
    have low := List.snd_lt_of_mem_zipIdx inside
    exact lt_of_lt_of_le low few.le

def demoSelected : CrateVersionRow := ⟨7,1,"1.0.0".toList,some 5⟩

def demoIndex : Index Str.toAsciiLowercase where
  crates := ⟨[⟨1,"legacy".toList⟩],by decide⟩
  versions := [demoSelected]
  sourceFiles := []
  symbols := []
  types := []
  impls := []

def noRows : IndexTables :=
  ⟨⟨⟨[],List.nodup_nil⟩,1,by simp,by simp⟩,⟨⟨[],List.nodup_nil⟩,1,by simp,by simp⟩⟩

def demoRequest : CrateDeprecatedRequest := ⟨"legacy".toList,none,none,none⟩

theorem demoOpens (limit : Option Nat) : Deprecated.Opens demoIndex (fun _ => none) {demoRequest with limit := limit}
    ⟨⟨1,"legacy".toList⟩,demoSelected⟩ demoSelected where
  named := by change Str.trim "legacy".toList ≠ []; decide
  found := rfl
  resolved := rfl

def twoFunctions : RustdocCrate :=
  demoCrate [oldItem "open".toList .function ⟨some "1.1".toList,none⟩,oldItem "close".toList .function ⟨none,some "drop it".toList⟩]
    (by decide)

theorem itemsOnceIffFunctions : ∃ after, replaceCrateVersionIndexRows noRows demoSelected.id (extractAll twoFunctions) = some after ∧
    ∀ limit, ItemsOnce (id : Text → Text) twoFunctions after demoIndex (fun _ => none) {demoRequest with limit := limit} := by
  obtain ⟨after,ingested,iff⟩ := itemsOnceIff (id : Text → Text) noRows twoFunctions (demoOpens none)
  exact ⟨after,ingested,iff.mpr ⟨by decide +kernel,by decide +kernel,by decide +kernel,by decide +kernel⟩⟩

/-- A deprecated struct has a row from either table, and a function with the bare attribute has none. -/
theorem structTwice :
    let struct := demoCrate [oldItem "Handle".toList .structItem ⟨some "1.1".toList,none⟩] (by decide)
    let bare := demoCrate [oldItem "open".toList .function ⟨none,none⟩] (by decide)
    (∃ after, replaceCrateVersionIndexRows noRows demoSelected.id (extractAll struct) = some after ∧
      ¬ItemsOnce (id : Text → Text) struct after demoIndex (fun _ => none) {demoRequest with limit := some 1}) ∧
    ∃ after, replaceCrateVersionIndexRows noRows demoSelected.id (extractAll bare) = some after ∧
      ¬ItemsOnce (id : Text → Text) bare after demoIndex (fun _ => none) {demoRequest with limit := some 1} := by
  intro struct bare
  have fails (krate : RustdocCrate) (never : ¬Listable (id : Text → Text) krate) :
      ∃ after, replaceCrateVersionIndexRows noRows demoSelected.id (extractAll krate) = some after ∧
        ¬ItemsOnce (id : Text → Text) krate after demoIndex (fun _ => none) {demoRequest with limit := some 1} := by
    obtain ⟨after,ingested,symbols,types⟩ := replaced noRows demoSelected.id krate
    exact ⟨after,ingested,fun once => never (itemsNeed (demoOpens (some 1)) ⟨symbols,types⟩ rfl once)⟩
  refine ⟨fails struct fun listable => ?_,fails bare fun listable => ?_⟩
  · exact listable.single (0,oldItem "Handle".toList .structItem ⟨some "1.1".toList,none⟩) List.mem_cons_self (by decide) rfl
  · have said := listable.said (0,oldItem "open".toList .function ⟨none,none⟩) List.mem_cons_self (by decide)
    cases said

end RustMcp.DeprecatedItems
