import RustMcp.RustSymbols

/-! The `impl` that is reported around a line of a file. An impl is stored with the line where one
of its methods is first named, and with no end; the nearest one above the line is reported. -/
namespace RustMcp.ImplContext
open Str
open SourceIndex RustSymbols

abbrev Files := IndexedFiles IndexedSymbolInsert IndexedTypeInsert IndexedImplInsert

/-! The code. -/

structure SourceContextImplBlock where
  typeName : Text
  typeNameDisplay : Option Text
  traitName : Option Text
  traitNameDisplay : Option Text
  implKind : Text
  sourceLine : Nat
  deriving DecidableEq

/-- `crate_impls` of one file of the version. -/
def implRows (files : Files) (path : Text) : List IndexedImplInsert :=
  ((files.lookup path).map fun row => row.indexRows.impls).getD []

/-- The row that starts last, of those that start no later than the line. Of rows that start on one
line the database returns any. -/
inductive FetchContainingImpl (files : Files) (path : Text) (line : Nat) : Option IndexedImplInsert → Prop where
  | none (absent : ∀ row ∈ implRows files path, line < row.startLine) : FetchContainingImpl files path line none
  | some {row : IndexedImplInsert} (mem : row ∈ implRows files path) (above : row.startLine ≤ line)
      (nearest : ∀ other ∈ implRows files path, other.startLine ≤ line → other.startLine ≤ row.startLine) :
      FetchContainingImpl files path line (some row)

def resolvedLine (content : Text) (line : Nat) : Nat := max 1 (min line (max 1 (lines content).length))

def containingImpl (line : Nat) (found : Option IndexedImplInsert) : Option SourceContextImplBlock :=
  (found.filter fun row => line - row.startLine ≤ 200).map fun row =>
    ⟨row.typeName,row.typeNameDisplay,row.traitName,row.traitNameDisplay,row.implKind,row.startLine⟩

/-- What may be fetched and reported at a line. -/
def SourceContextImpl (files : Files) (path content : Text) (line : Nat) (found : Option IndexedImplInsert)
    (reported : Option SourceContextImplBlock) : Prop :=
  FetchContainingImpl files path (resolvedLine content line) found ∧ reported = containingImpl (resolvedLine content line) found

/-! The blocks of a file, and where each is placed. -/

def HasLine (extent : Extent) (line : Nat) : Prop := extent.first ≤ line ∧ line ≤ extent.last

def lineCount (extent : Extent) : Nat := extent.last + 1 - extent.first

/-- A derive has no block. -/
def extentOf : Item → Option Extent
  | .impl block => some block.extent
  | _ => none

/-- All impl blocks of the file. -/
def implBlocks (file : File) : List Extent := file.items.filterMap extentOf ++ file.innerImpls

def methodNames (items : List ImplItem) : List Text :=
  items.filterMap fun
    | .fn ident _ => some ident
    | .other => none

def typeOf : Item → Option (Named × List Attribute)
  | .struct item _ _ attrs | .enum item _ _ attrs | .union item _ _ attrs => some (item,attrs)
  | _ => none

/-- `Placed content item place`: an impl of the item is placed at this line. -/
inductive Placed (content : Text) : Item → Nat → Prop where
  /-- the first line that has `fn ` and the name of one of the methods in it -/
  | methods {block : ImplBlock} {typeName name : Text} {place : Nat} (terminal : extractTypeTerminalName block.selfTy = some typeName)
      (mem : name ∈ methodNames block.items) (first : FirstWith content ("fn ".toList ++ name) place)
      (least : ∀ other ∈ methodNames block.items, ∀ n, FirstWith content ("fn ".toList ++ other) n → place ≤ n) :
      Placed content (.impl block) place
  | bare {block : ImplBlock} {typeName : Text} {place : Nat} (terminal : extractTypeTerminalName block.selfTy = some typeName)
      (none_ : methodNames block.items = []) (first : FirstWith content typeName place) : Placed content (.impl block) place
  | derived {item : Item} {named : Named} {attrs : List Attribute} {place : Nat} (type : typeOf item = some (named,attrs))
      (derives : deriveTraits attrs ≠ []) (first : FirstWith content named.ident.name place) : Placed content item place

theorem entriesNames (content : Text) (items : List ImplItem) :
    (methodEntries content items).map MethodEntry.name = methodNames items := by
  rw [methodEntries,methodNames,List.map_filterMap]
  exact List.filterMap_congr fun item _ => by cases item <;> rfl

/-- The start line of a block: the least over the methods. -/
theorem implStart {content : Text} {block : ImplBlock} {row : IndexedImplInsert} (stored : implRow content block = some row) :
    Placed content (.impl block) row.startLine := by
  obtain ⟨typeName,terminal,same⟩ := Option.map_eq_some_iff.mp stored
  subst same
  have lines : (methodEntries content block.items).map (fun method => lineForMethodName content method.name) =
      (methodNames block.items).map (lineForMethodName content) := by
    rw [← entriesNames content,List.map_map]
    rfl
  dsimp only
  rw [lines]
  cases least : ((methodNames block.items).map (lineForMethodName content)).min? with
  | none =>
    have none_ : methodNames block.items = [] := List.map_eq_nil_iff.mp (List.min?_eq_none_iff.mp least)
    exact .bare terminal none_ (firstLine content typeName)
  | some place =>
    obtain ⟨mem,below⟩ := List.min?_eq_some_iff.mp least
    obtain ⟨name,member,here⟩ := List.mem_map.mp mem
    refine .methods terminal member (here ▸ firstLine content _) fun other mem' n first => ?_
    rw [← lineIff.mpr first]
    exact below _ (List.mem_map_of_mem mem')

theorem placedUnique {content : Text} {item : Item} {place place' : Nat} (here : Placed content item place)
    (there : Placed content item place') : place = place' := by
  cases here with
  | methods _ mem first least =>
    cases there with
    | methods _ mem' first' least' => exact Nat.le_antisymm (least _ mem' place' first') (least' _ mem place first)
    | bare _ none_ _ => exact absurd (none_ ▸ mem) List.not_mem_nil
    | derived type _ _ => contradiction
  | bare terminal none_ first =>
    cases there with
    | methods _ mem _ _ => exact absurd (none_ ▸ mem) List.not_mem_nil
    | bare terminal' _ first' =>
      cases Option.some.inj (terminal.symm.trans terminal')
      exact firstUnique first first'
    | derived type _ _ => contradiction
  | derived type _ first =>
    cases there with
    | methods | bare => contradiction
    | derived type' _ first' =>
      cases Option.some.inj (type.symm.trans type')
      exact firstUnique first first'

/-- The impls of a type are its derives. -/
theorem typeImpls {item : Item} {named : Named} {attrs : List Attribute} (content : Text) (type : typeOf item = some (named,attrs)) :
    (itemRows content item).impls = deriveImpls content named attrs := by
  cases item with
  | struct | enum | union =>
    cases Option.some.inj type
    rfl
  | _ => contradiction

theorem rowPlaced {content : Text} {item : Item} {row : IndexedImplInsert} (mem : row ∈ (itemRows content item).impls) :
    Placed content item row.startLine := by
  cases type : typeOf item with
  | some pair =>
    obtain ⟨named,attrs⟩ := pair
    rw [typeImpls content type] at mem
    obtain ⟨derive,member,same⟩ := List.mem_map.mp mem
    subst same
    exact .derived type (List.ne_nil_of_mem member) (firstLine content named.ident.name)
  | none =>
    cases item with
    | impl block => exact implStart (Option.mem_toList.mp mem)
    | struct | enum | union => contradiction
    | _ => exact absurd mem List.not_mem_nil

theorem placedRow {content : Text} {item : Item} {place : Nat} (placed : Placed content item place) :
    ∃ row ∈ (itemRows content item).impls, row.startLine = place := by
  have some_ : ∃ row, row ∈ (itemRows content item).impls := by
    cases placed with
    | methods terminal | bare terminal => exact ⟨_,Option.mem_toList.mpr (Option.map_eq_some_iff.mpr ⟨_,terminal,rfl⟩)⟩
    | derived type derives =>
      rw [typeImpls content type]
      exact List.exists_mem_of_ne_nil _ (mt List.map_eq_nil_iff.mp derives)
  obtain ⟨row,mem⟩ := some_
  exact ⟨row,mem,placedUnique (rowPlaced mem) placed⟩

/-! The file's rows, each with the block that it is of. -/

def rowsOf (content : Text) (items : List Item) : List (Option Extent × IndexedImplInsert) :=
  items.flatMap fun item => (itemRows content item).impls.map fun row => (extentOf item,row)

theorem rowsSecond (content : Text) (items : List Item) :
    (rowsOf content items).map Prod.snd = items.flatMap fun item => (itemRows content item).impls := by
  rw [rowsOf,List.map_flatMap]
  exact List.flatMap_congr fun item _ => by simp [Function.comp_def]

theorem rowsMem {content : Text} {items : List Item} {extent : Option Extent} {row : IndexedImplInsert} :
    (extent,row) ∈ rowsOf content items ↔ ∃ item ∈ items, row ∈ (itemRows content item).impls ∧ extentOf item = extent := by
  simp [rowsOf,List.mem_flatMap]

/-- The file is indexed, with this content. -/
structure Indexed (parseFile : Text → Except Text File) (files : Files) (path content : Text) (file : File) : Prop where
  parsed : parseFile content = .ok file
  current : ∃ row, files.lookup path = some row ∧
    row.indexRows = extractedRows IndexedTypeInsert.key (extractRustSymbols parseFile) content

/-- So it is once it has been extracted. -/
theorem indexedExtracted {parseFile : Text → Except Text File} {files : Files} {scanned : ScannedFile} {file : File}
    (parsed : parseFile scanned.content = .ok file) (extracted_ : extracts files scanned = true) :
    Indexed parseFile (indexFile IndexedTypeInsert.key (extractRustSymbols parseFile) files scanned) scanned.relativePath
      scanned.content file := by
  obtain ⟨row,held,-⟩ := recordHeld files scanned
  refine ⟨parsed,{row with indexRows := extractedRows IndexedTypeInsert.key (extractRustSymbols parseFile) scanned.content},?_,rfl⟩
  rw [indexFile,if_pos extracted_,extractedRows,extracted parsed]
  exact replaceOwn held

theorem indexedRows {parseFile : Text → Except Text File} {files : Files} {path content : Text} {file : File}
    (indexed : Indexed parseFile files path content file) : implRows files path = (rowsOf content file.items).map Prod.snd := by
  obtain ⟨parsed,row,found,current⟩ := indexed
  rw [implRows,found,Option.map_some,Option.getD_some,current,extractedRows,extracted parsed,rowsSecond]
  rfl

/-- What is fetched, there is always. -/
theorem fetchedSome (files : Files) (path : Text) (line : Nat) : ∃ found, FetchContainingImpl files path line found := by
  cases last : ((implRows files path).filter fun row => row.startLine ≤ line).argmax IndexedImplInsert.startLine with
  | none =>
    have absent := List.filter_eq_nil_iff.mp (List.argmax_eq_none.mp last)
    exact ⟨none,.none fun row mem => by simpa using absent row mem⟩
  | some row =>
    obtain ⟨mem,above⟩ := List.mem_filter.mp (List.argmax_mem last)
    refine ⟨some row,.some mem (of_decide_eq_true above) fun other member before => ?_⟩
    exact List.le_of_mem_argmax (List.mem_filter.mpr ⟨member,decide_eq_true before⟩) last

theorem reportedWithin {line : Nat} {found : Option IndexedImplInsert} :
    containingImpl line found ≠ none ↔ ∃ row, found = some row ∧ line ≤ row.startLine + 200 := by
  cases found with
  | none => simp [containingImpl]
  | some row => by_cases near : line - row.startLine ≤ 200 <;> simp [containingImpl,Option.filter,near] <;> omega

/-! Which lines are answered. -/

/-- Whatever is fetched: what is reported is a block around the line, and where a block of at most 200
lines is around it, something is reported. -/
structure Answered (files : Files) (path content : Text) (file : File) (line : Nat) : Prop where
  inside : ∀ found reported, SourceContextImpl files path content line found reported → reported ≠ none →
    ∀ row ∈ found, ∀ extent, (extent,row) ∈ rowsOf content file.items → ∃ block ∈ extent, HasLine block line
  some_ : ∀ found reported, SourceContextImpl files path content line found reported →
    ∀ block ∈ implBlocks file, HasLine block line → lineCount block ≤ 200 → reported ≠ none

/-- The places within the 200 lines up to this one decide: the nearest are of blocks around the line,
or there are none, and no block of at most 200 lines around it either. -/
structure NearestAround (content : Text) (file : File) (line : Nat) : Prop where
  around : ∀ item ∈ file.items, ∀ place, Placed content item place → place ≤ line → line ≤ place + 200 →
    (∀ rival ∈ file.items, ∀ place', Placed content rival place' → place' ≤ line → place' ≤ place) →
    ∃ block ∈ extentOf item, HasLine block line
  alone : (∀ item ∈ file.items, ∀ place, Placed content item place → place ≤ line → place + 200 < line) →
    ∀ block ∈ implBlocks file, HasLine block line → 200 < lineCount block

theorem resolvedInside {content : Text} {line : Nat} (first : 1 ≤ line) (last : line ≤ (lines content).length) :
    resolvedLine content line = line := by
  rw [resolvedLine]
  omega

section
variable {parseFile : Text → Except Text File} {files : Files} {path content : Text} {file : File}

theorem implRowsMem (indexed : Indexed parseFile files path content file) {row : IndexedImplInsert} :
    row ∈ implRows files path ↔ ∃ item ∈ file.items, row ∈ (itemRows content item).impls := by
  rw [indexedRows indexed,rowsSecond]
  exact List.mem_flatMap

/-- The nearest row is one of a nearest place. -/
theorem nearestRow (indexed : Indexed parseFile files path content file) {item : Item} {row : IndexedImplInsert} {line : Nat}
    (member : item ∈ file.items) (mem : row ∈ (itemRows content item).impls) (above : row.startLine ≤ line) :
    FetchContainingImpl files path line (some row) ↔
      ∀ rival ∈ file.items, ∀ place, Placed content rival place → place ≤ line → place ≤ row.startLine := by
  constructor
  · rintro (_ | ⟨_,_,nearest⟩) rival there place placed before
    obtain ⟨row',mem',rfl⟩ := placedRow placed
    exact nearest row' ((implRowsMem indexed).mpr ⟨rival,there,mem'⟩) before
  · intro nearest
    refine .some ((implRowsMem indexed).mpr ⟨item,member,mem⟩) above fun row' mem' before => ?_
    obtain ⟨rival,there,inside⟩ := (implRowsMem indexed).mp mem'
    exact nearest rival there row'.startLine (rowPlaced inside) before

section
variable (indexed : Indexed parseFile files path content file) {line : Nat} (here : resolvedLine content line = line)
include indexed here

theorem nearestAround (answered : Answered files path content file line) : NearestAround content file line where
  around := by
    intro item member place placed above near nearest
    obtain ⟨row,mem,rfl⟩ := placedRow placed
    have fetched := (nearestRow indexed member mem above).mpr nearest
    exact answered.inside (some row) _ ⟨here.symm ▸ fetched,rfl⟩ (reportedWithin.mpr ⟨row,rfl,here.symm ▸ near⟩) row rfl _
      (rowsMem.mpr ⟨item,member,mem,rfl⟩)
  alone := by
    intro far block mem around
    by_contra short
    obtain ⟨found,fetched⟩ := fetchedSome files path line
    obtain ⟨row,same,near⟩ := reportedWithin.mp
      (answered.some_ found _ ⟨here.symm ▸ fetched,rfl⟩ block mem around (Nat.le_of_not_lt short))
    subst same
    rw [here] at near
    cases fetched with
    | some mem above _ =>
      obtain ⟨item,member,inside⟩ := (implRowsMem indexed).mp mem
      have away := far item member row.startLine (rowPlaced inside) above
      omega

theorem answeredAround (nearest : NearestAround content file line) : Answered files path content file line where
  inside := by
    rintro found _ ⟨fetched,rfl⟩ reported row same extent mem
    cases Option.mem_def.mp same
    obtain ⟨item,member,inside,rfl⟩ := rowsMem.mp mem
    rw [here] at fetched reported
    obtain ⟨_,same,near⟩ := reportedWithin.mp reported
    cases same
    cases fetched with
    | some mem' above last =>
      exact nearest.around item member row.startLine (rowPlaced inside) above near
        ((nearestRow indexed member inside above).mp (.some mem' above last))
  some_ := by
    rintro found _ ⟨fetched,rfl⟩ block mem has short missing
    rw [here] at fetched missing
    refine absurd (nearest.alone (fun item member place placed before => ?_) block mem has) (by omega)
    obtain ⟨row,inside,rfl⟩ := placedRow placed
    have listed := (implRowsMem indexed).mpr ⟨item,member,inside⟩
    cases fetched with
    | none absent => exact absurd (absent row listed) (by omega)
    | some _ _ last =>
      have below := last row listed before
      have far := mt (fun near => reportedWithin.mpr ⟨_,rfl,near⟩) (not_not.mpr missing)
      omega

end

theorem containingIff (indexed : Indexed parseFile files path content file) {line : Nat} (first : 1 ≤ line)
    (last : line ≤ (lines content).length) : Answered files path content file line ↔ NearestAround content file line :=
  ⟨nearestAround indexed (resolvedInside first last),answeredAround indexed (resolvedInside first last)⟩

end

/-! A function behind an impl. -/

def behindText : Text := "struct A;\nimpl A \x7b\n    fn f() \x7b\x7d\n\x7d\nfn g() \x7b\x7d\n".toList

def behindBlock : ImplBlock := ⟨.path ["A".toList],"A".toList,none,[.fn "f".toList "fn f ()".toList],⟨2,4⟩⟩

def behindFile : File :=
  ⟨[.struct ⟨⟨"A".toList,1,by decide,by decide⟩,.inherited⟩ [] [] [],.impl behindBlock,
    .function ⟨⟨"g".toList,5,by decide,by decide⟩,.inherited⟩],[]⟩

def behindParse (content : Text) : Except Text File :=
  if content = behindText then .ok behindFile else .error "expected an item".toList

def behindFiles : Files where
  rows := [⟨LocalCache.sourceFileRow ⟨"src/lib.rs".toList,"c0".toList,51,some "rust".toList⟩,
    extractedRows IndexedTypeInsert.key (extractRustSymbols behindParse) behindText⟩]
  unique := by decide

theorem behindIndexed : Indexed behindParse behindFiles "src/lib.rs".toList behindText behindFile :=
  ⟨if_pos rfl,_,rfl,rfl⟩

def behindRow : IndexedImplInsert :=
  ⟨"A".toList,some "A".toList,none,none,"inherent".toList,[⟨"f".toList,some "fn f() {}".toList⟩],3,3⟩

theorem behindRows : rowsOf behindText behindFile.items = [(some ⟨2,4⟩,behindRow)] := by decide +kernel

theorem containingIffBehind : Answered behindFiles "src/lib.rs".toList behindText behindFile 5 ↔ NearestAround behindText behindFile 5 :=
  containingIff behindIndexed (by decide) (by decide)

/-- The function is reported to be in the impl above it. -/
theorem functionBehind : SourceContextImpl behindFiles "src/lib.rs".toList behindText 5 (some behindRow)
      (some ⟨"A".toList,some "A".toList,none,none,"inherent".toList,3⟩) ∧
    ¬HasLine behindBlock.extent 5 ∧ ¬Answered behindFiles "src/lib.rs".toList behindText behindFile 5 := by
  have rows : implRows behindFiles "src/lib.rs".toList = [behindRow] := by rw [indexedRows behindIndexed,behindRows]; rfl
  have fetched : SourceContextImpl behindFiles "src/lib.rs".toList behindText 5 (some behindRow)
      (some ⟨"A".toList,some "A".toList,none,none,"inherent".toList,3⟩) := by
    refine ⟨?_,by decide⟩
    rw [resolvedInside (by decide) (by decide)]
    refine .some (rows ▸ List.mem_singleton_self _) (by decide) fun row mem _ => ?_
    rw [rows] at mem
    cases List.mem_singleton.mp mem
    exact le_rfl
  refine ⟨fetched,fun around => absurd around.2 (by decide),fun answered => ?_⟩
  obtain ⟨block,same,around⟩ := answered.inside _ _ fetched (by simp) behindRow rfl (some ⟨2,4⟩) (behindRows ▸ List.mem_singleton_self _)
  cases Option.mem_def.mp same
  exact absurd around.2 (by decide)

end RustMcp.ImplContext
