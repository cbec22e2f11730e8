import RustMcp.TraitImpls

/-! `crate_type_info`: of the impl rows of a type one is kept for each identity, which is
the one of `crate_trait_impls`; inherent impls come first here. -/
namespace RustMcp.TypeInfo
open Str (Text)
open Utils
open TraitImpls (CrateImplLookupRow ImplMethodEntry implRowIdentity implRowPriority listedRows)

def inherentKind : Text := "inherent".toList

def implKindRank (kind : Text) : Nat :=
  if kind = inherentKind then 0 else if kind = "derive".toList then 1 else 2

def responseOrder (row : CrateImplLookupRow) : Nat ×ₗ Nat ×ₗ Text ×ₗ Int ×ₗ Int :=
  toLex (implKindRank row.implKind,toLex (if row.indexSource = .rustdocJson then 0 else 1,
    toLex (row.typeName,toLex (row.startLine,row.endLine))))

/-- `walk` is the order in which the hash map yields its values. -/
def prioritizeImplRows (walk : List CrateImplLookupRow → List CrateImplLookupRow) (rows : List CrateImplLookupRow) :
    List CrateImplLookupRow :=
  Ranking.sortBy responseOrder (walk (Paging.distinct implRowIdentity implRowPriority rows))

structure CrateTypeInfoRequest where
  crateName : Text
  typeName : Text
  includeMethods : Option Bool
  includeTraitImpls : Option Bool

/-- What of the response is made of impl rows; a trait impl shows the fields of its row. -/
structure CrateTypeInfoResponse where
  typeName : Text
  includeMethods : Bool
  includeTraitImpls : Bool
  inherentMethods : List ImplMethodEntry
  traitImpls : List CrateImplLookupRow

section
variable {C : Type} [LinearOrder C] (lower : Text → Text) (collate : Text → C)
  (walk : List CrateImplLookupRow → List CrateImplLookupRow)

def typeRows (typeName : Text) (rows : List CrateImplLookupRow) : List CrateImplLookupRow :=
  listedRows lower collate none (some typeName) rows

def handleCrateTypeInfo (request : CrateTypeInfoRequest) (rows : List CrateImplLookupRow) : Except Text CrateTypeInfoResponse := do
  let _ ← normalizeRequired request.crateName "crate_name".toList
  let typeName ← normalizeRequired request.typeName "type_name".toList
  let includeMethods := request.includeMethods.getD true
  let includeTraitImpls := request.includeTraitImpls.getD true
  let implRows := prioritizeImplRows walk (typeRows lower collate typeName rows)
  return {
    typeName := typeName
    includeMethods := includeMethods
    includeTraitImpls := includeTraitImpls
    inherentMethods := if includeMethods then (implRows.filter (·.implKind = inherentKind)).flatMap (·.methods) else []
    traitImpls := if includeTraitImpls then implRows.filter (·.implKind ≠ inherentKind) else []}

end

section
variable {C : Type} [LinearOrder C] {lower : Text → Text} {collate : Text → C}
  {walk : List CrateImplLookupRow → List CrateImplLookupRow}

theorem memPrioritized (each : ∀ rows, (walk rows).Perm rows) {rows : List CrateImplLookupRow} {row : CrateImplLookupRow} :
    row ∈ prioritizeImplRows walk rows ↔ Paging.First implRowIdentity implRowPriority rows row := by
  rw [prioritizeImplRows,Ranking.memSortBy,(each _).mem_iff,Paging.memDistinct]

/-- Every row has one that is kept for its identity. -/
theorem keptFor (rows : List CrateImplLookupRow) {row : CrateImplLookupRow} (mem : row ∈ rows) :
    ∃ kept, Paging.First implRowIdentity implRowPriority rows kept ∧ implRowIdentity kept = implRowIdentity row := by
  have exact_ : Paging.Exact implRowIdentity implRowPriority rows (Paging.distinct implRowIdentity implRowPriority rows) :=
    Paging.distinctExact rows
  obtain ⟨kept,inside,same,_⟩ := exact_.all row mem
  exact ⟨kept,Paging.memDistinct.mp inside,same⟩

/-- Rows that describe different blocks have different identities. -/
def Apart {B : Type} (block : CrateImplLookupRow → B) (rows : List CrateImplLookupRow) : Prop :=
  ∀ row ∈ rows, ∀ other ∈ rows, implRowIdentity other = implRowIdentity row → block other = block row

theorem collapsedApart {B : Type} (block : CrateImplLookupRow → B) (rows : List CrateImplLookupRow) :
    (∀ row ∈ rows, ∀ kept, Paging.First implRowIdentity implRowPriority rows kept →
      implRowIdentity kept = implRowIdentity row → block kept = block row) ↔ Apart block rows := by
  constructor
  · intro collapsed row mem other mem' same
    obtain ⟨kept,first,identity⟩ := keptFor rows mem
    rw [← collapsed row mem kept first identity,collapsed other mem' kept first (identity.trans same.symm)]
  · rintro apart row mem kept ⟨_,_,rfl,_⟩ same
    exact apart row mem kept (by simp) same

theorem memMethods (each : ∀ rows, (walk rows).Perm rows) {request : CrateTypeInfoRequest} {rows : List CrateImplLookupRow}
    {response : CrateTypeInfoResponse} (answer : handleCrateTypeInfo lower collate walk request rows = .ok response)
    (included : request.includeMethods.getD true = true) {entry : ImplMethodEntry} :
    entry ∈ response.inherentMethods ↔
      ∃ kept, Paging.First implRowIdentity implRowPriority (typeRows lower collate (Str.trim request.typeName) rows) kept ∧
        kept.implKind = inherentKind ∧ entry ∈ kept.methods := by
  unfold handleCrateTypeInfo normalizeRequired at answer
  split at answer
  · cases answer
  · split at answer
    · cases answer
    · cases answer
      simp only [included,if_true,List.mem_flatMap,List.mem_filter,memPrioritized each,decide_eq_true_eq]
      exact exists_congr fun kept => and_assoc

/-- Each method of an inherent row stands, by its name, in one that is kept. -/
def MethodsKept (rows : List CrateImplLookupRow) : Prop :=
  ∀ row ∈ rows, row.implKind = inherentKind → ∀ m ∈ row.methods,
    ∃ kept, Paging.First implRowIdentity implRowPriority rows kept ∧ kept.implKind = inherentKind ∧ ∃ e ∈ kept.methods, e.name = m.name

theorem methodsListedIff {B : Type} (each : ∀ rows, (walk rows).Perm rows) (block : CrateImplLookupRow → B)
    {request : CrateTypeInfoRequest} {rows : List CrateImplLookupRow} {response : CrateTypeInfoResponse}
    (answer : handleCrateTypeInfo lower collate walk request rows = .ok response)
    (included : request.includeMethods.getD true = true) :
    let listed := typeRows lower collate (Str.trim request.typeName) rows
    ((∀ row ∈ listed, row.implKind = inherentKind → ∀ m ∈ row.methods, ∃ e ∈ response.inherentMethods, e.name = m.name) ∧
      ∀ row ∈ listed, ∀ kept ∈ prioritizeImplRows walk listed,
        implRowIdentity kept = implRowIdentity row → block kept = block row) ↔
    MethodsKept listed ∧ Apart block listed := by
  intro listed
  refine and_congr ?_ ?_
  · have methods (name : Text) : (∃ e ∈ response.inherentMethods, e.name = name) ↔
        ∃ kept, Paging.First implRowIdentity implRowPriority listed kept ∧ kept.implKind = inherentKind ∧
          ∃ e ∈ kept.methods, e.name = name := by
      simp only [memMethods each answer included]
      constructor
      · rintro ⟨e,⟨kept,first,inherent,inside⟩,same⟩
        exact ⟨kept,first,inherent,e,inside,same⟩
      · rintro ⟨kept,first,inherent,e,inside,same⟩
        exact ⟨e,⟨kept,first,inherent,inside⟩,same⟩
    simp only [methods,MethodsKept]
  · rw [← collapsedApart block listed]
    simp only [memPrioritized each]

end

/-- A block of `Foo` with one method, as the syntax tree has it. -/
def fooBlock (method : Text) (startLine : Int) : CrateImplLookupRow :=
  ⟨"Foo".toList,none,none,none,inherentKind,[⟨method,"fn ".toList ++ method⟩],false,false,false,none,[],[],none,
    "src/lib.rs".toList,startLine,startLine + 2,.syn⟩

def fooRequest : CrateTypeInfoRequest := ⟨"demo".toList,"Foo".toList,none,none⟩

/-- A block in the words of both sources, which name its type differently. -/
def twiceDescribed : List CrateImplLookupRow :=
  [fooBlock "new".toList 3,
    {fooBlock "new".toList 3 with typeNameDisplay := some "Foo".toList,indexSource := .rustdocJson}]

theorem methodsListedIffTwice :
    ∃ response, handleCrateTypeInfo Str.toAsciiLowercase (id : Text → Text) id fooRequest twiceDescribed = .ok response ∧
      ∃ e ∈ response.inherentMethods, e.name = "new".toList := by
  refine ⟨_,rfl,?_⟩
  have answer : handleCrateTypeInfo Str.toAsciiLowercase (id : Text → Text) id fooRequest twiceDescribed = .ok _ := rfl
  have listed : typeRows Str.toAsciiLowercase (id : Text → Text) "Foo".toList twiceDescribed = twiceDescribed.reverse := by
    decide +kernel
  have complete := methodsListedIff (fun _ => List.Perm.refl _) CrateImplLookupRow.startLine answer rfl
  rw [show Str.trim fooRequest.typeName = "Foo".toList from rfl,listed] at complete
  refine (complete.mpr ⟨fun row mem inherent m inside => ?_,by unfold Apart; decide⟩).1 (fooBlock "new".toList 3) (by decide) rfl
    ⟨"new".toList,"fn new".toList⟩ (by decide)
  refine ⟨row,?_,inherent,m,inside,rfl⟩
  rcases List.mem_pair.mp mem with rfl | rfl
  · exact ⟨[],_,rfl,by simp,by decide⟩
  · exact ⟨[_],[],rfl,by decide,by simp⟩

/-- Of two blocks of one type, the methods of the first are listed and those of the second are not. -/
theorem secondBlockLost :
    let rows := [fooBlock "new".toList 3,fooBlock "len".toList 9]
    ∃ response, handleCrateTypeInfo Str.toAsciiLowercase (id : Text → Text) id fooRequest rows = .ok response ∧
      (∃ row ∈ typeRows Str.toAsciiLowercase (id : Text → Text) "Foo".toList rows, row.implKind = inherentKind ∧
        ⟨"len".toList,"fn len".toList⟩ ∈ row.methods) ∧
      response.inherentMethods.map (·.name) = ["new".toList] := by
  refine ⟨_,rfl,?_,?_⟩
  · decide +kernel
  · decide +kernel

end RustMcp.TypeInfo
