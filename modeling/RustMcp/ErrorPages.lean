import RustMcp.ErrorTypes
import RustMcp.Paging

/-! The pages of `crate_error_types`: offsets count candidates, pages count the entries of
those that have a type row. -/
namespace RustMcp.ErrorPages
open Str (Text)
open Utils Queries ErrorTypes

def shownEntry {E : Type} (typeRow : Text → Option ErrorTypeTypeRow) (entry : Text → ErrorTypeTypeRow → E) (candidate : Text) :
    Option E :=
  (typeRow candidate).map (entry candidate)

theorem collectsFrom {E : Type} {typeRow : Text → Option ErrorTypeTypeRow} {entry : Text → ErrorTypeTypeRow → E}
    {offset limit : Nat} (candidates : List Text) : ∀ {index : Nat} {errorTypes : List E}, errorTypes.length ≤ limit + 1 →
    collectErrorTypes typeRow entry offset limit index errorTypes candidates =
      (errorTypes ++ (candidates.drop (offset - index)).filterMap (shownEntry typeRow entry)).take (limit + 1) := by
  induction candidates with
  | nil =>
    intro index errorTypes short
    simp [collectErrorTypes,List.take_of_length_le short]
  | cons candidate rest ih =>
    intro index errorTypes short
    unfold collectErrorTypes
    split
    · rename_i before
      rw [ih short,show offset - index = (offset - (index + 1)) + 1 by omega,List.drop_succ_cons]
    · rename_i within
      have zero : offset - index = 0 := by omega
      have zero' : offset - (index + 1) = 0 := by omega
      rw [zero,List.drop_zero]
      split
      · rename_i full
        rw [List.take_left' (by omega)]
      · rename_i room
        cases row : typeRow candidate with
        | none =>
          rw [List.filterMap_cons_none (by rw [shownEntry,row]; rfl)]
          simp only
          rw [ih short,zero',List.drop_zero]
        | some row_ =>
          rw [List.filterMap_cons_some (show shownEntry typeRow entry candidate = some (entry candidate row_) by rw [shownEntry,row]; rfl)]
          simp only
          rw [ih (by rw [List.length_append,List.length_singleton]; omega),zero',List.drop_zero,List.append_assoc]
          rfl

section
variable {C D : Type} [LinearOrder C] {lower : Text → Text} (collate : Text → C) (index : Index lower) (dirs : SourceDirs D)
  (contents : Contents D) (waited : Waited) (request : CrateErrorTypesRequest) (ctx : CrateContext) (selected : CrateVersionRow)

def answer (cursor : Option CrateErrorTypesCursorToken) : Option (Paging.Page CrateErrorTypesCursorToken CrateErrorTypeEntry) :=
  (handleCrateErrorTypes collate index dirs contents waited {request with cursor := cursor}).toOption.map fun response =>
    ⟨response.errorTypes,response.hasMore,response.nextCursor⟩

def tokenAt (offset : Nat) : CrateErrorTypesCursorToken :=
  ⟨⟨offset,errorTypesLimit request.limit⟩,1,Str.trim request.crateName,normalizeOptional request.version,
    normalizeOptional request.typeName⟩

/-- A request for the first page, of a crate version that is found and indexed. -/
structure Opens : Prop where
  named : Str.trim request.crateName ≠ []
  first : syncPage request.page = 1
  found : fetchCrateContext index waited (Str.trim request.crateName) = .ok ctx
  resolved : resolveVersionOrLatest index ctx (normalizeOptional request.version) = .ok selected
  indexed : ensureRustdocIndexed index waited (Str.trim request.crateName) selected.id = .ok ()

def typeRows : List ErrorTypeTypeRow := listErrorTypeRows collate selected.id index.types

/-- The candidates of the version, in the order in which they are walked. -/
def candidates : List Text :=
  candidateNames (normalizeOptional request.typeName) (typeRows collate index selected) (listErrorImplRows selected.id index.impls)

def hasTypeRow (candidate : Text) : Bool := (typeByName (typeRows collate index selected) candidate).isSome

/-- The entry of a candidate that has a type row. -/
def candidateEntry (candidate : Text) : Option CrateErrorTypeEntry :=
  shownEntry (typeByName (typeRows collate index selected))
    (errorTypeEntry collate index selected.id (readOrEmpty dirs contents (Str.trim request.crateName) selected.version)
      (listErrorImplRows selected.id index.impls)) candidate

variable {index waited request ctx selected}

theorem limitBounds (limit : Option Nat) : 0 < errorTypesLimit limit := (clampBounds (by decide) _).1

theorem pageCut (query : ErrorTypesQuery) (crateRow : CrateCoreRow) (selected : CrateVersionRow) (found : List CrateErrorTypeEntry) :
    let page := errorTypesPage query crateRow selected found
    (⟨page.errorTypes,page.hasMore,page.nextCursor⟩ : Paging.Page CrateErrorTypesCursorToken CrateErrorTypeEntry) =
      Paging.cutPage found query.pag.limit
        ⟨⟨saturatingAdd query.pag.offset query.pag.limit,query.pag.limit⟩,1,query.crateName,query.version,query.typeName⟩ :=
  Paging.cutWritten found query.pag.limit _

theorem entriesOnce : ((candidates collate index request selected).filterMap
    (candidateEntry collate index dirs contents request selected)).Nodup := by
  have once : (candidates collate index request selected).Nodup :=
    (Ranking.sortByPerm _ _).nodup_iff.mpr (List.nodup_dedup _)
  refine once.filterMap fun one other entry mem mem' => ?_
  obtain ⟨_,_,rfl⟩ := Option.map_eq_some_iff.mp mem
  obtain ⟨_,_,same⟩ := Option.map_eq_some_iff.mp mem'
  exact (congrArg CrateErrorTypeEntry.typeName same).symm

theorem answeredAt (opens : Opens index waited request ctx selected) {cursor : Option CrateErrorTypesCursorToken} {offset : Nat}
    (stands : Paging.StandsAt (tokenAt request) cursor offset) :
    answer collate index dirs contents waited request cursor =
      some (Paging.cutPage ((((candidates collate index request selected).drop offset).filterMap
        (candidateEntry collate index dirs contents request selected)).take (errorTypesLimit request.limit + 1))
        (errorTypesLimit request.limit) (tokenAt request (min (offset + errorTypesLimit request.limit) (2 ^ 32 - 1)))) := by
  have some_ := limitBounds request.limit
  have name := requiredNamed "crate_name".toList opens.named
  obtain ⟨effective,paginated⟩ : ∃ effective, resolvePagination (cursor.map (·.toCursorToken)) request.limit.isSome
      (errorTypesLimit request.limit) (syncPage request.page) = .ok ⟨offset,errorTypesLimit request.limit,effective⟩ :=
    paginatedAt opens.first (stands.map CrateErrorTypesCursorToken.toCursorToken)
  have checked : checkedPage {request with cursor := cursor} (Str.trim request.crateName) =
      .ok ⟨offset,errorTypesLimit request.limit,effective⟩ := by
    rcases stands with ⟨rfl,rfl⟩ | rfl
    · exact paginated
    · have passes := cursorPasses some_
      have matched : checkToken (tokenAt request offset) (Str.trim request.crateName) (normalizeOptional request.version)
          (normalizeOptional request.typeName) = .ok () := by
        simp [checkToken,passes,tokenAt,bind,Except.bind]
      simp only [checkedPage,matched,bind,Except.bind]
      exact paginated
  have collected : collectErrorTypes (typeByName (typeRows collate index selected))
      (errorTypeEntry collate index selected.id (readOrEmpty dirs contents (Str.trim request.crateName) selected.version)
        (listErrorImplRows selected.id index.impls)) offset (errorTypesLimit request.limit) 0 []
      (candidates collate index request selected) = _ := collectsFrom _ (Nat.zero_le _)
  simp only [answer,handleCrateErrorTypes,readRequest,name,checked,opens.found,opens.resolved,opens.indexed,failing,
    Except.mapError,bind,Except.bind,pure,Except.pure,Except.toOption,Option.map_some,Option.some.injEq]
  rw [← typeRows,← candidates,collected]
  exact pageCut _ _ _ _

theorem denseRows (candidates : List Text) (limit cap offset : Nat) :
    Paging.Dense (candidateEntry collate index dirs contents request selected) candidates limit cap offset ↔
      (limit < ((candidates.drop offset).filter (hasTypeRow collate index selected)).length →
        offset + limit ≤ cap ∧
          ∀ candidate ∈ (candidates.drop offset).take limit, hasTypeRow collate index selected candidate = true) := by
  have shows (candidate : Text) : (candidateEntry collate index dirs contents request selected candidate).isSome =
      hasTypeRow collate index selected candidate := by
    rw [candidateEntry,shownEntry,Option.isSome_map,hasTypeRow]
  rw [Paging.Dense,List.length_filterMap_eq_countP,List.countP_eq_length_filter]
  simp only [shows]

/-- Every candidate that has a type row is listed exactly once just when those from the start of a
page on are no more than a page holds, or all candidates of the page have one. -/
theorem errorsOnceIff (opens : Opens index waited request ctx selected) :
    let limit := errorTypesLimit request.limit
    let names := candidates collate index request selected
    (∃ out, Paging.Follows (answer collate index dirs contents waited request) none out ∧
      out.Perm (names.filterMap (candidateEntry collate index dirs contents request selected))) ↔
    ∀ k, limit < ((names.drop (k * limit)).filter (hasTypeRow collate index selected)).length →
      k * limit + limit ≤ 2 ^ 32 - 1 ∧ ∀ candidate ∈ (names.drop (k * limit)).take limit,
        hasTypeRow collate index selected candidate = true := by
  intro limit names
  have dense (offset : Nat) : Paging.Dense (candidateEntry collate index dirs contents request selected) names limit (2 ^ 32 - 1)
      offset ↔ _ := denseRows collate dirs contents names limit (2 ^ 32 - 1) offset
  simp only [Paging.followsCuts (answeredAt collate dirs contents opens) (Or.inl ⟨rfl,rfl⟩),← dense]
  exact Paging.skipsIff (fun _ => rfl) (limitBounds request.limit) (entriesOnce collate dirs contents)

end

def errorRow (typeName : String) : ErrorTypeTypeRow :=
  ⟨7,typeName.toList,"enum".toList,.array [],.array [],"src/lib.rs".toList,3⟩

/-- Rows of some types, and an `Error` impl for another one. -/
def errorIndex (names : List String) (implFor : String) : Index Str.toAsciiLowercase where
  crates := ⟨[⟨1,"faults".toList⟩],by decide⟩
  versions := [⟨7,1,"1.0.0".toList,some 5⟩]
  sourceFiles := []
  symbols := [⟨7,"faults".toList,none,"rustdoc_json".toList⟩]
  types := names.map errorRow
  impls := [⟨7,implFor.toList,some "Error".toList,none,"src/lib.rs".toList⟩]

def errorsRequest : CrateErrorTypesRequest := ⟨"faults".toList,none,none,none,none,some 1⟩

theorem errorsOpen (names : List String) (implFor : String) :
    Opens (errorIndex names implFor) (fun _ => none) errorsRequest ⟨⟨1,"faults".toList⟩,⟨7,1,"1.0.0".toList,some 5⟩⟩
      ⟨7,1,"1.0.0".toList,some 5⟩ where
  named := by decide
  first := rfl
  found := rfl
  resolved := rfl
  indexed := rfl

theorem errorsOnceIffAllRows :
    let dirs : SourceDirs Nat := ⟨[],fun _ => none⟩
    let selected : CrateVersionRow := ⟨7,1,"1.0.0".toList,some 5⟩
    ∃ out, Paging.Follows (answer (id : Text → Text) (errorIndex ["AErr","BErr"] "BErr") dirs (fun _ _ => none) (fun _ => none)
        errorsRequest) none out ∧
      out.Perm ((candidates (id : Text → Text) (errorIndex ["AErr","BErr"] "BErr") errorsRequest selected).filterMap
        (candidateEntry (id : Text → Text) (errorIndex ["AErr","BErr"] "BErr") dirs (fun _ _ => none) errorsRequest selected)) := by
  intro dirs selected
  have names : candidates (id : Text → Text) (errorIndex ["AErr","BErr"] "BErr") errorsRequest selected =
      ["AErr".toList,"BErr".toList] := by decide +kernel
  refine (errorsOnceIff (id : Text → Text) dirs (fun _ _ => none) (errorsOpen ["AErr","BErr"] "BErr")).mpr fun k more => ?_
  rw [names] at more ⊢
  cases k with
  | zero => decide +kernel
  | succ k =>
    have few : (["AErr".toList,"BErr".toList].drop ((k + 1) * 1)).length ≤ 1 := by simp
    exact absurd (lt_of_lt_of_le more (List.length_filter_le _ _)) (Nat.not_lt_of_le few)

/-- Only the second and the third candidate have type rows; the first and the second page show the second. -/
theorem rowlessRepeats :
    let dirs : SourceDirs Nat := ⟨[],fun _ => none⟩
    let selected : CrateVersionRow := ⟨7,1,"1.0.0".toList,some 5⟩
    ¬∃ out, Paging.Follows (answer (id : Text → Text) (errorIndex ["BErr","CErr"] "AErr") dirs (fun _ _ => none) (fun _ => none)
        errorsRequest) none out ∧
      out.Perm ((candidates (id : Text → Text) (errorIndex ["BErr","CErr"] "AErr") errorsRequest selected).filterMap
        (candidateEntry (id : Text → Text) (errorIndex ["BErr","CErr"] "AErr") dirs (fun _ _ => none) errorsRequest selected)) := by
  rintro dirs selected ⟨out,follows,perm⟩
  have cuts := (Paging.followsCuts (answeredAt (id : Text → Text) dirs (fun _ _ => none) (errorsOpen ["BErr","CErr"] "AErr"))
    (Or.inl ⟨rfl,rfl⟩)).mp follows
  have once := perm.nodup_iff.mpr (entriesOnce (id : Text → Text) dirs (fun _ _ => none))
  have dense := (denseRows (id : Text → Text) dirs (fun _ _ => none) _ _ _ _).mp
    (Paging.denseFrom (fun _ => rfl) (limitBounds _) cuts (Nat.zero_le _) once 0)
  exact absurd dense (by decide +kernel)

end RustMcp.ErrorPages
