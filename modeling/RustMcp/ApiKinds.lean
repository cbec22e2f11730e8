import RustMcp.ApiSurface
import RustMcp.DeprecatedItems

/-! The kinds that a `crate_api` request asks for against those that the two indexers give
their symbols. -/
namespace RustMcp.ApiKinds
open Str (Text)
open Utils Queries ApiSurface
open DeprecatedItems (ItemEnum itemEnumToKind)

/-! The kinds of symbols. -/

/-- The items of a source file; those of the last two kinds are no symbols. -/
inductive SynItem where
  | fnItem | structItem | enumItem | unionItem | traitItem | typeItem | constItem | staticItem | modItem | implItem | other

def synKind : SynItem → Option Text
  | .fnItem => some "function".toList
  | .structItem => some "struct".toList
  | .enumItem => some "enum".toList
  | .unionItem => some "union".toList
  | .traitItem => some "trait".toList
  | .typeItem => some "type_alias".toList
  | .constItem => some "const".toList
  | .staticItem => some "static".toList
  | .modItem => some "module".toList
  | .implItem | .other => none

section
variable {lower : Text → Text} (data : Data lower) (waited : Waited) (request : CrateApiRequest) (ctx : CrateContext)
  (selected : CrateVersionRow)

/-- The public symbols of a version, as one of the indexers has written them. -/
def Produced (crateVersionId : Nat) : Prop :=
  (∀ row ∈ data.symbols, isPublic crateVersionId row = true →
    row.indexSource = "rustdoc_json".toList ∧ ∃ inner, itemEnumToKind inner = row.kind) ∨
  ∀ row ∈ data.symbols, isPublic crateVersionId row = true →
    row.indexSource = "syn".toList ∧ ∃ item, synKind item = some row.kind

/-- A request for kinds, of a version that is found. -/
structure Asks extends Opens data waited request ctx selected where
  asked : request.kinds.getD [] ≠ []
  produced : Produced data selected.id

/-- A kind is asked for by its name, functions also as methods, and the constants of both indexers as `const`. -/
def Requested (kinds : Option (List Text)) (kind : Text) : Prop :=
  ∃ value ∈ kinds.getD [], normalizeKind value = kind ∨ (normalizeKind value = "const".toList ∧ kind = "constant".toList)

instance (kinds : Option (List Text)) (kind : Text) : Decidable (Requested kinds kind) :=
  inferInstanceAs (Decidable (∃ value ∈ kinds.getD [], _))

/-- The public symbols at the places that the request asks for. -/
def surface : List ApiSurfaceRow :=
  data.symbols.filter fun row => isPublic selected.id row &&
    ((normalizeOptional request.pathGlob).map pathGlobToLike).all fun pathLike => matchesPath lower pathLike row

def wanted : List ApiSurfaceRow := (surface data request selected).filter fun row => Requested request.kinds row.kind

/-- Every page is cut from the wanted symbols, in an order by the listing's key. -/
def ListsExactly {C : Type} [LinearOrder C] (collate : Text → C) (rows : List ApiSurfaceRow) : Prop :=
  ∀ listing, Orders collate data listing → ∀ cursor offset, Paging.StandsAt (tokenAt request) cursor offset →
    ∃ arranged, TiedPages.Arranged (listOrder collate) rows arranged ∧
      answer data listing waited request cursor =
        some (Paging.cutPage ((arranged.drop offset).take (crateApiLimit request.limit + 1)) (crateApiLimit request.limit)
          (tokenAt request (min (offset + crateApiLimit request.limit) (2 ^ 32 - 1))))

/-- The listing is filtered by the kinds of the allow list that are asked for, or, where there are none, not at all. -/
def KindsCarry (kinds : Option (List Text)) (rows : List ApiSurfaceRow) : Prop :=
  if ∃ value ∈ kinds.getD [], normalizeKind value ∈ allowedKinds then
    ∀ row ∈ rows, Requested kinds row.kind → row.kind ∈ allowedKinds
  else ∀ row ∈ rows, Requested kinds row.kind

instance (kinds : Option (List Text)) (rows : List ApiSurfaceRow) : Decidable (KindsCarry kinds rows) := by
  unfold KindsCarry; infer_instance

end

theorem kindFilter {kinds : Option (List Text)} {kind : Text} : kind ∈ allowedKindFilters (normalizeKindFilters kinds) ↔
    kind ∈ allowedKinds ∧ ∃ value ∈ kinds.getD [], normalizeKind value = kind := by
  have named : ∀ kind ∈ allowedKinds, kind ≠ [] := by decide
  simp only [allowedKindFilters,normalizeKindFilters,List.mem_filter,memOrdered,List.mem_map,decide_eq_true_eq]
  constructor
  · rintro ⟨⟨⟨value,mem,rfl⟩,_⟩,allowed⟩
    exact ⟨allowed,value,mem,rfl⟩
  · rintro ⟨allowed,value,mem,rfl⟩
    exact ⟨⟨⟨value,mem,rfl⟩,named _ allowed⟩,allowed⟩

/-- A kind of the allow list is asked for by its own name. -/
theorem requestedAllowed {kinds : Option (List Text)} {kind : Text} (allowed : kind ∈ allowedKinds) :
    Requested kinds kind ↔ kind ∈ allowedKindFilters (normalizeKindFilters kinds) := by
  have other : kind ≠ "constant".toList := fun same => absurd (same ▸ allowed) (by decide)
  rw [kindFilter]
  refine ⟨fun ⟨value,mem,named⟩ => ⟨allowed,value,mem,named.resolve_right fun both => other both.2⟩,fun ⟨_,value,mem,named⟩ => ?_⟩
  exact ⟨value,mem,Or.inl named⟩

theorem filterEmpty {kinds : Option (List Text)} : allowedKindFilters (normalizeKindFilters kinds) = [] ↔
    ¬∃ value ∈ kinds.getD [], normalizeKind value ∈ allowedKinds := by
  rw [List.eq_nil_iff_forall_not_mem]
  simp only [kindFilter]
  constructor
  · exact fun none_ ⟨value,mem,allowed⟩ => none_ _ ⟨allowed,value,mem,rfl⟩
  · exact fun none_ kind ⟨allowed,value,mem,named⟩ => none_ ⟨value,mem,named ▸ allowed⟩

section
variable {lower : Text → Text} {data : Data lower} {waited : Waited} {request : CrateApiRequest} {ctx : CrateContext}
  {selected : CrateVersionRow}

theorem preferredOwn (produced : Produced data selected.id) {row : ApiSurfaceRow} (mem : row ∈ data.symbols)
    (public_ : isPublic selected.id row = true) :
    (if hasRustdocSymbols data selected.id then some "rustdoc_json".toList else none).all (row.indexSource = ·) = true := by
  split
  · rename_i found
    rcases produced with rustdoc | syn
    · exact decide_eq_true (rustdoc row mem public_).1
    · obtain ⟨other,inside,both⟩ := List.any_eq_true.mp found
      obtain ⟨shown,source⟩ := Bool.and_eq_true_iff.mp both
      exact absurd ((syn other inside shown).1.symm.trans (of_decide_eq_true source)) (by decide)
  · rfl

/-- The rows of the query, told by the symbols without the kinds. -/
theorem listedIff (produced : Produced data selected.id) {row : ApiSurfaceRow} :
    row ∈ apiRows data (queryAt data request selected 0) ↔ row ∈ surface data request selected ∧
      (allowedKindFilters (normalizeKindFilters request.kinds) = [] ∨
        row.kind ∈ allowedKindFilters (normalizeKindFilters request.kinds)) := by
  have kinds : (if allowedKindFilters (normalizeKindFilters request.kinds) = [] then none
      else some (allowedKindFilters (normalizeKindFilters request.kinds))).all (row.kind ∈ ·) = true ↔
        allowedKindFilters (normalizeKindFilters request.kinds) = [] ∨
          row.kind ∈ allowedKindFilters (normalizeKindFilters request.kinds) := by
    split
    · rename_i none_; exact ⟨fun _ => Or.inl none_,fun _ => rfl⟩
    · rename_i some_; exact ⟨fun mem => Or.inr (of_decide_eq_true mem),fun either => decide_eq_true (either.resolve_left some_)⟩
  simp only [apiRows,surface,queryAt,paramsAt,List.mem_filter,Bool.and_eq_true]
  constructor
  · rintro ⟨mem,⟨⟨public_,kind⟩,_⟩,place⟩
    exact ⟨⟨mem,public_,place⟩,kinds.mp kind⟩
  · rintro ⟨⟨mem,public_,place⟩,kind⟩
    exact ⟨mem,⟨⟨public_,kinds.mpr kind⟩,preferredOwn produced mem public_⟩,place⟩

theorem carryIff (produced : Produced data selected.id) :
    (∀ row, row ∈ apiRows data (queryAt data request selected 0) ↔ row ∈ wanted data request selected) ↔
      KindsCarry request.kinds (surface data request selected) := by
  have wantedIff : ∀ row, row ∈ wanted data request selected ↔
      row ∈ surface data request selected ∧ Requested request.kinds row.kind := fun row => by simp [wanted]
  simp only [listedIff produced,wantedIff,and_congr_right_iff]
  unfold KindsCarry
  by_cases some_ : ∃ value ∈ request.kinds.getD [], normalizeKind value ∈ allowedKinds
  · have filled : allowedKindFilters (normalizeKindFilters request.kinds) ≠ [] := fun empty => filterEmpty.mp empty some_
    rw [if_pos some_]
    refine forall₂_congr fun row _ => ?_
    rw [or_iff_right filled]
    by_cases allowed : row.kind ∈ allowedKinds
    · exact iff_of_true (requestedAllowed allowed).symm fun _ => allowed
    · have dropped : row.kind ∉ allowedKindFilters (normalizeKindFilters request.kinds) := fun kept => allowed (kindFilter.mp kept).1
      rw [iff_false_left dropped]
      exact ⟨fun none_ wanted => absurd wanted none_,fun all wanted => allowed (all wanted)⟩
  · rw [if_neg some_]
    exact forall₂_congr fun row _ => iff_true_left (Or.inl (filterEmpty.mpr some_))

variable {C : Type} [LinearOrder C] {collate : Text → C}

/-- What pages of every size and place show of a list. -/
theorem cutHead {T α : Type} {xs ys : List α} {limit offset : Nat} (some_ : 0 < limit) {next next' : T}
    (same : Paging.cutPage ((xs.drop offset).take (limit + 1)) limit next =
      Paging.cutPage ((ys.drop offset).take (limit + 1)) limit next') : xs[offset]? = ys[offset]? := by
  have first : ∀ (zs : List α) (next : T),
      (Paging.cutPage ((zs.drop offset).take (limit + 1)) limit next).items.head? = zs[offset]? := fun zs next => by
    unfold Paging.cutPage
    obtain ⟨limit,rfl⟩ := Nat.exists_eq_succ_of_ne_zero (Nat.ne_of_gt some_)
    split <;> simp [List.head?_take,List.head?_drop]
  rw [← first xs next,same,first]

theorem listsIff (opens : Opens data waited request ctx selected) {rows : List ApiSurfaceRow} (once : rows.Nodup) :
    ListsExactly data waited request collate rows ↔
      ∀ row, row ∈ apiRows data (queryAt data request selected 0) ↔ row ∈ rows := by
  have some_ := (limitBounds request.limit).1
  constructor
  · intro lists
    have sorted : Orders collate data fun params => Ranking.sortBy (listOrder collate) (apiRows data params) :=
      fun params => TiedPages.sortedArranged _ _
    have shown : ∀ offset : Nat, ∃ arranged : List ApiSurfaceRow, TiedPages.Arranged (listOrder collate) rows arranged ∧
        (Ranking.sortBy (listOrder collate) (apiRows data (queryAt data request selected 0)))[offset]? = arranged[offset]? := by
      intro offset
      obtain ⟨arranged,own,page⟩ := lists _ sorted (some (tokenAt request offset)) offset (Or.inr rfl)
      rw [answeredAt opens _ (Or.inr rfl)] at page
      exact ⟨arranged,own,cutHead some_ (Option.some.inj page)⟩
    have inside : ∀ row, row ∈ apiRows data (queryAt data request selected 0) → row ∈ rows := by
      intro row mem
      have listed : row ∈ Ranking.sortBy (listOrder collate) (apiRows data (queryAt data request selected 0)) :=
        Ranking.memSortBy.mpr mem
      obtain ⟨offset,here⟩ := List.mem_iff_getElem?.mp listed
      obtain ⟨arranged,own,same⟩ := shown offset
      exact own.perm.mem_iff.mp (List.mem_of_getElem? (same ▸ here))
    have all : rows.length ≤ (apiRows data (queryAt data request selected 0)).length := by
      obtain ⟨arranged,own,same⟩ := shown (apiRows data (queryAt data request selected 0)).length
      rw [List.getElem?_eq_none (Ranking.sortByPerm (listOrder collate) _).length_eq.le] at same
      rw [← own.perm.length_eq]
      exact List.getElem?_eq_none_iff.mp same.symm
    exact fun row => ((rowsOnce data _).subperm inside).perm_of_length_le all |>.mem_iff
  · intro same listing orders cursor offset stands
    have perm : (apiRows data (queryAt data request selected offset)).Perm rows :=
      (List.perm_ext_iff_of_nodup (rowsOnce data _) once).mpr same
    have arranged := orders (queryAt data request selected offset)
    exact ⟨_,⟨arranged.perm.trans perm,arranged.sorted⟩,answeredAt opens listing stands⟩

/-- The pages list exactly the public symbols of the kinds asked for just when the allow list knows those kinds. -/
theorem kindsListedIff (asks : Asks data waited request ctx selected) :
    ListsExactly data waited request collate (wanted data request selected) ↔
      KindsCarry request.kinds (surface data request selected) :=
  (listsIff asks.toOpens ((data.ids.of_map _).filter _ |>.filter _)).trans (carryIff asks.produced)

end

/-! A version whose one public symbol is a constant that rustdoc has found. -/

def limits : Data Str.toAsciiLowercase where
  index := {
    crates := ⟨[⟨1,"limits".toList⟩],List.nodup_singleton _⟩
    versions := [⟨7,1,"1.0.0".toList,some 5⟩]
    sourceFiles := []
    symbols := [⟨7,"MAX".toList,none,"rustdoc_json".toList⟩]
    types := []
    impls := []}
  symbols := [⟨⟨7,"MAX".toList,none,"rustdoc_json".toList⟩,1,itemEnumToKind .constant,some "public".toList,none,
    "src/lib.rs".toList,3,3⟩]
  same := rfl
  ids := List.nodup_singleton _

def kindsRequest (kind : Text) : CrateApiRequest := ⟨"limits".toList,none,none,some [kind],none,none,none⟩

def limitsSelected : CrateVersionRow := ⟨7,1,"1.0.0".toList,some 5⟩

theorem limitsAsks (kind : Text) :
    Asks limits (fun _ => none) (kindsRequest kind) ⟨⟨1,"limits".toList⟩,limitsSelected⟩ limitsSelected where
  named := by change Str.trim "limits".toList ≠ []; decide
  first := rfl
  found := rfl
  resolved := rfl
  indexed := rfl
  asked := List.cons_ne_nil _ _
  produced := Or.inl fun row mem _ => by
    obtain rfl := List.mem_singleton.mp mem
    exact ⟨rfl,.constant,rfl⟩

theorem functionsListed : Asks limits (fun _ => none) (kindsRequest "Method".toList) ⟨⟨1,"limits".toList⟩,limitsSelected⟩ limitsSelected ∧
    ListsExactly limits (fun _ => none) (kindsRequest "Method".toList) (id : Text → Text)
      (wanted limits (kindsRequest "Method".toList) limitsSelected) :=
  ⟨limitsAsks _,(kindsListedIff (limitsAsks _)).mpr (by decide)⟩

/-- A kind that is none leaves the listing unfiltered, and `const` misses the constant. -/
theorem constantsMissed :
    (Asks limits (fun _ => none) (kindsRequest "bogus".toList) ⟨⟨1,"limits".toList⟩,limitsSelected⟩ limitsSelected ∧
      ¬ListsExactly limits (fun _ => none) (kindsRequest "bogus".toList) (id : Text → Text)
        (wanted limits (kindsRequest "bogus".toList) limitsSelected)) ∧
    Asks limits (fun _ => none) (kindsRequest "const".toList) ⟨⟨1,"limits".toList⟩,limitsSelected⟩ limitsSelected ∧
      ¬ListsExactly limits (fun _ => none) (kindsRequest "const".toList) (id : Text → Text)
        (wanted limits (kindsRequest "const".toList) limitsSelected) := by
  have differs : ∀ kind, ¬KindsCarry (some [kind]) (surface limits (kindsRequest kind) limitsSelected) →
      ¬ListsExactly limits (fun _ => none) (kindsRequest kind) (id : Text → Text) (wanted limits (kindsRequest kind) limitsSelected) :=
    fun kind drops lists => drops ((carryIff (limitsAsks kind).produced).mp
      ((listsIff (limitsAsks kind).toOpens ((List.nodup_singleton _).filter _ |>.filter _)).mp lists))
  exact ⟨⟨limitsAsks _,differs _ (by decide)⟩,limitsAsks _,differs _ (by decide)⟩

end RustMcp.ApiKinds
