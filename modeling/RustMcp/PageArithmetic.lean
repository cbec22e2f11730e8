import RustMcp.Utils

/-! Offsets and page sizes: of the search tools, which take them from a cursor or from a page,
of `crate_deprecated` and of the refreshes, which take them from a page. -/
namespace RustMcp.PageArithmetic
open Str (Text)
open Utils

inductive SearchTool where
  | crateSearch | sourceSearch | symbolSearch | docsSearch

def SearchTool.name : SearchTool → Text
  | .crateSearch => "crate_search".toList
  | .sourceSearch => "source_search".toList
  | .symbolSearch => "symbol_search".toList
  | .docsSearch => "docs_search".toList

def SearchTool.limit : SearchTool → Option Nat → Nat
  | .crateSearch => searchLimit
  | .sourceSearch => sourceSearchLimit
  | .symbolSearch => symbolSearchLimit
  | .docsSearch => docsSearchLimit

/-- The most that the helper of the tool's limit allows. -/
def SearchTool.maximum : SearchTool → Nat
  | .crateSearch => 50
  | .sourceSearch => 100
  | .symbolSearch => 200
  | .docsSearch => 200

/-- The tokens of a tool's cursors. -/
structure Tokens (T : Type) where
  /-- base64, then JSON -/
  deserialize : Text → Except Text T
  version : T → Nat
  position : T → CursorToken
  /-- the filters are those of the request -/
  filters : T → Bool

structure PageRequest where
  cursor : Option Text
  limit : Option Nat
  page : Option Nat

section
variable {T : Type} (tokens : Tokens T)

def decodeCursor (cursor : Text) : Except Text T :=
  match tokens.deserialize cursor with
  | .error e => .error e
  | .ok decoded =>
      match checkCursor (tokens.version decoded) (tokens.position decoded).limit with
      | .error e => .error e
      | .ok () => .ok decoded

/-- The pagination of a search tool. -/
def SearchTool.paginate (tool : SearchTool) (request : PageRequest) : Except Text PaginationParams :=
  match normalizeOptional request.cursor with
  | none => resolvePagination none request.limit.isSome (tool.limit request.limit) (syncPage request.page)
  | some cursor =>
      match decodeCursor tokens cursor with
      | .error e => .error e
      | .ok decoded =>
          if tokens.filters decoded then
            resolvePagination (some (tokens.position decoded)) request.limit.isSome (tool.limit request.limit) (syncPage request.page)
          else .error ("cursor does not match current ".toList ++ tool.name ++ " filters".toList)

end

/-- The rows that a query without a cursor asks for. -/
structure Window where
  offset : Nat
  limit : Nat

/-- `page.saturating_sub(1) * limit` -/
def windowOf (page limit : Nat) : Window := ⟨u32 ((page - 1) * limit),limit⟩

def deprecatedLimit (value : Option Nat) : Nat := clamp 1 200 (value.getD 50)

def crateDeprecated (page limit : Option Nat) : Window := windowOf (syncPage page) (deprecatedLimit limit)

/-- The docs refresh, and the security refresh of the handler and of the worker. -/
def refreshPage (page perPage : Option Nat) : Window := windowOf (syncPage page) (syncPerPage perPage)

/-! Which pages are right. -/

theorem limitMost (tool : SearchTool) (value : Option Nat) : tool.limit value ≤ tool.maximum := by
  cases tool <;> exact (clampBounds (by decide) _).2

theorem u32Exact {n : Nat} : u32 n = n ↔ n < 2 ^ 32 := by
  rw [u32]
  exact Nat.mod_eq_iff_lt (by decide)

/-- No page is numbered 0, so that one less does not underflow. -/
theorem pagePositive (value : Option Nat) : 1 ≤ syncPage value := Nat.le_max_right _ _

theorem windowExact {page limit maximum : Nat} (most : limit ≤ maximum) :
    ((windowOf page limit).offset = (page - 1) * (windowOf page limit).limit ∧ (windowOf page limit).limit ≤ maximum) ↔
      (page - 1) * limit < 2 ^ 32 := by
  rw [and_iff_left (show (windowOf page limit).limit ≤ maximum from most)]
  exact u32Exact

section
variable {T : Type} (tokens : Tokens T) (tool : SearchTool) (request : PageRequest)

/-- The page of a request without a cursor starts where its number says, and no page is too large. -/
def Paged : Prop :=
  ∀ params, tool.paginate tokens request = .ok params → params.limit ≤ tool.maximum ∧
    (normalizeOptional request.cursor = none → params.offset = (syncPage request.page - 1) * params.limit)

/-- Every page starts where the number that is answered with it says, and is not too large. -/
def Numbered : Prop :=
  ∀ params, tool.paginate tokens request = .ok params → params.limit ≤ tool.maximum ∧
    params.offset = (params.effectivePage - 1) * params.limit

/-- The token of a cursor for the request's filters. -/
def Continues (token : CursorToken) : Prop :=
  ∃ cursor decoded, normalizeOptional request.cursor = some cursor ∧ decodeCursor tokens cursor = .ok decoded ∧
    tokens.filters decoded = true ∧ tokens.position decoded = token

theorem paginatedFirst (bare : normalizeOptional request.cursor = none) : tool.paginate tokens request =
    .ok ⟨u32 ((syncPage request.page - 1) * tool.limit request.limit),tool.limit request.limit,syncPage request.page⟩ := by
  rw [SearchTool.paginate,bare]
  rfl

theorem continuesCursor {token : CursorToken} (continues : Continues tokens request token) : normalizeOptional request.cursor ≠ none := by
  obtain ⟨cursor,_,given,_⟩ := continues
  rw [given]
  exact Option.some_ne_none cursor

theorem paginatedNext {token : CursorToken} (continues : Continues tokens request token) {params : PaginationParams} :
    tool.paginate tokens request = .ok params ↔ (request.limit.isSome = true → tool.limit request.limit = token.limit) ∧
      params = ⟨token.offset,token.limit,saturatingAdd (token.offset / token.limit) 1⟩ := by
  obtain ⟨cursor,decoded,given,read,same,rfl⟩ := continues
  rw [SearchTool.paginate,given]
  simp only [read,same,if_true,resolvePagination]
  cases request.limit.isSome with
  | false =>
    simp only [Bool.false_and,Bool.false_eq_true,if_false,false_implies,true_and,Except.ok.injEq]
    exact eq_comm
  | true =>
    simp only [Bool.true_and,true_implies]
    split
    · rename_i unlike
      exact iff_of_false (fun failed => by cases failed) fun both => of_decide_eq_true unlike both.1
    · rename_i like
      rw [decide_eq_true_eq,not_not] at like
      simp only [like,true_and,Except.ok.injEq]
      exact eq_comm

theorem paginatedBy {params : PaginationParams} (paged : tool.paginate tokens request = .ok params) :
    normalizeOptional request.cursor = none ∨ ∃ token, Continues tokens request token := by
  rw [SearchTool.paginate] at paged
  cases given : normalizeOptional request.cursor with
  | none => exact .inl rfl
  | some cursor =>
    rw [given] at paged
    dsimp only at paged
    split at paged
    · cases paged
    · rename_i decoded read
      split at paged
      · exact .inr ⟨_,cursor,decoded,given,read,‹_›,rfl⟩
      · cases paged

theorem pagedExact : Paged tokens tool request ↔
    (normalizeOptional request.cursor = none → (syncPage request.page - 1) * tool.limit request.limit < 2 ^ 32) ∧
    ∀ token, Continues tokens request token → request.limit.isSome = true ∨ token.limit ≤ tool.maximum := by
  constructor
  · intro paged
    refine ⟨fun bare => u32Exact.mp ((paged _ (paginatedFirst tokens tool request bare)).2 bare),fun token continues => ?_⟩
    cases explicit : request.limit.isSome with
    | true => exact .inl rfl
    | false =>
      have next := (paginatedNext tokens tool request continues).mpr ⟨by simp [explicit],rfl⟩
      exact .inr (paged _ next).1
  · rintro ⟨first,next⟩ params paged
    obtain bare | ⟨token,continues⟩ := paginatedBy tokens tool request paged
    · rw [paginatedFirst tokens tool request bare] at paged
      cases paged
      exact ⟨limitMost tool request.limit,fun _ => u32Exact.mpr (first bare)⟩
    · obtain ⟨explicit,rfl⟩ := (paginatedNext tokens tool request continues).mp paged
      refine ⟨?_,fun bare => absurd bare (continuesCursor tokens request continues)⟩
      obtain given | small := next token continues
      · exact (explicit given).symm.le.trans (limitMost tool request.limit)
      · exact small

theorem continuesPositive {token : CursorToken} (continues : Continues tokens request token) : 0 < token.limit := by
  obtain ⟨cursor,decoded,_,read,_,rfl⟩ := continues
  rw [decodeCursor] at read
  split at read
  · cases read
  · rename_i checked
    split at read
    · cases read
    · rename_i passed
      cases read
      rw [checkCursor] at passed
      split at passed
      · cases passed
      · split at passed
        · cases passed
        · exact Nat.pos_of_ne_zero ‹_›

omit tokens request in
/-- The page number that is answered with a token is that of its offset, where the offset is a multiple of the limit. -/
theorem numberedToken {offset limit : Nat} (positive : 0 < limit) :
    offset = (saturatingAdd (offset / limit) 1 - 1) * limit ↔ limit ∣ offset ∧ offset / limit + 1 < 2 ^ 32 := by
  rw [saturatingAdd]
  obtain within | past := Nat.lt_or_ge (offset / limit + 1) (2 ^ 32)
  · rw [Nat.min_eq_left (by omega),Nat.add_sub_cancel,and_iff_left within]
    exact ⟨fun same => ⟨_,same.trans (Nat.mul_comm _ _)⟩,fun divides => (Nat.div_mul_cancel divides).symm⟩
  · rw [Nat.min_eq_right (by omega)]
    refine iff_of_false (fun same => ?_) fun both => by omega
    have quotient := congrArg (· / limit) same
    simp only [Nat.mul_div_cancel _ positive] at quotient
    omega

theorem numberedExact : Numbered tokens tool request ↔
    (normalizeOptional request.cursor = none → (syncPage request.page - 1) * tool.limit request.limit < 2 ^ 32) ∧
    ∀ token, Continues tokens request token → (request.limit.isSome = true → tool.limit request.limit = token.limit) →
      token.limit ≤ tool.maximum ∧ token.limit ∣ token.offset ∧ token.offset / token.limit + 1 < 2 ^ 32 := by
  constructor
  · intro numbered
    refine ⟨fun bare => u32Exact.mp (numbered _ (paginatedFirst tokens tool request bare)).2,fun token continues explicit => ?_⟩
    obtain ⟨small,offset⟩ := numbered _ ((paginatedNext tokens tool request continues).mpr ⟨explicit,rfl⟩)
    exact ⟨small,(numberedToken (continuesPositive tokens request continues)).mp offset⟩
  · rintro ⟨first,next⟩ params paged
    obtain bare | ⟨token,continues⟩ := paginatedBy tokens tool request paged
    · rw [paginatedFirst tokens tool request bare] at paged
      cases paged
      exact ⟨limitMost tool request.limit,u32Exact.mpr (first bare)⟩
    · obtain ⟨explicit,rfl⟩ := (paginatedNext tokens tool request continues).mp paged
      obtain ⟨small,number⟩ := next token continues explicit
      exact ⟨small,(numberedToken (continuesPositive tokens request continues)).mpr number⟩

/-- The pages of the search tools, of `crate_deprecated` and of the refreshes. -/
theorem paginationExact (page limit : Option Nat) :
    (Paged tokens tool request ↔
      (normalizeOptional request.cursor = none → (syncPage request.page - 1) * tool.limit request.limit < 2 ^ 32) ∧
      ∀ token, Continues tokens request token → request.limit.isSome = true ∨ token.limit ≤ tool.maximum) ∧
    (Numbered tokens tool request ↔
      (normalizeOptional request.cursor = none → (syncPage request.page - 1) * tool.limit request.limit < 2 ^ 32) ∧
      ∀ token, Continues tokens request token → (request.limit.isSome = true → tool.limit request.limit = token.limit) →
        token.limit ≤ tool.maximum ∧ token.limit ∣ token.offset ∧ token.offset / token.limit + 1 < 2 ^ 32) ∧
    (((crateDeprecated page limit).offset = (syncPage page - 1) * (crateDeprecated page limit).limit ∧
      (crateDeprecated page limit).limit ≤ 200) ↔ (syncPage page - 1) * deprecatedLimit limit < 2 ^ 32) ∧
    (((refreshPage page limit).offset = (syncPage page - 1) * (refreshPage page limit).limit ∧
      (refreshPage page limit).limit ≤ 100) ↔ (syncPage page - 1) * syncPerPage limit < 2 ^ 32) :=
  ⟨pagedExact tokens tool request,numberedExact tokens tool request,windowExact (clampBounds (by decide) _).2,
    windowExact (clampBounds (by decide) _).2⟩

end

/-! Pages that are wrong. -/

/-- The token that a client has written itself. -/
def writtenTokens : Tokens CursorToken := ⟨fun _ => .ok ⟨0,1000000⟩,fun _ => 1,id,fun _ => true⟩

theorem pagesWrong : ¬ Paged writtenTokens .crateSearch ⟨none,some 50,some 4294967295⟩ ∧
    ¬ Paged writtenTokens .crateSearch ⟨some "token".toList,none,none⟩ ∧
    (crateDeprecated (some 4294967295) (some 200)).offset ≠ (syncPage (some 4294967295) - 1) * 200 ∧
    (refreshPage (some 4294967295) (some 100)).offset ≠ (syncPage (some 4294967295) - 1) * 100 := by
  refine ⟨fun paged => ?_,fun paged => ?_,by decide,by decide⟩
  · exact absurd ((paged ⟨4294967196,50,4294967295⟩ (by decide +kernel)).2 (by decide +kernel)) (by decide)
  · exact absurd (paged ⟨0,1000000,1⟩ (by decide +kernel)).1 (by decide)

end RustMcp.PageArithmetic
