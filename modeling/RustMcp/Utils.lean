import RustMcp.Ranking
import RustMcp.Str

/-! What tool handlers make of the texts, limits, pages and cursors of a request. -/
namespace RustMcp.Utils
open Str (Text)

def normalizeOptional (value : Option Text) : Option Text := (value.map Str.trim).filter (· ≠ [])

def normalizeRequired (value field : Text) : Except Text Text :=
  if Str.trim value = [] then .error (field ++ " must not be empty".toList) else .ok (Str.trim value)

theorem requiredNamed {value : Text} (field : Text) (some_ : Str.trim value ≠ []) :
    normalizeRequired value field = .ok (Str.trim value) := if_neg some_

def clamp (least most n : Nat) : Nat := max least (min most n)

theorem clampBounds {least most : Nat} (ordered : least ≤ most) (n : Nat) : least ≤ clamp least most n ∧ clamp least most n ≤ most :=
  ⟨Nat.le_max_left _ _,Nat.max_le.mpr ⟨ordered,Nat.min_le_left _ _⟩⟩

def searchLimit (value : Option Nat) : Nat := clamp 1 50 (value.getD 10)
def sourceSearchLimit (value : Option Nat) : Nat := clamp 1 100 (value.getD 20)
def symbolSearchLimit (value : Option Nat) : Nat := clamp 1 200 (value.getD 25)
def docsSearchLimit (value : Option Nat) : Nat := clamp 1 200 (value.getD 25)
def sourceReadEndLine (value : Option Nat) : Nat := clamp 1 2000 (value.getD 200)
def traitImplsLimit (value : Option Nat) : Nat := clamp 1 1000 (value.getD 200)
def reExportsLimit (value : Option Nat) : Nat := clamp 1 1000 (value.getD 200)
def hotspotsLimit (value : Option Nat) : Nat := clamp 1 500 (value.getD 100)
def errorTypesLimit (value : Option Nat) : Nat := clamp 1 500 (value.getD 100)
def featureImpactHeavyThreshold (value : Option Nat) : Nat := clamp 1 100 (value.getD 5)

def syncPage (value : Option Nat) : Nat := max (value.getD 1) 1
def syncPerPage (value : Option Nat) : Nat := clamp 1 100 (value.getD 25)

/-- Where the cursor of an earlier response stands. -/
structure CursorToken where
  offset : Nat
  limit : Nat

/-- What `decode_cursor` checks of a token. -/
def checkCursor (v limit : Nat) : Except Text Unit :=
  if v ≠ 1 then .error "cursor version is not supported".toList
  else if limit = 0 then .error "cursor is invalid".toList
  else .ok ()

theorem cursorPasses {limit : Nat} (some_ : 0 < limit) : checkCursor 1 limit = .ok () := by
  rw [checkCursor,if_neg (not_not.mpr rfl),if_neg some_.ne']

structure PaginationParams where
  offset : Nat
  limit : Nat
  effectivePage : Nat
  deriving DecidableEq

/-- Arithmetic of `u32`, which wraps. -/
def u32 (n : Nat) : Nat := n % 2 ^ 32

def saturatingAdd (a b : Nat) : Nat := min (a + b) (2 ^ 32 - 1)

theorem saturatingAddSmall {a b : Nat} (small : a + b < 2 ^ 32) : saturatingAdd a b = a + b :=
  Nat.min_eq_left (Nat.le_pred_of_lt small)

def resolvePagination (cursor : Option CursorToken) (explicitLimitProvided : Bool) (requestedLimit page : Nat) :
    Except Text PaginationParams :=
  match cursor with
  | some token =>
      if explicitLimitProvided && requestedLimit ≠ token.limit then .error "limit must match the cursor page size".toList
      else .ok ⟨token.offset,token.limit,saturatingAdd (token.offset / token.limit) 1⟩
  | none => .ok ⟨u32 ((page - 1) * requestedLimit),requestedLimit,page⟩

/-- The first page, or the one at which the cursor stands. -/
theorem paginatedAt {cursor : Option CursorToken} {explicitLimitProvided : Bool} {limit offset page : Nat} (first : page = 1)
    (stands : (cursor = none ∧ offset = 0) ∨ cursor = some ⟨offset,limit⟩) :
    ∃ effective, resolvePagination cursor explicitLimitProvided limit page = .ok ⟨offset,limit,effective⟩ := by
  rcases stands with ⟨rfl,rfl⟩ | rfl
  · exact ⟨page,by simp [resolvePagination,first,u32]⟩
  · exact ⟨saturatingAdd (offset / limit) 1,by simp [resolvePagination]⟩

def globChar (ch : Char) : Text :=
  if ch = '*' then ['%']
  else if ch = '?' then ['_']
  else if ch = '%' || ch = '_' || ch = '\\' then ['\\',ch]
  else [ch]

def pathGlobToLike (glob : Text) : Text := glob.flatMap globChar

/-- The entries of a `BTreeSet` of strings. -/
def ordered (values : List Text) : List Text := Ranking.sortBy id values.dedup

def dedupeStrings (values : List Text) : List Text := ordered ((values.map Str.trim).filter (· ≠ []))

theorem bindOk {ε α β : Type} {x : Except ε α} {f : α → Except ε β} {b : β} (h : (x >>= f) = .ok b) :
    ∃ a, x = .ok a ∧ f a = .ok b := by
  cases x with
  | error => contradiction
  | ok a => exact ⟨a,rfl,h⟩

theorem mapMOk {ε α β : Type} {f : α → Except ε β} : ∀ {xs : List α} {ys : List β}, xs.mapM f = .ok ys →
    ∀ y, y ∈ ys ↔ ∃ x ∈ xs, f x = .ok y
  | [],ys,same => by
    rw [List.mapM_nil] at same
    cases Except.ok.inj same
    simp
  | x::xs,ys,same => by
    rw [List.mapM_cons] at same
    cases first : f x with
    | error _ => rw [first] at same; contradiction
    | ok y =>
      cases later : xs.mapM f with
      | error _ => rw [first,later] at same; contradiction
      | ok rest =>
        rw [first,later] at same
        cases Except.ok.inj same
        intro z
        simp [first,mapMOk later,eq_comm]

theorem okOfOption {ε α : Type} {result : Except ε α} {value : α} (found : result.toOption = some value) :
    result = .ok value := by
  cases result with
  | error => cases found
  | ok other => cases found; rfl

theorem okAny {ε α : Type} {result : Except ε α} {p : α → Bool} (found : result.toOption.any p = true) :
    ∃ value, result = .ok value ∧ p value = true := by
  cases result with
  | error e => cases found
  | ok value => exact ⟨value,rfl,found⟩

theorem memOrdered {values : List Text} {value : Text} : value ∈ ordered values ↔ value ∈ values := by
  rw [ordered,Ranking.memSortBy,List.mem_dedup]

theorem normalizeOptionalSome {value : Option Text} {text : Text} :
    normalizeOptional value = some text ↔ ∃ typed, value = some typed ∧ Str.trim typed = text ∧ text ≠ [] := by
  cases value with
  | none => simp [normalizeOptional]
  | some typed =>
    simp only [normalizeOptional,Option.map_some,Option.filter_eq_some_iff,Option.some.injEq,decide_eq_true_eq]
    constructor
    · rintro ⟨rfl,some_⟩; exact ⟨typed,rfl,rfl,some_⟩
    · rintro ⟨_,rfl,same,some_⟩; exact ⟨same,some_⟩

end RustMcp.Utils
