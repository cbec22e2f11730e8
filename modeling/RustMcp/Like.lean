import RustMcp.Str

/-! `LIKE` of SQL, the backslash being its escape character. -/
namespace RustMcp.Like
open Str (Text)

def like : Text → Text → Bool
  | [], text => text.isEmpty
  | '%'::p, text => text.tails.any fun rest => like p rest
  | '_'::p, text => match text with
    | [] => false
    | _::cs => like p cs
  -- an escape with nothing behind it is an error
  | ['\\'], _ => false
  | '\\'::x::p, text => match text with
    | [] => false
    | c::cs => x = c && like p cs
  | x::p, text => match text with
    | [] => false
    | c::cs => x = c && like p cs

/-- One character of a pattern without `%` and without escapes. -/
def FitsChar (x c : Char) : Prop := x = '_' ∨ x = c

def Fits (p text : Text) : Prop := List.Forall₂ FitsChar p text

/-- Neither `%` nor an escape occurs. -/
def Literal (p : Text) : Prop := ∀ x ∈ p, x ≠ '%' ∧ x ≠ '\\'

instance (p : Text) : Decidable (Literal p) := List.decidableBAll (fun x => x ≠ '%' ∧ x ≠ '\\') p

theorem fitsSelf (text : Text) : Fits text text := List.forall₂_same.mpr fun _ _ => Or.inr rfl

theorem likeAny {p text : Text} : like ('%'::p) text = true ↔ ∃ before rest, text = before ++ rest ∧ like p rest = true := by
  simp only [like,List.any_eq_true,List.mem_tails]
  constructor
  · rintro ⟨rest,⟨before,rfl⟩,matches_⟩
    exact ⟨before,rest,rfl,matches_⟩
  · rintro ⟨before,rest,rfl,matches_⟩
    exact ⟨rest,List.suffix_append _ _,matches_⟩

theorem likeChar {x : Char} (percent : x ≠ '%') (escape : x ≠ '\\') {p text : Text} :
    like (x::p) text = true ↔ ∃ c cs, text = c::cs ∧ FitsChar x c ∧ like p cs = true := by
  by_cases wild : x = '_'
  · subst wild
    cases text <;> simp [like,FitsChar]
  · cases text <;> simp [like,FitsChar,escape,wild]

theorem likeLiteral {q p text : Text} (literal : Literal q) :
    like (q ++ p) text = true ↔ ∃ head rest, text = head ++ rest ∧ Fits q head ∧ like p rest = true := by
  induction q generalizing text with
  | nil => simp [Fits]
  | cons x q ih =>
    obtain ⟨percent,escape⟩ := literal x List.mem_cons_self
    have tail : Literal q := fun y mem => literal y (List.mem_cons_of_mem _ mem)
    rw [List.cons_append,likeChar percent escape]
    constructor
    · rintro ⟨c,cs,rfl,fits,matches_⟩
      obtain ⟨head,rest,rfl,fitsTail,last⟩ := (ih tail).mp matches_
      exact ⟨c::head,rest,rfl,.cons fits fitsTail,last⟩
    · rintro ⟨head,rest,rfl,fits,last⟩
      cases fits with
      | cons fits fitsTail => exact ⟨_,_,rfl,fits,(ih tail).mpr ⟨_,rest,rfl,fitsTail,last⟩⟩

theorem likeEverything (text : Text) : like ['%'] text = true := likeAny.mpr ⟨text,[],by simp,rfl⟩

theorem likeInfix {pat text : Text} (literal : Literal pat) (inside : pat <:+: text) : like ('%'::(pat ++ ['%'])) text = true := by
  obtain ⟨before,rest,rfl⟩ := inside
  refine likeAny.mpr ⟨before,pat ++ rest,List.append_assoc _ _ _,?_⟩
  exact (likeLiteral literal).mpr ⟨pat,rest,rfl,fitsSelf pat,likeEverything rest⟩

theorem likeEscaped (x : Char) {p text : Text} : like ('\\'::x::p) text = true ↔ ∃ rest, text = x::rest ∧ like p rest = true := by
  cases text with
  | nil => simp [like]
  | cons c cs =>
    simp only [like,Bool.and_eq_true,decide_eq_true_eq,List.cons.injEq]
    constructor
    · rintro ⟨rfl,matched⟩
      exact ⟨cs,⟨rfl,rfl⟩,matched⟩
    · rintro ⟨_,⟨rfl,rfl⟩,matched⟩
      exact ⟨rfl,matched⟩

/-- The wildcard for one character is not one for none. -/
theorem likeSingle {p text : Text} : like ('_'::p) text = true ↔ ∃ c rest, text = c::rest ∧ like p rest = true := by
  cases text <;> simp [like]

/-- A character that is neither a wildcard nor escaped stands for itself in both. -/
theorem likePlain {x : Char} (percent : x ≠ '%') (underscore : x ≠ '_') (escape : x ≠ '\\') {p text : Text} :
    like (x::p) text = true ↔ ∃ rest, text = x::rest ∧ like p rest = true := by
  rw [likeChar percent escape]
  constructor
  · rintro ⟨c,rest,rfl,wild | rfl,matched⟩
    · exact absurd wild underscore
    · exact ⟨rest,rfl,matched⟩
  · rintro ⟨rest,rfl,matched⟩
    exact ⟨x,rest,rfl,Or.inr rfl,matched⟩

theorem likeText {q p text : Text} (plain : ∀ c ∈ q, c ≠ '%' ∧ c ≠ '_' ∧ c ≠ '\\') :
    like (q ++ p) text = true ↔ ∃ rest, text = q ++ rest ∧ like p rest = true := by
  induction q generalizing text with
  | nil => simp
  | cons c q ih =>
    obtain ⟨⟨percent,underscore,escape⟩,later⟩ := List.forall_mem_cons.mp plain
    rw [List.cons_append,likePlain percent underscore escape]
    constructor
    · rintro ⟨tail,rfl,matches_⟩
      obtain ⟨rest,rfl,behind⟩ := (ih later).mp matches_
      exact ⟨rest,rfl,behind⟩
    · rintro ⟨rest,rfl,matches_⟩
      exact ⟨q ++ rest,rfl,(ih later).mpr ⟨rest,rfl,matches_⟩⟩

end RustMcp.Like
