import RustMcp.Like
import RustMcp.Utils

/-! Path globs, matched by the `LIKE` pattern that they are converted to. -/
namespace RustMcp.PathGlobs
open Str (Text)
open Like (like likeAny likeEscaped likeSingle likePlain)
open Utils (globChar pathGlobToLike)

/-- What a glob stands for. -/
inductive Globs : Text → Text → Prop where
  | done : Globs [] []
  | star {glob rest : Text} (before : Text) (tail : Globs glob rest) : Globs ('*'::glob) (before ++ rest)
  | single {glob rest : Text} (c : Char) (tail : Globs glob rest) : Globs ('?'::glob) (c::rest)
  | itself {c : Char} {glob rest : Text} (star : c ≠ '*') (single : c ≠ '?') (tail : Globs glob rest) :
      Globs (c::glob) (c::rest)

theorem starIff {glob text : Text} : Globs ('*'::glob) text ↔ ∃ before rest, text = before ++ rest ∧ Globs glob rest := by
  constructor
  · intro matched
    cases matched with
    | star before tail => exact ⟨before,_,rfl,tail⟩
    | itself star => exact absurd rfl star
  · rintro ⟨before,rest,rfl,tail⟩
    exact .star before tail

theorem singleIff {glob text : Text} : Globs ('?'::glob) text ↔ ∃ c rest, text = c::rest ∧ Globs glob rest := by
  constructor
  · intro matched
    cases matched with
    | single c tail => exact ⟨c,_,rfl,tail⟩
    | itself _ single => exact absurd rfl single
  · rintro ⟨c,rest,rfl,tail⟩
    exact .single c tail

theorem itselfIff {c : Char} (star : c ≠ '*') (single : c ≠ '?') {glob text : Text} :
    Globs (c::glob) text ↔ ∃ rest, text = c::rest ∧ Globs glob rest := by
  constructor
  · intro matched
    cases matched with
    | star => exact absurd rfl star
    | single => exact absurd rfl single
    | itself _ _ tail => exact ⟨_,rfl,tail⟩
  · rintro ⟨rest,rfl,tail⟩
    exact .itself star single tail

theorem globCons (c : Char) (glob : Text) : pathGlobToLike (c::glob) = globChar c ++ pathGlobToLike glob := List.flatMap_cons

theorem likeGlob (glob text : Text) : like (pathGlobToLike glob) text = true ↔ Globs glob text := by
  induction glob generalizing text with
  | nil =>
    constructor
    · intro empty
      rw [List.isEmpty_iff.mp empty]
      exact .done
    · intro matched
      cases matched
      rfl
  | cons c glob ih =>
    rw [globCons,globChar]
    split
    · rename_i star
      subst star
      rw [List.singleton_append,likeAny,starIff]
      simp only [ih]
    · rename_i star
      split
      · rename_i single
        subst single
        rw [List.singleton_append,likeSingle,singleIff]
        simp only [ih]
      · rename_i single
        split
        · rename_i special
          rw [List.cons_append,List.singleton_append,likeEscaped,itselfIff star single]
          simp only [ih]
        · rename_i plain
          simp only [Bool.or_eq_true,decide_eq_true_eq,not_or] at plain
          obtain ⟨⟨percent,underscore⟩,escape⟩ := plain
          rw [List.singleton_append,likePlain percent underscore escape,itselfIff star single]
          simp only [ih]

end RustMcp.PathGlobs
