import RustMcp.Str

/-! Splitting at a separator whose characters the pieces may have: what counts is that no
occurrence of it begins inside a piece, wherever the occurrence ends. -/
namespace RustMcp.Splitting
open Str

theorem stripPrefixCons (c : Char) (lead text : Text) : stripPrefix (c::lead) (c::text) = stripPrefix lead text := by
  simp [stripPrefix,startsWith,List.isPrefixOf]

theorem stripPrefixOther {c d : Char} (other : d ≠ c) (lead text : Text) : stripPrefix (c::lead) (d::text) = none := by
  simp [stripPrefix,startsWith,List.isPrefixOf,Ne.symm other]

/-- Before its first character there is no occurrence of a separator. -/
theorem cutBehind {a : Char} (sep : Text) {piece : Text} (clean : a ∉ piece) (rest : Text) :
    splitOnceAt (a::sep) (piece ++ rest) = (splitOnceAt (a::sep) rest).map fun p => (piece ++ p.1,p.2) := by
  induction piece with
  | nil => rw [List.nil_append]; cases splitOnceAt (a::sep) rest <;> rfl
  | cons c piece ih =>
    obtain ⟨other,later⟩ := not_or.mp (mt List.mem_cons.mpr clean)
    rw [List.cons_append,splitOnceAt,stripPrefixOther (Ne.symm other)]
    dsimp only
    rw [ih later,Option.map_map]
    rfl

theorem cutAbsent {a : Char} (sep : Text) {text : Text} (absent : a ∉ text) : splitOnceAt (a::sep) text = none := by
  have whole := cutBehind sep absent []
  rwa [List.append_nil] at whole

theorem cutHere {a : Char} (sep : Text) {piece : Text} (clean : a ∉ piece) (rest : Text) :
    splitOnceAt (a::sep) (piece ++ (a::sep ++ rest)) = some (piece,rest) := by
  rw [cutBehind sep clean,List.cons_append,splitOnceAt,← List.cons_append,stripPrefixIff.mpr rfl]
  simp

theorem cutWhole {sep text left right : Text} (cut : splitOnceAt sep text = some (left,right)) : text = left ++ (sep ++ right) := by
  induction text generalizing left with
  | nil => cases cut
  | cons c text ih =>
    rw [splitOnceAt] at cut
    split at cut
    · rename_i rest here
      cases cut
      rw [List.nil_append]
      exact stripPrefixIff.mp here
    · obtain ⟨pair,later,same⟩ := Option.map_eq_some_iff.mp cut
      cases same
      rw [ih later]
      rfl

/-- No occurrence of `sep` begins in `piece`, with `rest` behind it. -/
def Apart (sep piece rest : Text) : Prop := ∀ ending, ending <:+ piece → ending ≠ [] → ¬ sep <+: ending ++ rest

theorem apartLacks {a : Char} {sep piece : Text} (clean : a ∉ piece) (rest : Text) : Apart (a::sep) piece rest := by
  intro ending ends some_ opens
  cases ending with
  | nil => exact some_ rfl
  | cons c cs =>
    obtain ⟨rfl,_⟩ := List.cons_prefix_cons.mp opens
    exact clean (ends.subset List.mem_cons_self)

/-- A separator of two characters is cut by the end of a piece in one way only. -/
theorem apartPair {a b : Char} {piece rest : Text} (absent : ¬ [a,b] <:+: piece)
    (edge : ¬ ([a] <:+ piece ∧ [b] <+: rest)) : Apart [a,b] piece rest := by
  intro ending ends some_ opens
  match ending,some_ with
  | [c],_ =>
    obtain ⟨rfl,tail⟩ := List.cons_prefix_cons.mp opens
    exact edge ⟨ends,tail⟩
  | c::d::more,_ =>
    obtain ⟨rfl,tail⟩ := List.cons_prefix_cons.mp opens
    obtain ⟨rfl,_⟩ := List.cons_prefix_cons.mp tail
    exact absent ((List.prefix_append [a,b] more).isInfix.trans ends.isInfix)

/-- One of three, of which the last is the first again, is cut in one way if it follows itself. -/
theorem apartTriple {a b : Char} (different : a ≠ b) {piece : Text} (absent : ¬ [a,b,a] <:+: piece)
    (edge : ¬ [a,b] <:+ piece) (rest : Text) : Apart [a,b,a] piece ([a,b,a] ++ rest) := by
  intro ending ends some_ opens
  match ending,some_ with
  | [c],_ =>
    obtain ⟨_,tail⟩ := List.cons_prefix_cons.mp opens
    exact different (List.cons_prefix_cons.mp tail).1.symm
  | [c,d],_ =>
    obtain ⟨rfl,tail⟩ := List.cons_prefix_cons.mp opens
    obtain ⟨rfl,_⟩ := List.cons_prefix_cons.mp tail
    exact edge ends
  | c::d::e::more,_ =>
    obtain ⟨first,tail⟩ := List.cons_prefix_cons.mp opens
    obtain ⟨second,last⟩ := List.cons_prefix_cons.mp tail
    have third := (List.cons_prefix_cons.mp last).1
    rw [← first,← second,← third] at ends
    exact absent ((List.prefix_append [a,b,a] more).isInfix.trans ends.isInfix)

/-- One whose second character a piece lacks is cut by the end of the piece alone. -/
theorem apartSecond {a b : Char} {sep piece rest : Text} (clean : b ∉ piece) (edge : ¬ [b] <+: rest) :
    Apart (a::b::sep) piece rest := by
  intro ending ends some_ opens
  match ending,some_ with
  | [c],_ =>
    obtain ⟨_,tail⟩ := List.cons_prefix_cons.mp opens
    exact edge ((List.prefix_append [b] sep).trans tail)
  | c::d::more,_ =>
    obtain ⟨_,tail⟩ := List.cons_prefix_cons.mp opens
    obtain ⟨rfl,_⟩ := List.cons_prefix_cons.mp tail
    exact clean (ends.subset (List.mem_cons_of_mem _ List.mem_cons_self))

theorem splitStep {sep : Text} {c : Char} {cs : Text} (closed : ¬ sep.isPrefixOf (c::cs) = true) :
    split sep (c::cs) = (split sep cs).modifyHead (c::·) := by
  simp only [split]
  rw [splitFrom,if_neg closed]

theorem splitLead {sep piece rest : Text} (apart : Apart sep piece rest) :
    split sep (piece ++ rest) = (split sep rest).modifyHead (piece ++ ·) := by
  induction piece with
  | nil => rw [List.nil_append]; cases split sep rest <;> rfl
  | cons c cs ih =>
    have later := ih fun ending ends => apart ending (ends.trans (List.suffix_cons c cs))
    have here : ¬ sep.isPrefixOf (c::(cs ++ rest)) = true := fun opens =>
      apart (c::cs) (List.suffix_refl _) (List.cons_ne_nil _ _) (List.isPrefixOf_iff_prefix.mp opens)
    rw [List.cons_append,splitStep here,later,List.modifyHead_modifyHead]
    rfl

theorem splitWhole {sep piece : Text} (apart : Apart sep piece []) : split sep piece = [piece] := by
  have whole := splitLead apart
  rw [List.append_nil] at whole
  rw [whole]
  simp [split,splitFrom]

theorem splitHere (a : Char) (sep rest : Text) : split (a::sep) ((a::sep) ++ rest) = []::split (a::sep) rest := by
  simpa using splitCleanAppend sep (List.not_mem_nil (a := a)) rest

theorem splitFirst {a : Char} {sep piece rest : Text} (apart : Apart (a::sep) piece ((a::sep) ++ rest)) :
    split (a::sep) (piece ++ ((a::sep) ++ rest)) = piece::split (a::sep) rest := by
  rw [splitLead apart,splitHere]
  simp

/-- Splitting undoes joining where the parts lack the second character of the separator. -/
theorem splitJoinSecond {a b : Char} (different : a ≠ b) (sep : Text) {parts : List Text} (some_ : parts ≠ [])
    (clean : ∀ part ∈ parts, b ∉ part) : split (a::b::sep) (join (a::b::sep) parts) = parts := by
  induction parts with
  | nil => contradiction
  | cons part rest ih =>
    have first := clean part List.mem_cons_self
    cases rest with
    | nil =>
      have alone : Apart (a::b::sep) part [] := apartSecond first fun edge => by simp at edge
      simpa [join,List.intercalate] using splitWhole alone
    | cons next more =>
      have apart : Apart (a::b::sep) part ((a::b::sep) ++ join (a::b::sep) (next::more)) :=
        apartSecond first fun edge => different (List.cons_prefix_cons.mp edge).1.symm
      rw [joinCons,splitFirst apart,ih (List.cons_ne_nil _ _) fun part mem => clean part (List.mem_cons_of_mem _ mem)]

theorem joinFlat (sep first : Text) (rest : List Text) : join sep (first::rest) = first ++ rest.flatMap (sep ++ ·) := by
  induction rest generalizing first with
  | nil => simp [join,List.intercalate]
  | cons next rest ih => rw [joinCons,ih,List.flatMap_cons,List.append_assoc]

theorem joinLast (sep first : Text) (rest : List Text) (last : Text) :
    join sep ((first::rest) ++ [last]) = first ++ (sep ++ join sep (rest ++ [last])) := by
  cases rest <;> exact joinCons ..

/-! The parts at the head of what is joined, where a lead of one part is looked for. -/

section
variable {a : Char} {dir : Text} (plain : a ∉ dir)
include plain

theorem headOpens {dirs : List Text} {last : Text} (clean : ∀ part ∈ dirs ++ [last], a ∉ part) :
    dir ++ [a] <+: join [a] (dirs ++ [last]) ↔ dirs.head? = some dir := by
  cases dirs with
  | nil =>
    have alone : join [a] ([] ++ [last]) = last := List.intercalate_singleton
    rw [alone]
    exact iff_of_false (fun opens => clean last (by simp) (opens.subset (by simp))) (by simp)
  | cons first dirs =>
    rw [joinLast,List.head?_cons,Option.some.injEq]
    constructor
    · rintro ⟨more,same⟩
      have cut := congrArg (fun text => text.takeWhile (· ≠ a)) same
      simp only [List.append_assoc,List.singleton_append] at cut
      rw [takeUntil plain,takeUntil (clean first (by simp))] at cut
      simpa using cut.symm
    · rintro rfl
      exact ⟨join [a] (dirs ++ [last]),by simp⟩

/-- Every part that is the lead is taken away at the head, not only the first. -/
theorem headTrimmed {dirs : List Text} {last : Text} (clean : ∀ part ∈ dirs ++ [last], a ∉ part) :
    trimStartMatches (dir ++ [a]) (join [a] (dirs ++ [last])) = join [a] (dirs.dropWhile (· = dir) ++ [last]) := by
  induction dirs with
  | nil => exact trimStartBare (stripPrefixNone.mpr (mt (headOpens plain clean).mp (by simp)))
  | cons first dirs ih =>
    by_cases same : first = dir
    · subst same
      have opened : join [a] ((first::dirs) ++ [last]) = (first ++ [a]) ++ join [a] (dirs ++ [last]) := by
        rw [joinLast,List.append_assoc]
      rw [opened,List.dropWhile_cons_of_pos (by simp),← ih fun part mem => clean part (List.mem_cons_of_mem _ mem)]
      exact trimStartStep (by simp) _
    · rw [List.dropWhile_cons_of_neg (by simpa using same)]
      exact trimStartBare (stripPrefixNone.mpr (mt (headOpens plain clean).mp (by simpa using same)))

end

theorem splitSome (sep text : Text) : split sep text ≠ [] := by
  have from_ : ∀ skip, splitFrom sep skip text ≠ [] := by
    induction text with
    | nil => intro skip; cases skip <;> simp [splitFrom]
    | cons c cs ih =>
      intro skip
      cases skip with
      | zero =>
        rw [splitFrom]
        split
        · exact List.cons_ne_nil _ _
        · cases rest : splitFrom sep 0 cs with
          | nil => exact absurd rest (ih 0)
          | cons piece more => simp
      | succ skip => exact ih skip
  exact from_ 0

/-- A separator of one character is an end of both texts beside it. -/
theorem splitSingle (a : Char) (left right : Text) : split [a] (left ++ a::right) = split [a] left ++ split [a] right := by
  induction left with
  | nil => exact splitHere a [] right
  | cons c cs ih =>
    by_cases here : c = a
    · subst here
      have whole := splitHere c [] (cs ++ c::right)
      have start := splitHere c [] cs
      simp only [List.singleton_append] at whole start
      rw [List.cons_append,whole,start,ih]
      rfl
    · have closed : ∀ tail : Text, ¬ [a].isPrefixOf (c::tail) = true := fun tail opens =>
        here (List.cons_prefix_cons.mp (List.isPrefixOf_iff_prefix.mp opens)).1.symm
      rw [List.cons_append,splitStep (closed _),splitStep (closed _),ih]
      cases pieces : split [a] cs with
      | nil => exact absurd pieces (splitSome _ _)
      | cons piece more => rfl

theorem joinSplit (a : Char) (sep : Text) : ∀ text : Text, join (a::sep) (split (a::sep) text) = text
  | [] => by simp [split,splitFrom,join]
  | c::cs => by
    by_cases opens : (a::sep).isPrefixOf (c::cs) = true
    · obtain ⟨rest,same⟩ := List.isPrefixOf_iff_prefix.mp opens
      have shorter : rest.length ≤ cs.length := by
        have length := congrArg List.length same
        simp only [List.length_append,List.length_cons] at length
        omega
      have later := joinSplit a sep rest
      rw [← same,splitHere]
      cases pieces : split (a::sep) rest with
      | nil => exact absurd pieces (splitSome _ _)
      | cons piece more => rw [joinCons,← pieces,later,List.nil_append]
    · have later := joinSplit a sep cs
      rw [splitStep opens]
      cases pieces : split (a::sep) cs with
      | nil => exact absurd pieces (splitSome _ _)
      | cons piece more =>
        rw [pieces] at later
        cases more with
        | nil => simpa [join] using later
        | cons next more =>
          rw [joinCons] at later
          rw [List.modifyHead_cons,joinCons,List.cons_append,later]
termination_by text => text.length

/-- Between two texts a separator of two different characters is an end of both. -/
theorem splitBetween {a b : Char} (different : a ≠ b) : ∀ left right : Text,
    split [a,b] (left ++ ([a,b] ++ right)) = split [a,b] left ++ split [a,b] right
  | [],right => by rw [List.nil_append,splitHere]; rfl
  | [c],right => by
    have first : Apart [a,b] [c] ([a,b] ++ right) :=
      apartPair (fun inside => by simpa using inside.length_le) fun edge => different
        (List.cons_prefix_cons.mp edge.2).1.symm
    have alone : Apart [a,b] [c] [] :=
      apartPair (fun inside => by simpa using inside.length_le) fun edge => by simpa using edge.2
    rw [splitFirst first,splitWhole alone]
    rfl
  | c::d::left,right => by
    by_cases opens : c = a ∧ d = b
    · obtain ⟨rfl,rfl⟩ := opens
      have rest := splitBetween different left right
      have whole := splitHere c [d] (left ++ ([c,d] ++ right))
      have start := splitHere c [d] left
      simp only [List.cons_append,List.nil_append] at rest whole start ⊢
      rw [whole,start,rest]
      rfl
    · have rest := splitBetween different (d::left) right
      have closed : ∀ tail : Text, ¬ [a,b].isPrefixOf (c::d::tail) = true := by
        intro tail opens_
        obtain ⟨rfl,tail_⟩ := List.cons_prefix_cons.mp (List.isPrefixOf_iff_prefix.mp opens_)
        exact opens ⟨rfl,(List.cons_prefix_cons.mp tail_).1.symm⟩
      simp only [List.cons_append] at rest ⊢
      rw [splitStep (closed _),splitStep (closed _),rest]
      cases pieces : split [a,b] (d::left) with
      | nil => exact absurd pieces (splitSome _ _)
      | cons piece more => rfl

/-- Whatever the parts are, joined by two different characters they are split one by one. -/
theorem splitParts {a b : Char} (different : a ≠ b) {parts : List Text} (some_ : parts ≠ []) :
    split [a,b] (join [a,b] parts) = parts.flatMap (split [a,b]) := by
  induction parts with
  | nil => exact absurd rfl some_
  | cons part rest ih =>
    cases rest with
    | nil => simp [join]
    | cons next more =>
      rw [joinCons,splitBetween different,ih (List.cons_ne_nil _ _)]
      rfl

/-- Empty texts are not joined, and empty pieces not kept. -/
theorem piecesKept {a b : Char} (different : a ≠ b) (texts : List Text) :
    (split [a,b] (join [a,b] (texts.filter fun text => !text.isEmpty))).filter (fun piece => !piece.isEmpty) =
      texts.flatMap fun text => (split [a,b] text).filter fun piece => !piece.isEmpty := by
  have kept : (texts.flatMap fun text => (split [a,b] text).filter fun piece => !piece.isEmpty) =
      ((texts.filter fun text => !text.isEmpty).flatMap (split [a,b])).filter fun piece => !piece.isEmpty := by
    induction texts with
    | nil => rfl
    | cons text rest ih =>
      rw [List.flatMap_cons,ih]
      cases text with
      | nil => rfl
      | cons c cs => rw [List.filter_cons_of_pos (by rfl),List.flatMap_cons,List.filter_append]
  rw [kept]
  cases none_ : texts.filter fun text => !text.isEmpty with
  | nil => rfl
  | cons text rest => rw [splitParts different (List.cons_ne_nil _ _)]

/-- A pattern that lacks the characters of a separator is found on one of its sides. -/
theorem infixAside {pat : Text} (some_ : pat ≠ []) {left right : Text} : ∀ {sep : Text}, sep ≠ [] →
    (∀ c ∈ sep, c ∉ pat) → pat <:+: left ++ (sep ++ right) → pat <:+: left ∨ pat <:+: right
  | [],none_,_,_ => absurd rfl none_
  | c::sep,_,lacks_,inside => by
    obtain ⟨before,after,same⟩ := inside
    have absent := lacks_ c List.mem_cons_self
    rw [List.append_assoc] at same
    -- The separator's first character stands before the occurrence or behind it.
    have sides : pat <:+: left ∨ pat <:+: sep ++ right := by
      rcases List.append_eq_append_iff.mp same with ⟨middle,rfl,rest⟩ | ⟨middle,start,rest⟩
      · rcases List.append_eq_append_iff.mp rest with ⟨inner,rfl,_⟩ | ⟨inner,start,more⟩
        · exact Or.inl ⟨before,inner,by simp⟩
        · cases inner with
          | nil => exact Or.inl ⟨before,[],by rw [start]; simp⟩
          | cons x xs =>
            obtain ⟨rfl,_⟩ := List.cons.inj more
            exact absurd (by rw [start]; simp) absent
      · cases middle with
        | nil =>
          cases pat with
          | nil => exact absurd rfl some_
          | cons x xs =>
            obtain ⟨rfl,_⟩ := List.cons.inj rest
            exact absurd List.mem_cons_self absent
        | cons x xs =>
          have more : sep ++ right = xs ++ (pat ++ after) := (List.cons.inj rest).2
          exact Or.inr ⟨xs,after,by rw [more,List.append_assoc]⟩
    rcases sides with here | there
    · exact Or.inl here
    · cases sep with
      | nil => exact Or.inr there
      | cons d ds =>
        have alone : pat <:+: [] ++ (d::ds ++ right) := there
        rcases infixAside some_ (List.cons_ne_nil d ds) (fun x mem => lacks_ x (List.mem_cons_of_mem _ mem)) alone with
          none_ | beyond
        · exact absurd (List.infix_nil.mp none_) some_
        · exact Or.inr beyond

theorem infixPart {pat sep : Text} (some_ : pat ≠ []) (sepSome : sep ≠ []) (lacks_ : ∀ c ∈ sep, c ∉ pat)
    {parts : List Text} (inside : pat <:+: join sep parts) : ∃ part ∈ parts, pat <:+: part := by
  induction parts with
  | nil => exact absurd (List.infix_nil.mp (by simpa [join,List.intercalate] using inside)) some_
  | cons part rest ih =>
    cases rest with
    | nil => exact ⟨part,List.mem_cons_self,by simpa [join] using inside⟩
    | cons next more =>
      rw [joinCons] at inside
      rcases infixAside some_ sepSome lacks_ inside with here | there
      · exact ⟨part,List.mem_cons_self,here⟩
      · obtain ⟨part_,mem,within⟩ := ih there
        exact ⟨part_,List.mem_cons_of_mem _ mem,within⟩

/-- Parts that are no longer and as long in all are as long each. -/
theorem sameSum {α : Type} {f g : α → Nat} {xs : List α} (less : ∀ x ∈ xs, f x ≤ g x) (same : (xs.map f).sum = (xs.map g).sum) :
    ∀ x ∈ xs, f x = g x := by
  induction xs with
  | nil => exact fun x mem => by cases mem
  | cons x xs ih =>
    obtain ⟨here,later⟩ := List.forall_mem_cons.mp less
    have rest := List.sum_le_sum later
    simp only [List.map_cons,List.sum_cons] at same
    exact List.forall_mem_cons.mpr ⟨by omega,ih later (by omega)⟩

end RustMcp.Splitting
