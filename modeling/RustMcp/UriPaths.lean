import RustMcp.Splitting

/-! The paths of URIs and how a relative reference is resolved, by RFC 3986: what is a scheme
and an authority (3.1, 3.2), the path before query and fragment (3.3), the merge with the path of
the base (5.2.3) and the removal of dot segments (5.2.4). -/
namespace RustMcp.UriPaths
open Str
open Splitting

def isSchemeChar (c : Char) : Bool := c.isAlphanum || c == '+' || c == '-' || c == '.'

def hasScheme (reference : Text) : Bool :=
  reference.head?.any Char.isAlpha && (reference.dropWhile isSchemeChar).head? == some ':'

def hasAuthority (reference : Text) : Bool := startsWith "//".toList reference

/-- The path of a reference that has neither. -/
def pathOf (reference : Text) : Text := reference.takeWhile fun c => c ≠ '?' && c ≠ '#'

/-- Takes the last segment away with the `/` before it, if any. -/
def dropSegment (output : Text) : Text := (output.rdropWhile (· ≠ '/')).dropLast

/-- The steps A to E of 5.2.4 on the input and output buffers. -/
def removeDotSegments (output input : Text) : Text :=
  if _more : input = [] then output
  else if startsWith "../".toList input then removeDotSegments output (input.drop 3)
  else if startsWith "./".toList input then removeDotSegments output (input.drop 2)
  else if startsWith "/./".toList input then removeDotSegments output (input.drop 2)
  else if _here : input = "/.".toList then removeDotSegments output ['/']
  else if startsWith "/../".toList input then removeDotSegments (dropSegment output) (input.drop 3)
  else if _parent : input = "/..".toList then removeDotSegments (dropSegment output) ['/']
  else if input = ".".toList ∨ input = "..".toList then output
  else
    removeDotSegments (output ++ input.take 1 ++ (input.drop 1).takeWhile (· ≠ '/')) ((input.drop 1).dropWhile (· ≠ '/'))
termination_by input.length
decreasing_by
  all_goals have some_ := List.length_pos_iff.mpr _more
  · rw [List.length_drop]; omega
  · rw [List.length_drop]; omega
  · rw [List.length_drop]; omega
  · rw [_here]; decide
  · rw [List.length_drop]; omega
  · rw [_parent]; decide
  · have less := (List.dropWhile_suffix (p := fun c => decide (c ≠ '/')) (l := input.drop 1)).length_le
    rw [List.length_drop] at less
    omega

example : removeDotSegments [] "/a/b/c/./../../g".toList = "/a/g".toList := by decide +kernel
example : removeDotSegments [] "mid/content=5/../6".toList = "mid/6".toList := by decide +kernel

def merge (base path : Text) : Text := base.rdropWhile (· ≠ '/') ++ path

/-- The path that a reference with this path leads to, from a page with the path `base`. -/
def resolvePath (base path : Text) : Text :=
  if path = [] then base
  else if startsWith "/".toList path then removeDotSegments [] path
  else removeDotSegments [] (merge base path)

/-! Paths by their segments. -/

def segments (path : Text) : List Text := split "/".toList path

/-- The path of segments, each with a `/` before it. -/
def render (segs : List Text) : Text := segs.flatMap ('/'::·)

def climb (out : List Text) (segment : Text) : List Text :=
  if segment = ".".toList then out
  else if segment = "..".toList then out.dropLast
  else out ++ [segment]

theorem renderCons (s : Text) (ss : List Text) : render (s::ss) = '/'::(s ++ render ss) := rfl

theorem renderAppend (ss ts : List Text) : render (ss ++ ts) = render ss ++ render ts := List.flatMap_append

theorem renderJoin (s : Text) (ss : List Text) : render (s::ss) = '/'::join "/".toList (s::ss) := by
  induction ss generalizing s with
  | nil => rw [renderCons,render,List.flatMap_nil,List.append_nil]; exact congrArg ('/'::·) List.intercalate_singleton.symm
  | cons t ss ih => rw [renderCons,ih t,joinCons]; rfl

theorem renderSegments (path : Text) : render (segments path) = '/'::path := by
  cases pieces : segments path with
  | nil => exact absurd pieces (splitSome _ _)
  | cons s ss => rw [renderJoin,← pieces]; exact congrArg ('/'::·) (joinSplit '/' [] path)

theorem segmentsSome (path : Text) : segments path ≠ [] := splitSome _ _

theorem segmentClean (path : Text) : ∀ segment ∈ segments path, '/' ∉ segment := by
  induction path with
  | nil =>
    intro segment mem
    rw [List.mem_singleton.mp mem]
    exact List.not_mem_nil
  | cons c path ih =>
    intro segment mem
    by_cases here : c = '/'
    · subst here
      have split_ : segments ('/'::path) = []::segments path := splitHere '/' [] path
      rw [split_] at mem
      rcases List.mem_cons.mp mem with rfl | later
      · exact List.not_mem_nil
      · exact ih segment later
    · have closed : ¬ "/".toList.isPrefixOf (c::path) = true := fun opens =>
        here (List.cons_prefix_cons.mp (List.isPrefixOf_iff_prefix.mp opens)).1.symm
      have split_ : segments (c::path) = (segments path).modifyHead (c::·) := splitStep closed
      rw [split_] at mem
      cases pieces : segments path with
      | nil => exact absurd pieces (segmentsSome path)
      | cons s ss =>
        rw [pieces] at mem ih
        rcases List.mem_cons.mp mem with rfl | later
        · exact List.not_mem_cons_of_ne_of_not_mem (Ne.symm here) (ih s List.mem_cons_self)
        · exact ih segment (List.mem_cons_of_mem _ later)

section
variable {s a : Text} {ss out segs : List Text}

theorem opensSegment (clean : '/' ∉ s) (other : '/' ∉ a) (ss : List Text) :
    startsWith (a ++ "/".toList) (s ++ render ss) = true ↔ s = a ∧ ss ≠ [] := by
  rw [startsWithIff]
  constructor
  · rintro ⟨rest,same⟩
    rw [List.append_assoc] at same
    cases ss with
    | nil =>
      rw [render,List.flatMap_nil,List.append_nil] at same
      exact absurd (same ▸ by simp) clean
    | cons t ss =>
      have cut := splitOnceAppend other rest
      change a ++ '/'::rest = s ++ '/'::(t ++ render ss) at same
      rw [same,splitOnceAppend clean] at cut
      cases cut
      exact ⟨rfl,List.cons_ne_nil _ _⟩
  · rintro ⟨rfl,some_⟩
    cases ss with
    | nil => exact absurd rfl some_
    | cons t ss => exact ⟨t ++ render ss,by rw [renderCons,List.append_assoc]; rfl⟩

theorem wholeSegment (other : '/' ∉ a) (ss : List Text) : s ++ render ss = a ↔ s = a ∧ ss = [] := by
  cases ss with
  | nil => simp [render]
  | cons t ss =>
    refine ⟨fun same => absurd (same ▸ ?_) other,fun both => by cases both.2⟩
    rw [renderCons]
    simp

theorem dropSegmentRender (clean : ∀ s ∈ out, '/' ∉ s) : dropSegment (render out) = render out.dropLast := by
  rcases List.eq_nil_or_concat out with rfl | ⟨init,s,rfl⟩
  · rfl
  · rw [List.concat_eq_append] at clean ⊢
    have absent : '/' ∉ s.reverse := fun mem => clean s (by simp) (List.mem_reverse.mp mem)
    have cut : (s.reverse ++ '/'::(render init).reverse).dropWhile (fun c => decide (c ≠ '/')) = '/'::(render init).reverse := by
      rw [dropUntil absent]
      simp
    have whole : (render (init ++ [s])).reverse = s.reverse ++ '/'::(render init).reverse := by
      simp [render]
    rw [List.dropLast_concat,dropSegment,List.rdropWhile,whole,cut,List.reverse_cons,List.reverse_reverse,List.dropLast_concat]

theorem cutSegment (clean : '/' ∉ s) (ss : List Text) :
    (s ++ render ss).takeWhile (· ≠ '/') = s ∧ (s ++ render ss).dropWhile (· ≠ '/') = render ss := by
  rw [takeUntil clean,dropUntil clean]
  cases ss with
  | nil => simp [render]
  | cons t ss => simp [renderCons]

/-! The merge of a reference with a base. -/

theorem mergeAbsolute (base path : Text) : merge ('/'::base) path = '/'::(base.rdropWhile (· ≠ '/') ++ path) := by
  rw [merge,List.rdropWhile,List.reverse_cons,List.dropWhile_append,← List.cons_append]
  refine congrArg (· ++ path) ?_
  split
  · rename_i none_
    rw [List.rdropWhile,List.isEmpty_iff.mp none_]
    rfl
  · rw [List.reverse_append]
    rfl

theorem mergedSegments (base path : Text) :
    segments (base.rdropWhile (· ≠ '/') ++ path) = (segments base).dropLast ++ segments path := by
  have whole : base.rdropWhile (· ≠ '/') ++ base.rtakeWhile (· ≠ '/') = base := List.rdropWhile_append_rtakeWhile
  have clean : '/' ∉ base.rtakeWhile (· ≠ '/') := fun mem => by
    have other := List.mem_rtakeWhile_imp mem
    simp at other
  have last (some_ : base.rdropWhile (· ≠ '/') ≠ []) := List.rdropWhile_last_not (fun c => decide (c ≠ '/')) base some_
  generalize base.rdropWhile (· ≠ '/') = dir at whole last
  generalize base.rtakeWhile (· ≠ '/') = name at whole clean
  have single : segments name = [name] := splitClean [] clean
  rcases List.eq_nil_or_concat dir with rfl | ⟨d,c,rfl⟩
  · rw [List.nil_append] at whole
    rw [← whole,single]
    rfl
  · rw [List.concat_eq_append] at whole last ⊢
    have slash : c = '/' := by simpa using last (by simp)
    subst slash
    have base_ : segments base = segments d ++ segments name := by
      rw [← whole,List.append_assoc]
      exact splitSingle '/' d name
    rw [base_,single,List.dropLast_concat,List.append_assoc]
    exact splitSingle '/' d path

/-! One segment of the input at a time. -/

/-- The steps on an input that starts with a `/`. -/
theorem absoluteStep (output rest : Text) : removeDotSegments output ('/'::rest) =
    if startsWith "./".toList rest then removeDotSegments output (rest.drop 1)
    else if rest = ".".toList then removeDotSegments output ['/']
    else if startsWith "../".toList rest then removeDotSegments (dropSegment output) (rest.drop 2)
    else if rest = "..".toList then removeDotSegments (dropSegment output) ['/']
    else removeDotSegments (output ++ '/'::rest.takeWhile (· ≠ '/')) (rest.dropWhile (· ≠ '/')) := by
  have up : startsWith "../".toList ('/'::rest) = false := rfl
  have on : startsWith "./".toList ('/'::rest) = false := rfl
  have here : startsWith "/./".toList ('/'::rest) = startsWith "./".toList rest := rfl
  have parent : startsWith "/../".toList ('/'::rest) = startsWith "../".toList rest := rfl
  have hereEnd : '/'::rest = "/.".toList ↔ rest = ".".toList := List.cons_inj_right '/'
  have parentEnd : '/'::rest = "/..".toList ↔ rest = "..".toList := List.cons_inj_right '/'
  have dots : ¬ ('/'::rest = ".".toList ∨ '/'::rest = "..".toList) := by
    rintro (same | same) <;> exact absurd (List.cons.inj same).1 (by decide)
  conv => lhs; rw [removeDotSegments]
  simp only [up,on,here,parent,hereEnd,parentEnd,if_neg dots,dif_neg (List.cons_ne_nil '/' rest),dite_eq_ite,Bool.false_eq_true,if_false,
    List.drop_succ_cons,List.drop_zero,List.take_succ_cons,List.take_zero,List.append_assoc,List.singleton_append]

theorem dotsRemovedStep (clean : '/' ∉ s) (last : ss = [] → s ≠ ".".toList ∧ s ≠ "..".toList) (output : Text) :
    removeDotSegments output (render (s::ss)) =
      if s = ".".toList then removeDotSegments output (render ss)
      else if s = "..".toList then removeDotSegments (dropSegment output) (render ss)
      else removeDotSegments (output ++ '/'::s) (render ss) := by
  have opensHere : startsWith "./".toList (s ++ render ss) = true ↔ s = ".".toList ∧ ss ≠ [] :=
    opensSegment clean (a := ".".toList) (by decide) ss
  have opensParent : startsWith "../".toList (s ++ render ss) = true ↔ s = "..".toList ∧ ss ≠ [] :=
    opensSegment clean (a := "..".toList) (by decide) ss
  have isHere : s ++ render ss = ".".toList ↔ s = ".".toList ∧ ss = [] := wholeSegment (by decide) ss
  have isParent : s ++ render ss = "..".toList ↔ s = "..".toList ∧ ss = [] := wholeSegment (by decide) ss
  obtain ⟨took,dropped⟩ := cutSegment clean ss
  rw [renderCons,absoluteStep,took,dropped]
  by_cases here : s = ".".toList
  · have more : ss ≠ [] := fun empty => (last empty).1 here
    rw [if_pos (opensHere.mpr ⟨here,more⟩),if_pos here,here]
    rfl
  · rw [if_neg fun opens => here (opensHere.mp opens).1,if_neg fun same => here (isHere.mp same).1,if_neg here]
    by_cases parent : s = "..".toList
    · have more : ss ≠ [] := fun empty => (last empty).2 parent
      rw [if_pos (opensParent.mpr ⟨parent,more⟩),if_pos parent,parent]
      rfl
    · rw [if_neg fun opens => parent (opensParent.mp opens).1,if_neg fun same => parent (isParent.mp same).1,if_neg parent]

theorem climbClean (cleanOut : ∀ s ∈ out, '/' ∉ s) (clean : '/' ∉ s) : ∀ t ∈ climb out s, '/' ∉ t := by
  intro t mem
  rw [climb] at mem
  split at mem
  · exact cleanOut t mem
  · split at mem
    · exact cleanOut t (List.mem_of_mem_dropLast mem)
    · rcases List.mem_append.mp mem with before | here
      · exact cleanOut t before
      · exact List.mem_singleton.mp here ▸ clean

/-- Without a dot segment at the end, what is left of a path is what is left of its segments. -/
theorem dotsRemoved (cleanOut : ∀ s ∈ out, '/' ∉ s) (clean : ∀ s ∈ segs, '/' ∉ s)
    (last : ∀ s ∈ segs.getLast?, s ≠ ".".toList ∧ s ≠ "..".toList) :
    removeDotSegments (render out) (render segs) = render (segs.foldl climb out) := by
  induction segs generalizing out with
  | nil =>
    rw [removeDotSegments]
    rfl
  | cons s ss ih =>
    have here := clean s List.mem_cons_self
    have ending : ss = [] → s ≠ ".".toList ∧ s ≠ "..".toList := by
      rintro rfl
      exact last s rfl
    have later : ∀ t ∈ ss.getLast?, t ≠ ".".toList ∧ t ≠ "..".toList := by
      intro t final
      refine last t ?_
      rw [List.getLast?_cons,final]
      rfl
    rw [List.foldl_cons,← ih (climbClean cleanOut here) (fun t mem => clean t (List.mem_cons_of_mem _ mem)) later,
      dotsRemovedStep here ending,climb,dropSegmentRender cleanOut]
    split
    · rfl
    · split
      · rfl
      · rw [renderAppend]
        simp [render]

end

end RustMcp.UriPaths
