import RustMcp.SecuritySync
import RustMcp.Splitting

/-! The frontmatter of an advisory document, as its lines have it, and where the search of
`split_toml_frontmatter` for the closing marker departs from that. -/
namespace RustMcp.Frontmatter
open Str SecuritySync Splitting

def markers : List Text := ["+++".toList,"---".toList]

/-- A first line is the marker also with white space around it. -/
def paddedMarker (line : Text) : Option Text := if trim line ∈ markers then some (trim line) else none

def exactMarker (line : Text) : Option Text := if line ∈ markers then some line else none

/-- What stands between a document's first line and the first later line that is the same
marker, less the end of its last line, and what follows that line. -/
def frontmatterOf (opening : Text → Option Text) (markdown : Text) : Option (Text × Text) :=
  match splitInclusive markdown with
  | [] => none
  | first::rest => do
      let marker ← opening (stripLineEnd first)
      match rest.span (stripLineEnd · ≠ marker) with
      | (_,[]) => none
      | (between,_::after) => some (stripLineEnd between.flatten,after.flatten)

/-- The search finds a closing line that is not the second line, that a line feed ends, and
that no carriage return precedes. -/
def FoundAt (marker : Text) (rest : List Text) : Prop :=
  match rest.span (stripLineEnd · ≠ marker) with
  | (_,[]) => True
  | (between,closing::_) => between ≠ [] ∧ closing = marker ++ ['\n'] ∧ ¬ ['\r','\n'] <:+ between.flatten

/-- So it does for a first line that `opening` reads as the marker. -/
def ClosedPlainly (opening : Text → Option Text) (markdown : Text) : Prop :=
  match splitInclusive markdown with
  | [] => True
  | first::rest => ∀ marker, opening (stripLineEnd first) = some marker → FoundAt marker rest

/-- A document whose first line is the marker only once it is trimmed has no line that the
search takes for its end. -/
def OpensPlainly (markdown : Text) : Prop :=
  match splitInclusive markdown with
  | [] => True
  | first::rest => exactMarker (stripLineEnd first) = none → ∀ marker, paddedMarker (stripLineEnd first) = some marker →
      marker ++ ['\n'] ∉ rest.tail

/-- A text is its last line, or a line and a text behind it. -/
theorem linesInduction {P : Text → Prop} (last : ∀ line, '\n' ∉ line → P line)
    (more : ∀ line rest, '\n' ∉ line → P rest → P (line ++ '\n'::rest)) (text : Text) : P text := by
  by_cases mem : '\n' ∈ text
  · obtain ⟨line,rest,split,clean⟩ := List.eq_append_cons_of_mem mem
    rw [split]
    exact more line rest clean (linesInduction last more rest)
  · exact last text mem
termination_by text.length
decreasing_by simp [split]; omega

theorem linesFlatten (text : Text) : (splitInclusive text).flatten = text := by
  induction text using linesInduction with
  | last line clean =>
    cases line with
    | nil => rfl
    | cons c line => rw [splitInclusiveSingle (List.cons_ne_nil _ _) clean]; simp
  | more line rest clean ih => rw [splitInclusiveLine clean]; simp [ih]

def endMarker (marker : Text) : Text := '\n'::marker ++ "\n".toList

/-- Behind a line the search looks whether the next one is the marker. -/
theorem closingLine (marker : Text) {line : Text} (clean : '\n' ∉ line) (rest : Text) :
    splitOnceAt (endMarker marker) (line ++ '\n'::rest) = match stripPrefix (marker ++ ['\n']) rest with
      | some body => some (line,body)
      | none => (splitOnceAt (endMarker marker) rest).map fun p => (line ++ '\n'::p.1,p.2) := by
  rw [endMarker,List.cons_append,cutBehind _ clean,splitOnceAt,stripPrefixCons]
  change ((match stripPrefix (marker ++ ['\n']) rest with
    | some rest => some ([],rest)
    | none => (splitOnceAt (endMarker marker) rest).map fun p : Text × Text => ('\n'::p.1,p.2)).map fun p : Text × Text =>
      (line ++ p.1,p.2)) = _
  cases stripPrefix (marker ++ ['\n']) rest with
  | some body => simp
  | none => simp only [Option.map_map]; rfl

theorem closingNone (marker : Text) {line : Text} (clean : '\n' ∉ line) : splitOnceAt (endMarker marker) line = none :=
  cutAbsent _ clean

theorem firstLine {marker rest line : Text} {lines : List Text} (other : stripPrefix (marker ++ ['\n']) rest = none)
    (first : splitInclusive rest = line::lines) : line ≠ marker ++ ['\n'] := by
  rintro rfl
  have whole := linesFlatten rest
  rw [first,List.flatten_cons] at whole
  exact absurd (stripPrefixIff.mpr whole.symm) (by simp [other])

/-- What the search cuts is told by the lines: the first of them, from the second on, that is
the marker and a line feed. -/
structure CutAt (marker : Text) (lines : List Text) (front body : Text) (between after : List Text) : Prop where
  some_ : between ≠ []
  lines_ : lines = between ++ (marker ++ ['\n'])::after
  first : marker ++ ['\n'] ∉ between.tail
  front_ : between.flatten = front ++ ['\n']
  body_ : after.flatten = body

theorem splitAtClosing {marker : Text} (clean : '\n' ∉ marker) (text : Text) :
    match splitOnceAt (endMarker marker) text with
    | some (front,body) => ∃ between after, CutAt marker (splitInclusive text) front body between after
    | none => marker ++ ['\n'] ∉ (splitInclusive text).tail := by
  induction text using linesInduction with
  | last line single =>
    rw [closingNone marker single]
    cases line with
    | nil => simp [splitInclusive]
    | cons c line => simp [splitInclusiveSingle (List.cons_ne_nil _ _) single]
  | more line rest single ih =>
    rw [closingLine marker single,splitInclusiveLine single]
    cases here : stripPrefix (marker ++ ['\n']) rest with
    | some body =>
      refine ⟨[line ++ ['\n']],splitInclusive body,by simp,?_,by simp,by simp,linesFlatten body⟩
      rw [stripPrefixIff.mp here,List.append_assoc,List.singleton_append,splitInclusiveLine clean]
      rfl
    | none =>
      have head {first : Text} {lines : List Text} (opens : splitInclusive rest = first::lines) := firstLine here opens
      cases found : splitOnceAt (endMarker marker) rest with
      | some cut =>
        rw [found] at ih
        obtain ⟨between,after,cutAt⟩ := ih
        refine ⟨(line ++ ['\n'])::between,after,by simp,by simp [cutAt.lines_],?_,by simp [cutAt.front_],cutAt.body_⟩
        cases between with
        | nil => exact absurd rfl cutAt.some_
        | cons first between =>
          exact List.not_mem_cons_of_ne_of_not_mem (Ne.symm (head cutAt.lines_)) cutAt.first
      | none =>
        rw [found] at ih
        change marker ++ ['\n'] ∉ splitInclusive rest
        cases opens : splitInclusive rest with
        | nil => simp
        | cons first lines =>
          rw [opens] at ih
          exact List.not_mem_cons_of_ne_of_not_mem (Ne.symm (head opens)) ih

theorem markerLine {marker : Text} (known : marker ∈ markers) : '\n' ∉ marker ∧ '\r' ∉ marker ∧ trim marker = marker := by
  rcases List.mem_cons.mp known with rfl | rest
  · decide
  · rw [List.mem_singleton.mp rest]; decide

theorem markerEnded {marker : Text} (plain : '\r' ∉ marker) : stripLineEnd (marker ++ ['\n']) = marker := by
  rw [stripLineEnd,stripSuffixAppend]
  change (stripSuffix ['\r'] marker).getD marker = marker
  rw [stripSuffixAbsent plain]
  rfl

theorem frontEnded (front : Text) : stripLineEnd (front ++ ['\n']) = front ↔ ¬ ['\r','\n'] <:+ front ++ ['\n'] := by
  have pair : ['\r','\n'] <:+ front ++ ['\n'] ↔ ['\r'] <:+ front := by
    change ['\r'] ++ ['\n'] <:+ _ ↔ _
    exact List.suffix_append_self_iff
  rw [stripLineEnd,stripSuffixAppend,pair]
  change (stripSuffix ['\r'] front).getD front = front ↔ _
  unfold stripSuffix
  split
  · rename_i ends
    have some_ : 0 < front.length := by
      have length := (List.isSuffixOf_iff_suffix.mp ends).length_le
      exact length
    refine iff_of_false (fun same => ?_) fun absent => absent (List.isSuffixOf_iff_suffix.mp ends)
    have length := congrArg List.length same
    simp only [Option.getD_some,List.length_take,List.length_singleton] at length
    omega
  · rename_i ends
    exact iff_of_true rfl fun suffix => ends (List.isSuffixOf_iff_suffix.mpr suffix)

/-- Two ways to cut a list at a member: at the same one, or one of them further on. -/
theorem cutTwice {α : Type} {xs ys as bs : List α} {a b : α} (same : xs ++ a::as = ys ++ b::bs) :
    (xs = ys ∧ a = b ∧ as = bs) ∨ (∃ middle, ys = xs ++ a::middle ∧ as = middle ++ b::bs) ∨
      (∃ middle, xs = ys ++ b::middle ∧ bs = middle ++ a::as) := by
  rcases List.append_eq_append_iff.mp same with ⟨middle,start,tail⟩ | ⟨middle,start,tail⟩ <;> cases middle with
  | nil =>
    obtain ⟨rfl,rfl⟩ := List.cons.inj tail
    exact Or.inl ⟨by simp [start],rfl,rfl⟩
  | cons c middle =>
    obtain ⟨rfl,rfl⟩ := List.cons.inj tail
    first
    | exact Or.inr (Or.inl ⟨middle,start,rfl⟩)
    | exact Or.inr (Or.inr ⟨middle,start,rfl⟩)

/-- Where the cut is further on, more of the text lies before it. -/
theorem cutFurther {marker front body : Text} {lines between after before middle behind : List Text} {closing : Text}
    (cutAt : CutAt marker lines front body before behind) (start : before = between ++ closing::middle)
    (tail : after = middle ++ (marker ++ ['\n'])::behind) :
    body ≠ after.flatten ∧ (closing = marker ++ ['\n'] → between = []) := by
  constructor
  · intro same
    have longer := congrArg List.length (same.symm.trans cutAt.body_.symm)
    have some_ : 0 < (marker ++ ['\n']).length := by simp
    simp only [tail,List.flatten_append,List.flatten_cons,List.length_append] at longer some_
    omega
  · rintro rfl
    have first := cutAt.first
    rw [start] at first
    cases between with
    | nil => rfl
    | cons head between => exact absurd (by simp) first

/-- The first line that is the marker, however it ends, against the one that is found. -/
theorem foundAtIff {marker : Text} (known : marker ∈ markers) (text : Text) :
    (splitOnceAt (endMarker marker) text = match (splitInclusive text).span (stripLineEnd · ≠ marker) with
      | (_,[]) => none
      | (between,_::after) => some (stripLineEnd between.flatten,after.flatten)) ↔ FoundAt marker (splitInclusive text) := by
  obtain ⟨clean,plain,-⟩ := markerLine known
  have cut := splitAtClosing clean text
  rw [FoundAt]
  generalize splitInclusive text = lines at *
  have whole : lines.takeWhile (stripLineEnd · ≠ marker) ++ lines.dropWhile (stripLineEnd · ≠ marker) = lines :=
    List.takeWhile_append_dropWhile
  have unlike : ∀ line ∈ lines.takeWhile (stripLineEnd · ≠ marker), stripLineEnd line ≠ marker := fun line mem =>
    of_decide_eq_true (List.mem_takeWhile_imp (p := fun line => stripLineEnd line ≠ marker) mem)
  rw [List.span_eq_takeWhile_dropWhile]
  generalize lines.takeWhile (stripLineEnd · ≠ marker) = between at *
  cases rest : lines.dropWhile (stripLineEnd · ≠ marker) with
  | nil =>
    rw [rest,List.append_nil] at whole
    subst whole
    cases found : splitOnceAt (endMarker marker) text with
    | none => simp
    | some split =>
      rw [found] at cut
      obtain ⟨between_,after,cutAt⟩ := cut
      exact absurd (markerEnded plain) (unlike _ (by simp [cutAt.lines_]))
  | cons closing after =>
    rw [rest] at whole
    cases found : splitOnceAt (endMarker marker) text with
    | none =>
      rw [found] at cut
      refine iff_of_false (by simp) ?_
      rintro ⟨some_,rfl,-⟩
      cases between with
      | nil => exact some_ rfl
      | cons first between => exact cut (by simp [← whole])
    | some split =>
      rw [found] at cut
      obtain ⟨before,behind,cutAt⟩ := cut
      rcases cutTwice (whole.trans cutAt.lines_) with ⟨rfl,rfl,rfl⟩ | ⟨middle,start,tail⟩ | ⟨middle,start,-⟩
      · change some split = some (stripLineEnd between.flatten,after.flatten) ↔
          between ≠ [] ∧ marker ++ ['\n'] = marker ++ ['\n'] ∧ ¬ ['\r','\n'] <:+ between.flatten
        rw [cutAt.front_,← frontEnded,Option.some.injEq,Prod.ext_iff,cutAt.body_,eq_comm]
        simp [cutAt.some_]
      · obtain ⟨differ,early⟩ := cutFurther cutAt start tail
        exact iff_of_false (fun same => differ (Prod.ext_iff.mp (Option.some.inj same)).2)
          fun ⟨some_,ended,_⟩ => some_ (early ended)
      · exact absurd (markerEnded plain) (unlike _ (by simp [start]))

theorem splitSingleLine {markdown : Text} (single : '\n' ∉ markdown) : splitTomlFrontmatter markdown = none := by
  unfold splitTomlFrontmatter
  rw [splitOnceNone.mpr single]
  cases (lines markdown).head? with
  | none => rfl
  | some first =>
    change (if _ then none else (none : Option _).bind _) = none
    split <;> rfl

theorem splitBehind {line : Text} (single : '\n' ∉ line) (rest : Text) :
    splitTomlFrontmatter (line ++ '\n'::rest) =
      (paddedMarker (stripLineEnd (line ++ ['\n']))).bind fun marker => splitOnceAt (endMarker marker) rest := by
  unfold splitTomlFrontmatter paddedMarker
  rw [splitOnceAppend single,lines,splitInclusiveLine single,List.map_cons,List.head?_cons]
  generalize stripLineEnd (line ++ ['\n']) = first
  change (if (trim first ≠ "+++".toList && trim first ≠ "---".toList) = true then none
    else splitOnceAt (endMarker (trim first)) rest) = _
  by_cases known : trim first ∈ markers
  · rw [if_pos known,if_neg]
    · rfl
    · simpa [markers,or_iff_not_imp_left] using known
  · rw [if_neg known,if_pos]
    · rfl
    · simpa [markers] using known

theorem exactPadded {line marker : Text} (exact_ : exactMarker line = some marker) :
    marker ∈ markers ∧ paddedMarker line = some marker := by
  unfold exactMarker at exact_
  split at exact_ <;> try contradiction
  rename_i known
  cases exact_
  have trimmed := (markerLine known).2.2
  exact ⟨known,by rw [paddedMarker,trimmed,if_pos known]⟩

theorem paddedKnown {line marker : Text} (padded : paddedMarker line = some marker) : marker ∈ markers := by
  unfold paddedMarker at padded
  split at padded <;> try contradiction
  cases padded
  assumption

theorem searchNoneIff {marker : Text} (known : marker ∈ markers) (text : Text) :
    splitOnceAt (endMarker marker) text = none ↔ marker ++ ['\n'] ∉ (splitInclusive text).tail := by
  have cut := splitAtClosing (markerLine known).1 text
  cases found : splitOnceAt (endMarker marker) text with
  | none =>
    rw [found] at cut
    exact iff_of_true rfl cut
  | some split =>
    rw [found] at cut
    obtain ⟨between,after,cutAt⟩ := cut
    refine iff_of_false (by simp) fun absent => absent ?_
    cases between with
    | nil => exact absurd rfl cutAt.some_
    | cons first between => simp [cutAt.lines_]

theorem frontmatterCut (markdown : Text) :
    (splitTomlFrontmatter markdown = frontmatterOf paddedMarker markdown ↔ ClosedPlainly paddedMarker markdown) ∧
    (splitTomlFrontmatter markdown = frontmatterOf exactMarker markdown ↔
      ClosedPlainly exactMarker markdown ∧ OpensPlainly markdown) := by
  unfold frontmatterOf ClosedPlainly OpensPlainly
  induction markdown using linesInduction with
  | last line single =>
    rw [splitSingleLine single]
    cases line with
    | nil => simp [splitInclusive]
    | cons c line =>
      rw [splitInclusiveSingle (List.cons_ne_nil _ _) single]
      cases padded : paddedMarker (stripLineEnd (c::line)) <;> cases exact_ : exactMarker (stripLineEnd (c::line)) <;>
        simp [List.span,List.span.loop,FoundAt]
  | more line rest single _ =>
    rw [splitBehind single,splitInclusiveLine single]
    dsimp only
    generalize stripLineEnd (line ++ ['\n']) = first
    constructor
    · cases padded : paddedMarker first with
      | none => simp
      | some marker => simpa using foundAtIff (paddedKnown padded) rest
    · cases exact_ : exactMarker first with
      | some marker =>
        obtain ⟨known,padded⟩ := exactPadded exact_
        simpa [padded] using foundAtIff known rest
      | none =>
        cases padded : paddedMarker first with
        | none => simp
        | some marker => simpa using searchNoneIff (paddedKnown padded) rest

/-- A document with carriage returns, and one whose last line is the marker. -/
theorem markerNotFound :
    (let crlf := "+++\r\nid = 1\r\n+++\r\n# Title\r\n".toList
     splitTomlFrontmatter crlf = none ∧
      frontmatterOf exactMarker crlf = some ("id = 1".toList,"# Title\r\n".toList)) ∧
    (let open_ := "+++\nid = 1\n+++".toList
     splitTomlFrontmatter open_ = none ∧ frontmatterOf exactMarker open_ = some ("id = 1".toList,[])) := by
  decide +kernel

end RustMcp.Frontmatter
