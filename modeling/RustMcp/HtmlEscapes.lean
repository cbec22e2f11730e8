import RustMcp.DocsCrawl
import RustMcp.Splitting

/-! Plain text that was escaped for HTML, and what `strip_html` makes of it: entities are
decoded by one replacement after the other. -/
namespace RustMcp.HtmlEscapes
open Str
open DocsCrawl (replace splitWhitespace stripTags stripHtml maxExtractedDocsContentChars)

/-! Replacement, from left to right. -/

section
variable {pat with_ : Text}

theorem joinHead (sep : Text) (c : Char) {parts : List Text} (some_ : parts ≠ []) :
    join sep (parts.modifyHead (c :: ·)) = c :: join sep parts := by
  cases parts with
  | nil => contradiction
  | cons p ps => cases ps <;> simp [join,List.intercalate,List.intersperse]

theorem replaceSkip {c : Char} {cs : Text} (absent : ¬pat <+: c::cs) : replace pat with_ (c::cs) = c :: replace pat with_ cs := by
  have none_ : ¬pat.isPrefixOf (c::cs) = true := fun here => absent (List.isPrefixOf_iff_prefix.mp here)
  rw [replace,split,splitFrom,if_neg none_]
  exact joinHead with_ c (Splitting.splitSome pat cs)

theorem replaceHere (some_ : pat ≠ []) (rest : Text) : replace pat with_ (pat ++ rest) = with_ ++ replace pat with_ rest := by
  cases pat with
  | nil => contradiction
  | cons a sep =>
    have cut := splitCleanAppend sep (List.not_mem_nil : a ∉ []) rest
    rw [List.nil_append] at cut
    rw [replace,cut,replace]
    cases pieces : split (a::sep) rest with
    | nil => exact absurd pieces (Splitting.splitSome _ rest)
    | cons p ps => simp [join,List.intercalate,List.intersperse]

/-- Nothing is replaced where no match can start. -/
theorem replaceClean {a : Char} {sep head : Text} (clean : a ∉ head) (rest : Text) :
    replace (a::sep) with_ (head ++ rest) = head ++ replace (a::sep) with_ rest := by
  induction head with
  | nil => rfl
  | cons c cs ih =>
    have absent : ¬(a::sep) <+: c::(cs ++ rest) := fun here => clean ((List.cons_prefix_cons.mp here).1 ▸ List.mem_cons_self)
    rw [List.cons_append,replaceSkip absent,ih fun mem => clean (List.mem_cons_of_mem _ mem)]
    rfl

theorem replaceAbsent {text : Text} (absent : ¬pat <:+: text) : replace pat with_ text = text := by
  induction text with
  | nil => rfl
  | cons c cs ih =>
    rw [replaceSkip fun here => absent here.isInfix,ih fun inside => absent (List.infix_cons inside)]

/-- A replacement by fewer characters of a kind leaves fewer, if there is anything to replace. -/
theorem replaceCount {p : Char → Bool} (fewer : with_.countP p < pat.countP p) (text : Text) :
    (replace pat with_ text).countP p ≤ text.countP p ∧
      (pat <:+: text → (replace pat with_ text).countP p < text.countP p) := by
  have some_ : pat ≠ [] := by rintro rfl; simp at fewer
  induction length : text.length using Nat.strong_induction_on generalizing text with
  | _ n ih =>
    cases text with
    | nil => exact ⟨le_refl _,fun inside => absurd (List.infix_nil.mp inside) some_⟩
    | cons c cs =>
      by_cases here : pat <+: c::cs
      · obtain ⟨rest,shape⟩ := here
        have shorter : rest.length < n := by
          have lengths := congrArg List.length shape
          have long := List.length_pos_iff.mpr some_
          simp only [List.length_append] at lengths
          omega
        have after := (ih rest.length shorter rest rfl).1
        rw [← shape,replaceHere some_,List.countP_append,List.countP_append]
        exact ⟨by omega,fun _ => by omega⟩
      · have after := ih cs.length (by simp only [List.length_cons] at length; omega) cs rfl
        rw [replaceSkip here,List.countP_cons,List.countP_cons]
        refine ⟨by omega,fun inside => ?_⟩
        have later := after.2 ((List.infix_cons_iff.mp inside).resolve_left here)
        omega

end

/-! Runs of white space as one space. -/

def collapse (text : Text) : Text := join " ".toList (splitWhitespace text)

theorem splitOnFlat (p : Char → Bool) (text : Text) : (text.splitOnP p).flatten = text.filter fun c => !p c := by
  induction text with
  | nil => rfl
  | cons c cs ih =>
    rw [List.splitOnP_cons_eq_if_modifyHead,List.filter_cons]
    cases white : p c with
    | true => simpa using ih
    | false =>
      rw [← ih]
      cases pieces : cs.splitOnP p with
      | nil => exact absurd pieces (List.splitOnP_ne_nil p cs)
      | cons piece pieces => simp

theorem splitOnLength (p : Char → Bool) (text : Text) :
    (text.splitOnP p).flatten.length + (text.splitOnP p).length = text.length + 1 := by
  induction text with
  | nil => rfl
  | cons c cs ih =>
    rw [List.splitOnP_cons_eq_if_modifyHead]
    cases p c with
    | true => simp only [if_true,List.flatten_cons,List.nil_append,List.length_cons] at ih ⊢; omega
    | false =>
      cases pieces : cs.splitOnP p with
      | nil => exact absurd pieces (List.splitOnP_ne_nil p cs)
      | cons piece pieces =>
        rw [pieces] at ih
        simp only [Bool.false_eq_true,if_false,List.modifyHead_cons,List.flatten_cons,List.length_append,List.length_cons] at ih ⊢
        omega

theorem flattenFilled (pieces : List Text) : (pieces.filter fun piece => !piece.isEmpty).flatten = pieces.flatten := by
  induction pieces with
  | nil => rfl
  | cons piece pieces ih => cases piece <;> simpa using ih

theorem joinLength (sep : Char) (pieces : List Text) : (join [sep] pieces).length ≤ pieces.flatten.length + (pieces.length - 1) := by
  induction pieces with
  | nil => simp [join,List.intercalate]
  | cons piece pieces ih =>
    cases pieces with
    | nil => simp [join,List.intercalate]
    | cons other others =>
      rw [joinCons]
      simp only [List.length_append,List.flatten_cons,List.length_cons,List.length_nil] at ih ⊢
      omega

theorem collapseLength (text : Text) : (collapse text).length ≤ text.length := by
  have joined := joinLength ' ' (splitWhitespace text)
  have pieces := splitOnLength isWhiteSpace text
  have kept : (splitWhitespace text).length ≤ (text.splitOnP isWhiteSpace).length := List.length_filter_le _ _
  have some_ := List.length_pos_iff.mpr (List.splitOnP_ne_nil isWhiteSpace text)
  have flat : (splitWhitespace text).flatten = (text.splitOnP isWhiteSpace).flatten := flattenFilled _
  change (join [' '] (splitWhitespace text)).length ≤ _
  rw [flat] at joined
  omega

theorem joinCount {p : Char → Bool} {sep : Char} (blank : p sep = false) (pieces : List Text) :
    (join [sep] pieces).countP p = pieces.flatten.countP p := by
  induction pieces with
  | nil => rfl
  | cons piece pieces ih =>
    cases pieces with
    | nil => simp [join,List.intercalate]
    | cons other others =>
      rw [joinCons,List.countP_append,List.countP_append,ih,List.flatten_cons,List.countP_append]
      simp [blank]

def inked (c : Char) : Bool := !isWhiteSpace c

theorem collapseCount (text : Text) : (collapse text).countP inked = text.countP inked := by
  have flat : (splitWhitespace text).flatten = text.filter inked := (flattenFilled _).trans (splitOnFlat isWhiteSpace text)
  change (join [' '] (splitWhitespace text)).countP inked = _
  rw [joinCount (by decide),flat,List.countP_filter]
  simp

/-! Escaped text, and tags between its characters. -/

def escapeChar (c : Char) : Text :=
  if c = '&' then "&amp;".toList else if c = '<' then "&lt;".toList else if c = '>' then "&gt;".toList else [c]

def escape (text : Text) : Text := text.flatMap escapeChar

/-- The text with tags inserted: between two of its characters, or before or after them. -/
inductive Tagged : Text → Text → Prop where
  | done : Tagged [] []
  | char (c : Char) {text html : Text} (rest : Tagged text html) : Tagged (c::text) (c::html)
  | tag {body : Text} (open_ : '>' ∉ body) {text html : Text} (rest : Tagged text html) : Tagged text ('<'::(body ++ '>'::html))

theorem tagSkipped {body : Text} (open_ : '>' ∉ body) (html : Text) : stripTags true (body ++ '>'::html) = stripTags false html := by
  induction body with
  | nil => rfl
  | cons c cs ih =>
    have rest := ih fun mem => open_ (List.mem_cons_of_mem _ mem)
    have inside : c ≠ '>' := fun same => open_ (same ▸ List.mem_cons_self)
    rw [List.cons_append,stripTags]
    split
    · exact rest
    · simpa [inside] using rest

theorem tagsStripped {text html : Text} (tagged : Tagged text html) (opens : '<' ∉ text) (closes : '>' ∉ text) :
    stripTags false html = text := by
  induction tagged with
  | done => rfl
  | char c _ ih =>
    obtain ⟨less,opens⟩ := not_or.mp (mt List.mem_cons.mpr opens)
    obtain ⟨more,closes⟩ := not_or.mp (mt List.mem_cons.mpr closes)
    rw [stripTags,if_neg (Ne.symm less),if_neg (Ne.symm more),ih opens closes]
    rfl
  | tag open_ _ ih =>
    rw [stripTags,if_pos rfl,tagSkipped open_]
    exact ih opens closes

theorem escapeClean {angle : Char} (either : angle = '<' ∨ angle = '>') (text : Text) : angle ∉ escape text := by
  intro mem
  obtain ⟨plain,_,inside⟩ := List.mem_flatMap.mp mem
  unfold escapeChar at inside
  split at inside
  · rcases either with rfl | rfl <;> revert inside <;> decide
  · split at inside
    · rcases either with rfl | rfl <;> revert inside <;> decide
    · split at inside
      · rcases either with rfl | rfl <;> revert inside <;> decide
      · rename_i less more
        rw [← List.mem_singleton.mp inside] at less more
        exact either.elim less more

/-! The replacements, one after the other. -/

/-- What is left of the escaping after `&amp;` is decoded, and after `&lt;` is. -/
def escapeAngles (c : Char) : Text := if c = '<' then "&lt;".toList else if c = '>' then "&gt;".toList else [c]

def escapeMore (c : Char) : Text := if c = '>' then "&gt;".toList else [c]

/-- An entity is not replaced by another whose name starts otherwise. -/
theorem entityKept {a b c : Char} {pat with_ name : Text} (clean : a ∉ c::name) (other : b ≠ c) (rest : Text) :
    replace (a::b::pat) with_ ((a::c::name) ++ rest) = (a::c::name) ++ replace (a::b::pat) with_ rest := by
  have absent : ¬(a::b::pat) <+: a::((c::name) ++ rest) := fun here =>
    other (List.cons_prefix_cons.mp (List.cons_prefix_cons.mp here).2).1
  rw [List.cons_append,replaceSkip absent,replaceClean clean]
  rfl

theorem charKept {pat with_ rest : Text} {a c : Char} (other : a ≠ c) :
    replace (a::pat) with_ (c::rest) = c :: replace (a::pat) with_ rest :=
  replaceSkip fun here => other (List.cons_prefix_cons.mp here).1

/-- A word without `&` starts an encoded text just when it starts the text. -/
theorem wordStarts {encode : Char → Text} (own : ∀ c, encode c = [c] ∨ ∃ rest, encode c = '&'::rest) {word : Text}
    (clean : ∀ c ∈ word, encode c = [c] ∧ c ≠ '&') (text : Text) : word <+: text.flatMap encode ↔ word <+: text := by
  induction word generalizing text with
  | nil => simp
  | cons w ws ih =>
    have first := clean w List.mem_cons_self
    cases text with
    | nil => simp
    | cons c cs =>
      rw [List.flatMap_cons]
      by_cases same : w = c
      · subst same
        rw [first.1,List.singleton_append,List.cons_prefix_cons,List.cons_prefix_cons,
          ih fun c mem => clean c (List.mem_cons_of_mem _ mem)]
      · refine iff_of_false (fun here => ?_) fun here => same (List.cons_prefix_cons.mp here).1
        rcases own c with plain | ⟨rest,entity⟩
        · rw [plain,List.singleton_append] at here
          exact same (List.cons_prefix_cons.mp here).1
        · rw [entity,List.cons_append] at here
          exact first.2 (List.cons_prefix_cons.mp here).1

theorem spacesKept (text : Text) : replace "&nbsp;".toList " ".toList (escape text) = escape text := by
  induction text with
  | nil => rfl
  | cons c cs ih =>
    change replace _ _ (escapeChar c ++ escape cs) = escapeChar c ++ escape cs
    rw [escapeChar]
    split
    · exact (entityKept (b := 'n') (c := 'a') (by decide) (by decide) _).trans (congrArg _ ih)
    · split
      · exact (entityKept (b := 'n') (c := 'l') (by decide) (by decide) _).trans (congrArg _ ih)
      · split
        · exact (entityKept (b := 'n') (c := 'g') (by decide) (by decide) _).trans (congrArg _ ih)
        · rename_i plain _ _
          exact (charKept (Ne.symm plain)).trans (congrArg _ ih)

theorem ampersandsDecoded (text : Text) : replace "&amp;".toList "&".toList (escape text) = text.flatMap escapeAngles := by
  induction text with
  | nil => rfl
  | cons c cs ih =>
    change replace _ _ (escapeChar c ++ escape cs) = escapeAngles c ++ cs.flatMap escapeAngles
    rw [escapeChar]
    split
    · rename_i same
      subst same
      exact (replaceHere (by decide) _).trans (congrArg _ ih)
    · rename_i plain
      rw [escapeAngles]
      split
      · exact (entityKept (b := 'a') (c := 'l') (by decide) (by decide) _).trans (congrArg _ ih)
      · split
        · exact (entityKept (b := 'a') (c := 'g') (by decide) (by decide) _).trans (congrArg _ ih)
        · exact (charKept (Ne.symm plain)).trans (congrArg _ ih)

/-- Decoding one entity of an encoded text decodes it in the text itself, and leaves the rest encoded. -/
theorem entityDecoded {name : Text} {angle : Char} {encode left : Char → Text} (apart : '&' ≠ angle)
    (entity : encode angle = '&'::name) (own : left angle = [angle]) (plain : encode '&' = ['&']) (same : ∀ c ≠ angle, encode c = left c)
    (kind : ∀ c, encode c = [c] ∨ ∃ rest, encode c = '&'::rest) (letters : (name.all fun c => encode c = [c] && c ≠ '&') = true)
    (kept : ∀ c, c ≠ angle → c ≠ '&' → ∀ rest, replace ('&'::name) [angle] (encode c ++ rest) =
      encode c ++ replace ('&'::name) [angle] rest) (text : Text) :
    replace ('&'::name) [angle] (text.flatMap encode) = (replace ('&'::name) [angle] text).flatMap left := by
  have clean : ∀ c ∈ name, encode c = [c] ∧ c ≠ '&' := fun c mem => by simpa using List.all_eq_true.mp letters c mem
  induction length : text.length using Nat.strong_induction_on generalizing text with
  | _ n ih =>
    cases text with
    | nil => rfl
    | cons c cs =>
      have rest := ih cs.length (by simp only [List.length_cons] at length; omega) cs rfl
      rw [List.flatMap_cons]
      by_cases hit : c = angle
      · subst hit
        rw [entity,replaceHere (List.cons_ne_nil _ _),charKept apart,List.flatMap_cons,own,rest]
      · by_cases amp : c = '&'
        · subst amp
          rw [plain,List.singleton_append]
          by_cases here : name <+: cs
          · obtain ⟨tail,rfl⟩ := here
            have word : name.flatMap encode = name := by
              have single := List.flatMap_congr fun c mem => (clean c mem).1
              rw [single,List.flatMap_singleton']
            have shorter : tail.length < n := by
              simp only [List.length_cons,List.length_append] at length
              omega
            have shape : ∀ tail, '&'::(name ++ tail) = ('&'::name) ++ tail := fun _ => rfl
            rw [List.flatMap_append,word,shape,shape,replaceHere (List.cons_ne_nil _ _),replaceHere (List.cons_ne_nil _ _),
              List.singleton_append,List.singleton_append,List.flatMap_cons,own,ih tail.length shorter tail rfl]
            rfl
          · have absent : ∀ rest, ¬name <+: rest → ¬('&'::name) <+: '&'::rest := fun rest none_ starts =>
              none_ (List.cons_prefix_cons.mp starts).2
            rw [replaceSkip (absent _ (mt (wordStarts kind clean cs).mp here)),replaceSkip (absent _ here),List.flatMap_cons,
              ← same '&' hit,plain,rest]
            rfl
        · rw [kept c hit amp,charKept (Ne.symm amp),List.flatMap_cons,same c hit,rest]

theorem lessDecoded (text : Text) : replace "&lt;".toList "<".toList (text.flatMap escapeAngles) =
    (replace "&lt;".toList "<".toList text).flatMap escapeMore := by
  have other : ∀ c, c ≠ '<' → escapeAngles c = escapeMore c := fun c less => by rw [escapeAngles,if_neg less]; rfl
  refine entityDecoded (by decide) rfl rfl rfl other (fun c => ?_) (by decide) (fun c less amp rest => ?_) text
  · unfold escapeAngles
    split
    · exact Or.inr ⟨_,rfl⟩
    · split
      · exact Or.inr ⟨_,rfl⟩
      · exact Or.inl rfl
  · rw [other c less,escapeMore]
    split
    · exact entityKept (b := 'l') (c := 'g') (by decide) (by decide) rest
    · exact charKept (Ne.symm amp)

theorem moreDecoded (text : Text) :
    replace "&gt;".toList ">".toList (text.flatMap escapeMore) = replace "&gt;".toList ">".toList text := by
  have other : ∀ c, c ≠ '>' → escapeMore c = [c] := fun c more => if_neg more
  have decoded : replace "&gt;".toList ">".toList (text.flatMap escapeMore) =
      (replace "&gt;".toList ">".toList text).flatMap fun c => [c] :=
    entityDecoded (by decide) rfl rfl rfl other (fun c => ?_) (by decide) (fun c more amp rest => ?_) text
  · rwa [List.flatMap_singleton'] at decoded
  · unfold escapeMore
    split
    · exact Or.inr ⟨_,rfl⟩
    · exact Or.inl rfl
  · rw [other c more]
    exact charKept (Ne.symm amp)

/-- What is left of the escaped text: entities that the text itself spells are decoded with the others. -/
theorem stripEscaped {text html : Text} (tagged : Tagged (escape text) html) :
    stripHtml html = (collapse (replace "&gt;".toList ">".toList (replace "&lt;".toList "<".toList text))).take
      maxExtractedDocsContentChars := by
  rw [stripHtml,tagsStripped tagged (escapeClean (Or.inl rfl) text) (escapeClean (Or.inr rfl) text),spacesKept,ampersandsDecoded,
    lessDecoded,moreDecoded]
  rfl

/-- A text of at most a million characters comes back just when it spells neither `&lt;` nor `&gt;`. -/
theorem escapedIff {text html : Text} (few : text.length ≤ maxExtractedDocsContentChars) (tagged : Tagged (escape text) html) :
    stripHtml html = collapse text ↔ ¬"&lt;".toList <:+: text ∧ ¬"&gt;".toList <:+: text := by
  rw [stripEscaped tagged]
  constructor
  · intro same
    have less := replaceCount (by decide : "<".toList.countP inked < "&lt;".toList.countP inked) text
    have more := replaceCount (by decide : ">".toList.countP inked < "&gt;".toList.countP inked)
      (replace "&lt;".toList "<".toList text)
    have upto : ((collapse (replace "&gt;".toList ">".toList (replace "&lt;".toList "<".toList text))).take
        maxExtractedDocsContentChars).countP inked ≤ _ := (List.take_sublist _ _).countP_le
    rw [same,collapseCount,collapseCount] at upto
    have none_ : ¬"&lt;".toList <:+: text := fun inside => by
      have fewer := less.2 inside
      omega
    refine ⟨none_,fun inside => ?_⟩
    rw [replaceAbsent none_] at upto more
    have fewer := more.2 inside
    omega
  · rintro ⟨less,more⟩
    rw [replaceAbsent less,replaceAbsent more]
    exact List.take_of_length_le ((collapseLength text).trans few)

theorem untagged (text : Text) : Tagged text text := by
  induction text with
  | nil => exact .done
  | cons c cs ih => exact .char c ih

theorem comparisonBack : "if  a < b & c".toList.length ≤ maxExtractedDocsContentChars ∧
    Tagged (escape "if  a < b & c".toList) ("<b title='a'>".toList ++ "if  a &lt; b &amp; c".toList) ∧
      stripHtml ("<b title='a'>".toList ++ "if  a &lt; b &amp; c".toList) = collapse "if  a < b & c".toList :=
  have few : "if  a < b & c".toList.length ≤ maxExtractedDocsContentChars := by decide
  have tagged : Tagged (escape "if  a < b & c".toList) ("<b title='a'>".toList ++ "if  a &lt; b &amp; c".toList) :=
    .tag (by decide : '>' ∉ "b title='a'".toList) (untagged _)
  ⟨few,tagged,(escapedIff few tagged).mpr ⟨fun here => absurd (containsIff.mpr here) (by decide),
    fun here => absurd (containsIff.mpr here) (by decide)⟩⟩

/-- A page that explains `&lt;` is indexed as if it had a `<`. -/
theorem doublyDecoded : "write &lt;".toList.length ≤ maxExtractedDocsContentChars ∧
    Tagged (escape "write &lt;".toList) "write &amp;lt;".toList ∧ stripHtml "write &amp;lt;".toList = "write <".toList ∧
      stripHtml "write &amp;lt;".toList ≠ collapse "write &lt;".toList :=
  ⟨by decide,untagged _,by decide,by decide⟩

end RustMcp.HtmlEscapes
