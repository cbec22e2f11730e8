import RustMcp.Utf8Text

/-! The snippet that a search of the docs shows of a page: a window of bytes around
the first place where the query occurs in it. -/
namespace RustMcp.DocsSnippets
open Str
open Utf8Text

def snippetLead : Nat := 80
def snippetTrail : Nat := 140
def snippetChars : Nat := 220

/-- `none` where the page is sliced inside a character. -/
def docsSnippet (content query : Text) : Option Text :=
  if content.isEmpty then some []
  else
    let q := toAsciiLowercase query
    let lower := toAsciiLowercase content
    match find q lower with
    | some idx =>
        let start := idx - snippetLead
        let stop := min (idx + byteLength query + snippetTrail) (byteLength content)
        (slice start stop content).map trim
    | none => some (content.take snippetChars)

/-! What is shown. -/

/-- The snippet is the occurrence with some of the text around it, inside the window. -/
def Shows (snippet before occ after : Text) : Prop :=
  ∃ lead trail, snippet = lead ++ occ ++ trail ∧ lead <:+ before ∧ byteLength lead ≤ snippetLead ∧
    trail <+: after ∧ byteLength trail ≤ snippetTrail

/-- The page is not sliced inside a character, and the snippet shows the occurrence, if there is one. -/
def SnippetRight (content query : Text) : Prop :=
  ∃ snippet, docsSnippet content query = some snippet ∧
    ∀ before occ after, FirstMatch content query before occ after → Shows snippet before occ after

/-- Both ends of the window lie between two characters, and the white space that is
trimmed off it does not reach into the occurrence. -/
structure Clear (before occ after : Text) : Prop where
  opens : ∃ lead, sliceFrom (byteLength before - snippetLead) before = some lead ∧
    (trimStart lead ≠ [] ∨ trimStart occ = occ)
  closes : ∃ trail, sliceTo (min snippetTrail (byteLength after)) after = some trail ∧
    (trimEnd trail ≠ [] ∨ trimEnd occ = occ)

section
variable {content query before occ after : Text}

/-! The white space at the ends of the window. -/

theorem startsKept {lead : Text} (kept : trimStart lead ≠ [] ∨ trimStart occ = occ) (some_ : occ ≠ []) (rest : Text) :
    ∃ lead', lead' <:+ lead ∧ trimStart (lead ++ (occ ++ rest)) = lead' ++ (occ ++ rest) := by
  rw [trimStartAround]
  split
  · rename_i blank
    have occKept := kept.resolve_left (not_not.mpr blank)
    refine ⟨[],List.nil_suffix,?_⟩
    rw [trimStartAround,occKept,if_neg some_]
    rfl
  · exact ⟨trimStart lead,List.dropWhile_suffix _,rfl⟩

theorem endsKept {trail : Text} (kept : trimEnd trail ≠ [] ∨ trimEnd occ = occ) (some_ : occ ≠ []) (head : Text) :
    ∃ trail', trail' <+: trail ∧ trimEnd (head ++ occ ++ trail) = head ++ occ ++ trail' := by
  rw [trimEndAround]
  split
  · rename_i blank
    have occKept := kept.resolve_left (not_not.mpr blank)
    refine ⟨[],List.nil_prefix,?_⟩
    rw [trimEndAround,occKept,if_neg some_,List.append_nil]
  · exact ⟨trimEnd trail,List.rdropWhile_prefix _ _,rfl⟩

theorem opensClean {text lead rest : Text} (same : trim text = lead ++ occ ++ rest)
    (white : ∀ c ∈ lead, isWhiteSpace c = true) : trimStart occ = occ := by
  cases occ with
  | nil => rfl
  | cons c occ =>
    cases lead with
    | nil =>
      have first : (trim text).head? = some c := by rw [same]; rfl
      exact trimStartKept (trimOpens first) occ
    | cons d lead =>
      have first : (trim text).head? = some d := by rw [same]; rfl
      have kept := trimOpens first
      rw [white d List.mem_cons_self] at kept
      contradiction

theorem closesClean {text head trail : Text} (same : trim text = head ++ occ ++ trail)
    (white : ∀ c ∈ trail, isWhiteSpace c = true) : trimEnd occ = occ := by
  rw [trimEnd,List.rdropWhile_eq_self_iff]
  intro some_
  rw [Bool.not_eq_true]
  cases last : trail.getLast? with
  | none =>
    have final : (trim text).getLast? = some (occ.getLast some_) := by
      rw [same,List.getLast?_append,last,List.getLast?_append,List.getLast?_eq_some_getLast some_]
      rfl
    exact trimCloses final
  | some d =>
    have final : (trim text).getLast? = some d := by
      rw [same,List.getLast?_append,last]
      rfl
    have kept := trimCloses final
    rw [white d (List.mem_of_getLast? last)] at kept
    contradiction

/-! When the snippet is right. -/

theorem whiteStart {text : Text} (white : trimStart text = []) {c : Char} (mem : c ∈ text) : isWhiteSpace c = true :=
  List.dropWhile_eq_nil_iff.mp white c mem

theorem whiteEnd {text : Text} (white : trimEnd text = []) {c : Char} (mem : c ∈ text) : isWhiteSpace c = true :=
  List.rdropWhile_eq_nil_iff.mp white c mem

theorem windowSlice (found : FirstMatch content query before occ after) (some_ : occ ≠ []) {snippet : Text} :
    docsSnippet content query = some snippet ↔
      ∃ lead trail, sliceFrom (byteLength before - snippetLead) before = some lead ∧
        sliceTo (min snippetTrail (byteLength after)) after = some trail ∧ trim (lead ++ occ ++ trail) = snippet := by
  have filled : ¬ content.isEmpty = true := by
    rw [List.isEmpty_iff,found.whole]
    simp [some_]
  have total : byteLength content = byteLength before + byteLength occ + byteLength after := by
    rw [found.whole,byteLengthAppend,byteLengthAppend]
  have stop : min (byteLength before + byteLength query + snippetTrail) (byteLength content) =
      byteLength before + byteLength occ + min snippetTrail (byteLength after) := by
    rw [total,← found.long]
    omega
  have around := sliceAround before occ after (Nat.sub_le (byteLength before) snippetLead)
    (Nat.le_add_right _ (min snippetTrail (byteLength after)))
  rw [← found.whole,Nat.add_sub_cancel_left] at around
  rw [docsSnippet,if_neg filled]
  simp only [found.found,stop,Option.map_eq_some_iff,around]
  constructor
  · rintro ⟨_,⟨lead,trail,opens,closes,rfl⟩,rfl⟩
    exact ⟨lead,trail,opens,closes,rfl⟩
  · rintro ⟨lead,trail,opens,closes,rfl⟩
    exact ⟨_,⟨lead,trail,opens,closes,rfl⟩,rfl⟩

/-- Where the window is clear, so is the snippet. -/
theorem clearShows (found : FirstMatch content query before occ after) (some_ : occ ≠ []) (clear : Clear before occ after) :
    ∃ snippet, docsSnippet content query = some snippet ∧ Shows snippet before occ after := by
  obtain ⟨lead,opens,leadKept⟩ := clear.opens
  obtain ⟨trail,closes,trailKept⟩ := clear.closes
  refine ⟨_,(windowSlice found some_).mpr ⟨lead,trail,opens,closes,rfl⟩,?_⟩
  obtain ⟨a,rfl,long⟩ := sliceFromIff.mp opens
  obtain ⟨ends,short⟩ := sliceToIff.mp closes
  obtain ⟨lead',suffix,started⟩ := startsKept leadKept some_ trail
  obtain ⟨trail',ended,kept⟩ := endsKept trailKept some_ lead'
  have width : byteLength lead ≤ snippetLead := by
    rw [byteLengthAppend] at long
    omega
  obtain ⟨leadRest,rfl⟩ := suffix
  obtain ⟨trailRest,rfl⟩ := ended
  refine ⟨lead',trail',?_,⟨a ++ leadRest,List.append_assoc _ _ _⟩,?_,(List.prefix_append _ _).trans ends,?_⟩
  · rw [trim,List.append_assoc,started,← List.append_assoc,kept]
  · rw [byteLengthAppend] at width
    omega
  · rw [byteLengthAppend] at short
    omega

theorem showsClear (found : FirstMatch content query before occ after) (some_ : occ ≠ []) {snippet : Text}
    (returned : docsSnippet content query = some snippet) (shows_ : Shows snippet before occ after) : Clear before occ after := by
  obtain ⟨lead,trail,opens,closes,rfl⟩ := (windowSlice found some_).mp returned
  obtain ⟨lead',trail',same,leadEnds,leadShort,trailStarts,trailShort⟩ := shows_
  refine ⟨⟨lead,opens,or_iff_not_imp_left.mpr fun white => ?_⟩,⟨trail,closes,or_iff_not_imp_left.mpr fun white => ?_⟩⟩
  · obtain ⟨a,rfl,long⟩ := sliceFromIff.mp opens
    have inside : lead' <:+ lead := by
      refine suffixOfLe leadEnds (List.suffix_append _ _) ?_
      obtain ⟨more,split_⟩ := leadEnds
      have lengths := congrArg byteLength split_
      simp only [byteLengthAppend] at lengths long
      omega
    exact opensClean same fun c mem => whiteStart (not_not.mp white) (inside.subset mem)
  · obtain ⟨ends,short⟩ := sliceToIff.mp closes
    have inside : trail' <+: trail := by
      refine prefixOfLe trailStarts ends ?_
      obtain ⟨more,split_⟩ := trailStarts
      have lengths := congrArg byteLength split_
      rw [byteLengthAppend] at lengths
      omega
    exact closesClean same fun c mem => whiteEnd (not_not.mp white) (inside.subset mem)

/-- For every page and query, the snippet is right exactly where the window around the first
occurrence, if there is one, is clear. -/
theorem snippetRightIff (content : Text) {query : Text} (asked : query ≠ []) :
    SnippetRight content query ↔
      ∀ before occ after, FirstMatch content query before occ after → Clear before occ after := by
  constructor
  · rintro ⟨snippet,returned,shown⟩ before occ after found
    exact showsClear found (found.some_ asked) returned (shown before occ after found)
  · intro clear
    cases at_ : find (toAsciiLowercase query) (toAsciiLowercase content) with
    | some idx =>
      obtain ⟨before,occ,after,found⟩ := matchExists at_
      obtain ⟨snippet,returned,shown⟩ := clearShows found (found.some_ asked) (clear _ _ _ found)
      refine ⟨snippet,returned,fun before' occ' after' other => ?_⟩
      obtain ⟨rfl,rfl,rfl⟩ := matchUnique found other
      exact shown
    | none =>
      have absent (before occ after : Text) : ¬ FirstMatch content query before occ after := fun found => by
        cases at_.symm.trans found.found
      cases content with
      | nil => exact ⟨[],rfl,fun _ _ _ found => absurd found (absent _ _ _)⟩
      | cons c content =>
        refine ⟨(c::content).take snippetChars,?_,fun _ _ _ found => absurd found (absent _ _ _)⟩
        rw [docsSnippet,if_neg (by simp)]
        simp only [at_]

end

/-! An ASCII page, as most of the docs are. -/

section
variable {content query before occ after : Text}

theorem alikeWhite {x y : Option Char} (alike : x.map Char.toLower = y.map Char.toLower) {c : Char} (is_ : x = some c) :
    ∃ d, y = some d ∧ isWhiteSpace c = isWhiteSpace d := by
  rw [is_,Option.map_some] at alike
  obtain ⟨d,is',same⟩ := Option.map_eq_some_iff.mp alike.symm
  exact ⟨d,is',by rw [← Str.whiteLower c,← same,Str.whiteLower]⟩

/-- An occurrence of a trimmed query is trimmed. -/
theorem matchTrimmed (found : FirstMatch content query before occ after) (kept : trim query = query) :
    trimStart occ = occ ∧ trimEnd occ = occ := by
  have heads : occ.head?.map Char.toLower = query.head?.map Char.toLower := by
    rw [← List.head?_map,← List.head?_map]
    exact congrArg List.head? found.alike
  have lasts : occ.getLast?.map Char.toLower = query.getLast?.map Char.toLower := by
    rw [← List.getLast?_map,← List.getLast?_map]
    exact congrArg List.getLast? found.alike
  rw [← kept] at heads lasts
  constructor
  · cases occ with
    | nil => rfl
    | cons c occ =>
      obtain ⟨d,first,same⟩ := alikeWhite heads rfl
      exact trimStartKept (same.trans (trimOpens first)) occ
  · rw [trimEnd,List.rdropWhile_eq_self_iff]
    intro some_
    obtain ⟨d,last,same⟩ := alikeWhite lasts (List.getLast?_eq_some_getLast some_)
    rw [Bool.not_eq_true,same]
    exact trimCloses last

theorem asciiClear (ascii : Ascii content) (kept : trim query = query) (found : FirstMatch content query before occ after) :
    Clear before occ after := by
  rw [found.whole] at ascii
  have plainBefore : Ascii before := fun c mem => ascii c (by simp [mem])
  have plainAfter : Ascii after := fun c mem => ascii c (by simp [mem])
  obtain ⟨starts,ends⟩ := matchTrimmed found kept
  refine ⟨⟨before.drop (byteLength before - snippetLead),?_,Or.inr starts⟩,
    ⟨after.take (min snippetTrail (byteLength after)),?_,Or.inr ends⟩⟩
  · rw [sliceFrom,asciiSplit plainBefore (Nat.sub_le _ _)]
    rfl
  · rw [sliceTo,asciiSplit plainAfter (Nat.min_le_right _ _)]
    rfl

end

def demoPage : Text := "Serde's guide: how to write a derive".toList

theorem demoShown : SnippetRight demoPage "WRITE".toList :=
  (snippetRightIff demoPage (by decide)).mpr fun _ _ _ found => asciiClear (by decide) (by decide) found

/-- The match is 81 bytes into the page, so the window starts inside its first character. -/
def accented : Text := 'é'::(List.replicate 79 'a' ++ ['x'])

theorem accentedSliced : "x".toList ≠ [] ∧ ¬ SnippetRight accented "x".toList := by
  have panics : docsSnippet accented "x".toList = none := by decide +kernel
  refine ⟨by decide,?_⟩
  rintro ⟨snippet,returned,_⟩
  cases panics.symm.trans returned

end RustMcp.DocsSnippets
