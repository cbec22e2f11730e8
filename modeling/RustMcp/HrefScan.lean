import RustMcp.DocsCrawl
import RustMcp.Utf8Text

/-! The links of a page, as they are read: with an index into the bytes of the page and
of its lower-case copy. The crawl goes by the characters that are left instead; both
find the same values, and neither where the index comes to lie inside a character. -/
namespace RustMcp.HrefScan
open Str
open Utf8Text

def hrefTag : Text := "href=".toList

/-- The trimmed value, if there is any. -/
def kept (value : Text) : List Text := if (trim value).isEmpty then [] else [trim value]

/-- `none` where the lower-case copy is sliced inside a character. -/
def hrefValuesFrom (html : Text) (idx : Nat) : Option (List Text) :=
  let lower := toAsciiLowercase html
  if _more : idx + 6 < byteLength lower then
    match sliceFrom idx lower with
    | none => none
    | some rest =>
        match find hrefTag rest with
        | none => some []
        | some found =>
            let at_ := idx + found + 5
            match (bytes html)[at_]? with
            | none => some []
            | some byte =>
                let quote := asChar byte
                if quote ≠ '"' ∧ quote ≠ '\'' then hrefValuesFrom html (at_ + 1)
                else
                  let start := at_ + 1
                  let value := ((bytes html).drop start).takeWhile fun byte => asChar byte ≠ quote
                  let out := ((fromUtf8 value).map kept).getD []
                  (hrefValuesFrom html (start + value.length + 1)).map (out ++ ·)
  else some []
termination_by byteLength html - idx
decreasing_by all_goals rw [lowerByteLength] at _more; omega

def extractHrefValues (html : Text) : Option (List Text) := hrefValuesFrom html 0

/-! Index and characters. -/

section
variable {text before after occ rest done_ : Text}

theorem tagLong (found : FirstMatch text hrefTag before occ after) : byteLength occ = 5 := found.long

theorem splitOnceNone : DocsCrawl.splitOnceLower hrefTag text = none ↔ find hrefTag (toAsciiLowercase text) = none := by
  induction text with
  | nil => simp [DocsCrawl.splitOnceLower,toAsciiLowercase,find,hrefTag]
  | cons c text ih =>
    change _ ↔ find hrefTag (c.toLower::toAsciiLowercase text) = none
    rw [DocsCrawl.splitOnceLower,find]
    change (if startsWith hrefTag (c.toLower::toAsciiLowercase text) = true then _ else _) = none ↔ _
    split
    · simp
    · rw [Option.map_eq_none_iff,Option.map_eq_none_iff,ih]

/-- The crawl splits a page where `href=` occurs first. -/
theorem splitOnceFirst (split_ : DocsCrawl.splitOnceLower hrefTag text = some (before,after)) :
    ∃ occ, FirstMatch text hrefTag before occ after := by
  induction text generalizing before with
  | nil => cases split_
  | cons c text ih =>
    rw [DocsCrawl.splitOnceLower] at split_
    split at split_
    · rename_i here
      cases split_
      obtain ⟨tail,same⟩ := startsWithIff.mp here
      obtain ⟨occ,rest,whole,alike,_⟩ := lowerSplit same.symm
      have long : occ.length = hrefTag.length := by rw [← lowerLength occ,alike]
      refine ⟨occ,?_,alike,fun _ _ _ _ _ => Nat.zero_le _⟩
      rw [whole,List.drop_left' long]
      rfl
    · rename_i elsewhere
      obtain ⟨parts,later,same⟩ := Option.map_eq_some_iff.mp split_
      cases same
      obtain ⟨occ,found⟩ := ih later
      refine ⟨occ,congrArg (c::·) found.whole,found.alike,fun before' occ' after' whole alike => ?_⟩
      cases before' with
      | nil =>
        refine absurd (startsWithIff.mpr ⟨toAsciiLowercase after',?_⟩) elsewhere
        rw [whole,List.nil_append,lowerAppend,alike]
        rfl
      | cons d before' => exact Nat.succ_le_succ (found.first before' occ' after' (List.cons.inj whole).2 alike)

theorem splitOnceIff : DocsCrawl.splitOnceLower hrefTag text = some (before,after) ↔
    ∃ occ, FirstMatch text hrefTag before occ after := by
  refine ⟨splitOnceFirst,?_⟩
  rintro ⟨occ,found⟩
  cases split_ : DocsCrawl.splitOnceLower hrefTag text with
  | none => cases (splitOnceNone.mp split_).symm.trans found.found
  | some parts =>
    obtain ⟨_,other⟩ := splitOnceFirst split_
    obtain ⟨one,_,rest⟩ := matchUnique found other
    rw [← one,← rest]

theorem splitOnceAbsent : DocsCrawl.splitOnceLower hrefTag text = none ↔
    ∀ before occ after, ¬ FirstMatch text hrefTag before occ after := by
  constructor
  · intro none_ before occ after found
    cases none_.symm.trans (splitOnceIff.mpr ⟨occ,found⟩)
  · intro absent
    cases split_ : DocsCrawl.splitOnceLower hrefTag text with
    | none => rfl
    | some parts =>
      obtain ⟨occ,found⟩ := splitOnceFirst split_
      exact absurd found (absent _ _ _)

/-! What the crawl finds, by where `href=` occurs first. -/

def Quote (c : Char) : Prop := c = '"' ∨ c = '\''

theorem quoteAscii {c : Char} (quote : Quote c) : c.utf8Size = 1 := by
  rcases quote with rfl | rfl <;> decide

theorem notQuote {c : Char} : c ≠ '"' ∧ c ≠ '\'' ↔ ¬ Quote c := not_or.symm

theorem crawlShort (short : byteLength text ≤ 6) : DocsCrawl.extractHrefValues text = some [] := by
  have short' : DocsCrawl.byteLength text ≤ 6 := short
  rw [DocsCrawl.extractHrefValues,if_pos short']

theorem crawlAbsent (absent : ∀ before occ after, ¬ FirstMatch text hrefTag before occ after) :
    DocsCrawl.extractHrefValues text = some [] := by
  rw [DocsCrawl.extractHrefValues]
  split
  · rfl
  · split
    · rfl
    · rfl
    · rename_i split_
      obtain ⟨occ,found⟩ := splitOnceFirst split_
      exact absurd found (absent _ _ _)

theorem crawlEnd (found : FirstMatch text hrefTag before occ []) : DocsCrawl.extractHrefValues text = some [] := by
  have cut := splitOnceIff.mpr ⟨occ,found⟩
  rw [DocsCrawl.extractHrefValues]
  split
  · rfl
  · split
    · rfl
    · rfl
    · rename_i split_
      cases split_.symm.trans cut

theorem foundLong {c : Char} (found : FirstMatch text hrefTag before occ (c::rest)) : byteLength (c::rest) + 5 ≤ byteLength text := by
  rw [found.whole,byteLengthAppend,byteLengthAppend,tagLong found]
  omega

theorem crawlUnquoted {c : Char} (found : FirstMatch text hrefTag before occ (c::rest))
    (unquoted : ¬ Quote c) : DocsCrawl.extractHrefValues text =
      if c.utf8Size = 1 then DocsCrawl.extractHrefValues rest else if byteLength (c::rest) ≤ 7 then some [] else none := by
  by_cases short : byteLength text ≤ 6
  · have long := foundLong found
    have some_ := c.utf8Size_pos
    rw [byteLengthCons] at long
    have none_ : DocsCrawl.extractHrefValues rest = some [] := crawlShort (by omega)
    rw [crawlShort short,none_,if_pos (by omega)]
  · have cut := splitOnceIff.mpr ⟨occ,found⟩
    have long : ¬ DocsCrawl.byteLength text ≤ 6 := short
    rw [DocsCrawl.extractHrefValues,if_neg long]
    split
    · rename_i split_
      cases split_.symm.trans cut
    · rename_i split_
      cases split_.symm.trans cut
    · rename_i split_
      cases split_.symm.trans cut
      rw [if_pos (notQuote.mpr unquoted)]
      rfl

theorem crawlQuoted {c : Char} (found : FirstMatch text hrefTag before occ (c::rest))
    (quote : Quote c) : DocsCrawl.extractHrefValues text =
      (DocsCrawl.extractHrefValues ((rest.dropWhile (· ≠ c)).drop 1)).map (kept (rest.takeWhile (· ≠ c)) ++ ·) := by
  by_cases short : byteLength text ≤ 6
  · have long := foundLong found
    rw [byteLengthCons,quoteAscii quote] at long
    have none_ : rest = [] := byteLengthZero.mp (by omega)
    rw [none_,crawlShort short,List.dropWhile_nil,List.drop_nil,crawlShort (by simp)]
    rfl
  · have cut := splitOnceIff.mpr ⟨occ,found⟩
    have long : ¬ DocsCrawl.byteLength text ≤ 6 := short
    rw [DocsCrawl.extractHrefValues,if_neg long]
    split
    · rename_i split_
      cases split_.symm.trans cut
    · rename_i split_
      cases split_.symm.trans cut
    · rename_i split_
      cases split_.symm.trans cut
      rw [if_neg (not_not.mpr quote ∘ notQuote.mp)]
      refine congrArg (Option.map · _) (funext fun out => ?_)
      rw [kept]
      split
      · rfl
      · rfl

/-! What the scan finds, from an index between two characters. -/

theorem scanPast {html : Text} {idx : Nat} (past : byteLength html ≤ idx + 6) : hrefValuesFrom html idx = some [] := by
  rw [hrefValuesFrom]
  simp only [lowerByteLength]
  rw [dif_neg (by omega)]

theorem scanCut (done_ text : Text) :
    sliceFrom (byteLength done_) (toAsciiLowercase (done_ ++ text)) = some (toAsciiLowercase text) :=
  sliceFromIff.mpr ⟨toAsciiLowercase done_,lowerAppend _ _,lowerByteLength _⟩

theorem scanAbsent (absent : ∀ before occ after, ¬ FirstMatch text hrefTag before occ after) :
    hrefValuesFrom (done_ ++ text) (byteLength done_) = some [] := by
  have none_ := splitOnceNone.mp (splitOnceAbsent.mpr absent)
  rw [hrefValuesFrom]
  simp only [scanCut,none_,dite_eq_ite,ite_self]

theorem scanFound (long : ¬ byteLength text ≤ 6) (found : FirstMatch text hrefTag before occ after) :
    hrefValuesFrom (done_ ++ text) (byteLength done_) =
      match bytes after with
      | [] => some []
      | byte::more =>
          let start := byteLength (done_ ++ before ++ occ) + 1
          if asChar byte ≠ '"' ∧ asChar byte ≠ '\'' then hrefValuesFrom (done_ ++ text) start
          else
            let value := more.takeWhile fun next => asChar next ≠ asChar byte
            (hrefValuesFrom (done_ ++ text) (start + value.length + 1)).map (((fromUtf8 value).map kept).getD [] ++ ·) := by
  have total : byteLength (toAsciiLowercase (done_ ++ text)) = byteLength done_ + byteLength text := by
    rw [lowerByteLength,byteLengthAppend]
  have at_ : byteLength done_ + byteLength before + 5 = byteLength (done_ ++ before ++ occ) := by
    rw [byteLengthAppend,byteLengthAppend,tagLong found]
  have whole : done_ ++ text = done_ ++ before ++ occ ++ after := by
    rw [found.whole]
    simp only [List.append_assoc]
  have here : (bytes (done_ ++ text))[byteLength (done_ ++ before ++ occ)]? = (bytes after).head? := whole ▸ byteAt _ _
  have next : (bytes (done_ ++ text)).drop (byteLength (done_ ++ before ++ occ) + 1) = (bytes after).drop 1 := by
    rw [← List.drop_drop,whole,bytesAfter]
  have tag : find hrefTag (toAsciiLowercase text) = some (byteLength before) := found.found
  rw [hrefValuesFrom]
  simp only [total]
  rw [dif_pos (by omega)]
  simp only [scanCut,tag,at_,here,next]
  cases bytes after with
  | nil => rfl
  | cons byte more => rfl

/-- The byte after an unquoted value's first one: it may be inside the character. -/
theorem scanInside {c : Char} (wide : c.utf8Size ≠ 1) (whole : Text) :
    hrefValuesFrom (whole ++ c::rest) (byteLength whole + 1) = if byteLength (c::rest) ≤ 7 then some [] else none := by
  have some_ := c.utf8Size_pos
  have total : byteLength (toAsciiLowercase (whole ++ c::rest)) = byteLength whole + byteLength (c::rest) := by
    rw [lowerByteLength,byteLengthAppend]
  split
  · rename_i short
    refine scanPast ?_
    rw [byteLengthAppend]
    omega
  · rename_i long
    have inside : sliceFrom (byteLength whole + 1) (toAsciiLowercase (whole ++ c::rest)) = none := by
      rw [lowerAppend,← lowerByteLength whole]
      refine insideNone (c := c.toLower) (Nat.lt_succ_self _) ?_
      rw [toLowerSize]
      omega
    rw [hrefValuesFrom]
    simp only [total,inside]
    rw [dif_pos (by omega)]

theorem tailShorter (found : FirstMatch text hrefTag before occ after) : after.length < text.length := by
  have long := congrArg List.length found.whole
  have some_ : occ ≠ [] := found.some_ (by decide)
  have pos := List.length_pos_iff.mpr some_
  simp only [List.length_append] at long
  omega

/-- A quoted value ends at the next quote, or with the text. -/
theorem untilQuote (c : Char) (rest : Text) :
    (c ∉ rest ∧ rest.takeWhile (· ≠ c) = rest ∧ rest.dropWhile (· ≠ c) = []) ∨
      ∃ value tail, rest = value ++ c::tail ∧ c ∉ value ∧ rest.takeWhile (· ≠ c) = value ∧ rest.dropWhile (· ≠ c) = c::tail := by
  induction rest with
  | nil => exact Or.inl ⟨List.not_mem_nil,rfl,rfl⟩
  | cons d rest ih =>
    by_cases same : d = c
    · subst same
      exact Or.inr ⟨[],rest,rfl,List.not_mem_nil,by simp,by simp⟩
    · have onTake : (d::rest).takeWhile (· ≠ c) = d::rest.takeWhile (· ≠ c) := List.takeWhile_cons_of_pos (by simpa using same)
      have onDrop : (d::rest).dropWhile (· ≠ c) = rest.dropWhile (· ≠ c) := List.dropWhile_cons_of_pos (by simpa using same)
      rcases ih with ⟨absent,took,dropped⟩ | ⟨value,tail,whole,absent,took,dropped⟩
      · refine Or.inl ⟨List.not_mem_cons_of_ne_of_not_mem (Ne.symm same) absent,?_,?_⟩
        · rw [onTake,took]
        · rw [onDrop,dropped]
      · refine Or.inr ⟨d::value,tail,congrArg (d::·) whole,List.not_mem_cons_of_ne_of_not_mem (Ne.symm same) absent,?_,?_⟩
        · rw [onTake,took]
        · rw [onDrop,dropped]

/-- From an index between two characters on, the values are those of the characters that are left. -/
theorem valuesFrom (done_ text : Text) :
    hrefValuesFrom (done_ ++ text) (byteLength done_) = DocsCrawl.extractHrefValues text := by
  induction size : text.length using Nat.strong_induction_on generalizing done_ text with
  | _ size ih =>
    have onward (head tail : Text) (shorter : tail.length < text.length) :
        hrefValuesFrom (head ++ tail) (byteLength head) = DocsCrawl.extractHrefValues tail :=
      ih tail.length (size ▸ shorter) head tail rfl
    by_cases short : byteLength text ≤ 6
    · rw [crawlShort short]
      refine scanPast ?_
      rw [byteLengthAppend]
      omega
    · by_cases absent : ∀ before occ after, ¬ FirstMatch text hrefTag before occ after
      · rw [crawlAbsent absent,scanAbsent absent]
      · push Not at absent
        obtain ⟨before,occ,after,found⟩ := absent
        have shorter := tailShorter found
        have whole : done_ ++ text = done_ ++ before ++ occ ++ after := by
          rw [found.whole]
          simp only [List.append_assoc]
        rw [scanFound short found]
        cases after with
        | nil => rw [crawlEnd found]; rfl
        | cons c rest =>
          rw [List.length_cons] at shorter
          by_cases quote : Quote c
          · have single := quoteAscii quote
            obtain ⟨byte,rfl,split_⟩ := asciiByte single
            rw [split_]
            dsimp only
            rw [if_neg (not_not.mpr quote ∘ notQuote.mp),crawlQuoted found quote,bytesUntil single,bytesLength,fromUtf8Bytes,whole]
            refine congrArg (Option.map _) ?_
            rcases untilQuote (asChar byte) rest with ⟨absent,took,dropped⟩ | ⟨value,tail,rfl,absent,took,dropped⟩
            · rw [took,dropped,List.drop_nil,crawlShort (by simp)]
              refine scanPast ?_
              rw [byteLengthAppend,byteLengthCons,single]
              omega
            · have next := onward (done_ ++ before ++ occ ++ asChar byte::(value ++ [asChar byte])) tail (by
                rw [List.length_append,List.length_cons] at shorter
                omega)
              have index : byteLength (done_ ++ before ++ occ ++ asChar byte::(value ++ [asChar byte])) =
                  byteLength (done_ ++ before ++ occ) + 1 + byteLength value + 1 := by
                rw [byteLengthAppend,byteLengthCons,byteLengthAppend value,byteLengthCons,byteLengthNil,single]
                omega
              rw [took,dropped,List.drop_one,List.tail_cons,← index,← next]
              simp only [List.append_assoc,List.cons_append,List.nil_append]
          · obtain ⟨byte,more,split_,first⟩ := firstByte c rest
            rw [split_]
            dsimp only
            have other : asChar byte ≠ '"' ∧ asChar byte ≠ '\'' := by
              rw [Ne,Ne,first _ (by decide),first _ (by decide)]
              exact notQuote.mpr quote
            rw [if_pos other,crawlUnquoted found quote,whole]
            by_cases single : c.utf8Size = 1
            · have next := onward (done_ ++ before ++ occ ++ [c]) rest (by omega)
              rw [byteLengthAppend _ [c],byteLengthCons,single,byteLengthNil,List.append_assoc _ [c]] at next
              rw [if_pos single]
              exact next
            · rw [if_neg single,scanInside single]

end

/-! The values of a page. -/

/-- The trimmed values in quotes after `href=`, from left to right, on from the closing quote of
each or from the first character of one without quotes; an open quote goes to the end. -/
inductive Values : Text → List Text → Prop where
  | absent {text} (absent : ∀ before occ after, ¬ FirstMatch text hrefTag before occ after) : Values text []
  | ended {text before occ} (found : FirstMatch text hrefTag before occ []) : Values text []
  | unquoted {text before occ c rest out} (found : FirstMatch text hrefTag before occ (c::rest)) (plain : ¬ Quote c)
      (next : Values rest out) : Values text out
  | quoted {text before occ q value rest out} (found : FirstMatch text hrefTag before occ (q::(value ++ q::rest)))
      (quote : Quote q) (inside : q ∉ value) (next : Values rest out) : Values text (kept value ++ out)
  | unclosed {text before occ q value} (found : FirstMatch text hrefTag before occ (q::value))
      (quote : Quote q) (inside : q ∉ value) : Values text (kept value)

/-- The scan of a text comes to a value without quotes, from its first character on. -/
inductive Arrives : Text → Char → Text → Prop where
  | here {text before occ c rest} (found : FirstMatch text hrefTag before occ (c::rest)) (plain : ¬ Quote c) : Arrives text c rest
  | unquoted {text before occ d tail c rest} (found : FirstMatch text hrefTag before occ (d::tail)) (plain : ¬ Quote d)
      (next : Arrives tail c rest) : Arrives text c rest
  | quoted {text before occ q value tail c rest} (found : FirstMatch text hrefTag before occ (q::(value ++ q::tail)))
      (quote : Quote q) (inside : q ∉ value) (next : Arrives tail c rest) : Arrives text c rest

/-- Looking on from the byte after the first one of such a value stays between characters, or is not done any more. -/
def Steady (c : Char) (rest : Text) : Prop := c.utf8Size = 1 ∨ byteLength (c::rest) ≤ 7

/-- The reading of the links ends without a slice inside a character, and what it returns is the one list of the page's values. -/
def HrefsRight (html : Text) : Prop := ∃ out, extractHrefValues html = some out ∧ ∀ values, Values html values ↔ values = out

section
variable {text before occ rest : Text} {c : Char}

theorem valuesExist (text : Text) : ∃ out, Values text out := by
  induction size : text.length using Nat.strong_induction_on generalizing text with
  | _ size ih =>
    by_cases absent : ∀ before occ after, ¬ FirstMatch text hrefTag before occ after
    · exact ⟨[],.absent absent⟩
    · push Not at absent
      obtain ⟨before,occ,after,found⟩ := absent
      have shorter := tailShorter found
      cases after with
      | nil => exact ⟨[],.ended found⟩
      | cons c rest =>
        rw [List.length_cons] at shorter
        by_cases quote : Quote c
        · rcases untilQuote c rest with ⟨inside,_,_⟩ | ⟨value,tail,rfl,inside,_,_⟩
          · exact ⟨_,.unclosed found quote inside⟩
          · rw [List.length_append,List.length_cons] at shorter
            obtain ⟨out,values⟩ := ih tail.length (by omega) tail rfl
            exact ⟨_,.quoted found quote inside values⟩
        · obtain ⟨out,values⟩ := ih rest.length (by omega) rest rfl
          exact ⟨out,.unquoted found quote values⟩

theorem tookUntil {value tail : Text} {q : Char} (inside : q ∉ value) :
    (value ++ q::tail).takeWhile (· ≠ q) = value ∧ (value ++ q::tail).dropWhile (· ≠ q) = q::tail := by
  rw [takeUntil inside,dropUntil inside]
  simp

/-- Where every value without quotes is steady, the crawl finds the values of the page. -/
theorem valuesCrawled {out : List Text} (values : Values text out) (steady : ∀ c rest, Arrives text c rest → Steady c rest) :
    DocsCrawl.extractHrefValues text = some out := by
  induction values with
  | absent absent => exact crawlAbsent absent
  | ended found => exact crawlEnd found
  | @unquoted text before occ c rest out found plain next ih =>
    have later := ih fun c rest arrives => steady c rest (.unquoted found plain arrives)
    rw [crawlUnquoted found plain]
    split
    · exact later
    · rename_i wide
      have short := (steady _ _ (.here found plain)).resolve_left wide
      have some_ := c.utf8Size_pos
      rw [if_pos short,← later,crawlShort]
      rw [byteLengthCons] at short
      omega
  | quoted found quote inside next ih =>
    have later := ih fun c rest arrives => steady c rest (.quoted found quote inside arrives)
    obtain ⟨took,dropped⟩ := tookUntil inside
    rw [crawlQuoted found quote,took,dropped,List.drop_one,List.tail_cons,later]
    rfl
  | @unclosed text before occ q value found quote inside =>
    have passed : ∀ c ∈ value, decide (c ≠ q) = true := fun c mem => decide_eq_true fun same => inside (same ▸ mem)
    rw [crawlQuoted found quote,List.takeWhile_eq_self_iff.mpr passed,List.dropWhile_eq_nil_iff.mpr passed,List.drop_nil,
      crawlShort (by simp),Option.map_some,List.append_nil]

theorem arrivesInside (arrives : Arrives text c rest) : byteLength (c::rest) ≤ byteLength text := by
  induction arrives with
  | here found plain => exact Nat.le_of_add_right_le (foundLong found)
  | unquoted found plain next ih =>
    have long := foundLong found
    rw [byteLengthCons] at long
    omega
  | quoted found quote inside next ih =>
    have long := foundLong found
    rw [byteLengthCons,byteLengthAppend,byteLengthCons] at long
    omega

theorem unsteadyNone (arrives : Arrives text c rest) (unsteady : ¬ Steady c rest) : DocsCrawl.extractHrefValues text = none := by
  obtain ⟨wide,long⟩ := not_or.mp unsteady
  induction arrives with
  | here found plain => rw [crawlUnquoted found plain,if_neg wide,if_neg long]
  | unquoted found plain next ih =>
    have long' := arrivesInside next
    rw [crawlUnquoted found plain,ih unsteady wide long]
    split
    · rfl
    · rw [if_neg (by rw [byteLengthCons]; omega)]
  | quoted found quote inside next ih =>
    obtain ⟨took,dropped⟩ := tookUntil inside
    rw [crawlQuoted found quote,took,dropped,List.drop_one,List.tail_cons,ih unsteady wide long]
    rfl

end

theorem scanCrawled (html : Text) : extractHrefValues html = DocsCrawl.extractHrefValues html := valuesFrom [] html

/-- The reading of the links is right exactly on the pages where the values without quotes that it
comes to start with a character of one byte, or so near the end that nothing is read after them. -/
theorem hrefsRightIff (html : Text) : HrefsRight html ↔ ∀ c rest, Arrives html c rest → Steady c rest := by
  rw [HrefsRight,scanCrawled]
  constructor
  · rintro ⟨out,returned,_⟩ c rest arrives
    by_contra unsteady
    cases (unsteadyNone arrives unsteady).symm.trans returned
  · intro steady
    obtain ⟨out,found⟩ := valuesExist html
    refine ⟨out,valuesCrawled found steady,fun values => ⟨fun other => ?_,?_⟩⟩
    · exact Option.some.inj ((valuesCrawled other steady).symm.trans (valuesCrawled found steady))
    · rintro rfl
      exact found

def unquotedLink : Text := "<a href=élan.html>A</a>".toList

theorem unquotedSliced : ¬ HrefsRight unquotedLink := by
  have panics : extractHrefValues unquotedLink = none := (scanCrawled _).trans (by decide +kernel)
  rintro ⟨out,returned,_⟩
  cases panics.symm.trans returned

end RustMcp.HrefScan
