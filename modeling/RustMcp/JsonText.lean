import RustMcp.Str

/-! The compact text that a flat record is serialized to, and where in it a label
with a text behind it can occur: inside a text every quote follows a backslash, so
what looks like a label is a label. -/
namespace RustMcp.JsonText
open Str (Text)

def escapeChar (c : Char) : Text :=
  if c = '"' then ['\\','"']
  else if c = '\\' then ['\\','\\']
  else if c = '\n' then ['\\','n']
  else if c = '\r' then ['\\','r']
  else if c = '\t' then ['\\','t']
  else if c.toNat = 8 then ['\\','b']
  else if c.toNat = 12 then ['\\','f']
  else if c.toNat < 32 then ['\\','u','0','0',(c.toNat / 16).digitChar,(c.toNat % 16).digitChar]
  else [c]

def escape (text : Text) : Text := text.flatMap escapeChar

def quoted (text : Text) : Text := '"' :: (escape text ++ ['"'])

inductive Value where
  | null
  | text (text : Text)
  | number (n : Nat)
  | bool (b : Bool)

def Value.optional (text : Option Text) : Value := text.elim .null .text

def write : Value → Text
  | .null => "null".toList
  | .text text => quoted text
  | .number n => Nat.toDigits 10 n
  | .bool true => "true".toList
  | .bool false => "false".toList

abbrev Field := Text × Value

def field (f : Field) : Text := quoted f.1 ++ ':' :: write f.2

def members : List Field → Text
  | [] => ['}']
  | [f] => field f ++ ['}']
  | f::g::fs => field f ++ ',' :: members (g::fs)

def object (fields : List Field) : Text := '{' :: members fields

/-- Characters of a record's field names. -/
def wordChar (c : Char) : Bool :=
  let n := c.toNat
  (65 ≤ n && n ≤ 90) || (97 ≤ n && n ≤ 122) || n == 95

def Word (text : Text) : Prop := ∀ c ∈ text, wordChar c = true

instance (text : Text) : Decidable (Word text) := List.decidableBAll (fun c => wordChar c = true) text

/-- Characters that are written as they are. -/
def Plain (c : Char) : Prop := c ≠ '"' ∧ c ≠ '\\' ∧ 32 ≤ c.toNat

instance (c : Char) : Decidable (Plain c) := inferInstanceAs (Decidable (_ ∧ _))

theorem escapePlain {c : Char} (plain : Plain c) : escapeChar c = [c] := by
  obtain ⟨quote,backslash,printed⟩ := plain
  have newline : c ≠ '\n' := by rintro rfl; exact absurd printed (by decide)
  have carriage : c ≠ '\r' := by rintro rfl; exact absurd printed (by decide)
  have tab : c ≠ '\t' := by rintro rfl; exact absurd printed (by decide)
  have backspace : c.toNat ≠ 8 := by omega
  have feed : c.toNat ≠ 12 := by omega
  have high : ¬ c.toNat < 32 := by omega
  simp only [escapeChar,quote,backslash,newline,carriage,tab,backspace,feed,high,if_false]

/-- What is not written as it is begins with a backslash. -/
theorem escapeCases (c : Char) : (Plain c ∧ escapeChar c = [c]) ∨ ∃ rest, escapeChar c = '\\'::rest := by
  by_cases plain : Plain c
  · exact Or.inl ⟨plain,escapePlain plain⟩
  · refine Or.inr ?_
    unfold escapeChar
    repeat' split
    all_goals try exact ⟨_,rfl⟩
    rename_i quote backslash _ _ _ _ _ high
    exact absurd ⟨quote,backslash,not_lt.mp high⟩ plain

theorem escapeCons (c : Char) (text : Text) : escape (c::text) = escapeChar c ++ escape text := rfl

theorem escapeSame {text : Text} (plain : ∀ c ∈ text, Plain c) : escape text = text := by
  induction text with
  | nil => rfl
  | cons c cs ih =>
    rw [escapeCons,escapePlain (plain c List.mem_cons_self),ih fun d mem => plain d (List.mem_cons_of_mem _ mem)]
    rfl

theorem wordPlain {c : Char} (word : wordChar c = true) : Plain c := by
  refine ⟨by rintro rfl; contradiction,by rintro rfl; contradiction,?_⟩
  simp only [wordChar,Bool.or_eq_true,Bool.and_eq_true,decide_eq_true_eq,beq_iff_eq] at word
  omega

theorem digitCharClean {n : Nat} (small : n < 16) : n.digitChar ≠ '"' ∧ n.digitChar ≠ '\\' := by
  interval_cases n <;> decide

/-! Texts that can be told apart by their first quote. -/

/-- What follows the first quote that no backslash escapes. -/
def closing : Text → Option Text
  | [] => none
  | '"'::text => some text
  | '\\'::_::text => closing text
  | _::text => closing text

theorem closingPlain {c : Char} (quote : c ≠ '"') (backslash : c ≠ '\\') (text : Text) : closing (c::text) = closing text := by
  cases text <;> simp [closing,backslash]

theorem closingWord {word : Text} (clean : Word word) (text : Text) : closing (word ++ text) = closing text := by
  induction word with
  | nil => rfl
  | cons c cs ih =>
    have plain := wordPlain (clean c List.mem_cons_self)
    rw [List.cons_append,closingPlain plain.1 plain.2.1,ih fun d mem => clean d (List.mem_cons_of_mem _ mem)]

theorem closingEscape (c : Char) (text : Text) : closing (escapeChar c ++ text) = closing text := by
  unfold escapeChar
  repeat' split
  all_goals try rfl
  · rename_i low
    obtain ⟨quote,backslash⟩ := digitCharClean (show c.toNat / 16 < 16 by omega)
    obtain ⟨quote',backslash'⟩ := digitCharClean (Nat.mod_lt c.toNat (show 0 < 16 by decide))
    have zero : ∀ rest, closing ('0'::rest) = closing rest := closingPlain (by decide) (by decide)
    simp only [List.cons_append,List.nil_append,closing,zero,closingPlain quote backslash,closingPlain quote' backslash']
  · rename_i quote backslash _ _ _ _ _ _
    exact closingPlain quote backslash text

/-- A serialized text ends at the first quote that no backslash escapes. -/
theorem closingText (text rest : Text) : closing (escape text ++ '"'::rest) = some rest := by
  induction text with
  | nil => rfl
  | cons c cs ih => rw [escapeCons,List.append_assoc,closingEscape,ih]

/-! A label: a quoted name, with the text that it introduces behind it. -/

/-- `"` head `x` tail `":"` and the rest: one character of the name is free. -/
def labelled (head tail : Text) (x : Char) (rest : Text) : Text := head ++ x :: (tail ++ '"' :: ':' :: '"' :: rest)

/-- Somewhere in the text the label begins. -/
def Occurs (label text : Text) : Prop := ∃ before, text = before ++ '"'::label

section
variable {label text : Text}

theorem occursCons {c : Char} (here : Occurs label (c::text)) : (c = '"' ∧ text = label) ∨ Occurs label text := by
  obtain ⟨before,same⟩ := here
  cases before with
  | nil =>
    rw [List.nil_append,List.cons.injEq] at same
    exact Or.inl same
  | cons b before => exact Or.inr ⟨before,(List.cons.inj same).2⟩

/-- Nothing begins inside a piece without quotes. -/
theorem occursPiece {piece : Text} (clean : '"' ∉ piece) (here : Occurs label (piece ++ text)) : Occurs label text := by
  induction piece with
  | nil => exact here
  | cons c cs ih =>
    rcases occursCons here with ⟨rfl,_⟩ | later
    · exact absurd List.mem_cons_self clean
    · exact ih (fun mem => clean (List.mem_cons_of_mem _ mem)) later

/-- Inside a serialized text it can only begin at an escaped quote. -/
theorem occursEscape {value : Text} (here : Occurs label (escape value ++ text)) :
    (∃ rest, label = escape rest ++ text) ∨ Occurs label text := by
  induction value with
  | nil => exact Or.inr here
  | cons c cs ih =>
    rw [escapeCons,List.append_assoc] at here
    by_cases quote : c = '"'
    · subst quote
      rcases occursCons here with ⟨wrong,_⟩ | here
      · contradiction
      · rcases occursCons here with ⟨_,same⟩ | later
        · exact Or.inl ⟨cs,same.symm⟩
        · exact ih later
    · refine ih (occursPiece ?_ here)
      unfold escapeChar
      repeat' split
      · contradiction
      all_goals try simp
      exact fun same => quote same.symm

end

/-- What stands behind a value. -/
def Separator (d : Char) : Prop := d = ',' ∨ d = '}'

theorem separatorNotWord {d : Char} (separator : Separator d) : wordChar d = false := by
  rcases separator with rfl | rfl <;> decide

theorem membersShape (f : Field) (fs : List Field) (word : Word f.1) :
    ∃ d more, Separator d ∧ members (f::fs) = '"' :: (f.1 ++ '"' :: ':' :: (write f.2 ++ d::more)) ∧
      (more = [] ∨ more = members fs) := by
  have name : escape f.1 = f.1 := escapeSame fun c mem => wordPlain (word c mem)
  cases fs with
  | nil => exact ⟨'}',[],Or.inr rfl,by simp [members,field,quoted,name],Or.inl rfl⟩
  | cons g gs => exact ⟨',',members (g::gs),Or.inl rfl,by simp [members,field,quoted,name],Or.inr rfl⟩

theorem writeClean {value : Value} (noText : ∀ text, value ≠ .text text) : '"' ∉ write value := by
  cases value with
  | null => decide
  | text text => exact absurd rfl (noText text)
  | number n =>
    intro mem
    have inside : '"' ∈ Nat.toDigits 10 n := mem
    have digit : '"'.isDigit = true := Nat.isDigit_of_mem_toDigits (by decide) (by decide) inside
    contradiction
  | bool b => cases b <;> decide

section
variable {head tail rest : Text} {x : Char}

theorem closingLabel (x : Char) (rest : Text) (headWord : Word head) (tailWord : Word tail) (tailSome : tail ≠ []) :
    closing (labelled head tail x rest) = some (':' :: '"' :: rest) ∨
    ∃ c cs, closing (labelled head tail x rest) = some (c::cs) ∧ wordChar c = true := by
  obtain ⟨t,ts,rfl⟩ := List.exists_cons_of_ne_nil tailSome
  have word := tailWord t List.mem_cons_self
  have wordTail : Word ts := fun c mem => tailWord c (List.mem_cons_of_mem _ mem)
  rw [labelled,closingWord headWord]
  by_cases quote : x = '"'
  · subst quote
    exact Or.inr ⟨t,_,rfl,word⟩
  by_cases backslash : x = '\\'
  -- the backslash takes the first character of the tail with it
  · subst backslash
    refine Or.inl ?_
    rw [List.cons_append,closing,closingWord wordTail]
    rfl
  · refine Or.inl ?_
    rw [closingPlain quote backslash,closingWord tailWord]
    rfl

/-- No label is read inside a serialized text. -/
theorem labelNotInside (headWord : Word head) (tailWord : Word tail) (tailSome : tail ≠ []) {text more : Text} {d : Char}
    (separator : Separator d) : labelled head tail x rest ≠ escape text ++ '"'::d::more := by
  intro same
  have ends := closingText text (d::more)
  rw [← same] at ends
  rcases closingLabel x rest headWord tailWord tailSome with found | ⟨c,cs,found,word⟩
  · rw [found,Option.some.injEq,List.cons.injEq] at ends
    rcases separator with rfl | rfl <;> exact absurd ends.1 (by decide)
  · rw [found,Option.some.injEq,List.cons.injEq] at ends
    have other := separatorNotWord separator
    rw [← ends.1,word] at other
    contradiction

theorem labelHead (headWord : Word head) (headSome : head ≠ []) {d : Char} {more : Text} (other : wordChar d = false) :
    d::more ≠ labelled head tail x rest := by
  obtain ⟨c,cs,rfl⟩ := List.exists_cons_of_ne_nil headSome
  intro same
  rw [labelled,List.cons_append,List.cons.injEq] at same
  rw [same.1,headWord c List.mem_cons_self] at other
  contradiction

/-- A label that follows the value's separator, or that is read in the value itself. -/
theorem occursValue (headWord : Word head) (headSome : head ≠ []) (tailWord : Word tail) (tailSome : tail ≠ [])
    {value : Value} {more : Text} {d : Char} (separator : Separator d)
    (here : Occurs (labelled head tail x rest) (write value ++ d::more)) : Occurs (labelled head tail x rest) more := by
  have notQuote : d ≠ '"' := by rcases separator with rfl | rfl <;> decide
  have behind : Occurs (labelled head tail x rest) (d::more) → Occurs (labelled head tail x rest) more := fun there => by
    rcases occursCons there with ⟨wrong,_⟩ | later
    · contradiction
    · exact later
  by_cases noText : ∀ text, value ≠ .text text
  · exact behind (occursPiece (writeClean noText) here)
  · obtain ⟨text,rfl⟩ := not_forall_not.mp noText
    rw [write,quoted,List.cons_append,List.append_assoc] at here
    rcases occursCons here with ⟨_,same⟩ | inner
    · exact absurd same.symm (labelNotInside headWord tailWord tailSome separator)
    · rcases occursEscape inner with ⟨inside,same⟩ | after
      · exact absurd same (labelNotInside headWord tailWord tailSome separator)
      · rcases occursCons after with ⟨_,same⟩ | later
        · exact absurd same (labelHead headWord headSome (separatorNotWord separator))
        · exact behind later

/-- A label at the start of a member is that member's, and its value is a text. -/
theorem labelOfMember (headWord : Word head) (tailWord : Word tail) (tailSome : tail ≠ []) {f : Field} (word : Word f.1)
    {d : Char} {more : Text} (separator : Separator d)
    (same : f.1 ++ '"' :: ':' :: (write f.2 ++ d::more) = labelled head tail x rest) :
    ∃ text after, f = (head ++ x::tail,.text text) ∧ rest = escape text ++ '"'::after := by
  have ends : closing (f.1 ++ '"' :: ':' :: (write f.2 ++ d::more)) = some (':' :: (write f.2 ++ d::more)) := by
    rw [closingWord word]; rfl
  rw [same] at ends
  have value : write f.2 ++ d::more = '"'::rest := by
    rcases closingLabel x rest headWord tailWord tailSome with found | ⟨c,cs,found,letter⟩
    · rw [found,Option.some.injEq,List.cons.injEq] at ends
      exact ends.2.symm
    · rw [found,Option.some.injEq,List.cons.injEq] at ends
      rw [ends.1] at letter; contradiction
  have name : f.1 = head ++ x::tail := by
    have whole : f.1 ++ '"' :: ':' :: '"' :: rest = (head ++ x::tail) ++ '"' :: ':' :: '"' :: rest := by
      rw [value,labelled] at same
      rw [same]; simp
    exact List.append_cancel_right whole
  by_cases noText : ∀ text, f.2 ≠ .text text
  · -- No other value begins with a quote.
    have clean := writeClean noText
    cases written : write f.2 with
    | nil =>
      rw [written,List.nil_append,List.cons.injEq] at value
      rcases separator with rfl | rfl <;> exact absurd value.1 (by decide)
    | cons c cs =>
      rw [written,List.cons_append,List.cons.injEq] at value
      rw [written,value.1] at clean
      exact absurd List.mem_cons_self clean
  · obtain ⟨text,isText⟩ := not_forall_not.mp noText
    refine ⟨text,d::more,Prod.ext name isText,?_⟩
    rw [isText,write,quoted,List.cons_append,List.append_assoc] at value
    exact (List.cons.inj value).2.symm

/-- In a record whose names are words, a label is the label of one of its fields. -/
theorem labelFound (headWord : Word head) (headSome : head ≠ []) (tailWord : Word tail) (tailSome : tail ≠ [])
    {fields : List Field} (names : ∀ f ∈ fields, Word f.1) (here : Occurs (labelled head tail x rest) (members fields)) :
    ∃ text after, (head ++ x::tail,.text text) ∈ fields ∧ rest = escape text ++ '"'::after := by
  induction fields with
  | nil =>
    obtain ⟨before,same⟩ := here
    cases before <;> simp [members] at same
  | cons f fs ih =>
    have word := names f List.mem_cons_self
    have later : Occurs (labelled head tail x rest) (members fs) →
        ∃ text after, (head ++ x::tail,.text text) ∈ f::fs ∧ rest = escape text ++ '"'::after := fun there => by
      obtain ⟨text,after,mem,same⟩ := ih (fun g mem => names g (List.mem_cons_of_mem _ mem)) there
      exact ⟨text,after,List.mem_cons_of_mem _ mem,same⟩
    obtain ⟨d,more,separator,shape,left⟩ := membersShape f fs word
    rw [shape] at here
    rcases occursCons here with ⟨_,same⟩ | here
    · obtain ⟨text,after,rfl,value⟩ := labelOfMember headWord tailWord tailSome word separator same
      exact ⟨text,after,List.mem_cons_self,value⟩
    · have clean : '"' ∉ f.1 := fun mem => (wordPlain (word _ mem)).1 rfl
      rcases occursCons (occursPiece clean here) with ⟨_,same⟩ | here
      · exact absurd same (labelHead headWord headSome (by decide))
      · rcases occursCons here with ⟨wrong,_⟩ | here
        · contradiction
        · have there := occursValue headWord headSome tailWord tailSome separator here
          rcases left with rfl | rfl
          · obtain ⟨before,same⟩ := there
            cases before <;> contradiction
          · exact later there

end

/-- The field of a record, as it stands in the record's text. -/
theorem fieldInside {fields : List Field} {f : Field} (mem : f ∈ fields) : ∃ before after, members fields = before ++ field f ++ after := by
  induction fields with
  | nil => simp at mem
  | cons g gs ih =>
    rcases List.mem_cons.mp mem with rfl | rest
    · cases gs with
      | nil => exact ⟨[],['}'],by simp [members]⟩
      | cons h hs => exact ⟨[],',' :: members (h::hs),by simp [members]⟩
    · obtain ⟨before,after,same⟩ := ih rest
      cases gs with
      | nil => simp at rest
      | cons h hs => exact ⟨field g ++ ',' :: before,after,by simp [members,same]⟩

end RustMcp.JsonText
