import RustMcp.JsonFields

/-! Rustdoc JSON of an older format: how it is patched to the schema that the ingestion reads,
and that a patched document says what the old one said. -/
namespace RustMcp.RustdocCompat
open Str (Text)
open StdioProxy (Json Fields)
open JsonFields

/-- `rustdoc_types::FORMAT_VERSION` -/
def formatVersion : Nat := 61

def asU64 : Json → Option Nat
  | .number text =>
      if text ≠ [] ∧ text.all Char.isDigit = true then
        let n := text.foldl (fun n c => n * 10 + (c.toNat - '0'.toNat)) 0
        if n < 2 ^ 64 then some n else none
      else none
  | _ => none

/-- An entry of `external_crates`. -/
def addPath : Json → Json
  | .object fields => .object (Fields.orInsert fields "path".toList (.text []))
  | entry => entry

def isStable (stability : Fields) : Bool := (Fields.get stability "level".toList).bind Json.asStr = some "stable".toList

/-- A value of `stability` or `const_stability`. -/
def nestSince : Json → Json
  | .object stability =>
      if isStable stability then
        let since := (Fields.get stability "since".toList).getD .null
        .object (Fields.insert (without "since".toList stability) "level".toList
          (.object [("stable".toList,.object [("since".toList,since)])]))
      else .object stability
  | stability => stability

/-- An item of `index`. -/
def nestItem : Json → Json
  | .object fields => .object (modify "const_stability".toList nestSince (modify "stability".toList nestSince fields))
  | item => item

/-- Every value of an object, where it is one. -/
def eachValue (change : Json → Json) : Json → Json
  | .object fields => .object (mapValues change fields)
  | value => value

def atKey (key : Text) (change : Json → Json) : Json → Json
  | .object fields => .object (modify key change fields)
  | value => value

def patchDocument (fv : Nat) (doc : Json) : Json :=
  let doc := if fv < 57 then atKey "external_crates".toList (eachValue addPath) doc else doc
  if 58 ≤ fv ∧ fv < 61 then atKey "index".toList (eachValue nestItem) doc else doc

section
variable {C : Type} (fromStr : Text → Option Json) (fromValue : Json → Option C)

def tryCompatDeserialize (content : Text) : Option C := do
  let doc ← fromStr content
  let fv ← (doc.get "format_version".toList).bind asU64
  if formatVersion ≤ fv then none else fromValue (patchDocument fv doc)

/-- The document as the ingestion takes it: patched only where it cannot be read as it is. -/
def deserializeDocument (strict : Text → Option C) (content : Text) : Option C :=
  (strict content).or (tryCompatDeserialize fromStr fromValue content)

end

/-! The two schemas. -/

inductive StabilityLevel where
  | stable (since : Json)
  | unstable

/-- A level as it is written from 58 to 60: its name, with `since` beside it. -/
def flatLevel (stability : Fields) : Option StabilityLevel :=
  match Fields.get stability "level".toList with
  | some (.text name) =>
      if name = "stable".toList then some (.stable ((Fields.get stability "since".toList).getD .null))
      else if name = "unstable".toList then some .unstable
      else none
  | _ => none

/-- A level as it is written from 61 on: `since` below the name. -/
def nestedLevel (stability : Fields) : Option StabilityLevel :=
  match Fields.get stability "level".toList with
  | some (.text name) => if name = "unstable".toList then some .unstable else none
  | some (.object variant) =>
      match Fields.get variant "stable".toList with
      | some (.object inner) => some (.stable ((Fields.get inner "since".toList).getD .null))
      | _ => none
  | _ => none

/-- Two values are alike key by key; what is no object is the same. -/
def AtFields (R : Text → Json → Json → Prop) : Json → Json → Prop
  | .object old,.object new => ∀ key, Option.Rel (R key) (Fields.get old key) (Fields.get new key)
  | old,new => old = new

/-- An external crate has a path: its own, or an empty one. -/
def Pathed : Json → Json → Prop
  | .object old,.object new =>
      Fields.get new "path".toList = some ((Fields.get old "path".toList).getD (.text [])) ∧
      ∀ key, key ≠ "path".toList → Fields.get new key = Fields.get old key
  | old,new => old = new

/-- A stability says in the current schema what it said in the old one. Only a stable level is written anew. -/
def Restated : Json → Json → Prop
  | .object old,.object new =>
      (∀ level, flatLevel old = some level → nestedLevel new = some level) ∧
      (∀ key, key ∉ ["level".toList,"since".toList] → Fields.get new key = Fields.get old key) ∧
      (isStable old = true → Fields.get new "since".toList = none) ∧
      (isStable old = false → new = old)
  | old,new => old = new

def ItemRestated : Json → Json → Prop :=
  AtFields fun key old new => if key = "stability".toList ∨ key = "const_stability".toList then Restated old new else old = new

/-- `new` is the document `old` of version `fv` in the current schema; all that is not named is equal. -/
def Upgraded (fv : Nat) : Json → Json → Prop :=
  AtFields fun key old new =>
    if key = "external_crates".toList ∧ fv < 57 then AtFields (fun _ => Pathed) old new
    else if key = "index".toList ∧ 58 ≤ fv ∧ fv ≤ 60 then AtFields (fun _ => ItemRestated) old new
    else old = new

/-! Changes where they stand. -/

section
variable {R : Text → Json → Json → Prop}

theorem relRefl {S : Json → Json → Prop} (same : ∀ value, S value value) (held : Option Json) : Option.Rel S held held := by
  cases held with
  | none => exact .none
  | some value => exact .some (same value)

theorem relMap {S : Json → Json → Prop} {change : Json → Json} (changed : ∀ value, S value (change value)) (held : Option Json) :
    Option.Rel S held (held.map change) := by
  cases held with
  | none => exact .none
  | some value => exact .some (changed value)

theorem eachRelated {change : Json → Json} (changed : ∀ key value, R key value (change value)) (value : Json) :
    AtFields R value (eachValue change value) := by
  cases value with
  | object fields =>
    intro key
    rw [getMapValues]
    exact relMap (changed key) _
  | _ => rfl

theorem keyRelated {key : Text} {change : Json → Json} (changed : ∀ value, R key value (change value))
    (others : ∀ other value, other ≠ key → R other value value) (value : Json) : AtFields R value (atKey key change value) := by
  cases value with
  | object fields =>
    intro other
    by_cases same : other = key
    · subst same
      rw [getModifySame]
      exact relMap changed _
    · rw [getModifyOther _ same]
      exact relRefl (fun value => others other value same) _
  | _ => rfl

theorem fieldsRefl (same : ∀ key value, R key value value) (value : Json) : AtFields R value value := by
  cases value with
  | object fields => exact fun key => relRefl (same key) _
  | _ => rfl

end

theorem addPathPathed (entry : Json) : Pathed entry (addPath entry) := by
  cases entry with
  | object fields => exact ⟨getOrInsertSame,fun key other => getOrInsertOther other⟩
  | _ => rfl

/-! Levels. -/

section
variable {stability : Fields}

theorem stableLevel (stable : isStable stability = true) :
    Fields.get stability "level".toList = some (.text "stable".toList) := by
  simp only [isStable,decide_eq_true_eq] at stable
  obtain ⟨level,held,word⟩ := Option.bind_eq_some_iff.mp stable
  cases level with
  | text name =>
    cases Option.some.inj word
    exact held
  | _ => contradiction

theorem flatStable (stable : isStable stability = true) :
    flatLevel stability = some (.stable ((Fields.get stability "since".toList).getD .null)) := by
  rw [flatLevel,stableLevel stable]
  exact if_pos rfl

theorem flatOther {level : StabilityLevel} (other : isStable stability = false) (flat : flatLevel stability = some level) :
    nestedLevel stability = some level := by
  unfold flatLevel at flat
  unfold nestedLevel
  cases held : Fields.get stability "level".toList with
  | none =>
    rw [held] at flat
    contradiction
  | some value =>
    rw [held] at flat
    cases value with
    | text name =>
      have notStable : name ≠ "stable".toList := by
        rintro rfl
        have stable : isStable stability = true := decide_eq_true (by rw [held]; rfl)
        rw [stable] at other
        contradiction
      simpa only [if_neg notStable] using flat
    | _ => contradiction

theorem nestSinceRestated (value : Json) : Restated value (nestSince value) := by
  cases value with
  | object stability =>
    cases stable : isStable stability with
    | false =>
      have kept : nestSince (.object stability) = .object stability := by simp [nestSince,stable]
      rw [kept]
      exact ⟨fun level flat => flatOther stable flat,fun _ _ => rfl,fun yes => absurd yes (by simp [stable]),fun _ => rfl⟩
    | true =>
      have nested : nestSince (.object stability) = .object (Fields.insert (without "since".toList stability) "level".toList
          (.object [("stable".toList,.object [("since".toList,(Fields.get stability "since".toList).getD .null)])])) := by
        simp [nestSince,stable]
      rw [nested]
      refine ⟨fun level flat => ?_,fun key other => ?_,fun _ => ?_,fun no => absurd no (by simp [stable])⟩
      · rw [flatStable stable] at flat
        rw [← flat,nestedLevel,getInsertSame]
        rfl
      · simp only [List.mem_cons,List.not_mem_nil,or_false,not_or] at other
        rw [getInsertOther other.1,getWithoutOther other.2]
      · rw [getInsertOther (by decide),getWithoutSame]
  | _ => rfl

end

theorem nestItemRestated (item : Json) : ItemRestated item (nestItem item) := by
  cases item with
  | object fields =>
    intro key
    by_cases first : key = "stability".toList
    · subst first
      rw [getModifyOther _ (by decide),getModifySame]
      exact relMap (fun value => nestSinceRestated value) _
    by_cases second : key = "const_stability".toList
    · subst second
      rw [getModifySame,getModifyOther _ (by decide)]
      exact relMap (fun value => nestSinceRestated value) _
    · rw [getModifyOther _ second,getModifyOther _ first]
      refine relRefl (fun value => ?_) _
      have same : (if key = "stability".toList ∨ key = "const_stability".toList then Restated value value else value = value) :=
        (if_neg (not_or.mpr ⟨first,second⟩)).mpr rfl
      exact same
  | _ => rfl

theorem patchUpgrades (fv : Nat) (doc : Json) : Upgraded fv doc (patchDocument fv doc) := by
  unfold patchDocument
  by_cases pathless : fv < 57
  · have late : ¬(58 ≤ fv ∧ fv < 61) := by omega
    rw [if_pos pathless,if_neg late]
    refine keyRelated (fun value => ?_) (fun other value apart => ?_) doc
    · rw [if_pos ⟨rfl,pathless⟩]
      exact eachRelated (fun _ => addPathPathed) value
    · have early : ¬(other = "index".toList ∧ 58 ≤ fv ∧ fv ≤ 60) := by omega
      rw [if_neg fun both => apart both.1,if_neg early]
  rw [if_neg pathless]
  by_cases flat : 58 ≤ fv ∧ fv < 61
  · rw [if_pos flat]
    refine keyRelated (fun value => ?_) (fun other value apart => ?_) doc
    · rw [if_neg fun both => pathless both.2,if_pos ⟨rfl,flat.1,by omega⟩]
      exact eachRelated (fun _ => nestItemRestated) value
    · rw [if_neg fun both => pathless both.2,if_neg fun all => apart all.1]
  · rw [if_neg flat]
    refine fieldsRefl (fun key value => ?_) doc
    rw [if_neg fun both => pathless both.2,if_neg fun all => flat ⟨all.2.1,by omega⟩]

/-- A document of version 54 to 60 is read as the same document in the current schema; one of the
current version or a later one is not patched. -/
theorem compatUpgrades {C : Type} (fromStr : Text → Option Json) (fromValue : Json → Option C) (strict : Text → Option C)
    (content : Text) (doc : Json) (fv : Nat) (reads : fromStr content = some doc)
    (version : (doc.get "format_version".toList).bind asU64 = some fv) :
    (54 ≤ fv → fv ≤ 60 → ∃ patched, Upgraded fv doc patched ∧ tryCompatDeserialize fromStr fromValue content = fromValue patched) ∧
    (61 ≤ fv → tryCompatDeserialize fromStr fromValue content = none ∧
      deserializeDocument fromStr fromValue strict content = strict content) := by
  have unfolded : tryCompatDeserialize fromStr fromValue content =
      if formatVersion ≤ fv then none else fromValue (patchDocument fv doc) := by
    simp only [tryCompatDeserialize,reads,version,bind,Option.bind_some]
  rw [deserializeDocument,unfolded]
  constructor
  · intro _ old
    have older : ¬formatVersion ≤ fv := by
      rw [formatVersion]
      omega
    exact ⟨patchDocument fv doc,patchUpgrades fv doc,if_neg older⟩
  · intro current
    have none_ : (if formatVersion ≤ fv then none else fromValue (patchDocument fv doc)) = none := if_pos current
    rw [none_]
    exact ⟨rfl,Option.or_none⟩

def stabilityDoc (stability : Json) : Json :=
  .object [("format_version".toList,.number "60".toList),
    ("index".toList,.object [("0".toList,.object [("stability".toList,stability)])])]

def flatStability : Json :=
  .object [("feature".toList,.text "rust1".toList),("level".toList,.text "stable".toList),("since".toList,.text "1.0.0".toList)]

def nestedStability : Json :=
  .object [("feature".toList,.text "rust1".toList),
    ("level".toList,.object [("stable".toList,.object [("since".toList,.text "1.0.0".toList)])])]

example : patchDocument 60 (stabilityDoc flatStability) = stabilityDoc nestedStability := rfl

theorem compatUpgradesFlat :
    ∃ patched, Upgraded 60 (stabilityDoc flatStability) patched ∧
      tryCompatDeserialize (fun _ => some (stabilityDoc flatStability)) some [] = some patched :=
  (compatUpgrades (fun _ => some (stabilityDoc flatStability)) some (fun _ => none) [] (stabilityDoc flatStability) 60 rfl rfl).1
    (by decide) (by decide)

end RustMcp.RustdocCompat
