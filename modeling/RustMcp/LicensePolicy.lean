import RustMcp.Utils

/-! The license policy of `crate_license_check` and `crate_alternatives`: identifiers drawn
from the text of an SPDX expression, held against lists of allowed and denied ones. -/
namespace RustMcp.LicensePolicy
open Str (Text join trim)
open Utils (ordered memOrdered)

def toAsciiUppercase (text : Text) : Text := text.map Char.toUpper

def normalizePolicyList (values : Option (List Text)) : List Text :=
  ordered (((values.getD []).map fun value => toAsciiUppercase (trim value)).filter (· ≠ []))

def tokenChar (c : Char) : Bool := c.isAlphanum || ['-','.','+',':'].contains c

/-- What a token, once it is complete, adds to the identifiers. -/
def completed (token : Text) : List Text :=
  if token = [] || ["AND".toList,"OR".toList,"WITH".toList].contains (toAsciiUppercase token) then [] else [token]

/-- The loop over the characters, with the token in progress. -/
def scanIdentifiers : Text → Text → List Text
  | token, [] => completed token
  | token, c::cs => if tokenChar c then scanIdentifiers (token ++ [c]) cs else completed token ++ scanIdentifiers [] cs

def extractLicenseIdentifiers (expression : Text) : List Text := ordered (scanIdentifiers [] expression)

inductive LicensePolicyResult where
  | allowed | denied | unknown
  deriving DecidableEq

def matchesIn (matchedUpper list : List Text) : List Text := list.filter fun item => matchedUpper.contains (toAsciiUppercase item)

/-- What both tools make of the identifiers and the lists. -/
def evaluateLists (matchedLicenses allowLicenses denyLicenses : List Text) : LicensePolicyResult × List Text :=
  let matchedUpper := ordered (matchedLicenses.map toAsciiUppercase)
  let deniedMatches := matchesIn matchedUpper denyLicenses
  if deniedMatches ≠ [] then (.denied,["matched denied licenses: ".toList ++ join ", ".toList deniedMatches])
  else if allowLicenses ≠ [] then
    let allowedMatches := matchesIn matchedUpper allowLicenses
    if allowedMatches = [] then (.denied,["no matched license is present in allow_licenses".toList])
    else (.allowed,["matched allowed licenses: ".toList ++ join ", ".toList allowedMatches])
  else (.allowed,["policy lists not provided; license metadata is informational".toList])

namespace Check

def evaluatePolicy (matchedLicenses allowLicenses denyLicenses : List Text) (hasExpression : Bool) :
    LicensePolicyResult × List Text :=
  if !hasExpression then (.unknown,["license expression is missing for selected version".toList])
  else evaluateLists matchedLicenses allowLicenses denyLicenses

/-- `handle_crate_license_check`, from the stored expression on. -/
def handleLicenses (licenseExpression : Option Text) (allowLicenses denyLicenses : Option (List Text)) :
    LicensePolicyResult × List Text :=
  let matchedLicenses := (licenseExpression.map extractLicenseIdentifiers).getD []
  evaluatePolicy matchedLicenses (normalizePolicyList allowLicenses) (normalizePolicyList denyLicenses) licenseExpression.isSome

end Check

namespace Alternatives

def evaluatePolicy (matchedLicenses allowLicenses denyLicenses : List Text) : LicensePolicyResult × List Text :=
  if matchedLicenses.isEmpty then (.unknown,["license metadata missing or unparsable".toList])
  else evaluateLists matchedLicenses allowLicenses denyLicenses

end Alternatives

/-! SPDX expressions. -/

/-- An identifier of a license or an exception, which is no operator. -/
structure SpdxId where
  val : Text
  chars : val.all tokenChar = true
  word : completed val = [val]

inductive Expression where
  | license (id : SpdxId) (exception : Option SpdxId)
  | and (left right : Expression)
  | or (left right : Expression)
  | paren (inside : Expression)

def Expression.isOr : Expression → Bool
  | .or _ _ => true
  | _ => false

/-- `AND` binds closer than `OR`. -/
def Expression.render : Expression → Text
  | .license id none => id.val
  | .license id (some exception) => id.val ++ (" WITH ".toList ++ exception.val)
  | .and left right => part left left.render ++ (" AND ".toList ++ part right right.render)
  | .or left right => left.render ++ (" OR ".toList ++ right.render)
  | .paren inside => '('::(inside.render ++ [')'])
where
  part (expression : Expression) (text : Text) : Text := if expression.isOr then '('::(text ++ [')']) else text

def Expression.identifiers : Expression → List Text
  | .license id exception => id.val::(exception.map SpdxId.val).toList
  | .and left right => left.identifiers ++ right.identifiers
  | .or left right => left.identifiers ++ right.identifiers
  | .paren inside => inside.identifiers

def Expression.exceptions : Expression → List Text
  | .license _ exception => (exception.map SpdxId.val).toList
  | .and left right => left.exceptions ++ right.exceptions
  | .or left right => left.exceptions ++ right.exceptions
  | .paren inside => inside.exceptions

/-- The licenses that each choice of `OR` branches leaves. -/
def Expression.choices : Expression → List (List Text)
  | .license id _ => [[id.val]]
  | .and left right => left.choices.flatMap fun one => right.choices.map fun other => one ++ other
  | .or left right => left.choices ++ right.choices
  | .paren inside => inside.choices

/-- Identifiers are compared without regard to case. -/
def Listed (list : List Text) (id : Text) : Prop := ∃ item ∈ list, toAsciiUppercase item = toAsciiUppercase id

instance (list : List Text) (id : Text) : Decidable (Listed list id) :=
  inferInstanceAs (Decidable (∃ item ∈ list, toAsciiUppercase item = toAsciiUppercase id))

def Satisfiable (allow deny : List Text) (expression : Expression) : Prop :=
  ∃ choice ∈ expression.choices, ∀ id ∈ choice, Listed allow id ∧ ¬ Listed deny id

def Expression.hasAnd : Expression → Bool
  | .license _ _ => false
  | .and _ _ => true
  | .or left right => left.hasAnd || right.hasAnd
  | .paren inside => inside.hasAnd

/-! Identifiers. -/

theorem tokenRead {token : Text} (chars : ∀ c ∈ token, tokenChar c = true) (before rest : Text) :
    scanIdentifiers before (token ++ rest) = scanIdentifiers (before ++ token) rest := by
  induction token generalizing before with
  | nil => simp
  | cons c token ih =>
    obtain ⟨here,later⟩ := List.forall_mem_cons.mp chars
    rw [List.cons_append,scanIdentifiers,if_pos here,ih later,List.append_assoc]
    rfl

/-- Nothing behind goes on with a token. -/
def Ends (rest : Text) : Prop := ∀ c ∈ rest.head?, tokenChar c = false

theorem wordRead {token rest : Text} (chars : token.all tokenChar = true) (ends : Ends rest) :
    scanIdentifiers [] (token ++ rest) = completed token ++ scanIdentifiers [] rest := by
  rw [tokenRead (fun c mem => List.all_eq_true.mp chars c mem),List.nil_append]
  cases rest with
  | nil => simp [scanIdentifiers,completed]
  | cons c rest =>
    have other : tokenChar c = false := ends c rfl
    simp [scanIdentifiers,other,completed]

theorem separatorRead {c : Char} (other : tokenChar c = false) (rest : Text) :
    scanIdentifiers [] (c::rest) = scanIdentifiers [] rest := by
  simp [scanIdentifiers,other,completed]

/-- An operator between spaces ends a token and adds nothing. -/
theorem operatorRead (gap word : Text) (shape : gap = ' '::(word ++ [' '])) (chars : word.all tokenChar = true)
    (operator : completed word = []) (rest : Text) : Ends (gap ++ rest) ∧ scanIdentifiers [] (gap ++ rest) = scanIdentifiers [] rest := by
  subst shape
  refine ⟨fun c first => by cases first; rfl,?_⟩
  rw [List.cons_append,separatorRead (by decide),List.append_assoc,List.singleton_append,
    wordRead chars (fun c first => by cases first; rfl),operator,separatorRead (by decide)]
  rfl

theorem parenRead {text : Text} {ids : List Text}
    (inside : ∀ {rest : Text}, Ends rest → scanIdentifiers [] (text ++ rest) = ids ++ scanIdentifiers [] rest) (rest : Text) :
    scanIdentifiers [] ('('::(text ++ [')']) ++ rest) = ids ++ scanIdentifiers [] rest := by
  have closed : Ends (')'::rest) := fun c first => by cases first; rfl
  rw [List.cons_append,separatorRead (by decide),List.append_assoc,List.singleton_append,inside closed,separatorRead (by decide)]

theorem expressionRead (expression : Expression) : ∀ {rest : Text}, Ends rest →
    scanIdentifiers [] (expression.render ++ rest) = expression.identifiers ++ scanIdentifiers [] rest := by
  have partRead {inside : Expression}
      (read : ∀ {rest : Text}, Ends rest →
        scanIdentifiers [] (inside.render ++ rest) = inside.identifiers ++ scanIdentifiers [] rest)
      {rest : Text} (ends : Ends rest) :
      scanIdentifiers [] (Expression.render.part inside inside.render ++ rest) = inside.identifiers ++ scanIdentifiers [] rest := by
    unfold Expression.render.part
    split
    · exact parenRead read rest
    · exact read ends
  induction expression with
  | license id exception =>
    intro rest ends
    cases exception with
    | none => rw [Expression.render,wordRead id.chars ends,id.word]; rfl
    | some exception =>
      obtain ⟨gap,operator⟩ := operatorRead " WITH ".toList "WITH".toList rfl (by decide) (by decide)
        (exception.val ++ rest)
      rw [Expression.render,List.append_assoc,List.append_assoc,wordRead id.chars gap,id.word,operator,wordRead exception.chars ends,
        exception.word]
      rfl
  | and left right leftRead rightRead =>
    intro rest ends
    obtain ⟨gap,operator⟩ := operatorRead " AND ".toList "AND".toList rfl (by decide) (by decide)
      (Expression.render.part right right.render ++ rest)
    rw [Expression.render,List.append_assoc,List.append_assoc,partRead leftRead gap,operator,partRead rightRead ends,
      Expression.identifiers,List.append_assoc]
  | or left right leftRead rightRead =>
    intro rest ends
    obtain ⟨gap,operator⟩ := operatorRead " OR ".toList "OR".toList rfl (by decide) (by decide)
      (right.render ++ rest)
    rw [Expression.render,List.append_assoc,List.append_assoc,leftRead gap,operator,rightRead ends,Expression.identifiers,
      List.append_assoc]
  | paren inside read =>
    intro rest _
    exact parenRead read rest

theorem idFilled (id : SpdxId) : id.val ≠ [] := by
  intro empty
  have word := id.word
  rw [empty] at word
  cases word

theorem idsFilled {expression : Expression} {id : Text} (mem : id ∈ expression.identifiers) : id ≠ [] := by
  induction expression with
  | license own exception =>
    rcases List.mem_cons.mp mem with rfl | rest
    · exact idFilled own
    · obtain ⟨one,-,rfl⟩ := Option.map_eq_some_iff.mp (Option.mem_toList.mp rest)
      exact idFilled one
  | and left right leftFilled rightFilled => exact (List.mem_append.mp mem).elim leftFilled rightFilled
  | or left right leftFilled rightFilled => exact (List.mem_append.mp mem).elim leftFilled rightFilled
  | paren inside filled => exact filled mem

/-- Whatever its structure, exactly the identifiers of an expression are drawn from its text. -/
theorem memExtracted (expression : Expression) (id : Text) :
    id ∈ extractLicenseIdentifiers expression.render ↔ id ∈ expression.identifiers := by
  have ends : Ends [] := fun c first => by cases first
  have read := expressionRead expression ends
  rw [List.append_nil] at read
  rw [extractLicenseIdentifiers,memOrdered,read]
  simp [scanIdentifiers,completed]

theorem identifiersSome (expression : Expression) : expression.identifiers ≠ [] := by
  induction expression with
  | license id exception => exact List.cons_ne_nil _ _
  | and left right leftSome _ => exact List.append_ne_nil_of_left_ne_nil leftSome _
  | or left right leftSome _ => exact List.append_ne_nil_of_left_ne_nil leftSome _
  | paren inside some_ => exact some_

/-! The lists. -/

theorem noMatch {matched list : List Text} :
    matchesIn (ordered (matched.map toAsciiUppercase)) list = [] ↔ ∀ id ∈ matched, ¬ Listed list id := by
  simp only [matchesIn,List.filter_eq_nil_iff,List.contains_iff_mem,memOrdered,List.mem_map,Listed]
  constructor
  · rintro none_ id mem ⟨item,inside,same⟩
    exact none_ item inside ⟨id,mem,same.symm⟩
  · rintro none_ item inside ⟨id,mem,same⟩
    exact none_ id mem ⟨item,inside,same.symm⟩

theorem listsAllowed {matched allow deny : List Text} (some_ : allow ≠ []) :
    (evaluateLists matched allow deny).1 = .allowed ↔ (∃ id ∈ matched, Listed allow id) ∧ ∀ id ∈ matched, ¬ Listed deny id := by
  have allowed : (∃ id ∈ matched, Listed allow id) ↔ matchesIn (ordered (matched.map toAsciiUppercase)) allow ≠ [] := by
    rw [ne_eq,noMatch]
    push Not
    rfl
  rw [allowed,← noMatch,evaluateLists]
  split
  · rename_i denied
    simp [denied]
  · rename_i clear
    dsimp only
    split
    · rename_i none_
      simp [none_]
    · rename_i found
      simp [found,not_not.mp clear]

theorem upperTwice (text : Text) : toAsciiUppercase (toAsciiUppercase text) = toAsciiUppercase text := by
  simp [toAsciiUppercase]

/-- The lists of a request hold what they held, but for blank items. -/
theorem listedNormalized (values : List Text) {id : Text} (some_ : id ≠ []) :
    Listed (normalizePolicyList values) id ↔ ∃ value ∈ values, toAsciiUppercase (trim value) = toAsciiUppercase id := by
  simp only [Listed,normalizePolicyList,memOrdered,List.mem_filter,List.mem_map,Option.getD_some]
  constructor
  · rintro ⟨item,⟨⟨value,mem,rfl⟩,-⟩,same⟩
    exact ⟨value,mem,(upperTwice _).symm.trans same⟩
  · rintro ⟨value,mem,same⟩
    have filled : toAsciiUppercase (trim value) ≠ [] := by
      rw [same]
      exact mt List.map_eq_nil_iff.mp some_
    exact ⟨_,⟨⟨value,mem,rfl⟩,by simpa using filled⟩,(upperTwice _).trans same⟩

theorem choiceIds {expression : Expression} {choice : List Text} (inside : choice ∈ expression.choices) {id : Text}
    (mem : id ∈ choice) : id ∈ expression.identifiers := by
  induction expression generalizing choice with
  | license own exception =>
    cases List.mem_singleton.mp inside
    cases List.mem_singleton.mp mem
    exact List.mem_cons_self
  | and left right leftIds rightIds =>
    obtain ⟨one,fromLeft,later⟩ := List.mem_flatMap.mp inside
    obtain ⟨other,fromRight,rfl⟩ := List.mem_map.mp later
    rcases List.mem_append.mp mem with here | there
    · exact List.mem_append_left _ (leftIds fromLeft here)
    · exact List.mem_append_right _ (rightIds fromRight there)
  | or left right leftIds rightIds =>
    rcases List.mem_append.mp inside with here | there
    · exact List.mem_append_left _ (leftIds here mem)
    · exact List.mem_append_right _ (rightIds there mem)
  | paren expression ids => exact ids inside mem

/-- Without `AND` every license is a choice of its own. -/
theorem choiceOf {expression : Expression} (plain : expression.hasAnd = false) {id : Text} (mem : id ∈ expression.identifiers)
    (license : id ∉ expression.exceptions) : [id] ∈ expression.choices := by
  induction expression with
  | license own exception =>
    rcases List.mem_cons.mp mem with rfl | rest
    · exact List.mem_singleton_self _
    · exact absurd rest license
  | and left right => cases plain
  | or left right leftChoice rightChoice =>
    simp only [Expression.hasAnd,Bool.or_eq_false_iff] at plain
    obtain ⟨notLeft,notRight⟩ := not_or.mp (mt List.mem_append.mpr license)
    rcases List.mem_append.mp mem with here | there
    · exact List.mem_append_left _ (leftChoice plain.1 here notLeft)
    · exact List.mem_append_right _ (rightChoice plain.2 there notRight)
  | paren inside choice => exact choice plain mem license

theorem onlyHere (expression : Expression) {allow : List Text} (some_ : allow ≠ []) (deny : List Text) :
    (Check.evaluatePolicy (extractLicenseIdentifiers expression.render) allow deny true).1 = .allowed ↔
      (∃ id ∈ expression.identifiers, Listed allow id) ∧ ∀ id ∈ expression.identifiers, ¬ Listed deny id := by
  rw [show Check.evaluatePolicy _ allow deny true = evaluateLists _ allow deny from rfl,listsAllowed some_]
  simp only [memExtracted]

/-- The answer to a request, in terms of the lists as they came. -/
theorem requestAllowed {expression : Expression} {allow : List Text} (some_ : ∃ value ∈ allow, trim value ≠ []) (deny : List Text) :
    let names (list : List Text) (id : Text) := ∃ value ∈ list, toAsciiUppercase (trim value) = toAsciiUppercase id
    (Check.handleLicenses expression.render allow deny).1 = .allowed ↔
      (∃ id ∈ expression.identifiers, names allow id) ∧ ∀ id ∈ expression.identifiers, ¬ names deny id := by
  intro names
  obtain ⟨value,mem,filled⟩ := some_
  have kept : Listed (normalizePolicyList allow) (trim value) := (listedNormalized allow filled).mpr ⟨value,mem,rfl⟩
  have some_ : normalizePolicyList (some allow) ≠ [] := List.ne_nil_of_mem kept.choose_spec.1
  refine (onlyHere expression some_ _).trans (and_congr (exists_congr fun id => ?_) (forall_congr' fun id => ?_))
  · exact and_congr_right fun inside => listedNormalized allow (idsFilled inside)
  · exact imp_congr_right fun inside => not_congr (listedNormalized deny (idsFilled inside))

/-- As identifiers are always found, the two tools answer alike. -/
theorem toolsAgree (expression : Expression) (allow deny : List Text) :
    Alternatives.evaluatePolicy (extractLicenseIdentifiers expression.render) allow deny =
      Check.evaluatePolicy (extractLicenseIdentifiers expression.render) allow deny true := by
  obtain ⟨id,mem⟩ := List.exists_mem_of_ne_nil _ (identifiersSome expression)
  have found : extractLicenseIdentifiers expression.render ≠ [] :=
    List.ne_nil_of_mem ((memExtracted expression id).mpr mem)
  rw [Alternatives.evaluatePolicy,if_neg (by simpa using found)]
  rfl

theorem choiceAllowed {expression : Expression} {allow deny : List Text} (plain : expression.hasAnd = false)
    (licenses : ∀ id ∈ expression.exceptions, ¬ Listed allow id)
    (found : ∃ id ∈ expression.identifiers, Listed allow id) (clear : ∀ id ∈ expression.identifiers, ¬ Listed deny id) :
    Satisfiable allow deny expression := by
  obtain ⟨id,mem,listed⟩ := found
  have choice : [id] ∈ expression.choices := choiceOf plain mem fun inside => licenses id inside listed
  exact ⟨[id],choice,List.forall_mem_singleton.mpr ⟨listed,clear id mem⟩⟩

/-- One allowed identifier and no denied one is all that either tool asks. -/
theorem policyAllowed (expression : Expression) (allow deny : List Text) (some_ : allow ≠ []) :
    let identifiers := extractLicenseIdentifiers expression.render
    ((Check.evaluatePolicy identifiers allow deny true).1 = .allowed ↔
      (∃ id ∈ expression.identifiers, Listed allow id) ∧ ∀ id ∈ expression.identifiers, ¬ Listed deny id) ∧
    Alternatives.evaluatePolicy identifiers allow deny = Check.evaluatePolicy identifiers allow deny true ∧
    ((Check.evaluatePolicy identifiers allow deny true).1 = .allowed →
      (∀ choice ∈ expression.choices, ∀ id ∈ choice, ¬ Listed deny id) ∧
      (expression.hasAnd = false → (∀ id ∈ expression.exceptions, ¬ Listed allow id) → Satisfiable allow deny expression)) := by
  have exact_ := onlyHere expression some_ deny
  refine ⟨exact_,toolsAgree expression allow deny,fun allowed => ?_⟩
  obtain ⟨found,clear⟩ := exact_.mp allowed
  exact ⟨fun choice inside id mem => clear id (choiceIds inside mem),fun plain licenses => choiceAllowed plain licenses found clear⟩

def named (name : Text) (chars : name.all tokenChar = true) (word : completed name = [name]) : Expression :=
  .license ⟨name,chars,word⟩ none

theorem policyAllowedMit :
    let either : Expression := .or (named "MIT".toList rfl rfl) (named "Apache-2.0".toList rfl rfl)
    (Check.evaluatePolicy (extractLicenseIdentifiers either.render) ["MIT".toList] [] true).1 = .allowed ∧
      Satisfiable ["MIT".toList] [] either := by
  intro either
  have allowed := policyAllowed either ["MIT".toList] [] (List.cons_ne_nil _ _)
  have answer : (Check.evaluatePolicy (extractLicenseIdentifiers either.render) ["MIT".toList] [] true).1 = .allowed := by decide
  exact ⟨answer,(allowed.2.2 answer).2 rfl (by decide)⟩

/-- Of `MIT AND GPL-3.0` the one half is allowed and the other is not. -/
theorem halfAllowed :
    let both : Expression := .and (named "MIT".toList rfl rfl) (named "GPL-3.0".toList rfl rfl)
    (Check.evaluatePolicy (extractLicenseIdentifiers both.render) ["MIT".toList] [] true).1 = .allowed ∧
      (Alternatives.evaluatePolicy (extractLicenseIdentifiers both.render) ["MIT".toList] []).1 = .allowed ∧
      ¬ Satisfiable ["MIT".toList] [] both := by
  refine ⟨by decide,by decide,?_⟩
  rintro ⟨choice,inside,allowed⟩
  cases List.mem_singleton.mp inside
  exact absurd (allowed "GPL-3.0".toList (by decide)).1 (by decide)

end RustMcp.LicensePolicy
