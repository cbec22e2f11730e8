import RustMcp.OsvText
import RustMcp.Splitting

/-! The stored range text of a RustSec advisory: written as clauses when the database is
synchronized, read back as clauses when a version is matched. -/
namespace RustMcp.RustsecText
open Str Semver Splitting
open Advisories (Applicability)

/-! The advisory's front matter. -/

structure RustSecAdvisory where
  id : Option Text
  package : Option Text
  withdrawn : Option Text
  categories : List Text

structure RustSecVersions where
  patched : List Text
  unaffected : List Text

structure RustSecFrontmatter where
  advisory : RustSecAdvisory
  versions : RustSecVersions

def clause (key separator : Text) (values : List Text) : Text :=
  if values.isEmpty then [] else key ++ join separator values

def affectedRange (parsed : RustSecFrontmatter) : Text :=
  let patched := clause "patched=".toList " | ".toList parsed.versions.patched
  let unaffected := clause "unaffected=".toList " | ".toList parsed.versions.unaffected
  let withdrawn := (parsed.advisory.withdrawn.map ("withdrawn=".toList ++ ·)).getD []
  let categories := clause "categories=".toList "|".toList parsed.advisory.categories
  join "; ".toList ([patched,unaffected,withdrawn,categories].filter fun value => !value.isEmpty)

/-- The listed texts have neither of the separators in them. -/
def Clean (parsed : RustSecFrontmatter) : Prop :=
  ∀ text ∈ parsed.versions.patched ++ (parsed.versions.unaffected ++ parsed.advisory.categories),
    ¬ "; ".toList <:+: text ∧ ¬ " | ".toList <:+: text

/-! Requirements that are joined by bars. -/

theorem barApart {piece : Text} (absent : ¬ " | ".toList <:+: piece) (edge : ¬ " |".toList <:+ piece) (rest : Text) :
    Apart " | ".toList piece (" | ".toList ++ rest) :=
  apartTriple (by decide) absent edge rest

/-- Where a requirement has a bar, a piece of the joined text has one. -/
theorem barPiece {items : List Text} (clean : ∀ item ∈ items, ¬ " | ".toList <:+: item) {item : Text} (mem : item ∈ items)
    (bar : '|' ∈ item) : ∃ piece ∈ split " | ".toList (join " | ".toList items), '|' ∈ piece := by
  induction items with
  | nil => contradiction
  | cons first rest ih =>
    have absent := clean first List.mem_cons_self
    cases rest with
    | nil =>
      obtain rfl := List.mem_singleton.mp mem
      have whole : Apart " | ".toList item [] := fun ending ends _ opens =>
        absent ((by simpa using opens : " | ".toList <+: ending).isInfix.trans ends.isInfix)
      refine ⟨item,?_,bar⟩
      rw [show join " | ".toList [item] = item by simp [join],splitWhole whole]
      exact List.mem_singleton_self _
    | cons next more =>
      rw [joinCons]
      by_cases edge : " |".toList <:+ first
      · -- The item's own bar closes the separator early; the separator's begins the next piece.
        obtain ⟨head,rfl⟩ := edge
        have shorter : ¬ " | ".toList <:+: head := fun inside => absent (inside.trans (List.prefix_append _ _).isInfix)
        have closed : ¬ " |".toList <:+ head := by
          rintro ⟨start,rfl⟩
          exact absent ⟨start,"|".toList,by simp⟩
        have same : head ++ " |".toList ++ (" | ".toList ++ join " | ".toList (next::more)) =
            head ++ (" | ".toList ++ ("| ".toList ++ join " | ".toList (next::more))) := by simp
        have pieces : split " | ".toList (head ++ (" | ".toList ++ ("| ".toList ++ join " | ".toList (next::more)))) =
            head::split " | ".toList ("| ".toList ++ join " | ".toList (next::more)) :=
          splitFirst (barApart shorter closed _)
        have lead : split " | ".toList ("|".toList ++ (" ".toList ++ join " | ".toList (next::more))) =
            (split " | ".toList (" ".toList ++ join " | ".toList (next::more))).modifyHead ("|".toList ++ ·) :=
          splitLead (apartLacks (by decide) _)
        rw [same,pieces,show "| ".toList ++ join " | ".toList (next::more) =
          "|".toList ++ (" ".toList ++ join " | ".toList (next::more)) by simp,lead]
        cases later : split " | ".toList (" ".toList ++ join " | ".toList (next::more)) with
        | nil => exact absurd later (splitSome _ _)
        | cons piece rest => exact ⟨'|'::piece,by simp,List.mem_cons_self⟩
      · have pieces : split " | ".toList (first ++ (" | ".toList ++ join " | ".toList (next::more))) =
            first::split " | ".toList (join " | ".toList (next::more)) := splitFirst (barApart absent edge _)
        rw [pieces]
        rcases List.mem_cons.mp mem with rfl | later
        · exact ⟨item,List.mem_cons_self,bar⟩
        · obtain ⟨piece,inside,has⟩ := ih (fun other there => clean other (List.mem_cons_of_mem _ there)) later
          exact ⟨piece,List.mem_cons_of_mem _ inside,has⟩

theorem barItems {items : List Text} (some_ : items ≠ []) (plain : ∀ item ∈ items, '|' ∉ item) :
    split " | ".toList (join " | ".toList items) = items := by
  have noBar : ∀ {item : Text}, '|' ∉ item → ∀ rest, ¬ " | ".toList <:+: item ∧
      Apart " | ".toList item (" | ".toList ++ rest) := fun clean rest =>
    have absent := fun inside : " | ".toList <:+: _ => clean (inside.subset (by decide))
    ⟨absent,barApart absent (fun ends => clean (ends.subset (by decide))) rest⟩
  induction items with
  | nil => exact absurd rfl some_
  | cons first rest ih =>
    cases rest with
    | nil =>
      have whole : Apart " | ".toList first [] := fun ending ends _ opens =>
        plain first List.mem_cons_self (ends.subset ((by simpa using opens : " | ".toList <+: ending).subset (by decide)))
      rw [show join " | ".toList [first] = first by simp [join],splitWhole whole]
    | cons next more =>
      have pieces : split " | ".toList (first ++ (" | ".toList ++ join " | ".toList (next::more))) =
          first::split " | ".toList (join " | ".toList (next::more)) :=
        splitFirst (noBar (plain first List.mem_cons_self) _).2
      rw [joinCons,pieces,ih (List.cons_ne_nil _ _) fun item mem => plain item (List.mem_cons_of_mem _ mem)]

/-! Clauses. A requirement that ends in a semicolon may cut its clause short; what follows
then begins with the bar. -/

theorem listClauses {items : List Text} (clean : ∀ item ∈ items, ¬ "; ".toList <:+: item) :
    ∀ piece ∈ (split "; ".toList (join " | ".toList items)).tail, ∃ more, piece = '|'::more := by
  induction items with
  | nil => simp [join,split,splitFrom]
  | cons first rest ih =>
    have absent := clean first List.mem_cons_self
    cases rest with
    | nil =>
      have whole : Apart "; ".toList first [] := apartPair absent fun edge => by simpa using edge.2
      rw [show join " | ".toList [first] = first by simp [join],splitWhole whole]
      simp
    | cons next more =>
      have later := ih fun item mem => clean item (List.mem_cons_of_mem _ mem)
      rw [joinCons]
      by_cases edge : [';'] <:+ first
      · obtain ⟨head,rfl⟩ := edge
        have shorter : ¬ "; ".toList <:+: head := fun inside => absent (inside.trans (List.prefix_append _ _).isInfix)
        have same : head ++ [';'] ++ (" | ".toList ++ join " | ".toList (next::more)) =
            head ++ ("; ".toList ++ ("| ".toList ++ join " | ".toList (next::more))) := by simp
        have pieces : split "; ".toList (head ++ ("; ".toList ++ ("| ".toList ++ join " | ".toList (next::more)))) =
            head::split "; ".toList ("| ".toList ++ join " | ".toList (next::more)) :=
          splitFirst (apartPair shorter fun edge => absurd (List.cons_prefix_cons.mp edge.2).1 (by decide))
        have lead : split "; ".toList ("| ".toList ++ join " | ".toList (next::more)) =
            (split "; ".toList (join " | ".toList (next::more))).modifyHead ("| ".toList ++ ·) :=
          splitLead (apartLacks (by decide) _)
        rw [same,pieces,lead,List.tail_cons]
        cases tail : split "; ".toList (join " | ".toList (next::more)) with
        | nil => simp
        | cons piece pieces =>
          rw [tail] at later
          intro piece_ mem
          rcases List.mem_cons.mp mem with rfl | inside
          · exact ⟨_,rfl⟩
          · exact later piece_ inside
      · have lead : split "; ".toList (first ++ (" | ".toList ++ join " | ".toList (next::more))) =
            (split "; ".toList (" | ".toList ++ join " | ".toList (next::more))).modifyHead (first ++ ·) :=
          splitLead (apartPair absent fun both => edge both.1)
        have bar : split "; ".toList (" | ".toList ++ join " | ".toList (next::more)) =
            (split "; ".toList (join " | ".toList (next::more))).modifyHead (" | ".toList ++ ·) :=
          splitLead (apartLacks (by decide) _)
        rw [lead,bar]
        cases tail : split "; ".toList (join " | ".toList (next::more)) with
        | nil => simp
        | cons piece pieces => rw [tail] at later; simpa using later

theorem categoriesWhole {items : List Text} (clean : ∀ item ∈ items, ¬ "; ".toList <:+: item) :
    split "; ".toList (join "|".toList items) = [join "|".toList items] := by
  induction items with
  | nil => simp [join,split,splitFrom]
  | cons first rest ih =>
    have absent := clean first List.mem_cons_self
    cases rest with
    | nil =>
      have whole : Apart "; ".toList first [] := apartPair absent fun edge => by simpa using edge.2
      rw [show join "|".toList [first] = first by simp [join],splitWhole whole]
    | cons next more =>
      have lead : split "; ".toList (first ++ ("|".toList ++ join "|".toList (next::more))) =
          (split "; ".toList ("|".toList ++ join "|".toList (next::more))).modifyHead (first ++ ·) :=
        splitLead (apartPair absent fun edge => absurd (List.cons_prefix_cons.mp edge.2).1 (by decide))
      have bar : split "; ".toList ("|".toList ++ join "|".toList (next::more)) =
          (split "; ".toList (join "|".toList (next::more))).modifyHead ("|".toList ++ ·) :=
        splitLead (apartLacks (by decide) _)
      rw [joinCons,lead,bar,ih fun item mem => clean item (List.mem_cons_of_mem _ mem)]
      rfl

/-- The clauses of a section: its first begins with the key, the others with the bar. -/
theorem sectionPieces {key separator : Text} {values : List Text} (plain : ';' ∉ key)
    (tail : ∀ piece ∈ (split "; ".toList (join separator values)).tail, ∃ more, piece = '|'::more) :
    ∀ piece ∈ split "; ".toList (key ++ join separator values), key <+: piece ∨ ∃ more, piece = '|'::more := by
  have lead : split "; ".toList (key ++ join separator values) =
      (split "; ".toList (join separator values)).modifyHead (key ++ ·) := splitLead (apartLacks plain _)
  rw [lead]
  cases pieces : split "; ".toList (join separator values) with
  | nil => simp
  | cons first rest =>
    rw [pieces] at tail
    intro piece mem
    rcases List.mem_cons.mp mem with rfl | later
    · exact Or.inl (List.prefix_append _ _)
    · exact Or.inr (tail piece later)

/-! Reading. -/

theorem mapMNone {α β : Type} {f : α → Option β} {xs : List α} {x : α} (mem : x ∈ xs) (none_ : f x = none) :
    xs.mapM f = none := by
  induction xs with
  | nil => contradiction
  | cons y ys ih =>
    rw [List.mapM_cons]
    rcases List.mem_cons.mp mem with rfl | later
    · rw [none_]; rfl
    · rw [ih later]
      cases f y <;> rfl

theorem foldNone {α β : Type} {f : β → α → Option β} {xs : List α} {x : α} (mem : x ∈ xs) (none_ : ∀ b, f b x = none) (b : β) :
    xs.foldlM f b = none := by
  induction xs generalizing b with
  | nil => contradiction
  | cons y ys ih =>
    rw [List.foldlM_cons]
    rcases List.mem_cons.mp mem with rfl | later
    · rw [none_]; rfl
    · cases f b y with
      | none => rfl
      | some b' => exact ih later b'

section
variable {V R : Type} (sv : Package V R)

/-- What is relied on of the packages: a version begins with a digit, a requirement has none of the
characters that clauses and ranges are written with, and the build metadata of a version decides nothing. -/
structure Documented : Prop where
  digit : ∀ text v, sv.parse text = some v → stripPrefix "v".toList text = none
  requirement : ∀ text c, c ∈ "|;(".toList → c ∈ text → sv.parseReq text = none
  build : ∀ patched unaffected v, sv.isVulnerable patched unaffected (sv.clearBuild v) = sv.isVulnerable patched unaffected v

/-- None where a requirement does not parse or the lists are rejected. -/
def listsVulnerable (versions : RustSecVersions) (v : V) : Option Bool := do
  let patched ← versions.patched.mapM sv.parseReq
  let unaffected ← versions.unaffected.mapM sv.parseReq
  sv.isVulnerable patched unaffected v

def verdict (parsed : RustSecFrontmatter) (v : V) : Applicability :=
  if parsed.advisory.withdrawn.isSome then .notAffected
  else match listsVulnerable sv parsed.versions v with
    | some true => .affected
    | some false => .notAffected
    | none => .unknown

variable {sv} (documented : Documented sv)
include documented

theorem requirementsRead {items : List Text} (some_ : items ≠ []) (clean : ∀ item ∈ items, ¬ " | ".toList <:+: item) :
    (split " | ".toList (join " | ".toList items)).mapM sv.parseReq = items.mapM sv.parseReq := by
  by_cases plain : ∀ item ∈ items, '|' ∉ item
  · rw [barItems some_ plain]
  · simp only [not_forall,not_not] at plain
    obtain ⟨item,mem,bar⟩ := plain
    obtain ⟨piece,inside,has⟩ := barPiece clean mem bar
    rw [mapMNone mem (documented.requirement item '|' (by decide) bar),
      mapMNone inside (documented.requirement piece '|' (by decide) has)]

omit documented in
theorem barUnread (lists : List R × List R) (more : Text) : Advisories.readRustsecClause sv lists ('|'::more) = none := by
  rw [Advisories.readRustsecClause]
  cases keyed : splitOnce '=' ('|'::more) with
  | none => rfl
  | some pair =>
    obtain ⟨key,value⟩ := pair
    have bar : ∃ rest, key = '|'::rest := by
      rw [splitOnce,if_neg (by decide),Option.map_eq_some_iff] at keyed
      obtain ⟨inner,_,same⟩ := keyed
      exact ⟨inner.1,(Prod.mk.inj same).1.symm⟩
    obtain ⟨rest,rfl⟩ := bar
    have other : ∀ word : Text, word.head? ≠ some '|' → '|'::rest ≠ word := fun word differ same => differ (by rw [← same]; rfl)
    simp only [bind,Option.bind]
    rw [if_neg (other _ (by decide)),if_neg (other _ (by decide)),if_neg (other _ (by decide))]

/-- A list's section adds its requirements, or cannot be read where one of them cannot. -/
theorem listRead {key : Text} {items : List Text} (plain : ';' ∉ key ∧ key ≠ []) (put : List R → List R × List R)
    (lists : List R × List R) (none_ : put [] = lists) (clean : ∀ item ∈ items, ¬ "; ".toList <:+: item ∧ ¬ " | ".toList <:+: item)
    (reads : ∀ value, Advisories.readRustsecClause sv lists (key ++ value) =
      ((split " | ".toList value).mapM sv.parseReq).map put) :
    ((split "; ".toList (clause key " | ".toList items)).filter (fun piece => !piece.isEmpty)).foldlM
      (Advisories.readRustsecClause sv) lists = (items.mapM sv.parseReq).map put := by
  cases items with
  | nil =>
    have empty : clause key " | ".toList [] = [] := rfl
    rw [empty,List.mapM_nil]
    exact congrArg some none_.symm
  | cons first rest =>
    have lead : split "; ".toList (key ++ join " | ".toList (first::rest)) =
        (split "; ".toList (join " | ".toList (first::rest))).modifyHead (key ++ ·) := splitLead (apartLacks plain.1 _)
    have bars := listClauses fun item mem => (clean item mem).1
    have whole := joinSplit ';' [' '] (join " | ".toList (first::rest))
    rw [clause,if_neg (by simp),lead]
    cases pieces : split "; ".toList (join " | ".toList (first::rest)) with
    | nil => exact absurd pieces (splitSome _ _)
    | cons piece more =>
      rw [pieces] at bars
      cases more with
      | nil =>
        have only : join " | ".toList (first::rest) = piece := by
          rw [← whole,show split [';',' '] (join " | ".toList (first::rest)) = [piece] from pieces]
          simp [join]
        have kept : [key ++ piece].filter (fun piece => !piece.isEmpty) = [key ++ piece] := by
          cases key with
          | nil => exact absurd rfl plain.2
          | cons c cs => rfl
        rw [List.modifyHead_cons,kept,List.foldlM_cons,reads,← only,
          requirementsRead documented (List.cons_ne_nil _ _) fun item mem => (clean item mem).2]
        cases (first::rest).mapM sv.parseReq <;> rfl
      | cons next later =>
        obtain ⟨text,rfl⟩ := bars next List.mem_cons_self
        have unread : (first::rest).mapM sv.parseReq = none := by
          by_contra readable
          have plain_ : ∀ item ∈ first::rest, ';' ∉ item := fun item mem has =>
            readable (mapMNone mem (documented.requirement item ';' (by decide) has))
          have single := splitClean [' '] (joinClean (by decide : ';' ∉ " | ".toList) plain_)
          rw [show split "; ".toList (join " | ".toList (first::rest)) = _ from single] at pieces
          simp at pieces
        rw [unread]
        exact foldNone (List.mem_filter.mpr ⟨List.mem_cons_of_mem _ List.mem_cons_self,rfl⟩) (fun lists => barUnread lists text) lists

omit documented in
theorem categoriesRead {items : List Text} (clean : ∀ item ∈ items, ¬ "; ".toList <:+: item) (lists : List R × List R) :
    ((split "; ".toList (clause "categories=".toList "|".toList items)).filter (fun piece => !piece.isEmpty)).foldlM
      (Advisories.readRustsecClause sv) lists = some lists := by
  cases items with
  | nil => rfl
  | cons first rest =>
    have lead : split "; ".toList ("categories=".toList ++ join "|".toList (first::rest)) =
        (split "; ".toList (join "|".toList (first::rest))).modifyHead ("categories=".toList ++ ·) :=
      splitLead (apartLacks (by decide) _)
    have keyed : splitOnce '=' ("categories".toList ++ '='::join "|".toList (first::rest)) =
        some ("categories".toList,join "|".toList (first::rest)) := splitOnceAppend (by decide) _
    have read : Advisories.readRustsecClause sv lists ("categories=".toList ++ join "|".toList (first::rest)) = some lists := by
      change Advisories.readRustsecClause sv lists ("categories".toList ++ '='::join "|".toList (first::rest)) = some lists
      rw [Advisories.readRustsecClause,keyed]
      rfl
    rw [clause,if_neg (by simp),lead,categoriesWhole clean,List.modifyHead_cons]
    change (["categories=".toList ++ join "|".toList (first::rest)]).foldlM (Advisories.readRustsecClause sv) lists = some lists
    rw [List.foldlM_cons,read]
    rfl

end
/-! The text of an advisory that is not withdrawn. -/

theorem patchedClause {V R : Type} (sv : Package V R) (lists : List R × List R) (value : Text) :
    Advisories.readRustsecClause sv lists ("patched=".toList ++ value) =
      ((split " | ".toList value).mapM sv.parseReq).map fun requirements => (lists.1 ++ requirements,lists.2) := by
  have keyed : splitOnce '=' ("patched".toList ++ '='::value) = some ("patched".toList,value) := splitOnceAppend (by decide) value
  change Advisories.readRustsecClause sv lists ("patched".toList ++ '='::value) = _
  rw [Advisories.readRustsecClause,keyed]
  simp only [bind,Option.bind]
  rw [if_neg (by decide),if_pos trivial]
  cases (split " | ".toList value).mapM sv.parseReq <;> rfl

theorem unaffectedClause {V R : Type} (sv : Package V R) (lists : List R × List R) (value : Text) :
    Advisories.readRustsecClause sv lists ("unaffected=".toList ++ value) =
      ((split " | ".toList value).mapM sv.parseReq).map fun requirements => (lists.1,lists.2 ++ requirements) := by
  have keyed : splitOnce '=' ("unaffected".toList ++ '='::value) = some ("unaffected".toList,value) :=
    splitOnceAppend (by decide) value
  change Advisories.readRustsecClause sv lists ("unaffected".toList ++ '='::value) = _
  rw [Advisories.readRustsecClause,keyed]
  simp only [bind,Option.bind]
  rw [if_neg (by decide),if_neg (by decide),if_pos trivial]
  cases (split " | ".toList value).mapM sv.parseReq <;> rfl

section
variable {parsed : RustSecFrontmatter} (clean : Clean parsed)
include clean

theorem patchedClean : ∀ item ∈ parsed.versions.patched, ¬ "; ".toList <:+: item ∧ ¬ " | ".toList <:+: item :=
  fun item mem => clean item (List.mem_append_left _ mem)

theorem unaffectedClean : ∀ item ∈ parsed.versions.unaffected, ¬ "; ".toList <:+: item ∧ ¬ " | ".toList <:+: item :=
  fun item mem => clean item (List.mem_append_right _ (List.mem_append_left _ mem))

theorem categoriesClean : ∀ item ∈ parsed.advisory.categories, ¬ "; ".toList <:+: item :=
  fun item mem => (clean item (List.mem_append_right _ (List.mem_append_right _ mem))).1

omit clean in
theorem sectionsKept (parsed : RustSecFrontmatter) :
    (split "; ".toList (affectedRange parsed)).filter (fun piece => !piece.isEmpty) =
      [clause "patched=".toList " | ".toList parsed.versions.patched,
        clause "unaffected=".toList " | ".toList parsed.versions.unaffected,
        (parsed.advisory.withdrawn.map ("withdrawn=".toList ++ ·)).getD [],
        clause "categories=".toList "|".toList parsed.advisory.categories].flatMap fun section_ =>
          (split "; ".toList section_).filter fun piece => !piece.isEmpty :=
  piecesKept (by decide) _

omit clean in
theorem currentSections (current : parsed.advisory.withdrawn = none) :
    (split "; ".toList (affectedRange parsed)).filter (fun piece => !piece.isEmpty) =
      (split "; ".toList (clause "patched=".toList " | ".toList parsed.versions.patched)).filter (fun piece => !piece.isEmpty) ++
      ((split "; ".toList (clause "unaffected=".toList " | ".toList parsed.versions.unaffected)).filter (fun piece => !piece.isEmpty) ++
        (split "; ".toList (clause "categories=".toList "|".toList parsed.advisory.categories)).filter fun piece => !piece.isEmpty) := by
  rw [sectionsKept,current,List.flatMap_cons,List.flatMap_cons,List.flatMap_cons,List.flatMap_cons,List.flatMap_nil,List.append_nil]
  rfl

omit clean in
/-- The first character of a section's piece is that of the key, or the bar. -/
theorem sectionHead {key separator piece rest : Text} {values : List Text} {k c : Char} (plain : ';' ∉ k::key)
    (tail : ∀ piece ∈ (split "; ".toList (join separator values)).tail, ∃ more, piece = '|'::more)
    (mem : piece ∈ (split "; ".toList (clause (k::key) separator values)).filter fun piece => !piece.isEmpty)
    (opens : piece = c::rest) : c = k ∨ c = '|' := by
  subst opens
  have inside := (List.mem_filter.mp mem).1
  unfold clause at inside
  split at inside
  · simp [split,splitFrom] at inside
  · rcases sectionPieces plain tail _ inside with keyed | ⟨more,same⟩
    · exact Or.inl (List.cons_prefix_cons.mp keyed).1.symm
    · exact Or.inr (List.cons.inj same).1

/-- No piece begins as a withdrawal or a range does. -/
theorem pieceHead (current : parsed.advisory.withdrawn = none) {piece : Text} {c : Char} {rest : Text}
    (mem : piece ∈ split "; ".toList (affectedRange parsed)) (opens : piece = c::rest) : c ∈ "puc|".toList := by
  have kept : piece ∈ (split "; ".toList (affectedRange parsed)).filter fun piece => !piece.isEmpty :=
    List.mem_filter.mpr ⟨mem,by rw [opens]; rfl⟩
  rw [currentSections current,List.mem_append,List.mem_append] at kept
  rcases kept with patched | unaffected | categories
  · have bars := listClauses fun item mem => (patchedClean clean item mem).1
    rcases sectionHead (by decide) bars patched opens with rfl | rfl <;> decide
  · have bars := listClauses fun item mem => (unaffectedClean clean item mem).1
    rcases sectionHead (by decide) bars unaffected opens with rfl | rfl <;> decide
  · have whole := categoriesWhole (categoriesClean clean)
    rcases sectionHead (by decide) (by rw [whole]; simp) categories opens with rfl | rfl <;> decide

theorem noneWithdrawn (current : parsed.advisory.withdrawn = none) : Advisories.isWithdrawn (affectedRange parsed) = false := by
  rw [Advisories.isWithdrawn,List.any_eq_false]
  intro piece mem starts
  obtain ⟨more,same⟩ := startsWithIff.mp starts
  exact absurd (pieceHead clean current mem same.symm) (by decide)

theorem osvUnknown (current : parsed.advisory.withdrawn = none) {V R : Type} [LinearOrder V] (sv : Package V R) (v : V) :
    Advisories.osvApplicability sv (affectedRange parsed) v = .unknown := by
  have unread : ∀ piece ∈ split "; ".toList (affectedRange parsed), Advisories.readOsvRange sv piece = none := by
    intro piece mem
    have closed : ∀ c lead, c ∉ "puc|".toList → stripPrefix (c::lead) piece = none := by
      intro c lead foreign
      refine Option.eq_none_iff_forall_ne_some.mpr fun rest same => ?_
      exact foreign (pieceHead clean current mem (stripPrefixIff.mp same))
    have semver : stripPrefix "SEMVER(".toList piece = none := closed 'S' "EMVER(".toList (by decide)
    have ecosystem : stripPrefix "ECOSYSTEM(".toList piece = none := closed 'E' "COSYSTEM(".toList (by decide)
    rw [Advisories.readOsvRange,semver,ecosystem]
    rfl
  obtain ⟨piece,mem⟩ := List.exists_mem_of_ne_nil _ (splitSome "; ".toList (affectedRange parsed))
  refine OsvText.osvRangesUnknown.mpr ⟨fun affected => ?_,Or.inr ⟨piece,mem,unread piece mem⟩⟩
  obtain ⟨text,inside,_,read,_⟩ := OsvText.osvRangesAffected.mp affected
  rw [unread text inside] at read
  contradiction

theorem listsRead (current : parsed.advisory.withdrawn = none) {V R : Type} {sv : Package V R} (documented : Documented sv) (v : V) :
    Advisories.rustsecApplicability sv (affectedRange parsed) v = verdict sv parsed v := by
  have patched : ((split "; ".toList (clause "patched=".toList " | ".toList parsed.versions.patched)).filter
      (fun piece => !piece.isEmpty)).foldlM (Advisories.readRustsecClause sv) ([],[]) =
      (parsed.versions.patched.mapM sv.parseReq).map fun requirements => ([] ++ requirements,[]) :=
    listRead documented (by decide) _ _ rfl (patchedClean clean) (patchedClause sv ([],[]))
  have unaffected : ∀ ps : List R, ((split "; ".toList (clause "unaffected=".toList " | ".toList parsed.versions.unaffected)).filter
      (fun piece => !piece.isEmpty)).foldlM (Advisories.readRustsecClause sv) ([] ++ ps,[]) =
      (parsed.versions.unaffected.mapM sv.parseReq).map fun requirements => ([] ++ ps,[] ++ requirements) := fun ps =>
    listRead documented (by decide) _ _ rfl (unaffectedClean clean) (unaffectedClause sv ([] ++ ps,[]))
  rw [Advisories.rustsecApplicability,noneWithdrawn clean current,if_neg (by decide),currentSections current,
    List.foldlM_append,patched,verdict,current,if_neg (by decide),listsVulnerable]
  cases parsed.versions.patched.mapM sv.parseReq with
  | none => rfl
  | some ps =>
    simp only [Option.map_some,Option.bind_eq_bind,Option.bind_some,List.foldlM_append]
    rw [unaffected]
    cases parsed.versions.unaffected.mapM sv.parseReq with
    | none => rfl
    | some us =>
      simp only [Option.map_some,Option.bind_some]
      rw [categoriesRead (categoriesClean clean)]
      cases answer : sv.isVulnerable ps us v with
      | none => simp only [List.nil_append,answer]
      | some vulnerable => cases vulnerable <;> simp only [List.nil_append,answer]

omit clean in
theorem withdrawnRead {date : Text} (gone : parsed.advisory.withdrawn = some date) :
    Advisories.isWithdrawn (affectedRange parsed) = true := by
  have lead : split "; ".toList ("withdrawn=".toList ++ date) =
      (split "; ".toList date).modifyHead ("withdrawn=".toList ++ ·) := splitLead (apartLacks (by decide) _)
  obtain ⟨more,inside⟩ : ∃ more, "withdrawn=".toList ++ more ∈ split "; ".toList ("withdrawn=".toList ++ date) := by
    rw [lead]
    cases pieces : split "; ".toList date with
    | nil => exact absurd pieces (splitSome _ _)
    | cons piece rest => exact ⟨piece,List.mem_cons_self⟩
  have kept : "withdrawn=".toList ++ more ∈ (split "; ".toList (affectedRange parsed)).filter fun piece => !piece.isEmpty := by
    rw [sectionsKept,gone]
    exact List.mem_flatMap.mpr ⟨"withdrawn=".toList ++ date,by simp,List.mem_filter.mpr ⟨inside,rfl⟩⟩
  exact List.any_eq_true.mpr ⟨_,(List.mem_filter.mp kept).1,startsWithIff.mpr (List.prefix_append _ _)⟩

/-- A category has a text in it that OSV ranges are told by. -/
def RangeLike (categories : List Text) : Prop :=
  ∃ category ∈ categories, "SEMVER(".toList <:+: category ∨ "ECOSYSTEM(".toList <:+: category

omit clean in
/-- A text with a parenthesis is found in the range text only as a part of a listed one. -/
theorem markFound {mark : Text} (open_ : '(' ∈ mark) (foreign : lacks "; =|".toList mark = true)
    (key : Text) {separator : Text} {values : List Text} (named : '(' ∉ key) (some_ : separator ≠ [])
    (apart : ∀ c ∈ separator, c ∉ mark) (inside : mark <:+: clause (key ++ ['=']) separator values) :
    ∃ value ∈ values, mark <:+: value := by
  have nonempty : mark ≠ [] := List.ne_nil_of_mem open_
  unfold clause at inside
  split at inside
  · exact absurd (List.infix_nil.mp inside) nonempty
  · rw [List.append_assoc] at inside
    rcases infixAside nonempty (List.cons_ne_nil '=' []) (fun c mem => by
      rw [List.mem_singleton.mp mem]
      exact lacksChar foreign (by decide)) inside with here | there
    · exact absurd (here.subset open_) named
    · exact infixPart nonempty some_ apart there

omit clean in
theorem markIff (current : parsed.advisory.withdrawn = none) (mark : Text) (open_ : '(' ∈ mark)
    (foreign : lacks "; =|".toList mark = true)
    (readable : ∀ item ∈ parsed.versions.patched ++ parsed.versions.unaffected, '(' ∉ item) :
    mark <:+: affectedRange parsed ↔ ∃ category ∈ parsed.advisory.categories, mark <:+: category := by
  constructor
  · intro inside
    have blank : ' ' ∉ mark := lacksChar foreign (by decide)
    have bar : '|' ∉ mark := lacksChar foreign (by decide)
    have separated : ∀ c ∈ [';',' '], c ∉ mark := List.forall_mem_cons.mpr ⟨lacksChar foreign (by decide),List.forall_mem_singleton.mpr blank⟩
    have barred : ∀ c ∈ [' ','|',' '], c ∉ mark :=
      List.forall_mem_cons.mpr ⟨blank,List.forall_mem_cons.mpr ⟨bar,List.forall_mem_singleton.mpr blank⟩⟩
    obtain ⟨section_,mem,within⟩ := infixPart (List.ne_nil_of_mem open_) (by decide) separated inside
    have mem := (List.mem_filter.mp mem).1
    rw [current] at mem
    simp only [List.mem_cons,List.not_mem_nil,or_false,Option.map_none,Option.getD_none] at mem
    rcases mem with rfl | rfl | rfl | rfl
    · obtain ⟨item,listed,has⟩ := markFound open_ foreign "patched".toList (by decide) (by decide) barred within
      exact absurd (has.subset open_) (readable item (List.mem_append_left _ listed))
    · obtain ⟨item,listed,has⟩ := markFound open_ foreign "unaffected".toList (by decide) (by decide) barred within
      exact absurd (has.subset open_) (readable item (List.mem_append_right _ listed))
    · exact absurd (List.infix_nil.mp within) (List.ne_nil_of_mem open_)
    · exact markFound open_ foreign "categories".toList (by decide) (by decide) (List.forall_mem_singleton.mpr bar) within
  · rintro ⟨category,listed,has⟩
    have given : parsed.advisory.categories.isEmpty = false := by
      cases all : parsed.advisory.categories with
      | nil => rw [all] at listed; contradiction
      | cons c cs => rfl
    have written : clause "categories=".toList "|".toList parsed.advisory.categories =
        "categories=".toList ++ join "|".toList parsed.advisory.categories := by rw [clause,given,if_neg (by decide)]
    have within : mark <:+: clause "categories=".toList "|".toList parsed.advisory.categories := by
      rw [written]
      exact has.trans ((infixJoin listed).trans (List.suffix_append _ _).isInfix)
    refine within.trans (infixJoin (List.mem_filter.mpr ⟨by simp,?_⟩))
    rw [written]
    rfl

omit clean in
theorem rangeLikeIff (current : parsed.advisory.withdrawn = none)
    (readable : ∀ item ∈ parsed.versions.patched ++ parsed.versions.unaffected, '(' ∉ item) :
    (contains "SEMVER(".toList (affectedRange parsed) || contains "ECOSYSTEM(".toList (affectedRange parsed)) = true ↔
      RangeLike parsed.advisory.categories := by
  have semver := markIff current "SEMVER(".toList (by decide) (by decide) readable
  have ecosystem := markIff current "ECOSYSTEM(".toList (by decide) (by decide) readable
  rw [Bool.or_eq_true,containsIff,containsIff,semver,ecosystem]
  simp only [RangeLike,and_or_left,exists_or]

/-- A stored advisory is decided as its lists were, unless a category is taken for an OSV range: it
is then of unknown applicability. -/
theorem storedVerdictIff {V R : Type} [LinearOrder V] (sv : Package V R) (documented : Documented sv) (version : Text) (v : V)
    (read : sv.parse version = some v) :
    Advisories.rangeApplicability sv "rustsec_db".toList (affectedRange parsed) version = verdict sv parsed v ↔
      parsed.advisory.withdrawn.isSome ∨ listsVulnerable sv parsed.versions v = none ∨ ¬ RangeLike parsed.advisory.categories := by
  cases withdrawn : parsed.advisory.withdrawn with
  | some date =>
    rw [Advisories.rangeApplicability,withdrawnRead withdrawn,verdict,withdrawn]
    simp
  | none =>
    have cleared : listsVulnerable sv parsed.versions (sv.clearBuild v) = listsVulnerable sv parsed.versions v := by
      simp only [listsVulnerable,documented.build]
    have same : verdict sv parsed (sv.clearBuild v) = verdict sv parsed v := by rw [verdict,verdict,cleared]
    have typed : parseSemverForMatching sv version = some (sv.clearBuild v) := by
      rw [parseSemverForMatching,documented.digit version v read,Option.getD_none,read,Option.map_some]
    rw [Advisories.rangeApplicability,noneWithdrawn clean withdrawn,typed]
    simp only [Bool.false_eq_true,if_false,Option.isSome_none,false_or]
    cases lists : listsVulnerable sv parsed.versions v with
    | none =>
      have unknown : verdict sv parsed v = .unknown := by
        rw [verdict,withdrawn,lists]
        rfl
      refine iff_of_true ?_ (Or.inl rfl)
      split
      · rw [osvUnknown clean withdrawn,unknown]
      · rw [if_pos (by rfl),listsRead clean withdrawn documented,same]
    | some vulnerable =>
      have readable : ∀ item ∈ parsed.versions.patched ++ parsed.versions.unaffected, '(' ∉ item := by
        intro item mem open_
        have unread := documented.requirement item '(' (by decide) open_
        rw [listsVulnerable] at lists
        rcases List.mem_append.mp mem with patched | unaffected
        · rw [mapMNone patched unread] at lists
          contradiction
        · rw [mapMNone unaffected unread] at lists
          cases all : parsed.versions.patched.mapM sv.parseReq <;> rw [all] at lists <;> contradiction
      have decided : verdict sv parsed v ≠ .unknown := by
        rw [verdict,withdrawn,lists]
        cases vulnerable <;> decide
      have marks := rangeLikeIff withdrawn readable
      simp only [reduceCtorEq,false_or]
      split
      · rename_i taken
        rw [osvUnknown clean withdrawn]
        exact iff_of_false (fun same => decided same.symm) (not_not_intro (marks.mp taken))
      · rename_i plain
        rw [if_pos (by rfl),listsRead clean withdrawn documented,same]
        exact iff_of_true rfl (mt marks.mpr plain)

end

/-- Two requirements, as they are read and matched. -/
def firstRequirement : Text := ">=1.2.0".toList
def secondRequirement : Text := "<1.0.0".toList

def bounds : Package Release (Release → Bool) where
  parse := fun text => if startsWith "v".toList text then none else release text
  clearBuild := id
  parseReq := fun text =>
    if text = firstRequirement then some fun v => decide (toLex (1,toLex (2,0)) ≤ v)
    else if text = secondRequirement then some fun v => decide (v < toLex (1,toLex (0,0)))
    else none
  isVulnerable := fun patched unaffected v => some !(patched ++ unaffected).any fun requirement => requirement v

theorem boundsDocumented : Documented bounds where
  digit := by
    intro text v read
    rw [stripPrefix,if_neg]
    intro starts
    have none_ : bounds.parse text = none := if_pos starts
    rw [none_] at read
    contradiction
  requirement := by
    intro text c foreign has
    have other : ∀ known : Text, lacks "|;(".toList known = true → text ≠ known := by
      rintro known plain rfl
      exact lacksChar plain foreign has
    change (if text = firstRequirement then _ else _) = _
    rw [if_neg (other _ (by decide)),if_neg (other _ (by decide))]
  build := fun _ _ _ => rfl

def denialOfService (categories : List Text) : RustSecFrontmatter :=
  ⟨⟨some "RUSTSEC-2026-0001".toList,some "demo".toList,none,categories⟩,⟨[firstRequirement],[secondRequirement]⟩⟩

theorem denialClean {categories : List Text} (plain : ∀ category ∈ categories, ';' ∉ category ∧ '|' ∉ category) :
    Clean (denialOfService categories) := by
  have free : ∀ text : Text, ';' ∉ text → '|' ∉ text → ¬ "; ".toList <:+: text ∧ ¬ " | ".toList <:+: text :=
    fun text semicolon bar => ⟨fun inside => semicolon (inside.subset (by decide)),fun inside => bar (inside.subset (by decide))⟩
  intro text mem
  rcases List.mem_cons.mp mem with rfl | mem
  · exact free _ (by decide) (by decide)
  · rcases List.mem_cons.mp mem with rfl | mem
    · exact free _ (by decide) (by decide)
    · exact free _ (plain text mem).1 (plain text mem).2

theorem storedVerdictIffPlain :
    Advisories.rangeApplicability bounds "rustsec_db".toList (affectedRange (denialOfService ["denial-of-service".toList]))
      "1.1.0".toList = verdict bounds (denialOfService ["denial-of-service".toList]) (toLex (1,toLex (1,0))) := by
  have clean : Clean (denialOfService ["denial-of-service".toList]) :=
    denialClean (List.forall_mem_singleton.mpr ⟨by decide,by decide⟩)
  refine (storedVerdictIff clean bounds boundsDocumented _ _ (by decide)).mpr (Or.inr (Or.inr ?_))
  rintro ⟨category,mem,mark⟩
  rw [List.mem_singleton.mp mem] at mark
  exact absurd mark (by decide)

/-- A vulnerable version of an advisory one of whose categories looks like a range. -/
theorem categoryTakenForRange :
    Clean (denialOfService ["SEMVER(".toList]) ∧ bounds.parse "1.1.0".toList = some (toLex (1,toLex (1,0))) ∧
    verdict bounds (denialOfService ["SEMVER(".toList]) (toLex (1,toLex (1,0))) = .affected ∧
    Advisories.rangeApplicability bounds "rustsec_db".toList (affectedRange (denialOfService ["SEMVER(".toList])) "1.1.0".toList =
      .unknown :=
  ⟨denialClean (List.forall_mem_singleton.mpr ⟨by decide,by decide⟩),by decide,by decide,by decide⟩

end RustMcp.RustsecText
