import RustMcp.DocsCrawl
import RustMcp.UriPaths

/-! Where the links of a page of the docs lead, against the resolution of relative references. -/
namespace RustMcp.DocsPaths
open Str
open Splitting
open UriPaths
open DocsCrawl

/-- A path of the docs as the crawl keeps them: no empty segment but the last one, and neither query nor fragment. -/
structure DocsPath where
  text : Text
  plain : '?' ∉ text ∧ '#' ∉ text
  filled : ∀ segment ∈ (segments text).dropLast, segment ≠ []
  opens : trimStart text = text

/-- The path of a reference as it is read: without white space around the reference, or around what its path says. -/
def cleanPath (href : Text) : Text :=
  let path := pathOf (trim href)
  if startsWith "/".toList path then '/'::trim (path.drop 1) else trimEnd path

/-- A reference with this path that has neither scheme nor authority, is not only a query or fragment,
and whose path has no empty segment but the last one, which is no dot segment. -/
structure Plain (reference path : Text) : Prop where
  scheme : hasScheme reference = false
  authority : hasAuthority reference = false
  opens : reference.head? ≠ some '?' ∧ reference.head? ≠ some '#'
  some_ : path ≠ []
  filled : ∀ segment ∈ (segments ((stripPrefix "/".toList path).getD path)).dropLast, segment ≠ []
  last : ∀ segment ∈ (segments path).getLast?, segment ≠ ".".toList ∧ segment ≠ "..".toList

instance (reference path : Text) : Decidable (Plain reference path) := by
  refine decidable_of_iff (hasScheme reference = false ∧ hasAuthority reference = false ∧
    (reference.head? ≠ some '?' ∧ reference.head? ≠ some '#') ∧ path ≠ [] ∧
    (∀ segment ∈ (segments ((stripPrefix "/".toList path).getD path)).dropLast, segment ≠ []) ∧
    ∀ segment ∈ (segments path).getLast?, segment ≠ ".".toList ∧ segment ≠ "..".toList) ?_
  exact ⟨fun all => ⟨all.1,all.2.1,all.2.2.1,all.2.2.2.1,all.2.2.2.2.1,all.2.2.2.2.2⟩,fun plain => ⟨plain.scheme,plain.authority,plain.opens,plain.some_,plain.filled,plain.last⟩⟩

/-- What is kept of the docs: a page under the prefix of the crate. -/
def Kept (lead path : Text) : Prop := lead <+: path ∧ (path.getLast? = some '/' ∨ ".html".toList <:+ path)

instance (lead path : Text) : Decidable (Kept lead path) := by
  unfold Kept
  infer_instance

/-- A link is resolved to the page that a reference with this path leads to, where that is kept. -/
def ResolvesBy (resolved : Option Text) (current path lead : Text) : Prop :=
  ∀ p, resolved = some p ↔ p = (resolvePath ('/'::current) path).drop 1 ∧ Kept lead p

/-! Normalization, segment by segment. -/

/-- What is normalized: the path part, trimmed. -/
def rawOf (path : Text) : Text := trim ((path.takeWhile (· ≠ '#')).takeWhile (· ≠ '?'))

section
variable {segs init : List Text} {last s : Text}

theorem normalizeRaw (path : Text) : normalizeJoinedPath path =
    if (rawOf path).isEmpty then none
    else
      let normalized := join "/".toList ((segments (trimStartMatches "/".toList (rawOf path))).foldl pushSegment [])
      if normalized.isEmpty then none
      else some (if (rawOf path).getLast? = some '/' then normalized ++ "/".toList else normalized) := rfl

theorem joinRender (segs : List Text) : join "/".toList segs = (render segs).drop 1 := by
  cases segs with
  | nil => rfl
  | cons s segs => rw [renderJoin]; rfl

theorem pushFilled (some_ : s ≠ []) (parts : List Text) : pushSegment parts s = climb parts s := by
  simp [pushSegment,climb,some_]

theorem foldFilled (filled : ∀ s ∈ init, s ≠ []) (parts : List Text) : init.foldl pushSegment parts = init.foldl climb parts := by
  induction init generalizing parts with
  | nil => rfl
  | cons s init ih =>
    obtain ⟨here,rest⟩ := List.forall_mem_cons.mp filled
    rw [List.foldl_cons,List.foldl_cons,pushFilled here,ih rest]

theorem pushedFrom {parts : List Text} (mem : s ∈ segs.foldl pushSegment parts) :
    s ∈ parts ∨ s ∈ segs ∧ s ≠ [] ∧ s ≠ ".".toList ∧ s ≠ "..".toList := by
  induction segs generalizing parts with
  | nil => exact Or.inl mem
  | cons t segs ih =>
    rcases ih mem with before | ⟨later,kept⟩
    · rw [pushSegment] at before
      split at before
      · exact Or.inl before
      · rename_i notHere
        split at before
        · exact Or.inl (List.mem_of_mem_dropLast before)
        · rename_i notParent
          rcases List.mem_append.mp before with old | new
          · exact Or.inl old
          · cases List.mem_singleton.mp new
            obtain ⟨some_,notDot⟩ := not_or.mp notHere
            exact Or.inr ⟨List.mem_cons_self,some_,notDot,notParent⟩
    · exact Or.inr ⟨List.mem_cons_of_mem _ later,kept⟩

theorem trimBare {text : Text} (filled : ∀ segment ∈ (segments text).dropLast, segment ≠ []) :
    trimStartMatches "/".toList text = text := by
  refine trimStartBare (stripPrefixNone.mpr ?_)
  rintro ⟨rest,rfl⟩
  have split_ : segments ('/'::rest) = []::segments rest := splitHere '/' [] rest
  change ∀ segment ∈ (segments ('/'::rest)).dropLast, segment ≠ [] at filled
  rw [split_,List.dropLast_cons_of_ne_nil (segmentsSome rest)] at filled
  exact filled [] List.mem_cons_self rfl

/-- The last character of a path says whether its last segment is empty. -/
theorem trailingSlash {text : Text} (some_ : text ≠ []) (whole : segments text = init ++ [last]) :
    text.getLast? = some '/' ↔ last = [] := by
  have clean : '/' ∉ last := segmentClean text last (whole ▸ by simp)
  have rendered : render init ++ '/'::last = '/'::text := by
    rw [← renderSegments text,whole,renderAppend]
    simp [render]
  have tail : text.getLast? = ('/'::text).getLast? := by
    cases text with
    | nil => exact absurd rfl some_
    | cons c text => rw [List.getLast?_cons_cons]
  rw [tail,← rendered,List.getLast?_append]
  cases last with
  | nil => simp
  | cons d ds =>
    have final : (d::ds).getLast? = some ((d::ds).getLast (List.cons_ne_nil _ _)) := List.getLast?_eq_some_getLast _
    rw [List.getLast?_cons_cons,final,Option.some_or]
    refine ⟨fun same => absurd (List.getLast_mem (List.cons_ne_nil d ds)) ?_,fun empty => by cases empty⟩
    rw [Option.some.inj same]
    exact clean

theorem joinEmpty (filled : ∀ s ∈ segs, s ≠ []) : join "/".toList segs = [] ↔ segs = [] := by
  rw [joinRender]
  cases segs with
  | nil => simp [render]
  | cons s segs =>
    have some_ := filled s List.mem_cons_self
    simp [renderCons,some_]

theorem joinTrailing (some_ : segs ≠ []) : join "/".toList (segs ++ [[]]) = join "/".toList segs ++ "/".toList := by
  cases segs with
  | nil => exact absurd rfl some_
  | cons s segs =>
    rw [joinRender,joinRender,renderAppend,renderCons]
    rfl

/-- A path without empty or dot segments in the wrong place is normalized to what the resolution leaves of it. -/
theorem normalizedAs {path text : Text} (raw : rawOf path = text) (filled : ∀ segment ∈ (segments text).dropLast, segment ≠ [])
    (ends : ∀ segment ∈ (segments text).getLast?, segment ≠ ".".toList ∧ segment ≠ "..".toList) :
    normalizeJoinedPath path =
      if (removeDotSegments [] ('/'::text)).drop 1 = [] then none else some ((removeDotSegments [] ('/'::text)).drop 1) := by
  have resolved : removeDotSegments [] ('/'::text) = render ((segments text).foldl climb []) := by
    rw [← renderSegments text]
    have none_ : ∀ s ∈ ([] : List Text), '/' ∉ s := List.forall_mem_nil _
    exact dotsRemoved none_ (segmentClean text) ends
  rw [resolved,← joinRender]
  rw [normalizeRaw,raw,trimBare filled]
  by_cases empty : text = []
  · rw [empty]
    rfl
  · have whole := (List.dropLast_append_getLast (segmentsSome text)).symm
    rw [whole,List.getLast?_concat] at ends
    generalize (segments text).dropLast = init at whole filled
    generalize (segments text).getLast (segmentsSome text) = last at whole ends
    have trailing := trailingSlash empty whole
    have partsFilled : ∀ s ∈ init.foldl climb [], s ≠ [] := by
      intro s mem
      rw [← foldFilled filled] at mem
      rcases pushedFrom mem with old | new
      · cases old
      · exact new.2.1
    rw [if_neg (by simp [empty]),whole,List.foldl_append,List.foldl_append,foldFilled filled]
    generalize init.foldl climb [] = parts at partsFilled
    change (if (join "/".toList (pushSegment parts last)).isEmpty then none else
      some (if text.getLast? = some '/' then join "/".toList (pushSegment parts last) ++ "/".toList
        else join "/".toList (pushSegment parts last))) =
      if join "/".toList (climb parts last) = [] then none else some (join "/".toList (climb parts last))
    by_cases slash : last = []
    · subst slash
      have pushed : pushSegment parts [] = parts := if_pos (Or.inl rfl)
      have climbed : climb parts [] = parts ++ [[]] := rfl
      rw [pushed,climbed,if_pos (trailing.mpr rfl)]
      by_cases none_ : parts = []
      · rw [none_]
        rfl
      · have some_ : join "/".toList parts ≠ [] := mt (joinEmpty partsFilled).mp none_
        rw [joinTrailing none_,if_neg (mt List.isEmpty_iff.mp some_),if_neg (by simp)]
    · obtain ⟨notHere,notParent⟩ := ends last rfl
      have climbed : climb parts last = parts ++ [last] := by rw [climb,if_neg notHere,if_neg notParent]
      have filled' : ∀ s ∈ parts ++ [last], s ≠ [] := by
        intro s mem
        rcases List.mem_append.mp mem with old | new
        · exact partsFilled s old
        · exact List.mem_singleton.mp new ▸ slash
      have some_ : join "/".toList (parts ++ [last]) ≠ [] := mt (joinEmpty filled').mp (by simp)
      rw [pushFilled slash,climbed,if_neg (mt List.isEmpty_iff.mp some_),if_neg some_,if_neg (mt trailing.mp slash)]

end

/-! The references that are resolved. -/

section
variable {base current href lead path resolved : Text}

/-- The checks on what is normalized. -/
theorem checkedIff {candidate : Text} (some_ : trim href ≠ [])
    (open_ : (unresolvable.any fun lead => startsWith lead (trim href)) = false)
    (found : candidatePath base current (trim href) = some candidate)
    (normalized : normalizeJoinedPath candidate = if resolved = [] then none else some resolved) (p : Text) :
    resolveDocsHref base current href lead = some p ↔ p = resolved ∧ Kept lead p := by
  have filled : (trim href).isEmpty = false := by
    rw [← Bool.not_eq_true,List.isEmpty_iff]
    exact some_
  rw [resolveDocsHref]
  simp only [filled,open_,found,normalized,Bool.or_false,Bool.false_eq_true,if_false,Option.bind_eq_bind,Option.bind_some]
  by_cases empty : resolved = []
  · rw [if_pos empty]
    refine ⟨fun same => by contradiction,?_⟩
    rintro ⟨rfl,_,ends⟩
    rw [empty] at ends
    rcases ends with ends | ends
    · cases ends
    · exact absurd ends.length_le (by decide)
  · rw [if_neg empty,Option.bind_some]
    split
    · rename_i closed
      refine ⟨fun same => by contradiction,?_⟩
      rintro ⟨rfl,opens,_⟩
      rw [startsWithIff.mpr opens] at closed
      cases closed
    · rename_i opens
      split
      · rename_i apart
        refine ⟨fun same => by contradiction,?_⟩
        rintro ⟨rfl,_,ends⟩
        rw [Bool.not_eq_true',Bool.or_eq_false_iff,decide_eq_false_iff_not] at apart
        rcases ends with slash | html
        · exact absurd slash apart.1
        · cases (List.isSuffixOf_iff_suffix.mpr html).symm.trans apart.2
      · rename_i ends
        constructor
        · intro same
          cases same
          rw [Bool.not_eq_true,Bool.not_eq_false'] at opens
          rw [Bool.not_eq_true,Bool.not_eq_false',Bool.or_eq_true,decide_eq_true_iff] at ends
          exact ⟨rfl,startsWithIff.mp opens,ends.imp_right List.isSuffixOf_iff_suffix.mp⟩
        · rintro ⟨rfl,_⟩
          rfl

theorem pathOfCut (text : Text) : (text.takeWhile (· ≠ '#')).takeWhile (· ≠ '?') = pathOf text := by
  rw [List.takeWhile_takeWhile,pathOf]
  congr 1
  funext c
  simp

theorem pathOfBehind {head : Text} (plain : '?' ∉ head ∧ '#' ∉ head) (tail : Text) : pathOf (head ++ tail) = head ++ pathOf tail := by
  refine List.takeWhile_append_of_pos fun c mem => ?_
  have notQuery : c ≠ '?' := fun same => plain.1 (same ▸ mem)
  have notFragment : c ≠ '#' := fun same => plain.2 (same ▸ mem)
  simp [notQuery,notFragment]

theorem pathOfPrefix (text : Text) : pathOf text <+: text := List.takeWhile_prefix _

theorem absoluteRead {rest : Text} (read : trim href = '/'::rest) : cleanPath href = '/'::trim (pathOf rest) := by
  have plain : '?' ∉ "/".toList ∧ '#' ∉ "/".toList := by decide
  have behind : pathOf ('/'::rest) = '/'::pathOf rest := pathOfBehind plain rest
  rw [cleanPath,read,behind]
  rfl

theorem relativeRead (read : startsWith "/".toList (trim href) = false) : cleanPath href = trimEnd (pathOf (trim href)) := by
  have notSlash : ¬ startsWith "/".toList (pathOf (trim href)) = true := by
    intro opens
    rw [startsWithIff.mpr ((startsWithIff.mp opens).trans (pathOfPrefix _))] at read
    cases read
  exact if_neg notSlash

theorem leadDropped {rest : Text} (single : startsWith "/".toList rest = false) : trimStartMatches "/".toList ('/'::rest) = rest := by
  have bare : stripPrefix "/".toList rest = none := by
    rw [stripPrefix,single]
    rfl
  exact trimStartOnce (by decide) bare

theorem prefixHead {a b : Text} (inside : a <+: b) {c : Char} (first : a.head? = some c) : b.head? = some c := by
  obtain ⟨rest,rfl⟩ := inside
  rw [List.head?_append,first]
  rfl

theorem startOpens {text : Text} (kept : trimStart text = text) {c : Char} (first : text.head? = some c) : isWhiteSpace c = false := by
  have opens := List.head?_dropWhile_not isWhiteSpace text
  rw [show List.dropWhile isWhiteSpace text = text from kept,first] at opens
  simpa using opens

theorem trimStartOpens {text : Text} (opens : ∀ c ∈ text.head?, isWhiteSpace c = false) : trimStart text = text := by
  cases text with
  | nil => rfl
  | cons c text => exact trimStartKept (opens c rfl) text

theorem absoluteResolved {rest : Text} (plain : Plain (trim href) (cleanPath href)) (read : trim href = '/'::rest) (current : Text) :
    ResolvesBy (resolveDocsHref base current href lead) current (cleanPath href) lead := by
  have clean := absoluteRead read
  have single : startsWith "/".toList rest = false := by
    have authority := plain.authority
    rw [read] at authority
    exact authority
  have filled := plain.filled
  have ends := plain.last
  have stripped : stripPrefix "/".toList ('/'::trim (pathOf rest)) = some (trim (pathOf rest)) := stripPrefixIff.mpr rfl
  have split_ : segments ('/'::trim (pathOf rest)) = []::segments (trim (pathOf rest)) := splitHere '/' [] _
  rw [clean,stripped] at filled
  rw [clean,split_,List.getLast?_cons_of_ne_nil (segmentsSome _)] at ends
  have raw : rawOf rest = trim (pathOf rest) := congrArg trim (pathOfCut rest)
  have open_ : (unresolvable.any fun lead => startsWith lead (trim href)) = false := by
    have second : startsWith "//".toList ('/'::rest) = startsWith "/".toList rest := rfl
    rw [read]
    simp only [unresolvable,List.any_cons,List.any_nil,second,single]
    rfl
  have found : candidatePath base current (trim href) = some rest := by
    rw [read,candidatePath,leadDropped single]
    rfl
  intro p
  rw [clean]
  exact checkedIff (by rw [read]; exact List.cons_ne_nil _ _) open_ found (normalizedAs raw filled ends) p

/-- A plain reference begins with no scheme. -/
theorem plainUnschemed (plain : Plain (trim href) (cleanPath href)) {lead : Text} (scheme : ∀ rest, hasScheme (lead ++ rest) = true) :
    startsWith lead (trim href) = false := by
  rw [← Bool.not_eq_true]
  intro opens
  obtain ⟨rest,same⟩ := startsWithIff.mp opens
  cases (same ▸ scheme rest).symm.trans plain.scheme

theorem plainResolvable (plain : Plain (trim href) (cleanPath href)) :
    (unresolvable.any fun lead => startsWith lead (trim href)) = false := by
  have notFragment : startsWith "#".toList (trim href) = false := by
    rw [← Bool.not_eq_true]
    intro opens
    obtain ⟨rest,same⟩ := startsWithIff.mp opens
    exact plain.opens.2 (same ▸ rfl)
  have notAuthority : startsWith "//".toList (trim href) = false := plain.authority
  have javascript : startsWith "javascript:".toList (trim href) = false := plainUnschemed plain fun _ => rfl
  have mailto : startsWith "mailto:".toList (trim href) = false := plainUnschemed plain fun _ => rfl
  have tel : startsWith "tel:".toList (trim href) = false := plainUnschemed plain fun _ => rfl
  simp only [unresolvable,List.any_cons,List.any_nil,notFragment,notAuthority,javascript,mailto,tel]
  rfl

/-- What is put behind the directory of a page is cut and trimmed only in the reference. -/
theorem rawBehind (current : DocsPath) (some_ : trimEnd (pathOf (trim href)) ≠ []) :
    rawOf (baseDir current.text ++ trim href) = baseDir current.text ++ trimEnd (pathOf (trim href)) := by
  have dir : baseDir current.text <+: current.text := List.rdropWhile_prefix _ _
  have plainDir : '?' ∉ baseDir current.text ∧ '#' ∉ baseDir current.text :=
    ⟨fun mem => current.plain.1 (dir.subset mem),fun mem => current.plain.2 (dir.subset mem)⟩
  have opens : ∀ c ∈ (baseDir current.text ++ pathOf (trim href)).head?, isWhiteSpace c = false := by
    intro c first
    rw [List.head?_append,Option.mem_def,Option.or_eq_some_iff] at first
    rcases first with inDir | ⟨_,inPath⟩
    · exact startOpens current.opens (prefixHead dir inDir)
    · exact trimOpens (prefixHead (pathOfPrefix _) inPath)
  rw [rawOf,pathOfCut,pathOfBehind plainDir,trim,trimStartOpens opens,trimEndAround,if_neg some_]

theorem relativeResolved (current : DocsPath) (plain : Plain (trim href) (cleanPath href))
    (read : startsWith "/".toList (trim href) = false) :
    ResolvesBy (resolveDocsHref base current.text href lead) current.text (cleanPath href) lead := by
  have clean := relativeRead read
  have filled := plain.filled
  have ends := plain.last
  have some_ := plain.some_
  rw [clean] at filled ends some_
  have found : candidatePath base current.text (trim href) = some (baseDir current.text ++ trim href) := by
    have http : startsWith "http://".toList (trim href) = false := plainUnschemed plain fun _ => rfl
    have https : startsWith "https://".toList (trim href) = false := plainUnschemed plain fun _ => rfl
    rw [candidatePath,http,https,read]
    rfl
  have trimmed : trimEnd (pathOf (trim href)) <+: trim href := (List.rdropWhile_prefix _ _).trans (pathOfPrefix _)
  have relative : ¬ startsWith "/".toList (trimEnd (pathOf (trim href))) = true := fun lead => by
    cases (startsWithIff.mpr ((startsWithIff.mp lead).trans trimmed)).symm.trans read
  have notStripped : stripPrefix "/".toList (trimEnd (pathOf (trim href))) = none := if_neg relative
  have whole : segments (baseDir current.text ++ trimEnd (pathOf (trim href))) =
    (segments current.text).dropLast ++ segments (trimEnd (pathOf (trim href))) := mergedSegments _ _
  have allFilled : ∀ segment ∈ (segments (baseDir current.text ++ trimEnd (pathOf (trim href)))).dropLast, segment ≠ [] := by
    intro segment mem
    rw [notStripped] at filled
    rw [whole,List.dropLast_append_of_ne_nil (segmentsSome _)] at mem
    exact (List.mem_append.mp mem).elim (current.filled segment) (filled segment)
  have lastPlain : ∀ segment ∈ (segments (baseDir current.text ++ trimEnd (pathOf (trim href)))).getLast?,
      segment ≠ ".".toList ∧ segment ≠ "..".toList := by
    rw [whole,List.getLast?_append_of_ne_nil _ (segmentsSome _)]
    exact ends
  have merged : resolvePath ('/'::current.text) (trimEnd (pathOf (trim href))) =
      removeDotSegments [] ('/'::(baseDir current.text ++ trimEnd (pathOf (trim href)))) := by
    rw [resolvePath,if_neg some_,if_neg relative,mergeAbsolute]
    rfl
  have filledHref : trim href ≠ [] := fun empty => some_ (by rw [empty]; rfl)
  intro p
  rw [clean,merged]
  exact checkedIff filledHref (plainResolvable plain) found (normalizedAs (rawBehind current some_) allFilled lastPlain) p

end

/-! What is returned, for every reference. -/

section
variable {base current href lead path p : Text}

theorem trimStartSuffix (lead text : Text) : trimStartMatches lead text <:+ text := by
  have from_ : ∀ fuel (text : Text), trimStartFrom lead fuel text <:+ text := by
    intro fuel
    induction fuel with
    | zero => exact fun text => List.suffix_rfl
    | succ fuel ih =>
      intro text
      rw [trimStartFrom]
      split
      · rename_i rest stripped
        rw [stripPrefixIff.mp stripped]
        exact (ih rest).trans (List.suffix_append _ _)
      · exact List.suffix_rfl
  exact from_ _ text

theorem rawPlain (path : Text) : '?' ∉ rawOf path ∧ '#' ∉ rawOf path := by
  have inside (c : Char) (mem : c ∈ rawOf path) : c ∈ (path.takeWhile (· ≠ '#')).takeWhile (· ≠ '?') :=
    (trimInfix _).subset mem
  constructor
  · intro mem
    have other := List.mem_takeWhile_imp (inside _ mem)
    simp at other
  · intro mem
    have other := List.mem_takeWhile_imp ((List.takeWhile_prefix _).subset (inside _ mem))
    simp at other

/-- What normalization leaves: named segments, and perhaps an empty one at the end. -/
theorem normalizedParts (normalized : normalizeJoinedPath path = some p) :
    ∃ parts tail, segments p = parts ++ tail ∧ p = join "/".toList (parts ++ tail) ∧ (tail = [] ∨ tail = [[]]) ∧
      ∀ part ∈ parts, part ≠ [] ∧ part ≠ ".".toList ∧ part ≠ "..".toList ∧ part ∈ segments (trimStartMatches "/".toList (rawOf path)) := by
  rw [normalizeRaw] at normalized
  split at normalized
  · cases normalized
  · dsimp only at normalized
    have named : ∀ part ∈ (segments (trimStartMatches "/".toList (rawOf path))).foldl pushSegment [],
        part ≠ [] ∧ part ≠ ".".toList ∧ part ≠ "..".toList ∧ part ∈ segments (trimStartMatches "/".toList (rawOf path)) := by
      intro part mem
      rcases pushedFrom mem with old | ⟨here,some_,notDot,notParent⟩
      · cases old
      · exact ⟨some_,notDot,notParent,here⟩
    generalize (segments (trimStartMatches "/".toList (rawOf path))).foldl pushSegment [] = parts at normalized named
    split at normalized
    · cases normalized
    · rename_i filled
      have some_ : parts ≠ [] := by
        rintro rfl
        exact filled rfl
      have clean : ∀ part ∈ parts, '/' ∉ part := fun part mem => segmentClean _ part (named part mem).2.2.2
      cases normalized
      split
      · refine ⟨parts,[[]],?_,(joinTrailing some_).symm,Or.inr rfl,named⟩
        rw [← joinTrailing some_]
        refine splitJoin '/' [] (by simp) fun part mem => ?_
        rcases List.mem_append.mp mem with old | new
        · exact clean part old
        · rw [List.mem_singleton.mp new]
          exact List.not_mem_nil
      · refine ⟨parts,[],?_,by rw [List.append_nil],Or.inl rfl,named⟩
        rw [List.append_nil]
        exact splitJoin '/' [] some_ clean

/-- What the code returns has no dot segment, whatever the reference. -/
theorem resolvedParts (found : resolveDocsHref base current href lead = some p) : ∃ path, normalizeJoinedPath path = some p := by
  simp only [resolveDocsHref] at found
  split at found
  · cases found
  · obtain ⟨joined,_,rest⟩ := Option.bind_eq_some_iff.mp found
    obtain ⟨normalized,isNormal,rest⟩ := Option.bind_eq_some_iff.mp rest
    split at rest
    · cases rest
    · split at rest
      · cases rest
      · cases rest
        exact ⟨joined,isNormal⟩

theorem resolvedDotless (found : resolveDocsHref base current href lead = some p) :
    ∀ segment ∈ segments p, segment ≠ ".".toList ∧ segment ≠ "..".toList := by
  obtain ⟨path,normalized⟩ := resolvedParts found
  obtain ⟨parts,tail,whole,_,ending,named⟩ := normalizedParts normalized
  intro segment mem
  rw [whole] at mem
  rcases List.mem_append.mp mem with old | new
  · exact ⟨(named segment old).2.1,(named segment old).2.2.1⟩
  · rcases ending with rfl | rfl
    · cases new
    · rw [List.mem_singleton.mp new]
      decide

/-- For every reference whose path is in order, the code returns exactly the page that it leads to,
where that is kept; and whatever the reference, nothing outside the crate and no dot segment. -/
theorem hrefResolved (base : Text) (href lead : Text) :
    (∀ current : DocsPath, Plain (trim href) (cleanPath href) →
      ResolvesBy (resolveDocsHref base current.text href lead) current.text (cleanPath href) lead) ∧
    ∀ current p, resolveDocsHref base current href lead = some p →
      lead <+: p ∧ ∀ segment ∈ segments p, segment ≠ ".".toList ∧ segment ≠ "..".toList := by
  refine ⟨fun current plain => ?_,fun current p found => ⟨resolvedInside found,resolvedDotless found⟩⟩
  cases absolute : startsWith "/".toList (trim href) with
  | true =>
    obtain ⟨rest,same⟩ := startsWithIff.mp absolute
    exact absoluteResolved plain same.symm current.text
  | false => exact relativeResolved current plain absolute

end

/-! The pages of a crawl. -/

section
variable {candidate : RustdocSync.RustdocSyncCandidateRow}

/-- A crate and version as they can stand in a URL. -/
structure Named (candidate : RustdocSync.RustdocSyncCandidateRow) : Prop where
  some_ : candidate.crateName ≠ [] ∧ candidate.version ≠ []
  opens : trimStart candidate.crateName = candidate.crateName
  crate : lacks "/?#".toList candidate.crateName = true
  version : lacks "/?#".toList candidate.version = true

/-- A text is one of a docs path. -/
def IsDocs (text : Text) : Prop := ∃ page : DocsPath, page.text = text

theorem joinedDocs {segs : List Text} (some_ : segs ≠ []) (clean : ∀ s ∈ segs, lacks "/?#".toList s = true)
    (filled : ∀ s ∈ segs.dropLast, s ≠ []) (opens : trimStart (join "/".toList segs) = join "/".toList segs) :
    IsDocs (join "/".toList segs) := by
  have without (c : Char) (mem : c ∈ "/?#".toList) (s : Text) (inside : s ∈ segs) : c ∉ s := lacksChar (clean s inside) mem
  have whole : segments (join "/".toList segs) = segs := splitJoin '/' [] some_ (without '/' (by decide))
  have plain : '?' ∉ join "/".toList segs ∧ '#' ∉ join "/".toList segs :=
    ⟨joinClean (by decide) (without '?' (by decide)),joinClean (by decide) (without '#' (by decide))⟩
  exact ⟨⟨_,plain,by rw [whole]; exact filled,opens⟩,rfl⟩

theorem opensNamed (named : Named candidate) (rest : Text) :
    trimStart (candidate.crateName ++ rest) = candidate.crateName ++ rest := by
  refine trimStartOpens fun c first => ?_
  have some_ : candidate.crateName.head? = some (candidate.crateName.head named.some_.1) := List.head?_eq_some_head _
  rw [List.head?_append,some_,Option.some_or] at first
  exact startOpens named.opens (some_.trans first)

theorem rawLacks {path part : Text} (mem : part ∈ segments (trimStartMatches "/".toList (rawOf path))) :
    lacks "/?#".toList part = true := by
  have inside : part <:+: trimStartMatches "/".toList (rawOf path) := by
    have joined : part <:+: join "/".toList (segments (trimStartMatches "/".toList (rawOf path))) := infixJoin mem
    rwa [show join "/".toList (segments (trimStartMatches "/".toList (rawOf path))) = _ from joinSplit '/' [] _] at joined
  have within (c : Char) (there : c ∈ part) : c ∈ rawOf path := (trimStartSuffix _ _).subset (inside.subset there)
  have plain := rawPlain path
  have clean := segmentClean _ part mem
  rw [lacks,List.all_eq_true]
  intro c there
  have notSlash : c ≠ '/' := fun same => clean (same ▸ there)
  have notQuery : c ≠ '?' := fun same => plain.1 (within _ (same ▸ there))
  have notFragment : c ≠ '#' := fun same => plain.2 (within _ (same ▸ there))
  simp [notSlash,notQuery,notFragment]

theorem resolvedDocs (named : Named candidate) {base current href p : Text}
    (found : resolveDocsHref base current href (cratePrefix candidate) = some p) : IsDocs p := by
  obtain ⟨path,normalized⟩ := resolvedParts found
  obtain ⟨parts,tail,whole,joined,ending,kept⟩ := normalizedParts normalized
  have opens : trimStart p = p := by
    obtain ⟨rest,same⟩ := resolvedInside found
    rw [← same,cratePrefix,List.append_assoc,List.append_assoc,List.append_assoc]
    exact opensNamed named _
  have some_ : parts ++ tail ≠ [] := whole ▸ segmentsSome p
  rw [joined] at opens ⊢
  refine joinedDocs some_ (fun s mem => ?_) (fun s mem => ?_) opens
  · rcases List.mem_append.mp mem with old | new
    · exact rawLacks (kept s old).2.2.2
    · rcases ending with rfl | rfl
      · cases new
      · rw [List.mem_singleton.mp new]
        rfl
  · rcases ending with rfl | rfl
    · rw [List.append_nil] at mem
      exact (kept s (List.mem_of_mem_dropLast mem)).1
    · rw [List.dropLast_concat] at mem
      exact (kept s mem).1

theorem startDocs (named : Named candidate) {start : Text} (mem : start ∈ starts candidate) : IsDocs start := by
  have rooted (last : Text) (clean : lacks "/?#".toList last = true) :
      IsDocs (join "/".toList [candidate.crateName,candidate.version,candidate.crateName,last]) := by
    refine joinedDocs (List.cons_ne_nil _ _) ?_ ?_ ?_
    · simp only [List.forall_mem_cons]
      exact ⟨named.crate,named.version,named.crate,clean,List.forall_mem_nil _⟩
    · simp only [List.dropLast_cons_cons,List.dropLast_singleton,List.forall_mem_cons]
      exact ⟨named.some_.1,named.some_.2,named.some_.1,List.forall_mem_nil _⟩
    · rw [joinCons]
      exact opensNamed named _
  simp only [starts,List.mem_cons,List.not_mem_nil,or_false] at mem
  rcases mem with rfl | rfl
  · have root : moduleRoot candidate = join "/".toList [candidate.crateName,candidate.version,candidate.crateName,[]] := by
      simp [moduleRoot,cratePrefix,join,List.intercalate]
    exact root ▸ rooted [] rfl
  · have root : moduleRootIndex candidate =
        join "/".toList [candidate.crateName,candidate.version,candidate.crateName,"index.html".toList] := by
      simp [moduleRootIndex,moduleRoot,cratePrefix,join,List.intercalate]
    exact root ▸ rooted "index.html".toList (by decide)

/-- Whatever docs.rs serves, the crawl only requests docs paths. -/
theorem fetchedDocs (named : Named candidate) {docs : Docs} {final : Crawl} {ending : Ending}
    (finished : Finished docs candidate final ending) : ∀ path ∈ final.fetched, IsDocs path := by
  intro path mem
  obtain ⟨root,start,leads⟩ := finished.reached path mem
  rcases Relation.ReflTransGen.cases_tail leads with same | ⟨page,_,step⟩
  · exact same ▸ startDocs named start
  · rw [links] at step
    split at step
    · cases step
    · rename_i html _
      cases discovered : discoverDocsPaths docs.baseUrl page html (cratePrefix candidate) with
      | none =>
        rw [discovered] at step
        cases step
      | some paths =>
        rw [discovered,Option.getD_some] at step
        obtain ⟨hrefs,_,rfl⟩ := Option.map_eq_some_iff.mp discovered
        obtain ⟨href,_,found⟩ := List.mem_filterMap.mp (List.mem_dedup.mp (Ranking.memSortBy.mp step))
        exact resolvedDocs named found

end

def serdeIndex : DocsPath := ⟨"serde/1.0.0/serde/index.html".toList,by decide,by decide,by decide⟩

theorem serializerResolved :
    resolveDocsHref "https://docs.rs".toList serdeIndex.text "../serde/trait.Serializer.html#tymethod".toList "serde/1.0.0/".toList =
      some "serde/1.0.0/serde/trait.Serializer.html".toList :=
  ((hrefResolved "https://docs.rs".toList "../serde/trait.Serializer.html#tymethod".toList "serde/1.0.0/".toList).1 serdeIndex
    (by decide +kernel) _).mpr (by decide +kernel)

/-- White space before a fragment is part of the path, and trimmed off it. -/
def spacedHref : Text := "all.html #top".toList

theorem spacedTrimmed : Plain spacedHref (pathOf spacedHref) ∧
    ¬ ResolvesBy (resolveDocsHref "https://docs.rs".toList serdeIndex.text spacedHref "serde/1.0.0/".toList)
      serdeIndex.text (pathOf spacedHref) "serde/1.0.0/".toList := by
  refine ⟨by decide +kernel,fun resolves => ?_⟩
  have returned := (resolves "serde/1.0.0/serde/all.html".toList).mp (by decide +kernel)
  exact absurd returned.1 (by decide +kernel)

end RustMcp.DocsPaths
