import RustMcp.ApiDiff
import RustMcp.Rounding

/-! Migration hints: which added symbol may replace a removed one. A score is made up
of the likeness of the names, the words that they share and the shape of the
signatures; `f32` is rational arithmetic rounded to 24 bits. -/
namespace RustMcp.SymbolNames
open Str (Text)
open ApiDiff

/-! The words of a name. -/

def normalizedSymbolKey (name : Text) : Text := Str.toAsciiLowercase (name.filter Char.isAlphanum)

structure Tokens where
  tokens : List Text
  current : Text
  previousWasLower : Bool

/-- A word ends where it is not empty. -/
def Tokens.flushed (state : Tokens) : List Text :=
  if state.current = [] then state.tokens else state.tokens ++ [Str.toAsciiLowercase state.current]

def nextChar (state : Tokens) (ch : Char) : Tokens :=
  if !ch.isAlphanum then ⟨state.flushed,[],false⟩
  else if ch.isUpper && state.previousWasLower then ⟨state.flushed,[ch],ch.isLower⟩
  else ⟨state.tokens,state.current ++ [ch],ch.isLower⟩

def splitSymbolTokens (name : Text) : List Text := (name.foldl nextChar ⟨[],[],false⟩).flushed

example : splitSymbolTokens "HTTPServer_newConn2Go".toList = ["httpserver".toList,"new".toList,"conn2go".toList] := by decide

/-! `f32` and `i32`. -/

def f32 (x : ℚ) : ℚ := Rounding.nearest 24 x

/-- Half away from zero. -/
def round (x : ℚ) : Int := if 0 ≤ x then ⌊x + 1 / 2⌋ else ⌈x - 1 / 2⌉

def toI32 (n : Int) : Int := max (-2 ^ 31) (min (2 ^ 31 - 1) n)

/-! The score. -/

/-- How many tokens, counted as often as they are there, are also on the right. -/
def overlapOf (leftTokens rightTokens : List Text) : Nat := (leftTokens.filter fun token => rightTokens.contains token).length

def scaledRatio (overlap total : Nat) : Int := toI32 (round (f32 (f32 (f32 overlap / f32 total) * 4)))

def tokenOverlapScore (left right : Text) : Int :=
  let leftTokens := splitSymbolTokens left
  let rightTokens := splitSymbolTokens right
  if leftTokens = [] ∨ rightTokens = [] then 0
  else
    let overlap := overlapOf leftTokens rightTokens
    if overlap = 0 then 0 else scaledRatio overlap (leftTokens.length + rightTokens.length - overlap)

def maybeRenamed (fromName toName : Text) : Bool :=
  let fromKey := normalizedSymbolKey fromName
  let toKey := normalizedSymbolKey toName
  if fromKey = [] ∨ toKey = [] then false
  else if fromKey = toKey then true
  else (Str.contains toKey fromKey || Str.contains fromKey toKey) && Nat.dist fromKey.length toKey.length ≤ 6

/-- The number of arguments in the first brackets, and whether an arrow follows. -/
def signatureShape (signature : Text) : Option (Nat × Bool) := do
  let (_,afterOpen) ← Str.splitOnce '(' signature
  let (args,afterClose) ← Str.splitOnce ')' afterOpen
  let argsText := Str.trim args
  let argCount := if argsText = [] then 0 else (Str.split ",".toList argsText).length
  return (argCount,Str.contains "->".toList afterClose)

/-- Without spaces and without the name of the function. -/
def normalizedSignatureKey (signature : Text) : Text :=
  let condensed := signature.filter fun c => !Str.isWhiteSpace c
  match (Str.splitOnceAt "fn".toList condensed).bind fun parts => Str.splitOnce '(' parts.2 with
  | some (_,args) => "fn(".toList ++ args
  | none => condensed

def signatureCompatibilityScore (removedSignature addedSignature : Option Text) : Int :=
  match removedSignature,addedSignature with
  | some left,some right =>
      if normalizedSignatureKey left = normalizedSignatureKey right then 5
      else match signatureShape left,signatureShape right with
        | some (leftArgs,leftRet),some (rightArgs,rightRet) =>
            (if leftArgs = rightArgs then 2 else 0) + (if leftRet = rightRet then 1 else 0)
        | _,_ => 0
  | _,_ => 0

/-- The sum is exact in `i32` for names of less than `2 ^ 28` words. -/
def candidateScore (removed candidate : CrateApiDiffChange) : Int :=
  (if maybeRenamed removed.name candidate.name then 5 else 0) + tokenOverlapScore removed.name candidate.name +
    signatureCompatibilityScore removed.fromSignature candidate.toSignature

/-- The first of the highest score stays. -/
def betterMatch (removed : CrateApiDiffChange) (bestMatch : Option (CrateApiDiffChange × Int)) (candidate : CrateApiDiffChange) :
    Option (CrateApiDiffChange × Int) :=
  if candidate.changeType ≠ .added ∨ candidate.kind ≠ removed.kind then bestMatch
  else
    let score := candidateScore removed candidate
    if score < 5 then bestMatch
    else match bestMatch with
      | some (kept,bestScore) => if bestScore ≥ score then some (kept,bestScore) else some (candidate,score)
      | none => some (candidate,score)

def replacementCandidate (removed : CrateApiDiffChange) (changes : List CrateApiDiffChange) : Option CrateApiDiffChange :=
  (changes.foldl (betterMatch removed) none).map Prod.fst

/-! Words are made of the characters of the key, and none is empty. -/

theorem flushedKey (state : Tokens) : state.flushed.flatten = state.tokens.flatten ++ Str.toAsciiLowercase state.current := by
  unfold Tokens.flushed
  split
  · rename_i empty
    rw [empty]
    exact (List.append_nil _).symm
  · simp

theorem nextCharKey (state : Tokens) (ch : Char) :
    (nextChar state ch).flushed.flatten = state.flushed.flatten ++ normalizedSymbolKey [ch] := by
  unfold nextChar normalizedSymbolKey
  split
  · rename_i other
    rw [flushedKey ⟨state.flushed,[],false⟩]
    rw [Bool.not_eq_eq_eq_not,Bool.not_true] at other
    simp [other,Str.toAsciiLowercase]
  · rename_i kept
    have letter : ch.isAlphanum = true := by simpa using kept
    split
    · rw [flushedKey ⟨state.flushed,[ch],_⟩]
      simp [letter]
    · rw [flushedKey ⟨state.tokens,_,_⟩,flushedKey state]
      simp [letter,Str.toAsciiLowercase]

theorem tokensKey (name : Text) : (splitSymbolTokens name).flatten = normalizedSymbolKey name := by
  have run (state : Tokens) : (name.foldl nextChar state).flushed.flatten = state.flushed.flatten ++ normalizedSymbolKey name := by
    induction name generalizing state with
    | nil => simp [normalizedSymbolKey,Str.toAsciiLowercase]
    | cons ch name ih =>
      rw [List.foldl_cons,ih,nextCharKey,List.append_assoc]
      congr 1
      cases letter : ch.isAlphanum <;> simp [normalizedSymbolKey,Str.toAsciiLowercase,letter]
  exact run ⟨[],[],false⟩

theorem flushedSome {state : Tokens} (some_ : ∀ token ∈ state.tokens, token ≠ []) : ∀ token ∈ state.flushed, token ≠ [] := by
  unfold Tokens.flushed
  split
  · exact some_
  · rename_i word
    intro token mem
    rcases List.mem_append.mp mem with old | new
    · exact some_ token old
    · rw [List.mem_singleton.mp new]
      exact fun empty => word (List.map_eq_nil_iff.mp empty)

theorem tokensSome (name : Text) : ∀ token ∈ splitSymbolTokens name, token ≠ [] := by
  have run (state : Tokens) (some_ : ∀ token ∈ state.tokens, token ≠ []) :
      ∀ token ∈ (name.foldl nextChar state).tokens, token ≠ [] := by
    induction name generalizing state with
    | nil => exact some_
    | cons ch name ih =>
      refine ih (nextChar state ch) ?_
      unfold nextChar
      split
      · exact flushedSome some_
      · split
        · exact flushedSome some_
        · exact some_
  exact flushedSome (run ⟨[],[],false⟩ (by simp))

/-- Names of the same words, if there are any, count as renamed. -/
theorem sameWordsRenamed {left right : Text} (same : splitSymbolTokens left = splitSymbolTokens right)
    (some_ : splitSymbolTokens left ≠ []) : maybeRenamed left right = true := by
  have keys : normalizedSymbolKey left = normalizedSymbolKey right := by rw [← tokensKey,same,tokensKey]
  have key : normalizedSymbolKey left ≠ [] := by
    obtain ⟨token,rest,shape⟩ := List.exists_cons_of_ne_nil some_
    rw [← tokensKey,shape,List.flatten_cons]
    exact fun empty => tokensSome left token (shape ▸ List.mem_cons_self) (List.append_eq_nil_iff.mp empty).1
  simp only [maybeRenamed,← keys,key,or_self,if_false,if_true]

/-! What is chosen. -/

structure Matched (removed : CrateApiDiffChange) (changes : List CrateApiDiffChange) (chosen : CrateApiDiffChange) (score : Int) :
    Prop where
  mem : chosen ∈ changes
  added : chosen.changeType = .added
  kind : chosen.kind = removed.kind
  own : score = candidateScore removed chosen
  enough : 5 ≤ score

theorem matchedLater {removed chosen : CrateApiDiffChange} {changes : List CrateApiDiffChange} {score : Int}
    (held : Matched removed changes chosen score) (candidate : CrateApiDiffChange) :
    Matched removed (changes ++ [candidate]) chosen score :=
  {held with mem := List.mem_append_left _ held.mem}

theorem bestMatched {removed : CrateApiDiffChange} (changes : List CrateApiDiffChange) {chosen : CrateApiDiffChange} {score : Int}
    (held : changes.foldl (betterMatch removed) none = some (chosen,score)) : Matched removed changes chosen score := by
  induction changes using List.reverseRecOn generalizing chosen score with
  | nil => cases held
  | append_singleton changes candidate ih =>
    rw [List.foldl_append,List.foldl_cons,List.foldl_nil,betterMatch] at held
    split at held
    · exact matchedLater (ih held) candidate
    · rename_i considered
      push Not at considered
      simp only at held
      split at held
      · exact matchedLater (ih held) candidate
      · rename_i enough
        have new : Matched removed (changes ++ [candidate]) candidate (candidateScore removed candidate) :=
          ⟨by simp,considered.1,considered.2,rfl,not_lt.mp enough⟩
        split at held
        · rename_i kept bestScore old
          split at held
          · cases held
            exact matchedLater (ih old) candidate
          · cases held
            exact new
        · cases held
          exact new

theorem replacementMatched {removed chosen : CrateApiDiffChange} {changes : List CrateApiDiffChange}
    (found : replacementCandidate removed changes = some chosen) : Matched removed changes chosen (candidateScore removed chosen) := by
  obtain ⟨⟨_,score⟩,held,rfl⟩ := Option.map_eq_some_iff.mp found
  have matched := bestMatched changes held
  exact matched.own ▸ matched

/-! When a score is at least so much. -/

/-- Ratios from here on are scored `k` or more: what `f32` rounds to no less than `(2 k - 1) / 8`. -/
def threshold : Nat → ℚ
  | 0 => 0
  | 1 => 1 / 8 - 1 / 2 ^ 28
  | 2 => 3 / 8 - 1 / 2 ^ 26
  | 3 => 5 / 8 - 1 / 2 ^ 25
  | 4 => 7 / 8 - 1 / 2 ^ 25
  | _ => 9 / 8 - 1 / 2 ^ 24

def Reaches (k overlap total : Nat) : Prop := threshold k ≤ f32 overlap / f32 total

theorem f32Count {n : Nat} (small : n ≤ 2 ^ 24) : f32 n = n := by
  have same := Rounding.nearestExact (p := 24) (by decide) small 0
  rwa [zpow_zero,mul_one] at same

theorem f32Nonneg (n : Nat) : 0 ≤ f32 n := by
  have mono := Rounding.nearestMono (p := 24) (by decide) le_rfl (Nat.cast_nonneg (α := ℚ) n)
  rwa [Rounding.nearestZero] at mono

theorem ratioNonneg (overlap total : Nat) : 0 ≤ f32 overlap / f32 total := div_nonneg (f32Nonneg overlap) (f32Nonneg total)

/-- A bound that is an even number of 24 bits is reached from half a unit below. -/
theorem thresholdRounded {k m : Nat} (e : ℤ) (even : m % 2 = 0) (full : 2 ^ 23 < m) (bits : m ≤ 2 ^ 24)
    (edge : ((2 * k - 1 : Int) : ℚ) / 8 = m * 2 ^ e) (below : threshold k = ((m : ℚ) - 1 / 2) * 2 ^ e) (overlap total : Nat) :
    Reaches k overlap total ↔ ((2 * k - 1 : Int) : ℚ) / 8 ≤ f32 (f32 overlap / f32 total) := by
  rw [Reaches,below,edge]
  exact (Rounding.nearestAtLeast (p := 24) even full bits (by decide) e (ratioNonneg overlap total)).symm

theorem reachesIff {k : Nat} (least : 1 ≤ k) (most : k ≤ 5) (overlap total : Nat) :
    Reaches k overlap total ↔ ((2 * k - 1 : Int) : ℚ) / 8 ≤ f32 (f32 overlap / f32 total) := by
  interval_cases k
  · exact thresholdRounded (m := 2 ^ 24) (-27) (by decide) (by decide) (by decide) (by norm_num) (by norm_num [threshold]) _ _
  · exact thresholdRounded (m := 3 * 2 ^ 22) (-25) (by decide) (by decide) (by decide) (by norm_num) (by norm_num [threshold]) _ _
  · exact thresholdRounded (m := 5 * 2 ^ 21) (-24) (by decide) (by decide) (by decide) (by norm_num) (by norm_num [threshold]) _ _
  · exact thresholdRounded (m := 7 * 2 ^ 21) (-24) (by decide) (by decide) (by decide) (by norm_num) (by norm_num [threshold]) _ _
  · exact thresholdRounded (m := 9 * 2 ^ 20) (-23) (by decide) (by decide) (by decide) (by norm_num) (by norm_num [threshold]) _ _

/-- Times four is exact, and so is the conversion up to the largest `i32`. -/
theorem scaledForm (overlap total : Nat) :
    scaledRatio overlap total = min (2 ^ 31 - 1) ⌊f32 (f32 overlap / f32 total) * 4 + 1 / 2⌋ ∧
      0 ≤ f32 (f32 overlap / f32 total) := by
  have nonneg : 0 ≤ f32 (f32 overlap / f32 total) := by
    have mono := Rounding.nearestMono (p := 24) (by decide) le_rfl (ratioNonneg overlap total)
    rwa [Rounding.nearestZero] at mono
  have four : f32 (f32 (f32 overlap / f32 total) * 4) = f32 (f32 overlap / f32 total) * 4 := by
    have power := Rounding.nearestPower (p := 24) (by decide) (ratioNonneg overlap total) 2
    norm_num at power
    exact power
  have floor : 0 ≤ ⌊f32 (f32 overlap / f32 total) * 4 + 1 / 2⌋ := Int.floor_nonneg.mpr (by linarith)
  refine ⟨?_,nonneg⟩
  rw [scaledRatio,four,round,if_pos (by linarith),toI32]
  omega

theorem scoreAtLeast {k : Nat} (least : 1 ≤ k) (most : k ≤ 5) (overlap total : Nat) :
    (k : Int) ≤ scaledRatio overlap total ↔ Reaches k overlap total := by
  rw [reachesIff least most,(scaledForm overlap total).1,le_min_iff,Int.le_floor]
  push_cast
  constructor
  · rintro ⟨_,le⟩
    linarith
  · intro le
    exact ⟨by omega,by linarith⟩

theorem scoreNonneg (overlap total : Nat) : 0 ≤ scaledRatio overlap total := by
  obtain ⟨form,nonneg⟩ := scaledForm overlap total
  rw [form]
  exact le_min (by norm_num) (Int.floor_nonneg.mpr (by linarith))

/-- No more than there are in all: no more than four. -/
theorem scoreMost {overlap total : Nat} (le : overlap ≤ total) : scaledRatio overlap total ≤ 4 := by
  by_contra more
  have five := (scoreAtLeast (k := 5) (by decide) (by decide) overlap total).mp (by push_cast; omega)
  have mono : f32 overlap ≤ f32 total :=
    Rounding.nearestMono (p := 24) (by decide) (Nat.cast_nonneg overlap) (by exact_mod_cast le)
  have one : f32 overlap / f32 total ≤ 1 := div_le_one_of_le₀ mono (f32Nonneg total)
  have above : (1 : ℚ) < threshold 5 := by norm_num [threshold]
  exact absurd (five.trans one) (not_le.mpr above)

/-- For counts that are not in the millions, the bounds are those of the integers. -/
theorem reachesSmall {k : Nat} (least : 1 ≤ k) (most : k ≤ 5) {overlap total : Nat} (few : overlap ≤ 2 ^ 24)
    (some_ : 0 < total) (small : total < 2 ^ 21) : Reaches k overlap total ↔ (2 * k - 1) * total ≤ 8 * overlap := by
  have pos : (0 : ℚ) < total := by exact_mod_cast some_
  have bound : (total : ℚ) < 2 ^ 21 := by exact_mod_cast small
  unfold Reaches
  rw [f32Count few,f32Count (by omega),le_div_iff₀ pos]
  constructor
  · intro le
    by_contra less
    have apart : (8 * overlap + 1 : ℚ) ≤ (2 * k - 1 : ℕ) * total := by exact_mod_cast not_le.mp less
    interval_cases k <;> norm_num [threshold] at le apart <;> linarith
  · intro le
    have cast : ((2 * k - 1 : ℕ) : ℚ) * total ≤ 8 * overlap := by exact_mod_cast le
    interval_cases k <;> norm_num [threshold] at cast ⊢ <;> linarith

/-! The ratio of the sets. -/

def shared (left right : Text) : Nat := ((splitSymbolTokens left).toFinset ∩ (splitSymbolTokens right).toFinset).card

def either (left right : Text) : Nat := ((splitSymbolTokens left).toFinset ∪ (splitSymbolTokens right).toFinset).card

/-- Four times the Jaccard ratio of the two sets of words, in the same arithmetic. -/
def jaccardScore (left right : Text) : Int := scaledRatio (shared left right) (either left right)

def overlap (left right : Text) : Nat := overlapOf (splitSymbolTokens left) (splitSymbolTokens right)

def total (left right : Text) : Nat := (splitSymbolTokens left).length + (splitSymbolTokens right).length - overlap left right

theorem noOverlap (total : Nat) : scaledRatio 0 total = 0 := by
  obtain ⟨form,_⟩ := scaledForm 0 total
  have zero : f32 ((0 : ℕ) : ℚ) = 0 := by rw [Nat.cast_zero,f32,Rounding.nearestZero]
  rw [form,zero,zero_div,f32,Rounding.nearestZero]
  norm_num

/-- The early returns give what the ratio would. -/
theorem scoreForm (left right : Text) : tokenOverlapScore left right = scaledRatio (overlap left right) (total left right) := by
  unfold tokenOverlapScore overlap total
  simp only
  split
  · rename_i empty
    have none_ : overlapOf (splitSymbolTokens left) (splitSymbolTokens right) = 0 := by
      rcases empty with empty | empty <;> simp [overlapOf,empty]
    rw [none_,noOverlap]
  · split
    · rename_i none_
      rw [none_,noOverlap]
    · rfl

theorem jaccardBounds (left right : Text) : 0 ≤ jaccardScore left right ∧ jaccardScore left right ≤ 4 :=
  ⟨scoreNonneg _ _,scoreMost (Finset.card_le_card (Finset.inter_subset_left.trans Finset.subset_union_left))⟩

/-- The score as it is meant. -/
structure JaccardRatio (left right : Text) : Prop where
  symmetric : tokenOverlapScore left right = tokenOverlapScore right left
  bounds : 0 ≤ tokenOverlapScore left right ∧ tokenOverlapScore left right ≤ 4
  ratio : tokenOverlapScore left right = jaccardScore left right
  /-- names that share words are not enough for a replacement -/
  alone : ∀ removed changes chosen, replacementCandidate removed changes = some chosen → removed.name = left →
    chosen.name = right → maybeRenamed left right = true ∨ 0 < signatureCompatibilityScore removed.fromSignature chosen.toSignature

/-- Counting words as often as they are repeated crosses no bound that the sets do not. -/
def SameLevels (left right : Text) : Prop :=
  ∀ k, 1 ≤ k → k ≤ 5 →
    (Reaches k (overlap left right) (total left right) ↔ Reaches k (shared left right) (either left right)) ∧
    (Reaches k (overlap right left) (total right left) ↔ Reaches k (shared left right) (either left right))

theorem levelsDecide {score other : Int} (nonneg : 0 ≤ score) (nonneg' : 0 ≤ other) (most : other ≤ 4) :
    score = other ↔ ∀ k : Nat, 1 ≤ k → k ≤ 5 → ((k : Int) ≤ score ↔ (k : Int) ≤ other) := by
  refine ⟨fun same k _ _ => by rw [same],fun levels => ?_⟩
  have one := levels 1 (by decide) (by decide)
  have two := levels 2 (by decide) (by decide)
  have three := levels 3 (by decide) (by decide)
  have four := levels 4 (by decide) (by decide)
  have five := levels 5 (by decide) (by decide)
  push_cast at one two three four five
  omega

theorem scoreJaccard (left right : Text) : tokenOverlapScore left right = jaccardScore left right ↔
    ∀ k, 1 ≤ k → k ≤ 5 →
      (Reaches k (overlap left right) (total left right) ↔ Reaches k (shared left right) (either left right)) := by
  obtain ⟨nonneg,most⟩ := jaccardBounds left right
  rw [scoreForm,levelsDecide (scoreNonneg _ _) nonneg most]
  refine forall_congr' fun k => forall_congr' fun least => forall_congr' fun top => ?_
  rw [scoreAtLeast least top,jaccardScore,scoreAtLeast least top]

theorem jaccardSymmetric (left right : Text) : shared right left = shared left right ∧ either right left = either left right :=
  ⟨by rw [shared,shared,Finset.inter_comm],by rw [either,either,Finset.union_comm]⟩

theorem notAlone {left right : Text} (most : tokenOverlapScore left right ≤ 4) {removed chosen : CrateApiDiffChange}
    {changes : List CrateApiDiffChange} (found : replacementCandidate removed changes = some chosen) (from_ : removed.name = left)
    (onto : chosen.name = right) :
    maybeRenamed left right = true ∨ 0 < signatureCompatibilityScore removed.fromSignature chosen.toSignature := by
  have enough := (replacementMatched found).enough
  rw [candidateScore,from_,onto] at enough
  by_contra neither
  push Not at neither
  rw [if_neg (by simpa using neither.1)] at enough
  omega

theorem jaccardRatioIff (left right : Text) : JaccardRatio left right ↔ SameLevels left right := by
  have back := scoreJaccard right left
  obtain ⟨same,same'⟩ := jaccardSymmetric left right
  have sets : jaccardScore right left = jaccardScore left right := by rw [jaccardScore,jaccardScore,same,same']
  rw [sets,same,same'] at back
  constructor
  · intro right_ k least most
    exact ⟨(scoreJaccard left right).mp right_.ratio k least most,back.mp (right_.symmetric ▸ right_.ratio) k least most⟩
  · intro levels
    have forth := (scoreJaccard left right).mpr fun k least most => (levels k least most).1
    have reversed := back.mpr fun k least most => (levels k least most).2
    obtain ⟨low,high⟩ := jaccardBounds left right
    have most : tokenOverlapScore left right ≤ 4 := forth.trans_le high
    exact ⟨forth.trans reversed.symm,⟨forth ▸ low,most⟩,forth,fun removed changes chosen found => notAlone most found⟩

def getGetSet : CrateApiDiffChange := ⟨"get_get_set".toList,"function".toList,.removed,none,none,none,none,true⟩

def setGet : CrateApiDiffChange := ⟨"set_get".toList,"function".toList,.added,none,none,none,none,false⟩

/-- The word that is there twice counts twice among those shared, and is taken away twice from all. -/
theorem repeatedWordCounts :
    ¬ JaccardRatio getGetSet.name setGet.name ∧
    tokenOverlapScore getGetSet.name setGet.name = 6 ∧ tokenOverlapScore setGet.name getGetSet.name = 3 ∧
    maybeRenamed getGetSet.name setGet.name = false ∧
    signatureCompatibilityScore getGetSet.fromSignature setGet.toSignature = 0 ∧
    replacementCandidate getGetSet [setGet] = some setGet := by
  have six : tokenOverlapScore getGetSet.name setGet.name = 6 := by decide +kernel
  refine ⟨fun meant => ?_,six,by decide +kernel,by decide,rfl,by decide +kernel⟩
  have most := meant.bounds.2
  rw [six] at most
  exact absurd most (by decide)

/-! Names without repeated words. -/

theorem overlapSets {leftTokens rightTokens : List Text} (once : leftTokens.Nodup) :
    overlapOf leftTokens rightTokens = (leftTokens.toFinset ∩ rightTokens.toFinset).card := by
  have kept : (leftTokens.filter fun token => rightTokens.contains token).toFinset = leftTokens.toFinset ∩ rightTokens.toFinset := by
    ext token
    simp
  rw [← kept,List.toFinset_card_of_nodup (once.filter _),overlapOf]

theorem totalSets {left right : Text} (once : (splitSymbolTokens left).Nodup) (once' : (splitSymbolTokens right).Nodup) :
    total left right = either left right := by
  have sum := Finset.card_union_add_card_inter (splitSymbolTokens left).toFinset (splitSymbolTokens right).toFinset
  rw [List.toFinset_card_of_nodup once,List.toFinset_card_of_nodup once'] at sum
  rw [total,overlap,overlapSets once,either]
  omega

/-- The score of two such names is the one of their sets. -/
theorem onceLevels {left right : Text} (once : (splitSymbolTokens left).Nodup) (once' : (splitSymbolTokens right).Nodup) :
    SameLevels left right := by
  obtain ⟨same,same'⟩ := jaccardSymmetric left right
  refine fun k least most => ⟨?_,?_⟩
  · rw [overlap,overlapSets once,totalSets once once',shared]
  · rw [overlap,overlapSets once',totalSets once' once,← shared,same,same']

/-! The levels of names of ordinary length, in whole numbers. -/

def ReachesWhole (k overlap total : Nat) : Prop := (2 * k - 1) * total ≤ 8 * overlap

theorem overlapMost (leftTokens rightTokens : List Text) : overlapOf leftTokens rightTokens ≤ leftTokens.length :=
  List.length_filter_le _ _

theorem wordless {left right : Text} : total left right = 0 ↔ splitSymbolTokens left = [] ∧ splitSymbolTokens right = [] := by
  have most := overlapMost (splitSymbolTokens left) (splitSymbolTokens right)
  constructor
  · intro none_
    rw [total,overlap] at none_
    have right_ : splitSymbolTokens right = [] := List.length_eq_zero_iff.mp (by omega)
    have zero : overlapOf (splitSymbolTokens left) (splitSymbolTokens right) = 0 := by simp [overlapOf,right_]
    exact ⟨List.length_eq_zero_iff.mp (by omega),right_⟩
  · rintro ⟨left_,right_⟩
    simp [total,left_,right_]

theorem eitherless {left right : Text} : either left right = 0 ↔ splitSymbolTokens left = [] ∧ splitSymbolTokens right = [] := by
  rw [either,Finset.card_eq_zero,Finset.union_eq_empty,List.toFinset_eq_empty_iff,List.toFinset_eq_empty_iff]

theorem levelsWhole {left right : Text} (few : (splitSymbolTokens left).length + (splitSymbolTokens right).length < 2 ^ 21) :
    SameLevels left right ↔ ∀ k, 1 ≤ k → k ≤ 5 →
      (ReachesWhole k (overlap left right) (total left right) ↔ ReachesWhole k (shared left right) (either left right)) ∧
      (ReachesWhole k (overlap right left) (total right left) ↔ ReachesWhole k (shared left right) (either left right)) := by
  have forth := overlapMost (splitSymbolTokens left) (splitSymbolTokens right)
  have back := overlapMost (splitSymbolTokens right) (splitSymbolTokens left)
  have sets : either left right ≤ (splitSymbolTokens left).length + (splitSymbolTokens right).length :=
    (Finset.card_union_le _ _).trans (Nat.add_le_add (List.toFinset_card_le _) (List.toFinset_card_le _))
  have both : shared left right ≤ either left right :=
    Finset.card_le_card (Finset.inter_subset_left.trans Finset.subset_union_left)
  refine forall_congr' fun k => forall_congr' fun least => forall_congr' fun most => ?_
  by_cases none_ : splitSymbolTokens left = [] ∧ splitSymbolTokens right = []
  · simp [ReachesWhole,wordless.mpr none_,wordless.mpr none_.symm,eitherless.mpr none_,overlap,shared,overlapOf,none_]
  · have some_ : 0 < total left right := Nat.pos_of_ne_zero fun zero => none_ (wordless.mp zero)
    have some_' : 0 < total right left := Nat.pos_of_ne_zero fun zero => none_ (wordless.mp zero).symm
    have either_ : 0 < either left right := Nat.pos_of_ne_zero fun zero => none_ (eitherless.mp zero)
    have whole : (overlap left right ≤ 2 ^ 24 ∧ total left right < 2 ^ 21) ∧
        overlap right left ≤ 2 ^ 24 ∧ total right left < 2 ^ 21 := by
      unfold total overlap
      omega
    rw [reachesSmall least most whole.1.1 some_ whole.1.2,reachesSmall least most whole.2.1 some_' whole.2.2,
      reachesSmall least most (by omega) either_ (by omega)]
    rfl

end RustMcp.SymbolNames
