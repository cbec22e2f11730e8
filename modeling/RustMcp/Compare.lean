import Mathlib.Algebra.Order.Ring.Rat
import Mathlib.Algebra.Order.Group.Abs
import Mathlib.Tactic.Linarith
import RustMcp.Str

/-! `crate_compare`: the score of one side and the recommendation between two. Scores are
exact rationals and the logarithm is a parameter; counts are `i64`. -/
namespace RustMcp.Compare
open Str (Text)

abbrev I64 := {n : Int // -2 ^ 63 ≤ n ∧ n < 2 ^ 63}

def saturatingAdd (a b : I64) : I64 := ⟨max (-2 ^ 63) (min (a.1 + b.1) (2 ^ 63 - 1)),by omega⟩

theorem saturatingAddMono {a b c : I64} (h : b.1 ≤ c.1) : (saturatingAdd a b).1 ≤ (saturatingAdd a c).1 := by
  simp only [saturatingAdd]
  omega

structure CrateCompareSide where
  crateName : Text
  selectedRustVersion : Option Text
  totalDownloads : I64
  dependentCrateCount : I64
  dependencyCount : I64
  featureCount : I64
  advisoryCount : I64
  advisoryUnknownCount : I64
  yanked : Bool
  maintenanceScore : ℚ

/-- `side` when `count` more advisories turn out to affect it. -/
def CrateCompareSide.withAdvisories (side : CrateCompareSide) (count : I64) : CrateCompareSide :=
  { side with advisoryCount := saturatingAdd side.advisoryCount count }

section
variable (log10 : ℚ → ℚ)

/-- The count as a score takes it: `count.max(0) as f64`. -/
def counted (count : I64) : ℚ := (max count.1 0 : Int)

def maintenanceScore (side : CrateCompareSide) : ℚ :=
  let downloadsScore := log10 (counted side.totalDownloads + 1) * 8
  let dependentsScore := log10 (counted side.dependentCrateCount + 1) * 10
  let dependenciesPenalty := counted side.dependencyCount * (15 / 100)
  let featuresBonus := min (counted side.featureCount) 20 * (2 / 10)
  let advisoriesPenalty := counted side.advisoryCount * 12
  let msrvBonus := if side.selectedRustVersion.isSome then 2 else 0
  let yankedPenalty := if side.yanked then 40 else 0
  max 0 (min (50 + downloadsScore + dependentsScore + featuresBonus + msrvBonus - dependenciesPenalty - advisoriesPenalty
    - yankedPenalty) 100)

def similarReason : Text := "both crates score similarly on available local signals".toList

def incompleteReason : Text := "advisory applicability is incomplete; scores exclude unknown advisories".toList

def withheldReason : Text := "recommendation withheld because unknown advisories could change the outcome".toList

def defaultReason : Text := "higher maintenance score on local index signals".toList

def winnerReasons (uncertain : Bool) (winner loser : CrateCompareSide) : List Text :=
  (if !uncertain && winner.advisoryCount.1 < loser.advisoryCount.1 then ["fewer confirmed affecting advisories".toList] else [])
  ++ (if !winner.yanked && loser.yanked then ["selected version is not yanked".toList] else [])
  ++ (if loser.totalDownloads.1 < winner.totalDownloads.1 then ["higher adoption by downloads".toList] else [])
  ++ (if loser.dependentCrateCount.1 < winner.dependentCrateCount.1 then ["higher ecosystem usage by dependents".toList] else [])
  ++ if winner.selectedRustVersion.isSome && loser.selectedRustVersion.isNone then ["declares MSRV metadata".toList] else []

def isUncertain (left right : CrateCompareSide) : Bool :=
  0 < left.advisoryUnknownCount.1 || 0 < right.advisoryUnknownCount.1

/-- What follows once the scores are far enough apart. -/
def recommendWinner (uncertain : Bool) (reasons : List Text) (winner loser : CrateCompareSide) : Option Text × List Text :=
  let worstWinner := winner.withAdvisories winner.advisoryUnknownCount
  if uncertain && maintenanceScore log10 worstWinner - loser.maintenanceScore < 3 then (none,reasons ++ [withheldReason])
  else
    let reasons := reasons ++ winnerReasons uncertain winner loser
    (some winner.crateName,(if reasons.isEmpty then [defaultReason] else reasons).take 3)

def compareRecommendation (left right : CrateCompareSide) : Option Text × List Text :=
  let uncertain := isUncertain left right
  let reasons := if uncertain then [incompleteReason] else []
  if |left.maintenanceScore - right.maintenanceScore| < 3 then (none,reasons ++ [similarReason])
  else if right.maintenanceScore < left.maintenanceScore then recommendWinner log10 uncertain reasons left right
  else recommendWinner log10 uncertain reasons right left

end

section
variable {log10 : ℚ → ℚ} {left right winner loser side : CrateCompareSide}

/-! What more advisories do to a score. -/

theorem countedMono {a b : I64} (h : a.1 ≤ b.1) : counted a ≤ counted b := by
  have ints : max a.1 0 ≤ max b.1 0 := max_le_max_right 0 h
  exact Int.cast_le.mpr ints

theorem scoreAntitone {a b : I64} (h : (saturatingAdd side.advisoryCount a).1 ≤ (saturatingAdd side.advisoryCount b).1) :
    maintenanceScore log10 (side.withAdvisories b) ≤ maintenanceScore log10 (side.withAdvisories a) := by
  have penalty := countedMono h
  simp only [maintenanceScore,CrateCompareSide.withAdvisories]
  apply max_le_max_left
  apply min_le_min_right
  apply sub_le_sub_right
  apply sub_le_sub_left
  exact mul_le_mul_of_nonneg_right penalty (by decide)

theorem withNone : side.withAdvisories ⟨0,by decide⟩ = side := by
  have range := side.advisoryCount.2
  have same : saturatingAdd side.advisoryCount ⟨0,by decide⟩ = side.advisoryCount := by
    apply Subtype.ext
    simp only [saturatingAdd]
    omega
  simp only [CrateCompareSide.withAdvisories,same]

theorem scoreMore {k : I64} (h : 0 ≤ k.1) :
    maintenanceScore log10 (side.withAdvisories k) ≤ maintenanceScore log10 side := by
  have more : maintenanceScore log10 (side.withAdvisories k) ≤ maintenanceScore log10 (side.withAdvisories ⟨0,by decide⟩) :=
    scoreAntitone (saturatingAddMono h)
  rwa [withNone] at more

/-- The number of unknown advisories of `side` that turn out to affect it. -/
def Outcome (side : CrateCompareSide) (count : I64) : Prop := 0 ≤ count.1 ∧ count.1 ≤ max side.advisoryUnknownCount.1 0

/-- With its unknown advisories all affecting it a side scores no better than in any outcome. -/
theorem scoreWorst {k : I64} (known : Outcome side k) (some_ : 0 < side.advisoryUnknownCount.1) :
    maintenanceScore log10 (side.withAdvisories side.advisoryUnknownCount) ≤ maintenanceScore log10 (side.withAdvisories k) := by
  apply scoreAntitone
  apply saturatingAddMono
  have := known.2
  omega

theorem outcomeNone {k : I64} (known : Outcome side k) (none_ : side.advisoryUnknownCount.1 ≤ 0) : k = ⟨0,by decide⟩ := by
  obtain ⟨low,high⟩ := known
  apply Subtype.ext
  change k.1 = 0
  omega

/-! The recommendation. -/

theorem isUncertainSwap (left right : CrateCompareSide) : isUncertain right left = isUncertain left right := Bool.or_comm _ _

theorem recommendedName {uncertain : Bool} {reasons : List Text} {name : Text}
    (named : (recommendWinner log10 uncertain reasons winner loser).1 = some name) :
    name = winner.crateName ∧ (uncertain = true →
      3 ≤ maintenanceScore log10 (winner.withAdvisories winner.advisoryUnknownCount) - loser.maintenanceScore) := by
  simp only [recommendWinner] at named
  split at named
  · contradiction
  · rename_i passes
    refine ⟨(Option.some.inj named).symm,fun doubt => ?_⟩
    simpa [doubt] using passes

/-- The one worst case that is tried bounds all outcomes of both sides. -/
theorem winnerLeads (gap : 3 ≤ winner.maintenanceScore - loser.maintenanceScore)
    (scoredWinner : winner.maintenanceScore = maintenanceScore log10 winner)
    (scoredLoser : loser.maintenanceScore = maintenanceScore log10 loser)
    (tried : 0 < winner.advisoryUnknownCount.1 →
      3 ≤ maintenanceScore log10 (winner.withAdvisories winner.advisoryUnknownCount) - loser.maintenanceScore)
    {k m : I64} (ofWinner : Outcome winner k) (ofLoser : Outcome loser m) :
    3 ≤ maintenanceScore log10 (winner.withAdvisories k) - maintenanceScore log10 (loser.withAdvisories m) := by
  have falls : maintenanceScore log10 (loser.withAdvisories m) ≤ loser.maintenanceScore := scoredLoser ▸ scoreMore ofLoser.1
  by_cases some_ : 0 < winner.advisoryUnknownCount.1
  · have worst : maintenanceScore log10 (winner.withAdvisories winner.advisoryUnknownCount) ≤
        maintenanceScore log10 (winner.withAdvisories k) := scoreWorst ofWinner some_
    linarith [tried some_]
  · rw [outcomeNone ofWinner (by omega),withNone]
    linarith

variable (log10) in
/-- Either nobody is named, or the code goes on with the side of the higher score. -/
theorem recommendationCases (left right : CrateCompareSide) :
    (compareRecommendation log10 left right).1 = none ∨
      ∃ winner loser, (winner = left ∧ loser = right ∨ winner = right ∧ loser = left) ∧
        3 ≤ winner.maintenanceScore - loser.maintenanceScore ∧
        compareRecommendation log10 left right = recommendWinner log10 (isUncertain winner loser)
          (if isUncertain left right then [incompleteReason] else []) winner loser := by
  simp only [compareRecommendation]
  split
  · exact .inl rfl
  rename_i apart
  rw [not_lt] at apart
  by_cases higher : right.maintenanceScore < left.maintenanceScore
  · rw [if_pos higher]
    rw [abs_of_pos (by linarith)] at apart
    exact .inr ⟨left,right,.inl ⟨rfl,rfl⟩,apart,rfl⟩
  · rw [if_neg higher]
    rw [abs_of_nonpos (by linarith)] at apart
    exact .inr ⟨right,left,.inr ⟨rfl,rfl⟩,by linarith,by rw [isUncertainSwap left right]⟩

theorem recommendationSwap (left right : CrateCompareSide) :
    compareRecommendation log10 right left = compareRecommendation log10 left right := by
  simp only [compareRecommendation,isUncertainSwap left right,abs_sub_comm right.maintenanceScore]
  split
  · rfl
  rename_i apart
  rcases lt_trichotomy left.maintenanceScore right.maintenanceScore with lower | same | higher
  · rw [if_pos lower,if_neg (not_lt.mpr lower.le)]
  · simp [same] at apart
  · rw [if_neg (not_lt.mpr higher.le),if_pos higher]

end

/-- A winner leads by three points however many unknown advisories of either side affect it, and it is
the same side when the two are exchanged. -/
theorem winnerLeadsInEveryOutcome (log10 : ℚ → ℚ) (left right : CrateCompareSide)
    (scoredLeft : left.maintenanceScore = maintenanceScore log10 left)
    (scoredRight : right.maintenanceScore = maintenanceScore log10 right) :
    (∀ name, (compareRecommendation log10 left right).1 = some name →
      ∃ winner loser, (winner = left ∧ loser = right ∨ winner = right ∧ loser = left) ∧
        loser.maintenanceScore < winner.maintenanceScore ∧ name = winner.crateName ∧
        ∀ k m, Outcome winner k → Outcome loser m →
          3 ≤ maintenanceScore log10 (winner.withAdvisories k) - maintenanceScore log10 (loser.withAdvisories m)) ∧
    compareRecommendation log10 right left = compareRecommendation log10 left right := by
  refine ⟨fun name named => ?_,recommendationSwap left right⟩
  obtain nobody | ⟨winner,loser,sides,gap,goesOn⟩ := recommendationCases log10 left right
  · rw [nobody] at named
    contradiction
  have scored : winner.maintenanceScore = maintenanceScore log10 winner ∧ loser.maintenanceScore = maintenanceScore log10 loser := by
    rcases sides with ⟨rfl,rfl⟩ | ⟨rfl,rfl⟩
    · exact ⟨scoredLeft,scoredRight⟩
    · exact ⟨scoredRight,scoredLeft⟩
  rw [goesOn] at named
  obtain ⟨isWinner,tried⟩ := recommendedName named
  refine ⟨winner,loser,sides,by linarith,isWinner,fun k m ofWinner ofLoser => ?_⟩
  refine winnerLeads gap scored.1 scored.2 (fun some_ => tried ?_) ofWinner ofLoser
  simp [isUncertain,some_]

def steadySide : CrateCompareSide :=
  ⟨"steady".toList,none,⟨0,by decide⟩,⟨0,by decide⟩,⟨0,by decide⟩,⟨0,by decide⟩,⟨0,by decide⟩,⟨1,by decide⟩,false,50⟩

def yankedSide : CrateCompareSide :=
  ⟨"yanked".toList,none,⟨0,by decide⟩,⟨0,by decide⟩,⟨0,by decide⟩,⟨0,by decide⟩,⟨0,by decide⟩,⟨0,by decide⟩,true,10⟩

theorem winnerLeadsInEveryOutcomeSteady :
    ∃ winner loser, (winner = yankedSide ∧ loser = steadySide ∨ winner = steadySide ∧ loser = yankedSide) ∧
      loser.maintenanceScore < winner.maintenanceScore ∧ "steady".toList = winner.crateName ∧
      ∀ k m, Outcome winner k → Outcome loser m →
        3 ≤ maintenanceScore (fun _ => 0) (winner.withAdvisories k) - maintenanceScore (fun _ => 0) (loser.withAdvisories m) :=
  (winnerLeadsInEveryOutcome (fun _ => 0) yankedSide steadySide (by decide +kernel) (by decide +kernel)).1 _ (by decide +kernel)

end RustMcp.Compare
