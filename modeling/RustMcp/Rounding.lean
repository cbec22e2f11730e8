import Mathlib

/-! Binary floating point above zero: a rational number is rounded to the nearest one
of `p` significant bits, ties to the even one. Exponents have no bounds, so nothing
overflows and nothing is subnormal. -/
namespace RustMcp.Rounding

/-! Nearest integers. -/

def roundEven (q : ℚ) : ℤ :=
  if q - ⌊q⌋ < 1 / 2 ∨ (q - ⌊q⌋ = 1 / 2 ∧ ⌊q⌋ % 2 = 0) then ⌊q⌋ else ⌊q⌋ + 1

theorem roundEvenNear (q : ℚ) : q - 1 / 2 ≤ roundEven q ∧ roundEven q ≤ q + 1 / 2 := by
  have le := Int.floor_le q
  have lt := Int.lt_floor_add_one q
  unfold roundEven
  split
  · rename_i down
    rcases down with below | ⟨tie,_⟩ <;> constructor <;> linarith
  · rename_i up
    push Not at up
    push_cast
    constructor <;> linarith [up.1]

theorem leRoundEven {n : ℤ} {q : ℚ} (le : n ≤ q) : n ≤ roundEven q := by
  have near := (roundEvenNear q).1
  by_contra less
  have apart : (roundEven q : ℚ) + 1 ≤ n := by exact_mod_cast not_le.mp less
  linarith

theorem roundEvenLe {n : ℤ} {q : ℚ} (le : q ≤ n) : roundEven q ≤ n := by
  have near := (roundEvenNear q).2
  by_contra less
  have apart : (n : ℚ) + 1 ≤ roundEven q := by exact_mod_cast not_le.mp less
  linarith

theorem roundEvenInt (n : ℤ) : roundEven n = n := le_antisymm (roundEvenLe le_rfl) (leRoundEven le_rfl)

theorem roundEvenMono {q r : ℚ} (le : q ≤ r) : roundEven q ≤ roundEven r := by
  rcases le.eq_or_lt with rfl | lt
  · exact le_rfl
  · have above := (roundEvenNear q).2
    have below := (roundEvenNear r).1
    have apart : (roundEven q : ℚ) < roundEven r + 1 := by linarith
    exact Int.lt_add_one_iff.mp (by exact_mod_cast apart)

/-- A tie goes up to an even number. -/
theorem evenAtLeast {n : ℤ} (even : n % 2 = 0) {q : ℚ} : n ≤ roundEven q ↔ (n : ℚ) - 1 / 2 ≤ q := by
  constructor
  · intro le
    have near := (roundEvenNear q).2
    have cast : (n : ℚ) ≤ roundEven q := by exact_mod_cast le
    linarith
  · intro le
    by_contra less
    have under : (roundEven q : ℚ) ≤ n - 1 := by exact_mod_cast Int.le_sub_one_iff.mpr (not_le.mp less)
    have near := (roundEvenNear q).1
    have tie : q = n - 1 / 2 := by linarith
    have floor : ⌊q⌋ = n - 1 := by
      rw [Int.floor_eq_iff,tie]
      push_cast
      constructor <;> linarith
    have up : roundEven q = n := by
      rw [roundEven,floor,if_neg]
      · omega
      · rw [tie]
        push_cast
        rintro (low | ⟨_,odd⟩)
        · linarith
        · omega
    omega

/-! Nearest numbers of `p` bits. -/

def ulp (p : ℕ) (x : ℚ) : ℚ := 2 ^ (Int.log 2 x + 1 - p)

def nearest (p : ℕ) (x : ℚ) : ℚ := roundEven (x / ulp p x) * ulp p x

section
variable {p : ℕ} {x y : ℚ}

theorem ulpPos : 0 < ulp p x := by
  unfold ulp
  positivity

theorem zpowSplit (a b : ℤ) : (2 : ℚ) ^ (a + b) = 2 ^ a * 2 ^ b := zpow_add₀ (by norm_num) a b

theorem nearestZero : nearest p 0 = 0 := by
  have zero := roundEvenInt 0
  rw [Int.cast_zero] at zero
  rw [nearest,zero_div,zero,Int.cast_zero,zero_mul]

theorem logLe (pos : 0 < x) : (2 : ℚ) ^ Int.log 2 x ≤ x := by
  exact_mod_cast Int.zpow_log_le_self (b := 2) (by norm_num) pos

theorem ltLog : x < (2 : ℚ) ^ (Int.log 2 x + 1) := by
  exact_mod_cast Int.lt_zpow_succ_log_self (b := 2) (by norm_num) x

/-- The bounds of a binade are numbers of `p` bits. -/
theorem ulpPower (some_ : 0 < p) (e : ℤ) (from_ : Int.log 2 x ≤ e) : ∃ n : ℤ, (2 : ℚ) ^ e = n * ulp p x := by
  obtain ⟨k,shape⟩ : ∃ k : ℕ, e = k + (Int.log 2 x + 1 - p) := ⟨(e - (Int.log 2 x + 1 - p)).toNat,by omega⟩
  refine ⟨2 ^ k,?_⟩
  rw [ulp,shape,zpowSplit,zpow_natCast]
  push_cast
  rfl

theorem nearestFloor (some_ : 0 < p) (pos : 0 < x) : 2 ^ Int.log 2 x ≤ nearest p x := by
  obtain ⟨n,power⟩ := ulpPower (p := p) (x := x) some_ _ le_rfl
  have le : (n : ℚ) ≤ x / ulp p x := by
    rw [le_div_iff₀ ulpPos,← power]
    exact logLe pos
  rw [power,nearest]
  exact mul_le_mul_of_nonneg_right (by exact_mod_cast leRoundEven le) ulpPos.le

theorem nearestCeil (some_ : 0 < p) : nearest p x ≤ 2 ^ (Int.log 2 x + 1) := by
  obtain ⟨n,power⟩ := ulpPower (p := p) (x := x) some_ (Int.log 2 x + 1) (by omega)
  have le : x / ulp p x ≤ n := by
    rw [div_le_iff₀ ulpPos,← power]
    exact ltLog.le
  rw [power,nearest]
  exact mul_le_mul_of_nonneg_right (by exact_mod_cast roundEvenLe le) ulpPos.le

theorem nearestMono (some_ : 0 < p) (nonneg : 0 ≤ x) (le : x ≤ y) : nearest p x ≤ nearest p y := by
  rcases nonneg.eq_or_lt with rfl | pos
  · rw [nearestZero]
    rcases le.eq_or_lt with rfl | pos
    · rw [nearestZero]
    · exact (zpow_pos (by norm_num) _).le.trans (nearestFloor some_ pos)
  · rcases (Int.log_mono_right (b := 2) pos le).eq_or_lt with same | apart
    · have units : ulp p x = ulp p y := by rw [ulp,ulp,same]
      rw [nearest,nearest,units]
      refine mul_le_mul_of_nonneg_right ?_ ulpPos.le
      exact_mod_cast roundEvenMono (div_le_div_of_nonneg_right le ulpPos.le)
    · calc nearest p x ≤ 2 ^ (Int.log 2 x + 1) := nearestCeil some_
        _ ≤ 2 ^ Int.log 2 y := zpow_le_zpow_right₀ (by norm_num) (by omega)
        _ ≤ nearest p y := nearestFloor some_ (pos.trans_le le)

/-! Numbers of `p` bits. -/

theorem nearestExact (some_ : 0 < p) {m : ℕ} (bits : m ≤ 2 ^ p) (k : ℤ) : nearest p (m * 2 ^ k) = m * 2 ^ k := by
  rcases Nat.eq_zero_or_pos m with rfl | positive
  · rw [Nat.cast_zero,zero_mul,nearestZero]
  · have pos : (0 : ℚ) < m * 2 ^ k := mul_pos (by exact_mod_cast positive) (zpow_pos (by norm_num) k)
    have power : (2 : ℚ) ^ Int.log 2 ((m : ℚ) * 2 ^ k) ≤ 2 ^ (p + k) := by
      refine (logLe pos).trans ?_
      rw [zpowSplit,zpow_natCast]
      exact mul_le_mul_of_nonneg_right (by exact_mod_cast bits) (zpow_pos (by norm_num) k).le
    have top : Int.log 2 ((m : ℚ) * 2 ^ k) ≤ p + k := (zpow_le_zpow_iff_right₀ (by norm_num)).mp power
    rcases top.eq_or_lt with same | inside
    · -- only `2 ^ p` itself reaches this binade
      have whole : (m : ℚ) * 2 ^ k = 2 ^ Int.log 2 ((m : ℚ) * 2 ^ k) := by
        refine le_antisymm ?_ (logLe pos)
        rw [same,zpowSplit,zpow_natCast]
        exact mul_le_mul_of_nonneg_right (by exact_mod_cast bits) (zpow_pos (by norm_num) k).le
      obtain ⟨n,units⟩ := ulpPower (p := p) (x := m * 2 ^ k) some_ _ le_rfl
      rw [← whole] at units
      rw [nearest,(div_eq_iff ulpPos.ne').mpr units,roundEvenInt,← units]
    · obtain ⟨j,shape⟩ : ∃ j : ℕ, k = j + (Int.log 2 ((m : ℚ) * 2 ^ k) + 1 - p) :=
        ⟨(k - (Int.log 2 ((m : ℚ) * 2 ^ k) + 1 - p)).toNat,by omega⟩
      have units : (m : ℚ) * 2 ^ k = ((m * 2 ^ j : ℤ) : ℚ) * ulp p (m * 2 ^ k) := by
        have split_ : (2 : ℚ) ^ k = 2 ^ j * ulp p (m * 2 ^ k) := by
          rw [ulp,← zpow_natCast,← zpowSplit,← shape]
        push_cast
        rw [mul_assoc,← split_]
      rw [nearest,(div_eq_iff ulpPos.ne').mpr units,roundEvenInt,← units]

theorem nearestForm (nonneg : 0 ≤ x) : ∃ m : ℕ, m ≤ 2 ^ p ∧ ∃ k : ℤ, nearest p x = m * 2 ^ k := by
  rcases nonneg.eq_or_lt with rfl | pos
  · exact ⟨0,by positivity,0,by rw [nearestZero,Nat.cast_zero,zero_mul]⟩
  · have bound : x / ulp p x ≤ ((2 ^ p : ℤ) : ℚ) := by
      rw [div_le_iff₀ ulpPos,ulp]
      push_cast
      rw [← zpow_natCast,← zpowSplit,show (p : ℤ) + (Int.log 2 x + 1 - p) = Int.log 2 x + 1 by ring]
      exact ltLog.le
    have low : (0 : ℤ) ≤ roundEven (x / ulp p x) := leRoundEven (by push_cast; exact div_nonneg nonneg ulpPos.le)
    have high : roundEven (x / ulp p x) ≤ 2 ^ p := roundEvenLe bound
    obtain ⟨m,same⟩ := Int.eq_ofNat_of_zero_le low
    refine ⟨m,?_,Int.log 2 x + 1 - p,?_⟩
    · rw [same] at high
      exact_mod_cast high
    · rw [nearest,same,ulp]
      rfl

theorem nearestPower (some_ : 0 < p) (nonneg : 0 ≤ x) (k : ℤ) : nearest p (nearest p x * 2 ^ k) = nearest p x * 2 ^ k := by
  obtain ⟨m,bits,e,form⟩ := nearestForm (p := p) nonneg
  rw [form,mul_assoc,← zpowSplit,nearestExact some_ bits]

/-- An even number of `p` bits is reached from half a unit below. -/
theorem nearestAtLeast {m : ℕ} (even : m % 2 = 0) (full : 2 ^ (p - 1) < m) (bits : m ≤ 2 ^ p) (some_ : 0 < p) (k : ℤ)
    (nonneg : 0 ≤ x) : m * 2 ^ k ≤ nearest p x ↔ ((m : ℚ) - 1 / 2) * 2 ^ k ≤ x := by
  have unit : (0 : ℚ) < 2 ^ k := zpow_pos (by norm_num) k
  have low : (2 : ℚ) ^ (k + p - 1) = 2 ^ (p - 1) * 2 ^ k := by
    rw [show k + p - 1 = ((p - 1 : ℕ) : ℤ) + k by omega,zpowSplit,zpow_natCast]
  have high : (2 : ℚ) ^ (k + p - 1 + 1) = 2 ^ p * 2 ^ k := by
    rw [show k + p - 1 + 1 = (p : ℤ) + k by omega,zpowSplit,zpow_natCast]
  have above : ((2 : ℚ) ^ (p - 1) + 1) * 2 ^ k ≤ m * 2 ^ k := mul_le_mul_of_nonneg_right (by exact_mod_cast full) unit.le
  have below : (m : ℚ) * 2 ^ k ≤ 2 ^ p * 2 ^ k := mul_le_mul_of_nonneg_right (by exact_mod_cast bits) unit.le
  rcases nonneg.eq_or_lt with rfl | pos
  · have lowPos : (0 : ℚ) < 2 ^ (p - 1) * 2 ^ k := by positivity
    rw [nearestZero]
    exact iff_of_false (by linarith) (by linarith)
  · rcases lt_trichotomy (Int.log 2 x) (k + p - 1) with small | here | large
    · have under : x < 2 ^ (k + p - 1) := ltLog.trans_le (zpow_le_zpow_right₀ (by norm_num) (by omega))
      have under' : nearest p x ≤ 2 ^ (k + p - 1) := (nearestCeil some_).trans (zpow_le_zpow_right₀ (by norm_num) (by omega))
      rw [low] at under under'
      exact iff_of_false (by linarith) (by linarith)
    · have same : ulp p x = 2 ^ k := by rw [ulp,here]; congr 1; omega
      rw [nearest,same,mul_le_mul_iff_left₀ unit,← le_div_iff₀ unit]
      exact_mod_cast evenAtLeast (n := (m : ℤ)) (by omega) (q := x / 2 ^ k)
    · have beyond : 2 ^ (k + p - 1 + 1) ≤ x := (zpow_le_zpow_right₀ (by norm_num) (by omega)).trans (logLe pos)
      have beyond' : 2 ^ (k + p - 1 + 1) ≤ nearest p x :=
        (zpow_le_zpow_right₀ (by norm_num) (by omega)).trans (nearestFloor some_ pos)
      rw [high] at beyond beyond'
      exact iff_of_true (by linarith) (by linarith)

end
end RustMcp.Rounding
