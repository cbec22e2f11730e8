import Mathlib

/-! The Gregorian calendar from year 1 on: dates that exist, the day after a date, and
how many days lie between two dates. What counts one day for each tomorrow measures them. -/
namespace RustMcp.Calendar

def Leap (year : Nat) : Prop := year % 4 = 0 ∧ (year % 100 ≠ 0 ∨ year % 400 = 0)

instance (year : Nat) : Decidable (Leap year) := by unfold Leap; infer_instance

def daysIn (year month : Nat) : Nat :=
  if month = 2 then if Leap year then 29 else 28
  else if month = 4 ∨ month = 6 ∨ month = 9 ∨ month = 11 then 30
  else 31

theorem daysInBounds (year month : Nat) : 28 ≤ daysIn year month ∧ daysIn year month ≤ 31 := by
  unfold daysIn
  split_ifs <;> omega

structure IsDate (year month day : Nat) : Prop where
  years : 1 ≤ year
  months : 1 ≤ month ∧ month ≤ 12
  days : 1 ≤ day ∧ day ≤ daysIn year month

instance (year month day : Nat) : Decidable (IsDate year month day) :=
  decidable_of_iff (1 ≤ year ∧ (1 ≤ month ∧ month ≤ 12) ∧ 1 ≤ day ∧ day ≤ daysIn year month)
    ⟨fun ⟨years,months,days⟩ => ⟨years,months,days⟩,fun valid => ⟨valid.years,valid.months,valid.days⟩⟩

structure Date where
  year : Nat
  month : Nat
  day : Nat
  valid : IsDate year month day

theorem firstValid : IsDate 1 1 1 := by decide

def first : Date := ⟨1,1,1,firstValid⟩

theorem nextDayValid {year month day : Nat} (valid : IsDate year month day) (inside : day < daysIn year month) :
    IsDate year month (day + 1) :=
  ⟨valid.years,valid.months,by omega,inside⟩

theorem nextMonthValid {year month day : Nat} (valid : IsDate year month day) (more : month < 12) : IsDate year (month + 1) 1 := by
  have bounds := daysInBounds year (month + 1)
  exact ⟨valid.years,by omega,le_refl 1,by omega⟩

theorem nextYearValid (year : Nat) : IsDate (year + 1) 1 1 := by
  have bounds := daysInBounds (year + 1) 1
  exact ⟨by omega,by omega,le_refl 1,by omega⟩

def tomorrow (date : Date) : Date :=
  if inside : date.day < daysIn date.year date.month then ⟨date.year,date.month,date.day + 1,nextDayValid date.valid inside⟩
  else if more : date.month < 12 then ⟨date.year,date.month + 1,1,nextMonthValid date.valid more⟩
  else ⟨date.year + 1,1,1,nextYearValid date.year⟩

def after (days : Nat) (date : Date) : Date := tomorrow^[days] date

/-- `n` is how many days `b` is after `a`, and negative if it is before. -/
def DaysBetween (a b : Date) (n : Int) : Prop := ∃ k : Nat, (n = k ∧ after k a = b) ∨ (n = -k ∧ after k b = a)

/-! Every date is some number of days after the first. -/

theorem afterAfter (j k : Nat) (date : Date) : after j (after k date) = after (j + k) date :=
  (Function.iterate_add_apply tomorrow j k date).symm

/-- Numbers that are lower on the day before. -/
def place (date : Date) : Nat := 372 * date.year + 31 * date.month + date.day

theorem hasYesterday {date : Date} (later : date ≠ first) :
    ∃ yesterday, tomorrow yesterday = date ∧ place yesterday < place date := by
  obtain ⟨year,month,day,years,months,days⟩ := date
  by_cases opens : day = 1
  · subst opens
    by_cases january : month = 1
    · subst january
      have past : 1 < year := by
        by_contra early
        exact later (by rw [first,Date.mk.injEq]; omega)
      have december : daysIn (year - 1) 12 = 31 := rfl
      refine ⟨⟨year - 1,12,31,by omega,by omega,by omega,by omega⟩,?_,?_⟩
      · simp only [tomorrow,december,lt_irrefl,dite_false,Date.mk.injEq,and_true]
        omega
      · simp only [place]
        omega
    · have bounds := daysInBounds year (month - 1)
      refine ⟨⟨year,month - 1,daysIn year (month - 1),years,by omega,by omega,le_refl _⟩,?_,?_⟩
      · have more : month - 1 < 12 := by omega
        simp only [tomorrow,lt_irrefl,dite_false,more,dite_true,Date.mk.injEq,and_true,true_and]
        omega
      · simp only [place]
        omega
  · refine ⟨⟨year,month,day - 1,years,months,by omega,by omega⟩,?_,?_⟩
    · have inside : day - 1 < daysIn year month := by omega
      simp only [tomorrow,inside,dite_true,Date.mk.injEq,true_and]
      omega
    · simp only [place]
      omega

theorem afterFirst (date : Date) : ∃ k, after k first = date := by
  induction placed : place date using Nat.strong_induction_on generalizing date with
  | _ n ih =>
    by_cases start : date = first
    · exact ⟨0,start.symm⟩
    · obtain ⟨yesterday,next,lower⟩ := hasYesterday start
      obtain ⟨k,reached⟩ := ih _ (placed ▸ lower) yesterday rfl
      refine ⟨k + 1,?_⟩
      rw [after,Function.iterate_succ_apply',← after,reached,next]

/-- Of two dates, one is so many days after the other. -/
theorem connected (a b : Date) : ∃ k, after k a = b ∨ after k b = a := by
  obtain ⟨i,rfl⟩ := afterFirst a
  obtain ⟨j,rfl⟩ := afterFirst b
  rcases le_total i j with le | le
  · exact ⟨j - i,Or.inl (by rw [afterAfter,Nat.sub_add_cancel le])⟩
  · exact ⟨i - j,Or.inr (by rw [afterAfter,Nat.sub_add_cancel le])⟩

/-! Counts of days. -/

section
variable {count : Date → Int} (daily : ∀ date, count (tomorrow date) = count date + 1)
include daily

theorem countAfter (k : Nat) (date : Date) : count (after k date) = count date + k := by
  induction k with
  | zero => simp [after]
  | succ k ih =>
    rw [after,Function.iterate_succ_apply',← after,daily,ih]
    omega

theorem countInj {a b : Date} (same : count a = count b) : a = b := by
  obtain ⟨k,reached | reached⟩ := connected a b
  · have far := countAfter daily k a
    rw [reached] at far
    obtain rfl : k = 0 := by omega
    exact reached
  · have far := countAfter daily k b
    rw [reached] at far
    obtain rfl : k = 0 := by omega
    exact reached.symm

theorem daysCounted (a b : Date) (n : Int) : DaysBetween a b n ↔ n = count b - count a := by
  constructor
  · rintro ⟨k,⟨rfl,rfl⟩ | ⟨rfl,rfl⟩⟩
    · rw [countAfter daily]; omega
    · rw [countAfter daily]; omega
  · rintro rfl
    obtain ⟨k,rfl | rfl⟩ := connected a b
    · exact ⟨k,Or.inl ⟨by rw [countAfter daily]; omega,rfl⟩⟩
    · exact ⟨k,Or.inr ⟨by rw [countAfter daily]; omega,rfl⟩⟩

end
end RustMcp.Calendar
