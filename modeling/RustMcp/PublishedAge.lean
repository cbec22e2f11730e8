import RustMcp.Calendar
import RustMcp.Utf8Text

/-! The age of a crate version, from the text of its timestamp: a day count for a date
and one for the clock, and their difference. The clock is in seconds since 1970, or
`none` if it is set before. -/
namespace RustMcp.PublishedAge
open Str (Text)
open Calendar

/-! The count of days, in `i64` with divisions that cut towards zero. -/

def approxEpochDays (y m d : Int) : Int :=
  let mAdj := if m > 2 then m - 3 else m + 9
  let yAdj := if m > 2 then y else y - 1
  yAdj * 365 + yAdj.tdiv 4 - yAdj.tdiv 100 + yAdj.tdiv 400 + (mAdj * 306 + 5).tdiv 10 + d - 1

/-! The ten bytes of a date. -/

def parseDigits (text : Text) : Option Nat :=
  if text ≠ [] ∧ text.all Char.isDigit then some (Nat.ofDigitChars 10 text 0) else none

def parseI64 (text : Text) : Option Int :=
  let value : Option Int := match text with
    | '-'::digits => (parseDigits digits).map fun n => -(n : Int)
    | '+'::digits => (parseDigits digits).map Nat.cast
    | digits => (parseDigits digits).map Nat.cast
  value.filter fun n => -2 ^ 63 ≤ n && n < 2 ^ 63

def secondsPerDay : Nat := 86400

/-- The result is below `2 ^ 53`, hence the same as `f64`; so is no sum of ten digits too large for `i64`. -/
def daysSincePublished (now : Option Nat) (publishedAt : Option Text) : Option Int := do
  let ts ← publishedAt
  let datePart ← Utf8Text.sliceTo 10 ts
  let parts := Str.split "-".toList datePart
  let year ← parts[0]?.bind parseI64
  let month ← parts[1]?.bind parseI64
  let day ← parts[2]?.bind parseI64
  let publishedDays := approxEpochDays year month day
  let nowSecs ← now
  let nowDaysFromEpoch : Int := (nowSecs / secondsPerDay : Nat)
  let epochRataDie := approxEpochDays 1970 1 1
  let nowDays := epochRataDie + nowDaysFromEpoch
  return max (nowDays - publishedDays) 0

/-! Dates and timestamps, as the database writes them. -/

def pad (width n : Nat) : Text := List.replicate (width - (Nat.toDigits 10 n).length) '0' ++ Nat.toDigits 10 n

def dateText (date : Date) : Text := Str.join "-".toList [pad 4 date.year,pad 2 date.month,pad 2 date.day]

/-- `timestamptz` in UTC. -/
structure Timestamp where
  date : Date
  second : Nat
  fraction : Text
  seconds : second < secondsPerDay

/-- `YYYY-MM-DD hh:mm:ss.ffffff+00` -/
def Timestamp.text (ts : Timestamp) : Text :=
  dateText ts.date ++ ' '::(pad 2 (ts.second / 3600) ++ ':'::(pad 2 (ts.second / 60 % 60) ++ ':'::(pad 2 (ts.second % 60) ++
    ((if ts.fraction = [] then [] else '.'::ts.fraction) ++ "+00".toList))))

theorem epochValid : IsDate 1970 1 1 := by decide

def unixEpoch : Date := ⟨1970,1,1,epochValid⟩

/-- The date that the clock shows. -/
def today (now : Nat) : Date := after (now / secondsPerDay) unixEpoch

def NotFuture (ts : Timestamp) (now : Nat) : Prop :=
  ∃ k, after k ts.date = today now ∧ (k = 0 → ts.second ≤ now % secondsPerDay)

/-! The count goes up by one from day to day. -/

def epochDays (date : Date) : Int := approxEpochDays date.year date.month date.day

/-- How many years so far had a leap day. -/
def leapDays (y : Int) : Int := y.tdiv 4 - y.tdiv 100 + y.tdiv 400

theorem lateMonths {m : Int} (late : 2 < m) (y d : Int) :
    approxEpochDays y m d = y * 365 + leapDays y + ((m - 3) * 306 + 5) / 10 + d - 1 := by
  simp only [approxEpochDays,leapDays,gt_iff_lt,late,if_true]
  rw [Int.tdiv_eq_ediv_of_nonneg (a := (m - 3) * 306 + 5) (by omega)]
  omega

theorem earlyMonths {m : Int} (positive : 0 < m) (early : ¬ 2 < m) (y d : Int) :
    approxEpochDays y m d = (y - 1) * 365 + leapDays (y - 1) + ((m + 9) * 306 + 5) / 10 + d - 1 := by
  simp only [approxEpochDays,leapDays,gt_iff_lt,early,if_false]
  rw [Int.tdiv_eq_ediv_of_nonneg (a := (m + 9) * 306 + 5) (by omega)]
  omega

theorem leapDaysNext {y : Nat} (era : 1 ≤ y) : leapDays y = leapDays (y - 1) + if Leap y then 1 else 0 := by
  have now : 0 ≤ (y : Int) := by omega
  have before : 0 ≤ (y - 1 : Int) := by omega
  simp only [leapDays,Int.tdiv_eq_ediv_of_nonneg now,Int.tdiv_eq_ediv_of_nonneg before,Leap]
  split_ifs <;> omega

theorem nextMonth {y m : Nat} (era : 1 ≤ y) (month : 1 ≤ m) (more : m < 12) :
    approxEpochDays y (m + 1) 1 = approxEpochDays y m (daysIn y m) + 1 := by
  rcases lt_trichotomy m 2 with early | february | late
  · obtain rfl : m = 1 := by omega
    rw [earlyMonths (by omega) (by omega),earlyMonths (by omega) (by omega)]
    norm_num [daysIn]
    omega
  · subst february
    have last : daysIn y 2 = if Leap y then 29 else 28 := rfl
    rw [lateMonths (by omega),earlyMonths (by omega) (by omega),leapDaysNext era,last]
    norm_num
    split_ifs <;> omega
  · rw [lateMonths (by omega),lateMonths (by omega)]
    unfold daysIn
    interval_cases m <;> norm_num <;> omega

theorem nextYear (y : Int) : approxEpochDays (y + 1) 1 1 = approxEpochDays y 12 31 + 1 := by
  rw [earlyMonths (m := 1) (by omega) (by omega),lateMonths (m := 12) (by omega),add_sub_cancel_right]
  norm_num
  omega

theorem daily (date : Date) : epochDays (tomorrow date) = epochDays date + 1 := by
  obtain ⟨year,month,day,years,months,days⟩ := date
  have dayNext (y m d : Int) : approxEpochDays y m (d + 1) = approxEpochDays y m d + 1 := by
    simp only [approxEpochDays]
    omega
  unfold tomorrow epochDays
  by_cases inside : day < daysIn year month
  · simp only [inside,dite_true,Nat.cast_add,Nat.cast_one]
    exact dayNext _ _ _
  · obtain rfl : day = daysIn year month := by omega
    by_cases more : month < 12
    · simp only [lt_irrefl,dite_false,more,dite_true,Nat.cast_add,Nat.cast_one]
      exact nextMonth years months.1 more
    · obtain rfl : month = 12 := by omega
      simp only [lt_irrefl,dite_false,Nat.cast_add,Nat.cast_one]
      exact nextYear _

/-! A date of ten characters is read as it was written. -/

theorem padDigits {width n : Nat} {c : Char} (mem : c ∈ pad width n) : c.isDigit = true := by
  rcases List.mem_append.mp mem with zero | digit
  · obtain ⟨_,rfl⟩ := List.mem_replicate.mp zero
    rfl
  · exact Nat.isDigit_of_mem_toDigits (by decide) (by decide) digit

theorem padLength {width n : Nat} (some_ : 0 < width) (fits : n < 10 ^ width) : (pad width n).length = width := by
  have short : (Nat.toDigits 10 n).length ≤ width := (Nat.length_toDigits_le_iff (by decide) some_).mpr fits
  rw [pad,List.length_append,List.length_replicate]
  omega

theorem parsePad (width : Nat) {n : Nat} (small : n < 2 ^ 63) : parseI64 (pad width n) = some n := by
  have value : Nat.ofDigitChars 10 (pad width n) 0 = n := by
    rw [pad,Nat.ofDigitChars_append,Nat.ofDigitChars_replicate_zero,Nat.mul_zero,Nat.ofDigitChars_ten_toDigits]
  have some_ : pad width n ≠ [] := by simp [pad]
  have parsed : parseDigits (pad width n) = some n := by
    rw [parseDigits,if_pos ⟨some_,List.all_eq_true.mpr fun c mem => padDigits mem⟩,value]
  have bounded : (some (n : Int)).filter (fun n => -2 ^ 63 ≤ n && n < 2 ^ 63) = some (n : Int) := by
    rw [Option.filter_some,if_pos]
    simp only [Bool.and_eq_true,decide_eq_true_eq]
    omega
  unfold parseI64
  split
  · rename_i digits shape
    have digit := padDigits (shape ▸ List.mem_cons_self : '-' ∈ pad width n)
    cases digit
  · rename_i digits shape
    have digit := padDigits (shape ▸ List.mem_cons_self : '+' ∈ pad width n)
    cases digit
  · rw [parsed]
    exact bounded

theorem dateParts (date : Date) :
    Str.split "-".toList (dateText date) = [pad 4 date.year,pad 2 date.month,pad 2 date.day] := by
  refine Str.splitJoin '-' [] (by simp) fun part mem dash => ?_
  have digit : '-'.isDigit = true := by
    simp only [List.mem_cons,List.not_mem_nil,or_false] at mem
    rcases mem with rfl | rfl | rfl <;> exact padDigits dash
  cases digit

theorem digitSize {c : Char} (digit : c.isDigit = true) : c.utf8Size = 1 := by
  rw [Char.utf8Size_eq_one_iff,UInt32.le_iff_toNat_le]
  have upper : c.toNat ≤ 57 := by
    simp only [Char.isDigit,Bool.and_eq_true,decide_eq_true_eq] at digit
    exact UInt32.le_iff_toNat_le.mp digit.2
  exact upper.trans (by decide)

theorem padBytes {width n : Nat} (some_ : 0 < width) (fits : n < 10 ^ width) : Utf8Text.byteLength (pad width n) = width := by
  rw [Utf8Text.asciiLength fun c mem => digitSize (padDigits mem),padLength some_ fits]

theorem dateTenBytes {date : Date} (years : date.year ≤ 9999) : Utf8Text.byteLength (dateText date) = 10 := by
  have bounds := daysInBounds date.year date.month
  have months := date.valid.months
  have days := date.valid.days
  have year : Utf8Text.byteLength (pad 4 date.year) = 4 := padBytes (by decide) (by omega)
  have month : Utf8Text.byteLength (pad 2 date.month) = 2 := padBytes (by decide) (by omega)
  have day : Utf8Text.byteLength (pad 2 date.day) = 2 := padBytes (by decide) (by omega)
  have dash : Utf8Text.byteLength "-".toList = 1 := by decide
  rw [dateText,Str.joinCons,Str.joinCons,show Str.join "-".toList [pad 2 date.day] = pad 2 date.day by simp [Str.join]]
  simp only [Utf8Text.byteLengthAppend,year,month,day,dash]

theorem dateSlice (ts : Timestamp) (years : ts.date.year ≤ 9999) : Utf8Text.sliceTo 10 ts.text = some (dateText ts.date) :=
  Utf8Text.sliceToIff.mpr ⟨List.prefix_append _ _,dateTenBytes years⟩

theorem todayCount (now : Nat) : epochDays (today now) = epochDays unixEpoch + (now / secondsPerDay : Nat) :=
  countAfter daily (now / secondsPerDay) unixEpoch

/-- The difference of two day counts, unless the date is later than the clock's. -/
theorem publishedDays (ts : Timestamp) (years : ts.date.year ≤ 9999) (now : Nat) :
    daysSincePublished (some now) (some ts.text) = some (max (epochDays (today now) - epochDays ts.date) 0) := by
  have monthLt : ts.date.month < 2 ^ 63 := by have := ts.date.valid.months; omega
  have dayLt : ts.date.day < 2 ^ 63 := by have := ts.date.valid.days; have := daysInBounds ts.date.year ts.date.month; omega
  rw [todayCount]
  simp only [daysSincePublished,Option.bind_eq_bind,Option.bind_some,dateSlice ts years,dateParts,List.getElem?_cons_zero,
    List.getElem?_cons_succ,parsePad 4 (by omega : ts.date.year < 2 ^ 63),parsePad 2 monthLt,parsePad 2 dayLt,epochDays]
  rfl

theorem ageInDays :
    (∀ (a b : Date) (n : Int), DaysBetween a b n ↔ n = epochDays b - epochDays a) ∧
    ∀ (ts : Timestamp) (now : Nat), ts.date.year ≤ 9999 → NotFuture ts now →
      ∃ n, daysSincePublished (some now) (some ts.text) = some n ∧ DaysBetween ts.date (today now) n := by
  refine ⟨daysCounted daily,fun ts now years notFuture => ?_⟩
  obtain ⟨k,reached,_⟩ := notFuture
  have far := countAfter daily k ts.date
  rw [reached] at far
  refine ⟨_,publishedDays ts years now,(daysCounted daily _ _ _).mpr ?_⟩
  omega

theorem secondDayValid : IsDate 1970 1 2 := by decide

theorem noon : 43200 < secondsPerDay := by decide

def secondDayNoon : Timestamp := ⟨⟨1970,1,2,secondDayValid⟩,43200,[],noon⟩

/-- Seen two days later; and a leap day between two dates. -/
theorem ageInDaysTwo :
    DaysBetween ⟨2000,2,28,by decide⟩ ⟨2000,3,1,by decide⟩ 2 ∧
    ∃ n, daysSincePublished (some 259200) (some secondDayNoon.text) = some n ∧ DaysBetween secondDayNoon.date (today 259200) n := by
  refine ⟨(ageInDays.1 _ _ _).mpr (by decide),?_⟩
  exact ageInDays.2 secondDayNoon 259200 (by decide) ⟨2,rfl,by decide⟩

theorem fiveDigitsValid : IsDate 10000 1 15 := by decide

theorem midnight : 0 < secondsPerDay := by decide

def fiveDigits : Timestamp := ⟨⟨10000,1,15,fiveDigitsValid⟩,0,[],midnight⟩

theorem januaryValid : IsDate 2024 1 15 := by decide

theorem elevenPm : 82800 < secondsPerDay := by decide

def lateEvening : Timestamp := ⟨⟨2024,1,15,januaryValid⟩,82800,[],elevenPm⟩

/-- Ten bytes keep one digit of the day. -/
theorem fiveDigitsRead (now : Nat) : daysSincePublished (some now) (some fiveDigits.text) =
    some (max (epochDays (today now) - approxEpochDays 10000 1 1) 0) := by
  have cut : Utf8Text.sliceTo 10 fiveDigits.text = some "10000-01-1".toList := Utf8Text.sliceToIff.mpr ⟨by decide,by decide⟩
  have parts : Str.split "-".toList "10000-01-1".toList = ["10000".toList,"01".toList,"1".toList] := by decide
  have year : parseI64 "10000".toList = some 10000 := by decide
  have month : parseI64 "01".toList = some 1 := by decide
  have day : parseI64 "1".toList = some 1 := by decide
  rw [todayCount]
  simp only [daysSincePublished,Option.bind_eq_bind,Option.bind_some,cut,parts,List.getElem?_cons_zero,List.getElem?_cons_succ,
    year,month,day]
  rfl

/-- Seen on its own day; and an hour after a midnight, one hour after which it is a day old. -/
theorem ageNotExact :
    (¬ ∀ (ts : Timestamp) (now : Nat), NotFuture ts now →
      ∃ n, daysSincePublished (some now) (some ts.text) = some n ∧ DaysBetween ts.date (today now) n) ∧
    ¬ ∀ (ts : Timestamp) (now : Nat) (days : Int), DaysBetween unixEpoch ts.date days → days * secondsPerDay + ts.second ≤ now →
      daysSincePublished (some now) (some ts.text) = some ((now - (days * secondsPerDay + ts.second)) / secondsPerDay) := by
  constructor
  · intro exact_
    have same : after 0 fiveDigits.date = today 253403510400 := countInj daily (by rw [todayCount]; decide)
    obtain ⟨n,read,between⟩ := exact_ fiveDigits 253403510400 ⟨0,same,by decide⟩
    have fourteen : max (epochDays (after 0 fiveDigits.date) - approxEpochDays 10000 1 1) 0 = 14 := by decide
    rw [fiveDigitsRead,← same,fourteen] at read
    rw [daysCounted daily,← same,after,Function.iterate_zero,id,sub_self] at between
    rw [between] at read
    exact absurd (Option.some.inj read) (by decide)
  · intro exact_
    have elapsed := exact_ lateEvening 1705366800 19737 ((daysCounted daily _ _ _).mpr (by decide)) (by decide)
    rw [publishedDays lateEvening (by decide),todayCount] at elapsed
    exact absurd elapsed (by decide)

end RustMcp.PublishedAge
