import XxAgent.Schedule.Domain

/-!
# The calendar

Days and their civil dates, in both directions, and the calendar fields of an instant. Fields that
are real name one instant, so that an instant can be written as its canonical text and read back.
-/

namespace XxAgent.Schedule

open Ecma

/-! ## Days -/

/-- The day of a civil date, counted from the epoch. -/
def daysFromCivil (year month day : ℤ) : ℤ :=
  let shiftedYear := if month ≤ 2 then year - 1 else year
  let yearOfEra := shiftedYear % 400
  let monthIndex := if 2 < month then month - 3 else month + 9
  let dayOfYear := (153 * monthIndex + 2) / 5 + day - 1
  shiftedYear / 400 * 146097 + (yearOfEra * 365 + yearOfEra / 4 - yearOfEra / 100 + dayOfYear)
    - 719468

/-- The year of a day of an era of four hundred years. -/
private def yearOfEra (dayOfEra : ℤ) : ℤ :=
  (dayOfEra - dayOfEra / 1460 + dayOfEra / 36524 - dayOfEra / 146096) / 365

private theorem yearOfEra_bounds {dayOfEra : ℤ} (hlow : 0 ≤ dayOfEra) (hhigh : dayOfEra < 146097) :
    0 ≤ yearOfEra dayOfEra ∧ yearOfEra dayOfEra < 400 := by
  rw [yearOfEra]
  omega

/-- The day of the year, which begins in March. -/
private def dayOfYear (dayOfEra : ℤ) : ℤ :=
  dayOfEra - (365 * yearOfEra dayOfEra + yearOfEra dayOfEra / 4 - yearOfEra dayOfEra / 100)

private theorem dayOfYear_bounds {dayOfEra : ℤ} (hlow : 0 ≤ dayOfEra) (hhigh : dayOfEra < 146097) :
    0 ≤ dayOfYear dayOfEra ∧ dayOfYear dayOfEra ≤ 365 := by
  obtain hlt | rfl : dayOfEra < 146096 ∨ dayOfEra = 146096 := by omega
  · -- Day `r` of a cycle of four years, which is `q` of century `f`.
    obtain ⟨f, q, r, rfl, hf, hq, hr⟩ : ∃ f q r : ℤ, dayOfEra = 36524 * f + 1461 * q + r ∧
        (0 ≤ f ∧ f < 4) ∧ (0 ≤ q ∧ 1461 * q + r < 36524) ∧ 0 ≤ r ∧ r < 1461 :=
      ⟨dayOfEra / 36524, dayOfEra % 36524 / 1461, dayOfEra % 36524 % 1461, by omega, by omega,
        by omega, by omega⟩
    obtain ⟨t, ht, hdrift⟩ : ∃ t : ℤ, (36524 * f + 1461 * q + r) / 1460 = 25 * f + q + t ∧
        (t = 0 ∨ t = 1 ∧ 1364 ≤ r) :=
      ⟨(24 * f + q + r) / 1460, by omega, by omega⟩
    have hcentury : (36524 * f + 1461 * q + r) / 36524 = f := by
      rw [Int.ediv_eq_iff_of_pos (by decide)]
      omega
    have hera : (36524 * f + 1461 * q + r) / 146096 = 0 := by
      rw [Int.ediv_eq_iff_of_pos (by decide)]
      omega
    obtain ⟨k, hk, hstart, hend, hk0, hk4⟩ : ∃ k : ℤ,
        yearOfEra (36524 * f + 1461 * q + r) = 100 * f + 4 * q + k ∧
          0 ≤ r - 365 * k ∧ r - 365 * k ≤ 365 ∧ 0 ≤ k ∧ k < 4 := by
      refine ⟨(r - t) / 365, ?_, by omega, by omega, by omega, by omega⟩
      rw [yearOfEra, ht, hcentury, hera]
      omega
    have hfour : (100 * f + 4 * q + k) / 4 = 25 * f + q := by omega
    have hhundred : (100 * f + 4 * q + k) / 100 = f := by omega
    rw [dayOfYear, hk, hfour, hhundred]
    omega
  · decide

/-- The civil date of a day, by the parts of its era. -/
private theorem civilOfDays_eq (days : ℤ) :
    civilOfDays days =
      let dayOfEra := (days + 719468) % 146097
      let monthIndex := (5 * dayOfYear dayOfEra + 2) / 153
      let month := if monthIndex < 10 then monthIndex + 3 else monthIndex - 9
      (yearOfEra dayOfEra + (days + 719468) / 146097 * 400 + (if month ≤ 2 then 1 else 0), month,
        dayOfYear dayOfEra - (153 * monthIndex + 2) / 5 + 1) := rfl

/-- **A day is the day of its date.** -/
theorem daysFromCivil_civilOfDays (days : ℤ) :
    daysFromCivil (civilOfDays days).1 (civilOfDays days).2.1 (civilOfDays days).2.2 = days := by
  have hlow : 0 ≤ (days + 719468) % 146097 := by omega
  have hhigh : (days + 719468) % 146097 < 146097 := by omega
  have hyear := yearOfEra_bounds hlow hhigh
  have hday := dayOfYear_bounds hlow hhigh
  have hsplit : days + 719468 = (days + 719468) / 146097 * 146097 + (days + 719468) % 146097 := by
    omega
  rw [civilOfDays_eq]
  dsimp only
  have hdef : dayOfYear ((days + 719468) % 146097) = (days + 719468) % 146097 -
      (365 * yearOfEra ((days + 719468) % 146097) + yearOfEra ((days + 719468) % 146097) / 4 -
        yearOfEra ((days + 719468) % 146097) / 100) := rfl
  generalize dayOfYear ((days + 719468) % 146097) = doy at *
  generalize yearOfEra ((days + 719468) % 146097) = yoe at *
  generalize (days + 719468) % 146097 = doe at *
  generalize (days + 719468) / 146097 = era at *
  have hindex : 0 ≤ (5 * doy + 2) / 153 ∧ (5 * doy + 2) / 153 < 12 := by omega
  have hdiv : (yoe + era * 400) / 400 = era := by omega
  have hmod : (yoe + era * 400) % 400 = yoe := by omega
  generalize (5 * doy + 2) / 153 = monthIndex at *
  rw [daysFromCivil]
  by_cases hmonth : monthIndex < 10
  · have hback : monthIndex + 3 - 3 = monthIndex := by omega
    rw [if_pos hmonth, if_neg (by omega), if_neg (by omega), if_pos (by omega), hback, Int.add_zero,
      hdiv, hmod]
    omega
  · have hback : monthIndex - 9 + 9 = monthIndex := by omega
    have hyears : yoe + era * 400 + 1 - 1 = yoe + era * 400 := by omega
    rw [if_neg hmonth, if_pos (by omega), if_pos (by omega), if_neg (by omega), hback, hyears, hdiv,
      hmod]
    omega

/-- The month of a date is one. -/
theorem month_civilOfDays (days : ℤ) :
    1 ≤ (civilOfDays days).2.1 ∧ (civilOfDays days).2.1 ≤ 12 := by
  have hlow : 0 ≤ (days + 719468) % 146097 := by omega
  have hhigh : (days + 719468) % 146097 < 146097 := by omega
  have hday := dayOfYear_bounds hlow hhigh
  rw [civilOfDays_eq]
  dsimp only
  split_ifs <;> omega

/-- The day of a date has two digits. -/
theorem day_civilOfDays (days : ℤ) :
    1 ≤ (civilOfDays days).2.2 ∧ (civilOfDays days).2.2 ≤ 31 := by
  have hlow : 0 ≤ (days + 719468) % 146097 := by omega
  have hhigh : (days + 719468) % 146097 < 146097 := by omega
  have hday := dayOfYear_bounds hlow hhigh
  rw [civilOfDays_eq]
  dsimp only
  omega

/-- The years of the representable days have four digits. -/
theorem year_civilOfDays {days : ℤ} (hfirst : -719162 ≤ days) (hlast : days ≤ 2932896) :
    1 ≤ (civilOfDays days).1 ∧ (civilOfDays days).1 ≤ 9999 := by
  have hlow : 0 ≤ (days + 719468) % 146097 := by omega
  have hhigh : (days + 719468) % 146097 < 146097 := by omega
  have hyear := yearOfEra_bounds hlow hhigh
  have hday := dayOfYear_bounds hlow hhigh
  have hdef : dayOfYear ((days + 719468) % 146097) = (days + 719468) % 146097 -
      (365 * yearOfEra ((days + 719468) % 146097) + yearOfEra ((days + 719468) % 146097) / 4 -
        yearOfEra ((days + 719468) % 146097) / 100) := rfl
  rw [civilOfDays_eq]
  dsimp only
  generalize dayOfYear ((days + 719468) % 146097) = doy at *
  generalize yearOfEra ((days + 719468) % 146097) = yoe at *
  constructor
  · split_ifs <;> omega
  · split_ifs <;> omega

/-! ## Calendar fields -/

structure CalendarParts where
  year : ℤ
  month : ℤ
  day : ℤ
  hour : ℤ
  minute : ℤ
  second : ℤ
  millisecond : ℤ
deriving DecidableEq

/-- The `getUTC` fields of an instant. -/
def calendarParts (epoch : ℤ) : CalendarParts :=
  let ms := epoch % 86400000
  let (year, month, day) := civilOfDays (epoch / 86400000)
  ⟨year, month, day, ms / 3600000, ms / 60000 % 60, ms / 1000 % 60, ms % 1000⟩

/-- The time value of fields; a month or a day outside its range runs over. -/
def makeEpoch (parts : CalendarParts) : ℤ :=
  (daysFromCivil (parts.year + (parts.month - 1) / 12) ((parts.month - 1) % 12 + 1) 1
    + (parts.day - 1)) * 86400000
    + (parts.hour * 3600000 + parts.minute * 60000 + parts.second * 1000 + parts.millisecond)

/-- Exact calendar fields as an epoch; fields that are normalized are refused. -/
def calendarEpoch (parts : CalendarParts) : Except ScheduleInputError ℤ :=
  let epoch := makeEpoch parts
  if ¬ (-8640000000000000 ≤ epoch ∧ epoch ≤ 8640000000000000) ∨ calendarParts epoch ≠ parts then
    .error ⟨.invalidRule, js "The at value must be a real ISO calendar date and time."⟩
  else .ok epoch

/-- **An instant is the instant of its fields.** -/
theorem makeEpoch_calendarParts (epoch : ℤ) : makeEpoch (calendarParts epoch) = epoch := by
  have hday := daysFromCivil_civilOfDays (epoch / 86400000)
  obtain ⟨hmonth, hmonth'⟩ := month_civilOfDays (epoch / 86400000)
  have hfirst (year month day : ℤ) :
      daysFromCivil year month 1 + (day - 1) = daysFromCivil year month day := by
    rw [daysFromCivil, daysFromCivil]
    omega
  rw [makeEpoch, calendarParts]
  dsimp only
  have hover : ((civilOfDays (epoch / 86400000)).2.1 - 1) / 12 = 0 := by omega
  have hin : ((civilOfDays (epoch / 86400000)).2.1 - 1) % 12 + 1
      = (civilOfDays (epoch / 86400000)).2.1 := by omega
  rw [hover, hin, Int.add_zero, hfirst, hday]
  omega

theorem calendarParts_injective {s t : ℤ} (h : calendarParts s = calendarParts t) : s = t := by
  rw [← makeEpoch_calendarParts s, h, makeEpoch_calendarParts]

/-- An instant that the calendar can represent. -/
def Representable (instant : ℤ) : Prop :=
  minFourDigitYearMs ≤ instant ∧ instant ≤ maxFourDigitYearMs

instance (instant : ℤ) : Decidable (Representable instant) :=
  inferInstanceAs (Decidable (_ ∧ _))

theorem calendarEpoch_calendarParts {instant : ℤ} (h : Representable instant) :
    calendarEpoch (calendarParts instant) = .ok instant := by
  rw [Representable, minFourDigitYearMs, maxFourDigitYearMs] at h
  rw [calendarEpoch, makeEpoch_calendarParts]
  refine if_neg ?_
  rw [not_or, not_not, not_not]
  exact ⟨by omega, rfl⟩

/-!
## Instants as texts

A target is stored as its canonical text and read back when it is due. The text of a representable
instant is that of no other.
-/

/-! ## Digits -/

theorem digitsValue_concat (s : JsString) (u : UInt16) :
    digitsValue (s ++ [u]) = 10 * digitsValue s + (u.toNat - 0x30) := by
  rw [digitsValue, List.foldl_concat, digitsValue]

theorem padded_succ (width : ℕ) (n : ℤ) :
    padded (width + 1) n = padded width (n / 10) ++ [digitUnit (n % 10).toNat] := by
  rw [padded, List.range_succ_eq_map, List.reverse_cons, List.map_append, ← List.map_reverse,
    List.map_map, padded]
  congr 1
  · refine List.map_congr_left fun place _ ↦ ?_
    rw [Function.comp_apply, pow_succ', Int.ediv_ediv_of_nonneg (by decide)]
  · simp

@[simp] theorem length_padded (width : ℕ) (n : ℤ) : (padded width n).length = width := by
  simp [padded]

/-- The digits of a number spell it. -/
theorem digitsValue_padded {width : ℕ} {n : ℤ} (hlow : 0 ≤ n) (hhigh : n < 10 ^ width) :
    (digitsValue (padded width n) : ℤ) = n := by
  induction width generalizing n with
  | zero =>
    obtain rfl : n = 0 := by omega
    rfl
  | succ width ih =>
    rw [pow_succ'] at hhigh
    have hrest := @ih (n / 10) (by omega) (by omega)
    have hdigit : (digitUnit (n % 10).toNat).toNat - 0x30 = (n % 10).toNat := by
      have hsmall : (n % 10).toNat < 10 := by omega
      generalize (n % 10).toNat = k at *
      interval_cases k <;> rfl
    rw [padded_succ, digitsValue_concat, hdigit]
    omega

/-! ## Reading an instant -/

/-- The number at a place of a text. -/
def digitsAt (text : JsString) (place width : ℕ) : ℤ := digitsValue ((text.drop place).take width)

theorem digitsAt_skip {front text : JsString} {place width : ℕ} (h : front.length ≤ place) :
    digitsAt (front ++ text) place width = digitsAt text (place - front.length) width := by
  rw [digitsAt, digitsAt, List.drop_append, List.drop_eq_nil_of_le h, List.nil_append]

theorem digitsAt_padded {back : JsString} {width : ℕ} {n : ℤ} (hlow : 0 ≤ n)
    (hhigh : n < 10 ^ width) : digitsAt (padded width n ++ back) 0 width = n := by
  have htake : (padded width n ++ back).take width = padded width n :=
    List.take_left' (length_padded width n)
  rw [digitsAt, List.drop_zero, htake, digitsValue_padded hlow hhigh]

/-- `Date.parse` of a text that has the canonical form. -/
def parseInstant (text : JsString) : ℤ :=
  makeEpoch ⟨digitsAt text 0 4, digitsAt text 5 2, digitsAt text 8 2, digitsAt text 11 2,
    digitsAt text 14 2, digitsAt text 17 2, digitsAt text 20 3⟩

/-- **The text of a representable instant reads back as it.** -/
theorem parseInstant_toISOString {instant : ℤ} (h : Representable instant) :
    parseInstant (toISOString instant) = instant := by
  rw [Representable, minFourDigitYearMs, maxFourDigitYearMs] at h
  obtain ⟨hyear, hyear'⟩ := @year_civilOfDays (instant / 86400000) (by omega) (by omega)
  obtain ⟨hmonth, hmonth'⟩ := month_civilOfDays (instant / 86400000)
  obtain ⟨hday, hday'⟩ := day_civilOfDays (instant / 86400000)
  have htext := makeEpoch_calendarParts instant
  rw [calendarParts] at htext
  dsimp only at htext
  rw [parseInstant, toISOString]
  dsimp only
  rw [yearText, if_pos ⟨by omega, hyear'⟩]
  generalize civilOfDays (instant / 86400000) = date at *
  obtain ⟨year, month, day⟩ := date
  dsimp only at hyear hyear' hmonth hmonth' hday hday' htext ⊢
  have hms : 0 ≤ instant % 86400000 ∧ instant % 86400000 < 86400000 := by omega
  generalize instant % 86400000 = ms at *
  have hmarks : (js "-").length = 1 ∧ (js "T").length = 1 ∧ (js ":").length = 1 ∧
      (js ".").length = 1 := ⟨rfl, rfl, rfl, rfl⟩
  obtain ⟨hdash, htime, hcolon, hdot⟩ := hmarks
  simp only [List.append_assoc]
  rw [← htext]
  congr 2
  · refine digitsAt_padded ?_ ?_ <;> omega
  all_goals
    repeat
      rw [digitsAt_skip (by simp only [length_padded, hdash, htime, hcolon, hdot]; decide)]
    simp only [length_padded, hdash, htime, hcolon, hdot]
    refine digitsAt_padded ?_ ?_ <;> omega

end XxAgent.Schedule
