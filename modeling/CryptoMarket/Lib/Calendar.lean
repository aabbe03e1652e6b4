import CryptoMarket.Lib.Text
import Mathlib.Algebra.Ring.Nat

/-!
# Durations, instants and dates

What the programs use of the `chrono` crate: durations of whole milliseconds in an `i64`,
instants in a bounded range, and dates written with `%Y%m%d`. The bounds of the range and
the local date of an instant are the crate's and the time zone's (`Calendar`).

* `days_isSome_iff`: which numbers of days have a duration.
* `eightDigits_format_iff`: a date has eight digits exactly from year 0 to year 9999.
-/

namespace CryptoMarket

/-! ## Durations and instants -/

/-- `chrono::Duration` -/
structure Duration where
  millis : ℤ
  range : i64Min ≤ millis ∧ millis ≤ i64Max

/-- Milliseconds of a day. -/
def millisPerDay : ℤ := 86400000

/-- `Duration::days`: none where it panics. -/
def Duration.days (d : Int64) : Option Duration :=
  if h : i64Min ≤ d.toInt * millisPerDay ∧ d.toInt * millisPerDay ≤ i64Max then
    some ⟨d.toInt * millisPerDay, h⟩
  else none

/-- The most days a duration has. -/
def maxDays : ℤ := 106751991167

theorem Duration.days_eq_some {d : Int64} {duration : Duration} (h : Duration.days d = some duration) :
    duration.millis = d.toInt * millisPerDay := by
  unfold Duration.days at h
  split at h
  · rw [← Option.some.inj h]
  · exact absurd h (by simp)

/-- **The days of a duration** are bounded on both sides. -/
theorem Duration.days_isSome_iff {d : Int64} :
    (Duration.days d).isSome ↔ -maxDays ≤ d.toInt ∧ d.toInt ≤ maxDays := by
  have hrange : (i64Min ≤ d.toInt * millisPerDay ∧ d.toInt * millisPerDay ≤ i64Max) ↔
      -maxDays ≤ d.toInt ∧ d.toInt ≤ maxDays := by
    unfold i64Min i64Max millisPerDay maxDays
    omega
  rw [← hrange]
  unfold Duration.days
  split
  · next h => exact iff_of_true rfl h
  · next h => exact iff_of_false (by simp) h

/-- A date of the proleptic Gregorian calendar. -/
structure NaiveDate where
  year : ℤ
  month : ℕ
  day : ℕ
  month_range : 1 ≤ month ∧ month ≤ 12
  day_range : 1 ≤ day ∧ day ≤ 31

/-- The instants that can be represented, in nanoseconds, and their local dates. -/
structure Calendar where
  first : ℤ
  last : ℤ
  localDate : ℤ → NaiveDate

/-- `chrono::DateTime<Local>` -/
structure DateTime (calendar : Calendar) where
  nanos : ℤ
  range : calendar.first ≤ nanos ∧ nanos ≤ calendar.last

variable {calendar : Calendar}

/-- `DateTime - Duration`: none where it panics. -/
def DateTime.sub (t : DateTime calendar) (d : Duration) : Option (DateTime calendar) :=
  if h : calendar.first ≤ t.nanos - d.millis * 1000000 ∧
      t.nanos - d.millis * 1000000 ≤ calendar.last then
    some ⟨t.nanos - d.millis * 1000000, h⟩
  else none

/-- The local date of an instant. -/
def DateTime.date (t : DateTime calendar) : NaiveDate := calendar.localDate t.nanos

/-! ## Dates as texts -/

/-- Decimal digits, filled up with zeros in front. -/
def padded (width n : ℕ) : String := String.ofList ((Nat.toDigits 10 n).leftpad width '0')

/-- `%Y`: four digits up to year 9999, a sign and at least four digits otherwise. -/
def formatYear (year : ℤ) : String :=
  if 0 ≤ year ∧ year ≤ 9999 then padded 4 year.toNat
  else (if year < 0 then "-" else "+") ++ padded 4 year.natAbs

/-- `format("%Y%m%d")` -/
def NaiveDate.format (date : NaiveDate) : String :=
  formatYear date.year ++ padded 2 date.month ++ padded 2 date.day

example : (NaiveDate.mk 2022 7 5 (by decide) (by decide)).format = "20220705" := by decide

/-- Eight decimal digits. -/
def EightDigits (s : String) : Prop := s.length = 8 ∧ ∀ c ∈ s.toList, c.isDigit

theorem isDigit_of_mem_padded {width n : ℕ} {c : Char} (hc : c ∈ (padded width n).toList) :
    c.isDigit := by
  rw [padded, String.toList_ofList, List.leftpad, List.mem_append] at hc
  rcases hc with hzero | hdigit
  · rw [List.eq_of_mem_replicate hzero]
    decide
  · exact Nat.isDigit_of_mem_toDigits (by decide) (by decide) hdigit

theorem length_padded {width n : ℕ} (hwidth : 0 < width) (hn : n < 10 ^ width) :
    (padded width n).length = width := by
  have hdigits : (Nat.toDigits 10 n).length ≤ width :=
    (Nat.length_toDigits_le_iff (by decide) hwidth).2 hn
  rw [padded, String.length_ofList, List.length_leftpad]
  omega

theorem mem_format {date : NaiveDate} {c : Char} :
    c ∈ date.format.toList ↔ c ∈ (formatYear date.year).toList ∨ c ∈ (padded 2 date.month).toList ∨
      c ∈ (padded 2 date.day).toList := by
  simp only [NaiveDate.format, String.toList_append, List.mem_append, or_assoc]

/-- A date is written with digits and at most a sign. -/
theorem isDigit_or_sign_of_mem_format {date : NaiveDate} {c : Char} (hc : c ∈ date.format.toList) :
    c.isDigit ∨ c = '-' ∨ c = '+' := by
  rcases mem_format.1 hc with hyear | hmonth | hday
  · unfold formatYear at hyear
    split at hyear
    · exact Or.inl (isDigit_of_mem_padded hyear)
    · rw [String.toList_append, List.mem_append] at hyear
      rcases hyear with hsign | hdigit
      · right
        split at hsign
        · exact Or.inl (by simpa using hsign)
        · exact Or.inr (by simpa using hsign)
      · exact Or.inl (isDigit_of_mem_padded hdigit)
  · exact Or.inl (isDigit_of_mem_padded hmonth)
  · exact Or.inl (isDigit_of_mem_padded hday)

/-- **Eight digits** are the dates of the years with at most four. -/
theorem eightDigits_format_iff {date : NaiveDate} :
    EightDigits date.format ↔ 0 ≤ date.year ∧ date.year ≤ 9999 := by
  constructor
  · rintro ⟨-, hdigits⟩
    by_contra hyear
    -- otherwise the date begins with a sign
    have hsign : ∃ c, c ∈ (formatYear date.year).toList ∧ ¬ c.isDigit := by
      rw [formatYear, if_neg hyear]
      split
      · exact ⟨'-', by simp, by decide⟩
      · exact ⟨'+', by simp, by decide⟩
    obtain ⟨c, hc, hnot⟩ := hsign
    exact hnot (hdigits c (mem_format.2 (Or.inl hc)))
  · intro hyear
    have hformat : formatYear date.year = padded 4 date.year.toNat := if_pos hyear
    have hm := date.month_range
    have hd := date.day_range
    constructor
    · have h4 : (padded 4 date.year.toNat).length = 4 := length_padded (by decide) (by omega)
      have h2 : (padded 2 date.month).length = 2 := length_padded (by decide) (by omega)
      have h2' : (padded 2 date.day).length = 2 := length_padded (by decide) (by omega)
      simp only [NaiveDate.format, hformat, String.length_append, h4, h2, h2']
    · intro c hc
      rw [mem_format, hformat] at hc
      rcases hc with hc | hc | hc <;> exact isDigit_of_mem_padded hc

end CryptoMarket
