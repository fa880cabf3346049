import BucketVcs.Lib.Decimal
import BucketVcs.Lib.Scan

/-! Days of the Gregorian calendar and moments within them, how they are written and read back. -/

namespace Calendar

open Decimal List Scan

def isLeap (year : ℤ) : Bool := year % 4 = 0 ∧ (year % 100 ≠ 0 ∨ year % 400 = 0)

def daysIn (year : ℤ) (month : ℕ) : ℕ :=
  if month = 2 then if isLeap year then 29 else 28
  else if month = 4 ∨ month = 6 ∨ month = 9 ∨ month = 11 then 30
  else 31

theorem daysIn_le (year : ℤ) (month : ℕ) : daysIn year month ≤ 31 := by
  unfold daysIn
  split
  · split <;> decide
  · split <;> decide

@[ext]
structure Date where
  year : ℤ
  month : ℕ
  day : ℕ
  month_pos : 1 ≤ month
  month_le : month ≤ 12
  day_pos : 1 ≤ day
  day_le : day ≤ daysIn year month
  deriving DecidableEq, Repr

namespace Date

variable {date other : Date}

theorem day_le_31 (date : Date) : date.day ≤ 31 := date.day_le.trans (daysIn_le _ _)

def of (year : ℤ) (month day : ℕ) : Option Date :=
  if real : (1 ≤ month ∧ month ≤ 12) ∧ 1 ≤ day ∧ day ≤ daysIn year month then
    some ⟨year, month, day, real.1.1, real.1.2, real.2.1, real.2.2⟩
  else none

@[simp] theorem of_numbers (date : Date) : of date.year date.month date.day = some date := by
  rw [of, dif_pos ⟨⟨date.month_pos, date.month_le⟩, date.day_pos, date.day_le⟩]

def Short (date : Date) : Prop := 0 ≤ date.year ∧ date.year ≤ 9999

instance (date : Date) : Decidable date.Short := inferInstanceAs (Decidable (_ ∧ _))

end Date

def yearText (year : ℤ) : List Char :=
  if year < 0 then '-' :: padded 4 year.natAbs else padded 4 year.toNat

theorem yearText_of_short {date : Date} (short : date.Short) :
    yearText date.year = fixed 4 date.year.toNat := by
  rw [yearText, if_neg (by have := short.1; omega), padded_eq_fixed]
  have := short.2
  omega

theorem scan_fixed (width n : ℕ) (rest : List Char) :
    exactly width Char.isDigit (fixed width n ++ rest) = some (fixed width n, rest) :=
  exactly_append (length_fixed width n) (fun _ mem => isDigit_of_mem_fixed mem) rest

namespace Date

variable {date other : Date}

def format (sep : List Char) (date : Date) : List Char :=
  yearText date.year ++ sep ++ fixed 2 date.month ++ sep ++ fixed 2 date.day

theorem format_of_short (short : date.Short) (sep : List Char) :
    date.format sep =
      fixed 4 date.year.toNat ++ (sep ++ (fixed 2 date.month ++ (sep ++ fixed 2 date.day))) := by
  simp [format, yearText_of_short short]

theorem length_format (short : date.Short) (sep : List Char) :
    (date.format sep).length = 8 + 2 * sep.length := by
  simp only [format_of_short short, length_append, length_fixed]
  omega

theorem format_injective (sep : List Char) (short : date.Short) (short' : other.Short)
    (same : date.format sep = other.format sep) : date = other := by
  have years := short.1
  have years' := short'.1
  have bound := short.2
  have bound' := short'.2
  have months := date.month_le
  have months' := other.month_le
  have days := date.day_le_31
  have days' := other.day_le_31
  rw [format_of_short short, format_of_short short'] at same
  obtain ⟨year, same⟩ := append_inj same (by simp)
  obtain ⟨month, same⟩ := append_inj (append_cancel_left same) (by simp)
  have sameYear := fixed_injective (by omega) (by omega) year
  have sameMonth := fixed_injective (by omega) (by omega) month
  have sameDay := fixed_injective (by omega) (by omega) (append_cancel_left same)
  exact Date.ext (by omega) sameMonth sameDay

def scan (sep text : List Char) : Option (Date × List Char) := do
  let (year, text) ← Scan.exactly 4 Char.isDigit text
  let text ← Scan.literal sep text
  let (month, text) ← Scan.exactly 2 Char.isDigit text
  let text ← Scan.literal sep text
  let (day, text) ← Scan.exactly 2 Char.isDigit text
  let date ← of (value year) (value month) (value day)
  return (date, text)

theorem scan_format (short : date.Short) (sep rest : List Char) :
    scan sep (date.format sep ++ rest) = some (date, rest) := by
  have year : (value (fixed 4 date.year.toNat) : ℤ) = date.year := by
    have := short.1
    have := short.2
    rw [value_fixed (by omega)]
    omega
  have month : value (fixed 2 date.month) = date.month :=
    value_fixed (by have := date.month_le; omega)
  have day : value (fixed 2 date.day) = date.day :=
    value_fixed (by have := date.day_le_31; omega)
  simp only [format_of_short short]
  simp [scan, scan_fixed, literal_append, year, month, day]

end Date

@[ext]
structure Moment where
  date : Date
  hour : ℕ
  minute : ℕ
  second : ℕ
  hour_lt : hour < 24
  minute_lt : minute < 60
  second_lt : second < 60
  deriving DecidableEq, Repr

namespace Moment

variable {moment other : Moment}

def of (date : Date) (hour minute second : ℕ) : Option Moment :=
  if real : hour < 24 ∧ minute < 60 ∧ second < 60 then
    some ⟨date, hour, minute, second, real.1, real.2.1, real.2.2⟩
  else none

@[simp] theorem of_numbers (moment : Moment) :
    of moment.date moment.hour moment.minute moment.second = some moment := by
  rw [of, dif_pos ⟨moment.hour_lt, moment.minute_lt, moment.second_lt⟩]

def clock (moment : Moment) : List Char :=
  fixed 2 moment.hour ++ fixed 2 moment.minute ++ fixed 2 moment.second

def stamp (moment : Moment) : List Char := moment.date.format [] ++ 'T' :: moment.clock

@[simp] theorem length_clock (moment : Moment) : moment.clock.length = 6 := by simp [clock]

theorem isDigit_of_mem_clock {c : Char} (mem : c ∈ moment.clock) : c.isDigit = true := by
  simp only [clock, mem_append] at mem
  rcases mem with (hour | minute) | second
  · exact isDigit_of_mem_fixed hour
  · exact isDigit_of_mem_fixed minute
  · exact isDigit_of_mem_fixed second

theorem clock_injective (sameDay : moment.date = other.date) (same : moment.clock = other.clock) :
    moment = other := by
  obtain ⟨front, seconds⟩ := append_inj same (by simp)
  obtain ⟨hours, minutes⟩ := append_inj front (by simp)
  have hour := fixed_injective (by have := moment.hour_lt; omega)
    (by have := other.hour_lt; omega) hours
  have minute := fixed_injective (by have := moment.minute_lt; omega)
    (by have := other.minute_lt; omega) minutes
  have second := fixed_injective (by have := moment.second_lt; omega)
    (by have := other.second_lt; omega) seconds
  exact Moment.ext sameDay hour minute second

def parse (text : List Char) : Option Moment := do
  let (date, text) ← Date.scan [] text
  let text ← Scan.literal ['T'] text
  let (hour, text) ← Scan.exactly 2 Char.isDigit text
  let (minute, text) ← Scan.exactly 2 Char.isDigit text
  let (second, text) ← Scan.exactly 2 Char.isDigit text
  if text = [] then of date (value hour) (value minute) (value second) else none

theorem parse_stamp (short : moment.date.Short) : parse moment.stamp = some moment := by
  have hour : value (fixed 2 moment.hour) = moment.hour :=
    value_fixed (by have := moment.hour_lt; omega)
  have minute : value (fixed 2 moment.minute) = moment.minute :=
    value_fixed (by have := moment.minute_lt; omega)
  have second : value (fixed 2 moment.second) = moment.second :=
    value_fixed (by have := moment.second_lt; omega)
  have last := scan_fixed 2 moment.second []
  rw [append_nil] at last
  have mark (rest : List Char) : literal ['T'] ('T' :: rest) = some rest :=
    literal_append ['T'] rest
  simp [parse, stamp, clock, Date.scan_format short, mark, scan_fixed, last, hour, minute, second]

end Moment

end Calendar
