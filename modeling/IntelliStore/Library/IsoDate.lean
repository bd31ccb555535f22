import Mathlib.Data.List.Basic
import Mathlib.Data.Nat.Find
import Mathlib.Tactic.IntervalCases

/-! Times in milliseconds from 1970 on, their dates in the Gregorian calendar, and the texts of
these dates. -/

namespace Library.IsoDate

/-- The number of the first day of a year; 1970 begins with day 0. -/
def dayFromYear (year : Nat) : Nat :=
  365 * (year - 1970) + (year - 1969) / 4 - (year - 1901) / 100 + (year - 1601) / 400

def isLeap (year : Nat) : Bool := year % 4 = 0 && (year % 100 ≠ 0 || year % 400 = 0)

def yearFromDay (day : Nat) : Nat :=
  Nat.findGreatest (fun year => dayFromYear year ≤ day) (1970 + day / 365)

def monthLengths (leap : Bool) : List Nat :=
  [31, if leap then 29 else 28, 31, 30, 31, 30, 31, 31, 30, 31, 30, 31]

/-- The number of whole months before a day, and the days that are left of it. -/
def wholeMonths : List Nat → Nat → Nat × Nat
  | [], day => (0, day)
  | length :: lengths, day =>
    if day < length then (0, day)
    else
      let (months, rest) := wholeMonths lengths (day - length)
      (months + 1, rest)

/-- The months and the days of a month count from 1 on. -/
structure DateTime where
  year : Nat
  month : Nat
  date : Nat
  hours : Nat
  minutes : Nat
  seconds : Nat
  milliseconds : Nat
  deriving DecidableEq

def DateTime.ofTime (time : Nat) : DateTime :=
  let day := time / 86400000
  let year := yearFromDay day
  let (months, days) := wholeMonths (monthLengths (isLeap year)) (day - dayFromYear year)
  { year := year
    month := months + 1
    date := days + 1
    hours := time / 3600000 % 24
    minutes := time / 60000 % 60
    seconds := time / 1000 % 60
    milliseconds := time % 1000 }

def DateTime.isValid (d : DateTime) : Bool :=
  0 < d.month && d.month ≤ 12 && 0 < d.date &&
    d.date ≤ (monthLengths (isLeap d.year)).getD (d.month - 1) 0 &&
    d.hours < 24 && d.minutes < 60 && d.seconds < 60 && d.milliseconds < 1000

def DateTime.toTime (d : DateTime) : Nat :=
  let day := dayFromYear d.year + ((monthLengths (isLeap d.year)).take (d.month - 1)).sum +
    (d.date - 1)
  (((day * 24 + d.hours) * 60 + d.minutes) * 60 + d.seconds) * 1000 + d.milliseconds

/-! ### The texts -/

def padded (width n : Nat) : List Char := (Nat.toDigits 10 n).leftpad width '0'

/-- A year of more than four digits has a sign. -/
def yearText (year : Nat) : List Char :=
  if year < 10000 then padded 4 year else '+' :: padded 6 year

def DateTime.text (d : DateTime) : List Char :=
  yearText d.year ++ '-' :: (padded 2 d.month ++ '-' :: (padded 2 d.date ++ 'T' ::
    (padded 2 d.hours ++ ':' :: (padded 2 d.minutes ++ ':' :: (padded 2 d.seconds ++ '.' ::
      (padded 3 d.milliseconds ++ ['Z']))))))

def toISOString (time : Nat) : List Char := (DateTime.ofTime time).text

/-- A number up to the character that ends it. -/
def number (stop : Char) (text : List Char) : Option (Nat × List Char) :=
  match text.dropWhile Char.isDigit with
  | [] => none
  | c :: rest =>
    if c = stop then some (Nat.ofDigitChars 10 (text.takeWhile Char.isDigit) 0, rest) else none

def readYear (text : List Char) : Option (Nat × List Char) :=
  if text.head? = some '+' then number '-' text.tail else number '-' text

/-- Reads the texts that `toISOString` writes. -/
def parseISOString (text : List Char) : Option Nat := do
  let (year, text) ← readYear text
  let (month, text) ← number '-' text
  let (date, text) ← number 'T' text
  let (hours, text) ← number ':' text
  let (minutes, text) ← number ':' text
  let (seconds, text) ← number '.' text
  let (milliseconds, text) ← number 'Z' text
  let d : DateTime := ⟨year, month, date, hours, minutes, seconds, milliseconds⟩
  if text = [] ∧ d.isValid then some d.toTime else none

/-! ### The calendar -/

theorem isLeap_iff {year : Nat} :
    isLeap year = true ↔ year % 4 = 0 ∧ (year % 100 ≠ 0 ∨ year % 400 = 0) := by
  rw [isLeap, Bool.and_eq_true, Bool.or_eq_true, decide_eq_true_eq, decide_eq_true_eq,
    decide_eq_true_eq]

/-- The number of the multiples of `k` after `k * q` and before a year. -/
theorem succ_sub_div (k q : Nat) {year : Nat} (h : k * q + 1 ≤ year) :
    (year + 1 - (k * q + 1)) / k = (year - (k * q + 1)) / k + if year % k = 0 then 1 else 0 := by
  obtain ⟨n, rfl⟩ := Nat.exists_eq_add_of_le h
  have hnext : k * q + 1 + n + 1 - (k * q + 1) = n + 1 := by omega
  have hthis : k * q + 1 + n - (k * q + 1) = n := by omega
  have hmod : k ∣ n + 1 ↔ (k * q + 1 + n) % k = 0 := by
    rw [Nat.dvd_iff_mod_eq_zero, Nat.add_assoc, Nat.mul_add_mod, Nat.add_comm 1 n]
  rw [hnext, hthis, Nat.succ_div]
  simp only [hmod]

theorem dayFromYear_succ {year : Nat} (h : 1970 ≤ year) :
    dayFromYear (year + 1) = dayFromYear year + if isLeap year then 366 else 365 := by
  have hfour : (year + 1 - 1969) / 4 = (year - 1969) / 4 + if year % 4 = 0 then 1 else 0 :=
    succ_sub_div 4 492 (by omega)
  have hcentury : (year + 1 - 1901) / 100 =
      (year - 1901) / 100 + if year % 100 = 0 then 1 else 0 := succ_sub_div 100 19 (by omega)
  have hcycle : (year + 1 - 1601) / 400 =
      (year - 1601) / 400 + if year % 400 = 0 then 1 else 0 := succ_sub_div 400 4 (by omega)
  have hyear : 365 * (year + 1 - 1970) = 365 * (year - 1970) + 365 := by omega
  have hle : (year - 1901) / 100 ≤ (year - 1969) / 4 + 365 * (year - 1970) := by omega
  rw [dayFromYear, dayFromYear, hfour, hcentury, hcycle, hyear]
  simp only [isLeap_iff]
  split_ifs <;> omega

theorem dayFromYear_le {year : Nat} (h : 1970 ≤ year) :
    365 * (year - 1970) ≤ dayFromYear year := by
  induction year, h using Nat.le_induction with
  | base => decide
  | succ year h ih =>
    have hyear : 365 ≤ if isLeap year then 366 else 365 := by split_ifs <;> decide
    calc 365 * (year + 1 - 1970) = 365 * (year - 1970) + 365 := by omega
      _ ≤ dayFromYear year + if isLeap year then 366 else 365 := Nat.add_le_add ih hyear
      _ = dayFromYear (year + 1) := (dayFromYear_succ h).symm

/-- A day is one of its year. -/
theorem yearFromDay_spec (day : Nat) :
    dayFromYear (yearFromDay day) ≤ day ∧
      day - dayFromYear (yearFromDay day) < if isLeap (yearFromDay day) then 366 else 365 := by
  have hbase : dayFromYear 1970 ≤ day := Nat.zero_le _
  have hyear : 1970 ≤ yearFromDay day := Nat.le_findGreatest (by omega) hbase
  have hle : dayFromYear (yearFromDay day) ≤ day :=
    Nat.findGreatest_spec (P := fun year => dayFromYear year ≤ day) (by omega) hbase
  have hnext : day < dayFromYear (yearFromDay day + 1) := by
    by_cases hbound : yearFromDay day + 1 ≤ 1970 + day / 365
    · exact Nat.lt_of_not_le (Nat.findGreatest_is_greatest
        (P := fun year => dayFromYear year ≤ day) (Nat.lt_succ_self _) hbound)
    · have hnext : 1970 ≤ yearFromDay day + 1 := by omega
      have hdays := dayFromYear_le hnext
      omega
  refine ⟨hle, ?_⟩
  rw [dayFromYear_succ hyear] at hnext
  omega

theorem wholeMonths_sum (lengths : List Nat) (day : Nat) :
    (lengths.take (wholeMonths lengths day).1).sum + (wholeMonths lengths day).2 = day := by
  induction lengths generalizing day with
  | nil => exact Nat.zero_add day
  | cons length lengths ih =>
    unfold wholeMonths
    split_ifs with h
    · exact Nat.zero_add day
    · have hrest := ih (day - length)
      show ((length :: lengths).take ((wholeMonths lengths (day - length)).1 + 1)).sum +
        (wholeMonths lengths (day - length)).2 = day
      rw [List.take_succ_cons, List.sum_cons]
      omega

theorem wholeMonths_lt {lengths : List Nat} {day : Nat} (h : day < lengths.sum) :
    (wholeMonths lengths day).1 < lengths.length ∧
      (wholeMonths lengths day).2 < lengths.getD (wholeMonths lengths day).1 0 := by
  induction lengths generalizing day with
  | nil => exact absurd h (Nat.not_lt_zero _)
  | cons length lengths ih =>
    unfold wholeMonths
    split_ifs with hday
    · exact ⟨Nat.succ_pos _, hday⟩
    · rw [List.sum_cons] at h
      have hrest : day - length < lengths.sum := by omega
      obtain ⟨hmonth, hdate⟩ := ih hrest
      exact ⟨Nat.succ_lt_succ hmonth, hdate⟩

theorem isValid_ofTime (time : Nat) : (DateTime.ofTime time).isValid = true := by
  have hsum : ∀ leap, (monthLengths leap).sum = if leap then 366 else 365 := by decide
  have hyear := (yearFromDay_spec (time / 86400000)).2
  rw [← hsum] at hyear
  obtain ⟨hmonth, hdate⟩ := wholeMonths_lt hyear
  have hhours : time / 3600000 % 24 < 24 := Nat.mod_lt _ (by decide)
  have hminutes : time / 60000 % 60 < 60 := Nat.mod_lt _ (by decide)
  have hseconds : time / 1000 % 60 < 60 := Nat.mod_lt _ (by decide)
  have hmilliseconds : time % 1000 < 1000 := Nat.mod_lt _ (by decide)
  simp only [DateTime.isValid, Bool.and_eq_true]
  exact ⟨⟨⟨⟨⟨⟨⟨decide_eq_true (Nat.succ_pos _), decide_eq_true hmonth⟩,
    decide_eq_true (Nat.succ_pos _)⟩, decide_eq_true hdate⟩, decide_eq_true hhours⟩,
    decide_eq_true hminutes⟩, decide_eq_true hseconds⟩, decide_eq_true hmilliseconds⟩

theorem toTime_ofTime (time : Nat) : (DateTime.ofTime time).toTime = time := by
  have hyear := (yearFromDay_spec (time / 86400000)).1
  have hmonths := wholeMonths_sum
    (monthLengths (isLeap (yearFromDay (time / 86400000))))
    (time / 86400000 - dayFromYear (yearFromDay (time / 86400000)))
  have hday : (DateTime.ofTime time).toTime =
      ((((dayFromYear (yearFromDay (time / 86400000)) +
        ((monthLengths (isLeap (yearFromDay (time / 86400000)))).take
          (wholeMonths (monthLengths (isLeap (yearFromDay (time / 86400000))))
            (time / 86400000 - dayFromYear (yearFromDay (time / 86400000)))).1).sum +
        (wholeMonths (monthLengths (isLeap (yearFromDay (time / 86400000))))
          (time / 86400000 - dayFromYear (yearFromDay (time / 86400000)))).2) * 24 +
        time / 3600000 % 24) * 60 + time / 60000 % 60) * 60 + time / 1000 % 60) * 1000 +
        time % 1000 := rfl
  rw [hday, Nat.add_assoc (dayFromYear _), hmonths, Nat.add_sub_cancel' hyear]
  omega

/-! ### The texts are read back -/

theorem padded_digits {width n : Nat} {c : Char} (hc : c ∈ padded width n) : c.isDigit = true := by
  rcases List.mem_append.mp hc with hzero | hdigit
  · rw [List.eq_of_mem_replicate hzero]
    decide
  · exact Nat.isDigit_of_mem_toDigits (by decide) (by decide) hdigit

theorem ofDigitChars_padded (width n : Nat) : Nat.ofDigitChars 10 (padded width n) 0 = n := by
  rw [padded, List.leftpad, Nat.ofDigitChars_append, Nat.ofDigitChars_replicate_zero,
    Nat.mul_zero, Nat.ofDigitChars_ten_toDigits]

theorem number_padded (stop : Char) (hstop : stop.isDigit = false) (width n : Nat)
    (rest : List Char) : number stop (padded width n ++ stop :: rest) = some (n, rest) := by
  have htake : (padded width n ++ stop :: rest).takeWhile Char.isDigit = padded width n := by
    rw [List.takeWhile_append_of_pos fun c hc => padded_digits hc, List.takeWhile_cons, hstop]
    exact List.append_nil _
  have hdrop : (padded width n ++ stop :: rest).dropWhile Char.isDigit = stop :: rest := by
    rw [List.dropWhile_append_of_pos fun c hc => padded_digits hc, List.dropWhile_cons, hstop]
    rfl
  rw [number, hdrop, htake, ofDigitChars_padded]
  exact if_pos rfl

theorem readYear_yearText (year : Nat) (rest : List Char) :
    readYear (yearText year ++ '-' :: rest) = some (year, rest) := by
  unfold yearText
  split_ifs
  · have hhead : (padded 4 year ++ '-' :: rest).head? ≠ some '+' := by
      intro hplus
      cases hdigits : padded 4 year with
      | nil =>
        rw [hdigits] at hplus
        cases hplus
      | cons c digits =>
        rw [hdigits] at hplus
        cases hplus
        have hmem : '+' ∈ padded 4 year := by
          rw [hdigits]
          exact List.mem_cons_self
        exact absurd (padded_digits hmem) (by decide)
    rw [readYear, if_neg hhead, number_padded '-' rfl]
  · rw [readYear, if_pos (by rfl)]
    exact number_padded '-' rfl 6 year rest

theorem parse_text {d : DateTime} (h : d.isValid = true) :
    parseISOString d.text = some d.toTime := by
  unfold parseISOString DateTime.text
  simp only [readYear_yearText, number_padded '-' rfl, number_padded 'T' rfl,
    number_padded ':' rfl, number_padded '.' rfl, number_padded 'Z' rfl, Option.bind_eq_bind,
    Option.bind_some, h, and_self, if_true]

theorem parse_toISOString (time : Nat) : parseISOString (toISOString time) = some time := by
  rw [toISOString, parse_text (isValid_ofTime time), toTime_ofTime]

/-- The last second of a leap day. -/
example : String.ofList (toISOString 951868799999) = "2000-02-29T23:59:59.999Z" := by decide

end Library.IsoDate
