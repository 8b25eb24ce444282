import Mathlib

/-!
# Dates and hours as they are written

Days are counted from the first of 1970 and hours from its midnight. A day is written
`yyyy-MM-dd` and an hour `yyyy-MM-dd-HH`, for the years of four digits; a written hour is read back
as the same hour.
-/

namespace Calendar

structure Date where
  year : Nat
  month : Nat
  day : Nat
  deriving DecidableEq, Repr

/-- The years of the 400 that have passed on a day of them. -/
def yearOfEra (e : Nat) : Nat := (e - e / 1460 + e / 36524 - e / 146096) / 365

/-- Day `d` of a year that begins in March, so that the day a leap year has more is its last. -/
def Date.ofYear (year d : Nat) : Date :=
  let march := (5 * d + 2) / 153
  let month := if march < 10 then march + 3 else march - 9
  { year := year + (if month ≤ 2 then 1 else 0)
    month
    day := d - (153 * march + 2) / 5 + 1 }

def Date.ofDays (n : Nat) : Date :=
  let era := (n + 719468) / 146097
  let e := (n + 719468) % 146097
  let y := yearOfEra e
  Date.ofYear (y + era * 400) (e - (365 * y + y / 4 - y / 100))

def Date.toDays (d : Date) : Nat :=
  let y := d.year - (if d.month ≤ 2 then 1 else 0)
  let era := y / 400
  let y := y % 400
  let march := if d.month > 2 then d.month - 3 else d.month + 9
  let dayOfYear := (153 * march + 2) / 5 + (d.day - 1)
  era * 146097 + (365 * y + y / 4 - y / 100 + dayOfYear) - 719468

/-- Of the days before the last, `b` centuries, `k` times four years and `j` years have passed. -/
theorem yearOfEra_split {e : Nat} (h : e < 146096) :
    ∃ b k j s, b ≤ 3 ∧ k ≤ 24 ∧ j ≤ 3 ∧ s ≤ 365 ∧ e = 36524 * b + 1461 * k + 365 * j + s ∧
      yearOfEra e = 100 * b + 4 * k + j := by
  obtain ⟨b, r, hb, hr, he⟩ : ∃ b r, b ≤ 3 ∧ r < 36524 ∧ e = 36524 * b + r :=
    ⟨e / 36524, e % 36524, by omega, by omega, by omega⟩
  obtain ⟨k, s, hk, hs, hr⟩ : ∃ k s, k ≤ 24 ∧ s < 1461 ∧ r = 1461 * k + s :=
    ⟨r / 1461, r % 1461, by omega, by omega, by omega⟩
  subst hr he
  have h4 : (36524 * b + (1461 * k + s)) / 36524 = b := by omega
  have h1 : (36524 * b + (1461 * k + s)) / 146096 = 0 := by omega
  unfold yearOfEra
  -- whether another 1460 days have passed beside the leap days
  by_cases ht : 24 * b + k + s < 1460
  · have h3 : (36524 * b + (1461 * k + s)) / 1460 = 25 * b + k := by omega
    refine ⟨b, k, s / 365, s - 365 * (s / 365), hb, hk, by omega, by omega, by omega, ?_⟩
    rw [h4, h1, h3]
    omega
  · have h3 : (36524 * b + (1461 * k + s)) / 1460 = 25 * b + k + 1 := by omega
    refine ⟨b, k, (s - 1) / 365, s - 365 * ((s - 1) / 365), hb, hk, by omega, by omega, by omega,
      ?_⟩
    rw [h4, h1, h3]
    omega

/-- The years that have passed begin on a day that is not later, and not by more than a year. -/
theorem yearOfEra_bounds {e : Nat} (h : e < 146097) :
    yearOfEra e < 400 ∧ 365 * yearOfEra e + yearOfEra e / 4 - yearOfEra e / 100 ≤ e ∧
      e ≤ 365 * yearOfEra e + yearOfEra e / 4 - yearOfEra e / 100 + 365 := by
  by_cases hlast : e = 146096
  · subst hlast
    decide
  · obtain ⟨b, k, j, s, hb, hk, hj, hs, he, hy⟩ := yearOfEra_split (e := e) (by omega)
    rw [hy]
    have h4 : (100 * b + 4 * k + j) / 4 = 25 * b + k := by omega
    have h100 : (100 * b + 4 * k + j) / 100 = b := by omega
    omega

theorem toDays_ofYear {year d : Nat} (h : d ≤ 365) :
    (Date.ofYear year d).toDays = year / 400 * 146097 +
      (365 * (year % 400) + year % 400 / 4 - year % 400 / 100 + d) - 719468 := by
  have hday : (153 * ((5 * d + 2) / 153) + 2) / 5 ≤ d := by omega
  have hlast : (5 * d + 2) / 153 ≤ 11 := by omega
  unfold Date.ofYear Date.toDays
  generalize (5 * d + 2) / 153 = m at hday hlast ⊢
  by_cases h10 : m < 10
  · simp only [if_pos h10, if_neg (show ¬m + 3 ≤ 2 by omega), if_pos (show m + 3 > 2 by omega),
      Nat.add_zero, Nat.sub_zero, Nat.add_sub_cancel]
    rw [Nat.add_sub_cancel' hday]
  · simp only [if_neg h10, if_pos (show m - 9 ≤ 2 by omega), if_neg (show ¬m - 9 > 2 by omega),
      Nat.add_sub_cancel]
    rw [Nat.sub_add_cancel (show 9 ≤ m by omega), Nat.add_sub_cancel' hday]

theorem toDays_ofDays (n : Nat) : (Date.ofDays n).toDays = n := by
  obtain ⟨hy, hle, hge⟩ := yearOfEra_bounds (e := (n + 719468) % 146097) (by omega)
  have hz : n + 719468 = (n + 719468) / 146097 * 146097 + (n + 719468) % 146097 := by omega
  unfold Date.ofDays
  simp only []
  rw [toDays_ofYear (by omega)]
  generalize yearOfEra ((n + 719468) % 146097) = y at hy hle hge ⊢
  generalize (n + 719468) / 146097 = era at hz ⊢
  generalize (n + 719468) % 146097 = e at hz hle hge ⊢
  have hera : (y + era * 400) / 400 = era := by omega
  have hmod : (y + era * 400) % 400 = y := by omega
  rw [hera, hmod, Nat.add_sub_cancel' hle]
  omega

/-! ## Text -/

def digit (n : Nat) : Char := Char.ofNat (48 + n % 10)

def value (c : Char) : Nat := c.toNat - 48

theorem value_digit (n : Nat) : value (digit n) = n % 10 := by
  have h : n % 10 < 10 := Nat.mod_lt n (by norm_num)
  unfold value digit
  generalize n % 10 = d at h
  interval_cases d <;> rfl

def two (n : Nat) : List Char := [digit (n / 10), digit n]

def four (n : Nat) : List Char := two (n / 100) ++ two n

def Date.text (d : Date) : List Char := four d.year ++ '-' :: two d.month ++ '-' :: two d.day

/-- The hour `n`, of the day `n / 24`. -/
def hourText (n : Nat) : List Char := (Date.ofDays (n / 24)).text ++ '-' :: two (n % 24)

/-- The hour that a text of that form stands for, if it is how that hour is written. -/
def parseHour (cs : List Char) : Option Nat :=
  match cs with
  | [y1, y2, y3, y4, _, m1, m2, _, d1, d2, _, h1, h2] =>
    let date : Date :=
      { year := value y1 * 1000 + value y2 * 100 + value y3 * 10 + value y4
        month := value m1 * 10 + value m2
        day := value d1 * 10 + value d2 }
    let n := date.toDays * 24 + (value h1 * 10 + value h2)
    if hourText n = cs then some n else none
  | _ => none

theorem ofYear_lt {year d : Nat} (h : d ≤ 365) :
    (Date.ofYear year d).month < 100 ∧ (Date.ofYear year d).day < 100 := by
  unfold Date.ofYear
  simp only []
  refine ⟨by split <;> omega, by omega⟩

theorem ofDays_lt (n : Nat) : (Date.ofDays n).month < 100 ∧ (Date.ofDays n).day < 100 := by
  obtain ⟨-, hle, hge⟩ := yearOfEra_bounds (e := (n + 719468) % 146097) (by omega)
  unfold Date.ofDays
  exact ofYear_lt (by omega)

/-- A written hour is read back. -/
theorem parseHour_hourText {n : Nat} (h : (Date.ofDays (n / 24)).year < 10000) :
    parseHour (hourText n) = some n := by
  obtain ⟨hmonth, hday⟩ := ofDays_lt (n / 24)
  have hhour : n % 24 < 100 := by omega
  have hdays := toDays_ofDays (n / 24)
  have hread : ∀ (d : Date) (hour : Nat), d.year < 10000 → d.month < 100 → d.day < 100 →
      hour < 100 → d.toDays * 24 + hour = n → hourText n = d.text ++ '-' :: two hour →
      parseHour (d.text ++ '-' :: two hour) = some n := by
    intro d hour hy hm hd hh hn htext
    have hyear : d.year / 100 / 10 % 10 * 1000 + d.year / 100 % 10 * 100 + d.year / 10 % 10 * 10 +
        d.year % 10 = d.year := by omega
    have hm : d.month / 10 % 10 * 10 + d.month % 10 = d.month := by omega
    have hd : d.day / 10 % 10 * 10 + d.day % 10 = d.day := by omega
    have hh : hour / 10 % 10 * 10 + hour % 10 = hour := by omega
    unfold parseHour
    simp only [Date.text, four, two, List.cons_append, List.nil_append, value_digit, hyear, hm, hd,
      hh, hn] at htext ⊢
    rw [if_pos htext]
  exact hread _ _ h hmonth hday hhour (by rw [hdays]; omega) rfl

theorem parseHour_some {cs : List Char} {n : Nat} (h : parseHour cs = some n) : hourText n = cs := by
  unfold parseHour at h
  split at h
  · dsimp only at h
    split at h
    · rw [← Option.some.inj h]
      assumption
    · cases h
  · cases h

end Calendar
