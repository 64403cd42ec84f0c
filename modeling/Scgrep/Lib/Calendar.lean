import Mathlib.Data.Nat.Notation
import Mathlib.Order.Basic
import Mathlib.Tactic.IntervalCases
import Mathlib.Tactic.Ring

/-!
# The Gregorian calendar

Dates of the proleptic Gregorian calendar from the year 1 on, times of day without
leap seconds, and their fixed-width decimal text `YYYY-MM-DD?hh:mm:ss`, with any
separator between the date and the time.

* `Date.ofDays`, `Date.days`: the date of a day and the day of a date
  (`days_ofDays`); dates in order are days in order (`days_lt_iff`).
* `Stamp.ofSeconds`, `Stamp.seconds`: the same for seconds.
* `Stamp.text_lt_iff`: **texts are in order exactly when the instants are.**
* `readStamp_text`: **reading undoes writing.**
-/

namespace Calendar

/-! ## Days -/

def isLeap (year : ℕ) : Bool := year % 4 = 0 ∧ (year % 100 ≠ 0 ∨ year % 400 = 0)

/-- The days of a month, in a leap year or another one. -/
def monthDays (leap : Bool) (month : ℕ) : ℕ :=
  if month = 2 then if leap then 29 else 28
  else if month = 4 ∨ month = 6 ∨ month = 9 ∨ month = 11 then 30
  else 31

/-- The days of a year before a month. -/
def daysBeforeMonth (leap : Bool) : ℕ → ℕ
  | 0 => 0
  | 1 => 0
  | month + 2 => daysBeforeMonth leap (month + 1) + monthDays leap (month + 1)

/-- The days before a year, from the year 1 on. -/
def daysBeforeYear (year : ℕ) : ℕ :=
  365 * (year - 1) + (year - 1) / 4 - (year - 1) / 100 + (year - 1) / 400

/-- The days of a year. -/
def yearDays (year : ℕ) : ℕ := if isLeap year then 366 else 365

theorem daysBeforeYear_succ (n : ℕ) :
    daysBeforeYear (n + 2) = daysBeforeYear (n + 1) + yearDays (n + 1) := by
  have h4 : (n + 1) / 4 = n / 4 + if (n + 1) % 4 = 0 then 1 else 0 := by split <;> omega
  have h100 : (n + 1) / 100 = n / 100 + if (n + 1) % 100 = 0 then 1 else 0 := by split <;> omega
  have h400 : (n + 1) / 400 = n / 400 + if (n + 1) % 400 = 0 then 1 else 0 := by split <;> omega
  have hle : n / 100 ≤ n / 4 := by omega
  have h1 : (n + 1) % 100 = 0 → (n + 1) % 4 = 0 := by omega
  have h2 : (n + 1) % 400 = 0 → (n + 1) % 100 = 0 := by omega
  unfold daysBeforeYear yearDays isLeap
  simp only [Nat.add_sub_cancel, show n + 2 - 1 = n + 1 from rfl, h4, h100, h400]
  by_cases c4 : (n + 1) % 4 = 0 <;> by_cases c100 : (n + 1) % 100 = 0 <;>
    by_cases c400 : (n + 1) % 400 = 0 <;> simp [c4, c100, c400] at h1 h2 ⊢ <;> omega

theorem daysBeforeYear_mono : Monotone daysBeforeYear := by
  refine monotone_nat_of_le_succ fun n => ?_
  rcases n with _ | n
  · exact le_rfl
  · rw [daysBeforeYear_succ]
    exact Nat.le_add_right _ _

theorem daysBeforeMonth_mono (leap : Bool) : Monotone (daysBeforeMonth leap) := by
  refine monotone_nat_of_le_succ fun n => ?_
  rcases n with _ | n
  · exact le_rfl
  · exact Nat.le_add_right _ _

theorem daysBeforeMonth_succ {month : ℕ} (leap : Bool) (h : 1 ≤ month) :
    daysBeforeMonth leap (month + 1) = daysBeforeMonth leap month + monthDays leap month := by
  obtain ⟨m, rfl⟩ : ∃ m, month = m + 1 := ⟨month - 1, by omega⟩
  rfl

/-- The year of a day: cycles of 400, 100 and 4 years, then years. The last year of a cycle has
the day that is left over. -/
def yearOfDay (n : ℕ) : ℕ :=
  let n100 := min 3 (n % 146097 / 36524)
  let r := n % 146097 - 36524 * n100
  400 * (n / 146097) + 100 * n100 + 4 * (r / 1461) + min 3 (r % 1461 / 365) + 1

/-- The month of a day of the year. -/
def monthOfDay (leap : Bool) (n : ℕ) : ℕ :=
  1 + (List.range 11).countP fun i => daysBeforeMonth leap (i + 2) ≤ n

theorem yearOfDay_pos (n : ℕ) : 1 ≤ yearOfDay n := Nat.le_add_left _ _

section Cycles

variable {a b c d : ℕ} (hb : b ≤ 3) (hc : c ≤ 24) (hd : d ≤ 3)

include hb hc hd

/-- The days before a year, by the cycles that it is in. -/
theorem daysBeforeYear_cycles : daysBeforeYear (400 * a + 100 * b + 4 * c + d + 1) =
    146097 * a + 36524 * b + 1461 * c + 365 * d := by
  have h4 : (400 * a + 100 * b + 4 * c + d) / 4 = 100 * a + 25 * b + c := by omega
  have h100 : (400 * a + 100 * b + 4 * c + d) / 100 = 4 * a + b := by omega
  have h400 : (400 * a + 100 * b + 4 * c + d) / 400 = a := by omega
  unfold daysBeforeYear
  rw [Nat.add_sub_cancel, h4, h100, h400]
  omega

/-- A leap year is the last of four, but not of a hundred unless of four hundred. -/
theorem isLeap_cycles :
    isLeap (400 * a + 100 * b + 4 * c + d + 1) = true ↔ d = 3 ∧ (c = 24 → b = 3) := by
  have h4 : (400 * a + 100 * b + 4 * c + d + 1) % 4 = 0 ↔ d = 3 := by omega
  have h100 : (400 * a + 100 * b + 4 * c + d + 1) % 100 = 0 ↔ c = 24 ∧ d = 3 := by omega
  have h400 : (400 * a + 100 * b + 4 * c + d + 1) % 400 = 0 ↔ b = 3 ∧ c = 24 ∧ d = 3 := by omega
  unfold isLeap
  rw [decide_eq_true_iff, ne_eq, h4, h100, h400]
  tauto

end Cycles

/-- A day is in its year. -/
theorem yearOfDay_spec (n : ℕ) : daysBeforeYear (yearOfDay n) ≤ n ∧
    n < daysBeforeYear (yearOfDay n) + yearDays (yearOfDay n) := by
  obtain ⟨a, b, c, d, r, hb, hc, hd, hyear, hn, hr, hlast⟩ : ∃ a b c d r : ℕ, b ≤ 3 ∧ c ≤ 24 ∧ d ≤ 3 ∧
      yearOfDay n = 400 * a + 100 * b + 4 * c + d + 1 ∧
      n = 146097 * a + 36524 * b + 1461 * c + 365 * d + r ∧ r < 366 ∧
      (r = 365 → d = 3 ∧ (c = 24 → b = 3)) := by
    set b := min 3 (n % 146097 / 36524) with hb
    set r := n % 146097 - 36524 * b with hr
    set d := min 3 (r % 1461 / 365) with hd
    refine ⟨n / 146097, b, r / 1461, d, r % 1461 - 365 * d, by omega, by omega, by omega, rfl, ?_, ?_, ?_⟩
    · omega
    · omega
    · omega
  rw [hyear, daysBeforeYear_cycles hb hc hd]
  unfold yearDays
  by_cases hl : isLeap (400 * a + 100 * b + 4 * c + d + 1) = true
  · rw [if_pos hl]
    omega
  · rw [if_neg hl]
    have hne : r ≠ 365 := fun h => hl ((isLeap_cycles hb hc hd).2 (hlast h))
    omega

theorem monthOfDay_spec (leap : Bool) {n : ℕ} (h : n < if leap then 366 else 365) :
    1 ≤ monthOfDay leap n ∧ monthOfDay leap n ≤ 12 ∧ daysBeforeMonth leap (monthOfDay leap n) ≤ n ∧
      n < daysBeforeMonth leap (monthOfDay leap n) + monthDays leap (monthOfDay leap n) := by
  have key : ∀ leap : Bool, ∀ n < if leap then 366 else 365,
      1 ≤ monthOfDay leap n ∧ monthOfDay leap n ≤ 12 ∧ daysBeforeMonth leap (monthOfDay leap n) ≤ n ∧
      n < daysBeforeMonth leap (monthOfDay leap n) + monthDays leap (monthOfDay leap n) := by
    decide +kernel
  exact key leap n h

/-! ## Dates -/

@[ext]
structure Date where
  year : ℕ
  month : ℕ
  day : ℕ
  year_pos : 1 ≤ year
  month_pos : 1 ≤ month
  month_le : month ≤ 12
  day_pos : 1 ≤ day
  day_le : day ≤ monthDays (isLeap year) month
deriving DecidableEq

namespace Date

/-- The day of the year, from 0 on. -/
def dayOfYear (d : Date) : ℕ := daysBeforeMonth (isLeap d.year) d.month + (d.day - 1)

/-- The days since the first of January of the year 1. -/
def days (d : Date) : ℕ := daysBeforeYear d.year + d.dayOfYear

/-- The date of a day of a year. -/
def ofYearAndDay (year n : ℕ) (hyear : 1 ≤ year) (hn : n < yearDays year) : Date where
  year := year
  month := monthOfDay (isLeap year) n
  day := n - daysBeforeMonth (isLeap year) (monthOfDay (isLeap year) n) + 1
  year_pos := hyear
  month_pos := (monthOfDay_spec _ hn).1
  month_le := (monthOfDay_spec _ hn).2.1
  day_pos := Nat.le_add_left _ _
  day_le := by
    have := (monthOfDay_spec _ hn).2.2
    omega

theorem yearOfDay_rest (n : ℕ) : n - daysBeforeYear (yearOfDay n) < yearDays (yearOfDay n) := by
  have := yearOfDay_spec n
  omega

/-- The date of a day. -/
def ofDays (n : ℕ) : Date :=
  ofYearAndDay (yearOfDay n) (n - daysBeforeYear (yearOfDay n)) (yearOfDay_pos n) (yearOfDay_rest n)

/-- **The day of the date of a day.** -/
theorem days_ofDays (n : ℕ) : (ofDays n).days = n := by
  have hyear := yearOfDay_spec n
  have hmonth := (monthOfDay_spec _ (yearOfDay_rest n)).2.2
  unfold ofDays days dayOfYear ofYearAndDay
  dsimp only
  omega

/-- A day of the year is in its month. -/
theorem dayOfYear_lt (d : Date) :
    d.dayOfYear < daysBeforeMonth (isLeap d.year) (d.month + 1) := by
  have h1 := d.day_pos
  have h2 := d.day_le
  rw [daysBeforeMonth_succ _ d.month_pos]
  unfold dayOfYear
  omega

theorem dayOfYear_lt_yearDays (d : Date) : d.dayOfYear < yearDays d.year := by
  have h1 := d.dayOfYear_lt
  have h2 := daysBeforeMonth_mono (isLeap d.year) (show d.month + 1 ≤ 13 from Nat.succ_le_succ d.month_le)
  have h3 : daysBeforeMonth (isLeap d.year) 13 = yearDays d.year := by
    unfold yearDays
    cases isLeap d.year <;> rfl
  omega

/-- Dates are in order by year, month and day. -/
def Before (a b : Date) : Prop :=
  a.year < b.year ∨ a.year = b.year ∧ (a.month < b.month ∨ a.month = b.month ∧ a.day < b.day)

theorem days_lt_of_before {a b : Date} (h : a.Before b) : a.days < b.days := by
  have ha := a.dayOfYear_lt
  have hb := b.day_pos
  unfold days
  rcases h with hy | ⟨hy, hm | ⟨hm, hd⟩⟩
  · have h1 := a.dayOfYear_lt_yearDays
    obtain ⟨n, hn⟩ : ∃ n, a.year = n + 1 := ⟨a.year - 1, by have := a.year_pos; omega⟩
    have h2 := daysBeforeYear_succ n
    have h3 := daysBeforeYear_mono (show n + 2 ≤ b.year by omega)
    rw [hn] at h1 ⊢
    omega
  · have h1 := daysBeforeMonth_mono (isLeap b.year) (Nat.succ_le_of_lt hm)
    rw [hy] at ha ⊢
    change a.dayOfYear < daysBeforeMonth (isLeap b.year) (a.month + 1) at ha
    unfold dayOfYear at ha ⊢
    rw [hy] at ha ⊢
    simp only [Nat.succ_eq_add_one] at h1
    omega
  · unfold dayOfYear
    rw [hy, hm]
    have := a.day_pos
    omega

theorem before_trichotomy (a b : Date) : a.Before b ∨ a = b ∨ b.Before a := by
  unfold Before
  rw [Date.ext_iff]
  omega

/-- **Dates in order are days in order.** -/
theorem days_lt_iff {a b : Date} : a.days < b.days ↔ a.Before b := by
  constructor
  · intro h
    rcases before_trichotomy a b with h1 | rfl | h1
    · exact h1
    · exact absurd h (lt_irrefl _)
    · exact absurd h (days_lt_of_before h1).asymm
  · exact days_lt_of_before

theorem days_injective : Function.Injective days := by
  intro a b h
  rcases before_trichotomy a b with h1 | h1 | h1
  · exact absurd h (days_lt_of_before h1).ne
  · exact h1
  · exact absurd h (days_lt_of_before h1).ne'

end Date

/-! ## Digits -/

/-- A number with a fixed number of digits. -/
def digits : ℕ → ℕ → List Char
  | 0, _ => []
  | k + 1, n => digits k (n / 10) ++ [Nat.digitChar (n % 10)]

theorem length_digits (k : ℕ) : ∀ n, (digits k n).length = k := by
  induction k with
  | zero => intro n; rfl
  | succ k ih =>
    intro n
    unfold digits
    rw [List.length_append, ih, List.length_singleton]

/-- Reads a number with a fixed number of digits, behind those already read. -/
def readDigits : ℕ → ℕ → List Char → Option (ℕ × List Char)
  | 0, n, l => some (n, l)
  | k + 1, n, c :: l => if c.isDigit then readDigits k (10 * n + (c.toNat - 48)) l else none
  | _ + 1, _, [] => none

theorem isDigit_digitChar {n : ℕ} (h : n < 10) : (Nat.digitChar n).isDigit = true := by
  interval_cases n <;> rfl

theorem toNat_digitChar {n : ℕ} (h : n < 10) : (Nat.digitChar n).toNat = 48 + n := by
  interval_cases n <;> rfl

theorem mem_digits {k n : ℕ} {c : Char} (h : c ∈ digits k n) : c.isDigit = true := by
  induction k generalizing n with
  | zero => cases h
  | succ k ih =>
    rcases List.mem_append.1 h with h | h
    · exact ih h
    · rw [List.mem_singleton.1 h]
      exact isDigit_digitChar (Nat.mod_lt _ (by decide))

/-- **Reading digits undoes writing them.** -/
theorem readDigits_digits (k : ℕ) : ∀ {n : ℕ} (j m : ℕ) (l : List Char), n < 10 ^ k →
    readDigits (k + j) m (digits k n ++ l) = readDigits j (10 ^ k * m + n) l := by
  induction k with
  | zero =>
    intro n j m l h
    have hn : n = 0 := by simpa using h
    subst hn
    simp [digits]
  | succ k ih =>
    intro n j m l h
    have hlt : n / 10 < 10 ^ k := by rw [pow_succ] at h; omega
    have hmod : n % 10 < 10 := Nat.mod_lt _ (by decide)
    have hvalue : 10 * (10 ^ k * m + n / 10) + n % 10 = 10 ^ (k + 1) * m + n := by
      rw [pow_succ]
      have := Nat.div_add_mod n 10
      calc 10 * (10 ^ k * m + n / 10) + n % 10 = 10 ^ k * 10 * m + (10 * (n / 10) + n % 10) := by ring
        _ = 10 ^ k * 10 * m + n := by rw [this]
    unfold digits
    rw [List.append_assoc, show k + 1 + j = k + (j + 1) by omega, ih _ _ _ hlt]
    change (if (Nat.digitChar (n % 10)).isDigit then _ else none) = _
    rw [if_pos (isDigit_digitChar hmod), toNat_digitChar hmod, Nat.add_sub_cancel_left, hvalue]
    rfl

/-- **Numbers with as many digits** are in order when their texts are. -/
theorem digits_append_lt (k : ℕ) : ∀ {a b : ℕ} {u v : List Char}, a < 10 ^ k → b < 10 ^ k →
    (digits k a ++ u < digits k b ++ v ↔ a < b ∨ a = b ∧ u < v) := by
  induction k with
  | zero =>
    intro a b u v ha hb
    have ha : a = 0 := by simpa using ha
    have hb : b = 0 := by simpa using hb
    subst ha hb
    simp [digits]
  | succ k ih =>
    intro a b u v ha hb
    rw [pow_succ] at ha hb
    have hma : a % 10 < 10 := Nat.mod_lt _ (by decide)
    have hmb : b % 10 < 10 := Nat.mod_lt _ (by decide)
    have hlt : Nat.digitChar (a % 10) < Nat.digitChar (b % 10) ↔ a % 10 < b % 10 := by
      change (Nat.digitChar (a % 10)).toNat < (Nat.digitChar (b % 10)).toNat ↔ _
      rw [toNat_digitChar hma, toNat_digitChar hmb]
      omega
    have heq : Nat.digitChar (a % 10) = Nat.digitChar (b % 10) ↔ a % 10 = b % 10 := by
      constructor
      · intro h
        have := congrArg Char.toNat h
        rw [toNat_digitChar hma, toNat_digitChar hmb] at this
        omega
      · intro h; rw [h]
    unfold digits
    rw [List.append_assoc, List.append_assoc, ih (by omega) (by omega), List.singleton_append,
      List.singleton_append, List.cons_lt_cons_iff, hlt, heq]
    by_cases huv : u < v
    · simp only [huv, and_true]
      omega
    · simp only [huv, and_false, or_false]
      omega

/-! ## Instants -/

/-- A date and a time of day. -/
@[ext]
structure Stamp where
  date : Date
  hour : ℕ
  minute : ℕ
  second : ℕ
  hour_lt : hour < 24
  minute_lt : minute < 60
  second_lt : second < 60
deriving DecidableEq

namespace Stamp

/-- The second of the day. -/
def secondOfDay (t : Stamp) : ℕ := 3600 * t.hour + 60 * t.minute + t.second

/-- The seconds since the beginning of the year 1. -/
def seconds (t : Stamp) : ℕ := 86400 * t.date.days + t.secondOfDay

def ofSeconds (n : ℕ) : Stamp where
  date := Date.ofDays (n / 86400)
  hour := n % 86400 / 3600
  minute := n % 3600 / 60
  second := n % 60
  hour_lt := by omega
  minute_lt := by omega
  second_lt := by omega

theorem secondOfDay_lt (t : Stamp) : t.secondOfDay < 86400 := by
  have h1 := t.hour_lt
  have h2 := t.minute_lt
  have h3 := t.second_lt
  unfold secondOfDay
  omega

/-- **The second of the instant of a second.** -/
theorem seconds_ofSeconds (n : ℕ) : (ofSeconds n).seconds = n := by
  unfold ofSeconds seconds secondOfDay
  dsimp only
  rw [Date.days_ofDays]
  omega

theorem seconds_injective : Function.Injective seconds := by
  intro a b h
  have ha := a.secondOfDay_lt
  have hb := b.secondOfDay_lt
  unfold seconds at h
  have hdays : a.date.days = b.date.days := by omega
  have hday : a.secondOfDay = b.secondOfDay := by omega
  have h1 := a.minute_lt
  have h2 := b.minute_lt
  have h3 := a.second_lt
  have h4 := b.second_lt
  unfold secondOfDay at hday
  exact Stamp.ext (Date.days_injective hdays) (by omega) (by omega) (by omega)

/-- The year of an instant before the year 10000. -/
theorem year_lt_of_seconds {t : Stamp} (h : t.seconds < 86400 * daysBeforeYear 10000) :
    t.date.year < 10000 := by
  by_contra hy
  have := daysBeforeYear_mono (not_lt.1 hy)
  unfold seconds Date.days at h
  omega

end Stamp

/-! ## Text -/

/-- `YYYY-MM-DD`. -/
def Date.text (d : Date) : List Char :=
  digits 4 d.year ++ '-' :: (digits 2 d.month ++ '-' :: digits 2 d.day)

/-- `hh:mm:ss`. -/
def Stamp.timeText (t : Stamp) : List Char :=
  digits 2 t.hour ++ ':' :: (digits 2 t.minute ++ ':' :: digits 2 t.second)

/-- `YYYY-MM-DD`, a separator, `hh:mm:ss`. -/
def Stamp.text (sep : Char) (t : Stamp) : List Char := t.date.text ++ sep :: t.timeText

theorem Date.length_text (d : Date) : d.text.length = 10 := by
  unfold Date.text
  simp only [List.length_append, List.length_cons, length_digits]

theorem Stamp.length_timeText (t : Stamp) : t.timeText.length = 8 := by
  unfold Stamp.timeText
  simp only [List.length_append, List.length_cons, length_digits]

theorem Date.month_lt (d : Date) : d.month < 10 ^ 2 := by
  have := d.month_le
  omega

/-- No month has more than 31 days. -/
theorem monthDays_le (leap : Bool) (month : ℕ) : monthDays leap month ≤ 31 := by
  unfold monthDays
  split_ifs <;> omega

theorem Date.day_lt (d : Date) : d.day < 10 ^ 2 := by
  have h := d.day_le
  have := monthDays_le (isLeap d.year) d.month
  omega

/-- Texts of dates, with anything behind them. -/
theorem Date.text_append_lt {a b : Date} (ha : a.year < 10000) (hb : b.year < 10000) {u v : List Char} :
    a.text ++ u < b.text ++ v ↔ a.Before b ∨ a = b ∧ u < v := by
  unfold Date.text Date.Before
  simp only [List.append_assoc, List.cons_append]
  rw [digits_append_lt 4 ha hb, List.cons_lt_cons_self, digits_append_lt 2 a.month_lt b.month_lt,
    List.cons_lt_cons_self, digits_append_lt 2 a.day_lt b.day_lt, Date.ext_iff]
  tauto

/-- **Texts are in order exactly when the instants are**, whatever stands behind equal ones. -/
theorem Stamp.text_append_lt {sep : Char} {s t : Stamp} (hs : s.date.year < 10000)
    (ht : t.date.year < 10000) {u v : List Char} :
    s.text sep ++ u < t.text sep ++ v ↔ s.seconds < t.seconds ∨ s = t ∧ u < v := by
  have h1 := s.hour_lt
  have h2 := t.hour_lt
  have h3 := s.minute_lt
  have h4 := t.minute_lt
  have h5 := s.second_lt
  have h6 := t.second_lt
  have hds := s.secondOfDay_lt
  have hdt := t.secondOfDay_lt
  have htime : s.timeText ++ u < t.timeText ++ v ↔ s.secondOfDay < t.secondOfDay ∨
      (s.hour = t.hour ∧ s.minute = t.minute ∧ s.second = t.second) ∧ u < v := by
    unfold Stamp.timeText Stamp.secondOfDay
    simp only [List.append_assoc, List.cons_append]
    rw [digits_append_lt 2 (by omega) (by omega), List.cons_lt_cons_self,
      digits_append_lt 2 (by omega) (by omega), List.cons_lt_cons_self,
      digits_append_lt 2 (by omega) (by omega)]
    by_cases huv : u < v
    · simp only [huv, and_true]
      omega
    · simp only [huv, and_false, or_false]
      omega
  unfold Stamp.text
  rw [List.append_assoc, List.append_assoc, Date.text_append_lt hs ht, List.cons_append, List.cons_append,
    List.cons_lt_cons_self, htime, ← Date.days_lt_iff, Stamp.ext_iff, ← Date.days_injective.eq_iff]
  unfold Stamp.seconds
  by_cases huv : u < v
  · simp only [huv, and_true]
    omega
  · simp only [huv, and_false, or_false]
    omega

/-- **Texts are in order exactly when the instants are.** -/
theorem Stamp.text_lt_iff {sep : Char} {s t : Stamp} (hs : s.date.year < 10000) (ht : t.date.year < 10000) :
    s.text sep < t.text sep ↔ s.seconds < t.seconds := by
  have h : s.text sep ++ [] < t.text sep ++ [] ↔ _ := Stamp.text_append_lt hs ht
  simpa using h

/-! ## Reading -/

/-- Reads one character. -/
def readChar (c : Char) : List Char → Option (List Char)
  | [] => none
  | x :: l => if x = c then some l else none

/-- Reads an instant, with the separator between its date and its time. -/
def readStamp (sep : Char) (l : List Char) : Option (Stamp × List Char) := do
  let (year, l) ← readDigits 4 0 l
  let l ← readChar '-' l
  let (month, l) ← readDigits 2 0 l
  let l ← readChar '-' l
  let (day, l) ← readDigits 2 0 l
  let l ← readChar sep l
  let (hour, l) ← readDigits 2 0 l
  let l ← readChar ':' l
  let (minute, l) ← readDigits 2 0 l
  let l ← readChar ':' l
  let (second, l) ← readDigits 2 0 l
  if h : (1 ≤ year ∧ 1 ≤ month ∧ month ≤ 12 ∧ 1 ≤ day ∧ day ≤ monthDays (isLeap year) month) ∧
      hour < 24 ∧ minute < 60 ∧ second < 60 then
    some (⟨⟨year, month, day, h.1.1, h.1.2.1, h.1.2.2.1, h.1.2.2.2.1, h.1.2.2.2.2⟩,
      hour, minute, second, h.2.1, h.2.2.1, h.2.2.2⟩, l)
  else none

theorem readDigits_text {k n : ℕ} (h : n < 10 ^ k) (l : List Char) :
    readDigits k 0 (digits k n ++ l) = some (n, l) := by
  have := readDigits_digits k 0 0 l h
  rw [Nat.add_zero, Nat.mul_zero, Nat.zero_add] at this
  exact this

theorem readChar_cons (c : Char) (l : List Char) : readChar c (c :: l) = some l := if_pos rfl

/-- **Reading undoes writing.** -/
theorem readStamp_text {sep : Char} {t : Stamp} (ht : t.date.year < 10000) (l : List Char) :
    readStamp sep (t.text sep ++ l) = some (t, l) := by
  have h1 := t.hour_lt
  have h2 := t.minute_lt
  have h3 := t.second_lt
  have hvalid : (1 ≤ t.date.year ∧ 1 ≤ t.date.month ∧ t.date.month ≤ 12 ∧ 1 ≤ t.date.day ∧
      t.date.day ≤ monthDays (isLeap t.date.year) t.date.month) ∧
      t.hour < 24 ∧ t.minute < 60 ∧ t.second < 60 :=
    ⟨⟨t.date.year_pos, t.date.month_pos, t.date.month_le, t.date.day_pos, t.date.day_le⟩, h1, h2, h3⟩
  unfold readStamp Stamp.text Date.text Stamp.timeText
  simp only [List.append_assoc, List.cons_append, Option.bind_eq_bind, Option.bind_some, readChar_cons,
    readDigits_text (k := 4) ht, readDigits_text t.date.month_lt, readDigits_text t.date.day_lt,
    readDigits_text (k := 2) (show t.hour < 10 ^ 2 by omega),
    readDigits_text (k := 2) (show t.minute < 10 ^ 2 by omega),
    readDigits_text (k := 2) (show t.second < 10 ^ 2 by omega), dif_pos hvalid]

end Calendar
