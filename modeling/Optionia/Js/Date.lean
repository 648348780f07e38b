import Mathlib.Tactic.IntervalCases
import Optionia.Lib.Decimal
/-!
# Instants and their ISO text

A `Date` that is valid is a number of milliseconds of which the language has
the day. Days are counted in eras of four hundred years that begin in March, so
that a leap day is the last of its year. The text of an instant is read back
as the instant (`parse_toISOString`).
-/

namespace Optionia.Js

/-! ## The calendar -/

/-- The years of an era before the year that has a day of it. -/
def yearOfEra (day : ℕ) : ℕ :=
  let century := min (day / 36524) 3
  let rest := day - century * 36524
  100 * century + 4 * (rest / 1461) + min (rest % 1461 / 365) 3

/-- The days of an era before a year of it. -/
def daysBefore (year : ℕ) : ℕ := 365 * year + year / 4 - year / 100

/-- The day of a year, among the days of its era. -/
def dayOfYear (day : ℕ) : ℕ := day - daysBefore (yearOfEra day)

/-- A day of the calendar. -/
structure Civil where
  year : ℤ
  month : ℕ
  day : ℕ
  deriving DecidableEq

def civilIn (era : ℤ) (day : ℕ) : Civil :=
  let month := (5 * dayOfYear day + 2) / 153
  { year := yearOfEra day + era * 400 + if month < 10 then 0 else 1
    month := if month < 10 then month + 3 else month - 9
    day := dayOfYear day - (153 * month + 2) / 5 + 1 }

/-- The day so many days after 1 January 1970. -/
def civilOf (days : ℤ) : Civil :=
  civilIn ((days + 719468) / 146097) ((days + 719468) % 146097).toNat

/-- The days from 1 January 1970 to a day. -/
def daysOf (c : Civil) : ℤ :=
  let year := if c.month ≤ 2 then c.year - 1 else c.year
  let month := if 2 < c.month then c.month - 3 else c.month + 9
  year / 400 * 146097 +
    (daysBefore (year % 400).toNat + ((153 * month + 2) / 5 + c.day - 1) : ℕ) - 719468

theorem daysBefore_parts {century quad year : ℕ} (hquad : quad ≤ 24) (hyear : year ≤ 3) :
    daysBefore (100 * century + 4 * quad + year) =
      36524 * century + 1461 * quad + 365 * year := by
  have hfour : (100 * century + 4 * quad + year) / 4 = 25 * century + quad := by omega
  have hhundred : (100 * century + 4 * quad + year) / 100 = century := by omega
  rw [daysBefore, hfour, hhundred]
  omega

/-- The year of a day of an era is one of its years, and the day one of its
days. -/
theorem yearOfEra_spec {day : ℕ} (h : day < 146097) :
    yearOfEra day < 400 ∧ daysBefore (yearOfEra day) ≤ day ∧ dayOfYear day ≤ 365 := by
  have hcentury : min (day / 36524) 3 ≤ 3 ∧ min (day / 36524) 3 * 36524 ≤ day ∧
      day - min (day / 36524) 3 * 36524 ≤ 36524 := by omega
  unfold dayOfYear yearOfEra
  dsimp only
  generalize min (day / 36524) 3 = century at hcentury ⊢
  have hrest : (day - century * 36524) / 1461 ≤ 24 := by omega
  have hyear : min ((day - century * 36524) % 1461 / 365) 3 ≤ 3 := by omega
  rw [daysBefore_parts hrest hyear]
  omega

theorem day_lt (days : ℤ) : ((days + 719468) % 146097).toNat < 146097 := by omega

theorem month_bounds {n : ℕ} (h : n ≤ 365) :
    (5 * n + 2) / 153 ≤ 11 ∧ n - (153 * ((5 * n + 2) / 153) + 2) / 5 + 1 ≤ 31 := by omega

theorem civilIn_bounds (era : ℤ) {day : ℕ} (h : day < 146097) :
    (civilIn era day).month ≤ 12 ∧ (civilIn era day).day ≤ 31 := by
  obtain ⟨hmonth, hday⟩ := month_bounds (yearOfEra_spec h).2.2
  refine ⟨?_, hday⟩
  unfold civilIn
  dsimp only
  split <;> omega

theorem day_of_month (n : ℕ) :
    (153 * ((5 * n + 2) / 153) + 2) / 5 + (n - (153 * ((5 * n + 2) / 153) + 2) / 5 + 1) - 1 =
      n := by
  omega

theorem daysOf_civilIn (era : ℤ) {day : ℕ} (h : day < 146097) :
    daysOf (civilIn era day) = era * 146097 + day - 719468 := by
  obtain ⟨hyear, hbefore, hof⟩ := yearOfEra_spec h
  have hday : daysBefore (yearOfEra day) + dayOfYear day = day := by
    rw [dayOfYear]
    omega
  have hmonth := day_of_month (dayOfYear day)
  unfold daysOf civilIn
  dsimp only
  generalize dayOfYear day = rest at hof hday hmonth ⊢
  generalize yearOfEra day = year at hyear hbefore hday ⊢
  have hera : ((year : ℤ) + era * 400) / 400 = era ∧
      (((year : ℤ) + era * 400) % 400).toNat = year := by omega
  -- The month tells on which side of the new year the day stands.
  by_cases hten : (5 * rest + 2) / 153 < 10
  · have hafter : ¬ (5 * rest + 2) / 153 + 3 ≤ 2 := by omega
    have hmarch : 2 < (5 * rest + 2) / 153 + 3 := by omega
    simp only [if_pos hten, if_neg hafter, if_pos hmarch, Nat.add_sub_cancel, add_zero]
    rw [hmonth, hera.1, hera.2, hday]
  · have hafter : (5 * rest + 2) / 153 - 9 ≤ 2 := by omega
    have hmarch : ¬ 2 < (5 * rest + 2) / 153 - 9 := by omega
    have hback : (5 * rest + 2) / 153 - 9 + 9 = (5 * rest + 2) / 153 := by omega
    simp only [if_neg hten, if_pos hafter, if_neg hmarch, hback, add_sub_cancel_right]
    rw [hmonth, hera.1, hera.2, hday]

/-- **A day of the calendar is found again.** -/
theorem daysOf_civilOf (days : ℤ) : daysOf (civilOf days) = days := by
  have hback : (days + 719468) / 146097 * 146097 + (((days + 719468) % 146097).toNat : ℤ) - 719468 =
      days := by omega
  rw [civilOf, daysOf_civilIn _ (day_lt days), hback]

/-! ## Days that exist -/

def daysIn (year : ℤ) (month : ℕ) : ℕ :=
  if month = 2 then if year % 4 = 0 ∧ (year % 100 ≠ 0 ∨ year % 400 = 0) then 29 else 28
  else if month = 4 ∨ month = 6 ∨ month = 9 ∨ month = 11 then 30 else 31

/-- A year of an era is found by any of its days; the last of a leap year is
there only in one. -/
theorem yearOfEra_daysBefore {year rest : ℕ} (hyear : year < 400) (hrest : rest ≤ 364 ∨
    rest = 365 ∧ (year + 1) % 4 = 0 ∧ ((year + 1) % 100 ≠ 0 ∨ year = 399)) :
    yearOfEra (daysBefore year + rest) = year ∧ daysBefore year + rest < 146097 := by
  obtain ⟨century, quad, single, hquad, hsingle, rfl⟩ : ∃ century quad single,
      quad ≤ 24 ∧ single ≤ 3 ∧ year = 100 * century + 4 * quad + single :=
    ⟨year / 100, year % 100 / 4, year % 4, by omega, by omega, by omega⟩
  rw [daysBefore_parts hquad hsingle]
  have hwithin : 1461 * quad + 365 * single + rest ≤ 36523 ∨
      1461 * quad + 365 * single + rest = 36524 ∧ century = 3 := by
    rcases hrest with hrest | ⟨hrest, hleap, hcentury⟩ <;> omega
  have hcentury : min ((36524 * century + 1461 * quad + 365 * single + rest) / 36524) 3 =
      century := by omega
  have hback : 36524 * century + 1461 * quad + 365 * single + rest - century * 36524 =
      1461 * quad + (365 * single + rest) := by omega
  have hshort : 365 * single + rest ≤ 1460 := by omega
  unfold yearOfEra
  dsimp only
  rw [hcentury, hback]
  omega

/-- **A day that the calendar has is found by its number.** -/
theorem civilOf_daysOf {c : Civil} (hmonth : 1 ≤ c.month ∧ c.month ≤ 12)
    (hday : 1 ≤ c.day ∧ c.day ≤ daysIn c.year c.month) : civilOf (daysOf c) = c := by
  obtain ⟨year, month, day⟩ := c
  dsimp only at hmonth hday
  obtain ⟨shifted, hshifted⟩ : ∃ shifted, shifted = if 2 < month then month - 3 else month + 9 :=
    ⟨_, rfl⟩
  obtain ⟨from', hfrom⟩ : ∃ from', from' = if month ≤ 2 then year - 1 else year := ⟨_, rfl⟩
  obtain ⟨rest, hrest⟩ : ∃ rest, rest = (153 * shifted + 2) / 5 + day - 1 := ⟨_, rfl⟩
  have hof : (5 * rest + 2) / 153 = shifted ∧ rest - (153 * shifted + 2) / 5 + 1 = day ∧
      (rest ≤ 364 ∨ rest = 365 ∧ (from' + 1) % 4 = 0 ∧
        ((from' + 1) % 100 ≠ 0 ∨ (from' + 1) % 400 = 0)) := by
    unfold daysIn at hday
    obtain ⟨hlow, hhigh⟩ := hmonth
    interval_cases month <;> simp at hshifted hfrom hday <;> subst hshifted hfrom <;>
      first | omega | (split_ifs at hday <;> omega)
  have hlast : rest ≤ 364 ∨ rest = 365 ∧ ((from' % 400).toNat + 1) % 4 = 0 ∧
      (((from' % 400).toNat + 1) % 100 ≠ 0 ∨ (from' % 400).toNat = 399) := by omega
  obtain ⟨hyear, hera⟩ := yearOfEra_daysBefore (by omega : (from' % 400).toNat < 400) hlast
  have hdays : daysOf ⟨year, month, day⟩ =
      from' / 400 * 146097 + (daysBefore (from' % 400).toNat + rest : ℕ) - 719468 := by
    rw [hrest, hshifted, hfrom]
    rfl
  have hquotient : (daysOf ⟨year, month, day⟩ + 719468) / 146097 = from' / 400 ∧
      ((daysOf ⟨year, month, day⟩ + 719468) % 146097).toNat =
        daysBefore (from' % 400).toNat + rest := by
    rw [hdays]
    omega
  have hdayOf : dayOfYear (daysBefore (from' % 400).toNat + rest) = rest := by
    rw [dayOfYear, hyear]
    omega
  rw [civilOf, hquotient.1, hquotient.2]
  unfold civilIn
  dsimp only
  rw [hdayOf, hof.1, hyear, hof.2.1]
  congr 1
  · split_ifs at hshifted hfrom ⊢ <;> omega
  · split_ifs at hshifted ⊢ <;> omega

/-! ## Instants -/

/-- A valid `Date`: the milliseconds of `getTime`. -/
structure Instant where
  ms : ℤ
  /-- As many as a `Date` has. -/
  within : |ms| ≤ 8640000000000000
  deriving DecidableEq

/-- A number in so many digits, zeros before it. -/
def padded : ℕ → ℕ → List Char
  | 0, _ => []
  | width + 1, n => padded width (n / 10) ++ [Char.ofNat (48 + n % 10)]

/-- A year: four digits, or a sign and six. -/
def yearText (year : ℤ) : List Char :=
  if 0 ≤ year ∧ year ≤ 9999 then padded 4 year.toNat
  else (if year < 0 then '-' else '+') :: padded 6 year.natAbs

def toISOString (t : Instant) : List Char :=
  let c := civilOf (t.ms / 86400000)
  let time := (t.ms % 86400000).toNat
  yearText c.year ++ '-' :: (padded 2 c.month ++ '-' :: (padded 2 c.day ++
    'T' :: (padded 2 (time / 3600000) ++ ':' :: (padded 2 (time / 60000 % 60) ++
      ':' :: (padded 2 (time / 1000 % 60) ++ '.' :: (padded 3 (time % 1000) ++ ['Z']))))))

/-- So many digits, as a number, and what follows. -/
def number? (width : ℕ) (cs : List Char) : Option (ℕ × List Char) :=
  if (cs.take width).length = width ∧ (cs.take width).all Decimal.isDigit = true then
    some (Decimal.digitsValue (cs.take width), cs.drop width)
  else none

def mark? (c : Char) : List Char → Option (List Char)
  | [] => none
  | d :: cs => if d = c then some cs else none

/-- A mark and so many digits after it. -/
def field? (c : Char) (width : ℕ) (cs : List Char) : Option (ℕ × List Char) :=
  (mark? c cs).bind (number? width)

def year? (cs : List Char) : Option (ℤ × List Char) :=
  (((mark? '+' cs).bind (number? 6)).map fun p => ((p.1 : ℤ), p.2)).or
    ((((mark? '-' cs).bind (number? 6)).map fun p => (-(p.1 : ℤ), p.2)).or
      ((number? 4 cs).map fun p => ((p.1 : ℤ), p.2)))

/-- The instant of so many milliseconds, where a `Date` has it. -/
def timeClip (ms : ℤ) : Option Instant :=
  if h : |ms| ≤ 8640000000000000 then some ⟨ms, h⟩ else none

/-- `new Date(text)`, of a text in the form `toISOString` writes. A number that
is out of range counts on, to an instant whose text is another. -/
def parse (cs : List Char) : Option Instant := do
  let (year, cs) ← year? cs
  let (month, cs) ← field? '-' 2 cs
  let (day, cs) ← field? '-' 2 cs
  let (hour, cs) ← field? 'T' 2 cs
  let (minute, cs) ← field? ':' 2 cs
  let (second, cs) ← field? ':' 2 cs
  let (milli, cs) ← field? '.' 3 cs
  if cs = ['Z'] then
    timeClip (daysOf ⟨year, month, day⟩ * 86400000 +
      (hour * 3600000 + minute * 60000 + second * 1000 + milli : ℕ))
  else none

/-! ## Reading back -/

theorem length_padded (width n : ℕ) : (padded width n).length = width := by
  induction width generalizing n with
  | zero => rfl
  | succ width ih =>
    rw [padded, List.length_append, ih]
    rfl

theorem isDigit_digit : ∀ n < 10, Decimal.isDigit (Char.ofNat (48 + n)) = true ∧
    (Char.ofNat (48 + n)).toNat - 48 = n := by decide

theorem all_padded (width n : ℕ) : (padded width n).all Decimal.isDigit = true := by
  induction width generalizing n with
  | zero => rfl
  | succ width ih =>
    have hdigit := (isDigit_digit (n % 10) (Nat.mod_lt n (by decide))).1
    rw [padded, List.all_append, ih, List.all_cons, hdigit]
    rfl

theorem digitsValue_padded {width n : ℕ} (h : n < 10 ^ width) :
    Decimal.digitsValue (padded width n) = n := by
  induction width generalizing n with
  | zero =>
    rw [pow_zero] at h
    have hzero : n = 0 := by omega
    rw [hzero]
    rfl
  | succ width ih =>
    have hhead : n / 10 < 10 ^ width := by
      rw [pow_succ] at h
      omega
    have hdigit := (isDigit_digit (n % 10) (Nat.mod_lt n (by decide))).2
    have hlast : Decimal.digitsValue [Char.ofNat (48 + n % 10)] = n % 10 := by
      change 10 * 0 + ((Char.ofNat (48 + n % 10)).toNat - 48) = n % 10
      rw [hdigit]
      omega
    rw [padded, Decimal.digitsValue_append, ih hhead, hlast, List.length_singleton, pow_one]
    omega

/-- **Padded digits are read back.** -/
theorem number?_padded {width n : ℕ} (h : n < 10 ^ width) (rest : List Char) :
    number? width (padded width n ++ rest) = some (n, rest) := by
  have hlength := length_padded width n
  have htake : (padded width n ++ rest).take width = padded width n := by
    rw [List.take_append_of_le_length hlength.ge, List.take_of_length_le hlength.le]
  have hdrop : (padded width n ++ rest).drop width = rest := by
    exact List.drop_left' hlength
  rw [number?, htake, hdrop, if_pos ⟨hlength, all_padded width n⟩, digitsValue_padded h]

@[simp] theorem mark?_cons (c : Char) (cs : List Char) : mark? c (c :: cs) = some cs :=
  if_pos rfl

theorem field?_padded (c : Char) {width n : ℕ} (h : n < 10 ^ width) (rest : List Char) :
    field? c width (c :: (padded width n ++ rest)) = some (n, rest) := by
  rw [field?, mark?_cons, Option.bind_some, number?_padded h]

theorem mark?_padded {c : Char} (hc : Decimal.isDigit c = false) {width : ℕ}
    (hwidth : 0 < width) (n : ℕ) (rest : List Char) :
    mark? c (padded width n ++ rest) = none := by
  cases hcs : padded width n with
  | nil =>
    have hlength := length_padded width n
    rw [hcs, List.length_nil] at hlength
    omega
  | cons d cs =>
    have hall := all_padded width n
    rw [hcs, List.all_cons, Bool.and_eq_true] at hall
    refine if_neg fun hdc => ?_
    rw [hdc, hc] at hall
    exact Bool.false_ne_true hall.1

theorem year?_yearText {year : ℤ} (h : year.natAbs < 10 ^ 6) (rest : List Char) :
    year? (yearText year ++ rest) = some (year, rest) := by
  unfold year? yearText
  by_cases hfour : 0 ≤ year ∧ year ≤ 9999
  · have hlt : year.toNat < 10 ^ 4 := by omega
    rw [if_pos hfour, mark?_padded (by decide) (by decide), mark?_padded (by decide) (by decide),
      number?_padded hlt]
    change some ((year.toNat : ℤ), rest) = some (year, rest)
    rw [Int.toNat_of_nonneg hfour.1]
  · rw [if_neg hfour, List.cons_append]
    by_cases hneg : year < 0
    · have habs : -(year.natAbs : ℤ) = year := by omega
      have hplus : mark? '+' ('-' :: (padded 6 year.natAbs ++ rest)) = none := rfl
      rw [if_pos hneg, hplus, mark?_cons, Option.bind_some, number?_padded h]
      change some (-(year.natAbs : ℤ), rest) = some (year, rest)
      rw [habs]
    · have habs : (year.natAbs : ℤ) = year := by omega
      rw [if_neg hneg, mark?_cons, Option.bind_some, number?_padded h]
      change some ((year.natAbs : ℤ), rest) = some (year, rest)
      rw [habs]

theorem year_lt (t : Instant) : (civilOf (t.ms / 86400000)).year.natAbs < 10 ^ 6 := by
  have hms := abs_le.1 t.within
  have hera : -1000 ≤ (t.ms / 86400000 + 719468) / 146097 ∧
      (t.ms / 86400000 + 719468) / 146097 ≤ 1000 := by omega
  have hyear := (yearOfEra_spec (day_lt (t.ms / 86400000))).1
  change (((yearOfEra _ : ℕ) : ℤ) + (t.ms / 86400000 + 719468) / 146097 * 400 +
    if _ then (0 : ℤ) else 1).natAbs < 10 ^ 6
  split <;> omega

theorem time_parts (n : ℕ) :
    n / 3600000 * 3600000 + n / 60000 % 60 * 60000 + n / 1000 % 60 * 1000 + n % 1000 = n := by
  omega

/-- **An instant is read back from its text.** -/
theorem parse_toISOString (t : Instant) : parse (toISOString t) = some t := by
  obtain ⟨hmonth, hday⟩ := civilIn_bounds ((t.ms / 86400000 + 719468) / 146097)
    (day_lt (t.ms / 86400000))
  have hyear := year_lt t
  have htime : (t.ms % 86400000).toNat < 86400000 := by omega
  have hms : t.ms / 86400000 * 86400000 + (((t.ms % 86400000).toNat : ℕ) : ℤ) = t.ms := by omega
  have hclip : timeClip t.ms = some t := dif_pos t.within
  have hmonth' : (civilOf (t.ms / 86400000)).month < 10 ^ 2 := Nat.lt_of_le_of_lt hmonth (by decide)
  have hday' : (civilOf (t.ms / 86400000)).day < 10 ^ 2 := Nat.lt_of_le_of_lt hday (by decide)
  unfold parse toISOString
  dsimp only
  generalize (t.ms % 86400000).toNat = time at htime hms ⊢
  have hhour : time / 3600000 < 10 ^ 2 := by omega
  have hminute : time / 60000 % 60 < 10 ^ 2 := by omega
  have hsecond : time / 1000 % 60 < 10 ^ 2 := by omega
  have hmilli : time % 1000 < 10 ^ 3 := by omega
  rw [year?_yearText hyear]
  simp only [Option.bind_eq_bind, Option.bind_some, field?_padded _ hmonth', field?_padded _ hday',
    field?_padded _ hhour, field?_padded _ hminute, field?_padded _ hsecond,
    field?_padded _ hmilli]
  rw [if_pos trivial, time_parts]
  change timeClip (daysOf (civilOf (t.ms / 86400000)) * 86400000 + time) = some t
  rw [daysOf_civilOf, hms, hclip]

example : toISOString ⟨951782400000, by decide⟩ = "2000-02-29T00:00:00.000Z".toList := by
  decide

end Optionia.Js
