import Mathlib

/-!
# The proleptic Gregorian calendar

Dates go on by one day at a time, by the lengths of the months and the rule of the leap years.  Day
counts are easier from the first of March, where the leap day ends the year: a year then begins
`yearStart` days after the year 0, and its months lie in a pattern that no leap year disturbs.
-/

namespace WardSweep.Time

/-- Whether a year has a 29 February. -/
def IsLeap (year : ℕ) : Prop := year % 4 = 0 ∧ (year % 100 ≠ 0 ∨ year % 400 = 0)

instance : DecidablePred IsLeap := fun year ↦
  inferInstanceAs (Decidable (year % 4 = 0 ∧ (year % 100 ≠ 0 ∨ year % 400 = 0)))

def daysIn (year month : ℕ) : ℕ :=
  if month = 2 then if IsLeap year then 29 else 28
  else if month = 4 ∨ month = 6 ∨ month = 9 ∨ month = 11 then 30
  else 31

structure Date where
  year : ℕ
  month : ℕ
  day : ℕ
  deriving DecidableEq, Repr

namespace Date

/-- The day after. -/
def next (date : Date) : Date :=
  if date.day < daysIn date.year date.month then { date with day := date.day + 1 }
  else if date.month < 12 then ⟨date.year, date.month + 1, 1⟩
  else ⟨date.year + 1, 1, 1⟩

/-- A date the calendar has. -/
structure IsValid (date : Date) : Prop where
  one_le_month : 1 ≤ date.month
  month_le : date.month ≤ 12
  one_le_day : 1 ≤ date.day
  day_le : date.day ≤ 31

/-- What dates are ordered by. -/
def toKey (date : Date) : ℕ ×ₗ ℕ ×ₗ ℕ := toLex (date.year, toLex (date.month, date.day))

end Date

theorem daysIn_le (year month : ℕ) : daysIn year month ≤ 31 := by
  unfold daysIn
  split_ifs <;> omega

/-! ## Going on by days -/

namespace Date

theorem isValid_next {date : Date} (h : date.IsValid) : date.next.IsValid := by
  have hdays := daysIn_le date.year date.month
  obtain ⟨hmonth, hmonth', hday, hday'⟩ := h
  unfold next
  split_ifs
  · exact ⟨hmonth, hmonth', Nat.le_add_left 1 _, by dsimp only; omega⟩
  · exact ⟨Nat.le_add_left 1 _, by dsimp only; omega, le_refl 1, Nat.le_add_left 1 30⟩
  · exact ⟨le_refl 1, Nat.le_add_left 1 11, le_refl 1, Nat.le_add_left 1 30⟩

theorem isValid_iterate_next {date : Date} (h : date.IsValid) (days : ℕ) :
    (next^[days] date).IsValid := by
  induction days with
  | zero => exact h
  | succ days ih =>
    rw [Function.iterate_succ_apply']
    exact isValid_next ih

theorem toKey_lt_next (date : Date) : date.toKey < date.next.toKey := by
  unfold next toKey
  split_ifs
  · exact Prod.Lex.toLex_lt_toLex.mpr (Or.inr ⟨rfl, Prod.Lex.toLex_lt_toLex.mpr
      (Or.inr ⟨rfl, Nat.lt_succ_self _⟩)⟩)
  · exact Prod.Lex.toLex_lt_toLex.mpr (Or.inr ⟨rfl, Prod.Lex.toLex_lt_toLex.mpr
      (Or.inl (Nat.lt_succ_self _))⟩)
  · exact Prod.Lex.toLex_lt_toLex.mpr (Or.inl (Nat.lt_succ_self _))

/-- Later days have later dates. -/
theorem strictMono_iterate_next (date : Date) : StrictMono fun days ↦ (next^[days] date).toKey := by
  apply strictMono_nat_of_lt_succ
  intro days
  rw [Function.iterate_succ_apply']
  exact toKey_lt_next _

end Date

/-! ## Years from March -/

/-- How many days after the first of March of the year 0 a year begins, on the same day. -/
def yearStart (year : ℕ) : ℕ := 365 * year + year / 4 - year / 100 + year / 400

theorem div_succ (n k : ℕ) : (n + 1) / k = n / k + if (n + 1) % k = 0 then 1 else 0 := by
  rw [Nat.succ_div]
  simp only [Nat.dvd_iff_mod_eq_zero]

/-- A year from March is as long as the February that ends it. -/
theorem yearStart_succ (year : ℕ) :
    yearStart (year + 1) = yearStart year + 365 + if IsLeap (year + 1) then 1 else 0 := by
  have hfourth := div_succ year 4
  have hcentury := div_succ year 100
  have hera := div_succ year 400
  unfold yearStart
  by_cases hleap : IsLeap (year + 1)
  · rw [if_pos hleap]
    unfold IsLeap at hleap
    split_ifs at hfourth hcentury hera <;> omega
  · rw [if_neg hleap]
    unfold IsLeap at hleap
    split_ifs at hfourth hcentury hera <;> omega

theorem strictMono_yearStart : StrictMono yearStart := by
  apply strictMono_nat_of_lt_succ
  intro year
  rw [yearStart_succ]
  omega

/-- A day belongs to one year. -/
theorem year_unique {year year' days : ℕ} (h : yearStart year ≤ days)
    (hend : days < yearStart (year + 1)) (h' : yearStart year' ≤ days)
    (hend' : days < yearStart (year' + 1)) : year = year' := by
  have hle := strictMono_yearStart.lt_iff_lt.mp (h.trans_lt hend')
  have hge := strictMono_yearStart.lt_iff_lt.mp (h'.trans_lt hend)
  omega

/-- Every four hundred years are the same. -/
theorem yearStart_add_era (year era : ℕ) :
    yearStart (year + 400 * era) = yearStart year + 146097 * era := by
  unfold yearStart
  omega

/-- The month and the day of the month on a day of the year, counted from the first of March. -/
def monthDay (dayOfYear : ℕ) : ℕ × ℕ :=
  (if (5 * dayOfYear + 2) / 153 < 10 then (5 * dayOfYear + 2) / 153 + 3
    else (5 * dayOfYear + 2) / 153 - 9,
    dayOfYear - (153 * ((5 * dayOfYear + 2) / 153) + 2) / 5 + 1)

/-- The date of a day of a year from March. -/
def marchDate (year dayOfYear : ℕ) : Date :=
  ⟨if (monthDay dayOfYear).1 ≤ 2 then year + 1 else year, (monthDay dayOfYear).1,
    (monthDay dayOfYear).2⟩

/-- Up to the end of February the pattern of the months is that of a common year. -/
theorem monthDay_succ : ∀ dayOfYear < 364,
    (monthDay (dayOfYear + 1) = ((monthDay dayOfYear).1, (monthDay dayOfYear).2 + 1) ∧
      (monthDay dayOfYear).2 < daysIn 1 (monthDay dayOfYear).1) ∨
    ((monthDay dayOfYear).2 = daysIn 1 (monthDay dayOfYear).1 ∧ (monthDay dayOfYear).1 ≠ 2 ∧
      monthDay (dayOfYear + 1) = ((monthDay dayOfYear).1 % 12 + 1, 1) ∧
      (monthDay dayOfYear).1 ≤ 12) := by
  decide +kernel

theorem daysIn_eq {month : ℕ} (h : month ≠ 2) (year : ℕ) : daysIn year month = daysIn 1 month := by
  unfold daysIn
  rw [if_neg h, if_neg h]

theorem daysIn_one_le (year month : ℕ) : daysIn 1 month ≤ daysIn year month := by
  by_cases h : month = 2
  · subst h
    have hcommon : daysIn 1 2 = 28 := by decide
    rw [hcommon, daysIn, if_pos rfl]
    split <;> omega
  · exact (daysIn_eq h year).ge

/-- Within a year from March the day after has the next number. -/
theorem next_marchDate {year dayOfYear : ℕ}
    (h : dayOfYear + 1 < 365 + if IsLeap (year + 1) then 1 else 0) :
    (marchDate year dayOfYear).next = marchDate year (dayOfYear + 1) := by
  by_cases hlast : dayOfYear < 364
  · cases monthDay_succ dayOfYear hlast with
    | inl hsame =>
      have hroom : (marchDate year dayOfYear).day <
          daysIn (marchDate year dayOfYear).year (marchDate year dayOfYear).month :=
        hsame.2.trans_le (daysIn_one_le _ _)
      rw [Date.next, if_pos hroom, marchDate, marchDate, hsame.1]
    | inr hmonth =>
      obtain ⟨hend, hfebruary, hnext, hyear⟩ := hmonth
      have hfull : ¬ (marchDate year dayOfYear).day <
          daysIn (marchDate year dayOfYear).year (marchDate year dayOfYear).month := by
        rw [not_lt, show (marchDate year dayOfYear).month = (monthDay dayOfYear).1 from rfl,
          daysIn_eq hfebruary]
        exact hend.ge
      rw [Date.next, if_neg hfull, marchDate, marchDate, hnext]
      dsimp only
      split_ifs <;> congr 1 <;> omega
  · have hleap : IsLeap (year + 1) := by
      by_contra hcommon
      rw [if_neg hcommon] at h
      omega
    have hday : dayOfYear = 364 := by
      rw [if_pos hleap] at h
      omega
    subst hday
    simp [marchDate, monthDay, Date.next, daysIn, hleap]

/-- After the last day of a year from March comes the first of the next. -/
theorem next_marchDate_last {year dayOfYear : ℕ}
    (h : dayOfYear + 1 = 365 + if IsLeap (year + 1) then 1 else 0) :
    (marchDate year dayOfYear).next = marchDate (year + 1) 0 := by
  by_cases hleap : IsLeap (year + 1)
  · rw [if_pos hleap] at h
    obtain rfl : dayOfYear = 365 := by omega
    simp [marchDate, monthDay, Date.next, daysIn, hleap]
  · rw [if_neg hleap] at h
    obtain rfl : dayOfYear = 364 := by omega
    simp [marchDate, monthDay, Date.next, daysIn, hleap]

end WardSweep.Time
