import WardSweep.Time.Calendar
import WardSweep.Rust.Padded

/-!
# Timestamps

Snapshots carry the time they were taken at as ISO 8601 text in UTC.  The date is reckoned from the
day count in eras of four hundred years that begin in March.  It is the date the calendar gets to
from the first of January 1970 by one day after another, and until the year 10000 the texts sort as
the times do, which an intersection relies on for the span of its footprints.
-/

namespace WardSweep.Observe

open Utf8 Str Time

/-! ## The clock -/

/-- Days since the Unix epoch to a civil year, month and day: `civil_from_days`. -/
def civilFromDays (days : ℤ) : ℤ × ℕ × ℕ :=
  let shifted := days + 719468
  let era := (if 0 ≤ shifted then shifted else shifted - 146096).tdiv 146097
  let dayOfEra := (shifted - era * 146097).toNat
  let yearOfEra := (dayOfEra - dayOfEra / 1460 + dayOfEra / 36524 - dayOfEra / 146096) / 365
  let year := yearOfEra + era * 400
  let dayOfYear := dayOfEra - (365 * yearOfEra + yearOfEra / 4 - yearOfEra / 100)
  let monthPrime := (5 * dayOfYear + 2) / 153
  let day := dayOfYear - (153 * monthPrime + 2) / 5 + 1
  let month := if monthPrime < 10 then monthPrime + 3 else monthPrime - 9
  (if month ≤ 2 then year + 1 else year, month, day)

/-- A number filled up with zeros behind its sign: `{:0width}`. -/
def paddedInt (width : ℕ) (n : ℤ) : Text :=
  if n < 0 then '-' :: padded (width - 1) n.natAbs else padded width n.natAbs

/-- Unix milliseconds as an ISO 8601 UTC timestamp. -/
def fromUnixMillis (millis : ℕ) : Text :=
  let totalSeconds := Int.bmod (millis / 1000 : ℕ) (2 ^ 64)
  let subMillis := millis % 1000
  let days := totalSeconds / 86400
  let secondsOfDay := totalSeconds % 86400
  let (year, month, day) := civilFromDays days
  let hour := secondsOfDay / 3600
  let minute := secondsOfDay % 3600 / 60
  let second := secondsOfDay % 60
  paddedInt 4 year ++ '-' :: padded 2 month ++ '-' :: padded 2 day ++ 'T' :: paddedInt 2 hour ++
    ':' :: paddedInt 2 minute ++ ':' :: paddedInt 2 second ++ '.' :: padded 3 subMillis ++ ['Z']

/-! ## What it is meant to say -/

/-- The first day of the Unix epoch. -/
def epoch : Date := ⟨1970, 1, 1⟩

/-- A point in time by the calendar and the clock. -/
structure Instant where
  date : Date
  hour : ℕ
  minute : ℕ
  second : ℕ
  milli : ℕ
  deriving DecidableEq, Repr

/-- The instant so many milliseconds after the start of the epoch. -/
structure Instant.IsAfter (instant : Instant) (millis : ℕ) : Prop where
  counted : ∃ days, instant.date = Date.next^[days] epoch ∧
    millis = (((days * 24 + instant.hour) * 60 + instant.minute) * 60 + instant.second) * 1000 +
      instant.milli
  hour_lt : instant.hour < 24
  minute_lt : instant.minute < 60
  second_lt : instant.second < 60
  milli_lt : instant.milli < 1000

/-- `YYYY-MM-DDTHH:MM:SS.mmmZ`, each part by its last digits. -/
def Instant.iso (instant : Instant) : Text :=
  fixedDigits 4 instant.date.year ++ '-' :: fixedDigits 2 instant.date.month ++
    '-' :: fixedDigits 2 instant.date.day ++ 'T' :: fixedDigits 2 instant.hour ++
    ':' :: fixedDigits 2 instant.minute ++ ':' :: fixedDigits 2 instant.second ++
    '.' :: fixedDigits 3 instant.milli ++ ['Z']

/-! ## The date -/

/-- The year of an era a day is in, as `civil_from_days` has it. -/
def yearOfEra (dayOfEra : ℕ) : ℕ :=
  (dayOfEra - dayOfEra / 1460 + dayOfEra / 36524 - dayOfEra / 146096) / 365

/-- Centuries, fours of years and days of an era. -/
theorem exists_parts_of_era {dayOfEra : ℕ} (h : dayOfEra < 146097) :
    ∃ century four rest, century ≤ 3 ∧ four ≤ 24 ∧ rest ≤ 1460 ∧
      (century = 3 ∨ four < 24 ∨ rest < 1460) ∧
      dayOfEra = 36524 * century + 1461 * four + rest := by
  refine ⟨min (dayOfEra / 36524) 3, (dayOfEra - 36524 * min (dayOfEra / 36524) 3) / 1461,
    (dayOfEra - 36524 * min (dayOfEra / 36524) 3) % 1461, ?_, ?_, ?_, ?_, ?_⟩ <;> omega

/-- The corrections take out just the leap days that have passed. -/
theorem yearOfEra_eq {century four rest : ℕ} (hcentury : century ≤ 3) (hfour : four ≤ 24)
    (hrest : rest ≤ 1460) (hlast : century = 3 ∨ four < 24 ∨ rest < 1460) :
    yearOfEra (36524 * century + 1461 * four + rest) =
      100 * century + 4 * four + min (rest / 365) 3 := by
  unfold yearOfEra
  generalize hday : 36524 * century + 1461 * four + rest = day
  have hfours : day / 1460 = 25 * century + four + (24 * century + four + rest) / 1460 := by omega
  have hcenturies : day / 36524 - day / 146096 = century := by omega
  have hdays : day - day / 1460 + day / 36524 - day / 146096 =
      36500 * century + 1460 * four + rest - (24 * century + four + rest) / 1460 := by omega
  rw [hdays]
  omega

theorem yearStart_parts {century four year : ℕ} (hcentury : century ≤ 3) (hfour : four ≤ 24)
    (hyear : year ≤ 3) :
    yearStart (100 * century + 4 * four + year) = 36524 * century + 1461 * four + 365 * year := by
  have hfours : (100 * century + 4 * four + year) / 4 = 25 * century + four := by omega
  have hcenturies : (100 * century + 4 * four + year) / 100 = century := by omega
  have hera : (100 * century + 4 * four + year) / 400 = 0 := by omega
  unfold yearStart
  omega

/-- The day lies in the year found for it. -/
theorem yearOfEra_spec {dayOfEra : ℕ} (h : dayOfEra < 146097) :
    yearStart (yearOfEra dayOfEra) ≤ dayOfEra ∧ dayOfEra < yearStart (yearOfEra dayOfEra + 1) := by
  obtain ⟨century, four, rest, hcentury, hfour, hrest, hlast, rfl⟩ := exists_parts_of_era h
  rw [yearOfEra_eq hcentury hfour hrest hlast, yearStart_succ,
    yearStart_parts hcentury hfour (by omega)]
  constructor
  · omega
  · by_cases hday : rest = 1460
    · -- The last day of four years is a leap day, but for three of the centuries.
      have hleap : IsLeap (100 * century + 4 * four + min (rest / 365) 3 + 1) := by
        constructor <;> omega
      rw [if_pos hleap]
      omega
    · omega

theorem toNat_sub_era (era dayOfEra : ℕ) :
    (((146097 * era + dayOfEra : ℕ) : ℤ) - era * 146097).toNat = dayOfEra := by
  omega

/-- The date of a day, counted from the first of March of the year 0. -/
theorem civilFromDays_eq {days year dayOfYear : ℕ}
    (hday : dayOfYear < 365 + if IsLeap (year + 1) then 1 else 0)
    (h : days + 719468 = yearStart year + dayOfYear) :
    civilFromDays days = (((marchDate year dayOfYear).year : ℤ),
      (marchDate year dayOfYear).month, (marchDate year dayOfYear).day) := by
  have hsplit : year = year % 400 + 400 * (year / 400) := by omega
  have hstart : yearStart year = yearStart (year % 400) + 146097 * (year / 400) := by
    rw [← yearStart_add_era, ← hsplit]
  have hnext : yearStart (year + 1) = yearStart (year % 400 + 1) + 146097 * (year / 400) := by
    rw [← yearStart_add_era]
    congr 1
    omega
  have hyear := yearStart_succ year
  -- The day of the era, and its year there.
  obtain ⟨dayOfEra, hdayOfEra⟩ : ∃ dayOfEra, dayOfEra = yearStart (year % 400) + dayOfYear :=
    ⟨_, rfl⟩
  have hend : dayOfEra < yearStart (year % 400 + 1) := by omega
  have hlast : yearStart (year % 400 + 1) ≤ yearStart 400 :=
    strictMono_yearStart.monotone (by omega)
  rw [show yearStart 400 = 146097 by decide] at hlast
  have hyearOfEra : yearOfEra dayOfEra = year % 400 := by
    have hspec := yearOfEra_spec (hend.trans_le hlast)
    exact year_unique hspec.1 hspec.2 (by omega) hend
  have hshifted : (days : ℤ) + 719468 = ((146097 * (year / 400) + dayOfEra : ℕ) : ℤ) := by
    rw [hdayOfEra]
    omega
  have hera : (if 0 ≤ (days : ℤ) + 719468 then (days : ℤ) + 719468
      else (days : ℤ) + 719468 - 146096).tdiv 146097 = (year / 400 : ℕ) := by
    rw [if_pos (by omega), hshifted, Int.tdiv_eq_ediv_of_nonneg (by omega)]
    omega
  have hdayInt : ((days : ℤ) + 719468 - (year / 400 : ℕ) * 146097).toNat = dayOfEra := by
    rw [hshifted, toNat_sub_era]
  have hdayOfYear : dayOfEra - (365 * yearOfEra dayOfEra + yearOfEra dayOfEra / 4 -
      yearOfEra dayOfEra / 100) = dayOfYear := by
    have hcommon : yearStart (year % 400) =
        365 * (year % 400) + year % 400 / 4 - year % 400 / 100 := by
      rw [yearStart, Nat.div_eq_of_lt (Nat.mod_lt year (by decide)), add_zero]
    rw [hyearOfEra, hdayOfEra, hcommon, Nat.add_sub_cancel_left]
  have hyearInt : ((yearOfEra dayOfEra : ℕ) : ℤ) + (year / 400 : ℕ) * 400 = year := by
    rw [hyearOfEra]
    omega
  unfold yearOfEra at hdayOfYear hyearInt
  unfold civilFromDays
  simp only [hera, hdayInt, hdayOfYear, hyearInt]
  refine Prod.ext ?_ rfl
  change (if (monthDay dayOfYear).1 ≤ 2 then (year : ℤ) + 1 else year) =
    ((if (monthDay dayOfYear).1 ≤ 2 then year + 1 else year : ℕ) : ℤ)
  split <;> simp

/-- The calendar gets to each day of a year from March in its turn. -/
theorem exists_iterate_next_epoch (days : ℕ) : ∃ year dayOfYear,
    dayOfYear < 365 + (if IsLeap (year + 1) then 1 else 0) ∧
      days + 719468 = yearStart year + dayOfYear ∧
      Date.next^[days] epoch = marchDate year dayOfYear := by
  induction days with
  | zero => exact ⟨1969, 306, by decide, by decide, by decide⟩
  | succ days ih =>
    obtain ⟨year, dayOfYear, hday, hcount, hdate⟩ := ih
    rw [Function.iterate_succ_apply', hdate]
    by_cases hlast : dayOfYear + 1 < 365 + if IsLeap (year + 1) then 1 else 0
    · exact ⟨year, dayOfYear + 1, hlast, by omega, next_marchDate hlast⟩
    · have hend : dayOfYear + 1 = 365 + if IsLeap (year + 1) then 1 else 0 := by omega
      refine ⟨year + 1, 0, by omega, ?_, next_marchDate_last hend⟩
      rw [yearStart_succ]
      omega

/-- The reckoning in eras gives the date the calendar gets to. -/
theorem civilFromDays_natCast (days : ℕ) :
    civilFromDays days = (((Date.next^[days] epoch).year : ℤ), (Date.next^[days] epoch).month,
      (Date.next^[days] epoch).day) := by
  obtain ⟨year, dayOfYear, hday, hcount, hdate⟩ := exists_iterate_next_epoch days
  rw [hdate, civilFromDays_eq hday hcount]

/-! ## The text -/

/-- The instant so many milliseconds after the start of the epoch. -/
def instantOf (millis : ℕ) : Instant where
  date := Date.next^[millis / 86400000] epoch
  hour := millis / 3600000 % 24
  minute := millis / 60000 % 60
  second := millis / 1000 % 60
  milli := millis % 1000

theorem isAfter_instantOf (millis : ℕ) : (instantOf millis).IsAfter millis := by
  constructor
  · refine ⟨millis / 86400000, rfl, ?_⟩
    unfold instantOf
    dsimp only
    omega
  · exact Nat.mod_lt _ (by decide)
  · exact Nat.mod_lt _ (by decide)
  · exact Nat.mod_lt _ (by decide)
  · exact Nat.mod_lt _ (by decide)

theorem paddedInt_natCast {width n : ℕ} (hwidth : 0 < width) (h : n < 10 ^ width) :
    paddedInt width n = fixedDigits width n := by
  rw [paddedInt, if_neg (by omega), Int.natAbs_natCast, padded_eq_fixedDigits hwidth h]

/-- The parts of an instant are no longer than the places they are written in. -/
structure Instant.Fits (instant : Instant) : Prop where
  year_lt : instant.date.year < 10 ^ 4
  month_lt : instant.date.month < 10 ^ 2
  day_lt : instant.date.day < 10 ^ 2
  hour_lt : instant.hour < 10 ^ 2
  minute_lt : instant.minute < 10 ^ 2
  second_lt : instant.second < 10 ^ 2
  milli_lt : instant.milli < 10 ^ 3

theorem isValid_epoch : epoch.IsValid := ⟨by decide, by decide, by decide, by decide⟩

/-- Before the year 10000 every part has its place. -/
theorem fits_instantOf {days millis : ℕ} (hdays : Date.next^[days] epoch = ⟨10000, 1, 1⟩)
    (h : millis < days * 86400000) : (instantOf millis).Fits := by
  have hvalid := Date.isValid_iterate_next isValid_epoch (millis / 86400000)
  have hearlier : millis / 86400000 < days := by omega
  have hbefore := Date.strictMono_iterate_next epoch hearlier
  have hafter := isAfter_instantOf millis
  refine ⟨?_, ?_, ?_, hafter.hour_lt.trans (by decide), hafter.minute_lt.trans (by decide),
    hafter.second_lt.trans (by decide), hafter.milli_lt⟩
  · dsimp only at hbefore
    rw [hdays, Date.toKey, Date.toKey, Prod.Lex.toLex_lt_toLex, Prod.Lex.toLex_lt_toLex] at hbefore
    have hmonth := hvalid.one_le_month
    have hday := hvalid.one_le_day
    change (Date.next^[millis / 86400000] epoch).year < 10000
    dsimp only at hbefore
    omega
  · exact hvalid.month_le.trans_lt (by decide)
  · exact hvalid.day_le.trans_lt (by decide)

theorem iterate_next_of_civilFromDays {days year month day : ℕ}
    (h : civilFromDays days = ((year : ℤ), month, day)) :
    Date.next^[days] epoch = ⟨year, month, day⟩ := by
  rw [civilFromDays_natCast, Prod.mk.injEq, Prod.mk.injEq] at h
  rw [Date.mk.injEq]
  exact ⟨by omega, h.2.1, h.2.2⟩

/-- The year 10000 begins after 2932897 days. -/
theorem iterate_next_yearTenThousand : Date.next^[2932897] epoch = ⟨10000, 1, 1⟩ :=
  iterate_next_of_civilFromDays (by decide +kernel)

theorem eq_of_yearTenThousand {days : ℕ} (h : Date.next^[days] epoch = ⟨10000, 1, 1⟩) :
    days = 2932897 :=
  (Date.strictMono_iterate_next epoch).injective
    (congrArg Date.toKey (h.trans iterate_next_yearTenThousand.symm))

theorem bmod_seconds {millis : ℕ} (h : millis < 2932897 * 86400000) :
    Int.bmod (millis / 1000 : ℕ) (2 ^ 64) = (millis / 1000 : ℕ) := by
  apply Int.bmod_eq_of_le <;> omega

theorem days_of_seconds (millis : ℕ) :
    ((millis / 1000 : ℕ) : ℤ) / 86400 = (millis / 86400000 : ℕ) := by
  omega

theorem hour_of_seconds (millis : ℕ) :
    ((millis / 1000 : ℕ) : ℤ) % 86400 / 3600 = (millis / 3600000 % 24 : ℕ) := by
  omega

theorem minute_of_seconds (millis : ℕ) :
    ((millis / 1000 : ℕ) : ℤ) % 86400 % 3600 / 60 = (millis / 60000 % 60 : ℕ) := by
  omega

theorem second_of_seconds (millis : ℕ) :
    ((millis / 1000 : ℕ) : ℤ) % 86400 % 60 = (millis / 1000 % 60 : ℕ) := by
  omega

/-- What is written is the date and the time of day. -/
theorem fromUnixMillis_eq_iso {days millis : ℕ}
    (hdays : Date.next^[days] epoch = ⟨10000, 1, 1⟩) (h : millis < days * 86400000) :
    fromUnixMillis millis = (instantOf millis).iso := by
  obtain ⟨hyear, hmonth, hday, hhour, hminute, hsecond, hmilli⟩ := fits_instantOf hdays h
  rw [eq_of_yearTenThousand hdays] at h
  unfold fromUnixMillis
  unfold instantOf at hyear hmonth hday hhour hminute hsecond hmilli ⊢
  simp only [bmod_seconds h, days_of_seconds, hour_of_seconds, minute_of_seconds, second_of_seconds,
    civilFromDays_natCast]
  rw [@paddedInt_natCast 4 _ (by decide) hyear, @paddedInt_natCast 2 _ (by decide) hhour,
    @paddedInt_natCast 2 _ (by decide) hminute, @paddedInt_natCast 2 _ (by decide) hsecond,
    @padded_eq_fixedDigits 2 _ (by decide) hmonth, @padded_eq_fixedDigits 2 _ (by decide) hday,
    @padded_eq_fixedDigits 3 _ (by decide) hmilli]
  rfl

/-! ## The order -/

/-- The first part that differs decides between two texts. -/
theorem fixedDigits_append_lt {width m n : ℕ} (hn : n < 10 ^ width) {rest rest' : Text} (c : Char)
    (h : m < n ∨ m = n ∧ rest < rest') :
    fixedDigits width m ++ c :: rest < fixedDigits width n ++ c :: rest' := by
  rw [append_lt_append_iff (by simp)]
  cases h with
  | inl hless => exact Or.inl (fixedDigits_lt hless hn)
  | inr hsame => exact Or.inr ⟨by rw [hsame.1], List.cons_lt_cons_iff.mpr (Or.inr ⟨rfl, hsame.2⟩)⟩

/-- One date is before another by its year, or else by its month, or else by its day. -/
theorem lex_of_toKey_lt {date later : Date} (h : date.toKey < later.toKey) :
    date.year < later.year ∨ date.year = later.year ∧
      (date.month < later.month ∨ date.month = later.month ∧ date.day < later.day) := by
  rw [Date.toKey, Date.toKey, Prod.Lex.toLex_lt_toLex, Prod.Lex.toLex_lt_toLex] at h
  exact h

/-- Of two instants on one day the later has the later time. -/
theorem time_lt_of_lt {millis later : ℕ} (h : millis < later)
    (hday : millis / 86400000 = later / 86400000) :
    (instantOf millis).hour < (instantOf later).hour ∨
      (instantOf millis).hour = (instantOf later).hour ∧
        ((instantOf millis).minute < (instantOf later).minute ∨
          (instantOf millis).minute = (instantOf later).minute ∧
            ((instantOf millis).second < (instantOf later).second ∨
              (instantOf millis).second = (instantOf later).second ∧
                (instantOf millis).milli < (instantOf later).milli)) := by
  unfold instantOf
  dsimp only
  by_cases hhour : millis / 3600000 < later / 3600000
  · exact Or.inl (by omega)
  · have hsameHour : millis / 3600000 = later / 3600000 := by omega
    refine Or.inr ⟨by rw [hsameHour], ?_⟩
    by_cases hminute : millis / 60000 < later / 60000
    · exact Or.inl (by omega)
    · have hsameMinute : millis / 60000 = later / 60000 := by omega
      refine Or.inr ⟨by rw [hsameMinute], ?_⟩
      by_cases hsecond : millis / 1000 < later / 1000
      · exact Or.inl (by omega)
      · have hsameSecond : millis / 1000 = later / 1000 := by omega
        exact Or.inr ⟨by rw [hsameSecond], by omega⟩

/-- Later instants have later texts. -/
theorem iso_lt_iso {millis later : ℕ} (h : millis < later) (hfits : (instantOf later).Fits) :
    (instantOf millis).iso < (instantOf later).iso := by
  simp only [Instant.iso, List.append_assoc, List.cons_append]
  by_cases hday : millis / 86400000 < later / 86400000
  · have hdate := lex_of_toKey_lt (Date.strictMono_iterate_next epoch hday)
    refine fixedDigits_append_lt hfits.year_lt '-'
      (hdate.imp_right (And.imp_right fun hmonth ↦ ?_))
    refine fixedDigits_append_lt hfits.month_lt '-'
      (hmonth.imp_right (And.imp_right fun hless ↦ ?_))
    exact fixedDigits_append_lt hfits.day_lt 'T' (Or.inl hless)
  · have hsame : millis / 86400000 = later / 86400000 := by omega
    have hdate : (instantOf millis).date = (instantOf later).date :=
      congrArg (fun days ↦ Date.next^[days] epoch) hsame
    have htime := time_lt_of_lt h hsame
    rw [hdate]
    refine fixedDigits_append_lt hfits.year_lt '-' (Or.inr ⟨rfl, ?_⟩)
    refine fixedDigits_append_lt hfits.month_lt '-' (Or.inr ⟨rfl, ?_⟩)
    refine fixedDigits_append_lt hfits.day_lt 'T' (Or.inr ⟨rfl, ?_⟩)
    refine fixedDigits_append_lt hfits.hour_lt ':'
      (htime.imp_right (And.imp_right fun hminute ↦ ?_))
    refine fixedDigits_append_lt hfits.minute_lt ':'
      (hminute.imp_right (And.imp_right fun hsecond ↦ ?_))
    refine fixedDigits_append_lt hfits.second_lt '.'
      (hsecond.imp_right (And.imp_right fun hmilli ↦ ?_))
    exact fixedDigits_append_lt hfits.milli_lt 'Z' (Or.inl hmilli)

/-- Up to the year 10000 a timestamp is the date and the time of day of its milliseconds, and later
ones are later as text. -/
theorem fromUnixMillis_exact {days millis : ℕ} (hdays : Date.next^[days] epoch = ⟨10000, 1, 1⟩)
    (h : millis < days * 86400000) :
    (∃ instant : Instant, instant.IsAfter millis ∧ instant.date.year < 10000 ∧
        fromUnixMillis millis = instant.iso) ∧
      ∀ later, millis < later → later < days * 86400000 →
        fromUnixMillis millis < fromUnixMillis later := by
  constructor
  · exact ⟨instantOf millis, isAfter_instantOf millis, (fits_instantOf hdays h).year_lt,
      fromUnixMillis_eq_iso hdays h⟩
  · intro later hlater hbound
    rw [fromUnixMillis_eq_iso hdays h, fromUnixMillis_eq_iso hdays hbound]
    exact iso_lt_iso hlater (fits_instantOf hdays hbound)

/-- A leap day, and the day after. -/
theorem fromUnixMillis_leapDay :
    (∃ instant : Instant, instant.IsAfter 1709164800000 ∧ instant.date.year < 10000 ∧
        fromUnixMillis 1709164800000 = instant.iso) ∧
      fromUnixMillis 1709164800000 < fromUnixMillis 1709251200000 := by
  have hexact :=
    @fromUnixMillis_exact 2932897 1709164800000 iterate_next_yearTenThousand (by decide)
  exact ⟨hexact.1, hexact.2 1709251200000 (by decide) (by decide)⟩

example : fromUnixMillis 1709164800000 = "2024-02-29T00:00:00.000Z".toList := by decide +kernel

end WardSweep.Observe
