import Mathlib

/-! The Gregorian calendar, over all years, and its days counted in years that begin in March. -/
namespace Calendar

structure Date where
  year : ℤ
  month : ℤ
  day : ℤ
  deriving DecidableEq, Repr

/-- The leap day of a year, if it has one. -/
def leapDay (year : ℤ) : ℤ := if year % 4 = 0 ∧ (year % 100 ≠ 0 ∨ year % 400 = 0) then 1 else 0

def daysInMonth (year month : ℤ) : ℤ :=
  if month = 2 then 28 + leapDay year
  else if month = 4 ∨ month = 6 ∨ month = 9 ∨ month = 11 then 30
  else 31

namespace Date

structure Valid (d : Date) : Prop where
  month : 1 ≤ d.month ∧ d.month ≤ 12
  day : 1 ≤ d.day ∧ d.day ≤ daysInMonth d.year d.month

/-- The next day of the calendar. -/
def next (d : Date) : Date :=
  if d.day < daysInMonth d.year d.month then ⟨d.year, d.month, d.day + 1⟩
  else if d.month < 12 then ⟨d.year, d.month + 1, 1⟩
  else ⟨d.year + 1, 1, 1⟩

end Date

theorem leapDay_range (year : ℤ) : 0 ≤ leapDay year ∧ leapDay year ≤ 1 := by
  unfold leapDay
  split <;> decide

/-! Years from the first of March on, whose leap day is their last. -/

/-- The days from 1 March of the year 0 to 1 March of a year. -/
def marchStart (year : ℤ) : ℤ := 365 * year + year / 4 - year / 100 + year / 400

theorem marchStart_succ (year : ℤ) :
    marchStart (year + 1) = marchStart year + 365 + leapDay (year + 1) := by
  unfold marchStart leapDay
  split <;> omega

theorem marchStart_mono {y y' : ℤ} (h : y ≤ y') : marchStart y ≤ marchStart y' := by
  unfold marchStart
  omega

/-- A day of a year from March on. -/
def InMarchYear (year day : ℤ) : Prop := 0 ≤ day ∧ day ≤ 364 + leapDay (year + 1)

/-- The days of a year come before those of a later one. -/
theorem marchStart_lt {y y' d d' : ℤ} (h : InMarchYear y d) (h' : InMarchYear y' d')
    (hlt : y < y') : marchStart y + d < marchStart y' + d' := by
  have hmono := marchStart_mono (show y + 1 ≤ y' by omega)
  rw [marchStart_succ] at hmono
  have := h.2
  have := h'.1
  omega

/-- Every day lies in one year. -/
theorem marchYear_unique {y y' d d' : ℤ} (h : InMarchYear y d) (h' : InMarchYear y' d')
    (heq : marchStart y + d = marchStart y' + d') : y = y' ∧ d = d' := by
  rcases lt_trichotomy y y' with hlt | rfl | hlt
  · exact absurd heq (ne_of_lt (marchStart_lt h h' hlt))
  · exact ⟨rfl, by omega⟩
  · exact absurd heq (ne_of_gt (marchStart_lt h' h hlt))

/-- The date of a day of a year from March on: the months have 153 days in every five. -/
def fromMarch (year day : ℤ) : Date :=
  let part := (5 * day + 2) / 153
  let month := if part < 10 then part + 3 else part - 9
  ⟨if month ≤ 2 then year + 1 else year, month, day - (153 * part + 2) / 5 + 1⟩

/-- The months from March on, the first being month 0. -/
def marchMonth (month : ℤ) : ℤ := if month ≤ 2 then month + 9 else month - 3

/-- The year from March on and its day. -/
def toMarch (d : Date) : ℤ × ℤ :=
  (if d.month ≤ 2 then d.year - 1 else d.year, (153 * marchMonth d.month + 2) / 5 + (d.day - 1))

theorem marchPart_range {year day : ℤ} (h : InMarchYear year day) :
    0 ≤ (5 * day + 2) / 153 ∧ (5 * day + 2) / 153 ≤ 11 := by
  have := leapDay_range (year + 1)
  obtain ⟨hfirst, hlast⟩ := h
  omega

theorem fromMarch_valid {year day : ℤ} (h : InMarchYear year day) : (fromMarch year day).Valid := by
  have hleap := leapDay_range (year + 1)
  obtain ⟨hlow, hhigh⟩ := marchPart_range h
  obtain ⟨hfirst, hlast⟩ := h
  generalize hpart : (5 * day + 2) / 153 = part at hlow hhigh
  constructor
  · simp only [fromMarch, hpart]
    interval_cases part <;> simp
  · simp only [fromMarch, hpart, daysInMonth]
    interval_cases part <;> simp <;> omega

theorem toMarch_fromMarch {year day : ℤ} (h : InMarchYear year day) :
    toMarch (fromMarch year day) = (year, day) := by
  obtain ⟨hlow, hhigh⟩ := marchPart_range h
  generalize hpart : (5 * day + 2) / 153 = part at hlow hhigh
  simp only [toMarch, fromMarch, marchMonth, hpart]
  interval_cases part <;> simp

/-- A date lies before the first day of the month after it. -/
theorem marchMonth_day {d : Date} (h : d.Valid) :
    0 ≤ d.day - 1 ∧
      (153 * marchMonth d.month + 2) / 5 + (d.day - 1) < (153 * (marchMonth d.month + 1) + 2) / 5 := by
  obtain ⟨year, month, day⟩ := d
  obtain ⟨⟨hlow, hhigh⟩, hfirst, hlast⟩ := h
  have hleap := leapDay_range year
  dsimp only at hlow hhigh hfirst hlast
  simp only [marchMonth]
  unfold daysInMonth at hlast
  interval_cases month <;> simp at hlast ⊢ <;> omega

theorem toMarch_inMarchYear {d : Date} (h : d.Valid) : InMarchYear (toMarch d).1 (toMarch d).2 := by
  obtain ⟨year, month, day⟩ := d
  obtain ⟨⟨hlow, hhigh⟩, hfirst, hlast⟩ := h
  have hleap := leapDay_range year
  have hleap' := leapDay_range (year + 1)
  dsimp only at hlow hhigh hfirst hlast
  simp only [InMarchYear, toMarch, marchMonth]
  unfold daysInMonth at hlast
  interval_cases month <;> simp at hlast ⊢ <;> omega

theorem fromMarch_toMarch {d : Date} (h : d.Valid) :
    fromMarch (toMarch d).1 (toMarch d).2 = d := by
  obtain ⟨hday, hnext⟩ := marchMonth_day h
  obtain ⟨hlow, hhigh⟩ := h.month
  obtain ⟨year, month, day⟩ := d
  dsimp only at hday hnext hlow hhigh
  have hpart : (5 * ((153 * marchMonth month + 2) / 5 + (day - 1)) + 2) / 153 = marchMonth month := by
    omega
  simp only [fromMarch, toMarch, hpart, Date.mk.injEq]
  unfold marchMonth
  split_ifs <;> omega

/-- Within a year from March on, dates follow each other. -/
theorem fromMarch_next {year day : ℤ} (h : InMarchYear year (day + 1)) (hday : 0 ≤ day) :
    (fromMarch year day).next = fromMarch year (day + 1) := by
  have hleap := leapDay_range (year + 1)
  obtain ⟨hlow, hhigh⟩ := marchPart_range h
  generalize hpart : (5 * (day + 1) + 2) / 153 = part at hlow hhigh
  have hlast := h.2
  have hbefore : (5 * day + 2) / 153 = part ∨
      ((5 * day + 2) / 153 = part - 1 ∧ day + 1 = (153 * part + 2) / 5) := by omega
  rcases hbefore with hbefore | ⟨hbefore, hfirst⟩
  · simp only [fromMarch, Date.next, daysInMonth, hpart, hbefore]
    interval_cases part <;> simp
    · omega
    all_goals rw [if_pos (by omega), Date.mk.injEq]; omega
  · have hpositive : 1 ≤ part := by omega
    simp only [fromMarch, Date.next, daysInMonth, hpart, hbefore]
    interval_cases part <;> simp <;> rw [if_neg (by omega), Date.mk.injEq] <;> omega

/-- The last day of February is followed by the first of March. -/
theorem fromMarch_next_year (year : ℤ) :
    (fromMarch year (364 + leapDay (year + 1))).next = fromMarch (year + 1) 0 := by
  obtain ⟨hlow, hhigh⟩ := leapDay_range (year + 1)
  have hpart : (5 * (364 + leapDay (year + 1)) + 2) / 153 = 11 := by omega
  simp only [fromMarch, Date.next, daysInMonth, hpart]
  simp
  omega

/-- The number of a date, counted from 1 March of the year 0. -/
def Date.dayNumber (d : Date) : ℤ := marchStart (toMarch d).1 + (toMarch d).2

theorem dayNumber_fromMarch {year day : ℤ} (h : InMarchYear year day) :
    (fromMarch year day).dayNumber = marchStart year + day := by
  rw [Date.dayNumber, toMarch_fromMarch h]

/-- Only one date has a given number. -/
theorem Date.dayNumber_inj {d d' : Date} (h : d.Valid) (h' : d'.Valid)
    (heq : d.dayNumber = d'.dayNumber) : d = d' := by
  obtain ⟨hyear, hday⟩ := marchYear_unique (toMarch_inMarchYear h) (toMarch_inMarchYear h') heq
  rw [← fromMarch_toMarch h, ← fromMarch_toMarch h', hyear, hday]

/-- The dates in their order. -/
def Date.Before (d d' : Date) : Prop :=
  d.year < d'.year ∨ d.year = d'.year ∧
    (d.month < d'.month ∨ d.month = d'.month ∧ d.day < d'.day)

theorem Date.before_trichotomy (d d' : Date) : d.Before d' ∨ d = d' ∨ d'.Before d := by
  obtain ⟨year, month, day⟩ := d
  obtain ⟨year', month', day'⟩ := d'
  simp only [Date.Before, Date.mk.injEq]
  omega

/-- The numbers of the dates follow their order. -/
theorem Date.Before.dayNumber_lt {d d' : Date} (h : d.Valid) (h' : d'.Valid) (hbefore : d.Before d') :
    d.dayNumber < d'.dayNumber := by
  have hin := toMarch_inMarchYear h
  have hin' := toMarch_inMarchYear h'
  obtain ⟨hday, hnext⟩ := marchMonth_day h
  obtain ⟨hday', -⟩ := marchMonth_day h'
  obtain ⟨hlow, hhigh⟩ := h.month
  obtain ⟨hlow', hhigh'⟩ := h'.month
  have hyear : (toMarch d).1 ≤ (toMarch d').1 := by
    unfold Date.Before at hbefore
    simp only [toMarch]
    split_ifs <;> omega
  rcases hyear.lt_or_eq with hlt | heq
  · exact marchStart_lt hin hin' hlt
  · rw [Date.dayNumber, Date.dayNumber, heq]
    have hmonth : marchMonth d.month < marchMonth d'.month ∨ d.month = d'.month ∧ d.day < d'.day := by
      unfold Date.Before at hbefore
      simp only [toMarch] at heq
      unfold marchMonth
      split_ifs at heq ⊢ <;> omega
    rcases hmonth with hlt | ⟨hsame, hlt⟩
    · simp only [toMarch]
      omega
    · simp only [toMarch, hsame]
      omega

theorem Date.dayNumber_le {d d' : Date} (h : d.Valid) (h' : d'.Valid) (hle : ¬ d'.Before d) :
    d.dayNumber ≤ d'.dayNumber := by
  rcases Date.before_trichotomy d d' with hbefore | rfl | hafter
  · exact (hbefore.dayNumber_lt h h').le
  · exact le_rfl
  · exact absurd hafter hle

/-- The date after a date has the next number. -/
theorem Date.next_spec {d : Date} (h : d.Valid) :
    d.next.Valid ∧ d.next.dayNumber = d.dayNumber + 1 := by
  have hin := toMarch_inMarchYear h
  rw [← fromMarch_toMarch h, dayNumber_fromMarch hin]
  generalize (toMarch d).1 = year, (toMarch d).2 = day at hin
  by_cases hlast : day = 364 + leapDay (year + 1)
  · have hleap := leapDay_range (year + 1 + 1)
    have hfirst : InMarchYear (year + 1) 0 := ⟨le_rfl, by omega⟩
    rw [hlast, fromMarch_next_year, dayNumber_fromMarch hfirst, marchStart_succ]
    exact ⟨fromMarch_valid hfirst, by omega⟩
  · have hnext : InMarchYear year (day + 1) := ⟨by linarith only [hin.1], by have := hin.2; omega⟩
    rw [fromMarch_next hnext hin.1, dayNumber_fromMarch hnext]
    exact ⟨fromMarch_valid hnext, by omega⟩

end Calendar
