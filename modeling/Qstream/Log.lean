import Qstream.Calendar

/-! The UTC time stamps of the log, with every `i64` step of their dates checked. -/
namespace Qstream
open Calendar

/-- A value of the type `i64`. -/
def i64 (n : ℤ) : Option ℤ := if -2 ^ 63 ≤ n ∧ n < 2 ^ 63 then some n else none

/-- Convert days since 1970-01-01 to Gregorian year/month/day. -/
def civilFromDays (days : ℤ) : Option Date := do
  let z ← i64 (days + 719468)
  let era ← (if z ≥ 0 then i64 (z.tdiv 146097)
    else i64 (z - 146096) >>= fun below => i64 (below.tdiv 146097))
  let dayOfEra ← i64 (z - (← i64 (era * 146097)))
  let shorter ← i64 (dayOfEra - dayOfEra.tdiv 1460)
  let longer ← i64 (shorter + dayOfEra.tdiv 36524)
  let yearOfEra := (← i64 (longer - dayOfEra.tdiv 146096)).tdiv 365
  let year ← i64 (yearOfEra + (← i64 (era * 400)))
  let before ← i64 ((← i64 (365 * yearOfEra)) + yearOfEra.tdiv 4)
  let dayOfYear ← i64 (dayOfEra - (← i64 (before - yearOfEra.tdiv 100)))
  let monthPart := (← i64 ((← i64 (5 * dayOfYear)) + 2)).tdiv 153
  let monthDays := (← i64 ((← i64 (153 * monthPart)) + 2)).tdiv 5
  let day ← i64 ((← i64 (dayOfYear - monthDays)) + 1)
  let month ← i64 (monthPart + if monthPart < 10 then 3 else -9)
  let year ← i64 (year + if month ≤ 2 then 1 else 0)
  pure ⟨year, month, day⟩

/-- A number as a decimal of at least `width` characters, with zeros in front. -/
def zeroPadded (width : ℕ) (n : ℤ) : String :=
  let sign := if n < 0 then "-" else ""
  let digits := toString n.natAbs
  sign ++ "".pushn '0' (width - sign.length - digits.length) ++ digits

def stampText (date : Date) (hour minute second millis : ℤ) : String :=
  zeroPadded 4 date.year ++ "-" ++ zeroPadded 2 date.month ++ "-" ++ zeroPadded 2 date.day ++ "T" ++
    zeroPadded 2 hour ++ ":" ++ zeroPadded 2 minute ++ ":" ++ zeroPadded 2 second ++ "." ++
    zeroPadded 3 millis

/-- Format UTC wall-clock time, in nanoseconds since 1970, as `YYYY-MM-DDTHH:MM:SS.sss`. -/
def utcTimestamp (now : ℤ) : Option String := do
  let elapsed := now.toNat
  -- the cast to `i64` wraps
  let seconds := Int.bmod ((elapsed / 10 ^ 9 : ℕ) : ℤ) (2 ^ 64)
  let days := seconds / 86400
  let daySeconds := seconds % 86400
  let date ← civilFromDays days
  let hour := daySeconds.tdiv 3600
  let minute := (daySeconds.tmod 3600).tdiv 60
  let second := daySeconds.tmod 60
  let millis : ℕ := elapsed % 10 ^ 9 / 10 ^ 6
  pure (stampText date hour minute second millis)

theorem i64_of_fits {n : ℤ} (h : -2 ^ 63 ≤ n ∧ n < 2 ^ 63) : i64 n = some n := if_pos h

/-- The branch for the days before March of the year 0 rounds the division down. -/
theorem era_floor {z : ℤ} (hz : z < 0) : (z - 146096).tdiv 146097 = z / 146097 := by
  rw [show z - 146096 = -(146096 - z) by omega, Int.neg_tdiv,
    Int.tdiv_eq_ediv_of_nonneg (by omega)]
  omega

/-- A day of an era as centuries, cycles of four years, years and days. -/
theorem dayOfEra_split {doe : ℤ} (h : 0 ≤ doe ∧ doe ≤ 146096) :
    ∃ c q r t : ℤ, (0 ≤ c ∧ c ≤ 3) ∧ (0 ≤ q ∧ q ≤ 24) ∧ (0 ≤ r ∧ r ≤ 3) ∧ (0 ≤ t ∧ t ≤ 365) ∧
      (t = 365 → r = 3 ∧ (q < 24 ∨ c = 3)) ∧ doe = 36524 * c + 1461 * q + 365 * r + t := by
  have hc : ∃ c rest : ℤ, (0 ≤ c ∧ c ≤ 3) ∧ (0 ≤ rest ∧ rest ≤ 36524) ∧
      (rest = 36524 → c = 3) ∧ doe = 36524 * c + rest :=
    ⟨min 3 (doe / 36524), doe - 36524 * min 3 (doe / 36524), by omega⟩
  obtain ⟨c, rest, hc, hrest, hlast, rfl⟩ := hc
  have hr : ∃ r t : ℤ, (0 ≤ r ∧ r ≤ 3) ∧ (0 ≤ t ∧ t ≤ 365) ∧ (t = 365 → r = 3) ∧
      rest % 1461 = 365 * r + t :=
    ⟨min 3 (rest % 1461 / 365), rest % 1461 - 365 * min 3 (rest % 1461 / 365), by omega⟩
  obtain ⟨r, t, hr, ht, hleap, hsplit⟩ := hr
  exact ⟨c, rest / 1461, r, t, hc, by omega, hr, ht, by omega, by omega⟩

/-- Only the last day of an era lies past its last century. -/
theorem century_eq {c rest : ℤ} (hc : 0 ≤ c ∧ c ≤ 3)
    (hrest : 0 ≤ rest ∧ rest < 36524 ∨ rest = 36524 ∧ c = 3) :
    (36524 * c + rest) / 36524 - (36524 * c + rest) / 146096 = c := by
  omega

/-- The year of the era: every 1460 days a day is taken off, one a century is put back. -/
theorem yearOfEra_eq {c q r t : ℤ} (hc : 0 ≤ c ∧ c ≤ 3) (hq : 0 ≤ q ∧ q ≤ 24) (hr : 0 ≤ r ∧ r ≤ 3)
    (ht : 0 ≤ t ∧ t ≤ 365) (hleap : t = 365 → r = 3 ∧ (q < 24 ∨ c = 3)) {doe : ℤ}
    (hdoe : doe = 36524 * c + 1461 * q + 365 * r + t) :
    (doe - doe / 1460 + doe / 36524 - doe / 146096) / 365 = 100 * c + 4 * q + r := by
  have hcycles : doe / 1460 = 25 * c + q + (24 * c + q + 365 * r + t) / 1460 := by omega
  have hrest : 0 ≤ 1461 * q + 365 * r + t ∧ 1461 * q + 365 * r + t < 36524 ∨
      1461 * q + 365 * r + t = 36524 ∧ c = 3 := by
    by_cases hday : t = 365
    · have := hleap hday
      omega
    · omega
  have hcenturies := century_eq hc hrest
  rw [show 36524 * c + (1461 * q + 365 * r + t) = doe by rw [hdoe]; ring] at hcenturies
  by_cases hday : t = 365
  · have := hleap hday
    omega
  · omega

theorem i64_bind {n : ℤ} (h : -2 ^ 63 ≤ n ∧ n < 2 ^ 63) {α : Type} (f : ℤ → Option α) :
    (i64 n >>= f) = f n := by
  rw [i64_of_fits h]
  rfl

/-- A day of an era lies in the year the code takes from it. -/
theorem dayOfEra_year {doe : ℤ} (h : 0 ≤ doe ∧ doe ≤ 146096) (era : ℤ) :
    ∃ y day : ℤ, (0 ≤ y ∧ y ≤ 399) ∧ InMarchYear (y + era * 400) day ∧
      (doe - doe / 1460 + doe / 36524 - doe / 146096) / 365 = y ∧
      doe - (365 * y + y / 4 - y / 100) = day ∧
      era * 146097 + doe = marchStart (y + era * 400) + day := by
  obtain ⟨c, q, r, t, hc, hq, hr, ht, hleap, hdoe⟩ := dayOfEra_split h
  have hfourth : (100 * c + 4 * q + r) / 4 = 25 * c + q := by omega
  have hcentury : (100 * c + 4 * q + r) / 100 = c := by omega
  refine ⟨100 * c + 4 * q + r, t, by omega, ⟨ht.1, ?_⟩, yearOfEra_eq hc hq hr ht hleap hdoe,
    by rw [hfourth, hcentury, hdoe]; ring, ?_⟩
  · by_cases hlast : t = 365
    · have := hleap hlast
      have hmod : leapDay (100 * c + 4 * q + r + era * 400 + 1) = 1 := if_pos (by omega)
      omega
    · have := leapDay_range (100 * c + 4 * q + r + era * 400 + 1)
      omega
  · have hfourth' : (100 * c + 4 * q + r + era * 400) / 4 = 25 * c + q + era * 100 := by omega
    have hcentury' : (100 * c + 4 * q + r + era * 400) / 100 = c + era * 4 := by omega
    have hera : (100 * c + 4 * q + r + era * 400) / 400 = era := by omega
    rw [marchStart, hfourth', hcentury', hera, hdoe]
    ring

/-- The code takes a day apart as the calendar does. -/
theorem civilFromDays_spec {days : ℤ} (h : -2 ^ 63 ≤ days ∧ days + 719468 < 2 ^ 63) :
    ∃ year day, InMarchYear year day ∧ days + 719468 = marchStart year + day ∧
      civilFromDays days = some (fromMarch year day) := by
  generalize hz : days + 719468 = z at h
  have hsplit := Int.mul_ediv_add_emod z 146097
  have hdoe : 0 ≤ z % 146097 ∧ z % 146097 ≤ 146096 := by omega
  generalize hera : z / 146097 = era, z % 146097 = doe at hsplit hdoe
  obtain ⟨y, day, hy, hin, hyear, hday, hnumber⟩ := dayOfEra_year hdoe era
  have hfloor : (if z ≥ 0 then i64 (z.tdiv 146097) else
      i64 (z - 146096) >>= fun below => i64 (below.tdiv 146097)) = i64 era := by
    split
    case isTrue hpos => rw [Int.tdiv_eq_ediv_of_nonneg hpos, hera]
    case isFalse hneg => rw [i64_bind (by omega), era_floor (by omega), hera]
  have hrest : z - era * 146097 = doe := by omega
  have hdayRange : 0 ≤ day ∧ day ≤ 365 := ⟨hin.1, by
    have := leapDay_range (y + era * 400 + 1)
    have := hin.2
    omega⟩
  obtain ⟨hlow, hhigh⟩ := marchPart_range hin
  refine ⟨y + era * 400, day, hin, by omega, ?_⟩
  unfold civilFromDays
  rw [hz, i64_bind (by omega), hfloor, i64_bind (by omega), i64_bind (by omega), hrest,
    i64_bind (by omega)]
  simp only [Int.tdiv_eq_ediv_of_nonneg hdoe.1]
  rw [i64_bind (by omega), i64_bind (by omega), i64_bind (by omega)]
  rw [Int.tdiv_eq_ediv_of_nonneg (by omega), hyear]
  simp only [Int.tdiv_eq_ediv_of_nonneg hy.1]
  rw [i64_bind (by omega), i64_bind (by omega), i64_bind (by omega), i64_bind (by omega),
    i64_bind (by omega), hday, i64_bind (by omega), i64_bind (by omega), i64_bind (by omega),
    Int.tdiv_eq_ediv_of_nonneg (by omega)]
  generalize hpart : (5 * day + 2) / 153 = part at hlow hhigh
  generalize hmonth : (if part < 10 then part + 3 else part - 9) = month
  have hmonthRange : 1 ≤ month ∧ month ≤ 12 := by split at hmonth <;> omega
  have hmonthSum : (part + if part < 10 then 3 else -9) = month := by
    rw [← hmonth]
    split <;> rfl
  have hyearSum : (y + era * 400 + if month ≤ 2 then 1 else 0) =
      if month ≤ 2 then y + era * 400 + 1 else y + era * 400 := by
    split
    · rfl
    · exact Int.add_zero _
  rw [i64_bind (by omega), i64_bind (by omega), Int.tdiv_eq_ediv_of_nonneg (by omega),
    i64_bind (by omega), i64_bind (by omega), hmonthSum, i64_bind (by omega), hyearSum,
    i64_bind (by split <;> omega)]
  simp only [fromMarch, hpart, hmonth]
  rfl

/-- The arithmetic leaves `i64` exactly on its last 719468 days. -/
theorem civilFromDays_isSome {days : ℤ} (h : -2 ^ 63 ≤ days ∧ days < 2 ^ 63) :
    (civilFromDays days).isSome ↔ days < 2 ^ 63 - 719468 := by
  constructor
  · intro hsome
    by_contra hlarge
    have hz : i64 (days + 719468) = none := if_neg (by omega)
    rw [civilFromDays, hz] at hsome
    exact Bool.noConfusion hsome
  · intro hsmall
    obtain ⟨year, day, -, -, hdate⟩ := civilFromDays_spec ⟨h.1, by omega⟩
    rw [hdate]
    rfl

/-- A day of `i64` for which the arithmetic fits. -/
def FitsI64 (days : ℤ) : Prop := -2 ^ 63 ≤ days ∧ days < 2 ^ 63 ∧ (civilFromDays days).isSome

theorem fitsI64_iff {days : ℤ} : FitsI64 days ↔ -2 ^ 63 ≤ days ∧ days < 2 ^ 63 - 719468 := by
  constructor
  · rintro ⟨hlow, hhigh, hsome⟩
    exact ⟨hlow, (civilFromDays_isSome ⟨hlow, hhigh⟩).mp hsome⟩
  · rintro ⟨hlow, hhigh⟩
    have hbelow : days < 2 ^ 63 := by omega
    exact ⟨hlow, hbelow, (civilFromDays_isSome ⟨hlow, hbelow⟩).mpr hhigh⟩

/-- The date of a day is the one date with its number. -/
theorem civilFromDays_eq_some_iff {days : ℤ} (h : FitsI64 days) (date : Date) :
    civilFromDays days = some date ↔ date.Valid ∧ date.dayNumber = days + 719468 := by
  obtain ⟨hlow, hhigh⟩ := fitsI64_iff.mp h
  obtain ⟨year, day, hin, hnumber, hdate⟩ := civilFromDays_spec
    (show -2 ^ 63 ≤ days ∧ days + 719468 < 2 ^ 63 by omega)
  have hvalid := fromMarch_valid hin
  have hsame : (fromMarch year day).dayNumber = days + 719468 := by
    rw [dayNumber_fromMarch hin, hnumber]
  rw [hdate, Option.some_inj]
  constructor
  · rintro rfl
    exact ⟨hvalid, hsame⟩
  · rintro ⟨hdateValid, hdateNumber⟩
    exact Date.dayNumber_inj hvalid hdateValid (hsame.trans hdateNumber.symm)

/-- The date of the first day of `i64`. -/
def firstDate : Date := ⟨-25252734927764585, 6, 7⟩

/-- The date of the last day for which the arithmetic fits. -/
def lastDate : Date := ⟨25252734927766554, 9, 25⟩

theorem firstDate_spec : firstDate.Valid ∧ firstDate.dayNumber = -2 ^ 63 + 719468 :=
  (civilFromDays_eq_some_iff (fitsI64_iff.mpr (by decide)) firstDate).mp (by decide +kernel)

theorem lastDate_spec : lastDate.Valid ∧ lastDate.dayNumber = 2 ^ 63 - 719469 + 719468 :=
  (civilFromDays_eq_some_iff (fitsI64_iff.mpr (by decide)) lastDate).mp (by decide +kernel)

/-- The days that fit are those of the dates from the first to the last. -/
theorem fitsI64_of_between {date : Date} (h : date.Valid) (hfirst : ¬ date.Before firstDate)
    (hlast : ¬ lastDate.Before date) : FitsI64 (date.dayNumber - 719468) := by
  obtain ⟨hfirstValid, hfirstNumber⟩ := firstDate_spec
  obtain ⟨hlastValid, hlastNumber⟩ := lastDate_spec
  have hlow := Date.dayNumber_le hfirstValid h hfirst
  have hhigh := Date.dayNumber_le h hlastValid hlast
  exact fitsI64_iff.mpr (by omega)

theorem between_of_fitsI64 {days : ℤ} (h : FitsI64 days) {date : Date}
    (hdate : civilFromDays days = some date) :
    ¬ date.Before firstDate ∧ ¬ lastDate.Before date := by
  obtain ⟨hvalid, hnumber⟩ := (civilFromDays_eq_some_iff h date).mp hdate
  obtain ⟨hfirstValid, hfirstNumber⟩ := firstDate_spec
  obtain ⟨hlastValid, hlastNumber⟩ := lastDate_spec
  obtain ⟨hlow, hhigh⟩ := fitsI64_iff.mp h
  constructor
  · intro hbefore
    have := hbefore.dayNumber_lt hvalid hfirstValid
    omega
  · intro hbefore
    have := hbefore.dayNumber_lt hlastValid hvalid
    omega

/-- Every day has a valid date, day 0 is 1 January 1970, the next day has the next date, and the
days correspond one to one to the valid dates of the calendar from the first to the last. -/
theorem civilFromDays_calendar :
    (∀ days, FitsI64 days → ∃ date : Date, date.Valid ∧ civilFromDays days = some date) ∧
    civilFromDays 0 = some ⟨1970, 1, 1⟩ ∧
    (∀ days, FitsI64 days → FitsI64 (days + 1) →
      civilFromDays (days + 1) = (civilFromDays days).map Date.next) ∧
    Set.BijOn civilFromDays {days | FitsI64 days}
      (some '' {date | date.Valid ∧ ¬ date.Before firstDate ∧ ¬ lastDate.Before date}) ∧
    (∀ days, FitsI64 days ↔ -2 ^ 63 ≤ days ∧ days < 2 ^ 63 - 719468) := by
  have hvalid : ∀ days, FitsI64 days →
      ∃ date : Date, date.Valid ∧ civilFromDays days = some date := by
    intro days h
    obtain ⟨date, hdate⟩ := Option.isSome_iff_exists.mp h.2.2
    exact ⟨date, ((civilFromDays_eq_some_iff h date).mp hdate).1, hdate⟩
  refine ⟨hvalid, by decide +kernel, ?next, ⟨?maps, ?inj, ?surj⟩, fun days => fitsI64_iff⟩
  case next =>
    intro days h hnext
    obtain ⟨date, -, hdate⟩ := hvalid days h
    obtain ⟨hdateValid, hnumber⟩ := (civilFromDays_eq_some_iff h date).mp hdate
    obtain ⟨hnextValid, hnextNumber⟩ := Date.next_spec hdateValid
    rw [hdate, Option.map_some, civilFromDays_eq_some_iff hnext]
    exact ⟨hnextValid, by omega⟩
  case maps =>
    intro days h
    obtain ⟨date, hdateValid, hdate⟩ := hvalid days h
    exact ⟨date, ⟨hdateValid, between_of_fitsI64 h hdate⟩, hdate.symm⟩
  case inj =>
    intro days h days' h' hsame
    obtain ⟨date, -, hdate⟩ := hvalid days h
    have hdate' : civilFromDays days' = some date := hsame.symm.trans hdate
    have hnumber := ((civilFromDays_eq_some_iff h date).mp hdate).2
    have hnumber' := ((civilFromDays_eq_some_iff h' date).mp hdate').2
    omega
  case surj =>
    rintro - ⟨date, ⟨hdateValid, hfirst, hlast⟩, rfl⟩
    have hfits := fitsI64_of_between hdateValid hfirst hlast
    exact ⟨date.dayNumber - 719468, hfits,
      (civilFromDays_eq_some_iff hfits date).mpr ⟨hdateValid, by omega⟩⟩

/-- A stamp names the second it is taken in: the days before its date and the time of its day. -/
theorem utcTimestamp_eq (now : ℤ) (h : now.toNat / 10 ^ 9 < 2 ^ 63) :
    ∃ (date : Date) (hour minute second : ℤ), date.Valid ∧ (0 ≤ hour ∧ hour < 24) ∧
      (0 ≤ minute ∧ minute < 60) ∧ (0 ≤ second ∧ second < 60) ∧
      (date.dayNumber - 719468) * 86400 + hour * 3600 + minute * 60 + second =
        (now.toNat / 10 ^ 9 : ℕ) ∧
      utcTimestamp now =
        some (stampText date hour minute second (now.toNat % 10 ^ 9 / 10 ^ 6 : ℕ)) := by
  generalize helapsed : now.toNat = elapsed at h ⊢
  have hseconds : Int.bmod ((elapsed / 10 ^ 9 : ℕ) : ℤ) (2 ^ 64) = (elapsed / 10 ^ 9 : ℕ) :=
    Int.bmod_eq_of_le (by omega) (by omega)
  generalize hs : ((elapsed / 10 ^ 9 : ℕ) : ℤ) = seconds at hseconds
  have hfits : FitsI64 (seconds / 86400) := fitsI64_iff.mpr (by omega)
  obtain ⟨date, hdate⟩ := Option.isSome_iff_exists.mp hfits.2.2
  obtain ⟨hvalid, hnumber⟩ := (civilFromDays_eq_some_iff hfits date).mp hdate
  refine ⟨date, seconds % 86400 / 3600, seconds % 86400 % 3600 / 60, seconds % 86400 % 60, hvalid,
    by omega, by omega, by omega, by omega, ?_⟩
  have htime : 0 ≤ seconds % 86400 := by omega
  have hhour : 0 ≤ seconds % 86400 % 3600 := by omega
  simp only [utcTimestamp, helapsed, hs, hseconds, hdate, Int.tdiv_eq_ediv_of_nonneg htime,
    Int.tmod_eq_emod_of_nonneg htime, Int.tdiv_eq_ediv_of_nonneg hhour]
  rfl

end Qstream
