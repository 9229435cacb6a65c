import LuaRuntime.Library.Environment
import LuaRuntime.Proofs.Calendar.Gregorian
import LuaRuntime.Proofs.Library.CheckedArithmetic
import LuaRuntime.Proofs.Number.Words

/-!
# Times of dates

`os.time` works out the time of a date in steps of 64 bits, and gives nil if one of them overflows
or if the clock does not know the date.  `timestamp?_eq_some_iff` puts one exact sum of integers in
the place of these steps.  So whenever there is a time, it is that of the Gregorian calendar
(`IsGregorian.timestamp?_eq`), and what holds of the sum holds of it: it does not change when a
field is carried over into the next greater one (`Carries`), and grows with the day, the hour, the
minute and the second (`Later`).

A clock is only asked for the first of a month, for the moment some seconds later and for its time.
All that is needed of it is that these agree with the calendar, and `utc` does (`utc_isGregorian`).
-/

namespace LuaRuntime

namespace Calendar

/-! ## Clocks -/

/-- A clock of the proleptic Gregorian calendar without time zones: moments stand for seconds since
the start of 1970, and whatever the clock knows of them is right. -/
structure Clock.IsGregorian {Moment : Type} (clock : Clock Moment) (value : Moment → ℤ) : Prop where
  firstOfMonth {year : ℤ} {month : ℕ} {first : Moment} :
    1 ≤ month → month ≤ 12 → clock.firstOfMonth? year month = some first →
    value first = 86400 * daysToFirst (12 * year + (month - 1))
  after {moment later : Moment} {seconds : ℤ} :
    clock.after? moment seconds = some later → value later = value moment + seconds
  timestamp {moment : Moment} {time : ℤ} :
    clock.timestamp? moment = some time → time = value moment

theorem utc_isGregorian : utc.IsGregorian id where
  firstOfMonth {year month first} hlow hhigh h := by
    have hday : dayNumber year (month - 1) = daysToFirst (12 * year + (month - 1)) := by
      have hyear : (12 * year + ((month : ℤ) - 1)) / 12 = year := by omega
      have hplace : ((12 * year + ((month : ℤ) - 1)) % 12).toNat = month - 1 := by omega
      rw [← firstDay_eq, firstDay, hyear, hplace]
    simp only [utc] at h
    split at h
    · cases h
      rw [id, hday, secondsPerDay]
    · cases h
  after {moment later seconds} h := by
    simp only [utc] at h
    split at h
    · cases h
      rfl
    · cases h
  timestamp h := (Option.some.inj h).symm

/-! ## Dates -/

namespace DateTime

/-- The month of a date, counted from the first month of the year 0. -/
def monthIndex (t : DateTime) : ℤ := 12 * t.year + t.month - 1

/-- The seconds from the start of the month of a date. -/
def offset (t : DateTime) : ℤ := 86400 * (t.day - 1) + 3600 * t.hour + 60 * t.minute + t.second

/-- The seconds from the start of 1970. -/
def seconds (t : DateTime) : ℤ := 86400 * daysToFirst t.monthIndex + t.offset

/-- No step on the way to the time of a date overflows. -/
structure Fits (t : DateTime) : Prop where
  years : IsSigned (12 * t.year)
  month : IsSigned (t.month - 1)
  months : IsSigned t.monthIndex
  year : -2 ^ 31 ≤ t.monthIndex / 12 ∧ t.monthIndex / 12 < 2 ^ 31
  hours : IsSigned (3600 * t.hour)
  minutes : IsSigned (60 * t.minute)
  hoursAndMinutes : IsSigned (3600 * t.hour + 60 * t.minute)
  timeOfDay : IsSigned (3600 * t.hour + 60 * t.minute + t.second)
  day : IsSigned (t.day - 1)
  days : IsSigned (86400 * (t.day - 1))
  offset : IsSigned t.offset

/-- A clock knows the first of the month of a date and the moment of the date itself, and tells its
time. -/
def ToldBy {Moment : Type} (t : DateTime) (clock : Clock Moment) (time : ℤ) : Prop :=
  ∃ first moment,
    clock.firstOfMonth? (t.monthIndex / 12) ((t.monthIndex % 12).toNat + 1) = some first ∧
    clock.after? first t.offset = some moment ∧
    clock.timestamp? moment = some time

end DateTime

/-! ## Checked steps -/

theorem fit?_eq (i : ℤ) : fit? i = if IsSigned i then some i else none := by
  rw [fit?]
  exact if_congr (by rw [isSigned_iff]; norm_num) rfl rfl

theorem fit?_eq_some_iff {i j : ℤ} : fit? i = some j ↔ IsSigned i ∧ i = j := by
  rw [fit?_eq, Option.ite_none_right_eq_some, Option.some.injEq]

theorem fitYear?_eq_some_iff {i j : ℤ} :
    fitYear? i = some j ↔ (-2 ^ 31 ≤ i ∧ i < 2 ^ 31) ∧ i = j := by
  rw [fitYear?, Option.ite_none_right_eq_some, Option.some.injEq]
  norm_num

namespace DateTime

variable {t : DateTime}

theorem months?_eq_some_iff {m : ℤ} :
    t.months? = some m ↔
      (IsSigned (12 * t.year) ∧ IsSigned (t.month - 1) ∧ IsSigned t.monthIndex) ∧
        t.monthIndex = m := by
  have hmonths : t.year * 12 + (t.month - 1) = t.monthIndex := by
    rw [monthIndex]
    ring
  simp only [months?, Option.bind_eq_bind, Option.bind_eq_some_iff, fit?_eq_some_iff]
  constructor
  · rintro ⟨_, ⟨hyears, rfl⟩, _, ⟨hmonth, rfl⟩, hfits, rfl⟩
    rw [hmonths] at hfits ⊢
    exact ⟨⟨by rwa [mul_comm], hmonth, hfits⟩, rfl⟩
  · rintro ⟨⟨hyears, hmonth, hfits⟩, rfl⟩
    exact ⟨_, ⟨by rwa [mul_comm], rfl⟩, _, ⟨hmonth, rfl⟩, by rwa [hmonths], hmonths⟩

theorem offset?_eq_some_iff {o : ℤ} :
    t.offset? = some o ↔
      (IsSigned (3600 * t.hour) ∧ IsSigned (60 * t.minute) ∧
        IsSigned (3600 * t.hour + 60 * t.minute) ∧
        IsSigned (3600 * t.hour + 60 * t.minute + t.second) ∧
        IsSigned (t.day - 1) ∧ IsSigned (86400 * (t.day - 1)) ∧ IsSigned t.offset) ∧
        t.offset = o := by
  have hoffset : 86400 * (t.day - 1) + (3600 * t.hour + 60 * t.minute + t.second) = t.offset := by
    rw [offset]
    ring
  simp only [offset?, secondsPerDay, Option.bind_eq_bind, Option.bind_eq_some_iff,
    fit?_eq_some_iff, mul_comm _ (3600 : ℤ), mul_comm _ (60 : ℤ), mul_comm _ (86400 : ℤ)]
  constructor
  · rintro ⟨_, ⟨hhours, rfl⟩, _, ⟨hminutes, rfl⟩, _, ⟨hboth, rfl⟩, _, ⟨htime, rfl⟩, _, ⟨hday, rfl⟩,
      _, ⟨hdays, rfl⟩, hfits, rfl⟩
    rw [hoffset] at hfits ⊢
    exact ⟨⟨hhours, hminutes, hboth, htime, hday, hdays, hfits⟩, rfl⟩
  · rintro ⟨⟨hhours, hminutes, hboth, htime, hday, hdays, hfits⟩, rfl⟩
    exact ⟨_, ⟨hhours, rfl⟩, _, ⟨hminutes, rfl⟩, _, ⟨hboth, rfl⟩, _, ⟨htime, rfl⟩, _, ⟨hday, rfl⟩,
      _, ⟨hdays, rfl⟩, by rwa [hoffset], hoffset⟩

/-- There is a time exactly if nothing overflows and the clock tells it. -/
theorem timestamp?_eq_some_iff {Moment : Type} {clock : Clock Moment} {time : ℤ} :
    t.timestamp? clock = some time ↔ t.Fits ∧ t.ToldBy clock time := by
  have hdiv (m : ℤ) : m.fdiv 12 = m / 12 := Int.fdiv_eq_ediv_of_nonneg m (by decide)
  have hmod (m : ℤ) : m.fmod 12 = m % 12 := Int.fmod_eq_emod_of_nonneg m (by decide)
  simp only [timestamp?, Option.bind_eq_bind, Option.bind_eq_some_iff, months?_eq_some_iff,
    fitYear?_eq_some_iff, offset?_eq_some_iff, hdiv, hmod]
  constructor
  · rintro ⟨_, ⟨⟨hyears, hmonth, hmonths⟩, rfl⟩, _, ⟨hyear, rfl⟩, first, hfirst, _,
      ⟨⟨hhours, hminutes, hboth, htime, hday, hdays, hoffset⟩, rfl⟩, moment, hmoment, htold⟩
    exact ⟨⟨hyears, hmonth, hmonths, hyear, hhours, hminutes, hboth, htime, hday, hdays, hoffset⟩,
      first, moment, hfirst, hmoment, htold⟩
  · rintro ⟨hfits, first, moment, hfirst, hmoment, htold⟩
    exact ⟨_, ⟨⟨hfits.years, hfits.month, hfits.months⟩, rfl⟩, _, ⟨hfits.year, rfl⟩, first, hfirst,
      _, ⟨⟨hfits.hours, hfits.minutes, hfits.hoursAndMinutes, hfits.timeOfDay, hfits.day,
      hfits.days, hfits.offset⟩, rfl⟩, moment, hmoment, htold⟩

/-- The time that a Gregorian clock tells is the exact sum. -/
theorem ToldBy.eq_seconds {Moment : Type} {clock : Clock Moment} {value : Moment → ℤ} {time : ℤ}
    (h : t.ToldBy clock time) (hclock : clock.IsGregorian value) : time = t.seconds := by
  obtain ⟨first, moment, hfirst, hmoment, htold⟩ := h
  have hmonth : 12 * (t.monthIndex / 12) + (((t.monthIndex % 12).toNat + 1 : ℕ) - 1 : ℤ) =
      t.monthIndex := by omega
  have hstart := hclock.firstOfMonth (by omega) (by omega) hfirst
  rw [hmonth] at hstart
  rw [hclock.timestamp htold, hclock.after hmoment, hstart, seconds]

/-! ## Carrying and comparing -/

/-- One field of a date is carried over into the next greater one. -/
inductive Carries (t : DateTime) : DateTime → Prop
  | year : Carries t { t with year := t.year + 1, month := t.month - 12 }
  | day : Carries t { t with day := t.day + 1, hour := t.hour - 24 }
  | hour : Carries t { t with hour := t.hour + 1, minute := t.minute - 60 }
  | minute : Carries t { t with minute := t.minute + 1, second := t.second - 60 }

theorem Carries.seconds_eq {u : DateTime} (h : t.Carries u) : u.seconds = t.seconds := by
  cases h with
  | year =>
    have hmonth : 12 * (t.year + 1) + (t.month - 12) - 1 = 12 * t.year + t.month - 1 := by ring
    simp only [seconds, monthIndex, offset, hmonth]
  | _ =>
    simp only [seconds, monthIndex, offset]
    ring

/-- One field of a date, the year and the month apart, is replaced by a greater one. -/
inductive Later (t : DateTime) : DateTime → Prop
  | day {day : ℤ} : t.day < day → Later t { t with day }
  | hour {hour : ℤ} : t.hour < hour → Later t { t with hour }
  | minute {minute : ℤ} : t.minute < minute → Later t { t with minute }
  | second {second : ℤ} : t.second < second → Later t { t with second }

theorem Later.seconds_lt {u : DateTime} (h : t.Later u) : t.seconds < u.seconds := by
  cases h <;> simp only [seconds, monthIndex, offset] <;> omega

/-! ## The clock without time zones -/

/-- A date lies in the calendar, the first of its month as well as the date itself. -/
structure Covered (t : DateTime) : Prop where
  year : firstYear ≤ t.monthIndex / 12 ∧ t.monthIndex / 12 ≤ lastYear
  moment : 86400 * daysToFirst (12 * firstYear) ≤ t.seconds ∧
    t.seconds < 86400 * daysToFirst (12 * (lastYear + 1))

theorem covers_iff (n : ℤ) :
    covers n = true ↔ 86400 * daysToFirst (12 * firstYear) ≤ n ∧
      n < 86400 * daysToFirst (12 * (lastYear + 1)) := by
  rw [← firstDay_eq, ← firstDay_eq, covers, Bool.and_eq_true, decide_eq_true_iff,
    decide_eq_true_iff]
  rfl

theorem toldBy_utc_iff {time : ℤ} : t.ToldBy utc time ↔ t.Covered ∧ time = t.seconds := by
  constructor
  · intro h
    have htime := h.eq_seconds utc_isGregorian
    obtain ⟨first, moment, hfirst, hmoment, htold⟩ := h
    simp only [utc, Option.ite_none_right_eq_some, Option.some.injEq] at hfirst hmoment htold
    obtain ⟨hcovers, rfl⟩ := hmoment
    rw [htold, htime, covers_iff] at hcovers
    exact ⟨⟨hfirst.1, hcovers⟩, htime⟩
  · rintro ⟨⟨hyear, hmoment⟩, rfl⟩
    have hday : dayNumber (t.monthIndex / 12) ((t.monthIndex % 12).toNat + 1 - 1) =
        daysToFirst t.monthIndex := by
      rw [Nat.add_sub_cancel, ← firstDay_eq, firstDay]
    have hseconds : secondsPerDay * daysToFirst t.monthIndex + t.offset = t.seconds := rfl
    refine ⟨secondsPerDay * daysToFirst t.monthIndex, t.seconds, ?_, ?_, rfl⟩
    · simp only [utc, if_pos hyear, hday]
    · simp only [utc, hseconds, if_pos ((covers_iff _).mpr hmoment)]

end DateTime

end Calendar

/-! ## Runs -/

/-- A table has the fields of a date.  The hour is noon, the minute and the second zero unless they
are given. -/
structure DateFields (table : Table) (t : Calendar.DateTime) : Prop where
  year : (table.getString "year").toInteger? = some t.year
  month : (table.getString "month").toInteger? = some t.month
  day : (table.getString "day").toInteger? = some t.day
  hour : ((table.getString "hour").toInteger?).getD 12 = t.hour
  minute : ((table.getString "min").toInteger?).getD 0 = t.minute
  second : ((table.getString "sec").toInteger?).getD 0 = t.second

theorem dateField_eq_ok_iff {table : Table} {name : String} {default : Option ℤ} {i : ℤ} :
    dateField table name default = .ok i ↔
      ((table.getString name).toInteger?).or default = some i := by
  rw [dateField]
  split
  · next h => rw [h, Except.ok.injEq, Option.some.injEq]
  · next h => rw [h]; exact iff_of_false nofun nofun

theorem DateFields.dateOf_eq {table : Table} {t : Calendar.DateTime} (h : DateFields table t) :
    dateOf table = .ok t := by
  have hgiven {name : String} {i : ℤ} (h : (table.getString name).toInteger? = some i) :
      dateField table name none = .ok i := by
    rw [dateField_eq_ok_iff, h]
    rfl
  have hdefault {name : String} {default i : ℤ}
      (h : ((table.getString name).toInteger?).getD default = i) :
      dateField table name (some default) = .ok i := by
    rw [dateField_eq_ok_iff, Option.or_some, h]
  rw [dateOf, hgiven h.year, hgiven h.month, hgiven h.day, hdefault h.hour, hdefault h.minute,
    hdefault h.second]
  rfl

/-- A time as a value, nil if there is none. -/
def timeValue : Option ℤ → Value
  | some n => .ofInt n
  | none => .nil

theorem timeOf_gives {Moment : Type} (clock : Calendar.Clock Moment) {args : List Value} {s : State}
    {id : TableId} {t : Calendar.DateTime} (hargs : Argument.get args 1 = .table id)
    (hfields : DateFields (s.table id) t) :
    Gives (timeOf clock args) s (timeValue (t.timestamp? clock)) s := by
  rw [timeOf, hargs]
  refine (gives_getTable id s).bind ((gives_lift hfields.dateOf_eq s).bind ?_)
  cases t.timestamp? clock <;> exact gives_pure _ s

/-! ## Exact times -/

/-- Whenever a date has a time, it is the exact time of the Gregorian calendar, whose months go on
beyond the twelve of a year, and no step overflows on the way to it.  There is none only if a step
overflows or the clock does not know the date.  The time does not change when a field is carried
over, and it grows with the day, the hour, the minute and the second.

The clock without time zones knows just the dates that the calendar covers, and their times are
doubles. -/
theorem time_is_exact_calendar_arithmetic {Moment : Type} {clock : Calendar.Clock Moment}
    {value : Moment → ℤ} (hclock : clock.IsGregorian value) :
    (∀ {args : List Value} {s : State} {id : TableId} {t : Calendar.DateTime},
      Argument.get args 1 = .table id → DateFields (s.table id) t →
      Gives (timeOf clock args) s (timeValue (t.timestamp? clock)) s) ∧
    (∀ (t : Calendar.DateTime) (time : ℤ), t.timestamp? clock = some time →
      let year := (12 * t.year + t.month - 1) / 12
      let month := (12 * t.year + t.month - 1) % 12 + 1
      t.Fits ∧
        time = 86400 * (Calendar.daysToFirst (12 * year + (month - 1)) + t.day - 1) +
          3600 * t.hour + 60 * t.minute + t.second) ∧
    (∀ t : Calendar.DateTime,
      t.timestamp? clock = none ↔ ¬ t.Fits ∨ ¬ ∃ time, t.ToldBy clock time) ∧
    (∀ (t u : Calendar.DateTime) (time later : ℤ), t.timestamp? clock = some time →
      u.timestamp? clock = some later →
      (t.Carries u → later = time) ∧ (t.Later u → time < later)) ∧
    ∀ (t : Calendar.DateTime) (time : ℤ),
      (t.timestamp? Calendar.utc = some time ↔ t.Fits ∧ t.Covered ∧ time = t.seconds) ∧
      (t.timestamp? Calendar.utc = some time → (Double.ofInt time).toInt? = some time) := by
  have hseconds {t : Calendar.DateTime} {time : ℤ} (h : t.timestamp? clock = some time) :
      time = t.seconds :=
    (Calendar.DateTime.timestamp?_eq_some_iff.mp h).2.eq_seconds hclock
  have hutc {t : Calendar.DateTime} {time : ℤ} :
      t.timestamp? Calendar.utc = some time ↔ t.Fits ∧ t.Covered ∧ time = t.seconds := by
    rw [Calendar.DateTime.timestamp?_eq_some_iff, Calendar.DateTime.toldBy_utc_iff]
  refine ⟨fun hargs hfields => timeOf_gives clock hargs hfields, fun t time h => ⟨?_, ?_⟩,
    fun t => ?_, fun t u time later ht hu => ⟨fun hcarries => ?_, fun hlater => ?_⟩,
    fun t time => ⟨hutc, fun h => ?_⟩⟩
  · exact (Calendar.DateTime.timestamp?_eq_some_iff.mp h).1
  · rw [hseconds h, Calendar.DateTime.seconds, Calendar.DateTime.offset, add_sub_cancel_right,
      Int.mul_ediv_add_emod, Calendar.DateTime.monthIndex]
    ring
  · rw [← not_and_or, ← exists_and_left, Option.eq_none_iff_forall_ne_some, not_exists]
    exact forall_congr' fun time => not_congr Calendar.DateTime.timestamp?_eq_some_iff
  · rw [hseconds hu, hseconds ht, hcarries.seconds_eq]
  · rw [hseconds hu, hseconds ht]
    exact hlater.seconds_lt
  · obtain ⟨-, hcovered, rfl⟩ := hutc.mp h
    have hfirst : -10 ^ 13 < 86400 * Calendar.firstDay (12 * Calendar.firstYear) := by decide
    have hlast : 86400 * Calendar.firstDay (12 * (Calendar.lastYear + 1)) < 10 ^ 13 := by decide
    have hmoment := hcovered.moment
    rw [← Calendar.firstDay_eq, ← Calendar.firstDay_eq] at hmoment
    exact Double.toInt?_ofInt (by omega)

/-- A date in the year 1971 whose fifteenth month is March 1972.  Its day 0 is a leap day, and it is
a second before noon of the day before. -/
def dayBeforeLeapDay : Calendar.DateTime :=
  { year := 1971, month := 15, day := 0, hour := -12, minute := 0, second := -1 }

/-- A table with the fields of that date, the minute apart. -/
def dayBeforeLeapDayTable : Table :=
  ({} : Table)
    |>.setString "year" (.ofInt 1971)
    |>.setString "month" (.ofInt 15)
    |>.setString "day" (.ofInt 0)
    |>.setString "hour" (.ofInt (-12))
    |>.setString "sec" (.ofInt (-1))

theorem dateFields_dayBeforeLeapDay : DateFields dayBeforeLeapDayTable dayBeforeLeapDay := by
  constructor <;> simp only [dayBeforeLeapDayTable, Table.getString_setString] <;> decide +kernel

/-- Carried over, the date is one in March 1972 with the same time.  A day later the time is
greater. -/
theorem dayBeforeLeapDay_has_exact_time :
    Calendar.utc.IsGregorian id ∧
      DateFields dayBeforeLeapDayTable dayBeforeLeapDay ∧
      Gives (timeOf Calendar.utc [.table ⟨1⟩])
        ((State.initial {} .keep 0).withTable dayBeforeLeapDayTable) (.ofInt 68126399)
        ((State.initial {} .keep 0).withTable dayBeforeLeapDayTable) ∧
      (dayBeforeLeapDay.Fits ∧
        68126399 = 86400 * (Calendar.daysToFirst (12 * 1972 + (3 - 1)) + 0 - 1) +
          3600 * -12 + 60 * 0 + -1) ∧
      ∃ carried nextDay,
        dayBeforeLeapDay.Carries { dayBeforeLeapDay with year := 1972, month := 3 } ∧
        Calendar.DateTime.timestamp? Calendar.utc
          { dayBeforeLeapDay with year := 1972, month := 3 } = some carried ∧
        carried = 68126399 ∧
        dayBeforeLeapDay.Later { dayBeforeLeapDay with day := 1 } ∧
        Calendar.DateTime.timestamp? Calendar.utc
          { dayBeforeLeapDay with day := 1 } = some nextDay ∧
        68126399 < nextDay := by
  obtain ⟨hruns, htimes, -, hpairs, -⟩ :=
    time_is_exact_calendar_arithmetic Calendar.utc_isGregorian
  have htime : dayBeforeLeapDay.timestamp? Calendar.utc = some 68126399 := by decide +kernel
  have hcarried : Calendar.DateTime.timestamp? Calendar.utc
      { dayBeforeLeapDay with year := 1972, month := 3 } = some 68126399 := by decide +kernel
  have hnext : Calendar.DateTime.timestamp? Calendar.utc
      { dayBeforeLeapDay with day := 1 } = some 68212799 := by decide +kernel
  have hcarries : dayBeforeLeapDay.Carries { dayBeforeLeapDay with year := 1972, month := 3 } :=
    .year
  have hlater : dayBeforeLeapDay.Later { dayBeforeLeapDay with day := 1 } := .day (by decide)
  have hfields : DateFields
      (((State.initial {} .keep 0).withTable dayBeforeLeapDayTable).table ⟨1⟩)
      dayBeforeLeapDay := dateFields_dayBeforeLeapDay
  have hfirst : Argument.get [.table ⟨1⟩] 1 = .table ⟨1⟩ := rfl
  have hgives := hruns hfirst hfields
  rw [htime] at hgives
  exact ⟨Calendar.utc_isGregorian, hfields, hgives, htimes _ _ htime, 68126399, 68212799, hcarries,
    hcarried, (hpairs _ _ _ _ htime hcarried).1 hcarries, hlater, hnext,
    (hpairs _ _ _ _ htime hnext).2 hlater⟩

end LuaRuntime
