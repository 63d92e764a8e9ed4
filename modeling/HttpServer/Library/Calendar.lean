import Mathlib.Data.List.TakeDrop
import Mathlib.Tactic.IntervalCases
import Mathlib.Tactic.SplitIfs

set_option autoImplicit false

/-!
# The proleptic Gregorian calendar

Days are numbered from the first of January 1970, seconds from its beginning, in both directions.
-/

namespace Calendar

def leap (year : Int) : Bool := year % 4 == 0 && year % 100 != 0 || year % 400 == 0

def yearLength (year : Int) : Nat := if leap year then 366 else 365

def yearStart (year : Int) : Int :=
  365 * (year - 1970) + (year - 1) / 4 - (year - 1) / 100 + (year - 1) / 400 - 477

theorem leap_iff (year : Int) :
    leap year = true ↔ year % 4 = 0 ∧ year % 100 ≠ 0 ∨ year % 400 = 0 := by
  simp [leap]

theorem yearLength_bounds (year : Int) : 365 ≤ yearLength year ∧ yearLength year ≤ 366 := by
  unfold yearLength
  split_ifs <;> omega

theorem yearStart_succ (year : Int) : yearStart (year + 1) = yearStart year + yearLength year := by
  unfold yearStart yearLength
  by_cases here : leap year = true
  · rw [if_pos here]
    rw [leap_iff] at here
    omega
  · rw [if_neg here]
    rw [leap_iff] at here
    omega

theorem yearStart_epoch : yearStart 1970 = 0 := by decide

theorem yearStart_le {year other : Int} (le : year ≤ other) : yearStart year ≤ yearStart other := by
  induction other, le using Int.leInduction with
  | base => rfl
  | succ other le ih =>
    rw [yearStart_succ]
    omega

theorem yearStart_succ_le {year other : Int} (before : year < other) :
    yearStart year + yearLength year ≤ yearStart other := by
  rw [← yearStart_succ]
  exact yearStart_le before

theorem exists_year (n : Int) : ∃ year, yearStart year ≤ n ∧ n < yearStart year + yearLength year := by
  induction n using Int.induction_on with
  | zero => exact ⟨1970, by decide, by decide⟩
  | succ n ih =>
    obtain ⟨year, start, within⟩ := ih
    by_cases last : (n : Int) + 1 < yearStart year + yearLength year
    · exact ⟨year, by omega, last⟩
    · refine ⟨year + 1, ?_, ?_⟩
      · rw [yearStart_succ]
        omega
      · have := yearLength_bounds (year + 1)
        rw [yearStart_succ]
        omega
  | pred n ih =>
    obtain ⟨year, start, within⟩ := ih
    by_cases first : yearStart year ≤ -(n : Int) - 1
    · exact ⟨year, first, by omega⟩
    · have before := yearStart_succ (year - 1)
      have bounds := yearLength_bounds (year - 1)
      rw [sub_add_cancel] at before
      exact ⟨year - 1, by omega, by omega⟩

def monthLengths (leap : Bool) : List Nat :=
  [31, if leap then 29 else 28, 31, 30, 31, 30, 31, 31, 30, 31, 30, 31]

def monthLength (leap : Bool) (month : Nat) : Nat := (monthLengths leap).getD (month - 1) 0

def monthStart (leap : Bool) (month : Nat) : Nat := ((monthLengths leap).take (month - 1)).sum

theorem monthStart_one (leap : Bool) : monthStart leap 1 = 0 := rfl

theorem monthStart_succ (leap : Bool) {month : Nat} (first : 1 ≤ month) (last : month ≤ 12) :
    monthStart leap (month + 1) = monthStart leap month + monthLength leap month := by
  cases leap <;> interval_cases month <;> rfl

theorem monthStart_last (year : Int) : monthStart (leap year) 13 = yearLength year := by
  unfold yearLength
  cases leap year <;> rfl

theorem monthStart_le (leap : Bool) {month other : Nat} (first : 1 ≤ month) (le : month ≤ other)
    (last : other ≤ 13) : monthStart leap month ≤ monthStart leap other := by
  induction other, le using Nat.le_induction with
  | base => rfl
  | succ other le ih =>
    rw [monthStart_succ leap (by omega) (by omega)]
    have := ih (by omega)
    omega

theorem monthLength_bounds (leap : Bool) {month : Nat} (first : 1 ≤ month) (last : month ≤ 12) :
    28 ≤ monthLength leap month ∧ monthLength leap month ≤ 31 := by
  cases leap <;> interval_cases month <;> decide

theorem exists_month (leap : Bool) {n : Nat} (within : n < monthStart leap 13) :
    ∃ month, 1 ≤ month ∧ month ≤ 12 ∧ monthStart leap month ≤ n ∧
      n < monthStart leap month + monthLength leap month := by
  have upTo (month : Nat) (first : 1 ≤ month) (last : month ≤ 12) (before : n < monthStart leap (month + 1)) :
      ∃ month, 1 ≤ month ∧ month ≤ 12 ∧ monthStart leap month ≤ n ∧
        n < monthStart leap month + monthLength leap month := by
    induction month, first using Nat.le_induction with
    | base => exact ⟨1, le_rfl, by omega, Nat.zero_le n, by rwa [← monthStart_succ leap le_rfl last]⟩
    | succ month first ih =>
      by_cases earlier : n < monthStart leap (month + 1)
      · exact ih (by omega) earlier
      · exact ⟨month + 1, by omega, last, by omega, by rwa [← monthStart_succ leap (by omega) last]⟩
  exact upTo 12 (by omega) le_rfl within

@[ext] structure Date where
  year : Int
  month : Nat
  day : Nat
  month_first : 1 ≤ month
  month_last : month ≤ 12
  day_first : 1 ≤ day
  day_last : day ≤ monthLength (leap year) month

def Date.ordinal (d : Date) : Nat := monthStart (leap d.year) d.month + (d.day - 1)

def Date.number (d : Date) : Int := yearStart d.year + d.ordinal

def Date.Before (d e : Date) : Prop :=
  d.year < e.year ∨ d.year = e.year ∧ (d.month < e.month ∨ d.month = e.month ∧ d.day < e.day)

theorem Date.ordinal_lt (d : Date) : d.ordinal < yearLength d.year := by
  have next := monthStart_succ (leap d.year) d.month_first d.month_last
  have whole := monthStart_le (leap d.year) (by omega : 1 ≤ d.month + 1)
    (Nat.succ_le_succ d.month_last) le_rfl
  have first := d.day_first
  have last := d.day_last
  rw [monthStart_last] at whole
  unfold ordinal
  omega

theorem Date.Before.number_lt {d e : Date} (before : d.Before e) : d.number < e.number := by
  have within := d.ordinal_lt
  unfold number
  rcases before with earlier | ⟨year, earlier | ⟨month, earlier⟩⟩
  · have := yearStart_succ_le earlier
    omega
  · have next := monthStart_succ (leap d.year) d.month_first d.month_last
    have later := monthStart_le (leap d.year) (by omega : 1 ≤ d.month + 1) earlier
      (by have := e.month_last; omega)
    have first := d.day_first
    have last := d.day_last
    have same : e.ordinal = monthStart (leap d.year) e.month + (e.day - 1) := by rw [ordinal, year]
    rw [← year, same, ordinal]
    omega
  · have first := d.day_first
    have same : e.ordinal = monthStart (leap d.year) d.month + (e.day - 1) := by
      rw [ordinal, year, month]
    rw [← year, same, ordinal]
    omega

theorem Date.trichotomy (d e : Date) : d.Before e ∨ d = e ∨ e.Before d := by
  have same (year : d.year = e.year) (month : d.month = e.month) (day : d.day = e.day) : d = e :=
    Date.ext year month day
  unfold Before
  by_cases year : d.year = e.year
  · by_cases month : d.month = e.month
    · by_cases day : d.day = e.day
      · exact Or.inr (Or.inl (same year month day))
      · omega
    · omega
  · omega

theorem Date.number_lt_iff {d e : Date} : d.number < e.number ↔ d.Before e := by
  refine ⟨fun lt => ?_, Before.number_lt⟩
  rcases d.trichotomy e with before | rfl | after
  · exact before
  · exact absurd lt (lt_irrefl _)
  · exact absurd after.number_lt (by omega)

theorem Date.number_inj {d e : Date} : d.number = e.number ↔ d = e := by
  refine ⟨fun same => ?_, congrArg number⟩
  rcases d.trichotomy e with before | equal | after
  · exact absurd before.number_lt (by omega)
  · exact equal
  · exact absurd after.number_lt (by omega)

theorem Date.exists_number (n : Int) : ∃ d : Date, d.number = n := by
  obtain ⟨year, start, within⟩ := exists_year n
  have inYear : (n - yearStart year).toNat < monthStart (leap year) 13 := by
    rw [monthStart_last]
    omega
  obtain ⟨month, first, last, before, inMonth⟩ := exists_month (leap year) inYear
  refine ⟨⟨year, month, (n - yearStart year).toNat - monthStart (leap year) month + 1, first, last,
    by omega, by omega⟩, ?_⟩
  simp only [number, ordinal]
  omega

theorem Date.day_le (d : Date) : d.day ≤ 31 :=
  d.day_last.trans (monthLength_bounds _ d.month_first d.month_last).2

-- The day after has another number in its month.
theorem Date.next_day {d e : Date} (next : e.number = d.number + 1) : e.day ≠ d.day := by
  have bounds := monthLength_bounds (leap d.year) d.month_first d.month_last
  have first := d.day_first
  have last := d.day_last
  have following := monthStart_succ (leap d.year) d.month_first d.month_last
  by_cases within : d.day < monthLength (leap d.year) d.month
  · have same : e = ⟨d.year, d.month, d.day + 1, d.month_first, d.month_last, by omega, within⟩ := by
      rw [← number_inj, next]
      simp only [number, ordinal]
      omega
    rw [same]
    simp
  · by_cases december : d.month = 12
    · have january := (monthLength_bounds (leap (d.year + 1)) le_rfl (by omega : 1 ≤ 12)).1
      have same : e = ⟨d.year + 1, 1, 1, le_rfl, by omega, le_rfl, by omega⟩ := by
        have whole := monthStart_last d.year
        rw [december] at within last
        have end_ : monthStart (leap d.year) 13 = monthStart (leap d.year) 12 +
            monthLength (leap d.year) 12 := monthStart_succ _ (by omega) le_rfl
        rw [← number_inj, next]
        simp only [number, ordinal, monthStart_one, yearStart_succ, december]
        omega
      rw [same]
      simp only
      omega
    · have later := d.month_last
      have start := (monthLength_bounds (leap d.year) (by omega : 1 ≤ d.month + 1)
        (by omega : d.month + 1 ≤ 12)).1
      have same : e = ⟨d.year, d.month + 1, 1, by omega, by omega, le_rfl, by omega⟩ := by
        rw [← number_inj, next]
        simp only [number, ordinal]
        omega
      rw [same]
      simp only
      omega

-- The day of the week, counted from Sunday.
def Date.weekday (d : Date) : Nat := ((4 + d.number) % 7).toNat

theorem Date.weekday_lt (d : Date) : d.weekday < 7 := by
  unfold weekday
  omega

@[ext] structure Instant where
  date : Date
  hour : Nat
  minute : Nat
  second : Nat
  hour_last : hour < 24
  minute_last : minute < 60
  second_last : second < 60

def Instant.ofDay (i : Instant) : Nat := i.hour * 3600 + i.minute * 60 + i.second

def Instant.epoch (i : Instant) : Int := i.date.number * 86400 + i.ofDay

def Instant.Before (i j : Instant) : Prop :=
  i.date.Before j.date ∨ i.date = j.date ∧ (i.hour < j.hour ∨ i.hour = j.hour ∧
    (i.minute < j.minute ∨ i.minute = j.minute ∧ i.second < j.second))

theorem Instant.ofDay_lt (i : Instant) : i.ofDay < 86400 := by
  have := i.hour_last
  have := i.minute_last
  have := i.second_last
  unfold ofDay
  omega

theorem Instant.number_eq (i : Instant) : i.date.number = i.epoch / 86400 := by
  have := i.ofDay_lt
  unfold epoch
  omega

theorem Instant.ofDay_eq (i : Instant) : (i.ofDay : Int) = i.epoch % 86400 := by
  have := i.ofDay_lt
  unfold epoch
  omega

theorem Instant.ofDay_lt_iff {i j : Instant} : i.ofDay < j.ofDay ↔
    i.hour < j.hour ∨ i.hour = j.hour ∧ (i.minute < j.minute ∨ i.minute = j.minute ∧
      i.second < j.second) := by
  have := i.minute_last
  have := i.second_last
  have := j.minute_last
  have := j.second_last
  unfold ofDay
  omega

-- The order of the instants is that of their fields, from the year down to the second.
theorem Instant.epoch_lt_iff {i j : Instant} : i.epoch < j.epoch ↔ i.Before j := by
  have first := i.ofDay_lt
  have second := j.ofDay_lt
  rw [Before, ← Date.number_lt_iff, ← Date.number_inj, ← ofDay_lt_iff]
  unfold epoch
  omega

theorem Instant.epoch_inj {i j : Instant} : i.epoch = j.epoch ↔ i = j := by
  refine ⟨fun same => ?_, congrArg epoch⟩
  have date : i.date = j.date := by
    rw [← Date.number_inj, number_eq, number_eq, same]
  have time : i.ofDay = j.ofDay := by
    have := i.ofDay_eq
    have := j.ofDay_eq
    omega
  have := i.minute_last
  have := i.second_last
  have := j.minute_last
  have := j.second_last
  unfold ofDay at time
  exact Instant.ext date (by omega) (by omega) (by omega)

theorem Instant.exists_epoch (t : Int) : ∃ i : Instant, i.epoch = t := by
  obtain ⟨date, number⟩ := Date.exists_number (t / 86400)
  refine ⟨⟨date, (t % 86400).toNat / 3600, (t % 86400).toNat % 3600 / 60, (t % 86400).toNat % 60,
    by omega, by omega, by omega⟩, ?_⟩
  simp only [epoch, ofDay, number]
  omega

-- Every second is that of one instant.
theorem Instant.existsUnique_epoch (t : Int) : ∃! i : Instant, i.epoch = t := by
  obtain ⟨i, found⟩ := exists_epoch t
  exact ⟨i, found, fun j other => epoch_inj.mp (other.trans found.symm)⟩

end Calendar
