import HttpServer.Core.Cache
import HttpServer.Library.Calendar
import HttpServer.Library.MachineInt

set_option autoImplicit false

namespace HttpServer.Core

open Unicode Text
open Calendar (Date Instant)

def twoDigits (n : Nat) : Str := if n < 10 then str "0" ++ ofNat n else ofNat n

def monthName (month : Nat) : Str := months.getD (month - 1) []

-- The text of an instant, with the weekday that it is said to be.
def fixdate (weekday : Nat) (i : Instant) : Str :=
  wkdays.getD weekday [] ++ str ", " ++ twoDigits i.date.day ++ str " " ++
    monthName i.date.month ++ str " " ++ ofInt i.date.year ++ str " " ++ twoDigits i.hour ++
    str ":" ++ twoDigits i.minute ++ str ":" ++ twoDigits i.second ++ str " GMT"

-- `Sun, 06 Nov 1994 08:49:37 GMT`
def imfFixdate (i : Instant) : Str := fixdate i.date.weekday i

-- `06-Nov-1994 08:49`
def listingDate (i : Instant) : Str :=
  twoDigits i.date.day ++ str "-" ++ monthName i.date.month ++ str "-" ++ ofInt i.date.year ++
    str " " ++ twoDigits i.hour ++ str ":" ++ twoDigits i.minute

@[simp] theorem isLeapYear_eq (y : Int32) : isLeapYear y = Calendar.leap y.toInt := by
  have four : (4 : Int32).toInt = 4 := by decide
  have hundred : (100 : Int32).toInt = 100 := by decide
  have cycle : (400 : Int32).toInt = 400 := by decide
  rw [Bool.eq_iff_iff, Calendar.leap_iff]
  simp only [isLeapYear, Bool.or_eq_true, Bool.and_eq_true, beq_iff_eq, bne_iff_ne, ne_eq,
    MachineInt.mod32_eq_zero, four, hundred, cycle]

theorem daysInYear_toInt (y : Int32) : (daysInYear y).toInt = Calendar.yearLength y.toInt := by
  unfold daysInYear Calendar.yearLength
  rw [isLeapYear_eq]
  cases Calendar.leap y.toInt <;> decide

theorem yearUp_spec (fuel : Nat) (y d : Int32) (first : 1970 ≤ y.toInt) (left : 0 ≤ d.toInt)
    (room : 365 * (y.toInt - 1970) + d.toInt < 2147483648) (enough : d.toInt < 365 * fuel) :
    ∃ y' d', yearUp fuel y d = (y', d') ∧
      Calendar.yearStart y'.toInt + d'.toInt = Calendar.yearStart y.toInt + d.toInt ∧
      0 ≤ d'.toInt ∧ d'.toInt < Calendar.yearLength y'.toInt := by
  induction fuel generalizing y d with
  | zero => omega
  | succ fuel ih =>
    have length := daysInYear_toInt y
    have bounds := Calendar.yearLength_bounds y.toInt
    rw [yearUp]
    split_ifs with within
    all_goals rw [Int32.lt_iff_toInt_lt, length] at within
    · exact ⟨y, d, rfl, rfl, left, within⟩
    · have one : (1 : Int32).toInt = 1 := by decide
      have next : (y + 1).toInt = y.toInt + 1 := by
        rw [MachineInt.add32] <;> rw [one] <;> omega
      have rest : (d - daysInYear y).toInt = d.toInt - Calendar.yearLength y.toInt := by
        rw [MachineInt.sub32] <;> rw [length] <;> omega
      obtain ⟨y', d', run, same, inside⟩ := ih (y + 1) (d - daysInYear y) (by omega) (by omega)
        (by omega) (by omega)
      refine ⟨y', d', run, ?_, inside⟩
      rw [same, next, rest, Calendar.yearStart_succ]
      omega

theorem yearDown_spec (fuel : Nat) (y d : Int32) (last : y.toInt ≤ 1970)
    (left : d.toInt < Calendar.yearLength y.toInt)
    (room : -2147483648 ≤ 365 * (y.toInt - 1970) + d.toInt) (enough : -d.toInt ≤ 365 * fuel) :
    ∃ y' d', yearDown fuel y d = (y', d') ∧
      Calendar.yearStart y'.toInt + d'.toInt = Calendar.yearStart y.toInt + d.toInt ∧
      0 ≤ d'.toInt ∧ d'.toInt < Calendar.yearLength y'.toInt := by
  induction fuel generalizing y d with
  | zero => exact ⟨y, d, rfl, rfl, by omega, left⟩
  | succ fuel ih =>
    have zero : (0 : Int32).toInt = 0 := by decide
    rw [yearDown]
    split_ifs with negative
    all_goals rw [Int32.lt_iff_toInt_lt, zero] at negative
    · have one : (1 : Int32).toInt = 1 := by decide
      have bounds := Calendar.yearLength_bounds (y.toInt - 1)
      have before : (y - 1).toInt = y.toInt - 1 := by
        rw [MachineInt.sub32] <;> rw [one] <;> omega
      have length := daysInYear_toInt (y - 1)
      rw [before] at length
      have rest : (d + daysInYear (y - 1)).toInt = d.toInt + Calendar.yearLength (y.toInt - 1) := by
        rw [MachineInt.add32] <;> rw [length] <;> omega
      obtain ⟨y', d', run, same, inside⟩ := ih (y - 1) (d + daysInYear (y - 1)) (by omega)
        (by rw [rest, before]; omega) (by omega) (by omega)
      refine ⟨y', d', run, ?_, inside⟩
      have start := Calendar.yearStart_succ (y.toInt - 1)
      rw [sub_add_cancel] at start
      rw [same, before, rest]
      omega
    · exact ⟨y, d, rfl, rfl, by omega, left⟩

-- The loops over the years find the year of a day, and the days before it in that year.
theorem yearOf_spec (days : Int32) : ∃ y d, yearOf days = (y, d) ∧
    Calendar.yearStart y.toInt + d.toInt = days.toInt ∧ 0 ≤ d.toInt ∧
      d.toInt < Calendar.yearLength y.toInt := by
  have zero : (0 : Int32).toInt = 0 := by decide
  have epoch : (1970 : Int32).toInt = 1970 := by decide
  have start := Calendar.yearStart_epoch
  have low := Int32.le_toInt days
  have high := Int32.toInt_lt days
  unfold yearOf
  split_ifs with forward
  all_goals rw [ge_iff_le, Int32.le_iff_toInt_le, zero] at forward
  · obtain ⟨y, d, run, same, inside⟩ := yearUp_spec (days.toInt.natAbs + 1) 1970 days (by omega)
      forward (by omega) (by omega)
    exact ⟨y, d, run, by rw [same, epoch, start, zero_add], inside⟩
  · have bounds := Calendar.yearLength_bounds (1970 : Int32).toInt
    obtain ⟨y, d, run, same, inside⟩ := yearDown_spec (days.toInt.natAbs + 1) 1970 days (by omega)
      (by omega) (by omega) (by omega)
    exact ⟨y, d, run, by rw [same, epoch, start, zero_add], inside⟩

theorem monthDays_eq (leap : Bool) :
    monthDays leap = (Calendar.monthLengths leap).map Int32.ofNat := by
  cases leap <;> rfl

theorem monthOf_spec (lengths : List Nat) (m : Nat) (d : Int32) (left : 0 ≤ d.toInt)
    (within : d.toInt < lengths.sum) (small : lengths.sum < 2147483648) :
    ∃ i d', i < lengths.length ∧ monthOf (lengths.map Int32.ofNat) m d = (m + i, d') ∧
      d'.toInt + (lengths.take i).sum = d.toInt ∧ 0 ≤ d'.toInt ∧ d'.toInt < lengths.getD i 0 := by
  induction lengths generalizing m d with
  | nil =>
    rw [List.sum_nil] at within
    omega
  | cons n rest ih =>
    rw [List.sum_cons] at within small
    have length : (Int32.ofNat n).toInt = n := Int32.toInt_ofNat_of_lt (by omega)
    rw [List.map_cons, monthOf]
    split_ifs with here
    all_goals rw [Int32.lt_iff_toInt_lt, length] at here
    · exact ⟨0, d, by simp, rfl, by simp, left, here⟩
    · have later : (d - Int32.ofNat n).toInt = d.toInt - n := by
        rw [MachineInt.sub32] <;> rw [length] <;> have := Int32.toInt_lt d <;> omega
      obtain ⟨i, d', inside, run, same, bounds⟩ := ih (m + 1) (d - Int32.ofNat n) (by omega)
        (by omega) (by omega)
      refine ⟨i + 1, d', by simpa using inside, by rw [run]; congr 1; omega, ?_, bounds⟩
      rw [List.take_succ_cons, List.sum_cons]
      omega

theorem dateOf_spec (days : Int32) : ∃ y d m d', yearOf days = (y, d) ∧
    monthOf (monthDays (isLeapYear y)) 0 d = (m, d') ∧
    ∃ date : Date, date.number = days.toInt ∧ date.year = y.toInt ∧ date.month = m + 1 ∧
      (date.day : Int) = d'.toInt + 1 := by
  obtain ⟨y, d, years, start, left, within⟩ := yearOf_spec days
  have total : ((Calendar.monthLengths (Calendar.leap y.toInt)).sum : Int) =
      Calendar.yearLength y.toInt := by
    unfold Calendar.yearLength
    cases Calendar.leap y.toInt <;> rfl
  have bounds := Calendar.yearLength_bounds y.toInt
  obtain ⟨i, d', inside, run, same, nonneg, last⟩ :=
    monthOf_spec (Calendar.monthLengths (Calendar.leap y.toInt)) 0 d left (by omega) (by omega)
  rw [← monthDays_eq, ← isLeapYear_eq, zero_add] at run
  have months : i < 12 := inside
  refine ⟨y, d, i, d', years, run, ⟨y.toInt, i + 1, d'.toInt.toNat + 1, by omega, by omega, by omega,
    ?_⟩, ?_, rfl, rfl, by push_cast; omega⟩
  · rw [Calendar.monthLength, Nat.add_sub_cancel]
    omega
  · simp only [Date.number, Date.ordinal, Calendar.monthStart, Nat.add_sub_cancel]
    omega

theorem pad2_eq {n : Int32} (nonneg : 0 ≤ n.toInt) : pad2 n = twoDigits n.toInt.toNat := by
  have ten : (10 : Int32).toInt = 10 := by decide
  have text : ofInt n.toInt = ofNat n.toInt.toNat := by
    rw [ofInt, if_neg (by omega)]
    congr 1
    omega
  unfold pad2 twoDigits
  rw [text]
  by_cases small : n < 10
  · rw [if_pos small]
    rw [Int32.lt_iff_toInt_lt, ten] at small
    rw [if_pos (by omega)]
  · rw [if_neg small]
    rw [Int32.lt_iff_toInt_lt, ten] at small
    rw [if_neg (by omega)]

theorem toInt_86400 : (86400 : Int64).toInt = 86400 := by decide

-- The day that is shown, by a division that rounds towards 1970.
theorem day_toInt {t : Int64} (low : -2147483648 ≤ t.toInt.tdiv 86400)
    (high : t.toInt.tdiv 86400 < 2147483648) :
    (t / 86400).toInt32.toInt = t.toInt.tdiv 86400 := by
  have quotient : (t / 86400).toInt = t.toInt.tdiv 86400 := by
    rw [Int64.toInt_div_of_ne_right t 86400 (by decide), toInt_86400]
  rw [MachineInt.narrow (by omega) (by omega), quotient]

theorem tdiv_eq (t : Int) :
    t.tdiv 86400 = t / 86400 + if 0 ≤ t ∨ 86400 ∣ t then 0 else 1 := by
  rw [Int.tdiv_eq_ediv]
  rfl

theorem second_toInt (t : Int64) :
    (if (t % 86400).toInt32 < 0 then (t % 86400).toInt32 + 86400
      else (t % 86400).toInt32).toInt = t.toInt % 86400 := by
  have zero : (0 : Int32).toInt = 0 := by decide
  have day : (86400 : Int32).toInt = 86400 := by decide
  have rest : (t % 86400).toInt = t.toInt.tmod 86400 := by rw [Int64.toInt_mod, toInt_86400]
  have inside : -86400 < t.toInt.tmod 86400 ∧ t.toInt.tmod 86400 < 86400 ∧
      (t.toInt.tmod 86400 = t.toInt % 86400 ∧ 0 ≤ t.toInt.tmod 86400 ∨
        t.toInt.tmod 86400 = t.toInt % 86400 - 86400 ∧ t.toInt.tmod 86400 < 0) := by
    rw [Int.tmod_eq_emod]
    split_ifs
    · omega
    · have size : (86400 : Int).natAbs = 86400 := rfl
      omega
  have shown : (t % 86400).toInt32.toInt = t.toInt.tmod 86400 := by
    rw [MachineInt.narrow (by omega) (by omega), rest]
  split_ifs with negative
  all_goals rw [Int32.lt_iff_toInt_lt, zero, shown] at negative
  · rw [MachineInt.add32] <;> rw [shown, day] <;> omega
  · rw [shown]
    omega

-- The number of the weekday that is shown, where adding four to the day may wrap.
theorem weekday_toInt (days : Int32) :
    (if (4 + days) % 7 < 0 then (4 + days) % 7 + 7 else (4 + days) % 7).toInt =
      (4 + days).toInt % 7 := by
  have zero : (0 : Int32).toInt = 0 := by decide
  have seven : (7 : Int32).toInt = 7 := by decide
  have rest : ((4 + days) % 7).toInt = (4 + days).toInt.tmod 7 := by rw [Int32.toInt_mod, seven]
  have inside : -7 < (4 + days).toInt.tmod 7 ∧ (4 + days).toInt.tmod 7 < 7 ∧
      ((4 + days).toInt.tmod 7 = (4 + days).toInt % 7 ∧ 0 ≤ (4 + days).toInt.tmod 7 ∨
        (4 + days).toInt.tmod 7 = (4 + days).toInt % 7 - 7 ∧ (4 + days).toInt.tmod 7 < 0) := by
    rw [Int.tmod_eq_emod]
    split_ifs
    · omega
    · have size : (7 : Int).natAbs = 7 := rfl
      omega
  split_ifs with negative
  all_goals rw [Int32.lt_iff_toInt_lt, zero, rest] at negative
  · rw [MachineInt.add32] <;> rw [rest, seven] <;> omega
  · rw [rest]
    omega

theorem four_add (days : Int32) : (4 + days).toInt =
    if days.toInt + 4 ≤ 2147483647 then 4 + days.toInt else 4 + days.toInt - 4294967296 := by
  have four : (4 : Int32).toInt = 4 := by decide
  have low := Int32.le_toInt days
  have high := Int32.toInt_lt days
  split_ifs with room
  · rw [MachineInt.add32] <;> rw [four] <;> omega
  · rw [Int32.toInt_add, four]
    simp only [Int.bmod]
    omega

-- The date that is shown for a number of days since 1970, and the time for a number of seconds.
theorem shown_spec {days seconds : Int32} (nonneg : 0 ≤ seconds.toInt)
    (within : seconds.toInt < 86400) : ∃ y d m d', ∃ i : Instant, yearOf days = (y, d) ∧
      monthOf (monthDays (isLeapYear y)) 0 d = (m, d') ∧ i.date.number = days.toInt ∧
      (i.ofDay : Int) = seconds.toInt ∧ pad2 (d' + 1) = twoDigits i.date.day ∧
      months.getD m [] = monthName i.date.month ∧ y.toInt = i.date.year ∧
      pad2 (seconds / 3600) = twoDigits i.hour ∧ pad2 (seconds % 3600 / 60) = twoDigits i.minute ∧
      pad2 (seconds % 60) = twoDigits i.second := by
  obtain ⟨y, d, m, d', years, run, date, number, year, month, day⟩ := dateOf_spec days
  have one : (1 : Int32).toInt = 1 := by decide
  have hour : (3600 : Int32).toInt = 3600 := by decide
  have minute : (60 : Int32).toInt = 60 := by decide
  have hours : (seconds / 3600).toInt = seconds.toInt / 3600 := by
    rw [MachineInt.div32 nonneg (by rw [hour]; omega), hour]
  have rest : (seconds % 3600).toInt = seconds.toInt % 3600 := by
    rw [MachineInt.mod32 nonneg, hour]
  have minutes : (seconds % 3600 / 60).toInt = seconds.toInt % 3600 / 60 := by
    rw [MachineInt.div32 (by omega) (by rw [minute]; omega), rest, minute]
  have last : (seconds % 60).toInt = seconds.toInt % 60 := by
    rw [MachineInt.mod32 nonneg, minute]
  have lastDay := date.day_le
  have next : (d' + 1).toInt = date.day := by
    rw [MachineInt.add32] <;> rw [one] <;> omega
  refine ⟨y, d, m, d', ⟨date, (seconds.toInt / 3600).toNat, (seconds.toInt % 3600 / 60).toNat,
    (seconds.toInt % 60).toNat, by omega, by omega, by omega⟩, years, run, number, ?_, ?_, ?_,
    year.symm, ?_, ?_, ?_⟩
  · simp only [Instant.ofDay]
    omega
  · rw [pad2_eq (by omega), next, Int.toNat_natCast]
  · rw [monthName, month, Nat.add_sub_cancel]
  · rw [pad2_eq (by omega), hours]
  · rw [pad2_eq (by omega), minutes]
  · rw [pad2_eq (by omega), last]

-- The date of a second is shown for the day that its day rounds to, with the time of day that it has.
theorem formatHttpDate_spec {t : Int64} (low : -2147483648 ≤ t.toInt.tdiv 86400)
    (high : t.toInt.tdiv 86400 < 2147483648) : ∃ i : Instant,
      i.date.number = t.toInt.tdiv 86400 ∧ (i.ofDay : Int) = t.toInt % 86400 ∧
      formatHttpDate t = fixdate ((4 + (t / 86400).toInt32).toInt % 7).toNat i := by
  have seconds := second_toInt t
  have days := day_toInt low high
  obtain ⟨y, d, m, d', i, years, run, number, ofDay, day, month, year, hour, minute, second⟩ :=
    @shown_spec (t / 86400).toInt32 (if (t % 86400).toInt32 < 0 then
      (t % 86400).toInt32 + 86400 else (t % 86400).toInt32) (by omega) (by omega)
  refine ⟨i, number.trans days, ofDay.trans seconds, ?_⟩
  simp only [formatHttpDate, years, run, day, month, year, hour, minute, second]
  rw [weekday_toInt]
  rfl

theorem fixdate_weekday {v w : Nat} {i j : Instant} (left : v < 7) (right : w < 7)
    (same : fixdate v i = fixdate w j) : v = w := by
  have lengths : ∀ w < 7, (wkdays.getD w []).length = 3 := by decide
  have apart : ∀ v < 7, ∀ w < 7, wkdays.getD v [] = wkdays.getD w [] → v = w := by decide
  simp only [fixdate, List.append_assoc] at same
  have names := List.append_inj_left same (by rw [lengths v left, lengths w right])
  exact apart v left w right names

-- Before 1970 and within a day, the number that the day rounds to is that of the day after.
theorem shown_number (i : Instant) (t : Int) (epoch : i.epoch = t) :
    t.tdiv 86400 = i.date.number + if 0 ≤ t ∨ 86400 ∣ t then 0 else 1 := by
  rw [tdiv_eq, ← epoch, ← i.number_eq]

theorem shown_weekday (i : Instant) {days : Int32} (here : days.toInt = i.date.number) :
    ((4 + days).toInt % 7).toNat = i.date.weekday ↔ i.date.number ≤ 2147483643 := by
  rw [four_add, Date.weekday, here]
  split_ifs with room
  · exact iff_of_true rfl (by omega)
  · exact iff_of_false (by omega) (by omega)

theorem formatHttpDate_iff {t : Int64} {i : Instant} (epoch : i.epoch = t.toInt)
    (low : -2147483648 ≤ i.date.number) (high : i.date.number ≤ 2147483647) :
    formatHttpDate t = imfFixdate i ↔
      (0 ≤ t.toInt ∨ 86400 ∣ t.toInt) ∧ i.date.number ≤ 2147483643 := by
  have shown := shown_number i t.toInt epoch
  have last : i.date.number + (if 0 ≤ t.toInt ∨ 86400 ∣ t.toInt then 0 else 1) ≤ 2147483647 := by
    have place := i.number_eq
    split_ifs <;> omega
  obtain ⟨j, number, ofDay, text⟩ := @formatHttpDate_spec t (by split_ifs at shown <;> omega) (by omega)
  have days := @day_toInt t (by split_ifs at shown <;> omega) (by omega)
  have time : j.ofDay = i.ofDay := by
    have := i.ofDay_eq
    rw [epoch] at this
    omega
  rw [text]
  by_cases exact_ : 0 ≤ t.toInt ∨ 86400 ∣ t.toInt
  · rw [if_pos exact_, add_zero] at shown
    have same : j = i := by
      rw [← Instant.epoch_inj, Instant.epoch, Instant.epoch, number, shown, time]
    have weekday := shown_weekday i (days.trans shown)
    rw [same, ← weekday]
    constructor
    · exact fun texts => ⟨exact_, fixdate_weekday (by omega) i.date.weekday_lt texts⟩
    · intro holds
      rw [holds.2]
      rfl
  · rw [if_neg exact_] at shown
    refine iff_of_false (fun texts => ?_) (fun holds => exact_ holds.1)
    have weekday := fixdate_weekday (by omega) i.date.weekday_lt texts
    have small : t.toInt < 0 := by omega
    have place := i.number_eq
    rw [four_add, if_pos (by omega), days, shown, Date.weekday] at weekday
    omega

end HttpServer.Core
