import HttpServer.Core.Dates

set_option autoImplicit false

namespace HttpServer.StaticPlan

open Unicode Text HttpServer.Core
open Calendar (Date Instant)

-- The copy of `format_http_date` that the listing has, without a weekday.
def formatListingTimestamp (epochSec : Int64) : Str :=
  let daysSinceEpoch := (epochSec / 86400).toInt32
  let remSec := (epochSec % 86400).toInt32
  let remSec := if remSec < 0 then remSec + 86400 else remSec
  let hour := remSec / 3600
  let minute := remSec % 3600 / 60
  let (y, d) := yearOf daysSinceEpoch
  let (m, d) := monthOf (monthDays (isLeapYear y)) 0 d
  pad2 (d + 1) ++ str "-" ++ months.getD m [] ++ str "-" ++ ofInt y.toInt ++ str " " ++ pad2 hour ++
    str ":" ++ pad2 minute

theorem formatListingTimestamp_spec {t : Int64} (low : -2147483648 ≤ t.toInt.tdiv 86400)
    (high : t.toInt.tdiv 86400 < 2147483648) : ∃ i : Instant,
      i.date.number = t.toInt.tdiv 86400 ∧ (i.ofDay : Int) = t.toInt % 86400 ∧
      formatListingTimestamp t = listingDate i := by
  have seconds := second_toInt t
  have days := day_toInt low high
  obtain ⟨y, d, m, d', i, years, run, number, ofDay, day, month, year, hour, minute, -⟩ :=
    @shown_spec (t / 86400).toInt32 (if (t % 86400).toInt32 < 0 then
      (t % 86400).toInt32 + 86400 else (t % 86400).toInt32) (by omega) (by omega)
  refine ⟨i, number.trans days, ofDay.trans seconds, ?_⟩
  simp only [formatListingTimestamp, years, run, day, month, year, hour, minute]
  rfl

theorem listingDate_day {i j : Instant} (same : listingDate i = listingDate j) :
    i.date.day = j.date.day := by
  have lengths : ∀ n < 32, (twoDigits n).length = 2 := by decide +kernel
  have apart : ∀ m < 32, ∀ n < 32, twoDigits m = twoDigits n → m = n := by decide +kernel
  simp only [listingDate, List.append_assoc] at same
  have days := List.append_inj_left same
    (by rw [lengths _ (Nat.lt_succ_of_le i.date.day_le), lengths _ (Nat.lt_succ_of_le j.date.day_le)])
  exact apart _ (Nat.lt_succ_of_le i.date.day_le) _ (Nat.lt_succ_of_le j.date.day_le) days

theorem formatListingTimestamp_iff {t : Int64} {i : Instant} (epoch : i.epoch = t.toInt)
    (low : -2147483648 ≤ i.date.number) (high : i.date.number ≤ 2147483647) :
    formatListingTimestamp t = listingDate i ↔ 0 ≤ t.toInt ∨ 86400 ∣ t.toInt := by
  have shown := shown_number i t.toInt epoch
  have last : i.date.number + (if 0 ≤ t.toInt ∨ 86400 ∣ t.toInt then 0 else 1) ≤ 2147483647 := by
    have place := i.number_eq
    split_ifs <;> omega
  obtain ⟨j, number, ofDay, text⟩ :=
    @formatListingTimestamp_spec t (by split_ifs at shown <;> omega) (by omega)
  have time : j.ofDay = i.ofDay := by
    have := i.ofDay_eq
    rw [epoch] at this
    omega
  rw [text]
  by_cases exact_ : 0 ≤ t.toInt ∨ 86400 ∣ t.toInt
  · rw [if_pos exact_, add_zero] at shown
    have same : j = i := by
      rw [← Instant.epoch_inj, Instant.epoch, Instant.epoch, number, shown, time]
    exact iff_of_true (congrArg listingDate same) exact_
  · rw [if_neg exact_] at shown
    refine iff_of_false (fun texts => ?_) exact_
    exact Date.next_day (number.trans shown) (listingDate_day texts)

/-- Every second has one date. It is the one in responses and listings exactly from 1970 on and,
before, at midnight, if four can be added to the number of the day for the weekday. -/
theorem dates_civil (t : Int64) (low : -2147483648 ≤ t.toInt / 86400)
    (high : t.toInt / 86400 ≤ 2147483647) : ∃ i : Instant, i.epoch = t.toInt ∧
      (∀ j : Instant, j.epoch = t.toInt → j = i) ∧
      (formatHttpDate t = imfFixdate i ↔
        (0 ≤ t.toInt ∨ 86400 ∣ t.toInt) ∧ t.toInt / 86400 ≤ 2147483643) ∧
      (formatListingTimestamp t = listingDate i ↔ 0 ≤ t.toInt ∨ 86400 ∣ t.toInt) ∧
      ∀ (u : Int64) (j : Instant), j.epoch = u.toInt → (t < u ↔ i.Before j) := by
  obtain ⟨i, epoch, unique⟩ := Instant.existsUnique_epoch t.toInt
  have day := i.number_eq
  rw [epoch] at day
  rw [← day] at low high ⊢
  refine ⟨i, epoch, unique, formatHttpDate_iff epoch low high,
    formatListingTimestamp_iff epoch low high, fun u j later => ?_⟩
  rw [Int64.lt_iff_toInt_lt, ← epoch, ← later, Instant.epoch_lt_iff]

theorem dates_civil_1994 : ∃ i : Instant, i.epoch = (784111777 : Int64).toInt ∧
    (∀ j : Instant, j.epoch = (784111777 : Int64).toInt → j = i) ∧
    (formatHttpDate 784111777 = imfFixdate i ↔
      (0 ≤ (784111777 : Int64).toInt ∨ 86400 ∣ (784111777 : Int64).toInt) ∧
        (784111777 : Int64).toInt / 86400 ≤ 2147483643) ∧
    (formatListingTimestamp 784111777 = listingDate i ↔
      0 ≤ (784111777 : Int64).toInt ∨ 86400 ∣ (784111777 : Int64).toInt) ∧
    ∀ (u : Int64) (j : Instant), j.epoch = u.toInt → (784111777 < u ↔ i.Before j) :=
  dates_civil 784111777 (by decide) (by decide)

def newYearsEve : Instant :=
  ⟨⟨1969, 12, 31, by decide, by decide, by decide, by decide⟩, 23, 59, 59, by decide, by decide,
    by decide⟩

example : formatHttpDate (-1) = str "Thu, 01 Jan 1970 23:59:59 GMT" := by decide +kernel

-- The time of day is corrected below zero and the day is not.
theorem eve_is_shown_late : ¬∀ (t : Int64) (i : Instant), i.epoch = t.toInt →
    -2147483648 ≤ t.toInt / 86400 → t.toInt / 86400 ≤ 2147483647 →
    formatHttpDate t = imfFixdate i ∧ formatListingTimestamp t = listingDate i := by
  intro always
  have texts := (always (-1) newYearsEve (by decide) (by decide) (by decide)).1
  exact absurd texts (by decide +kernel)

end HttpServer.StaticPlan
