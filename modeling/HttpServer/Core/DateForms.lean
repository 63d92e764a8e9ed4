import HttpServer.Core.DateParsing
import Mathlib.Data.Nat.Digits.Defs

set_option autoImplicit false

namespace HttpServer.Core

open Unicode Text
open Calendar (Date Instant)

def longWeekdays : List Str :=
  ["Sunday", "Monday", "Tuesday", "Wednesday", "Thursday", "Friday", "Saturday"].map str

-- `Sunday, 06-Nov-94 08:49:37 GMT`
def rfc850 (i : Instant) : Str :=
  longWeekdays.getD i.date.weekday [] ++ str ", " ++ twoDigits i.date.day ++ str "-" ++
    monthName i.date.month ++ str "-" ++ twoDigits (i.date.year % 100).toNat ++ str " " ++
    twoDigits i.hour ++ str ":" ++ twoDigits i.minute ++ str ":" ++ twoDigits i.second ++ str " GMT"

-- `Sun Nov  6 08:49:37 1994`
def asctime (i : Instant) : Str :=
  wkdays.getD i.date.weekday [] ++ str " " ++ monthName i.date.month ++
    (if i.date.day < 10 then str "  " else str " ") ++ ofNat i.date.day ++ str " " ++
    twoDigits i.hour ++ str ":" ++ twoDigits i.minute ++ str ":" ++ twoDigits i.second ++ str " " ++
    ofInt i.date.year

/-- A distance from Greenwich, of two digits for the hours and two for the minutes. -/
structure Offset where
  east : Bool
  hours : Nat
  minutes : Nat
  hours_two : hours < 100
  minutes_two : minutes < 100

def Offset.seconds (o : Offset) : Int :=
  (if o.east then 1 else -1) * (o.hours * 3600 + o.minutes * 60)

def Offset.text (o : Offset) : Str :=
  (if o.east then str "+" else str "-") ++ twoDigits o.hours ++ twoDigits o.minutes

-- `Sun Nov 06 1994 16:49:37 GMT+0800`, where `i` is what the clocks there show.
def jsString (i : Instant) (o : Offset) : Str :=
  wkdays.getD i.date.weekday [] ++ str " " ++ monthName i.date.month ++ str " " ++
    twoDigits i.date.day ++ str " " ++ ofInt i.date.year ++ str " " ++ twoDigits i.hour ++ str ":" ++
    twoDigits i.minute ++ str ":" ++ twoDigits i.second ++ str " GMT" ++ o.text

section

variable {n : Nat}

theorem ofNat_value : Numerals.nat? 10 (ofNat n) = some n :=
  Numerals.nat?_numeral (by omega) (by omega) n

theorem twoDigits_value : Numerals.nat? 10 (twoDigits n) = some n := by
  have value := @ofNat_value n
  unfold twoDigits
  split_ifs
  · rw [Numerals.nat?, if_neg (by exact Numerals.numeral_ne_nil 10 n)] at value
    rw [Numerals.nat?, if_neg (by simp [str]), ← value]
    rfl
  · exact value

theorem twoDigits_length (two : n < 100) : (twoDigits n).length = 2 := by
  have all : ∀ n < 100, (twoDigits n).length = 2 := by decide +kernel
  exact all n two

end

theorem numeral_word {w : Str} {n : Nat} (numeral : Numerals.nat? 10 w = some n) : Word w := by
  obtain ⟨nonempty, digits⟩ := numeral_digits numeral
  refine ⟨nonempty, fun u member => ?_, fun u member => ?_, fun u member => ?_⟩
  · have := digits u member
    omega
  · have := digits u member
    simp only [dateSeparator, Bool.or_eq_false_iff, beq_eq_false_iff_ne]
    omega
  · rw [Bool.eq_false_iff]
    intro space
    simp only [isSpace, Bool.or_eq_true, beq_iff_eq] at space
    rcases space with ((rfl | rfl) | rfl) | rfl <;> exact absurd (digits _ member) (by decide)

def isWord (w : Str) : Bool :=
  !w.isEmpty && w.all fun u => u.toNat < 0x80 && !dateSeparator u.toNat && !isSpace u

theorem isWord_iff (w : Str) : isWord w = true ↔ Word w := by
  simp only [isWord, Bool.and_eq_true, List.all_eq_true, Bool.not_eq_true', List.isEmpty_eq_false_iff,
    decide_eq_true_eq]
  constructor
  · exact fun word => ⟨word.1, fun u member => (word.2 u member).1.1,
      fun u member => (word.2 u member).1.2, fun u member => (word.2 u member).2⟩
  · exact fun word => ⟨word.nonempty, fun u member =>
      ⟨⟨word.ascii u member, word.whole u member⟩, word.solid u member⟩⟩

def isGap (gap : Str) : Bool :=
  !gap.isEmpty && gap.all fun u => u.toNat < 0x80 && dateSeparator u.toNat

theorem gap_of_check {gap : Str} (check : isGap gap = true) : Gap gap := by
  simp only [isGap, Bool.and_eq_true, List.all_eq_true, Bool.not_eq_true',
    List.isEmpty_eq_false_iff, decide_eq_true_eq] at check
  exact ⟨check.1, fun u member => (check.2 u member).1, fun u member => (check.2 u member).2⟩

/-- A name that is no month, or no number, leaves the fields as they are. -/
structure Passed (w : Str) : Prop where
  word : Word w
  month : monthNameToInt w = none
  number : parseDateInt w = none

theorem passed_of_check {w : Str} (check : isWord w = true ∧ monthNameToInt w = none ∧
    parseDateInt w = none) : Passed w :=
  ⟨(isWord_iff w).mp check.1, check.2.1, check.2.2⟩

theorem wkdays_passed (d : Date) : Passed (wkdays.getD d.weekday []) := by
  have all : ∀ w < 7, isWord (wkdays.getD w []) = true ∧ monthNameToInt (wkdays.getD w []) = none ∧
      parseDateInt (wkdays.getD w []) = none := by decide +kernel
  exact passed_of_check (all _ d.weekday_lt)

theorem longWeekdays_passed (d : Date) : Passed (longWeekdays.getD d.weekday []) := by
  have all : ∀ w < 7, isWord (longWeekdays.getD w []) = true ∧
      monthNameToInt (longWeekdays.getD w []) = none ∧
      parseDateInt (longWeekdays.getD w []) = none := by decide +kernel
  exact passed_of_check (all _ d.weekday_lt)

theorem monthName_value (d : Date) : Word (monthName d.month) ∧
    monthNameToInt (monthName d.month) = some (Int32.ofNat d.month) := by
  have all : ∀ m < 13, 1 ≤ m → isWord (monthName m) = true ∧
      monthNameToInt (monthName m) = some (Int32.ofNat m) := by decide +kernel
  have found := all d.month (Nat.lt_succ_of_le d.month_last) d.month_first
  exact ⟨(isWord_iff _).mp found.1, found.2⟩

theorem gmt_passed : Passed (str "GMT") := passed_of_check (by decide +kernel)

section

variable {f : DateFields} {w : Str} {n : Nat}

theorem token_passed (passed : Passed w) : f.token w = f := by
  simp [DateFields.token, passed.month, passed.number]

theorem token_month {m : Int32} (month : monthNameToInt w = some m) :
    f.token w = { f with month := some m } := by
  simp [DateFields.token, month]

-- A numeral of at most four digits, as the fields so far decide.
theorem token_numeral (numeral : Numerals.nat? 10 w = some n) (four : n < 10000) : f.token w =
    if 1000 ≤ n then { f with year := some (Int32.ofNat n) }
    else if 70 ≤ n ∧ n ≤ 99 ∧ f.year = none then { f with year := some (1900 + Int32.ofNat n) }
    else if n ≤ 69 ∧ f.year = none ∧ 3 ≤ f.timeTokens.length then
      { f with year := some (2000 + Int32.ofNat n) }
    else if f.day = none ∧ 1 ≤ n ∧ n ≤ 31 then { f with day := some (Int32.ofNat n) }
    else { f with timeTokens := f.timeTokens ++ [Int32.ofNat n] } := by
  have value : (Int32.ofNat n).toInt = n := Int32.toInt_ofNat_of_lt (by omega)
  have token : f.token w = f.number (Int32.ofNat n) := by
    simp [DateFields.token, monthNameToInt_numeral numeral, parseDateInt_eq, numeral]
  have least {k : Int32} {m : Nat} (same : k.toInt = m) : Int32.ofNat n ≥ k ↔ m ≤ n := by
    rw [ge_iff_le, Int32.le_iff_toInt_le, value, same]
    omega
  have most {k : Int32} {m : Nat} (same : k.toInt = m) : Int32.ofNat n ≤ k ↔ n ≤ m := by
    rw [Int32.le_iff_toInt_le, value, same]
    omega
  have thousand : (Int32.ofNat n ≥ 1000 ∧ Int32.ofNat n ≤ 9999) ↔ 1000 ≤ n := by
    rw [@least 1000 1000 (by decide), @most 9999 9999 (by decide)]
    omega
  have zero : Int32.ofNat n ≥ 0 ↔ True := by
    rw [@least 0 0 (by decide)]
    simp
  rw [token]
  simp only [DateFields.number, thousand, zero, true_and, @least 70 70 (by decide),
    @most 99 99 (by decide), @most 69 69 (by decide), @least 1 1 (by decide),
    @most 31 31 (by decide)]
  by_cases fresh : f.day = none
  · by_cases small : 1 ≤ n ∧ n ≤ 31
    · simp [fresh, small]
    · simp [fresh, small]
  · simp [fresh]

theorem token_year (numeral : Numerals.nat? 10 w = some n) (low : 1000 ≤ n) (four : n < 10000) :
    f.token w = { f with year := some (Int32.ofNat n) } := by
  rw [token_numeral numeral four, if_pos low]

theorem token_day (numeral : Numerals.nat? 10 w = some n) (fresh : f.day = none) (low : 1 ≤ n)
    (high : n ≤ 31) (early : f.timeTokens.length < 3) :
    f.token w = { f with day := some (Int32.ofNat n) } := by
  rw [token_numeral numeral (by omega), if_neg (by omega), if_neg (by omega), if_neg (by omega),
    if_pos ⟨fresh, low, high⟩]

-- Once the day is known, and while the year is or the time is not, a small number belongs to the
-- time.
theorem token_time (numeral : Numerals.nat? 10 w = some n) (known : f.day ≠ none) (two : n ≤ 69)
    (open_ : f.year ≠ none ∨ f.timeTokens.length < 3) :
    f.token w = { f with timeTokens := f.timeTokens ++ [Int32.ofNat n] } := by
  rw [token_numeral numeral (by omega), if_neg (by omega), if_neg (by omega),
    if_neg (fun late => open_.elim (fun year => year late.2.1) (fun few => by omega)),
    if_neg (fun day => known day.1)]

end

section

variable {a b weekday day month year hour minute second zone : Str} {y m d h mi se : Nat}

structure Named (year month day hour minute second : Str) (y m d h mi se : Nat) : Prop where
  year : Numerals.nat? 10 year = some y
  month : monthNameToInt month = some (Int32.ofNat m)
  day : Numerals.nat? 10 day = some d
  hour : Numerals.nat? 10 hour = some h
  minute : Numerals.nat? 10 minute = some mi
  second : Numerals.nat? 10 second = some se
  day_first : 1 ≤ d
  day_last : d ≤ 31
  hour_two : h ≤ 69
  minute_two : mi ≤ 69
  second_two : se ≤ 69

def fieldsOf (y m d h mi se : Nat) : Int32 × Int32 × Int32 × Int32 × Int32 × Int32 :=
  (Int32.ofNat y, Int32.ofNat m, Int32.ofNat d, Int32.ofNat h, Int32.ofNat mi, Int32.ofNat se)

theorem extract_dayFirst (passed : Passed weekday) (zoned : Passed zone)
    (named : Named year month day hour minute second y m d h mi se) (low : 1000 ≤ y)
    (four : y < 10000) :
    extractDateFields [weekday, day, month, year, hour, minute, second, zone] =
      some (fieldsOf y m d h mi se) := by
  simp only [extractDateFields, List.foldl_cons, List.foldl_nil]
  rw [token_passed passed, token_day named.day rfl named.day_first named.day_last (by simp),
    token_month named.month, token_year named.year low four,
    token_time named.hour (by simp) named.hour_two (Or.inl (by simp)),
    token_time named.minute (by simp) named.minute_two (Or.inl (by simp)),
    token_time named.second (by simp) named.second_two (Or.inl (by simp)), token_passed zoned]
  rfl

theorem extract_monthFirst (passed : Passed weekday) (zoned : Passed zone)
    (named : Named year month day hour minute second y m d h mi se) (low : 1000 ≤ y)
    (four : y < 10000) :
    extractDateFields [weekday, month, day, year, hour, minute, second, zone] =
      some (fieldsOf y m d h mi se) := by
  simp only [extractDateFields, List.foldl_cons, List.foldl_nil]
  rw [token_passed passed, token_month named.month,
    token_day named.day rfl named.day_first named.day_last (by simp),
    token_year named.year low four,
    token_time named.hour (by simp) named.hour_two (Or.inl (by simp)),
    token_time named.minute (by simp) named.minute_two (Or.inl (by simp)),
    token_time named.second (by simp) named.second_two (Or.inl (by simp)), token_passed zoned]
  rfl

theorem extract_yearLast (passed : Passed weekday)
    (named : Named year month day hour minute second y m d h mi se) (low : 1000 ≤ y)
    (four : y < 10000) :
    extractDateFields [weekday, month, day, hour, minute, second, year] =
      some (fieldsOf y m d h mi se) := by
  simp only [extractDateFields, List.foldl_cons, List.foldl_nil]
  rw [token_passed passed, token_month named.month,
    token_day named.day rfl named.day_first named.day_last (by simp),
    token_time named.hour (by simp) named.hour_two (Or.inr (by simp)),
    token_time named.minute (by simp) named.minute_two (Or.inr (by simp)),
    token_time named.second (by simp) named.second_two (Or.inr (by simp)),
    token_year named.year low four]
  rfl

-- A numeral behind `GMT-` takes the place of the year if it has a thousand or more.
theorem extract_west {n : Nat} (passed : Passed weekday) (zoned : Passed zone)
    (named : Named year month day hour minute second y m d h mi se) (low : 1000 ≤ y)
    (four : y < 10000) (offset : Numerals.nat? 10 a = some n) (offset_four : n < 10000) :
    extractDateFields [weekday, month, day, year, hour, minute, second, zone, a] =
      some (fieldsOf (if 1000 ≤ n then n else y) m d h mi se) := by
  simp only [extractDateFields, List.foldl_cons, List.foldl_nil]
  rw [token_passed passed, token_month named.month,
    token_day named.day rfl named.day_first named.day_last (by simp),
    token_year named.year low four,
    token_time named.hour (by simp) named.hour_two (Or.inl (by simp)),
    token_time named.minute (by simp) named.minute_two (Or.inl (by simp)),
    token_time named.second (by simp) named.second_two (Or.inl (by simp)), token_passed zoned,
    token_numeral offset offset_four]
  by_cases large : 1000 ≤ n
  · rw [if_pos large, if_pos large]
    rfl
  · rw [if_neg large, if_neg large, if_neg (by simp), if_neg (by simp), if_neg (by simp)]
    rfl

theorem extract_oldYear (passed : Passed weekday) (zoned : Passed zone)
    (named : Named year month day hour minute second y m d h mi se) (low : 70 ≤ y)
    (two : y ≤ 99) :
    extractDateFields [weekday, day, month, year, hour, minute, second, zone] =
      some (fieldsOf (1900 + y) m d h mi se) := by
  simp only [extractDateFields, List.foldl_cons, List.foldl_nil]
  rw [token_passed passed, token_day named.day rfl named.day_first named.day_last (by simp),
    token_month named.month, token_numeral named.year (by omega), if_neg (by omega),
    if_pos ⟨low, two, rfl⟩,
    token_time named.hour (by simp) named.hour_two (Or.inl (by simp)),
    token_time named.minute (by simp) named.minute_two (Or.inl (by simp)),
    token_time named.second (by simp) named.second_two (Or.inl (by simp)), token_passed zoned]
  simp only [fieldsOf, Int32.ofNat_add]
  rfl

-- A year of two digits up to 69 is taken for the hour, and the seconds for the year.
theorem extract_recentYear (passed : Passed weekday) (zoned : Passed zone)
    (named : Named year month day hour minute second y m d h mi se) (two : y ≤ 69) :
    extractDateFields [weekday, day, month, year, hour, minute, second, zone] =
      some (fieldsOf (2000 + se) m d y h mi) := by
  simp only [extractDateFields, List.foldl_cons, List.foldl_nil]
  have last := named.second_two
  rw [token_passed passed, token_day named.day rfl named.day_first named.day_last (by simp),
    token_month named.month, token_time named.year (by simp) two (Or.inr (by simp)),
    token_time named.hour (by simp) named.hour_two (Or.inr (by simp)),
    token_time named.minute (by simp) named.minute_two (Or.inr (by simp)),
    token_numeral named.second (by omega), if_neg (by omega), if_neg (by omega),
    if_pos ⟨last, rfl, by simp⟩, token_passed zoned]
  simp only [fieldsOf, Int32.ofNat_add]
  rfl

end

theorem parse_phrase {words : List (Str × Str)} {last : Str} {y m d h mi se : Nat}
    (each : ∀ pair ∈ words, Word pair.1 ∧ Gap pair.2) (end_ : Word last)
    (front : ∃ u rest, phrase words last = u :: rest ∧ 0x41 ≤ u.toNat)
    (short : 10 ≤ (phrase words last).length ∧ (phrase words last).length ≤ 64)
    (many : 4 ≤ words.length)
    (fields : extractDateFields (words.map Prod.fst ++ [last]) = some (fieldsOf y m d h mi se))
    (small : y < 10000 ∧ m < 13 ∧ d < 100 ∧ h < 100 ∧ mi < 100 ∧ se < 100) :
    (parseHttpDate (phrase words last)).map Int64.toInt =
      if 1970 ≤ y ∧ 1 ≤ m ∧ 1 ≤ d ∧ d ≤ 31 ∧ h ≤ 23 ∧ mi ≤ 59 ∧ se ≤ 60 then
        some (dateValue y m d h mi se) else none := by
  obtain ⟨u, rest, shape, letter⟩ := front
  have trimmed : trim (phrase words last) = phrase words last := by
    apply trim_eq_self
    · rw [shape]
      intro v same
      cases same
      rw [Bool.eq_false_iff]
      intro space
      simp only [isSpace, Bool.or_eq_true, beq_iff_eq] at space
      rcases space with ((rfl | rfl) | rfl) | rfl <;> exact absurd letter (by decide)
    · rw [getLast?_phrase words end_.nonempty]
      exact fun v same => end_.solid v (List.mem_of_getLast? same)
  have other : hasPrefix (phrase words last) (str "275760") = false := by
    have apart : (unit '2' == u) = false := by
      rw [beq_eq_false_iff_ne]
      rintro rfl
      exact absurd letter (by decide)
    rw [shape]
    change ((unit '2' == u) && _) = false
    rw [apart, Bool.false_and]
  have tokens := dateTokens_phrase each end_
  have value (n : Nat) (few : n < 10000) : (Int32.ofNat n).toInt = n :=
    Int32.toInt_ofNat_of_lt (by omega)
  have ranges : FieldsInRange (Int32.ofNat y) (Int32.ofNat m) (Int32.ofNat d) (Int32.ofNat h)
      (Int32.ofNat mi) (Int32.ofNat se) ↔
      1970 ≤ y ∧ 1 ≤ m ∧ 1 ≤ d ∧ d ≤ 31 ∧ h ≤ 23 ∧ mi ≤ 59 ∧ se ≤ 60 := by
    constructor
    · intro inRange
      obtain ⟨year, month, day, hour, minute, second⟩ := inRange
      rw [value y (by omega)] at year
      rw [value m (by omega)] at month
      rw [value d (by omega)] at day
      rw [value h (by omega)] at hour
      rw [value mi (by omega)] at minute
      rw [value se (by omega)] at second
      omega
    · intro within
      constructor <;> rw [value _ (by omega)] <;> omega
  have sum (inRange : FieldsInRange (Int32.ofNat y) (Int32.ofNat m) (Int32.ofNat d) (Int32.ofNat h)
      (Int32.ofNat mi) (Int32.ofNat se)) := addUp_toInt inRange
  rw [value y (by omega), value m (by omega), value d (by omega), value h (by omega),
    value mi (by omega), value se (by omega)] at sum
  have parsed (t : Int64) : parseHttpDate (phrase words last) = some t ↔
      FieldsInRange (Int32.ofNat y) (Int32.ofNat m) (Int32.ofNat d) (Int32.ofNat h) (Int32.ofNat mi)
        (Int32.ofNat se) ∧ addUp (Int32.ofNat y) (Int32.ofNat m) (Int32.ofNat d) (Int32.ofNat h)
          (Int32.ofNat mi) (Int32.ofNat se) = t := by
    rw [parseHttpDate_eq_some]
    constructor
    · intro found
      obtain ⟨y', m', d', h', mi', se', reads, total⟩ := found
      have same := reads.fields
      rw [trimmed, tokens, fields] at same
      cases same
      exact ⟨reads.inRange, total⟩
    · intro found
      refine ⟨_, _, _, _, _, _, ⟨by rw [trimmed]; exact short, by rw [trimmed]; exact other, ?_, ?_,
        found.1⟩, found.2⟩
      · rw [trimmed, tokens]
        simp only [List.length_append, List.length_map, List.length_singleton]
        omega
      · rw [trimmed, tokens]
        exact fields
  split_ifs with within
  · rw [(parsed _).mpr ⟨ranges.mpr within, rfl⟩, Option.map_some, sum (ranges.mpr within)]
  · rw [Option.map_eq_none_iff, Option.eq_none_iff_forall_ne_some]
    exact fun t found => within (ranges.mp ((parsed t).mp found).1)

theorem ofNat_length {n : Nat} (four : n < 10000) : 1 ≤ (ofNat n).length ∧ (ofNat n).length ≤ 4 := by
  have some_ : ofNat n ≠ [] := Numerals.numeral_ne_nil 10 n
  refine ⟨List.length_pos_iff.mpr some_, ?_⟩
  rw [ofNat, Numerals.numeral, List.length_map]
  exact Nat.toDigitsCore_length 10 (n + 1) n 4 (by omega) four

theorem dateValue_instant (i : Instant) :
    dateValue i.date.year i.date.month i.date.day i.hour i.minute i.second = i.epoch := by
  have first := i.date.day_first
  simp only [dateValue, Instant.epoch, Instant.ofDay, Date.number, Date.ordinal, Int.toNat_natCast]
  push_cast
  omega

theorem dateValue_day (y m d hh mm ss : Int) : dateValue y m d hh mm ss =
    (Calendar.yearStart y + Calendar.monthStart (Calendar.leap y) m.toNat + (d - 1)) * 86400 +
      (hh * 3600 + mm * 60 + ss) := by
  unfold dateValue
  omega

theorem day_time_inj {a b s t : Int} (first : 0 ≤ s ∧ s < 86400) (second : 0 ≤ t ∧ t < 86400)
    (same : a * 86400 + s = b * 86400 + t) : a = b ∧ s = t := by
  omega

theorem ofInt_year {y : Int} (nonneg : 0 ≤ y) : ofInt y = ofNat y.toNat := by
  rw [ofInt, if_neg (by omega)]
  congr 1
  omega

theorem named_instant (i : Instant) {year : Str} {y : Nat} (told : Numerals.nat? 10 year = some y)
    {day : Str} (dayTold : Numerals.nat? 10 day = some i.date.day) :
    Named year (monthName i.date.month) day (twoDigits i.hour) (twoDigits i.minute)
      (twoDigits i.second) y i.date.month i.date.day i.hour i.minute i.second where
  year := told
  month := (monthName_value i.date).2
  day := dayTold
  hour := twoDigits_value
  minute := twoDigits_value
  second := twoDigits_value
  day_first := i.date.day_first
  day_last := i.date.day_le
  hour_two := by have := i.hour_last; omega
  minute_two := by have := i.minute_last; omega
  second_two := by have := i.second_last; omega

theorem twoDigits_word (n : Nat) : Word (twoDigits n) := numeral_word twoDigits_value

theorem ofNat_word (n : Nat) : Word (ofNat n) := numeral_word ofNat_value

theorem wkdays_front (d : Date) : (wkdays.getD d.weekday []).length = 3 ∧
    ∃ u rest, wkdays.getD d.weekday [] = u :: rest ∧ 0x41 ≤ u.toNat := by
  have all : ∀ w < 7, (wkdays.getD w []).length = 3 ∧
      0x41 ≤ ((wkdays.getD w []).headD 0).toNat := by decide +kernel
  have here := all d.weekday d.weekday_lt
  obtain ⟨u, rest, shape⟩ := List.exists_cons_of_length_pos (by omega :
    0 < (wkdays.getD d.weekday []).length)
  rw [shape] at here ⊢
  exact ⟨here.1, u, rest, rfl, here.2⟩

theorem longWeekdays_front (d : Date) : (longWeekdays.getD d.weekday []).length ≤ 9 ∧
    ∃ u rest, longWeekdays.getD d.weekday [] = u :: rest ∧ 0x41 ≤ u.toNat := by
  have all : ∀ w < 7, 0 < (longWeekdays.getD w []).length ∧ (longWeekdays.getD w []).length ≤ 9 ∧
      0x41 ≤ ((longWeekdays.getD w []).headD 0).toNat := by decide +kernel
  have here := all d.weekday d.weekday_lt
  obtain ⟨u, rest, shape⟩ := List.exists_cons_of_length_pos here.1
  rw [shape] at here ⊢
  exact ⟨here.2.1, u, rest, rfl, here.2.2⟩

theorem monthName_length (d : Date) : (monthName d.month).length = 3 := by
  have all : ∀ m < 13, 1 ≤ m → (monthName m).length = 3 := by decide +kernel
  exact all d.month (Nat.lt_succ_of_le d.month_last) d.month_first

-- The first of several words starts the text.
theorem phrase_front {w gap last : Str} {words : List (Str × Str)}
    (front : ∃ u rest, w = u :: rest ∧ 0x41 ≤ u.toNat) :
    ∃ u rest, phrase ((w, gap) :: words) last = u :: rest ∧ 0x41 ≤ u.toNat := by
  obtain ⟨u, rest, rfl, letter⟩ := front
  exact ⟨u, _, rfl, letter⟩

theorem space_gap : Gap (str " ") := gap_of_check (by decide)

theorem colon_gap : Gap (str ":") := gap_of_check (by decide)

theorem instant_small (i : Instant) : i.date.month < 13 ∧ i.date.day < 100 ∧ i.hour < 100 ∧
    i.minute < 100 ∧ i.second < 100 := by
  have := i.date.month_last
  have := i.date.day_le
  have := i.hour_last
  have := i.minute_last
  have := i.second_last
  omega

theorem instant_lengths (i : Instant) : (twoDigits i.date.day).length = 2 ∧
    (monthName i.date.month).length = 3 ∧ (twoDigits i.hour).length = 2 ∧
    (twoDigits i.minute).length = 2 ∧ (twoDigits i.second).length = 2 := by
  obtain ⟨-, day, hour, minute, second⟩ := instant_small i
  exact ⟨twoDigits_length day, monthName_length i.date, twoDigits_length hour,
    twoDigits_length minute, twoDigits_length second⟩

theorem literal_lengths : (str " ").length = 1 ∧ (str "  ").length = 2 ∧ (str ":").length = 1 ∧
    (str "-").length = 1 ∧ (str ", ").length = 2 ∧ (str "GMT").length = 3 := by
  decide

theorem instant_parsed (i : Instant) (first : 1970 ≤ i.date.year) :
    (if 1970 ≤ i.date.year.toNat ∧ 1 ≤ i.date.month ∧ 1 ≤ i.date.day ∧ i.date.day ≤ 31 ∧
        i.hour ≤ 23 ∧ i.minute ≤ 59 ∧ i.second ≤ 60 then
      some (dateValue i.date.year.toNat i.date.month i.date.day i.hour i.minute i.second)
    else none) = some i.epoch := by
  have := i.hour_last
  have := i.minute_last
  have := i.second_last
  rw [if_pos ⟨by omega, i.date.month_first, i.date.day_first, i.date.day_le, by omega, by omega,
    by omega⟩, Int.toNat_of_nonneg (by omega), dateValue_instant]

theorem imfFixdate_value (i : Instant) (first : 1970 ≤ i.date.year) (last : i.date.year ≤ 9999) :
    (parseHttpDate (imfFixdate i)).map Int64.toInt = some i.epoch := by
  let words : List (Str × Str) :=
    [(wkdays.getD i.date.weekday [], str ", "), (twoDigits i.date.day, str " "),
      (monthName i.date.month, str " "), (ofNat i.date.year.toNat, str " "),
      (twoDigits i.hour, str ":"), (twoDigits i.minute, str ":"), (twoDigits i.second, str " ")]
  have shape : imfFixdate i = phrase words (str "GMT") := by
    have gmt : str " GMT" = str " " ++ str "GMT" := by decide
    simp only [imfFixdate, fixdate, phrase, words, List.foldr_cons, List.foldr_nil, gmt,
      ofInt_year (by omega : 0 ≤ i.date.year), List.append_assoc]
  have weekday := wkdays_passed i.date
  have each : ∀ pair ∈ words, Word pair.1 ∧ Gap pair.2 := by
    simp only [words, List.forall_mem_cons, List.not_mem_nil, false_imp_iff, implies_true, and_true]
    exact ⟨⟨weekday.word, gap_of_check (by decide)⟩, ⟨twoDigits_word _, space_gap⟩,
      ⟨(monthName_value i.date).1, space_gap⟩, ⟨ofNat_word _, space_gap⟩,
      ⟨twoDigits_word _, colon_gap⟩, ⟨twoDigits_word _, colon_gap⟩, twoDigits_word _, space_gap⟩
  have bounds := ofNat_length (by omega : i.date.year.toNat < 10000)
  have short : 10 ≤ (phrase words (str "GMT")).length ∧ (phrase words (str "GMT")).length ≤ 64 := by
    simp only [phrase, words, List.foldr_cons, List.foldr_nil, List.length_append,
      (wkdays_front i.date).1, instant_lengths i, literal_lengths]
    omega
  have fields := extract_dayFirst weekday gmt_passed
    (named_instant i (@ofNat_value i.date.year.toNat) (@twoDigits_value i.date.day)) (by omega)
    (by omega)
  rw [shape, parse_phrase each gmt_passed.word (phrase_front (wkdays_front i.date).2) short
    (by simp [words]) fields ⟨by omega, instant_small i⟩, instant_parsed i first]

theorem asctime_value (i : Instant) (first : 1970 ≤ i.date.year) (last : i.date.year ≤ 9999) :
    (parseHttpDate (asctime i)).map Int64.toInt = some i.epoch := by
  let words : List (Str × Str) :=
    [(wkdays.getD i.date.weekday [], str " "),
      (monthName i.date.month, if i.date.day < 10 then str "  " else str " "),
      (ofNat i.date.day, str " "), (twoDigits i.hour, str ":"), (twoDigits i.minute, str ":"),
      (twoDigits i.second, str " ")]
  have shape : asctime i = phrase words (ofNat i.date.year.toNat) := by
    simp only [asctime, phrase, words, List.foldr_cons, List.foldr_nil,
      ofInt_year (by omega : 0 ≤ i.date.year), List.append_assoc]
  have weekday := wkdays_passed i.date
  have padding : Gap (if i.date.day < 10 then str "  " else str " ") := by
    split_ifs
    · exact gap_of_check (by decide)
    · exact space_gap
  have each : ∀ pair ∈ words, Word pair.1 ∧ Gap pair.2 := by
    simp only [words, List.forall_mem_cons, List.not_mem_nil, false_imp_iff, implies_true, and_true]
    exact ⟨⟨weekday.word, space_gap⟩, ⟨(monthName_value i.date).1, padding⟩,
      ⟨ofNat_word _, space_gap⟩, ⟨twoDigits_word _, colon_gap⟩, ⟨twoDigits_word _, colon_gap⟩,
      twoDigits_word _, space_gap⟩
  have bounds := ofNat_length (by omega : i.date.year.toNat < 10000)
  have dayBounds := ofNat_length (by have := i.date.day_le; omega : i.date.day < 10000)
  have gapLength : (if i.date.day < 10 then str "  " else str " ").length ≤ 2 := by
    split_ifs <;> decide
  have short : 10 ≤ (phrase words (ofNat i.date.year.toNat)).length ∧
      (phrase words (ofNat i.date.year.toNat)).length ≤ 64 := by
    simp only [phrase, words, List.foldr_cons, List.foldr_nil, List.length_append,
      (wkdays_front i.date).1, instant_lengths i, literal_lengths]
    omega
  have fields := extract_yearLast weekday
    (named_instant i (@ofNat_value i.date.year.toNat) (@ofNat_value i.date.day)) (by omega)
    (by omega)
  rw [shape, parse_phrase each (ofNat_word _) (phrase_front (wkdays_front i.date).2) short
    (by simp [words]) fields ⟨by omega, instant_small i⟩, instant_parsed i first]

-- The year of two digits is read as such, or the time of day happens to repeat it.
def YearSurvives (i : Instant) : Prop :=
  i.date.year < 2000 ∨
    i.date.year - 2000 = i.hour ∧ i.hour = i.minute ∧ i.minute = i.second

-- Only a time of day of one repeated number reads the same shifted by one place.
theorem repeated_time {a h m s : Int} (hour : 0 ≤ h) (minute : 0 ≤ m) (second : 0 ≤ s)
    (hourLast : h ≤ 23) (minuteLast : m ≤ 59) (secondLast : s ≤ 59)
    (same : a * 3600 + h * 60 + m = h * 3600 + m * 60 + s) : a = h ∧ h = m ∧ m = s := by
  -- The minutes and the seconds differ by less than an hour, so the hours agree first.
  have hours : a = h := by omega
  have minutes : h = m := by omega
  exact ⟨hours, minutes, by omega⟩

theorem rfc850_value (i : Instant) (first : 1970 ≤ i.date.year) (last : i.date.year ≤ 2069) :
    (parseHttpDate (rfc850 i)).map Int64.toInt = some i.epoch ↔ YearSurvives i := by
  let words : List (Str × Str) :=
    [(longWeekdays.getD i.date.weekday [], str ", "), (twoDigits i.date.day, str "-"),
      (monthName i.date.month, str "-"), (twoDigits (i.date.year % 100).toNat, str " "),
      (twoDigits i.hour, str ":"), (twoDigits i.minute, str ":"), (twoDigits i.second, str " ")]
  have shape : rfc850 i = phrase words (str "GMT") := by
    have gmt : str " GMT" = str " " ++ str "GMT" := by decide
    simp only [rfc850, phrase, words, List.foldr_cons, List.foldr_nil, gmt, List.append_assoc]
  have weekday := longWeekdays_passed i.date
  have each : ∀ pair ∈ words, Word pair.1 ∧ Gap pair.2 := by
    have hyphen : Gap (str "-") := gap_of_check (by decide)
    simp only [words, List.forall_mem_cons, List.not_mem_nil, false_imp_iff, implies_true, and_true]
    exact ⟨⟨weekday.word, gap_of_check (by decide)⟩, ⟨twoDigits_word _, hyphen⟩,
      ⟨(monthName_value i.date).1, hyphen⟩, ⟨twoDigits_word _, space_gap⟩,
      ⟨twoDigits_word _, colon_gap⟩, ⟨twoDigits_word _, colon_gap⟩, twoDigits_word _, space_gap⟩
  have yearLength := twoDigits_length (by omega : (i.date.year % 100).toNat < 100)
  have front := longWeekdays_front i.date
  have short : 10 ≤ (phrase words (str "GMT")).length ∧ (phrase words (str "GMT")).length ≤ 64 := by
    have long := front.1
    simp only [phrase, words, List.foldr_cons, List.foldr_nil, List.length_append,
      instant_lengths i, literal_lengths, yearLength]
    omega
  have named := named_instant i (@twoDigits_value (i.date.year % 100).toNat)
    (@twoDigits_value i.date.day)
  obtain ⟨month, day, hour, minute, second⟩ := instant_small i
  unfold YearSurvives
  by_cases old : i.date.year < 2000
  · have fields := extract_oldYear weekday gmt_passed named (by omega) (by omega)
    have year : 1900 + (i.date.year % 100).toNat = i.date.year.toNat := by omega
    rw [year] at fields
    rw [shape, parse_phrase each gmt_passed.word (phrase_front front.2) short (by simp [words])
      fields ⟨by omega, month, day, hour, minute, second⟩, instant_parsed i first]
    exact iff_of_true rfl (Or.inl old)
  · have fields := extract_recentYear weekday gmt_passed named (by omega)
    rw [shape, parse_phrase each gmt_passed.word (phrase_front front.2) short (by simp [words])
      fields ⟨by omega, month, day, by omega, hour, minute⟩]
    have lastHour := i.hour_last
    have lastMinute := i.minute_last
    have lastSecond := i.second_last
    have firstMonth := i.date.month_first
    have firstDay := i.date.day_first
    have lastDay := i.date.day_le
    split_ifs with within
    · rw [Option.some.injEq, ← dateValue_instant]
      constructor
      · intro same
        -- The times of day agree, so the two digits of the year are the hour, and so on.
        rw [dateValue_day, dateValue_day] at same
        have times := (day_time_inj (by omega) (by omega) same).2
        have repeated := repeated_time (by omega) (by omega) (by omega) (by omega) (by omega)
          (by omega) times
        omega
      · intro survives
        have year : ((2000 + i.second : Nat) : Int) = i.date.year := by omega
        have hours : ((i.date.year % 100).toNat : Int) = i.hour := by omega
        have minutes : (i.hour : Int) = i.minute := by omega
        have seconds : (i.minute : Int) = i.second := by omega
        rw [year, hours, ← seconds, ← minutes]
    · refine iff_of_false (by simp) fun survives => within ?_
      omega

def AtGreenwich (o : Offset) : Prop := o.hours = 0 ∧ o.minutes = 0

theorem Offset.seconds_eq_zero {o : Offset} : o.seconds = 0 ↔ AtGreenwich o := by
  unfold Offset.seconds AtGreenwich
  split_ifs <;> omega

def Offset.digits (o : Offset) : Nat := o.hours * 100 + o.minutes

theorem Offset.digits_value (o : Offset) :
    Numerals.nat? 10 (twoDigits o.hours ++ twoDigits o.minutes) = some o.digits := by
  have unsigned {n : Nat} : Numerals.digits? 10 0 (twoDigits n) = some n := by
    have value := @twoDigits_value n
    rwa [Numerals.nat?, if_neg (twoDigits_word n).nonempty] at value
  rw [Numerals.nat?, if_neg (by simp [(twoDigits_word o.hours).nonempty]),
    Numerals.digits?_append, unsigned, Option.bind_some]
  have shifted := Numerals.digits?_add 10 o.hours 0 (twoDigits o.minutes)
  rwa [unsigned, twoDigits_length o.minutes_two] at shifted

-- East of Greenwich the zone and the distance are one word, which says nothing.
theorem east_passed (o : Offset) :
    Passed (str "GMT+" ++ (twoDigits o.hours ++ twoDigits o.minutes)) := by
  have head : str "GMT+" = 71 :: [77, 84, 43] := by decide
  have digits := numeral_word o.digits_value
  have zone : Word (str "GMT+") := (isWord_iff _).mp (by decide)
  refine ⟨⟨by simp [head], fun u member => ?_, fun u member => ?_, fun u member => ?_⟩, ?_, ?_⟩
  · exact (List.mem_append.mp member).elim (zone.ascii u) (digits.ascii u)
  · exact (List.mem_append.mp member).elim (zone.whole u) (digits.whole u)
  · exact (List.mem_append.mp member).elim (zone.solid u) (digits.solid u)
  · -- The names of the months have three letters.
    have lengths : ∀ name ∈ months, (toLower name).length = 3 := by decide
    rw [monthNameToInt, List.findIdx?_eq_none_iff.mpr]
    · rfl
    · intro name member
      have three := lengths name member
      rw [beq_eq_false_iff_ne]
      intro same
      have longer := congrArg List.length same
      rw [three, toLower, List.length_map, List.length_append, head] at longer
      simp only [List.length_cons, List.length_nil] at longer
      omega
  · have refused : Numerals.digit? 10 71 = none := by decide
    rw [parseDateInt_eq, head, Numerals.nat?, if_neg (by simp), List.cons_append,
      Numerals.digits?, refused]
    rfl

-- A distance that is a number of days cannot make up for the year it is taken for.
theorem days_off {i : Instant} {o : Offset} (last : i.date.year ≤ 2069) (year : 1000 ≤ o.digits) :
    dateValue o.digits i.date.month i.date.day i.hour i.minute i.second ≠
      i.epoch + (o.hours * 3600 + o.minutes * 60) := by
  intro same
  have hours := o.hours_two
  have minutes := o.minutes_two
  have ordinal := i.date.ordinal_lt
  have first := i.date.day_first
  rw [← dateValue_instant, dateValue_day, dateValue_day, add_assoc] at same
  simp only [Date.ordinal] at ordinal
  simp only [Offset.digits] at year same
  have days : (o.hours * 3600 + o.minutes * 60) % 86400 = 0 := by omega
  have far : 2360 ≤ o.hours * 100 + o.minutes := by omega
  have next := Calendar.yearStart_succ_le
    (by omega : i.date.year < i.date.year + 1)
  have later := Calendar.yearStart_succ_le
    (by push_cast; omega : i.date.year + 1 < ((o.hours * 100 + o.minutes : Nat) : Int))
  have long := (Calendar.yearLength_bounds (i.date.year + 1)).1
  simp only [Int.toNat_natCast] at same
  omega

theorem jsString_value (i : Instant) (o : Offset) (first : 1970 ≤ i.date.year)
    (last : i.date.year ≤ 2069) :
    (parseHttpDate (jsString i o)).map Int64.toInt = some (i.epoch - o.seconds) ↔
      AtGreenwich o := by
  let front : List (Str × Str) :=
    [(wkdays.getD i.date.weekday [], str " "), (monthName i.date.month, str " "),
      (twoDigits i.date.day, str " "), (ofNat i.date.year.toNat, str " "),
      (twoDigits i.hour, str ":"), (twoDigits i.minute, str ":"), (twoDigits i.second, str " ")]
  have weekday := wkdays_passed i.date
  have each : ∀ pair ∈ front, Word pair.1 ∧ Gap pair.2 := by
    simp only [front, List.forall_mem_cons, List.not_mem_nil, false_imp_iff, implies_true, and_true]
    exact ⟨⟨weekday.word, space_gap⟩, ⟨(monthName_value i.date).1, space_gap⟩,
      ⟨twoDigits_word _, space_gap⟩, ⟨ofNat_word _, space_gap⟩, ⟨twoDigits_word _, colon_gap⟩,
      ⟨twoDigits_word _, colon_gap⟩, twoDigits_word _, space_gap⟩
  have bounds := ofNat_length (by omega : i.date.year.toNat < 10000)
  have named := named_instant i (@ofNat_value i.date.year.toNat) (@twoDigits_value i.date.day)
  have small := instant_small i
  have lengths := instant_lengths i
  have hours := twoDigits_length o.hours_two
  have minutes := twoDigits_length o.minutes_two
  have digits := numeral_word o.digits_value
  have atZero : AtGreenwich o ↔ o.seconds = 0 := Offset.seconds_eq_zero.symm
  by_cases east : o.east = true
  · have passed := east_passed o
    have shape : jsString i o =
        phrase front (str "GMT+" ++ (twoDigits o.hours ++ twoDigits o.minutes)) := by
      have gmt : str " GMT" = str " " ++ str "GMT" := by decide
      have plus : str "GMT+" = str "GMT" ++ str "+" := by decide
      simp only [jsString, Offset.text, phrase, front, List.foldr_cons, List.foldr_nil, gmt, plus,
        east, if_true, ofInt_year (by omega : 0 ≤ i.date.year), List.append_assoc]
    have short : 10 ≤ (jsString i o).length ∧ (jsString i o).length ≤ 64 := by
      have four : (str "GMT+").length = 4 := by decide
      rw [shape]
      simp only [phrase, front, List.foldr_cons, List.foldr_nil, List.length_append,
        (wkdays_front i.date).1, lengths, literal_lengths, hours, minutes, four]
      omega
    rw [shape] at short
    rw [shape, parse_phrase each passed.word (phrase_front (wkdays_front i.date).2) short
      (by simp [front]) (extract_monthFirst weekday passed named (by omega) (by omega))
      ⟨by omega, small⟩, instant_parsed i first, Option.some.injEq, atZero]
    omega
  · have west : o.seconds = -(o.hours * 3600 + o.minutes * 60) := by
      rw [Offset.seconds, if_neg east]
      ring
    have eachWest : ∀ pair ∈ front ++ [(str "GMT", str "-")], Word pair.1 ∧ Gap pair.2 := by
      intro pair member
      rcases List.mem_append.mp member with member | member
      · exact each pair member
      · cases List.mem_singleton.mp member
        exact ⟨gmt_passed.word, gap_of_check (by decide)⟩
    have shape : jsString i o =
        phrase (front ++ [(str "GMT", str "-")]) (twoDigits o.hours ++ twoDigits o.minutes) := by
      have gmt : str " GMT" = str " " ++ str "GMT" := by decide
      simp only [jsString, Offset.text, phrase, front, List.foldr_cons, List.foldr_nil, gmt,
        List.cons_append, List.nil_append, if_neg east, ofInt_year (by omega : 0 ≤ i.date.year),
        List.append_assoc]
    have short : 10 ≤ (jsString i o).length ∧ (jsString i o).length ≤ 64 := by
      rw [shape]
      simp only [phrase, front, List.cons_append, List.nil_append, List.foldr_cons, List.foldr_nil,
        List.length_append, (wkdays_front i.date).1, lengths, literal_lengths, hours, minutes]
      omega
    rw [shape] at short
    have four : o.digits < 10000 := by
      have := o.hours_two
      have := o.minutes_two
      unfold Offset.digits
      omega
    rw [shape, parse_phrase eachWest digits (phrase_front (wkdays_front i.date).2) short
      (by simp [front]) (extract_west weekday gmt_passed named (by omega) (by omega)
        o.digits_value four) ⟨by split_ifs <;> omega, small⟩]
    by_cases year : 1000 ≤ o.digits
    · -- The distance replaces the year.
      rw [if_pos year]
      have away : ¬AtGreenwich o := by
        rintro ⟨noHours, noMinutes⟩
        rw [Offset.digits, noHours, noMinutes] at year
        omega
      refine iff_of_false ?_ away
      split_ifs
      · rw [Option.some.injEq, west, sub_neg_eq_add]
        exact days_off last year
      · simp
    · rw [if_neg year, instant_parsed i first, Option.some.injEq, atZero]
      omega

inductive Form where
  | imfFixdate
  | rfc850
  | asctime
  | jsString (o : Offset)

def Form.text (i : Instant) : Form → Str
  | .imfFixdate => Core.imfFixdate i
  | .rfc850 => Core.rfc850 i
  | .asctime => Core.asctime i
  | .jsString o => Core.jsString i o

-- The second that a form tells, counted from 1970 at Greenwich.
def Form.second (i : Instant) : Form → Int
  | .jsString o => i.epoch - o.seconds
  | _ => i.epoch

-- Where the parser takes each number for what it stands for.
def Form.Understood (i : Instant) : Form → Prop
  | .rfc850 => YearSurvives i
  | .jsString o => AtGreenwich o
  | _ => True

theorem parseHttpDate_forms (form : Form) (i : Instant) (first : 1970 ≤ i.date.year)
    (last : i.date.year ≤ 2069) :
    (parseHttpDate (form.text i)).map Int64.toInt = some (form.second i) ↔ form.Understood i := by
  cases form with
  | imfFixdate => exact iff_of_true (imfFixdate_value i first (by omega)) trivial
  | rfc850 => exact rfc850_value i first last
  | asctime => exact iff_of_true (asctime_value i first (by omega)) trivial
  | jsString o => exact jsString_value i o first last

def november : Instant where
  date := { year := 1994, month := 11, day := 6, month_first := by decide, month_last := by decide,
            day_first := by decide, day_last := by decide }
  hour := 8
  minute := 49
  second := 37
  hour_last := by decide
  minute_last := by decide
  second_last := by decide

theorem parseHttpDate_forms_november :
    (parseHttpDate (str "Sunday, 06-Nov-94 08:49:37 GMT")).map Int64.toInt = some 784111777 := by
  have text : Form.rfc850.text november = str "Sunday, 06-Nov-94 08:49:37 GMT" := by decide +kernel
  have second : Form.rfc850.second november = 784111777 := by decide +kernel
  have read := (parseHttpDate_forms .rfc850 november (by decide) (by decide)).mpr
    (Or.inl (by decide))
  rwa [text, second] at read

def eightEast : Offset where
  east := true
  hours := 8
  minutes := 0
  hours_two := by decide
  minutes_two := by decide

theorem distance_unread : ¬∀ (form : Form) (i : Instant), 1970 ≤ i.date.year →
    i.date.year ≤ 2069 → (parseHttpDate (form.text i)).map Int64.toInt = some (form.second i) := by
  intro always
  have read := always (.jsString eightEast) november (by decide) (by decide)
  exact absurd read (by decide +kernel)

end HttpServer.Core
