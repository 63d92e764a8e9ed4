import HttpServer.Core.DateParsing

set_option autoImplicit false

namespace HttpServer.Core

open Unicode Text
open Calendar (Date Instant)

def tokensOf (s : Str) : List Str := dateTokens (codePoints (trim s)) []

-- No numeral of the text is too large for 32 bits.
def NumeralsFit (s : Str) : Prop :=
  ∀ token ∈ tokensOf s, ∀ n, Numerals.nat? 10 token = some n → n < 2147483648

-- The token is a numeral for the year, of four digits or of two.
def YearNumeral (token : Str) (year : Int) : Prop :=
  ∃ n : Nat, Numerals.nat? 10 token = some n ∧
    (year = n ∨ 70 ≤ n ∧ n ≤ 99 ∧ year = 1900 + n ∨ n ≤ 69 ∧ year = 2000 + n)

def DayNumeral (token : Str) (day : Int) : Prop :=
  ∃ n : Nat, Numerals.nat? 10 token = some n ∧ day = n

structure FromTokens (seen : List Str) (f : DateFields) : Prop where
  year : ∀ y, f.year = some y → ∃ token ∈ seen, YearNumeral token y.toInt
  month : ∀ m, f.month = some m → ∃ token ∈ seen, monthNameToInt token = some m
  day : ∀ d, f.day = some d → ∃ token ∈ seen, DayNumeral token d.toInt

theorem FromTokens.more {seen : List Str} {f : DateFields} (taken : FromTokens seen f) (token : Str) :
    FromTokens (seen ++ [token]) f where
  year y found := by
    obtain ⟨other, member, numeral⟩ := taken.year y found
    exact ⟨other, List.mem_append_left _ member, numeral⟩
  month m found := by
    obtain ⟨other, member, name⟩ := taken.month m found
    exact ⟨other, List.mem_append_left _ member, name⟩
  day d found := by
    obtain ⟨other, member, numeral⟩ := taken.day d found
    exact ⟨other, List.mem_append_left _ member, numeral⟩

theorem FromTokens.number {seen : List Str} {f : DateFields} (taken : FromTokens seen f)
    {token : Str} {n : Nat} (numeral : Numerals.nat? 10 token = some n) (fits : n < 2147483648) :
    FromTokens (seen ++ [token]) (f.number (Int32.ofNat n)) := by
  have value : (Int32.ofNat n).toInt = n := Int32.toInt_ofNat_of_lt (by omega)
  have literals : (70 : Int32).toInt = 70 ∧ (99 : Int32).toInt = 99 ∧ (0 : Int32).toInt = 0 ∧
      (69 : Int32).toInt = 69 ∧ (1900 : Int32).toInt = 1900 ∧ (2000 : Int32).toInt = 2000 := by
    decide
  have here : token ∈ seen ++ [token] := by simp
  have more := taken.more token
  have withYear {y : Int32} (told : YearNumeral token y.toInt) :
      FromTokens (seen ++ [token]) { f with year := some y } :=
    ⟨fun _ same => ⟨token, here, Option.some.inj same ▸ told⟩, more.month, more.day⟩
  have withDay : FromTokens (seen ++ [token]) { f with day := some (Int32.ofNat n) } :=
    ⟨more.year, more.month, fun _ same => ⟨token, here, Option.some.inj same ▸ ⟨n, numeral, value⟩⟩⟩
  unfold DateFields.number
  split_ifs with full old recent day day'
  · exact withYear ⟨n, numeral, Or.inl value⟩
  · simp only [ge_iff_le, Int32.le_iff_toInt_le, literals, value] at old
    refine withYear ⟨n, numeral, Or.inr (Or.inl ⟨by omega, by omega, ?_⟩)⟩
    rw [MachineInt.add32] <;> rw [value] <;> simp only [literals] <;> omega
  · simp only [ge_iff_le, Int32.le_iff_toInt_le, literals, value] at recent
    refine withYear ⟨n, numeral, Or.inr (Or.inr ⟨by omega, ?_⟩)⟩
    rw [MachineInt.add32] <;> rw [value] <;> simp only [literals] <;> omega
  · exact withDay
  · exact withDay
  · exact ⟨more.year, more.month, more.day⟩

theorem FromTokens.token {seen : List Str} {f : DateFields} (taken : FromTokens seen f)
    {token : Str} (fits : ∀ n, Numerals.nat? 10 token = some n → n < 2147483648) :
    FromTokens (seen ++ [token]) (f.token token) := by
  unfold DateFields.token
  cases name : monthNameToInt token with
  | some m =>
    have more := taken.more token
    exact ⟨more.year, fun _ same => ⟨token, by simp, Option.some.inj same ▸ name⟩, more.day⟩
  | none =>
    dsimp only
    rw [parseDateInt_eq]
    cases numeral : Numerals.nat? 10 token with
    | none => exact taken.more token
    | some n => exact taken.number numeral (fits n numeral)

theorem FromTokens.fold {seen : List Str} {f : DateFields} (taken : FromTokens seen f)
    (tokens : List Str)
    (fit : ∀ token ∈ tokens, ∀ n, Numerals.nat? 10 token = some n → n < 2147483648) :
    FromTokens (seen ++ tokens) (tokens.foldl DateFields.token f) := by
  induction tokens generalizing seen f with
  | nil => rwa [List.append_nil]
  | cons token tokens ih =>
    simp only [List.forall_mem_cons] at fit
    have next := ih (taken.token fit.1) fit.2
    rwa [List.append_assoc] at next

theorem extract_fromTokens {tokens : List Str} {y m d hh mm ss : Int32}
    (fields : extractDateFields tokens = some (y, m, d, hh, mm, ss))
    (fit : ∀ token ∈ tokens, ∀ n, Numerals.nat? 10 token = some n → n < 2147483648) :
    (∃ token ∈ tokens, YearNumeral token y.toInt) ∧
      (∃ token ∈ tokens, monthNameToInt token = some m) ∧
      ∃ token ∈ tokens, DayNumeral token d.toInt := by
  have taken : FromTokens [] ⟨none, none, none, []⟩ :=
    ⟨fun _ none => (nomatch none), fun _ none => (nomatch none), fun _ none => (nomatch none)⟩
  have folded := taken.fold tokens fit
  rw [List.nil_append] at folded
  unfold extractDateFields at fields
  generalize tokens.foldl DateFields.token ⟨none, none, none, []⟩ = f at fields folded
  simp only [Option.bind_eq_bind, Option.bind_eq_some_iff] at fields
  obtain ⟨year, foundYear, month, foundMonth, day, foundDay, fields⟩ := fields
  split at fields
  · cases fields
    exact ⟨folded.year _ foundYear, folded.month _ foundMonth, folded.day _ foundDay⟩
  · cases fields

-- The second of a day that exists is told by an instant of that day, unless it is the leap second
-- at the day's end.
theorem dateValue_iff {y m d hh mm ss : Int32} (inRange : FieldsInRange y m d hh mm ss) {i : Instant}
    (epoch : i.epoch = dateValue y.toInt m.toInt d.toInt hh.toInt mm.toInt ss.toInt) :
    (i.date.year = y.toInt ∧ (i.date.month : Int) = m.toInt ∧ (i.date.day : Int) = d.toInt) ↔
      d.toInt ≤ Calendar.monthLength (Calendar.leap y.toInt) m.toInt.toNat ∧
        ¬(hh = 23 ∧ mm = 59 ∧ ss = 60) := by
  have literals : (23 : Int32).toInt = 23 ∧ (59 : Int32).toInt = 59 ∧ (60 : Int32).toInt = 60 := by
    decide
  simp only [← Int32.toInt_inj, literals]
  obtain ⟨-, month, day, hour, minute, second⟩ := inRange
  have number := i.number_eq
  rw [epoch, dateValue] at number
  constructor
  · intro same
    have lastDay := i.date.day_last
    have told : i.date.number = Calendar.yearStart y.toInt +
        Calendar.monthStart (Calendar.leap y.toInt) m.toInt.toNat + (d.toInt - 1) := by
      have months : i.date.month = m.toInt.toNat := by omega
      have firstDay := i.date.day_first
      simp only [Date.number, Date.ordinal, same.1, months]
      omega
    rw [same.1, (by omega : i.date.month = m.toInt.toNat)] at lastDay
    exact ⟨by omega, by omega⟩
  · intro real
    have date : i.date = ⟨y.toInt, m.toInt.toNat, d.toInt.toNat, by omega, by omega, by omega,
        by omega⟩ := by
      rw [← Date.number_inj, number]
      simp only [Date.number, Date.ordinal]
      omega
    rw [date]
    exact ⟨rfl, Int.toNat_of_nonneg (by omega), Int.toNat_of_nonneg (by omega)⟩

theorem dateValue_bounds {y m d hh mm ss : Int32} (inRange : FieldsInRange y m d hh mm ss) :
    0 ≤ dateValue y.toInt m.toInt d.toInt hh.toInt mm.toInt ss.toInt ∧
      dateValue y.toInt m.toInt d.toInt hh.toInt mm.toInt ss.toInt < 2932930 * 86400 := by
  obtain ⟨year, month, day, hour, minute, second⟩ := inRange
  have first := Calendar.yearStart_le year.1
  have last := Calendar.yearStart_le year.2
  have bound : Calendar.yearStart 9999 = 2932532 := by decide
  have epoch := Calendar.yearStart_epoch
  have inYear := Calendar.monthStart_le (Calendar.leap y.toInt) (by omega : 1 ≤ m.toInt.toNat)
    (by omega : m.toInt.toNat ≤ 13) le_rfl
  have length := Calendar.yearLength_bounds y.toInt
  rw [Calendar.monthStart_last] at inYear
  unfold dateValue
  omega

/-- The second that a text was read as has the very year, month and day that the text names. -/
structure Shown (s : Str) (t : Int64) (y m d : Int32) : Prop where
  date : ∃ i : Instant, i.epoch = t.toInt ∧ formatHttpDate t = imfFixdate i ∧
    i.date.year = y.toInt ∧ (i.date.month : Int) = m.toInt ∧ (i.date.day : Int) = d.toInt
  year : ∃ token ∈ tokensOf s, YearNumeral token y.toInt
  month : ∃ token ∈ tokensOf s, monthNameToInt token = some m
  day : ∃ token ∈ tokensOf s, DayNumeral token d.toInt

/-- Each text that is accepted names a real date exactly if its day is one of the month, and the
time is not the leap second at the end of the day; and no numeral may have wrapped. -/
theorem parseHttpDate_real (s : Str) (t : Int64) (parsed : parseHttpDate s = some t) :
    ∃ y m d hh mm ss, extractDateFields (tokensOf s) = some (y, m, d, hh, mm, ss) ∧
      (NumeralsFit s ∧ Shown s t y m d ↔
        NumeralsFit s ∧ d.toInt ≤ Calendar.monthLength (Calendar.leap y.toInt) m.toInt.toNat ∧
          ¬(hh = 23 ∧ mm = 59 ∧ ss = 60)) := by
  obtain ⟨y, m, d, hh, mm, ss, reads, rfl⟩ := parseHttpDate_eq_some.mp parsed
  refine ⟨y, m, d, hh, mm, ss, reads.fields, and_congr_right fun fit => ?_⟩
  have value := addUp_toInt reads.inRange
  obtain ⟨i, epoch⟩ := Instant.exists_epoch (addUp y m d hh mm ss).toInt
  rw [← dateValue_iff reads.inRange (epoch.trans value)]
  constructor
  · intro shown
    obtain ⟨j, same, -, date⟩ := shown.date
    rwa [← Instant.epoch_inj.mp (same.trans epoch.symm)]
  · intro date
    obtain ⟨year, month, day⟩ := extract_fromTokens reads.fields fit
    have bounds := dateValue_bounds reads.inRange
    rw [← value, ← epoch] at bounds
    have place := i.number_eq
    have written := (formatHttpDate_iff epoch (by omega) (by omega)).mpr ⟨by omega, by omega⟩
    exact ⟨⟨i, epoch, written, date⟩, year, month, day⟩

def novemberSixth : Str := str "Sun, 06 Nov 1994 08:49:37 GMT"

theorem parseHttpDate_real_november :
    ∃ y m d hh mm ss, extractDateFields (tokensOf novemberSixth) = some (y, m, d, hh, mm, ss) ∧
      (NumeralsFit novemberSixth ∧ Shown novemberSixth 784111777 y m d ↔
        NumeralsFit novemberSixth ∧
          d.toInt ≤ Calendar.monthLength (Calendar.leap y.toInt) m.toInt.toNat ∧
          ¬(hh = 23 ∧ mm = 59 ∧ ss = 60)) :=
  parseHttpDate_real novemberSixth 784111777 (by decide +kernel)

def lateFebruary : Str := str "Mon, 31 Feb 1994 08:49:37 GMT"

-- The last of February is read as a day of March.
theorem february_overflows : ¬∀ (s : Str) (t : Int64), parseHttpDate s = some t →
    ∃ y m d hh mm ss, extractDateFields (tokensOf s) = some (y, m, d, hh, mm, ss) ∧
      NumeralsFit s ∧ Shown s t y m d := by
  intro always
  obtain ⟨y, m, d, hh, mm, ss, fields, -, shown⟩ := always lateFebruary 762684577 (by decide +kernel)
  have read : extractDateFields (tokensOf lateFebruary) = some (1994, 2, 31, 8, 49, 37) := by
    decide +kernel
  rw [read] at fields
  cases fields
  obtain ⟨i, -, -, year, month, day⟩ := shown.date
  have lastDay := i.date.day_last
  have february : i.date.month = 2 := Int.ofNat_inj.mp month
  rw [year, february] at lastDay
  have length : Calendar.monthLength (Calendar.leap (1994 : Int32).toInt) 2 = 28 := by decide
  have thirtyFirst : i.date.day = 31 := Int.ofNat_inj.mp day
  omega

end HttpServer.Core
