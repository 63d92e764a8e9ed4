import HttpServer.Core.Dates
import HttpServer.Core.Decimals

set_option autoImplicit false

namespace HttpServer.Core

open Unicode Text

theorem dateIntLoop_eq (s : Str) (value : Nat) :
    dateIntLoop (codePoints s) (Int32.ofNat value) =
      (Numerals.digits? 10 value s).map Int32.ofNat := by
  refine digitLoop_eq (fun _ => rfl) (fun c rest n stray => ?_) (fun c rest value low high => ?_)
    s value
  · rw [dateIntLoop, if_pos stray]
  · rw [dateIntLoop, if_neg (by omega), Int32.ofNat_add, Int32.ofNat_mul]
    rfl

theorem parseDateInt_eq (s : Str) : parseDateInt s = (Numerals.nat? 10 s).map Int32.ofNat := by
  unfold parseDateInt Numerals.nat?
  by_cases empty : s = []
  · rw [if_pos (by rw [empty]; rfl), if_pos empty]
    rfl
  · rw [if_neg (by rwa [List.length_eq_zero_iff]), if_neg empty]
    exact dateIntLoop_eq s 0

-- A month is not told by a numeral.
theorem monthNameToInt_numeral {s : Str} {n : Nat} (numeral : Numerals.nat? 10 s = some n) :
    monthNameToInt s = none := by
  have letters : ∀ name ∈ months, ∃ u rest, toLower name = u :: rest ∧ 0x39 < u.toNat := by
    simp only [months, List.map_cons, List.map_nil, List.forall_mem_cons]
    exact ⟨⟨_, _, rfl, by decide⟩, ⟨_, _, rfl, by decide⟩, ⟨_, _, rfl, by decide⟩,
      ⟨_, _, rfl, by decide⟩, ⟨_, _, rfl, by decide⟩, ⟨_, _, rfl, by decide⟩,
      ⟨_, _, rfl, by decide⟩, ⟨_, _, rfl, by decide⟩, ⟨_, _, rfl, by decide⟩,
      ⟨_, _, rfl, by decide⟩, ⟨_, _, rfl, by decide⟩, ⟨_, _, rfl, by decide⟩,
      fun _ member => nomatch member⟩
  have unnamed : ∀ name ∈ months, toLower name ≠ toLower s := by
    intro name member same
    obtain ⟨u, rest, lower, high⟩ := letters name member
    rw [lower] at same
    cases s with
    | nil => cases same
    | cons v digits =>
      obtain ⟨d, digit⟩ : ∃ d, Numerals.digit? 10 v = some d := by
        rw [Numerals.nat?, if_neg (by simp)] at numeral
        exact Option.isSome_iff_exists.mp (Numerals.digits?_mem numeral v (by simp))
      rw [decimal_iff rfl] at digit
      have first : u = lowerUnit v := by
        rw [toLower, List.map_cons] at same
        exact (List.cons.inj same).1
      rw [lowerUnit, if_neg (by omega)] at first
      rw [first] at high
      omega
  rw [monthNameToInt, List.findIdx?_eq_none_iff.mpr]
  · rfl
  · intro name member
    simpa using unnamed name member

/-- A word that no separator interrupts. -/
structure Word (w : Str) : Prop where
  nonempty : w ≠ []
  ascii : ∀ u ∈ w, u.toNat < 0x80
  whole : ∀ u ∈ w, dateSeparator u.toNat = false
  solid : ∀ u ∈ w, isSpace u = false

theorem dateTokens_word {w : Str} (word : Word w) (rest : List Nat) (cur : Str) :
    dateTokens (w.map UInt16.toNat ++ rest) cur = dateTokens rest (cur ++ w) := by
  have single {u : UInt16} (low : u.toNat < 0x80) : utf16 u.toNat = [u] := by
    rw [utf16, if_pos (by omega)]
    exact congrArg (fun v => [v]) (UInt16.ofNat_toNat)
  obtain ⟨-, ascii, whole, -⟩ := word
  induction w generalizing cur with
  | nil => simp
  | cons u w ih =>
    simp only [List.forall_mem_cons] at ascii whole
    rw [List.map_cons, List.cons_append, dateTokens, if_neg (by simp [whole.1]), single ascii.1,
      ih _ ascii.2 whole.2, List.append_assoc]
    rfl

structure Gap (gap : Str) : Prop where
  nonempty : gap ≠ []
  ascii : ∀ u ∈ gap, u.toNat < 0x80
  separates : ∀ u ∈ gap, dateSeparator u.toNat = true

theorem dateTokens_gap {gap : Str} (separates : ∀ u ∈ gap, dateSeparator u.toNat = true)
    (rest : List Nat) : dateTokens (gap.map UInt16.toNat ++ rest) [] = dateTokens rest [] := by
  induction gap with
  | nil => rfl
  | cons u gap ih =>
    simp only [List.forall_mem_cons] at separates
    rw [List.map_cons, List.cons_append, dateTokens, if_pos separates.1,
      if_pos List.isEmpty_nil, ih separates.2]

theorem dateTokens_cons {w gap : Str} (word : Word w) (between : Gap gap) (rest : List Nat) :
    dateTokens ((w ++ gap).map UInt16.toNat ++ rest) [] = w :: dateTokens rest [] := by
  obtain ⟨u, more, rfl⟩ := List.exists_cons_of_ne_nil between.nonempty
  have separates := between.separates
  simp only [List.forall_mem_cons] at separates
  have nonempty : w.isEmpty = false := by simpa using word.nonempty
  rw [List.map_append, List.append_assoc, dateTokens_word word, List.nil_append, List.map_cons,
    List.cons_append, dateTokens, if_pos separates.1, nonempty]
  exact congrArg (w :: ·) (dateTokens_gap separates.2 rest)

-- Words, each with the gap behind it, and a last word.
def phrase (words : List (Str × Str)) (last : Str) : Str :=
  words.foldr (fun pair rest => pair.1 ++ pair.2 ++ rest) last

theorem phrase_ascii {words : List (Str × Str)} {last : Str}
    (each : ∀ pair ∈ words, Word pair.1 ∧ Gap pair.2) (end_ : Word last) :
    ∀ u ∈ phrase words last, u.toNat < 0x80 := by
  induction words with
  | nil => exact end_.ascii
  | cons pair words ih =>
    simp only [List.forall_mem_cons] at each
    intro u member
    simp only [phrase, List.foldr_cons, List.mem_append] at member
    rcases member with (first | gap) | rest
    · exact each.1.1.ascii u first
    · exact each.1.2.ascii u gap
    · exact ih each.2 u rest

theorem dateTokens_phrase {words : List (Str × Str)} {last : Str}
    (each : ∀ pair ∈ words, Word pair.1 ∧ Gap pair.2) (end_ : Word last) :
    dateTokens (codePoints (phrase words last)) [] = words.map Prod.fst ++ [last] := by
  rw [codePoints_ascii _ (phrase_ascii each end_)]
  induction words with
  | nil =>
    have nonempty : last.isEmpty = false := by simpa using end_.nonempty
    have whole := dateTokens_word end_ [] []
    rw [List.append_nil, List.nil_append] at whole
    simpa [phrase, dateTokens, nonempty] using whole
  | cons pair words ih =>
    simp only [List.forall_mem_cons] at each
    rw [phrase, List.foldr_cons, List.map_append, dateTokens_cons each.1.1 each.1.2]
    exact congrArg (pair.1 :: ·) (ih each.2)

theorem getLast?_phrase (words : List (Str × Str)) {last : Str} (nonempty : last ≠ []) :
    (phrase words last).getLast? = last.getLast? := by
  induction words with
  | nil => rfl
  | cons pair words ih =>
    obtain ⟨u, here⟩ := Option.isSome_iff_exists.mp (by
      simpa using nonempty : last.getLast?.isSome = true)
    rw [phrase, List.foldr_cons, List.getLast?_append]
    change (phrase words last).getLast?.or _ = _
    rw [ih, here]
    rfl

-- The second of a date and a time of day, where the day may lie past the end of its month.
def dateValue (y m d hh mm ss : Int) : Int :=
  (Calendar.yearStart y + Calendar.monthStart (Calendar.leap y) m.toNat + (d - 1)) * 86400 +
    hh * 3600 + mm * 60 + ss

theorem yearDays_toInt {y : Int32} (first : 1970 ≤ y.toInt) (last : y.toInt ≤ 9999) :
    (yearDays y).toInt = Calendar.yearStart y.toInt := by
  have upTo (n : Nat) (few : n ≤ 8029) :
      ((List.range n).foldl (fun days i => days + (daysInYear (Int32.ofNat (1970 + i))).toInt64)
        0).toInt = Calendar.yearStart (1970 + n) ∧ Calendar.yearStart (1970 + n) ≤ 366 * n ∧
        0 ≤ Calendar.yearStart (1970 + n) := by
    induction n with
    | zero => exact ⟨by decide, by decide, by decide⟩
    | succ n ih =>
      obtain ⟨same, high, low⟩ := ih (by omega)
      have year : (Int32.ofNat (1970 + n)).toInt = 1970 + n := by
        rw [Int32.toInt_ofNat_of_lt (by omega)]
        push_cast
        rfl
      have length := daysInYear_toInt (Int32.ofNat (1970 + n))
      rw [year] at length
      have bounds := Calendar.yearLength_bounds (1970 + n)
      have next := Calendar.yearStart_succ (1970 + n)
      have shape : (1970 : Int) + (n + 1 : Nat) = 1970 + n + 1 := by omega
      have wide : (daysInYear (Int32.ofNat (1970 + n))).toInt64.toInt =
          Calendar.yearLength (1970 + n) := by rw [Int32.toInt_toInt64, length]
      rw [List.range_succ, List.foldl_append, List.foldl_cons, List.foldl_nil, shape, next,
        MachineInt.add64] <;> rw [same, wide] <;> push_cast <;> omega
  have count := (upTo (y.toInt.toNat - 1970) (by omega)).1
  have shape : (1970 : Int) + (y.toInt.toNat - 1970 : Nat) = y.toInt := by omega
  rw [shape] at count
  exact count

theorem monthsBefore_toInt (lengths : List Nat) (days : Int64) (low : 0 ≤ days.toInt)
    (high : days.toInt + lengths.sum < 9223372036854775808) (small : lengths.sum < 2147483648) :
    ((lengths.map Int32.ofNat).foldl (fun days n => days + n.toInt64) days).toInt =
      days.toInt + lengths.sum := by
  induction lengths generalizing days with
  | nil => simp
  | cons n lengths ih =>
    rw [List.sum_cons] at high small ⊢
    rw [Int.natCast_add] at high ⊢
    have wide : (Int32.ofNat n).toInt64.toInt = n := by
      rw [Int32.toInt_toInt64, Int32.toInt_ofNat_of_lt (by omega)]
    have next : (days + (Int32.ofNat n).toInt64).toInt = days.toInt + n := by
      rw [MachineInt.add64] <;> rw [wide] <;> omega
    rw [List.map_cons, List.foldl_cons, ih _ (by omega) (by omega) (by omega), next]
    omega

structure FieldsInRange (y m d hh mm ss : Int32) : Prop where
  year : 1970 ≤ y.toInt ∧ y.toInt ≤ 9999
  month : 1 ≤ m.toInt ∧ m.toInt ≤ 12
  day : 1 ≤ d.toInt ∧ d.toInt ≤ 31
  hour : 0 ≤ hh.toInt ∧ hh.toInt ≤ 23
  minute : 0 ≤ mm.toInt ∧ mm.toInt ≤ 59
  second : 0 ≤ ss.toInt ∧ ss.toInt ≤ 60

def addUp (y m d hh mm ss : Int32) : Int64 :=
  let monthsBefore := (monthDays (isLeapYear y)).take (m.toInt.toNat - 1)
  let days := monthsBefore.foldl (fun days n => days + n.toInt64) (yearDays y)
  let days := days + (d - 1).toInt64
  days * 86400 + hh.toInt64 * 3600 + mm.toInt64 * 60 + ss.toInt64

theorem addUp_toInt {y m d hh mm ss : Int32} (inRange : FieldsInRange y m d hh mm ss) :
    (addUp y m d hh mm ss).toInt =
      dateValue y.toInt m.toInt d.toInt hh.toInt mm.toInt ss.toInt := by
  obtain ⟨year, month, day, hour, minute, second⟩ := inRange
  have years := yearDays_toInt year.1 year.2
  have first := Calendar.yearStart_le year.1
  have last := Calendar.yearStart_le year.2
  have bound : Calendar.yearStart 9999 = 2932532 := by decide
  have epoch := Calendar.yearStart_epoch
  have inYear := Calendar.monthStart_le (Calendar.leap y.toInt) (by omega : 1 ≤ m.toInt.toNat)
    (by omega : m.toInt.toNat ≤ 13) le_rfl
  have length := Calendar.yearLength_bounds y.toInt
  rw [Calendar.monthStart_last] at inYear
  have sum : ((Calendar.monthLengths (Calendar.leap y.toInt)).take (m.toInt.toNat - 1)).sum =
      Calendar.monthStart (Calendar.leap y.toInt) m.toInt.toNat := rfl
  have months : (((monthDays (isLeapYear y)).take (m.toInt.toNat - 1)).foldl
      (fun days n => days + n.toInt64) (yearDays y)).toInt = Calendar.yearStart y.toInt +
        Calendar.monthStart (Calendar.leap y.toInt) m.toInt.toNat := by
    rw [isLeapYear_eq, monthDays_eq, ← List.map_take,
      monthsBefore_toInt _ _ (by omega) (by rw [sum]; omega) (by rw [sum]; omega), sum, years]
  have one : (1 : Int32).toInt = 1 := by decide
  have hourLength : (3600 : Int64).toInt = 3600 := by decide
  have minuteLength : (60 : Int64).toInt = 60 := by decide
  have before : (d - 1).toInt64.toInt = d.toInt - 1 := by
    rw [Int32.toInt_toInt64, MachineInt.sub32] <;> rw [one] <;> omega
  unfold addUp dateValue
  dsimp only
  generalize ((monthDays (isLeapYear y)).take (m.toInt.toNat - 1)).foldl
    (fun days n => days + n.toInt64) (yearDays y) = days at months
  have whole : (days + (d - 1).toInt64).toInt = days.toInt + (d.toInt - 1) := by
    rw [MachineInt.add64] <;> rw [before] <;> omega
  have seconds : ((days + (d - 1).toInt64) * 86400).toInt = (days.toInt + (d.toInt - 1)) * 86400 := by
    rw [MachineInt.mul64] <;> rw [whole, toInt_86400] <;> omega
  have hours : (hh.toInt64 * 3600).toInt = hh.toInt * 3600 := by
    rw [MachineInt.mul64] <;> rw [Int32.toInt_toInt64, hourLength] <;> omega
  have minutes : (mm.toInt64 * 60).toInt = mm.toInt * 60 := by
    rw [MachineInt.mul64] <;> rw [Int32.toInt_toInt64, minuteLength] <;> omega
  have withHours : ((days + (d - 1).toInt64) * 86400 + hh.toInt64 * 3600).toInt =
      (days.toInt + (d.toInt - 1)) * 86400 + hh.toInt * 3600 := by
    rw [MachineInt.add64] <;> rw [seconds, hours] <;> omega
  have withMinutes :
      ((days + (d - 1).toInt64) * 86400 + hh.toInt64 * 3600 + mm.toInt64 * 60).toInt =
        (days.toInt + (d.toInt - 1)) * 86400 + hh.toInt * 3600 + mm.toInt * 60 := by
    rw [MachineInt.add64] <;> rw [withHours, minutes] <;> omega
  rw [MachineInt.add64] <;> rw [withMinutes, Int32.toInt_toInt64] <;> omega

/-- What the parser accepts, and what it makes of it. -/
structure ReadAs (s : Str) (y m d hh mm ss : Int32) : Prop where
  short : 10 ≤ (trim s).length ∧ (trim s).length ≤ 64
  before : hasPrefix (trim s) (str "275760") = false
  tokens : 5 ≤ (dateTokens (codePoints (trim s)) []).length
  fields : extractDateFields (dateTokens (codePoints (trim s)) []) = some (y, m, d, hh, mm, ss)
  inRange : FieldsInRange y m d hh mm ss

theorem fieldsInRange_iff {y m d hh mm ss : Int32} : FieldsInRange y m d hh mm ss ↔
    ¬(y < 1970 ∨ 9999 < y ∨ m < 1 ∨ 12 < m ∨ d < 1 ∨ 31 < d ∨ hh < 0 ∨ 23 < hh ∨ mm < 0 ∨ 59 < mm ∨
      ss < 0 ∨ 60 < ss) := by
  have literals : (1970 : Int32).toInt = 1970 ∧ (9999 : Int32).toInt = 9999 ∧
      (1 : Int32).toInt = 1 ∧ (12 : Int32).toInt = 12 ∧ (31 : Int32).toInt = 31 ∧
      (0 : Int32).toInt = 0 ∧ (23 : Int32).toInt = 23 ∧ (59 : Int32).toInt = 59 ∧
      (60 : Int32).toInt = 60 := by decide
  simp only [Int32.lt_iff_toInt_lt, literals]
  constructor
  · intro inRange
    obtain ⟨year, month, day, hour, minute, second⟩ := inRange
    omega
  · exact fun none => ⟨by omega, by omega, by omega, by omega, by omega, by omega⟩

theorem parseHttpDate_eq_some {s : Str} {t : Int64} : parseHttpDate s = some t ↔
    ∃ y m d hh mm ss, ReadAs s y m d hh mm ss ∧ addUp y m d hh mm ss = t := by
  constructor
  · intro parsed
    unfold parseHttpDate at parsed
    dsimp only at parsed
    split_ifs at parsed with short before tokens
    cases fields : extractDateFields (dateTokens (codePoints (trim s)) []) with
    | none => simp [fields] at parsed
    | some values =>
      obtain ⟨y, m, d, hh, mm, ss⟩ := values
      rw [fields] at parsed
      dsimp only at parsed
      split_ifs at parsed with outside
      exact ⟨y, m, d, hh, mm, ss, ⟨by omega, by simpa using before, by omega, fields,
        fieldsInRange_iff.mpr outside⟩, Option.some.inj parsed⟩
  · intro found
    obtain ⟨y, m, d, hh, mm, ss, reads, rfl⟩ := found
    unfold parseHttpDate
    dsimp only
    rw [if_neg (by have := reads.short; omega), if_neg (by simp [reads.before]),
      if_neg (by have := reads.tokens; omega), reads.fields]
    dsimp only
    rw [if_neg (fieldsInRange_iff.mp reads.inRange)]
    rfl

end HttpServer.Core
