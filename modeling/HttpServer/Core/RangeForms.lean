import HttpServer.Core.Range
import HttpServer.Core.Decimals
import Mathlib.Algebra.Group.Nat.Defs
import Mathlib.Algebra.Ring.Int.Defs

set_option autoImplicit false

namespace HttpServer.Core

open Unicode Text

structure Numeral where
  digits : Str
  value : Nat
  told : Numerals.nat? 10 digits = some value

structure Blank where
  text : Str
  blank : ∀ u ∈ text, isSpace u = true

inductive RangeForm where
  | onward (start : Numeral) (beforeDash : Blank)
  | closed (start : Numeral) (beforeDash afterDash : Blank) (last : Numeral)
  | suffix (afterDash : Blank) (length : Numeral)

def RangeForm.text : RangeForm → Str
  | .onward start beforeDash => start.digits ++ beforeDash.text ++ str "-"
  | .closed start beforeDash afterDash last =>
      start.digits ++ beforeDash.text ++ str "-" ++ afterDash.text ++ last.digits
  | .suffix afterDash length => str "-" ++ afterDash.text ++ length.digits

/-- A value of the `Range` field; `unit` is what stands between `bytes=` and the form. -/
structure RangeHeader where
  before : Blank
  unit : Option Blank
  form : RangeForm
  after : Blank

def RangeHeader.text (h : RangeHeader) : Str :=
  h.before.text ++
    ((match h.unit with
      | some gap => str "bytes=" ++ gap.text ++ h.form.text
      | none => h.form.text) ++ h.after.text)

/-- What starts and ends with no blank. -/
structure Solid (s : Str) : Prop where
  front : ∃ u rest, s = u :: rest ∧ isSpace u = false
  back : ∃ init u, s = init ++ [u] ∧ isSpace u = false

theorem trim_blanks (a b : Blank) {s : Str} (solid : Solid s) :
    trim (a.text ++ (s ++ b.text)) = s := by
  have front : (a.text ++ (s ++ b.text)).dropWhile isSpace = s ++ b.text := by
    rw [List.dropWhile_append_of_pos a.blank]
    obtain ⟨u, rest, rfl, some_⟩ := solid.front
    rw [List.cons_append, List.dropWhile_cons_of_neg (by simp [some_])]
  have back : (s ++ b.text).reverse.dropWhile isSpace = s.reverse := by
    have blank : ∀ u ∈ b.text.reverse, isSpace u = true :=
      fun u member => b.blank u (List.mem_reverse.mp member)
    rw [List.reverse_append, List.dropWhile_append_of_pos blank]
    obtain ⟨init, u, rfl, some_⟩ := solid.back
    rw [List.reverse_append, List.reverse_singleton, List.singleton_append,
      List.dropWhile_cons_of_neg (by simp [some_])]
  rw [trim, front, back, List.reverse_reverse]

def noBlank : Blank := ⟨[], fun _ member => nomatch member⟩

theorem trim_before (a : Blank) {s : Str} (solid : Solid s) : trim (a.text ++ s) = s := by
  have trimmed := trim_blanks a noBlank solid
  rwa [noBlank, List.append_nil] at trimmed

theorem trim_after (b : Blank) {s : Str} (solid : Solid s) : trim (s ++ b.text) = s :=
  trim_blanks noBlank b solid

theorem Solid.append {s t : Str} (left : Solid s) (right : Solid t) (between : Str) :
    Solid (s ++ (between ++ t)) := by
  obtain ⟨u, rest, rfl, first⟩ := left.front
  obtain ⟨init, v, rfl, last⟩ := right.back
  exact ⟨⟨u, _, rfl, first⟩, ⟨u :: rest ++ (between ++ init), v, by simp, last⟩⟩

theorem digit_solid {u : UInt16} (low : 0x30 ≤ u.toNat) : isSpace u = false := by
  rw [Bool.eq_false_iff]
  intro space
  simp only [isSpace, Bool.or_eq_true, beq_iff_eq] at space
  rcases space with ((rfl | rfl) | rfl) | rfl <;> exact absurd low (by decide)

theorem Numeral.solid (n : Numeral) : Solid n.digits := by
  obtain ⟨nonempty, digits⟩ := numeral_digits n.told
  obtain ⟨u, rest, shape⟩ := List.exists_cons_of_ne_nil nonempty
  obtain ⟨init, v, tail⟩ := (List.eq_nil_or_concat' n.digits).resolve_left nonempty
  constructor
  · exact ⟨u, rest, shape, digit_solid (digits u (by simp [shape])).1⟩
  · exact ⟨init, v, tail, digit_solid (digits v (by simp [tail])).1⟩

theorem dash_solid : Solid (str "-") :=
  ⟨⟨_, [], rfl, by decide⟩, ⟨[], _, rfl, by decide⟩⟩

-- In a form are digits, blanks and dashes.
theorem RangeForm.no_equals (form : RangeForm) : unit '=' ∉ form.text := by
  have digits (n : Numeral) : unit '=' ∉ n.digits := fun member =>
    absurd ((numeral_digits n.told).2 _ member) (by decide)
  have blanks (b : Blank) : unit '=' ∉ b.text := fun member =>
    absurd (b.blank _ member) (by decide)
  have dash : unit '=' ∉ str "-" := by decide
  cases form <;>
    simp only [RangeForm.text, List.mem_append, digits, blanks, dash, or_self, not_false_eq_true]

theorem Numeral.no_dash (n : Numeral) (b : Blank) : unit '-' ∉ n.digits ++ b.text := by
  intro member
  rcases List.mem_append.mp member with digit | blank
  · exact absurd ((numeral_digits n.told).2 _ digit) (by decide)
  · exact absurd (b.blank _ blank) (by decide)

theorem RangeForm.solid (form : RangeForm) : Solid form.text := by
  cases form with
  | onward start beforeDash =>
    simp only [RangeForm.text, List.append_assoc]
    exact start.solid.append dash_solid beforeDash.text
  | closed start beforeDash afterDash last =>
    have back := dash_solid.append last.solid afterDash.text
    simp only [RangeForm.text, List.append_assoc]
    exact start.solid.append back beforeDash.text
  | suffix afterDash length =>
    simp only [RangeForm.text, List.append_assoc]
    exact dash_solid.append length.solid afterDash.text

-- The unit is no part of a form.
theorem RangeForm.no_unit (form : RangeForm) : hasPrefix form.text (str "bytes=") = false := by
  rw [Bool.eq_false_iff]
  intro starts
  obtain ⟨rest, shape⟩ := List.isPrefixOf_iff_prefix.mp starts
  apply form.no_equals
  rw [← shape]
  exact List.mem_append_left _ (by decide)

theorem rangeText_header (h : RangeHeader) : rangeText h.text = h.form.text := by
  have form := h.form.solid
  unfold rangeText RangeHeader.text
  cases h.unit with
  | none =>
    simp only [trim_blanks h.before h.after form, h.form.no_unit]
    rfl
  | some gap =>
    have letter : Solid (str "bytes=") := ⟨⟨_, _, rfl, by decide⟩, ⟨str "bytes", _, rfl, by decide⟩⟩
    have whole : Solid (str "bytes=" ++ (gap.text ++ h.form.text)) := letter.append form gap.text
    have starts : hasPrefix (str "bytes=" ++ (gap.text ++ h.form.text)) (str "bytes=") = true :=
      List.isPrefixOf_iff_prefix.mpr (List.prefix_append _ _)
    have rest : (str "bytes=" ++ (gap.text ++ h.form.text)).drop 6 = gap.text ++ h.form.text :=
      @List.drop_left _ (str "bytes=") _
    have trimmed : trim (h.before.text ++ (str "bytes=" ++ gap.text ++ h.form.text ++
        h.after.text)) = str "bytes=" ++ (gap.text ++ h.form.text) := by
      simpa only [List.append_assoc] using trim_blanks h.before h.after whole
    simp only [trimmed, starts, if_true, rest, trim_before gap form]

theorem i64Loop_eq (s : Str) (value : Nat) :
    i64Loop (codePoints s) (Int64.ofNat value) = (Numerals.digits? 10 value s).map Int64.ofNat := by
  refine digitLoop_eq (fun _ => rfl) (fun c rest n stray => ?_) (fun c rest value low high => ?_)
    s value
  · rw [i64Loop, if_pos stray]
  · rw [i64Loop, if_neg (by omega), Int64.ofNat_add, Int64.ofNat_mul]
    rfl

theorem parseI64Strict_eq (s : Str) : parseI64Strict s = (Numerals.nat? 10 s).map Int64.ofNat := by
  unfold parseI64Strict Numerals.nat?
  by_cases empty : s = []
  · rw [if_pos (by rw [empty]; rfl), if_pos empty]
    rfl
  · rw [if_neg (by rwa [List.length_eq_zero_iff]), if_neg empty]
    exact i64Loop_eq s 0

theorem Numeral.parsed (n : Numeral) : parseI64Strict n.digits = some (Int64.ofNat n.value) := by
  rw [parseI64Strict_eq, n.told]
  rfl

def onwardResult (start : Nat) (total : Int64) : RangeResult :=
  let first := Int64.ofNat start
  if first < 0 ∨ first ≥ total then .notSatisfiable else .satisfiable ⟨first, total - 1⟩

def closedResult (start last : Nat) (total : Int64) : RangeResult :=
  let first := Int64.ofNat start
  let rawEnd := Int64.ofNat last
  if first < 0 ∨ first ≥ total then .notSatisfiable
  else if rawEnd < first then .notSatisfiable
  else .satisfiable ⟨first, if rawEnd ≥ total then total - 1 else rawEnd⟩

def suffixResult (length : Nat) (total : Int64) : RangeResult :=
  let suffixLen := Int64.ofNat length
  if suffixLen ≤ 0 then .notSatisfiable
  else .satisfiable ⟨if suffixLen ≥ total then 0 else total - suffixLen, total - 1⟩

def RangeForm.result (total : Int64) : RangeForm → RangeResult
  | .onward start _ => onwardResult start.value total
  | .closed start _ _ last => closedResult start.value last.value total
  | .suffix _ length => suffixResult length.value total

theorem parseRangeSpec_header (h : RangeHeader) {total : Int64} (positive : 0 < total.toInt) :
    parseRangeSpec h.text total = h.form.result total := by
  have unitless : find h.form.text (unit '=') = none := find_eq_none.mpr h.form.no_equals
  have some_ : ¬total ≤ 0 := by
    rw [Int64.le_iff_toInt_le, toInt_zero]
    omega
  have nonempty (n : Numeral) : n.digits.length ≠ 0 :=
    fun empty => (numeral_digits n.told).1 (List.length_eq_zero_iff.mp empty)
  have dash : str "-" = [unit '-'] := by decide
  unfold parseRangeSpec
  simp only [rangeText_header, unitless, Option.isSome_none, Bool.false_eq_true, if_false, some_]
  cases h.form with
  | onward start beforeDash =>
    have place : find (start.digits ++ beforeDash.text ++ str "-") (unit '-') =
        some (start.digits ++ beforeDash.text).length := find_append (start.no_dash beforeDash)
    have rest : (start.digits ++ beforeDash.text ++ str "-").drop
        ((start.digits ++ beforeDash.text).length + 1) = [] := by
      rw [← List.drop_drop, List.drop_left]
      rfl
    have nothing : trim [] = [] := rfl
    simp only [RangeForm.text, place, List.take_left, trim_after beforeDash start.solid,
      nonempty start, if_false, start.parsed, rest, nothing, closedRange, List.length_nil, if_true,
      RangeForm.result, onwardResult]
  | closed start beforeDash afterDash last =>
    have shape : (RangeForm.closed start beforeDash afterDash last).text =
        (start.digits ++ beforeDash.text) ++ unit '-' :: (afterDash.text ++ last.digits) := by
      simp [RangeForm.text, dash]
    have place := find_append (s := start.digits ++ beforeDash.text)
      (t := afterDash.text ++ last.digits) (start.no_dash beforeDash)
    have rest : ((start.digits ++ beforeDash.text) ++ unit '-' ::
        (afterDash.text ++ last.digits)).drop ((start.digits ++ beforeDash.text).length + 1) =
          afterDash.text ++ last.digits := by
      rw [← List.drop_drop, List.drop_left]
      rfl
    simp only [shape, place, List.take_left, trim_after beforeDash start.solid, nonempty start,
      if_false, start.parsed, rest, trim_before afterDash last.solid, closedRange, nonempty last,
      last.parsed, RangeForm.result, closedResult]
  | suffix afterDash length =>
    have shape : (RangeForm.suffix afterDash length).text =
        unit '-' :: (afterDash.text ++ length.digits) := by
      simp [RangeForm.text, dash]
    have place : find (unit '-' :: (afterDash.text ++ length.digits)) (unit '-') = some 0 :=
      find_append (List.not_mem_nil)
    have nothing : trim [] = [] := rfl
    simp only [shape, place, List.take_zero, nothing, List.length_nil, if_true, Nat.zero_add,
      List.drop_succ_cons, List.drop_zero, suffixRange, trim_before afterDash length.solid,
      length.parsed, RangeForm.result, suffixResult]

def Region (first last : Int) (result : RangeResult) : Prop :=
  ∃ r : ByteRange, result = .satisfiable r ∧ r.start.toInt = first ∧ r.end.toInt = last

/-- What the numbers of a form ask for in `total` bytes. -/
def RangeForm.Exact (total : Int) (result : RangeResult) : RangeForm → Prop
  | .onward start _ =>
      (start.value < total → Region start.value (total - 1) result) ∧
        (total ≤ start.value → result = .notSatisfiable)
  | .closed start _ _ last =>
      (start.value < total → start.value ≤ last.value → last.value < 2 ^ 63 →
          Region start.value (min last.value (total - 1)) result) ∧
        (start.value < total → 2 ^ 63 ≤ last.value →
          result = .notSatisfiable ∨ Region start.value (total - 1) result) ∧
        (total ≤ start.value ∨ last.value < start.value → result = .notSatisfiable)
  | .suffix _ length =>
      (1 ≤ length.value → length.value < 2 ^ 63 →
          Region (max 0 (total - length.value)) (total - 1) result) ∧
        (2 ^ 63 ≤ length.value → result = .notSatisfiable)

-- What 64 bits with a sign keep of a number.
def kept (n : Nat) : Int := Int.bmod n (2 ^ 64)

-- Where no number comes back into the file by wrapping.
def RangeForm.Unwrapped (total : Int) : RangeForm → Prop
  | .onward start _ => start.value < total ∨ kept start.value < 0 ∨ total ≤ kept start.value
  | .closed start _ _ last =>
      if start.value < total then
        last.value < 2 ^ 63 ∨ kept last.value < start.value ∨ total - 1 ≤ kept last.value
      else kept start.value < 0 ∨ total ≤ kept start.value ∨ kept last.value < kept start.value
  | .suffix _ length => length.value < 2 ^ 63 ∨ kept length.value ≤ 0

theorem kept_eq (n : Nat) : (Int64.ofNat n).toInt = kept n := Int64.toInt_ofNat'

theorem kept_small {n : Nat} (small : n < 2 ^ 63) : kept n = n := by
  rw [← kept_eq, Int64.toInt_ofNat_of_lt small]

section

variable {total : Int64} {result : RangeResult}

theorem region_iff {r : ByteRange} {a b : Int} :
    Region a b (.satisfiable r) ↔ r.start.toInt = a ∧ r.end.toInt = b := by
  constructor
  · rintro ⟨r', same, found⟩
    cases same
    exact found
  · exact fun found => ⟨r, rfl, found⟩

theorem region_none {a b : Int} : ¬Region a b .notSatisfiable := by
  rintro ⟨r, same, -⟩
  cases same

theorem onwardResult_exact (start : Numeral) (beforeDash : Blank) (positive : 0 < total.toInt) :
    (RangeForm.onward start beforeDash).Exact total.toInt (onwardResult start.value total) ↔
      (RangeForm.onward start beforeDash).Unwrapped total.toInt := by
  have high := Int64.toInt_lt total
  have last := last_within positive
  have value := kept_eq start.value
  simp only [RangeForm.Exact, RangeForm.Unwrapped, onwardResult]
  have small : (start.value : Int) < total.toInt → kept start.value = start.value :=
    fun below => kept_small (by omega)
  split_ifs with outside
  · rw [Int64.lt_iff_toInt_lt, ge_iff_le, Int64.le_iff_toInt_le, toInt_zero, value] at outside
    simp only [region_none, imp_false, implies_true, and_true]
    constructor
    · exact fun _ => Or.inr outside
    · omega
  · rw [not_or, Int64.lt_iff_toInt_lt, ge_iff_le, Int64.le_iff_toInt_le, toInt_zero, value]
      at outside
    simp only [region_iff, value, last, and_true, imp_false]
    omega

theorem suffixResult_exact (afterDash : Blank) (length : Numeral) (positive : 0 < total.toInt) :
    (RangeForm.suffix afterDash length).Exact total.toInt (suffixResult length.value total) ↔
      (RangeForm.suffix afterDash length).Unwrapped total.toInt := by
  have high := Int64.toInt_lt total
  have last := last_within positive
  have value := kept_eq length.value
  have small : length.value < 2 ^ 63 → kept length.value = length.value := kept_small
  simp only [RangeForm.Exact, RangeForm.Unwrapped, suffixResult]
  split_ifs with nothing whole
  · rw [Int64.le_iff_toInt_le, toInt_zero, value] at nothing
    simp only [region_none, imp_false, implies_true, and_true]
    omega
  · rw [Int64.le_iff_toInt_le, toInt_zero, value] at nothing
    rw [ge_iff_le, Int64.le_iff_toInt_le, value] at whole
    simp only [region_iff, toInt_zero, last, and_true, imp_false]
    omega
  · rw [Int64.le_iff_toInt_le, toInt_zero, value] at nothing
    rw [ge_iff_le, Int64.le_iff_toInt_le, value] at whole
    have gap : (total - Int64.ofNat length.value).toInt = total.toInt - kept length.value := by
      rw [toInt_sub_of (by omega) (by omega), value]
    simp only [region_iff, gap, last, and_true, imp_false]
    omega

theorem closedResult_exact (start : Numeral) (beforeDash afterDash : Blank) (last : Numeral)
    (positive : 0 < total.toInt) :
    (RangeForm.closed start beforeDash afterDash last).Exact total.toInt
        (closedResult start.value last.value total) ↔
      (RangeForm.closed start beforeDash afterDash last).Unwrapped total.toInt := by
  have high := Int64.toInt_lt total
  have final := last_within positive
  have first := kept_eq start.value
  have rawEnd := kept_eq last.value
  have startSmall : (start.value : Int) < total.toInt → kept start.value = start.value :=
    fun below => kept_small (by omega)
  have lastSmall : last.value < 2 ^ 63 → kept last.value = last.value := kept_small
  simp only [RangeForm.Exact, RangeForm.Unwrapped, closedResult]
  by_cases outside : Int64.ofNat start.value < 0 ∨ Int64.ofNat start.value ≥ total
  · rw [if_pos outside]
    rw [Int64.lt_iff_toInt_lt, ge_iff_le, Int64.le_iff_toInt_le, toInt_zero, first] at outside
    simp only [region_none, imp_false, implies_true, and_true, true_or]
    split_ifs <;> omega
  · rw [if_neg outside]
    rw [not_or, Int64.lt_iff_toInt_lt, ge_iff_le, Int64.le_iff_toInt_le, toInt_zero, first]
      at outside
    by_cases inverted : Int64.ofNat last.value < Int64.ofNat start.value
    · rw [if_pos inverted]
      rw [Int64.lt_iff_toInt_lt, first, rawEnd] at inverted
      simp only [region_none, imp_false, implies_true, and_true, true_or]
      split_ifs <;> omega
    · rw [if_neg inverted]
      rw [Int64.lt_iff_toInt_lt, first, rawEnd] at inverted
      simp only [region_iff, first, reduceCtorEq, imp_false, false_or]
      by_cases clamped : Int64.ofNat last.value ≥ total
      · rw [if_pos clamped, final]
        rw [ge_iff_le, Int64.le_iff_toInt_le, rawEnd] at clamped
        split_ifs <;> omega
      · rw [if_neg clamped, rawEnd]
        rw [ge_iff_le, Int64.le_iff_toInt_le, rawEnd] at clamped
        split_ifs <;> omega

end

theorem parseRangeSpec_exact (h : RangeHeader) (total : Int64) (positive : 0 < total.toInt) :
    h.form.Exact total.toInt (parseRangeSpec h.text total) ↔ h.form.Unwrapped total.toInt := by
  rw [parseRangeSpec_header h positive]
  cases h.form with
  | onward start beforeDash => exact onwardResult_exact start beforeDash positive
  | closed start beforeDash afterDash last =>
    exact closedResult_exact start beforeDash afterDash last positive
  | suffix afterDash length => exact suffixResult_exact afterDash length positive

def eighteen : Numeral := ⟨str "18", 18, by decide⟩

-- `bytes= 18-`
def fromEighteen : RangeHeader :=
  ⟨noBlank, some ⟨[0x20], by simp [isSpace]⟩, .onward eighteen noBlank, noBlank⟩

theorem parseRangeSpec_exact_eighteen :
    fromEighteen.text = str "bytes= 18-" ∧
      fromEighteen.form.Exact 100 (parseRangeSpec fromEighteen.text 100) :=
  ⟨by decide +kernel,
    (parseRangeSpec_exact fromEighteen 100 (by decide)).mpr (Or.inl (by decide))⟩

-- `bytes=18446744073709551616-`
def fromWrapped : RangeHeader :=
  ⟨noBlank, some noBlank, .onward ⟨str "18446744073709551616", 2 ^ 64, by decide +kernel⟩ noBlank,
    noBlank⟩

-- A start of twenty digits comes back as the first byte.
theorem wrapped_start : ¬∀ (h : RangeHeader) (total : Int64), 0 < total.toInt →
    h.form.Exact total.toInt (parseRangeSpec h.text total) := by
  intro always
  have refused := (always fromWrapped 100 (by decide)).2 (by decide)
  exact absurd refused (by decide +kernel)

end HttpServer.Core
