import HttpServer.Text

set_option autoImplicit false

namespace HttpServer.Core

open Unicode Text

structure ByteRange where
  start : Int64
  «end» : Int64
  deriving DecidableEq

inductive RangeResult where
  | satisfiable (range : ByteRange)
  | notSatisfiable
  | notApplicable
  deriving DecidableEq

def i64Loop : List Nat → Int64 → Option Int64
  | [], n => some n
  | cp :: rest, n =>
      if cp < 0x30 ∨ 0x39 < cp then none
      else i64Loop rest (n * 10 + Int64.ofNat (cp - 0x30))

-- Nothing keeps the product from wrapping.
def parseI64Strict (s : Str) : Option Int64 :=
  if s.length = 0 then none else i64Loop (codePoints s) 0

def suffixRange (partEnd : Str) (total : Int64) : RangeResult :=
  match parseI64Strict partEnd with
  | none => .notSatisfiable
  | some suffixLen =>
      if suffixLen ≤ 0 then .notSatisfiable
      else .satisfiable ⟨if suffixLen ≥ total then 0 else total - suffixLen, total - 1⟩

def closedRange (start : Int64) (partEnd : Str) (total : Int64) : RangeResult :=
  if partEnd.length = 0 then .satisfiable ⟨start, total - 1⟩
  else match parseI64Strict partEnd with
    | none => .notSatisfiable
    | some rawEnd =>
        if rawEnd < start then .notSatisfiable
        else .satisfiable ⟨start, if rawEnd ≥ total then total - 1 else rawEnd⟩

def rangeText (headerVal : Str) : Str :=
  let trimmed := trim headerVal
  if hasPrefix trimmed (str "bytes=") then trim (trimmed.drop 6) else trimmed

def parseRangeSpec (headerVal : Str) (total : Int64) : RangeResult :=
  let raw := rangeText headerVal
  if (find raw (unit '=')).isSome then .notApplicable
  else if total ≤ 0 then .notSatisfiable
  else match find raw (unit '-') with
    | none => .notApplicable
    | some dashIdx =>
        let partStart := trim (raw.take dashIdx)
        let partEnd := trim (raw.drop (dashIdx + 1))
        if partStart.length = 0 then suffixRange partEnd total
        else match parseI64Strict partStart with
          | none => .notSatisfiable
          | some start =>
              if start < 0 ∨ start ≥ total then .notSatisfiable
              else closedRange start partEnd total

def formatContentRange (start «end» total : Int64) : Str :=
  str "bytes " ++ ofInt start.toInt ++ str "-" ++ ofInt end.toInt ++ str "/" ++ ofInt total.toInt

def formatContentRangeUnsatisfiable (total : Int64) : Str := str "bytes */" ++ ofInt total.toInt

/-- `[offset, offset + length)` inside a file of `size` bytes, as exact integers. -/
structure Inside (offset length size : Int64) : Prop where
  front : 0 ≤ offset.toInt
  count : 0 ≤ length.toInt
  back : offset.toInt + length.toInt ≤ size.toInt

theorem toInt_sub_of {a b : Int64} (nonneg : 0 ≤ b.toInt) (le : b.toInt ≤ a.toInt) :
    (a - b).toInt = a.toInt - b.toInt := by
  have high := Int64.toInt_lt a
  rw [Int64.toInt_sub]
  apply Int.bmod_eq_of_le <;> omega

theorem toInt_add_of {a b : Int64} (left : 0 ≤ a.toInt) (right : 0 ≤ b.toInt)
    (bound : a.toInt + b.toInt < 9223372036854775808) : (a + b).toInt = a.toInt + b.toInt := by
  rw [Int64.toInt_add]
  apply Int.bmod_eq_of_le <;> omega

@[simp] theorem toInt_one : (1 : Int64).toInt = 1 := by decide

@[simp] theorem toInt_zero : (0 : Int64).toInt = 0 := by decide

theorem inside_whole {size : Int64} (nonneg : 0 ≤ size.toInt) : Inside 0 size size :=
  ⟨by simp, nonneg, by simp⟩

theorem inside_range {start last size : Int64} (first : 0 ≤ start.toInt)
    (order : start.toInt ≤ last.toInt) (bound : last.toInt < size.toInt) :
    Inside start (last - start + 1) size := by
  have high := Int64.toInt_lt size
  have gap : (last - start).toInt = last.toInt - start.toInt := toInt_sub_of first order
  have length : (last - start + 1).toInt = last.toInt - start.toInt + 1 := by
    rw [toInt_add_of (by omega) (by simp) (by rw [toInt_one]; omega), gap, toInt_one]
  exact ⟨first, by omega, by omega⟩

structure ByteRange.Within (r : ByteRange) (total : Int64) : Prop where
  first : 0 ≤ r.start.toInt
  order : r.start.toInt ≤ r.end.toInt
  bound : r.end.toInt < total.toInt

theorem last_within {total : Int64} (positive : 0 < total.toInt) :
    (total - 1).toInt = total.toInt - 1 := by
  rw [toInt_sub_of (by simp) (by rw [toInt_one]; omega), toInt_one]

theorem suffixRange_within {partEnd : Str} {total : Int64} {r : ByteRange}
    (positive : 0 < total.toInt) (found : suffixRange partEnd total = .satisfiable r) :
    r.Within total := by
  unfold suffixRange at found
  cases parsed : parseI64Strict partEnd with
  | none => simp [parsed] at found
  | some suffixLen =>
    simp only [parsed] at found
    split_ifs at found with empty whole
    · cases found
      have last := last_within positive
      exact ⟨by simp, by simp only [toInt_zero]; omega, by simp only; omega⟩
    · cases found
      have last := last_within positive
      rw [Int64.le_iff_toInt_le] at empty
      rw [ge_iff_le, Int64.le_iff_toInt_le] at whole
      simp only [toInt_zero] at empty
      have gap : (total - suffixLen).toInt = total.toInt - suffixLen.toInt :=
        toInt_sub_of (by omega) (by omega)
      exact ⟨by simp only; omega, by simp only; omega, by simp only; omega⟩

theorem closedRange_within {start total : Int64} {partEnd : Str} {r : ByteRange}
    (first : 0 ≤ start.toInt) (inside : start.toInt < total.toInt)
    (found : closedRange start partEnd total = .satisfiable r) : r.Within total := by
  have last : (total - 1).toInt = total.toInt - 1 := last_within (by omega)
  unfold closedRange at found
  by_cases toEnd : partEnd.length = 0
  · rw [if_pos toEnd] at found
    cases found
    exact ⟨first, by simp only; omega, by simp only; omega⟩
  · rw [if_neg toEnd] at found
    cases parsed : parseI64Strict partEnd with
    | none => simp [parsed] at found
    | some rawEnd =>
      simp only [parsed] at found
      split_ifs at found with inverted clamped
      · cases found
        exact ⟨first, by simp only; omega, by simp only; omega⟩
      · cases found
        rw [Int64.lt_iff_toInt_lt] at inverted
        rw [ge_iff_le, Int64.le_iff_toInt_le] at clamped
        exact ⟨first, by simp only; omega, by simp only; omega⟩

-- A parse that wraps is still compared with the size before it is used.
theorem parseRangeSpec_within {headerVal : Str} {total : Int64} {r : ByteRange}
    (found : parseRangeSpec headerVal total = .satisfiable r) : r.Within total := by
  unfold parseRangeSpec at found
  dsimp only at found
  split_ifs at found with other empty
  rw [Int64.le_iff_toInt_le, toInt_zero] at empty
  cases dash : find (rangeText headerVal) (unit '-') with
  | none => simp [dash] at found
  | some dashIdx =>
    simp only [dash] at found
    by_cases suffix : (trim ((rangeText headerVal).take dashIdx)).length = 0
    · rw [if_pos suffix] at found
      exact suffixRange_within (by omega) found
    · rw [if_neg suffix] at found
      cases parsed : parseI64Strict (trim ((rangeText headerVal).take dashIdx)) with
      | none => simp [parsed] at found
      | some start =>
        simp only [parsed] at found
        split_ifs at found with outside
        rw [not_or, ge_iff_le, Int64.lt_iff_toInt_lt, Int64.le_iff_toInt_le, toInt_zero] at outside
        exact closedRange_within (by omega) (by omega) found

theorem parseRangeSpec_inside {headerVal : Str} {total : Int64} {r : ByteRange}
    (found : parseRangeSpec headerVal total = .satisfiable r) :
    Inside r.start (r.end - r.start + 1) total :=
  have within := parseRangeSpec_within found
  inside_range within.first within.order within.bound

end HttpServer.Core
