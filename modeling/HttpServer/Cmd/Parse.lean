import HttpServer.Core.Decimals
import HttpServer.Library.StateRun
import Mathlib.Algebra.Group.Int.Defs

set_option autoImplicit false

namespace HttpServer.Cmd

open Unicode Text

-- `n` is an `Int32`, so a long run of digits wraps.
def integerLoop : List Nat → Int32 → Option Int32
  | [], n => some n
  | c :: rest, n =>
      if c < 0x30 ∨ 0x39 < c then none
      else integerLoop rest (n * 10 + Int32.ofNat c - 48)

def parseInteger (s : Str) : Option Int32 :=
  if s.length = 0 then none
  else
    let chars := codePoints s
    let isNeg := chars.head? == some 0x2D
    let digits := if isNeg then chars.drop 1 else chars
    if digits = [] then none
    else (integerLoop digits 0).map fun n => if isNeg then -n else n

def invalidCache (val : Str) : Str := str "invalid cache value: '" ++ val ++ str "'"

-- The duration in seconds, and the directive where one is written out.
def parseCache (val : Str) : Except Str (Int32 × Option Str) :=
  if hasPrefix val (str "max-age=") then
    match parseInteger (val.drop (str "max-age=").length) with
    | some sec =>
        if sec < 0 then .error (str "cache seconds in max-age cannot be negative")
        else .ok (sec, some val)
    | none => .error (invalidCache val)
  else
    match parseInteger val with
    | some sec =>
        if sec < -1 then .error (str "cache duration cannot be less than -1")
        else .ok (sec, none)
    | none => .error (invalidCache val)

-- The exact value of decimal digits, with or without a minus sign in front.
def integer? : Str → Option Int
  | [] => none
  | u :: rest =>
      if u = unit '-' then (Numerals.nat? 10 rest).map fun (n : Nat) => -(n : Int)
      else (Numerals.nat? 10 (u :: rest)).map fun (n : Nat) => (n : Int)

-- Where the number of a cache setting stands, and the least number it may be.
def cacheNumber (val : Str) : Str × Int :=
  if hasPrefix val (str "max-age=") then (val.drop (str "max-age=").length, 0) else (val, -1)

def IntegerExact (s : Str) : Prop :=
  ∀ n, parseInteger s = some n → integer? s = some n.toInt

def CacheExact (val : Str) : Prop :=
  ∀ sec directive, parseCache val = .ok (sec, directive) →
    integer? (cacheNumber val).1 = some sec.toInt ∧ (cacheNumber val).2 ≤ sec.toInt

def Fits (n : Int) : Prop := -2 ^ 31 ≤ n ∧ n < 2 ^ 31

-- What 32 bits with a sign keep of a number.
def kept (n : Int) : Int := n.bmod (2 ^ 32)

theorem kept_eq (n : Int) : (Int32.ofInt n).toInt = kept n := Int32.toInt_ofInt

theorem kept_iff (n : Int) : kept n = n ↔ Fits n := by
  have low := Int.le_bmod (x := n) (m := 2 ^ 32) (by decide)
  have high := Int.bmod_lt (x := n) (m := 2 ^ 32) (by decide)
  constructor
  · intro same
    rw [kept] at same
    rw [same] at low high
    exact ⟨low, by omega⟩
  · rintro ⟨least, most⟩
    exact Int.bmod_eq_of_le (by omega) (by omega)

theorem integerLoop_eq (s : Str) :
    integerLoop (codePoints s) 0 = (Numerals.digits? 10 0 s).map Int32.ofNat := by
  change integerLoop (codePoints s) (Int32.ofNat 0) = _
  refine Core.digitLoop_eq (fun n => rfl) ?_ ?_ s 0
  · intro c rest n stray
    rw [integerLoop, if_pos stray]
  · intro c rest value low high
    rw [integerLoop, if_neg (by omega), Core.pushDigit value low]

theorem minus_iff (u : UInt16) (rest : Str) :
    (codePoints (u :: rest)).head? = some 0x2D ↔ u = unit '-' := by
  cases lead : isLead u with
  | false =>
    rw [codePoints_cons_of_not_lead u rest lead, List.head?_cons, Option.some.injEq,
      ← UInt16.toNat_inj]
    rfl
  | true =>
    -- A surrogate, alone or in a pair, is no minus sign.
    have range := lead
    simp only [isLead, Bool.and_eq_true, decide_eq_true_eq] at range
    have other : u ≠ unit '-' := by
      rintro rfl
      exact absurd lead (by decide)
    cases rest with
    | nil => simp [codePoints, other]; omega
    | cons v rest => simp only [codePoints]; split_ifs <;> simp [other] <;> omega

theorem codePoints_eq_nil (s : Str) : codePoints s = [] ↔ s = [] := by
  fun_cases codePoints s <;> simp

theorem integerDigits_eq (digits : Str) (f : Int32 → Int32) :
    (if codePoints digits = [] then none else (integerLoop (codePoints digits) 0).map f) =
      (Numerals.nat? 10 digits).map fun n => f (Int32.ofNat n) := by
  rw [Numerals.nat?, integerLoop_eq]
  simp only [codePoints_eq_nil, Option.map_map]
  split_ifs <;> rfl

-- What `parse_integer` returns is what 32 bits keep of the number that is written.
theorem parseInteger_eq (s : Str) : parseInteger s = (integer? s).map Int32.ofInt := by
  cases s with
  | nil => rfl
  | cons u rest =>
    have long : (u :: rest).length ≠ 0 := by simp
    unfold parseInteger
    rw [if_neg long, integer?]
    by_cases sign : u = unit '-'
    · subst sign
      have points : codePoints (unit '-' :: rest) = 0x2D :: codePoints rest :=
        codePoints_cons_ascii (unit '-') rest (by decide)
      simp only [points, List.head?_cons, beq_self_eq_true, if_true, List.drop_one, List.tail_cons,
        integerDigits_eq, Option.map_map]
      exact Option.map_congr fun n _ => (Int32.ofInt_neg n).symm
    · have head : ((codePoints (u :: rest)).head? == some 0x2D) = false := by
        rw [beq_eq_false_iff_ne]
        exact fun same => sign ((minus_iff u rest).mp same)
      simp only [head, Bool.false_eq_true, if_false, integerDigits_eq, sign, Option.map_map]
      rfl

theorem kept_parseInteger {s : Str} {n : Int32} :
    parseInteger s = some n ↔ ∃ v, integer? s = some v ∧ Int32.ofInt v = n := by
  rw [parseInteger_eq, Option.map_eq_some_iff]

theorem integerExact_iff (s : Str) : IntegerExact s ↔ ∀ v, integer? s = some v → Fits v := by
  constructor
  · intro exact v told
    have same := exact _ (kept_parseInteger.mpr ⟨v, told, rfl⟩)
    rw [told, kept_eq, Option.some.injEq] at same
    exact (kept_iff v).mp same.symm
  · intro fits n parsed
    obtain ⟨v, told, rfl⟩ := kept_parseInteger.mp parsed
    rw [told, kept_eq, (kept_iff v).mpr (fits v told)]

-- A cache setting is accepted where what is kept of its number is large enough.
theorem parseCache_ok (val : Str) (sec : Int32) :
    (∃ directive, parseCache val = .ok (sec, directive)) ↔
      parseInteger (cacheNumber val).1 = some sec ∧ (cacheNumber val).2 ≤ sec.toInt := by
  have zero : (0 : Int32).toInt = 0 := by decide
  have minus : (-1 : Int32).toInt = -1 := by decide
  unfold parseCache cacheNumber
  cases directive : hasPrefix val (str "max-age=") with
  | true =>
    simp only [if_true]
    cases parsed : parseInteger (val.drop (str "max-age=").length) with
    | none => simp
    | some n =>
      simp only [Int32.lt_iff_toInt_lt, zero, Option.some.injEq]
      split_ifs with low
      · simp only [exists_false, false_iff, not_and]
        rintro rfl
        omega
      · simp only [Except.ok.injEq, Prod.mk.injEq, exists_and_left, exists_eq', and_true]
        exact (and_iff_left_of_imp fun same => by rw [← same]; omega).symm
  | false =>
    simp only [Bool.false_eq_true, if_false]
    cases parsed : parseInteger val with
    | none => simp
    | some n =>
      simp only [Int32.lt_iff_toInt_lt, minus, Option.some.injEq]
      split_ifs with low
      · simp only [exists_false, false_iff, not_and]
        rintro rfl
        omega
      · simp only [Except.ok.injEq, Prod.mk.injEq, exists_and_left, exists_eq', and_true]
        exact (and_iff_left_of_imp fun same => by rw [← same]; omega).symm

theorem cacheExact_iff (val : Str) : CacheExact val ↔ ∀ v, integer? (cacheNumber val).1 = some v →
    Fits v ∨ kept v < (cacheNumber val).2 := by
  constructor
  · intro exact v told
    by_cases low : kept v < (cacheNumber val).2
    · exact Or.inr low
    · rw [← kept_eq] at low
      obtain ⟨directive, accepted⟩ := (parseCache_ok val (Int32.ofInt v)).mpr
        ⟨kept_parseInteger.mpr ⟨v, told, rfl⟩, by omega⟩
      have same := (exact _ directive accepted).1
      rw [told, kept_eq, Option.some.injEq] at same
      exact Or.inl ((kept_iff v).mp same.symm)
  · intro condition sec directive accepted
    obtain ⟨parsed, least⟩ := (parseCache_ok val sec).mp ⟨directive, accepted⟩
    obtain ⟨v, told, rfl⟩ := kept_parseInteger.mp parsed
    rw [kept_eq] at least ⊢
    have fits := (condition v told).resolve_right (by omega)
    rw [told, (kept_iff v).mpr fits]
    rw [(kept_iff v).mpr fits] at least
    exact ⟨rfl, least⟩

/-- A number is exact or rejected where it fits 32 bits, and so is a cache setting whose number
wraps to one that is too low. -/
theorem commandNumbers_exact (s : Str) :
    (IntegerExact s ↔ ∀ v, integer? s = some v → Fits v) ∧
      (CacheExact s ↔ ∀ v, integer? (cacheNumber s).1 = some v →
        Fits v ∨ kept v < (cacheNumber s).2) :=
  ⟨integerExact_iff s, cacheExact_iff s⟩

theorem wrapped_cache :
    ¬(IntegerExact (str "4294967295") ∧ CacheExact (str "4294967295")) ∧
      parseInteger (str "4294967295") = some (-1) ∧
      parseCache (str "4294967295") = .ok (-1, none) := by
  refine ⟨fun exact => ?_, by decide, by decide⟩
  have told : integer? (str "4294967295") = some 4294967295 := by decide
  have same := exact.1 (-1) (by decide)
  rw [told] at same
  exact absurd same (by decide)

end HttpServer.Cmd
