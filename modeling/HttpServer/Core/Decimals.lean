import HttpServer.Text

set_option autoImplicit false

namespace HttpServer.Core

open Unicode Text

theorem decimal_iff {n : Nat} {u : UInt16} (same : u.toNat = n) (d : Nat) :
    Numerals.digit? 10 u = some d ↔ 0x30 ≤ n ∧ n ≤ 0x39 ∧ n - 0x30 = d := by
  unfold Numerals.digit?
  grind

theorem decimal_none {n : Nat} {u : UInt16} (same : u.toNat = n) :
    Numerals.digit? 10 u = none ↔ n < 0x30 ∨ 0x39 < n := by
  unfold Numerals.digit?
  grind

theorem numeral_digits {w : Str} {n : Nat} (numeral : Numerals.nat? 10 w = some n) :
    w ≠ [] ∧ ∀ u ∈ w, 0x30 ≤ u.toNat ∧ u.toNat ≤ 0x39 := by
  have nonempty : w ≠ [] := by
    intro empty
    rw [empty] at numeral
    cases numeral
  rw [Numerals.nat?, if_neg nonempty] at numeral
  refine ⟨nonempty, fun u member => ?_⟩
  obtain ⟨d, digit⟩ := Option.isSome_iff_exists.mp (Numerals.digits?_mem numeral u member)
  rw [decimal_iff rfl] at digit
  omega

-- A loop over the digits of a text adds them up as its arithmetic does.
theorem digitLoop_eq {R : Type} {loop : List Nat → R → Option R} {cast : Nat → R}
    (done : ∀ n, loop [] n = some n)
    (other : ∀ c rest n, c < 0x30 ∨ 0x39 < c → loop (c :: rest) n = none)
    (digit : ∀ c rest value, 0x30 ≤ c → c ≤ 0x39 →
      loop (c :: rest) (cast value) = loop rest (cast (value * 10 + (c - 0x30))))
    (s : Str) (value : Nat) :
    loop (codePoints s) (cast value) = (Numerals.digits? 10 value s).map cast := by
  have step (value : Nat) (u : UInt16) (rest : Str) (points : List Nat)
      (ih : ∀ value, loop points (cast value) = (Numerals.digits? 10 value rest).map cast) :
      loop (u.toNat :: points) (cast value) = (Numerals.digits? 10 value (u :: rest)).map cast := by
    rw [Numerals.digits?]
    by_cases stray : u.toNat < 0x30 ∨ 0x39 < u.toNat
    · rw [other _ _ _ stray, (decimal_none rfl).mpr stray]
      rfl
    · rw [not_or] at stray
      rw [digit _ _ _ (by omega) (by omega), (decimal_iff rfl (u.toNat - 0x30)).mpr (by omega), ih]
  fun_induction codePoints s generalizing value with
  | case1 => exact done _
  | case2 u => exact step value u [] [] (fun _ => done _)
  | case3 u v rest pair ih =>
    -- A pair of surrogates is one character, and no digit.
    simp only [isLead, isTrail, Bool.and_eq_true, decide_eq_true_eq] at pair
    rw [other _ _ _ (by omega), Numerals.digits?, (decimal_none rfl).mpr (by omega)]
    rfl
  | case4 u v rest pair ih => exact step value u (v :: rest) _ ih

-- One more digit, in arithmetic that may wrap.
theorem pushDigit (value : Nat) {c : Nat} (low : 0x30 ≤ c) :
    Int32.ofNat value * 10 + Int32.ofNat c - 48 = Int32.ofNat (value * 10 + (c - 0x30)) := by
  obtain ⟨d, rfl⟩ := Nat.exists_eq_add_of_le low
  rw [Nat.add_sub_cancel_left, Int32.ofNat_add, Int32.ofNat_add, Int32.ofNat_mul]
  change Int32.ofNat value * 10 + (48 + Int32.ofNat d) - 48 =
    Int32.ofNat value * 10 + Int32.ofNat d
  grind

end HttpServer.Core
