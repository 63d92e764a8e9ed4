import HttpServer.Library.Unicode
import Mathlib.Algebra.Group.Nat.Defs

set_option autoImplicit false

namespace Numerals

open Unicode

def unitOf (c : Char) : UInt16 := UInt16.ofNat c.toNat

def numeral (base n : Nat) : Units := (Nat.toDigits base n).map unitOf

def digit? (base : Nat) (u : UInt16) : Option Nat :=
  let value :=
    if 0x30 ≤ u.toNat ∧ u.toNat ≤ 0x39 then u.toNat - 0x30
    else if 0x61 ≤ u.toNat ∧ u.toNat ≤ 0x7A then u.toNat - 0x61 + 10
    else if 0x41 ≤ u.toNat ∧ u.toNat ≤ 0x5A then u.toNat - 0x41 + 10
    else base
  if value < base then some value else none

def digits? (base : Nat) : Nat → Units → Option Nat
  | value, [] => some value
  | value, u :: rest =>
      match digit? base u with
      | some d => digits? base (value * base + d) rest
      | none => none

def nat? (base : Nat) (s : Units) : Option Nat :=
  if s = [] then none else digits? base 0 s

theorem digits?_append (base value : Nat) (s t : Units) :
    digits? base value (s ++ t) = (digits? base value s).bind (digits? base · t) := by
  induction s generalizing value with
  | nil => rfl
  | cons u rest ih =>
    simp only [List.cons_append, digits?]
    cases digit? base u with
    | none => rfl
    | some d => exact ih _

-- What was read before counts for as many places as follow.
theorem digits?_add (base head value : Nat) (s : Units) : digits? base (head + value) s =
    (digits? base value s).map (head * base ^ s.length + ·) := by
  induction s generalizing head value with
  | nil => simp [digits?]
  | cons u rest ih =>
    simp only [digits?]
    cases digit? base u with
    | none => rfl
    | some d =>
      have next : (head + value) * base + d = head * base + (value * base + d) := by
        rw [Nat.add_mul, Nat.add_assoc]
      simp only [next, ih, List.length_cons, Nat.pow_succ', Nat.mul_assoc]

theorem digit?_unitOf {base d : Nat} (small : base ≤ 16) (h : d < base) :
    digit? base (unitOf d.digitChar) = some d := by
  have table : ∀ d < 16, digit? 16 (unitOf d.digitChar) = some d := by decide +kernel
  have found := table d (by omega)
  unfold digit? at found ⊢
  grind

theorem digits?_toDigits {base : Nat} (large : 1 < base) (small : base ≤ 16) (n : Nat) :
    digits? base 0 (numeral base n) = some n := by
  induction n using Nat.strongRecOn with
  | ind n ih =>
    unfold numeral at ih ⊢
    rw [Nat.toDigits_eq_if large]
    split_ifs with one
    · rw [List.map_singleton, digits?, digit?_unitOf small one]
      simp [digits?]
    · have smaller : n / base < n := Nat.div_lt_self (by omega) large
      have last : n % base < base := Nat.mod_lt _ (by omega)
      rw [List.map_append, digits?_append, ih _ smaller, Option.bind_some, List.map_singleton,
        digits?, digit?_unitOf small last]
      simp only [digits?, Nat.div_add_mod']

theorem numeral_ne_nil (base n : Nat) : numeral base n ≠ [] := by
  simp [numeral, Nat.toDigits_ne_nil]

theorem nat?_numeral {base : Nat} (large : 1 < base) (small : base ≤ 16) (n : Nat) :
    nat? base (numeral base n) = some n := by
  rw [nat?, if_neg (numeral_ne_nil base n), digits?_toDigits large small]

theorem digits?_mem {base value n : Nat} {s : Units} (h : digits? base value s = some n) :
    ∀ u ∈ s, (digit? base u).isSome := by
  induction s generalizing value with
  | nil => simp
  | cons u rest ih =>
    cases found : digit? base u with
    | none => simp [digits?, found] at h
    | some d =>
      simp only [digits?, found] at h
      simp only [List.mem_cons, forall_eq_or_imp, found, Option.isSome_some, true_and]
      exact ih h

theorem digit?_range {base : Nat} {u : UInt16} (h : (digit? base u).isSome) :
    0x30 ≤ u.toNat ∧ u.toNat ≤ 0x39 ∨ 0x61 ≤ u.toNat ∧ u.toNat ≤ 0x7A ∨
      0x41 ≤ u.toNat ∧ u.toNat ≤ 0x5A := by
  unfold digit? at h
  grind

theorem numeral_range (base : Nat) (large : 1 < base) (small : base ≤ 16) (n : Nat) :
    ∀ u ∈ numeral base n, 0x30 ≤ u.toNat ∧ u.toNat ≤ 0x39 ∨
      0x61 ≤ u.toNat ∧ u.toNat ≤ 0x7A ∨ 0x41 ≤ u.toNat ∧ u.toNat ≤ 0x5A :=
  fun u member => digit?_range (digits?_mem (digits?_toDigits large small n) u member)

end Numerals
