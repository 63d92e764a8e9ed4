import Mathlib.Data.List.Basic
import Mathlib.Data.List.TakeDrop
import Mathlib.Tactic.Ring

set_option autoImplicit false

namespace Bits

def bits : Nat → Nat → List Bool
  | 0, _ => []
  | width + 1, n => n.testBit width :: bits width n

def value (b : List Bool) : Nat := b.foldl (fun n bit => 2 * n + bit.toNat) 0

def ofOctets (octets : List UInt8) : List Bool := octets.flatMap fun octet => bits 8 octet.toNat

def octets : Nat → List Bool → List UInt8
  | 0, _ => []
  | count + 1, b => UInt8.ofNat (value (b.take 8)) :: octets count (b.drop 8)

def bigEndian : Nat → Nat → List UInt8
  | 0, _ => []
  | count + 1, n => UInt8.ofNat (n / 2 ^ (8 * count)) :: bigEndian count n

@[simp] theorem bits_length (width n : Nat) : (bits width n).length = width := by
  induction width with
  | zero => rfl
  | succ width ih => rw [bits, List.length_cons, ih]

@[simp] theorem bits_zero (width : Nat) : bits width 0 = List.replicate width false := by
  induction width with
  | zero => rfl
  | succ width ih => rw [bits, ih, Nat.zero_testBit, List.replicate_succ]

theorem bits_add (high low n : Nat) : bits (high + low) n = bits high (n / 2 ^ low) ++ bits low n := by
  induction high with
  | zero => rw [Nat.zero_add, bits, List.nil_append]
  | succ high ih =>
    rw [Nat.add_right_comm, bits, bits, ih, Nat.testBit_div_two_pow, List.cons_append]

-- The higher bits of a number do not matter.
theorem bits_mod {width limit : Nat} (fits : width ≤ limit) (n : Nat) :
    bits width (n % 2 ^ limit) = bits width n := by
  induction width with
  | zero => rfl
  | succ width ih =>
    have inside : width < limit := by omega
    rw [bits, bits, ih (by omega), Nat.testBit_mod_two_pow]
    simp [inside]

theorem foldl_value (b : List Bool) (n : Nat) :
    b.foldl (fun n bit => 2 * n + bit.toNat) n = n * 2 ^ b.length + value b := by
  unfold value
  induction b generalizing n with
  | nil => simp
  | cons bit b ih =>
    rw [List.foldl_cons, List.foldl_cons, ih, ih (2 * 0 + bit.toNat), List.length_cons]
    ring

theorem value_append (a b : List Bool) : value (a ++ b) = value a * 2 ^ b.length + value b := by
  rw [value, List.foldl_append, foldl_value]
  rfl

theorem value_bits (width n : Nat) : value (bits width n) = n % 2 ^ width := by
  induction width with
  | zero => simp [bits, value, Nat.mod_one]
  | succ width ih =>
    have top : value [n.testBit width] = (n.testBit width).toNat := by simp [value]
    calc value (bits (width + 1) n) = value ([n.testBit width] ++ bits width n) := rfl
      _ = (n.testBit width).toNat * 2 ^ width + n % 2 ^ width := by
        rw [value_append, top, bits_length, ih]
      _ = n % 2 ^ (width + 1) := by
        rw [Nat.mod_pow_succ, Nat.toNat_testBit, Nat.mul_comm, Nat.add_comm]

@[simp] theorem ofOctets_nil : ofOctets [] = [] := rfl

@[simp] theorem ofOctets_cons (octet : UInt8) (rest : List UInt8) :
    ofOctets (octet :: rest) = bits 8 octet.toNat ++ ofOctets rest := by
  simp [ofOctets]

@[simp] theorem ofOctets_append (front back : List UInt8) :
    ofOctets (front ++ back) = ofOctets front ++ ofOctets back := by
  simp [ofOctets]

@[simp] theorem ofOctets_length (octets : List UInt8) :
    (ofOctets octets).length = 8 * octets.length := by
  induction octets with
  | nil => rfl
  | cons octet rest ih =>
    rw [ofOctets_cons, List.length_append, bits_length, ih, List.length_cons]
    omega

theorem ofOctets_zeros (count : Nat) :
    ofOctets (List.replicate count 0) = List.replicate (8 * count) false := by
  induction count with
  | zero => rfl
  | succ count ih =>
    rw [List.replicate_succ, ofOctets_cons, ih, UInt8.toNat_zero, bits_zero, List.replicate_append_replicate]
    congr 1
    omega

theorem ofOctets_take (octets : List UInt8) (count : Nat) :
    (ofOctets octets).take (8 * count) = ofOctets (octets.take count) := by
  induction count generalizing octets with
  | zero => simp
  | succ count ih =>
    cases octets with
    | nil => simp
    | cons octet rest =>
      rw [ofOctets_cons, List.take_succ_cons, ofOctets_cons, ← ih, Nat.mul_succ, Nat.add_comm,
        List.take_append, bits_length, Nat.add_sub_cancel_left,
        List.take_of_length_le (by rw [bits_length]; omega)]

theorem ofOctets_drop (octets : List UInt8) (count : Nat) :
    (ofOctets octets).drop (8 * count) = ofOctets (octets.drop count) := by
  induction count generalizing octets with
  | zero => simp
  | succ count ih =>
    cases octets with
    | nil => simp
    | cons octet rest =>
      rw [ofOctets_cons, List.drop_succ_cons, ← ih, Nat.mul_succ, Nat.add_comm, List.drop_append,
        bits_length, Nat.add_sub_cancel_left,
        List.drop_eq_nil_of_le (by rw [bits_length]; omega), List.nil_append]

theorem octets_ofOctets (l : List UInt8) : octets l.length (ofOctets l) = l := by
  induction l with
  | nil => rfl
  | cons octet rest ih =>
    have front : (ofOctets (octet :: rest)).take 8 = bits 8 octet.toNat := by
      simp
    have back : (ofOctets (octet :: rest)).drop 8 = ofOctets rest := by
      simp
    have small : octet.toNat % 2 ^ 8 = octet.toNat := Nat.mod_eq_of_lt octet.toNat_lt
    rw [List.length_cons, octets, front, back, ih, value_bits, small, UInt8.ofNat_toNat]

theorem bits_bigEndian (count n : Nat) : bits (8 * count) n = ofOctets (bigEndian count n) := by
  induction count with
  | zero => rfl
  | succ count ih =>
    rw [Nat.mul_succ, Nat.add_comm, bits_add, bigEndian, ofOctets_cons, ih, UInt8.toNat_ofNat',
      bits_mod (Nat.le_refl 8)]

theorem value_four (a b c d : UInt8) : value (ofOctets [a, b, c, d]) =
    ((a.toNat * 256 + b.toNat) * 256 + c.toNat) * 256 + d.toNat := by
  have octet (o : UInt8) : value (bits 8 o.toNat) = o.toNat := by
    rw [value_bits]
    exact Nat.mod_eq_of_lt o.toNat_lt
  simp only [ofOctets_cons, ofOctets_nil, List.append_nil, value_append, octet, bits_length,
    List.length_append]
  ring

end Bits
