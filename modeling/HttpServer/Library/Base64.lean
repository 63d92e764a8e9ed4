import Mathlib.Data.List.Basic

set_option autoImplicit false

/-!
# Base64

Four sextets hold three octets. A group that stops early holds the octets it completes.
-/

namespace Base64

def octets : List Nat → List Nat
  | a :: b :: c :: d :: rest =>
      (a * 4 + b / 16) :: (b % 16 * 16 + c / 4) :: (c % 4 * 64 + d) :: octets rest
  | [a, b, c] => [a * 4 + b / 16, b % 16 * 16 + c / 4]
  | [a, b] => [a * 4 + b / 16]
  | _ => []

theorem octets_lt (digits : List Nat) (bound : ∀ d ∈ digits, d < 64) :
    ∀ o ∈ octets digits, o < 256 := by
  fun_induction octets digits with
  | case1 a b c d rest ih =>
    simp only [List.mem_cons, forall_eq_or_imp] at bound ⊢
    obtain ⟨first, second, third, fourth, later⟩ := bound
    exact ⟨by omega, by omega, by omega, ih later⟩
  | case2 a b c => simp at bound ⊢; omega
  | case3 a b => simp at bound ⊢; omega
  | case4 => simp

-- A last group that holds fewer than three octets is filled up with zero bits.
def sextets : List Nat → List Nat
  | a :: b :: c :: rest =>
      (a / 4) :: (a % 4 * 16 + b / 16) :: (b % 16 * 4 + c / 64) :: (c % 64) :: sextets rest
  | [a, b] => [a / 4, a % 4 * 16 + b / 16, b % 16 * 4]
  | [a] => [a / 4, a % 4 * 16]
  | [] => []

theorem sextets_lt (bytes : List Nat) (bound : ∀ b ∈ bytes, b < 256) :
    ∀ d ∈ sextets bytes, d < 64 := by
  fun_induction sextets bytes with
  | case1 a b c rest ih =>
    simp only [List.mem_cons, forall_eq_or_imp] at bound ⊢
    obtain ⟨first, second, third, later⟩ := bound
    exact ⟨by omega, by omega, by omega, by omega, ih later⟩
  | case2 a b => simp at bound ⊢; omega
  | case3 a => simp at bound ⊢; omega
  | case4 => simp

theorem octets_sextets (bytes : List Nat) (bound : ∀ b ∈ bytes, b < 256) :
    octets (sextets bytes) = bytes := by
  fun_induction sextets bytes with
  | case1 a b c rest ih =>
    simp only [List.mem_cons, forall_eq_or_imp] at bound
    obtain ⟨first, second, third, later⟩ := bound
    have top : a / 4 * 4 + (a % 4 * 16 + b / 16) / 16 = a := by omega
    have middle : (a % 4 * 16 + b / 16) % 16 * 16 + (b % 16 * 4 + c / 64) / 4 = b := by omega
    have low : (b % 16 * 4 + c / 64) % 4 * 64 + c % 64 = c := by omega
    rw [octets, top, middle, low, ih later]
  | case2 a b =>
    simp at bound
    simp only [octets, List.cons.injEq, and_true]
    omega
  | case3 a =>
    simp at bound
    simp only [octets, List.cons.injEq, and_true]
    omega
  | case4 => rfl

-- What digits to come still add when `read` digits of a group have been read, `last` the last.
def owed (read last : Nat) (digits : List Nat) : List Nat :=
  match read with
  | 0 => octets digits
  | 1 => octets (last :: digits)
  | 2 => (octets (0 :: last :: digits)).drop 1
  | _ => (octets (0 :: 0 :: last :: digits)).drop 2

theorem owed_nil (read last : Nat) : owed read last [] = [] := by
  unfold owed
  split <;> rfl

theorem owed_second (last d : Nat) (digits : List Nat) :
    owed 1 last (d :: digits) = (last * 4 + d / 16) :: owed 2 d digits := by
  match digits with
  | [] => rfl
  | [c] => simp [owed, octets]
  | c :: e :: rest => simp [owed, octets]

theorem owed_third (last d : Nat) (digits : List Nat) :
    owed 2 last (d :: digits) = (last % 16 * 16 + d / 4) :: owed 3 d digits := by
  cases digits <;> simp [owed, octets]

theorem owed_fourth (last d : Nat) (digits : List Nat) :
    owed 3 last (d :: digits) = (last % 4 * 64 + d) :: owed 0 d digits := by
  simp [owed, octets]

end Base64
