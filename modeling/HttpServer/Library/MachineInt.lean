import Mathlib.Data.Int.Init

set_option autoImplicit false

namespace MachineInt

section

variable {a b : Int32}

theorem add32 (low : -2147483648 ≤ a.toInt + b.toInt) (high : a.toInt + b.toInt < 2147483648) :
    (a + b).toInt = a.toInt + b.toInt := by
  rw [Int32.toInt_add]
  apply Int.bmod_eq_of_le <;> omega

theorem sub32 (low : -2147483648 ≤ a.toInt - b.toInt) (high : a.toInt - b.toInt < 2147483648) :
    (a - b).toInt = a.toInt - b.toInt := by
  rw [Int32.toInt_sub]
  apply Int.bmod_eq_of_le <;> omega

theorem mul32 (low : -2147483648 ≤ a.toInt * b.toInt) (high : a.toInt * b.toInt < 2147483648) :
    (a * b).toInt = a.toInt * b.toInt := by
  rw [Int32.toInt_mul]
  apply Int.bmod_eq_of_le <;> omega

theorem div32 (nonneg : 0 ≤ a.toInt) (positive : 0 < b.toInt) :
    (a / b).toInt = a.toInt / b.toInt := by
  have high := Int32.toInt_lt a
  have quotient := Int.ediv_nonneg nonneg (Int.le_of_lt positive)
  have smaller := Int.ediv_le_self b.toInt nonneg
  rw [Int32.toInt_div, Int.tdiv_eq_ediv_of_nonneg nonneg]
  apply Int.bmod_eq_of_le <;> omega

theorem mod32 (nonneg : 0 ≤ a.toInt) : (a % b).toInt = a.toInt % b.toInt := by
  rw [Int32.toInt_mod, Int.tmod_eq_emod_of_nonneg nonneg]

theorem mod32_eq_zero : a % b = 0 ↔ a.toInt % b.toInt = 0 := by
  rw [← Int32.toInt_inj, Int32.toInt_mod]
  have zero : (0 : Int32).toInt = 0 := by decide
  rw [zero]
  constructor
  · exact fun rest => Int.emod_eq_zero_of_dvd (Int.dvd_of_tmod_eq_zero rest)
  · exact fun rest => Int.tmod_eq_zero_of_dvd (Int.dvd_of_emod_eq_zero rest)

end

section

variable {a b : Int64}

theorem add64 (low : -9223372036854775808 ≤ a.toInt + b.toInt)
    (high : a.toInt + b.toInt < 9223372036854775808) : (a + b).toInt = a.toInt + b.toInt := by
  rw [Int64.toInt_add]
  apply Int.bmod_eq_of_le <;> omega

theorem sub64 (low : -9223372036854775808 ≤ a.toInt - b.toInt)
    (high : a.toInt - b.toInt < 9223372036854775808) : (a - b).toInt = a.toInt - b.toInt := by
  rw [Int64.toInt_sub]
  apply Int.bmod_eq_of_le <;> omega

theorem mul64 (low : -9223372036854775808 ≤ a.toInt * b.toInt)
    (high : a.toInt * b.toInt < 9223372036854775808) : (a * b).toInt = a.toInt * b.toInt := by
  rw [Int64.toInt_mul]
  apply Int.bmod_eq_of_le <;> omega

theorem narrow (low : -2147483648 ≤ a.toInt) (high : a.toInt < 2147483648) :
    a.toInt32.toInt = a.toInt := by
  rw [Int64.toInt_toInt32]
  apply Int.bmod_eq_of_le <;> omega

end

end MachineInt
