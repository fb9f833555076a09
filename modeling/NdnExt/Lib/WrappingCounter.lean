import Mathlib.Data.Nat.ModEq

/-! Counters that wrap at `modulus`, and the slots they address in a buffer of another size. -/

namespace NdnExt.Lib

variable (modulus : Nat)

def wrappingAdd (left right : Nat) : Nat := (left + right) % modulus

def wrappingSub (left right : Nat) : Nat := (left + (modulus - right)) % modulus

variable {modulus}

theorem wrappingAdd_lt {left : Nat} (right : Nat) (bounded : left < modulus) :
    wrappingAdd modulus left right < modulus :=
  Nat.mod_lt _ (by omega)

theorem wrappingAdd_zero {left : Nat} (bounded : left < modulus) :
    wrappingAdd modulus left 0 = left :=
  Nat.mod_eq_of_lt bounded

theorem wrappingAdd_assoc (left middle right : Nat) :
    wrappingAdd modulus (wrappingAdd modulus left middle) right =
      wrappingAdd modulus left (middle + right) := by
  unfold wrappingAdd
  rw [Nat.mod_add_mod, Nat.add_assoc]

/-- The distance between two counters survives the wrap. -/
theorem wrappingSub_wrappingAdd {left right : Nat} (bounded : left < modulus)
    (small : right < modulus) :
    wrappingSub modulus (wrappingAdd modulus left right) left = right := by
  have total : left + right + (modulus - left) = right + modulus := by omega
  calc
    ((left + right) % modulus + (modulus - left)) % modulus
      = (left + right + (modulus - left)) % modulus := Nat.mod_add_mod _ _ _
    _ = right := by rw [total, Nat.add_mod_right, Nat.mod_eq_of_lt small]

/-- Counters less than a buffer's size apart address distinct slots, across the wrap too, when
the size divides the modulus. -/
theorem slot_ne {size left right : Nat} (divides : size ∣ modulus) (base : Nat)
    (apart : left < right) (near : right < left + size) :
    wrappingAdd modulus base left % size ≠ wrappingAdd modulus base right % size := by
  unfold wrappingAdd
  rw [Nat.mod_mod_of_dvd _ divides, Nat.mod_mod_of_dvd _ divides]
  intro same
  have multiple := (Nat.modEq_iff_dvd' (by omega)).mp same
  have large := Nat.le_of_dvd (by omega) multiple
  omega

/-- Otherwise the counter that has just wrapped addresses the slot of one still in reach. -/
theorem slot_eq_wrapped (size : Nat) :
    wrappingAdd modulus (modulus - modulus % size) (modulus % size) % size =
      (modulus - modulus % size) % size := by
  unfold wrappingAdd
  rw [Nat.sub_add_cancel (Nat.mod_le _ _), Nat.mod_self, Nat.zero_mod]
  exact (Nat.mod_eq_zero_of_dvd (Nat.dvd_sub_mod modulus)).symm

end NdnExt.Lib
