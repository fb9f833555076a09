import Mathlib.Algebra.Group.Nat.Defs
import Mathlib.Data.List.Basic
/-! Unsigned integers as little-endian bytes. -/

namespace NdnExt.Lib

/-- The low `width` bytes of a value, the lowest first. -/
def leBytes : Nat → Nat → List UInt8
  | 0, _ => []
  | width + 1, value => UInt8.ofNat value :: leBytes width (value / 256)

def ofLe : List UInt8 → Nat
  | [] => 0
  | b :: rest => b.toNat + 256 * ofLe rest

@[simp] theorem length_leBytes (width value : Nat) : (leBytes width value).length = width := by
  induction width generalizing value with
  | zero => rfl
  | succ width ih => rw [leBytes, List.length_cons, ih]

/-- Only the low `width` bytes are written. -/
theorem ofLe_leBytes_mod (width value : Nat) : ofLe
    (leBytes width value) = value % 256 ^ width := by
  induction width generalizing value with
  | zero =>
    rw [Nat.pow_zero, Nat.mod_one]
    rfl
  | succ width ih =>
    calc ofLe (leBytes (width + 1) value)
        = value % 256 + 256 * (value / 256 % 256 ^ width) := by
          rw [leBytes, ofLe, ih, UInt8.toNat_ofNat']
      _ = value % (256 * 256 ^ width) := Nat.mod_mul.symm
      _ = value % 256 ^ (width + 1) := congrArg (value % ·) (Nat.pow_succ'.symm)

theorem ofLe_leBytes {width value : Nat} (fits : value < 256 ^ width) :
    ofLe (leBytes width value) = value := by
  rw [ofLe_leBytes_mod, Nat.mod_eq_of_lt fits]

theorem ofLe_lt (bytes : List UInt8) : ofLe bytes < 256 ^ bytes.length := by
  induction bytes with
  | nil => exact Nat.one_pos
  | cons b rest ih =>
    have byte := b.toNat_lt
    rw [ofLe, List.length_cons, Nat.pow_succ]
    omega

theorem leBytes_ofLe (bytes : List UInt8) : leBytes bytes.length (ofLe bytes) = bytes := by
  induction bytes with
  | nil => rfl
  | cons b rest ih =>
    have byte := b.toNat_lt
    have low : UInt8.ofNat (b.toNat + 256 * ofLe rest) = b := by
      apply UInt8.toNat_inj.mp
      rw [UInt8.toNat_ofNat']
      omega
    have high : (b.toNat + 256 * ofLe rest) / 256 = ofLe rest := by omega
    rw [List.length_cons, leBytes, ofLe, low, high, ih]

end NdnExt.Lib
