import Mathlib.Algebra.Order.Group.Nat
import Mathlib.Data.List.Basic
import Mathlib.Data.List.Induction
/-! Unsigned integers as big-endian bytes, and the least of the widths 1, 2, 4 and 8. -/

namespace NdnExt.Lib

/-- The low `width` bytes of a value. -/
def beBytes : Nat → Nat → List UInt8
  | 0, _ => []
  | width + 1, value => beBytes width (value / 256) ++ [UInt8.ofNat value]

def ofBe (bytes : List UInt8) : Nat := bytes.foldl (fun val b => val * 256 + b.toNat) 0

def minimalWidth (value : Nat) : Nat :=
  if value ≤ 0xFF then 1
  else if value ≤ 0xFFFF then 2
  else if value ≤ 0xFFFFFFFF then 4
  else 8

/-- The last bytes of the eight that the value needs. -/
def minimalSlice (value : Nat) : List UInt8 :=
  let b := beBytes 8 value
  if value ≤ 0xFF then b.drop 7
  else if value ≤ 0xFFFF then b.drop 6
  else if value ≤ 0xFFFFFFFF then b.drop 4
  else b

@[simp] theorem length_beBytes (width value : Nat) : (beBytes width value).length = width := by
  induction width generalizing value with
  | zero => rfl
  | succ width ih => rw [beBytes, List.length_append, ih, List.length_singleton]

theorem ofBe_append (bytes : List UInt8) (b : UInt8) :
    ofBe (bytes ++ [b]) = ofBe bytes * 256 + b.toNat := by
  rw [ofBe, List.foldl_append]
  rfl

theorem ofBe_beBytes {width value : Nat} (fits : value < 256 ^ width) :
    ofBe (beBytes width value) = value := by
  induction width generalizing value with
  | zero =>
    rw [Nat.pow_zero] at fits
    change 0 = value
    omega
  | succ width ih =>
    have high : value / 256 < 256 ^ width := by
      rw [Nat.pow_succ] at fits
      exact Nat.div_lt_of_lt_mul (by omega)
    rw [beBytes, ofBe_append, ih high, UInt8.toNat_ofNat']
    omega

theorem ofBe_lt (bytes : List UInt8) : ofBe bytes < 256 ^ bytes.length := by
  induction bytes using List.reverseRecOn with
  | nil => exact Nat.one_pos
  | append_singleton bytes b ih =>
    have small := b.toNat_lt
    rw [ofBe_append, List.length_append, List.length_singleton, Nat.pow_succ]
    omega

/-- Bytes are the encoding of the number they are read as. -/
theorem beBytes_ofBe (bytes : List UInt8) : beBytes bytes.length (ofBe bytes) = bytes := by
  induction bytes using List.reverseRecOn with
  | nil => rfl
  | append_singleton bytes b ih =>
    have small := b.toNat_lt
    have high : (ofBe bytes * 256 + b.toNat) / 256 = ofBe bytes := by omega
    have low : UInt8.ofNat (ofBe bytes * 256 + b.toNat) = b := by
      apply UInt8.toNat_inj.mp
      rw [UInt8.toNat_ofNat']
      omega
    rw [List.length_append, List.length_singleton, ofBe_append, beBytes, high, low, ih]

/-- The last bytes of a wider encoding are the narrower one. -/
theorem drop_beBytes (width extra value : Nat) :
    (beBytes (extra + width) value).drop extra = beBytes width value := by
  induction width generalizing value with
  | zero => rw [Nat.add_zero, List.drop_of_length_le (by rw [length_beBytes]), beBytes]
  | succ width ih =>
    rw [← Nat.add_assoc, beBytes, beBytes, List.drop_append_of_le_length, ih]
    rw [length_beBytes]
    omega

theorem minimalSlice_eq (value : Nat) :
    minimalSlice value = beBytes (minimalWidth value) value := by
  have last : ∀ extra width, extra + width = 8 →
      (beBytes 8 value).drop extra = beBytes width value := by
    intro extra width total
    rw [← total]
    exact drop_beBytes width extra value
  unfold minimalSlice minimalWidth
  dsimp only
  rw [last 7 1 rfl, last 6 2 rfl, last 4 4 rfl]
  split
  · rfl
  · split
    · rfl
    · split <;> rfl

theorem minimalWidth_fits {value : Nat} (small : value < 2 ^ 64) :
    value < 256 ^ minimalWidth value := by
  unfold minimalWidth
  split
  · omega
  · split
    · omega
    · split
      · omega
      · omega

theorem minimalWidth_mem (value : Nat) : minimalWidth value ∈ [1, 2, 4, 8] := by
  unfold minimalWidth
  split
  · decide
  · split
    · decide
    · split <;> decide

theorem ofBe_minimalSlice {value : Nat} (small : value < 2 ^ 64) :
    ofBe (minimalSlice value) = value := by
  rw [minimalSlice_eq, ofBe_beBytes (minimalWidth_fits small)]

/-! ### Shifting bytes into a machine word -/

theorem shiftIn_toNat (val : UInt64) (b : UInt8) :
    (val <<< 8 ||| b.toUInt64).toNat = (val.toNat * 256 + b.toNat) % 2 ^ 64 := by
  have byte : b.toNat < 2 ^ 8 := b.toNat_lt
  have multiple : val.toNat * 256 % 2 ^ 64 = (val.toNat % 2 ^ 56) <<< 8 := by
    rw [Nat.shiftLeft_eq]
    omega
  rw [UInt64.toNat_or, UInt64.toNat_shiftLeft, UInt8.toNat_toUInt64]
  change val.toNat <<< 8 % 2 ^ 64 ||| b.toNat = _
  rw [Nat.shiftLeft_eq]
  change val.toNat * 256 % 2 ^ 64 ||| b.toNat = _
  rw [multiple, ← Nat.shiftLeft_add_eq_or_of_lt byte, Nat.shiftLeft_eq]
  omega

theorem foldl_mod (data : List UInt8) (acc : Nat) :
    data.foldl (fun val b => val * 256 + b.toNat) (acc % 2 ^ 64) % 2 ^ 64 =
      data.foldl (fun val b => val * 256 + b.toNat) acc % 2 ^ 64 := by
  induction data generalizing acc with
  | nil => exact Nat.mod_mod _ _
  | cons b rest ih =>
    have step : (acc % 2 ^ 64 * 256 + b.toNat) % 2 ^ 64 = (acc * 256 + b.toNat) % 2 ^ 64 := by
      omega
    rw [List.foldl_cons, List.foldl_cons, ← ih, step, ih]

theorem foldl_shiftIn (data : List UInt8) (val : UInt64) :
    (data.foldl (fun (val : UInt64) b => val <<< 8 ||| b.toUInt64) val).toNat =
      data.foldl (fun val b => val * 256 + b.toNat) val.toNat % 2 ^ 64 := by
  induction data generalizing val with
  | nil => exact (Nat.mod_eq_of_lt val.toNat_lt).symm
  | cons b rest ih => rw [List.foldl_cons, List.foldl_cons, ih, shiftIn_toNat, foldl_mod]

end NdnExt.Lib
