import NdnExt.Lib.Outcome
import Mathlib.Algebra.Group.Int.Defs
import Mathlib.Algebra.Group.Nat.Defs
import Mathlib.Data.Int.Basic

/-! Machine integers as numbers: arithmetic that wraps, saturates or panics on overflow, and casts
that wrap. -/

namespace NdnExt.Lib

def u32Max : Nat := 2 ^ 32 - 1

/-- Rust's `as u32` of a wider unsigned value. -/
def asU32 (value : Nat) : Nat := value % 2 ^ 32

def saturatingAddU32 (left right : Nat) : Nat := min (left + right) u32Max

def u64Max : Nat := 2 ^ 64 - 1

def saturatingAddU64 (left right : Nat) : Nat := min (left + right) u64Max

def saturatingMulU64 (left right : Nat) : Nat := min (left * right) u64Max

def usizeMax : Nat := 2 ^ 64 - 1

def checkedAddUsize (left right : Nat) : Option Nat :=
  if left + right ≤ usizeMax then some (left + right) else none

def checkedMulUsize (left right : Nat) : Option Nat :=
  if left * right ≤ usizeMax then some (left * right) else none

theorem asU32_of_lt {value : Nat} (small : value < 2 ^ 32) : asU32 value = value :=
  Nat.mod_eq_of_lt small

theorem saturatingAddU32_of_le {left right : Nat} (small : left + right ≤ u32Max) :
    saturatingAddU32 left right = left + right :=
  Nat.min_eq_left small

/-! ### Arithmetic that panics -/

/-- A computation whose only failure is a panic. -/
abbrev Checked (A : Type) := Outcome Empty A

variable {E : Type}

/-- A result in `u64`. -/
def u64 (value : Nat) : Outcome E Nat := if value < 2 ^ 64 then .ok value else .panic

/-- A result in `u16`. -/
def u16 (value : Nat) : Outcome E Nat := if value < 2 ^ 16 then .ok value else .panic

def u64Sub (left right : Nat) : Outcome E Nat :=
  if right ≤ left then .ok (left - right) else .panic

/-- A result in `i64`. -/
def i64 (value : Int) : Outcome E Int :=
  if -2 ^ 63 ≤ value ∧ value < 2 ^ 63 then .ok value else .panic

/-- Rust's `as u64` of a signed value. -/
def asU64 (value : Int) : Nat := (value % 2 ^ 64).toNat

theorem u64_ok {value : Nat} (small : value < 2 ^ 64) : (u64 value : Outcome E Nat) = .ok value :=
  if_pos small

theorem u64_eq_ok {value result : Nat} (read : (u64 value : Outcome E Nat) = .ok result) :
    value < 2 ^ 64 ∧ result = value := by
  rw [u64] at read
  split at read
  · next small => exact ⟨small, (Outcome.ok.inj read).symm⟩
  · cases read

theorem u16_eq_ok {value result : Nat} (read : (u16 value : Outcome E Nat) = .ok result) :
    value < 2 ^ 16 ∧ result = value := by
  rw [u16] at read
  split at read
  · next small => exact ⟨small, (Outcome.ok.inj read).symm⟩
  · cases read

theorem u64Sub_ok {left right : Nat} (enough : right ≤ left) :
    (u64Sub left right : Outcome E Nat) = .ok (left - right) :=
  if_pos enough

theorem i64_ok {value : Int} (lower : -2 ^ 63 ≤ value) (upper : value < 2 ^ 63) :
    (i64 value : Outcome E Int) = .ok value :=
  if_pos ⟨lower, upper⟩

theorem asU64_of_nonneg {value : Int} (nonneg : 0 ≤ value) (small : value < 2 ^ 64) :
    asU64 value = value.toNat := by
  rw [asU64, Int.emod_eq_of_lt nonneg small]

/-- A negative value is far above every `i64`. -/
theorem asU64_of_neg {value : Int} (lower : -2 ^ 63 ≤ value) (negative : value < 0) :
    2 ^ 63 ≤ asU64 value := by
  unfold asU64
  omega

/-! ### Slices -/

section Slices

variable {A : Type}

/-- Whether bytes can be a slice: nothing longer than `isize::MAX` is allocated. -/
def InMemory (bytes : List A) : Prop := bytes.length < 2 ^ 63

/-- `start.checked_add(len).filter(|e| *e <= limit)`. -/
def endWithin (start len limit : Nat) : Option Nat :=
  (checkedAddUsize start len).filter fun e => e ≤ limit

/-- `&bytes[start..stop]`. -/
def sliceAt (bytes : List A) (start stop : Nat) : Outcome E (List A) :=
  if start ≤ stop ∧ stop ≤ bytes.length then .ok ((bytes.take stop).drop start) else .panic

/-- `bytes[start..start + part.len()].copy_from_slice(part)`. -/
def copyInto (bytes : List A) (start : Nat) (part : List A) : Outcome E (List A) :=
  if start + part.length ≤ bytes.length then
    .ok (bytes.take start ++ part ++ bytes.drop (start + part.length))
  else .panic

theorem endWithin_eq_some {start len limit stop : Nat} : endWithin start len limit = some stop ↔
    stop = start + len ∧ stop ≤ limit ∧ stop ≤ usizeMax := by
  unfold endWithin checkedAddUsize
  split
  · next small =>
    rw [Option.filter_eq_some_iff, Option.some.injEq, decide_eq_true_iff]
    constructor
    · rintro ⟨rfl, within⟩
      exact ⟨rfl, within, small⟩
    · rintro ⟨rfl, within, _⟩
      exact ⟨rfl, within⟩
  · next large =>
    refine iff_of_false (Option.some_ne_none stop).symm ?_
    rintro ⟨rfl, _, small⟩
    exact large small

theorem endWithin_of_le {start len limit : Nat} (within : start + len ≤ limit)
    (memory : limit < 2 ^ 63) : endWithin start len limit = some (start + len) := by
  refine endWithin_eq_some.mpr ⟨rfl, within, ?_⟩
  unfold usizeMax
  omega

theorem endWithin_of_lt {start len limit : Nat} (beyond : limit < start + len) :
    endWithin start len limit = none := by
  cases found : endWithin start len limit with
  | none => rfl
  | some stop =>
    rcases endWithin_eq_some.mp found with ⟨rfl, within, _⟩
    omega

theorem sliceAt_ok {bytes : List A} {start stop : Nat} (ordered : start ≤ stop)
    (within : stop ≤ bytes.length) :
    (sliceAt bytes start stop : Outcome E (List A)) = .ok ((bytes.take stop).drop start) :=
  if_pos ⟨ordered, within⟩

theorem sliceAt_append (front middle back : List A) :
    (sliceAt (front ++ middle ++ back) front.length (front.length + middle.length) :
      Outcome E (List A)) = .ok middle := by
  have length : (front ++ middle).length = front.length + middle.length := List.length_append
  rw [sliceAt_ok (Nat.le_add_right _ _), List.take_left' length, List.drop_left]
  rw [List.length_append, length]
  exact Nat.le_add_right _ _

theorem copyInto_append {done rest part : List A} (fits : part.length ≤ rest.length) :
    (copyInto (done ++ rest) done.length part : Outcome E (List A)) =
      .ok (done ++ part ++ rest.drop part.length) := by
  have within : done.length + part.length ≤ (done ++ rest).length := by
    rw [List.length_append]
    exact Nat.add_le_add_left fits _
  rw [copyInto, if_pos within, List.take_left, List.drop_append, List.drop_eq_nil_of_le
    (Nat.le_add_right _ _), List.nil_append, Nat.add_sub_cancel_left]

end Slices

end NdnExt.Lib
