import NdnExt.Lib.Checked
import NdnExt.Lib.WrappingCounter

/-! The single-producer single-consumer rings of a shared-memory face. -/

namespace NdnExt.Shm

open NdnExt.Lib

inductive ShmError where
  | invalidGeometry
  deriving DecidableEq

def defaultCapacity : Nat := 256

def defaultSlotSize : Nat := 8960

def slotStride (slotSize : Nat) : Nat := 4 + slotSize

def shmBudget : Nat := 2 * defaultCapacity * slotStride defaultSlotSize

def shmSlotOverhead : Nat := 16 * 1024

def slotSizeForMtu (mtu : Nat) : Nat :=
  let raw := min (mtu + shmSlotOverhead) usizeMax
  let aligned := (raw + 63) / 64 * 64 % (usizeMax + 1)
  min aligned u32Max

def capacityForSlot (slotSize : Nat) : Nat :=
  max (asU32 (shmBudget / (2 * slotStride slotSize))) 16

def headerSize : Nat := 448

def maxRegionSize : Nat := 256 * 1024 * 1024

def validateGeometry (capacity slotSize : Nat) : Except ShmError Unit :=
  if capacity = 0 ∨ slotSize = 0 then .error .invalidGeometry
  else
    let stride := checkedAddUsize 4 slotSize
    let total := ((stride.bind (checkedMulUsize · capacity)).bind (checkedMulUsize · 2)).bind
      (checkedAddUsize · headerSize)
    match total with
    | some t => if t ≤ maxRegionSize then .ok () else .error .invalidGeometry
    | none => .error .invalidGeometry

structure Geometry where
  capacity : Nat
  slotSize : Nat
  valid : validateGeometry capacity slotSize = .ok ()

namespace Geometry

theorem capacity_pos (geometry : Geometry) : 0 < geometry.capacity := by
  by_contra empty
  have valid := geometry.valid
  rw [validateGeometry, if_pos (by omega)] at valid
  cases valid

theorem slotSize_pos (geometry : Geometry) : 0 < geometry.slotSize := by
  by_contra empty
  have valid := geometry.valid
  rw [validateGeometry, if_pos (by omega)] at valid
  cases valid

theorem fits (geometry : Geometry) :
    (4 + geometry.slotSize) * geometry.capacity * 2 + headerSize ≤ maxRegionSize := by
  have valid := geometry.valid
  unfold validateGeometry at valid
  split at valid
  · cases valid
  · simp only [checkedAddUsize, checkedMulUsize] at valid
    split at valid
    · rename_i total sum
      split at valid
      · rename_i small
        simp only [Option.bind_eq_some_iff, Option.ite_none_right_eq_some, Option.some.injEq] at sum
        rcases sum with ⟨doubled, ⟨area, ⟨stride, ⟨-, rfl⟩, -, rfl⟩, -, rfl⟩, -, rfl⟩
        exact small
      · cases valid
    · cases valid

theorem capacity_lt (geometry : Geometry) : geometry.capacity < 2 ^ 32 := by
  have fits := geometry.fits
  have strided : geometry.capacity * 1 ≤ (4 + geometry.slotSize) * geometry.capacity := by
    rw [Nat.mul_comm (4 + geometry.slotSize)]
    exact Nat.mul_le_mul_left _ (by omega)
  unfold headerSize maxRegionSize at fits
  omega

theorem slotSize_lt (geometry : Geometry) : geometry.slotSize < 2 ^ 32 := by
  have fits := geometry.fits
  have strided : (4 + geometry.slotSize) * 1 ≤ (4 + geometry.slotSize) * geometry.capacity :=
    Nat.mul_le_mul_left _ geometry.capacity_pos
  unfold headerSize maxRegionSize at fits
  omega

end Geometry

/-- What the producer may write: the safety condition of every push. -/
structure Payload (slotSize : Nat) where
  bytes : List UInt8
  fits : bytes.length ≤ slotSize

structure Slot (slotSize : Nat) where
  len : Nat
  area : List UInt8
  sized : area.length = slotSize

/-- A closure that writes a slice in place. -/
structure Fill where
  run : List UInt8 → List UInt8
  keeps : ∀ view, (run view).length = view.length

structure Ring (slotSize : Nat) where
  head : Nat
  tail : Nat
  slots : Nat → Slot slotSize

namespace Slot

variable {slotSize : Nat}

def write (slot : Slot slotSize) (data : Payload slotSize) : Slot slotSize where
  len := asU32 data.bytes.length
  area := data.bytes ++ slot.area.drop data.bytes.length
  sized := by
    have fits := data.fits
    rw [List.length_append, List.length_drop, slot.sized]
    omega

/-- The payload that `fill` leaves in the first `len` bytes. -/
def filled (slot : Slot slotSize) (len : Nat) (fill : Fill) : Payload slotSize where
  bytes := fill.run (slot.area.take len)
  fits := by
    rw [fill.keeps, List.length_take, slot.sized]
    omega

def fillInPlace (slot : Slot slotSize) (len : Nat) (fill : Fill) : Slot slotSize where
  len := asU32 len
  area := fill.run (slot.area.take len) ++ slot.area.drop len
  sized := by
    rw [List.length_append, fill.keeps, ← List.length_append, List.take_append_drop, slot.sized]

def read (slot : Slot slotSize) : List UInt8 := slot.area.take (min slot.len slotSize)

theorem read_write (slot : Slot slotSize) (data : Payload slotSize) (small : slotSize < 2 ^ 32) :
    (slot.write data).read = data.bytes := by
  have fits := data.fits
  have length : asU32 data.bytes.length = data.bytes.length := asU32_of_lt (by omega)
  unfold read write
  rw [length, Nat.min_eq_left fits, List.take_left]

theorem fillInPlace_eq_write (slot : Slot slotSize) {len : Nat} (fits : len ≤ slotSize)
    (fill : Fill) : slot.fillInPlace len fill = slot.write (slot.filled len fill) := by
  have length : (fill.run (slot.area.take len)).length = len := by
    rw [fill.keeps, List.length_take, slot.sized]
    omega
  simp only [fillInPlace, write, filled, length]

end Slot

variable {slotSize : Nat}

/-- Writes the next slot with `put` and advances the tail. -/
def Ring.advance (capacity : Nat) (ring : Ring slotSize) (put : Slot slotSize → Slot slotSize) :
    Ring slotSize :=
  let idx := ring.tail % capacity
  { ring with
    slots := Function.update ring.slots idx (put (ring.slots idx))
    tail := wrappingAdd (2 ^ 32) ring.tail 1 }

def ringPush (capacity : Nat) (ring : Ring slotSize) (data : Payload slotSize) :
    Ring slotSize × Bool :=
  if wrappingSub (2 ^ 32) ring.tail ring.head ≥ capacity then (ring, false)
  else (ring.advance capacity (·.write data), true)

def ringReserveCommit (capacity : Nat) (ring : Ring slotSize) (len : Nat) (fill : Fill) :
    Ring slotSize × Bool :=
  if wrappingSub (2 ^ 32) ring.tail ring.head ≥ capacity then (ring, false)
  else (ring.advance capacity (·.fillInPlace len fill), true)

def ringPushBatch (capacity : Nat) (ring : Ring slotSize) (pkts : List (Payload slotSize)) :
    Ring slotSize × Nat :=
  if pkts.isEmpty then (ring, 0)
  else
    let free := wrappingSub (2 ^ 32) capacity (wrappingSub (2 ^ 32) ring.tail ring.head)
    let toPush := min free pkts.length
    if toPush = 0 then (ring, 0)
    else
      ((pkts.take toPush).foldl (fun ring pkt => ring.advance capacity (·.write pkt)) ring, toPush)

def ringPeekConsume {R : Type} (capacity : Nat) (ring : Ring slotSize) (f : List UInt8 → R) :
    Ring slotSize × Option R :=
  if ring.head = ring.tail then (ring, none)
  else
    let slot := ring.slots (ring.head % capacity)
    ({ ring with head := wrappingAdd (2 ^ 32) ring.head 1 }, some (f slot.read))

def ringPop (capacity : Nat) (ring : Ring slotSize) : Ring slotSize × Option (List UInt8) :=
  if ring.head = ring.tail then (ring, none)
  else
    let slot := ring.slots (ring.head % capacity)
    ({ ring with head := wrappingAdd (2 ^ 32) ring.head 1 }, some slot.read)

end NdnExt.Shm
