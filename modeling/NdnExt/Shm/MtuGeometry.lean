import NdnExt.Shm.Ring
import Mathlib.Tactic.Ring

/-! The geometry an MTU asks for, against the check of the connecting peer. -/

namespace NdnExt.Shm

open NdnExt.Lib Outcome

/-- `slot_size_for_mtu` where every arithmetic operation stops on overflow. -/
def slotSizeForMtuChecked (mtu : Nat) : Checked Nat := do
  let raw := min (mtu + shmSlotOverhead) usizeMax
  let aligned ← checked (checkedMulUsize ((raw + 63) / 64) 64)
  return min aligned u32Max

/-- `capacity_for_slot`, likewise. -/
def capacityForSlotChecked (slotSize : Nat) : Checked Nat := do
  let stride ← checked (checkedAddUsize 4 slotSize)
  let both ← checked (checkedMulUsize 2 stride)
  return max (asU32 (shmBudget / both)) 16

/-- The capacity and slot size that `create_for_mtu` and `create_anon_for_mtu` write into the
header of the region, which the connecting peer reads back. -/
def createForMtu (mtu : Nat) : Nat × Nat :=
  let slotSize := slotSizeForMtu mtu
  (capacityForSlot slotSize, slotSize)

structure UsableMtu (mtu : Nat) : Prop where
  slotExact : slotSizeForMtuChecked mtu = .ok (slotSizeForMtu mtu)
  capacityExact :
    capacityForSlotChecked (slotSizeForMtu mtu) = .ok (capacityForSlot (slotSizeForMtu mtu))
  holds : mtu + shmSlotOverhead ≤ slotSizeForMtu mtu ∨ slotSizeForMtu mtu = u32Max
  accepted : validateGeometry (createForMtu mtu).1 (createForMtu mtu).2 = .ok ()

/-- The MTU that fills the greatest slot of which sixteen fit in each ring of a region. -/
def largestMtu : Nat := ((maxRegionSize - headerSize) / (2 * 16) - 4) / 64 * 64 - shmSlotOverhead

theorem validateGeometry_ok {capacity slotSize : Nat} (slots : 0 < capacity) (room : 0 < slotSize)
    (fits : (4 + slotSize) * capacity * 2 + headerSize ≤ maxRegionSize) :
    validateGeometry capacity slotSize = .ok () := by
  have strided : 4 + slotSize ≤ (4 + slotSize) * capacity := Nat.le_mul_of_pos_right _ slots
  have bound := fits
  unfold headerSize maxRegionSize at bound
  have stride : checkedAddUsize 4 slotSize = some (4 + slotSize) :=
    if_pos (by unfold usizeMax; omega)
  have ring : checkedMulUsize (4 + slotSize) capacity = some ((4 + slotSize) * capacity) :=
    if_pos (by unfold usizeMax; omega)
  have rings : checkedMulUsize ((4 + slotSize) * capacity) 2 = some ((4 + slotSize) * capacity * 2) :=
    if_pos (by unfold usizeMax; omega)
  have total : checkedAddUsize ((4 + slotSize) * capacity * 2) headerSize =
      some ((4 + slotSize) * capacity * 2 + headerSize) :=
    if_pos (by unfold usizeMax headerSize; omega)
  rw [validateGeometry, if_neg (by omega)]
  simp only [stride, ring, rings, total, Option.bind_some]
  exact if_pos fits

theorem slotSizeForMtu_aligned (mtu : Nat) :
    64 ∣ slotSizeForMtu mtu ∨ slotSizeForMtu mtu = u32Max := by
  unfold slotSizeForMtu
  rcases min_choice ((min (mtu + shmSlotOverhead) usizeMax + 63) / 64 * 64 % (usizeMax + 1)) u32Max
    with rounded | clamped
  · rw [rounded]
    exact Or.inl ((Nat.dvd_mod_iff (by decide)).mpr (Nat.dvd_mul_left _ _))
  · exact Or.inr clamped

/-- Up to the region's limit the slot is the MTU with its overhead, rounded up. -/
theorem slotSizeForMtu_eq {mtu : Nat} (small : mtu ≤ largestMtu) :
    slotSizeForMtu mtu = (mtu + shmSlotOverhead + 63) / 64 * 64 := by
  simp only [largestMtu, maxRegionSize, headerSize, shmSlotOverhead] at small
  simp only [slotSizeForMtu, shmSlotOverhead, usizeMax, u32Max]
  omega

theorem capacityForSlot_eq (slotSize : Nat) :
    capacityForSlot slotSize = max (shmBudget / (2 * slotStride slotSize)) 16 := by
  have below : shmBudget / (2 * slotStride slotSize) < 2 ^ 32 := by
    refine lt_of_le_of_lt (Nat.div_le_self _ _) ?_
    decide
  rw [capacityForSlot, asU32_of_lt below]

/-- The budget bounds the rings, unless the floor of sixteen slots does. -/
theorem region_le (slotSize : Nat) :
    (4 + slotSize) * capacityForSlot slotSize * 2 ≤ max shmBudget (32 * (4 + slotSize)) := by
  have spent := Nat.mul_div_le shmBudget (2 * slotStride slotSize)
  rw [capacityForSlot_eq]
  rcases max_cases (shmBudget / (2 * slotStride slotSize)) 16 with ⟨most, above⟩ | ⟨floor, below⟩
  · calc (4 + slotSize) * max (shmBudget / (2 * slotStride slotSize)) 16 * 2
        = 2 * slotStride slotSize * (shmBudget / (2 * slotStride slotSize)) := by
          rw [most, slotStride]
          ring
      _ ≤ shmBudget := spent
      _ ≤ max shmBudget (32 * (4 + slotSize)) := le_max_left _ _
  · rw [floor]
    omega

theorem slotSizeForMtuChecked_eq {mtu : Nat} (small : mtu ≤ largestMtu) :
    slotSizeForMtuChecked mtu = .ok (slotSizeForMtu mtu) := by
  have fits : checkedMulUsize ((min (mtu + shmSlotOverhead) usizeMax + 63) / 64) 64 =
      some ((mtu + shmSlotOverhead + 63) / 64 * 64) := by
    simp only [largestMtu, maxRegionSize, headerSize, shmSlotOverhead] at small
    have raw : min (mtu + shmSlotOverhead) usizeMax = mtu + shmSlotOverhead := by
      simp only [shmSlotOverhead, usizeMax]
      omega
    rw [raw]
    refine if_pos ?_
    simp only [shmSlotOverhead, usizeMax]
    omega
  rw [slotSizeForMtuChecked, fits, slotSizeForMtu_eq small]
  have narrow : min ((mtu + shmSlotOverhead + 63) / 64 * 64) u32Max =
      (mtu + shmSlotOverhead + 63) / 64 * 64 := by
    simp only [largestMtu, maxRegionSize, headerSize, shmSlotOverhead] at small
    simp only [shmSlotOverhead, u32Max]
    omega
  simp only [checked, ok_bind, pure_eq, narrow]

theorem capacityForSlotChecked_eq {slotSize : Nat} (small : slotSize ≤ u32Max) :
    capacityForSlotChecked slotSize = .ok (capacityForSlot slotSize) := by
  unfold u32Max at small
  have stride : checkedAddUsize 4 slotSize = some (4 + slotSize) :=
    if_pos (by unfold usizeMax; omega)
  have both : checkedMulUsize 2 (4 + slotSize) = some (2 * (4 + slotSize)) :=
    if_pos (by unfold usizeMax; omega)
  simp only [capacityForSlotChecked, stride, both, checked, ok_bind, pure_eq]
  rfl

/-- The geometry an MTU asks for is usable exactly up to `largestMtu`. -/
theorem usableMtu_iff (mtu : Nat) : UsableMtu mtu ↔ mtu ≤ largestMtu := by
  constructor
  · intro usable
    by_contra beyond
    have fits := (⟨_, _, usable.accepted⟩ : Geometry).fits
    have floor : 16 ≤ (createForMtu mtu).1 := le_max_right _ _
    have spent : (4 + (createForMtu mtu).2) * 16 ≤
        (4 + (createForMtu mtu).2) * (createForMtu mtu).1 := Nat.mul_le_mul_left _ floor
    have slot : (createForMtu mtu).2 = slotSizeForMtu mtu := rfl
    have aligned := slotSizeForMtu_aligned mtu
    have room := usable.holds
    unfold u32Max at room aligned
    simp only [largestMtu, maxRegionSize, headerSize, shmSlotOverhead] at beyond fits room
    omega
  · intro small
    have slot := slotSizeForMtu_eq small
    have bounds := small
    simp only [largestMtu, maxRegionSize, headerSize, shmSlotOverhead] at bounds
    refine ⟨slotSizeForMtuChecked_eq small, capacityForSlotChecked_eq ?_, Or.inl ?_, ?_⟩
    · rw [slot]
      unfold shmSlotOverhead u32Max
      omega
    · rw [slot]
      unfold shmSlotOverhead
      omega
    · apply validateGeometry_ok
      · exact lt_of_lt_of_le (by decide) (le_max_right _ 16)
      · change 0 < slotSizeForMtu mtu
        rw [slot]
        unfold shmSlotOverhead
        omega
      · have rings := region_le (slotSizeForMtu mtu)
        change (4 + slotSizeForMtu mtu) * capacityForSlot (slotSizeForMtu mtu) * 2 + headerSize ≤ _
        have budget : shmBudget = 4589568 := by decide
        rw [slot] at rings ⊢
        unfold shmSlotOverhead at rings ⊢
        unfold headerSize maxRegionSize
        omega

/-- One byte more, and sixteen slots no longer fit. -/
theorem refused_by_the_peer : ¬∀ mtu ≤ usizeMax, UsableMtu mtu := by
  intro usable
  have refused : validateGeometry (createForMtu 8372161).1 (createForMtu 8372161).2 =
      .error .invalidGeometry := by decide
  rw [(usable 8372161 (by decide)).accepted] at refused
  cases refused

end NdnExt.Shm
