import Mathlib.Algebra.Order.Field.Basic
import Mathlib.Tactic.Linarith
/-! Token buckets that are refilled when a token is taken. -/

namespace NdnExt.Lib

structure TokenBucket (K : Type) where
  tokens : K
  takenAt : Nat

namespace TokenBucket

variable {K : Type} [Field K] [LinearOrder K] (burst rate : K)

def full (now : Nat) : TokenBucket K := ⟨burst, now⟩

/-- The tokens there are once the bucket is refilled. -/
def level (bucket : TokenBucket K) (now : Nat) : K :=
  min (bucket.tokens + (now - bucket.takenAt : Nat) * rate) burst

def take (bucket : TokenBucket K) (now : Nat) : TokenBucket K × Bool :=
  if 1 ≤ bucket.level burst rate now then (⟨bucket.level burst rate now - 1, now⟩, true)
  else (⟨bucket.level burst rate now, now⟩, false)

variable {burst rate} (bucket : TokenBucket K)

theorem level_le_burst (now : Nat) : bucket.level burst rate now ≤ burst :=
  min_le_right _ _

@[simp] theorem take_takenAt (now : Nat) : (bucket.take burst rate now).1.takenAt = now := by
  unfold take
  split <;> rfl

theorem take_succeeds (now : Nat) :
    (bucket.take burst rate now).2 = true ↔ 1 ≤ bucket.level burst rate now := by
  unfold take
  split
  · next enough => exact iff_of_true rfl enough
  · next short => exact iff_of_false Bool.false_ne_true short

theorem take_tokens (now : Nat) :
    (bucket.take burst rate now).1.tokens + (if (bucket.take burst rate now).2 then 1 else 0) =
      bucket.level burst rate now := by
  unfold take
  split
  · simp
  · simp

theorem level_takenAt (within : bucket.tokens ≤ burst) :
    bucket.level burst rate bucket.takenAt = bucket.tokens := by
  unfold level
  rw [Nat.sub_self, Nat.cast_zero, zero_mul, add_zero]
  exact min_eq_left within

variable [IsStrictOrderedRing K]

theorem level_full (now later : Nat) (nonneg : 0 ≤ rate) :
    (full burst now).level burst rate later = burst := by
  apply min_eq_right
  have refill : 0 ≤ ((later - now : Nat) : K) * rate := mul_nonneg (Nat.cast_nonneg _) nonneg
  exact le_add_of_nonneg_right refill

/-- A take that succeeds costs one token. -/
theorem level_take (now : Nat) :
    (bucket.take burst rate now).1.level burst rate now +
        (if (bucket.take burst rate now).2 then 1 else 0) =
      bucket.level burst rate now := by
  have taken := @take_tokens K _ _ burst rate bucket now
  have most : bucket.level burst rate now ≤ burst := bucket.level_le_burst now
  have within : (bucket.take burst rate now).1.tokens ≤ burst := by
    split at taken <;> linarith
  have kept := @level_takenAt K _ _ burst rate _ within
  rw [take_takenAt] at kept
  rw [kept, taken]

theorem level_nonneg (nonneg : 0 ≤ rate) (positive : 0 ≤ burst) (some : 0 ≤ bucket.tokens)
    (now : Nat) : 0 ≤ bucket.level burst rate now := by
  have refill : 0 ≤ ((now - bucket.takenAt : Nat) : K) * rate :=
    mul_nonneg (Nat.cast_nonneg _) nonneg
  exact le_min (add_nonneg some refill) positive

theorem take_tokens_nonneg (nonneg : 0 ≤ rate) (positive : 0 ≤ burst)
    (some : 0 ≤ bucket.tokens) (now : Nat) : 0 ≤ (bucket.take burst rate now).1.tokens := by
  unfold take
  split
  · next enough => exact sub_nonneg.mpr enough
  · exact bucket.level_nonneg nonneg positive some now

/-- After a take the bucket is a whole token short of full, or has less than one. -/
theorem take_tokens_le (large : 2 ≤ burst) (now : Nat) :
    (bucket.take burst rate now).1.tokens ≤ burst - 1 := by
  have below : bucket.level burst rate now ≤ burst := bucket.level_le_burst now
  unfold take
  split
  · exact sub_le_sub_right below 1
  · next short =>
    linarith

theorem level_later (nonneg : 0 ≤ rate) {now later : Nat} (order : now ≤ later) :
    bucket.level burst rate later ≤ bucket.level burst rate now + (later - now : Nat) * rate := by
  have longer : later - bucket.takenAt ≤ now - bucket.takenAt + (later - now) := by omega
  have refill : ((later - bucket.takenAt : Nat) : K) * rate ≤
      (now - bucket.takenAt : Nat) * rate + (later - now : Nat) * rate := by
    rw [← add_mul, ← Nat.cast_add]
    exact mul_le_mul_of_nonneg_right (Nat.cast_le.mpr longer) nonneg
  have waited : 0 ≤ ((later - now : Nat) : K) * rate := mul_nonneg (Nat.cast_nonneg _) nonneg
  unfold level
  rw [← min_add_add_right]
  apply min_le_min
  · linarith
  · linarith

/-- A bucket left alone until it could be filled from empty is full. -/
theorem level_of_idle (nonneg : 0 ≤ bucket.tokens) {now : Nat}
    (idle : burst ≤ (now - bucket.takenAt : Nat) * rate) :
    bucket.level burst rate now = burst := by
  apply min_eq_right
  linarith

end TokenBucket
end NdnExt.Lib
