import Mathlib.Data.Rat.Floor
/-! The election of a forwarder: a coin that thins, a weight, and a timer with jitter. -/

namespace NdnExt.Strategy

structure XorShift32 where
  state : UInt32
  deriving DecidableEq

namespace XorShift32

def new (seed : UInt32) : XorShift32 := ⟨if seed = 0 then 0x9E3779B9 else seed⟩

def nextU32 (rng : XorShift32) : UInt32 × XorShift32 :=
  let x := rng.state
  let x := x ^^^ (x <<< 13)
  let x := x ^^^ (x >>> 17)
  let x := x ^^^ (x <<< 5)
  (x, ⟨x⟩)

/-- A fraction of 24 bits. -/
def nextUnit (rng : XorShift32) : ℚ × XorShift32 :=
  let (x, rng) := rng.nextU32
  (((x >>> 8).toNat : ℚ) / 2 ^ 24, rng)

theorem nextUnit_nonneg (rng : XorShift32) : 0 ≤ rng.nextUnit.1 :=
  div_nonneg (Nat.cast_nonneg _) (by norm_num)

theorem nextUnit_lt_one (rng : XorShift32) : rng.nextUnit.1 < 1 := by
  have below : (rng.nextU32.1 >>> 8).toNat < 2 ^ 24 := by
    rw [UInt32.toNat_shiftRight, Nat.shiftRight_eq_div_pow]
    have word := rng.nextU32.1.toNat_lt
    exact Nat.div_lt_of_lt_mul word
  have positive : (0 : ℚ) < 2 ^ 24 := by norm_num
  refine (div_lt_one positive).mpr ?_
  exact_mod_cast below

end XorShift32

/-- `clamp(0.0, 1.0)`. -/
def clampUnit (x : ℚ) : ℚ := max 0 (min x 1)

/-- `as u32`. -/
def asU32 (x : ℚ) : Nat := min ⌊x⌋₊ (2 ^ 32 - 1)

structure CclfParams where
  beta : ℚ
  kDensity : ℚ
  timerUpperUs : UInt32
  deriving DecidableEq

inductive CclfDecision where
  | forwardAfter (delayUs : Nat)
  | suppress
  deriving DecidableEq

namespace CclfParams

variable (params : CclfParams)

def default : CclfParams := ⟨1, 12 / 100, 10000⟩

def maxDelayUs : Nat := min (params.timerUpperUs.toNat * 1000) (2 ^ 32 - 1)

def pSuppress (neighborCount : Nat) : ℚ := clampUnit (params.kDensity * neighborCount)

/-- With no location fix only the content counts. -/
def weight (ccs : ℚ) (ls : Option ℚ) : ℚ :=
  clampUnit <| match ls with
    | some ls =>
      let beta := clampUnit params.beta
      beta * ccs + (1 - beta) * ls
    | none => ccs

def timer (w : ℚ) : ℚ :=
  if 0 < w then min (params.timerUpperUs.toNat / w) params.maxDelayUs
  else params.timerUpperUs.toNat

def delayUs (t unit : ℚ) : Nat := asU32 (min (t * (1 / 2 + unit)) params.maxDelayUs)

end CclfParams

def cclfElect (ccs : ℚ) (ls : Option ℚ) (neighborCount : Nat) (params : CclfParams)
    (rng : XorShift32) : CclfDecision × XorShift32 :=
  let (coin, rng) := rng.nextUnit
  if coin < params.pSuppress neighborCount then (.suppress, rng)
  else
    let t := params.timer (params.weight ccs ls)
    let (unit, rng) := rng.nextUnit
    (.forwardAfter (params.delayUs t unit), rng)

theorem clampUnit_nonneg (x : ℚ) : 0 ≤ clampUnit x := le_max_left _ _

theorem clampUnit_le_one (x : ℚ) : clampUnit x ≤ 1 :=
  max_le (by norm_num) (min_le_right _ _)

theorem clampUnit_mono {x y : ℚ} (le : x ≤ y) : clampUnit x ≤ clampUnit y :=
  max_le_max_left 0 (min_le_min_right 1 le)

theorem asU32_mono {x y : ℚ} (le : x ≤ y) : asU32 x ≤ asU32 y :=
  min_le_min_right _ (Nat.floor_mono le)

namespace CclfParams

variable {params : CclfParams}

theorem pSuppress_mono {n n' : Nat} (fewer : n' ≤ n) :
    params.pSuppress n' ≤ params.pSuppress n := by
  have counts : (n' : ℚ) ≤ n := by exact_mod_cast fewer
  by_cases negative : params.kDensity ≤ 0
  · have none : clampUnit (params.kDensity * n') = 0 := by
      have below : params.kDensity * n' ≤ 0 :=
        mul_nonpos_of_nonpos_of_nonneg negative (Nat.cast_nonneg _)
      exact max_eq_left ((min_le_left _ _).trans below)
    rw [pSuppress, none]
    exact clampUnit_nonneg _
  · exact clampUnit_mono (mul_le_mul_of_nonneg_left counts (not_le.mp negative).le)

theorem weight_mono {ccs ccs' : ℚ} {ls ls' : Option ℚ} (content : ccs ≤ ccs')
    (located : Option.Rel (· ≤ ·) ls ls') : params.weight ccs ls ≤ params.weight ccs' ls' := by
  cases located with
  | none => exact clampUnit_mono content
  | some located =>
    have beta := clampUnit_nonneg params.beta
    have rest := sub_nonneg.mpr (clampUnit_le_one params.beta)
    exact clampUnit_mono (add_le_add (mul_le_mul_of_nonneg_left content beta)
      (mul_le_mul_of_nonneg_left located rest))

theorem upper_le_maxDelayUs : params.timerUpperUs.toNat ≤ params.maxDelayUs := by
  have word := params.timerUpperUs.toNat_lt
  unfold maxDelayUs
  omega

theorem timer_nonneg {w : ℚ} : 0 ≤ params.timer w := by
  unfold timer
  split
  · next positive => exact le_min (div_nonneg (Nat.cast_nonneg _) positive.le) (Nat.cast_nonneg _)
  · exact Nat.cast_nonneg _

theorem timer_le_maxDelayUs {w : ℚ} : params.timer w ≤ params.maxDelayUs := by
  unfold timer
  split
  · exact min_le_right _ _
  · exact_mod_cast upper_le_maxDelayUs

/-- The timer of a weight of zero is that of a weight of one. -/
theorem timer_anti {w w' : ℚ} (le : w ≤ w') (weighed : 0 < w ∨ w' ≤ 0 ∨ w' = 1) :
    params.timer w' ≤ params.timer w := by
  have upper : (0 : ℚ) ≤ params.timerUpperUs.toNat := Nat.cast_nonneg _
  unfold timer
  rcases weighed with positive | none | rfl
  · rw [if_pos positive, if_pos (positive.trans_le le)]
    exact min_le_min_right _ (div_le_div_of_nonneg_left upper positive le)
  · rw [if_neg (not_lt.mpr none), if_neg (not_lt.mpr (le.trans none))]
  · rw [if_pos one_pos, div_one]
    split
    · next positive =>
      refine min_le_min_right _ ?_
      exact le_div_self upper positive le
    · exact min_le_left _ _

theorem delayUs_mono {t t' unit : ℚ} (le : t' ≤ t) (nonneg : 0 ≤ unit) :
    params.delayUs t' unit ≤ params.delayUs t unit := by
  have jitter : 0 ≤ 1 / 2 + unit := by linarith
  exact asU32_mono (min_le_min_right _ (mul_le_mul_of_nonneg_right le jitter))

/-- A delay is the jittered timer in whole microseconds, within the cap. -/
theorem delayUs_bounds {w unit : ℚ} (nonneg : 0 ≤ unit) (below : unit < 1) :
    ⌊params.timer w / 2⌋₊ ≤ params.delayUs (params.timer w) unit ∧
      (params.delayUs (params.timer w) unit : ℚ) ≤ 3 / 2 * params.timer w ∧
        params.delayUs (params.timer w) unit ≤ params.maxDelayUs := by
  have timer := @timer_nonneg params w
  have capped := @timer_le_maxDelayUs params w
  have low : params.timer w / 2 ≤ params.timer w * (1 / 2 + unit) := by nlinarith
  have high : params.timer w * (1 / 2 + unit) ≤ 3 / 2 * params.timer w := by nlinarith
  have within : (0 : ℚ) ≤ min (params.timer w * (1 / 2 + unit)) params.maxDelayUs :=
    le_min (by nlinarith) (Nat.cast_nonneg _)
  have floor : ⌊min (params.timer w * (1 / 2 + unit)) params.maxDelayUs⌋₊ ≤ params.maxDelayUs :=
    Nat.floor_le_of_le (min_le_right _ _)
  have word : params.maxDelayUs ≤ 2 ^ 32 - 1 := min_le_right _ _
  have delay : params.delayUs (params.timer w) unit =
      ⌊min (params.timer w * (1 / 2 + unit)) params.maxDelayUs⌋₊ :=
    min_eq_left (floor.trans word)
  rw [delay]
  refine ⟨Nat.floor_mono (le_min low ?_), ?_, floor⟩
  · linarith
  · exact (Nat.floor_le within).trans ((min_le_left _ _).trans high)

end CclfParams

/-- What a node does, in terms of the two draws. -/
theorem cclfElect_eq (params : CclfParams) (rng : XorShift32) (ccs : ℚ) (ls : Option ℚ) (n : Nat) :
    (cclfElect ccs ls n params rng).1 =
      if rng.nextUnit.1 < params.pSuppress n then .suppress
      else .forwardAfter
        (params.delayUs (params.timer (params.weight ccs ls)) rng.nextUnit.2.nextUnit.1) := by
  unfold cclfElect
  dsimp only
  split <;> rfl

/-- A better placed forwarder forwards when a worse placed one does, and waits no longer, unless
the worse one has no weight at all: then its timer is that of full weight. -/
theorem better_placed_forwards (params : CclfParams) (rng : XorShift32) (ccs ccs' : ℚ)
    (ls ls' : Option ℚ) (n n' d : Nat) (content : ccs ≤ ccs')
    (located : Option.Rel (· ≤ ·) ls ls') (sparser : n' ≤ n)
    (elected : (cclfElect ccs ls n params rng).1 = .forwardAfter d) :
    (∃ d', (cclfElect ccs' ls' n' params rng).1 = .forwardAfter d' ∧
      (0 < params.weight ccs ls ∨ params.weight ccs' ls' = 0 ∨ params.weight ccs' ls' = 1 →
        d' ≤ d)) ∧
      ⌊params.timer (params.weight ccs ls) / 2⌋₊ ≤ d ∧
        (d : ℚ) ≤ 3 / 2 * params.timer (params.weight ccs ls) ∧
          d ≤ 1000 * params.timerUpperUs.toNat := by
  have nonneg := rng.nextUnit.2.nextUnit_nonneg
  have below := rng.nextUnit.2.nextUnit_lt_one
  have coin : ¬ rng.nextUnit.1 < params.pSuppress n := by
    intro suppressed
    rw [cclfElect_eq, if_pos suppressed] at elected
    cases elected
  have coin' : ¬ rng.nextUnit.1 < params.pSuppress n' :=
    fun suppressed => coin (suppressed.trans_le (CclfParams.pSuppress_mono sparser))
  rw [cclfElect_eq, if_neg coin] at elected
  rw [cclfElect_eq, if_neg coin']
  cases elected
  have bounds := @CclfParams.delayUs_bounds params (params.weight ccs ls) _ nonneg below
  refine ⟨⟨_, rfl, ?_⟩, bounds.1, bounds.2.1, bounds.2.2.trans ?_⟩
  · intro weighed
    refine CclfParams.delayUs_mono (CclfParams.timer_anti ?_ ?_) nonneg
    · exact CclfParams.weight_mono content located
    · exact weighed.imp_right (Or.imp_left Eq.le)
  · rw [Nat.mul_comm]
    exact min_le_left _ _

namespace Example

/-- A node of little weight waits no less than one of more. -/
theorem sparse_forwards : ∃ d', (cclfElect (1 / 2) none 0 .default (.new 1)).1 = .forwardAfter d' ∧
    d' ≤ 51574 := by
  have better := (better_placed_forwards .default (.new 1) (1 / 10) (1 / 2) none none 0 0 51574
    (by norm_num) .none le_rfl (by decide +kernel)).1
  rcases better with ⟨d', elected, le⟩
  exact ⟨d', elected, le (Or.inl (by decide +kernel))⟩

/-- A node without weight waits less than one that is a little better placed, and a delay in whole
microseconds may be less than half of its timer. -/
theorem weightless_forwards_first :
    (cclfElect 0 none 0 .default (.new 1)).1 = .forwardAfter 5157 ∧
      (cclfElect (1 / 10) none 0 .default (.new 1)).1 = .forwardAfter 51574 ∧
      (cclfElect 1 none 0 ⟨1, 0, 1⟩ (.new 1)).1 = .forwardAfter 0 ∧
      CclfParams.timer ⟨1, 0, 1⟩ (CclfParams.weight ⟨1, 0, 1⟩ 1 none) / 2 = 1 / 2 := by
  refine ⟨?_, ?_, ?_, ?_⟩
  · decide +kernel
  · decide +kernel
  · decide +kernel
  · decide +kernel

end Example
end NdnExt.Strategy
