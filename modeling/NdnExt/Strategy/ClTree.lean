import Mathlib.Tactic.NormNum
import Mathlib.Tactic.Positivity
import Mathlib.Tactic.Ring
import NdnExt.Lib.Keyed

/-! The content connectivity of prefixes: rates that are folded when they are looked at. -/

namespace NdnExt.Strategy

open NdnExt.Lib.Keyed List Function

/-- A prefix as its components. -/
abbrev Prefix := List (List UInt8)

local instance instOrderUInt8 : LinearOrder UInt8 where
  le_refl := UInt8.le_refl
  le_trans _ _ _ := UInt8.le_trans
  le_antisymm _ _ := UInt8.le_antisymm
  le_total := UInt8.le_total
  lt_iff_le_not_ge a b := by
    rw [UInt8.lt_iff_toNat_lt, UInt8.le_iff_toNat_le, UInt8.le_iff_toNat_le]
    omega
  toDecidableLE := inferInstance

def alpha : ℚ := 1 / 8

def defaultWindowMs : Nat := 6000

def maxFolds : Nat := 64

def u32Max : Nat := 2 ^ 32 - 1

structure PrefixStat where
  winI : Nat
  winD : Nat
  sI : ℚ
  sD : ℚ
  /-- None until the first observation, from then on where its window begins. -/
  lastRollMs : Option Nat
  deriving DecidableEq

namespace PrefixStat

def new : PrefixStat := ⟨0, 0, 0, 0, none⟩

/-- A fold takes the counts of the window in. -/
def fold (stat : PrefixStat) : PrefixStat :=
  { stat with
    sI := alpha * stat.winI + (1 - alpha) * stat.sI
    sD := alpha * stat.winD + (1 - alpha) * stat.sD
    winI := 0
    winD := 0 }

def decay (stat : PrefixStat) : PrefixStat :=
  { stat with sI := stat.sI * (1 - alpha), sD := stat.sD * (1 - alpha) }

def roll (stat : PrefixStat) (nowMs windowMs : Nat) : PrefixStat :=
  match stat.lastRollMs with
  | none => { stat with lastRollMs := some nowMs }
  | some last =>
    if nowMs ≤ last then stat
    else
      -- `as u32`
      let folds := (nowMs - last) / windowMs % 2 ^ 32
      if folds = 0 then stat
      else
        let n := min folds maxFolds
        let stat := decay^[n - 1] stat.fold
        let stat := if maxFolds ≤ folds then { stat with sI := 0, sD := 0 } else stat
        { stat with lastRollMs := some (last + folds * windowMs) }

def countInterest (stat : PrefixStat) : PrefixStat :=
  { stat with winI := min (stat.winI + 1) u32Max }

def countData (stat : PrefixStat) : PrefixStat :=
  { stat with winD := min (stat.winD + 1) u32Max }

/-- What is observed under a prefix. -/
inductive Seen where
  | interest
  | data
  deriving DecidableEq

def count (stat : PrefixStat) : Seen → PrefixStat
  | .interest => stat.countInterest
  | .data => stat.countData

/-- The rates with the window that is open. -/
def rateI (stat : PrefixStat) : ℚ := stat.sI + stat.winI

def rateD (stat : PrefixStat) : ℚ := stat.sD + stat.winD

/-- What every record in a tree is: observed, with rates that are not negative. -/
structure Sound (stat : PrefixStat) : Prop where
  rolled : stat.lastRollMs.isSome
  sI_nonneg : 0 ≤ stat.sI
  sD_nonneg : 0 ≤ stat.sD

namespace Sound

variable {stat : PrefixStat}

theorem fold (sound : stat.Sound) : stat.fold.Sound := by
  have interests := sound.sI_nonneg
  have data := sound.sD_nonneg
  refine ⟨sound.rolled, ?_, ?_⟩
  · change 0 ≤ alpha * stat.winI + (1 - alpha) * stat.sI
    norm_num [alpha]
    positivity
  · change 0 ≤ alpha * stat.winD + (1 - alpha) * stat.sD
    norm_num [alpha]
    positivity

theorem decay (sound : stat.Sound) : stat.decay.Sound := by
  have left : 0 ≤ 1 - alpha := by norm_num [alpha]
  exact ⟨sound.rolled, mul_nonneg sound.sI_nonneg left, mul_nonneg sound.sD_nonneg left⟩

theorem iterate {step : PrefixStat → PrefixStat} (keeps : ∀ {stat : PrefixStat}, stat.Sound →
    (step stat).Sound) (sound : stat.Sound) (n : Nat) : (step^[n] stat).Sound := by
  induction n with
  | zero => exact sound
  | succ n ih =>
    rw [iterate_succ_apply']
    exact keeps ih

theorem rateI_nonneg (sound : stat.Sound) : 0 ≤ stat.rateI :=
  add_nonneg sound.sI_nonneg (Nat.cast_nonneg _)

theorem rateD_nonneg (sound : stat.Sound) : 0 ≤ stat.rateD :=
  add_nonneg sound.sD_nonneg (Nat.cast_nonneg _)

end Sound

theorem roll_sound {stat : PrefixStat} (nowMs windowMs : Nat) (sI : 0 ≤ stat.sI)
    (sD : 0 ≤ stat.sD) : (stat.roll nowMs windowMs).Sound := by
  unfold roll
  split
  · exact ⟨rfl, sI, sD⟩
  · next last begun =>
    have sound : stat.Sound := ⟨by rw [begun]; rfl, sI, sD⟩
    split
    · exact sound
    · dsimp only
      split
      · exact sound
      · next folds _ =>
        have decayed := sound.fold.iterate Sound.decay
          (min ((nowMs - last) / windowMs % 2 ^ 32) maxFolds - 1)
        split
        · exact ⟨rfl, le_rfl, le_rfl⟩
        · exact ⟨rfl, decayed.sI_nonneg, decayed.sD_nonneg⟩

theorem new_sound (nowMs windowMs : Nat) : (new.roll nowMs windowMs).Sound :=
  roll_sound nowMs windowMs le_rfl le_rfl

theorem Sound.count {stat : PrefixStat} (sound : stat.Sound) (seen : Seen) :
    (stat.count seen).Sound := by
  cases seen with
  | interest => exact ⟨sound.rolled, sound.sI_nonneg, sound.sD_nonneg⟩
  | data => exact ⟨sound.rolled, sound.sI_nonneg, sound.sD_nonneg⟩

theorem getD_new_roll_sound {found : Option PrefixStat} (sound : ∀ stat ∈ found, stat.Sound)
    (nowMs windowMs : Nat) : ((found.getD new).roll nowMs windowMs).Sound := by
  cases found with
  | none => exact new_sound nowMs windowMs
  | some stat =>
    have held := sound stat rfl
    exact roll_sound nowMs windowMs held.sI_nonneg held.sD_nonneg

end PrefixStat

/-- Does `key` have `under` as a component-wise prefix? -/
def startsWith (key under : Prefix) : Bool :=
  under.length ≤ key.length && (key.zip under).all fun pair => pair.1 = pair.2

theorem startsWith_iff {key under : Prefix} : startsWith key under = true ↔ under <+: key := by
  induction under generalizing key with
  | nil => simp [startsWith]
  | cons c under ih =>
    cases key with
    | nil => simp [startsWith]
    | cons d key =>
      rw [cons_prefix_cons, ← ih]
      simp only [startsWith, length_cons, zip_cons_cons, all_cons,
        Nat.add_le_add_iff_right, Bool.and_eq_true, decide_eq_true_eq]
      rw [and_left_comm, eq_comm]

theorem isRange_startsWith (under : Prefix) : IsRange under fun key => startsWith key under :=
  isRange_isPrefix fun _ => startsWith_iff

structure ClTree where
  map : List (Prefix × PrefixStat)
  windowMs : Nat
  ordered : Ordered map
  sound : ∀ entry ∈ map, entry.2.Sound
  window_pos : 0 < windowMs

namespace ClTree

open PrefixStat (Seen)

def withWindowMs (windowMs : Nat) : ClTree where
  map := []
  windowMs := max windowMs 1
  ordered := List.Pairwise.nil
  sound _ among := by cases among
  window_pos := by omega

def new : ClTree := withWindowMs defaultWindowMs

def observe (tree : ClTree) (seen : Seen) (key : Prefix) (nowMs : Nat) : ClTree where
  map := enter tree.map key fun found =>
    ((found.getD PrefixStat.new).roll nowMs tree.windowMs).count seen
  windowMs := tree.windowMs
  ordered := ordered_enter tree.ordered
  sound := by
    refine forall_mem_enter tree.ordered tree.sound ?_
    refine (PrefixStat.getD_new_roll_sound ?_ nowMs tree.windowMs).count seen
    intro stat found
    exact tree.sound _ (mem_of_valueAt found)
  window_pos := tree.window_pos

def observeInterest (tree : ClTree) (key : Prefix) (nowMs : Nat) : ClTree :=
  tree.observe .interest key nowMs

def observeData (tree : ClTree) (key : Prefix) (nowMs : Nat) : ClTree :=
  tree.observe .data key nowMs

def ccs (tree : ClTree) (under : Prefix) (nowMs : Nat) : ℚ × ClTree :=
  let rolled := (scan tree.map under fun key => startsWith key under).map fun entry =>
    entry.2.roll nowMs tree.windowMs
  let sumI := (rolled.map PrefixStat.rateI).sum
  let sumD := (rolled.map PrefixStat.rateD).sum
  (if sumI ≤ 0 then if 0 < sumD then 1 else 0 else max 0 (min (sumD / sumI) 1),
    { map := changeScanned tree.map under (fun key => startsWith key under)
        fun stat => stat.roll nowMs tree.windowMs
      windowMs := tree.windowMs
      ordered := ordered_changeScanned (isRange_startsWith under) tree.ordered _
      sound := by
        refine forall_mem_changeScanned tree.sound ?_
        intro entry among
        have held := tree.sound entry among
        exact PrefixStat.roll_sound nowMs tree.windowMs held.sI_nonneg held.sD_nonneg
      window_pos := tree.window_pos })

end ClTree

inductive TreeCall where
  | observe (seen : PrefixStat.Seen) (key : Prefix) (nowMs : Nat)
  | ccs (under : Prefix) (nowMs : Nat)

def TreeCall.nowMs : TreeCall → Nat
  | .observe _ _ nowMs => nowMs
  | .ccs _ nowMs => nowMs

/-- An observation: what is seen, under which prefix, and when. -/
structure Observation where
  seen : PrefixStat.Seen
  key : Prefix
  nowMs : Nat

def TreeCall.observation : TreeCall → Option Observation
  | .observe seen key nowMs => some ⟨seen, key, nowMs⟩
  | .ccs _ _ => none

namespace ClTree

def step (tree : ClTree) : TreeCall → ClTree
  | .observe .interest key nowMs => tree.observeInterest key nowMs
  | .observe .data key nowMs => tree.observeData key nowMs
  | .ccs under nowMs => (tree.ccs under nowMs).2

def run (tree : ClTree) (calls : List TreeCall) : ClTree := calls.foldl step tree

end ClTree

/-! ### Rates that are folded at the end of every window -/

/-- The ratio of summed rates between 0 and 1: 1 with Data but no Interests, 0 with neither. -/
def score (sumI sumD : ℚ) : ℚ :=
  if sumI = 0 then if sumD = 0 then 0 else 1 else max 0 (min (sumD / sumI) 1)

namespace PrefixStat

/-- The windows that have ended. -/
def ended (stat : PrefixStat) (nowMs windowMs : Nat) : Nat :=
  (nowMs - stat.lastRollMs.getD nowMs) / windowMs

/-- Folded once for each window that has ended. -/
def decayed (stat : PrefixStat) (nowMs windowMs : Nat) : PrefixStat :=
  { fold^[stat.ended nowMs windowMs] stat with
    lastRollMs := some (stat.lastRollMs.getD nowMs + stat.ended nowMs windowMs * windowMs) }

end PrefixStat

namespace ClTree

variable (tree : ClTree) (observed : List Observation)

def hear (windowMs : Nat) (found : Option PrefixStat) (seen : Observation) : Option PrefixStat :=
  some (((found.getD .new).decayed seen.nowMs windowMs).count seen.seen)

/-- The observations of a prefix. -/
def observedOf (key : Prefix) : List Observation := observed.filter fun seen => seen.key = key

/-- The rates of a prefix that its observations alone make. -/
def rates (key : Prefix) (nowMs : Nat) : PrefixStat :=
  (((observedOf observed key).foldl (hear tree.windowMs) (valueAt tree.map key)).getD .new).decayed
    nowMs tree.windowMs

/-- The prefixes that a tree holds or that are observed, of those with `under` as a prefix. -/
def prefixesUnder (under : Prefix) : Finset Prefix :=
  (tree.map.map Prod.fst ++ observed.map Observation.key).toFinset.filter fun key => under <+: key

/-- When the windows of a prefix begin. -/
def epoch (key : Prefix) : Option Nat :=
  ((valueAt tree.map key).bind PrefixStat.lastRollMs).or
    ((observedOf observed key).head?.map Observation.nowMs)

/-- From each observation of a prefix to the next, and to now, fewer windows end than are folded. -/
def KeptAlive (key : Prefix) (nowMs : Nat) : Prop :=
  ∀ epoch ∈ tree.epoch observed key,
    (epoch :: (observedOf observed key).map Observation.nowMs ++ [nowMs]).IsChain fun a b =>
      (b - epoch) / tree.windowMs < (a - epoch) / tree.windowMs + maxFolds

end ClTree

/-! ### A roll folds the windows that have ended -/

namespace PrefixStat

variable {stat : PrefixStat} {last windowMs : Nat}

theorem fold_emptied (winI : stat.winI = 0) (winD : stat.winD = 0) : stat.fold = stat.decay := by
  rcases stat with ⟨_, _, sI, sD, _⟩
  subst winI winD
  unfold fold decay
  simp only [Nat.cast_zero, mul_zero, zero_add]
  rw [mul_comm sI, mul_comm sD]

theorem iterate_decay_counts (n : Nat) :
    (decay^[n] stat).winI = stat.winI ∧ (decay^[n] stat).winD = stat.winD := by
  induction n with
  | zero => exact ⟨rfl, rfl⟩
  | succ n ih =>
    rw [iterate_succ_apply']
    exact ih

/-- After the first fold the windows that end are empty. -/
theorem iterate_fold (stat : PrefixStat) (n : Nat) : fold^[n + 1] stat = decay^[n] stat.fold := by
  induction n with
  | zero => rfl
  | succ n ih =>
    have counts := @iterate_decay_counts stat.fold n
    rw [iterate_succ_apply', ih, iterate_succ_apply']
    exact fold_emptied counts.1 counts.2

theorem iterate_fold_begins (begins : Option Nat) (n : Nat) :
    fold^[n] { stat with lastRollMs := begins } = { fold^[n] stat with lastRollMs := begins } := by
  induction n with
  | zero => rfl
  | succ n ih =>
    rw [iterate_succ_apply', ih, iterate_succ_apply']
    rfl

theorem ended_of_begun (begun : stat.lastRollMs = some last) (nowMs windowMs : Nat) :
    stat.ended nowMs windowMs = (nowMs - last) / windowMs := by
  rw [ended, begun, Option.getD_some]

theorem decayed_lastRollMs (begun : stat.lastRollMs = some last) (nowMs : Nat) :
    (stat.decayed nowMs windowMs).lastRollMs =
      some (last + (nowMs - last) / windowMs * windowMs) := by
  rw [decayed, ended_of_begun begun, begun, Option.getD_some]

theorem decayed_of_not_ended (begun : stat.lastRollMs = some last) {nowMs : Nat}
    (none : (nowMs - last) / windowMs = 0) : stat.decayed nowMs windowMs = stat := by
  rw [decayed, ended_of_begun begun, none, begun, Option.getD_some, Nat.zero_mul, Nat.add_zero,
    ← begun]
  rfl

/-- While fewer windows have ended than are folded, a roll loses nothing. -/
theorem roll_eq_decayed (begun : stat.lastRollMs = some last) {nowMs : Nat}
    (few : (nowMs - last) / windowMs < maxFolds) :
    stat.roll nowMs windowMs = stat.decayed nowMs windowMs := by
  have small : (nowMs - last) / windowMs % 2 ^ 32 = (nowMs - last) / windowMs := by
    apply Nat.mod_eq_of_lt
    exact few.trans (by decide)
  by_cases none : (nowMs - last) / windowMs = 0
  · rw [decayed_of_not_ended begun none, roll, begun]
    dsimp only
    rw [small, none, if_pos rfl, ite_self]
  · have later : ¬ nowMs ≤ last := by
      intro early
      rw [Nat.sub_eq_zero_of_le early, Nat.zero_div] at none
      exact none rfl
    rcases Nat.exists_eq_succ_of_ne_zero none with ⟨n, folds⟩
    rw [decayed, ended_of_begun begun, roll, begun, Option.getD_some]
    dsimp only
    rw [if_neg later, small, if_neg none, if_neg (Nat.not_le.mpr few),
      Nat.min_eq_left (Nat.le_of_lt few), folds, Nat.succ_sub_one, iterate_fold]

theorem windows_from (nowMs last n windowMs : Nat) :
    (nowMs - (last + n * windowMs)) / windowMs = (nowMs - last) / windowMs - n := by
  rw [← Nat.sub_sub, Nat.mul_comm, Nat.sub_mul_div]

/-- To fold at one time and then at a later one is to fold at the later one. -/
theorem decayed_decayed {first second : Nat} (begun : stat.lastRollMs = some last)
    (ordered : first ≤ second) :
    (stat.decayed first windowMs).decayed second windowMs = stat.decayed second windowMs := by
  have between := @decayed_lastRollMs stat last windowMs begun first
  have fewer : (first - last) / windowMs ≤ (second - last) / windowMs :=
    Nat.div_le_div_right (Nat.sub_le_sub_right ordered last)
  have split := windows_from second last ((first - last) / windowMs) windowMs
  have together : (second - last) / windowMs =
      ((second - last) / windowMs - (first - last) / windowMs) + (first - last) / windowMs := by
    omega
  rw [decayed, ended_of_begun between, between, Option.getD_some, split, decayed,
    ended_of_begun begun, begun, Option.getD_some, iterate_fold_begins,
    ← iterate_add_apply, ← together, decayed, ended_of_begun begun, begun,
    Option.getD_some]
  rw [Nat.add_assoc, ← Nat.add_mul, Nat.add_comm ((first - last) / windowMs), ← together]

theorem roll_new (nowMs windowMs : Nat) : new.roll nowMs windowMs = new.decayed nowMs windowMs := by
  rw [decayed, ended, new, roll]
  simp

end PrefixStat

/-! ### A prefix whose record is read, and one that is only observed -/

/-- A record that reads have folded too, beside the one that observations alone have. -/
inductive Ahead (windowMs nowMs : Nat) : Option PrefixStat → Option PrefixStat → Prop
  | absent : Ahead windowMs nowMs none none
  | held {stat eager : PrefixStat} {last begins : Nat} (begun : stat.lastRollMs = some last)
      (eagerBegun : eager.lastRollMs = some begins) (after : begins ≤ last)
      (same : ∀ later, nowMs ≤ later → stat.decayed later windowMs = eager.decayed later windowMs) :
      Ahead windowMs nowMs (some stat) (some eager)

namespace Ahead

variable {windowMs nowMs later : Nat} {found eager : Option PrefixStat}

theorem refl (sound : ∀ stat ∈ found, stat.Sound) : Ahead windowMs nowMs found found := by
  cases found with
  | none => exact .absent
  | some stat =>
    rcases Option.isSome_iff_exists.mp (sound stat rfl).rolled with ⟨last, begun⟩
    exact .held begun begun le_rfl fun _ _ => rfl

theorem mono (ahead : Ahead windowMs nowMs found eager) (ordered : nowMs ≤ later) :
    Ahead windowMs later found eager := by
  cases ahead with
  | absent => exact .absent
  | held begun eagerBegun after same =>
    exact .held begun eagerBegun after fun still reached => same still (ordered.trans reached)

/-- While few windows have ended for the eager record, a roll of the other one folds them. -/
theorem roll_eq {stat record : PrefixStat}
    (ahead : Ahead windowMs nowMs (some stat) (some record)) (ordered : nowMs ≤ later)
    (few : record.ended later windowMs < maxFolds) :
    stat.roll later windowMs = record.decayed later windowMs := by
  cases ahead with
  | held begun eagerBegun after same =>
    rw [PrefixStat.ended_of_begun eagerBegun] at few
    have fewer :=
      (@Nat.div_le_div_right _ _ windowMs (Nat.sub_le_sub_left after later)).trans_lt few
    rw [PrefixStat.roll_eq_decayed begun fewer, same later ordered]

theorem read (ahead : Ahead windowMs nowMs found eager) (ordered : nowMs ≤ later)
    (few : ∀ record ∈ eager, record.ended later windowMs < maxFolds) :
    Ahead windowMs later (found.map fun stat => stat.roll later windowMs) eager := by
  cases ahead with
  | absent => exact .absent
  | @held stat record last begins begun eagerBegun after same =>
    have folded := roll_eq (.held begun eagerBegun after same) ordered (few record rfl)
    rw [Option.map_some, folded]
    refine .held (PrefixStat.decayed_lastRollMs eagerBegun later) eagerBegun
      (Nat.le_add_right _ _) ?_
    intro still reached
    exact PrefixStat.decayed_decayed eagerBegun reached

theorem observe (ahead : Ahead windowMs nowMs found eager) (ordered : nowMs ≤ later)
    (few : ∀ record ∈ eager, record.ended later windowMs < maxFolds) :
    (found.getD .new).roll later windowMs = (eager.getD .new).decayed later windowMs := by
  cases ahead with
  | absent => exact PrefixStat.roll_new later windowMs
  | @held stat record last begins begun eagerBegun after same =>
    exact roll_eq (.held begun eagerBegun after same) ordered (few record rfl)

end Ahead

namespace ClTree

open PrefixStat (Seen)

variable {tree : ClTree} {calls : List TreeCall} {observed : List Observation} {key under : Prefix}
  {nowMs : Nat}

@[simp] theorem step_windowMs (call : TreeCall) : (tree.step call).windowMs = tree.windowMs := by
  rcases call with ⟨_ | _, _, _⟩ | ⟨_, _⟩ <;> rfl

theorem run_windowMs (calls : List TreeCall) : (tree.run calls).windowMs = tree.windowMs := by
  induction calls generalizing tree with
  | nil => rfl
  | cons call rest ih =>
    rw [run, foldl_cons]
    exact ih.trans (step_windowMs call)

theorem step_observe (seen : Seen) (key : Prefix) (nowMs : Nat) :
    tree.step (.observe seen key nowMs) = tree.observe seen key nowMs := by
  cases seen <;> rfl

theorem valueAt_observe (seen : Seen) (other : Prefix) :
    valueAt (tree.observe seen other nowMs).map key =
      if key = other then
        some ((((valueAt tree.map other).getD .new).roll nowMs tree.windowMs).count seen)
      else valueAt tree.map key :=
  (valueAt_enter tree.ordered key).trans (ite_congr rfl (fun _ => rfl) fun _ => rfl)

theorem valueAt_ccs : valueAt (tree.ccs under nowMs).2.map key =
    (valueAt tree.map key).map fun stat =>
      if startsWith key under then stat.roll nowMs tree.windowMs else stat :=
  valueAt_changeScanned (isRange_startsWith under) tree.ordered
    (fun stat => stat.roll nowMs tree.windowMs) key

theorem observedOf_cons {seen : Observation} :
    observedOf (seen :: observed) key =
      if seen.key = key then seen :: observedOf observed key else observedOf observed key := by
  rw [observedOf, filter_cons]
  split
  · next same => rw [if_pos (of_decide_eq_true same), observedOf]
  · next other => rw [if_neg fun same => other (decide_eq_true same), observedOf]

/-- `b` is fewer windows after `a` than are folded. -/
def Soon (windowMs epoch a b : Nat) : Prop :=
  (b - epoch) / windowMs < (a - epoch) / windowMs + maxFolds

/-- The record is in the window of `a`. -/
def InWindowOf (windowMs epoch a : Nat) (stat : PrefixStat) : Prop :=
  stat.lastRollMs = some (epoch + (a - epoch) / windowMs * windowMs)

theorem InWindowOf.few {windowMs epoch a b c : Nat} {stat : PrefixStat}
    (within : InWindowOf windowMs epoch a stat) (soon : Soon windowMs epoch a c) (before : b ≤ c) :
    stat.ended b windowMs < maxFolds := by
  have fewer : (b - epoch) / windowMs ≤ (c - epoch) / windowMs :=
    Nat.div_le_div_right (Nat.sub_le_sub_right before epoch)
  have positive : 0 < maxFolds := by decide
  unfold Soon at soon
  rw [PrefixStat.ended_of_begun within, PrefixStat.windows_from]
  omega

theorem InWindowOf.next {windowMs epoch a b : Nat} {stat : PrefixStat}
    (within : InWindowOf windowMs epoch a stat)
    (ordered : (a - epoch) / windowMs ≤ (b - epoch) / windowMs) :
    InWindowOf windowMs epoch b (stat.decayed b windowMs) := by
  rw [InWindowOf, PrefixStat.decayed_lastRollMs within, PrefixStat.windows_from, Nat.add_assoc,
    ← Nat.add_mul, Nat.add_sub_cancel' ordered]

theorem inWindowOf_new {windowMs epoch : Nat} :
    InWindowOf windowMs epoch epoch (PrefixStat.new.decayed epoch windowMs) := by
  rw [InWindowOf, PrefixStat.decayed, PrefixStat.ended, PrefixStat.new, Option.getD_none,
    Nat.sub_self, Nat.zero_div]

@[simp] theorem count_lastRollMs (stat : PrefixStat) (seen : Seen) :
    (stat.count seen).lastRollMs = stat.lastRollMs := by
  cases seen <;> rfl

theorem nowMs_of_observedOf {seen : Observation}
    (among : seen ∈ observedOf (calls.filterMap TreeCall.observation) key) :
    seen.nowMs ∈ calls.map TreeCall.nowMs := by
  rcases mem_filterMap.mp (mem_filter.mp among).1 with ⟨call, called, observes⟩
  refine mem_map.mpr ⟨call, called, ?_⟩
  cases call with
  | ccs under nowMs => cases observes
  | observe sort key nowMs =>
    cases observes
    rfl

/-- What stands between the two records of a prefix and the calls that are still to come. -/
structure Coming (tree : ClTree) (key : Prefix) (calls : List TreeCall) (nowMs : Nat)
    (eager : Option PrefixStat) (clock epoch a : Nat) : Prop where
  ahead : Ahead tree.windowMs clock (valueAt tree.map key) eager
  within : ∀ record ∈ eager, InWindowOf tree.windowMs epoch a record
  first : eager = none → a = epoch ∧
    ∀ seen ∈ (observedOf (calls.filterMap TreeCall.observation) key).head?, seen.nowMs = epoch
  after : (a - epoch) / tree.windowMs ≤ (clock - epoch) / tree.windowMs
  ordered : (clock :: (calls.map TreeCall.nowMs ++ [nowMs])).Pairwise (· ≤ ·)
  soon : (a :: ((observedOf (calls.filterMap TreeCall.observation) key).map Observation.nowMs ++
    [nowMs])).IsChain (Soon tree.windowMs epoch)

namespace Coming

variable {call : TreeCall} {eager : Option PrefixStat} {clock clock' epoch a : Nat}

theorem clock_le (coming : Coming tree key (call :: calls) nowMs eager clock epoch a) :
    clock ≤ call.nowMs :=
  rel_of_pairwise_cons coming.ordered mem_cons_self

theorem ordered_rest (coming : Coming tree key (call :: calls) nowMs eager clock epoch a) :
    (call.nowMs :: (calls.map TreeCall.nowMs ++ [nowMs])).Pairwise (· ≤ ·) :=
  (pairwise_cons.mp coming.ordered).2

/-- The next observation of the prefix, or the end, is soon after the last one. -/
theorem few (coming : Coming tree key calls nowMs eager clock epoch a) {b : Nat}
    (before : ∀ c ∈ calls.map TreeCall.nowMs ++ [nowMs], b ≤ c) :
    ∀ record ∈ eager, record.ended b tree.windowMs < maxFolds := by
  intro record found
  have within := coming.within record found
  have times : ∀ c ∈ (observedOf (calls.filterMap TreeCall.observation) key).map
      Observation.nowMs ++ [nowMs], b ≤ c := by
    intro c among
    apply before
    rcases mem_append.mp among with observes | last
    · rcases mem_map.mp observes with ⟨seen, held, rfl⟩
      exact mem_append_left _ (nowMs_of_observedOf held)
    · exact mem_append_right _ last
  have soon := coming.soon
  rcases exists_cons_of_ne_nil (concat_ne_nil nowMs
    ((observedOf (calls.filterMap TreeCall.observation) key).map Observation.nowMs)) with
    ⟨c, rest, upcoming⟩
  rw [upcoming] at soon times
  exact within.few (isChain_cons_cons.mp soon).1 (times c mem_cons_self)

/-- No call that is still to come is before the next one. -/
theorem next_le (coming : Coming tree key (call :: calls) nowMs eager clock epoch a) :
    ∀ c ∈ (call :: calls).map TreeCall.nowMs ++ [nowMs], call.nowMs ≤ c := by
  intro c among
  rcases mem_cons.mp among with rfl | later
  · exact le_rfl
  · exact rel_of_pairwise_cons coming.ordered_rest later

theorem after_next (coming : Coming tree key (call :: calls) nowMs eager clock epoch a) :
    (a - epoch) / tree.windowMs ≤ (call.nowMs - epoch) / tree.windowMs :=
  coming.after.trans (Nat.div_le_div_right (Nat.sub_le_sub_right coming.clock_le epoch))

theorem read (coming : Coming tree key (.ccs under clock' :: calls) nowMs eager clock epoch a) :
    Coming (tree.ccs under clock').2 key calls nowMs eager clock' epoch a := by
  refine ⟨?_, coming.within, coming.first, coming.after_next, coming.ordered_rest, coming.soon⟩
  rw [valueAt_ccs]
  by_cases visited : startsWith key under
  · simp only [if_pos visited]
    exact coming.ahead.read coming.clock_le (coming.few coming.next_le)
  · simp only [if_neg visited, Option.map_id']
    exact coming.ahead.mono coming.clock_le

theorem other {seen : Seen} {another : Prefix} (apart : key ≠ another)
    (coming : Coming tree key (.observe seen another clock' :: calls) nowMs eager clock epoch a) :
    Coming (tree.observe seen another clock') key calls nowMs eager clock' epoch a := by
  have same : observedOf ((TreeCall.observe seen another clock' :: calls).filterMap
      TreeCall.observation) key = observedOf (calls.filterMap TreeCall.observation) key :=
    observedOf_cons.trans (if_neg apart.symm)
  refine ⟨?_, coming.within, ?_, coming.after_next, coming.ordered_rest, ?_⟩
  · rw [valueAt_observe, if_neg apart]
    exact coming.ahead.mono coming.clock_le
  · rw [← same]
    exact coming.first
  · rw [← same]
    exact coming.soon

theorem observe {seen : Seen}
    (coming : Coming tree key (.observe seen key clock' :: calls) nowMs eager clock epoch a) :
    Coming (tree.observe seen key clock') key calls nowMs
      (hear tree.windowMs eager ⟨seen, key, clock'⟩) clock' epoch clock' := by
  have same : observedOf ((TreeCall.observe seen key clock' :: calls).filterMap
      TreeCall.observation) key =
        ⟨seen, key, clock'⟩ :: observedOf (calls.filterMap TreeCall.observation) key :=
    observedOf_cons.trans (if_pos rfl)
  have soon := coming.soon
  have first := coming.first
  rw [same] at soon first
  have window : InWindowOf tree.windowMs epoch clock'
      ((eager.getD .new).decayed clock' tree.windowMs) := by
    cases found : eager with
    | none =>
      have starts := (first found).2 _ rfl
      dsimp only at starts
      rw [Option.getD_none, starts]
      exact inWindowOf_new
    | some record => exact (coming.within record found).next coming.after_next
  have rolled := coming.ahead.observe coming.clock_le (coming.few coming.next_le)
  refine ⟨?_, ?_, ?_, le_rfl, coming.ordered_rest, (isChain_cons_cons.mp soon).2⟩
  · rw [valueAt_observe, if_pos rfl]
    dsimp only [TreeCall.nowMs] at rolled
    rw [rolled, hear]
    have begun := (count_lastRollMs _ seen).trans window
    exact .held begun begun le_rfl fun _ _ => rfl
  · rintro record ⟨⟩
    exact (count_lastRollMs _ seen).trans window
  · intro missing
    cases missing

/-- The eager record hears of the observations alone. -/
theorem run (coming : Coming tree key calls nowMs eager clock epoch a) :
    ∃ clock' a', Coming (tree.run calls) key [] nowMs
      ((observedOf (calls.filterMap TreeCall.observation) key).foldl (hear tree.windowMs) eager)
      clock' epoch a' := by
  induction calls generalizing tree eager clock a with
  | nil => exact ⟨clock, a, coming⟩
  | cons call calls ih =>
    rw [ClTree.run, foldl_cons]
    cases call with
    | ccs under clock' => exact ih coming.read
    | observe seen another clock' =>
      have heard : (TreeCall.observe seen another clock' :: calls).filterMap
          TreeCall.observation =
            ⟨seen, another, clock'⟩ :: calls.filterMap TreeCall.observation := rfl
      rw [step_observe, heard, observedOf_cons]
      by_cases same : another = key
      · subst same
        rw [if_pos rfl]
        exact ih coming.observe
      · rw [if_neg same]
        exact ih (coming.other (Ne.symm same))

end Coming

/-- The record of a prefix as a reading at a time makes it. -/
def rolled (tree : ClTree) (key : Prefix) (nowMs : Nat) : PrefixStat :=
  ((valueAt tree.map key).getD .new).roll nowMs tree.windowMs

theorem coming_start
    (ordered : (calls.map TreeCall.nowMs ++ [nowMs]).Pairwise (· ≤ ·))
    (alive : tree.KeptAlive (calls.filterMap TreeCall.observation) key nowMs) :
    ∃ epoch, Coming tree key calls nowMs (valueAt tree.map key) 0 epoch epoch := by
  have ahead : Ahead tree.windowMs 0 (valueAt tree.map key) (valueAt tree.map key) :=
    Ahead.refl fun stat found => tree.sound _ (mem_of_valueAt found)
  have clocks : (0 :: (calls.map TreeCall.nowMs ++ [nowMs])).Pairwise (· ≤ ·) :=
    pairwise_cons.mpr ⟨fun _ _ => Nat.zero_le _, ordered⟩
  have same : ∀ epoch : Nat, (epoch - epoch) / tree.windowMs = 0 := by
    intro epoch
    rw [Nat.sub_self, Nat.zero_div]
  cases found : valueAt tree.map key with
  | some stat =>
    rw [found] at ahead
    have sound := tree.sound _ (mem_of_valueAt found)
    rcases Option.isSome_iff_exists.mp sound.rolled with ⟨epoch, begun⟩
    have started : tree.epoch (calls.filterMap TreeCall.observation) key = some epoch := by
      rw [ClTree.epoch, found, Option.bind_some, begun, Option.some_or]
    refine ⟨epoch, found ▸ ahead, ?_, ?_, ?_, clocks, alive _ started⟩
    · rintro record ⟨⟩
      rw [InWindowOf, same, Nat.zero_mul]
      exact begun
    · rintro ⟨⟩
    · rw [same]
      exact Nat.zero_le _
  | none =>
    rw [found] at ahead
    cases first : (observedOf (calls.filterMap TreeCall.observation) key).head? with
    | none =>
      have nothing := List.head?_eq_none_iff.mp first
      refine ⟨nowMs, found ▸ ahead, ?_, fun _ => ⟨rfl, ?_⟩, ?_, clocks, ?_⟩
      · rintro _ ⟨⟩
      · rw [first]
        rintro _ ⟨⟩
      · rw [same]
        exact Nat.zero_le _
      · rw [nothing]
        refine isChain_pair.mpr ?_
        exact Nat.lt_add_of_pos_right (by decide)
    | some seen =>
      have started : tree.epoch (calls.filterMap TreeCall.observation) key =
          some seen.nowMs := by
        rw [ClTree.epoch, found, Option.bind_none, Option.none_or, first, Option.map_some]
      refine ⟨seen.nowMs, found ▸ ahead, ?_, fun _ => ⟨rfl, ?_⟩, ?_, clocks, alive _ started⟩
      · rintro _ ⟨⟩
      · rw [first]
        rintro _ ⟨⟩
        rfl
      · rw [same]
        exact Nat.zero_le _

/-- A reading finds the rates that observations alone make. -/
theorem rolled_run (ordered : (calls.map TreeCall.nowMs ++ [nowMs]).Pairwise (· ≤ ·))
    (alive : tree.KeptAlive (calls.filterMap TreeCall.observation) key nowMs) :
    (tree.run calls).rolled key nowMs =
      tree.rates (calls.filterMap TreeCall.observation) key nowMs := by
  rcases coming_start ordered alive with ⟨epoch, start⟩
  rcases start.run with ⟨clock, a, coming⟩
  have window := @run_windowMs tree calls
  have last := rel_of_pairwise_cons coming.ordered mem_cons_self
  have found := coming.ahead.observe last
    (coming.few fun c among => (mem_singleton.mp among).ge)
  rw [rolled, found, rates, window]

theorem mem_keys_step (call : TreeCall) : key ∈ (tree.step call).map.map Prod.fst ↔
    key ∈ tree.map.map Prod.fst ∨ ∃ seen ∈ call.observation, key = seen.key := by
  cases call with
  | ccs under nowMs =>
    have keys := keys_map_values (fun key stat =>
      if startsWith key under then PrefixStat.roll stat nowMs tree.windowMs else stat) tree.map
    have changed := changeScanned_eq (isRange_startsWith under) tree.ordered
      (fun stat => PrefixStat.roll stat nowMs tree.windowMs)
    change key ∈ (changeScanned tree.map under (fun key => startsWith key under)
      fun stat => stat.roll nowMs tree.windowMs).map Prod.fst ↔ _
    rw [changed, keys]
    refine (or_iff_left ?_).symm
    rintro ⟨_, impossible, _⟩
    cases impossible
  | observe seen other nowMs =>
    rw [step_observe]
    refine mem_keys_enter.trans (or_comm.trans (or_congr Iff.rfl ?_))
    constructor
    · intro same
      exact ⟨_, rfl, same⟩
    · rintro ⟨_, ⟨⟩, same⟩
      exact same

theorem mem_keys_run : key ∈ (tree.run calls).map.map Prod.fst ↔
    key ∈ tree.map.map Prod.fst ++
      (calls.filterMap TreeCall.observation).map Observation.key := by
  induction calls generalizing tree with
  | nil =>
    rw [filterMap_nil, map_nil, append_nil]
    rfl
  | cons call calls ih =>
    rw [run, foldl_cons]
    refine ih.trans ?_
    rw [mem_append, mem_keys_step, mem_append, or_assoc]
    refine or_congr Iff.rfl ?_
    rw [filterMap_cons]
    cases call.observation with
    | none => simp
    | some seen => simp

theorem prefixesUnder_run : (tree.run calls).prefixesUnder [] under =
    tree.prefixesUnder (calls.filterMap TreeCall.observation) under := by
  ext key
  rw [prefixesUnder, prefixesUnder, Finset.mem_filter, Finset.mem_filter, mem_toFinset,
    mem_toFinset, ← mem_keys_run, map_nil, append_nil]

theorem score_eq {sumI sumD : ℚ} (interests : 0 ≤ sumI) (data : 0 ≤ sumD) :
    (if sumI ≤ 0 then if 0 < sumD then 1 else 0 else max 0 (min (sumD / sumI) 1)) =
      score sumI sumD := by
  unfold score
  by_cases none : sumI = 0
  · rw [if_pos none.le, if_pos none]
    by_cases nothing : sumD = 0
    · rw [if_pos nothing, if_neg nothing.not_gt]
    · rw [if_neg nothing, if_pos (lt_of_le_of_ne data (Ne.symm nothing))]
  · rw [if_neg none, if_neg (not_le.mpr (lt_of_le_of_ne interests (Ne.symm none)))]

/-- The entries that a reading visits, summed. -/
theorem sum_scanned (tree : ClTree) (under : Prefix) (nowMs : Nat) (rate : PrefixStat → ℚ) :
    (((scan tree.map under fun key => startsWith key under).map fun entry =>
      entry.2.roll nowMs tree.windowMs).map rate).sum =
        ∑ key ∈ tree.prefixesUnder [] under, rate (tree.rolled key nowMs) := by
  have scanned := scan_eq_filter (isRange_startsWith under) tree.ordered
  have keys : tree.prefixesUnder [] under =
      ((tree.map.filter fun entry => startsWith entry.1 under).map Prod.fst).toFinset := by
    ext key
    rw [prefixesUnder, Finset.mem_filter, mem_toFinset, mem_toFinset, map_nil,
      append_nil]
    simp only [mem_map, mem_filter, ← startsWith_iff]
    constructor
    · rintro ⟨⟨entry, among, rfl⟩, starts⟩
      exact ⟨entry, ⟨among, starts⟩, rfl⟩
    · rintro ⟨entry, ⟨among, starts⟩, rfl⟩
      exact ⟨⟨entry, among, rfl⟩, starts⟩
  have nodup : ((tree.map.filter fun entry => startsWith entry.1 under).map Prod.fst).Nodup :=
    tree.ordered.nodup.sublist (filter_sublist.map _)
  rw [keys, sum_toFinset _ nodup, scanned, map_map, map_map]
  congr 1
  apply map_congr_left
  intro entry among
  have found := valueAt_of_mem tree.ordered (mem_filter.mp among).1
  rw [comp_apply, comp_apply, rolled, found, Option.getD_some]

/-- A reading scores the rates of exactly the prefixes under its own. -/
theorem ccs_eq (tree : ClTree) (under : Prefix) (nowMs : Nat) : (tree.ccs under nowMs).1 =
    score (∑ key ∈ tree.prefixesUnder [] under, (tree.rolled key nowMs).rateI)
      (∑ key ∈ tree.prefixesUnder [] under, (tree.rolled key nowMs).rateD) := by
  have sound : ∀ key, (tree.rolled key nowMs).Sound := by
    intro key
    refine PrefixStat.getD_new_roll_sound ?_ nowMs tree.windowMs
    intro stat found
    exact tree.sound _ (mem_of_valueAt found)
  rw [← sum_scanned, ← sum_scanned]
  refine score_eq ?_ ?_
  · rw [sum_scanned]
    exact Finset.sum_nonneg fun key _ => (sound key).rateI_nonneg
  · rw [sum_scanned]
    exact Finset.sum_nonneg fun key _ => (sound key).rateD_nonneg

/-- A reading scores exactly the prefixes under its own. While each of these is observed again
before its windows are given up, the score is that of the observations, whatever is read. -/
theorem ccs_of_observations (tree : ClTree) (observed : List Observation) (under : Prefix)
    (nowMs : Nat) (calls : List TreeCall) (same : calls.filterMap TreeCall.observation = observed) :
    ((tree.run calls).ccs under nowMs).1 =
        score
          (∑ key ∈ tree.prefixesUnder observed under, ((tree.run calls).rolled key nowMs).rateI)
          (∑ key ∈ tree.prefixesUnder observed under, ((tree.run calls).rolled key nowMs).rateD) ∧
      ((calls.map TreeCall.nowMs ++ [nowMs]).Pairwise (· ≤ ·) →
        (∀ key ∈ tree.prefixesUnder observed under, tree.KeptAlive observed key nowMs) →
        ((tree.run calls).ccs under nowMs).1 =
          score
            (∑ key ∈ tree.prefixesUnder observed under, (tree.rates observed key nowMs).rateI)
            (∑ key ∈ tree.prefixesUnder observed under,
              (tree.rates observed key nowMs).rateD)) := by
  subst same
  have scored := (tree.run calls).ccs_eq under nowMs
  rw [prefixesUnder_run] at scored
  refine ⟨scored, ?_⟩
  intro ordered alive
  rw [scored]
  congr 1
  · apply Finset.sum_congr rfl
    intro key among
    rw [rolled_run ordered (alive key among)]
  · apply Finset.sum_congr rfl
    intro key among
    rw [rolled_run ordered (alive key among)]

end ClTree

namespace Example

def temp : Prefix := [[97]]

/-- An Interest and its Data. -/
def once : List TreeCall := [.observe .interest temp 0, .observe .data temp 0]

/-- With a reading after 32 windows. -/
def readBetween : List TreeCall := once ++ [TreeCall.ccs temp 32]

theorem observations_readBetween : readBetween.filterMap TreeCall.observation =
    [⟨.interest, temp, 0⟩, ⟨.data, temp, 0⟩] := rfl

theorem score_63 : (((ClTree.withWindowMs 1).run readBetween).ccs temp 63).1 =
    score
      (∑ key ∈ (ClTree.withWindowMs 1).prefixesUnder [⟨.interest, temp, 0⟩, ⟨.data, temp, 0⟩] temp,
        ((ClTree.withWindowMs 1).rates [⟨.interest, temp, 0⟩, ⟨.data, temp, 0⟩] key 63).rateI)
      (∑ key ∈ (ClTree.withWindowMs 1).prefixesUnder [⟨.interest, temp, 0⟩, ⟨.data, temp, 0⟩] temp,
        ((ClTree.withWindowMs 1).rates [⟨.interest, temp, 0⟩, ⟨.data, temp, 0⟩] key 63).rateD) := by
  refine (ClTree.ccs_of_observations (ClTree.withWindowMs 1) _ temp 63 readBetween
    observations_readBetween).2 (by decide) ?_
  intro key among
  have under : key ∈ ({temp} : Finset Prefix) := among
  rw [Finset.mem_singleton] at under
  subst under
  rintro epoch ⟨⟩
  decide

/-- When a reading comes between, something is left of the rates after 64 windows, else nothing. -/
theorem reading_changes_score :
    (once.map TreeCall.nowMs ++ [64]).Pairwise (· ≤ ·) ∧
      (readBetween.map TreeCall.nowMs ++ [64]).Pairwise (· ≤ ·) ∧
      readBetween.filterMap TreeCall.observation = once.filterMap TreeCall.observation ∧
      (((ClTree.withWindowMs 1).run once).ccs temp 64).1 = 0 ∧
      (((ClTree.withWindowMs 1).run readBetween).ccs temp 64).1 = 1 := by
  refine ⟨by decide, by decide, rfl, ?_, ?_⟩
  · decide +kernel
  · decide +kernel

end Example
end NdnExt.Strategy
