import Mathlib.Algebra.Group.Nat.Defs
import Mathlib.Data.List.Dedup
import Mathlib.Data.List.Induction
import NdnExt.Lib.TokenBucket
import NdnExt.Link.Quotas

/-! How often a device answers the punch requests of a key, and when it dials or punches again. -/

namespace NdnExt.Link

open NdnExt.Lib

/-- Keys whose punch-request buckets are kept at most. -/
def keysMax : Nat := 1024

def punchBurst : Nat := 3

/-- In nanoseconds. -/
def punchRefill : Nat := 20 * 10 ^ 9

abbrev Bucket := TokenBucket ℚ

structure Direct where
  perKey : HashMap KeyFingerprint Bucket

structure PunchRequest where
  key : KeyFingerprint
  now : Nat
  deriving DecidableEq

namespace Direct

def start : Direct := ⟨∅⟩

/-- The buckets that stay when another key needs one: those that lack half a token or more. -/
def makeRoom (direct : Direct) (key : KeyFingerprint) : HashMap KeyFingerprint Bucket :=
  if direct.perKey.entries.length ≥ keysMax ∧ key ∉ direct.perKey then
    direct.perKey.retain fun _ bucket => bucket.tokens < (punchBurst : ℚ) - 1 / 2
  else direct.perKey

/-- Whether another punch request from a key may be answered now. -/
def admitRequest (direct : Direct) (key : KeyFingerprint) (now : Nat) : Direct × Bool :=
  let perKey := direct.makeRoom key
  let bucket := (perKey.lookup key).getD (TokenBucket.full punchBurst now)
  let taken := bucket.take (punchBurst : ℚ) (1 / punchRefill) now
  (⟨perKey.insert key taken.1⟩, taken.2)

def step (direct : Direct) (request : PunchRequest) : Direct :=
  (direct.admitRequest request.key request.now).1

/-- The requests that are admitted, of some that come one after the other. -/
def admitted (direct : Direct) : List PunchRequest → List PunchRequest
  | [] => []
  | request :: rest =>
    if (direct.admitRequest request.key request.now).2 then
      request :: (direct.step request).admitted rest
    else (direct.step request).admitted rest

/-- How many requests of a key are admitted between two times. -/
def admittedOf (requests : List PunchRequest) (key : KeyFingerprint) (first last : Nat) : Nat :=
  (start.admitted requests).countP fun request =>
    request.key = key && first ≤ request.now && request.now ≤ last

/-- What the limiter promises of some requests, in the order they come. -/
structure Limited (requests : List PunchRequest) : Prop where
  few : ∀ asked, asked <+: requests → (asked.foldl step start).perKey.entries.length ≤ keysMax
  rate : ∀ key first last, first ≤ last →
    (admittedOf requests key first last : ℚ) ≤ punchBurst + (last - first : Nat) / punchRefill
  fair : ∀ asked request, asked ++ [request] <+: requests →
    (∀ earlier ∈ asked, earlier.key = request.key →
      earlier.now + punchBurst * punchRefill ≤ request.now) →
    ((asked.foldl step start).admitRequest request.key request.now).2 = true

/-! ### The buckets of a run -/

/-- The buckets are those of the keys that asked, and each lacks a whole token or more. -/
structure Sound (direct : Direct) (asked : List PunchRequest) : Prop where
  keys : ∀ key, key ∈ direct.perKey ↔ ∃ request ∈ asked, request.key = key
  nonneg : ∀ key bucket, direct.perKey.lookup key = some bucket → 0 ≤ bucket.tokens
  spent : ∀ key bucket, direct.perKey.lookup key = some bucket →
    bucket.tokens ≤ (punchBurst : ℚ) - 1
  takenAt : ∀ key bucket, direct.perKey.lookup key = some bucket →
    ⟨key, bucket.takenAt⟩ ∈ asked

theorem start_sound : start.Sound [] where
  keys key := by simp [start]
  nonneg key bucket held := by simp [start] at held
  spent key bucket held := by simp [start] at held
  takenAt key bucket held := by simp [start] at held

theorem refill_nonneg : (0 : ℚ) ≤ 1 / punchRefill := by
  norm_num

theorem burst_large : (2 : ℚ) ≤ punchBurst := by
  unfold punchBurst
  norm_num

variable {direct : Direct} {asked : List PunchRequest}

/-- No bucket is ever dropped: a bucket is only refilled when its key asks. -/
theorem Sound.lookup_makeRoom (sound : direct.Sound asked) (key other : KeyFingerprint) :
    (direct.makeRoom key).lookup other = direct.perKey.lookup other := by
  unfold makeRoom
  split
  · rw [HashMap.lookup_retain]
    cases held : direct.perKey.lookup other with
    | none => rfl
    | some bucket =>
      have spent := sound.spent other bucket held
      apply Option.filter_some_pos
      rw [decide_eq_true_eq]
      linarith
  · rfl

/-- The bucket a request of a key takes from. -/
def bucketOf (direct : Direct) (key : KeyFingerprint) (now : Nat) : Bucket :=
  (direct.perKey.lookup key).getD (TokenBucket.full punchBurst now)

theorem Sound.admits (sound : direct.Sound asked) (key : KeyFingerprint) (now : Nat) :
    (direct.admitRequest key now).2 =
      ((direct.bucketOf key now).take (punchBurst : ℚ) (1 / punchRefill) now).2 := by
  unfold admitRequest bucketOf
  dsimp only
  rw [sound.lookup_makeRoom]

theorem Sound.lookup_step (sound : direct.Sound asked) (request : PunchRequest)
    (other : KeyFingerprint) :
    (direct.step request).perKey.lookup other =
      if other = request.key then
        some ((direct.bucketOf request.key request.now).take (punchBurst : ℚ) (1 / punchRefill)
          request.now).1
      else direct.perKey.lookup other := by
  unfold step admitRequest bucketOf
  rw [HashMap.lookup_insert_eq, sound.lookup_makeRoom, sound.lookup_makeRoom]

theorem Sound.bucketOf_nonneg (sound : direct.Sound asked) (key : KeyFingerprint) (now : Nat) :
    0 ≤ (direct.bucketOf key now).tokens := by
  unfold bucketOf
  cases held : direct.perKey.lookup key with
  | none => exact Nat.cast_nonneg _
  | some bucket => exact sound.nonneg key bucket held

theorem Sound.next (sound : direct.Sound asked) (request : PunchRequest) :
    (direct.step request).Sound (asked ++ [request]) where
  keys key := by
    rw [HashMap.mem_iff_lookup, sound.lookup_step]
    have known := (HashMap.mem_iff_lookup).symm.trans (sound.keys key)
    by_cases same : key = request.key
    · simp [same]
    · have different : ¬ request.key = key := fun equal => same equal.symm
      rw [if_neg same, known]
      simp [different]
  nonneg key bucket held := by
    rw [sound.lookup_step] at held
    split at held
    · cases held
      exact TokenBucket.take_tokens_nonneg _ refill_nonneg (Nat.cast_nonneg _)
        (sound.bucketOf_nonneg _ _) _
    · exact sound.nonneg key bucket held
  spent key bucket held := by
    rw [sound.lookup_step] at held
    split at held
    · cases held
      exact TokenBucket.take_tokens_le _ burst_large _
    · exact sound.spent key bucket held
  takenAt key bucket held := by
    rw [sound.lookup_step] at held
    rw [List.mem_append, List.mem_singleton]
    split at held
    · next same =>
      cases held
      rw [TokenBucket.take_takenAt, same]
      exact Or.inr rfl
    · exact Or.inl (sound.takenAt key bucket held)

theorem run_sound (asked : List PunchRequest) : (asked.foldl step start).Sound asked := by
  induction asked using List.reverseRecOn with
  | nil => exact start_sound
  | append_singleton asked request ih =>
    rw [List.foldl_append]
    exact ih.next request

/-- There is a bucket for each key that asked. -/
theorem run_length (asked : List PunchRequest) :
    (asked.foldl step start).perKey.entries.length =
      (asked.map PunchRequest.key).dedup.length := by
  have same : (asked.foldl step start).perKey.keys.Perm (asked.map PunchRequest.key).dedup := by
    rw [List.perm_ext_iff_of_nodup (AList.keys_nodup _) (List.nodup_dedup _)]
    intro key
    rw [List.mem_dedup, List.mem_map]
    exact (run_sound asked).keys key
  rw [← same.length_eq]
  exact (List.length_map _).symm

/-! ### How often a key is admitted -/

/-- The tokens of a key, with those of a full bucket for one that never asked. -/
def tokensOf (direct : Direct) (key : KeyFingerprint) (now : Nat) : ℚ :=
  (direct.bucketOf key now).level punchBurst (1 / punchRefill) now

theorem tokensOf_le (direct : Direct) (key : KeyFingerprint) (now : Nat) :
    direct.tokensOf key now ≤ punchBurst :=
  TokenBucket.level_le_burst _ _

theorem tokensOf_later (direct : Direct) (key : KeyFingerprint) {now later : Nat}
    (order : now ≤ later) :
    direct.tokensOf key later ≤
      direct.tokensOf key now + (later - now : Nat) * (1 / (punchRefill : ℚ)) := by
  unfold tokensOf bucketOf
  cases held : direct.perKey.lookup key with
  | none =>
    have waited : 0 ≤ ((later - now : Nat) : ℚ) * (1 / (punchRefill : ℚ)) :=
      mul_nonneg (Nat.cast_nonneg _) refill_nonneg
    rw [Option.getD_none, Option.getD_none, TokenBucket.level_full _ _ refill_nonneg,
      TokenBucket.level_full _ _ refill_nonneg]
    exact le_add_of_nonneg_right waited
  | some bucket => exact bucket.level_later refill_nonneg order

theorem Sound.tokensOf_nonneg (sound : direct.Sound asked) (key : KeyFingerprint) (now : Nat) :
    0 ≤ direct.tokensOf key now := by
  exact TokenBucket.level_nonneg _ refill_nonneg (Nat.cast_nonneg _)
    (sound.bucketOf_nonneg key now) now

theorem Sound.tokensOf_step (sound : direct.Sound asked) (request : PunchRequest) :
    (direct.step request).tokensOf request.key request.now +
        (if (direct.admitRequest request.key request.now).2 then 1 else 0) =
      direct.tokensOf request.key request.now := by
  have taken := @TokenBucket.level_take ℚ _ _ punchBurst (1 / punchRefill)
    (direct.bucketOf request.key request.now) _ request.now
  have left : (direct.step request).bucketOf request.key request.now =
      ((direct.bucketOf request.key request.now).take (punchBurst : ℚ) (1 / punchRefill)
        request.now).1 := by
    rw [bucketOf, sound.lookup_step, if_pos rfl, Option.getD_some]
  unfold tokensOf
  rw [sound.admits, left]
  exact taken

/-- A request of another key leaves the tokens of a key. -/
theorem Sound.tokensOf_other (sound : direct.Sound asked) {request : PunchRequest}
    {key : KeyFingerprint} (different : key ≠ request.key) (now : Nat) :
    (direct.step request).tokensOf key now = direct.tokensOf key now := by
  unfold tokensOf bucketOf
  rw [sound.lookup_step, if_neg different]

theorem admitted_sublist (direct : Direct) (requests : List PunchRequest) :
    (direct.admitted requests).Sublist requests := by
  induction requests generalizing direct with
  | nil => exact List.Sublist.refl _
  | cons request rest ih =>
    unfold admitted
    split
    · exact (ih _).cons_cons _
    · exact (ih _).cons _

theorem countP_admitted_cons (direct : Direct) (counted : PunchRequest → Bool)
    (request : PunchRequest) (rest : List PunchRequest) :
    (direct.admitted (request :: rest)).countP counted =
      ((direct.step request).admitted rest).countP counted +
        (if (direct.admitRequest request.key request.now).2 ∧ counted request then 1 else 0) := by
  rw [admitted]
  split
  · next admits => simp [List.countP_cons, admits]
  · next refuses => simp [refuses]

/-- From a time on, a key is admitted for the tokens it has and those that are refilled. -/
theorem Sound.admitted_le (sound : direct.Sound asked) (requests : List PunchRequest)
    (clock : requests.Pairwise fun earlier later => earlier.now ≤ later.now)
    {key : KeyFingerprint} {first last : Nat} (counted : PunchRequest → Bool)
    (counts : ∀ request, counted request = true → request.key = key ∧ request.now ≤ last)
    (begins : ∀ request ∈ requests, first ≤ request.now) (order : first ≤ last) :
    ((direct.admitted requests).countP counted : ℚ) ≤
      direct.tokensOf key first + (last - first : Nat) * (1 / (punchRefill : ℚ)) := by
  induction requests generalizing direct asked first with
  | nil =>
    have refill : 0 ≤ ((last - first : Nat) : ℚ) * (1 / (punchRefill : ℚ)) :=
      mul_nonneg (Nat.cast_nonneg _) refill_nonneg
    exact add_nonneg (sound.tokensOf_nonneg key first) refill
  | cons request rest ih =>
    have head := begins request List.mem_cons_self
    rcases List.pairwise_cons.mp clock with ⟨later, tail⟩
    by_cases late : last < request.now
    · -- the requests that are left come after the end of the time that is counted
      have none : (direct.admitted (request :: rest)).countP counted = 0 := by
        rw [List.countP_eq_zero]
        intro other among counting
        have ends := (counts other counting).2
        have after : request.now ≤ other.now := by
          rcases List.mem_cons.mp ((direct.admitted_sublist _).subset among) with rfl | inside
          · exact le_rfl
          · exact later other inside
        omega
      have refill : 0 ≤ ((last - first : Nat) : ℚ) * (1 / (punchRefill : ℚ)) :=
        mul_nonneg (Nat.cast_nonneg _) refill_nonneg
      rw [none]
      exact add_nonneg (sound.tokensOf_nonneg key first) refill
    · have inTime := Nat.not_lt.mp late
      have ahead := ih (sound.next request) tail later inTime
      have waited := direct.tokensOf_later key head
      have whole : ((last - first : Nat) : ℚ) =
          (last - request.now : Nat) + (request.now - first : Nat) := by
        rw [← Nat.cast_add]
        congr 1
        omega
      rw [whole, add_mul]
      rw [countP_admitted_cons, Nat.cast_add]
      by_cases same : request.key = key
      · have spent := sound.tokensOf_step request
        rw [same] at spent
        have one : ((if (direct.admitRequest request.key request.now).2 = true ∧
            counted request = true then 1 else 0 : Nat) : ℚ) ≤
            if (direct.admitRequest key request.now).2 then 1 else 0 := by
          rw [same]
          split
          · next both => rw [if_pos both.1, Nat.cast_one]
          · split <;> simp
        linarith
      · have other : key ≠ request.key := fun equal => same equal.symm
        have kept := sound.tokensOf_other other request.now
        have uncounted : ¬ counted request = true := fun counting =>
          same (counts request counting).1
        rw [if_neg fun both => uncounted both.2, Nat.cast_zero]
        linarith

/-- Between two times a key is admitted for a full bucket and what is refilled. -/
theorem Sound.window_le (sound : direct.Sound asked) (requests : List PunchRequest)
    (clock : requests.Pairwise fun earlier later => earlier.now ≤ later.now)
    (key : KeyFingerprint) {first last : Nat} (order : first ≤ last) :
    ((direct.admitted requests).countP fun request =>
        request.key = key && first ≤ request.now && request.now ≤ last : ℚ) ≤
      punchBurst + (last - first : Nat) * (1 / (punchRefill : ℚ)) := by
  induction requests generalizing direct asked with
  | nil =>
    have refill : 0 ≤ ((last - first : Nat) : ℚ) * (1 / (punchRefill : ℚ)) :=
      mul_nonneg (Nat.cast_nonneg _) refill_nonneg
    exact add_nonneg (Nat.cast_nonneg _) refill
  | cons request rest ih =>
    rcases List.pairwise_cons.mp clock with ⟨later, tail⟩
    by_cases early : request.now < first
    · rw [countP_admitted_cons, if_neg, add_zero]
      · exact ih (sound.next request) tail
      · intro both
        simp only [Bool.and_eq_true, decide_eq_true_eq] at both
        omega
    · have begins : ∀ other ∈ request :: rest, first ≤ other.now := by
        intro other among
        rcases List.mem_cons.mp among with rfl | inside
        · exact Nat.not_lt.mp early
        · exact (Nat.not_lt.mp early).trans (later other inside)
      have most := @Sound.admitted_le direct asked sound (request :: rest) clock key first last
        (fun request => request.key = key && first ≤ request.now && request.now ≤ last)
        (by
          intro other counted
          simp only [Bool.and_eq_true, decide_eq_true_eq] at counted
          exact ⟨counted.1.1, counted.2⟩)
        begins order
      have full := direct.tokensOf_le key first
      linarith

theorem admittedOf_le (requests : List PunchRequest)
    (clock : requests.Pairwise fun earlier later => earlier.now ≤ later.now)
    (key : KeyFingerprint) {first last : Nat} (order : first ≤ last) :
    (admittedOf requests key first last : ℚ) ≤
      punchBurst + (last - first : Nat) / punchRefill := by
  have most := start_sound.window_le requests clock key order
  rw [mul_one_div] at most
  exact most

theorem Sound.admits_idle (sound : direct.Sound asked) {request : PunchRequest}
    (idle : ∀ earlier ∈ asked, earlier.key = request.key →
      earlier.now + punchBurst * punchRefill ≤ request.now) :
    (direct.admitRequest request.key request.now).2 = true := by
  have full : direct.tokensOf request.key request.now = punchBurst := by
    unfold tokensOf bucketOf
    cases held : direct.perKey.lookup request.key with
    | none => exact TokenBucket.level_full _ _ refill_nonneg
    | some bucket =>
      apply TokenBucket.level_of_idle _ (sound.nonneg _ bucket held)
      have waited := idle _ (sound.takenAt _ bucket held) rfl
      have enough : punchBurst * punchRefill ≤ request.now - bucket.takenAt := by
        dsimp only at waited
        omega
      have cast : (punchBurst : ℚ) * punchRefill ≤ (request.now - bucket.takenAt : Nat) := by
        exact_mod_cast enough
      have positive : (0 : ℚ) < punchRefill := by
        unfold punchRefill
        norm_num
      rw [mul_one_div, le_div_iff₀ positive]
      exact cast
  rw [sound.admits, TokenBucket.take_succeeds]
  change 1 ≤ direct.tokensOf request.key request.now
  rw [full]
  exact le_trans (by norm_num) burst_large

/-- The requests of few enough keys, and of no more, are limited as promised. -/
theorem limited_iff_few_keys (requests : List PunchRequest)
    (clock : requests.Pairwise fun earlier later => earlier.now ≤ later.now) :
    Limited requests ↔ (requests.map PunchRequest.key).dedup.length ≤ keysMax := by
  constructor
  · intro limited
    rw [← run_length]
    exact limited.few requests (List.prefix_refl _)
  · intro few
    refine ⟨?_, ?_, ?_⟩
    · intro asked begins
      have subset : (asked.map PunchRequest.key).dedup ⊆
          (requests.map PunchRequest.key).dedup := by
        intro key among
        rw [List.mem_dedup] at among ⊢
        exact (begins.map PunchRequest.key).subset among
      rw [run_length]
      exact (List.subperm_of_subset (List.nodup_dedup _) subset).length_le.trans few
    · intro key first last order
      exact admittedOf_le requests clock key order
    · intro asked request _ idle
      exact (run_sound asked).admits_idle idle

/-! ### A key that asks too often, and a crowd -/

namespace Limiter

def keyOf (n : Nat) : KeyFingerprint :=
  ⟨Vector.ofFn fun i => if i.val = 0 then UInt8.ofNat n else UInt8.ofNat (n / 256)⟩

/-- Four requests of a key and one of another. -/
def few : List PunchRequest :=
  [⟨keyOf 7, 0⟩, ⟨keyOf 7, 1⟩, ⟨keyOf 9, 2⟩, ⟨keyOf 7, 5⟩, ⟨keyOf 7, 20 * 10 ^ 9⟩]

theorem few_limited : Limited few :=
  (limited_iff_few_keys few (by decide)).mpr (by decide)

/-- The buckets of these keys are full again when the next one asks. -/
def crowd : List PunchRequest :=
  (List.range 1025).map fun n => ⟨keyOf n, n * (punchBurst * punchRefill)⟩

theorem keyOf_injective {n m : Nat} (below : n < 65536) (below' : m < 65536)
    (same : keyOf n = keyOf m) : n = m := by
  have bytes := congrArg KeyFingerprint.bytes same
  have low := congrArg (fun bytes => bytes[0]) bytes
  have high := congrArg (fun bytes => bytes[1]) bytes
  simp only [keyOf, Vector.getElem_ofFn] at low high
  have low' := congrArg UInt8.toNat low
  have high' := congrArg UInt8.toNat high
  simp only [if_true, UInt8.toNat_ofNat'] at low'
  simp at high'
  omega

theorem crowd_clock : crowd.Pairwise fun earlier later => earlier.now ≤ later.now := by
  rw [crowd, List.pairwise_map]
  exact List.pairwise_lt_range.imp fun order => Nat.mul_le_mul_right _ order.le

theorem crowd_keys : (crowd.map PunchRequest.key).dedup.length = 1025 := by
  have distinct : (crowd.map PunchRequest.key).Nodup := by
    rw [crowd, List.map_map]
    apply List.Nodup.map_on _ List.nodup_range
    intro n inside m inside' same
    rw [List.mem_range] at inside inside'
    exact keyOf_injective (by omega) (by omega) same
  rw [distinct.dedup, crowd, List.length_map, List.length_map, List.length_range]

theorem crowd_not_limited :
    (crowd.Pairwise fun earlier later => earlier.now ≤ later.now) ∧ ¬ Limited crowd := by
  refine ⟨crowd_clock, ?_⟩
  intro limited
  have most := limited.few crowd (List.prefix_refl _)
  rw [run_length, crowd_keys] at most
  exact absurd most (by decide)

end Limiter
end Direct

/-! ### When to dial or to punch again -/

/-- Waits in milliseconds. -/
structure Backoff where
  next : Nat
  first : Nat
  max : Nat
  refused : Nat
  deriving DecidableEq

inductive LinkOutcome where
  | up
  | failed (refused : Bool)

namespace Backoff

def default : Backoff := ⟨500, 500, 30000, 60000⟩

def direct : Backoff := ⟨5000, 5000, 300000, 600000⟩

def reset (backoff : Backoff) : Backoff := { backoff with next := backoff.first }

/-- A refusal leaves the doubling as it was. -/
def afterFailure (backoff : Backoff) (refused : Bool) : Nat × Backoff :=
  if refused then (backoff.refused, backoff)
  else (backoff.next, { backoff with next := min (backoff.next * 2) backoff.max })

def afterDrop (backoff : Backoff) : Nat := backoff.first

def step (backoff : Backoff) : LinkOutcome → Backoff
  | .up => backoff.reset
  | .failed refused => (backoff.afterFailure refused).2

variable {backoff : Backoff}

theorem foldl_failed (capped : backoff.first ≤ backoff.max) (failures : List Bool) :
    (failures.map .failed).foldl step backoff.reset =
      { backoff with next := min (backoff.first * 2 ^ failures.count false) backoff.max } := by
  induction failures using List.reverseRecOn with
  | nil => simp [reset, capped]
  | append_singleton earlier refused ih =>
    rw [List.map_append, List.foldl_append, ih]
    cases refused with
    | true => simp [step, afterFailure]
    | false =>
      simp only [List.map_cons, List.map_nil, List.foldl_cons, List.foldl_nil, step, afterFailure,
        Bool.false_eq_true, if_false, List.count_append, List.count_singleton_self, pow_succ, ← mul_assoc]
      congr 1
      omega

theorem reset_foldl (outcomes : List LinkOutcome) :
    (outcomes.foldl step backoff).reset = backoff.reset := by
  induction outcomes generalizing backoff with
  | nil => rfl
  | cons outcome rest ih =>
    rw [List.foldl_cons, ih]
    rcases outcome with _ | _ | _ <;> rfl

/-- Whatever came before the last link that was up, the waits after it double with each failure up
to the greatest one, and a refusal waits on its own and does not count. -/
theorem wait_after (capped : backoff.first ≤ backoff.max) (earlier : List LinkOutcome)
    (failures : List Bool) (refused : Bool) :
    (((earlier ++ LinkOutcome.up :: failures.map .failed).foldl step backoff).afterFailure refused).1 =
      if refused then backoff.refused
      else min (backoff.first * 2 ^ failures.count false) backoff.max := by
  rw [List.foldl_append, List.foldl_cons]
  rw [step, reset_foldl, foldl_failed capped]
  cases refused <;> rfl

theorem wait_after_default :
    default.first ≤ default.max ∧
      ((([LinkOutcome.up, .failed true] ++ LinkOutcome.up :: [false, true, false, false].map .failed).foldl step
        default).afterFailure false).1 = 4000 :=
  ⟨by decide, wait_after (by decide) _ _ _⟩

end Backoff

end NdnExt.Link
