import NdnExt.Lib.Run
import NdnExt.Stream.FetchRun
import Mathlib.Order.MinMax

/-! The smoothed round trip time against what was measured. -/

namespace NdnExt.Stream

open NdnExt.Lib AdaptiveFetcher Outcome

/-- The estimate lies between the least and the greatest of the seed and the samples. -/
structure WithinMeasured (seed : Nat) (samples : List Nat) (srttMs : Nat) : Prop where
  low : ∃ value ∈ seed :: samples, value ≤ srttMs
  high : ∃ value ∈ seed :: samples, srttMs ≤ value

/-- No nack has touched the request that the arrival is a first transmission of. -/
def UnnackedArrival (run : FetchRun) : FetcherCall → Prop
  | .onData _ seq => seq ∈ run.fetcher.outstanding → (run.log.seen seq).retries = 0 →
    (run.log.seen seq).nackedSince = false
  | _ => True

theorem WithinMeasured.mono {seed srttMs : Nat} {samples : List Nat}
    (within : WithinMeasured seed samples srttMs) (more : List Nat) :
    WithinMeasured seed (samples ++ more) srttMs := by
  obtain ⟨⟨least, member, below⟩, ⟨most, member', above⟩⟩ := within
  exact ⟨⟨least, List.mem_append_left more member, below⟩,
    ⟨most, List.mem_append_left more member', above⟩⟩

/-- An estimate between itself and a new sample is within them all. -/
theorem WithinMeasured.toward {seed srttMs sample mean : Nat} {samples : List Nat}
    (within : WithinMeasured seed samples srttMs) (low : min srttMs sample ≤ mean)
    (high : mean ≤ max srttMs sample) : WithinMeasured seed (samples ++ [sample]) mean := by
  obtain ⟨⟨least, member, below⟩, ⟨most, member', above⟩⟩ := within.mono [sample]
  have last : sample ∈ seed :: (samples ++ [sample]) := by simp
  constructor
  · rcases min_le_iff.mp low with old | new
    · exact ⟨least, member, below.trans old⟩
    · exact ⟨sample, last, new⟩
  · rcases le_max_iff.mp high with old | new
    · exact ⟨most, member', old.trans above⟩
    · exact ⟨sample, last, new⟩

/-- A weighted mean in whole milliseconds is between its two values. -/
theorem mean_between {alpha old sample : Nat} (percent : alpha ≤ 100) (positive : 1 ≤ sample) :
    min old sample ≤ max (((100 - alpha) * old + alpha * sample) / 100) 1 ∧
      max (((100 - alpha) * old + alpha * sample) / 100) 1 ≤ max old sample := by
  have split : ∀ value, (100 - alpha) * value + alpha * value = 100 * value := by
    intro value
    rw [← Nat.add_mul, Nat.sub_add_cancel percent]
  have low : 100 * min old sample ≤ (100 - alpha) * old + alpha * sample := by
    calc 100 * min old sample
        = (100 - alpha) * min old sample + alpha * min old sample := (split _).symm
      _ ≤ (100 - alpha) * old + alpha * sample :=
        Nat.add_le_add (Nat.mul_le_mul_left _ (min_le_left _ _))
          (Nat.mul_le_mul_left _ (min_le_right _ _))
  have high : (100 - alpha) * old + alpha * sample ≤ 100 * max old sample := by
    calc (100 - alpha) * old + alpha * sample
        ≤ (100 - alpha) * max old sample + alpha * max old sample :=
        Nat.add_le_add (Nat.mul_le_mul_left _ (le_max_left _ _))
          (Nat.mul_le_mul_left _ (le_max_right _ _))
      _ = 100 * max old sample := split _
  omega

/-! ### Calls that leave the estimate alone -/

theorem srttMs_expire {nowMs seq : Nat} {state after : AdaptiveFetcher × List FetchAction}
    (expired : expire nowMs state seq = .ok after) :
    after.1.srttMs = state.1.srttMs := by
  unfold expire at expired
  split at expired
  · cases expired
  · split at expired <;> cases expired <;> rfl

theorem srttMs_expireAll {nowMs : Nat} {seqs : List Nat}
    {state after : AdaptiveFetcher × List FetchAction}
    (expired : seqs.foldlM (expire nowMs) state = .ok after) :
    after.1.srttMs = state.1.srttMs := by
  induction seqs generalizing state with
  | nil =>
    cases expired
    rfl
  | cons seq rest ih =>
    rw [List.foldlM_cons] at expired
    obtain ⟨next, first, later⟩ := bind_eq_ok.mp expired
    exact (ih later).trans (srttMs_expire first)

theorem srttMs_fillFuel {nowMs limit fuel : Nat} {state after : AdaptiveFetcher × List FetchAction}
    (filled : fillFuel nowMs limit fuel state = .ok after) :
    after.1.srttMs = state.1.srttMs := by
  induction fuel generalizing state with
  | zero =>
    cases filled
    rfl
  | succ fuel ih =>
    rw [fillFuel] at filled
    split at filled
    · obtain ⟨next, _, later⟩ := bind_eq_ok.mp filled
      have same := ih later
      exact same
    · cases filled
      rfl

theorem srttMs_onNack (fetcher : AdaptiveFetcher) (seq : Nat) :
    (fetcher.onNack seq).srttMs = fetcher.srttMs := by
  unfold onNack
  split <;> rfl

theorem samples_seeAll (nowMs : Nat) (acts : List FetchAction) (log : FetchLog) :
    (acts.foldl (FetchLog.see nowMs) log).samples = log.samples := by
  induction acts generalizing log with
  | nil => rfl
  | cons act rest ih =>
    rw [List.foldl_cons, ih]
    cases act with
    | fetch seq retry => cases retry <;> rfl
    | giveUp seq => rfl

/-! ### Arrivals -/

variable {seed : Nat} {fetcher after : AdaptiveFetcher} {log : FetchLog}

theorem sampled_eq_ok {nowMs srttMs : Nat} {out : Outstanding} (once : out.retries = 0)
    (sampled : fetcher.sampled nowMs out = .ok srttMs) :
    srttMs = max (((100 - min fetcher.cfg.rttAlphaPercent 100) * fetcher.srttMs +
      min fetcher.cfg.rttAlphaPercent 100 * max (nowMs - out.sentAtMs) 1) / 100) 1 := by
  rw [AdaptiveFetcher.sampled, if_pos once] at sampled
  obtain ⟨old, first, later⟩ := bind_eq_ok.mp sampled
  obtain ⟨new, second, later⟩ := bind_eq_ok.mp later
  obtain ⟨sum, third, same⟩ := bind_eq_ok.mp later
  cases same
  rw [(u64_eq_ok third).2, (u64_eq_ok second).2, (u64_eq_ok first).2]

/-- An arrival without a nack moves the estimate towards what was measured on it. -/
theorem within_onData (tracks : Tracks fetcher log)
    (within : WithinMeasured seed log.samples fetcher.srttMs) {nowMs seq : Nat}
    (unnacked : UnnackedArrival ⟨fetcher, log⟩ (.onData nowMs seq))
    (arrived : fetcher.onData nowMs seq = .ok after) :
    WithinMeasured seed (log.note fetcher (.onData nowMs seq)).samples after.srttMs := by
  unfold AdaptiveFetcher.onData at arrived
  simp only [FetchLog.note]
  cases found : fetcher.outstanding.lookup seq with
  | none =>
    have absent : seq ∉ fetcher.outstanding := by simp [HashMap.mem_iff_lookup, found]
    simp only [found] at arrived
    cases arrived
    rw [if_neg absent]
    exact within
  | some out =>
    have member : seq ∈ fetcher.outstanding := HashMap.mem_iff_lookup.mpr ⟨out, found⟩
    have knows := (tracks.held seq out found).1
    simp only [found] at arrived
    obtain ⟨srttMs, sampled, later⟩ := bind_eq_ok.mp arrived
    obtain ⟨grown, _, same⟩ := bind_eq_ok.mp later
    cases same
    rw [if_pos member]
    change WithinMeasured seed (log.samples ++ log.measured nowMs seq) srttMs
    by_cases once : out.retries = 0
    · have alone : (log.seen seq).retries = 0 := knows.retries.symm.trans once
      have sent : out.sentAtMs = (log.seen seq).sentAt := by
        rw [knows.sentAt, unnacked member alone]
        rfl
      have measured : log.measured nowMs seq = [max (nowMs - out.sentAtMs) 1] := by
        rw [FetchLog.measured, if_pos alone, knows.first alone, sent]
        rfl
      rw [sampled_eq_ok once sampled, measured]
      obtain ⟨low, high⟩ := @mean_between (min fetcher.cfg.rttAlphaPercent 100) fetcher.srttMs
        (max (nowMs - out.sentAtMs) 1) (min_le_right _ _) (le_max_right _ _)
      exact within.toward low high
    · rw [AdaptiveFetcher.sampled, if_neg once] at sampled
      cases sampled
      exact within.mono _

/-- What the run keeps. -/
structure Estimates (seed : Nat) (run : FetchRun) : Prop where
  tracks : Tracks run.fetcher run.log
  within : WithinMeasured seed run.log.samples run.fetcher.srttMs

theorem Estimates.step {run : FetchRun} (estimates : Estimates seed run) (input : FetcherCall)
    (unnacked : UnnackedArrival run input) : Estimates seed (run.step input) := by
  refine ⟨FetchRun.tracks_step estimates.tracks input, ?_⟩
  unfold FetchRun.step
  split
  · next after acts returned =>
    simp only [samples_seeAll]
    cases input with
    | actions nowMs =>
      obtain ⟨expired, first, second⟩ := bind_eq_ok.mp returned
      have same : after.srttMs = run.fetcher.srttMs :=
        (srttMs_fillFuel second).trans (srttMs_expireAll first)
      rw [same]
      exact estimates.within
    | onData nowMs seq =>
      obtain ⟨next, arrived, same⟩ := bind_eq_ok.mp returned
      cases same
      exact within_onData estimates.tracks estimates.within unnacked arrived
    | onNack seq =>
      cases returned
      have same : (run.log.note run.fetcher (.onNack seq)).samples = run.log.samples := by
        simp only [FetchLog.note]
        split <;> rfl
      rw [same, srttMs_onNack]
      exact estimates.within
    | markHave seq | onCursor seq | onFrontier seq =>
      cases returned
      exact estimates.within
  · exact estimates.within

/-- In a run where no first transmission arrives after a nack of it, the estimate stays within
what was measured; a nack itself leaves it alone. -/
theorem srtt_within_measured (firstSeq : Nat) (cfg : FetcherConfig) (calls : List FetcherCall)
    (unnacked : Run.Throughout FetchRun.step (.start firstSeq cfg) calls UnnackedArrival) :
    WithinMeasured (max cfg.initialRttMs 1)
      (calls.foldl FetchRun.step (.start firstSeq cfg)).log.samples
      (calls.foldl FetchRun.step (.start firstSeq cfg)).fetcher.srttMs ∧
    ∀ seq, ((calls.foldl FetchRun.step (.start firstSeq cfg)).fetcher.onNack seq).srttMs =
      (calls.foldl FetchRun.step (.start firstSeq cfg)).fetcher.srttMs := by
  have begins : Estimates (max cfg.initialRttMs 1) (.start firstSeq cfg) :=
    ⟨Tracks.start firstSeq cfg, ⟨_, List.mem_cons_self, le_rfl⟩, ⟨_, List.mem_cons_self, le_rfl⟩⟩
  have ends : Estimates (max cfg.initialRttMs 1)
      (calls.foldl FetchRun.step (.start firstSeq cfg)) := by
    refine Run.foldl_of_throughout ?_ begins unnacked
    intro run input estimates now
    exact estimates.step input now
  exact ⟨ends.within, fun seq => srttMs_onNack _ seq⟩

def arriving : List FetcherCall := [.actions 0, .onData 100 0]

theorem srtt_within_measured_arriving :
    WithinMeasured 200 (arriving.foldl FetchRun.step (.start 0 .default)).log.samples
      (arriving.foldl FetchRun.step (.start 0 .default)).fetcher.srttMs := by
  have unnacked : Run.Throughout FetchRun.step (.start 0 .default) arriving UnnackedArrival := by
    refine Run.throughout_cons.mpr ⟨trivial, Run.throughout_cons.mpr ⟨?_, Run.throughout_nil _ _⟩⟩
    intro _ _
    decide
  exact (srtt_within_measured 0 .default arriving unnacked).1

def nackedThenArriving : List FetcherCall := [.actions 1000, .onNack 0, .onData 1010 0]

/-- The nacked request arrives before it is sent again, and its sample is the clock. -/
theorem clock_taken_for_a_sample :
    ¬∀ (firstSeq : Nat) (cfg : FetcherConfig) (calls : List FetcherCall),
      WithinMeasured (max cfg.initialRttMs 1)
        (calls.foldl FetchRun.step (.start firstSeq cfg)).log.samples
        (calls.foldl FetchRun.step (.start firstSeq cfg)).fetcher.srttMs := by
  intro within
  have measured : (nackedThenArriving.foldl FetchRun.step (.start 0 .default)).log.samples = [10] := by
    decide
  have estimate : (nackedThenArriving.foldl FetchRun.step (.start 0 .default)).fetcher.srttMs = 402 := by
    decide
  obtain ⟨value, member, above⟩ := (within 0 .default nackedThenArriving).high
  rw [measured] at member
  rw [estimate] at above
  have small : ∀ value ∈ [max FetcherConfig.default.initialRttMs 1, 10], value < 402 := by decide
  exact absurd above (not_le.mpr (small value member))

end NdnExt.Stream
