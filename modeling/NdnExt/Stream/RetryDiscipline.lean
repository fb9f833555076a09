import NdnExt.Lib.Run
import NdnExt.Stream.FetchRun
import Mathlib.Data.List.Range

/-! When a sequence number is requested, requested again and given up. -/

namespace NdnExt.Stream

open NdnExt.Lib List AdaptiveFetcher FetchAction

namespace FetchAction

def firstFetch : FetchAction → Option Nat
  | .fetch seq false => some seq
  | _ => none

/-- The request under way that a retry or the end is about. -/
def resolved : FetchAction → Option Nat
  | .fetch seq true => some seq
  | .fetch _ false => none
  | .giveUp seq => some seq

end FetchAction

/-- What the actions of one call owe to what the run has seen before it. -/
structure Disciplined (run : FetchRun) (call : FetcherCall) (acts : List FetchAction) : Prop where
  increasing : (run.log.issued ++ acts.filterMap FetchAction.firstFetch).Pairwise (· < ·)
  limited : ∀ seq, .fetch seq false ∈ acts →
    seq ≤ run.fetcher.cursor + run.fetcher.cfg.lookahead ∧
      ∀ known, run.fetcher.frontier = some known → seq ≤ known
  due : ∀ seq, .fetch seq true ∈ acts → (run.log.seen seq).nackedSince = true ∨
    (run.log.seen seq).sentAt + run.fetcher.rtoMs ≤ call.clock
  budget : ∀ seq, .fetch seq true ∈ acts →
    (run.log.seen seq).retries < run.fetcher.cfg.maxRetries ∧ (run.log.seen seq).gaveUp = 0
  single : ∀ seq, .giveUp seq ∈ acts → (run.log.seen seq).gaveUp = 0
  once : (acts.filterMap FetchAction.resolved).Nodup
  prompt : ∀ nowMs, call = .actions nowMs → ∀ seq ∈ run.fetcher.outstanding,
    (run.log.seen seq).nackedSince = true → .fetch seq true ∈ acts ∨ .giveUp seq ∈ acts

/-- While a nacked request waits, the clock of a pass is at least one timeout past its zero. -/
def ClockPastRto (run : FetchRun) : FetcherCall → Prop
  | .actions nowMs => (∃ seq ∈ run.fetcher.outstanding, (run.log.seen seq).nackedSince = true) →
    run.fetcher.rtoMs ≤ nowMs
  | _ => True

variable {fetcher : AdaptiveFetcher} {nowMs : Nat} {acts : List FetchAction} {run : FetchRun}

namespace AdaptiveFetcher

theorem mem_overdue {seq : Nat} :
    seq ∈ fetcher.overdue nowMs ↔ ∃ out, fetcher.outstanding.lookup seq = some out ∧
      fetcher.rtoMs ≤ nowMs - out.sentAtMs := by
  rw [overdue, mem_filter, (perm_insertionSort _ _).mem_iff, ← AList.mem_keys, isOverdue]
  cases found : fetcher.outstanding.lookup seq with
  | none => simp
  | some out => simp [HashMap.mem_iff_lookup, found]

/-- What becomes of an overdue request. -/
def verdict (fetcher : AdaptiveFetcher) (seq : Nat) : FetchAction :=
  if fetcher.isSpent seq then .giveUp seq else .fetch seq true

variable {state : AdaptiveFetcher × List FetchAction}

theorem expire_act {seq : Nat} {after : AdaptiveFetcher × List FetchAction}
    (expired : expire nowMs state seq = .ok after) : after.2 = state.2 ++
    [state.1.verdict seq] := by
  unfold expire at expired
  unfold verdict isSpent
  cases found : state.1.outstanding.lookup seq with
  | none =>
    rw [found] at expired
    cases expired
  | some out =>
    simp only [found] at expired ⊢
    split at expired
    · next used =>
      cases expired
      simp [used]
    · next left =>
      cases expired
      simp [left]

theorem expired_acts {seqs : List Nat} (distinct : seqs.Nodup)
    {after : AdaptiveFetcher × List FetchAction}
    (expired : seqs.foldlM (expire nowMs) state = .ok after) :
    after.2 = state.2 ++ seqs.map state.1.verdict := by
  induction seqs generalizing state with
  | nil =>
    cases expired
    exact (append_nil _).symm
  | cons seq rest ih =>
    rw [nodup_cons] at distinct
    rw [foldlM_cons] at expired
    obtain ⟨next, first, later⟩ := Outcome.bind_eq_ok.mp expired
    have same : rest.map next.1.verdict = rest.map state.1.verdict := by
      apply map_congr_left
      intro other member
      have kept := (expire_eq_ok first).2 other (fun same => distinct.1 (same ▸ member))
      rw [verdict, verdict, kept]
    rw [ih distinct.2 later, expire_act first, same, append_assoc, map_cons]
    rfl

theorem filled_acts {limit fuel : Nat} {after : AdaptiveFetcher × List FetchAction}
    (filled : fillFuel nowMs limit fuel state = .ok after) :
    after.2 = state.2 ++ (List.range' state.1.nextToRequest
      (after.1.nextToRequest - state.1.nextToRequest)).map (fun seq => .fetch seq false) := by
  induction fuel generalizing state with
  | zero =>
    cases filled
    simp
  | succ fuel ih =>
    rw [fillFuel] at filled
    split at filled
    · obtain ⟨next, added, later⟩ := Outcome.bind_eq_ok.mp filled
      have low := (fillFuel_eq_ok later).low
      have rest := ih later
      rw [(u64_eq_ok added).2] at low rest
      obtain ⟨more, count⟩ := Nat.exists_eq_add_of_lt low
      rw [rest, count, append_assoc]
      have now : state.1.nextToRequest + more + 1 - state.1.nextToRequest = more + 1 := by omega
      have then' : state.1.nextToRequest + more + 1 - (state.1.nextToRequest + 1) = more := by omega
      rw [now, then', List.range'_succ]
      rfl
    · cases filled
      simp

/-- A pass resolves what is overdue, in order, and then asks for what comes next. -/
theorem actions_acts {after : AdaptiveFetcher}
    (returned : fetcher.actions nowMs = .ok (after, acts)) :
    acts = (fetcher.overdue nowMs).map fetcher.verdict ++
      (List.range' fetcher.nextToRequest (after.nextToRequest - fetcher.nextToRequest)).map
        (fun seq => .fetch seq false) := by
  obtain ⟨expired, first, second⟩ := Outcome.bind_eq_ok.mp returned
  have ended := expired_acts (nodup_overdue fetcher nowMs) first
  have filled := filled_acts second
  have next := (expired_eq_ok (nodup_overdue fetcher nowMs) first).nextToRequest
  rw [ended, next] at filled
  exact filled

/-- The actions of a pass one kind at a time. -/
structure Passed (fetcher after : AdaptiveFetcher) (nowMs : Nat) (acts : List FetchAction) :
    Prop where
  retried : ∀ seq, .fetch seq true ∈ acts ↔
    seq ∈ fetcher.overdue nowMs ∧ fetcher.isSpent seq = false
  gaveUp : ∀ seq, .giveUp seq ∈ acts ↔ seq ∈ fetcher.overdue nowMs ∧ fetcher.isSpent seq = true
  resolved : acts.filterMap FetchAction.resolved = fetcher.overdue nowMs
  requested : acts.filterMap FetchAction.firstFetch =
    List.range' fetcher.nextToRequest (after.nextToRequest - fetcher.nextToRequest)

theorem passed {after : AdaptiveFetcher}
    (returned : fetcher.actions nowMs = .ok (after, acts)) : Passed fetcher after nowMs acts := by
  rw [actions_acts returned]
  constructor
  · intro seq
    simp only [mem_append, mem_map, verdict]
    constructor
    · rintro (⟨other, member, same⟩ | ⟨other, _, same⟩)
      · split at same
        · cases same
        · next left =>
          cases same
          exact ⟨member, Bool.eq_false_iff.mpr left⟩
      · cases same
    · rintro ⟨member, left⟩
      exact Or.inl ⟨seq, member, by simp [left]⟩
  · intro seq
    simp only [mem_append, mem_map, verdict]
    constructor
    · rintro (⟨other, member, same⟩ | ⟨other, _, same⟩)
      · split at same
        · next used =>
          cases same
          exact ⟨member, used⟩
        · cases same
      · cases same
    · rintro ⟨member, used⟩
      exact Or.inl ⟨seq, member, by simp [used]⟩
  · have each : resolved ∘ fetcher.verdict = some := by
      funext seq
      simp only [Function.comp_apply, verdict]
      split <;> rfl
    have new : resolved ∘ (fun seq => fetch seq false) =
        fun _ => none := rfl
    rw [filterMap_append, filterMap_map, filterMap_map, each, new]
    simp
  · have each : firstFetch ∘ fetcher.verdict = fun _ => none := by
      funext seq
      simp only [Function.comp_apply, verdict]
      split <;> rfl
    have new : firstFetch ∘ (fun seq => fetch seq false) = some := rfl
    rw [filterMap_append, filterMap_map, filterMap_map, each, new]
    simp

end AdaptiveFetcher

theorem le_requestLimit {seq : Nat}
    (within : seq ≤ fetcher.requestLimit) :
    seq ≤ fetcher.cursor + fetcher.cfg.lookahead ∧
      ∀ known, fetcher.frontier = some known → seq ≤ known := by
  unfold requestLimit saturatingAddU64 at within
  cases found : fetcher.frontier with
  | none =>
    simp only [found] at within
    exact ⟨le_trans within (min_le_left _ _), by intro known impossible; cases impossible⟩
  | some known =>
    simp only [found] at within
    refine ⟨by omega, ?_⟩
    intro other same
    cases same
    exact le_trans within (min_le_left _ _)

/-- A pass keeps the discipline exactly when the clock lets a nacked request be overdue. -/
theorem disciplined_actions (tracks : Tracks run.fetcher run.log)
    {after : AdaptiveFetcher}
    (returned : run.fetcher.actions nowMs = .ok (after, acts)) :
    Disciplined run (.actions nowMs) acts ↔ ClockPastRto run (.actions nowMs) := by
  have passed := passed returned
  have acted := acted returned
  have timeout : 1 ≤ run.fetcher.rtoMs := le_max_right _ _
  constructor
  · rintro disciplined ⟨seq, member, nacked⟩
    have overdue : seq ∈ run.fetcher.overdue nowMs := by
      rcases disciplined.prompt nowMs rfl seq member nacked with again | ended
      · exact ((passed.retried seq).mp again).1
      · exact ((passed.gaveUp seq).mp ended).1
    obtain ⟨out, found, late⟩ := mem_overdue.mp overdue
    exact le_trans late (Nat.sub_le _ _)
  · intro clock
    constructor
    · rw [passed.requested, pairwise_append]
      refine ⟨tracks.increasing, pairwise_lt_range', ?_⟩
      intro old member new requested
      have below := tracks.issued old member
      have above := (mem_range'_1.mp requested).1
      omega
    · intro seq new
      have requested : seq ∈ acts.filterMap firstFetch :=
        mem_filterMap.mpr ⟨_, new, rfl⟩
      rw [passed.requested, mem_range'_1] at requested
      have high := acted.high
      exact le_requestLimit (by omega)
    · intro seq again
      obtain ⟨out, found, late⟩ := mem_overdue.mp ((passed.retried seq).mp again).1
      have sent := (tracks.held seq out found).1.sentAt
      cases nacked : (run.log.seen seq).nackedSince with
      | true => exact Or.inl rfl
      | false =>
        rw [nacked] at sent
        change out.sentAtMs = (run.log.seen seq).sentAt at sent
        refine Or.inr ?_
        change _ ≤ nowMs
        omega
    · intro seq again
      obtain ⟨overdue, left⟩ := (passed.retried seq).mp again
      obtain ⟨out, found, _⟩ := mem_overdue.mp overdue
      have knows := (tracks.held seq out found).1
      refine ⟨?_, knows.live⟩
      simpa [isSpent, found, knows.retries] using left
    · intro seq ended
      obtain ⟨out, found, _⟩ := mem_overdue.mp ((passed.gaveUp seq).mp ended).1
      exact (tracks.held seq out found).1.live
    · rw [passed.resolved]
      exact nodup_overdue _ _
    · intro now same seq member nacked
      cases same
      obtain ⟨out, found⟩ := HashMap.mem_iff_lookup.mp member
      have sent := (tracks.held seq out found).1.sentAt
      rw [nacked] at sent
      change out.sentAtMs = 0 at sent
      have overdue : seq ∈ run.fetcher.overdue nowMs := by
        refine mem_overdue.mpr ⟨out, found, ?_⟩
        rw [sent]
        exact clock ⟨seq, member, nacked⟩
      cases spent : run.fetcher.isSpent seq with
      | true => exact Or.inr ((passed.gaveUp seq).mpr ⟨overdue, spent⟩)
      | false => exact Or.inl ((passed.retried seq).mpr ⟨overdue, spent⟩)

/-- The other calls do nothing themselves. -/
theorem disciplined_idle (tracks : Tracks run.fetcher run.log)
    {call : FetcherCall} (idle : ∀ nowMs, call ≠ .actions nowMs) : Disciplined run call [] where
  increasing := by simpa using tracks.increasing
  limited := by intro seq impossible; cases impossible
  due := by intro seq impossible; cases impossible
  budget := by intro seq impossible; cases impossible
  single := by intro seq impossible; cases impossible
  once := nodup_nil
  prompt := by intro nowMs same; exact absurd same (idle nowMs)

theorem disciplined_iff (tracks : Tracks run.fetcher run.log)
    {call : FetcherCall} {after : AdaptiveFetcher}
    (returned : run.fetcher.call call = .ok (after, acts)) :
    Disciplined run call acts ↔ ClockPastRto run call := by
  cases call with
  | actions nowMs => exact disciplined_actions tracks returned
  | onData nowMs seq =>
    obtain ⟨next, _, same⟩ := Outcome.bind_eq_ok.mp returned
    cases same
    exact iff_of_true (disciplined_idle tracks (by intro _ impossible; cases impossible)) trivial
  | onNack seq | markHave seq | onCursor seq | onFrontier seq =>
    cases returned
    exact iff_of_true (disciplined_idle tracks (by intro _ impossible; cases impossible)) trivial

/-- Over a run every returning call keeps the discipline exactly when each pass finds the clock
past one timeout while a nacked request waits. -/
theorem retry_discipline_iff (firstSeq : Nat) (cfg : FetcherConfig) (calls : List FetcherCall) :
    Run.Throughout FetchRun.step (.start firstSeq cfg) calls (fun run call =>
      ∀ after acts, run.fetcher.call call = .ok (after, acts) → Disciplined run call acts) ↔
    Run.Throughout FetchRun.step (.start firstSeq cfg) calls (fun run call =>
      ∀ after acts, run.fetcher.call call = .ok (after, acts) → ClockPastRto run call) := by
  refine Run.throughout_iff (fun run => Tracks run.fetcher run.log) ?_ ?_
    (Tracks.start firstSeq cfg) calls
  · intro run call tracks
    constructor
    · intro disciplined after acts returned
      exact (disciplined_iff tracks returned).mp (disciplined after acts returned)
    · intro clock after acts returned
      exact (disciplined_iff tracks returned).mpr (clock after acts returned)
  · intro run call tracks _
    exact FetchRun.tracks_step tracks call

def nackedEarly : List FetcherCall := [.actions 0, .onNack 1, .actions 10]

/-- With a clock that starts at zero, a nack is not followed by a retry. -/
theorem nack_forgotten :
    ¬∀ (firstSeq : Nat) (cfg : FetcherConfig) (calls : List FetcherCall),
      Run.Throughout FetchRun.step (.start firstSeq cfg) calls (fun run call =>
        ∀ after acts, run.fetcher.call call = .ok (after, acts) → Disciplined run call acts) := by
  intro disciplined
  have tracks := FetchRun.tracks_run 0 .default [.actions 0, .onNack 1]
  obtain ⟨⟨after, acts⟩, returned⟩ : ∃ result,
      ([.actions 0, .onNack 1].foldl FetchRun.step (.start 0 .default)).fetcher.actions 10 =
        .ok result := ⟨_, rfl⟩
  have kept := disciplined 0 .default nackedEarly [.actions 0, .onNack 1] (.actions 10) [] rfl
    after acts returned
  have clock := (disciplined_actions tracks returned).mp kept
  exact absurd (clock ⟨1, by decide, by decide⟩) (by decide)

end NdnExt.Stream
