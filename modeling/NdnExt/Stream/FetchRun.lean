import NdnExt.Stream.Fetch

/-! Runs of a fetcher, with what its caller sees of every sequence number. -/

namespace NdnExt.Stream

open NdnExt.Lib

inductive FetcherCall where
  | actions (nowMs : Nat)
  | onData (nowMs seq : Nat)
  | onNack (seq : Nat)
  | markHave (seq : Nat)
  | onCursor (seq : Nat)
  | onFrontier (seq : Nat)

def AdaptiveFetcher.call (fetcher : AdaptiveFetcher) :
    FetcherCall → Checked (AdaptiveFetcher × List FetchAction)
  | .actions nowMs => fetcher.actions nowMs
  | .onData nowMs seq => do return (← fetcher.onData nowMs seq, [])
  | .onNack seq => pure (fetcher.onNack seq, [])
  | .markHave seq => pure (fetcher.markHave seq, [])
  | .onCursor seq => pure (fetcher.onCursor seq, [])
  | .onFrontier seq => pure (fetcher.onFrontier seq, [])

/-- The history of one sequence number. -/
structure Seen where
  firstAt : Option Nat
  sentAt : Nat
  nackedSince : Bool
  retries : Nat
  gaveUp : Nat
  deriving DecidableEq

namespace Seen

def never : Seen := ⟨none, 0, false, 0, 0⟩

def fetched (nowMs : Nat) (seen : Seen) : Seen :=
  { seen with firstAt := seen.firstAt.or (some nowMs), sentAt := nowMs, nackedSince := false }

def retried (nowMs : Nat) (seen : Seen) : Seen :=
  { seen with sentAt := nowMs, nackedSince := false, retries := seen.retries + 1 }

def ended (seen : Seen) : Seen := { seen with gaveUp := seen.gaveUp + 1 }

def nacked (seen : Seen) : Seen := { seen with nackedSince := true }

end Seen

structure FetchLog where
  seen : Nat → Seen
  /-- The first fetches, in the order in which they were issued. -/
  issued : List Nat
  /-- What was measured on sequence numbers that arrived without a retransmission. -/
  samples : List Nat

namespace FetchLog

def empty : FetchLog := ⟨fun _ => Seen.never, [], []⟩

def update (log : FetchLog) (seq : Nat) (change : Seen → Seen) : FetchLog :=
  { log with seen := Function.update log.seen seq (change (log.seen seq)) }

def see (nowMs : Nat) (log : FetchLog) : FetchAction → FetchLog
  | .fetch seq false =>
    { log.update seq (Seen.fetched nowMs) with issued := log.issued ++ [seq] }
  | .fetch seq true => log.update seq (Seen.retried nowMs)
  | .giveUp seq => log.update seq Seen.ended

/-- The time from the first fetch to the arrival, if nothing was sent again. -/
def measured (log : FetchLog) (nowMs seq : Nat) : List Nat :=
  if (log.seen seq).retries = 0 then
    (log.seen seq).firstAt.toList.map (fun sentAt => max (nowMs - sentAt) 1)
  else []

/-- What the caller notes of a call: a nack of a request under way, or its arrival. -/
def note (log : FetchLog) (fetcher : AdaptiveFetcher) : FetcherCall → FetchLog
  | .onData nowMs seq =>
    if seq ∈ fetcher.outstanding then
      { log with samples := log.samples ++ log.measured nowMs seq }
    else log
  | .onNack seq =>
    if seq ∈ fetcher.outstanding then log.update seq Seen.nacked
    else log
  | _ => log

end FetchLog

def FetcherCall.clock : FetcherCall → Nat
  | .actions nowMs => nowMs
  | .onData nowMs _ => nowMs
  | _ => 0

structure FetchRun where
  fetcher : AdaptiveFetcher
  log : FetchLog

namespace FetchRun

def start (firstSeq : Nat) (cfg : FetcherConfig) : FetchRun := ⟨.new firstSeq cfg, .empty⟩

/-- A call that panics returns nothing, and the run goes on as if without it. -/
def step (run : FetchRun) (call : FetcherCall) : FetchRun :=
  match run.fetcher.call call with
  | .ok (next, acts) =>
    { fetcher := next
      log := acts.foldl (FetchLog.see call.clock) (run.log.note run.fetcher call) }
  | _ => run

end FetchRun

/-- A request under way, as its caller has seen it. A nack makes it look as old as the clock. -/
structure Knows (out : Outstanding) (seen : Seen) : Prop where
  retries : out.retries = seen.retries
  sentAt : out.sentAtMs = if seen.nackedSince then 0 else seen.sentAt
  first : seen.retries = 0 → seen.firstAt = some seen.sentAt
  live : seen.gaveUp = 0

structure Tracks (fetcher : AdaptiveFetcher) (log : FetchLog) : Prop where
  held : ∀ seq out, fetcher.outstanding.lookup seq = some out →
    Knows out (log.seen seq) ∧ seq < fetcher.nextToRequest
  fresh : ∀ seq, fetcher.nextToRequest ≤ seq → log.seen seq = Seen.never
  issued : ∀ seq ∈ log.issued, seq < fetcher.nextToRequest
  increasing : log.issued.Pairwise (· < ·)
  budget : ∀ seq, (log.seen seq).retries ≤ fetcher.cfg.maxRetries ∧ (log.seen seq).gaveUp ≤ 1

namespace FetchLog

@[simp] theorem seen_update (log : FetchLog) (seq other : Nat) (change : Seen → Seen) :
    (log.update seq change).seen other =
      if other = seq then change (log.seen seq) else log.seen other :=
  Function.update_apply _ _ _ _

end FetchLog

namespace Tracks

variable {fetcher : AdaptiveFetcher} {log : FetchLog}

theorem start (firstSeq : Nat) (cfg : FetcherConfig) : Tracks (.new firstSeq cfg) .empty where
  held := by simp [AdaptiveFetcher.new]
  fresh := fun _ _ => rfl
  issued := List.forall_mem_nil _
  increasing := List.Pairwise.nil
  budget := fun _ => ⟨Nat.zero_le _, Nat.zero_le _⟩

section

variable (tracks : Tracks fetcher log)
include tracks

/-- Dropping requests, and skipping sequence numbers, loses nothing the caller was told. -/
theorem dropped {after : AdaptiveFetcher}
    (cfg : after.cfg = fetcher.cfg) (next : fetcher.nextToRequest ≤ after.nextToRequest)
    (kept : ∀ seq out, after.outstanding.lookup seq = some out →
      fetcher.outstanding.lookup seq = some out) : Tracks after log := by
  constructor
  · intro seq out found
    obtain ⟨knows, below⟩ := tracks.held seq out (kept seq out found)
    exact ⟨knows, lt_of_lt_of_le below next⟩
  · intro seq beyond
    exact tracks.fresh seq (le_trans next beyond)
  · intro seq member
    exact lt_of_lt_of_le (tracks.issued seq member) next
  · exact tracks.increasing
  · rw [cfg]
    exact tracks.budget

/-- One request changes, with what its caller sees of it. -/
theorem touched {after : AdaptiveFetcher} {seq : Nat}
    {old : Outstanding} (found : fetcher.outstanding.lookup seq = some old) (change : Seen → Seen)
    (cfg : after.cfg = fetcher.cfg) (next : after.nextToRequest = fetcher.nextToRequest)
    (others : ∀ other, other ≠ seq →
      after.outstanding.lookup other = fetcher.outstanding.lookup other)
    (knows : ∀ out, after.outstanding.lookup seq = some out → Knows out (change (log.seen seq)))
    (budget : (change (log.seen seq)).retries ≤ fetcher.cfg.maxRetries ∧
      (change (log.seen seq)).gaveUp ≤ 1) : Tracks after (log.update seq change) := by
  have below := (tracks.held seq old found).2
  constructor
  · intro other out there
    rw [next, FetchLog.seen_update]
    by_cases same : other = seq
    · subst same
      rw [if_pos rfl]
      exact ⟨knows out there, below⟩
    · rw [if_neg same]
      rw [others other same] at there
      exact tracks.held other out there
  · intro other beyond
    rw [next] at beyond
    rw [FetchLog.seen_update, if_neg (by omega)]
    exact tracks.fresh other beyond
  · rw [next]
    exact tracks.issued
  · exact tracks.increasing
  · intro other
    rw [cfg, FetchLog.seen_update]
    by_cases same : other = seq
    · rw [if_pos same]
      exact budget
    · rw [if_neg same]
      exact tracks.budget other

theorem onNack (seq : Nat) :
    Tracks (fetcher.onNack seq) (log.note fetcher (.onNack seq)) := by
  simp only [AdaptiveFetcher.onNack, FetchLog.note]
  cases found : fetcher.outstanding.lookup seq with
  | none =>
    have absent : seq ∉ fetcher.outstanding := by
      simp [HashMap.mem_iff_lookup, found]
    rw [if_neg absent]
    exact tracks
  | some out =>
    have member : seq ∈ fetcher.outstanding := HashMap.mem_iff_lookup.mpr ⟨out, found⟩
    have knows := (tracks.held seq out found).1
    rw [if_pos member]
    refine tracks.touched found Seen.nacked rfl rfl ?_ ?_ (tracks.budget seq)
    · intro other different
      exact (HashMap.lookup_insert_eq _ _ _ _).trans (if_neg different)
    · intro now there
      rw [HashMap.lookup_insert_eq, if_pos rfl] at there
      cases there
      exact ⟨knows.retries, rfl, knows.first, knows.live⟩

/-- A sample changes what was measured only. -/
theorem sampled (samples : List Nat) :
    Tracks fetcher { log with samples := samples } :=
  ⟨tracks.held, tracks.fresh, tracks.issued, tracks.increasing, tracks.budget⟩

theorem onData {nowMs seq : Nat} {after : AdaptiveFetcher}
    (arrived : fetcher.onData nowMs seq = .ok after) :
    Tracks after (log.note fetcher (.onData nowMs seq)) := by
  have noted : Tracks fetcher (log.note fetcher (.onData nowMs seq)) := by
    simp only [FetchLog.note]
    split
    · exact tracks.sampled _
    · exact tracks
  unfold AdaptiveFetcher.onData at arrived
  cases found : fetcher.outstanding.lookup seq with
  | none =>
    simp only [found] at arrived
    cases arrived
    exact noted
  | some out =>
    simp only [found] at arrived
    obtain ⟨srttMs, _, later⟩ := Outcome.bind_eq_ok.mp arrived
    obtain ⟨grown, _, same⟩ := Outcome.bind_eq_ok.mp later
    cases same
    refine noted.dropped rfl le_rfl ?_
    intro other out there
    exact (HashMap.lookup_erase_eq_some.mp there).2

/-- One expiry is seen as a retry or as the end of the request. -/
theorem expire {nowMs seq : Nat} {acts : List FetchAction}
    {after : AdaptiveFetcher × List FetchAction}
    (expired : AdaptiveFetcher.expire nowMs (fetcher, acts) seq = .ok after) :
    ∃ act, after.2 = acts ++ [act] ∧ Tracks after.1 (log.see nowMs act) := by
  unfold AdaptiveFetcher.expire at expired
  cases found : fetcher.outstanding.lookup seq with
  | none =>
    simp only [found] at expired
    cases expired
  | some out =>
    have knows := (tracks.held seq out found).1
    simp only [found] at expired
    split at expired
    · cases expired
      refine ⟨.giveUp seq, rfl, tracks.touched found Seen.ended rfl rfl ?_ ?_ ?_⟩
      · intro other different
        exact (HashMap.lookup_erase_eq _ _ _).trans (if_neg different)
      · intro now there
        rw [HashMap.lookup_erase_eq, if_pos rfl] at there
        cases there
      · have live := knows.live
        exact ⟨(tracks.budget seq).1, by dsimp only [Seen.ended]; omega⟩
    · next left =>
      cases expired
      refine ⟨.fetch seq true, rfl, tracks.touched found (Seen.retried nowMs) rfl rfl ?_ ?_ ?_⟩
      · intro other different
        exact (HashMap.lookup_insert_eq _ _ _ _).trans (if_neg different)
      · intro now there
        rw [HashMap.lookup_insert_eq, if_pos rfl] at there
        cases there
        refine ⟨congrArg (· + 1) knows.retries, rfl, ?_, knows.live⟩
        intro none
        exact absurd none (Nat.succ_ne_zero _)
      · have counted := knows.retries
        refine ⟨?_, (tracks.budget seq).2⟩
        dsimp only [Seen.retried]
        omega

end

theorem expireAll {nowMs : Nat} {seqs : List Nat} {state after : AdaptiveFetcher × List FetchAction}
    (tracks : Tracks state.1 (state.2.foldl (FetchLog.see nowMs) log))
    (expired : seqs.foldlM (AdaptiveFetcher.expire nowMs) state = .ok after) :
    Tracks after.1 (after.2.foldl (FetchLog.see nowMs) log) := by
  induction seqs generalizing state with
  | nil =>
    cases expired
    exact tracks
  | cons seq rest ih =>
    rw [List.foldlM_cons] at expired
    obtain ⟨next, first, later⟩ := Outcome.bind_eq_ok.mp expired
    obtain ⟨act, acts, now⟩ := tracks.expire first
    apply ih _ later
    rw [acts, List.foldl_append]
    exact now

/-- A new request is seen as the first fetch of its sequence number. -/
theorem request (tracks : Tracks fetcher log) (nowMs : Nat) {after : AdaptiveFetcher}
    (cfg : after.cfg = fetcher.cfg) (next : after.nextToRequest = fetcher.nextToRequest + 1)
    (outstanding : after.outstanding = fetcher.outstanding.insert fetcher.nextToRequest ⟨nowMs, 0⟩) :
    Tracks after (log.see nowMs (.fetch fetcher.nextToRequest false)) := by
  have never := tracks.fresh fetcher.nextToRequest le_rfl
  constructor
  · intro seq out found
    rw [outstanding, HashMap.lookup_insert_eq] at found
    simp only [FetchLog.see, FetchLog.seen_update, next]
    by_cases new : seq = fetcher.nextToRequest
    · rw [if_pos new] at found ⊢
      cases found
      rw [never]
      exact ⟨⟨rfl, rfl, fun _ => rfl, rfl⟩, by omega⟩
    · rw [if_neg new] at found ⊢
      obtain ⟨knows, below⟩ := tracks.held seq out found
      exact ⟨knows, by omega⟩
  · intro seq beyond
    simp only [FetchLog.see, FetchLog.seen_update]
    rw [if_neg (by omega)]
    exact tracks.fresh seq (by omega)
  · intro seq member
    rcases List.mem_append.mp member with old | new
    · have below := tracks.issued seq old
      omega
    · rw [List.mem_singleton.mp new, next]
      exact Nat.lt_succ_self _
  · refine List.pairwise_append.mpr ⟨tracks.increasing, List.pairwise_singleton _ _, ?_⟩
    intro old member new alone
    rw [List.mem_singleton.mp alone]
    exact tracks.issued old member
  · intro seq
    simp only [FetchLog.see, FetchLog.seen_update, cfg]
    by_cases new : seq = fetcher.nextToRequest
    · rw [if_pos new, never]
      exact ⟨Nat.zero_le _, Nat.zero_le _⟩
    · rw [if_neg new]
      exact tracks.budget seq

theorem fill {nowMs limit fuel : Nat} {state after : AdaptiveFetcher × List FetchAction}
    (tracks : Tracks state.1 (state.2.foldl (FetchLog.see nowMs) log))
    (filled : AdaptiveFetcher.fillFuel nowMs limit fuel state = .ok after) :
    Tracks after.1 (after.2.foldl (FetchLog.see nowMs) log) := by
  induction fuel generalizing state with
  | zero =>
    cases filled
    exact tracks
  | succ fuel ih =>
    rw [AdaptiveFetcher.fillFuel] at filled
    split at filled
    · obtain ⟨next, added, later⟩ := Outcome.bind_eq_ok.mp filled
      unfold u64 at added
      split at added
      · cases added
        apply ih _ later
        rw [List.foldl_append]
        exact tracks.request nowMs rfl rfl rfl
      · cases added
    · cases filled
      exact tracks

theorem call (tracks : Tracks fetcher log) {input : FetcherCall} {after : AdaptiveFetcher}
    {acts : List FetchAction} (returned : fetcher.call input = .ok (after, acts)) :
    Tracks after (acts.foldl (FetchLog.see input.clock) (log.note fetcher input)) := by
  cases input with
  | actions nowMs =>
    obtain ⟨expired, first, second⟩ := Outcome.bind_eq_ok.mp returned
    have expiredTracks := @expireAll log nowMs _ (fetcher, []) expired tracks first
    exact expiredTracks.fill second
  | onData nowMs seq =>
    obtain ⟨next, arrived, same⟩ := Outcome.bind_eq_ok.mp returned
    cases same
    exact tracks.onData arrived
  | onNack seq =>
    cases returned
    exact tracks.onNack seq
  | markHave seq =>
    cases returned
    refine tracks.dropped rfl le_rfl ?_
    intro other out found
    exact (HashMap.lookup_erase_eq_some.mp found).2
  | onCursor seq =>
    cases returned
    refine tracks.dropped rfl (le_max_left _ _) ?_
    intro other out found
    simp only [AdaptiveFetcher.onCursor, HashMap.lookup_retain, Option.filter_eq_some_iff] at found
    exact found.1
  | onFrontier seq =>
    cases returned
    exact tracks.dropped rfl le_rfl (fun _ _ found => found)

end Tracks

theorem FetchRun.tracks_step {run : FetchRun} (tracks : Tracks run.fetcher run.log)
    (input : FetcherCall) : Tracks (run.step input).fetcher (run.step input).log := by
  unfold FetchRun.step
  split
  · next returned => exact tracks.call returned
  · exact tracks

theorem FetchRun.tracks_run (firstSeq : Nat) (cfg : FetcherConfig) (calls : List FetcherCall) :
    Tracks (calls.foldl FetchRun.step (.start firstSeq cfg)).fetcher
      (calls.foldl FetchRun.step (.start firstSeq cfg)).log := by
  induction calls using List.reverseRecOn with
  | nil => exact Tracks.start firstSeq cfg
  | append_singleton earlier input ih =>
    rw [List.foldl_append]
    exact FetchRun.tracks_step ih input

end NdnExt.Stream
