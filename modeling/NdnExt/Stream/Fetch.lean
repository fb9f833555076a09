import NdnExt.Lib.Checked
import NdnExt.Lib.HashMap
import Mathlib.Data.List.Sort

/-! The windowed fetcher of a stream consumer: which sequence numbers to request and when. -/

namespace NdnExt.Stream

open NdnExt.Lib List

structure FetcherConfig where
  initialWindow : Nat
  maxWindow : Nat
  initialRttMs : Nat
  rttAlphaPercent : Nat
  timeoutMultiplier : Nat
  maxRetries : Nat
  lookahead : Nat

def FetcherConfig.default : FetcherConfig := ⟨4, 64, 200, 25, 4, 3, 256⟩

inductive FetchAction where
  | fetch (seq : Nat) (retry : Bool)
  | giveUp (seq : Nat)
  deriving DecidableEq

structure Outstanding where
  sentAtMs : Nat
  retries : Nat
  deriving DecidableEq

structure AdaptiveFetcher where
  cfg : FetcherConfig
  srttMs : Nat
  window : Nat
  nextToRequest : Nat
  cursor : Nat
  frontier : Option Nat
  outstanding : HashMap Nat Outstanding

namespace AdaptiveFetcher

def new (firstSeq : Nat) (cfg : FetcherConfig) : AdaptiveFetcher where
  cfg := cfg
  srttMs := max cfg.initialRttMs 1
  window := max cfg.initialWindow 1
  nextToRequest := firstSeq
  cursor := firstSeq
  frontier := none
  outstanding := ∅

def rtoMs (fetcher : AdaptiveFetcher) : Nat :=
  max (saturatingMulU64 fetcher.srttMs fetcher.cfg.timeoutMultiplier) 1

def onFrontier (fetcher : AdaptiveFetcher) (seq : Nat) : AdaptiveFetcher :=
  { fetcher with
    frontier := some (match fetcher.frontier with
      | none => seq
      | some known => max known seq) }

def onCursor (fetcher : AdaptiveFetcher) (seq : Nat) : AdaptiveFetcher :=
  { fetcher with
    cursor := max fetcher.cursor seq
    nextToRequest := max fetcher.nextToRequest seq
    outstanding := fetcher.outstanding.retain (fun other _ => seq ≤ other) }

/-- The smoothed round trip time, which only a first transmission updates. -/
def sampled (fetcher : AdaptiveFetcher) (nowMs : Nat) (out : Outstanding) : Checked Nat :=
  if out.retries = 0 then do
    let alpha := min fetcher.cfg.rttAlphaPercent 100
    let old ← u64 ((100 - alpha) * fetcher.srttMs)
    let new ← u64 (alpha * max (nowMs - out.sentAtMs) 1)
    let sum ← u64 (old + new)
    pure (max (sum / 100) 1)
  else pure fetcher.srttMs

def onData (fetcher : AdaptiveFetcher) (nowMs seq : Nat) : Checked AdaptiveFetcher :=
  match fetcher.outstanding.lookup seq with
  | none => pure fetcher
  | some out => do
    let srttMs ← fetcher.sampled nowMs out
    let grown ← u64 (fetcher.window + 1)
    pure { fetcher with
      outstanding := fetcher.outstanding.erase seq
      srttMs := srttMs
      window := min grown fetcher.cfg.maxWindow }

def markHave (fetcher : AdaptiveFetcher) (seq : Nat) : AdaptiveFetcher :=
  { fetcher with outstanding := fetcher.outstanding.erase seq }

def halved (window : Nat) : Nat := max (window / 2) 1

def onNack (fetcher : AdaptiveFetcher) (seq : Nat) : AdaptiveFetcher :=
  match fetcher.outstanding.lookup seq with
  | none => fetcher
  | some out =>
    { fetcher with
      outstanding := fetcher.outstanding.insert seq { out with sentAtMs := 0 }
      window := halved fetcher.window }

/-- The request for `seq` is older than the retransmission timeout. -/
def isOverdue (fetcher : AdaptiveFetcher) (nowMs seq : Nat) : Bool :=
  match fetcher.outstanding.lookup seq with
  | none => false
  | some out => decide (nowMs - out.sentAtMs ≥ fetcher.rtoMs)

/-- In the order of the sequence numbers. -/
def overdue (fetcher : AdaptiveFetcher) (nowMs : Nat) : List Nat :=
  (fetcher.outstanding.keys.insertionSort (· ≤ ·)).filter (fun seq => fetcher.isOverdue nowMs seq)

/-- A retry within the budget, else the end of the request. -/
def expire (nowMs : Nat) (state : AdaptiveFetcher × List FetchAction) (seq : Nat) :
    Checked (AdaptiveFetcher × List FetchAction) :=
  match state.1.outstanding.lookup seq with
  | none => .panic
  | some out =>
    if out.retries ≥ state.1.cfg.maxRetries then
      .ok ({ state.1 with
              outstanding := state.1.outstanding.erase seq, window := halved state.1.window },
           state.2 ++ [.giveUp seq])
    else
      .ok ({ state.1 with
              outstanding := state.1.outstanding.insert seq
                { sentAtMs := nowMs, retries := out.retries + 1 }
              window := halved state.1.window },
           state.2 ++ [.fetch seq true])

/-- The frontier or the lookahead, whichever is nearer. -/
def requestLimit (fetcher : AdaptiveFetcher) : Nat :=
  let lookaheadLimit := saturatingAddU64 fetcher.cursor fetcher.cfg.lookahead
  match fetcher.frontier with
  | none => lookaheadLimit
  | some known => min known lookaheadLimit

def fillFuel (nowMs limit : Nat) : Nat → AdaptiveFetcher × List FetchAction →
    Checked (AdaptiveFetcher × List FetchAction)
  | 0, state => .ok state
  | fuel + 1, state =>
    if state.1.outstanding.keys.length < state.1.window ∧ state.1.nextToRequest ≤ limit then do
      let next ← u64 (state.1.nextToRequest + 1)
      fillFuel nowMs limit fuel
        ({ state.1 with
            nextToRequest := next
            outstanding := state.1.outstanding.insert state.1.nextToRequest ⟨nowMs, 0⟩ },
         state.2 ++ [.fetch state.1.nextToRequest false])
    else .ok state

/-- Every round takes the next request nearer to the limit. -/
def fill (nowMs : Nat) (state : AdaptiveFetcher × List FetchAction) :
    Checked (AdaptiveFetcher × List FetchAction) :=
  let limit := state.1.requestLimit
  fillFuel nowMs limit (limit + 1 - state.1.nextToRequest) state

def actions (fetcher : AdaptiveFetcher) (nowMs : Nat) :
    Checked (AdaptiveFetcher × List FetchAction) := do
  let expired ← (fetcher.overdue nowMs).foldlM (expire nowMs) (fetcher, [])
  fill nowMs expired

/-- The retries of the request for `seq` are used up. -/
def isSpent (fetcher : AdaptiveFetcher) (seq : Nat) : Bool :=
  match fetcher.outstanding.lookup seq with
  | none => false
  | some out => decide (out.retries ≥ fetcher.cfg.maxRetries)

/-- The requests that are given up. -/
def exhausted (fetcher : AdaptiveFetcher) (nowMs : Nat) : List Nat :=
  (fetcher.overdue nowMs).filter (fun seq => fetcher.isSpent seq)

end AdaptiveFetcher

def FetchAction.gaveUp : FetchAction → Option Nat
  | .fetch _ _ => none
  | .giveUp seq => some seq

namespace AdaptiveFetcher

/-- What neither an expiry nor a new request touches. -/
structure SameSetting (before after : AdaptiveFetcher) : Prop where
  cfg : after.cfg = before.cfg
  cursor : after.cursor = before.cursor
  frontier : after.frontier = before.frontier
  window : 0 < before.window → 0 < after.window

theorem SameSetting.refl (fetcher : AdaptiveFetcher) : SameSetting fetcher fetcher :=
  ⟨rfl, rfl, rfl, id⟩

theorem SameSetting.trans {first second third : AdaptiveFetcher} (left : SameSetting first second)
    (right : SameSetting second third) : SameSetting first third :=
  ⟨right.cfg.trans left.cfg, right.cursor.trans left.cursor, right.frontier.trans left.frontier,
    fun wide => right.window (left.window wide)⟩

variable {nowMs : Nat} {state : AdaptiveFetcher × List FetchAction} {fetcher : AdaptiveFetcher}

section Expiry

theorem halved_pos (window : Nat) : 0 < halved window :=
  Nat.lt_of_lt_of_le Nat.zero_lt_one (Nat.le_max_right _ _)

/-- What expiries do: the requests `ended` are gone and given up. -/
structure Expired (ended : List Nat) (before after : AdaptiveFetcher × List FetchAction) :
    Prop where
  setting : SameSetting before.1 after.1
  nextToRequest : after.1.nextToRequest = before.1.nextToRequest
  gaveUp : after.2.filterMap FetchAction.gaveUp = before.2.filterMap FetchAction.gaveUp ++ ended
  held : ∀ seq, seq ∈ after.1.outstanding ↔ seq ∈ before.1.outstanding ∧ seq ∉ ended

theorem Expired.refl (state : AdaptiveFetcher × List FetchAction) : Expired [] state state where
  setting := SameSetting.refl _
  nextToRequest := rfl
  gaveUp := (append_nil _).symm
  held := fun _ => (and_iff_left not_mem_nil).symm

theorem Expired.trans {ended ended' : List Nat}
    {first second third : AdaptiveFetcher × List FetchAction} (left : Expired ended first second)
    (right : Expired ended' second third) : Expired (ended ++ ended') first third where
  setting := left.setting.trans right.setting
  nextToRequest := right.nextToRequest.trans left.nextToRequest
  gaveUp := by rw [right.gaveUp, left.gaveUp, append_assoc]
  held := by
    intro seq
    rw [right.held, left.held, and_assoc, mem_append, not_or]

/-- One expiry ends a spent request and keeps any other. -/
theorem expire_eq_ok {seq : Nat} {after : AdaptiveFetcher × List FetchAction}
    (expired : expire nowMs state seq = .ok after) :
    Expired (if state.1.isSpent seq then [seq] else []) state after ∧
      ∀ other, other ≠ seq → after.1.isSpent other = state.1.isSpent other := by
  unfold expire at expired
  cases found : state.1.outstanding.lookup seq with
  | none =>
    rw [found] at expired
    cases expired
  | some out =>
    have member : seq ∈ state.1.outstanding := HashMap.mem_iff_lookup.mpr ⟨out, found⟩
    have spent : state.1.isSpent seq = decide (out.retries ≥ state.1.cfg.maxRetries) := by
      unfold isSpent
      rw [found]
    rw [found] at expired
    dsimp only at expired
    split at expired
    · rename_i used
      cases expired
      rw [spent, decide_eq_true used]
      refine ⟨⟨⟨rfl, rfl, rfl, fun _ => halved_pos _⟩, rfl, ?_, ?_⟩, ?_⟩
      · rw [filterMap_append]
        rfl
      · intro other
        rw [AList.mem_erase, and_comm, if_pos rfl, mem_singleton]
      · intro other different
        unfold isSpent
        rw [HashMap.lookup_erase_eq, if_neg different]
    · rename_i left
      cases expired
      rw [spent, decide_eq_false left]
      refine ⟨⟨⟨rfl, rfl, rfl, fun _ => halved_pos _⟩, rfl, ?_, ?_⟩, ?_⟩
      · rw [filterMap_append]
        rfl
      · intro other
        rw [AList.mem_insert, if_neg Bool.false_ne_true, and_iff_left not_mem_nil]
        exact or_iff_right_of_imp (fun same => same ▸ member)
      · intro other different
        unfold isSpent
        rw [HashMap.lookup_insert_eq, if_neg different]

theorem expired_eq_ok {seqs : List Nat} (distinct : seqs.Nodup)
    {after : AdaptiveFetcher × List FetchAction}
    (expired : seqs.foldlM (expire nowMs) state = .ok after) :
    Expired (seqs.filter (fun seq => state.1.isSpent seq)) state after := by
  induction seqs generalizing state with
  | nil =>
    cases expired
    exact Expired.refl _
  | cons seq rest ih =>
    rw [nodup_cons] at distinct
    rw [foldlM_cons] at expired
    rcases Outcome.bind_eq_ok.mp expired with ⟨next, first, later⟩
    rcases expire_eq_ok first with ⟨ended, spent⟩
    have same : ∀ other ∈ rest, next.1.isSpent other = state.1.isSpent other := by
      intro other member
      apply spent
      intro same
      exact distinct.1 (same ▸ member)
    have all := ended.trans (ih distinct.2 later)
    rw [filter_congr same] at all
    rw [filter_cons]
    split
    · rename_i used
      rw [if_pos used] at all
      exact all
    · rename_i left
      rw [if_neg left] at all
      exact all

end Expiry

section Filling

/-- What filling the window up to `limit` does. -/
structure Filled (limit : Nat) (before after : AdaptiveFetcher × List FetchAction) : Prop where
  setting : SameSetting before.1 after.1
  low : before.1.nextToRequest ≤ after.1.nextToRequest
  high : after.1.nextToRequest ≤ max before.1.nextToRequest (limit + 1)
  small : before.1.nextToRequest < 2 ^ 64 → after.1.nextToRequest < 2 ^ 64
  gaveUp : after.2.filterMap FetchAction.gaveUp = before.2.filterMap FetchAction.gaveUp
  held : ∀ seq, seq ∈ after.1.outstanding ↔ seq ∈ before.1.outstanding ∨
    before.1.nextToRequest ≤ seq ∧ seq < after.1.nextToRequest

theorem Filled.refl (limit : Nat) (state : AdaptiveFetcher × List FetchAction) :
    Filled limit state state := by
  refine ⟨SameSetting.refl _, Nat.le_refl _, Nat.le_max_left _ _, id, rfl, ?_⟩
  intro seq
  constructor
  · exact Or.inl
  · intro either
    rcases either with member | both
    · exact member
    · omega

theorem fillFuel_eq_ok {limit fuel : Nat} {after : AdaptiveFetcher × List FetchAction}
    (filled : fillFuel nowMs limit fuel state = .ok after) : Filled limit state after := by
  induction fuel generalizing state with
  | zero =>
    cases filled
    exact Filled.refl limit _
  | succ fuel ih =>
    rw [fillFuel] at filled
    split at filled
    · rename_i room
      rcases Outcome.bind_eq_ok.mp filled with ⟨next, added, later⟩
      unfold u64 at added
      split at added
      · cases added
        have rest := ih later
        have low := rest.low
        have high := rest.high
        dsimp only at low high
        refine ⟨⟨rest.setting.cfg, rest.setting.cursor, rest.setting.frontier,
          rest.setting.window⟩, by omega, by omega, fun _ => rest.small ‹_›, ?_, ?_⟩
        · rw [rest.gaveUp, filterMap_append]
          exact append_nil _
        · intro seq
          rw [rest.held, AList.mem_insert]
          constructor
          · intro either
            rcases either with (same | member) | both
            · exact Or.inr ⟨Nat.le_of_eq same.symm, by omega⟩
            · exact Or.inl member
            · exact Or.inr ⟨by dsimp only at both; omega, both.2⟩
          · intro either
            rcases either with member | both
            · exact Or.inl (Or.inr member)
            · by_cases first : seq = state.1.nextToRequest
              · exact Or.inl (Or.inl first)
              · exact Or.inr ⟨by dsimp only; omega, both.2⟩
      · cases added
    · cases filled
      exact Filled.refl limit _

end Filling

section Acting

theorem nodup_overdue (fetcher : AdaptiveFetcher) (nowMs : Nat) :
    (fetcher.overdue nowMs).Nodup := by
  apply List.Nodup.filter
  exact (perm_insertionSort _ _).nodup_iff.mpr fetcher.outstanding.keys_nodup

theorem sorted_overdue (fetcher : AdaptiveFetcher) (nowMs : Nat) :
    (fetcher.overdue nowMs).Pairwise (· < ·) := by
  have sorted : (fetcher.overdue nowMs).Pairwise (· ≤ ·) :=
    (pairwise_insertionSort (· ≤ ·) fetcher.outstanding.keys).filter _
  exact (sorted.and (nodup_overdue fetcher nowMs)).imp (fun both => lt_of_le_of_ne both.1 both.2)

theorem sorted_exhausted (fetcher : AdaptiveFetcher) (nowMs : Nat) :
    (fetcher.exhausted nowMs).Pairwise (· < ·) :=
  (sorted_overdue fetcher nowMs).filter _

/-- What a pass of `actions` does: the exhausted requests end, and new ones are made up to the
limit. -/
structure Acted (nowMs : Nat) (before after : AdaptiveFetcher) (acts : List FetchAction) :
    Prop where
  setting : SameSetting before after
  low : before.nextToRequest ≤ after.nextToRequest
  high : after.nextToRequest ≤ max before.nextToRequest (before.requestLimit + 1)
  small : before.nextToRequest < 2 ^ 64 → after.nextToRequest < 2 ^ 64
  gaveUp : acts.filterMap FetchAction.gaveUp = before.exhausted nowMs
  held : ∀ seq, seq ∈ after.outstanding ↔
    seq ∈ before.outstanding ∧ seq ∉ before.exhausted nowMs ∨
      before.nextToRequest ≤ seq ∧ seq < after.nextToRequest

theorem requestLimit_eq {before after : AdaptiveFetcher} (setting : SameSetting before after) :
    after.requestLimit = before.requestLimit := by
  unfold requestLimit
  rw [setting.cfg, setting.cursor, setting.frontier]

theorem acted {after : AdaptiveFetcher} {acts : List FetchAction}
    (returned : fetcher.actions nowMs = .ok (after, acts)) : Acted nowMs fetcher after acts := by
  rcases Outcome.bind_eq_ok.mp returned with ⟨expired, first, second⟩
  have ended := expired_eq_ok (nodup_overdue fetcher nowMs) first
  have filled := fillFuel_eq_ok second
  have high := filled.high
  rw [ended.nextToRequest, requestLimit_eq ended.setting] at high
  refine ⟨ended.setting.trans filled.setting, ended.nextToRequest ▸ filled.low, high, ?_, ?_, ?_⟩
  · rw [← ended.nextToRequest]
    exact filled.small
  · rw [filled.gaveUp, ended.gaveUp]
    rfl
  · intro seq
    rw [filled.held, ended.held, ended.nextToRequest]
    rfl

end Acting

section Idle

end Idle

end AdaptiveFetcher
end NdnExt.Stream
