import NdnExt.Stream.Session

/-! A stream consumer holds or requests every seq between its cursor and the next request. -/

namespace NdnExt.Stream

open NdnExt.Lib List Outcome

/-- The span covers the lookahead, and the window is never empty. -/
structure ConsumerConfig.Sound (cfg : ConsumerConfig) : Prop where
  lookahead : cfg.fetcher.lookahead < cfg.reorderSpan
  window : 1 ≤ cfg.fetcher.maxWindow

namespace SessionConsumer

/-- Every seq between the cursor and the next request is buffered, outstanding or `waived`. The
fetcher need not know the cursor yet. -/
structure Covered (waived : List Nat) (consumer : SessionConsumer) : Prop where
  sound : consumer.cfg.Sound
  fetcherCfg : consumer.fetcher.cfg = consumer.cfg.fetcher
  span : consumer.reorder.maxSpan = max consumer.cfg.reorderSpan 1
  behind : consumer.fetcher.cursor ≤ consumer.reorder.next
  near : consumer.fetcher.nextToRequest ≤ consumer.reorder.next + consumer.reorder.maxSpan
  bounded : consumer.reorder.next < 2 ^ 64
  small : consumer.fetcher.nextToRequest < 2 ^ 64
  window : 0 < consumer.fetcher.window
  held : ∀ seq, consumer.reorder.next ≤ seq → seq < consumer.fetcher.nextToRequest →
    seq ∈ consumer.reorder.buffered ∨ seq ∈ consumer.fetcher.outstanding ∨ seq ∈ waived
  inside : ∀ seq ∈ consumer.fetcher.outstanding, seq < consumer.fetcher.nextToRequest

/-- The fetcher knows the cursor. -/
structure Tracked (waived : List Nat) (consumer : SessionConsumer) : Prop extends
    Covered waived consumer where
  cursor : consumer.fetcher.cursor = consumer.reorder.next
  requested : consumer.reorder.next ≤ consumer.fetcher.nextToRequest
  ahead : ∀ seq ∈ consumer.fetcher.outstanding, consumer.reorder.next ≤ seq

/-- Nothing is buffered at the cursor. -/
structure Settled (waived : List Nat) (consumer : SessionConsumer) : Prop extends
    Tracked waived consumer where
  drained : consumer.reorder.next ∉ consumer.reorder.buffered

theorem settled_restart {cfg : ConsumerConfig} (sound : cfg.Sound) (session : Option Nat)
    {firstSeq : Nat} (small : firstSeq < 2 ^ 64) : Settled [] (restart cfg session firstSeq) where
  sound := sound
  fetcherCfg := rfl
  span := rfl
  behind := Nat.le_refl _
  near := Nat.le_add_right _ _
  bounded := small
  small := small
  window := Nat.lt_of_lt_of_le Nat.zero_lt_one (Nat.le_max_right _ _)
  held := by
    intro seq low high
    exact absurd (Nat.lt_of_le_of_lt low high) (Nat.lt_irrefl _)
  inside := by
    intro seq member
    exact absurd member (AList.notMem_empty _)
  cursor := rfl
  drained := AList.notMem_empty _
  requested := Nat.le_refl _
  ahead := by
    intro seq member
    exact absurd member (AList.notMem_empty _)

variable {consumer : SessionConsumer} {fetcher : AdaptiveFetcher} {nowMs seq : Nat}
  {events : List StreamEvent}

section Delivering

/-- Draining and telling the fetcher the cursor. -/
theorem Covered.deliverReady {waived : List Nat}
    (covered : Covered waived consumer) : Settled waived consumer.deliverReady.1 := by
  have next := consumer.reorder.drained_popReady.next
  have span := consumer.reorder.drained_popReady.span
  have bounded := ReorderBuffer.next_popReady_lt covered.bounded
  have near := covered.near
  have small := covered.small
  have behind := covered.behind
  have requests : ∀ seq, seq ∈ consumer.deliverReady.1.fetcher.outstanding ↔
      seq ∈ consumer.fetcher.outstanding ∧ consumer.reorder.popReady.1.next ≤ seq := by
    intro seq
    rw [fetcher_deliverReady]
    unfold AdaptiveFetcher.onCursor
    rw [HashMap.mem_retain_key, decide_eq_true_eq]
  have request : consumer.deliverReady.1.fetcher.nextToRequest =
      max consumer.fetcher.nextToRequest consumer.reorder.popReady.1.next := rfl
  have cursor : consumer.deliverReady.1.fetcher.cursor =
      max consumer.fetcher.cursor consumer.reorder.popReady.1.next := rfl
  have buffer := reorder_deliverReady consumer
  exact {
    sound := covered.sound
    fetcherCfg := covered.fetcherCfg
    span := by rw [buffer, span]; exact covered.span
    behind := by rw [cursor, buffer]; omega
    near := by rw [request, buffer]; omega
    bounded := by rw [buffer]; exact bounded
    small := by rw [request]; omega
    window := covered.window
    held := by
      intro seq low high
      rw [buffer] at low ⊢
      rw [request] at high
      rw [requests, ReorderBuffer.mem_popReady low]
      rcases covered.held seq (by omega) (by omega) with buffered | outstanding | waived
      · exact Or.inl buffered
      · exact Or.inr (Or.inl ⟨outstanding, low⟩)
      · exact Or.inr (Or.inr waived)
    inside := by
      intro seq member
      have inside := covered.inside seq ((requests seq).mp member).1
      rw [request]
      omega
    cursor := by rw [cursor, buffer]; omega
    requested := by rw [request, buffer]; omega
    ahead := by
      intro seq member
      rw [buffer]
      exact ((requests seq).mp member).2
    drained := by
      rw [buffer]
      exact AList.lookup_eq_none.mp consumer.reorder.lookup_popReady }

end Delivering

section Receiving

/-- The request for `seq` is gone, and nothing else. -/
structure Dropped (seq : Nat) (before after : AdaptiveFetcher) : Prop where
  cfg : after.cfg = before.cfg
  cursor : after.cursor = before.cursor
  nextToRequest : after.nextToRequest = before.nextToRequest
  window : 1 ≤ before.cfg.maxWindow → 0 < before.window → 0 < after.window
  outstanding : ∀ other, other ∈ after.outstanding ↔ other ∈ before.outstanding ∧ other ≠ seq

theorem dropped_markHave (fetcher : AdaptiveFetcher) (seq : Nat) :
    Dropped seq fetcher (fetcher.markHave seq) := by
  refine ⟨rfl, rfl, rfl, fun _ => id, ?_⟩
  intro other
  exact AList.mem_erase.trans and_comm

theorem dropped_onData {after : AdaptiveFetcher}
    (returned : fetcher.onData nowMs seq = .ok after) : Dropped seq fetcher after := by
  unfold AdaptiveFetcher.onData at returned
  cases found : fetcher.outstanding.lookup seq with
  | none =>
    rw [found] at returned
    cases returned
    refine ⟨rfl, rfl, rfl, fun _ => id, ?_⟩
    intro other
    constructor
    · intro member
      refine ⟨member, ?_⟩
      intro same
      exact AList.lookup_eq_none.mp found (same ▸ member)
    · exact And.left
  | some out =>
    rw [found] at returned
    rcases bind_eq_ok.mp returned with ⟨srttMs, -, second⟩
    rcases bind_eq_ok.mp second with ⟨grown, added, last⟩
    cases last
    unfold u64 at added
    split at added
    · cases added
      refine ⟨rfl, rfl, rfl, ?_, ?_⟩
      · intro wide positive
        change 0 < min (fetcher.window + 1) fetcher.cfg.maxWindow
        omega
      · intro other
        exact AList.mem_erase.trans and_comm
    · cases added

variable {waived : List Nat} {consumer : SessionConsumer}

theorem Tracked.dropped (tracked : Tracked [] consumer)
    (dropped : Dropped seq consumer.fetcher fetcher) :
    Tracked [seq] { consumer with fetcher := fetcher } where
  sound := tracked.sound
  fetcherCfg := dropped.cfg.trans tracked.fetcherCfg
  span := tracked.span
  behind := dropped.cursor ▸ tracked.behind
  near := dropped.nextToRequest ▸ tracked.near
  bounded := tracked.bounded
  small := dropped.nextToRequest ▸ tracked.small
  window := dropped.window (tracked.fetcherCfg ▸ tracked.sound.window) tracked.window
  held := by
    intro other low high
    rw [dropped.nextToRequest] at high
    rw [dropped.outstanding, mem_singleton]
    rcases tracked.held other low high with buffered | outstanding | none
    · exact Or.inl buffered
    · by_cases same : other = seq
      · exact Or.inr (Or.inr same)
      · exact Or.inr (Or.inl ⟨outstanding, same⟩)
    · exact absurd none not_mem_nil
  inside := by
    intro other member
    rw [dropped.nextToRequest]
    exact tracked.inside other ((dropped.outstanding other).mp member).1
  cursor := dropped.cursor.trans tracked.cursor
  requested := dropped.nextToRequest ▸ tracked.requested
  ahead := fun other member => tracked.ahead other ((dropped.outstanding other).mp member).1

/-- The span has room for every request, so the buffer takes what was requested. -/
theorem Tracked.insert (tracked : Tracked [seq] consumer) (payload : Bytes) :
    Tracked [] { consumer with reorder := (consumer.reorder.insert seq payload).1 } := by
  have next := consumer.reorder.next_insert seq payload
  have span := consumer.reorder.maxSpan_insert seq payload
  exact {
    sound := tracked.sound
    fetcherCfg := tracked.fetcherCfg
    span := span.trans tracked.span
    behind := next.symm ▸ tracked.behind
    near := by dsimp only; rw [next, span]; exact tracked.near
    bounded := next.symm ▸ tracked.bounded
    small := tracked.small
    window := tracked.window
    held := by
      intro other low high
      dsimp only at low high ⊢
      rw [next] at low
      rcases tracked.held other low high with buffered | outstanding | own
      · exact Or.inl (ReorderBuffer.mem_insert_of_mem buffered)
      · exact Or.inr (Or.inl outstanding)
      · rw [mem_singleton.mp own] at low high ⊢
        refine Or.inl (ReorderBuffer.mem_insert low ?_)
        have near := tracked.near
        have small := tracked.small
        unfold saturatingAddU64 u64Max
        omega
    inside := tracked.inside
    cursor := tracked.cursor.trans next.symm
    requested := next.symm ▸ tracked.requested
    ahead := by
      rw [next]
      exact tracked.ahead }

theorem Tracked.takeRecovered (tracked : Tracked [] consumer) (entry : Nat × Bytes) :
    Tracked [] (consumer.takeRecovered entry) :=
  (tracked.dropped (dropped_markHave consumer.fetcher entry.1)).insert entry.2

theorem Tracked.deliverRecovered (tracked : Tracked [] consumer)
    (recovered : List (Nat × Bytes)) : Settled [] (consumer.deliverRecovered recovered).1 := by
  have all : Tracked [] (recovered.foldl SessionConsumer.takeRecovered consumer) := by
    induction recovered generalizing consumer with
    | nil => exact tracked
    | cons entry rest ih => exact ih (tracked.takeRecovered entry)
  exact all.deliverReady

theorem Tracked.absorb (tracked : Tracked [seq] consumer) (payload : Bytes)
    (recovered : List (Nat × Bytes)) : Settled [] (consumer.absorb seq payload recovered).1 :=
  ((tracked.insert payload).deliverRecovered recovered).deliverReady

section

variable (settled : Settled [] consumer)
include settled

theorem Settled.admitSession (session : Nat) :
    Settled [] (consumer.admitSession session).1 := by
  unfold SessionConsumer.admitSession
  split
  · exact { settled with }
  · split
    · exact settled
    · split
      · exact settled
      · exact settled_restart settled.sound _ (by decide)

theorem Settled.onItem {codec : RowCodec} {session : Nat} {payload : Bytes}
    {after : SessionConsumer}
    (returned : consumer.onItem codec nowMs session seq payload = .ok (after, events)) :
    Settled [] after := by
  have admitted := settled.admitSession session
  rcases onItem_eq_ok codec returned with
    handled | ⟨current, fetcher, fec, recovered, accepted, fetched, -, absorbed⟩
  · rw [handled] at admitted
    exact admitted
  · rw [accepted] at admitted
    have tracked := admitted.dropped (dropped_onData fetched)
    have decoded : Tracked [seq] { current with fetcher := fetcher, fec := fec } :=
      { tracked with }
    have settled := decoded.absorb payload recovered
    rw [absorbed] at settled
    exact settled

theorem Settled.onParity {codec : RowCodec} {session : Nat} {item : ParityItem}
    {after : SessionConsumer}
    (returned : consumer.onParity codec session item = .ok (after, events)) :
    Settled [] after := by
  have admitted := settled.admitSession session
  rcases onParity_eq_ok codec returned with
    handled | ⟨accepted, -, -⟩ | ⟨current, decoder, added, recovered, accepted, -, -, delivered⟩
  · rw [handled] at admitted
    exact admitted
  · rw [accepted] at admitted
    exact admitted
  · rw [accepted] at admitted
    have decoded : Tracked [] { current with fec := some added } := { admitted with }
    have settled := decoded.deliverRecovered recovered
    rw [delivered] at settled
    exact settled

theorem Settled.onFrontier (session seq : Nat) :
    Settled [] (consumer.onFrontier session seq).1 := by
  have admitted := settled.admitSession session
  unfold SessionConsumer.onFrontier
  split
  · rename_i same
    rw [same] at admitted
    exact admitted
  · rename_i same
    rw [same] at admitted
    exact { admitted with }

theorem Settled.onNack (seq : Nat) :
    Settled [] (consumer.onNack seq) := by
  unfold SessionConsumer.onNack AdaptiveFetcher.onNack
  cases found : consumer.fetcher.outstanding.lookup seq with
  | none => exact settled
  | some out =>
    have member : seq ∈ consumer.fetcher.outstanding := HashMap.mem_iff_lookup.mpr ⟨out, found⟩
    have same : ∀ other,
        other ∈ consumer.fetcher.outstanding.insert seq { out with sentAtMs := 0 } ↔
          other ∈ consumer.fetcher.outstanding := by
      intro other
      rw [AList.mem_insert]
      exact or_iff_right_of_imp (fun own => own ▸ member)
    exact { settled with
      window := AdaptiveFetcher.halved_pos _
      held := by
        intro other low high
        rw [same]
        exact settled.held other low high
      inside := fun other inside => settled.inside other ((same other).mp inside)
      ahead := fun other inside => settled.ahead other ((same other).mp inside) }

end

end Receiving

section Acting

variable {consumer : SessionConsumer}

/-- The seqs given up wait for their skip. -/
theorem Settled.acted {acts : List FetchAction}
    (settled : Settled [] consumer)
    (returned : consumer.fetcher.actions nowMs = .ok (fetcher, acts)) :
    Settled (acts.filterMap FetchAction.gaveUp) { consumer with fetcher := fetcher } := by
  have acted := AdaptiveFetcher.acted returned
  have low := acted.low
  have requested := settled.requested
  rw [acted.gaveUp]
  exact {
    sound := settled.sound
    fetcherCfg := acted.setting.cfg.trans settled.fetcherCfg
    span := settled.span
    behind := acted.setting.cursor ▸ settled.behind
    near := by
      have high := acted.high
      have near := settled.near
      have span := settled.span
      have wide := settled.sound.lookahead
      have limit : consumer.fetcher.requestLimit ≤
          consumer.reorder.next + consumer.cfg.fetcher.lookahead := by
        rw [← settled.cursor, ← settled.fetcherCfg]
        unfold AdaptiveFetcher.requestLimit saturatingAddU64
        dsimp only
        split <;> omega
      dsimp only
      omega
    bounded := settled.bounded
    small := acted.small settled.small
    window := acted.setting.window settled.window
    held := by
      intro seq above below
      rw [acted.held]
      by_cases old : seq < consumer.fetcher.nextToRequest
      · rcases settled.held seq above old with buffered | outstanding | none
        · exact Or.inl buffered
        · by_cases gone : seq ∈ consumer.fetcher.exhausted nowMs
          · exact Or.inr (Or.inr gone)
          · exact Or.inr (Or.inl (Or.inl ⟨outstanding, gone⟩))
        · exact absurd none not_mem_nil
      · exact Or.inr (Or.inl (Or.inr ⟨Nat.le_of_not_lt old, below⟩))
    inside := by
      intro seq member
      rcases (acted.held seq).mp member with ⟨old, -⟩ | ⟨-, below⟩
      · exact Nat.lt_of_lt_of_le (settled.inside seq old) low
      · exact below
    cursor := acted.setting.cursor.trans settled.cursor
    requested := Nat.le_trans requested low
    ahead := by
      intro seq member
      rcases (acted.held seq).mp member with ⟨old, -⟩ | ⟨above, -⟩
      · exact settled.ahead seq old
      · exact Nat.le_trans requested above
    drained := settled.drained }

theorem Settled.resolve {later : List Nat}
    {state after : SessionConsumer × List StreamEvent}
    (settled : Settled (seq :: later) state.1) (resolved : resolve state seq = .ok after) :
    Settled later after.1 := by
  rcases bind_eq_ok.mp resolved with ⟨past, added, last⟩
  cases last
  unfold u64 at added
  split at added
  · rename_i bounded
    cases added
    have next := state.1.reorder.next_skipTo (seq + 1)
    have span := state.1.reorder.maxSpan_skipTo (seq + 1)
    have skipped : Covered later
        { state.1 with reorder := (state.1.reorder.skipTo (seq + 1)).1 } := {
      sound := settled.sound
      fetcherCfg := settled.fetcherCfg
      span := span.trans settled.span
      behind := by
        have behind := settled.behind
        dsimp only
        omega
      near := by
        have near := settled.near
        dsimp only
        omega
      bounded := by
        have small := settled.bounded
        dsimp only
        omega
      small := settled.small
      window := settled.window
      held := by
        intro other low high
        dsimp only at low high ⊢
        rw [ReorderBuffer.mem_skipTo low]
        rcases settled.held other (by omega) high with buffered | outstanding | waived
        · exact Or.inl buffered
        · exact Or.inr (Or.inl outstanding)
        · rcases mem_cons.mp waived with own | later
          · omega
          · exact Or.inr (Or.inr later)
      inside := settled.inside }
    exact skipped.deliverReady
  · cases added

theorem Settled.actions {after : SessionConsumer} {acts : List FetchAction}
    (settled : Settled [] consumer)
    (returned : consumer.actions nowMs = .ok (after, acts, events)) : Settled [] after := by
  have all : ∀ gaveUp (state result : SessionConsumer × List StreamEvent),
      Settled gaveUp state.1 → gaveUp.foldlM SessionConsumer.resolve state = .ok result →
      Settled [] result.1 := by
    intro gaveUp
    induction gaveUp with
    | nil =>
      intro state result settled resolved
      cases resolved
      exact settled
    | cons seq later ih =>
      intro state result settled resolved
      rw [foldlM_cons] at resolved
      rcases bind_eq_ok.mp resolved with ⟨next, first, rest⟩
      exact ih next result (settled.resolve first) rest
  rcases bind_eq_ok.mp returned with ⟨⟨fetcher, made⟩, acted, second⟩
  rcases bind_eq_ok.mp second with ⟨⟨resolved, reported⟩, skipped, last⟩
  cases last
  exact all _ _ _ (settled.acted acted) skipped

end Acting

section Reaching

variable (codec : RowCodec)

/-- What calls reach that all return. -/
inductive Reached (firstSeq : Nat) (cfg : ConsumerConfig) : SessionConsumer → Prop
  | new : Reached firstSeq cfg (SessionConsumer.new firstSeq cfg)
  | call {consumer after : SessionConsumer} {input : ConsumerCall} {events : List StreamEvent}
      (reached : Reached firstSeq cfg consumer)
      (returned : consumer.call codec input = .ok (after, events)) : Reached firstSeq cfg after

variable {codec}

theorem Settled.call {after : SessionConsumer} {input : ConsumerCall}
    (settled : Settled [] consumer)
    (returned : consumer.call codec input = .ok (after, events)) : Settled [] after := by
  cases input with
  | onItem nowMs session seq payload => exact settled.onItem returned
  | onParity session item => exact settled.onParity returned
  | onFrontier session seq =>
    have same : consumer.onFrontier session seq = (after, events) := ok.inj returned
    have kept := settled.onFrontier session seq
    rw [same] at kept
    exact kept
  | onNack seq =>
    cases returned
    exact settled.onNack seq
  | actions nowMs =>
    rcases bind_eq_ok.mp returned with ⟨⟨acted, acts, reported⟩, first, last⟩
    cases last
    exact settled.actions first

theorem Reached.settled {firstSeq : Nat} {cfg : ConsumerConfig}
    (reached : Reached codec firstSeq cfg consumer) (sound : cfg.Sound)
    (small : firstSeq < 2 ^ 64) : Settled [] consumer := by
  induction reached with
  | new => exact settled_restart sound none small
  | call reached returned ih => exact ih.call returned

end Reaching

section Progress

variable {codec : RowCodec}

end Progress

end SessionConsumer
end NdnExt.Stream
