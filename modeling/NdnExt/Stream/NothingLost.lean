import NdnExt.Lib.Run
import NdnExt.Stream.Tally

/-! What a stream consumer reports of the seqs between two resets of its session. -/

namespace NdnExt.Stream

open NdnExt.Lib ReorderBuffer List

namespace SessionConsumer

/-- What happened since the last reset: the events, the sessions whose rows were taken, the rows
that the buffer accepted, the seqs that were received or recovered, those of them that the buffer
had no room for, and the seqs that the fetcher gave up. -/
structure Window where
  start : Nat
  events : List StreamEvent
  fed : List Nat
  accepted : List (Nat × Bytes)
  received : List Nat
  refused : List Nat
  gaveUp : List Nat

/-- The item that makes the consumer reset is received, and dropped. -/
def Window.fresh (start : Nat) (dropped : List Nat) : Window :=
  ⟨start, [], [], [], dropped, dropped, []⟩

def admits (consumer : SessionConsumer) (session : Nat) : Bool :=
  match consumer.admitSession session with
  | (_, .accepted) => true
  | (_, .handled _) => false

/-- The session of a call whose rows reach the decoder or the buffer. -/
def feeds (consumer : SessionConsumer) : ConsumerCall → List Nat
  | .onItem _ session _ _ => if consumer.admits session then [session] else []
  | .onParity session _ => if consumer.admits session then [session] else []
  | _ => []

/-- The seqs that the fetcher gives up. -/
def issues (consumer : SessionConsumer) : ConsumerCall → List Nat
  | .actions nowMs =>
    match consumer.fetcher.actions nowMs with
    | .ok (_, acts) => acts.filterMap FetchAction.gaveUp
    | _ => []
  | _ => []

def droppedBy : ConsumerCall → List Nat
  | .onItem _ _ seq _ => [seq]
  | _ => []

variable (codec : RowCodec)

/-- The rows that a call offers to the buffer: its own, and those that it lets recover. -/
def arrivals (consumer : SessionConsumer) : ConsumerCall → List (Nat × Bytes)
  | .onItem _ session seq payload =>
    if consumer.admits session then
      match decodeSource codec consumer.fec seq payload with
      | .ok (_, recovered) => (seq, payload) :: recovered
      | _ => []
    else []
  | .onParity session item =>
    if consumer.admits session then
      match consumer.fec with
      | none => []
      | some decoder =>
        match decoder.addParity codec item with
        | .ok (_, recovered) => recovered
        | _ => []
    else []
  | _ => []

/-- The window after a call of `consumer` that returned `events`. -/
def observe (consumer : SessionConsumer) (window : Window) (input : ConsumerCall)
    (events : List StreamEvent) : Window :=
  if events.any StreamEvent.isReset then Window.fresh 0 (droppedBy input)
  else
    { start := window.start
      events := window.events ++ events
      fed := window.fed ++ consumer.feeds input
      accepted := window.accepted ++ consumer.reorder.acceptedOf (consumer.arrivals codec input)
      received := window.received ++ (consumer.arrivals codec input).map Prod.fst
      refused := window.refused ++ consumer.reorder.refusedOf (consumer.arrivals codec input)
      gaveUp := window.gaveUp ++ consumer.issues input }

/-- A panic ends the run. -/
def step (state : Option (SessionConsumer × Window)) (input : ConsumerCall) :
    Option (SessionConsumer × Window) :=
  match state with
  | none => none
  | some (consumer, window) =>
    match consumer.call codec input with
    | .ok (after, events) => some (after, observe codec consumer window input events)
    | _ => none

def start (firstSeq : Nat) (cfg : ConsumerConfig) : Option (SessionConsumer × Window) :=
  some (new firstSeq cfg, Window.fresh firstSeq [])

/-- The events name every seq up to the cursor exactly once; items increase and are what was
accepted first, from the locked session; a lost seq was given up itself. -/
structure Accounted (consumer : SessionConsumer) (window : Window) : Prop where
  low : window.start ≤ consumer.nextSeq
  named : (window.events.flatMap StreamEvent.named).Perm
    (List.range' window.start (consumer.nextSeq - window.start))
  ordered : (window.events.filterMap StreamEvent.delivered).Pairwise (· < ·)
  items : ∀ seq payload, .item seq payload ∈ window.events →
    window.accepted.lookup seq = some payload
  session : ∀ session ∈ window.fed, consumer.session = some session
  givenUp : ∀ seq ∈ window.events.flatMap StreamEvent.losses, seq ∈ window.gaveUp

/-- A call that returns leaves the stream accounted for, and reports no seq lost that had been
received or recovered before. -/
def LosesNothing (state : Option (SessionConsumer × Window)) (input : ConsumerCall) : Prop :=
  ∀ consumer window after events, state = some (consumer, window) →
    consumer.call codec input = .ok (after, events) →
    Accounted after (observe codec consumer window input events) ∧
      ∀ seq ∈ events.flatMap StreamEvent.losses, seq ∉ window.received

/-- Every seq up to one whose retries run out is passed, buffered or out of retries itself, and
what runs out of retries had not arrived beyond the span of the buffer. -/
structure Orderly (consumer : SessionConsumer) (window : Window) (nowMs : Nat) : Prop where
  cleared : consumer.reorder.Cleared (consumer.fetcher.exhausted nowMs)
  unseen : ∀ seq ∈ consumer.fetcher.exhausted nowMs, seq ∈ window.refused →
    consumer.reorder.has seq

/-- Of every pass that returns. -/
def GivesUpOrderly (state : Option (SessionConsumer × Window)) (input : ConsumerCall) : Prop :=
  ∀ consumer window nowMs result, state = some (consumer, window) → input = .actions nowMs →
    consumer.call codec input = .ok result → Orderly consumer window nowMs

/-- The window against the state of the consumer. -/
structure Accurate (consumer : SessionConsumer) (window : Window) : Prop where
  tally : Tally window.start window.accepted window.events consumer.reorder
  drained : consumer.reorder.next ∉ consumer.reorder.buffered
  session : ∀ session ∈ window.fed, consumer.session = some session
  seen : ∀ seq ∈ window.received, consumer.reorder.has seq ∨ seq ∈ window.refused
  refused : ∀ seq ∈ window.refused, seq ∈ window.received
  gaveUp : ∀ seq ∈ window.gaveUp, seq < consumer.reorder.next
  losses : ∀ seq ∈ window.events.flatMap StreamEvent.losses, seq ∈ window.gaveUp

theorem accurate_restart (cfg : ConsumerConfig) (session : Option Nat) (firstSeq : Nat)
    (dropped : List Nat) :
    Accurate (restart cfg session firstSeq) (Window.fresh firstSeq dropped) where
  tally := Tally.new firstSeq cfg.reorderSpan
  drained := AList.notMem_empty _
  session := nofun
  seen := fun _ member => Or.inr member
  refused := fun _ member => member
  gaveUp := nofun
  losses := nofun

theorem Accurate.accounted {consumer : SessionConsumer} {window : Window}
    (accurate : Accurate consumer window) : Accounted consumer window where
  low := accurate.tally.low
  named := List.Perm.of_eq accurate.tally.named
  ordered := accurate.tally.ordered.sublist (StreamEvent.delivered_sublist_named window.events)
  items := accurate.tally.items
  session := accurate.session
  givenUp := accurate.losses

variable {codec} {consumer after : SessionConsumer} {window : Window} {input : ConsumerCall}
  {events : List StreamEvent}

/-- What a call without a reset has to keep. -/
theorem Accurate.extend (accurate : Accurate consumer window)
    (noReset : events.any StreamEvent.isReset = false)
    (tally : Tally window.start
      (window.accepted ++ consumer.reorder.acceptedOf (consumer.arrivals codec input))
      (window.events ++ events) after.reorder)
    (drained : after.reorder.next ∉ after.reorder.buffered)
    (forward : consumer.reorder.next ≤ after.reorder.next)
    (has : ∀ seq, consumer.reorder.has seq → after.reorder.has seq)
    (locked : ∀ session, consumer.session = some session → after.session = some session)
    (fed : ∀ session ∈ consumer.feeds input, after.session = some session)
    (seen : ∀ seq ∈ (consumer.arrivals codec input).map Prod.fst, after.reorder.has seq ∨
      seq ∈ consumer.reorder.refusedOf (consumer.arrivals codec input))
    (gaveUp : ∀ seq ∈ consumer.issues input, seq < after.reorder.next)
    (losses : ∀ seq ∈ events.flatMap StreamEvent.losses, seq ∈ consumer.issues input) :
    Accurate after (observe codec consumer window input events) := by
  unfold observe
  rw [noReset, if_neg Bool.false_ne_true]
  refine ⟨tally, drained, ?_, ?_, ?_, ?_, ?_⟩
  · intro session member
    rcases mem_append.mp member with old | new
    · exact locked session (accurate.session session old)
    · exact fed session new
  · intro seq member
    rw [mem_append]
    rcases mem_append.mp member with old | new
    · rcases accurate.seen seq old with had | refused
      · exact Or.inl (has seq had)
      · exact Or.inr (Or.inl refused)
    · exact (seen seq new).imp_right Or.inr
  · intro seq member
    rw [mem_append]
    rcases mem_append.mp member with old | new
    · exact Or.inl (accurate.refused seq old)
    · exact Or.inr (mem_refusedOf new)
  · intro seq member
    rcases mem_append.mp member with old | new
    · exact Nat.lt_of_lt_of_le (accurate.gaveUp seq old) forward
    · exact gaveUp seq new
  · intro seq member
    rw [flatMap_append] at member
    rw [mem_append]
    exact (mem_append.mp member).imp (accurate.losses seq) (losses seq)

/-- A call that leaves the buffer alone. -/
theorem Accurate.quiet (accurate : Accurate consumer window)
    (same : after.reorder = consumer.reorder) (silent : events = [])
    (nothing : consumer.arrivals codec input = []) (none : consumer.issues input = [])
    (locked : ∀ session, consumer.session = some session → after.session = some session)
    (fed : ∀ session ∈ consumer.feeds input, after.session = some session) :
    Accurate after (observe codec consumer window input events) := by
  subst silent
  apply accurate.extend rfl
  · rw [nothing, same, append_nil]
    exact (append_nil window.accepted).symm ▸ accurate.tally
  · exact same ▸ accurate.drained
  · exact Nat.le_of_eq (congrArg _ same.symm)
  · rw [same]
    exact fun _ => id
  · exact locked
  · exact fed
  · rw [nothing]
    nofun
  · rw [none]
    nofun
  · nofun

theorem reorder_takeRecovered (rows : List (Nat × Bytes)) (consumer : SessionConsumer) :
    (rows.foldl takeRecovered consumer).reorder = consumer.reorder.offer rows ∧
      (rows.foldl takeRecovered consumer).session = consumer.session := by
  induction rows generalizing consumer with
  | nil => exact ⟨rfl, rfl⟩
  | cons row rest ih => exact ih (consumer.takeRecovered row)

theorem deliverRecovered_eq (rows : List (Nat × Bytes)) (consumer : SessionConsumer) :
    (consumer.deliverRecovered rows).1.reorder = (consumer.reorder.offer rows).popReady.1 ∧
      (consumer.deliverRecovered rows).2 = (consumer.reorder.offer rows).ready ∧
      (consumer.deliverRecovered rows).1.session = consumer.session := by
  rcases reorder_takeRecovered rows consumer with ⟨buffer, session⟩
  rw [← buffer]
  exact ⟨rfl, rfl, session⟩

/-- The second drain finds nothing. -/
theorem absorb_eq (consumer : SessionConsumer) (seq : Nat) (payload : Bytes)
    (rows : List (Nat × Bytes)) :
    (consumer.absorb seq payload rows).1.reorder =
        (consumer.reorder.offer ((seq, payload) :: rows)).popReady.1 ∧
      (consumer.absorb seq payload rows).2 =
        (consumer.reorder.offer ((seq, payload) :: rows)).ready ∧
      (consumer.absorb seq payload rows).1.session = consumer.session := by
  let inserted : SessionConsumer :=
    { consumer with reorder := (consumer.reorder.insert seq payload).1 }
  let buffer := consumer.reorder.offer ((seq, payload) :: rows)
  rcases deliverRecovered_eq rows inserted with ⟨drained, events, session⟩
  have hole := AList.lookup_eq_none.mp (lookup_popReady buffer)
  have again := popReady_drained hole
  have nothing : buffer.popReady.1.ready = [] := by
    rw [ready, again]
    rfl
  refine ⟨?_, ?_, session⟩
  · calc (consumer.absorb seq payload rows).1.reorder
      _ = (inserted.deliverRecovered rows).1.reorder.popReady.1 := rfl
      _ = buffer.popReady.1.popReady.1 := by rw [drained]; rfl
      _ = buffer.popReady.1 := by rw [again]
  · calc (consumer.absorb seq payload rows).2
      _ = (inserted.deliverRecovered rows).2 ++
          (inserted.deliverRecovered rows).1.reorder.ready := rfl
      _ = buffer.ready ++ buffer.popReady.1.ready := by rw [events, drained]; rfl
      _ = buffer.ready := by rw [nothing, append_nil]

/-- Rows are offered to the buffer, and what is ready is delivered. -/
theorem Accurate.offered (accurate : Accurate consumer window) {rows : List (Nat × Bytes)}
    (arrivals : consumer.arrivals codec input = rows) (none : consumer.issues input = [])
    (buffer : after.reorder = (consumer.reorder.offer rows).popReady.1)
    (delivered : events = (consumer.reorder.offer rows).ready)
    (locked : ∀ session, consumer.session = some session → after.session = some session)
    (fed : ∀ session ∈ consumer.feeds input, after.session = some session) :
    Accurate after (observe codec consumer window input events) := by
  subst arrivals delivered
  have forward := (consumer.reorder.offer (consumer.arrivals codec input)).drained_popReady.next
  rw [next_offer] at forward
  apply accurate.extend (isReset_ready _)
  · rw [buffer]
    exact (accurate.tally.offer _).popReady
  · rw [buffer]
    exact AList.lookup_eq_none.mp (lookup_popReady _)
  · rw [buffer, forward]
    exact Nat.le_add_right _ _
  · intro seq had
    rw [buffer, has_popReady]
    exact has_offer_of_has had
  · exact locked
  · exact fed
  · intro seq member
    rw [buffer, has_popReady]
    exact has_offer member
  · rw [none]
    nofun
  · rw [losses_ready]
    nofun

variable {session nowMs : Nat}

/-- A session that is not the locked one: an older one changes nothing, a newer one restarts. -/
theorem Accurate.handled (accurate : Accurate consumer window)
    (handled : consumer.admitSession session = (after, .handled events))
    (feeds : consumer.feeds input = if consumer.admits session then [session] else [])
    (nothing : consumer.admits session = false → consumer.arrivals codec input = [])
    (none : consumer.issues input = []) :
    Accurate after (observe codec consumer window input events) := by
  have stranger : consumer.admits session = false := by
    unfold admits
    rw [handled]
  rw [stranger, if_neg Bool.false_ne_true] at feeds
  rcases consumer.admitSession_cases session with ⟨accepted, -⟩ | stale | reset
  · rw [accepted] at handled
    cases handled
  · rw [stale] at handled
    cases handled
    apply accurate.quiet rfl rfl (nothing stranger) none (fun _ => id)
    rw [feeds]
    nofun
  · rw [reset] at handled
    cases handled
    exact accurate_restart _ _ _ _

/-- The session is the locked one from here on. -/
theorem locked_of_accepted {current : SessionConsumer}
    (accepted : consumer.admitSession session = (current, .accepted)) :
    consumer.admits session = true ∧ current.session = some session ∧
      current.reorder = consumer.reorder ∧ current.fec = consumer.fec ∧
      ∀ locked, consumer.session = some locked → current.session = some locked := by
  refine ⟨by unfold admits; rw [accepted], ?_⟩
  rcases consumer.admitSession_cases session with ⟨own, locked⟩ | stale | reset
  · rw [own] at accepted
    cases accepted
    refine ⟨rfl, rfl, rfl, ?_⟩
    intro other known
    rw [locked other known]
  · rw [stale] at accepted
    cases accepted
  · rw [reset] at accepted
    cases accepted

section

variable (accurate : Accurate consumer window)
include accurate

theorem Accurate.onItem {seq : Nat} {payload : Bytes}
    (returned : consumer.onItem codec nowMs session seq payload = .ok (after, events)) :
    Accurate after
      (observe codec consumer window (.onItem nowMs session seq payload) events) := by
  rcases onItem_eq_ok codec returned with
    handled | ⟨current, fetcher, fec, recovered, accepted, -, decoded, absorbed⟩
  · apply accurate.handled handled rfl _ rfl
    intro stranger
    exact if_neg (by rw [stranger]; exact Bool.false_ne_true)
  · rcases locked_of_accepted accepted with ⟨own, session', buffer, decoder, locked⟩
    have facts := absorb_eq { current with fetcher := fetcher, fec := fec } seq payload recovered
    rw [absorbed, buffer] at facts
    have rows : consumer.arrivals codec (.onItem nowMs session seq payload) =
        (seq, payload) :: recovered := by
      rw [arrivals, if_pos own, ← decoder, decoded]
    apply accurate.offered rows rfl facts.1 facts.2.1
    · intro other known
      exact facts.2.2.trans (locked other known)
    · intro other member
      rw [feeds, if_pos own, mem_singleton] at member
      rw [member]
      exact facts.2.2.trans session'

theorem Accurate.onParity {item : ParityItem}
    (returned : consumer.onParity codec session item = .ok (after, events)) :
    Accurate after (observe codec consumer window (.onParity session item) events) := by
  rcases onParity_eq_ok codec returned with
    handled | ⟨accepted, none, silent⟩ |
      ⟨current, decoder, added, recovered, accepted, had, decoded, delivered⟩
  · apply accurate.handled handled rfl _ rfl
    intro stranger
    exact if_neg (by rw [stranger]; exact Bool.false_ne_true)
  · rcases locked_of_accepted accepted with ⟨own, session', buffer, decoder, locked⟩
    apply accurate.quiet buffer silent _ rfl locked
    · intro other member
      rw [feeds, if_pos own, mem_singleton] at member
      rw [member]
      exact session'
    · rw [arrivals, if_pos own, ← decoder, none]
  · rcases locked_of_accepted accepted with ⟨own, session', buffer, same, locked⟩
    have facts := deliverRecovered_eq recovered { current with fec := some added }
    rw [delivered, buffer] at facts
    have rows : consumer.arrivals codec (.onParity session item) = recovered := by
      rw [arrivals, if_pos own, ← same, had]
      dsimp only
      rw [decoded]
    apply accurate.offered rows rfl facts.1 facts.2.1
    · intro other known
      exact facts.2.2.trans (locked other known)
    · intro other member
      rw [feeds, if_pos own, mem_singleton] at member
      rw [member]
      exact facts.2.2.trans session'

theorem Accurate.onFrontier {seq : Nat}
    (returned : consumer.onFrontier session seq = (after, events)) :
    Accurate after (observe codec consumer window (.onFrontier session seq) events) := by
  unfold SessionConsumer.onFrontier at returned
  rcases consumer.admitSession_cases session with ⟨accepted, locked⟩ | stale | reset
  · rw [accepted] at returned
    cases returned
    apply accurate.quiet
    · rfl
    · rfl
    · rfl
    · rfl
    · intro other known
      rw [locked other known]
    · nofun
  · rw [stale] at returned
    cases returned
    exact accurate.quiet rfl rfl rfl rfl (fun _ => id) nofun
  · rw [reset] at returned
    cases returned
    exact accurate_restart _ _ _ _

theorem Accurate.onNack {seq : Nat} :
    Accurate (consumer.onNack seq) (observe codec consumer window (.onNack seq) []) :=
  accurate.quiet rfl rfl rfl rfl (fun _ => id) nofun

end

theorem resolved_eq {seqs : List Nat} {state result : SessionConsumer × List StreamEvent}
    (resolved : seqs.foldlM resolve state = .ok result) :
    result.1.reorder = (state.1.reorder.giveUps seqs).1 ∧
      result.2 = state.2 ++ (state.1.reorder.giveUps seqs).2 ∧
      result.1.session = state.1.session := by
  induction seqs generalizing state with
  | nil =>
    cases resolved
    exact ⟨rfl, (append_nil _).symm, rfl⟩
  | cons seq rest ih =>
    rw [foldlM_cons] at resolved
    rcases Outcome.bind_eq_ok.mp resolved with ⟨next, first, later⟩
    rcases Outcome.bind_eq_ok.mp first with ⟨past, added, last⟩
    unfold u64 at added
    split at added
    · cases added
      cases last
      rcases ih later with ⟨buffer, events, session⟩
      refine ⟨buffer, ?_, session⟩
      rw [events, giveUps, ← append_assoc]
      apply congrArg (· ++ _)
      exact append_assoc _ _ _
    · cases added

/-- A pass gives up exactly what runs out of retries. -/
theorem actions_eq_ok
    (returned : consumer.call codec (.actions nowMs) = .ok (after, events)) :
    after.reorder = (consumer.reorder.giveUps (consumer.fetcher.exhausted nowMs)).1 ∧
      events = (consumer.reorder.giveUps (consumer.fetcher.exhausted nowMs)).2 ∧
      after.session = consumer.session ∧
      consumer.issues (.actions nowMs) = consumer.fetcher.exhausted nowMs := by
  rcases Outcome.bind_eq_ok.mp returned with ⟨⟨current, made, reported⟩, first, same⟩
  cases same
  rcases Outcome.bind_eq_ok.mp first with ⟨⟨fetcher, acts⟩, acted, second⟩
  rcases Outcome.bind_eq_ok.mp second with ⟨⟨resolved, lost⟩, skipped, last⟩
  cases last
  have gaveUp := (AdaptiveFetcher.acted acted).gaveUp
  rw [gaveUp] at skipped
  rcases resolved_eq skipped with ⟨buffer, events, session⟩
  refine ⟨buffer, events, session, ?_⟩
  rw [issues, acted]
  exact gaveUp

theorem Accurate.actions (accurate : Accurate consumer window)
    (returned : consumer.call codec (.actions nowMs) = .ok (after, events))
    (cleared : consumer.reorder.Cleared (consumer.fetcher.exhausted nowMs)) :
    Accurate after (observe codec consumer window (.actions nowMs) events) := by
  rcases actions_eq_ok returned with ⟨buffer, rfl, session, issued⟩
  have sorted := consumer.fetcher.sorted_exhausted nowMs
  have forward := le_next_giveUps consumer.reorder
    (consumer.fetcher.exhausted nowMs)
  apply accurate.extend (isReset_giveUps _ _)
  · rw [buffer]
    exact (append_nil window.accepted).symm ▸
      accurate.tally.giveUps sorted accurate.drained cleared
  · rw [buffer]
    exact drained_giveUps accurate.drained
  · rw [buffer]
    exact forward.1
  · intro seq had
    rw [buffer]
    exact has_giveUps.mpr (Or.inl had)
  · rw [session]
    exact fun _ => id
  · nofun
  · nofun
  · rw [issued, buffer]
    exact forward.2
  · rw [issued]
    exact cleared_iff.mp cleared

section Exactly

/-- What a pass reports lost is given up only where the pass is orderly. -/
theorem orderly_of_losses (accurate : Accurate consumer window)
    (returned : consumer.call codec (.actions nowMs) = .ok (after, events))
    (accounted : Accounted after (observe codec consumer window (.actions nowMs) events))
    (unseen : ∀ seq ∈ events.flatMap StreamEvent.losses, seq ∉ window.received) :
    Orderly consumer window nowMs := by
  rcases actions_eq_ok returned with ⟨buffer, rfl, session, issued⟩
  have given := accounted.givenUp
  unfold observe at given
  rw [isReset_giveUps, if_neg Bool.false_ne_true] at given
  rw [issued, flatMap_append] at given
  constructor
  · rw [cleared_iff]
    intro seq lost
    rcases mem_append.mp (given seq (mem_append_right _ lost)) with old | new
    · have passed : consumer.reorder.has seq :=
        has_iff.mpr (Or.inl (accurate.gaveUp seq old))
      exact absurd passed (mem_losses_giveUps.mp lost).1
    · exact new
  · intro seq exhausted refused
    by_contra missing
    refine unseen seq ?_ (accurate.refused seq refused)
    exact mem_losses_giveUps.mpr ⟨missing, seq, exhausted, Nat.le_refl seq⟩

/-- What an orderly pass reports lost never arrived. -/
theorem Orderly.unseen_losses (orderly : Orderly consumer window nowMs)
    (accurate : Accurate consumer window)
    (returned : consumer.call codec (.actions nowMs) = .ok (after, events)) :
    ∀ seq ∈ events.flatMap StreamEvent.losses, seq ∉ window.received := by
  rcases actions_eq_ok returned with ⟨-, rfl, -, -⟩
  intro seq lost received
  have missing := (mem_losses_giveUps.mp lost).1
  have exhausted := cleared_iff.mp orderly.cleared seq lost
  rcases accurate.seen seq received with had | refused
  · exact missing had
  · exact missing (orderly.unseen seq exhausted refused)

theorem losses_handled
    (handled : consumer.admitSession session = (after, .handled events)) :
    events.flatMap StreamEvent.losses = [] := by
  rcases consumer.admitSession_cases session with ⟨accepted, -⟩ | stale | reset
  · rw [accepted] at handled
    cases handled
  · rw [stale] at handled
    cases handled
    rfl
  · rw [reset] at handled
    cases handled
    rfl

/-- Only a pass reports losses. -/
theorem losses_call (returned : consumer.call codec input = .ok (after, events))
    (other : ∀ nowMs, input ≠ .actions nowMs) : events.flatMap StreamEvent.losses = [] := by
  cases input with
  | onItem nowMs session seq payload =>
    rcases onItem_eq_ok codec returned with
      handled | ⟨current, fetcher, fec, recovered, -, -, -, absorbed⟩
    · exact losses_handled handled
    · have facts := absorb_eq { current with fetcher := fetcher, fec := fec } seq payload recovered
      rw [absorbed] at facts
      have drained : events = _ := facts.2.1
      rw [drained]
      exact losses_ready _
  | onParity session item =>
    rcases onParity_eq_ok codec returned with
      handled | ⟨-, -, silent⟩ | ⟨current, decoder, added, recovered, -, -, -, delivered⟩
    · exact losses_handled handled
    · rw [silent]
      rfl
    · have facts := deliverRecovered_eq recovered { current with fec := some added }
      rw [delivered] at facts
      have drained : events = _ := facts.2.1
      rw [drained]
      exact losses_ready _
  | onFrontier session seq =>
    have same : consumer.onFrontier session seq = (after, events) := Outcome.ok.inj returned
    unfold SessionConsumer.onFrontier at same
    split at same
    · rename_i handled
      cases same
      exact losses_handled handled
    · cases same
      rfl
  | onNack seq =>
    cases returned
    rfl
  | actions nowMs => exact absurd rfl (other nowMs)

theorem Accurate.call (accurate : Accurate consumer window)
    (returned : consumer.call codec input = .ok (after, events))
    (orderly : ∀ nowMs, input = .actions nowMs → Orderly consumer window nowMs) :
    Accurate after (observe codec consumer window input events) := by
  cases input with
  | onItem nowMs session seq payload => exact accurate.onItem returned
  | onParity session item => exact accurate.onParity returned
  | onFrontier session seq => exact accurate.onFrontier (Outcome.ok.inj returned)
  | onNack seq =>
    cases returned
    exact accurate.onNack
  | actions nowMs => exact accurate.actions returned (orderly nowMs rfl).cleared

/-- A call keeps the account exactly where its pass, if it is one, is orderly. -/
theorem Accurate.losesNothing_iff (accurate : Accurate consumer window) :
    LosesNothing codec (some (consumer, window)) input ↔
      GivesUpOrderly codec (some (consumer, window)) input := by
  constructor
  · intro honest current history nowMs result same pass returned
    cases same
    cases pass
    rcases honest consumer window result.1 result.2 rfl returned with ⟨accounted, unseen⟩
    exact orderly_of_losses accurate returned accounted unseen
  · intro orderly current history after events same returned
    cases same
    have every : ∀ nowMs, input = .actions nowMs → Orderly consumer window nowMs :=
      fun nowMs pass => orderly consumer window nowMs _ rfl pass returned
    refine ⟨(accurate.call returned every).accounted, ?_⟩
    by_cases pass : ∃ nowMs, input = .actions nowMs
    · rcases pass with ⟨nowMs, rfl⟩
      exact (every nowMs rfl).unseen_losses accurate returned
    · rw [losses_call returned (not_exists.mp pass)]
      nofun

variable (codec)

/-- Every run, from a new consumer on: at every call that returns, the stream is accounted for and
nothing that arrived is reported lost, exactly where every pass of the run gives up orderly. -/
theorem loses_nothing_iff (firstSeq : Nat) (cfg : ConsumerConfig) (calls : List ConsumerCall) :
    Run.Throughout (step codec) (start firstSeq cfg) calls (LosesNothing codec) ↔
      Run.Throughout (step codec) (start firstSeq cfg) calls (GivesUpOrderly codec) := by
  apply Run.throughout_iff (fun state => ∀ consumer window, state = some (consumer, window) →
    Accurate consumer window)
  · intro state input accurate
    cases state with
    | none => exact iff_of_true nofun nofun
    | some both => exact (accurate both.1 both.2 rfl).losesNothing_iff
  · intro state input accurate honest consumer window stepped
    cases state with
    | none => cases stepped
    | some both =>
      have before := accurate both.1 both.2 rfl
      have orderly := before.losesNothing_iff.mp honest
      dsimp only [step] at stepped
      split at stepped
      · rename_i after events returned
        cases stepped
        exact before.call returned
          (fun nowMs pass => orderly both.1 both.2 nowMs _ rfl pass returned)
      · cases stepped
  · intro consumer window same
    cases same
    exact accurate_restart cfg none firstSeq []

/-- No retries, and a nack for 3 while the request for 1 still waits. -/
def nackedCalls : List ConsumerCall :=
  [.actions 500, .onItem 600 1 0 [10], .onItem 600 1 2 [12], .onNack 3]

def nackedConfig : ConsumerConfig :=
  { ConsumerConfig.default with fetcher := { FetcherConfig.default with maxRetries := 0 } }

/-- Giving up 3 reports 1 lost as well, and drops the buffered 2 without a word. -/
theorem nacked_drops_item :
    ¬ ∀ (codec : RowCodec) (firstSeq : Nat) (cfg : ConsumerConfig) (calls : List ConsumerCall),
      Run.Throughout (step codec) (start firstSeq cfg) calls (LosesNothing codec) := by
  intro all
  have honest := all (fun _ _ _ => none) 0 nackedConfig (nackedCalls ++ [.actions 1000])
    nackedCalls (.actions 1000) [] rfl
  have reported : (step (fun _ _ _ => none)
      (nackedCalls.foldl (step (fun _ _ _ => none)) (start 0 nackedConfig)) (.actions 1000)).map
        (fun state => (state.2.start, state.2.events.flatMap StreamEvent.named,
          state.1.nextSeq)) = some (0, [0, 1, 3], 4) := by
    decide +kernel
  cases before : nackedCalls.foldl (step (fun _ _ _ => none)) (start 0 nackedConfig) with
  | none =>
    rw [before] at reported
    cases reported
  | some state =>
    rw [before] at reported honest
    dsimp only [step] at reported
    split at reported
    · rename_i after events returned
      simp only [Option.map_some, Option.some.injEq, Prod.mk.injEq] at reported
      have named := (honest state.1 state.2 after events rfl returned).1.named.length_eq
      rw [reported.1, reported.2.1, reported.2.2] at named
      cases named
    · cases reported

end Exactly

end SessionConsumer
end NdnExt.Stream
