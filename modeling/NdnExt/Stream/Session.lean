import NdnExt.Stream.Fec
import NdnExt.Stream.Fetch

/-! The consumer of a stream session: session lock, reorder buffer, fetcher and recovery. -/

namespace NdnExt.Stream

open NdnExt.Lib

structure ConsumerConfig where
  fetcher : FetcherConfig
  reorderSpan : Nat
  fec : Option FecConfig

def ConsumerConfig.default : ConsumerConfig := ⟨FetcherConfig.default, 1024, none⟩

inductive StreamEvent where
  | item (seq : Nat) (payload : Bytes)
  | lost (seqs : List Nat)
  | sessionReset (session : Nat)

structure SessionConsumer where
  cfg : ConsumerConfig
  session : Option Nat
  reorder : ReorderBuffer
  fetcher : AdaptiveFetcher
  fec : Option GroupDecoder

inductive ConsumerCall where
  | onItem (nowMs session seq : Nat) (payload : Bytes)
  | onParity (session : Nat) (item : ParityItem)
  | onFrontier (session seq : Nat)
  | onNack (seq : Nat)
  | actions (nowMs : Nat)

inductive Admitted where
  | accepted
  | handled (events : List StreamEvent)

namespace SessionConsumer

/-- The parts that a new session starts afresh. -/
def restart (cfg : ConsumerConfig) (session : Option Nat) (firstSeq : Nat) : SessionConsumer where
  cfg := cfg
  session := session
  reorder := ReorderBuffer.new firstSeq cfg.reorderSpan
  fetcher := AdaptiveFetcher.new firstSeq cfg.fetcher
  fec := cfg.fec.map GroupDecoder.new

def new (firstSeq : Nat) (cfg : ConsumerConfig) : SessionConsumer := restart cfg none firstSeq

def nextSeq (consumer : SessionConsumer) : Nat := consumer.reorder.next

def admitSession (consumer : SessionConsumer) (session : Nat) : SessionConsumer × Admitted :=
  match consumer.session with
  | none => ({ consumer with session := some session }, .accepted)
  | some current =>
    if session = current then (consumer, .accepted)
    else if session < current then (consumer, .handled [])
    else (restart consumer.cfg (some session) 0, .handled [.sessionReset session])

/-- A call of the locked session, of an older one or of a newer one. -/
theorem admitSession_cases (consumer : SessionConsumer) (session : Nat) :
    consumer.admitSession session = ({ consumer with session := some session }, .accepted) ∧
        (∀ locked, consumer.session = some locked → locked = session) ∨
      consumer.admitSession session = (consumer, .handled []) ∨
      consumer.admitSession session =
        (restart consumer.cfg (some session) 0, .handled [.sessionReset session]) := by
  unfold admitSession
  cases locked : consumer.session with
  | none => exact Or.inl ⟨rfl, nofun⟩
  | some current =>
    dsimp only
    by_cases same : session = current
    · rw [if_pos same]
      refine Or.inl ⟨?_, ?_⟩
      · rw [same, ← locked]
      · intro other known
        rw [same, Option.some.inj known]
    · rw [if_neg same]
      split
      · exact Or.inr (Or.inl rfl)
      · exact Or.inr (Or.inr rfl)

def syncCursor (consumer : SessionConsumer) : SessionConsumer :=
  { consumer with
    fetcher := consumer.fetcher.onCursor consumer.reorder.next
    fec := consumer.fec.map (fun decoder => decoder.evictBelow consumer.reorder.next) }

/-- The contiguous run at the cursor, as events. -/
def deliverReady (consumer : SessionConsumer) : SessionConsumer × List StreamEvent :=
  let (reorder, ready) := consumer.reorder.popReady
  (syncCursor { consumer with reorder := reorder },
    ready.map (fun entry => .item entry.1 entry.2))

theorem fetcher_deliverReady (consumer : SessionConsumer) :
    consumer.deliverReady.1.fetcher =
      consumer.fetcher.onCursor consumer.reorder.popReady.1.next := rfl

theorem reorder_deliverReady (consumer : SessionConsumer) :
    consumer.deliverReady.1.reorder = consumer.reorder.popReady.1 := rfl

def takeRecovered (consumer : SessionConsumer) (entry : Nat × Bytes) : SessionConsumer :=
  { consumer with
    fetcher := consumer.fetcher.markHave entry.1
    reorder := (consumer.reorder.insert entry.1 entry.2).1 }

def deliverRecovered (consumer : SessionConsumer) (recovered : List (Nat × Bytes)) :
    SessionConsumer × List StreamEvent :=
  deliverReady (recovered.foldl takeRecovered consumer)

def absorb (consumer : SessionConsumer) (seq : Nat) (payload : Bytes)
    (recovered : List (Nat × Bytes)) : SessionConsumer × List StreamEvent :=
  let inserted := { consumer with reorder := (consumer.reorder.insert seq payload).1 }
  let (consumer, events) := inserted.deliverRecovered recovered
  let (consumer, ready) := consumer.deliverReady
  (consumer, events ++ ready)

variable (codec : RowCodec)

/-- The decoder's share of an item, if the stream has parity. -/
def decodeSource (fec : Option GroupDecoder) (seq : Nat) (payload : Bytes) :
    Checked (Option GroupDecoder × List (Nat × Bytes)) :=
  match fec with
  | none => pure (none, [])
  | some decoder => do
    let (decoder, recovered) ← decoder.addSource codec seq payload
    pure (some decoder, recovered)

def onItem (consumer : SessionConsumer) (nowMs session seq : Nat) (payload : Bytes) :
    Checked (SessionConsumer × List StreamEvent) :=
  match consumer.admitSession session with
  | (consumer, .handled events) => pure (consumer, events)
  | (consumer, .accepted) => do
    let fetcher ← consumer.fetcher.onData nowMs seq
    let (fec, recovered) ← decodeSource codec consumer.fec seq payload
    pure ({ consumer with fetcher := fetcher, fec := fec }.absorb seq payload recovered)

def onParity (consumer : SessionConsumer) (session : Nat) (item : ParityItem) :
    Checked (SessionConsumer × List StreamEvent) :=
  match consumer.admitSession session with
  | (consumer, .handled events) => pure (consumer, events)
  | (consumer, .accepted) =>
    match consumer.fec with
    | none => pure (consumer, [])
    | some decoder => do
      let (decoder, recovered) ← decoder.addParity codec item
      pure ({ consumer with fec := some decoder }.deliverRecovered recovered)

def onFrontier (consumer : SessionConsumer) (session seq : Nat) :
    SessionConsumer × List StreamEvent :=
  match consumer.admitSession session with
  | (consumer, .handled events) => (consumer, events)
  | (consumer, .accepted) =>
    ({ consumer with fetcher := consumer.fetcher.onFrontier seq }, [])

/-- An item of another session changes nothing but the session; one of the locked session reaches
the fetcher, the decoder and the buffer. -/
theorem onItem_eq_ok {consumer after : SessionConsumer} {nowMs session seq : Nat}
    {payload : Bytes} {events : List StreamEvent}
    (returned : consumer.onItem codec nowMs session seq payload = .ok (after, events)) :
    consumer.admitSession session = (after, .handled events) ∨
      ∃ current fetcher fec recovered,
        consumer.admitSession session = (current, .accepted) ∧
        current.fetcher.onData nowMs seq = .ok fetcher ∧
        decodeSource codec current.fec seq payload = .ok (fec, recovered) ∧
        ({ current with fetcher := fetcher, fec := fec } : SessionConsumer).absorb seq payload
          recovered = (after, events) := by
  unfold onItem at returned
  rcases admitted : consumer.admitSession session with ⟨current, verdict⟩
  rw [admitted] at returned
  cases verdict with
  | handled early =>
    cases returned
    exact Or.inl rfl
  | accepted =>
    rcases Outcome.bind_eq_ok.mp returned with ⟨fetcher, fetched, second⟩
    rcases Outcome.bind_eq_ok.mp second with ⟨⟨fec, recovered⟩, decoded, last⟩
    exact Or.inr ⟨current, fetcher, fec, recovered, rfl, fetched, decoded, Outcome.ok.inj last⟩

theorem onParity_eq_ok {consumer after : SessionConsumer} {session : Nat} {item : ParityItem}
    {events : List StreamEvent}
    (returned : consumer.onParity codec session item = .ok (after, events)) :
    consumer.admitSession session = (after, .handled events) ∨
      consumer.admitSession session = (after, .accepted) ∧ after.fec = none ∧ events = [] ∨
      ∃ current decoder added recovered,
        consumer.admitSession session = (current, .accepted) ∧
        current.fec = some decoder ∧
        decoder.addParity codec item = .ok (added, recovered) ∧
        ({ current with fec := some added } : SessionConsumer).deliverRecovered recovered =
          (after, events) := by
  unfold onParity at returned
  rcases admitted : consumer.admitSession session with ⟨current, verdict⟩
  rw [admitted] at returned
  cases verdict with
  | handled early =>
    cases returned
    exact Or.inl rfl
  | accepted =>
    refine Or.inr ?_
    dsimp only at returned
    cases had : current.fec with
    | none =>
      rw [had] at returned
      cases returned
      exact Or.inl ⟨rfl, had, rfl⟩
    | some decoder =>
      rw [had] at returned
      rcases Outcome.bind_eq_ok.mp returned with ⟨⟨added, recovered⟩, second, last⟩
      exact Or.inr ⟨current, decoder, added, recovered, rfl, had, second, Outcome.ok.inj last⟩

def onNack (consumer : SessionConsumer) (seq : Nat) : SessionConsumer :=
  { consumer with fetcher := consumer.fetcher.onNack seq }

/-- Skips past a seq that was given up, reports the loss and delivers what that unblocks. -/
def resolve (state : SessionConsumer × List StreamEvent) (seq : Nat) :
    Checked (SessionConsumer × List StreamEvent) := do
  let past ← u64 (seq + 1)
  let (reorder, lost) := state.1.reorder.skipTo past
  let (consumer, ready) := { state.1 with reorder := reorder }.deliverReady
  pure (consumer, state.2 ++ (if lost = [] then [] else [.lost lost]) ++ ready)

/-- Returns the requests to express and the events. -/
def actions (consumer : SessionConsumer) (nowMs : Nat) :
    Checked (SessionConsumer × List FetchAction × List StreamEvent) := do
  let (fetcher, acts) ← consumer.fetcher.actions nowMs
  let (consumer, events) ← (acts.filterMap FetchAction.gaveUp).foldlM resolve
    ({ consumer with fetcher := fetcher }, [])
  pure (consumer, acts.filter (fun act => act.gaveUp.isNone), events)

/-- A call, with the events it returns. -/
def call (consumer : SessionConsumer) :
    ConsumerCall → Checked (SessionConsumer × List StreamEvent)
  | .onItem nowMs session seq payload => consumer.onItem codec nowMs session seq payload
  | .onParity session item => consumer.onParity codec session item
  | .onFrontier session seq => .ok (consumer.onFrontier session seq)
  | .onNack seq => .ok (consumer.onNack seq, [])
  | .actions nowMs => do
    let (consumer, _, events) ← consumer.actions nowMs
    pure (consumer, events)

end SessionConsumer
end NdnExt.Stream
