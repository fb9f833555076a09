import NdnExt.Lib.Run
import NdnExt.Stream.Session
import Mathlib.Data.List.Range
import Mathlib.Tactic.Ring

/-! How much a consumer holds of a stream. -/

namespace NdnExt.Stream

open NdnExt.Lib ReorderBuffer Outcome

def ConsumerConfig.span (cfg : ConsumerConfig) : Nat := max cfg.reorderSpan 1

/-- What a peer can make the consumer hold. -/
structure Bounded (cfg : ConsumerConfig) (consumer : SessionConsumer) : Prop where
  buffered : consumer.reorder.buffered.keys.length ≤ cfg.reorderSpan
  groups : ∀ decoder, consumer.fec = some decoder →
    decoder.groups.keys.length ≤ cfg.reorderSpan / max decoder.cfg.k 1 + 2

/-! ### Counting -/

theorem length_le_of_interval {keys : List Nat} (distinct : keys.Nodup) (low count : Nat)
    (inside : ∀ key ∈ keys, low ≤ key ∧ key < low + count) : keys.length ≤ count := by
  have subset : keys ⊆ List.range' low count := by
    intro key member
    exact List.mem_range'_1.mpr (inside key member)
  calc keys.length
      ≤ (List.range' low count).length := (List.subperm_of_subset distinct subset).length_le
    _ = count := List.length_range'

/-- The groups of size `k` that begin within the span. -/
theorem lt_group_count {next span k group : Nat} (positive : 1 ≤ k)
    (within : group * k < next + max span 1) : group < next / k + (span / k + 2) := by
  have begins := Nat.div_add_mod next k
  have fits := Nat.div_add_mod span k
  have rest := Nat.mod_lt next positive
  have rest' := Nat.mod_lt span positive
  have total : group * k < (next / k + (span / k + 2)) * k := by
    calc group * k
        < next + max span 1 := within
      _ ≤ k * (next / k) + k * (span / k) + 2 * k := by omega
      _ = (next / k + (span / k + 2)) * k := by ring
  exact Nat.lt_of_mul_lt_mul_right total

section Decoding

variable {codec : RowCodec} {decoder after : GroupDecoder} {rows : List (Nat × Bytes)}

/-- The group begins before `limit`. -/
def GroupDecoder.BeginsBefore (decoder : GroupDecoder) (limit group : Nat) : Prop :=
  group * max decoder.cfg.k 1 < limit

instance (limit group : Nat) : Decidable (decoder.BeginsBefore limit group) :=
  inferInstanceAs (Decidable (_ < _))

/-- Recovery opens no group. -/
theorem tryRecover_groups {group : Nat}
    (returned : decoder.tryRecover codec group = .ok (after, rows)) :
    after.cfg = decoder.cfg ∧ ∀ other, other ∈ after.groups ↔ other ∈ decoder.groups := by
  unfold GroupDecoder.tryRecover at returned
  cases found : decoder.groups.lookup group with
  | none =>
    rw [found] at returned
    cases returned
    exact ⟨rfl, fun _ => Iff.rfl⟩
  | some state =>
    simp only [found] at returned
    have tracked : group ∈ decoder.groups := HashMap.mem_iff_lookup.mpr ⟨state, found⟩
    split at returned
    · cases returned
      exact ⟨rfl, fun _ => Iff.rfl⟩
    · split at returned
      · cases returned
        exact ⟨rfl, fun _ => Iff.rfl⟩
      · obtain ⟨n, _, decoded⟩ := bind_eq_ok.mp returned
        split at decoded
        · cases decoded
          exact ⟨rfl, fun _ => Iff.rfl⟩
        · obtain ⟨⟨taken, out⟩, _, last⟩ := bind_eq_ok.mp decoded
          cases last
          refine ⟨rfl, ?_⟩
          intro other
          change other ∈ decoder.groups.insert group _ ↔ _
          rw [AList.mem_insert]
          exact or_iff_right_of_imp (by rintro rfl; exact tracked)

/-- A group is opened, or was open already. -/
structure Opens (decoder after : GroupDecoder) (group : Nat) : Prop where
  cfg : after.cfg = decoder.cfg
  groups : ∀ other ∈ after.groups, other = group ∨ other ∈ decoder.groups

theorem opens_tryRecover {group : Nat} {state : GroupState}
    (returned : (decoder.setGroup group state).tryRecover codec group = .ok (after, rows)) :
    Opens decoder after group := by
  obtain ⟨cfg, groups⟩ := tryRecover_groups returned
  refine ⟨cfg, ?_⟩
  intro other member
  exact (AList.mem_insert _).mp ((groups other).mp member)

theorem opens_addSource {seq : Nat} {payload : Bytes}
    (returned : decoder.addSource codec seq payload = .ok (after, rows)) :
    Opens decoder after (groupOf seq decoder.cfg.k) :=
  opens_tryRecover returned

/-- A parity item past the code's rate leaves no trace. -/
theorem opens_addParity {item : ParityItem}
    (returned : decoder.addParity codec item = .ok (after, rows)) :
    after = decoder ∨ item.index < decoder.cfg.r ∧ Opens decoder after item.group := by
  unfold GroupDecoder.addParity at returned
  split at returned
  · cases returned
    exact Or.inl rfl
  · next inside => exact Or.inr ⟨Nat.lt_of_not_le inside, opens_tryRecover returned⟩

end Decoding

namespace SessionConsumer

/-- A run goes on from what a call returned. -/
def after (codec : RowCodec) (reached : Checked SessionConsumer) (call : ConsumerCall) :
    Checked SessionConsumer := do
  let consumer ← reached
  let (next, _) ← consumer.call codec call
  pure next

/-- A call in `session` gets past the session check. -/
def Admits (consumer : SessionConsumer) (session : Nat) : Prop :=
  ∀ locked, consumer.session = some locked → locked = session

/-- The first seq beyond what the reorder buffer takes. -/
def limit (consumer : SessionConsumer) : Nat := consumer.reorder.next + consumer.reorder.maxSpan

/-- The decoder is given nothing of a group that begins beyond the buffer's span. -/
def Near (consumer : SessionConsumer) : ConsumerCall → Prop
  | .onItem _ session seq _ => consumer.Admits session →
    ∀ decoder, consumer.fec = some decoder →
      decoder.BeginsBefore consumer.limit (groupOf seq decoder.cfg.k)
  | .onParity session item => consumer.Admits session →
    ∀ decoder, consumer.fec = some decoder → item.index < decoder.cfg.r →
      decoder.BeginsBefore consumer.limit item.group
  | _ => True

/-- Nothing is held from beyond the span. -/
structure Reined (cfg : ConsumerConfig) (consumer : SessionConsumer) : Prop where
  same : consumer.cfg = cfg
  span : consumer.reorder.maxSpan = cfg.span
  buffered : ∀ seq ∈ consumer.reorder.buffered, seq < consumer.limit
  groups : ∀ decoder, consumer.fec = some decoder → ∀ group ∈ decoder.groups,
    decoder.BeginsBefore consumer.limit group

/-- Nor is the item at the cursor, or a group that lies behind it. -/
structure Tidy (cfg : ConsumerConfig) (consumer : SessionConsumer) : Prop
    extends Reined cfg consumer where
  drained : consumer.reorder.next ∉ consumer.reorder.buffered
  current : ∀ decoder, consumer.fec = some decoder → ∀ group ∈ decoder.groups,
    groupOf consumer.reorder.next decoder.cfg.k ≤ group

variable {cfg : ConsumerConfig} {consumer : SessionConsumer}

theorem Tidy.bounded (tidy : Tidy cfg consumer) : Bounded cfg consumer := by
  have limit : consumer.limit = consumer.reorder.next + max cfg.reorderSpan 1 := by
    rw [SessionConsumer.limit, tidy.span, ConsumerConfig.span]
  constructor
  · have inside : ∀ seq ∈ consumer.reorder.buffered.keys, consumer.reorder.next + 1 ≤ seq ∧
        seq < consumer.reorder.next + 1 + cfg.reorderSpan := by
      intro seq key
      have member := AList.mem_keys.mpr key
      have ahead := consumer.reorder.ahead seq member
      have within := tidy.buffered seq member
      have other : seq ≠ consumer.reorder.next := by
        rintro rfl
        exact tidy.drained member
      omega
    exact length_le_of_interval consumer.reorder.buffered.keys_nodup _ _ inside
  · intro decoder held
    apply length_le_of_interval decoder.groups.keys_nodup
      (consumer.reorder.next / max decoder.cfg.k 1)
    intro group key
    have member := AList.mem_keys.mpr key
    refine ⟨tidy.current decoder held group member, ?_⟩
    have within := tidy.groups decoder held group member
    rw [GroupDecoder.BeginsBefore, limit] at within
    exact lt_group_count (le_max_right _ _) within

/-! ### One call -/

theorem tidy_restart (cfg : ConsumerConfig) (session : Option Nat) (firstSeq : Nat) :
    Tidy cfg (restart cfg session firstSeq) where
  same := rfl
  span := rfl
  buffered seq member := absurd member (AList.notMem_empty _)
  groups decoder held group member := by
    obtain ⟨shape, _, rfl⟩ := Option.map_eq_some_iff.mp held
    exact absurd member (AList.notMem_empty _)
  drained := AList.notMem_empty _
  current decoder held group member := by
    obtain ⟨shape, _, rfl⟩ := Option.map_eq_some_iff.mp held
    exact absurd member (AList.notMem_empty _)

theorem limit_insert (seq : Nat) (item : Bytes) :
    ({ consumer with reorder := (consumer.reorder.insert seq item).1 } : SessionConsumer).limit =
      consumer.limit := by
  simp [limit]

section

variable (reined : Reined cfg consumer)
include reined

/-- The buffer refuses what lies beyond the span. -/
theorem Reined.insert (seq : Nat) (item : Bytes) :
    Reined cfg { consumer with reorder := (consumer.reorder.insert seq item).1 } := by
  refine ⟨reined.same, ?_, ?_, ?_⟩
  · exact (maxSpan_insert _ _ _).trans reined.span
  · intro other member
    rw [limit_insert]
    obtain ⟨value, found⟩ := HashMap.mem_iff_lookup.mp member
    rw [lookup_insert] at found
    split at found
    · next placed =>
      obtain ⟨rfl, accepted⟩ := placed
      have within := (insert_accepted.mp accepted).2.1
      exact Nat.lt_of_lt_of_le within (min_le_left _ _)
    · exact reined.buffered other (HashMap.mem_iff_lookup.mpr ⟨value, found⟩)
  · intro decoder held group member
    rw [limit_insert]
    exact reined.groups decoder held group member

theorem Reined.takeRecovered (entry : Nat × Bytes) :
    Reined cfg (consumer.takeRecovered entry) := by
  have inserted := reined.insert entry.1 entry.2
  exact ⟨inserted.same, inserted.span, inserted.buffered, inserted.groups⟩

theorem Reined.takeAllRecovered (recovered : List (Nat × Bytes)) :
    Reined cfg (recovered.foldl SessionConsumer.takeRecovered consumer) := by
  induction recovered generalizing consumer with
  | nil => exact reined
  | cons entry rest ih => exact ih (reined.takeRecovered entry)

/-- Delivery drains the buffer and evicts the groups that are passed. -/
theorem Reined.deliverReady :
    Tidy cfg consumer.deliverReady.1 := by
  have drained := consumer.reorder.drained_popReady
  have limit : consumer.limit ≤ consumer.deliverReady.1.limit := by
    have next := drained.next
    have span := drained.span
    simp only [SessionConsumer.limit, reorder_deliverReady]
    omega
  refine ⟨⟨reined.same, drained.span.trans reined.span, ?_, ?_⟩, ?_, ?_⟩
  · intro seq member
    have above := (consumer.deliverReady.1.reorder.ahead seq member).1
    have earlier := (mem_popReady above).mp member
    exact Nat.lt_of_lt_of_le (reined.buffered seq earlier) limit
  · intro decoder held group member
    obtain ⟨before, had, rfl⟩ := Option.map_eq_some_iff.mp held
    have kept := (HashMap.mem_retain_key _ _ _).mp member
    exact Nat.lt_of_lt_of_le (reined.groups before had group kept.1) limit
  · exact AList.lookup_eq_none.mp (lookup_popReady _)
  · intro decoder held group member
    obtain ⟨before, had, rfl⟩ := Option.map_eq_some_iff.mp held
    have kept := (HashMap.mem_retain_key _ _ _).mp member
    exact of_decide_eq_true kept.2

theorem Reined.deliverRecovered (recovered : List (Nat × Bytes)) :
    Tidy cfg (consumer.deliverRecovered recovered).1 :=
  (reined.takeAllRecovered recovered).deliverReady

theorem Reined.absorb (seq : Nat) (payload : Bytes)
    (recovered : List (Nat × Bytes)) : Tidy cfg (consumer.absorb seq payload recovered).1 :=
  ((reined.insert seq payload).deliverRecovered recovered).deliverReady

/-- A group that begins within the span may be opened. -/
theorem Reined.opens {decoder added : GroupDecoder} {group : Nat}
    (held : consumer.fec = some decoder) (opens : Opens decoder added group)
    (near : decoder.BeginsBefore consumer.limit group) :
    Reined cfg { consumer with fec := some added } := by
  refine ⟨reined.same, reined.span, reined.buffered, ?_⟩
  intro other same entry member
  cases same
  rw [GroupDecoder.BeginsBefore, opens.cfg]
  rcases opens.groups entry member with rfl | earlier
  · exact near
  · exact reined.groups decoder held entry earlier

end

theorem Tidy.locked (tidy : Tidy cfg consumer) (session : Option Nat) :
    Tidy cfg { consumer with session := session } :=
  ⟨⟨tidy.same, tidy.span, tidy.buffered, tidy.groups⟩, tidy.drained, tidy.current⟩

theorem Tidy.handled {session : Nat} {current : SessionConsumer} {events : List StreamEvent}
    (tidy : Tidy cfg consumer)
    (handled : consumer.admitSession session = (current, .handled events)) : Tidy cfg current := by
  rcases consumer.admitSession_cases session with ⟨accepted, _⟩ | ignored | restarted
  · rw [accepted] at handled
    cases handled
  · rw [ignored] at handled
    cases handled
    exact tidy
  · rw [restarted, tidy.same] at handled
    cases handled
    exact tidy_restart cfg _ _

theorem accepted_eq {session : Nat} {current : SessionConsumer}
    (accepted : consumer.admitSession session = (current, .accepted)) :
    current = { consumer with session := some session } ∧ consumer.Admits session := by
  rcases consumer.admitSession_cases session with ⟨locked, admits⟩ | ignored | restarted
  · rw [locked] at accepted
    cases accepted
    exact ⟨rfl, admits⟩
  · rw [ignored] at accepted
    cases accepted
  · rw [restarted] at accepted
    cases accepted

section Calls

variable {codec : RowCodec} {after : SessionConsumer} {events : List StreamEvent}

theorem Tidy.onItem (tidy : Tidy cfg consumer) {nowMs session seq : Nat} {payload : Bytes}
    (near : consumer.Near (.onItem nowMs session seq payload))
    (returned : consumer.onItem codec nowMs session seq payload = .ok (after, events)) :
    Tidy cfg after := by
  rcases onItem_eq_ok codec returned with handled |
    ⟨current, fetcher, fec, recovered, accepted, _, decoded, absorbed⟩
  · exact tidy.handled handled
  · obtain ⟨rfl, admits⟩ := accepted_eq accepted
    have reined : Reined cfg
        { consumer with session := some session, fetcher := fetcher, fec := fec } := by
      cases held : consumer.fec with
      | none =>
        simp only [held] at decoded
        cases decoded
        refine ⟨tidy.same, tidy.span, tidy.buffered, ?_⟩
        intro decoder impossible
        cases impossible
      | some decoder =>
        simp only [held] at decoded
        obtain ⟨⟨added, rows⟩, offered, last⟩ := bind_eq_ok.mp decoded
        cases last
        have opened :=
          tidy.toReined.opens held (opens_addSource offered) (near admits decoder held)
        exact ⟨opened.same, opened.span, opened.buffered, opened.groups⟩
    have absorbs := reined.absorb seq payload recovered
    rw [absorbed] at absorbs
    exact absorbs

theorem Tidy.onParity (tidy : Tidy cfg consumer) {session : Nat} {item : ParityItem}
    (near : consumer.Near (.onParity session item))
    (returned : consumer.onParity codec session item = .ok (after, events)) : Tidy cfg after := by
  rcases onParity_eq_ok codec returned with handled | ⟨accepted, _, _⟩ |
    ⟨current, decoder, added, recovered, accepted, held, offered, delivered⟩
  · exact tidy.handled handled
  · obtain ⟨rfl, _⟩ := accepted_eq accepted
    exact tidy.locked (some session)
  · obtain ⟨rfl, admits⟩ := accepted_eq accepted
    have reined : Reined cfg { consumer with session := some session, fec := some added } := by
      have locked := (tidy.locked (some session)).toReined
      rcases opens_addParity offered with rfl | ⟨inside, opens⟩
      · exact ⟨locked.same, locked.span, locked.buffered, fun other same =>
          locked.groups other (held.trans same)⟩
      · exact locked.opens held opens (near admits decoder held inside)
    have delivers := reined.deliverRecovered recovered
    rw [delivered] at delivers
    exact delivers

/-- The fetcher's own state does not count. -/
theorem Tidy.refetched (tidy : Tidy cfg consumer) (fetcher : AdaptiveFetcher) :
    Tidy cfg { consumer with fetcher := fetcher } :=
  ⟨⟨tidy.same, tidy.span, tidy.buffered, tidy.groups⟩, tidy.drained, tidy.current⟩

theorem Tidy.onFrontier (tidy : Tidy cfg consumer) (session seq : Nat) :
    Tidy cfg (consumer.onFrontier session seq).1 := by
  unfold SessionConsumer.onFrontier
  rcases admitted : consumer.admitSession session with ⟨current, verdict⟩
  cases verdict with
  | handled early => exact tidy.handled admitted
  | accepted =>
    obtain ⟨rfl, _⟩ := accepted_eq admitted
    exact (tidy.locked (some session)).refetched _

theorem Reined.skipTo (reined : Reined cfg consumer) (seq : Nat) :
    Reined cfg { consumer with reorder := (consumer.reorder.skipTo seq).1 } := by
  have span := maxSpan_skipTo consumer.reorder seq
  have next := next_skipTo consumer.reorder seq
  have limit : consumer.limit ≤
      ({ consumer with reorder := (consumer.reorder.skipTo seq).1 } : SessionConsumer).limit := by
    simp only [SessionConsumer.limit, span, next]
    omega
  refine ⟨reined.same, span.trans reined.span, ?_, ?_⟩
  · intro other member
    have above := ((consumer.reorder.skipTo seq).1.ahead other member).1
    have earlier := (mem_skipTo above).mp member
    exact Nat.lt_of_lt_of_le (reined.buffered other earlier) limit
  · intro decoder held group member
    exact Nat.lt_of_lt_of_le (reined.groups decoder held group member) limit

theorem Tidy.resolve {state result : SessionConsumer × List StreamEvent} {seq : Nat}
    (tidy : Tidy cfg state.1) (resolved : SessionConsumer.resolve state seq = .ok result) :
    Tidy cfg result.1 := by
  obtain ⟨past, _, last⟩ := bind_eq_ok.mp resolved
  cases last
  exact (tidy.toReined.skipTo past).deliverReady

theorem Tidy.resolveAll {seqs : List Nat} {state result : SessionConsumer × List StreamEvent}
    (tidy : Tidy cfg state.1) (resolved : seqs.foldlM SessionConsumer.resolve state = .ok result) :
    Tidy cfg result.1 := by
  induction seqs generalizing state with
  | nil =>
    cases resolved
    exact tidy
  | cons seq rest ih =>
    rw [List.foldlM_cons] at resolved
    obtain ⟨next, first, later⟩ := bind_eq_ok.mp resolved
    exact ih (tidy.resolve first) later

theorem Tidy.call (tidy : Tidy cfg consumer) {input : ConsumerCall} (near : consumer.Near input)
    (returned : consumer.call codec input = .ok (after, events)) : Tidy cfg after := by
  cases input with
  | onItem nowMs session seq payload => exact tidy.onItem near returned
  | onParity session item => exact tidy.onParity near returned
  | onFrontier session seq =>
    have kept := tidy.onFrontier session seq
    have same : consumer.onFrontier session seq = (after, events) := ok.inj returned
    rw [same] at kept
    exact kept
  | onNack seq =>
    cases returned
    exact tidy.refetched _
  | actions nowMs =>
    obtain ⟨⟨acted, acts, reported⟩, passed, last⟩ := bind_eq_ok.mp returned
    cases last
    obtain ⟨⟨fetcher, made⟩, _, second⟩ := bind_eq_ok.mp passed
    obtain ⟨⟨resolved, lost⟩, skipped, last⟩ := bind_eq_ok.mp second
    cases last
    exact (tidy.refetched fetcher).resolveAll skipped

end Calls

/-! ### Runs -/

variable (codec : RowCodec)

/-- Where no call reaches a group beyond the span, every state of the run is bounded. -/
theorem state_bounded (firstSeq : Nat) (cfg : ConsumerConfig) (calls : List ConsumerCall)
    (near : Run.Throughout (after codec) (.ok (new firstSeq cfg)) calls (fun reached call =>
      ∀ consumer, reached = .ok consumer → consumer.Near call))
    (consumer : SessionConsumer)
    (reached : calls.foldl (after codec) (.ok (new firstSeq cfg)) = .ok consumer) :
    Bounded cfg consumer := by
  have tidy : ∀ consumer, calls.foldl (after codec) (.ok (new firstSeq cfg)) = .ok consumer →
      Tidy cfg consumer := by
    refine @Run.foldl_of_throughout _ _ _ (fun reached => ∀ consumer, reached = .ok consumer →
      Tidy cfg consumer) _ ?_ _ ?_ _ near
    · intro reached call tidy near next stepped
      obtain ⟨before, same, called⟩ := Outcome.bind_eq_ok.mp stepped
      obtain ⟨⟨current, events⟩, returned, last⟩ := Outcome.bind_eq_ok.mp called
      cases last
      exact (tidy before same).call (near before same) returned
    · intro start same
      cases same
      exact tidy_restart cfg none firstSeq
  exact (tidy consumer reached).bounded

/-- A span of four in groups of two. -/
def pairedConfig : ConsumerConfig := ⟨.default, 4, some ⟨2, 1⟩⟩

def noCode : RowCodec := fun _ _ _ => none

theorem state_bounded_near : ∃ consumer,
    [ConsumerCall.onItem 1 9 1 [11], .onParity 9 ⟨1, 0, [0]⟩].foldl (after noCode)
      (.ok (new 0 pairedConfig)) = .ok consumer ∧ Bounded pairedConfig consumer := by
  refine ⟨_, rfl, state_bounded noCode 0 pairedConfig
    [.onItem 1 9 1 [11], .onParity 9 ⟨1, 0, [0]⟩] ?_ _ rfl⟩
  rw [Run.throughout_cons, Run.throughout_cons]
  refine ⟨?_, ?_, Run.throughout_nil _ _⟩
  · intro consumer same
    cases same
    intro _ decoder held
    cases held
    decide
  · intro consumer same
    cases same
    intro _ decoder held _
    cases held
    decide

def runawayCalls : List ConsumerCall :=
  [100, 200, 300, 400, 500].map (fun seq => .onItem 1 9 seq [])

/-- Items far ahead pin a group each. -/
theorem runaway_groups : ¬∀ (codec : RowCodec) (firstSeq : Nat) (cfg : ConsumerConfig)
    (calls : List ConsumerCall) (consumer : SessionConsumer),
    calls.foldl (after codec) (.ok (new firstSeq cfg)) = .ok consumer → Bounded cfg consumer := by
  intro all
  have bounded := all noCode 0 pairedConfig runawayCalls _ rfl
  exact absurd (bounded.groups _ rfl) (by decide)

end SessionConsumer
end NdnExt.Stream
