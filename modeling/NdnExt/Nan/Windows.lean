import NdnExt.Nan.Paths

/-! What a transmit window makes of the data paths, and what it says of them. -/

namespace NdnExt.Nan

open NdnExt.Lib NdnExt.Lib.Keyed List NdpSession

/-! ### Frames that are silent about paths -/

theorem pathMessage_beacon {beacon : NanBeacon} (control : beacon.header.frameControl = fcBeacon)
    (attributes : Bytes) : pathMessage (beacon.encode attributes) = none := by
  have header : Dot11Header.read.run (beacon.encode attributes) = .ok beacon.header := by
    simp [Reader.run, NanBeacon.encode]
  rw [pathMessage, classify, header]
  simp only [control, if_true]
  cases NanBeacon.parse (beacon.encode attributes) <;> rfl

theorem pathMessage_sdf {sdf : ServiceDiscoveryFrame}
    (control : sdf.header.frameControl = fcAction) (attributes : Bytes) :
    pathMessage (sdf.encode attributes) = none := by
  rw [pathMessage, classify_sdf control]

theorem Ndpe.pathMessage_frame {ndpe : Ndpe} (coherent : ndpe.Coherent)
    (fits : ndpe.body.length < 2 ^ 16) (subtype : NafSubtype) (dst nmi clusterId : Mac)
    (seq : UInt16) : pathMessage (ndpe.frame subtype dst nmi clusterId seq) =
      some ⟨some dst, nmi, subtype, { ndpe with control := ndpe.writtenControl }⟩ := by
  have single := Attributes.flatten_flatMap (Ndpe.sound coherent fits).fits
  rw [flatMap_singleton] at single
  have found : Attributes.find ndpe.encode .ndpExtension = some ndpe.attr := by
    rw [Attributes.find, Ndpe.encode_eq, single]
    simp [Attribute.is, Ndpe.attr]
  have decoded : Ndpe.decode ndpe.attr.body = .ok { ndpe with control := ndpe.writtenControl } :=
    Ndpe.decode_body coherent
  have dest : rxAddr1 (ndpe.frame subtype dst nmi clusterId seq) = some dst := by
    rw [frame, NanActionFrame.encode, actionEnvelope, append_assoc]
    exact rxAddr1_encode _ _
  have source : rxAddr2 (ndpe.frame subtype dst nmi clusterId seq) = nmi :=
    (comesFrom_naf (NanActionFrame.new subtype dst nmi clusterId seq) ndpe.encode rfl).1
  have sub : ∀ subtype : NafSubtype, NafSubtype.fromByte subtype.toByte = some subtype := by
    intro subtype
    cases subtype <;> rfl
  rw [pathMessage, dest, source, frame, classify_naf rfl]
  simp [NanActionFrame.new, sub, found, decoded, Except.toOption]

/-! ### Turns -/

namespace NanEngine

/-- What is left of a session after its turn. -/
def NdpTurn.kept (turn : NdpTurn) : Option NdpSession :=
  if turn.timedOut then none else some turn.session

/-- The message a session sends in a window. -/
def Sends (cfg : NanConfig) (now : Usec) (s : NdpSession) (m : PathMessage) : Prop :=
  ∃ armed sub ndpe, rearm now s = some armed ∧ armed.pendingTx = some sub ∧
    ndpeFor cfg armed sub = some ndpe ∧
    m = ⟨some s.peer, cfg.nmi, sub, { ndpe with control := ndpe.writtenControl }⟩

variable {now : Usec} {s : NdpSession} {cfg : NanConfig} {engine : NanEngine} {frames : List Bytes}

theorem rearm_eq {armed : NdpSession} (rearmed : rearm now s = some armed) :
    armed = { s with pendingTx := armed.pendingTx } ∧
      (armed.pendingTx = s.pendingTx ∨
        (s.role = .initiator ∧ s.state = .awaitingResponse ∧
          armed.pendingTx = some .dataPathRequest)) := by
  rw [rearm] at rearmed
  split at rearmed
  · next due =>
    split at rearmed
    · cases rearmed
    · cases rearmed
      exact ⟨rfl, Or.inr ⟨due.2.1, due.2.2.1, rfl⟩⟩
  · cases rearmed
    exact ⟨rfl, Or.inl rfl⟩

theorem ndpTurn_key (cfg : NanConfig) (now : Usec) (s : NdpSession) :
    (ndpTurn cfg now s).session.key = s.key := by
  rw [ndpTurn]
  split
  · rfl
  · next armed rearmed =>
    have key : armed.key = s.key := by
      rw [(rearm_eq rearmed).1]
      rfl
    split
    · exact key
    · split
      · exact key
      · split
        · exact key
        · exact key

theorem ndpTurn_kept {kept : NdpSession}
    (turn : (ndpTurn cfg now s).kept = some kept) :
    kept = { s with
      pendingTx := none
      attempts := kept.attempts
      retryAtUsec := kept.retryAtUsec } := by
  rw [ndpTurn] at turn
  cases rearmed : rearm now s with
  | none => simp [rearmed, NdpTurn.kept] at turn
  | some armed =>
    have same := (rearm_eq rearmed).1
    cases pending : armed.pendingTx with
    | none =>
      rw [pending] at same
      simp only [rearmed, pending, NdpTurn.kept, Bool.false_eq_true, if_false,
        Option.some.injEq] at turn
      rw [← turn, same]
    | some sub =>
      have taken : { armed with pendingTx := none } = { s with pendingTx := none } := by
        rw [same]
      cases due : ndpeFor cfg armed sub with
      | none =>
        simp only [rearmed, pending, due, NdpTurn.kept, Bool.false_eq_true, if_false,
          Option.some.injEq] at turn
        rw [← turn, taken]
      | some ndpe =>
        simp only [rearmed, pending, due, NdpTurn.kept] at turn
        split at turn
        · cases turn
        · rw [Option.some.injEq] at turn
          rw [← turn]
          split
          · rw [same]
          · rw [taken]

/-- A session only ends in a window where its request is given up or it rejects one. -/
theorem ndpTurn_ends
    (ends : (ndpTurn cfg now s).kept = none) :
    rearm now s = none ∨ s.pendingTx = some .dataPathResponse ∧ cfg.ndpAutoAccept = false := by
  rw [ndpTurn] at ends
  cases rearmed : rearm now s with
  | none => exact Or.inl rfl
  | some armed =>
    right
    cases pending : armed.pendingTx with
    | none => simp [rearmed, pending, NdpTurn.kept] at ends
    | some sub =>
      cases due : ndpeFor cfg armed sub with
      | none => simp [rearmed, pending, due, NdpTurn.kept] at ends
      | some ndpe =>
        have out : sub = .dataPathResponse ∧ cfg.ndpAutoAccept = false := by
          simpa [rearmed, pending, due, NdpTurn.kept] using ends
        refine ⟨?_, out.2⟩
        rcases (rearm_eq rearmed).2 with kept | ⟨_, _, request⟩
        · rw [← kept, pending, out.1]
        · rw [request, out.1] at pending
          cases pending

theorem ndpTurn_rejects (now : Usec)
    (pending : s.pendingTx = some .dataPathResponse) (rejects : cfg.ndpAutoAccept = false) :
    (ndpTurn cfg now s).kept = none := by
  have rearmed : rearm now s = some s := by simp [rearm, pending]
  simp [ndpTurn, rearmed, pending, ndpeFor, rejects, NdpTurn.kept]

/-- The frame of a turn is the message of its session. -/
theorem ndpTurn_frame_iff (cfg : NanConfig) (now : Usec) (s : NdpSession)
    (frame : Mac × NafSubtype × Bytes) :
    (ndpTurn cfg now s).frame = some frame ↔
      ∃ armed sub ndpe, rearm now s = some armed ∧ armed.pendingTx = some sub ∧
        ndpeFor cfg armed sub = some ndpe ∧ frame = (s.peer, sub, ndpe.encode) := by
  rw [ndpTurn]
  cases rearmed : rearm now s with
  | none => simp
  | some armed =>
    have peer : armed.peer = s.peer := by rw [(rearm_eq rearmed).1]
    cases pending : armed.pendingTx with
    | none => simp [pending]
    | some sub =>
      cases due : ndpeFor cfg armed sub with
      | none => simp [pending, due]
      | some ndpe =>
        simp only [pending, due, peer, Option.some.injEq]
        constructor
        · rintro rfl
          exact ⟨armed, sub, ndpe, rfl, pending, due, rfl⟩
        · rintro ⟨armed', sub', ndpe', rfl, pending', due', rfl⟩
          rw [pending, Option.some.injEq] at pending'
          subst pending'
          rw [due, Option.some.injEq] at due'
          rw [due']

/-- The frames say what the sessions send, and nothing else of any path. -/
structure Says (cfg : NanConfig) (now : Usec) (sessions : List NdpSession)
    (frames : List Bytes) : Prop where
  only : ∀ bytes ∈ frames, ∀ m, pathMessage bytes = some m →
    ComesFrom cfg.nmi bytes ∧ ∃ s ∈ sessions, Sends cfg now s m
  all : ∀ s ∈ sessions, ∀ m, Sends cfg now s m → ∃ bytes ∈ frames, pathMessage bytes = some m

theorem foldl_sendNaf_said {cfg : NanConfig} {now : Usec} (sessions : List NdpSession)
    (engine : NanEngine) (step : Step) (same : engine.cfg = cfg) :
    ∃ (seq : UInt16) (sent : List Bytes),
      ((sessions.map (ndpTurn cfg now)).filterMap NdpTurn.frame).foldl sendNaf (engine, step) =
        ({ engine with seq := seq }, { step with tx := step.tx ++ sent.map TxFrame.mk }) ∧
      Says cfg now sessions sent := by
  induction sessions generalizing engine step with
  | nil => exact ⟨engine.seq, [], by simp, nofun, nofun⟩
  | cons s sessions ih =>
    rw [map_cons]
    cases turned : (ndpTurn cfg now s).frame with
    | none =>
      rcases ih engine step same with ⟨seq, sent, run, tells⟩
      refine ⟨seq, sent, ?_, ?_, ?_⟩
      · rw [filterMap_cons, turned]
        exact run
      · intro bytes found m said
        rcases tells.only bytes found m said with ⟨comes, s', mem, sends⟩
        exact ⟨comes, s', mem_cons_of_mem s mem, sends⟩
      · intro s' mem m sends
        rcases mem_cons.mp mem with rfl | later
        · rcases sends with ⟨armed, sub, ndpe, rearmed, pending, due, _⟩
          have frame := (ndpTurn_frame_iff cfg now s' _).mpr
            ⟨armed, sub, ndpe, rearmed, pending, due, rfl⟩
          rw [turned] at frame
          cases frame
        · exact tells.all s' later m sends
    | some frame =>
      rcases (ndpTurn_frame_iff cfg now s frame).mp turned with
        ⟨armed, sub, ndpe, rearmed, pending, due, rfl⟩
      have coherent := ndpeFor_coherent due
      have message := Ndpe.pathMessage_frame coherent.1 coherent.2 sub s.peer engine.cfg.nmi
        engine.clusterId engine.seq
      have sends : Sends cfg now s
          ⟨some s.peer, cfg.nmi, sub, { ndpe with control := ndpe.writtenControl }⟩ :=
        ⟨armed, sub, ndpe, rearmed, pending, due, rfl⟩
      rcases ih engine.nextSeq { step with tx := step.tx ++
        [⟨ndpe.frame sub s.peer engine.cfg.nmi engine.clusterId engine.seq⟩] } same
        with ⟨seq, sent, run, tells⟩
      refine ⟨seq, ndpe.frame sub s.peer engine.cfg.nmi engine.clusterId engine.seq :: sent,
        ?_, ?_, ?_⟩
      · rw [filterMap_cons, turned]
        exact run.trans (by simp [nextSeq])
      · intro bytes found m said
        rcases mem_cons.mp found with rfl | later
        · rw [message, Option.some.injEq, same] at said
          subst said
          rw [same]
          exact ⟨comesFrom_naf _ _ rfl, s, mem_cons_self, sends⟩
        · rcases tells.only bytes later m said with ⟨comes, s', mem, sends⟩
          exact ⟨comes, s', mem_cons_of_mem s mem, sends⟩
      · intro s' mem m sends'
        rcases mem_cons.mp mem with rfl | later
        · refine ⟨_, mem_cons_self, ?_⟩
          rcases sends' with ⟨armed', sub', ndpe', rearmed', pending', due', rfl⟩
          rw [rearmed, Option.some.injEq] at rearmed'
          subst rearmed'
          rw [pending, Option.some.injEq] at pending'
          subst pending'
          rw [due, Option.some.injEq] at due'
          subst due'
          rw [message, same]
        · rcases tells.all s' later m sends' with ⟨bytes, found, said⟩
          exact ⟨bytes, mem_cons_of_mem _ found, said⟩

/-- The session of that key is gone, and reported where it was an initiator's. -/
theorem dropTimedOut_updated (step : Step) (s : NdpSession)
    (distinct : Distinct key engine.ndps) :
    ∃ ndps events, dropTimedOut (engine, step) s =
        ({ engine with ndps := ndps }, { step with events := step.events ++ events }) ∧
      Updated key engine.ndps ndps s.key none ∧
      ∀ event ∈ events, ∃ peer ndpId, event = .ndpFailed peer ndpId .timedOut := by
  have dropped := updated_drop distinct s.key
  have index : engine.ndpIndexRole s.peer s.ndpId s.role =
      position key engine.ndps s.key := engine.ndpIndexRole_eq ..
  rw [dropTimedOut]
  rw [index]
  cases found : position key engine.ndps s.key with
  | none =>
    rw [found] at dropped
    exact ⟨engine.ndps, [], by simp, dropped, forall_mem_nil _⟩
  | some i =>
    rw [found] at dropped
    dsimp only
    split
    · exact ⟨_, [_], rfl, dropped, fun event found => ⟨_, _, mem_singleton.mp found⟩⟩
    · exact ⟨_, [], by simp, dropped, forall_mem_nil _⟩

theorem foldl_dropTimedOut (sessions : List NdpSession) (engine : NanEngine) (step : Step)
    (distinct : Distinct key engine.ndps) :
    ∃ ndps events, sessions.foldl dropTimedOut (engine, step) =
        ({ engine with ndps := ndps }, { step with events := step.events ++ events }) ∧
      Distinct key ndps ∧
      (∀ k, entry key ndps k =
        if k ∈ sessions.map key then none else engine.path k) ∧
      ∀ event ∈ events, ∃ peer ndpId, event = .ndpFailed peer ndpId .timedOut := by
  induction sessions generalizing engine step with
  | nil => exact ⟨engine.ndps, [], by simp, distinct, fun _ => rfl, nofun⟩
  | cons s sessions ih =>
    rcases dropTimedOut_updated step s distinct with ⟨less, events, run, dropped, reported⟩
    rcases ih { engine with ndps := less } { step with events := step.events ++ events }
      dropped.distinct with ⟨ndps, more, run', distinct', entries, reported'⟩
    refine ⟨ndps, events ++ more, ?_, distinct', ?_, ?_⟩
    · rw [foldl_cons, run, run', append_assoc]
    · intro k
      have after : NanEngine.path { engine with ndps := less } k =
          if k = s.key then none else engine.path k := dropped.lookup k
      rw [entries, after, map_cons]
      by_cases here : k = s.key
      · simp [here]
      · simp [here]
    · intro event found
      exact (mem_append.mp found).elim (reported event) (reported' event)

/-- After a transmit window. -/
structure Transmitted (now : Usec) (before : NanEngine × Step) (after : NanEngine × Step) :
    Prop where
  cfg : after.1.cfg = before.1.cfg
  nextNdpId : after.1.nextNdpId = before.1.nextNdpId
  distinct : Distinct NdpSession.key after.1.ndps
  paths : ∀ k, after.1.path k =
    (before.1.path k).bind fun s => (ndpTurn before.1.cfg now s).kept
  said : ∃ sent : List Bytes, after.2.tx = before.2.tx ++ sent.map TxFrame.mk ∧
    Says before.1.cfg now before.1.ndps sent
  events : ∃ more, after.2.events = before.2.events ++ more ∧
    ∀ event ∈ more, ∃ peer ndpId, event = .ndpFailed peer ndpId .timedOut

theorem emitNdp_transmitted {engine : NanEngine} (now : Usec) (step : Step)
    (distinct : Distinct key engine.ndps) :
    Transmitted now (engine, step) (engine.emitNdp now step) := by
  have keys : ∀ s ∈ engine.ndps, (ndpTurn engine.cfg now s).session.key = s.key :=
    fun s _ => ndpTurn_key engine.cfg now s
  have turned : (engine.ndps.map (ndpTurn engine.cfg now)).map NdpTurn.session =
      engine.ndps.map fun s => (ndpTurn engine.cfg now s).session := map_map
  have distinct' : Distinct key
      (engine.ndps.map fun s => (ndpTurn engine.cfg now s).session) := distinct_map keys distinct
  rcases @foldl_sendNaf_said engine.cfg now engine.ndps
    { engine with ndps := engine.ndps.map fun s => (ndpTurn engine.cfg now s).session } step rfl
    with ⟨seq, sent, run, tells⟩
  rcases foldl_dropTimedOut
    (((engine.ndps.map (ndpTurn engine.cfg now)).filter NdpTurn.timedOut).map NdpTurn.session)
    { engine with
      ndps := engine.ndps.map fun s => (ndpTurn engine.cfg now s).session
      seq := seq }
    { step with tx := step.tx ++ sent.map TxFrame.mk } distinct'
    with ⟨ndps, events, run', distinct'', entries, reported⟩
  rw [emitNdp, turned, run, run']
  refine ⟨rfl, rfl, distinct'', ?_, ⟨sent, rfl, tells⟩, ⟨events, rfl, reported⟩⟩
  intro k
  have before : NanEngine.path
      { engine with
        ndps := engine.ndps.map fun s => (ndpTurn engine.cfg now s).session
        seq := seq } k = (engine.path k).map fun s => (ndpTurn engine.cfg now s).session :=
    entry_map keys k
  change entry key ndps k = _
  rw [entries, before]
  cases held : engine.path k with
  | none => simp
  | some s =>
    have timed : k ∈ (((engine.ndps.map (ndpTurn engine.cfg now)).filter NdpTurn.timedOut).map
        NdpTurn.session).map key ↔ (ndpTurn engine.cfg now s).timedOut = true := by
      simp only [mem_map, mem_filter]
      constructor
      · rintro ⟨_, ⟨_, ⟨⟨s', mem, rfl⟩, out⟩, rfl⟩, same⟩
        have found := entry_of_mem distinct mem
        rw [← ndpTurn_key engine.cfg now s', same] at found
        rw [path, found, Option.some.injEq] at held
        exact held ▸ out
      · intro out
        exact ⟨_, ⟨_, ⟨⟨s, mem_of_entry held, rfl⟩, out⟩, rfl⟩,
          (ndpTurn_key engine.cfg now s).trans (key_entry held)⟩
    rw [Option.map_some, Option.bind_some, NdpTurn.kept]
    by_cases out : (ndpTurn engine.cfg now s).timedOut = true
    · rw [if_pos out, if_pos (timed.mpr out)]
    · rw [if_neg out, if_neg (fun found => out (timed.mp found))]

theorem silent_of_burst
    (burst : engine.IsBurst now frames) : ∀ bytes ∈ frames, pathMessage bytes = none := by
  rcases burst with ⟨first, second, _, _, _, _, rfl⟩
  intro bytes found
  rcases mem_cons.mp found with rfl | later
  · exact pathMessage_beacon rfl _
  · split at later
    · rw [mem_singleton.mp later]
      exact pathMessage_sdf rfl _
    · cases later

theorem silent_of_queue {queue : List Followup} {nmi clusterId : Mac}
    (sent : SendsQueue nmi clusterId queue frames) :
    ∀ bytes ∈ frames, pathMessage bytes = none := by
  induction sent with
  | nil => nofun
  | cons first _ ih =>
    rcases first with ⟨seq, rfl⟩
    rw [forall_mem_cons]
    exact ⟨pathMessage_sdf rfl _, ih⟩

theorem Says.prepend {sessions : List NdpSession} (said : Says cfg now sessions frames)
    {others : List Bytes}
    (silent : ∀ bytes ∈ others, pathMessage bytes = none) :
    Says cfg now sessions (others ++ frames) := by
  constructor
  · intro bytes found m message
    rcases mem_append.mp found with other | path
    · rw [silent bytes other] at message
      cases message
    · exact said.only bytes path m message
  · intro s mem m sends
    rcases said.all s mem m sends with ⟨bytes, found, message⟩
    exact ⟨bytes, mem_append_right _ found, message⟩

theorem transmit_transmitted (now : Usec) (step : Step)
    (distinct : Distinct key engine.ndps) :
    Transmitted now (engine, step) (engine.transmit now step) := by
  have bursts : ∃ burst seq, ∃ frames : List Bytes, engine.burst now step =
        ({ engine with lastBurstDw := burst, seq := seq },
          { step with tx := step.tx ++ frames.map TxFrame.mk }) ∧
      ∀ bytes ∈ frames, pathMessage bytes = none := by
    rcases engine.burst_eq now step with ⟨_, same⟩ | ⟨seq, frames, run, made⟩
    · exact ⟨engine.lastBurstDw, engine.seq, [], by simp [same], nofun⟩
    · exact ⟨_, seq, frames, run, silent_of_burst made⟩
  rcases bursts with ⟨burst, seq, frames, run, silent⟩
  rcases emitFollowups_eq { engine with lastBurstDw := burst, seq := seq }
    { step with tx := step.tx ++ frames.map TxFrame.mk } with ⟨seq', queue, run', queue'⟩
  have silent' := silent_of_queue queue'
  have emitted := @emitNdp_transmitted
    { engine with lastBurstDw := burst, followups := [], seq := seq' } now
    { step with tx := step.tx ++ frames.map TxFrame.mk ++ queue.map TxFrame.mk } distinct
  have state : engine.transmit now step = NanEngine.emitNdp
      { engine with lastBurstDw := burst, followups := [], seq := seq' } now
      { step with tx := step.tx ++ frames.map TxFrame.mk ++ queue.map TxFrame.mk } := by
    rw [transmit, run]
    dsimp only
    rw [run']
  rw [← state] at emitted
  rcases emitted.said with ⟨sent, tx, said⟩
  refine ⟨emitted.cfg, emitted.nextNdpId, emitted.distinct, emitted.paths,
    ⟨frames ++ queue ++ sent, ?_, ?_⟩, emitted.events⟩
  · rw [tx]
    simp
  · apply said.prepend
    intro bytes found
    exact (mem_append.mp found).elim (silent bytes) (silent' bytes)

end NanEngine

end NdnExt.Nan
