import NdnExt.Nan.Network

/-! Whom the engines of a network follow, and when the clock of an engine that follows itself is
moved by those that follow it. -/

namespace NdnExt.Nan

open NdnExt.Lib NdnExt.Lib.Run

def NanConfig.rank (cfg : NanConfig) : UInt64 :=
  masterRank cfg.masterPreference cfg.randomFactor cfg.nmi

/-- The beacon in a frame, with what follows its header. -/
def beaconIn (bytes : Bytes) : Option (Dot11Header × NanBeacon × Bytes) :=
  match classify bytes, NanBeacon.parse bytes with
  | .ok ⟨header, .beacon, _⟩, .ok (beacon, attrs) => some (header, beacon, attrs)
  | _, _ => none

namespace NanEngine

/-- Where a beacon of another engine that carries this one's own rank would move its clock. -/
def echo (engine : NanEngine) (rx : RxFrame) : Option Usec :=
  (beaconIn rx.bytes).bind fun (header, beacon, attrs) =>
    if header.addr2 ≠ engine.cfg.nmi ∧ beaconAmr beacon attrs = some engine.cfg.rank ∧
        beacon.header.addr3 = engine.clusterId then
      some (rx.nowUsec - beacon.timestamp)
    else none

/-- An engine that is its own anchor is not told another time. -/
def OnTime (engine : NanEngine) (rx : RxFrame) : Prop :=
  engine.clusterAmr = engine.cfg.rank → ∀ base ∈ engine.echo rx, base = engine.baseTimeUsec

instance (engine : NanEngine) (rx : RxFrame) : Decidable (engine.OnTime rx) :=
  have : Decidable (∀ base ∈ engine.echo rx, base = engine.baseTimeUsec) :=
    Option.decidableForallMem (engine.echo rx)
  inferInstanceAs (Decidable (_ → ∀ base ∈ engine.echo rx, base = engine.baseTimeUsec))

end NanEngine

namespace Network

variable {ι : Type}

/-- None of the frames tells an engine that is its own anchor another time. -/
def KeepsTime (net : Network ι) : NetworkAction ι → Prop
  | .call _ _ => True
  | .poll i now inbound =>
    Throughout NanEngine.handleRx ((net.engine i).started now) inbound
      fun state rx => state.1.OnTime rx

instance (net : Network ι) : (action : NetworkAction ι) → Decidable (net.KeepsTime action)
  | .call _ _ => .isTrue trivial
  | .poll i now inbound => inferInstanceAs (Decidable
    (Throughout NanEngine.handleRx ((net.engine i).started now) inbound
      fun state rx => state.1.OnTime rx))

/-- The beacons of a window are whole. -/
def WholeBeacons (net : Network ι) : NetworkAction ι → Prop
  | .call _ _ => True
  | .poll i now inbound => ((net.engine i).receive now inbound).1.inDw now = true →
    (net.engine i).functions.length ≤ NanEngine.maxFunctions

instance (net : Network ι) : (action : NetworkAction ι) → Decidable (net.WholeBeacons action)
  | .call _ _ => .isTrue trivial
  | .poll i now inbound => inferInstanceAs (Decidable
    (((net.engine i).receive now inbound).1.inDw now = true →
      (net.engine i).functions.length ≤ NanEngine.maxFunctions))

end Network

/-- When an engine was first polled. -/
def firstPoll {ι : Type} [DecidableEq ι] (i : ι) (actions : List (NetworkAction ι)) :
    Option Usec :=
  actions.findSome? fun
    | .call _ _ => none
    | .poll j now _ => if j = i then some now else none

/-- The clocks, ranks and clusters after a run. -/
structure AnchorsKeep {ι : Type} [DecidableEq ι] (sha256 : Bytes → Vector UInt8 32)
    (cfg : ι → NanConfig) (net : Network ι) (actions : List (NetworkAction ι)) : Prop where
  anchor : ∀ i now, ((net.run sha256 actions).engine i).clusterAmr = (cfg i).rank →
    firstPoll i actions = some now → ((net.run sha256 actions).engine i).baseTimeUsec = now
  grows : ∀ earlier later, actions = earlier ++ later → ∀ i,
    ((net.run sha256 earlier).engine i).clusterAmr ≤ ((net.run sha256 actions).engine i).clusterAmr
  follows : ∀ i, ∃ j, ((net.run sha256 actions).engine i).clusterAmr = (cfg j).rank
  cluster : ∀ i j, ((net.run sha256 actions).engine i).clusterAmr = (cfg j).rank →
    ((net.run sha256 actions).engine i).clusterId = ((net.run sha256 actions).engine j).clusterId

variable {ι : Type}

/-- What the beacon of an engine of the network says, if the frame has one. -/
def Advertises (cfg : ι → NanConfig) (bytes : Bytes) : Prop :=
  ∀ header beacon attrs, beaconIn bytes = some (header, beacon, attrs) →
    beacon.header.addr3 = nanClusterIdBase ∧
      ∀ amr, NanEngine.beaconAmr beacon attrs = some amr → ∃ j, amr = (cfg j).rank

/-- An engine, with the time of its first poll. -/
structure Follows (cfg : ι → NanConfig) (i : ι) (first : Option Usec) (engine : NanEngine) :
    Prop where
  config : engine.cfg = cfg i
  started : engine.baseInitialized = first.isSome
  cluster : engine.clusterId = nanClusterIdBase
  least : (cfg i).rank ≤ engine.clusterAmr
  rank : ∃ j, engine.clusterAmr = (cfg j).rank
  clock : engine.clusterAmr = (cfg i).rank → ∀ now, first = some now → engine.baseTimeUsec = now

namespace NanEngine

/-- What hears no beacon keeps the clock. -/
structure SameClock (before after : NanEngine) : Prop where
  cfg : after.cfg = before.cfg
  baseInitialized : after.baseInitialized = before.baseInitialized
  clusterId : after.clusterId = before.clusterId
  clusterAmr : after.clusterAmr = before.clusterAmr
  baseTimeUsec : after.baseTimeUsec = before.baseTimeUsec

theorem SameClock.refl (engine : NanEngine) : SameClock engine engine :=
  ⟨rfl, rfl, rfl, rfl, rfl⟩

theorem SameClock.trans {first second third : NanEngine} (left : SameClock first second)
    (right : SameClock second third) : SameClock first third :=
  ⟨right.cfg.trans left.cfg, right.baseInitialized.trans left.baseInitialized,
    right.clusterId.trans left.clusterId, right.clusterAmr.trans left.clusterAmr,
    right.baseTimeUsec.trans left.baseTimeUsec⟩

theorem OnlyNdp.sameClock {before after : NanEngine × Step} (only : OnlyNdp before after) :
    SameClock before.1 after.1 := by
  rcases only with ⟨ndps, events, rfl, _⟩
  exact ⟨rfl, rfl, rfl, rfl, rfl⟩

theorem handleDescriptor_sameClock (rx : RxFrame) (state : NanEngine × Step)
    (sda : ServiceDescriptor) : SameClock state.1 (handleDescriptor rx state sda).1 := by
  rcases state with ⟨engine, step⟩
  rcases engine.notePeer_eq (rxAddr2 rx.bytes) sda.instanceId with ⟨peers, noted⟩
  rw [handleDescriptor]
  rw [noted]
  cases sda.control.controlType with
  | publish | subscribe =>
    dsimp only
    split
    · split
      · exact ⟨rfl, rfl, rfl, rfl, rfl⟩
      · exact ⟨rfl, rfl, rfl, rfl, rfl⟩
    · exact SameClock.refl _
  | followUp =>
    dsimp only
    split
    · exact SameClock.refl _
    · exact SameClock.refl _

theorem handleSdf_sameClock (engine : NanEngine) (rx : RxFrame) (attrs : Bytes) (step : Step) :
    SameClock engine (engine.handleSdf rx attrs step).1 := by
  rw [handleSdf]
  generalize descriptors attrs = sdas
  induction sdas generalizing engine step with
  | nil => exact SameClock.refl _
  | cons sda sdas ih =>
    rw [List.foldl_cons]
    exact (handleDescriptor_sameClock rx (engine, step) sda).trans (ih _ _)

/-- A frame moves the clock in two ways: it is adopted, or followed on. -/
theorem handleRx_clock (engine : NanEngine) (step : Step) (rx : RxFrame) :
    SameClock engine (handleRx (engine, step) rx).1 ∨
      ∃ header beacon attrs amr, beaconIn rx.bytes = some (header, beacon, attrs) ∧
        header.addr2 ≠ engine.cfg.nmi ∧ beaconAmr beacon attrs = some amr ∧
        ((engine.clusterAmr < amr ∧ (handleRx (engine, step) rx).1 =
            { engine with
              clusterId := beacon.header.addr3
              baseTimeUsec := rx.nowUsec - beacon.timestamp
              clusterAmr := amr
              synced := true
              lastBurstDw := none }) ∨
          (amr = engine.clusterAmr ∧ beacon.header.addr3 = engine.clusterId ∧
            (handleRx (engine, step) rx).1 =
              { engine with baseTimeUsec := rx.nowUsec - beacon.timestamp })) := by
  rw [handleRx]
  split
  · exact Or.inl (SameClock.refl _)
  · next frame classified =>
    split
    · exact Or.inl (SameClock.refl _)
    · next foreign =>
      rcases frame with ⟨header, kind, attributes⟩
      cases kind with
      | action => exact Or.inl (engine.handleSdf_sameClock ..)
      | naf subtype => exact Or.inl (engine.handleNaf_only ..).sameClock
      | other => exact Or.inl (SameClock.refl _)
      | beacon =>
        rw [handleBeacon]
        cases parsed : NanBeacon.parse rx.bytes with
        | error _ => exact Or.inl (SameClock.refl _)
        | ok both =>
          rcases both with ⟨beacon, attrs⟩
          have within : beaconIn rx.bytes = some (header, beacon, attrs) := by
            rw [beaconIn, classified, parsed]
          dsimp only
          cases carried : beaconAmr beacon attrs with
          | none => exact Or.inl (SameClock.refl _)
          | some amr =>
            dsimp only
            split
            · next higher =>
              exact Or.inr ⟨header, beacon, attrs, amr, within, foreign, carried,
                Or.inl ⟨higher, rfl⟩⟩
            · split
              · next same =>
                exact Or.inr ⟨header, beacon, attrs, amr, within, foreign, carried,
                  Or.inr ⟨same.2, same.1, rfl⟩⟩
              · exact Or.inl (SameClock.refl _)

theorem beaconIn_beaconFrame {engine : NanEngine}
    (few : engine.functions.length ≤ maxFunctions) (now : Usec) :
    ∃ header beacon, beaconIn (engine.beaconFrame now) =
        some (header, beacon, engine.beaconAttributes (engine.syncedUsec now)) ∧
      beacon.header.addr3 = engine.clusterId := by
  have short := (engine.beaconAttributes_short_iff (engine.syncedUsec now)).mpr few
  let beacon := NanBeacon.new broadcast engine.cfg.nmi engine.clusterId engine.seq
    (engine.syncedUsec now) syncBeaconIntervalTu
  refine ⟨beacon.header, beacon, ?_, rfl⟩
  rw [beaconIn, beaconFrame, classify_beacon rfl short, NanBeacon.parse_encode rfl short]

theorem beaconAmr_beaconAttributes {engine : NanEngine}
    (few : engine.functions.length ≤ maxFunctions) (timestamp : UInt64) (beacon : NanBeacon) :
    beaconAmr beacon (engine.beaconAttributes timestamp) = some engine.clusterAmr := by
  have flat := Attributes.flatten_flatMap (engine.beaconAttrs_sound few timestamp).fits
  have found : Attributes.find (engine.beaconAttributes timestamp) .cluster =
      some (Cluster.mk engine.clusterAmr 0 timestamp.toUInt32).attr := by
    rw [Attributes.find, beaconAttributes_eq, flat, beaconAttrs]
    simp [Attribute.is, MasterIndication.attr, Cluster.attr, AttributeId.toByte]
  have decoded := Cluster.decode_body (Cluster.mk engine.clusterAmr 0 timestamp.toUInt32)
  rw [beaconAmr, found, Option.bind_some, decoded]
  rfl

theorem beaconIn_beaconless {bytes : Bytes} {frame : Dot11Frame}
    (classified : classify bytes = .ok frame) (other : frame.kind ≠ .beacon) :
    beaconIn bytes = none := by
  rcases frame with ⟨header, kind, attributes⟩
  rw [beaconIn, classified]
  cases kind with
  | beacon => exact absurd rfl other
  | action | naf | other => rfl

theorem beaconless_of_queue {queue : List Followup} {frames : List Bytes} {nmi clusterId : Mac}
    (sent : SendsQueue nmi clusterId queue frames) : ∀ bytes ∈ frames, beaconIn bytes = none := by
  induction sent with
  | nil => nofun
  | cons first _ ih =>
    rcases first with ⟨seq, rfl⟩
    rw [List.forall_mem_cons]
    exact ⟨beaconIn_beaconless (classify_sdf rfl _) nofun, ih⟩

/-- What a window sends: beacons of the engine, and frames without one. -/
theorem transmit_beacons (engine : NanEngine) (now : Usec) {step : Step} (none : step.tx = []) :
    ∀ frame ∈ (engine.transmit now step).2.tx,
      beaconIn frame.bytes = .none ∨ ∃ speaker : NanEngine,
        SameClock engine speaker ∧ speaker.functions = engine.functions ∧
          frame.bytes = speaker.beaconFrame now := by
  have bursts : ∃ burst seq, ∃ frames : List Bytes, engine.burst now step =
        ({ engine with lastBurstDw := burst, seq := seq },
          { step with tx := step.tx ++ frames.map TxFrame.mk }) ∧
      ∀ bytes ∈ frames, beaconIn bytes = .none ∨ ∃ speaker : NanEngine,
        SameClock engine speaker ∧ speaker.functions = engine.functions ∧
          bytes = speaker.beaconFrame now := by
    by_cases done : engine.lastBurstDw = some (engine.dwIndex now)
    · have same : engine.burst now step = (engine, step) := if_pos done
      exact ⟨engine.lastBurstDw, engine.seq, [], by simp [same], List.forall_mem_nil _⟩
    · let marked : NanEngine := { engine with lastBurstDw := some (engine.dwIndex now) }
      rcases emitDiscovery_eq marked.nextSeq
        { step with tx := step.tx ++ [marked.beaconFrame now].map TxFrame.mk } with ⟨seq, sent⟩
      have run : engine.burst now step =
          marked.nextSeq.emitDiscovery
            { step with tx := step.tx ++ [marked.beaconFrame now].map TxFrame.mk } := if_neg done
      refine ⟨some (engine.dwIndex now), seq, [marked.beaconFrame now] ++
        (if marked.nextSeq.advertises then [marked.nextSeq.discoveryFrame] else []), ?_, ?_⟩
      · rw [run, sent, List.append_assoc, ← List.map_append]
        rfl
      · intro bytes found
        rcases List.mem_append.mp found with beacon | sdf
        · rw [List.mem_singleton.mp beacon]
          exact Or.inr ⟨marked, ⟨rfl, rfl, rfl, rfl, rfl⟩, rfl, rfl⟩
        · split at sdf
          · rw [List.mem_singleton.mp sdf]
            exact Or.inl (beaconIn_beaconless (classify_sdf rfl _)
              (by intro impossible; cases impossible))
          · cases sdf
  rcases bursts with ⟨burst, seq, frames, run, beacons⟩
  rcases emitFollowups_eq { engine with lastBurstDw := burst, seq := seq }
    { step with tx := step.tx ++ frames.map TxFrame.mk } with ⟨seq', queue, run', queue'⟩
  rcases emitNdp_eq { engine with lastBurstDw := burst, followups := [], seq := seq' } now
    { step with tx := step.tx ++ frames.map TxFrame.mk ++ queue.map TxFrame.mk }
    with ⟨ndps, seq'', paths, events, run'', paths', _⟩
  have tx : (engine.transmit now step).2.tx = (frames ++ queue ++ paths).map TxFrame.mk := by
    rw [transmit, run]
    dsimp only
    rw [run']
    rw [run'', none]
    simp
  intro frame found
  rw [tx] at found
  rcases List.mem_map.mp found with ⟨bytes, mem, rfl⟩
  rcases List.mem_append.mp mem with early | path
  · rcases List.mem_append.mp early with beacon | followup
    · exact beacons bytes beacon
    · exact Or.inl (beaconless_of_queue queue' bytes followup)
  · rcases paths' bytes path with ⟨ndpe, subtype, dst, clusterId, seq, _, _, rfl⟩
    exact Or.inl (beaconIn_beaconless (classify_naf rfl _)
      (by intro impossible; cases impossible))

end NanEngine

section

variable {cfg : ι → NanConfig} {i : ι} {first : Option Usec} {engine : NanEngine}

section

variable (follows : Follows cfg i first engine)
include follows

theorem Follows.same {engine' : NanEngine}
    (same : NanEngine.SameClock engine engine') : Follows cfg i first engine' :=
  ⟨same.cfg.trans follows.config, same.baseInitialized.trans follows.started,
    same.clusterId.trans follows.cluster, same.clusterAmr ▸ follows.least,
    same.clusterAmr ▸ follows.rank,
    fun own now since => same.baseTimeUsec.trans (follows.clock (same.clusterAmr ▸ own) now since)⟩

theorem Follows.handleRx {step : Step} {rx : RxFrame}
    (advertises : Advertises cfg rx.bytes) (onTime : engine.OnTime rx) :
    Follows cfg i first (NanEngine.handleRx (engine, step) rx).1 := by
  rcases engine.handleRx_clock step rx with same |
    ⟨header, beacon, attrs, amr, within, foreign, carried, ⟨higher, after⟩ | ⟨level, id, after⟩⟩
  · exact follows.same same
  · have advertised := advertises header beacon attrs within
    have above := UInt64.lt_of_le_of_lt follows.least higher
    rw [after]
    refine ⟨follows.config, follows.started, advertised.1, UInt64.le_of_lt above,
      advertised.2 amr carried, ?_⟩
    intro own
    dsimp only at own
    rw [own] at above
    exact absurd above (UInt64.lt_irrefl _)
  · rw [after]
    refine ⟨follows.config, follows.started, follows.cluster, follows.least, follows.rank, ?_⟩
    intro own now since
    have rank : engine.cfg.rank = engine.clusterAmr := by rw [follows.config, own]
    have echoed : engine.echo rx = some (rx.nowUsec - beacon.timestamp) := by
      rw [NanEngine.echo, within, Option.bind_some]
      dsimp only
      rw [if_pos ⟨foreign, by rw [carried, level, rank], id⟩]
    rw [onTime rank.symm _ echoed]
    exact follows.clock own now since

theorem Follows.begin (now : Usec) :
    Follows cfg i (first.or (some now)) (engine.started now).1 := by
  refine ⟨follows.config, by cases first <;> rfl, follows.cluster, follows.least, follows.rank, ?_⟩
  intro own since known
  have started := follows.started
  cases first with
  | none =>
    rw [NanEngine.started]
    rw [started]
    simpa using known
  | some earlier =>
    rw [NanEngine.started]
    rw [started]
    have clock := follows.clock own earlier rfl
    have same : earlier = since := by simpa using known
    rw [← same, ← clock]
    rfl

theorem Follows.receive {now : Usec}
    {inbound : List RxFrame} (advertises : ∀ rx ∈ inbound, Advertises cfg rx.bytes)
    (onTime : Throughout NanEngine.handleRx (engine.started now) inbound
      fun state rx => state.1.OnTime rx) :
    Follows cfg i (first.or (some now)) (engine.receive now inbound).1 := by
  have received := @NanEngine.receive_induction
    (fun rest state => (∀ rx ∈ rest, Advertises cfg rx.bytes) ∧
      Throughout NanEngine.handleRx state rest (fun state rx => state.1.OnTime rx) ∧
      Follows cfg i (first.or (some now)) state.1) engine now inbound
    ⟨advertises, onTime, follows.begin now⟩ ?_
  · exact received.2.2
  · rintro rx rest ⟨engine, step⟩ ⟨advertises, onTime, follows⟩
    rw [List.forall_mem_cons] at advertises
    rw [throughout_cons] at onTime
    exact ⟨advertises.2, onTime.2, follows.handleRx advertises.1 onTime.1⟩

end

theorem NanEngine.transmit_sameClock (engine : NanEngine) (now : Usec) (step : Step) :
    SameClock engine (engine.transmit now step).1 := by
  rcases engine.transmit_eq now step with ⟨_, _, _, _, _, _, run, _⟩
  rw [run]
  exact ⟨rfl, rfl, rfl, rfl, rfl⟩

/-- A poll keeps what its engine follows, and sends beacons that say so. -/
theorem Follows.poll (follows : Follows cfg i first engine) {now : Usec}
    {inbound : List RxFrame} (advertises : ∀ rx ∈ inbound, Advertises cfg rx.bytes)
    (onTime : Throughout NanEngine.handleRx (engine.started now) inbound
      fun state rx => state.1.OnTime rx)
    (whole : (engine.receive now inbound).1.inDw now = true →
      engine.functions.length ≤ NanEngine.maxFunctions) :
    Follows cfg i (first.or (some now)) (engine.poll now inbound).1 ∧
      ∀ frame ∈ (engine.poll now inbound).2.tx, Advertises cfg frame.bytes := by
  have received := follows.receive advertises onTime
  have heard := engine.receive_keeps now inbound
  have none : (engine.receive now inbound).2.tx = [] := heard.tx
  have functions : (engine.receive now inbound).1.functions = engine.functions := heard.functions
  rw [NanEngine.poll]
  generalize engine.receive now inbound = state at received none functions whole
  rcases state with ⟨after, step⟩
  by_cases awake : after.inDw now = true
  · simp only [if_pos awake]
    refine ⟨received.same (after.transmit_sameClock now step), ?_⟩
    intro frame found header beacon attrs within
    rcases after.transmit_beacons now none frame found with beaconless |
      ⟨speaker, same, functions', bytes⟩
    · rw [beaconless] at within
      cases within
    · have few : speaker.functions.length ≤ NanEngine.maxFunctions := by
        rw [functions', functions]
        exact whole awake
      rcases NanEngine.beaconIn_beaconFrame few now with ⟨header', beacon', within', id⟩
      rw [bytes, within', Option.some.injEq, Prod.mk.injEq, Prod.mk.injEq] at within
      rcases within with ⟨_, rfl, rfl⟩
      refine ⟨by rw [id, same.clusterId, received.cluster], ?_⟩
      intro amr carried
      rw [NanEngine.beaconAmr_beaconAttributes few, Option.some.injEq, same.clusterAmr] at carried
      rw [← carried]
      exact received.rank
  · simp only [if_neg awake]
    refine ⟨received, ?_⟩
    intro frame found
    rw [none] at found
    cases found

theorem NanEngine.handleRx_grows (state : NanEngine × Step) (rx : RxFrame) :
    state.1.clusterAmr ≤ (handleRx state rx).1.clusterAmr := by
  rcases state with ⟨engine, step⟩
  rcases engine.handleRx_clock step rx with same |
    ⟨_, _, _, amr, _, _, _, ⟨higher, after⟩ | ⟨_, _, after⟩⟩
  · rw [same.clusterAmr]
    exact UInt64.le_refl _
  · rw [after]
    exact UInt64.le_of_lt higher
  · rw [after]
    exact UInt64.le_refl _

theorem NanEngine.poll_grows (engine : NanEngine) (now : Usec) (inbound : List RxFrame) :
    engine.clusterAmr ≤ (engine.poll now inbound).1.clusterAmr := by
  have received := @NanEngine.receive_induction
    (fun _ state => engine.clusterAmr ≤ state.1.clusterAmr) engine now inbound
    (UInt64.le_refl _) (fun rx _ state below => UInt64.le_trans below (handleRx_grows state rx))
  rw [NanEngine.poll]
  generalize engine.receive now inbound = state at received
  rcases state with ⟨after, step⟩
  dsimp only at received ⊢
  split
  · rw [(after.transmit_sameClock now step).clusterAmr]
    exact received
  · exact received

theorem NanEngine.called_sameClock (sha256 : Bytes → Vector UInt8 32) (engine : NanEngine)
    (call : Call) : SameClock engine (engine.called sha256 call) := by
  cases call with
  | publish name ssi => exact ⟨rfl, rfl, rfl, rfl, rfl⟩
  | subscribe name active => exact ⟨rfl, rfl, rfl, rfl, rfl⟩
  | broadcastFollowup ssi => exact ⟨rfl, rfl, rfl, rfl, rfl⟩
  | requestNdp peer =>
    change SameClock engine (engine.requestNdp peer).1
    rw [requestNdp]
    split <;> exact ⟨rfl, rfl, rfl, rfl, rfl⟩
  | terminateNdp peer ndpId =>
    change SameClock engine (engine.terminateNdp peer ndpId)
    rw [terminateNdp]
    split <;> exact ⟨rfl, rfl, rfl, rfl, rfl⟩

end

/-! ### Runs -/

section

variable [DecidableEq ι] {cfg : ι → NanConfig} {net : Network ι}
  {actions : List (NetworkAction ι)}

/-- Every engine follows one of the network, and every frame advertises one. -/
structure FollowsAll (cfg : ι → NanConfig) (first : ι → Option Usec) (net : Network ι) : Prop where
  engine : ∀ i, Follows cfg i (first i) (net.engine i)
  frames : ∀ j sentAt bytes, .sent j sentAt bytes ∈ net.history → Advertises cfg bytes

theorem followsAll_start (cfg : ι → NanConfig) (rendezvous : ι → Rendezvous) :
    FollowsAll cfg (fun i => firstPoll i []) (.start cfg rendezvous) :=
  ⟨fun i => ⟨rfl, rfl, rfl, UInt64.le_refl _, ⟨i, rfl⟩, nofun⟩,
    fun _ _ _ found => absurd found List.not_mem_nil⟩

theorem firstPoll_concat (i : ι) (actions : List (NetworkAction ι)) (last : NetworkAction ι) :
    firstPoll i (actions ++ [last]) = (firstPoll i actions).or (firstPoll i [last]) :=
  List.findSome?_append

theorem FollowsAll.step (follows : FollowsAll cfg (fun i => firstPoll i actions) net)
    (sha256 : Bytes → Vector UInt8 32) {last : NetworkAction ι} (heard : net.HeardLater last)
    (keeps : net.KeepsTime last) (whole : net.WholeBeacons last) :
    FollowsAll cfg (fun i => firstPoll i (actions ++ [last])) (net.step sha256 last) := by
  cases last with
  | call i call =>
    refine ⟨?_, follows.frames⟩
    intro j
    rw [firstPoll_concat]
    have same : (firstPoll j actions).or (firstPoll j [.call i call]) = firstPoll j actions :=
      Option.or_none
    rw [same]
    by_cases here : j = i
    · subst here
      simp only [Network.step, Function.update_self]
      exact (follows.engine j).same (NanEngine.called_sameClock sha256 _ call)
    · simp only [Network.step, Function.update_of_ne here]
      exact follows.engine j
  | poll i now inbound =>
    have advertises : ∀ rx ∈ inbound, Advertises cfg rx.bytes := by
      intro rx found
      rcases heard rx found with ⟨j, sentAt, sent, _⟩
      exact follows.frames j sentAt rx.bytes sent
    have polled := (follows.engine i).poll advertises keeps whole
    constructor
    · intro j
      rw [firstPoll_concat]
      by_cases here : j = i
      · subst here
        have first : firstPoll j [.poll j now inbound] = some now := by simp [firstPoll]
        rw [first]
        simp only [Network.step, Function.update_self]
        exact polled.1
      · have other : firstPoll j [.poll i now inbound] = none := by
          simp [firstPoll, Ne.symm here]
        rw [other, Option.or_none]
        simp only [Network.step, Function.update_of_ne here]
        exact follows.engine j
    · intro j sentAt bytes found
      rcases List.mem_append.mp found with earlier | new
      · exact follows.frames j sentAt bytes earlier
      · rcases List.mem_append.mp new with surfaced | sent
        · rcases List.mem_map.mp surfaced with ⟨_, _, same⟩
          cases same
        · rcases List.mem_map.mp sent with ⟨frame, mem, same⟩
          cases same
          exact polled.2 frame mem

theorem step_grows (sha256 : Bytes → Vector UInt8 32) (net : Network ι) (action : NetworkAction ι)
    (i : ι) : (net.engine i).clusterAmr ≤ ((net.step sha256 action).engine i).clusterAmr := by
  cases action with
  | call j call =>
    by_cases here : i = j
    · subst here
      simp only [Network.step, Function.update_self]
      rw [(NanEngine.called_sameClock sha256 (net.engine i) call).clusterAmr]
      exact UInt64.le_refl _
    · simp only [Network.step, Function.update_of_ne here]
      exact UInt64.le_refl _
  | poll j now inbound =>
    by_cases here : i = j
    · subst here
      simp only [Network.step, Function.update_self]
      exact (net.engine i).poll_grows now inbound
    · simp only [Network.step, Function.update_of_ne here]
      exact UInt64.le_refl _

theorem run_grows (sha256 : Bytes → Vector UInt8 32) (net : Network ι)
    (actions : List (NetworkAction ι)) (i : ι) :
    (net.engine i).clusterAmr ≤ ((net.run sha256 actions).engine i).clusterAmr := by
  induction actions generalizing net with
  | nil => exact UInt64.le_refl _
  | cons action actions ih => exact UInt64.le_trans (step_grows sha256 net action i) (ih _)

/-- In every run in which no anchor hears its own rank under another time. -/
theorem anchors_keep_time (cfg : ι → NanConfig) (rendezvous : ι → Rendezvous)
    (sha256 : Bytes → Vector UInt8 32) (actions : List (NetworkAction ι))
    (heard : Throughout (Network.step sha256) (.start cfg rendezvous) actions Network.HeardLater)
    (keeps : Throughout (Network.step sha256) (.start cfg rendezvous) actions Network.KeepsTime)
    (whole : Throughout (Network.step sha256) (.start cfg rendezvous) actions
      Network.WholeBeacons) :
    AnchorsKeep sha256 cfg (.start cfg rendezvous) actions := by
  have follows : FollowsAll cfg (fun i => firstPoll i actions)
      ((Network.start cfg rendezvous).run sha256 actions) := by
    induction actions using List.reverseRecOn with
    | nil => exact followsAll_start cfg rendezvous
    | append_singleton actions last ih =>
      rw [throughout_append_singleton] at heard keeps whole
      rw [Network.run, List.foldl_append]
      exact (ih heard.1 keeps.1 whole.1).step sha256 heard.2 keeps.2 whole.2
  refine ⟨fun i now own since => (follows.engine i).clock own now since, ?_,
    fun i => (follows.engine i).rank, ?_⟩
  · rintro earlier later rfl i
    rw [Network.run, Network.run, List.foldl_append]
    exact run_grows sha256 _ later i
  · intro i j _
    rw [(follows.engine i).cluster, (follows.engine j).cluster]

end

/-! ### A follower's beacon -/

def echoNetwork : Network Bool := .start twoEngines fun _ => alwaysOn 1000

def echoRun (schedule : List (Bool × Usec)) : List (NetworkAction Bool) :=
  echoNetwork.repeatedly (fun _ => .replicate 32 0) schedule

theorem anchors_keep_time_two :
    AnchorsKeep (fun _ => .replicate 32 0) twoEngines echoNetwork
        (echoRun [(true, 5), (false, 5), (true, 5)]) ∧
      ((echoNetwork.run (fun _ => .replicate 32 0)
        (echoRun [(true, 5), (false, 5), (true, 5)])).engine false).clusterAmr =
          (twoEngines true).rank := by
  refine ⟨anchors_keep_time twoEngines (fun _ => alwaysOn 1000) _ _ ?_ (by decide +kernel)
    (by decide +kernel), by decide +kernel⟩
  exact Network.heardLater_repeatedly _ _ 0 (fun _ _ _ found => absurd found List.not_mem_nil) _
    (by decide +kernel)

/-- The anchor hears a follower's beacon after some delay, and takes over the follower's clock. -/
theorem anchor_moved_by_echo :
    Throughout (Network.step fun _ => .replicate 32 0) echoNetwork
        (echoRun [(true, 0), (false, 100), (true, 300)]) Network.HeardLater ∧
      ¬ AnchorsKeep (fun _ => .replicate 32 0) twoEngines echoNetwork
        (echoRun [(true, 0), (false, 100), (true, 300)]) := by
  constructor
  · exact Network.heardLater_repeatedly _ _ 0 (fun _ _ _ found => absurd found List.not_mem_nil) _
      (by decide +kernel)
  · intro keeps
    have clock := keeps.anchor true 0 (by decide +kernel) (by decide +kernel)
    revert clock
    decide +kernel

end NdnExt.Nan
