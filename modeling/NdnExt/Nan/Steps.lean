import NdnExt.Nan.Spoken

/-! What each operation of the engine can change, and what a poll can send. -/

namespace NdnExt.Nan

open Ndpe

def NanEvent.aboutNdp : NanEvent → Bool
  | .discovered .. => false
  | .followup .. => false
  | .ndpEstablished .. => true
  | .ndpFailed .. => true
  | .ndpTerminated .. => true

namespace NanEngine

/-- Only the data paths and their events. -/
def OnlyNdp (before after : NanEngine × Step) : Prop :=
  ∃ ndps events, after = ({ before.1 with ndps := ndps },
    { before.2 with events := before.2.events ++ events }) ∧
      ∀ event ∈ events, event.aboutNdp = true

theorem OnlyNdp.refl (state : NanEngine × Step) : OnlyNdp state state :=
  ⟨state.1.ndps, [], by simp, nofun⟩

theorem OnlyNdp.trans {first second third : NanEngine × Step} (left : OnlyNdp first second)
    (right : OnlyNdp second third) : OnlyNdp first third := by
  rcases left with ⟨_, events, rfl, about⟩
  rcases right with ⟨ndps, more, rfl, about'⟩
  refine ⟨ndps, events ++ more, by simp, ?_⟩
  intro event found
  exact (List.mem_append.mp found).elim (about event) (about' event)

section

variable (engine : NanEngine)
include engine

theorem onlyNdp_quiet (step : Step) (ndps : List NdpSession) :
    OnlyNdp (engine, step) ({ engine with ndps := ndps }, step) :=
  ⟨ndps, [], by simp, nofun⟩

theorem onlyNdp_event (step : Step) (ndps : List NdpSession)
    {event : NanEvent} (about : event.aboutNdp = true) :
    OnlyNdp (engine, step)
      ({ engine with ndps := ndps }, { step with events := step.events ++ [event] }) :=
  ⟨ndps, [event], rfl, fun _ found => (List.mem_singleton.mp found) ▸ about⟩

theorem onNdpRequest_eq (peer : Mac) (ndpe : Ndpe) :
    ∃ ndps, engine.onNdpRequest peer ndpe = { engine with ndps := ndps } := by
  rw [onNdpRequest]
  split
  · exact ⟨engine.ndps, rfl⟩
  · split
    · exact ⟨_, rfl⟩
    · exact ⟨_, rfl⟩

theorem onNdpResponse_only (peer : Mac) (ndpe : Ndpe) (step : Step) :
    OnlyNdp (engine, step) (engine.onNdpResponse peer ndpe step) := by
  rw [onNdpResponse]
  split
  · exact OnlyNdp.refl _
  · split
    · exact OnlyNdp.refl _
    · split
      · exact onlyNdp_event _ _ _ rfl
      · split
        · exact onlyNdp_event _ _ _ rfl
        · exact onlyNdp_event _ _ _ rfl
      · exact OnlyNdp.refl _

theorem onNdpConfirm_only (peer : Mac) (ndpe : Ndpe) (step : Step) :
    OnlyNdp (engine, step) (engine.onNdpConfirm peer ndpe step) := by
  rw [onNdpConfirm]
  split
  · exact OnlyNdp.refl _
  · split
    · exact OnlyNdp.refl _
    · split
      · exact onlyNdp_event _ _ _ rfl
      · exact onlyNdp_event _ _ _ rfl

theorem onNdpTermination_only (peer : Mac) (ndpe : Ndpe) (step : Step) :
    OnlyNdp (engine, step) (engine.onNdpTermination peer ndpe step) := by
  rw [onNdpTermination]
  split
  · exact OnlyNdp.refl _
  · exact onlyNdp_event _ _ _ rfl

theorem handleNaf_only (rx : RxFrame) (subtype : UInt8) (attrs : Bytes)
    (step : Step) : OnlyNdp (engine, step) (engine.handleNaf rx subtype attrs step) := by
  rw [handleNaf]
  split
  · exact OnlyNdp.refl _
  · split
    · next sub ndpe _ _ =>
      cases sub with
      | dataPathRequest =>
        rcases engine.onNdpRequest_eq (rxAddr2 rx.bytes) ndpe with ⟨ndps, same⟩
        dsimp only
        rw [same]
        exact onlyNdp_quiet ..
      | dataPathResponse => exact onNdpResponse_only ..
      | dataPathConfirm => exact onNdpConfirm_only ..
      | dataPathTermination => exact onNdpTermination_only ..
      | rangingRequest | rangingResponse | rangingTermination | rangingReport
      | dataPathKeyInstallment | scheduleRequest | scheduleResponse | scheduleConfirm
      | scheduleUpdateNotification => exact OnlyNdp.refl _
    · exact OnlyNdp.refl _

theorem handleBeacon_eq (rx : RxFrame) :
    ∃ clusterId base amr synced burst, engine.handleBeacon rx =
      { engine with
        clusterId := clusterId
        baseTimeUsec := base
        clusterAmr := amr
        synced := synced
        lastBurstDw := burst } ∧ (burst = engine.lastBurstDw ∨ burst = none) := by
  have same : ∃ clusterId base amr synced burst, engine =
      { engine with
        clusterId := clusterId
        baseTimeUsec := base
        clusterAmr := amr
        synced := synced
        lastBurstDw := burst } ∧ (burst = engine.lastBurstDw ∨ burst = none) :=
    ⟨_, _, _, _, _, rfl, Or.inl rfl⟩
  rw [handleBeacon]
  split
  · exact same
  · split
    · exact same
    · split
      · exact ⟨_, _, _, _, _, rfl, Or.inr rfl⟩
      · split
        · exact ⟨_, _, _, _, _, rfl, Or.inl rfl⟩
        · exact same

theorem notePeer_eq (peer : Mac) (theirInstance : UInt8) :
    ∃ peers, engine.notePeer peer theirInstance = { engine with peers := peers } := by
  rw [notePeer]
  split
  · exact ⟨_, rfl⟩
  · exact ⟨_, rfl⟩

end

/-- Frames that follow each other from one engine, whose sequence number moves on. -/
theorem foldl_sendFollowup (queue : List Followup) (engine : NanEngine) (step : Step) :
    ∃ (seq : UInt16) (frames : List Bytes), queue.foldl sendFollowup (engine, step) =
    ({ engine with seq := seq },
        { step with tx := step.tx ++ frames.map TxFrame.mk }) ∧
      List.Forall₂ (fun (fu : Followup) bytes => ∃ seq,
        bytes = fu.frame engine.cfg.nmi engine.clusterId seq) queue frames := by
  induction queue generalizing engine step with
  | nil => exact ⟨engine.seq, [], by simp, .nil⟩
  | cons fu queue ih =>
    rcases ih engine.nextSeq
      { step with tx := step.tx ++ [⟨fu.frame engine.cfg.nmi engine.clusterId engine.seq⟩] }
      with ⟨seq, frames, run, said⟩
    refine ⟨seq, fu.frame engine.cfg.nmi engine.clusterId engine.seq :: frames, ?_,
      .cons ⟨_, rfl⟩ said⟩
    rw [List.foldl_cons]
    exact run.trans (by simp [nextSeq])

theorem emitFollowups_eq (engine : NanEngine) (step : Step) :
    ∃ (seq : UInt16) (frames : List Bytes), engine.emitFollowups step =
    ({ engine with followups := [], seq := seq },
        { step with tx := step.tx ++ frames.map TxFrame.mk }) ∧
      List.Forall₂ (fun (fu : Followup) bytes => ∃ seq,
        bytes = fu.frame engine.cfg.nmi engine.clusterId seq) engine.followups frames :=
  foldl_sendFollowup engine.followups { engine with followups := [] } step

/-- A data-path frame of an engine: its attribute can be read back. -/
def IsNdpFrame (nmi : Mac) (bytes : Bytes) : Prop :=
  ∃ (ndpe : Ndpe) (subtype : NafSubtype) (dst clusterId : Mac) (seq : UInt16),
    ndpe.Coherent ∧ ndpe.body.length < 2 ^ 16 ∧ bytes = ndpe.frame subtype dst nmi clusterId seq

theorem ndpeFor_coherent {cfg : NanConfig} {s : NdpSession} {sub : NafSubtype} {ndpe : Ndpe}
    (due : ndpeFor cfg s sub = some ndpe) : ndpe.Coherent ∧ ndpe.body.length < 2 ^ 16 := by
  cases sub with
  | dataPathRequest =>
    cases due
    exact ⟨coherent_request .., by simp [body, request, NdpeTlv.encode]⟩
  | dataPathResponse =>
    cases accepts : cfg.ndpAutoAccept with
    | true =>
      simp only [ndpeFor, accepts] at due
      cases due
      exact ⟨coherent_accept ..,
        by simp [body, accept, NdpeTlv.encode, carriesResponder]⟩
    | false =>
      simp only [ndpeFor, accepts] at due
      cases due
      exact ⟨coherent_confirm _ _ _ rfl, by simp [body, confirm]⟩
  | dataPathConfirm =>
    cases due
    exact ⟨coherent_confirm _ _ _ rfl, by simp [body, confirm]⟩
  | dataPathTermination =>
    cases due
    exact ⟨coherent_confirm _ _ _ rfl, by simp [body, confirm]⟩
  | rangingRequest | rangingResponse | rangingTermination | rangingReport
  | dataPathKeyInstallment | scheduleRequest | scheduleResponse | scheduleConfirm
  | scheduleUpdateNotification => cases due

theorem ndpTurn_frame {cfg : NanConfig} {now : Usec} {s : NdpSession}
    {frame : Mac × NafSubtype × Bytes} (due : (ndpTurn cfg now s).frame = some frame) :
    ∃ ndpe : Ndpe, frame.2.2 = ndpe.encode ∧ ndpe.Coherent ∧ ndpe.body.length < 2 ^ 16 := by
  rw [ndpTurn] at due
  split at due
  · cases due
  · split at due
    · cases due
    · split at due
      · cases due
      · next found =>
        cases due
        exact ⟨_, rfl, ndpeFor_coherent found⟩

theorem foldl_sendNaf {frames : List (Mac × NafSubtype × Bytes)}
    (coherent : ∀ frame ∈ frames, ∃ ndpe : Ndpe,
      frame.2.2 = ndpe.encode ∧ ndpe.Coherent ∧ ndpe.body.length < 2 ^ 16)
    (engine : NanEngine) (step : Step) :
    ∃ (seq : UInt16) (sent : List Bytes), frames.foldl sendNaf (engine, step) =
    ({ engine with seq := seq },
        { step with tx := step.tx ++ sent.map TxFrame.mk }) ∧
      ∀ bytes ∈ sent, IsNdpFrame engine.cfg.nmi bytes := by
  induction frames generalizing engine step with
  | nil => exact ⟨engine.seq, [], by simp, nofun⟩
  | cons frame frames ih =>
    rw [List.forall_mem_cons] at coherent
    rcases coherent with ⟨⟨ndpe, encoded, whole, fits⟩, later⟩
    have bytes : (NanActionFrame.new frame.2.1 frame.1 engine.cfg.nmi engine.clusterId
        engine.seq).encode frame.2.2 =
          ndpe.frame frame.2.1 frame.1 engine.cfg.nmi engine.clusterId engine.seq := by
      rw [encoded, Ndpe.frame]
    rcases ih later engine.nextSeq
      { step with tx := step.tx ++
        [⟨ndpe.frame frame.2.1 frame.1 engine.cfg.nmi engine.clusterId engine.seq⟩] }
      with ⟨seq, sent, run, said⟩
    refine ⟨seq, ndpe.frame frame.2.1 frame.1 engine.cfg.nmi engine.clusterId engine.seq :: sent,
      ?_, ?_⟩
    · rw [List.foldl_cons, sendNaf, bytes]
      exact run.trans (by simp [nextSeq])
    · rw [List.forall_mem_cons]
      exact ⟨⟨ndpe, _, _, _, _, whole, fits, rfl⟩, said⟩

theorem dropTimedOut_only (state : NanEngine × Step) (s : NdpSession) :
    OnlyNdp state (dropTimedOut state s) := by
  rcases state with ⟨engine, step⟩
  rw [dropTimedOut]
  split
  · exact OnlyNdp.refl _
  · split
    · exact onlyNdp_event _ _ _ rfl
    · exact onlyNdp_quiet ..

theorem foldl_dropTimedOut_only (sessions : List NdpSession) (state : NanEngine × Step) :
    OnlyNdp state (sessions.foldl dropTimedOut state) := by
  induction sessions generalizing state with
  | nil => exact OnlyNdp.refl _
  | cons s sessions ih => exact (dropTimedOut_only state s).trans (ih _)

theorem emitNdp_eq (engine : NanEngine) (now : Usec) (step : Step) :
    ∃ ndps seq, ∃ sent : List Bytes, ∃ events, engine.emitNdp now step =
        ({ engine with ndps := ndps, seq := seq },
        { step with tx := step.tx ++ sent.map TxFrame.mk, events := step.events ++ events }) ∧
      (∀ bytes ∈ sent, IsNdpFrame engine.cfg.nmi bytes) ∧
      ∀ event ∈ events, event.aboutNdp = true := by
  have coherent : ∀ frame ∈ (engine.ndps.map (ndpTurn engine.cfg now)).filterMap NdpTurn.frame,
      ∃ ndpe : Ndpe, frame.2.2 = ndpe.encode ∧ ndpe.Coherent ∧ ndpe.body.length < 2 ^ 16 := by
    intro frame found
    rcases List.mem_filterMap.mp found with ⟨turn, taken, due⟩
    rcases List.mem_map.mp taken with ⟨s, _, rfl⟩
    exact ndpTurn_frame due
  rcases foldl_sendNaf coherent
    { engine with ndps := (engine.ndps.map (ndpTurn engine.cfg now)).map NdpTurn.session } step
    with ⟨seq, sent, run, said⟩
  rcases foldl_dropTimedOut_only
    (((engine.ndps.map (ndpTurn engine.cfg now)).filter NdpTurn.timedOut).map NdpTurn.session)
    (((engine.ndps.map (ndpTurn engine.cfg now)).filterMap NdpTurn.frame).foldl sendNaf
      ({ engine with ndps := (engine.ndps.map (ndpTurn engine.cfg now)).map NdpTurn.session }, step))
    with ⟨ndps, events, dropped, about⟩
  refine ⟨ndps, seq, sent, events, ?_, said, about⟩
  rw [emitNdp, dropped, run]

/-- The frames of a burst: those of engines that differ in nothing they say. -/
def IsBurst (engine : NanEngine) (now : Usec) (frames : List Bytes) : Prop :=
  ∃ first second : NanEngine, first.cfg = engine.cfg ∧ first.functions = engine.functions ∧
    second.cfg = engine.cfg ∧ second.functions = engine.functions ∧
    frames = first.beaconFrame now ::
      if engine.advertises then [second.discoveryFrame] else []

theorem emitBeacon_eq (engine : NanEngine) (now : Usec) (step : Step) :
    engine.emitBeacon now step =
      (engine.nextSeq, { step with tx := step.tx ++ [engine.beaconFrame now].map TxFrame.mk }) :=
  rfl

theorem emitDiscovery_eq (engine : NanEngine) (step : Step) :
    ∃ seq, engine.emitDiscovery step = ({ engine with seq := seq },
      { step with tx := step.tx ++
        (if engine.advertises then [engine.discoveryFrame] else []).map TxFrame.mk }) := by
  rw [emitDiscovery]
  split
  · exact ⟨_, rfl⟩
  · exact ⟨engine.seq, by simp⟩

theorem burst_eq (engine : NanEngine) (now : Usec) (step : Step) :
    (engine.lastBurstDw = some (engine.dwIndex now) ∧ engine.burst now step = (engine, step)) ∨
      ∃ (seq : UInt16) (frames : List Bytes), engine.burst now step =
          ({ engine with lastBurstDw := some (engine.dwIndex now), seq := seq },
            { step with tx := step.tx ++ frames.map TxFrame.mk }) ∧
        engine.IsBurst now frames := by
  rw [burst]
  split
  · next done => exact Or.inl ⟨done, rfl⟩
  · right
    rcases emitDiscovery_eq
      (NanEngine.nextSeq { engine with lastBurstDw := some (engine.dwIndex now) })
      { step with tx := step.tx ++ [NanEngine.beaconFrame
        { engine with lastBurstDw := some (engine.dwIndex now) } now].map TxFrame.mk }
      with ⟨seq, sent⟩
    rw [emitBeacon_eq]
    refine ⟨seq, _, sent.trans ?_, { engine with lastBurstDw := some (engine.dwIndex now) },
      NanEngine.nextSeq { engine with lastBurstDw := some (engine.dwIndex now) },
      rfl, rfl, rfl, rfl, rfl⟩
    rw [List.append_assoc]
    rfl

/-- The frames of a follow-up queue, in its order. -/
def SendsQueue (nmi clusterId : Mac) (queue : List Followup) (frames : List Bytes) : Prop :=
  List.Forall₂ (fun fu bytes => ∃ seq, bytes = fu.frame nmi clusterId seq) queue frames

/-- A transmit window: the burst unless it was already made, the queue, the data paths. -/
theorem transmit_eq (engine : NanEngine) (now : Usec) (step : Step) :
    ∃ ndps seq, ∃ burst queue paths : List Bytes, ∃ events, engine.transmit now step =
        ({ engine with
            ndps := ndps
            seq := seq
            lastBurstDw := some (engine.dwIndex now)
            followups := [] },
          { step with
            tx := step.tx ++ (burst ++ queue ++ paths).map TxFrame.mk
            events := step.events ++ events }) ∧
      ((engine.lastBurstDw = some (engine.dwIndex now) ∧ burst = []) ∨
        engine.IsBurst now burst) ∧
      SendsQueue engine.cfg.nmi engine.clusterId engine.followups queue ∧
      (∀ bytes ∈ paths, IsNdpFrame engine.cfg.nmi bytes) ∧
      ∀ event ∈ events, event.aboutNdp = true := by
  have bursts : ∃ seq, ∃ burst : List Bytes, engine.burst now step =
        ({ engine with lastBurstDw := some (engine.dwIndex now), seq := seq },
          { step with tx := step.tx ++ burst.map TxFrame.mk }) ∧
      ((engine.lastBurstDw = some (engine.dwIndex now) ∧ burst = []) ∨
        engine.IsBurst now burst) := by
    rcases engine.burst_eq now step with ⟨done, same⟩ | ⟨seq, frames, run, made⟩
    · refine ⟨engine.seq, [], ?_, Or.inl ⟨done, rfl⟩⟩
      rw [same, ← done]
      simp
    · exact ⟨seq, frames, run, Or.inr made⟩
  rcases bursts with ⟨seq, burst, run, burst'⟩
  rcases emitFollowups_eq
    { engine with lastBurstDw := some (engine.dwIndex now), seq := seq }
    { step with tx := step.tx ++ burst.map TxFrame.mk } with ⟨seq', queue, run', queue'⟩
  rcases emitNdp_eq
    { engine with
      lastBurstDw := some (engine.dwIndex now)
      followups := []
      seq := seq' } now
    { step with tx := step.tx ++ burst.map TxFrame.mk ++ queue.map TxFrame.mk }
    with ⟨ndps, seq'', paths, events, run'', paths', events'⟩
  refine ⟨ndps, seq'', burst, queue, paths, events, ?_, burst', queue', paths', events'⟩
  rw [transmit, run]
  dsimp only
  rw [run']
  rw [run'']
  simp only [List.map_append, List.append_assoc]

/-- What hearing frames leaves alone. -/
structure Keeps (before after : NanEngine × Step) : Prop where
  cfg : after.1.cfg = before.1.cfg
  functions : after.1.functions = before.1.functions
  followups : after.1.followups = before.1.followups
  burst : after.1.lastBurstDw = before.1.lastBurstDw ∨ after.1.lastBurstDw = none
  peers : after.1.peers ≠ [] → before.1.peers ≠ [] ∨ before.1.functions ≠ []
  tx : after.2.tx = before.2.tx

theorem Keeps.refl (state : NanEngine × Step) : Keeps state state :=
  ⟨rfl, rfl, rfl, Or.inl rfl, Or.inl, rfl⟩

theorem Keeps.trans {first second third : NanEngine × Step} (left : Keeps first second)
    (right : Keeps second third) : Keeps first third := by
  refine ⟨right.cfg.trans left.cfg, right.functions.trans left.functions,
    right.followups.trans left.followups, ?_, ?_, right.tx.trans left.tx⟩
  · rcases right.burst with same | none
    · rw [same]
      exact left.burst
    · exact Or.inr none
  · intro some
    rcases right.peers some with earlier | registered
    · exact left.peers earlier
    · exact Or.inr (left.functions ▸ registered)

theorem OnlyNdp.keeps {before after : NanEngine × Step} (only : OnlyNdp before after) :
    Keeps before after := by
  rcases only with ⟨ndps, events, rfl, _⟩
  exact ⟨rfl, rfl, rfl, Or.inl rfl, Or.inl, rfl⟩

theorem handleBeacon_keeps (engine : NanEngine) (rx : RxFrame) (step : Step) :
    Keeps (engine, step) (engine.handleBeacon rx, step) := by
  rcases engine.handleBeacon_eq rx with ⟨_, _, _, _, _, same, burst⟩
  rw [same]
  exact ⟨rfl, rfl, rfl, burst, Or.inl, rfl⟩

theorem functions_ne_nil_of_hasFunctionFor {engine : NanEngine} {sid : ServiceId}
    (has : engine.hasFunctionFor sid = true) : engine.functions ≠ [] := by
  intro none
  rw [hasFunctionFor, none] at has
  cases has

theorem handleDescriptor_keeps (rx : RxFrame) (state : NanEngine × Step)
    (sda : ServiceDescriptor) : Keeps state (handleDescriptor rx state sda) := by
  rcases state with ⟨engine, step⟩
  rcases engine.notePeer_eq (rxAddr2 rx.bytes) sda.instanceId with ⟨peers, noted⟩
  have advertisement : Keeps (engine, step)
      (if engine.hasFunctionFor sda.serviceId then
        if (rxAddr2 rx.bytes, sda.serviceId) ∈ engine.discovered then
          ({ engine with peers := peers }, step)
        else
          ({ engine with
              peers := peers
              discovered := engine.discovered ++ [(rxAddr2 rx.bytes, sda.serviceId)] },
            { step with
              events := step.events ++
                [.discovered sda.serviceId (rxAddr2 rx.bytes) sda.serviceInfo rx.rssiDbm] })
      else (engine, step)) := by
    split
    · next has =>
      have registered := functions_ne_nil_of_hasFunctionFor has
      split
      · exact ⟨rfl, rfl, rfl, Or.inl rfl, fun _ => Or.inr registered, rfl⟩
      · exact ⟨rfl, rfl, rfl, Or.inl rfl, fun _ => Or.inr registered, rfl⟩
    · exact Keeps.refl _
  rw [handleDescriptor]
  rw [noted]
  cases sda.control.controlType with
  | publish => exact advertisement
  | subscribe => exact advertisement
  | followUp =>
    dsimp only
    split
    · exact ⟨rfl, rfl, rfl, Or.inl rfl, Or.inl, rfl⟩
    · exact Keeps.refl _

theorem handleSdf_keeps (engine : NanEngine) (rx : RxFrame) (attrs : Bytes) (step : Step) :
    Keeps (engine, step) (engine.handleSdf rx attrs step) := by
  rw [handleSdf]
  generalize descriptors attrs = sdas
  induction sdas generalizing engine step with
  | nil => exact Keeps.refl _
  | cons sda sdas ih =>
    have first := handleDescriptor_keeps rx (engine, step) sda
    rw [List.foldl_cons]
    exact first.trans (ih _ _)

theorem handleRx_keeps (state : NanEngine × Step) (rx : RxFrame) :
    Keeps state (handleRx state rx) := by
  rcases state with ⟨engine, step⟩
  rw [handleRx]
  split
  · exact Keeps.refl _
  · split
    · exact Keeps.refl _
    · split
      · exact engine.handleBeacon_keeps rx step
      · exact engine.handleSdf_keeps ..
      · exact (engine.handleNaf_only ..).keeps
      · exact Keeps.refl _

theorem foldl_handleRx_keeps (inbound : List RxFrame) (state : NanEngine × Step) :
    Keeps state (inbound.foldl handleRx state) := by
  induction inbound generalizing state with
  | nil => exact Keeps.refl _
  | cons rx inbound ih => exact (handleRx_keeps state rx).trans (ih _)

/-- A poll starts with a step that has nothing to send. -/
theorem receive_keeps (engine : NanEngine) (now : Usec) (inbound : List RxFrame) :
    Keeps (engine, Step.default) (engine.receive now inbound) := by
  have started : ∀ step : Step, step.tx = [] → Keeps (engine, Step.default)
      (inbound.foldl handleRx ({ (if engine.baseInitialized then engine
        else { engine with baseTimeUsec := now, baseInitialized := true }) with
          channelSet := true }, step)) := by
    intro step empty
    refine Keeps.trans ?_ (foldl_handleRx_keeps inbound _)
    split <;> exact ⟨rfl, rfl, rfl, Or.inl rfl, Or.inl, empty⟩
  exact started _ rfl

end NanEngine

end NdnExt.Nan
