import NdnExt.Lib.Keyed
import NdnExt.Nan.Transcript

/-! The data paths of an engine by their keys: what a frame does to the one path it is about, and
what a transmit window does with each of them. -/

namespace NdnExt.Nan

open NdnExt.Lib NdnExt.Lib.Keyed NdpSession

/-- A path is known by its peer, its id and the side it is held from. -/
structure PathKey where
  peer : Mac
  ndpId : UInt8
  role : NdpRole
  deriving DecidableEq

def NdpSession.key (s : NdpSession) : PathKey := ⟨s.peer, s.ndpId, s.role⟩

/-- What a data-path frame says: whom it is for, whom it is from, and its attribute. -/
structure PathMessage where
  dest : Option Mac
  source : Mac
  subtype : NafSubtype
  ndpe : Ndpe
  deriving DecidableEq

def pathMessage (bytes : Bytes) : Option PathMessage :=
  match classify bytes with
  | .ok ⟨_, .naf subtype, attributes⟩ =>
    match NafSubtype.fromByte subtype, (Attributes.find attributes .ndpExtension).bind fun attr =>
      (Ndpe.decode attr.body).toOption with
    | some sub, some ndpe => some ⟨rxAddr1 bytes, rxAddr2 bytes, sub, ndpe⟩
    | _, _ => none
  | _ => none

/-- The session a request opens on the side that is asked. -/
def responderFor (peer : Mac) (ndpe : Ndpe) : NdpSession where
  peer := peer
  ndpId := ndpe.ndpId
  dialogToken := ndpe.dialogToken
  role := .responder
  state := .awaitingConfirm
  peerNdi := some ndpe.initiatorNdi
  peerIid := ndpe.ipv6Iid
  pendingTx := some .dataPathResponse
  attempts := 0
  retryAtUsec := 0

/-- What a message makes of the session it is about, and what is reported of it. -/
def reaction (m : PathMessage) (held : Option NdpSession) : Option NdpSession × List NanEvent :=
  match m.subtype, held with
  | .dataPathRequest, none =>
    if m.ndpe.ndpType ≠ .request then (none, []) else (some (responderFor m.source m.ndpe), [])
  | .dataPathRequest, some s =>
    if m.ndpe.ndpType = .request ∧ s.role = .responder ∧ s.state = .awaitingConfirm then
      (some { s with pendingTx := some .dataPathResponse }, [])
    else (some s, [])
  | .dataPathResponse, some s =>
    if s.role ≠ .initiator ∨ s.state ≠ .awaitingResponse then (some s, [])
    else
      match m.ndpe.status with
      | .rejected => (none, [.ndpFailed m.source s.ndpId (.rejected m.ndpe.reasonCode)])
      | .accepted =>
        match m.ndpe.responderNdi, m.ndpe.ipv6Iid with
        | some ndi, some iid =>
          (some { s with
              peerNdi := some ndi
              peerIid := some iid
              state := .established
              pendingTx := some .dataPathConfirm },
            [.ndpEstablished m.source s.ndpId s.role ndi iid])
        | _, _ => (none, [.ndpFailed m.source s.ndpId (.rejected 0)])
      | .continuing => (some s, [])
  | .dataPathConfirm, some s =>
    if s.role ≠ .responder ∨ s.state ≠ .awaitingConfirm then (some s, [])
    else
      match s.peerNdi, s.peerIid with
      | some ndi, some iid =>
        (some { s with state := .established }, [.ndpEstablished m.source s.ndpId s.role ndi iid])
      | _, _ => (none, [.ndpFailed m.source s.ndpId (.rejected 0)])
  | .dataPathTermination, some s => (none, [.ndpTerminated m.source s.ndpId])
  | _, held => (held, [])

namespace NanEngine

def path (engine : NanEngine) (k : PathKey) : Option NdpSession :=
  entry NdpSession.key engine.ndps k

def localNdpIdentity (engine : NanEngine) : Mac × Vector UInt8 8 :=
  (engine.cfg.ndi, eui64Iid engine.cfg.ndi)

/-- The engine after a call. -/
def called (sha256 : Bytes → Vector UInt8 32) (engine : NanEngine) (call : Call) : NanEngine :=
  ((Transcript.start engine).call sha256 call).engine

def keyOf (engine : NanEngine) (m : PathMessage) : PathKey :=
  ⟨m.source, m.ndpe.ndpId,
    if m.ndpe.initiatorNdi = engine.cfg.ndi then .initiator else .responder⟩

def onPath (engine : NanEngine) (m : PathMessage) (step : Step) : NanEngine × Step :=
  match m.subtype with
  | .dataPathRequest => (engine.onNdpRequest m.source m.ndpe, step)
  | .dataPathResponse => engine.onNdpResponse m.source m.ndpe step
  | .dataPathConfirm => engine.onNdpConfirm m.source m.ndpe step
  | .dataPathTermination => engine.onNdpTermination m.source m.ndpe step
  | _ => (engine, step)

theorem ndpIndexRole_eq (engine : NanEngine) (peer : Mac) (ndpId : UInt8) (role : NdpRole) :
    engine.ndpIndexRole peer ndpId role =
      position key engine.ndps ⟨peer, ndpId, role⟩ := by
  rw [ndpIndexRole, position]
  congr 1
  funext s
  rw [Bool.eq_iff_iff]
  simp [key, and_assoc]

theorem ndpIndex_eq (engine : NanEngine) (m : PathMessage) :
    engine.ndpIndex m.source m.ndpe = position key engine.ndps (engine.keyOf m) := by
  rw [ndpIndex, ndpIndexRole_eq]
  rfl

/-- A message changes the path it is about and no other. -/
structure Reacts (before : NanEngine × Step) (m : PathMessage) (after : NanEngine × Step) :
    Prop where
  engine : ∃ ndps, after.1 = { before.1 with ndps := ndps }
  paths : Updated NdpSession.key before.1.ndps after.1.ndps (before.1.keyOf m)
    (reaction m (before.1.path (before.1.keyOf m))).1
  step : after.2 = { before.2 with
    events := before.2.events ++ (reaction m (before.1.path (before.1.keyOf m))).2 }

theorem Reacts.of {engine : NanEngine} {step : Step} {m : PathMessage} {ndps : List NdpSession}
    {held value : Option NdpSession} {events : List NanEvent}
    (path : engine.path (engine.keyOf m) = held) (reacts : reaction m held = (value, events))
    (updated : Updated key engine.ndps ndps (engine.keyOf m) value) :
    Reacts (engine, step) m
      ({ engine with ndps := ndps }, { step with events := step.events ++ events }) := by
  refine ⟨⟨_, rfl⟩, ?_, ?_⟩
  · rw [path, reacts]
    exact updated
  · rw [path, reacts]

variable {engine : NanEngine} {m : PathMessage}

theorem Reacts.silent {step : Step}
    {ndps : List NdpSession} {held value : Option NdpSession}
    (path : engine.path (engine.keyOf m) = held) (reacts : reaction m held = (value, []))
    (updated : Updated key engine.ndps ndps (engine.keyOf m) value) :
    Reacts (engine, step) m ({ engine with ndps := ndps }, step) := by
  have silent := @Reacts.of _ step _ _ _ _ _ path reacts updated
  rwa [List.append_nil] at silent

theorem Reacts.unmoved {held : Option NdpSession}
    (step : Step) (distinct : Distinct key engine.ndps)
    (path : engine.path (engine.keyOf m) = held) (reacts : reaction m held = (held, [])) :
    Reacts (engine, step) m (engine, step) := by
  have same := Updated.refl distinct (engine.keyOf m)
  exact Reacts.silent path reacts (path ▸ same)

theorem onNdpRequest_reacts (step : Step)
    (distinct : Distinct NdpSession.key engine.ndps) (kind : m.subtype = .dataPathRequest)
    (foreign : m.ndpe.initiatorNdi ≠ engine.cfg.ndi) :
    Reacts (engine, step) m (engine.onNdpRequest m.source m.ndpe, step) := by
  have key : engine.keyOf m = (responderFor m.source m.ndpe).key := by
    rw [keyOf, if_neg foreign]
    rfl
  rw [onNdpRequest, ndpIndex_eq]
  by_cases type : m.ndpe.ndpType = .request
  · rw [if_neg (not_not_intro type)]
    cases found : position NdpSession.key engine.ndps (engine.keyOf m) with
    | none =>
      have missing := entry_of_no_position found
      have reacts : reaction m none = (some (responderFor m.source m.ndpe), []) := by
        simp [reaction, kind, type]
      refine Reacts.silent missing reacts ?_
      rw [key] at missing ⊢
      exact updated_append distinct missing
    | some i =>
      rcases entry_of_position found with ⟨s, _, held⟩
      have changed := updated_modify distinct found
        (fun s => if s.role = .responder ∧ s.state = .awaitingConfirm then
          { s with pendingTx := some .dataPathResponse } else s)
        (fun s => by split <;> rfl)
      have reacts : reaction m (some s) = (some
          (if s.role = .responder ∧ s.state = .awaitingConfirm then
            { s with pendingTx := some .dataPathResponse } else s), []) := by
        by_cases waits : s.role = .responder ∧ s.state = .awaitingConfirm <;>
          simp [reaction, kind, type, waits]
      rw [held] at changed
      exact Reacts.silent held reacts changed
  · rw [if_pos type]
    refine Reacts.unmoved step distinct rfl ?_
    cases engine.path (engine.keyOf m) <;> simp [reaction, kind, type]

/-- A session that is found at a position is what the key leads to. -/
theorem held_at {i : Nat} {s : NdpSession}
    (found : (engine.ndpIndex m.source m.ndpe).bind (fun i =>
      engine.ndps[i]?.map fun s => (i, s)) = some (i, s)) :
    position key engine.ndps (engine.keyOf m) = some i ∧
      engine.path (engine.keyOf m) = some s := by
  rw [ndpIndex_eq] at found
  rcases Option.bind_eq_some_iff.mp found with ⟨j, position', taken⟩
  rcases Option.map_eq_some_iff.mp taken with ⟨v, stands, same⟩
  rcases entry_of_position position' with ⟨w, stands', held⟩
  rw [Prod.mk.injEq] at same
  rcases same with ⟨rfl, rfl⟩
  rw [stands', Option.some.injEq] at stands
  exact ⟨position', stands ▸ held⟩

theorem not_held
    (missing : (engine.ndpIndex m.source m.ndpe).bind (fun i =>
      engine.ndps[i]?.map fun s => (i, s)) = none) : engine.path (engine.keyOf m) = none := by
  rw [ndpIndex_eq] at missing
  cases found : position key engine.ndps (engine.keyOf m) with
  | none => exact entry_of_no_position found
  | some i =>
    rcases entry_of_position found with ⟨s, stands, _⟩
    rw [found, Option.bind_some, stands] at missing
    cases missing

theorem failNdp_reacts {i : Nat} {s : NdpSession}
    {reason : NdpFailure} (step : Step) (distinct : Distinct key engine.ndps)
    (found : position key engine.ndps (engine.keyOf m) = some i)
    (held : engine.path (engine.keyOf m) = some s)
    (reacts : reaction m (some s) = (none, [.ndpFailed m.source s.ndpId reason])) :
    Reacts (engine, step) m (engine.failNdp m.source step i s reason) :=
  Reacts.of held reacts (updated_eraseIdx distinct found)

theorem onNdpResponse_reacts (step : Step)
    (distinct : Distinct key engine.ndps) (kind : m.subtype = .dataPathResponse) :
    Reacts (engine, step) m (engine.onNdpResponse m.source m.ndpe step) := by
  rw [onNdpResponse]
  split
  · next missing => exact Reacts.unmoved step distinct (not_held missing) (by simp [reaction, kind])
  · next i s found =>
    rcases held_at found with ⟨stands, held⟩
    split
    · next other => exact Reacts.unmoved step distinct held (by simp [reaction, kind, other])
    · next waits =>
      have own : s.key = engine.keyOf m := key_entry held
      split
      · next status =>
        exact failNdp_reacts step distinct stands held (by simp [reaction, kind, waits, status])
      · next status =>
        split
        · next ndi iid ndi' iid' =>
          exact Reacts.of held (by simp [reaction, kind, waits, status, ndi', iid'])
            (updated_set distinct stands own)
        · next none =>
          refine failNdp_reacts step distinct stands held ?_
          cases ndi : m.ndpe.responderNdi <;> cases iid : m.ndpe.ipv6Iid <;>
            simp_all [reaction]
      · next status =>
        exact Reacts.unmoved step distinct held (by simp [reaction, kind, waits, status])

theorem onNdpConfirm_reacts (step : Step)
    (distinct : Distinct key engine.ndps) (kind : m.subtype = .dataPathConfirm) :
    Reacts (engine, step) m (engine.onNdpConfirm m.source m.ndpe step) := by
  rw [onNdpConfirm]
  split
  · next missing => exact Reacts.unmoved step distinct (not_held missing) (by simp [reaction, kind])
  · next i s found =>
    rcases held_at found with ⟨stands, held⟩
    split
    · next other => exact Reacts.unmoved step distinct held (by simp [reaction, kind, other])
    · next waits =>
      have own : s.key = engine.keyOf m := key_entry held
      split
      · next ndi iid ndi' iid' =>
        exact Reacts.of held (by simp [reaction, kind, waits, ndi', iid'])
          (updated_set distinct stands own)
      · next none =>
        refine failNdp_reacts step distinct stands held ?_
        cases ndi : s.peerNdi <;> cases iid : s.peerIid <;> simp_all [reaction]

theorem onNdpTermination_reacts (step : Step)
    (distinct : Distinct key engine.ndps) (kind : m.subtype = .dataPathTermination) :
    Reacts (engine, step) m (engine.onNdpTermination m.source m.ndpe step) := by
  rw [onNdpTermination]
  split
  · next missing => exact Reacts.unmoved step distinct (not_held missing) (by simp [reaction, kind])
  · next i s found =>
    rcases held_at found with ⟨stands, held⟩
    exact Reacts.of held (by simp [reaction, kind]) (updated_eraseIdx distinct stands)

/-- A request is only taken for another engine's where its data interface is another's. -/
theorem onPath_reacts (step : Step)
    (distinct : Distinct key engine.ndps)
    (foreign : m.subtype = .dataPathRequest → m.ndpe.initiatorNdi ≠ engine.cfg.ndi) :
    Reacts (engine, step) m (engine.onPath m step) := by
  rw [onPath]
  cases kind : m.subtype with
  | dataPathRequest => exact onNdpRequest_reacts step distinct kind (foreign kind)
  | dataPathResponse => exact onNdpResponse_reacts step distinct kind
  | dataPathConfirm => exact onNdpConfirm_reacts step distinct kind
  | dataPathTermination => exact onNdpTermination_reacts step distinct kind
  | rangingRequest | rangingResponse | rangingTermination | rangingReport
  | dataPathKeyInstallment | scheduleRequest | scheduleResponse | scheduleConfirm
  | scheduleUpdateNotification =>
    refine Reacts.unmoved step distinct rfl ?_
    cases engine.path (engine.keyOf m) <;> simp [reaction, kind]

/-! ### Calls -/

/-- The session a request opens on the side that asks. -/
def initiatorFor (engine : NanEngine) (peer : Mac) : NdpSession where
  peer := peer
  ndpId := engine.nextNdpId
  dialogToken := engine.nextDialogToken
  role := .initiator
  state := .awaitingResponse
  peerNdi := none
  peerIid := none
  pendingTx := some .dataPathRequest
  attempts := 0
  retryAtUsec := 0

/-- What a call can make of the data paths. -/
inductive CalledPaths (engine after : NanEngine) : Call → Prop
  | same (call : Call) (ndps : after.ndps = engine.ndps) (next : after.nextNdpId = engine.nextNdpId) :
      CalledPaths engine after call
  | requested (peer : Mac) (new : ∀ ndpId, engine.path ⟨peer, ndpId, .initiator⟩ = none)
      (added : Updated NdpSession.key engine.ndps after.ndps (engine.initiatorFor peer).key
        (some (engine.initiatorFor peer)))
      (next : after.nextNdpId = nextId engine.nextNdpId) : CalledPaths engine after (.requestNdp peer)
  | terminated (s : NdpSession) (held : engine.path s.key = some s)
      (ended : Updated NdpSession.key engine.ndps after.ndps s.key
        (some { s with pendingTx := some .dataPathTermination, state := .established }))
      (next : after.nextNdpId = engine.nextNdpId) :
      CalledPaths engine after (.terminateNdp s.peer s.ndpId)

theorem called_cfg (sha256 : Bytes → Vector UInt8 32) (engine : NanEngine) (call : Call) :
    (engine.called sha256 call).cfg = engine.cfg := by
  cases call with
  | publish name ssi => rfl
  | subscribe name active => rfl
  | broadcastFollowup ssi => rfl
  | requestNdp peer =>
    change (engine.requestNdp peer).1.cfg = engine.cfg
    rw [requestNdp]
    split <;> rfl
  | terminateNdp peer ndpId =>
    change (engine.terminateNdp peer ndpId).cfg = engine.cfg
    rw [terminateNdp]
    split <;> rfl

theorem called_paths (sha256 : Bytes → Vector UInt8 32)
    (distinct : Distinct NdpSession.key engine.ndps) (call : Call) :
    CalledPaths engine (engine.called sha256 call) call := by
  cases call with
  | publish name ssi => exact .same _ rfl rfl
  | subscribe name active => exact .same _ rfl rfl
  | broadcastFollowup ssi => exact .same _ rfl rfl
  | requestNdp peer =>
    change CalledPaths engine (engine.requestNdp peer).1 _
    rw [requestNdp]
    split
    · exact .same _ rfl rfl
    · next missing =>
      have none : ∀ ndpId, engine.path ⟨peer, ndpId, .initiator⟩ = none := by
        intro ndpId
        rw [List.find?_eq_none] at missing
        rw [path, entry_eq_none]
        intro found
        rcases List.mem_map.mp found with ⟨s, mem, key⟩
        have differs := missing s mem
        rw [NdpSession.key, PathKey.mk.injEq] at key
        simp [key] at differs
      exact .requested peer none
        (updated_append distinct (none engine.nextNdpId)) rfl
  | terminateNdp peer ndpId =>
    change CalledPaths engine (engine.terminateNdp peer ndpId) _
    rw [terminateNdp]
    split
    · next i found =>
      rw [List.findIdx?_eq_some_iff_getElem] at found
      rcases found with ⟨bound, same, _⟩
      have stands : engine.ndps[i]? = some engine.ndps[i] := List.getElem?_eq_getElem bound
      have position := position_of_getElem? distinct stands
      have held : engine.path engine.ndps[i].key = some engine.ndps[i] :=
        entry_of_mem distinct (List.getElem_mem bound)
      have changed := updated_modify distinct position
        (fun s => { s with pendingTx := some .dataPathTermination, state := .established })
        (fun _ => rfl)
      rw [path] at held
      rw [held, Option.map_some] at changed
      have both : engine.ndps[i].peer = peer ∧ engine.ndps[i].ndpId = ndpId := by
        simpa using same
      have ended := @CalledPaths.terminated engine { engine with
        ndps := engine.ndps.modify i fun s =>
          { s with pendingTx := some .dataPathTermination, state := .established } }
        engine.ndps[i] held changed rfl
      rwa [both.1, both.2] at ended
    · exact .same _ rfl rfl

/-! ### Polls -/

/-- What a poll starts to hear frames with. -/
def started (engine : NanEngine) (now : Usec) : NanEngine × Step :=
  ({ engine with
      baseTimeUsec := if engine.baseInitialized then engine.baseTimeUsec else now
      baseInitialized := true
      channelSet := true },
    { Step.default with setChannel := if engine.channelSet then none else some engine.cfg.channel })

theorem receive_eq (engine : NanEngine) (now : Usec) (inbound : List RxFrame) :
    engine.receive now inbound = inbound.foldl handleRx (engine.started now) := by
  rcases engine with ⟨_, _, _, _, _, _, _, _, _, _, _, _, initialized, _, _, _, _, _⟩
  cases initialized <;> rfl

/-- Hearing frames one after the other. -/
theorem receive_induction {P : List RxFrame → NanEngine × Step → Prop} (engine : NanEngine)
    (now : Usec) (inbound : List RxFrame) (start : P inbound (engine.started now))
    (each : ∀ rx rest state, P (rx :: rest) state → P rest (handleRx state rx)) :
    P [] (engine.receive now inbound) := by
  have all : ∀ (rest : List RxFrame) state, P rest state → P [] (rest.foldl handleRx state) := by
    intro rest
    induction rest with
    | nil => exact fun _ holds => holds
    | cons rx rest ih => exact fun state holds => ih _ (each rx rest state holds)
  rw [receive_eq]
  exact all inbound _ start

/-! ### Frames -/

/-- What concerns no data path. -/
structure SamePaths (before after : NanEngine × Step) : Prop where
  cfg : after.1.cfg = before.1.cfg
  ndps : after.1.ndps = before.1.ndps
  nextNdpId : after.1.nextNdpId = before.1.nextNdpId
  events : ∃ more, after.2.events = before.2.events ++ more ∧
    ∀ event ∈ more, event.aboutNdp = false

theorem SamePaths.refl (state : NanEngine × Step) : SamePaths state state :=
  ⟨rfl, rfl, rfl, [], by simp, nofun⟩

theorem SamePaths.trans {first second third : NanEngine × Step} (left : SamePaths first second)
    (right : SamePaths second third) : SamePaths first third := by
  rcases left.events with ⟨events, same, about⟩
  rcases right.events with ⟨more, same', about'⟩
  refine ⟨right.cfg.trans left.cfg, right.ndps.trans left.ndps,
    right.nextNdpId.trans left.nextNdpId, events ++ more, ?_, ?_⟩
  · rw [same', same, List.append_assoc]
  · intro event found
    exact (List.mem_append.mp found).elim (about event) (about' event)

theorem handleBeacon_samePaths (engine : NanEngine) (rx : RxFrame) (step : Step) :
    SamePaths (engine, step) (engine.handleBeacon rx, step) := by
  rcases engine.handleBeacon_eq rx with ⟨_, _, _, _, _, same, _⟩
  rw [same]
  exact ⟨rfl, rfl, rfl, [], by simp, nofun⟩

theorem handleDescriptor_samePaths (rx : RxFrame) (state : NanEngine × Step)
    (sda : ServiceDescriptor) : SamePaths state (handleDescriptor rx state sda) := by
  rcases state with ⟨engine, step⟩
  rcases engine.notePeer_eq (rxAddr2 rx.bytes) sda.instanceId with ⟨peers, noted⟩
  have surfaced : ∀ event : NanEvent, event.aboutNdp = false → ∀ discovered : List (Mac × ServiceId),
      SamePaths (engine, step) ({ engine with peers := peers, discovered := discovered },
        { step with events := step.events ++ [event] }) := by
    intro event about discovered
    exact ⟨rfl, rfl, rfl, [event], rfl, by simpa using about⟩
  rw [handleDescriptor]
  rw [noted]
  cases sda.control.controlType with
  | publish | subscribe =>
    dsimp only
    split
    · split
      · exact ⟨rfl, rfl, rfl, [], by simp, List.forall_mem_nil _⟩
      · exact surfaced _ rfl _
    · exact SamePaths.refl _
  | followUp =>
    dsimp only
    split
    · exact ⟨rfl, rfl, rfl, [_], rfl, by simp [NanEvent.aboutNdp]⟩
    · exact SamePaths.refl _

theorem handleSdf_samePaths (engine : NanEngine) (rx : RxFrame) (attrs : Bytes) (step : Step) :
    SamePaths (engine, step) (engine.handleSdf rx attrs step) := by
  rw [handleSdf]
  generalize descriptors attrs = sdas
  induction sdas generalizing engine step with
  | nil => exact SamePaths.refl _
  | cons sda sdas ih =>
    rw [List.foldl_cons]
    exact (handleDescriptor_samePaths rx (engine, step) sda).trans (ih _ _)

theorem handleNaf_eq (engine : NanEngine) (rx : RxFrame) {header : Dot11Header} {subtype : UInt8}
    {attrs : Bytes} (classified : classify rx.bytes = .ok ⟨header, .naf subtype, attrs⟩)
    (step : Step) :
    engine.handleNaf rx subtype attrs step =
      match pathMessage rx.bytes with
      | some m => if m.dest = some engine.cfg.nmi then engine.onPath m step else (engine, step)
      | none => (engine, step) := by
  rw [handleNaf, pathMessage, classified]
  dsimp only
  generalize NafSubtype.fromByte subtype = sub
  generalize ((Attributes.find attrs .ndpExtension).bind fun attr =>
    (Ndpe.decode attr.body).toOption) = ndpe
  by_cases addressed : rxAddr1 rx.bytes = some engine.cfg.nmi
  · rw [if_neg (not_not_intro addressed)]
    cases sub with
    | none => rfl
    | some sub =>
      cases ndpe with
      | none => rfl
      | some ndpe =>
        unfold onPath
        cases sub <;> simp only [addressed, if_true]
  · rw [if_pos addressed]
    cases sub <;> cases ndpe <;> simp [addressed]

/-- A frame that says nothing of a data path. -/
theorem handleRx_silent {rx : RxFrame} (silent : pathMessage rx.bytes = none)
    (state : NanEngine × Step) : SamePaths state (handleRx state rx) := by
  rcases state with ⟨engine, step⟩
  rw [handleRx]
  split
  · exact SamePaths.refl _
  · next frame classified =>
    split
    · exact SamePaths.refl _
    · rcases frame with ⟨header, kind, attributes⟩
      cases kind with
      | beacon => exact engine.handleBeacon_samePaths rx step
      | action => exact engine.handleSdf_samePaths ..
      | naf subtype =>
        dsimp only
        rw [engine.handleNaf_eq rx classified, silent]
        exact SamePaths.refl _
      | other => exact SamePaths.refl _

/-- A frame that says something of one, from another engine. -/
theorem handleRx_message {rx : RxFrame} {sender : Mac}
    (said : pathMessage rx.bytes = some m) (comes : ComesFrom sender rx.bytes)
    (engine : NanEngine) (step : Step) :
    handleRx (engine, step) rx =
      if sender ≠ engine.cfg.nmi ∧ m.dest = some engine.cfg.nmi then engine.onPath m step
      else (engine, step) := by
  rcases comes with ⟨_, frame, classified, header⟩
  rw [handleRx, classified]
  dsimp only
  rw [header]
  by_cases own : sender = engine.cfg.nmi
  · rw [if_pos own, if_neg (fun both => both.1 own)]
  · rw [if_neg own]
    rcases frame with ⟨header', kind, attributes⟩
    cases kind with
    | naf subtype =>
      dsimp only
      rw [engine.handleNaf_eq rx classified, said]
      simp [own]
    | beacon | action | other =>
      rw [pathMessage, classified] at said
      cases said

end NanEngine

end NdnExt.Nan
