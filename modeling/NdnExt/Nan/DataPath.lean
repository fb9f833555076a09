import NdnExt.Nan.Engine

/-! The data-path half of the engine: the exchange of NAN action frames that settles the addresses
of a path. -/

namespace NdnExt.Nan

def ndpRetryUsec : Usec := 2 * 512 * 1024

def ndpMaxAttempts : UInt8 := 4

/-- The modified EUI-64 interface identifier of an address. -/
def eui64Iid (mac : Mac) : Vector UInt8 8 :=
  #v[mac[0] ^^^ 0x02, mac[1], mac[2], 0xff, 0xfe, mac[3], mac[4], mac[5]]

namespace NanEngine

def requestNdp (engine : NanEngine) (peer : Mac) : NanEngine × UInt8 :=
  match engine.ndps.find? fun s => s.peer == peer && s.role == .initiator with
  | some s => (engine, s.ndpId)
  | none =>
    let session : NdpSession := {
      peer := peer
      ndpId := engine.nextNdpId
      dialogToken := engine.nextDialogToken
      role := .initiator
      state := .awaitingResponse
      peerNdi := none
      peerIid := none
      pendingTx := some .dataPathRequest
      attempts := 0
      retryAtUsec := 0 }
    ({ engine with
        nextNdpId := nextId engine.nextNdpId
        nextDialogToken := nextId engine.nextDialogToken
        ndps := engine.ndps ++ [session] },
      engine.nextNdpId)

def terminateNdp (engine : NanEngine) (peer : Mac) (ndpId : UInt8) : NanEngine :=
  match engine.ndps.findIdx? fun s => s.peer == peer && s.ndpId == ndpId with
  | some i =>
    { engine with
      ndps := engine.ndps.modify i fun s =>
        { s with pendingTx := some .dataPathTermination, state := .established } }
  | none => engine

def ndpIndexRole (engine : NanEngine) (peer : Mac) (ndpId : UInt8) (role : NdpRole) : Option Nat :=
  engine.ndps.findIdx? fun s => s.peer == peer && s.ndpId == ndpId && s.role == role

/-- The initiator's data interface says which side an exchange was started by. -/
def ndpIndex (engine : NanEngine) (peer : Mac) (ndpe : Ndpe) : Option Nat :=
  let role : NdpRole := if ndpe.initiatorNdi = engine.cfg.ndi then .initiator else .responder
  engine.ndpIndexRole peer ndpe.ndpId role

def onNdpRequest (engine : NanEngine) (peer : Mac) (ndpe : Ndpe) : NanEngine :=
  if ndpe.ndpType ≠ .request then engine
  else
    match engine.ndpIndex peer ndpe with
    | some i =>
      { engine with
        ndps := engine.ndps.modify i fun s =>
          if s.role = .responder ∧ s.state = .awaitingConfirm then
            { s with pendingTx := some .dataPathResponse }
          else s }
    | none =>
      let session : NdpSession := {
        peer := peer
        ndpId := ndpe.ndpId
        dialogToken := ndpe.dialogToken
        role := .responder
        state := .awaitingConfirm
        peerNdi := some ndpe.initiatorNdi
        peerIid := ndpe.ipv6Iid
        pendingTx := some .dataPathResponse
        attempts := 0
        retryAtUsec := 0 }
      { engine with ndps := engine.ndps ++ [session] }

/-- Drops the session at `i` and reports the reason. -/
def failNdp (engine : NanEngine) (peer : Mac) (step : Step) (i : Nat) (s : NdpSession)
    (reason : NdpFailure) : NanEngine × Step :=
  ({ engine with ndps := engine.ndps.eraseIdx i },
    { step with events := step.events ++ [.ndpFailed peer s.ndpId reason] })

def onNdpResponse (engine : NanEngine) (peer : Mac) (ndpe : Ndpe) (step : Step) :
    NanEngine × Step :=
  match (engine.ndpIndex peer ndpe).bind fun i => engine.ndps[i]?.map fun s => (i, s) with
  | none => (engine, step)
  | some (i, s) =>
    if s.role ≠ .initiator ∨ s.state ≠ .awaitingResponse then (engine, step)
    else
      match ndpe.status with
      | .rejected => engine.failNdp peer step i s (.rejected ndpe.reasonCode)
      | .accepted =>
        match ndpe.responderNdi, ndpe.ipv6Iid with
        | some ndi, some iid =>
          ({ engine with
              ndps := engine.ndps.set i
                { s with
                  peerNdi := some ndi
                  peerIid := some iid
                  state := .established
                  pendingTx := some .dataPathConfirm } },
            { step with
              events := step.events ++ [.ndpEstablished peer s.ndpId s.role ndi iid] })
        | _, _ => engine.failNdp peer step i s (.rejected 0)
      | .continuing => (engine, step)

def onNdpConfirm (engine : NanEngine) (peer : Mac) (ndpe : Ndpe) (step : Step) :
    NanEngine × Step :=
  match (engine.ndpIndex peer ndpe).bind fun i => engine.ndps[i]?.map fun s => (i, s) with
  | none => (engine, step)
  | some (i, s) =>
    if s.role ≠ .responder ∨ s.state ≠ .awaitingConfirm then (engine, step)
    else
      match s.peerNdi, s.peerIid with
      | some ndi, some iid =>
        ({ engine with ndps := engine.ndps.set i { s with state := .established } },
          { step with events := step.events ++ [.ndpEstablished peer s.ndpId s.role ndi iid] })
      | _, _ => engine.failNdp peer step i s (.rejected 0)

def onNdpTermination (engine : NanEngine) (peer : Mac) (ndpe : Ndpe) (step : Step) :
    NanEngine × Step :=
  match (engine.ndpIndex peer ndpe).bind fun i => engine.ndps[i]?.map fun s => (i, s) with
  | none => (engine, step)
  | some (i, s) =>
    ({ engine with ndps := engine.ndps.eraseIdx i },
      { step with events := step.events ++ [.ndpTerminated peer s.ndpId] })

def handleNaf (engine : NanEngine) (rx : RxFrame) (subtype : UInt8) (attrs : Bytes)
    (step : Step) : NanEngine × Step :=
  if rxAddr1 rx.bytes ≠ some engine.cfg.nmi then (engine, step)
  else
    match NafSubtype.fromByte subtype, (Attributes.find attrs .ndpExtension).bind fun attr =>
      (Ndpe.decode attr.body).toOption with
    | some sub, some ndpe =>
      let peer := rxAddr2 rx.bytes
      match sub with
      | .dataPathRequest => (engine.onNdpRequest peer ndpe, step)
      | .dataPathResponse => engine.onNdpResponse peer ndpe step
      | .dataPathConfirm => engine.onNdpConfirm peer ndpe step
      | .dataPathTermination => engine.onNdpTermination peer ndpe step
      | _ => (engine, step)
    | _, _ => (engine, step)

/-- What one session does in a transmit window. -/
structure NdpTurn where
  session : NdpSession
  frame : Option (Mac × NafSubtype × Bytes)
  timedOut : Bool

/-- The attribute a session sends for `sub`, if it ever sends that. -/
def ndpeFor (cfg : NanConfig) (s : NdpSession) : NafSubtype → Option Ndpe
  | .dataPathRequest => some (Ndpe.request s.dialogToken s.ndpId cfg.ndi (eui64Iid cfg.ndi))
  | .dataPathResponse =>
    let initNdi := s.peerNdi.getD s.peer
    if cfg.ndpAutoAccept then
      some (Ndpe.accept s.dialogToken s.ndpId initNdi cfg.ndi (eui64Iid cfg.ndi))
    else
      some { Ndpe.confirm s.dialogToken s.ndpId initNdi with
        ndpType := .response, status := .rejected, responderNdi := none, tlvs := [] }
  | .dataPathConfirm => some (Ndpe.confirm s.dialogToken s.ndpId cfg.ndi)
  | .dataPathTermination =>
    some { Ndpe.confirm s.dialogToken s.ndpId cfg.ndi with ndpType := .terminate }
  | _ => none

/-- The re-arming of an unanswered request; `none` when its attempts are used up. -/
def rearm (now : Usec) (s : NdpSession) : Option NdpSession :=
  if s.pendingTx = none ∧ s.role = .initiator ∧ s.state = .awaitingResponse ∧
      now ≥ s.retryAtUsec then
    if s.attempts ≥ ndpMaxAttempts then none
    else some { s with pendingTx := some .dataPathRequest }
  else some s

def ndpTurn (cfg : NanConfig) (now : Usec) (s : NdpSession) : NdpTurn :=
  match rearm now s with
  | none => ⟨s, none, true⟩
  | some s =>
    match s.pendingTx with
    | none => ⟨s, none, false⟩
    | some sub =>
      let taken := { s with pendingTx := none }
      match ndpeFor cfg s sub with
      | none => ⟨taken, none, false⟩
      | some ndpe =>
        let sent := if sub = .dataPathRequest then
          { taken with
            attempts := if s.attempts = 255 then 255 else s.attempts + 1
            retryAtUsec := now + ndpRetryUsec }
          else taken
        ⟨sent, some (s.peer, sub, ndpe.encode), sub = .dataPathResponse && !cfg.ndpAutoAccept⟩

def sendNaf (state : NanEngine × Step) (frame : Mac × NafSubtype × Bytes) : NanEngine × Step :=
  let (engine, step) := state
  let naf := NanActionFrame.new frame.2.1 frame.1 engine.cfg.nmi engine.clusterId engine.seq
  (engine.nextSeq, { step with tx := step.tx ++ [⟨naf.encode frame.2.2⟩] })

def dropTimedOut (state : NanEngine × Step) (s : NdpSession) : NanEngine × Step :=
  let (engine, step) := state
  match engine.ndpIndexRole s.peer s.ndpId s.role with
  | none => (engine, step)
  | some i =>
    let engine := { engine with ndps := engine.ndps.eraseIdx i }
    if s.role = .initiator then
      (engine, { step with events := step.events ++ [.ndpFailed s.peer s.ndpId .timedOut] })
    else (engine, step)

def emitNdp (engine : NanEngine) (now : Usec) (step : Step) : NanEngine × Step :=
  let turns := engine.ndps.map (ndpTurn engine.cfg now)
  let engine := { engine with ndps := turns.map NdpTurn.session }
  let sent := (turns.filterMap NdpTurn.frame).foldl sendNaf (engine, step)
  ((turns.filter NdpTurn.timedOut).map NdpTurn.session).foldl dropTimedOut sent

def handleRx (state : NanEngine × Step) (rx : RxFrame) : NanEngine × Step :=
  let (engine, step) := state
  match classify rx.bytes with
  | .error _ => (engine, step)
  | .ok frame =>
    if frame.header.addr2 = engine.cfg.nmi then (engine, step)
    else
      match frame.kind with
      | .beacon => (engine.handleBeacon rx, step)
      | .action => engine.handleSdf rx frame.attributes step
      | .naf subtype => engine.handleNaf rx subtype frame.attributes step
      | .other => (engine, step)

/-- A poll up to and with the frames it was handed. -/
def receive (engine : NanEngine) (now : Usec) (inbound : List RxFrame) : NanEngine × Step :=
  let engine := if engine.baseInitialized then engine
    else { engine with baseTimeUsec := now, baseInitialized := true }
  let setChannel := if engine.channelSet then none else some engine.cfg.channel
  inbound.foldl handleRx
    ({ engine with channelSet := true }, { Step.default with setChannel := setChannel })

/-- The beacon and the discovery frame, once per window. -/
def burst (engine : NanEngine) (now : Usec) (step : Step) : NanEngine × Step :=
  let dw := engine.dwIndex now
  if engine.lastBurstDw = some dw then (engine, step)
  else
    let (engine, step) := { engine with lastBurstDw := some dw }.emitBeacon now step
    engine.emitDiscovery step

/-- What is sent inside a transmit window. -/
def transmit (engine : NanEngine) (now : Usec) (step : Step) : NanEngine × Step :=
  let (engine, step) := engine.burst now step
  let (engine, step) := engine.emitFollowups step
  engine.emitNdp now step

def poll (engine : NanEngine) (now : Usec) (inbound : List RxFrame) : NanEngine × Step :=
  let (engine, step) := engine.receive now inbound
  let (engine, step) := if engine.inDw now then engine.transmit now step else (engine, step)
  (engine, { step with wakeAtUsec := engine.nextDwStartUsec now })

end NanEngine

end NdnExt.Nan
