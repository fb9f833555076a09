import NdnExt.Nan.Frame
import NdnExt.Nan.Ndpe

/-! The NAN engine: its state, its registered functions, what it makes of the frames of discovery
and what it says in its own. The clock is the driver's, the wake schedule a parameter. -/

namespace NdnExt.Nan

abbrev Usec := UInt64

/-- When to wake and transmit, over the cluster-synced clock. -/
structure Rendezvous where
  inWindow : Usec → Bool
  windowIndex : Usec → UInt64
  nextWindowStart : Usec → Usec

def usecPerTu : UInt64 := 1024

def dwIntervalTu : UInt64 := 512

def dwLengthTu : UInt64 := 16

def syncBeaconIntervalTu : UInt16 := 512

def discoveryWindow : Rendezvous where
  inWindow synced := synced / usecPerTu % dwIntervalTu < dwLengthTu
  windowIndex synced := synced / usecPerTu / dwIntervalTu
  nextWindowStart synced :=
    (synced / usecPerTu / dwIntervalTu + 1) * dwIntervalTu * usecPerTu

def alwaysOn (burstIntervalUsec : Usec) : Rendezvous where
  inWindow _ := true
  windowIndex synced := synced / max burstIntervalUsec 1
  nextWindowStart synced := (synced / max burstIntervalUsec 1 + 1) * max burstIntervalUsec 1

structure NanConfig where
  nmi : Mac
  masterPreference : UInt8
  randomFactor : UInt8
  channel : UInt8
  ndi : Mac
  ndpAutoAccept : Bool

namespace NanConfig

def new (nmi : Mac) (channel pref : UInt8) : NanConfig where
  nmi := nmi
  masterPreference := pref
  randomFactor := 0
  channel := channel
  ndi := nmi
  ndpAutoAccept := true

def withNdi (cfg : NanConfig) (ndi : Mac) : NanConfig := { cfg with ndi := ndi }

end NanConfig

structure RxFrame where
  bytes : Bytes
  rssiDbm : Option Int8
  nowUsec : Usec

structure TxFrame where
  bytes : Bytes
  deriving DecidableEq, Repr

inductive NdpRole where
  | initiator
  | responder
  deriving DecidableEq, Repr

inductive NdpFailure where
  | rejected (reasonCode : UInt8)
  | timedOut
  deriving DecidableEq, Repr

inductive NanEvent where
  | discovered (service : ServiceId) (peer : Mac) (ssi : Bytes) (rssiDbm : Option Int8)
  | followup (peer : Mac) (ssi : Bytes) (rssiDbm : Option Int8)
  | ndpEstablished (peer : Mac) (ndpId : UInt8) (role : NdpRole) (peerNdi : Mac)
      (peerIid : Vector UInt8 8)
  | ndpFailed (peer : Mac) (ndpId : UInt8) (reason : NdpFailure)
  | ndpTerminated (peer : Mac) (ndpId : UInt8)
  deriving DecidableEq

structure Step where
  tx : List TxFrame
  setChannel : Option UInt8
  events : List NanEvent
  wakeAtUsec : Usec

def Step.default : Step := ⟨[], none, [], 0⟩

inductive FunctionKind where
  | publish
  | subscribe
  deriving DecidableEq, Repr

structure Function where
  serviceId : ServiceId
  instanceId : UInt8
  kind : FunctionKind
  ssi : Bytes
  active : Bool
  deriving DecidableEq

structure Followup where
  dest : Mac
  instanceId : UInt8
  requestorInstanceId : UInt8
  serviceId : ServiceId
  ssi : Bytes
  deriving DecidableEq

inductive NdpState where
  | awaitingResponse
  | awaitingConfirm
  | established
  deriving DecidableEq, Repr

structure NdpSession where
  peer : Mac
  ndpId : UInt8
  dialogToken : UInt8
  role : NdpRole
  state : NdpState
  peerNdi : Option Mac
  peerIid : Option (Vector UInt8 8)
  pendingTx : Option NafSubtype
  attempts : UInt8
  retryAtUsec : Usec
  deriving DecidableEq

structure NanEngine where
  cfg : NanConfig
  clusterId : Mac
  baseTimeUsec : Usec
  synced : Bool
  seq : UInt16
  nextInstanceId : UInt8
  functions : List Function
  /-- The (peer, service) pairs already surfaced. -/
  discovered : List (Mac × ServiceId)
  /-- The peers that can be followed up to, with their instance for the matched service. -/
  peers : List (Mac × UInt8)
  followups : List Followup
  lastBurstDw : Option UInt64
  channelSet : Bool
  baseInitialized : Bool
  clusterAmr : UInt64
  rendezvous : Rendezvous
  ndps : List NdpSession
  nextNdpId : UInt8
  nextDialogToken : UInt8

/-- Preference first, then the random factor, then the address from its last byte on. -/
def masterRank (masterPreference randomFactor : UInt8) (mac : Mac) : UInt64 :=
  let v : UInt64 := mac.toList.zipIdx.foldl
    (fun v (b, i) => v ||| (b.toUInt64 <<< UInt64.ofNat (8 * i))) 0
  v ||| (randomFactor.toUInt64 <<< 48) ||| (masterPreference.toUInt64 <<< 56)

def toAsciiLowercase (b : UInt8) : UInt8 := if 0x41 ≤ b ∧ b ≤ 0x5A then b + 0x20 else b

/-- The first six bytes of the digest of the name in lower case. -/
def serviceIdOf (sha256 : Bytes → Vector UInt8 32) (name : Bytes) : ServiceId :=
  ⟨((sha256 (name.map toAsciiLowercase)).toList.take 6).toArray, by simp⟩

/-- The destination of a captured frame. -/
def rxAddr1 (buf : Bytes) : Option Mac := ((Reader.takeArray 6).run (buf.drop 4)).toOption

/-- Its source, or zeros where it is too short to have one. -/
def rxAddr2 (buf : Bytes) : Mac :=
  ((Reader.takeArray 6).run (buf.drop 10)).toOption.getD #v[0, 0, 0, 0, 0, 0]

/-- `wrapping_add(1).max(1)`: the ids that are handed out are never zero. -/
def nextId (id : UInt8) : UInt8 := max (id + 1) 1

namespace NanEngine

def new (cfg : NanConfig) : NanEngine where
  cfg := cfg
  clusterId := nanClusterIdBase
  baseTimeUsec := 0
  synced := false
  seq := 0
  nextInstanceId := 1
  functions := []
  discovered := []
  peers := []
  followups := []
  lastBurstDw := none
  channelSet := false
  baseInitialized := false
  clusterAmr := masterRank cfg.masterPreference cfg.randomFactor cfg.nmi
  rendezvous := discoveryWindow
  ndps := []
  nextNdpId := 1
  nextDialogToken := 1

def withRendezvous (cfg : NanConfig) (rendezvous : Rendezvous) : NanEngine :=
  { new cfg with rendezvous := rendezvous }

def addFunction (engine : NanEngine) (serviceId : ServiceId) (kind : FunctionKind) (ssi : Bytes)
    (active : Bool) : NanEngine × UInt8 :=
  let function : Function := ⟨serviceId, engine.nextInstanceId, kind, ssi, active⟩
  ({ engine with
      nextInstanceId := nextId engine.nextInstanceId
      functions := engine.functions ++ [function]
      lastBurstDw := none },
    engine.nextInstanceId)

def publish (sha256 : Bytes → Vector UInt8 32) (engine : NanEngine) (name ssi : Bytes) :
    NanEngine × UInt8 :=
  engine.addFunction (serviceIdOf sha256 name) .publish ssi false

def subscribe (sha256 : Bytes → Vector UInt8 32) (engine : NanEngine) (name : Bytes)
    (active : Bool) : NanEngine × UInt8 :=
  engine.addFunction (serviceIdOf sha256 name) .subscribe [] active

/-- The follow-up that a broadcast of `ssi` queues for a peer. -/
def followupTo (engine : NanEngine) (ssi : Bytes) (peer : Mac × UInt8) : Followup where
  dest := peer.1
  instanceId := (engine.functions.head?.map Function.instanceId).getD 0
  requestorInstanceId := peer.2
  serviceId := (engine.functions.head?.map Function.serviceId).getD #v[0, 0, 0, 0, 0, 0]
  ssi := ssi

def broadcastFollowup (engine : NanEngine) (ssi : Bytes) : NanEngine × Nat :=
  ({ engine with followups := engine.followups ++ engine.peers.map (engine.followupTo ssi) },
    engine.peers.length)

def syncedUsec (engine : NanEngine) (now : Usec) : Usec := now - engine.baseTimeUsec

def dwIndex (engine : NanEngine) (now : Usec) : UInt64 :=
  engine.rendezvous.windowIndex (engine.syncedUsec now)

def inDw (engine : NanEngine) (now : Usec) : Bool :=
  engine.rendezvous.inWindow (engine.syncedUsec now)

def nextDwStartUsec (engine : NanEngine) (now : Usec) : Usec :=
  engine.baseTimeUsec + engine.rendezvous.nextWindowStart (engine.syncedUsec now)

/-- The anchor-master rank a beacon carries: that of its cluster, else the transmitter's own. -/
def beaconAmr (beacon : NanBeacon) (attrs : Bytes) : Option UInt64 :=
  let ofCluster := (Attributes.find attrs .cluster).bind fun a =>
    (Cluster.decode a.body).toOption.map Cluster.anchorMasterRank
  let ofTransmitter := (Attributes.find attrs .masterIndication).bind fun a =>
    (MasterIndication.decode a.body).toOption.map fun mi =>
      masterRank mi.masterPreference mi.randomFactor beacon.header.addr2
  ofCluster.or ofTransmitter

def handleBeacon (engine : NanEngine) (rx : RxFrame) : NanEngine :=
  match NanBeacon.parse rx.bytes with
  | .error _ => engine
  | .ok (beacon, attrs) =>
    match beaconAmr beacon attrs with
    | none => engine
    | some amr =>
      if amr > engine.clusterAmr then
        { engine with
          clusterId := beacon.header.addr3
          baseTimeUsec := rx.nowUsec - beacon.timestamp
          clusterAmr := amr
          synced := true
          lastBurstDw := none }
      else if beacon.header.addr3 = engine.clusterId ∧ amr = engine.clusterAmr then
        { engine with baseTimeUsec := rx.nowUsec - beacon.timestamp }
      else engine

def hasFunctionFor (engine : NanEngine) (sid : ServiceId) : Bool :=
  engine.functions.any fun f => f.serviceId == sid

def notePeer (engine : NanEngine) (peer : Mac) (theirInstance : UInt8) : NanEngine :=
  match engine.peers.findIdx? fun entry => entry.1 == peer with
  | some i => { engine with peers := engine.peers.modify i fun entry => (entry.1, theirInstance) }
  | none => { engine with peers := engine.peers ++ [(peer, theirInstance)] }

/-- One descriptor of a discovery frame that came from `peer`. -/
def handleDescriptor (rx : RxFrame) (state : NanEngine × Step) (sda : ServiceDescriptor) :
    NanEngine × Step :=
  let (engine, step) := state
  let peer := rxAddr2 rx.bytes
  match sda.control.controlType with
  | .publish | .subscribe =>
    if engine.hasFunctionFor sda.serviceId then
      let engine := engine.notePeer peer sda.instanceId
      if (peer, sda.serviceId) ∈ engine.discovered then (engine, step)
      else
        ({ engine with discovered := engine.discovered ++ [(peer, sda.serviceId)] },
          { step with
            events := step.events ++
              [.discovered sda.serviceId peer sda.serviceInfo rx.rssiDbm] })
    else (engine, step)
  | .followUp =>
    if rxAddr1 rx.bytes = some engine.cfg.nmi ∧ engine.hasFunctionFor sda.serviceId then
      (engine, { step with events := step.events ++ [.followup peer sda.serviceInfo rx.rssiDbm] })
    else (engine, step)

/-- The attributes that are service descriptors and decode as one. -/
def descriptors (attrs : Bytes) : List ServiceDescriptor :=
  (Attributes.flatten attrs).filterMap fun attr =>
    if attr.is .serviceDescriptor then (ServiceDescriptor.decode attr.body).toOption else none

def handleSdf (engine : NanEngine) (rx : RxFrame) (attrs : Bytes) (step : Step) :
    NanEngine × Step :=
  (descriptors attrs).foldl (handleDescriptor rx) (engine, step)

def nextSeq (engine : NanEngine) : NanEngine := { engine with seq := (engine.seq + 1) &&& 0x0FFF }

def idsOf (engine : NanEngine) (kind : FunctionKind) : List ServiceId :=
  (engine.functions.filter fun f => f.kind == kind).map Function.serviceId

def beaconAttributes (engine : NanEngine) (timestamp : UInt64) : Bytes :=
  (MasterIndication.mk engine.cfg.masterPreference engine.cfg.randomFactor).encode ++
  (Cluster.mk engine.clusterAmr 0 timestamp.toUInt32).encode ++
  (if engine.idsOf .publish = [] then []
    else (ServiceIdList.mk (engine.idsOf .publish)).encodePublish) ++
  (if engine.idsOf .subscribe = [] then []
    else (ServiceIdList.mk (engine.idsOf .subscribe)).encodeSubscribe)

def emitBeacon (engine : NanEngine) (now : Usec) (step : Step) : NanEngine × Step :=
  let timestamp := engine.syncedUsec now
  let beacon := NanBeacon.new broadcast engine.cfg.nmi engine.clusterId engine.seq timestamp
    syncBeaconIntervalTu
  (engine.nextSeq,
    { step with tx := step.tx ++ [⟨beacon.encode (engine.beaconAttributes timestamp)⟩] })

end NanEngine

namespace Function

/-- What a function is advertised as; a passive subscription transmits nothing. -/
def controlType (f : Function) : Option ServiceControlType :=
  match f.kind with
  | .publish => some .publish
  | .subscribe => if f.active then some .subscribe else none

def descriptor (f : Function) (controlType : ServiceControlType) : ServiceDescriptor :=
  let sda := ServiceDescriptor.new f.serviceId f.instanceId controlType
  if f.ssi = [] then sda else sda.withServiceInfo f.ssi

/-- The attributes of an advertised function: its descriptor and the descriptor's extension. -/
def encode (f : Function) : Bytes :=
  match f.controlType with
  | some controlType => (f.descriptor controlType).encode ++ (Sdea.plain f.instanceId).encode
  | none => []

end Function

namespace NanEngine

def discoveryAttributes (engine : NanEngine) : Bytes :=
  DeviceCapability.basic.encode ++ encodeAvailability ++ engine.functions.flatMap Function.encode

def advertises (engine : NanEngine) : Bool :=
  engine.functions.any fun f => f.kind == .publish || f.active

def emitDiscovery (engine : NanEngine) (step : Step) : NanEngine × Step :=
  if engine.advertises then
    let sdf := ServiceDiscoveryFrame.new nanNetworkId engine.cfg.nmi engine.clusterId engine.seq
    (engine.nextSeq, { step with tx := step.tx ++ [⟨sdf.encode engine.discoveryAttributes⟩] })
  else (engine, step)

end NanEngine

def Followup.descriptor (fu : Followup) : ServiceDescriptor :=
  let sda := ServiceDescriptor.new fu.serviceId fu.instanceId .followUp
  let sda := { sda with requestorInstanceId := fu.requestorInstanceId }
  if fu.ssi = [] then sda else sda.withServiceInfo fu.ssi

namespace NanEngine

def sendFollowup (state : NanEngine × Step) (fu : Followup) : NanEngine × Step :=
  let (engine, step) := state
  let sdf := ServiceDiscoveryFrame.new fu.dest engine.cfg.nmi engine.clusterId engine.seq
  (engine.nextSeq, { step with tx := step.tx ++ [⟨sdf.encode fu.descriptor.encode⟩] })

/-- The whole queue, from its front. -/
def emitFollowups (engine : NanEngine) (step : Step) : NanEngine × Step :=
  engine.followups.foldl sendFollowup ({ engine with followups := [] }, step)

end NanEngine

end NdnExt.Nan
