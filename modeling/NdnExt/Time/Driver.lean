import NdnExt.Time.BeaconWire

/-! The time service of one node: what comes in from its peers and its own clocks, and the beacons
it sends. -/

namespace NdnExt.Time

open NdnExt.Lib NdnExt.Service

/-- How a measurement was authenticated; the code here builds only the first of them. -/
inductive Authenticity where
  | authenticatedDomainPeer (key : UInt64)
  | other (which : Nat)
  deriving DecidableEq

structure MeasurementProvenance where
  distanceBounded : Bool
  replayProtected : Bool
  authenticity : Authenticity
  path : UInt32
  deriving DecidableEq

structure TimeInterval where
  centerNs : Int64
  radiusNs : UInt64
  deriving DecidableEq

structure TimeBeacon where
  wall : TimeInterval
  cap : ClockCapability
  capturedMonoNs : UInt64
  prov : MeasurementProvenance
  deriving DecidableEq

structure Measured where
  value : Int64
  sigmaNs : UInt64
  prov : MeasurementProvenance
  deriving DecidableEq

structure PeerSample where
  wall : Measured
  capturedMonoNs : UInt64
  cap : ClockCapability
  deriving DecidableEq

structure Reading where
  wall : TimeInterval
  cap : ClockCapability
  capturedMonoNs : UInt64
  deriving DecidableEq

structure Correction where
  offsetNs : Int64
  uncertaintyNs : UInt64
  deriving DecidableEq

inductive Discipline where
  | step (correctionNs : Int64)
  | slew
  | track (correctionNs : Int64)
  | withhold
  deriving DecidableEq

/-- The parts of the clock core the service calls: `TimeState` is `T`, and `kept` is the sample it
holds for a peer. -/
structure TimeCore (T : Type) where
  new : T
  ingest : T → UInt64 → PeerSample → T
  kept : T → UInt64 → Option PeerSample
  interval : Int64 → UInt64 → TimeInterval
  intoPeerSample : TimeBeacon → PeerSample
  discipline : T → Int64 → UInt64 → Correction × T
  act : Correction → ClockCapability → Bool → Discipline
  shouldRebeacon : Correction → UInt64 → Bool

/-- A sample is held for a peer only after it was ingested for that peer. -/
structure TimeCore.KeepsByPeer {T : Type} (core : TimeCore T) : Prop where
  new : ∀ peer, core.kept core.new peer = none
  ingest : ∀ state peer sample other kept, core.kept (core.ingest state peer sample) other = some kept →
    core.kept state other = some kept ∨ other = peer ∧ kept = sample
  discipline : ∀ state wall now peer kept, core.kept (core.discipline state wall now).2 peer = some kept →
    core.kept state peer = some kept

def DecodedBeacon.intoBeacon {T : Type} (core : TimeCore T) (decoded : DecodedBeacon)
    (capturedMonoNs : UInt64) (prov : MeasurementProvenance) : TimeBeacon where
  wall := core.interval decoded.wallNs decoded.uncertaintyNs
  cap := decoded.cap
  capturedMonoNs := capturedMonoNs
  prov := prov

/-! ### Machine arithmetic -/

def saturatingAdd (left right : Int64) : Int64 :=
  Int64.ofInt (max (-2 ^ 63) (min (2 ^ 63 - 1) (left.toInt + right.toInt)))

def checkedAdd (left right : Int64) : Checked Int64 := do
  let sum ← i64 (left.toInt + right.toInt)
  pure (Int64.ofInt sum)

def checkedSucc (value : UInt64) : Checked UInt64 := do
  let sum ← u64 (value.toNat + 1)
  pure (UInt64.ofNat sum)

def checkedSucc32 (value : UInt32) : Checked UInt32 :=
  if value.toNat + 1 < 2 ^ 32 then .ok (value + 1) else .panic

/-! ### Authentication -/

structure VerifiedBeacon where
  peerId : UInt64
  content : Bytes
  prov : MeasurementProvenance
  deriving DecidableEq

def DevAuth.sealWire (nodeId : UInt64) (payload : Bytes) : Bytes := beBytes 8 nodeId.toNat ++ payload

def DevAuth.openWire (wire : Bytes) : Checked (Option VerifiedBeacon) :=
  if wire.length < 8 then pure none else do
  let peerId := UInt64.ofNat (ofBe (wire.take 8))
  let path ← checkedSucc32 peerId.toUInt32
  pure (some {
    peerId := peerId
    content := wire.drop 8
    prov := {
      distanceBounded := false
      replayProtected := true
      authenticity := .authenticatedDomainPeer peerId
      path := path } })

inductive BeaconAuth where
  | dev
  | other (sealing : UInt64 → UInt64 → Bytes → Bytes) (opening : Bytes → Option VerifiedBeacon)

def BeaconAuth.sealWire : BeaconAuth → UInt64 → UInt64 → Bytes → Bytes
  | .dev, nodeId, _, payload => DevAuth.sealWire nodeId payload
  | .other sealing _, nodeId, seq, payload => sealing nodeId seq payload

def BeaconAuth.openWire : BeaconAuth → Bytes → Checked (Option VerifiedBeacon)
  | .dev, wire => DevAuth.openWire wire
  | .other _ opening, wire => pure (opening wire)

/-! ### The timekeeper -/

/-- What a node is set up with. -/
structure Node (T : Type) where
  core : TimeCore T
  nodeId : UInt64
  selfKey : UInt64
  localCap : ClockCapability
  auth : BeaconAuth

structure OutboundBeacon where
  nodeId : UInt64
  seq : UInt64
  wallNs : Int64
  uncertaintyNs : UInt64
  cap : ClockCapability

structure TickOutcome where
  correction : Correction
  discipline : Discipline
  clockMs : Option Int64
  beacon : Option OutboundBeacon

structure Timekeeper (T : Type) where
  state : T
  seq : UInt64
  hasPriorWall : Bool
  lastBeaconedUncertaintyNs : UInt64

def selfPeerId : UInt64 := 0xFFFFFFFFFFFFFFFF

variable {T : Type} (node : Node T)

namespace Timekeeper

def new : Timekeeper T where
  state := node.core.new
  seq := 0
  hasPriorWall := false
  lastBeaconedUncertaintyNs := 0xFFFFFFFFFFFFFFFF

def selfProv : MeasurementProvenance where
  distanceBounded := true
  replayProtected := true
  authenticity := .authenticatedDomainPeer node.selfKey
  path := 0

def selfSample (reading : Reading) : PeerSample where
  wall := {
    value := reading.wall.centerNs
    sigmaNs := reading.wall.radiusNs
    prov := selfProv node }
  capturedMonoNs := reading.capturedMonoNs
  cap := reading.cap

def ingestLocalReading (tk : Timekeeper T) (reading : Reading) : Timekeeper T :=
  { tk with state := node.core.ingest tk.state selfPeerId (selfSample node reading) }

def ingestBeacon (tk : Timekeeper T) (peerId : UInt64) (beacon : TimeBeacon) :
    Checked (Timekeeper T) :=
  if peerId = selfPeerId then .panic
  else .ok { tk with state := node.core.ingest tk.state peerId (node.core.intoPeerSample beacon) }

def clockMsOf (localWallNs : Int64) : Discipline → Option Int64
  | .withhold => none
  | .step correctionNs | .track correctionNs =>
    some (saturatingAdd localWallNs correctionNs / 1000000)
  | .slew => some (localWallNs / 1000000)

def tick (tk : Timekeeper T) (nowMonoNs : UInt64) (localWallNs : Int64) :
    Checked (TickOutcome × Timekeeper T) := do
  let disciplined := node.core.discipline tk.state localWallNs nowMonoNs
  let correction := disciplined.1
  let state := disciplined.2
  let discipline := node.core.act correction node.localCap tk.hasPriorWall
  let hasPriorWall := tk.hasPriorWall || discipline ≠ .withhold
  if node.core.shouldRebeacon correction tk.lastBeaconedUncertaintyNs then
    let seq ← checkedSucc tk.seq
    let beacon := {
      nodeId := node.nodeId
      seq := seq
      wallNs := saturatingAdd localWallNs correction.offsetNs
      uncertaintyNs := correction.uncertaintyNs
      cap := node.localCap }
    pure (⟨correction, discipline, clockMsOf localWallNs discipline, some beacon⟩,
      ⟨state, seq, hasPriorWall, correction.uncertaintyNs⟩)
  else
    pure (⟨correction, discipline, clockMsOf localWallNs discipline, none⟩,
      ⟨state, tk.seq, hasPriorWall, tk.lastBeaconedUncertaintyNs⟩)

end Timekeeper

/-! ### The service -/

structure Mutex (A : Type) where
  value : A
  poisoned : Bool

def Mutex.new {A : Type} (value : A) : Mutex A := ⟨value, false⟩

/-- What a panic under the guard leaves. -/
def Mutex.poison {A : Type} (mutex : Mutex A) : Mutex A := { mutex with poisoned := true }

/-- A beacon as it was made and sent. -/
structure Sent where
  seq : UInt64
  localWallNs : Int64
  correction : Correction
  wire : Bytes

/-- `readings` and `sent` record what the local clocks gave and what went out so far. -/
structure TimeService (T : Type) where
  tk : Mutex (Timekeeper T)
  sources : Mutex Unit
  lastWallNs : Mutex Int64
  clockMs : Option Int64
  beaconSeq : UInt64
  peerIngests : UInt64
  readings : List Reading
  sent : List Sent

inductive Call where
  | ingestOnce (nowMonoNs : UInt64) (wire : Bytes)
  | disciplineOnce (nowMonoNs : UInt64) (polled : List (Option Reading))

inductive Answer where
  | ingested (passed : Bool)
  | disciplined (wire : Option Bytes)
  | panicked
  deriving DecidableEq

namespace TimeService

def new : TimeService T where
  tk := Mutex.new (Timekeeper.new node)
  sources := Mutex.new ()
  lastWallNs := Mutex.new 0
  clockMs := none
  beaconSeq := 0
  peerIngests := 0
  readings := []
  sent := []

/-- `BeaconAuth::open` and then `beacon_wire::decode`. -/
def received (wire : Bytes) : Checked (Option (VerifiedBeacon × DecodedBeacon)) := do
  match ← node.auth.openWire wire with
  | none => pure none
  | some vb =>
    match decode vb.content with
    | .ok decoded => pure (some (vb, decoded))
    | .err () => pure none
    | .panic => .panic

def ingestOnce (service : TimeService T) (nowMonoNs : UInt64) (wire : Bytes) :
    TimeService T × Answer :=
  match received node wire with
  | .panic => (service, .panicked)
  | .ok none => (service, .ingested false)
  | .ok (some (vb, decoded)) =>
    let beacon := decoded.intoBeacon node.core nowMonoNs vb.prov
    if service.tk.poisoned then (service, .panicked)
    else
      match service.tk.value.ingestBeacon node vb.peerId beacon with
      | .ok tk =>
        ({ service with tk := { service.tk with value := tk }, peerIngests := service.peerIngests + 1 },
          .ingested true)
      | .panic => ({ service with tk := service.tk.poison }, .panicked)

/-- One source's turn, under the three guards. -/
def senseOne (service : TimeService T) : Option Reading → TimeService T
  | none => service
  | some reading =>
    { service with
      tk := { service.tk with value := service.tk.value.ingestLocalReading node reading }
      lastWallNs := { service.lastWallNs with value := reading.wall.centerNs }
      readings := service.readings ++ [reading] }

def sense (service : TimeService T) (polled : List (Option Reading)) : TimeService T :=
  polled.foldl (senseOne node) service

/-- The heartbeat: a beacon with the present estimate, sealed. -/
def heartbeat (service : TimeService T) (localWallNs : Int64) (correction : Correction) :
    TimeService T × Answer :=
  let seq := service.beaconSeq
  let counted := { service with beaconSeq := seq + 1 }
  match checkedAdd localWallNs correction.offsetNs with
  | .panic => (counted, .panicked)
  | .ok wall =>
    let payload := encode seq wall correction.uncertaintyNs node.localCap
    let wire := node.auth.sealWire node.nodeId seq payload
    ({ counted with sent := service.sent ++ [⟨seq, localWallNs, correction, wire⟩] },
      .disciplined (some wire))

def afterTick (service : TimeService T) (localWallNs : Int64) :
    Checked (TickOutcome × Timekeeper T) → TimeService T × Answer
  | .panic => ({ service with tk := service.tk.poison }, .panicked)
  | .ok (out, tk) =>
    let acted := { service with tk := { service.tk with value := tk } }
    match out.clockMs with
    | none => (acted, .disciplined none)
    | some ms => heartbeat node { acted with clockMs := some ms } localWallNs out.correction

def decideAndAct (service : TimeService T) (nowMonoNs : UInt64) : TimeService T × Answer :=
  if service.lastWallNs.poisoned || service.tk.poisoned then (service, .panicked)
  else
    let localWall := service.lastWallNs.value
    afterTick node service localWall (service.tk.value.tick node nowMonoNs localWall)

def disciplineOnce (service : TimeService T) (nowMonoNs : UInt64) (polled : List (Option Reading)) :
    TimeService T × Answer :=
  if service.sources.poisoned then (service, .panicked)
  -- a guard that is held while the next lock panics poisons its own mutex
  else if service.tk.poisoned then ({ service with sources := service.sources.poison }, .panicked)
  else if service.lastWallNs.poisoned then
    ({ service with sources := service.sources.poison, tk := service.tk.poison }, .panicked)
  else decideAndAct node (service.sense node polled) nowMonoNs

def answer (service : TimeService T) : Call → TimeService T × Answer
  | .ingestOnce nowMonoNs wire => service.ingestOnce node nowMonoNs wire
  | .disciplineOnce nowMonoNs polled => service.disciplineOnce node nowMonoNs polled

def step (service : TimeService T) (call : Call) : TimeService T := (answer node service call).1

end TimeService
end NdnExt.Time
