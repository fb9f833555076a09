import NdnExt.Lib.FirstHeard
import NdnExt.Lib.Run
import NdnExt.Nan.Steps

/-! Runs of one engine, its calls and polls, and what is on the air and in its queue after each of
them. -/

namespace NdnExt.Nan

open NdnExt.Lib NdnExt.Lib.FirstHeard NdnExt.Lib.Run

inductive Call where
  | publish (name ssi : Bytes)
  | subscribe (name : Bytes) (active : Bool)
  | broadcastFollowup (ssi : Bytes)
  | requestNdp (peer : Mac)
  | terminateNdp (peer : Mac) (ndpId : UInt8)

inductive Action where
  | call (call : Call)
  | poll (now : Usec) (inbound : List RxFrame)

/-- An engine, the frames it sent, the events it surfaced and the follow-ups it was asked for. -/
structure Transcript where
  engine : NanEngine
  tx : List Bytes
  events : List NanEvent
  queued : List (Mac × Bytes)

namespace Transcript

variable (sha256 : Bytes → Vector UInt8 32)

def start (engine : NanEngine) : Transcript := ⟨engine, [], [], []⟩

def call (t : Transcript) : Call → Transcript
  | .publish name ssi => { t with engine := (t.engine.publish sha256 name ssi).1 }
  | .subscribe name active => { t with engine := (t.engine.subscribe sha256 name active).1 }
  | .broadcastFollowup ssi =>
    { t with
      engine := (t.engine.broadcastFollowup ssi).1
      queued := t.queued ++ t.engine.peers.map fun peer => (peer.1, ssi) }
  | .requestNdp peer => { t with engine := (t.engine.requestNdp peer).1 }
  | .terminateNdp peer ndpId => { t with engine := t.engine.terminateNdp peer ndpId }

def poll (t : Transcript) (now : Usec) (inbound : List RxFrame) : Transcript :=
  let (engine, step) := t.engine.poll now inbound
  { t with
    engine := engine
    tx := t.tx ++ step.tx.map TxFrame.bytes
    events := t.events ++ step.events }

def step (t : Transcript) : Action → Transcript
  | .call call => t.call sha256 call
  | .poll now inbound => t.poll now inbound

def run (t : Transcript) (actions : List Action) : Transcript := actions.foldl (step sha256) t

/-- The poll is inside a transmit window. -/
def InWindow (t : Transcript) (now : Usec) (inbound : List RxFrame) : Prop :=
  (t.engine.receive now inbound).1.inDw now = true

instance (t : Transcript) (now : Usec) (inbound : List RxFrame) :
    Decidable (t.InWindow now inbound) := inferInstanceAs (Decidable (_ = true))

/-- The lengths that the frames of a transmit window have room for. -/
structure Fits (engine : NanEngine) : Prop where
  functions : engine.functions.length ≤ NanEngine.maxFunctions
  infos : ∀ f ∈ engine.functions, f.ssi.length ≤ 255
  followups : ∀ fu ∈ engine.followups, fu.ssi.length ≤ 255

/-- A window is only entered with what fits its frames. -/
def FitsWindow (t : Transcript) : Action → Prop
  | .call _ => True
  | .poll now inbound => t.InWindow now inbound → Fits t.engine

end Transcript

/-! ### What frames announce and tell -/

/-- A service and the info it is announced with. -/
def announcement (sda : ServiceDescriptor) : Option (ServiceId × Bytes) :=
  if sda.control.controlType = .followUp then none else some (sda.serviceId, sda.serviceInfo)

def announced (bytes : Bytes) : List (ServiceId × Bytes) := (spoken bytes).filterMap announcement

def followupInfo (sda : ServiceDescriptor) : Option Bytes :=
  if sda.control.controlType = .followUp then some sda.serviceInfo else none

/-- The follow-ups of a frame that is addressed to `dest`. -/
def told (dest : Mac) (bytes : Bytes) : List Bytes :=
  if rxAddr1 bytes = some dest then (spoken bytes).filterMap followupInfo else []

/-- The follow-ups among `queued` that are for `dest`. -/
def queuedFor (dest : Mac) (queued : List (Mac × Bytes)) : List Bytes :=
  queued.filterMap fun entry => if entry.1 = dest then some entry.2 else none

def Followup.entry (fu : Followup) : Mac × Bytes := (fu.dest, fu.ssi)

/-- What functions are advertised with. -/
def infosOf (functions : List Function) : List (ServiceId × Bytes) :=
  functions.filterMap fun f => f.controlType.map fun _ => (f.serviceId, f.ssi)

def servicesOf (functions : List Function) : List ServiceId := functions.map Function.serviceId

def idsOfKind (kind : FunctionKind) (functions : List Function) : List ServiceId :=
  (functions.filter fun f => f.kind == kind).map Function.serviceId

def descriptorsOf (functions : List Function) : List ServiceDescriptor :=
  functions.filterMap fun f => f.controlType.map f.descriptor

/-- A beacon that lists every function by its kind, and a discovery frame with the descriptors of
those that are advertised. -/
structure OnAir (frames : List Bytes) (functions : List Function) : Prop where
  listed : ∃ beacon ∈ frames, listedIds .serviceIdList beacon = idsOfKind .publish functions ∧
    listedIds .subscribeServiceIdList beacon = idsOfKind .subscribe functions
  described : descriptorsOf functions ≠ [] → ∃ sdf ∈ frames, spoken sdf = descriptorsOf functions

/-- It comes from `nmi`, for a reader of the raw address and for one of the header. -/
def ComesFrom (nmi : Mac) (bytes : Bytes) : Prop :=
  rxAddr2 bytes = nmi ∧ ∃ frame, classify bytes = .ok frame ∧ frame.header.addr2 = nmi

theorem announcement_descriptor (f : Function) {controlType : ServiceControlType}
    (advertised : f.controlType = some controlType) :
    announcement (f.descriptor controlType) = some (f.serviceId, f.ssi) := by
  have fields := f.descriptor_fields controlType
  have notFollowup : controlType ≠ .followUp := by
    rintro rfl
    cases kind : f.kind <;> cases active : f.active <;>
      simp [Function.controlType, kind, active] at advertised
  simp [announcement, fields, notFollowup, f.descriptor_serviceInfo]

theorem announcements_descriptorsOf (functions : List Function) :
    (descriptorsOf functions).filterMap announcement = infosOf functions := by
  rw [descriptorsOf, infosOf, List.filterMap_filterMap]
  apply List.filterMap_congr
  intro f _
  cases advertised : f.controlType with
  | none => rfl
  | some controlType => exact announcement_descriptor f advertised

theorem followups_descriptorsOf (functions : List Function) :
    (descriptorsOf functions).filterMap followupInfo = [] := by
  rw [List.filterMap_eq_nil_iff]
  intro sda found
  rcases List.mem_filterMap.mp found with ⟨f, _, described⟩
  cases advertised : f.controlType with
  | none => simp [advertised] at described
  | some controlType =>
    have announced := announcement_descriptor f advertised
    rw [advertised, Option.map_some, Option.some.injEq] at described
    rw [described] at announced
    by_cases followup : sda.control.controlType = .followUp
    · simp [announcement, followup] at announced
    · simp [followupInfo, followup]

theorem comesFrom_beacon (beacon : NanBeacon) {attributes : Bytes}
    (control : beacon.header.frameControl = fcBeacon)
    (short : attributes.length ≤ maxBeaconAttributes) :
    ComesFrom beacon.header.addr2 (beacon.encode attributes) :=
  ⟨rxAddr2_encode _ _, _, classify_beacon control short, rfl⟩

theorem rxAddr1_sdf (sdf : ServiceDiscoveryFrame) (attributes : Bytes) :
    rxAddr1 (sdf.encode attributes) = some sdf.header.addr1 := by
  rw [ServiceDiscoveryFrame.encode, actionEnvelope, List.append_assoc]
  exact rxAddr1_encode _ _

theorem comesFrom_sdf (sdf : ServiceDiscoveryFrame) (attributes : Bytes)
    (control : sdf.header.frameControl = fcAction) :
    ComesFrom sdf.header.addr2 (sdf.encode attributes) := by
  refine ⟨?_, _, classify_sdf control attributes, rfl⟩
  rw [ServiceDiscoveryFrame.encode, actionEnvelope, List.append_assoc]
  exact rxAddr2_encode _ _

theorem comesFrom_naf (naf : NanActionFrame) (attributes : Bytes)
    (control : naf.header.frameControl = fcAction) :
    ComesFrom naf.header.addr2 (naf.encode attributes) := by
  refine ⟨?_, _, classify_naf control attributes, rfl⟩
  rw [NanActionFrame.encode, actionEnvelope, List.append_assoc]
  exact rxAddr2_encode _ _

end NdnExt.Nan
