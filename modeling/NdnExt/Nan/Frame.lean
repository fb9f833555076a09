import NdnExt.Nan.Attr

/-! The 802.11 management header and the three carriers of NAN attributes: the beacon, the service
discovery frame and the NAN action frame. -/

namespace NdnExt.Nan

def nanOui : Bytes := [0x50, 0x6F, 0x9A]

def nanOuiType : UInt8 := 0x13

def nanOuiTypeAction : UInt8 := 0x18

def nanClusterIdBase : Mac := #v[0x50, 0x6F, 0x9A, 0x01, 0x00, 0x00]

def nanNetworkId : Mac := #v[0x51, 0x6F, 0x9A, 0x01, 0x00, 0x00]

def broadcast : Mac := #v[0xFF, 0xFF, 0xFF, 0xFF, 0xFF, 0xFF]

def fcBeacon : UInt16 := 0x0080

def fcAction : UInt16 := 0x00D0

def actionCategoryPublic : UInt8 := 0x04

def actionPublicVendorSpecific : UInt8 := 0x09

def elementIdVendorSpecific : UInt8 := 0xDD

def defaultBeaconCapability : UInt16 := 0x0420

structure Dot11Header where
  frameControl : UInt16
  durationId : UInt16
  addr1 : Mac
  addr2 : Mac
  addr3 : Mac
  seqCtrl : UInt16
  deriving DecidableEq

namespace Dot11Header

def new (frameControl : UInt16) (addr1 addr2 addr3 : Mac) (seq : UInt16) : Dot11Header where
  frameControl := frameControl
  durationId := 0
  addr1 := addr1
  addr2 := addr2
  addr3 := addr3
  seqCtrl := seq <<< 4

def encode (header : Dot11Header) : Bytes :=
  putLe16 header.frameControl ++ (putLe16 header.durationId ++ (header.addr1.toList ++
    (header.addr2.toList ++ (header.addr3.toList ++ putLe16 header.seqCtrl))))

def read : Reader Dot11Header := do
  let frameControl ← Reader.le16
  let durationId ← Reader.le16
  let addr1 ← Reader.takeArray 6
  let addr2 ← Reader.takeArray 6
  let addr3 ← Reader.takeArray 6
  let seqCtrl ← Reader.le16
  return ⟨frameControl, durationId, addr1, addr2, addr3, seqCtrl⟩

@[simp] theorem read_encode (header : Dot11Header) (rest : Bytes) :
    read (header.encode ++ rest) = (.ok header, rest) := by
  simp [read, encode, List.append_assoc]

end Dot11Header

inductive FrameType where
  | beacon
  | action
  | naf (subtype : UInt8)
  | other
  deriving DecidableEq, Repr

structure Dot11Frame where
  header : Dot11Header
  kind : FrameType
  attributes : Bytes
  deriving DecidableEq

/-- Reads a byte that has to be the given one. -/
def expectByte (expected : UInt8) : Reader Unit := do
  let found ← Reader.u8
  if found = expected then return () else Reader.fail .invalid

def expectBytes (expected : Bytes) : Reader Unit := do
  let found ← Reader.take expected.length
  if found = expected then return () else Reader.fail .invalid

@[simp] theorem expectByte_cons (b : UInt8) (rest : Bytes) :
    expectByte b (b :: rest) = (.ok (), rest) := by
  simp [expectByte]

@[simp] theorem expectBytes_append (expected rest : Bytes) :
    expectBytes expected (expected ++ rest) = (.ok (), rest) := by
  simp [expectBytes, Reader.take_append]

theorem expectByte_other {b expected : UInt8} (differs : b ≠ expected) (rest : Bytes) :
    expectByte expected (b :: rest) = (.error .invalid, rest) := by
  simp [expectByte, differs]

/-- Walks the information elements to the NAN vendor one. -/
def findNanVendorIe : Reader Bytes := fun unread =>
  match unread with
  | id :: len :: tail =>
    if tail.length < len.toNat then (.error .truncated, tail)
    else
      let body := tail.take len.toNat
      if id = elementIdVendorSpecific ∧ 4 ≤ body.length ∧ body.take 3 = nanOui ∧
          body[3]? = some nanOuiType then
        (.ok (body.drop 4), tail.drop len.toNat)
      else findNanVendorIe (tail.drop len.toNat)
  | _ => (.error .invalid, unread)
termination_by unread => unread.length
decreasing_by
  rw [List.length_drop, List.length_cons, List.length_cons]
  omega

/-- What the length byte of the vendor element can say, without the OUI and its type. -/
def maxBeaconAttributes : Nat := 251

variable {attributes : Bytes} {beacon : NanBeacon} {header : Dot11Header}

theorem findNanVendorIe_short {unread rest : Bytes}
    (found : findNanVendorIe unread = (.ok attributes, rest)) :
    attributes.length ≤ maxBeaconAttributes := by
  fun_induction findNanVendorIe unread with
  | case1 => cases found
  | case2 id len tail _ body _ =>
    cases found
    have byte := len.toNat_lt
    have length : body.length ≤ len.toNat := List.length_take_le ..
    rw [List.length_drop, maxBeaconAttributes]
    omega
  | case3 _ _ _ _ _ _ ih => exact ih found
  | case4 => cases found

/-- The vendor element of a beacon: its length is cut to 8 bits, the attributes are not. -/
def vendorIe (attributes : Bytes) : Bytes :=
  elementIdVendorSpecific :: UInt8.ofNat (nanOui.length + 1 + attributes.length) ::
    (nanOui ++ nanOuiType :: attributes)

theorem findNanVendorIe_vendorIe
    (short : attributes.length ≤ maxBeaconAttributes) :
    findNanVendorIe (vendorIe attributes) = (.ok attributes, []) := by
  have size : nanOui.length + 1 + attributes.length < 256 := by
    rw [maxBeaconAttributes] at short
    change 4 + attributes.length < 256
    omega
  have len : (UInt8.ofNat (nanOui.length + 1 + attributes.length)).toNat =
      (nanOui ++ nanOuiType :: attributes).length := by
    rw [UInt8.toNat_ofNat_of_lt' size, List.length_append, List.length_cons]
    omega
  rw [vendorIe, findNanVendorIe]
  simp only [len, List.take_length, List.drop_length]
  simp [nanOui]

structure NanBeacon where
  header : Dot11Header
  timestamp : UInt64
  beaconInterval : UInt16
  capability : UInt16
  deriving DecidableEq

namespace NanBeacon

def new (dst src clusterId : Mac) (seq : UInt16) (timestamp : UInt64) (beaconInterval : UInt16) :
    NanBeacon where
  header := Dot11Header.new fcBeacon dst src clusterId seq
  timestamp := timestamp
  beaconInterval := beaconInterval
  capability := defaultBeaconCapability

def encode (beacon : NanBeacon) (attributes : Bytes) : Bytes :=
  beacon.header.encode ++ (putLe64 beacon.timestamp ++ (putLe16 beacon.beaconInterval ++
    (putLe16 beacon.capability ++ vendorIe attributes)))

def read : Reader (NanBeacon × Bytes) := do
  let header ← Dot11Header.read
  if header.frameControl ≠ fcBeacon then Reader.fail .invalid
  else do
    let timestamp ← Reader.le64
    let beaconInterval ← Reader.le16
    let capability ← Reader.le16
    let attributes ← findNanVendorIe
    return (⟨header, timestamp, beaconInterval, capability⟩, attributes)

def parse (buf : Bytes) : Except WireError (NanBeacon × Bytes) := read.run buf

theorem parse_encode
    (control : beacon.header.frameControl = fcBeacon)
    (short : attributes.length ≤ maxBeaconAttributes) :
    parse (beacon.encode attributes) = .ok (beacon, attributes) := by
  simp [parse, Reader.run, read, encode, control, findNanVendorIe_vendorIe short]

theorem parse_short {buf : Bytes}
    (parsed : parse buf = .ok (beacon, attributes)) :
    attributes.length ≤ maxBeaconAttributes := by
  simp only [parse, Reader.run, read, Reader.bind_apply] at parsed
  split at parsed
  · split at parsed
    · cases parsed
    · simp only [Reader.bind_apply] at parsed
      split at parsed
      · split at parsed
        · split at parsed
          · split at parsed
            · next found =>
              cases parsed
              exact findNanVendorIe_short found
            · cases parsed
          · cases parsed
        · cases parsed
      · cases parsed
  · cases parsed

/-- A beacon survives the air exactly when its attributes fit the vendor element. -/
theorem parse_encode_iff
    (control : beacon.header.frameControl = fcBeacon) :
    parse (beacon.encode attributes) = .ok (beacon, attributes) ↔
      attributes.length ≤ maxBeaconAttributes :=
  ⟨parse_short, parse_encode control⟩

theorem parse_encode_nothing :
    parse ((new broadcast broadcast broadcast 0 0 0).encode []) =
      .ok (new broadcast broadcast broadcast 0 0 0, []) :=
  (parse_encode_iff rfl).mpr (Nat.zero_le _)

end NanBeacon

/-- A public action frame with the NAN OUI, up to and with the OUI type. -/
def readActionEnvelope (ouiType : UInt8) : Reader Dot11Header := do
  let header ← Dot11Header.read
  if header.frameControl ≠ fcAction then Reader.fail .invalid
  else do
    expectByte actionCategoryPublic
    expectByte actionPublicVendorSpecific
    expectBytes nanOui
    expectByte ouiType
    return header

def actionEnvelope (header : Dot11Header) (ouiType : UInt8) : Bytes :=
  header.encode ++ actionCategoryPublic :: actionPublicVendorSpecific :: (nanOui ++ [ouiType])

theorem readActionEnvelope_append
    (control : header.frameControl = fcAction) (ouiType : UInt8) (rest : Bytes) :
    readActionEnvelope ouiType (actionEnvelope header ouiType ++ rest) = (.ok header, rest) := by
  simp [readActionEnvelope, actionEnvelope, control]

theorem readActionEnvelope_other {ouiType expected : UInt8}
    (control : header.frameControl = fcAction) (differs : ouiType ≠ expected) (rest : Bytes) :
    readActionEnvelope expected (actionEnvelope header ouiType ++ rest) =
      (.error .invalid, rest) := by
  simp [readActionEnvelope, actionEnvelope, control, expectByte_other differs]

structure ServiceDiscoveryFrame where
  header : Dot11Header
  deriving DecidableEq

namespace ServiceDiscoveryFrame

def new (dst src clusterId : Mac) (seq : UInt16) : ServiceDiscoveryFrame where
  header := Dot11Header.new fcAction dst src clusterId seq

def encode (sdf : ServiceDiscoveryFrame) (attributes : Bytes) : Bytes :=
  actionEnvelope sdf.header nanOuiType ++ attributes

def read : Reader (ServiceDiscoveryFrame × Bytes) := do
  let header ← readActionEnvelope nanOuiType
  let attributes ← Reader.rest
  return (⟨header⟩, attributes)

def parse (buf : Bytes) : Except WireError (ServiceDiscoveryFrame × Bytes) := read.run buf

theorem parse_encode {sdf : ServiceDiscoveryFrame} (control : sdf.header.frameControl = fcAction)
    (attributes : Bytes) : parse (sdf.encode attributes) = .ok (sdf, attributes) := by
  simp [parse, Reader.run, read, encode, readActionEnvelope_append control]

end ServiceDiscoveryFrame

inductive NafSubtype where
  | rangingRequest
  | rangingResponse
  | rangingTermination
  | rangingReport
  | dataPathRequest
  | dataPathResponse
  | dataPathConfirm
  | dataPathKeyInstallment
  | dataPathTermination
  | scheduleRequest
  | scheduleResponse
  | scheduleConfirm
  | scheduleUpdateNotification
  deriving DecidableEq, Repr

namespace NafSubtype

def toByte : NafSubtype → UInt8
  | rangingRequest => 1
  | rangingResponse => 2
  | rangingTermination => 3
  | rangingReport => 4
  | dataPathRequest => 5
  | dataPathResponse => 6
  | dataPathConfirm => 7
  | dataPathKeyInstallment => 8
  | dataPathTermination => 9
  | scheduleRequest => 10
  | scheduleResponse => 11
  | scheduleConfirm => 12
  | scheduleUpdateNotification => 13

def fromByte (b : UInt8) : Option NafSubtype :=
  match b.toNat with
  | 1 => some rangingRequest
  | 2 => some rangingResponse
  | 3 => some rangingTermination
  | 4 => some rangingReport
  | 5 => some dataPathRequest
  | 6 => some dataPathResponse
  | 7 => some dataPathConfirm
  | 8 => some dataPathKeyInstallment
  | 9 => some dataPathTermination
  | 10 => some scheduleRequest
  | 11 => some scheduleResponse
  | 12 => some scheduleConfirm
  | 13 => some scheduleUpdateNotification
  | _ => none

end NafSubtype

structure NanActionFrame where
  header : Dot11Header
  subtype : UInt8
  deriving DecidableEq

namespace NanActionFrame

def new (subtype : NafSubtype) (dst src clusterId : Mac) (seq : UInt16) : NanActionFrame where
  header := Dot11Header.new fcAction dst src clusterId seq
  subtype := subtype.toByte

def encode (naf : NanActionFrame) (attributes : Bytes) : Bytes :=
  actionEnvelope naf.header nanOuiTypeAction ++ naf.subtype :: attributes

def read : Reader (NanActionFrame × Bytes) := do
  let header ← readActionEnvelope nanOuiTypeAction
  let subtype ← Reader.u8
  let attributes ← Reader.rest
  return (⟨header, subtype⟩, attributes)

def parse (buf : Bytes) : Except WireError (NanActionFrame × Bytes) := read.run buf

theorem parse_encode {naf : NanActionFrame} (control : naf.header.frameControl = fcAction)
    (attributes : Bytes) : parse (naf.encode attributes) = .ok (naf, attributes) := by
  simp [parse, Reader.run, read, encode, readActionEnvelope_append control]

end NanActionFrame

/-- An action frame is tried as a service discovery frame first. -/
def classifyAction (buf : Bytes) : Except WireError Dot11Frame :=
  match ServiceDiscoveryFrame.parse buf with
  | .ok (s, attributes) => .ok ⟨s.header, .action, attributes⟩
  | .error _ =>
    match NanActionFrame.parse buf with
    | .ok (n, attributes) => .ok ⟨n.header, .naf n.subtype, attributes⟩
    | .error error => .error error

def classify (buf : Bytes) : Except WireError Dot11Frame :=
  match Dot11Header.read.run buf with
  | .error error => .error error
  | .ok header =>
    if header.frameControl = fcBeacon then
      match NanBeacon.parse buf with
      | .ok (b, attributes) => .ok ⟨b.header, .beacon, attributes⟩
      | .error error => .error error
    else if header.frameControl = fcAction then classifyAction buf
    else .ok ⟨header, .other, []⟩

theorem classify_beacon
    (control : beacon.header.frameControl = fcBeacon)
    (short : attributes.length ≤ maxBeaconAttributes) :
    classify (beacon.encode attributes) = .ok ⟨beacon.header, .beacon, attributes⟩ := by
  have header : Dot11Header.read.run (beacon.encode attributes) = .ok beacon.header := by
    simp [Reader.run, NanBeacon.encode]
  rw [classify, header]
  simp [control, NanBeacon.parse_encode control short]

theorem classify_action (control : header.frameControl = fcAction)
    (ouiType : UInt8) (rest : Bytes) :
    classify (actionEnvelope header ouiType ++ rest) =
      classifyAction (actionEnvelope header ouiType ++ rest) := by
  have read : Dot11Header.read.run (actionEnvelope header ouiType ++ rest) = .ok header := by
    simp [Reader.run, actionEnvelope]
  rw [classify, read]
  simp [control, fcAction, fcBeacon]

theorem classify_sdf {sdf : ServiceDiscoveryFrame} (control : sdf.header.frameControl = fcAction)
    (attributes : Bytes) :
    classify (sdf.encode attributes) = .ok ⟨sdf.header, .action, attributes⟩ := by
  have parsed := ServiceDiscoveryFrame.parse_encode control attributes
  rw [ServiceDiscoveryFrame.encode] at parsed ⊢
  rw [classify_action control, classifyAction, parsed]

theorem classify_naf {naf : NanActionFrame} (control : naf.header.frameControl = fcAction)
    (attributes : Bytes) :
    classify (naf.encode attributes) = .ok ⟨naf.header, .naf naf.subtype, attributes⟩ := by
  have parsed := NanActionFrame.parse_encode control attributes
  have notSdf : ServiceDiscoveryFrame.parse (naf.encode attributes) = .error .invalid := by
    have other := readActionEnvelope_other control (by decide : nanOuiTypeAction ≠ nanOuiType)
    simp [ServiceDiscoveryFrame.parse, Reader.run, ServiceDiscoveryFrame.read,
      NanActionFrame.encode, other]
  rw [NanActionFrame.encode] at parsed notSdf ⊢
  rw [classify_action control, classifyAction, notSdf, parsed]

end NdnExt.Nan
