import NdnExt.Nan.Wire

/-! NAN attributes, `id | length | body` with a little-endian `u16` length, and the bodies of
discovery. An encoder is the bytes it appends. -/

namespace NdnExt.Nan

open Reader

inductive AttributeId where
  | masterIndication
  | cluster
  | serviceIdList
  | serviceDescriptor
  | serviceDescriptorExtension
  | deviceCapability
  | nanAvailability
  | subscribeServiceIdList
  | ndpExtension
  deriving DecidableEq, Repr

def AttributeId.toByte : AttributeId → UInt8
  | masterIndication => 0x00
  | cluster => 0x01
  | serviceIdList => 0x02
  | serviceDescriptor => 0x03
  | serviceDescriptorExtension => 0x0E
  | deviceCapability => 0x0F
  | nanAvailability => 0x12
  | subscribeServiceIdList => 0x28
  | ndpExtension => 0x29

structure Attribute where
  id : UInt8
  body : Bytes
  deriving DecidableEq, Repr

namespace Attribute

/-- The length is cut to 16 bits, the body is not. -/
def encode (attr : Attribute) : Bytes :=
  attr.id :: (putLe16 (UInt16.ofNat attr.body.length) ++ attr.body)

def is (attr : Attribute) (which : AttributeId) : Bool := attr.id == which.toByte

/-- The body's length is the one that is written. -/
def Fits (attr : Attribute) : Prop := attr.body.length < 2 ^ 16

end Attribute

namespace Attributes

def next : Reader Attribute := do
  let id ← Reader.u8
  let len ← Reader.le16
  let body ← Reader.take len.toNat
  return ⟨id, body⟩

theorem take_shorter (n : Nat) (unread : Bytes) :
    (take n unread).2.length ≤ unread.length := by
  rw [take]
  split <;> simp

theorem le16_shorter (unread : Bytes) : (le16 unread).2.length ≤ unread.length := by
  have taken := take_shorter 2 unread
  rcases read : take 2 unread with ⟨result, rest⟩
  rw [read] at taken
  cases result with
  | ok b => simpa [le16, read] using taken
  | error error => simpa [le16, read] using taken

theorem next_shorter (b : UInt8) (tail : Bytes) : (next (b :: tail)).2.length ≤ tail.length := by
  have length := le16_shorter tail
  rcases read : le16 tail with ⟨result, rest⟩
  rw [read] at length
  cases result with
  | error error => simpa [next, read] using length
  | ok len =>
    have taken := take_shorter len.toNat rest
    rcases body : take len.toNat rest with ⟨result, rest'⟩
    rw [body] at taken
    cases result with
    | ok found => simpa [next, read, body] using Nat.le_trans taken length
    | error error => simpa [next, read, body] using Nat.le_trans taken length

/-- The items of the iterator: after a failed read it goes on where the reader stopped. -/
def items : Bytes → List (Except WireError Attribute)
  | [] => []
  | b :: tail => (next (b :: tail)).1 :: items (next (b :: tail)).2
termination_by unread => unread.length
decreasing_by exact Nat.lt_succ_of_le (next_shorter b tail)

/-- `Attributes::new(buf).flatten()`. -/
def flatten (buf : Bytes) : List Attribute :=
  (items buf).filterMap fun
    | .ok attr => some attr
    | .error _ => none

def find (buf : Bytes) (which : AttributeId) : Option Attribute :=
  (flatten buf).find? (·.is which)

theorem next_encode {attr : Attribute} (fits : attr.Fits) (rest : Bytes) :
    next (attr.encode ++ rest) = (.ok attr, rest) := by
  have length : (UInt16.ofNat attr.body.length).toNat = attr.body.length :=
    UInt16.toNat_ofNat_of_lt' fits
  simp [next, Attribute.encode, length, take_append]

theorem items_encode {attr : Attribute} (fits : attr.Fits) (rest : Bytes) :
    items (attr.encode ++ rest) = .ok attr :: items rest := by
  have read := next_encode fits rest
  rw [Attribute.encode, List.cons_append] at read ⊢
  rw [items, read]

theorem items_flatMap {attrs : List Attribute} (fits : ∀ attr ∈ attrs, attr.Fits) :
    items (attrs.flatMap Attribute.encode) = attrs.map .ok := by
  induction attrs with
  | nil => rw [List.flatMap_nil, items, List.map_nil]
  | cons attr attrs ih =>
    rw [List.forall_mem_cons] at fits
    rw [List.flatMap_cons, items_encode fits.1, ih fits.2, List.map_cons]

theorem flatten_flatMap {attrs : List Attribute} (fits : ∀ attr ∈ attrs, attr.Fits) :
    flatten (attrs.flatMap Attribute.encode) = attrs := by
  rw [flatten, items_flatMap fits, List.filterMap_map]
  exact List.filterMap_some

end Attributes

structure MasterIndication where
  masterPreference : UInt8
  randomFactor : UInt8
  deriving DecidableEq, Repr

namespace MasterIndication

def encode (mi : MasterIndication) : Bytes :=
  AttributeId.masterIndication.toByte :: (putLe16 2 ++ [mi.masterPreference, mi.randomFactor])

def read : Reader MasterIndication := do
  let masterPreference ← Reader.u8
  let randomFactor ← Reader.u8
  return ⟨masterPreference, randomFactor⟩

def decode (body : Bytes) : Except WireError MasterIndication := read.run body

def attr (mi : MasterIndication) : Attribute :=
  ⟨AttributeId.masterIndication.toByte, [mi.masterPreference, mi.randomFactor]⟩

theorem encode_eq (mi : MasterIndication) : mi.encode = mi.attr.encode := rfl

theorem decode_body (mi : MasterIndication) : decode mi.attr.body = .ok mi := rfl

end MasterIndication

structure Cluster where
  anchorMasterRank : UInt64
  hopCount : UInt8
  ambtt : UInt32
  deriving DecidableEq, Repr

namespace Cluster

def body (c : Cluster) : Bytes :=
  putLe64 c.anchorMasterRank ++ c.hopCount :: putLe32 c.ambtt

def encode (c : Cluster) : Bytes := AttributeId.cluster.toByte :: (putLe16 13 ++ c.body)

def read : Reader Cluster := do
  let anchorMasterRank ← Reader.le64
  let hopCount ← Reader.u8
  let ambtt ← Reader.le32
  return ⟨anchorMasterRank, hopCount, ambtt⟩

def decode (body : Bytes) : Except WireError Cluster := read.run body

def attr (c : Cluster) : Attribute := ⟨AttributeId.cluster.toByte, c.body⟩

theorem length_body (c : Cluster) : c.body.length = 13 := by simp [body]

theorem encode_eq (c : Cluster) : c.encode = c.attr.encode := by
  rw [encode, Attribute.encode, attr, length_body]
  rfl

theorem decode_body (c : Cluster) : decode c.attr.body = .ok c := by
  simp [decode, run, read, attr, body]

end Cluster

inductive ServiceControlType where
  | publish
  | subscribe
  | followUp
  deriving DecidableEq, Repr

def ServiceControlType.toByte : ServiceControlType → UInt8
  | publish => 0
  | subscribe => 1
  | followUp => 2

structure ServiceControl where
  controlType : ServiceControlType
  matchingFilterPresent : Bool
  serviceResponseFilterPresent : Bool
  serviceInfoPresent : Bool
  discoveryRangeLimited : Bool
  bindingBitmapPresent : Bool
  deriving DecidableEq, Repr

namespace ServiceControl

def new (controlType : ServiceControlType) : ServiceControl :=
  ⟨controlType, false, false, false, false, false⟩

def toByte (control : ServiceControl) : UInt8 :=
  control.controlType.toByte |||
    (if control.matchingFilterPresent then 0x04 else 0) |||
    (if control.serviceResponseFilterPresent then 0x08 else 0) |||
    (if control.serviceInfoPresent then 0x10 else 0) |||
    (if control.discoveryRangeLimited then 0x20 else 0) |||
    (if control.bindingBitmapPresent then 0x40 else 0)

def fromByte (b : UInt8) : Except WireError ServiceControl :=
  let withType (controlType : ServiceControlType) : Except WireError ServiceControl :=
    .ok ⟨controlType, b &&& 0x04 != 0, b &&& 0x08 != 0, b &&& 0x10 != 0, b &&& 0x20 != 0,
      b &&& 0x40 != 0⟩
  match (b &&& 0x03).toNat with
  | 0 => withType .publish
  | 1 => withType .subscribe
  | 2 => withType .followUp
  | _ => .error .invalid

theorem fromByte_toByte (control : ServiceControl) : fromByte control.toByte = .ok control := by
  rcases control with ⟨controlType, filter, response, info, range, binding⟩
  cases controlType <;> cases filter <;> cases response <;> cases info <;> cases range <;>
    cases binding <;> rfl

end ServiceControl

structure ServiceDescriptor where
  serviceId : ServiceId
  instanceId : UInt8
  requestorInstanceId : UInt8
  control : ServiceControl
  matchingFilter : Bytes
  serviceInfo : Bytes
  deriving DecidableEq

namespace ServiceDescriptor

def new (serviceId : ServiceId) (instanceId : UInt8) (controlType : ServiceControlType) :
    ServiceDescriptor :=
  ⟨serviceId, instanceId, 0, ServiceControl.new controlType, [], []⟩

def withServiceInfo (sda : ServiceDescriptor) (ssi : Bytes) : ServiceDescriptor :=
  { sda with serviceInfo := ssi, control.serviceInfoPresent := !ssi.isEmpty }

def withMatchingFilter (sda : ServiceDescriptor) (filter : Bytes) : ServiceDescriptor :=
  { sda with matchingFilter := filter, control.matchingFilterPresent := !filter.isEmpty }

/-- An optional field behind its length, which is cut to 8 bits; the field is not. -/
def optional (present : Bool) (field : Bytes) : Bytes :=
  if present then UInt8.ofNat field.length :: field else []

def body (sda : ServiceDescriptor) : Bytes :=
  sda.serviceId.toList ++ sda.instanceId :: sda.requestorInstanceId :: sda.control.toByte ::
    (optional sda.control.matchingFilterPresent sda.matchingFilter ++
      optional sda.control.serviceInfoPresent sda.serviceInfo)

def encode (sda : ServiceDescriptor) : Bytes :=
  AttributeId.serviceDescriptor.toByte ::
    (putLe16 (UInt16.ofNat sda.body.length) ++ sda.body)

def readOptional (present : Bool) : Reader Bytes :=
  if present then do
    let len ← Reader.u8
    Reader.take len.toNat
  else pure []

def readControl : Reader ServiceControl := do
  let b ← Reader.u8
  match ServiceControl.fromByte b with
  | .ok control =>
    if control.serviceResponseFilterPresent || control.bindingBitmapPresent then
      Reader.fail .invalid
    else return control
  | .error error => Reader.fail error

def read : Reader ServiceDescriptor := do
  let serviceId ← Reader.takeArray 6
  let instanceId ← Reader.u8
  let requestorInstanceId ← Reader.u8
  let control ← readControl
  let matchingFilter ← readOptional control.matchingFilterPresent
  let serviceInfo ← readOptional control.serviceInfoPresent
  return ⟨serviceId, instanceId, requestorInstanceId, control, matchingFilter, serviceInfo⟩

def decode (body : Bytes) : Except WireError ServiceDescriptor := read.run body

def attr (sda : ServiceDescriptor) : Attribute :=
  ⟨AttributeId.serviceDescriptor.toByte, sda.body⟩

theorem encode_eq (sda : ServiceDescriptor) : sda.encode = sda.attr.encode := rfl

/-- An absent field is empty, and none is flagged that the decoder refuses. -/
structure Tidy (sda : ServiceDescriptor) : Prop where
  noResponseFilter : sda.control.serviceResponseFilterPresent = false
  noBindingBitmap : sda.control.bindingBitmapPresent = false
  filterFlagged : sda.control.matchingFilterPresent = false → sda.matchingFilter = []
  infoFlagged : sda.control.serviceInfoPresent = false → sda.serviceInfo = []

theorem tidy_new (serviceId : ServiceId) (instanceId : UInt8) (controlType : ServiceControlType) :
    (new serviceId instanceId controlType).Tidy := ⟨rfl, rfl, fun _ => rfl, fun _ => rfl⟩

variable {sda : ServiceDescriptor}

theorem Tidy.withServiceInfo (tidy : sda.Tidy) (ssi : Bytes) :
    (sda.withServiceInfo ssi).Tidy := by
  refine ⟨tidy.noResponseFilter, tidy.noBindingBitmap, tidy.filterFlagged, ?_⟩
  intro absent
  simpa [ServiceDescriptor.withServiceInfo] using absent

theorem readOptional_optional {present : Bool} {field : Bytes} (short : field.length < 256)
    (flagged : present = false → field = []) (rest : Bytes) :
    readOptional present (optional present field ++ rest) = (.ok field, rest) := by
  cases present with
  | false => simp [readOptional, optional, flagged]
  | true =>
    have length : (UInt8.ofNat field.length).toNat = field.length :=
      UInt8.toNat_ofNat_of_lt' short
    simp [readOptional, optional, length, take_append]

theorem readControl_toByte {control : ServiceControl}
    (noResponse : control.serviceResponseFilterPresent = false)
    (noBinding : control.bindingBitmapPresent = false) (rest : Bytes) :
    readControl (control.toByte :: rest) = (.ok control, rest) := by
  simp [readControl, ServiceControl.fromByte_toByte, noResponse, noBinding]

theorem decode_body (tidy : sda.Tidy)
    (shortFilter : sda.matchingFilter.length < 256) (shortInfo : sda.serviceInfo.length < 256) :
    decode sda.body = .ok sda := by
  have control := readControl_toByte tidy.noResponseFilter tidy.noBindingBitmap
  have filter := readOptional_optional shortFilter tidy.filterFlagged
  have info := readOptional_optional shortInfo tidy.infoFlagged []
  rw [List.append_nil] at info
  simp [decode, run, read, body, control, filter, info]

end ServiceDescriptor

structure ServiceIdList where
  ids : List ServiceId
  deriving DecidableEq

namespace ServiceIdList

def body (list : ServiceIdList) : Bytes := list.ids.flatMap Vector.toList

def encodeWith (list : ServiceIdList) (attrId : UInt8) : Bytes :=
  attrId :: (putLe16 (UInt16.ofNat (list.ids.length * 6)) ++ list.body)

def encodePublish (list : ServiceIdList) : Bytes :=
  list.encodeWith AttributeId.serviceIdList.toByte

def encodeSubscribe (list : ServiceIdList) : Bytes :=
  list.encodeWith AttributeId.subscribeServiceIdList.toByte

def readId : Reader.Consuming ServiceId where
  read := Reader.takeArray 6
  shorter := Reader.takeArray_shorter (by decide)

def decode (body : Bytes) : Except WireError ServiceIdList :=
  if body.length % 6 ≠ 0 then .error .invalid
  else
    match (Reader.untilEmpty readId body).1 with
    | .ok ids => .ok ⟨ids⟩
    | .error error => .error error

theorem length_body (list : ServiceIdList) : list.body.length = list.ids.length * 6 := by
  simp [body, List.length_flatMap]

theorem encodeWith_eq (list : ServiceIdList) (attrId : UInt8) :
    list.encodeWith attrId = (Attribute.mk attrId list.body).encode := by
  rw [encodeWith, Attribute.encode, length_body]

theorem decode_body (list : ServiceIdList) : decode list.body = .ok list := by
  have read := untilEmpty_flatMap readId Vector.toList
    (fun id (_ : id ∈ list.ids) => takeArray_append id)
  have whole : list.body.length % 6 = 0 := by
    rw [length_body]
    omega
  rw [decode, if_neg (fun broken => broken whole), body, read]

end ServiceIdList

structure DeviceCapability where
  mapId : UInt8
  committedDwInfo : UInt16
  supportedBands : UInt8
  operationMode : UInt8
  numAntennas : UInt8
  maxChannelSwitchTime : UInt16
  capabilities : UInt8
  deriving DecidableEq, Repr

namespace DeviceCapability

def basic : DeviceCapability where
  mapId := 0
  committedDwInfo := 0x0489
  supportedBands := 0x14
  operationMode := 0x15
  numAntennas := 0x11
  maxChannelSwitchTime := 0
  capabilities := 0

def body (dc : DeviceCapability) : Bytes :=
  dc.mapId :: (putLe16 dc.committedDwInfo ++ dc.supportedBands :: dc.operationMode ::
    dc.numAntennas :: (putLe16 dc.maxChannelSwitchTime ++ [dc.capabilities]))

def encode (dc : DeviceCapability) : Bytes :=
  AttributeId.deviceCapability.toByte :: (putLe16 9 ++ dc.body)

def read : Reader DeviceCapability := do
  let mapId ← Reader.u8
  let committedDwInfo ← Reader.le16
  let supportedBands ← Reader.u8
  let operationMode ← Reader.u8
  let numAntennas ← Reader.u8
  let maxChannelSwitchTime ← Reader.le16
  let capabilities ← Reader.u8
  return ⟨mapId, committedDwInfo, supportedBands, operationMode, numAntennas,
    maxChannelSwitchTime, capabilities⟩

def decode (body : Bytes) : Except WireError DeviceCapability := read.run body

def attr (dc : DeviceCapability) : Attribute := ⟨AttributeId.deviceCapability.toByte, dc.body⟩

theorem length_body (dc : DeviceCapability) : dc.body.length = 9 := by simp [body]

theorem encode_eq (dc : DeviceCapability) : dc.encode = dc.attr.encode := by
  rw [encode, Attribute.encode, attr, length_body]
  rfl

theorem decode_body (dc : DeviceCapability) : decode dc.attr.body = .ok dc := by
  simp [decode, run, read, attr, body]

end DeviceCapability

def availA : Bytes :=
  [0x8c, 0x02, 0x00, 0x0e, 0x00, 0x0a, 0x10, 0x18, 0x00, 0x04, 0xfc, 0xff, 0xff, 0x3f, 0x11,
    0x51, 0xff, 0x07, 0x00, 0x0e, 0x00, 0x0a, 0x10, 0x18, 0x00, 0x04, 0xfe, 0xff, 0xff, 0xff,
    0x11, 0x51, 0x20, 0x00, 0x00]

def availB : Bytes :=
  [0x8c, 0x01, 0x00, 0x0e, 0x00, 0x1a, 0x10, 0x18, 0x00, 0x04, 0xff, 0x00, 0xff, 0x00, 0x11,
    0x80, 0x01, 0x00, 0x02, 0x0e, 0x00, 0x0a, 0x10, 0x18, 0x00, 0x04, 0x00, 0xf0, 0x00, 0xff,
    0x11, 0x80, 0x20, 0x00, 0x01, 0x12, 0x00, 0x0a, 0x10, 0x18, 0x00, 0x04, 0x00, 0x0f, 0x00,
    0x00, 0x21, 0x80, 0x20, 0x00, 0x0f, 0x80, 0x01, 0x00, 0x0f]

def availability (body : Bytes) : Attribute := ⟨AttributeId.nanAvailability.toByte, body⟩

def encodeAvailability : Bytes :=
  [availA, availB].flatMap fun body =>
    AttributeId.nanAvailability.toByte :: (putLe16 (UInt16.ofNat body.length) ++ body)

theorem encodeAvailability_eq :
    encodeAvailability = [availability availA, availability availB].flatMap Attribute.encode := rfl

structure AvailabilityHeader where
  sequenceId : UInt8
  attributeControl : UInt16
  mapId : UInt8
  entryLength : UInt16
  entryControl : UInt16
  timeBitmapControl : UInt16
  timeBitmap : Bytes
  bandChannelControl : UInt8
  operatingClass : UInt8
  channelBitmap : UInt16
  deriving DecidableEq, Repr

namespace AvailabilityHeader

def read : Reader AvailabilityHeader := do
  let sequenceId ← Reader.u8
  let attributeControl ← Reader.le16
  let entryLength ← Reader.le16
  let entryControl ← Reader.le16
  let timeBitmapControl ← Reader.le16
  let tbLen ← Reader.u8
  let timeBitmap ← Reader.take tbLen.toNat
  let bandChannelControl ← Reader.u8
  let operatingClass ← Reader.u8
  let channelBitmap ← Reader.le16
  return ⟨sequenceId, attributeControl, (attributeControl &&& 0x0f).toUInt8, entryLength,
    entryControl, timeBitmapControl, timeBitmap, bandChannelControl, operatingClass,
    channelBitmap⟩

def decode (body : Bytes) : Except WireError AvailabilityHeader := read.run body

end AvailabilityHeader

structure Sdea where
  instanceId : UInt8
  control : UInt16
  deriving DecidableEq, Repr

namespace Sdea

def plain (instanceId : UInt8) : Sdea := ⟨instanceId, 0⟩

def body (sdea : Sdea) : Bytes := sdea.instanceId :: putLe16 sdea.control

def encode (sdea : Sdea) : Bytes :=
  AttributeId.serviceDescriptorExtension.toByte :: (putLe16 3 ++ sdea.body)

def read : Reader Sdea := do
  let instanceId ← Reader.u8
  let control ← Reader.le16
  return ⟨instanceId, control⟩

def decode (body : Bytes) : Except WireError Sdea := read.run body

def attr (sdea : Sdea) : Attribute :=
  ⟨AttributeId.serviceDescriptorExtension.toByte, sdea.body⟩

theorem encode_eq (sdea : Sdea) : sdea.encode = sdea.attr.encode := rfl

theorem decode_body (sdea : Sdea) : decode sdea.attr.body = .ok sdea := by
  simp [decode, run, read, attr, body]

end Sdea

end NdnExt.Nan
