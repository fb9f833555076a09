import NdnExt.Nan.Attr

/-! The NAN Data Path Extension attribute: the messages that set a data path up. -/

namespace NdnExt.Nan

open Reader

inductive NdpType where
  | request
  | response
  | confirm
  | securityInstall
  | terminate
  deriving DecidableEq, Repr

namespace NdpType

def toByte : NdpType → UInt8
  | request => 0
  | response => 1
  | confirm => 2
  | securityInstall => 3
  | terminate => 4

def fromBits (b : UInt8) : Option NdpType :=
  match (b &&& 0x0f).toNat with
  | 0 => some request
  | 1 => some response
  | 2 => some confirm
  | 3 => some securityInstall
  | 4 => some terminate
  | _ => none

end NdpType

/-- `continue` is a keyword: the status `Continue` is `continuing` here. -/
inductive NdpStatus where
  | continuing
  | accepted
  | rejected
  deriving DecidableEq, Repr

namespace NdpStatus

def toByte : NdpStatus → UInt8
  | continuing => 0
  | accepted => 1
  | rejected => 2

def fromBits (b : UInt8) : Option NdpStatus :=
  match ((b >>> 4) &&& 0x0f).toNat with
  | 0 => some continuing
  | 1 => some accepted
  | 2 => some rejected
  | _ => none

end NdpStatus

namespace NdpeControl

def confirmRequired : UInt8 := 0x01

def publishIdPresent : UInt8 := 0x08

def responderNdiPresent : UInt8 := 0x10

end NdpeControl

inductive NdpeTlv where
  | ipv6LinkLocal (iid : Vector UInt8 8)
  | serviceInfo (oui : Vector UInt8 3) (body : Bytes)
  | unknown (tlvType : UInt8) (body : Bytes)
  deriving DecidableEq

namespace NdpeTlv

def tlvType : NdpeTlv → UInt8
  | ipv6LinkLocal _ => 0
  | serviceInfo _ _ => 1
  | unknown tlvType _ => tlvType

def encode (tlv : NdpeTlv) : Bytes :=
  tlv.tlvType ::
    match tlv with
    | ipv6LinkLocal iid => putLe16 8 ++ iid.toList
    | serviceInfo oui body => putLe16 (UInt16.ofNat (3 + body.length)) ++ oui.toList ++ body
    | unknown _ body => putLe16 (UInt16.ofNat body.length) ++ body

/-- The value of a TLV of the given type. -/
def ofBody (tlvType : UInt8) (body : Bytes) : Except WireError NdpeTlv :=
  if tlvType = 0 then
    if exact' : body.length = 8 then .ok (ipv6LinkLocal ⟨body.toArray, by simp [exact']⟩)
    else .error .invalid
  else if tlvType = 1 then
    if enough : 3 ≤ body.length then
      .ok (serviceInfo ⟨(body.take 3).toArray, by simp [enough]⟩ (body.drop 3))
    else .error .invalid
  else .ok (unknown tlvType body)

def decode : Reader NdpeTlv := do
  let tlvType ← Reader.u8
  let len ← Reader.le16
  let body ← Reader.take len.toNat
  Reader.ofExcept (ofBody tlvType body)

theorem decode_shorter {unread rest : Bytes} {tlv : NdpeTlv}
    (read : decode unread = (.ok tlv, rest)) : rest.length < unread.length := by
  cases unread with
  | nil => cases read
  | cons b tail =>
    have length := Attributes.le16_shorter tail
    simp only [decode, bind_apply, u8_cons] at read
    split at read
    · next len unread' taken =>
      rw [taken] at length
      have further := Attributes.take_shorter len.toNat unread'
      split at read
      · next body unread'' taken' =>
        rw [taken'] at further
        rw [ofExcept_apply, Prod.mk.injEq] at read
        rw [← read.2]
        exact Nat.lt_succ_of_le (Nat.le_trans further length)
      · cases read
    · cases read

def item : Reader.Consuming NdpeTlv where
  read := decode
  shorter := decode_shorter

/-- The length fits its field, and an unknown type is none of the known ones. -/
def Fits : NdpeTlv → Prop
  | ipv6LinkLocal _ => True
  | serviceInfo _ body => 3 + body.length < 2 ^ 16
  | unknown tlvType body => tlvType ≠ 0 ∧ tlvType ≠ 1 ∧ body.length < 2 ^ 16

theorem decode_encode {tlv : NdpeTlv} (fits : tlv.Fits) (rest : Bytes) :
    decode (tlv.encode ++ rest) = (.ok tlv, rest) := by
  cases tlv with
  | ipv6LinkLocal iid =>
    have length : (8 : UInt16).toNat = 8 := rfl
    have taken := take_append iid.length_toList rest
    simp [decode, encode, tlvType, length, taken, ofBody]
  | serviceInfo oui body =>
    have length : (UInt16.ofNat (3 + body.length)).toNat = 3 + body.length :=
      UInt16.toNat_ofNat_of_lt' fits
    have size : (oui.toList ++ body).length = 3 + body.length := by simp
    have taken := take_append size rest
    rw [List.append_assoc] at taken
    have front : (oui.toList ++ body).take 3 = oui.toList := List.take_left' oui.length_toList
    have back : (oui.toList ++ body).drop 3 = body := List.drop_left' oui.length_toList
    simp only [decode, encode, tlvType, List.cons_append, List.append_assoc,
      bind_apply, u8_cons, le16_append, length, taken, ofBody]
    simp [front, back]
  | unknown tlvType body =>
    have length : (UInt16.ofNat body.length).toNat = body.length :=
      UInt16.toNat_ofNat_of_lt' fits.2.2
    simp [decode, encode, NdpeTlv.tlvType, length, take_append, ofBody, fits.1, fits.2.1]

end NdpeTlv

structure Ndpe where
  dialogToken : UInt8
  ndpType : NdpType
  status : NdpStatus
  reasonCode : UInt8
  initiatorNdi : Mac
  ndpId : UInt8
  control : UInt8
  publishId : Option UInt8
  responderNdi : Option Mac
  tlvs : List NdpeTlv
  deriving DecidableEq

namespace Ndpe

def request (dialogToken ndpId : UInt8) (initiatorNdi : Mac) (iid : Vector UInt8 8) : Ndpe where
  dialogToken := dialogToken
  ndpType := .request
  status := .continuing
  reasonCode := 0
  initiatorNdi := initiatorNdi
  ndpId := ndpId
  control := NdpeControl.confirmRequired
  publishId := none
  responderNdi := none
  tlvs := [.ipv6LinkLocal iid]

def accept (dialogToken ndpId : UInt8) (initiatorNdi responderNdi : Mac) (iid : Vector UInt8 8) :
    Ndpe where
  dialogToken := dialogToken
  ndpType := .response
  status := .accepted
  reasonCode := 0
  initiatorNdi := initiatorNdi
  ndpId := ndpId
  control := NdpeControl.responderNdiPresent
  publishId := none
  responderNdi := some responderNdi
  tlvs := [.ipv6LinkLocal iid]

def confirm (dialogToken ndpId : UInt8) (initiatorNdi : Mac) : Ndpe where
  dialogToken := dialogToken
  ndpType := .confirm
  status := .accepted
  reasonCode := 0
  initiatorNdi := initiatorNdi
  ndpId := ndpId
  control := 0
  publishId := none
  responderNdi := none
  tlvs := []

def ipv6Iid (ndpe : Ndpe) : Option (Vector UInt8 8) :=
  ndpe.tlvs.findSome? fun
    | .ipv6LinkLocal iid => some iid
    | _ => none

def typeStatus (ndpType : NdpType) (status : NdpStatus) : UInt8 :=
  (ndpType.toByte &&& 0x0f) ||| ((status.toByte &&& 0x0f) <<< (4 : UInt8))

/-- The control byte that is written: its presence bits are those of the fields. -/
def writtenControl (ndpe : Ndpe) : UInt8 :=
  let control :=
    if ndpe.publishId.isSome then ndpe.control ||| NdpeControl.publishIdPresent
    else ndpe.control &&& ~~~NdpeControl.publishIdPresent
  if ndpe.responderNdi.isSome then control ||| NdpeControl.responderNdiPresent
  else control &&& ~~~NdpeControl.responderNdiPresent

/-- Where the attribute has room for the responder's data interface. -/
def carriesResponder (ndpType : NdpType) (status : NdpStatus) : Bool :=
  ndpType == .response && (status == .continuing || status == .accepted)

def body (ndpe : Ndpe) : Bytes :=
  ndpe.dialogToken :: typeStatus ndpe.ndpType ndpe.status :: ndpe.reasonCode ::
    (ndpe.initiatorNdi.toList ++ ndpe.ndpId :: ndpe.writtenControl ::
      ((match ndpe.publishId with
        | some id => if ndpe.ndpType = .request then [id] else []
        | none => []) ++
      ((match ndpe.responderNdi with
        | some ndi => if carriesResponder ndpe.ndpType ndpe.status then ndi.toList else []
        | none => []) ++
      ndpe.tlvs.flatMap NdpeTlv.encode)))

def encode (ndpe : Ndpe) : Bytes :=
  AttributeId.ndpExtension.toByte :: (putLe16 (UInt16.ofNat ndpe.body.length) ++ ndpe.body)

def attr (ndpe : Ndpe) : Attribute := ⟨AttributeId.ndpExtension.toByte, ndpe.body⟩

theorem encode_eq (ndpe : Ndpe) : ndpe.encode = ndpe.attr.encode := rfl

/-- `condition.then(|| read).transpose()?`. -/
def readWhen {α : Type} (condition : Bool) (read : Reader α) : Reader (Option α) :=
  if condition then do
    let value ← read
    return some value
  else pure none

def orInvalid {α : Type} : Option α → Reader α
  | some value => pure value
  | none => Reader.fail .invalid

def read : Reader Ndpe := do
  let dialogToken ← Reader.u8
  let typeStatus ← Reader.u8
  let ndpType ← orInvalid (NdpType.fromBits typeStatus)
  let status ← orInvalid (NdpStatus.fromBits typeStatus)
  let reasonCode ← Reader.u8
  let initiatorNdi ← Reader.takeArray 6
  let ndpId ← Reader.u8
  let control ← Reader.u8
  let publishId ← readWhen
    (control &&& NdpeControl.publishIdPresent != 0 && ndpType == .request) Reader.u8
  let responderNdi ← readWhen (carriesResponder ndpType status) (Reader.takeArray 6)
  let tlvs ← Reader.untilEmpty NdpeTlv.item
  return ⟨dialogToken, ndpType, status, reasonCode, initiatorNdi, ndpId, control, publishId,
    responderNdi, tlvs⟩

def decode (body : Bytes) : Except WireError Ndpe := read.run body

/-- Every field has its place in the attribute, and every TLV its length. -/
structure Coherent (ndpe : Ndpe) : Prop where
  publishOnRequest : ndpe.publishId.isSome = true → ndpe.ndpType = .request
  responderInPlace : ndpe.responderNdi.isSome = carriesResponder ndpe.ndpType ndpe.status
  tlvsFit : ∀ tlv ∈ ndpe.tlvs, tlv.Fits

theorem fromBits_typeStatus (ndpType : NdpType) (status : NdpStatus) :
    NdpType.fromBits (typeStatus ndpType status) = some ndpType ∧
      NdpStatus.fromBits (typeStatus ndpType status) = some status := by
  cases ndpType <;> cases status <;> exact ⟨rfl, rfl⟩

/-- What holds of every byte by looking at each. -/
theorem forall_byte {P : UInt8 → Prop} (all : ∀ n : Fin 256, P (UInt8.ofNat n)) (b : UInt8) :
    P b := by
  have this := all ⟨b.toNat, b.toNat_lt⟩
  rwa [UInt8.ofNat_toNat] at this

theorem publishIdPresent_writtenControl (ndpe : Ndpe) :
    (ndpe.writtenControl &&& NdpeControl.publishIdPresent != 0) = ndpe.publishId.isSome := by
  have bits : ∀ publish responder : Bool, ∀ control : UInt8,
      ((if responder then
          (if publish then control ||| 0x08 else control &&& ~~~0x08) ||| 0x10
        else (if publish then control ||| 0x08 else control &&& ~~~0x08) &&& ~~~0x10) &&&
        0x08 != 0) = publish := by
    intro publish responder
    apply forall_byte
    cases publish <;> cases responder <;> decide +kernel
  exact bits ndpe.publishId.isSome ndpe.responderNdi.isSome ndpe.control

theorem readWhen_publishId {ndpe : Ndpe} (coherent : ndpe.Coherent) (rest : Bytes) :
    readWhen (ndpe.writtenControl &&& NdpeControl.publishIdPresent != 0 &&
        ndpe.ndpType == .request) u8
        ((match ndpe.publishId with
          | some id => if ndpe.ndpType = .request then [id] else []
          | none => []) ++ rest) = (.ok ndpe.publishId, rest) := by
  rw [publishIdPresent_writtenControl]
  cases present : ndpe.publishId with
  | none => simp [readWhen]
  | some id =>
    have request := coherent.publishOnRequest (by rw [present]; rfl)
    simp [readWhen, request]

theorem readWhen_responderNdi {ndpe : Ndpe} (coherent : ndpe.Coherent) (rest : Bytes) :
    readWhen (carriesResponder ndpe.ndpType ndpe.status) (takeArray 6)
        ((match ndpe.responderNdi with
          | some ndi => if carriesResponder ndpe.ndpType ndpe.status then ndi.toList else []
          | none => []) ++ rest) = (.ok ndpe.responderNdi, rest) := by
  have place := coherent.responderInPlace
  cases present : ndpe.responderNdi with
  | none =>
    rw [present] at place
    simp [readWhen, ← place]
  | some ndi =>
    rw [present] at place
    simp [readWhen, ← place]

theorem decode_body {ndpe : Ndpe} (coherent : ndpe.Coherent) :
    decode ndpe.body = .ok { ndpe with control := ndpe.writtenControl } := by
  have bits := fromBits_typeStatus ndpe.ndpType ndpe.status
  have publish := readWhen_publishId coherent
  have responder := readWhen_responderNdi coherent
  have tlvs := untilEmpty_flatMap NdpeTlv.item NdpeTlv.encode
    (fun tlv found => NdpeTlv.decode_encode (coherent.tlvsFit tlv found))
  simp [decode, run, read, body, bits, orInvalid, publish, responder, tlvs]

theorem coherent_request (dialogToken ndpId : UInt8) (ndi : Mac) (iid : Vector UInt8 8) :
    (request dialogToken ndpId ndi iid).Coherent :=
  ⟨nofun, rfl, by simp [request, NdpeTlv.Fits]⟩

theorem coherent_accept (dialogToken ndpId : UInt8) (initiatorNdi responderNdi : Mac)
    (iid : Vector UInt8 8) :
    (accept dialogToken ndpId initiatorNdi responderNdi iid).Coherent :=
  ⟨nofun, rfl, by simp [accept, NdpeTlv.Fits]⟩

/-- A confirm, and the rejection and the termination that are made of one. -/
theorem coherent_confirm (dialogToken ndpId : UInt8) (ndi : Mac) {ndpType : NdpType}
    {status : NdpStatus} (noResponder : carriesResponder ndpType status = false) :
    Coherent { confirm dialogToken ndpId ndi with ndpType := ndpType, status := status } :=
  ⟨nofun, noResponder.symm, by simp [confirm]⟩

end Ndpe

end NdnExt.Nan
