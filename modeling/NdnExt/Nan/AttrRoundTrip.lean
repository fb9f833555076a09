import NdnExt.Nan.Ndpe

/-! What the attributes are decoded to that are encoded. -/

namespace NdnExt.Nan

open NdnExt.Lib

namespace NdpeTlv

def LengthFits : NdpeTlv → Prop
  | ipv6LinkLocal _ => True
  | serviceInfo _ body => 3 + body.length < 2 ^ 16
  | unknown _ body => body.length < 2 ^ 16

/-- An unknown type is none of the known ones. -/
def Named : NdpeTlv → Prop
  | unknown tlvType _ => tlvType ≠ 0 ∧ tlvType ≠ 1
  | _ => True

theorem fits_iff {tlv : NdpeTlv} : tlv.Fits ↔ tlv.LengthFits ∧ tlv.Named := by
  cases tlv <;> simp [Fits, LengthFits, Named, and_comm, and_left_comm]

/-- A TLV that is decoded is kept as unknown where its type is. -/
theorem named_of_ofBody {tlvType : UInt8} {body : Bytes} {tlv : NdpeTlv}
    (read : ofBody tlvType body = .ok tlv) : tlv.Named := by
  unfold ofBody at read
  split at read
  · split at read
    · cases read
      trivial
    · cases read
  · next other =>
    split at read
    · split at read
      · cases read
        trivial
      · cases read
    · next other' =>
      cases read
      exact ⟨other, other'⟩

end NdpeTlv

namespace Reader

theorem bind_eq_ok {α β : Type} {read : Reader α} {next : α → Reader β} {unread rest : Bytes}
    {value : β} (done : (read >>= next) unread = (.ok value, rest)) :
    ∃ first middle, read unread = (.ok first, middle) ∧ next first middle = (.ok value, rest) := by
  rw [bind_apply] at done
  split at done
  · next first middle taken => exact ⟨first, middle, taken, done⟩
  · cases done

/-- What holds of each item that is read holds of all. -/
theorem forall_of_untilEmpty {α : Type} {item : Consuming α} {P : α → Prop}
    (each : ∀ {unread rest value}, item.read unread = (.ok value, rest) → P value)
    {unread rest : Bytes} {values : List α}
    (read : untilEmpty item unread = (.ok values, rest)) : ∀ value ∈ values, P value := by
  induction values generalizing unread with
  | nil => exact List.forall_mem_nil _
  | cons value later ih =>
    rw [untilEmpty] at read
    split at read
    · cases read
    · split at read
      · next first middle taken =>
        split at read
        · next found left more =>
          cases read
          exact List.forall_mem_cons.mpr ⟨each taken, ih more⟩
        · cases read
      · cases read

end Reader

theorem NdpeTlv.named_of_decode {unread rest : Bytes} {tlv : NdpeTlv}
    (read : NdpeTlv.decode unread = (.ok tlv, rest)) : tlv.Named := by
  obtain ⟨tlvType, _, _, read⟩ := Reader.bind_eq_ok read
  obtain ⟨len, _, _, read⟩ := Reader.bind_eq_ok read
  obtain ⟨body, _, _, read⟩ := Reader.bind_eq_ok read
  exact NdpeTlv.named_of_ofBody (Prod.mk.inj read).1

namespace Ndpe

structure LengthsFit (ndpe : Ndpe) : Prop where
  tlvs : ∀ tlv ∈ ndpe.tlvs, tlv.LengthFits
  whole : ndpe.body.length < 2 ^ 16

/-- The bytes of the attribute after its header. -/
def encodedBody (ndpe : Ndpe) : Bytes := ndpe.encode.drop 3

/-- The control byte that is encoded. -/
def controlByte (ndpe : Ndpe) : Option UInt8 := ndpe.encodedBody[10]?

/-- The body is longer for the publish id. -/
def PublishIdWritten (ndpe : Ndpe) : Prop :=
  ndpe.encodedBody.length ≠ { ndpe with publishId := none }.encodedBody.length

def ResponderNdiWritten (ndpe : Ndpe) : Prop :=
  ndpe.encodedBody.length ≠ { ndpe with responderNdi := none }.encodedBody.length

/-- The presence bits are set for the fields whose bytes are in the body. -/
def HonestBits (ndpe : Ndpe) : Prop :=
  ∃ control, ndpe.controlByte = some control ∧
    ((control &&& NdpeControl.publishIdPresent != 0) = true ↔ ndpe.PublishIdWritten) ∧
    ((control &&& NdpeControl.responderNdiPresent != 0) = true ↔ ndpe.ResponderNdiWritten)

def OptionsInPlace (ndpe : Ndpe) : Prop :=
  (ndpe.publishId.isSome = true → ndpe.ndpType = .request) ∧
    (ndpe.responderNdi.isSome = true → carriesResponder ndpe.ndpType ndpe.status = true)

/-- A responder's data interface wherever there is room for it, a publish id on a request alone. -/
def Shaped (ndpe : Ndpe) : Prop :=
  ndpe.responderNdi.isSome = carriesResponder ndpe.ndpType ndpe.status ∧
    (ndpe.publishId.isSome = true → ndpe.ndpType = .request)

def presenceBits : UInt8 := NdpeControl.publishIdPresent ||| NdpeControl.responderNdiPresent

/-- The attribute is decoded to what it was but for the presence bits. -/
def RoundTrips (ndpe : Ndpe) : Prop :=
  ∃ decoded, decode ndpe.encodedBody = .ok decoded ∧
    decoded = { ndpe with control := decoded.control } ∧
    decoded.control &&& ~~~presenceBits = ndpe.control &&& ~~~presenceBits

theorem encodedBody_eq (ndpe : Ndpe) : ndpe.encodedBody = ndpe.body := rfl

theorem controlByte_eq (ndpe : Ndpe) : ndpe.controlByte = some ndpe.writtenControl := by
  unfold controlByte
  rw [encodedBody_eq, body]
  simp [List.getElem?_append]

def optionLength (present : Bool) (length : Nat) : Nat := if present then length else 0

theorem length_encodedBody (ndpe : Ndpe) : ndpe.encodedBody.length =
    11 + optionLength (ndpe.publishId.isSome && ndpe.ndpType == .request) 1 +
      optionLength (ndpe.responderNdi.isSome && carriesResponder ndpe.ndpType ndpe.status) 6 +
      (ndpe.tlvs.flatMap NdpeTlv.encode).length := by
  rw [encodedBody_eq, body]
  cases ndpe.publishId <;> cases ndpe.responderNdi <;>
    by_cases request : ndpe.ndpType = .request <;>
      cases carries : carriesResponder ndpe.ndpType ndpe.status <;>
        simp [optionLength, request] <;> omega

theorem publishIdWritten_iff (ndpe : Ndpe) :
    ndpe.PublishIdWritten ↔ ndpe.publishId.isSome = true ∧ ndpe.ndpType = .request := by
  unfold PublishIdWritten
  rw [length_encodedBody, length_encodedBody]
  cases ndpe.publishId <;> by_cases request : ndpe.ndpType = .request <;>
    simp [optionLength, request]

theorem responderNdiWritten_iff (ndpe : Ndpe) : ndpe.ResponderNdiWritten ↔
    ndpe.responderNdi.isSome = true ∧ carriesResponder ndpe.ndpType ndpe.status = true := by
  unfold ResponderNdiWritten
  rw [length_encodedBody, length_encodedBody]
  cases ndpe.responderNdi <;> cases carries : carriesResponder ndpe.ndpType ndpe.status <;>
    simp [optionLength]

theorem responderNdiPresent_writtenControl (ndpe : Ndpe) :
    (ndpe.writtenControl &&& NdpeControl.responderNdiPresent != 0) = ndpe.responderNdi.isSome := by
  have bits : ∀ responder : Bool, ∀ control : UInt8,
      ((if responder then control ||| 0x10 else control &&& ~~~0x10) &&& 0x10 != 0) =
        responder := by
    intro responder
    apply forall_byte
    cases responder <;> decide +kernel
  exact bits ndpe.responderNdi.isSome _

theorem honestBits_iff (ndpe : Ndpe) : ndpe.HonestBits ↔ ndpe.OptionsInPlace := by
  unfold HonestBits OptionsInPlace
  rw [controlByte_eq, publishIdWritten_iff, responderNdiWritten_iff]
  simp only [Option.some.injEq, exists_eq_left', publishIdPresent_writtenControl,
    responderNdiPresent_writtenControl]
  exact and_congr ⟨fun same present => (same.mp present).2,
      fun place => ⟨fun present => ⟨present, place present⟩, And.left⟩⟩
    ⟨fun same present => (same.mp present).2,
      fun place => ⟨fun present => ⟨present, place present⟩, And.left⟩⟩

/-- The other bits of the control byte are written as they are. -/
theorem writtenControl_masked (ndpe : Ndpe) :
    ndpe.writtenControl &&& ~~~presenceBits = ndpe.control &&& ~~~presenceBits := by
  have bits : ∀ publish responder : Bool, ∀ control : UInt8,
      (if responder then
          (if publish then control ||| 0x08 else control &&& ~~~0x08) ||| 0x10
        else (if publish then control ||| 0x08 else control &&& ~~~0x08) &&& ~~~0x10) &&&
        ~~~(0x08 ||| 0x10) = control &&& ~~~(0x08 ||| 0x10) := by
    intro publish responder
    apply forall_byte
    cases publish <;> cases responder <;> decide +kernel
  exact bits ndpe.publishId.isSome ndpe.responderNdi.isSome ndpe.control

theorem named_of_decode {body : Bytes} {ndpe : Ndpe} (decoded : decode body = .ok ndpe) :
    ∀ tlv ∈ ndpe.tlvs, tlv.Named := by
  have read : Ndpe.read body = (.ok ndpe, (Ndpe.read body).2) := Prod.ext decoded rfl
  iterate 10 obtain ⟨_, _, _, read⟩ := Reader.bind_eq_ok read
  obtain ⟨tlvs, _, items, read⟩ := Reader.bind_eq_ok read
  cases read
  exact Reader.forall_of_untilEmpty NdpeTlv.named_of_decode items

theorem roundTrips_iff {ndpe : Ndpe} (lengths : ndpe.LengthsFit) (shaped : ndpe.Shaped) :
    ndpe.RoundTrips ↔ ∀ tlv ∈ ndpe.tlvs, tlv.Named := by
  constructor
  · rintro ⟨decoded, decodes, same, _⟩
    have named := named_of_decode decodes
    rwa [same] at named
  · intro named
    have coherent : ndpe.Coherent := by
      refine ⟨shaped.2, shaped.1, ?_⟩
      intro tlv among
      exact NdpeTlv.fits_iff.mpr ⟨lengths.tlvs tlv among, named tlv among⟩
    exact ⟨_, decode_body coherent, rfl, ndpe.writtenControl_masked⟩

/-- Each option is on a message that has room for it, and where the attribute has the shape its
messages have no TLV of a known type is kept as unknown. -/
def WellFormed (ndpe : Ndpe) : Prop :=
  ndpe.OptionsInPlace ∧ (ndpe.Shaped → ∀ tlv ∈ ndpe.tlvs, tlv.Named)

end Ndpe

/-- A descriptor of those two builders, each used as often as one likes. -/
inductive ServiceDescriptor.Built : ServiceDescriptor → Prop where
  | new (serviceId : ServiceId) (instanceId requestorInstanceId : UInt8)
      (controlType : ServiceControlType) :
      Built { ServiceDescriptor.new serviceId instanceId controlType with
        requestorInstanceId := requestorInstanceId }
  | info {sda : ServiceDescriptor} (built : sda.Built) {ssi : Bytes} (short : ssi.length ≤ 255) :
      Built (sda.withServiceInfo ssi)
  | filter {sda : ServiceDescriptor} (built : sda.Built) {filter : Bytes}
      (short : filter.length ≤ 255) : Built (sda.withMatchingFilter filter)

namespace ServiceDescriptor

theorem Tidy.withMatchingFilter {sda : ServiceDescriptor} (tidy : sda.Tidy) (filter : Bytes) :
    (sda.withMatchingFilter filter).Tidy := by
  refine ⟨tidy.noResponseFilter, tidy.noBindingBitmap, ?_, tidy.infoFlagged⟩
  intro absent
  simpa [ServiceDescriptor.withMatchingFilter] using absent

theorem Built.tidy {sda : ServiceDescriptor} (built : sda.Built) :
    sda.Tidy ∧ sda.matchingFilter.length ≤ 255 ∧ sda.serviceInfo.length ≤ 255 := by
  induction built with
  | new serviceId instanceId requestorInstanceId controlType =>
    exact ⟨⟨rfl, rfl, fun _ => rfl, fun _ => rfl⟩, Nat.zero_le _, Nat.zero_le _⟩
  | info built short ih => exact ⟨ih.1.withServiceInfo _, ih.2.1, short⟩
  | filter built short ih => exact ⟨ih.1.withMatchingFilter _, short, ih.2.2⟩

end ServiceDescriptor

/-- An attribute of the data path has the presence bits of what is in it and is decoded to what it
was exactly where it is well formed; the other ones are decoded to what they were. -/
theorem attributes_round_trip_iff (ndpe : Ndpe) (lengths : ndpe.LengthsFit) :
    (ndpe.HonestBits ∧ (ndpe.Shaped → ndpe.RoundTrips) ↔ ndpe.WellFormed) ∧
    (∀ sda : ServiceDescriptor, sda.Built →
      ServiceDescriptor.decode (sda.encode.drop 3) = .ok sda) ∧
    (∀ (list : ServiceIdList) (attrId : UInt8),
      ServiceIdList.decode ((list.encodeWith attrId).drop 3) = .ok list) ∧
    (∀ dc : DeviceCapability, DeviceCapability.decode (dc.encode.drop 3) = .ok dc) ∧
    (∀ mi : MasterIndication, MasterIndication.decode (mi.encode.drop 3) = .ok mi) ∧
    (∀ c : Cluster, Cluster.decode (c.encode.drop 3) = .ok c) ∧
    ∀ sdea : Sdea, Sdea.decode (sdea.encode.drop 3) = .ok sdea := by
  refine ⟨?_, ?_, ?_, ?_, ?_, ?_, ?_⟩
  · rw [ndpe.honestBits_iff]
    exact and_congr_right fun _ => forall_congr' fun shaped => Ndpe.roundTrips_iff lengths shaped
  · intro sda built
    obtain ⟨tidy, filter, info⟩ := built.tidy
    exact ServiceDescriptor.decode_body tidy (Nat.lt_succ_of_le filter) (Nat.lt_succ_of_le info)
  · exact fun list attrId => list.decode_body
  · exact fun dc => dc.decode_body
  · exact fun mi => mi.decode_body
  · exact fun c => c.decode_body
  · exact fun sdea => sdea.decode_body

namespace PublishOnConfirm

/-- A confirmation that names a publish session. -/
def confirm : Ndpe :=
  { Ndpe.confirm 1 1 (.replicate 6 2) with publishId := some 7 }

theorem bit_without_byte : ¬∀ ndpe : Ndpe, ndpe.LengthsFit →
    ndpe.HonestBits ∧ (ndpe.Shaped → ndpe.RoundTrips) := by
  intro always
  have fits : confirm.LengthsFit := ⟨List.forall_mem_nil _, by decide⟩
  obtain ⟨control, written, publish, _⟩ := (always confirm fits).1
  cases written
  have present := publish.mp (by decide)
  exact absurd present (by unfold Ndpe.PublishIdWritten; decide)

end PublishOnConfirm

namespace PublishOnRequest

def request : Ndpe :=
  { Ndpe.request 1 1 (.replicate 6 2) (.replicate 8 3) with publishId := some 7 }

theorem request_round_trips : request.HonestBits ∧ (request.Shaped → request.RoundTrips) := by
  have lengths : request.LengthsFit :=
    ⟨by simp [request, Ndpe.request, NdpeTlv.LengthFits], by decide⟩
  refine (attributes_round_trip_iff request lengths).1.mpr ⟨⟨?_, ?_⟩, ?_⟩
  · exact fun _ => rfl
  · intro impossible
    cases impossible
  · simp [request, Ndpe.request, NdpeTlv.Named]

end PublishOnRequest

end NdnExt.Nan
