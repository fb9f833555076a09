import NdnExt.Nan.DataPath

/-! What the frames of an engine say: a beacon lists service ids, a discovery frame carries service
descriptors, an action frame a data-path attribute. -/

namespace NdnExt.Nan

open Attribute List AttributeId Attributes

/-- The decoder of its id accepts the attribute's body. -/
def Attribute.decodes (attr : Attribute) : Bool :=
  if attr.is .masterIndication then (MasterIndication.decode attr.body).isOk
  else if attr.is .cluster then (Cluster.decode attr.body).isOk
  else if attr.is .serviceIdList || attr.is .subscribeServiceIdList then
    (ServiceIdList.decode attr.body).isOk
  else if attr.is .serviceDescriptor then (ServiceDescriptor.decode attr.body).isOk
  else if attr.is .serviceDescriptorExtension then (Sdea.decode attr.body).isOk
  else if attr.is .deviceCapability then (DeviceCapability.decode attr.body).isOk
  else if attr.is .nanAvailability then (AvailabilityHeader.decode attr.body).isOk
  else if attr.is .ndpExtension then (Ndpe.decode attr.body).isOk
  else true

def readable : Except WireError Attribute → Bool
  | .ok attr => attr.decodes
  | .error _ => false

/-- The frame is classified, and every attribute in it can be read. -/
def accepted (bytes : Bytes) : Bool :=
  match classify bytes with
  | .ok frame => (Attributes.items frame.attributes).all readable
  | .error _ => false

/-- The service ids that a beacon lists under an attribute. -/
def listedIds (which : AttributeId) (bytes : Bytes) : List ServiceId :=
  match classify bytes with
  | .ok ⟨_, .beacon, attributes⟩ =>
    match (Attributes.find attributes which).bind fun attr =>
        (ServiceIdList.decode attr.body).toOption with
    | some list => list.ids
    | none => []
  | _ => []

/-- The service descriptors that a discovery frame carries. -/
def spoken (bytes : Bytes) : List ServiceDescriptor :=
  match classify bytes with
  | .ok ⟨_, .action, attributes⟩ => NanEngine.descriptors attributes
  | _ => []

/-- A frame's attributes: each has the length it says, and can be read. -/
structure Sound (attrs : List Attribute) : Prop where
  fits : ∀ attr ∈ attrs, attr.Fits
  decodes : ∀ attr ∈ attrs, attr.decodes = true

theorem Sound.nil : Sound [] := ⟨nofun, nofun⟩

theorem Sound.append {left right : List Attribute} (sound : Sound left) (sound' : Sound right) :
    Sound (left ++ right) := by
  constructor
  · intro attr found
    exact (mem_append.mp found).elim (sound.fits attr) (sound'.fits attr)
  · intro attr found
    exact (mem_append.mp found).elim (sound.decodes attr) (sound'.decodes attr)

theorem Sound.single {attr : Attribute} (fits : attr.Fits) (decodes : attr.decodes = true) :
    Sound [attr] := by
  constructor
  · intro found same
    rwa [mem_singleton.mp same]
  · intro found same
    rwa [mem_singleton.mp same]

theorem Sound.flatMap {α : Type} {values : List α} {attrs : α → List Attribute}
    (sound : ∀ value ∈ values, Sound (attrs value)) : Sound (values.flatMap attrs) := by
  constructor
  · intro attr found
    rcases mem_flatMap.mp found with ⟨value, mem, found⟩
    exact (sound value mem).fits attr found
  · intro attr found
    rcases mem_flatMap.mp found with ⟨value, mem, found⟩
    exact (sound value mem).decodes attr found

theorem Sound.items {attrs : List Attribute} (sound : Sound attrs) :
    (items (attrs.flatMap encode)).all readable = true := by
  rw [items_flatMap sound.fits, all_map, all_eq_true]
  exact sound.decodes

theorem MasterIndication.sound (mi : MasterIndication) : Sound [mi.attr] :=
  Sound.single (by simp [Attribute.Fits, attr]) (by
    simp [decodes, is, attr, toByte]
    rfl)

theorem Cluster.sound (c : Cluster) : Sound [c.attr] := by
  have decoded := c.decode_body
  refine Sound.single ?_ ?_
  · simp [Attribute.Fits, attr, length_body]
  · simp [decodes, is, toByte, attr] at decoded ⊢
    rw [decoded]
    rfl

theorem DeviceCapability.sound (dc : DeviceCapability) : Sound [dc.attr] := by
  have decoded := dc.decode_body
  refine Sound.single ?_ ?_
  · simp [Attribute.Fits, attr, length_body]
  · simp [decodes, is, toByte, attr] at decoded ⊢
    rw [decoded]
    rfl

theorem Sdea.sound (sdea : Sdea) : Sound [sdea.attr] := by
  have decoded := sdea.decode_body
  refine Sound.single ?_ ?_
  · simp [Attribute.Fits, attr, body]
  · simp [decodes, is, toByte, attr] at decoded ⊢
    rw [decoded]
    rfl

theorem availability_sound : Sound [availability availA, availability availB] := by
  refine Sound.append (Sound.single ?_ ?_) (Sound.single ?_ ?_)
  · simp [Attribute.Fits, availability, availA]
  · rfl
  · simp [Attribute.Fits, availability, availB]
  · rfl

theorem ServiceDescriptor.length_body {sda : ServiceDescriptor} :
    sda.body.length ≤ 11 + sda.matchingFilter.length + sda.serviceInfo.length := by
  cases filter : sda.control.matchingFilterPresent <;>
    cases info : sda.control.serviceInfoPresent <;>
      simp [body, optional, filter, info] <;> omega

theorem ServiceDescriptor.sound {sda : ServiceDescriptor} (tidy : sda.Tidy)
    (shortFilter : sda.matchingFilter.length < 256) (shortInfo : sda.serviceInfo.length < 256) :
    Sound [sda.attr] := by
  have decoded := decode_body tidy shortFilter shortInfo
  have length := sda.length_body
  refine Sound.single ?_ ?_
  · simp only [Attribute.Fits, attr]
    omega
  · simp [decodes, is, toByte, attr, decoded]
    rfl

theorem ServiceIdList.sound {list : ServiceIdList} {which : AttributeId}
    (isList : which = .serviceIdList ∨ which = .subscribeServiceIdList)
    (fits : list.ids.length * 6 < 2 ^ 16) : Sound [⟨which.toByte, list.body⟩] := by
  have decoded := list.decode_body
  refine Sound.single ?_ ?_
  · rw [Attribute.Fits, length_body]
    exact fits
  · rcases isList with rfl | rfl
    · simp [decodes, is, toByte, decoded]
      rfl
    · simp [decodes, is, toByte, decoded]
      rfl

theorem Ndpe.sound {ndpe : Ndpe} (coherent : ndpe.Coherent) (fits : ndpe.body.length < 2 ^ 16) :
    Sound [ndpe.attr] := by
  have decoded := decode_body coherent
  refine Sound.single fits ?_
  simp [decodes, is, toByte, attr, decoded]
  rfl

/-! ### Beacons -/

namespace NanEngine

variable (engine : NanEngine)

def idList (which : AttributeId) (ids : List ServiceId) : List Attribute :=
  if ids = [] then [] else [⟨which.toByte, (ServiceIdList.mk ids).body⟩]

def beaconAttrs (timestamp : UInt64) : List Attribute :=
  [(MasterIndication.mk engine.cfg.masterPreference engine.cfg.randomFactor).attr,
    (Cluster.mk engine.clusterAmr 0 timestamp.toUInt32).attr] ++
  idList .serviceIdList (engine.idsOf .publish) ++
  idList .subscribeServiceIdList (engine.idsOf .subscribe)

theorem beaconAttributes_eq (timestamp : UInt64) :
    engine.beaconAttributes timestamp =
    (engine.beaconAttrs timestamp).flatMap encode := by
  have publish : ∀ ids : List ServiceId,
      (if ids = [] then [] else (ServiceIdList.mk ids).encodePublish) =
        (idList .serviceIdList ids).flatMap encode := by
    intro ids
    by_cases empty : ids = []
    · simp [idList, empty]
    · simp [idList, empty, ServiceIdList.encodePublish, ServiceIdList.encodeWith_eq]
  have subscribe : ∀ ids : List ServiceId,
      (if ids = [] then [] else (ServiceIdList.mk ids).encodeSubscribe) =
        (idList .subscribeServiceIdList ids).flatMap encode := by
    intro ids
    by_cases empty : ids = []
    · simp [idList, empty]
    · simp [idList, empty, ServiceIdList.encodeSubscribe, ServiceIdList.encodeWith_eq]
  rw [beaconAttributes, publish, subscribe, MasterIndication.encode_eq, Cluster.encode_eq,
    beaconAttrs]
  simp only [flatMap_append, flatMap_cons, flatMap_nil, append_nil]

theorem length_idList (which : AttributeId) (ids : List ServiceId) :
    ((idList which ids).flatMap encode).length =
      if ids = [] then 0 else 3 + 6 * ids.length := by
  by_cases empty : ids = []
  · simp [idList, empty]
  · simp [idList, empty, encode, ServiceIdList.length_body]
    omega

theorem length_beaconAttributes (timestamp : UInt64) :
    (engine.beaconAttributes timestamp).length =
      21 + (if engine.idsOf .publish = [] then 0 else 3 + 6 * (engine.idsOf .publish).length) +
        (if engine.idsOf .subscribe = [] then 0
          else 3 + 6 * (engine.idsOf .subscribe).length) := by
  rw [beaconAttributes_eq, beaconAttrs, flatMap_append, flatMap_append,
    length_append, length_append, length_idList, length_idList]
  simp [encode, MasterIndication.attr, Cluster.attr, Cluster.length_body]

theorem length_idsOf :
    (engine.idsOf .publish).length +
    (engine.idsOf .subscribe).length = engine.functions.length := by
  rw [idsOf, idsOf, length_map, length_map]
  induction engine.functions with
  | nil => rfl
  | cons f fs ih =>
    cases kind : f.kind <;> simp [kind] <;> omega

/-- The most functions whose ids a beacon has room for, of either kind or of both. -/
def maxFunctions : Nat := 37

theorem beaconAttributes_short_iff (timestamp : UInt64) :
    (engine.beaconAttributes timestamp).length ≤ maxBeaconAttributes ↔
      engine.functions.length ≤ maxFunctions := by
  have total := engine.length_idsOf
  rw [length_beaconAttributes, maxBeaconAttributes, maxFunctions]
  simp only [← length_eq_zero_iff]
  split <;> split <;> omega

theorem beaconAttrs_sound (few : engine.functions.length ≤ maxFunctions) (timestamp : UInt64) :
    Sound (engine.beaconAttrs timestamp) := by
  have total := engine.length_idsOf
  rw [maxFunctions] at few
  have list : ∀ which ids, (which = .serviceIdList ∨ which = .subscribeServiceIdList) →
      ids.length ≤ 37 → Sound (idList which ids) := by
    intro which ids isList short
    rw [idList]
    split
    · exact Sound.nil
    · exact ServiceIdList.sound isList (by dsimp only; omega)
  have fixed : Sound
      [(MasterIndication.mk engine.cfg.masterPreference engine.cfg.randomFactor).attr,
        (Cluster.mk engine.clusterAmr 0 timestamp.toUInt32).attr] :=
    Sound.append (MasterIndication.sound _) (Cluster.sound _)
  exact (fixed.append (list _ _ (Or.inl rfl) (by omega))).append
    (list _ _ (Or.inr rfl) (by omega))

/-- What the beacon that `emitBeacon` sends is. -/
def beaconFrame (now : Usec) : Bytes :=
  (NanBeacon.new broadcast engine.cfg.nmi engine.clusterId engine.seq (engine.syncedUsec now)
    syncBeaconIntervalTu).encode (engine.beaconAttributes (engine.syncedUsec now))

theorem classify_beaconFrame (few : engine.functions.length ≤ maxFunctions) (now : Usec) :
    ∃ header, classify (engine.beaconFrame now) =
      .ok ⟨header, .beacon, engine.beaconAttributes (engine.syncedUsec now)⟩ :=
  ⟨_, classify_beacon rfl ((engine.beaconAttributes_short_iff _).mpr few)⟩

theorem accepted_beaconFrame (few : engine.functions.length ≤ maxFunctions) (now : Usec) :
    accepted (engine.beaconFrame now) = true := by
  rcases engine.classify_beaconFrame few now with ⟨header, classified⟩
  rw [accepted, classified]
  rw [beaconAttributes_eq]
  exact (engine.beaconAttrs_sound few _).items

theorem spoken_beaconFrame (few : engine.functions.length ≤ maxFunctions) (now : Usec) :
    spoken (engine.beaconFrame now) = [] := by
  rcases engine.classify_beaconFrame few now with ⟨header, classified⟩
  rw [spoken, classified]

theorem find_idList (which : AttributeId) (ids : List ServiceId) :
    (idList which ids).find? (·.is which) =
      if ids = [] then none else some ⟨which.toByte, (ServiceIdList.mk ids).body⟩ := by
  by_cases empty : ids = []
  · simp [idList, empty]
  · simp [idList, empty, is]

theorem find_idList_other {which other : AttributeId} (differs : which.toByte ≠ other.toByte)
    (ids : List ServiceId) : (idList which ids).find? (·.is other) = none := by
  by_cases empty : ids = []
  · simp [idList, empty]
  · simp [idList, empty, is, differs]

theorem listed_decoded (which : AttributeId) (ids : List ServiceId) :
    (match (if ids = [] then none
        else some (Attribute.mk which.toByte (ServiceIdList.mk ids).body)).bind fun attr =>
          (ServiceIdList.decode attr.body).toOption with
      | some list => list.ids
      | none => []) = ids := by
  by_cases empty : ids = []
  · simp [empty]
  · simp [empty, ServiceIdList.decode_body, Except.toOption]

theorem listedIds_publish (few : engine.functions.length ≤ maxFunctions) (now : Usec) :
    listedIds .serviceIdList (engine.beaconFrame now) = engine.idsOf .publish := by
  rcases engine.classify_beaconFrame few now with ⟨header, classified⟩
  have sound := engine.beaconAttrs_sound few (engine.syncedUsec now)
  have found : find (engine.beaconAttributes (engine.syncedUsec now)) .serviceIdList =
      if engine.idsOf .publish = [] then none
      else some ⟨serviceIdList.toByte, (ServiceIdList.mk (engine.idsOf .publish)).body⟩ := by
    rw [find, beaconAttributes_eq, flatten_flatMap sound.fits, beaconAttrs,
      List.find?_append, List.find?_append, find_idList,
      find_idList_other (by decide : subscribeServiceIdList.toByte ≠ _)]
    simp [is, MasterIndication.attr, Cluster.attr, toByte]
  rw [listedIds, classified]
  dsimp only
  rw [found]
  exact listed_decoded _ _

theorem listedIds_subscribe (few : engine.functions.length ≤ maxFunctions) (now : Usec) :
    listedIds .subscribeServiceIdList (engine.beaconFrame now) = engine.idsOf .subscribe := by
  rcases engine.classify_beaconFrame few now with ⟨header, classified⟩
  have sound := engine.beaconAttrs_sound few (engine.syncedUsec now)
  have found : find (engine.beaconAttributes (engine.syncedUsec now))
      .subscribeServiceIdList = if engine.idsOf .subscribe = [] then none
      else some ⟨subscribeServiceIdList.toByte,
        (ServiceIdList.mk (engine.idsOf .subscribe)).body⟩ := by
    rw [find, beaconAttributes_eq, flatten_flatMap sound.fits, beaconAttrs,
      List.find?_append, List.find?_append, find_idList,
      find_idList_other (by decide : serviceIdList.toByte ≠ _)]
    simp [is, MasterIndication.attr, Cluster.attr, toByte]
  rw [listedIds, classified]
  dsimp only
  rw [found]
  exact listed_decoded _ _

end NanEngine

/-! ### Discovery frames -/

namespace Function

variable (f : Function)

theorem descriptor_serviceInfo (controlType : ServiceControlType) :
    (f.descriptor controlType).serviceInfo = f.ssi := by
  by_cases empty : f.ssi = []
  · simp [descriptor, empty, ServiceDescriptor.new]
  · simp [descriptor, empty, ServiceDescriptor.withServiceInfo]

theorem descriptor_fields (controlType : ServiceControlType) :
    (f.descriptor controlType).serviceId = f.serviceId ∧
      (f.descriptor controlType).instanceId = f.instanceId ∧
      (f.descriptor controlType).control.controlType = controlType ∧
      (f.descriptor controlType).matchingFilter = [] := by
  by_cases empty : f.ssi = [] <;>
    simp [descriptor, empty, ServiceDescriptor.new, ServiceControl.new,
      ServiceDescriptor.withServiceInfo]

theorem descriptor_tidy (controlType : ServiceControlType) : (f.descriptor controlType).Tidy := by
  rw [descriptor]
  split
  · exact ServiceDescriptor.tidy_new ..
  · exact (ServiceDescriptor.tidy_new ..).withServiceInfo f.ssi

theorem descriptor_sound (controlType : ServiceControlType) (short : f.ssi.length < 256) :
    Sound [(f.descriptor controlType).attr] :=
  ServiceDescriptor.sound (f.descriptor_tidy controlType)
    (by rw [(f.descriptor_fields controlType).2.2.2]; decide)
    (by rw [f.descriptor_serviceInfo]; exact short)

def attrs : List Attribute :=
  match f.controlType with
  | some controlType => [(f.descriptor controlType).attr, (Sdea.plain f.instanceId).attr]
  | none => []

end Function

/-- The descriptor an attribute carries, if it is one. -/
def Attribute.descriptor (attr : Attribute) : Option ServiceDescriptor :=
  if attr.is .serviceDescriptor then (ServiceDescriptor.decode attr.body).toOption else none

theorem descriptors_flatMap {attrs : List Attribute} (sound : Sound attrs) :
    NanEngine.descriptors (attrs.flatMap encode) =
      attrs.filterMap descriptor := by
  rw [NanEngine.descriptors, flatten_flatMap sound.fits]
  rfl

theorem ServiceDescriptor.attr_descriptor {sda : ServiceDescriptor} (tidy : sda.Tidy)
    (shortFilter : sda.matchingFilter.length < 256) (shortInfo : sda.serviceInfo.length < 256) :
    sda.attr.descriptor = some sda := by
  have decoded := decode_body tidy shortFilter shortInfo
  simp [descriptor, is, attr, decoded, Except.toOption]

namespace NanEngine

variable (engine : NanEngine)

/-- The descriptors of the functions that are advertised. -/
def advertised : List ServiceDescriptor :=
  engine.functions.filterMap fun f => f.controlType.map f.descriptor

def discoveryAttrs : List Attribute :=
  [DeviceCapability.basic.attr, availability availA, availability availB] ++
    engine.functions.flatMap Function.attrs

theorem discoveryAttributes_eq :
    engine.discoveryAttributes = engine.discoveryAttrs.flatMap encode := by
  have function : Function.encode = fun f => f.attrs.flatMap encode := by
    funext f
    cases advertised : f.controlType <;>
      simp [Function.encode, Function.attrs, advertised, ServiceDescriptor.encode_eq,
        Sdea.encode_eq]
  rw [discoveryAttributes, discoveryAttrs, DeviceCapability.encode_eq, encodeAvailability_eq,
    function]
  simp only [flatMap_append, flatMap_cons, flatMap_nil, append_nil,
    append_assoc, flatMap_assoc]

theorem discoveryAttrs_sound (short : ∀ f ∈ engine.functions, f.ssi.length < 256) :
    Sound engine.discoveryAttrs := by
  have fixed : Sound [DeviceCapability.basic.attr, availability availA, availability availB] :=
    (DeviceCapability.sound _).append availability_sound
  refine fixed.append (Sound.flatMap ?_)
  intro f mem
  rw [Function.attrs]
  split
  · exact (f.descriptor_sound _ (short f mem)).append (Sdea.sound _)
  · exact Sound.nil

theorem descriptors_discoveryAttributes (short : ∀ f ∈ engine.functions, f.ssi.length < 256) :
    descriptors engine.discoveryAttributes = engine.advertised := by
  have function : ∀ f ∈ engine.functions, f.attrs.filterMap descriptor =
      (f.controlType.map f.descriptor).toList := by
    intro f mem
    have other : (Sdea.plain f.instanceId).attr.descriptor = none := rfl
    cases advertised : f.controlType with
    | none => simp [Function.attrs, advertised]
    | some controlType =>
      have carried := ServiceDescriptor.attr_descriptor (f.descriptor_tidy controlType)
        (by rw [(f.descriptor_fields controlType).2.2.2]; decide)
        (by rw [f.descriptor_serviceInfo]; exact short f mem)
      simp [Function.attrs, advertised, carried, other]
  have fixed : [DeviceCapability.basic.attr, availability availA,
      availability availB].filterMap descriptor = [] := rfl
  rw [discoveryAttributes_eq, descriptors_flatMap (engine.discoveryAttrs_sound short),
    discoveryAttrs, filterMap_append, fixed, nil_append, advertised,
    filterMap_flatMap, filterMap_eq_flatMap_toList]
  exact flatMap_congr function

/-- What the discovery frame that `emitDiscovery` sends is. -/
def discoveryFrame : Bytes :=
  (ServiceDiscoveryFrame.new nanNetworkId engine.cfg.nmi engine.clusterId engine.seq).encode
    engine.discoveryAttributes

theorem accepted_discoveryFrame (short : ∀ f ∈ engine.functions, f.ssi.length < 256) :
    accepted engine.discoveryFrame = true := by
  rw [accepted, discoveryFrame, classify_sdf rfl]
  rw [discoveryAttributes_eq]
  exact (engine.discoveryAttrs_sound short).items

theorem spoken_discoveryFrame (short : ∀ f ∈ engine.functions, f.ssi.length < 256) :
    spoken engine.discoveryFrame = engine.advertised := by
  rw [spoken, discoveryFrame, classify_sdf rfl]
  exact engine.descriptors_discoveryAttributes short

theorem advertises_iff : engine.advertises = true ↔ engine.advertised ≠ [] := by
  have function : ∀ f : Function, (f.kind == .publish || f.active) =
      (f.controlType.map f.descriptor).isSome := by
    intro f
    cases kind : f.kind <;> cases active : f.active <;> simp [Function.controlType, kind, active]
  rw [advertises, advertised, ne_eq, filterMap_eq_nil_iff, any_eq_true]
  simp only [function, Option.isSome_iff_ne_none, not_forall, exists_prop]

end NanEngine

namespace Followup

variable (fu : Followup)

theorem descriptor_serviceInfo : fu.descriptor.serviceInfo = fu.ssi := by
  by_cases empty : fu.ssi = []
  · simp [descriptor, empty, ServiceDescriptor.new]
  · simp [descriptor, empty, ServiceDescriptor.withServiceInfo]

theorem descriptor_fields :
    fu.descriptor.serviceId = fu.serviceId ∧ fu.descriptor.control.controlType = .followUp ∧
      fu.descriptor.matchingFilter = [] := by
  by_cases empty : fu.ssi = [] <;>
    simp [descriptor, empty, ServiceDescriptor.new, ServiceControl.new,
      ServiceDescriptor.withServiceInfo]

theorem descriptor_tidy : fu.descriptor.Tidy := by
  have plain : ServiceDescriptor.Tidy
      { ServiceDescriptor.new fu.serviceId fu.instanceId .followUp with
        requestorInstanceId := fu.requestorInstanceId } :=
    ⟨rfl, rfl, fun _ => rfl, fun _ => rfl⟩
  rw [descriptor]
  split
  · exact plain
  · exact plain.withServiceInfo fu.ssi

/-- The discovery frame of a follow-up. -/
def frame (nmi clusterId : Mac) (seq : UInt16) : Bytes :=
  (ServiceDiscoveryFrame.new fu.dest nmi clusterId seq).encode fu.descriptor.encode

variable {fu}

theorem sound (short : fu.ssi.length < 256) : Sound [fu.descriptor.attr] :=
  ServiceDescriptor.sound fu.descriptor_tidy (by rw [fu.descriptor_fields.2.2]; decide)
    (by rw [fu.descriptor_serviceInfo]; exact short)

theorem accepted_frame (short : fu.ssi.length < 256) (nmi clusterId : Mac) (seq : UInt16) :
    accepted (fu.frame nmi clusterId seq) = true := by
  have items := (sound short).items
  rw [flatMap_singleton] at items
  rw [accepted, frame, classify_sdf rfl, ServiceDescriptor.encode_eq]
  exact items

theorem spoken_frame (short : fu.ssi.length < 256) (nmi clusterId : Mac) (seq : UInt16) :
    spoken (fu.frame nmi clusterId seq) = [fu.descriptor] := by
  have carried := descriptors_flatMap (sound short)
  have self := ServiceDescriptor.attr_descriptor fu.descriptor_tidy
    (by rw [fu.descriptor_fields.2.2]; decide)
    (by rw [fu.descriptor_serviceInfo]; exact short)
  rw [flatMap_singleton] at carried
  rw [spoken, frame, classify_sdf rfl, ServiceDescriptor.encode_eq]
  dsimp only
  rw [carried]
  simp [self]

end Followup

/-! ### Data-path frames -/

def Ndpe.frame (ndpe : Ndpe) (subtype : NafSubtype) (dst nmi clusterId : Mac) (seq : UInt16) :
    Bytes :=
  (NanActionFrame.new subtype dst nmi clusterId seq).encode ndpe.encode

theorem Ndpe.accepted_frame {ndpe : Ndpe} (coherent : ndpe.Coherent)
    (fits : ndpe.body.length < 2 ^ 16) (subtype : NafSubtype) (dst nmi clusterId : Mac)
    (seq : UInt16) : accepted (ndpe.frame subtype dst nmi clusterId seq) = true := by
  have items := (Ndpe.sound coherent fits).items
  rw [flatMap_singleton] at items
  rw [accepted, frame, classify_naf rfl, Ndpe.encode_eq]
  exact items

theorem Ndpe.spoken_frame (ndpe : Ndpe) (subtype : NafSubtype) (dst nmi clusterId : Mac)
    (seq : UInt16) : spoken (ndpe.frame subtype dst nmi clusterId seq) = [] := by
  rw [spoken, frame, classify_naf rfl]

/-! ### Addresses -/

theorem rxAddr1_encode (header : Dot11Header) (rest : Bytes) :
    rxAddr1 (header.encode ++ rest) = some header.addr1 := by
  have front : (header.encode ++ rest).drop 4 = header.addr1.toList ++
      (header.addr2.toList ++ (header.addr3.toList ++ (putLe16 header.seqCtrl ++ rest))) := by
    have split : header.encode ++ rest =
        (putLe16 header.frameControl ++ putLe16 header.durationId) ++ (header.addr1.toList ++
          (header.addr2.toList ++ (header.addr3.toList ++ (putLe16 header.seqCtrl ++ rest)))) := by
      simp only [Dot11Header.encode, append_assoc]
    rw [split]
    exact drop_left' (by simp)
  rw [rxAddr1, front, Reader.run, Reader.takeArray_append]
  rfl

theorem rxAddr2_encode (header : Dot11Header) (rest : Bytes) :
    rxAddr2 (header.encode ++ rest) = header.addr2 := by
  have front : (header.encode ++ rest).drop 10 = header.addr2.toList ++
      (header.addr3.toList ++ (putLe16 header.seqCtrl ++ rest)) := by
    have split : header.encode ++ rest =
        (putLe16 header.frameControl ++ putLe16 header.durationId ++ header.addr1.toList) ++
          (header.addr2.toList ++ (header.addr3.toList ++ (putLe16 header.seqCtrl ++ rest))) := by
      simp only [Dot11Header.encode, append_assoc]
    rw [split]
    exact drop_left' (by simp)
  rw [rxAddr2, front, Reader.run, Reader.takeArray_append]
  rfl

end NdnExt.Nan
