import NdnExt.Discovery.RecordRoundTrip

/-! What a node publishes, and what a node with the same root finds. -/

namespace NdnExt.Discovery

open NdnExt.Lib List

namespace ServiceDiscovery

def providerHasBody (texts : Texts) (sd : ServiceDiscovery) (announcedPrefix nodeName : Name) :
    Option Bool :=
  sd.hasBodyMap.lookup (prefixHashHex texts announcedPrefix, texts.display nodeName)

/-- The time, the neighbors and the faces of a publisher and of a finder. -/
structure Meeting where
  publisherCtx : Context
  publisherFace : FaceId
  finderCtx : Context
  finderFace : FaceId

def answered (effects : List Effect) : List RawData :=
  effects.filterMap fun effect =>
    match effect with
    | .sendOn _ (.data data) => some data
    | _ => none

section Exchange

variable (texts : Texts) (root peersPrefix : Name) (config : ServiceDiscoveryConfig)

def answers (publisher : ServiceDiscovery) (name : Name) (meeting : Meeting) : List RawData :=
  answered (onInboundPacket texts root peersPrefix config publisher meeting.publisherCtx
    (.interest name) meeting.publisherFace).2

/-- The finder, given every Data that the publisher answers an Interest with. -/
def exchange (publisher finder : ServiceDiscovery) (name : Name) (meeting : Meeting) :
    ServiceDiscovery :=
  (answers texts root peersPrefix config publisher name meeting).foldl
    (fun sd data => (onInboundPacket texts root peersPrefix config sd meeting.finderCtx
      (.data data) meeting.finderFace).1) finder

variable (record : ServiceRecord) (body : Bytes) (publishedAtMs : Nat)

def publisher : ServiceDiscovery := publishWithBody texts config new record body publishedAtMs

def finder (browse : Meeting) : ServiceDiscovery :=
  exchange texts root peersPrefix config (publisher texts config record body publishedAtMs) new
    (sdServicesUnder root) browse

/-- The published record and body are found. -/
structure Finds (browse fetch : Meeting) : Prop where
  found : ∃ r ∈ (finder texts root peersPrefix config record body publishedAtMs browse).peerRecords,
    r.announcedPrefix = record.announcedPrefix ∧ r.nodeName = record.nodeName ∧
      r.freshnessMs = record.freshnessMs ∧ r.capabilities = record.capabilities
  served : ∃ data,
    answers texts root peersPrefix config (publisher texts config record body publishedAtMs)
        (bodyNameFor texts root record publishedAtMs) fetch = [data] ∧
      data.content.bind (fun wrapped =>
        config.unwrap wrapped { record with version := publishedAtMs }) = some body
  marked : providerHasBody texts
    (exchange texts root peersPrefix config (publisher texts config record body publishedAtMs)
      (finder texts root peersPrefix config record body publishedAtMs browse)
      (bodyNameFor texts root record publishedAtMs) fetch)
    record.announcedPrefix record.nodeName = some true

/-- The rendezvous name is under the services of the root, the names are read back from their
text, and the text of the node name is the one that is written by hand. -/
structure Findable : Prop where
  underRoot : hasPrefix (record.makeName texts publishedAtMs) (sdServicesUnder root) = true
  announcedPrefix : nameOfComponents texts.fromStr record.announcedPrefix.components =
    some record.announcedPrefix
  nodeName : nameOfComponents texts.fromStr record.nodeName.components = some record.nodeName
  nodeNonempty : record.nodeName.components ≠ []
  nodeText : texts.display record.nodeName = uriOf record.nodeName.components

end Exchange

/-! ### The publisher -/

section Publisher

variable {texts : Texts} {root peersPrefix : Name} {rawTtl : Nat → Nat}
  {wrap unwrap : Bytes → ServiceRecord → Option Bytes} {sign : Name → Bytes → Bytes}
  {record : ServiceRecord} {body wrapped : Bytes} {publishedAtMs : Nat}

theorem publisher_eq (wraps : wrap body { record with version := publishedAtMs } = some wrapped) :
    publisher texts (defaultConfig rawTtl wrap unwrap sign) record body publishedAtMs =
      { new with
        bodyStore := (∅ : HashMap BodyKey Bytes).insert
          (prefixHashHex texts record.announcedPrefix, texts.display record.nodeName) wrapped
        localRecords := [⟨{ record with version := publishedAtMs }, publishedAtMs, none, none⟩] } := by
  unfold publisher publishWithBody
  dsimp only
  rw [show (defaultConfig rawTtl wrap unwrap sign).wrap = wrap from rfl, wraps]
  rfl

theorem answers_browse (wraps : wrap body { record with version := publishedAtMs } = some wrapped)
    (meeting : Meeting) :
    answers texts root peersPrefix (defaultConfig rawTtl wrap unwrap sign)
        (publisher texts (defaultConfig rawTtl wrap unwrap sign) record body publishedAtMs)
        (sdServicesUnder root) meeting =
      [buildDataSigned texts (defaultConfig rawTtl wrap unwrap sign)
        { record with version := publishedAtMs } publishedAtMs] := by
  unfold answers onInboundPacket handleInterest
  dsimp only
  rw [not_service_info (hasPrefix_refl _), if_neg Bool.false_ne_true, hasPrefix_refl, if_pos rfl,
    publisher_eq wraps]
  rfl

theorem bodyNameFor_components : (bodyNameFor texts root record publishedAtMs).components =
    root.components ++ serviceInfoComponent ::
      .generic (prefixHashHex texts record.announcedPrefix) ::
        (record.nodeName.components ++ [versionComponent publishedAtMs]) := by
  unfold bodyNameFor makeBodyName makeRecordNameUnder sdServicesUnder Name.appendComponent
  rw [append_assoc, take_left, ← drop_drop, drop_left]
  rfl

theorem bodyName_under : hasPrefix (bodyNameFor texts root record publishedAtMs)
    (sdServiceInfoUnder root) = true := by
  apply hasPrefix_iff.mpr
  rw [bodyNameFor_components]
  unfold sdServiceInfoUnder Name.appendComponent
  rw [prefix_append_right_inj]
  exact cons_prefix_cons.mpr ⟨rfl, nil_prefix⟩

/-- A name that a body is asked with has the key of the body in it, where the node has a name. -/
theorem bodyKey_bodyName (named : record.nodeName.components ≠ []) :
    bodyKey root (bodyNameFor texts root record publishedAtMs) =
      some (prefixHashHex texts record.announcedPrefix, uriOf record.nodeName.components) := by
  have positive := length_pos_iff.mpr named
  have text : (uriOf record.nodeName.components).isEmpty = false := by
    cases components : record.nodeName.components with
    | nil => exact absurd components named
    | cons first more => rfl
  unfold bodyKey
  rw [bodyNameFor_components]
  dsimp only
  have node : ((root.components ++ serviceInfoComponent ::
      .generic (prefixHashHex texts record.announcedPrefix) ::
        (record.nodeName.components ++ [versionComponent publishedAtMs])).take
          ((root.components ++ serviceInfoComponent ::
            .generic (prefixHashHex texts record.announcedPrefix) ::
              (record.nodeName.components ++ [versionComponent publishedAtMs])).length - 1)).drop
          (root.components.length + 2) = record.nodeName.components := by
    rw [← dropLast_eq_take, ← cons_append, ← cons_append, ← append_assoc,
      dropLast_concat, ← drop_drop, drop_left]
    rfl
  have hash : (root.components ++ serviceInfoComponent ::
      .generic (prefixHashHex texts record.announcedPrefix) ::
        (record.nodeName.components ++ [versionComponent publishedAtMs]))[
          root.components.length + 1]? =
        some (.generic (prefixHashHex texts record.announcedPrefix)) := by
    rw [List.getElem?_append_right (Nat.le_add_right _ _), Nat.add_sub_cancel_left]
    rfl
  rw [if_neg, node, hash, text]
  · rfl
  · simp only [length_append, length_cons, length_nil]
    omega

theorem bodyKey_unnamed (unnamed : record.nodeName.components = []) :
    bodyKey root (bodyNameFor texts root record publishedAtMs) = none := by
  unfold bodyKey
  rw [bodyNameFor_components, unnamed]
  rw [if_pos]
  simp only [length_append, length_cons, length_nil]
  omega

/-- The body is served where the text of the node name is the one that is written by hand. -/
theorem answers_body (wraps : wrap body { record with version := publishedAtMs } = some wrapped)
    (meeting : Meeting) :
    answers texts root peersPrefix (defaultConfig rawTtl wrap unwrap sign)
        (publisher texts (defaultConfig rawTtl wrap unwrap sign) record body publishedAtMs)
        (bodyNameFor texts root record publishedAtMs) meeting =
      if record.nodeName.components ≠ [] ∧
          texts.display record.nodeName = uriOf record.nodeName.components then
        [signedData (defaultConfig rawTtl wrap unwrap sign)
          (bodyNameFor texts root record publishedAtMs) wrapped]
      else [] := by
  unfold answers onInboundPacket handleInterest handleBodyInterest
  dsimp only
  rw [bodyName_under, if_pos rfl, publisher_eq wraps]
  by_cases named : record.nodeName.components = []
  · rw [bodyKey_unnamed named, if_neg (fun both => both.1 named)]
    rfl
  · rw [bodyKey_bodyName named, Option.bind_some, HashMap.lookup_insert_eq]
    by_cases text : texts.display record.nodeName = uriOf record.nodeName.components
    · rw [text, if_pos rfl, if_pos ⟨named, rfl⟩]
      rfl
    · rw [if_neg (fun same => text (congrArg Prod.snd same).symm),
        if_neg (fun both => text both.2)]
      rfl

end Publisher

/-! ### The finder -/

section Finder

variable {texts : Texts} {root peersPrefix : Name} {rawTtl : Nat → Nat}
  {wrap unwrap : Bytes → ServiceRecord → Option Bytes} {sign : Name → Bytes → Bytes}
  {record : ServiceRecord} {body wrapped : Bytes} {publishedAtMs : Nat}

theorem handleBodyData_none {sd : ServiceDiscovery} {config : ServiceDiscoveryConfig}
    (noRecords : sd.peerRecords = []) (name : Name) (content : Option Bytes) :
    handleBodyData texts root config sd name content = sd := by
  unfold handleBodyData
  rw [noRecords]
  cases bodyKey root name <;> rfl

/-- A finder that knows nothing takes in a record that it can read. -/
theorem peerRecords_first (ctx : Context) (data : RawData) (face : FaceId) :
    (handleSdData texts root (defaultConfig rawTtl wrap unwrap sign) new ctx data
      face).1.peerRecords = (recordOf texts root data).toList := by
  unfold handleSdData
  split
  · next info =>
    have none : recordOf texts root data = none := by
      unfold recordOf
      split
      · next services =>
        rw [not_service_info services] at info
        cases info
      · rfl
    rw [none]
    exact congrArg peerRecords (handleBodyData_none rfl _ _)
  · cases recordOf texts root data with
    | none => rfl
    | some record =>
      have window : ¬ ctx.now - ctx.now ≥ fromSecs 60 := by
        rw [Nat.sub_self]
        decide
      have allowed : (checkRateLimit texts (defaultConfig rawTtl wrap unwrap sign) ∅
          (rateKey (defaultConfig rawTtl wrap unwrap sign) data record) ctx.now).2 = true := by
        exact (congrArg Prod.snd (if_neg window)).trans rfl
      dsimp only
      rw [if_pos (show passesFilter (defaultConfig rawTtl wrap unwrap sign) record = true from rfl)]
      unfold handleRecord
      dsimp only
      rw [show (new.rateLimits) = ∅ from rfl, allowed]
      rfl

/-- The record that the answer to a browse Interest brings. -/
theorem recordOf_published (fits : ({ record with version := publishedAtMs }).Fits) :
    recordOf texts root (buildDataSigned texts (defaultConfig rawTtl wrap unwrap sign)
        { record with version := publishedAtMs } publishedAtMs) =
      if hasPrefix (record.makeName texts publishedAtMs) (sdServicesUnder root) then do
        let announcedPrefix ← nameOfComponents texts.fromStr record.announcedPrefix.components
        let nodeName ← nameOfComponents texts.fromStr record.nodeName.components
        some ⟨announcedPrefix, nodeName, record.freshnessMs, record.capabilities, publishedAtMs⟩
      else none := by
  refine if_congr Iff.rfl ?_ rfl
  have read := decode_encode texts.fromStr fits
  rw [show (buildDataSigned texts (defaultConfig rawTtl wrap unwrap sign)
    { record with version := publishedAtMs } publishedAtMs).content =
      some ({ record with version := publishedAtMs } : ServiceRecord).encode from rfl,
    Option.bind_some, read]
  cases nameOfComponents texts.fromStr record.announcedPrefix.components with
  | none => rfl
  | some announcedPrefix =>
    cases nameOfComponents texts.fromStr record.nodeName.components with
    | none => rfl
    | some nodeName => rfl

section

variable (wraps : wrap body { record with version := publishedAtMs } = some wrapped)
include wraps

theorem finder_peerRecords
    (fits : ({ record with version := publishedAtMs }).Fits) (browse : Meeting) :
    (finder texts root peersPrefix (defaultConfig rawTtl wrap unwrap sign) record body publishedAtMs
      browse).peerRecords =
      if hasPrefix (record.makeName texts publishedAtMs) (sdServicesUnder root) then
        (do
          let announcedPrefix ← nameOfComponents texts.fromStr record.announcedPrefix.components
          let nodeName ← nameOfComponents texts.fromStr record.nodeName.components
          some ⟨announcedPrefix, nodeName, record.freshnessMs, record.capabilities,
            publishedAtMs⟩ : Option ServiceRecord).toList
      else [] := by
  unfold finder exchange
  rw [answers_browse wraps, foldl_cons, foldl_nil]
  have first := @peerRecords_first texts root rawTtl wrap unwrap sign browse.finderCtx
    (buildDataSigned texts (defaultConfig rawTtl wrap unwrap sign)
      { record with version := publishedAtMs } publishedAtMs) browse.finderFace
  rw [recordOf_published fits] at first
  refine first.trans ?_
  split <;> rfl

/-- The record is among those of the finder where its name is under the root and its names are
read back. -/
theorem found_iff
    (fits : ({ record with version := publishedAtMs }).Fits) (browse : Meeting) :
    (∃ r ∈ (finder texts root peersPrefix (defaultConfig rawTtl wrap unwrap sign) record body
        publishedAtMs browse).peerRecords,
      r.announcedPrefix = record.announcedPrefix ∧ r.nodeName = record.nodeName ∧
        r.freshnessMs = record.freshnessMs ∧ r.capabilities = record.capabilities) ↔
      hasPrefix (record.makeName texts publishedAtMs) (sdServicesUnder root) = true ∧
        nameOfComponents texts.fromStr record.announcedPrefix.components =
            some record.announcedPrefix ∧
          nameOfComponents texts.fromStr record.nodeName.components = some record.nodeName := by
  rw [finder_peerRecords wraps fits]
  split
  · next under =>
    cases announced : nameOfComponents texts.fromStr record.announcedPrefix.components with
    | none => simp
    | some announcedPrefix =>
      cases node : nameOfComponents texts.fromStr record.nodeName.components with
      | none => simp
      | some nodeName => simp [under]
  · next other => simp [other]

/-- A finder with the record alone marks its provider, where the body is unwrapped. -/
theorem marked_of_findable {sd : ServiceDiscovery}
    (unwraps : unwrap wrapped { record with version := publishedAtMs } = some body)
    (findable : Findable texts root record publishedAtMs) (fetch : Meeting)
    (records : sd.peerRecords = [{ record with version := publishedAtMs }]) :
    providerHasBody texts
      (exchange texts root peersPrefix (defaultConfig rawTtl wrap unwrap sign)
        (publisher texts (defaultConfig rawTtl wrap unwrap sign) record body publishedAtMs) sd
        (bodyNameFor texts root record publishedAtMs) fetch)
      record.announcedPrefix record.nodeName = some true := by
  have key : bodyKey root (bodyNameFor texts root record publishedAtMs) =
      some (prefixHashHex texts record.announcedPrefix, uriOf record.nodeName.components) :=
    bodyKey_bodyName findable.nodeNonempty
  unfold exchange
  rw [answers_body wraps, if_pos ⟨findable.nodeNonempty, findable.nodeText⟩, foldl_cons,
    foldl_nil]
  unfold onInboundPacket handleSdData
  dsimp only
  rw [show (signedData (defaultConfig rawTtl wrap unwrap sign)
    (bodyNameFor texts root record publishedAtMs) wrapped).name =
      bodyNameFor texts root record publishedAtMs from rfl, bodyName_under, if_pos rfl,
    show (defaultConfig rawTtl wrap unwrap sign).recordVerifier = none from rfl,
    Option.isSome_none, Bool.false_and, if_neg Bool.false_ne_true]
  unfold handleBodyData
  rw [key, Option.bind_some, records, List.find?_cons_of_pos]
  · unfold providerHasBody
    rw [HashMap.lookup_insert_eq, if_pos rfl,
      show (signedData (defaultConfig rawTtl wrap unwrap sign)
        (bodyNameFor texts root record publishedAtMs) wrapped).content = some wrapped from rfl,
      Option.any_some, show (defaultConfig rawTtl wrap unwrap sign).unwrap = unwrap from rfl, unwraps]
    rfl
  · rw [decide_eq_true (show prefixHashHex texts record.announcedPrefix =
      prefixHashHex texts record.announcedPrefix from rfl), decide_eq_true findable.nodeText]
    rfl

end

end Finder

section Inverse

variable {texts : Texts} {root peersPrefix : Name} {rawTtl : Nat → Nat}
  {wrap unwrap : Bytes → ServiceRecord → Option Bytes} {sign : Name → Bytes → Bytes}

/-- What is published is found exactly where the root, the names and their texts allow it. -/
theorem finds_iff_findable
    (inverse : ∀ body record, ∃ wrapped,
      wrap body record = some wrapped ∧ unwrap wrapped record = some body)
    (record : ServiceRecord) (body : Bytes) (publishedAtMs : Nat)
    (fits : ({ record with version := publishedAtMs }).Fits) (browse fetch : Meeting) :
    Finds texts root peersPrefix (defaultConfig rawTtl wrap unwrap sign) record body publishedAtMs
        browse fetch ↔
      Findable texts root record publishedAtMs := by
  rcases inverse body { record with version := publishedAtMs } with ⟨wrapped, wraps, unwraps⟩
  constructor
  · rintro ⟨found, ⟨data, served, _⟩, _⟩
    rcases (found_iff wraps fits browse).mp found with ⟨under, announced, node⟩
    rw [answers_body wraps] at served
    split at served
    · next both => exact ⟨under, announced, node, both.1, both.2⟩
    · cases served
  · intro findable
    refine ⟨?_, ?_, ?_⟩
    · exact (found_iff wraps fits browse).mpr
        ⟨findable.underRoot, findable.announcedPrefix, findable.nodeName⟩
    · refine ⟨signedData (defaultConfig rawTtl wrap unwrap sign)
        (bodyNameFor texts root record publishedAtMs) wrapped, ?_, ?_⟩
      · rw [answers_body wraps, if_pos ⟨findable.nodeNonempty, findable.nodeText⟩]
      · exact unwraps
    · apply marked_of_findable wraps unwraps findable
      rw [finder_peerRecords wraps fits, if_pos findable.underRoot, findable.announcedPrefix,
        findable.nodeName]
      rfl

end Inverse

/-! ### A root of one's own -/

namespace Example

/-- The hash of `/a`. -/
def digest : Bytes :=
  [185, 44, 54, 149, 240, 78, 13, 89, 54, 44, 245, 254, 65, 56, 195, 137,
    144, 142, 201, 99, 133, 192, 127, 194, 186, 123, 255, 11, 32, 84, 215, 34]

def texts : Texts := letterTexts fun _ => digest

/-- The service `/a` of the node `/n`. -/
def record : ServiceRecord := ⟨.single 97, .single 110, 30000, 0, 0⟩

def publishedAtMs : Nat := 1700000000000

/-- `/z/sd`. -/
def zoneRoot : Name := ⟨[.generic [122], .generic [115, 100]]⟩

def meeting : Meeting := ⟨⟨0, []⟩, ⟨1⟩, ⟨0, []⟩, ⟨2⟩⟩

theorem fits : ({ record with version := publishedAtMs }).Fits :=
  ⟨by decide, by decide, by decide, by decide, by decide +kernel⟩

theorem no_encryption (body : Bytes) (_record : ServiceRecord) :
    ∃ wrapped : Bytes, some body = some wrapped ∧ some wrapped = some body :=
  ⟨body, rfl, rfl⟩

/-- Under the root of the node the service and its body are found. -/
theorem found_under_local_root :
    Finds texts sdRoot (.single 112)
      (defaultConfig (2 * ·) (fun body _ => some body) (fun body _ => some body) fun _ _ => [])
      record [1] publishedAtMs meeting meeting :=
  (finds_iff_findable no_encryption record [1] publishedAtMs fits meeting meeting).mpr
    ⟨by decide +kernel, by decide +kernel, by decide +kernel, by decide, by decide +kernel⟩

/-- Under another root the finder does not take the answer for a record. -/
theorem lost_under_zone_root :
    ¬ Finds texts zoneRoot (.single 112)
      (defaultConfig (2 * ·) (fun body _ => some body) (fun body _ => some body) fun _ _ => [])
      record [1] publishedAtMs meeting meeting := by
  intro finds
  have under := ((found_iff rfl fits meeting).mp finds.found).1
  exact absurd under (by decide +kernel)

end Example

end ServiceDiscovery

end NdnExt.Discovery
