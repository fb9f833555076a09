import Mathlib.Data.List.Flatten
import NdnExt.Discovery.RecordRoundTrip

/-! Which service records and peer lists survive the wire. -/

namespace NdnExt.Discovery

open NdnExt.Lib NdnExt.Lib.Tiling NdnExt.NdnTlv List ServiceDiscovery NeighborEntry

/-- A component that is written as itself in a URI: one of periods only, or of nothing, is not. -/
def HasText (value : Bytes) : Prop := ∃ b ∈ value, b ≠ 46

/-- How names are read from text: a component written without a type is generic, and one with text
has the bytes that are written. -/
structure NameText (fromStr : List Char → Option Name) : Prop where
  generic : ∀ components name, fromStr (uriOf components) = some name →
    ∀ c ∈ name.components, c.typ = 8
  plain : ∀ components, components ≠ [] →
    (∀ c ∈ components, c.typ = 8 ∧ HasText c.value) →
    fromStr (uriOf components) = some ⟨components⟩

/-- A name of generic components whose text is read back, as it is where each has text. -/
def ReadsBack (fromStr : List Char → Option Name) (name : Name) : Prop :=
  (∀ c ∈ name.components, c.typ = 8) ∧
    ((∀ c ∈ name.components, HasText c.value) ∨ fromStr (uriOf name.components) = some name)

instance (value : Bytes) : Decidable (HasText value) :=
  inferInstanceAs (Decidable (∃ b ∈ value, b ≠ 46))

instance (fromStr : List Char → Option Name) (name : Name) :
    Decidable (ReadsBack fromStr name) := by
  unfold ReadsBack
  infer_instance

def ServiceRecord.ReadsBack (fromStr : List Char → Option Name) (record : ServiceRecord) : Prop :=
  Discovery.ReadsBack fromStr record.announcedPrefix ∧ Discovery.ReadsBack fromStr record.nodeName

/-- Two records, and the list of the reachable neighbours, survive the wire. -/
structure SurvivesWire (texts : Texts) (peersPrefix : Name) (config : ServiceDiscoveryConfig)
    (ctx : Context) (face : FaceId) (record other : ServiceRecord) : Prop where
  first : ServiceRecord.decode texts.fromStr record.encode = .ok record
  second : ServiceRecord.decode texts.fromStr other.encode = .ok other
  distinct : record.announcedPrefix ≠ other.announcedPrefix →
    ∀ left right, ServiceRecord.decode texts.fromStr record.encode = .ok left →
      ServiceRecord.decode texts.fromStr other.encode = .ok right →
      left.announcedPrefix ≠ right.announcedPrefix
  peers : ∃ data content, ServiceDiscovery.handlePeersInterest texts peersPrefix config ctx
      peersPrefix face = [.sendOn face (.data data)] ∧ data.content = some content ∧
    decodePeerList texts.fromStr content =
      .ok ((ctx.neighbors.filter NeighborEntry.isReachable).map NeighborEntry.nodeName)

/-- The neighbours' names are as long as their types. -/
structure Context.Fits (ctx : Context) : Prop where
  types : ∀ e ∈ ctx.neighbors, ∀ c ∈ e.nodeName.components, c.typ < 2 ^ 64
  encoded : (ctx.neighbors.flatMap fun e =>
    ServiceDiscovery.peerEntry e.nodeName).length < 2 ^ 63

variable {fromStr : List Char → Option Name}

theorem nameOfComponents_eq_self (text : NameText fromStr) (name : Name) :
    nameOfComponents fromStr name.components = some name ↔ ReadsBack fromStr name := by
  rcases name with ⟨components⟩
  unfold nameOfComponents ReadsBack
  cases components with
  | nil => simp [Name.root]
  | cons c more =>
    rw [isEmpty_cons, if_neg Bool.false_ne_true]
    constructor
    · intro read
      exact ⟨text.generic _ _ read, Or.inr read⟩
    · rintro ⟨generic, plain | read⟩
      · apply text.plain _ (cons_ne_nil _ _)
        intro component among
        exact ⟨generic component among, plain component among⟩
      · exact read

theorem decode_encode_iff (text : NameText fromStr) {record : ServiceRecord}
    (fits : record.Fits) :
    ServiceRecord.decode fromStr record.encode = .ok record ↔ record.ReadsBack fromStr := by
  unfold ServiceRecord.ReadsBack
  rw [decode_encode fromStr fits, ← nameOfComponents_eq_self text,
    ← nameOfComponents_eq_self text]
  constructor
  · intro decoded
    rcases Outcome.bind_eq_ok.mp decoded with ⟨announced, first, decoded⟩
    rcases Outcome.bind_eq_ok.mp decoded with ⟨node, second, decoded⟩
    have same := Outcome.ok.inj decoded
    have sameAnnounced : announced = record.announcedPrefix :=
      congrArg ServiceRecord.announcedPrefix same
    have sameNode : node = record.nodeName := congrArg ServiceRecord.nodeName same
    rw [sameAnnounced] at first
    rw [sameNode] at second
    exact ⟨Outcome.okOr_eq_ok.mp first, Outcome.okOr_eq_ok.mp second⟩
  · rintro ⟨announced, node⟩
    rw [announced, node]
    rfl

/-! ### Peer lists -/

theorem tiled_peers {names : List Name}
    (types : ∀ name ∈ names, ∀ c ∈ name.components, c.typ < 2 ^ 64)
    (small : (names.flatMap peerEntry).length < 2 ^ 63) :
    Tiled headerOf (names.flatMap peerEntry)
      (names.map fun name => (tPeerEntry, writeNameTlv name)) [] := by
  induction names with
  | nil => exact tiled_nil
  | cons name more ih =>
    rw [flatMap_cons, length_append] at small
    have shorter := length_writeTlv tPeerEntry (writeNameTlv name)
    have entry : peerEntry name = writeTlv tPeerEntry (writeNameTlv name) := rfl
    rw [entry] at small
    rw [flatMap_cons, map_cons]
    exact tiled_writeTlv (by decide) (by omega)
      (ih (fun other among => types other (mem_cons_of_mem _ among)) (by omega))

theorem peerField_writeNameTlv {name : Name} (types : ∀ c ∈ name.components, c.typ < 2 ^ 64)
    (small : (writeNameTlv name).length < 2 ^ 63) (peers : List Name) :
    peerField fromStr peers tPeerEntry (writeNameTlv name) =
      .ok (peers ++ (nameOfComponents fromStr name.components).toList) := by
  unfold peerField decodeNameTlv
  rw [if_pos rfl, decodeName_writeNameTlv types small]
  cases nameOfComponents fromStr name.components with
  | none => simp [Outcome.okOr]
  | some read => rfl

/-- A written peer list is read back, but for its names: these are read from their text. -/
theorem decodePeerList_peers {names : List Name}
    (types : ∀ name ∈ names, ∀ c ∈ name.components, c.typ < 2 ^ 64)
    (small : (names.flatMap peerEntry).length < 2 ^ 63) :
    decodePeerList fromStr (names.flatMap peerEntry) =
      .ok (names.flatMap fun name => (nameOfComponents fromStr name.components).toList) := by
  have read : ∀ (names : List Name) (peers : List Name),
      (∀ name ∈ names, (∀ c ∈ name.components, c.typ < 2 ^ 64) ∧
        (writeNameTlv name).length < 2 ^ 63) →
      (names.map fun name => (tPeerEntry, writeNameTlv name)).foldlM
          (fun state tlv => peerField fromStr state tlv.1 tlv.2) peers =
        (.ok (peers ++ names.flatMap fun name =>
          (nameOfComponents fromStr name.components).toList) : Read (List Name)) := by
    intro names
    induction names with
    | nil =>
      intro peers _
      rw [flatMap_nil, append_nil]
      rfl
    | cons name more ih =>
      intro peers fit
      have here := fit name mem_cons_self
      rw [map_cons, foldlM_cons, peerField_writeNameTlv here.1 here.2,
        Outcome.ok_bind, ih _ (fun other among => fit other (mem_cons_of_mem _ among)),
        flatMap_cons, append_assoc]
  have shorter : ∀ name ∈ names, (writeNameTlv name).length < 2 ^ 63 := by
    intro name among
    rcases mem_iff_append.mp among with ⟨earlier, later, split⟩
    have longer := length_writeTlv tPeerEntry (writeNameTlv name)
    have entry : (peerEntry name).length ≤
        (names.flatMap peerEntry).length := by
      rw [split, flatMap_append, flatMap_cons, length_append, length_append]
      omega
    exact (longer.trans entry).trans_lt small
  unfold decodePeerList
  rw [walkAll_eq _ _ small, (tiled_peers types small).split_eq]
  unfold through
  rw [read names [] fun name among => ⟨types name among, shorter name among⟩, Outcome.ok_bind]
  rfl

theorem length_toList_flatMap (names : List Name) (read : Name → Option Name) :
    (names.flatMap fun name => (read name).toList).length ≤ names.length := by
  induction names with
  | nil => exact le_rfl
  | cons name more ih =>
    rw [flatMap_cons, length_append, length_cons]
    cases read name with
    | none =>
      rw [Option.toList_none, length_nil]
      omega
    | some other =>
      rw [Option.toList_some, length_singleton]
      omega

/-- A list that is made of no more than one name for each of its names is itself where each name
is made of itself. -/
theorem toList_flatMap_eq_self {names : List Name} {read : Name → Option Name} :
    (names.flatMap fun name => (read name).toList) = names ↔
      ∀ name ∈ names, read name = some name := by
  induction names with
  | nil => simp
  | cons name more ih =>
    have shorter := length_toList_flatMap more read
    rw [flatMap_cons, forall_mem_cons, ← ih]
    cases found : read name with
    | none =>
      rw [Option.toList_none, nil_append]
      constructor
      · intro same
        rw [same, length_cons] at shorter
        omega
      · rintro ⟨impossible, _⟩
        cases impossible
    | some other => simp

theorem handlePeersInterest_list (texts : Texts) (peersPrefix : Name)
    (config : ServiceDiscoveryConfig) (ctx : Context) (face : FaceId) :
    handlePeersInterest texts peersPrefix config ctx peersPrefix face =
      [.sendOn face (.data (signedData config peersPrefix
        (((ctx.neighbors.filter isReachable).map nodeName).flatMap
          peerEntry)))] := by
  unfold handlePeersInterest
  dsimp only
  rw [drop_length, isEmpty_nil, if_pos rfl, flatMap_map]

theorem Context.Fits.reachable {ctx : Context} (fits : ctx.Fits) :
    (∀ name ∈ (ctx.neighbors.filter isReachable).map nodeName,
      ∀ c ∈ name.components, c.typ < 2 ^ 64) ∧
    (((ctx.neighbors.filter isReachable).map nodeName).flatMap
      peerEntry).length < 2 ^ 63 := by
  constructor
  · intro name among
    rcases mem_map.mp among with ⟨e, inside, rfl⟩
    exact fits.types e (mem_of_mem_filter inside)
  · apply lt_of_le_of_lt _ fits.encoded
    rw [flatMap_map]
    exact (filter_sublist.flatMap _).length_le

/-- The records survive, and the list of the reachable neighbours, where every name reads back. -/
theorem survives_wire_iff {texts : Texts} (text : NameText texts.fromStr) (peersPrefix : Name)
    (config : ServiceDiscoveryConfig) {ctx : Context} (fits : ctx.Fits) (face : FaceId)
    {record other : ServiceRecord} (fitsFirst : record.Fits) (fitsSecond : other.Fits) :
    SurvivesWire texts peersPrefix config ctx face record other ↔
      record.ReadsBack texts.fromStr ∧ other.ReadsBack texts.fromStr ∧
        ∀ e ∈ ctx.neighbors, e.isReachable = true → ReadsBack texts.fromStr e.nodeName := by
  have decoded := @decodePeerList_peers texts.fromStr _ fits.reachable.1 fits.reachable.2
  have peers : decodePeerList texts.fromStr
      (((ctx.neighbors.filter NeighborEntry.isReachable).map NeighborEntry.nodeName).flatMap
        ServiceDiscovery.peerEntry) =
        .ok ((ctx.neighbors.filter NeighborEntry.isReachable).map NeighborEntry.nodeName) ↔
      ∀ e ∈ ctx.neighbors, e.isReachable = true → ReadsBack texts.fromStr e.nodeName := by
    rw [decoded, Outcome.ok.injEq, @toList_flatMap_eq_self _ fun name =>
      nameOfComponents texts.fromStr name.components]
    simp only [List.forall_mem_map, List.mem_filter, and_imp, nameOfComponents_eq_self text]
  constructor
  · intro survives
    refine ⟨(decode_encode_iff text fitsFirst).mp survives.first,
      (decode_encode_iff text fitsSecond).mp survives.second, peers.mp ?_⟩
    rcases survives.peers with ⟨data, content, sent, written, read⟩
    rw [handlePeersInterest_list] at sent
    have same : ServiceDiscovery.signedData config peersPrefix
        (((ctx.neighbors.filter NeighborEntry.isReachable).map NeighborEntry.nodeName).flatMap
          ServiceDiscovery.peerEntry) = data := by
      cases sent
      rfl
    rw [← same] at written
    cases written
    exact read
  · rintro ⟨first, second, neighbours⟩
    have one := (decode_encode_iff text fitsFirst).mpr first
    have two := (decode_encode_iff text fitsSecond).mpr second
    refine ⟨one, two, ?_, _, _, handlePeersInterest_list texts peersPrefix config ctx face, rfl,
      peers.mpr neighbours⟩
    intro different left right decodedLeft decodedRight
    rw [one, Outcome.ok.injEq] at decodedLeft
    rw [two, Outcome.ok.injEq] at decodedRight
    rw [← decodedLeft, ← decodedRight]
    exact different

/-! ### Names read from text -/

namespace Uri

def hexValue (c : Char) : Nat := if c.toNat < 58 then c.toNat - 48 else c.toNat - 55

def unescape : List Char → Bytes
  | '%' :: high :: low :: rest =>
    UInt8.ofNat (hexValue high * 16 + hexValue low) :: unescape rest
  | c :: rest => UInt8.ofNat c.toNat :: unescape rest
  | [] => []

/-- A component of periods only is written with three more. -/
def readComponent (text : List Char) : Option NameComponent :=
  if (unescape text).all (· = 46) then
    if 3 ≤ (unescape text).length then some (.generic ((unescape text).drop 3)) else none
  else some (.generic (unescape text))

/-- What stands between the slashes of a text. -/
def parts (text : List Char) : List Char × List (List Char) :=
  text.foldr (fun c read => if c = '/' then ([], read.1 :: read.2) else (c :: read.1, read.2))
    ([], [])

def readUri (text : List Char) : Option Name :=
  ((parts text).2.mapM readComponent).map Name.mk

/-- A byte is written as one character that stands for it, or as two digits. -/
theorem uriByte_cases (b : UInt8) :
    (∃ c, uriByte b = [c] ∧ c ≠ '%' ∧ c ≠ '/' ∧ UInt8.ofNat c.toNat = b) ∨
      ∃ high low, uriByte b = ['%', high, low] ∧ high ≠ '/' ∧ low ≠ '/' ∧
        hexValue high * 16 + hexValue low = b.toNat := by
  have digits : ∀ n < 16, hexDigit n ≠ '/' ∧ hexValue (hexDigit n) = n := by decide
  unfold uriByte
  split
  · next plain =>
    have known : ∀ n < 256, isUnreserved (UInt8.ofNat n) = true →
        Char.ofNat n ≠ '%' ∧ Char.ofNat n ≠ '/' ∧ (Char.ofNat n).toNat = n := by decide +kernel
    rcases known b.toNat b.toNat_lt (by simpa using plain) with ⟨percent, slash, same⟩
    refine Or.inl ⟨_, rfl, percent, slash, ?_⟩
    rw [same, UInt8.ofNat_toNat]
  · have bound := b.toNat_lt
    rcases digits (b.toNat / 16) (by omega) with ⟨slash, high⟩
    rcases digits (b.toNat % 16) (by omega) with ⟨slash', low⟩
    refine Or.inr ⟨_, _, rfl, slash, slash', ?_⟩
    rw [high, low]
    omega

theorem unescape_uriByte (b : UInt8) (rest : List Char) :
    unescape (uriByte b ++ rest) = b :: unescape rest := by
  rcases uriByte_cases b with ⟨c, written, percent, _, same⟩ | ⟨high, low, written, _, _, same⟩
  · rw [written, singleton_append, unescape, same]
    intro high low rest' equal
    exact absurd equal percent
  · rw [written]
    change unescape ('%' :: high :: low :: rest) = _
    rw [unescape, same, UInt8.ofNat_toNat]

def written (value : Bytes) : List Char := value.flatMap uriByte

theorem unescape_written (value : Bytes) : unescape (written value) = value := by
  induction value with
  | nil => rfl
  | cons b rest ih =>
    rw [written, flatMap_cons, unescape_uriByte]
    exact congrArg (b :: ·) ih

theorem slash_not_mem_written (value : Bytes) : '/' ∉ written value := by
  intro among
  rcases mem_flatMap.mp among with ⟨b, _, among⟩
  rcases uriByte_cases b with ⟨c, same, _, slash, _⟩ | ⟨high, low, same, slash, slash', _⟩
  · rw [same, mem_singleton] at among
    exact slash among.symm
  · rw [same] at among
    simp [Ne.symm slash, Ne.symm slash'] at among

theorem parts_append {part : List Char} (whole : '/' ∉ part) (rest : List Char) :
    parts (part ++ rest) = (part ++ (parts rest).1, (parts rest).2) := by
  induction part with
  | nil => rfl
  | cons c more ih =>
    rw [mem_cons, not_or] at whole
    have step : parts (c :: (more ++ rest)) =
        (c :: (parts (more ++ rest)).1, (parts (more ++ rest)).2) := by
      rw [parts, foldr_cons, if_neg (Ne.symm whole.1)]
      rfl
    rw [cons_append, step, ih whole.2, cons_append]

theorem parts_uriOf (components : List NameComponent) :
    parts (uriOf components) = ([], components.map fun c => written c.value) := by
  induction components with
  | nil => rfl
  | cons c more ih =>
    have text : uriOf (c :: more) = '/' :: (written c.value ++ uriOf more) := by
      rw [uriOf, flatMap_cons]
      rfl
    have step : parts ('/' :: (written c.value ++ uriOf more)) =
        ([], (parts (written c.value ++ uriOf more)).1 ::
          (parts (written c.value ++ uriOf more)).2) := by
      rw [parts, foldr_cons, if_pos rfl]
      rfl
    rw [text, step, parts_append (slash_not_mem_written _), ih, append_nil, map_cons]

theorem readComponent_typ {text : List Char} {c : NameComponent}
    (read : readComponent text = some c) : c.typ = 8 := by
  unfold readComponent at read
  split at read
  · split at read
    · cases read
      rfl
    · cases read
  · cases read
    rfl

theorem readComponent_written {c : NameComponent} (generic : c.typ = 8)
    (text : HasText c.value) : readComponent (written c.value) = some c := by
  rcases text with ⟨b, among, other⟩
  have some' : ¬ c.value.all (· = 46) = true := by
    intro all
    exact other (of_decide_eq_true (all_eq_true.mp all b among))
  unfold readComponent
  rw [unescape_written, if_neg some']
  cases c
  cases generic
  rfl

theorem readAll_typ {texts : List (List Char)} {components : List NameComponent}
    (read : texts.mapM readComponent = some components) : ∀ c ∈ components, c.typ = 8 := by
  induction texts generalizing components with
  | nil =>
    cases read
    intro c among
    cases among
  | cons text more ih =>
    rw [mapM_cons] at read
    rcases Option.bind_eq_some_iff.mp read with ⟨c, first, read⟩
    rcases Option.bind_eq_some_iff.mp read with ⟨rest, later, read⟩
    cases read
    intro other among
    rcases mem_cons.mp among with rfl | among
    · exact readComponent_typ first
    · exact ih later other among

theorem readAll_written {components : List NameComponent}
    (plain : ∀ c ∈ components, c.typ = 8 ∧ HasText c.value) :
    (components.map fun c => written c.value).mapM readComponent = some components := by
  induction components with
  | nil => rfl
  | cons c more ih =>
    rcases plain c mem_cons_self with ⟨generic, text⟩
    rw [map_cons, mapM_cons, readComponent_written generic text,
      ih fun other among => plain other (mem_cons_of_mem _ among)]
    rfl

theorem readUri_text : NameText readUri where
  generic components name read := by
    rcases Option.map_eq_some_iff.mp read with ⟨found, all, rfl⟩
    exact readAll_typ all
  plain components _ plain := by
    unfold readUri
    rw [parts_uriOf, readAll_written plain, Option.map_some]

end Uri

/-! ### A prefix of the same values -/

namespace Keyword

def texts : Texts := ⟨fun name => uriOf name.components, Uri.readUri, fun bytes => bytes⟩

def config : ServiceDiscoveryConfig :=
  ServiceDiscovery.defaultConfig id (fun body _ => some body) (fun body _ => some body)
    fun _ _ => []

def node : Name := ⟨[.generic [110]]⟩

def sensor : Name := ⟨[.generic [116, 101, 109, 112]]⟩

/-- The name of the sensor, with a keyword component. -/
def keyword : Name := ⟨[.keyword [116, 101, 109, 112]]⟩

def neighbours : Context := ⟨0, [⟨node, [⟨1⟩], true⟩, ⟨keyword, [⟨2⟩], false⟩]⟩

def record (announced : Name) : ServiceRecord := ⟨announced, node, 60000, 3, 1700000000000⟩

theorem sensors_survive :
    SurvivesWire texts node config neighbours ⟨1⟩ (record sensor) (record node) :=
  (survives_wire_iff Uri.readUri_text node config ⟨by decide, by decide +kernel⟩ ⟨1⟩
    ⟨by decide, by decide, by decide, by decide, by decide +kernel⟩
    ⟨by decide, by decide, by decide, by decide, by decide +kernel⟩).mpr
    ⟨⟨by decide +kernel, by decide +kernel⟩, ⟨by decide +kernel, by decide +kernel⟩,
      by decide +kernel⟩

theorem keyword_lost :
    ¬ SurvivesWire texts node config neighbours ⟨1⟩ (record keyword) (record sensor) := by
  intro survives
  have read : ServiceRecord.decode texts.fromStr (record keyword).encode =
      .ok (record sensor) := by
    decide +kernel
  have first := survives.first
  rw [read] at first
  exact absurd first (by decide)

end Keyword

end NdnExt.Discovery
