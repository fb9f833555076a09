import NdnExt.Dv.TlvCodec
import NdnExt.Packet.NdnTlv
import Mathlib.Data.List.Forall2

/-! DV packets survive the wire, whatever unknown TLVs stand between their fields. -/

namespace NdnExt.Dv

open NdnExt.Lib List

variable (codec : PacketCodec)

/-- The bytes are the fields in order with TLVs of other types anywhere among them. -/
def Padded (known : List Nat) (fields : List (Nat × List UInt8)) (bytes : List UInt8) : Prop :=
  ∃ padded, padded.filter (fun typed => typed.1 ∈ known) = fields ∧ bytes = codec.writeAll padded

def AdvEntry.known : List Nat := [tDestination, tNextHop, tCost, tOtherCost]
def PrefixOpAdd.known : List Nat := [tlvName, tCost]
def PrefixOpRemove.known : List Nat := [tlvName]
def PrefixOpList.known : List Nat := [tDestination, tPrefixOpReset, tPrefixOpAdd, tPrefixOpRemove]
def Status.known : List Nat :=
  [tVersion, tNetworkName, tRouterName, tNRibEntries, tNNeighbors, tNFibEntries]

def AdvEntry.fields (entry : AdvEntry) : List (Nat × List UInt8) :=
  [(tDestination, codec.encodeToTlv entry.destination), (tNextHop, codec.encodeToTlv entry.nextHop),
    (tCost, encodeNni entry.cost), (tOtherCost, encodeNni entry.otherCost)]

def PrefixOpAdd.fields (add : PrefixOpAdd) : List (Nat × List UInt8) :=
  [(tlvName, codec.encodeValue add.name), (tCost, encodeNni add.cost)]

def PrefixOpRemove.fields (rm : PrefixOpRemove) : List (Nat × List UInt8) :=
  [(tlvName, codec.encodeValue rm.name)]

/-- The fields of a list whose operations are encoded as `adds` and `removes`. -/
def PrefixOpList.fields (ops : PrefixOpList) (adds removes : List (List UInt8)) :
    List (Nat × List UInt8) :=
  (tDestination, codec.encodeToTlv ops.exitRouter) ::
    ((if ops.reset then [(tPrefixOpReset, [])] else []) ++
      (adds.map (fun add => (tPrefixOpAdd, add)) ++ removes.map (fun rm => (tPrefixOpRemove, rm))))

def Status.fields (status : Status) : List (Nat × List UInt8) :=
  [(tVersion, asBytes status.version), (tNetworkName, codec.encodeToTlv status.networkName),
    (tRouterName, codec.encodeToTlv status.routerName),
    (tNRibEntries, encodeNni status.nRibEntries), (tNNeighbors, encodeNni status.nNeighbors),
    (tNFibEntries, encodeNni status.nFibEntries)]

def AdvEntry.Carried (entry : AdvEntry) : List UInt8 → Prop :=
  Padded codec AdvEntry.known (entry.fields codec)

def PrefixOpAdd.Carried (add : PrefixOpAdd) : List UInt8 → Prop :=
  Padded codec PrefixOpAdd.known (add.fields codec)

def PrefixOpRemove.Carried (rm : PrefixOpRemove) : List UInt8 → Prop :=
  Padded codec PrefixOpRemove.known (rm.fields codec)

def Status.Carried (status : Status) : List UInt8 → Prop :=
  Padded codec Status.known (status.fields codec)

/-- An advertisement has no unknown TLVs of its own: only its entries may carry them. -/
def Advertisement.Carried (adv : Advertisement) (bytes : List UInt8) : Prop :=
  ∃ items, List.Forall₂ (AdvEntry.Carried codec) adv.entries items ∧
    bytes = codec.writeAll (items.map (fun item => (tAdvEntry, item)))

/-- The list and each of its operations may carry unknown TLVs. -/
def PrefixOpList.Carried (ops : PrefixOpList) (bytes : List UInt8) : Prop :=
  ∃ adds removes, List.Forall₂ (PrefixOpAdd.Carried codec) ops.adds adds ∧
    List.Forall₂ (PrefixOpRemove.Carried codec) ops.removes removes ∧
    Padded codec PrefixOpList.known (ops.fields codec adds removes) bytes

/-- TLVs of types outside `known` make no difference to what is decoded. -/
def PassesOver {A : Type} (known : List Nat) (decode : List UInt8 → Decoded A) : Prop :=
  ∀ padded, decode (codec.writeAll padded) =
    decode (codec.writeAll (padded.filter (fun typed => typed.1 ∈ known)))

/-- The integers of the value are `u64`. -/
def AdvEntry.InU64 (entry : AdvEntry) : Prop := entry.cost < 2 ^ 64 ∧ entry.otherCost < 2 ^ 64

def Advertisement.InU64 (adv : Advertisement) : Prop := ∀ entry ∈ adv.entries, entry.InU64

def PrefixOpList.InU64 (ops : PrefixOpList) : Prop := ∀ add ∈ ops.adds, add.cost < 2 ^ 64

def Status.InU64 (status : Status) : Prop :=
  status.nRibEntries < 2 ^ 64 ∧ status.nNeighbors < 2 ^ 64 ∧ status.nFibEntries < 2 ^ 64

instance (entry : AdvEntry) : Decidable entry.InU64 := by
  unfold AdvEntry.InU64
  infer_instance

instance (adv : Advertisement) : Decidable adv.InU64 := by
  unfold Advertisement.InU64
  infer_instance

instance (ops : PrefixOpList) : Decidable ops.InU64 := by
  unfold PrefixOpList.InU64
  infer_instance

instance (status : Status) : Decidable status.InU64 := by
  unfold Status.InU64
  infer_instance

variable {codec}

variable {A : Type} {bytes : List UInt8}

section Fields

@[simp] theorem ok_bind {B : Type} (value : A) (next : A → Decoded B) :
    ((.ok value : Decoded A) >>= next) = next value := rfl

theorem encodeNni_eq (value : Nat) : encodeNni value = beBytes (minimalWidth value) value := by
  unfold encodeNni minimalWidth
  split
  · rfl
  · split
    · rfl
    · split <;> rfl

theorem decodeNni_encode {value : Nat} (small : value < 2 ^ 64) :
    decodeNniValue codec (encodeNni value) = .ok value := by
  have width := minimalWidth_mem value
  rw [decodeNniValue, encodeNni_eq, codec.decodeNni_width _ (by rw [length_beBytes]; exact width),
    ofBe_beBytes (minimalWidth_fits small)]
  rfl

theorem decodeNameField_encode (name : Name) :
    decodeNameField codec (codec.encodeToTlv name) = .ok name := by
  rw [decodeNameField, NameCodec.encodeToTlv, codec.decodeFromTlv_write]
  rfl

theorem decodeName_encode (name : Name) :
    okOr (codec.decode (codec.encodeValue name)) .malformed = .ok name := by
  rw [codec.decode_encodeValue]
  rfl

theorem readWrapper_write (typ : Nat) (value : List UInt8) :
    readWrapper codec (codec.writeTlv typ value) = .ok (typ, value) := by
  have read := codec.read_write typ value []
  rw [append_nil] at read
  rw [readWrapper, read]

/-- Padding is passed over: what is read is what the fields give one after another. -/
theorem readFields_padded {S : Type} {field : S → Nat → List UInt8 → Decoded S} {known : List Nat}
    (skips : ∀ state typ value, typ ∉ known → field state typ value = pure state) (start : S)
    {fields : List (Nat × List UInt8)} (padded : Padded codec known fields bytes) :
    readFields codec field start bytes =
      fields.foldlM (fun state typed => field state typed.1 typed.2) start := by
  rcases padded with ⟨mixed, rfl, rfl⟩
  rw [readFields, TlvCodec.forEachTlv_filter skips, TlvCodec.forEachTlv_writeAll]

theorem passesOver {S : Type} {field : S → Nat → List UInt8 → Decoded S} {known : List Nat}
    (skips : ∀ state typ value, typ ∉ known → field state typ value = pure state) (start : S)
    (finish : S → Decoded A) :
    PassesOver codec known (fun value => readFields codec field start value >>= finish) := by
  intro padded
  dsimp only
  rw [readFields, TlvCodec.forEachTlv_filter skips, ← readFields]

theorem AdvEntry.field_skips (fields : AdvEntryFields) (typ : Nat) (v : List UInt8)
    (unknown : typ ∉ AdvEntry.known) : AdvEntry.field codec fields typ v = pure fields := by
  simp only [AdvEntry.known, mem_cons, not_mem_nil, or_false, not_or] at unknown
  rw [AdvEntry.field, if_neg unknown.1, if_neg unknown.2.1, if_neg unknown.2.2.1,
    if_neg unknown.2.2.2]

theorem PrefixOpAdd.field_skips (fields : PrefixOpAddFields) (typ : Nat) (v : List UInt8)
    (unknown : typ ∉ PrefixOpAdd.known) : PrefixOpAdd.field codec fields typ v = pure fields := by
  simp only [PrefixOpAdd.known, mem_cons, not_mem_nil, or_false, not_or] at unknown
  rw [PrefixOpAdd.field, if_neg unknown.1, if_neg unknown.2]

theorem PrefixOpRemove.field_skips (name : Option Name) (typ : Nat) (v : List UInt8)
    (unknown : typ ∉ PrefixOpRemove.known) : PrefixOpRemove.field codec name typ v = pure name := by
  simp only [PrefixOpRemove.known, mem_cons, not_mem_nil, or_false] at unknown
  rw [PrefixOpRemove.field, if_neg unknown]

theorem PrefixOpList.field_skips (fields : PrefixOpListFields) (typ : Nat) (v : List UInt8)
    (unknown : typ ∉ PrefixOpList.known) : PrefixOpList.field codec fields typ v = pure fields := by
  simp only [PrefixOpList.known, mem_cons, not_mem_nil, or_false, not_or] at unknown
  rw [PrefixOpList.field, if_neg unknown.1, if_neg unknown.2.1, if_neg unknown.2.2.1,
    if_neg unknown.2.2.2]

theorem Status.field_skips (fields : StatusFields) (typ : Nat) (v : List UInt8)
    (unknown : typ ∉ Status.known) : Status.field codec fields typ v = pure fields := by
  simp only [Status.known, mem_cons, not_mem_nil, or_false, not_or] at unknown
  rw [Status.field, if_neg unknown.1, if_neg unknown.2.1, if_neg unknown.2.2.1,
    if_neg unknown.2.2.2.1, if_neg unknown.2.2.2.2.1, if_neg unknown.2.2.2.2.2]

end Fields

section Values

theorem AdvEntry.decode_carried {entry : AdvEntry} (small : entry.InU64)
    (carried : entry.Carried codec bytes) : AdvEntry.decodeValue codec bytes = .ok entry := by
  have destination : ∀ fields name, AdvEntry.field codec fields tDestination
      (codec.encodeToTlv name) = .ok { fields with destination := some name } := by
    intro fields name
    rw [AdvEntry.field, if_pos rfl, decodeNameField_encode]
    rfl
  have nextHop : ∀ fields name, AdvEntry.field codec fields tNextHop
      (codec.encodeToTlv name) = .ok { fields with nextHop := some name } := by
    intro fields name
    rw [AdvEntry.field, if_neg (by decide), if_pos rfl, decodeNameField_encode]
    rfl
  have cost : ∀ fields, AdvEntry.field codec fields tCost (encodeNni entry.cost) =
      .ok { fields with cost := some entry.cost } := by
    intro fields
    rw [AdvEntry.field, if_neg (by decide), if_neg (by decide), if_pos rfl,
      decodeNni_encode small.1]
    rfl
  have otherCost : ∀ fields, AdvEntry.field codec fields tOtherCost (encodeNni entry.otherCost) =
      .ok { fields with otherCost := some entry.otherCost } := by
    intro fields
    rw [AdvEntry.field, if_neg (by decide), if_neg (by decide), if_neg (by decide), if_pos rfl,
      decodeNni_encode small.2]
    rfl
  rw [AdvEntry.decodeValue, readFields_padded AdvEntry.field_skips _ carried, AdvEntry.fields]
  simp only [foldlM_cons, foldlM_nil, destination, nextHop, cost, otherCost, ok_bind]
  rfl

theorem PrefixOpAdd.decode_carried {add : PrefixOpAdd} (small : add.cost < 2 ^ 64)
    (carried : add.Carried codec bytes) :
    PrefixOpAdd.decodeValue codec bytes = .ok add := by
  have name : ∀ fields, PrefixOpAdd.field codec fields tlvName (codec.encodeValue add.name) =
      .ok { fields with name := some add.name } := by
    intro fields
    rw [PrefixOpAdd.field, if_pos rfl, decodeName_encode]
    rfl
  have cost : ∀ fields, PrefixOpAdd.field codec fields tCost (encodeNni add.cost) =
      .ok { fields with cost := some add.cost } := by
    intro fields
    rw [PrefixOpAdd.field, if_neg (by decide), if_pos rfl, decodeNni_encode small]
    rfl
  rw [PrefixOpAdd.decodeValue, readFields_padded PrefixOpAdd.field_skips _ carried,
    PrefixOpAdd.fields]
  simp only [foldlM_cons, foldlM_nil, name, cost, ok_bind]
  rfl

theorem PrefixOpRemove.decode_carried {rm : PrefixOpRemove}
    (carried : rm.Carried codec bytes) : PrefixOpRemove.decodeValue codec bytes = .ok rm := by
  have name : ∀ fields, PrefixOpRemove.field codec fields tlvName (codec.encodeValue rm.name) =
      .ok (some rm.name) := by
    intro fields
    rw [PrefixOpRemove.field, if_pos rfl, decodeName_encode]
    rfl
  rw [PrefixOpRemove.decodeValue, readFields_padded PrefixOpRemove.field_skips _ carried,
    PrefixOpRemove.fields]
  simp only [foldlM_cons, foldlM_nil, name, ok_bind]
  rfl

/-- A run of items of one type, each of which decodes to its value, is collected in order. -/
theorem foldlM_items {S : Type} {field : S → Nat → List UInt8 → Decoded S} {typ : Nat}
    (push : S → List A → S) {values : List A} {items : List (List UInt8)}
    (decodes : List.Forall₂ (fun value item => ∀ state, field state typ item =
      .ok (push state [value])) values items)
    (none' : ∀ state, push state [] = state)
    (later : ∀ state value rest, push (push state [value]) rest = push state (value :: rest))
    (state : S) :
    (items.map (fun item => (typ, item))).foldlM
      (fun state typed => field state typed.1 typed.2) state =
    (.ok (push state values) : Decoded S) := by
  induction decodes generalizing state with
  | nil => rw [none']; rfl
  | cons first _ ih =>
    rw [map_cons, foldlM_cons, first state, ok_bind, ih, later]

theorem Advertisement.decode_carried {adv : Advertisement} (small : adv.InU64)
    (carried : adv.Carried codec bytes) :
    Advertisement.decodeValue codec bytes = .ok adv := by
  rcases carried with ⟨items, carried, rfl⟩
  have decodes : List.Forall₂ (fun entry item => ∀ entries, Advertisement.field codec entries
      tAdvEntry item = .ok (entries ++ [entry])) adv.entries items := by
    rw [forall₂_iff_zip] at carried ⊢
    refine ⟨carried.1, ?_⟩
    intro entry item mem entries
    rw [Advertisement.field, if_neg (not_not.mpr rfl),
      AdvEntry.decode_carried (small entry (of_mem_zip mem).1) (carried.2 mem)]
    rfl
  have folded := foldlM_items (fun entries more => entries ++ more) decodes append_nil
    (fun _ _ _ => by rw [append_assoc]; rfl) []
  rw [Advertisement.decodeValue, readFields, TlvCodec.forEachTlv_writeAll, folded, ok_bind,
    nil_append]
  rfl

theorem PrefixOpList.decode_carried {ops : PrefixOpList} (small : ops.InU64)
    (carried : ops.Carried codec bytes) :
    PrefixOpList.decodeValue codec bytes = .ok ops := by
  rcases carried with ⟨adds, removes, added, removed, padded⟩
  have exitRouter : ∀ fields, PrefixOpList.field codec fields tDestination
      (codec.encodeToTlv ops.exitRouter) = .ok { fields with exitRouter := some ops.exitRouter } := by
    intro fields
    rw [PrefixOpList.field, if_pos rfl, decodeNameField_encode]
    rfl
  have reset : ∀ fields, fields.reset = false →
      (if ops.reset then [(tPrefixOpReset, [])] else []).foldlM
        (fun state typed => PrefixOpList.field codec state typed.1 typed.2) fields =
          (.ok { fields with reset := ops.reset } : Decoded PrefixOpListFields) := by
    intro fields unset
    cases ops.reset with
    | true => rfl
    | false =>
      cases fields
      cases unset
      rfl
  have addItems : List.Forall₂ (fun add item => ∀ fields, PrefixOpList.field codec fields
      tPrefixOpAdd item = .ok { fields with adds := fields.adds ++ [add] }) ops.adds adds := by
    rw [forall₂_iff_zip] at added ⊢
    refine ⟨added.1, ?_⟩
    intro add item mem fields
    rw [PrefixOpList.field, if_neg (by decide), if_neg (by decide), if_pos rfl,
      PrefixOpAdd.decode_carried (small add (of_mem_zip mem).1) (added.2 mem)]
    rfl
  have removeItems : List.Forall₂ (fun rm item => ∀ fields, PrefixOpList.field codec fields
      tPrefixOpRemove item = .ok { fields with removes := fields.removes ++ [rm] })
      ops.removes removes := by
    rw [forall₂_iff_zip] at removed ⊢
    refine ⟨removed.1, ?_⟩
    intro rm item mem fields
    rw [PrefixOpList.field, if_neg (by decide), if_neg (by decide), if_neg (by decide), if_pos rfl,
      PrefixOpRemove.decode_carried (removed.2 mem)]
    rfl
  have allAdds := foldlM_items
    (fun (fields : PrefixOpListFields) more => { fields with adds := fields.adds ++ more }) addItems
    (fun fields => by rw [append_nil]) (fun _ _ _ => by rw [append_assoc]; rfl)
  have allRemoves := foldlM_items
    (fun (fields : PrefixOpListFields) more => { fields with removes := fields.removes ++ more })
    removeItems (fun fields => by rw [append_nil])
    (fun _ _ _ => by rw [append_assoc]; rfl)
  rw [PrefixOpList.decodeValue, readFields_padded PrefixOpList.field_skips _ padded,
    PrefixOpList.fields, foldlM_cons, exitRouter, ok_bind, foldlM_append, reset _ rfl,
    ok_bind, foldlM_append, allAdds, ok_bind, allRemoves, ok_bind]
  rfl

theorem Status.decode_carried {status : Status} (small : status.InU64)
    (carried : status.Carried codec bytes) : Status.decodeContent codec bytes = .ok status := by
  have version : ∀ fields, Status.field codec fields tVersion (asBytes status.version) =
      .ok { fields with version := some status.version } := by
    intro fields
    rw [Status.field, if_pos rfl, fromUtf8_asBytes]
    rfl
  have networkName : ∀ fields, Status.field codec fields tNetworkName
      (codec.encodeToTlv status.networkName) =
        .ok { fields with networkName := some status.networkName } := by
    intro fields
    rw [Status.field, if_neg (by decide), if_pos rfl, decodeNameField_encode]
    rfl
  have routerName : ∀ fields, Status.field codec fields tRouterName
      (codec.encodeToTlv status.routerName) =
        .ok { fields with routerName := some status.routerName } := by
    intro fields
    rw [Status.field, if_neg (by decide), if_neg (by decide), if_pos rfl, decodeNameField_encode]
    rfl
  have nRibEntries : ∀ fields, Status.field codec fields tNRibEntries
      (encodeNni status.nRibEntries) =
        .ok { fields with nRibEntries := some status.nRibEntries } := by
    intro fields
    rw [Status.field, if_neg (by decide), if_neg (by decide), if_neg (by decide), if_pos rfl,
      decodeNni_encode small.1]
    rfl
  have nNeighbors : ∀ fields, Status.field codec fields tNNeighbors
      (encodeNni status.nNeighbors) = .ok { fields with nNeighbors := some status.nNeighbors } := by
    intro fields
    rw [Status.field, if_neg (by decide), if_neg (by decide), if_neg (by decide),
      if_neg (by decide), if_pos rfl, decodeNni_encode small.2.1]
    rfl
  have nFibEntries : ∀ fields, Status.field codec fields tNFibEntries
      (encodeNni status.nFibEntries) =
        .ok { fields with nFibEntries := some status.nFibEntries } := by
    intro fields
    rw [Status.field, if_neg (by decide), if_neg (by decide), if_neg (by decide),
      if_neg (by decide), if_neg (by decide), if_pos rfl, decodeNni_encode small.2.2]
    rfl
  rw [Status.decodeContent, readFields_padded Status.field_skips _ carried, Status.fields]
  simp only [foldlM_cons, foldlM_nil, version, networkName, routerName, nRibEntries,
    nNeighbors, nFibEntries, ok_bind]
  rfl

end Values

section Encoded

/-- Fields written one after another carry no padding. -/
theorem padded_writeAll {known : List Nat} {fields : List (Nat × List UInt8)}
    (all : ∀ typed ∈ fields, typed.1 ∈ known) : Padded codec known fields (codec.writeAll fields) :=
  ⟨fields, filter_eq_self.mpr (fun typed mem => by simpa using all typed mem), rfl⟩

theorem AdvEntry.writeInto_carried (entry : AdvEntry) :
    ∃ item, entry.Carried codec item ∧ entry.writeInto codec = codec.writeTlv tAdvEntry item := by
  refine ⟨codec.writeAll (entry.fields codec), padded_writeAll ?_, ?_⟩
  · simp [AdvEntry.fields, AdvEntry.known]
  · simp only [AdvEntry.writeInto, AdvEntry.fields, TlvCodec.writeAll, flatMap_cons,
      flatMap_nil, append_nil]
    rfl

theorem PrefixOpAdd.writeInto_carried (add : PrefixOpAdd) :
    ∃ item, add.Carried codec item ∧ add.writeInto codec = codec.writeTlv tPrefixOpAdd item := by
  refine ⟨codec.writeAll (add.fields codec), padded_writeAll ?_, ?_⟩
  · simp [PrefixOpAdd.fields, PrefixOpAdd.known]
  · simp only [PrefixOpAdd.writeInto, PrefixOpAdd.fields, TlvCodec.writeAll, flatMap_cons,
      flatMap_nil, append_nil]
    rfl

theorem PrefixOpRemove.writeInto_carried (rm : PrefixOpRemove) :
    ∃ item, rm.Carried codec item ∧ rm.writeInto codec = codec.writeTlv tPrefixOpRemove item := by
  refine ⟨codec.writeAll (rm.fields codec), padded_writeAll ?_, ?_⟩
  · simp [PrefixOpRemove.fields, PrefixOpRemove.known]
  · simp only [PrefixOpRemove.writeInto, PrefixOpRemove.fields, TlvCodec.writeAll,
      flatMap_cons, flatMap_nil, append_nil]
    rfl

/-- Values written one after another are their items, each in a TLV of one type. -/
theorem flatMap_carried {carries : A → List UInt8 → Prop} {write : A → List UInt8}
    {typ : Nat} (each : ∀ value, ∃ item, carries value item ∧
      write value = codec.writeTlv typ item) (values : List A) :
    ∃ items, List.Forall₂ carries values items ∧
      values.flatMap write = codec.writeAll (items.map (fun item => (typ, item))) := by
  induction values with
  | nil => exact ⟨[], List.Forall₂.nil, rfl⟩
  | cons value rest ih =>
    rcases each value with ⟨item, carried, written⟩
    rcases ih with ⟨items, all, flat⟩
    refine ⟨item :: items, List.Forall₂.cons carried all, ?_⟩
    rw [flatMap_cons, written, flat]
    rfl

theorem Advertisement.encode_carried (adv : Advertisement) :
    adv.Carried codec (adv.encodeContent codec) :=
  flatMap_carried AdvEntry.writeInto_carried adv.entries

theorem writeAll_append (first second : List (Nat × List UInt8)) :
    codec.writeAll (first ++ second) = codec.writeAll first ++ codec.writeAll second :=
  flatMap_append

theorem PrefixOpList.encode_carried (ops : PrefixOpList) :
    ops.Carried codec (ops.encodeContent codec) := by
  rcases flatMap_carried (@PrefixOpAdd.writeInto_carried codec) ops.adds with
    ⟨adds, added, addBytes⟩
  rcases flatMap_carried (@PrefixOpRemove.writeInto_carried codec) ops.removes with
    ⟨removes, removed, removeBytes⟩
  have whole : ops.encodeContent codec = codec.writeAll (ops.fields codec adds removes) := by
    have reset : codec.writeAll (if ops.reset then [(tPrefixOpReset, [])] else []) =
        if ops.reset then codec.writeTlv tPrefixOpReset [] else [] := by
      cases ops.reset with
      | true => exact append_nil _
      | false => rfl
    rw [PrefixOpList.encodeContent, PrefixOpList.fields, addBytes, removeBytes, ← reset,
      ← writeAll_append, ← writeAll_append]
    rfl
  refine ⟨adds, removes, added, removed, ?_⟩
  rw [whole]
  apply padded_writeAll
  intro typed mem
  simp only [PrefixOpList.fields, mem_cons, mem_append, mem_map] at mem
  rcases mem with rfl | mem | ⟨add, -, rfl⟩ | ⟨rm, -, rfl⟩
  · change tDestination ∈ known
    decide
  · split at mem
    · rw [mem_singleton.mp mem]
      decide
    · cases mem
  · change tPrefixOpAdd ∈ known
    decide
  · change tPrefixOpRemove ∈ known
    decide

theorem Status.encode_carried (status : Status) :
    status.Carried codec (status.encodeContent codec) := by
  have whole : status.encodeContent codec = codec.writeAll (status.fields codec) := by
    simp only [Status.encodeContent, Status.fields, TlvCodec.writeAll, flatMap_cons,
      flatMap_nil, append_nil]
    rfl
  rw [whole]
  apply padded_writeAll
  simp [Status.fields, Status.known]

end Encoded

/-- Advertisements, operation lists and status reports are decoded from what was encoded, bare,
wrapped or as a packet, and from any bytes that carry unknown TLVs among their fields. -/
theorem tlv_round_trip (codec : PacketCodec) {adv : Advertisement} {ops : PrefixOpList}
    {status : Status} (advSmall : adv.InU64) (opsSmall : ops.InU64) (statusSmall : status.InU64) :
    Advertisement.decode codec (adv.encode codec) = .ok adv ∧
      Advertisement.decodeContent codec (adv.encodeContent codec) = .ok adv ∧
      PrefixOpList.decode codec (ops.encode codec) = .ok ops ∧
      PrefixOpList.decodeContent codec (ops.encodeContent codec) = .ok ops ∧
      Status.decodeContent codec (status.encodeContent codec) = .ok status ∧
      Packet.decode codec (Packet.encode codec (.advertisement adv)) = .ok (.advertisement adv) ∧
      Packet.decode codec (Packet.encode codec (.prefixOpList ops)) = .ok (.prefixOpList ops) ∧
      (∀ bytes, adv.Carried codec bytes → Advertisement.decodeContent codec bytes = .ok adv) ∧
      (∀ bytes, ops.Carried codec bytes → PrefixOpList.decodeContent codec bytes = .ok ops) ∧
      (∀ bytes, status.Carried codec bytes → Status.decodeContent codec bytes = .ok status) ∧
      PassesOver codec AdvEntry.known (AdvEntry.decodeValue codec) ∧
      PassesOver codec PrefixOpList.known (PrefixOpList.decodeValue codec) ∧
      PassesOver codec PrefixOpAdd.known (PrefixOpAdd.decodeValue codec) ∧
      PassesOver codec PrefixOpRemove.known (PrefixOpRemove.decodeValue codec) ∧
      PassesOver codec Status.known (Status.decodeContent codec) := by
  have advValue := Advertisement.decode_carried advSmall (@Advertisement.encode_carried codec adv)
  have opsValue := PrefixOpList.decode_carried opsSmall (@PrefixOpList.encode_carried codec ops)
  refine ⟨?_, advValue, ?_, opsValue, Status.decode_carried statusSmall status.encode_carried,
    ?_, ?_, fun _ => Advertisement.decode_carried advSmall,
    fun _ => PrefixOpList.decode_carried opsSmall, fun _ => Status.decode_carried statusSmall,
    passesOver AdvEntry.field_skips _ _, passesOver PrefixOpList.field_skips _ _,
    passesOver PrefixOpAdd.field_skips _ _, passesOver PrefixOpRemove.field_skips _ _,
    passesOver Status.field_skips _ _⟩
  · rw [Advertisement.decode, Advertisement.encode, readWrapper_write, ok_bind]
    exact advValue
  · rw [PrefixOpList.decode, PrefixOpList.encode, readWrapper_write, ok_bind]
    exact opsValue
  · rw [Packet.decode, Packet.encode, Advertisement.encode, readWrapper_write, ok_bind]
    change (Advertisement.decodeValue codec (adv.encodeContent codec) >>= _) = _
    rw [advValue]
    rfl
  · rw [Packet.decode, Packet.encode, PrefixOpList.encode, readWrapper_write, ok_bind]
    change (PrefixOpList.decodeValue codec (ops.encodeContent codec) >>= _) = _
    rw [opsValue]
    rfl

/-- Costs of every width, an operation of each kind and a text beyond ASCII. -/
def everyWidth : Advertisement :=
  ⟨[⟨Name.single 1, Name.single 2, 255, 256⟩, ⟨Name.single 3, Name.root, 2 ^ 32, 2 ^ 64 - 1⟩]⟩

def everyOp : PrefixOpList :=
  ⟨Name.single 1, true, [⟨Name.single 7, 65536⟩], [⟨Name.single 8⟩]⟩

def reportedStatus : Status := ⟨"ndnd-0.3é", Name.single 9, Name.single 1, 3, 2, 70000⟩

theorem tlv_round_trip_everyWidth :
    Packet.decode NdnTlv.packetCodec
        (Packet.encode NdnTlv.packetCodec (.advertisement everyWidth)) =
      .ok (.advertisement everyWidth) := by
  have trip := @tlv_round_trip NdnTlv.packetCodec everyWidth everyOp reportedStatus
    (by decide) (by decide) (by decide)
  exact trip.2.2.2.2.2.1

end NdnExt.Dv
