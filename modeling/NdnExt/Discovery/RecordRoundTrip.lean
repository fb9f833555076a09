import NdnExt.Discovery.RecordBytes
import NdnExt.Discovery.ServiceDiscovery

/-! What is read from the bytes of a service record. -/

namespace NdnExt.Discovery

open NdnExt.Lib NdnExt.Lib.Tiling NdnExt.NdnTlv List

/-! ### TLVs that are written -/

theorem numberOf_writeVar {value : Nat} (small : value < 2 ^ 64) (rest : Bytes) :
    numberOf (writeVar value ++ rest) = some (value, (writeVar value).length) := by
  unfold writeVar
  split
  · next one =>
    have below : (UInt8.ofNat value).toNat = value := by
      rw [UInt8.toNat_ofNat', Nat.mod_eq_of_lt (by omega)]
    have other : ∀ b : UInt8, 253 ≤ b.toNat → UInt8.ofNat value ≠ b := by
      rintro b large rfl
      omega
    simp only [singleton_append, numberOf]
    rw [if_neg (other 0xFD (by decide)), if_neg (other 0xFE (by decide)),
      if_neg (other 0xFF (by decide)), below]
    rfl
  · have wide : ∀ width, value < 256 ^ width →
        width ≤ (beBytes width value ++ rest).length ∧
          ofBe ((beBytes width value ++ rest).take width) = value := by
      intro width fits
      have length := length_beBytes width value
      refine ⟨by rw [length_append]; omega, ?_⟩
      rw [take_left' length, ofBe_beBytes fits]
    split
    · next two =>
      rcases wide 2 two with ⟨enough, same⟩
      simp only [cons_append, numberOf]
      rw [if_pos trivial, if_pos enough, same]
      simp
    · split
      · next four =>
        rcases wide 4 four with ⟨enough, same⟩
        simp only [cons_append, numberOf]
        rw [if_neg (by decide), if_pos trivial, if_pos enough, same]
        simp
      · rcases wide 8 small with ⟨enough, same⟩
        simp only [cons_append, numberOf]
        rw [if_neg (by decide), if_neg (by decide), if_pos trivial, if_pos enough, same]
        simp

theorem headerOf_writeTlv {typ : Nat} {value : Bytes} (smallType : typ < 2 ^ 64)
    (small : value.length < 2 ^ 64) (rest : Bytes) :
    headerOf (writeTlv typ value ++ rest) = some (typ % 2 ^ 32, value.length,
      (writeVar typ).length + (writeVar value.length).length) := by
  unfold headerOf writeTlv
  rw [append_assoc, append_assoc, numberOf_writeVar smallType, Option.bind_eq_bind,
    Option.bind_some, drop_left, numberOf_writeVar small]
  rfl

/-- A written TLV is a tile. -/
theorem tiled_writeTlv {typ : Nat} {value rest last : Bytes} {tiles : List (Nat × Bytes)}
    (smallType : typ < 2 ^ 64) (small : value.length < 2 ^ 64)
    (tiled : Tiled headerOf rest tiles last) :
    Tiled headerOf (writeTlv typ value ++ rest) ((typ % 2 ^ 32, value) :: tiles) last := by
  have header := headerOf_writeTlv smallType small rest
  have written : writeTlv typ value ++ rest =
      (writeVar typ ++ writeVar value.length) ++ (value ++ rest) := by
    unfold writeTlv
    simp only [append_assoc]
  have width : (writeVar typ ++ writeVar value.length).length =
      (writeVar typ).length + (writeVar value.length).length := length_append
  have whole : Whole headerOf (writeTlv typ value ++ rest) (typ % 2 ^ 32) value.length
      ((writeVar typ).length + (writeVar value.length).length) := by
    refine ⟨header, (headerOf_spec header).1, ?_⟩
    rw [written, length_append, width, length_append]
    omega
  have more : Tiled headerOf ((writeTlv typ value ++ rest).drop
      ((writeVar typ).length + (writeVar value.length).length + value.length)) tiles last := by
    rw [written, ← width, ← drop_drop, drop_left, drop_left]
    exact tiled
  have tile := Tiled.tile whole more
  rw [written, ← width, drop_left, take_left, ← written] at tile
  exact tile

theorem tiled_nil : Tiled headerOf [] [] [] := .last (not_whole_of_none rfl)

/-! ### Names -/

theorem length_writeTlv (typ : Nat) (value : Bytes) :
    value.length ≤ (writeTlv typ value).length := by
  unfold writeTlv
  rw [length_append, length_append]
  omega

theorem tiled_encodeName {components : List NameComponent}
    (types : ∀ c ∈ components, c.typ < 2 ^ 64)
    (small : (encodeName ⟨components⟩).length < 2 ^ 63) :
    Tiled headerOf (encodeName ⟨components⟩)
      (components.map fun c => (c.typ % 2 ^ 32, c.value)) [] := by
  induction components with
  | nil => exact tiled_nil
  | cons c more ih =>
    have written : encodeName ⟨c :: more⟩ = writeTlv c.typ c.value ++ encodeName ⟨more⟩ := rfl
    rw [written, length_append] at small
    have longer := length_writeTlv c.typ c.value
    rw [written, map_cons]
    exact tiled_writeTlv (types c mem_cons_self) (by omega)
      (ih (fun other among => types other (mem_cons_of_mem _ among)) (by omega))

section

variable {left right : List NameComponent} (same : left.map NameComponent.value = right.map
  NameComponent.value)
include same

theorem uriOf_congr :
    uriOf left = uriOf right := by
  have byValue : ∀ components : List NameComponent, uriOf components =
      (components.map NameComponent.value).flatMap fun value => '/' :: value.flatMap uriByte := by
    intro components
    unfold uriOf
    rw [flatMap_map]
  rw [byValue, byValue, same]

theorem nameOfComponents_congr {fromStr : List Char → Option Name} :
    nameOfComponents fromStr left = nameOfComponents fromStr right := by
  have length := congrArg List.length same
  rw [length_map, length_map] at length
  have empty : left.isEmpty = right.isEmpty := by
    cases left <;> cases right <;> first | rfl | cases length
  unfold nameOfComponents
  rw [uriOf_congr same, empty]

end

/-- A written name is read from its text, which has the values of its components. -/
theorem decodeName_writeNameTlv {fromStr : List Char → Option Name} {name : Name}
    (types : ∀ c ∈ name.components, c.typ < 2 ^ 64)
    (small : (writeNameTlv name).length < 2 ^ 63) :
    decodeName fromStr (writeNameTlv name) =
      .okOr (nameOfComponents fromStr name.components) .malformed := by
  have shorter := (length_writeTlv tlvName (encodeName name)).trans_lt small
  have header : headerOf (writeNameTlv name) = some (tlvName % 2 ^ 32, (encodeName name).length,
      (writeVar tlvName).length + (writeVar (encodeName name).length).length) := by
    have written := headerOf_writeTlv (show tlvName < 2 ^ 64 by decide)
      (shorter.trans (by decide)) []
    rw [append_nil] at written
    exact written
  have seven : (writeNameTlv name).head? = some 7 := rfl
  have whole : ¬ CutHeader (writeNameTlv name) := by
    intro cut
    rw [headerOf_of_cut cut] at header
    cases header
  have width : (writeVar tlvName ++ writeVar (encodeName name).length).length =
      (writeVar tlvName).length + (writeVar (encodeName name).length).length := length_append
  have value : valueOf (writeNameTlv name) (tlvName % 2 ^ 32, (encodeName name).length,
      (writeVar tlvName).length + (writeVar (encodeName name).length).length) =
        encodeName name := by
    unfold valueOf writeNameTlv writeTlv
    rw [← width, ← append_assoc, drop_left, take_length]
  have inside : (writeVar tlvName).length + (writeVar (encodeName name).length).length +
      (encodeName name).length ≤ (writeNameTlv name).length := by
    unfold writeNameTlv writeTlv
    rw [length_append, length_append]
    omega
  have split := (tiled_encodeName types shorter).split_eq
  have last : afterTlvs (encodeName name) = [] := by
    unfold afterTlvs
    rw [show encodeName name = encodeName ⟨name.components⟩ from rfl, split]
  have parts : componentsOf (tlvs (encodeName name)) =
      name.components.map fun c => ⟨c.typ % 2 ^ 32, c.value⟩ := by
    unfold tlvs componentsOf
    rw [show encodeName name = encodeName ⟨name.components⟩ from rfl, split, map_map]
    rfl
  rw [decodeName_eq small, if_neg (not_not.mpr seven), if_neg whole, header]
  dsimp only
  rw [if_pos inside, value, (ending_ok rfl).mpr ⟨last, rfl⟩, Outcome.ok_bind, parts]
  congr 1
  apply nameOfComponents_congr
  rw [map_map]
  rfl

/-! ### Records -/

/-- A record with fields as long as their types. -/
structure ServiceRecord.Fits (record : ServiceRecord) : Prop where
  announcedTypes : ∀ c ∈ record.announcedPrefix.components, c.typ < 2 ^ 64
  nodeTypes : ∀ c ∈ record.nodeName.components, c.typ < 2 ^ 64
  freshness : record.freshnessMs < 2 ^ 64
  version : record.version < 2 ^ 64
  encoded : record.encode.length < 2 ^ 63

theorem readNni_beBytes {value : Nat} (small : value < 2 ^ 64) :
    readNni (beBytes (minimalWidth value) value) = some value := by
  unfold readNni
  rw [length_beBytes, if_pos (minimalWidth_mem value), ofBe_beBytes (minimalWidth_fits small)]

/-- A TLV that is written under a condition. -/
theorem tiled_if (condition : Prop) [Decidable condition] {typ : Nat} {value rest last : Bytes}
    {tiles : List (Nat × Bytes)} (smallType : typ < 2 ^ 32) (small : value.length < 2 ^ 64)
    (tiled : Tiled headerOf rest tiles last) :
    Tiled headerOf ((if condition then writeTlv typ value else []) ++ rest)
      ((if condition then [(typ, value)] else []) ++ tiles) last := by
  split
  · have tile := tiled_writeTlv (smallType.trans (by decide)) small tiled
    rw [Nat.mod_eq_of_lt smallType] at tile
    exact tile
  · exact tiled

def ServiceRecord.tiles (record : ServiceRecord) : List (Nat × Bytes) :=
  (tAnnouncedPrefix, writeNameTlv record.announcedPrefix) ::
    (tSdNodeName, writeNameTlv record.nodeName) ::
      ((if record.freshnessMs > 0 then
          [(tFreshnessMs, beBytes (minimalWidth record.freshnessMs) record.freshnessMs)] else []) ++
        ((if record.capabilities ≠ 0 then [(tSdCapabilities, [record.capabilities])] else []) ++
          ((if record.version > 0 then
            [(tVersion, beBytes (minimalWidth record.version) record.version)] else []) ++ [])))

theorem ServiceRecord.Fits.names {record : ServiceRecord} (fits : record.Fits) :
    (writeNameTlv record.announcedPrefix).length < 2 ^ 63 ∧
      (writeNameTlv record.nodeName).length < 2 ^ 63 := by
  have bound := fits.encoded
  have first := length_writeTlv tAnnouncedPrefix (writeNameTlv record.announcedPrefix)
  have second := length_writeTlv tSdNodeName (writeNameTlv record.nodeName)
  unfold ServiceRecord.encode at bound
  rw [length_append, length_append] at bound
  omega

theorem tiled_encode {record : ServiceRecord} (fits : record.Fits) :
    Tiled headerOf record.encode record.tiles [] := by
  rcases fits.names with ⟨first, second⟩
  have number : ∀ value, (beBytes (minimalWidth value) value).length < 2 ^ 64 := by
    intro value
    have width := minimalWidth_mem value
    rw [length_beBytes]
    simp only [mem_cons, not_mem_nil, or_false] at width
    omega
  have one : [record.capabilities].length < 2 ^ 64 := by
    rw [length_singleton]
    decide
  have version := tiled_if (record.version > 0) (show tVersion < 2 ^ 32 by decide)
    (number record.version) tiled_nil
  have capabilities := tiled_if (record.capabilities ≠ 0)
    (show tSdCapabilities < 2 ^ 32 by decide) one version
  have freshness := tiled_if (record.freshnessMs > 0)
    (show tFreshnessMs < 2 ^ 32 by decide) (number record.freshnessMs) capabilities
  have node := tiled_writeTlv (show tSdNodeName < 2 ^ 64 by decide) (second.trans (by decide))
    freshness
  have tiled := tiled_writeTlv (show tAnnouncedPrefix < 2 ^ 64 by decide) (first.trans (by decide))
    node
  rw [append_nil] at tiled
  exact tiled

section Fields

variable (fromStr : List Char → Option Name)

/-- A name that a field holds is read into the record. -/
theorem field_announcedPrefix (fields : RecordFields) (value : Bytes) :
    fields.field fromStr tAnnouncedPrefix value = decodeName fromStr value >>= fun name =>
      .ok { fields with announcedPrefix := some name } := rfl

theorem field_nodeName (fields : RecordFields) (value : Bytes) :
    fields.field fromStr tSdNodeName value = decodeName fromStr value >>= fun name =>
      .ok { fields with nodeName := some name } := rfl

theorem field_freshnessMs (fields : RecordFields) {value : Nat} (small : value < 2 ^ 64) :
    fields.field fromStr tFreshnessMs (beBytes (minimalWidth value) value) =
      .ok { fields with freshnessMs := value } := by
  unfold RecordFields.field
  rw [if_neg (by decide), if_neg (by decide), if_pos rfl, readNni_beBytes small]
  rfl

theorem field_capabilities (fields : RecordFields) (value : UInt8) :
    fields.field fromStr tSdCapabilities [value] = .ok { fields with capabilities := value } := rfl

theorem field_version (fields : RecordFields) {value : Nat} (small : value < 2 ^ 64) :
    fields.field fromStr tVersion (beBytes (minimalWidth value) value) =
      .ok { fields with version := value } := by
  unfold RecordFields.field
  rw [if_neg (by decide), if_neg (by decide), if_neg (by decide), if_neg (by decide), if_pos rfl,
    readNni_beBytes small]
  rfl

theorem fold_if {S : Type} {field : S → Nat → Bytes → Read S} {condition : Prop}
    [Decidable condition] {tlv : Nat × Bytes} {rest : List (Nat × Bytes)} {state next : S}
    (here : condition → field state tlv.1 tlv.2 = .ok next) (absent : ¬ condition → state = next) :
    ((if condition then [tlv] else []) ++ rest).foldlM
        (fun state tlv => field state tlv.1 tlv.2) state =
      rest.foldlM (fun state tlv => field state tlv.1 tlv.2) next := by
  split
  · next holds =>
    rw [singleton_append, foldlM_cons, here holds]
    rfl
  · next fails => rw [absent fails, nil_append]

/-- A written record is read back, but for its names: these are read from their text. -/
theorem decode_encode {record : ServiceRecord} (fits : record.Fits) :
    ServiceRecord.decode fromStr record.encode = (do
      let announcedPrefix ←
        .okOr (nameOfComponents fromStr record.announcedPrefix.components) .malformed
      let nodeName ← .okOr (nameOfComponents fromStr record.nodeName.components) .malformed
      .ok { record with announcedPrefix := announcedPrefix, nodeName := nodeName }) := by
  rcases fits.names with ⟨first, second⟩
  unfold ServiceRecord.decode
  rw [walkAll_eq _ _ fits.encoded, (tiled_encode fits).split_eq]
  unfold through ServiceRecord.tiles
  rw [foldlM_cons, field_announcedPrefix, decodeName_writeNameTlv fits.announcedTypes first]
  cases nameOfComponents fromStr record.announcedPrefix.components with
  | none => rfl
  | some announcedPrefix =>
    rw [Outcome.okOr_some, Outcome.ok_bind, Outcome.ok_bind, foldlM_cons, field_nodeName,
      decodeName_writeNameTlv fits.nodeTypes second]
    cases nameOfComponents fromStr record.nodeName.components with
    | none => rfl
    | some nodeName =>
      rw [Outcome.okOr_some, Outcome.ok_bind, Outcome.ok_bind,
        fold_if (fun _ => field_freshnessMs fromStr _ fits.freshness),
        fold_if (fun _ => field_capabilities fromStr _ _),
        fold_if (fun _ => field_version fromStr _ fits.version)]
      · rfl
      · intro zero
        rw [Nat.eq_zero_of_not_pos zero]
      · intro zero
        rw [not_not.mp zero]
      · intro zero
        rw [Nat.eq_zero_of_not_pos zero]

end Fields

end NdnExt.Discovery
