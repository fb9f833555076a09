import NdnExt.Lib.Fields
import NdnExt.Ndnsf.Names
import Mathlib.Data.List.Forall2

/-! The messages survive the wire, whatever the order of their fields and whatever else stands
among them. -/

namespace NdnExt.Ndnsf

open NdnExt.Lib NdnExt.Lib.Fields List

abbrev Field := Nat × Bytes

/-! ### What is put on the wire -/

def bytesField (typ : Nat) (value : Bytes) : List Field := if value = [] then [] else [(typ, value)]

def strField (typ : Nat) (text : String) : List Field := bytesField typ (asBytes text)

def boolField (typ : Nat) (value : Bool) : Field := (typ, [if value then 1 else 0])

section Writing

variable (wire : Wire)

def RequestMessage.known : List Nat :=
  [requestIdTyp, userTokenTyp, payloadTyp, strategyTyp, requestModeTyp, targetIdentityTyp,
    providerTokenTyp]

def AckMessage.known : List Nat :=
  [statusTyp, errorInfoTyp, userTokenTyp, providerTokenTyp, payloadTyp]

def SelectionProviderEntry.known : List Nat :=
  [providerNameTyp, providerTokenTyp, assignmentPayloadTyp]

def SelectionMessage.known : List Nat :=
  [providerTokenTyp, requestIdTyp, attemptTyp, selectionProviderEntryTyp]

def ResponseMessage.known : List Nat := [statusTyp, errorInfoTyp, payloadTyp]

def targetField (target : Option Name) : List Field :=
  match target with
  | some name => [(targetIdentityTyp, wire.codec.encodeToTlv name)]
  | none => []

def RequestMessage.fields (message : RequestMessage) : List Field :=
  strField requestIdTyp message.requestId ++ strField userTokenTyp message.userToken ++
    bytesField payloadTyp message.payload ++ [(strategyTyp, [message.strategy.toU8])] ++
    [(requestModeTyp, [message.requestMode.toU8])] ++ targetField wire message.targetProvider ++
    strField providerTokenTyp message.providerToken

def AckMessage.fields (message : AckMessage) : List Field :=
  [boolField statusTyp message.status] ++ strField errorInfoTyp message.errorInfo ++
    strField userTokenTyp message.userToken ++ strField providerTokenTyp message.providerToken ++
    bytesField payloadTyp message.payload

def SelectionProviderEntry.fields (entry : SelectionProviderEntry) : List Field :=
  strField providerNameTyp (wire.toUri entry.providerName) ++
    strField providerTokenTyp entry.providerTokenHash ++
    bytesField assignmentPayloadTyp entry.assignmentPayload

/-- The fields of a selection whose entries are written as `entries`. -/
def SelectionMessage.fields (message : SelectionMessage) (entries : List Bytes) : List Field :=
  strField requestIdTyp message.requestId ++ strField providerTokenTyp message.providerToken ++
    [(attemptTyp, nonneg message.attempt)] ++
    entries.map fun entry => (selectionProviderEntryTyp, entry)

def ResponseMessage.fields (message : ResponseMessage) : List Field :=
  [boolField statusTyp message.status] ++ strField errorInfoTyp message.errorInfo ++
    bytesField payloadTyp message.payload

/-- The fields in any order, with TLVs of other types anywhere among them. -/
def Carries (envelope : Nat) (known : List Nat) (fields : List Field) (bytes : Bytes) : Prop :=
  ∃ others, Rearranged known fields others ∧
    bytes = wire.codec.writeTlv envelope (wire.codec.writeAll others)

def RequestMessage.Carried (message : RequestMessage) : Bytes → Prop :=
  Carries wire requestMsg RequestMessage.known (message.fields wire)

def AckMessage.Carried (message : AckMessage) : Bytes → Prop :=
  Carries wire ackMsg AckMessage.known message.fields

def ResponseMessage.Carried (message : ResponseMessage) : Bytes → Prop :=
  Carries wire responseMsg ResponseMessage.known message.fields

def SelectionProviderEntry.Carried (entry : SelectionProviderEntry) (body : Bytes) : Prop :=
  ∃ others, Rearranged SelectionProviderEntry.known (entry.fields wire) others ∧
    body = wire.codec.writeAll others

/-- The entries of a selection are rearranged each for itself, and keep their order. -/
def SelectionMessage.Carried (message : SelectionMessage) (bytes : Bytes) : Prop :=
  ∃ entries others,
    List.Forall₂ (SelectionProviderEntry.Carried wire) message.providerEntries entries ∧
    Rearranged SelectionMessage.known (message.fields entries) others ∧
    (others.filter fun typed => typed.1 = selectionProviderEntryTyp) =
      entries.map (fun entry => (selectionProviderEntryTyp, entry)) ∧
    bytes = wire.codec.writeTlv selectionMsg (wire.codec.writeAll others)

/-- What a name is read back from: its URI, which is never empty. -/
def Wire.UriRoundTrips (name : Name) : Prop :=
  wire.parseUri (wire.toUri name) = some name ∧ wire.toUri name ≠ ""

end Writing

/-- A message is read back from its encoding, and from any rearrangement of it. -/
structure Survives {M : Type} (encode : M → Bytes) (decode : Bytes → Outcome MsgError M)
    (Carried : M → Bytes → Prop) (message : M) : Prop where
  roundTrip : decode (encode message) = .ok message
  tolerant : ∀ bytes, Carried message bytes → decode bytes = .ok message

section Fields

variable {wire : Wire}

theorem mem_bytesField {typed : Field} {typ : Nat} {value : Bytes} :
    typed ∈ bytesField typ value ↔ value ≠ [] ∧ typed = (typ, value) := by
  unfold bytesField
  split
  · next empty => exact iff_of_false not_mem_nil (fun both => both.1 empty)
  · next present => rw [mem_singleton, and_iff_right present]

theorem pick_bytes {done : List Field} {typ : Nat} {value : Bytes}
    (kept : ∀ typed ∈ bytesField typ value, typed ∈ done) : pick done typ value [] = value := by
  by_cases empty : value = []
  · rw [empty, pick_self]
  · apply pick_of_mem
    apply kept
    rw [bytesField, if_neg empty]
    exact mem_singleton_self _

theorem asBytes_eq_nil {text : String} (empty : asBytes text = []) : text = "" := by
  have read := fromUtf8_asBytes text
  have blank := fromUtf8_asBytes ""
  rw [empty] at read
  exact Option.some.inj (read.symm.trans blank)

theorem pick_str {A : Type} {done : List Field} {typ : Nat} {text : String} {value absent : A}
    (kept : ∀ typed ∈ strField typ text, typed ∈ done) (blank : text = "" → absent = value) :
    pick done typ value absent = value := by
  by_cases empty : asBytes text = []
  · rw [blank (asBytes_eq_nil empty), pick_self]
  · apply pick_of_mem
    apply kept
    rw [strField, bytesField, if_neg empty]
    exact mem_singleton_self _

@[simp] theorem asStr_asBytes (text : String) : asStr (asBytes text) = .ok text := by
  rw [asStr, fromUtf8_asBytes]
  rfl

@[simp] theorem asName_encodeToTlv (name : Name) :
    asName wire (wire.codec.encodeToTlv name) = .ok name := by
  have read := wire.codec.read_write tlvName (wire.codec.encodeValue name) []
  rw [append_nil] at read
  rw [asName, NameCodec.encodeToTlv, read]
  simp [wire.codec.decode_encodeValue]

theorem openEnvelope_write (typ : Nat) (fields : List Field) :
    openEnvelope wire (wire.codec.writeTlv typ (wire.codec.writeAll fields)) typ = .ok fields := by
  have read := wire.codec.read_write typ (wire.codec.writeAll fields) []
  rw [append_nil] at read
  rw [openEnvelope, read]
  dsimp only
  rw [if_neg (by simp), fieldsOf, TlvCodec.forEachTlv_writeAll]
  exact @foldlM_of_steps _ _ _ _ id (fun _ => True) (fun _ _ _ => rfl) fields (fun _ _ => trivial)

theorem nonneg_eq (value : Nat) : nonneg value = beBytes (minimalWidth value) value := by
  unfold nonneg minimalWidth
  by_cases one : value < 2 ^ 8
  · rw [if_pos one, if_pos (by omega)]
  · rw [if_neg one, if_neg (show ¬value ≤ 0xFF by omega)]
    by_cases two : value < 2 ^ 16
    · rw [if_pos two, if_pos (by omega)]
    · rw [if_neg two, if_neg (show ¬value ≤ 0xFFFF by omega)]
      by_cases four : value < 2 ^ 32
      · rw [if_pos four, if_pos (by omega)]
      · rw [if_neg four, if_neg (show ¬value ≤ 0xFFFFFFFF by omega)]

theorem asNonneg_nonneg {value : Nat} (small : value < 2 ^ 64) :
    asNonneg (nonneg value) = value := by
  have width := minimalWidth_mem value
  have length := length_beBytes (minimalWidth value) value
  have bounds : 0 < minimalWidth value ∧ minimalWidth value ≤ 8 := by
    simp only [mem_cons, not_mem_nil, or_false] at width
    omega
  rw [nonneg_eq, asNonneg, if_neg, ofBe_beBytes (minimalWidth_fits small)]
  rintro (empty | long)
  · rw [empty] at length
    exact absurd length (by simpa using Nat.ne_of_lt bounds.1)
  · omega

@[simp] theorem firstByte_bool (value : Bool) :
    firstByte [if value = true then 1 else 0] = 0 ↔ value = false := by
  cases value <;> decide

@[simp] theorem strategy_fromU8_toU8 (strategy : Strategy) : .fromU8 strategy.toU8 = strategy := by
  cases strategy <;> rfl

@[simp] theorem requestMode_fromU8_toU8 (mode : RequestMode) : .fromU8 mode.toU8 = mode := by
  cases mode <;> rfl

/-! ### Encodings as fields -/

theorem writeAll_append (fields more : List Field) :
    wire.codec.writeAll (fields ++ more) = wire.codec.writeAll fields ++ wire.codec.writeAll more :=
  flatMap_append

theorem writeAll_singleton (typed : Field) :
    wire.codec.writeAll [typed] = wire.codec.writeTlv typed.1 typed.2 :=
  flatMap_singleton _ _

theorem writeAll_bytesField (typ : Nat) (value : Bytes) :
    wire.codec.writeAll (bytesField typ value) = putBytes wire typ value := by
  unfold bytesField putBytes
  split
  · rfl
  · exact writeAll_singleton _

theorem mem_targetField {typed : Field} {target : Option Name} :
    typed ∈ targetField wire target ↔
      ∃ name, target = some name ∧ typed = (targetIdentityTyp, wire.codec.encodeToTlv name) := by
  cases target with
  | none => simp [targetField]
  | some name => simp [targetField]

end Fields

section Envelopes

variable {wire : Wire} {M : Type} {envelope : Nat} {known : List Nat} {fields : List Field}

theorem carries_self (own : ∀ typed ∈ fields, typed.1 ∈ known) :
    Carries wire envelope known fields
      (wire.codec.writeTlv envelope (wire.codec.writeAll fields)) :=
  ⟨fields, rearranged_refl own, rfl⟩

/-- Where each field has the message go on, and all of them make it, it is what is decoded. -/
theorem decode_carried {field : M → Field → Outcome MsgError M} {after : List Field → M}
    {message : M}
    (step : ∀ done typed, typed ∈ fields ∨ typed.1 ∉ known →
      field (after done) typed = .ok (after (done ++ [typed])))
    (all : ∀ done, (∀ typed ∈ fields, typed ∈ done) → after done = message) {bytes : Bytes}
    (carries : Carries wire envelope known fields bytes) :
    (openEnvelope wire bytes envelope >>= fun read => read.foldlM field (after [])) =
      .ok message := by
  obtain ⟨others, rearranged, rfl⟩ := carries
  rw [openEnvelope_write, Outcome.ok_bind,
    foldlM_of_steps step (fun _ => rearranged.origin), all others (fun _ => rearranged.kept)]

end Envelopes

section Requests

variable {wire : Wire} {message : RequestMessage} {done : List Field} {typed : Field}

theorem RequestMessage.encode_eq (message : RequestMessage) : message.encode wire =
    wire.codec.writeTlv requestMsg (wire.codec.writeAll (message.fields wire)) := by
  simp only [RequestMessage.encode, RequestMessage.fields, writeAll_append, writeAll_singleton,
    strField, writeAll_bytesField, putStr, putU8]
  cases message.targetProvider with
  | none => rfl
  | some name => simp only [targetField, writeAll_singleton]

/-- What has been read of the message after some of its fields. -/
def RequestMessage.after (message : RequestMessage) (done : List Field) : RequestMessage where
  requestId := pick done requestIdTyp message.requestId ""
  userToken := pick done userTokenTyp message.userToken ""
  payload := pick done payloadTyp message.payload []
  strategy := pick done strategyTyp message.strategy .firstResponding
  requestMode := pick done requestModeTyp message.requestMode .normal
  targetProvider := pick done targetIdentityTyp message.targetProvider none
  providerToken := pick done providerTokenTyp message.providerToken ""

theorem RequestMessage.field_after
    (origin : typed ∈ message.fields wire ∨ typed.1 ∉ RequestMessage.known) :
    RequestMessage.field wire (message.after done) typed =
      .ok (message.after (done ++ [typed])) := by
  rcases origin with member | unknown
  · simp only [RequestMessage.fields, strField, mem_append, mem_bytesField, mem_targetField,
      mem_singleton] at member
    rcases member with (((((⟨-, rfl⟩ | ⟨-, rfl⟩) | ⟨-, rfl⟩) | rfl) | rfl) | ⟨name, named, rfl⟩) |
      ⟨-, rfl⟩ <;>
    simp [RequestMessage.field, RequestMessage.after, firstByte, requestIdTyp, userTokenTyp,
      payloadTyp, strategyTyp, requestModeTyp, targetIdentityTyp, providerTokenTyp, *]
  · simp only [RequestMessage.known, mem_cons, not_mem_nil, or_false, not_or] at unknown
    simp [RequestMessage.field, RequestMessage.after, unknown]

/-- All the fields make the message. -/
theorem RequestMessage.after_all (kept : ∀ typed ∈ message.fields wire, typed ∈ done) :
    message.after done = message := by
  simp only [RequestMessage.fields, forall_mem_append, forall_mem_singleton] at kept
  obtain ⟨⟨⟨⟨⟨⟨id, token⟩, payload⟩, strategy⟩, mode⟩, target⟩, provider⟩ := kept
  have targets : pick done targetIdentityTyp message.targetProvider none =
      message.targetProvider := by
    cases named : message.targetProvider with
    | none => exact pick_self _ _ _
    | some name =>
      exact pick_of_mem _ _ (target _ (mem_targetField.mpr ⟨name, named, rfl⟩))
  rw [RequestMessage.after, pick_str id (fun blank => blank.symm),
    pick_str token (fun blank => blank.symm), pick_bytes payload, pick_of_mem _ _ strategy,
    pick_of_mem _ _ mode, targets, pick_str provider (fun blank => blank.symm)]

theorem RequestMessage.survives (message : RequestMessage) :
    Survives (RequestMessage.encode wire) (RequestMessage.decode wire)
      (RequestMessage.Carried wire) message := by
  have tolerant : ∀ bytes, message.Carried wire bytes →
      RequestMessage.decode wire bytes = .ok message := fun bytes carried =>
    decode_carried (fun _ _ => message.field_after) (fun _ => message.after_all) carried
  refine ⟨tolerant _ ?_, tolerant⟩
  rw [message.encode_eq]
  apply carries_self
  intro typed member
  simp only [RequestMessage.fields, strField, mem_append, mem_bytesField, mem_targetField,
    mem_singleton] at member
  rcases member with (((((⟨-, rfl⟩ | ⟨-, rfl⟩) | ⟨-, rfl⟩) | rfl) | rfl) | ⟨_, -, rfl⟩) |
    ⟨-, rfl⟩ <;>
  simp [RequestMessage.known]

end Requests

section Acks

variable {wire : Wire} {message : AckMessage} {done : List Field} {typed : Field}

theorem AckMessage.encode_eq (message : AckMessage) : message.encode wire =
    wire.codec.writeTlv ackMsg (wire.codec.writeAll message.fields) := by
  simp only [AckMessage.encode, AckMessage.fields, writeAll_append, writeAll_singleton, boolField,
    strField, writeAll_bytesField, putStr, putBool, putU8]

def AckMessage.after (message : AckMessage) (done : List Field) : AckMessage where
  status := pick done statusTyp message.status false
  errorInfo := pick done errorInfoTyp message.errorInfo ""
  userToken := pick done userTokenTyp message.userToken ""
  providerToken := pick done providerTokenTyp message.providerToken ""
  payload := pick done payloadTyp message.payload []

theorem AckMessage.field_after (origin : typed ∈ message.fields ∨ typed.1 ∉ AckMessage.known) :
    AckMessage.field (message.after done) typed = .ok (message.after (done ++ [typed])) := by
  rcases origin with member | unknown
  · simp only [AckMessage.fields, strField, mem_append, mem_bytesField,
      mem_singleton] at member
    rcases member with (((rfl | ⟨-, rfl⟩) | ⟨-, rfl⟩) | ⟨-, rfl⟩) | ⟨-, rfl⟩ <;>
    simp [AckMessage.field, AckMessage.after, boolField, statusTyp, errorInfoTyp, userTokenTyp,
      providerTokenTyp, payloadTyp]
  · simp only [AckMessage.known, mem_cons, not_mem_nil, or_false, not_or] at unknown
    simp [AckMessage.field, AckMessage.after, unknown]

theorem AckMessage.after_all (kept : ∀ typed ∈ message.fields, typed ∈ done) :
    message.after done = message := by
  simp only [AckMessage.fields, forall_mem_append, forall_mem_singleton] at kept
  obtain ⟨⟨⟨⟨status, info⟩, token⟩, provider⟩, payload⟩ := kept
  rw [AckMessage.after, pick_of_mem _ _ status, pick_str info (fun blank => blank.symm),
    pick_str token (fun blank => blank.symm), pick_str provider (fun blank => blank.symm),
    pick_bytes payload]

theorem AckMessage.survives (message : AckMessage) :
    Survives (AckMessage.encode wire) (AckMessage.decode wire) (AckMessage.Carried wire)
      message := by
  have tolerant : ∀ bytes, message.Carried wire bytes →
      AckMessage.decode wire bytes = .ok message := fun bytes carried =>
    decode_carried (fun _ _ => message.field_after) (fun _ => message.after_all) carried
  refine ⟨tolerant _ ?_, tolerant⟩
  rw [message.encode_eq]
  apply carries_self
  intro typed member
  simp only [AckMessage.fields, strField, mem_append, mem_bytesField,
    mem_singleton] at member
  rcases member with (((rfl | ⟨-, rfl⟩) | ⟨-, rfl⟩) | ⟨-, rfl⟩) | ⟨-, rfl⟩ <;>
  simp [AckMessage.known, boolField]

end Acks

section Responses

variable {wire : Wire} {message : ResponseMessage} {done : List Field} {typed : Field}

theorem ResponseMessage.encode_eq (message : ResponseMessage) : message.encode wire =
    wire.codec.writeTlv responseMsg (wire.codec.writeAll message.fields) := by
  simp only [ResponseMessage.encode, ResponseMessage.fields, writeAll_append, writeAll_singleton,
    boolField, strField, writeAll_bytesField, putStr, putBool, putU8]

def ResponseMessage.after (message : ResponseMessage) (done : List Field) : ResponseMessage where
  status := pick done statusTyp message.status false
  errorInfo := pick done errorInfoTyp message.errorInfo ""
  payload := pick done payloadTyp message.payload []

theorem ResponseMessage.field_after
    (origin : typed ∈ message.fields ∨ typed.1 ∉ ResponseMessage.known) :
    ResponseMessage.field (message.after done) typed = .ok (message.after (done ++ [typed])) := by
  rcases origin with member | unknown
  · simp only [ResponseMessage.fields, strField, mem_append, mem_bytesField,
      mem_singleton] at member
    rcases member with (rfl | ⟨-, rfl⟩) | ⟨-, rfl⟩ <;>
    simp [ResponseMessage.field, ResponseMessage.after, boolField, statusTyp, errorInfoTyp,
      payloadTyp]
  · simp only [ResponseMessage.known, mem_cons, not_mem_nil, or_false, not_or] at unknown
    simp [ResponseMessage.field, ResponseMessage.after, unknown]

theorem ResponseMessage.after_all (kept : ∀ typed ∈ message.fields, typed ∈ done) :
    message.after done = message := by
  simp only [ResponseMessage.fields, forall_mem_append, forall_mem_singleton] at kept
  obtain ⟨⟨status, info⟩, payload⟩ := kept
  rw [ResponseMessage.after, pick_of_mem _ _ status, pick_str info (fun blank => blank.symm),
    pick_bytes payload]

theorem ResponseMessage.survives (message : ResponseMessage) :
    Survives (ResponseMessage.encode wire) (ResponseMessage.decode wire)
      (ResponseMessage.Carried wire) message := by
  have tolerant : ∀ bytes, message.Carried wire bytes →
      ResponseMessage.decode wire bytes = .ok message := fun bytes carried =>
    decode_carried (fun _ _ => message.field_after) (fun _ => message.after_all) carried
  refine ⟨tolerant _ ?_, tolerant⟩
  rw [message.encode_eq]
  apply carries_self
  intro typed member
  simp only [ResponseMessage.fields, strField, mem_append, mem_bytesField,
    mem_singleton] at member
  rcases member with (rfl | ⟨-, rfl⟩) | ⟨-, rfl⟩ <;>
  simp [ResponseMessage.known, boolField]

end Responses

section Entries

variable {wire : Wire} {entry : SelectionProviderEntry} {done : List Field} {typed : Field}

def SelectionProviderEntry.after (entry : SelectionProviderEntry) (done : List Field) :
    EntryFields where
  providerName := pick done providerNameTyp (some entry.providerName) none
  providerTokenHash := pick done providerTokenTyp entry.providerTokenHash ""
  assignmentPayload := pick done assignmentPayloadTyp entry.assignmentPayload []

theorem SelectionProviderEntry.field_after (named : wire.UriRoundTrips entry.providerName)
    (origin : typed ∈ entry.fields wire ∨ typed.1 ∉ SelectionProviderEntry.known) :
    EntryFields.field wire (entry.after done) typed.1 typed.2 =
      .ok (entry.after (done ++ [typed])) := by
  rcases origin with member | unknown
  · simp only [SelectionProviderEntry.fields, strField, mem_append,
      mem_bytesField] at member
    rcases member with (⟨-, rfl⟩ | ⟨-, rfl⟩) | ⟨-, rfl⟩ <;>
    simp [EntryFields.field, SelectionProviderEntry.after, providerNameTyp, providerTokenTyp,
      assignmentPayloadTyp, named.1]
  · simp only [SelectionProviderEntry.known, mem_cons, not_mem_nil, or_false,
      not_or] at unknown
    simp [EntryFields.field, SelectionProviderEntry.after, unknown]

/-- The name is always among the fields of an entry. -/
theorem SelectionProviderEntry.after_all (named : wire.UriRoundTrips entry.providerName)
    (kept : ∀ typed ∈ entry.fields wire, typed ∈ done) :
    entry.after done =
      ⟨some entry.providerName, entry.providerTokenHash, entry.assignmentPayload⟩ := by
  simp only [SelectionProviderEntry.fields, forall_mem_append] at kept
  obtain ⟨⟨name, token⟩, payload⟩ := kept
  rw [SelectionProviderEntry.after, pick_str name (fun blank => absurd blank named.2),
    pick_str token (fun blank => blank.symm), pick_bytes payload]

theorem SelectionProviderEntry.decode_carried {body : Bytes}
    (named : wire.UriRoundTrips entry.providerName) (carried : entry.Carried wire body) :
    SelectionProviderEntry.decode wire body = .ok entry := by
  obtain ⟨others, rearranged, rfl⟩ := carried
  have read := @foldlM_of_steps _ _ _
    (fun fields typed => EntryFields.field wire fields typed.1 typed.2) entry.after _
    (fun _ _ => entry.field_after named) others (fun _ => rearranged.origin)
  rw [entry.after_all named (fun _ => rearranged.kept)] at read
  rw [SelectionProviderEntry.decode, TlvCodec.forEachTlv_writeAll]
  have start : entry.after [] = ⟨none, "", []⟩ := by simp [SelectionProviderEntry.after]
  rw [start] at read
  rw [read]
  rfl

def SelectionProviderEntry.body (wire : Wire) (entry : SelectionProviderEntry) : Bytes :=
  wire.codec.writeAll (entry.fields wire)

theorem SelectionProviderEntry.carried_body (entry : SelectionProviderEntry) :
    entry.Carried wire (entry.body wire) := by
  refine ⟨entry.fields wire, rearranged_refl ?_, rfl⟩
  intro typed member
  simp only [SelectionProviderEntry.fields, strField, mem_append, mem_bytesField] at member
  rcases member with (⟨-, rfl⟩ | ⟨-, rfl⟩) | ⟨-, rfl⟩ <;>
  simp [SelectionProviderEntry.known]

theorem SelectionProviderEntry.encode_eq (entry : SelectionProviderEntry) :
    entry.encode wire = wire.codec.writeTlv selectionProviderEntryTyp (entry.body wire) := by
  simp only [SelectionProviderEntry.encode, SelectionProviderEntry.body,
    SelectionProviderEntry.fields, writeAll_append, strField, writeAll_bytesField, putStr]

end Entries

section Selections

variable {wire : Wire} {message : SelectionMessage} {entries : List Bytes} {done : List Field}
  {typed : Field}

theorem SelectionMessage.encode_eq (message : SelectionMessage) : message.encode wire =
    wire.codec.writeTlv selectionMsg (wire.codec.writeAll
      (message.fields (message.providerEntries.map (SelectionProviderEntry.body wire)))) := by
  have written : wire.codec.writeAll ((message.providerEntries.map
      (SelectionProviderEntry.body wire)).map fun entry => (selectionProviderEntryTyp, entry)) =
      message.providerEntries.flatMap (SelectionProviderEntry.encode wire) := by
    rw [TlvCodec.writeAll, map_map, flatMap_map]
    exact flatMap_congr (fun entry _ => (entry.encode_eq).symm)
  simp only [SelectionMessage.encode, SelectionMessage.fields, writeAll_append,
    writeAll_singleton, strField, writeAll_bytesField, putStr, written]

/-- The entry that a field carries. -/
def entryOf (wire : Wire) (typed : Field) : Option SelectionProviderEntry :=
  if typed.1 = selectionProviderEntryTyp then
    match SelectionProviderEntry.decode wire typed.2 with
    | .ok entry => some entry
    | _ => none
  else none

def SelectionMessage.after (wire : Wire) (message : SelectionMessage) (done : List Field) :
    SelectionMessage where
  providerToken := pick done providerTokenTyp message.providerToken ""
  requestId := pick done requestIdTyp message.requestId ""
  providerEntries := done.filterMap (entryOf wire)
  attempt := pick done attemptTyp message.attempt 1

theorem SelectionMessage.field_after (small : message.attempt < 2 ^ 64)
    (readable : ∀ body ∈ entries, ∃ entry, SelectionProviderEntry.decode wire body = .ok entry)
    (origin : typed ∈ message.fields entries ∨ typed.1 ∉ SelectionMessage.known) :
    SelectionMessage.field wire (message.after wire done) typed =
      .ok (message.after wire (done ++ [typed])) := by
  rcases origin with member | unknown
  · simp only [SelectionMessage.fields, strField, mem_append, mem_bytesField,
      mem_singleton, mem_map] at member
    rcases member with ((⟨-, rfl⟩ | ⟨-, rfl⟩) | rfl) | ⟨body, member, rfl⟩
    · simp [SelectionMessage.field, SelectionMessage.after, entryOf, requestIdTyp,
        providerTokenTyp, attemptTyp, selectionProviderEntryTyp]
    · simp [SelectionMessage.field, SelectionMessage.after, entryOf, requestIdTyp,
        providerTokenTyp, attemptTyp, selectionProviderEntryTyp]
    · simp [SelectionMessage.field, SelectionMessage.after, entryOf, requestIdTyp,
        providerTokenTyp, attemptTyp, selectionProviderEntryTyp, asNonneg_nonneg small]
    · obtain ⟨entry, read⟩ := readable body member
      simp [SelectionMessage.field, SelectionMessage.after, entryOf, requestIdTyp,
        providerTokenTyp, attemptTyp, selectionProviderEntryTyp, read]
  · simp only [SelectionMessage.known, mem_cons, not_mem_nil, or_false, not_or] at unknown
    simp [SelectionMessage.field, SelectionMessage.after, entryOf, unknown]

section Ordered

variable {own : List SelectionProviderEntry}

theorem entryOf_entries (read : List.Forall₂
      (fun entry body => SelectionProviderEntry.decode wire body = .ok entry) own entries) :
    (entries.map fun entry => (selectionProviderEntryTyp, entry)).filterMap (entryOf wire) =
      own := by
  induction read with
  | nil => rfl
  | @cons entry body _ _ first _ ih =>
    have decoded : entryOf wire (selectionProviderEntryTyp, body) = some entry := by
      simp [entryOf, first]
    rw [map_cons, filterMap_cons_some decoded, ih]

theorem readable (read : List.Forall₂
      (fun entry body => SelectionProviderEntry.decode wire body = .ok entry) own entries) :
    ∀ body ∈ entries, ∃ entry, SelectionProviderEntry.decode wire body = .ok entry := by
  induction read with
  | nil => exact forall_mem_nil _
  | cons first _ ih => exact forall_mem_cons.mpr ⟨⟨_, first⟩, ih⟩

/-- Fields of other types do not count. -/
theorem entryOf_filter (others : List Field) :
    (others.filter fun typed => typed.1 = selectionProviderEntryTyp).filterMap (entryOf wire) =
      others.filterMap (entryOf wire) := by
  rw [filterMap_filter]
  apply filterMap_congr
  intro typed _
  unfold entryOf
  by_cases entry : typed.1 = selectionProviderEntryTyp <;> simp [entry]

end Ordered

theorem SelectionMessage.decode_carried {bytes : Bytes} (small : message.attempt < 2 ^ 64)
    (named : ∀ entry ∈ message.providerEntries, wire.UriRoundTrips entry.providerName)
    (carried : message.Carried wire bytes) :
    SelectionMessage.decode wire bytes = .ok message := by
  obtain ⟨entries, others, each, rearranged, ordered, rfl⟩ := carried
  have read : List.Forall₂ (fun entry body => SelectionProviderEntry.decode wire body = .ok entry)
      message.providerEntries entries :=
    ((forall₂_and_left _ _).mpr ⟨named, each⟩).imp fun entry body both =>
      entry.decode_carried both.1 both.2
  have step : ∀ (done : List Field) (typed : Field),
      typed ∈ message.fields entries ∨ typed.1 ∉ SelectionMessage.known →
        SelectionMessage.field wire (message.after wire done) typed =
          .ok (message.after wire (done ++ [typed])) :=
    fun _ _ => message.field_after small (readable read)
  have folded := foldlM_of_steps step (fun _ => rearranged.origin)
  have kept := fun (typed : Field) (member : typed ∈ message.fields entries) =>
    rearranged.kept member
  simp only [SelectionMessage.fields, forall_mem_append, forall_mem_singleton] at kept
  obtain ⟨⟨⟨id, token⟩, attempt⟩, _⟩ := kept
  have whole : message.after wire others = message := by
    rw [SelectionMessage.after, pick_str id (fun blank => blank.symm),
      pick_str token (fun blank => blank.symm), pick_of_mem _ _ attempt, ← entryOf_filter, ordered,
      entryOf_entries read]
  rw [SelectionMessage.decode, openEnvelope_write, Outcome.ok_bind]
  exact folded.trans (congrArg _ whole)

theorem SelectionMessage.carried_encode (message : SelectionMessage) :
    message.Carried wire (message.encode wire) := by
  refine ⟨message.providerEntries.map (SelectionProviderEntry.body wire), _, ?_,
    rearranged_refl ?_, ?_, message.encode_eq⟩
  · rw [forall₂_map_right_iff, forall₂_same]
    exact fun entry _ => entry.carried_body
  · intro typed member
    simp only [SelectionMessage.fields, strField, mem_append, mem_bytesField,
      mem_singleton, mem_map] at member
    rcases member with ((⟨-, rfl⟩ | ⟨-, rfl⟩) | rfl) | ⟨_, -, rfl⟩ <;>
    simp [SelectionMessage.known]
  · have others : ∀ typed ∈ strField requestIdTyp message.requestId ++
        strField providerTokenTyp message.providerToken ++ [(attemptTyp, nonneg message.attempt)],
        ¬decide (typed.1 = selectionProviderEntryTyp) = true := by
      intro typed member
      simp only [strField, mem_append, mem_bytesField, mem_singleton] at member
      rcases member with (⟨-, rfl⟩ | ⟨-, rfl⟩) | rfl <;>
      simp [requestIdTyp, providerTokenTyp, attemptTyp, selectionProviderEntryTyp]
    rw [SelectionMessage.fields, filter_append, filter_eq_nil_iff.mpr others,
      nil_append, filter_eq_self]
    intro typed member
    obtain ⟨entry, _, rfl⟩ := mem_map.mp member
    exact decide_eq_true rfl

theorem SelectionMessage.survives (message : SelectionMessage) (small : message.attempt < 2 ^ 64)
    (named : ∀ entry ∈ message.providerEntries, wire.UriRoundTrips entry.providerName) :
    Survives (SelectionMessage.encode wire) (SelectionMessage.decode wire)
      (SelectionMessage.Carried wire) message :=
  ⟨message.decode_carried small named message.carried_encode,
    fun _ => message.decode_carried small named⟩

end Selections

/-- All four messages are read back, whatever stands between their fields and in whatever order;
a selection, where its names are read back from their URIs and its counter is a `u64`. -/
theorem messages_survive (wire : Wire) :
    (∀ message, Survives (RequestMessage.encode wire) (RequestMessage.decode wire)
      (RequestMessage.Carried wire) message) ∧
    (∀ message, Survives (AckMessage.encode wire) (AckMessage.decode wire)
      (AckMessage.Carried wire) message) ∧
    (∀ message : SelectionMessage, message.attempt < 2 ^ 64 →
      (∀ entry ∈ message.providerEntries, wire.UriRoundTrips entry.providerName) →
        Survives (SelectionMessage.encode wire) (SelectionMessage.decode wire)
          (SelectionMessage.Carried wire) message) ∧
    ∀ message, Survives (ResponseMessage.encode wire) (ResponseMessage.decode wire)
      (ResponseMessage.Carried wire) message :=
  ⟨RequestMessage.survives, AckMessage.survives, SelectionMessage.survives,
    ResponseMessage.survives⟩

/-- Two providers are selected at the second attempt. -/
def pinnedSelection : SelectionMessage where
  providerToken := ""
  requestId := "r"
  providerEntries := [⟨plain ["a"], "x", []⟩, ⟨plain ["b"], "", [7]⟩]
  attempt := 2

theorem messages_survive_pinned :
    Survives (SelectionMessage.encode pinnedWire) (SelectionMessage.decode pinnedWire)
      (SelectionMessage.Carried pinnedWire) pinnedSelection := by
  refine (messages_survive pinnedWire).2.2.1 pinnedSelection (by decide) ?_
  intro entry member
  simp only [pinnedSelection, List.mem_cons, List.not_mem_nil, or_false] at member
  rcases member with rfl | rfl
  · exact ⟨by decide, by decide⟩
  · exact ⟨by decide, by decide⟩

end NdnExt.Ndnsf
