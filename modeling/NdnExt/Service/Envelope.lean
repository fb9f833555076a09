import Mathlib.Data.String.Basic
import NdnExt.Lib.Checked
import NdnExt.Service.Framing

/-! The envelope codec as it walks through its bytes: positions, slices and what a cut leaves. -/

namespace NdnExt.Service

open NdnExt.Lib List Metadata

/-- `u32::from_le_bytes` of a slice that has to have four bytes. -/
def u32FromLe {E : Type} (bytes : Bytes) : Outcome E Nat :=
  if bytes.length = 4 then .ok (ofLe bytes) else .panic

/-- `read_field`: its result, and the position that it leaves. -/
def readFieldAt (bytes : Bytes) (pos : Nat) : Checked (Except ServiceError Bytes × Nat) :=
  match endWithin pos 4 bytes.length with
  | none => .ok (.error (.decode "truncated field length"), pos)
  | some headerEnd => do
    let header ← sliceAt bytes pos headerEnd
    let len ← u32FromLe header
    match endWithin headerEnd len bytes.length with
    | none => .ok (.error (.decode "truncated field body"), pos)
    | some fieldEnd => do
      let field ← sliceAt bytes headerEnd fieldEnd
      .ok (.ok field, fieldEnd)

/-- `read_field` with its error passed on. -/
def nextField (bytes : Bytes) (pos : Nat) : Outcome ServiceError (Bytes × Nat) :=
  match readFieldAt bytes pos with
  | .ok (.ok field, pos) => .ok (field, pos)
  | .ok (.error error, _) => .err error
  | .panic => .panic

def readEntriesAt (bytes : Bytes) : Nat → Metadata → Nat → Outcome ServiceError (Metadata × Nat)
  | 0, metadata, pos => .ok (metadata, pos)
  | count + 1, metadata, pos => do
    let (key, pos) ← nextField bytes pos
    let (value, pos) ← nextField bytes pos
    match fromUtf8 key with
    | none => .err (.decode utf8Error)
    | some key => readEntriesAt bytes count (metadata.insert key value) pos

def decodeEnvelopeAt (bytes : Bytes) : Outcome ServiceError (Metadata × Bytes) :=
  match endWithin 0 4 bytes.length with
  | none => .err (.decode "truncated metadata count")
  | some countEnd => do
    let count ← u32FromLe (← sliceAt bytes 0 countEnd)
    let (metadata, pos) ← readEntriesAt bytes count [] countEnd
    let payload ← sliceAt bytes pos bytes.length
    pure (metadata, payload)

/-- Fields that are read one after another. -/
def readFieldsAt (bytes : Bytes) : Nat → Nat → Outcome ServiceError (List Bytes × Nat)
  | 0, pos => .ok ([], pos)
  | count + 1, pos => do
    let (field, pos) ← nextField bytes pos
    let (fields, pos) ← readFieldsAt bytes count pos
    pure (field :: fields, pos)

namespace Metadata

/-- The entries of a map, in the order of their keys. -/
def IsMap (metadata : Metadata) : Prop := (metadata.map Prod.fst).Pairwise (· < ·)

/-- The lengths fit into the 32 bits that frame them. -/
structure Framed (metadata : Metadata) : Prop where
  count : metadata.length < 2 ^ 32
  keys : ∀ entry ∈ metadata, (asBytes entry.1).length < 2 ^ 32
  values : ∀ entry ∈ metadata, entry.2.length < 2 ^ 32

def encodeEntries (metadata : Metadata) : Bytes :=
  metadata.flatMap fun entry => encodeField (asBytes entry.1) ++ encodeField entry.2

end Metadata

structure EnvelopeLaws : Prop where
  decode_encode : ∀ metadata payload, metadata.IsMap → metadata.Framed →
    InMemory (encodeEnvelope metadata payload) →
    decodeEnvelopeAt (encodeEnvelope metadata payload) = .ok (metadata, payload)
  encode_inj : ∀ metadata payload metadata' payload', metadata.IsMap → metadata.Framed →
    metadata'.IsMap → metadata'.Framed →
    encodeEnvelope metadata payload = encodeEnvelope metadata' payload' →
      metadata = metadata' ∧ payload = payload'
  fields : ∀ (front : Bytes) (fields : List Bytes) (more : Bytes),
    (∀ field ∈ fields, field.length < 2 ^ 32) → InMemory (front ++ encodeFields fields ++ more) →
    readFieldsAt (front ++ encodeFields fields ++ more) fields.length front.length =
      .ok (fields, (front ++ encodeFields fields).length)
  readField_returns : ∀ bytes pos, ∃ result next, readFieldAt bytes pos = .ok (result, next) ∧
    (∀ error, result = .error error → next = pos) ∧
    ∀ field, result = .ok field → pos + 4 + field.length = next ∧ next ≤ bytes.length ∧
      field = (bytes.take next).drop (pos + 4)
  decode_returns : ∀ bytes, decodeEnvelopeAt bytes ≠ .panic
  truncated : ∀ metadata payload cut, metadata.IsMap → metadata.Framed →
    InMemory (encodeEnvelope metadata payload) → cut < (encodeEnvelope metadata []).length →
    ∃ error, decodeEnvelopeAt ((encodeEnvelope metadata payload).take cut) = .err error

/-! ### Positions -/

variable {field rest : Bytes} {metadata : Metadata} {cut : Nat}

section Positions

variable {bytes : Bytes} {pos : Nat}

/-- The four bytes of a length. -/
theorem header_at {E : Type} (within : pos + 4 ≤ bytes.length) :
    (sliceAt bytes pos (pos + 4) : Outcome E Bytes) = .ok ((bytes.drop pos).take 4) ∧
      (u32FromLe ((bytes.drop pos).take 4) : Outcome E Nat) = .ok
    (ofLe ((bytes.drop pos).take 4)) := by
  constructor
  · rw [sliceAt_ok (Nat.le_add_right _ _) within, drop_take, Nat.add_sub_cancel_left]
  · have four : ((bytes.drop pos).take 4).length = 4 := by
      rw [length_take, length_drop]
      omega
    rw [u32FromLe, if_pos four]

/-- A field is within the bytes, or nothing is read. -/
theorem readFieldAt_cases (bytes : Bytes) (pos : Nat) :
    (∃ error, readFieldAt bytes pos = .ok (.error error, pos)) ∨
      ∃ len, pos + 4 + len ≤ bytes.length ∧ readFieldAt bytes pos =
        .ok (.ok ((bytes.take (pos + 4 + len)).drop (pos + 4)), pos + 4 + len) := by
  unfold readFieldAt
  cases header : endWithin pos 4 bytes.length with
  | none => exact Or.inl ⟨_, rfl⟩
  | some headerEnd =>
    rcases endWithin_eq_some.mp header with ⟨rfl, within, _⟩
    have read := @header_at bytes pos Empty within
    dsimp only
    rw [read.1, Outcome.ok_bind, read.2, Outcome.ok_bind]
    cases body : endWithin (pos + 4) (ofLe ((bytes.drop pos).take 4)) bytes.length with
    | none => exact Or.inl ⟨_, rfl⟩
    | some fieldEnd =>
      rcases endWithin_eq_some.mp body with ⟨rfl, within', _⟩
      dsimp only
      rw [sliceAt_ok (Nat.le_add_right _ _) within', Outcome.ok_bind]
      exact Or.inr ⟨_, within', rfl⟩

variable {error : ServiceError}

/-- A reading by positions goes as the one of the bytes that are left. -/
def Agrees {α : Type} (bytes : Bytes) (read : Except ServiceError (α × Bytes))
    (readAt : Outcome ServiceError (α × Nat)) : Prop :=
  (∃ error, read = .error error ∧ readAt = .err error) ∨
    ∃ a next, read = .ok (a, bytes.drop next) ∧ readAt = .ok (a, next) ∧ next ≤ bytes.length

theorem nextField_agrees (memory : InMemory bytes) (pos : Nat) :
    Agrees bytes (readField (bytes.drop pos)) (nextField bytes pos) := by
  have length : (bytes.drop pos).length = bytes.length - pos := length_drop
  unfold readField nextField readFieldAt
  split
  · next short => exact Or.inl ⟨_, rfl, by rw [endWithin_of_lt (by omega)]⟩
  · next header =>
    have within : pos + 4 ≤ bytes.length := by omega
    have found := @header_at bytes pos Empty within
    rw [endWithin_of_le within memory]
    dsimp only
    rw [found.1, Outcome.ok_bind, found.2, Outcome.ok_bind, length_drop]
    split
    · next short => exact Or.inl ⟨_, rfl, by rw [endWithin_of_lt (by omega)]⟩
    · next body =>
      have within' : pos + 4 + ofLe ((bytes.drop pos).take 4) ≤ bytes.length := by omega
      rw [endWithin_of_le within' memory]
      dsimp only
      rw [sliceAt_ok (Nat.le_add_right _ _) within', Outcome.ok_bind, drop_drop,
        drop_drop, drop_take, Nat.add_sub_cancel_left]
      exact Or.inr ⟨_, _, rfl, rfl, within'⟩

theorem nextField_cases (bytes : Bytes) (pos : Nat) :
    (∃ error, nextField bytes pos = .err error) ∨
      ∃ field next, next ≤ bytes.length ∧ nextField bytes pos = .ok (field, next) := by
  unfold nextField
  rcases readFieldAt_cases bytes pos with ⟨error, read⟩ | ⟨len, within, read⟩
  · exact Or.inl ⟨error, by rw [read]⟩
  · exact Or.inr ⟨_, _, within, by rw [read]⟩

theorem readEntriesAt_cases (count : Nat) (metadata : Metadata) (within : pos ≤ bytes.length) :
    (∃ error, readEntriesAt bytes count metadata pos = .err error) ∨
      ∃ entries next, next ≤ bytes.length ∧
        readEntriesAt bytes count metadata pos = .ok (entries, next) := by
  induction count generalizing metadata pos with
  | zero => exact Or.inr ⟨metadata, pos, within, rfl⟩
  | succ count ih =>
    rw [readEntriesAt]
    rcases nextField_cases bytes pos with ⟨error, read⟩ | ⟨key, pos, _, read⟩
    · exact Or.inl ⟨error, by rw [read, Outcome.err_bind]⟩
    · rw [read, Outcome.ok_bind]
      dsimp only
      rcases nextField_cases bytes pos with ⟨error, read⟩ | ⟨value, pos, within, read⟩
      · exact Or.inl ⟨error, by rw [read, Outcome.err_bind]⟩
      · rw [read, Outcome.ok_bind]
        cases fromUtf8 key with
        | none => exact Or.inl ⟨_, rfl⟩
        | some key => exact ih _ within

theorem decodeEnvelopeAt_ne_panic (bytes : Bytes) : decodeEnvelopeAt bytes ≠ .panic := by
  unfold decodeEnvelopeAt
  cases header : endWithin 0 4 bytes.length with
  | none => exact fun impossible => by cases impossible
  | some countEnd =>
    rcases endWithin_eq_some.mp header with ⟨rfl, within, _⟩
    have read := @header_at bytes 0 ServiceError within
    dsimp only
    rw [read.1, Outcome.ok_bind, read.2, Outcome.ok_bind]
    rcases @readEntriesAt_cases bytes 4 (ofLe ((bytes.drop 0).take 4)) [] within with
      ⟨error, entries⟩ | ⟨metadata, next, within', entries⟩
    · rw [entries, Outcome.err_bind]
      exact fun impossible => by cases impossible
    · rw [entries, Outcome.ok_bind]
      rw [sliceAt_ok within' (Nat.le_refl _), Outcome.ok_bind]
      exact fun impossible => by cases impossible

/-! ### The positions follow the bytes that are left -/

theorem readEntriesAt_agrees (memory : InMemory bytes) (count : Nat)
    (within : pos ≤ bytes.length) : Agrees bytes (readEntries count metadata (bytes.drop pos))
      (readEntriesAt bytes count metadata pos) := by
  induction count generalizing metadata pos with
  | zero => exact Or.inr ⟨metadata, pos, rfl, rfl, within⟩
  | succ count ih =>
    rw [readEntries, readEntriesAt]
    rcases nextField_agrees memory pos with ⟨error, read, readAt⟩ | ⟨key, pos, read, readAt, _⟩
    · rw [read, readAt]
      exact Or.inl ⟨error, rfl, rfl⟩
    · rw [read, readAt, Outcome.ok_bind]
      dsimp only [bind, Except.bind]
      rcases nextField_agrees memory pos with
        ⟨error, read, readAt⟩ | ⟨value, pos, read, readAt, within⟩
      · rw [read, readAt]
        exact Or.inl ⟨error, rfl, rfl⟩
      · rw [read, readAt]
        cases fromUtf8 key with
        | none => exact Or.inl ⟨_, rfl, rfl⟩
        | some key => exact ih within

theorem decodeEnvelopeAt_agrees (memory : InMemory bytes) :
    (∃ error, decodeEnvelope bytes = .error error ∧ decodeEnvelopeAt bytes = .err error) ∨
      ∃ decoded, decodeEnvelope bytes = .ok decoded ∧ decodeEnvelopeAt bytes = .ok decoded := by
  unfold decodeEnvelope decodeEnvelopeAt
  split
  · next short => exact Or.inl ⟨_, rfl, by rw [endWithin_of_lt (by omega)]⟩
  · next header =>
    have within : 0 + 4 ≤ bytes.length := by omega
    have read := @header_at bytes 0 ServiceError within
    rw [endWithin_of_le within memory]
    dsimp only
    rw [read.1, Outcome.ok_bind, read.2, Outcome.ok_bind, drop_zero]
    rcases @readEntriesAt_agrees [] bytes 4 memory (ofLe (bytes.take 4)) (by omega) with
      ⟨error, read, readAt⟩ | ⟨entries, next, read, readAt, within⟩
    · rw [read, readAt]
      exact Or.inl ⟨error, rfl, rfl⟩
    · rw [read, readAt, Outcome.ok_bind]
      rw [sliceAt_ok within (Nat.le_refl _), Outcome.ok_bind, take_length]
      exact Or.inr ⟨_, rfl, rfl⟩

theorem decodeEnvelopeAt_error {error : ServiceError} (memory : InMemory bytes)
    (decoded : decodeEnvelope bytes = .error error) : decodeEnvelopeAt bytes = .err error := by
  rcases decodeEnvelopeAt_agrees memory with ⟨_, read, readAt⟩ | ⟨_, read, _⟩
  · rw [decoded] at read
    cases read
    exact readAt
  · rw [decoded] at read
    cases read

theorem decodeEnvelopeAt_ok (memory : InMemory bytes) {payload : Bytes}
    (decoded : decodeEnvelope bytes = .ok (metadata, payload)) :
    decodeEnvelopeAt bytes = .ok (metadata, payload) := by
  rcases decodeEnvelopeAt_agrees memory with ⟨_, read, _⟩ | ⟨_, read, readAt⟩
  · rw [decoded] at read
    cases read
  · rw [decoded] at read
    cases read
    exact readAt

end Positions
/-! ### Round trips -/

theorem insert_last {key : String} {value : Bytes}
    (last : ∀ entry ∈ metadata, entry.1 < key) :
    metadata.insert key value = metadata ++ [(key, value)] := by
  induction metadata with
  | nil => rfl
  | cons entry rest ih =>
    have before := last entry mem_cons_self
    rw [Metadata.insert, if_neg (lt_asymm before), if_neg before.ne',
      ih fun later among => last later (mem_cons_of_mem _ among), cons_append]

/-- What is read is put behind the entries before it. -/
theorem readEntries_encode {entries metadata : Metadata} (payload : Bytes)
    (sorted : Metadata.IsMap (metadata ++ entries)) (framed : entries.Framed) :
    readEntries entries.length metadata (entries.encodeEntries ++ payload) =
      .ok (metadata ++ entries, payload) := by
  induction entries generalizing metadata with
  | nil =>
    rw [append_nil]
    rfl
  | cons entry rest ih =>
    have key := framed.keys entry mem_cons_self
    have value := framed.values entry mem_cons_self
    have rest_framed : Metadata.Framed rest :=
      ⟨Nat.lt_of_succ_lt framed.count,
        fun later among => framed.keys later (mem_cons_of_mem _ among),
        fun later among => framed.values later (mem_cons_of_mem _ among)⟩
    have last : ∀ earlier ∈ metadata, earlier.1 < entry.1 := by
      intro earlier among
      rw [Metadata.IsMap, map_append, pairwise_append] at sorted
      exact sorted.2.2 _ (mem_map_of_mem among) _ mem_cons_self
    have split : encodeEntries (entry :: rest) ++ payload = encodeField (asBytes entry.1) ++
        (encodeField entry.2 ++ (encodeEntries rest ++ payload)) := by
      rw [encodeEntries, flatMap_cons, append_assoc, append_assoc]
      rfl
    rw [split, length_cons, readEntries]
    simp only [readField_encode key, readField_encode value, bind, Except.bind, fromUtf8_asBytes]
    rw [insert_last last]
    have next := @ih (metadata ++ [entry]) (by rwa [append_assoc]) rest_framed
    rw [append_assoc] at next
    exact next

theorem decodeEnvelope_encode (payload : Bytes) (sorted : metadata.IsMap)
    (framed : metadata.Framed) :
    decodeEnvelope (encodeEnvelope metadata payload) = .ok (metadata, payload) := by
  have four : (leBytes 4 metadata.length).length = 4 := length_leBytes _ _
  have count : ofLe (leBytes 4 metadata.length) = metadata.length := ofLe_leBytes framed.count
  have entries := @readEntries_encode metadata [] payload sorted framed
  rw [decodeEnvelope, encodeEnvelope, append_assoc, if_neg (by rw [length_append]; omega),
    take_left' four, drop_left' four, count]
  exact entries

theorem nextField_encode {front more : Bytes} (fits : field.length < 2 ^ 32)
    (memory : InMemory (front ++ encodeField field ++ more)) :
    nextField (front ++ encodeField field ++ more) front.length =
      .ok (field, (front ++ encodeField field).length) := by
  have read : readField ((front ++ encodeField field ++ more).drop front.length) =
      .ok (field, more) := by
    rw [append_assoc, drop_left]
    exact readField_encode fits more
  rcases nextField_agrees memory front.length with ⟨_, missed, _⟩ | ⟨_, next, found, readAt, within⟩
  · rw [read] at missed
    cases missed
  · rw [read] at found
    rcases Prod.mk.inj (Except.ok.inj found) with ⟨rfl, rest⟩
    have left := congrArg List.length rest
    simp only [length_append, length_drop] at left within
    rw [readAt, length_append, show next = front.length + (encodeField field).length by omega]

theorem readFieldsAt_encode {front : Bytes} {fields : List Bytes} {more : Bytes}
    (fits : ∀ field ∈ fields, field.length < 2 ^ 32)
    (memory : InMemory (front ++ encodeFields fields ++ more)) :
    readFieldsAt (front ++ encodeFields fields ++ more) fields.length front.length =
      .ok (fields, (front ++ encodeFields fields).length) := by
  induction fields generalizing front with
  | nil =>
    rw [encodeFields, flatMap_nil, append_nil]
    rfl
  | cons field rest ih =>
    have split : front ++ encodeFields (field :: rest) =
        front ++ encodeField field ++ encodeFields rest := by
      rw [encodeFields, flatMap_cons, append_assoc]
      rfl
    rw [split] at memory ⊢
    rw [length_cons, readFieldsAt]
    have first : nextField (front ++ encodeField field ++ encodeFields rest ++ more) front.length =
        .ok (field, (front ++ encodeField field).length) := by
      rw [append_assoc _ (encodeFields rest)] at memory ⊢
      exact nextField_encode (fits field mem_cons_self) memory
    have later := ih (fun other among => fits other (mem_cons_of_mem _ among)) memory
    rw [first, Outcome.ok_bind]
    dsimp only
    rw [later, Outcome.ok_bind]
    rfl

/-! ### Cuts -/

theorem readField_cut (fits : field.length < 2 ^ 32) (rest : Bytes)
    (inside : cut < (encodeField field).length) :
    ∃ error, readField ((encodeField field ++ rest).take cut) = .error error := by
  have four : (leBytes 4 field.length).length = 4 := length_leBytes _ _
  have length : (encodeField field).length = 4 + field.length := by
    rw [encodeField, length_append, four]
  rw [take_append_of_le_length (Nat.le_of_lt inside)]
  have short : ((encodeField field).take cut).length = cut := by
    rw [length_take, Nat.min_eq_left (Nat.le_of_lt inside)]
  by_cases header : cut < 4
  · exact ⟨_, by rw [readField, if_pos (by rw [short]; exact header)]⟩
  · have len : ofLe (((encodeField field).take cut).take 4) = field.length := by
      rw [take_take, Nat.min_eq_left (Nat.le_of_not_lt header), encodeField,
        take_left' four]
      exact ofLe_leBytes fits
    refine ⟨.decode "truncated field body", ?_⟩
    rw [readField, if_neg (by rw [short]; exact header)]
    rw [len, length_drop, short, if_pos (by omega)]

theorem take_field (beyond : (encodeField field).length ≤ cut) :
    (encodeField field ++ rest).take cut =
      encodeField field ++ rest.take (cut - (encodeField field).length) := by
  rw [take_append, take_of_length_le beyond]

/-- Entries that are cut off are missed. -/
theorem readEntries_cut {entries : Metadata} (payload : Bytes) (framed : entries.Framed)
    (inside : cut < entries.encodeEntries.length) (metadata : Metadata) :
    ∃ error, readEntries entries.length metadata ((entries.encodeEntries ++ payload).take cut) =
      .error error := by
  induction entries generalizing metadata cut with
  | nil => cases inside
  | cons entry rest ih =>
    have key := framed.keys entry mem_cons_self
    have value := framed.values entry mem_cons_self
    have rest_framed : Metadata.Framed rest :=
      ⟨Nat.lt_of_succ_lt framed.count,
        fun later among => framed.keys later (mem_cons_of_mem _ among),
        fun later among => framed.values later (mem_cons_of_mem _ among)⟩
    have split : encodeEntries (entry :: rest) = encodeField (asBytes entry.1) ++
        (encodeField entry.2 ++ encodeEntries rest) := by
      rw [encodeEntries, flatMap_cons, append_assoc]
      rfl
    rw [split, length_append, length_append] at inside
    rw [split, append_assoc, append_assoc, length_cons, readEntries]
    by_cases first : cut < (encodeField (asBytes entry.1)).length
    · rcases readField_cut key (encodeField entry.2 ++ (encodeEntries rest ++ payload)) first
        with ⟨error, read⟩
      exact ⟨error, by rw [read]; rfl⟩
    · rw [take_field (Nat.le_of_not_lt first)]
      simp only [readField_encode key, bind, Except.bind]
      by_cases second : cut - (encodeField (asBytes entry.1)).length < (encodeField entry.2).length
      · rcases readField_cut value (encodeEntries rest ++ payload) second with ⟨error, read⟩
        exact ⟨error, by rw [read]⟩
      · rw [take_field (Nat.le_of_not_lt second)]
        simp only [readField_encode value, fromUtf8_asBytes]
        exact ih rest_framed (by omega) _

theorem decodeEnvelope_cut (payload : Bytes) (framed : metadata.Framed)
    (inside : cut < (encodeEnvelope metadata []).length) :
    ∃ error, decodeEnvelope ((encodeEnvelope metadata payload).take cut) = .error error := by
  have four : (leBytes 4 metadata.length).length = 4 := length_leBytes _ _
  have count : ofLe (leBytes 4 metadata.length) = metadata.length := ofLe_leBytes framed.count
  have split : encodeEnvelope metadata payload =
      leBytes 4 metadata.length ++ (metadata.encodeEntries ++ payload) := append_assoc _ _ _
  have length : (encodeEnvelope metadata []).length = 4 + metadata.encodeEntries.length := by
    rw [encodeEnvelope, append_nil, length_append, four]
    rfl
  rw [decodeEnvelope, split]
  by_cases header : cut < 4
  · refine ⟨.decode "truncated metadata count", if_pos ?_⟩
    rw [length_take]
    exact Nat.lt_of_le_of_lt (Nat.min_le_left _ _) header
  · have taken : (leBytes 4 metadata.length ++ (metadata.encodeEntries ++ payload)).take cut =
        leBytes 4 metadata.length ++ (metadata.encodeEntries ++ payload).take (cut - 4) := by
      rw [take_append, four, take_of_length_le (by rw [four]; omega)]
    rw [taken, if_neg (by rw [length_append]; omega), take_left' four,
      drop_left' four, count]
    exact readEntries_cut payload framed (by omega) []

/-- The envelope is read back, told apart, and never read beyond its bytes. -/
theorem envelope_laws : EnvelopeLaws where
  decode_encode := fun _ payload sorted framed memory =>
    decodeEnvelopeAt_ok memory (decodeEnvelope_encode payload sorted framed)
  encode_inj := by
    intro metadata payload metadata' payload' sorted framed sorted' framed' same
    have decoded := decodeEnvelope_encode payload sorted framed
    rw [same, decodeEnvelope_encode payload' sorted' framed'] at decoded
    have both := Prod.mk.inj (Except.ok.inj decoded)
    exact ⟨both.1.symm, both.2.symm⟩
  fields := fun _ _ _ fits memory => readFieldsAt_encode fits memory
  readField_returns := by
    intro bytes pos
    rcases readFieldAt_cases bytes pos with ⟨error, read⟩ | ⟨len, within, read⟩
    · refine ⟨_, _, read, fun _ _ => rfl, ?_⟩
      intro field impossible
      cases impossible
    · refine ⟨_, _, read, ?_, ?_⟩
      · intro error impossible
        cases impossible
      · rintro field ⟨⟩
        refine ⟨?_, within, rfl⟩
        rw [List.length_drop, List.length_take, Nat.min_eq_left within, Nat.add_sub_cancel_left]
  decode_returns := decodeEnvelopeAt_ne_panic
  truncated := by
    intro metadata payload cut _ framed memory inside
    rcases decodeEnvelope_cut payload framed inside with ⟨error, decoded⟩
    refine ⟨error, decodeEnvelopeAt_error ?_ decoded⟩
    exact Nat.lt_of_le_of_lt (List.length_take_le' _ _) memory

end NdnExt.Service
