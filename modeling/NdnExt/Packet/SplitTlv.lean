import NdnExt.Packet.VarNumber

/-! Messages made of TLVs, in slices that may not go beyond what they are of. -/

namespace NdnExt

open NdnExt.Lib Outcome List

/-- Of what reads and writes numbers also that a number takes a byte at least. -/
structure TlvNumbers extends VarNumbers where
  size_pos : ∀ {bytes read}, readVaru64 bytes = some read → 0 < read.2

variable {bytes : List UInt8}

namespace NdnTlv

theorem readVaru64_size_pos {read : Nat × Nat}
    (found : readVaru64 bytes = some read) : 0 < read.2 := by
  cases bytes with
  | nil => cases found
  | cons first rest =>
    rw [readVaru64] at found
    split at found
    · cases found
      exact Nat.one_pos
    · rcases Option.map_eq_some_iff.mp found with ⟨_, _, same⟩
      rw [← same]
      exact Nat.succ_pos _

def tlvNumbers : TlvNumbers where
  toVarNumbers := varNumbers
  size_pos := readVaru64_size_pos

end NdnTlv

namespace SplitTlv

/-- `&bytes[start..stop]`. -/
def slice (bytes : List UInt8) (start stop : Nat) : Outcome String (List UInt8) :=
  if start ≤ stop ∧ stop ≤ bytes.length then .ok ((bytes.take stop).drop start) else .panic

variable {start stop : Nat} {buf : List UInt8}

theorem slice_ok (ordered : start ≤ stop)
    (within : stop ≤ bytes.length) :
    slice bytes start stop = .ok ((bytes.take stop).drop start) :=
  if_pos ⟨ordered, within⟩

theorem slice_all (within : start ≤ bytes.length) :
    slice bytes start bytes.length = .ok (bytes.drop start) := by
  rw [slice_ok within (Nat.le_refl _), take_length]

/-- Whether an unrecognized type may be skipped. -/
def skippable (t : Nat) : Bool := t > 31 && t % 2 = 0

/-- One TLV off the head of some bytes: the whole of it, its value, and what is after it. -/
structure Taken where
  typ : Nat
  wire : List UInt8
  value : List UInt8
  rest : List UInt8
  deriving DecidableEq

structure Splitter where
  take : List UInt8 → Outcome String Taken
  shorter : ∀ {bytes taken}, take bytes = .ok taken → taken.rest.length < bytes.length

section Numbers

variable (numbers : TlvNumbers)

def writeTlv (typ : Nat) (value : List UInt8) : List UInt8 :=
  numbers.writeVaru64 typ ++ (numbers.writeVaru64 value.length ++ value)

/-- The type of the TLV at the head of `buf`, and where its value starts and the TLV ends. -/
def splitTlv (buf : List UInt8) : Outcome String (Nat × Nat × Nat) := do
  let (t, tn) ← .okOr (numbers.readVaru64 buf) "truncated TLV type"
  let rest ← slice buf tn buf.length
  let (l, ln) ← .okOr (numbers.readVaru64 rest) "truncated TLV length"
  let start := tn + ln
  -- a length is a `usize` where these have 64 bits
  if start + l ≤ buf.length then .ok (t, start, start + l) else .err "truncated TLV value"

def takeTlv (cur : List UInt8) : Outcome String Taken := do
  let (t, start, stop) ← splitTlv numbers cur
  let value ← slice cur start stop
  let wire ← slice cur 0 stop
  let rest ← slice cur stop cur.length
  .ok ⟨t, wire, value, rest⟩

/-- The bytes are one TLV. -/
def IsTlv (typ : Nat) (wire value : List UInt8) : Prop :=
  ∃ start, splitTlv numbers wire = .ok (typ, start, wire.length) ∧ wire.drop start = value

end Numbers

variable {numbers : TlvNumbers} {typ : Nat} {wire value rest : List UInt8}

/-! ### One TLV -/

/-- What a TLV is read from. -/
theorem splitTlv_eq_ok :
    splitTlv numbers buf = .ok (typ, start, stop) ↔
      ∃ tn l ln, numbers.readVaru64 buf = some (typ, tn) ∧
        numbers.readVaru64 (buf.drop tn) = some (l, ln) ∧ start = tn + ln ∧ stop = start + l ∧
          stop ≤ buf.length := by
  unfold splitTlv
  cases first : numbers.readVaru64 buf with
  | none => simp
  | some read =>
    rcases read with ⟨t, tn⟩
    rw [okOr_some, ok_bind]
    dsimp only
    rw [slice_all (numbers.size_le first), ok_bind]
    cases second : numbers.readVaru64 (buf.drop tn) with
    | none =>
      constructor
      · intro found
        cases found
      · rintro ⟨tn', l, ln, same, found, _⟩
        cases same
        rw [second] at found
        cases found
    | some read =>
      rcases read with ⟨l, ln⟩
      rw [okOr_some, ok_bind]
      constructor
      · intro found
        split at found
        · next within =>
          cases found
          exact ⟨tn, l, ln, rfl, second, rfl, rfl, within⟩
        · cases found
      · rintro ⟨tn', l', ln', same, found, rfl, rfl, within⟩
        cases same
        rw [second] at found
        cases found
        exact if_pos within

theorem splitTlv_bounds
    (found : splitTlv numbers buf = .ok (typ, start, stop)) :
    0 < start ∧ start ≤ stop ∧ stop ≤ buf.length := by
  rcases splitTlv_eq_ok.mp found with ⟨tn, l, ln, first, _, rfl, rfl, within⟩
  have positive := numbers.size_pos first
  omega

theorem splitTlv_ne_panic (buf : List UInt8) : splitTlv numbers buf ≠ .panic := by
  unfold splitTlv
  cases first : numbers.readVaru64 buf with
  | none => simp
  | some read =>
    rw [okOr_some, ok_bind]
    dsimp only
    rw [slice_all (numbers.size_le first), ok_bind]
    cases numbers.readVaru64 (buf.drop read.2) with
    | none => simp
    | some read =>
      rw [okOr_some, ok_bind]
      split <;> simp

/-- What is after a TLV does not change it. -/
theorem splitTlv_append (more : List UInt8)
    (found : splitTlv numbers buf = .ok (typ, start, stop)) :
    splitTlv numbers (buf ++ more) = .ok (typ, start, stop) := by
  rcases splitTlv_eq_ok.mp found with ⟨tn, l, ln, first, second, begins, ends, within⟩
  have inside : tn ≤ buf.length := numbers.size_le first
  refine splitTlv_eq_ok.mpr ⟨tn, l, ln, numbers.append more first, ?_, begins, ends, ?_⟩
  · rw [drop_append_of_le_length inside]
    exact numbers.append more second
  · rw [length_append]
    omega

theorem takeTlv_ok
    (found : splitTlv numbers buf = .ok (typ, start, stop)) :
    takeTlv numbers buf =
      .ok ⟨typ, buf.take stop, (buf.take stop).drop start, buf.drop stop⟩ := by
  rcases splitTlv_bounds found with ⟨_, ordered, within⟩
  unfold takeTlv
  rw [found, ok_bind]
  dsimp only
  rw [slice_ok ordered within, ok_bind, slice_ok (Nat.zero_le _) within, ok_bind,
    slice_all within, ok_bind, drop_zero]

theorem takeTlv_ne_panic (buf : List UInt8) : takeTlv numbers buf ≠ .panic := by
  cases found : splitTlv numbers buf with
  | ok read =>
    rw [takeTlv_ok found]
    intro impossible
    cases impossible
  | err error =>
    unfold takeTlv
    rw [found, err_bind]
    intro impossible
    cases impossible
  | panic => exact absurd found (splitTlv_ne_panic buf)

theorem takeTlv_shorter {taken : Taken}
    (found : takeTlv numbers buf = .ok taken) : taken.rest.length < buf.length := by
  cases split : splitTlv numbers buf with
  | ok read =>
    have bounds := splitTlv_bounds split
    rw [takeTlv_ok split] at found
    cases found
    rw [length_drop]
    omega
  | err error =>
    unfold takeTlv at found
    rw [split, err_bind] at found
    cases found
  | panic => exact absurd split (splitTlv_ne_panic buf)

def tlvSplitter (numbers : TlvNumbers) : Splitter where
  take := takeTlv numbers
  shorter := takeTlv_shorter

theorem IsTlv.ne_nil (tlv : IsTlv numbers typ wire value) : wire ≠ [] := by
  rcases tlv with ⟨start, found, _⟩
  rcases splitTlv_bounds found with ⟨positive, ordered, _⟩
  exact ne_nil_of_length_pos (by omega)

theorem takeTlv_append (tlv : IsTlv numbers typ wire value) (rest : List UInt8) :
    takeTlv numbers (wire ++ rest) = .ok ⟨typ, wire, value, rest⟩ := by
  rcases tlv with ⟨start, found, rfl⟩
  rw [takeTlv_ok (splitTlv_append rest found), take_left, drop_left]

theorem length_le_writeTlv (typ : Nat) (value : List UInt8) :
    value.length ≤ (writeTlv numbers typ value).length := by
  unfold writeTlv
  rw [length_append, length_append]
  omega

theorem isTlv_writeTlv (small : typ < 2 ^ 64)
    (fits : (writeTlv numbers typ value).length < 2 ^ 64) :
    IsTlv numbers typ (writeTlv numbers typ value) value := by
  have short := @length_le_writeTlv numbers typ value
  have first := numbers.append (numbers.writeVaru64 value.length ++ value)
    (numbers.read_write small)
  have second := numbers.append value (numbers.read_write (show value.length < 2 ^ 64 by omega))
  refine ⟨(numbers.writeVaru64 typ).length + (numbers.writeVaru64 value.length).length, ?_, ?_⟩
  · refine splitTlv_eq_ok.mpr ⟨_, value.length, _, first, ?_, rfl, ?_, Nat.le_refl _⟩
    · rw [writeTlv, drop_left]
      exact second
    · rw [writeTlv, length_append, length_append, Nat.add_assoc]
  · rw [writeTlv, ← drop_drop, drop_left, drop_left]

/-! ### TLV after TLV -/

section Fields

variable {S M : Type}

/-- `while !cur.is_empty()`: takes TLV after TLV, each of them with `field`. -/
def eachField (splitter : Splitter) (field : S → Nat → List UInt8 → List UInt8 → Outcome String S)
    (state : S) (cur : List UInt8) : Outcome String S :=
  if cur = [] then .ok state
  else
    match _taken : splitter.take cur with
    | .err error => .err error
    | .panic => .panic
    | .ok tlv => do
      let state ← field state tlv.typ tlv.wire tlv.value
      eachField splitter field state tlv.rest
termination_by cur.length
decreasing_by exact splitter.shorter _taken

/-- Reads the fields of a message, and then looks at what they make together. -/
def decodeFields (splitter : Splitter)
    (field : S → Nat → List UInt8 → List UInt8 → Outcome String S) (start : S)
    (finish : S → Outcome String M) (value : List UInt8) : Outcome String M := do
  let state ← eachField splitter field start value
  finish state

variable {field : S → Nat → List UInt8 → List UInt8 → Outcome String S}

@[simp] theorem eachField_nil (splitter : Splitter) (state : S) :
    eachField splitter field state [] = .ok state := by
  rw [eachField, if_pos rfl]

theorem eachField_taken {splitter : Splitter} {cur : List UInt8} {tlv : Taken}
    (nonempty : cur ≠ []) (taken : splitter.take cur = .ok tlv) (state : S) :
    eachField splitter field state cur = (do
      let state ← field state tlv.typ tlv.wire tlv.value
      eachField splitter field state tlv.rest) := by
  rw [eachField, if_neg nonempty]
  split
  · next found =>
    rw [taken] at found
    cases found
  · next found =>
    rw [taken] at found
    cases found
  · next found =>
    rw [taken] at found
    cases found
    rfl

theorem eachField_tlv (tlv : IsTlv numbers typ wire value) (state : S) (rest : List UInt8) :
    eachField (tlvSplitter numbers) field state (wire ++ rest) = (do
      let state ← field state typ wire value
      eachField (tlvSplitter numbers) field state rest) := by
  have taken : (tlvSplitter numbers).take (wire ++ rest) = .ok ⟨typ, wire, value, rest⟩ :=
    takeTlv_append tlv rest
  exact eachField_taken (append_ne_nil_of_left_ne_nil tlv.ne_nil rest) taken state

/-- TLVs of one kind, each read into the state. -/
theorem eachField_items {A : Type} {items : List A} {written : A → List UInt8} {next : S → A → S}
    (reads : ∀ item ∈ items, ∃ value, IsTlv numbers typ (written item) value ∧
      ∀ state, field state typ (written item) value = .ok (next state item))
    (state : S) (rest : List UInt8) :
    eachField (tlvSplitter numbers) field state (items.flatMap written ++ rest) =
      eachField (tlvSplitter numbers) field (items.foldl next state) rest := by
  induction items generalizing state with
  | nil => rfl
  | cons item more ih =>
    rw [forall_mem_cons] at reads
    rcases reads with ⟨⟨value, tlv, read⟩, later⟩
    rw [flatMap_cons, append_assoc, eachField_tlv tlv, read state, ok_bind,
      foldl_cons]
    exact ih later _

theorem eachField_last (tlv : IsTlv numbers typ wire value) (state : S) :
    eachField (tlvSplitter numbers) field state wire = field state typ wire value := by
  have read := @eachField_tlv numbers typ wire value S field tlv state []
  rw [append_nil] at read
  rw [read]
  cases field state typ wire value with
  | ok next => exact eachField_nil _ next
  | err error => rfl
  | panic => rfl

/-- TLVs of one kind, each added to a list in the state. -/
theorem eachField_pushed {A B : Type} {items : List A} {written : A → List UInt8} {read : A → B}
    {get : S → List B} {put : S → List B → S} (get_put : ∀ state list, get (put state list) = list)
    (put_put : ∀ state list list', put (put state list) list' = put state list')
    (put_get : ∀ state, put state (get state) = state)
    (reads : ∀ item ∈ items, ∃ value, IsTlv numbers typ (written item) value ∧
      ∀ state, field state typ (written item) value = .ok (put state (get state ++ [read item])))
    (state : S) (rest : List UInt8) :
    eachField (tlvSplitter numbers) field state (items.flatMap written ++ rest) =
      eachField (tlvSplitter numbers) field (put state (get state ++ items.map read)) rest := by
  have pushed : ∀ (items : List A) (state : S),
      items.foldl (fun state item => put state (get state ++ [read item])) state =
        put state (get state ++ items.map read) := by
    intro items
    induction items with
    | nil =>
      intro state
      rw [map_nil, append_nil, put_get]
      rfl
    | cons item more ih =>
      intro state
      rw [foldl_cons, ih, get_put, put_put, map_cons, append_assoc]
      rfl
  rw [← pushed]
  exact eachField_items reads state rest

theorem length_le_flatMap {A : Type} {items : List A} {item : A} (written : A → List UInt8)
    (among : item ∈ items) : (written item).length ≤ (items.flatMap written).length :=
  (sublist_flatten_of_mem (mem_map_of_mem among)).length_le

theorem eachField_ne_panic
    (inBounds : ∀ state typ wire value, field state typ wire value ≠ .panic) (state : S)
    (cur : List UInt8) : eachField (tlvSplitter numbers) field state cur ≠ .panic := by
  induction size : cur.length using Nat.strongRecOn generalizing cur state with
  | ind size ih =>
    rw [eachField]
    split
    · simp
    · split
      · simp
      · next found => exact absurd found (takeTlv_ne_panic cur)
      · next tlv found =>
        apply bind_ne_panic (inBounds _ _ _ _)
        intro next
        exact ih _ (size ▸ takeTlv_shorter found) next tlv.rest rfl

/-! ### Unrecognized fields -/

variable (numbers)

/-- The same fields, and TLVs that may be skipped among them: in the message, or in the value of a
field where `nested` relates the values. -/
inductive Padded (known : List Nat) (nested : Nat → List UInt8 → List UInt8 → Prop) :
    List UInt8 → List UInt8 → Prop where
  | nil : Padded known nested [] []
  | kept {typ : Nat} {wire value rest rest' : List UInt8} (tlv : IsTlv numbers typ wire value)
      (more : Padded known nested rest rest') : Padded known nested (wire ++ rest) (wire ++ rest')
  | within {typ : Nat} {wire value wire' value' rest rest' : List UInt8}
      (tlv : IsTlv numbers typ wire value) (tlv' : IsTlv numbers typ wire' value')
      (values : nested typ value value') (more : Padded known nested rest rest') :
      Padded known nested (wire ++ rest) (wire' ++ rest')
  | inserted {typ : Nat} {wire value rest rest' : List UInt8} (tlv : IsTlv numbers typ wire value)
      (unknown : typ ∉ known) (skips : skippable typ = true)
      (more : Padded known nested rest rest') : Padded known nested rest (wire ++ rest')

/-- Between the fields, in the message or in the value of one, is an unrecognized TLV that may not
be skipped. -/
inductive Spoiled (known : List Nat) (nested : Nat → List UInt8 → Prop) : List UInt8 → Prop where
  | inserted {typ : Nat} {wire value rest : List UInt8} (tlv : IsTlv numbers typ wire value)
      (unknown : typ ∉ known) (critical : skippable typ = false) :
      Spoiled known nested (wire ++ rest)
  | within {typ : Nat} {wire value rest : List UInt8} (tlv : IsTlv numbers typ wire value)
      (spoiled : nested typ value) : Spoiled known nested (wire ++ rest)
  | later {typ : Nat} {wire value rest : List UInt8} (tlv : IsTlv numbers typ wire value)
      (more : Spoiled known nested rest) : Spoiled known nested (wire ++ rest)

variable {numbers}

/-- What the reader of a field does with the types it knows, and with the others. -/
structure FieldRules (known : List Nat) (padded : Nat → List UInt8 → List UInt8 → Prop)
    (spoiled : Nat → List UInt8 → Prop)
    (field : S → Nat → List UInt8 → List UInt8 → Outcome String S) : Prop where
  skips : ∀ state typ wire value, typ ∉ known → skippable typ = true →
    field state typ wire value = .ok state
  refuses : ∀ state typ wire value, typ ∉ known → skippable typ = false →
    ∃ error, field state typ wire value = .err error
  padded : ∀ state typ wire value wire' value', padded typ value value' →
    field state typ wire' value' = field state typ wire value
  spoiled : ∀ state typ wire value, spoiled typ value →
    ∃ error, field state typ wire value = .err error
  inBounds : ∀ state typ wire value, field state typ wire value ≠ .panic

variable {known : List Nat} {padded : Nat → List UInt8 → List UInt8 → Prop}
  {spoiled : Nat → List UInt8 → Prop}

theorem eachField_padded (rules : FieldRules known padded spoiled field) {bytes' : List UInt8}
    (same : Padded numbers known padded bytes bytes') (state : S) :
    eachField (tlvSplitter numbers) field state bytes' =
      eachField (tlvSplitter numbers) field state bytes := by
  induction same generalizing state with
  | nil => rfl
  | kept tlv _ ih =>
    rw [eachField_tlv tlv, eachField_tlv tlv]
    congr 1
    funext next
    exact ih next
  | within tlv tlv' values _ ih =>
    rw [eachField_tlv tlv', eachField_tlv tlv, rules.padded state _ _ _ _ _ values]
    congr 1
    funext next
    exact ih next
  | inserted tlv unknown skips _ ih =>
    rw [eachField_tlv tlv, rules.skips state _ _ _ unknown skips, ok_bind]
    exact ih state

theorem eachField_spoiled (rules : FieldRules known padded spoiled field)
    (bad : Spoiled numbers known spoiled bytes) (state : S) :
    ∃ error, eachField (tlvSplitter numbers) field state bytes = .err error := by
  induction bad generalizing state with
  | inserted tlv unknown critical =>
    rcases rules.refuses state _ _ _ unknown critical with ⟨error, refused⟩
    exact ⟨error, by rw [eachField_tlv tlv, refused, err_bind]⟩
  | within tlv bad =>
    rcases rules.spoiled state _ _ _ bad with ⟨error, refused⟩
    exact ⟨error, by rw [eachField_tlv tlv, refused, err_bind]⟩
  | @later typ wire value rest tlv _ ih =>
    rw [eachField_tlv tlv]
    cases read : field state typ wire value with
    | ok next => exact ih next
    | err error => exact ⟨error, rfl⟩
    | panic => exact absurd read (rules.inBounds _ _ _ _)

/-! ### Messages -/

/-- A codec that inverts its writer, up to what the writer does not tell apart; that skips what may
be skipped, refuses what may not, and reads no byte outside its input. -/
structure CodecLaws {M : Type} (fits : M → Prop) (canonical : M → M) (value : M → List UInt8)
    (decode : List UInt8 → Outcome String M) (padded : List UInt8 → List UInt8 → Prop)
    (spoiled : List UInt8 → Prop) : Prop where
  inverts : ∀ message, fits message → decode (value message) = .ok (canonical message)
  skips : ∀ message bytes, fits message → padded (value message) bytes →
    decode bytes = .ok (canonical message)
  refuses : ∀ bytes, spoiled bytes → ∃ error, decode bytes = .err error
  inBounds : ∀ bytes, decode bytes ≠ .panic

variable {start : S} {finish : S → Outcome String M}

section

variable (rules : FieldRules known padded spoiled field)
include rules

theorem decodeFields_padded
    {bytes' : List UInt8} (same : Padded numbers known padded bytes bytes') :
    decodeFields (tlvSplitter numbers) field start finish bytes' =
      decodeFields (tlvSplitter numbers) field start finish bytes := by
  unfold decodeFields
  rw [eachField_padded rules same]

theorem decodeFields_spoiled
    (bad : Spoiled numbers known spoiled bytes) :
    ∃ error, decodeFields (tlvSplitter numbers) field start finish bytes = .err error := by
  rcases eachField_spoiled rules bad start with ⟨error, refused⟩
  unfold decodeFields
  rw [refused]
  exact ⟨error, rfl⟩

theorem decodeFields_ne_panic
    (finishes : ∀ state, finish state ≠ .panic) (bytes : List UInt8) :
    decodeFields (tlvSplitter numbers) field start finish bytes ≠ .panic :=
  bind_ne_panic (eachField_ne_panic rules.inBounds start bytes) finishes

theorem codecLaws_of_rules
    (finishes : ∀ state, finish state ≠ .panic) {fits : M → Prop} {canonical : M → M}
    {value : M → List UInt8}
    (inverts : ∀ message, fits message →
      decodeFields (tlvSplitter numbers) field start finish (value message) =
        .ok (canonical message)) :
    CodecLaws fits canonical value (decodeFields (tlvSplitter numbers) field start finish)
      (Padded numbers known padded) (Spoiled numbers known spoiled) where
  inverts := inverts
  skips message _ fit same := (decodeFields_padded rules same).trans (inverts message fit)
  refuses _ := decodeFields_spoiled rules
  inBounds := decodeFields_ne_panic rules finishes

end

end Fields

end SplitTlv
end NdnExt
