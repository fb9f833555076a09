import NdnExt.Lib.Checked
import NdnExt.Packet.SplitTlv
import NdnExt.Surface.CatchUp

/-! The frames of sealed and broadcast surfaces, written into their slot, and the parser of
frames. -/

namespace NdnExt.Surface

open NdnExt.Lib Outcome List Nat SplitTlv

inductive SurfaceError where
  | malformed
  deriving DecidableEq

def SurfaceError.display : SurfaceError → String
  | .malformed => "malformed frame on the wire"

def varu64Len (v : Nat) : Nat :=
  if v < 253 then 1 else if v < 0x10000 then 3 else if v < 0x100000000 then 5 else 9

/-- `ndn_tlv`, whose numbers are minimal, and the names of `ndn_packet`. -/
structure FrameCodec extends TlvNumbers where
  componentTlv : NameComponent → Bytes
  decodeName : Bytes → Option Name
  write_length : ∀ {value}, value < 2 ^ 64 → (writeVaru64 value).length = varu64Len value
  write_small : ∀ {value}, value < 253 → writeVaru64 value = [UInt8.ofNat value]
  component_small : ∀ component, component.typ < 253 → component.value.length < 253 →
    componentTlv component =
      UInt8.ofNat component.typ :: UInt8.ofNat component.value.length :: component.value
  decode_components : ∀ name, decodeName (name.components.flatMap componentTlv) = some name

def tlvData : Nat := 6

def tlvContent : Nat := 21

/-- `write_varu64` or `copy_from_slice` at the position, which it moves on. -/
def put (out : Bytes × Nat) (part : Bytes) : Checked (Bytes × Nat) := do
  let bytes ← copyInto out.1 out.2 part
  pure (bytes, out.2 + part.length)

def encodeVersionComponent (seq : UInt64) (out : Bytes) : Checked (Bytes × Nat) := do
  let (out, pos) ← put (out, 0) [0x36]
  let vlen := minimalWidth seq.toNat
  let (out, pos) ← put (out, pos) [UInt8.ofNat vlen]
  let be ← sliceAt (beBytes 8 seq.toNat) (8 - vlen) 8
  let (out, _) ← put (out, pos) be
  pure (out, 2 + vlen)

def fastInlineLen (compsLen vcompLen contentLen : Nat) : Nat :=
  let nameValue := compsLen + vcompLen
  let contentTlv := 1 + varu64Len contentLen + contentLen
  let inner := 1 + varu64Len nameValue + nameValue + contentTlv
  1 + varu64Len inner + inner

def isEos (wire : Bytes) : Bool := wire = [0]

namespace FrameCodec

variable (codec : FrameCodec)

def components (name : Name) : Bytes := name.components.flatMap codec.componentTlv

def encodeToTlv (name : Name) : Bytes :=
  codec.writeVaru64 tlvName ++
    (codec.writeVaru64 (codec.components name).length ++ codec.components name)

/-- Where a number cannot be read, `expect` panics. -/
def nameComponentsTlv (name : Name) : Checked Bytes := do
  let full := codec.encodeToTlv name
  let (_, n1) ← .checked (codec.readVaru64 full)
  let rest ← sliceAt full n1 full.length
  let (_, n2) ← .checked (codec.readVaru64 rest)
  sliceAt full (n1 + n2) full.length

def encodeFastInline (comps vcomp content out : Bytes) : Checked Bytes := do
  let nameValue := comps.length + vcomp.length
  let contentTlv := 1 + varu64Len content.length + content.length
  let inner := 1 + varu64Len nameValue + nameValue + contentTlv
  let out ← put (out, 0) [UInt8.ofNat tlvData]
  let out ← put out (codec.writeVaru64 inner)
  let out ← put out [UInt8.ofNat tlvName]
  let out ← put out (codec.writeVaru64 nameValue)
  let out ← put out comps
  let out ← put out vcomp
  let out ← put out [UInt8.ofNat tlvContent]
  let out ← put out (codec.writeVaru64 content.length)
  let (out, _) ← put out content
  pure out

/-- What `publish` writes into the slot of a sealed or broadcast surface. -/
def sealedFrame (name : Name) (seq : UInt64) (content slot : Bytes) : Checked Bytes := do
  let comps ← codec.nameComponentsTlv name
  let (vbuf, vlen) ← encodeVersionComponent seq (List.replicate 10 0)
  let vcomp ← sliceAt vbuf 0 vlen
  codec.encodeFastInline comps vcomp content slot

/-- The size of that slot. -/
def sealedLen (name : Name) (seq : UInt64) (content : Bytes) : Nat :=
  fastInlineLen (codec.components name).length (2 + minimalWidth seq.toNat) content.length

/-! ### The parser -/

def readAt (buf : Bytes) (pos : Nat) : Outcome SurfaceError (Nat × Nat) := do
  let rest ← sliceAt buf pos buf.length
  let (v, n) ← .okOr (codec.readVaru64 rest) .malformed
  pure (v, pos + n)

/-- One TLV: its type and value, and where it ends. -/
def fieldAt (wire : Bytes) (pos : Nat) : Outcome SurfaceError (Nat × Bytes × Nat) := do
  let (typ, pos) ← codec.readAt wire pos
  let (len, start) ← codec.readAt wire pos
  let stop ← .okOr (endWithin start len wire.length) .malformed
  let value ← sliceAt wire start stop
  pure (typ, value, stop)

variable {codec} in
theorem readAt_eq_ok {buf : Bytes} {pos v next : Nat} (within : pos ≤ buf.length) :
    codec.readAt buf pos = .ok (v, next) ↔
      ∃ n, codec.readVaru64 (buf.drop pos) = some (v, n) ∧ next = pos + n := by
  rw [readAt, sliceAt_ok within (le_refl _), take_length, ok_bind]
  cases codec.readVaru64 (buf.drop pos) with
  | none => simp
  | some read =>
    rcases read with ⟨v', n⟩
    simp [eq_comm]

variable {codec} in
theorem readAt_within {buf : Bytes} {pos v next : Nat} (within : pos ≤ buf.length)
    (read : codec.readAt buf pos = .ok (v, next)) : pos < next ∧ next ≤ buf.length := by
  rcases (readAt_eq_ok within).mp read with ⟨n, found, rfl⟩
  have size := codec.size_le found
  have positive := codec.size_pos found
  rw [length_drop] at size
  omega

variable {codec} in
/-- A TLV goes on, within the bytes, and has its value there. -/
theorem fieldAt_within {wire : Bytes} {pos typ stop : Nat} {value : Bytes}
    (within : pos ≤ wire.length) (read : codec.fieldAt wire pos = .ok (typ, value, stop)) :
    pos < stop ∧ stop ≤ wire.length ∧ value <:+: wire := by
  rcases bind_eq_ok.mp read with ⟨⟨t, p⟩, first, read⟩
  rcases bind_eq_ok.mp read with ⟨⟨len, start⟩, second, read⟩
  rcases bind_eq_ok.mp read with ⟨stop', found, read⟩
  rcases endWithin_eq_some.mp (okOr_eq_ok.mp found) with ⟨rfl, last, _⟩
  have at_typ := readAt_within within first
  have at_len := readAt_within at_typ.2 second
  rw [sliceAt_ok (le_add_right _ _) last, ok_bind] at read
  cases read
  refine ⟨by omega, last, ?_⟩
  exact (drop_suffix _ _).isInfix.trans ( take_prefix _ _).isInfix

/-- Walks the fields to the end of the wire: the last name and the last content are kept. -/
def parseFields (wire : Bytes) (pos : Nat) (name : Option Name) (content : Option Bytes) :
    Outcome SurfaceError (Name × Bytes) :=
  if _ : pos < wire.length then
    match _ : codec.fieldAt wire pos with
    | .panic => .panic
    | .err error => .err error
    | .ok (typ, value, stop) =>
      if typ = tlvName then
        match codec.decodeName value with
        | none => .err .malformed
        | some name => parseFields wire stop (some name) content
      else if typ = tlvContent then parseFields wire stop name (some value)
      else parseFields wire stop name content
  else
    match name with
    | none => .err .malformed
    | some name => .ok (name, content.getD [])
termination_by wire.length - pos
decreasing_by
  all_goals
    have goes :=
      fieldAt_within (Nat.le_of_lt ‹pos < wire.length›) ‹codec.fieldAt wire pos = _›
    omega

def parseFrame (wire : Bytes) : Outcome SurfaceError (Name × Bytes) := do
  let (typ, pos) ← codec.readAt wire 0
  if typ ≠ tlvData then .err .malformed
  else
    let (_, pos) ← codec.readAt wire pos
    codec.parseFields wire pos none none

def decodeNameTlv (full : Bytes) : Checked (Option Name) :=
  match codec.readVaru64 full with
  | none => .ok none
  | some (typ, n1) =>
    if typ ≠ tlvName then .ok none
    else do
      let rest ← sliceAt full n1 full.length
      match codec.readVaru64 rest with
      | none => .ok none
      | some (len, n2) =>
        match endWithin (n1 + n2) len full.length with
        | none => .ok none
        | some stop => do
          let value ← sliceAt full (n1 + n2) stop
          .ok (codec.decodeName value)

/-- The frames of a sealed surface are read back, and no bytes are read beyond their end. -/
structure FrameLaws : Prop where
  sealed : ∀ (name : Name) (seq : UInt64) (content slot : Bytes),
    slot.length = codec.sealedLen name seq content → InMemory slot →
    ∃ frame, (∀ slot' : Bytes, slot'.length = slot.length →
        codec.sealedFrame name seq content slot' = .ok frame) ∧
      frame.length = slot.length ∧
      codec.parseFrame frame = .ok (appendVersion name seq, content) ∧ isEos frame = false
  version : ∀ name seq, versionOf (appendVersion name seq) = some seq
  parse : ∀ wire, codec.parseFrame wire ≠ .panic ∧
    ∀ name content, codec.parseFrame wire = .ok (name, content) → content <:+: wire
  nameTlv : ∀ full, codec.decodeNameTlv full ≠ .panic

variable {codec}

/-! ### Writing -/

theorem put_next {done slot part : Bytes} (fits : (done ++ part).length ≤ slot.length) :
    put (done ++ slot.drop done.length, done.length) part =
      .ok (done ++ part ++ slot.drop (done ++ part).length, (done ++ part).length) := by
  rw [length_append] at fits
  have room : part.length ≤ (slot.drop done.length).length := by
    rw [length_drop]
    omega
  rw [put, copyInto_append room, ok_bind, drop_drop, ← length_append]
  rfl

theorem put_first {slot part : Bytes} (fits : part.length ≤ slot.length) :
    put (slot, 0) part = .ok (part ++ slot.drop part.length, part.length) :=
  @put_next [] slot part fits

def versionTlv (seq : UInt64) : Bytes :=
  [0x36] ++ [UInt8.ofNat (minimalWidth seq.toNat)] ++ minimalSlice seq.toNat

theorem length_versionTlv (seq : UInt64) :
    (versionTlv seq).length = 2 + minimalWidth seq.toNat := by
  rw [versionTlv, length_append, minimalSlice_eq, length_beBytes]
  rfl

/-- The last bytes of the number are sliced off. -/
theorem encodeVersionComponent_eq (seq : UInt64) :
    ∃ rest, encodeVersionComponent seq (List.replicate 10 0) =
      .ok (versionTlv seq ++ rest, (versionTlv seq).length) := by
  have width := minimalWidth_mem seq.toNat
  have length := length_versionTlv seq
  have small : minimalWidth seq.toNat ≤ 8 := by
    simp only [mem_cons, not_mem_nil, or_false] at width
    omega
  have slice : (sliceAt (beBytes 8 seq.toNat) (8 - minimalWidth seq.toNat) 8 : Checked Bytes) =
      .ok (minimalSlice seq.toNat) := by
    have drop := drop_beBytes (minimalWidth seq.toNat) (8 - minimalWidth seq.toNat) seq.toNat
    rw [Nat.sub_add_cancel small] at drop
    rw [sliceAt_ok (Nat.sub_le _ _) (Nat.le_of_eq (length_beBytes _ _).symm), minimalSlice_eq,
      ← drop, take_of_length_le (Nat.le_of_eq (length_beBytes _ _))]
  have first : put (List.replicate 10 0, 0) [0x36] =
      .ok ([0x36] ++ (List.replicate 10 0).drop 1, 1) := put_first (by decide)
  have second : put ([0x36] ++ (List.replicate 10 0).drop 1, 1)
      [UInt8.ofNat (minimalWidth seq.toNat)] =
        .ok ([0x36] ++ [UInt8.ofNat (minimalWidth seq.toNat)] ++ (List.replicate 10 0).drop 2, 2) :=
    @put_next [0x36] (List.replicate 10 0) [UInt8.ofNat (minimalWidth seq.toNat)]
      (show 2 ≤ 10 by decide)
  have room : (versionTlv seq).length ≤ (List.replicate 10 (0 : UInt8)).length := by
    rw [length, length_replicate]
    omega
  have third : put ([0x36] ++ [UInt8.ofNat (minimalWidth seq.toNat)] ++
      (List.replicate 10 0).drop 2, 2) (minimalSlice seq.toNat) =
        .ok (versionTlv seq ++ (List.replicate 10 0).drop (versionTlv seq).length,
          (versionTlv seq).length) :=
    @put_next ([0x36] ++ [UInt8.ofNat (minimalWidth seq.toNat)]) (List.replicate 10 0)
      (minimalSlice seq.toNat) room
  refine ⟨(List.replicate 10 0).drop (versionTlv seq).length, ?_⟩
  unfold encodeVersionComponent
  rw [first, ok_bind]
  dsimp only
  rw [second, ok_bind]
  rw [slice, ok_bind]
  rw [third, ok_bind, length]
  rfl

section Writing

variable {comps vcomp content out : Bytes}

/-- A frame: its parts in the order in which they are written. -/
def frameBytes (codec : FrameCodec) (comps vcomp content : Bytes) : Bytes :=
  let nameValue := comps.length + vcomp.length
  let contentTlv := 1 + varu64Len content.length + content.length
  let inner := 1 + varu64Len nameValue + nameValue + contentTlv
  [UInt8.ofNat tlvData] ++ codec.writeVaru64 inner ++ [UInt8.ofNat tlvName] ++
    codec.writeVaru64 nameValue ++ comps ++ vcomp ++ [UInt8.ofNat tlvContent] ++
    codec.writeVaru64 content.length ++ content

theorem length_frameBytes
    (memory : fastInlineLen comps.length vcomp.length content.length < 2 ^ 63) :
    (codec.frameBytes comps vcomp content).length =
      fastInlineLen comps.length vcomp.length content.length := by
  unfold fastInlineLen at memory ⊢
  dsimp only at memory ⊢
  unfold frameBytes
  simp only [length_append, length_singleton]
  rw [codec.write_length (by omega), codec.write_length (by omega), codec.write_length (by omega)]
  omega

theorem encodeFastInline_eq (memory : InMemory out)
    (sized : out.length = fastInlineLen comps.length vcomp.length content.length) :
    codec.encodeFastInline comps vcomp content out =
      .ok (codec.frameBytes comps vcomp content) := by
  have length : (codec.frameBytes comps vcomp content).length = out.length := by
    rw [sized]
    exact length_frameBytes (by rw [← sized]; exact memory)
  have sizes := length
  unfold frameBytes at sizes
  simp only [length_append, length_singleton] at sizes
  unfold encodeFastInline
  rw [put_first (by rw [length_singleton]; omega), ok_bind]
  repeat rw [put_next (by simp only [length_append, length_singleton]; omega),
    ok_bind]
  change ok (codec.frameBytes comps vcomp content ++
    out.drop (codec.frameBytes comps vcomp content).length) = _
  rw [length, drop_length, append_nil]

end Writing

/-! ### Reading back -/

section Reading

variable {front value back : Bytes} {typ : Nat}

theorem readAt_write {v : Nat} (small : v < 2 ^ 64) :
    codec.readAt (front ++ (codec.writeVaru64 v ++ back)) front.length =
      .ok (v, (front ++ codec.writeVaru64 v).length) := by
  have within : front.length ≤ (front ++ (codec.writeVaru64 v ++ back)).length := by
    rw [length_append]
    exact le_add_right _ _
  have read := codec.append back (codec.read_write small)
  refine (readAt_eq_ok within).mpr ⟨(codec.writeVaru64 v).length, ?_, length_append⟩
  rw [drop_left]
  exact read

theorem fieldAt_tlv (known : typ < 2 ^ 64)
    (memory : InMemory (front ++ (writeTlv codec.toTlvNumbers typ value ++ back))) :
    codec.fieldAt (front ++ (writeTlv codec.toTlvNumbers typ value ++ back)) front.length =
      .ok (typ, value, (front ++ writeTlv codec.toTlvNumbers typ value).length) := by
  have sizes := memory
  unfold InMemory writeTlv at sizes
  simp only [length_append] at sizes
  have first :=
    @readAt_write codec front (codec.writeVaru64 value.length ++ (value ++ back)) typ known
  have second := @readAt_write codec (front ++ codec.writeVaru64 typ) (value ++ back) value.length
    (by omega)
  have split : front ++ (writeTlv codec.toTlvNumbers typ value ++ back) =
      front ++ (codec.writeVaru64 typ ++ (codec.writeVaru64 value.length ++ (value ++ back))) := by
    rw [writeTlv]
    simp only [append_assoc]
  have slice := @sliceAt_append SurfaceError _
    (front ++ codec.writeVaru64 typ ++ codec.writeVaru64 value.length) value back
  have stop : endWithin (front ++ codec.writeVaru64 typ ++ codec.writeVaru64 value.length).length
      value.length (front ++ (writeTlv codec.toTlvNumbers typ value ++ back)).length =
        some ((front ++ codec.writeVaru64 typ ++ codec.writeVaru64 value.length).length +
          value.length) := by
    apply endWithin_of_le _ memory
    rw [split]
    simp only [length_append]
    omega
  have length : (front ++ writeTlv codec.toTlvNumbers typ value).length =
      (front ++ codec.writeVaru64 typ ++ codec.writeVaru64 value.length).length + value.length := by
    rw [writeTlv]
    simp only [length_append]
    omega
  rw [split] at stop
  rw [length, fieldAt, split]
  simp only [append_assoc] at first second slice stop ⊢
  rw [first, ok_bind]
  rw [second, ok_bind]
  rw [stop, okOr_some, ok_bind, slice, ok_bind]
  rfl

end Reading

section Parsing

variable {wire value : Bytes} {pos stop typ : Nat} {name : Option Name} {content : Option Bytes}

theorem parseFields_end (ends : pos = wire.length) (found : Name) :
    codec.parseFields wire pos (some found) content = .ok (found, content.getD []) := by
  rw [parseFields.eq_def, dif_neg (by omega)]

/-- One step of the walk. -/
theorem parseFields_step (inside : pos < wire.length)
    (read : codec.fieldAt wire pos = .ok (typ, value, stop)) :
    codec.parseFields wire pos name content =
      if typ = tlvName then
        match codec.decodeName value with
        | none => .err .malformed
        | some name => codec.parseFields wire stop (some name) content
      else if typ = tlvContent then codec.parseFields wire stop name (some value)
      else codec.parseFields wire stop name content := by
  conv_lhs => rw [parseFields.eq_def]
  rw [dif_pos inside]
  split
  · next failed =>
    rw [read] at failed
    cases failed
  · next failed =>
    rw [read] at failed
    cases failed
  · next typ' value' stop' again =>
    rw [read] at again
    cases again
    rfl

theorem parseFields_failed (inside : pos < wire.length) {error : SurfaceError}
    (failed : codec.fieldAt wire pos = .err error) :
    codec.parseFields wire pos name content = .err error := by
  rw [parseFields.eq_def, dif_pos inside]
  split
  · next stops =>
    rw [failed] at stops
    cases stops
  · next error' again =>
    have same := failed.symm.trans again
    cases same
    rfl
  · next read =>
    rw [failed] at read
    cases read

theorem parseFields_name (inside : pos < wire.length)
    (read : codec.fieldAt wire pos = .ok (tlvName, value, stop)) {found : Name}
    (decoded : codec.decodeName value = some found) :
    codec.parseFields wire pos name content = codec.parseFields wire stop (some found) content := by
  rw [parseFields_step inside read, if_pos rfl, decoded]

theorem parseFields_content (inside : pos < wire.length)
    (read : codec.fieldAt wire pos = .ok (tlvContent, value, stop)) :
    codec.parseFields wire pos name content = codec.parseFields wire stop name (some value) := by
  rw [parseFields_step inside read, if_neg (by decide), if_pos rfl]

theorem readAt_ne_panic (within : pos ≤ wire.length) : codec.readAt wire pos ≠ .panic := by
  rw [readAt, sliceAt_ok within (le_refl _), ok_bind]
  refine bind_ne_panic (okOr_ne_panic _ _) ?_
  intro read impossible
  cases impossible

theorem fieldAt_ne_panic (within : pos ≤ wire.length) : codec.fieldAt wire pos ≠ .panic := by
  intro stops
  rcases bind_eq_panic.mp stops with first | ⟨⟨t, p⟩, first, stops⟩
  · exact readAt_ne_panic within first
  rcases bind_eq_panic.mp stops with second | ⟨⟨len, start⟩, second, stops⟩
  · exact readAt_ne_panic (readAt_within within first).2 second
  rcases bind_eq_panic.mp stops with third | ⟨stop, third, stops⟩
  · exact okOr_ne_panic _ _ third
  rcases endWithin_eq_some.mp (okOr_eq_ok.mp third) with ⟨rfl, last, _⟩
  rw [sliceAt_ok (le_add_right _ _) last, ok_bind] at stops
  cases stops

/-- The walk returns, and the content that it returns is of the wire. -/
theorem parseFields_returns (kept : ∀ value, content = some value → value <:+: wire) :
    codec.parseFields wire pos name content ≠ .panic ∧
      ∀ found bytes, codec.parseFields wire pos name content = .ok (found, bytes) →
        bytes <:+: wire := by
  induction left : wire.length - pos using Nat.strongRecOn generalizing pos name content with
  | ind size ih =>
    by_cases inside : pos < wire.length
    · cases read : codec.fieldAt wire pos with
      | panic => exact absurd read (fieldAt_ne_panic (le_of_lt inside))
      | err error =>
        rw [parseFields_failed inside read]
        exact ⟨by rintro ⟨⟩, by rintro _ _ ⟨⟩⟩
      | ok field =>
        rcases field with ⟨typ, value, stop⟩
        have goes := fieldAt_within (le_of_lt inside) read
        have shorter : wire.length - stop < size := by omega
        rw [parseFields_step inside read]
        split
        · split
          · exact ⟨by rintro ⟨⟩, by rintro _ _ ⟨⟩⟩
          · exact ih _ shorter kept rfl
        · split
          · refine ih _ shorter ?_ rfl
            rintro value' ⟨⟩
            exact goes.2.2
          · exact ih _ shorter kept rfl
    · rw [parseFields.eq_def, dif_neg inside]
      split
      · exact ⟨by rintro ⟨⟩, by rintro _ _ ⟨⟩⟩
      · refine ⟨by rintro ⟨⟩, ?_⟩
        rintro found bytes ⟨⟩
        cases content with
        | none => exact nil_infix
        | some value => exact kept value rfl

theorem parseFrame_returns (wire : Bytes) : codec.parseFrame wire ≠ .panic ∧
    ∀ name content, codec.parseFrame wire = .ok (name, content) → content <:+: wire := by
  have start : ∀ pos, codec.parseFields wire pos none none ≠ .panic ∧
      ∀ found bytes, codec.parseFields wire pos none none = .ok (found, bytes) →
        bytes <:+: wire := by
    intro pos
    apply parseFields_returns
    intro value impossible
    cases impossible
  constructor
  · intro stops
    rcases bind_eq_panic.mp stops with first | ⟨⟨typ, pos⟩, first, stops⟩
    · exact readAt_ne_panic (zero_le _) first
    · dsimp only at stops
      split at stops
      · cases stops
      · rcases bind_eq_panic.mp stops with second | ⟨⟨len, next⟩, _, stops⟩
        · exact readAt_ne_panic (readAt_within (zero_le _) first).2 second
        · exact (start next).1 stops
  · intro name content read
    rcases bind_eq_ok.mp read with ⟨⟨typ, pos⟩, _, read⟩
    dsimp only at read
    split at read
    · cases read
    · rcases bind_eq_ok.mp read with ⟨⟨len, next⟩, _, read⟩
      exact (start next).2 name content read

theorem decodeNameTlv_ne_panic (full : Bytes) : codec.decodeNameTlv full ≠ .panic := by
  unfold decodeNameTlv
  split
  · exact fun impossible => by cases impossible
  · next typ n1 first =>
    split
    · exact fun impossible => by cases impossible
    · have within := codec.size_le first
      rw [sliceAt_ok within (le_refl _), ok_bind]
      split
      · exact fun impossible => by cases impossible
      · split
        · exact fun impossible => by cases impossible
        · next stop last =>
          rcases endWithin_eq_some.mp last with ⟨rfl, last, _⟩
          rw [sliceAt_ok (le_add_right _ _) last, ok_bind]
          exact fun impossible => by cases impossible

end Parsing

/-! ### Frames -/

theorem components_appendVersion (name : Name) (seq : UInt64) :
    codec.components (appendVersion name seq) = codec.components name ++ versionTlv seq := by
  have width := minimalWidth_mem seq.toNat
  have length : (minimalSlice seq.toNat).length = minimalWidth seq.toNat := by
    rw [minimalSlice_eq, length_beBytes]
  have small : (versionComponent seq).value.length < 253 := by
    change (minimalSlice seq.toNat).length < 253
    simp only [mem_cons, not_mem_nil, or_false] at width
    omega
  have tlv := codec.component_small (versionComponent seq) (show 0x36 < 253 by decide) small
  rw [components, appendVersion, Name.appendComponent, flatMap_append,
    flatMap_singleton, tlv]
  change _ ++ (0x36 :: UInt8.ofNat (minimalSlice seq.toNat).length :: minimalSlice seq.toNat) = _
  rw [length]
  rfl

theorem nameComponentsTlv_eq {name : Name} (small : (codec.components name).length < 2 ^ 64) :
    codec.nameComponentsTlv name = .ok (codec.components name) := by
  let comps := codec.components name
  have full : codec.encodeToTlv name =
      codec.writeVaru64 tlvName ++ (codec.writeVaru64 comps.length ++ comps) := rfl
  have typ : (checked (codec.readVaru64 (codec.encodeToTlv name)) : Checked (Nat × Nat)) =
      .ok (tlvName, (codec.writeVaru64 tlvName).length) :=
    congrArg checked (codec.append _ (codec.read_write (by decide)))
  have len : (checked (codec.readVaru64 (codec.writeVaru64 comps.length ++ comps)) :
      Checked (Nat × Nat)) = .ok (comps.length, (codec.writeVaru64 comps.length).length) :=
    congrArg checked (codec.append _ (codec.read_write small))
  have first : (codec.writeVaru64 tlvName).length ≤ (codec.encodeToTlv name).length := by
    rw [full, length_append]
    exact le_add_right _ _
  have second : (codec.writeVaru64 tlvName).length + (codec.writeVaru64 comps.length).length ≤
      (codec.encodeToTlv name).length := by
    rw [full, length_append, length_append]
    omega
  unfold nameComponentsTlv
  dsimp only
  rw [typ, ok_bind]
  rw [sliceAt_ok first (le_refl _), take_length, full, drop_left, ok_bind,
    len, ok_bind]
  rw [← full, sliceAt_ok second (le_refl _), take_length, full, ← drop_drop,
    drop_left, drop_left]

/-- A frame is a Data of a name and a content. -/
theorem frameBytes_eq (comps vcomp content : Bytes) :
    codec.frameBytes comps vcomp content =
      codec.writeVaru64 tlvData ++ (codec.writeVaru64 (1 + varu64Len (comps.length + vcomp.length) +
        (comps.length + vcomp.length) + (1 + varu64Len content.length + content.length)) ++
        (writeTlv codec.toTlvNumbers tlvName (comps ++ vcomp) ++
          writeTlv codec.toTlvNumbers tlvContent content)) := by
  have data := codec.write_small (show tlvData < 253 by decide)
  have name := codec.write_small (show tlvName < 253 by decide)
  have last := codec.write_small (show tlvContent < 253 by decide)
  rw [writeTlv, writeTlv, data, name, last, length_append, frameBytes]
  simp only [append_assoc]

theorem parseFrame_frameBytes {name : Name} {seq : UInt64} {content : Bytes}
    (memory : codec.sealedLen name seq content < 2 ^ 63) :
    codec.parseFrame (codec.frameBytes (codec.components name) (versionTlv seq) content) =
      .ok (appendVersion name seq, content) := by
  have version := length_versionTlv seq
  let front := codec.writeVaru64 tlvData
  let inner := 1 + varu64Len ((codec.components name).length + (versionTlv seq).length) +
    ((codec.components name).length + (versionTlv seq).length) +
      (1 + varu64Len content.length + content.length)
  let first := writeTlv codec.toTlvNumbers tlvName
    (codec.components (appendVersion name seq))
  let second := writeTlv codec.toTlvNumbers tlvContent content
  have wire : codec.frameBytes (codec.components name) (versionTlv seq) content =
      front ++ (codec.writeVaru64 inner ++ (first ++ second)) := by
    rw [frameBytes_eq, ← components_appendVersion]
  have sealed : codec.sealedLen name seq content =
      fastInlineLen (codec.components name).length (versionTlv seq).length content.length := by
    rw [sealedLen, version]
  have length := @length_frameBytes codec (codec.components name) (versionTlv seq) content
    (by rw [← sealed]; exact memory)
  have small : inner < 2 ^ 64 := by
    rw [sealed] at memory
    unfold fastInlineLen at memory
    dsimp only at memory
    omega
  rw [← sealed, wire] at length
  have inMemory : InMemory (front ++ (codec.writeVaru64 inner ++ (first ++ second))) := by
    unfold InMemory
    omega
  have data :=
    @readAt_write codec [] (codec.writeVaru64 inner ++ (first ++ second)) tlvData (by decide)
  have size := @readAt_write codec front (first ++ second) inner small
  have named := @fieldAt_tlv codec (front ++ codec.writeVaru64 inner)
    (codec.components (appendVersion name seq)) second tlvName (by decide)
    (by rw [append_assoc]; exact inMemory)
  have held := @fieldAt_tlv codec (front ++ codec.writeVaru64 inner ++ first)
    content [] tlvContent (by decide)
    (by rw [append_nil, append_assoc, append_assoc]; exact inMemory)
  have decoded : codec.decodeName (codec.components (appendVersion name seq)) =
      some (appendVersion name seq) := codec.decode_components _
  have nonempty : ∀ typ value, typ < 253 →
      0 < (writeTlv codec.toTlvNumbers typ value).length := by
    intro typ value known
    rw [writeTlv, codec.write_small known, length_append]
    exact lt_of_lt_of_le one_pos (le_add_right _ _)
  have one := nonempty tlvName (codec.components (appendVersion name seq)) (by decide)
  have two := nonempty tlvContent content (by decide)
  rw [wire, parseFrame]
  rw [nil_append] at data
  change codec.readAt _ 0 = _ at data
  rw [data, ok_bind]
  dsimp only
  rw [if_neg (fun other => other rfl), nil_append]
  change (codec.readAt _ front.length >>= _) = _
  rw [size, ok_bind]
  simp only [append_assoc, append_nil] at named held ⊢
  rw [parseFields_name _ named decoded, parseFields_content _ held, parseFields_end _]
  · rfl
  · simp only [length_append]
  · simp only [length_append]
    omega
  · simp only [length_append]
    omega

theorem isEos_frameBytes (comps vcomp content : Bytes) :
    isEos (codec.frameBytes comps vcomp content) = false := by
  refine decide_eq_false ?_
  intro same
  have first := congrArg List.head? same
  rw [frameBytes] at first
  simp only [append_assoc, cons_append, List.head?_cons] at first
  cases first

theorem sealedFrame_eq {name : Name} {seq : UInt64} {content slot : Bytes} (memory : InMemory slot)
    (sized : slot.length = codec.sealedLen name seq content) :
    codec.sealedFrame name seq content slot =
      .ok (codec.frameBytes (codec.components name) (versionTlv seq) content) := by
  have version := length_versionTlv seq
  have small : (codec.components name).length < 2 ^ 64 := by
    unfold InMemory at memory
    rw [sized, sealedLen, fastInlineLen] at memory
    omega
  rcases encodeVersionComponent_eq seq with ⟨rest, encoded⟩
  have slice : (sliceAt (versionTlv seq ++ rest) 0 (versionTlv seq).length : Checked Bytes) =
      .ok (versionTlv seq) := by
    rw [sliceAt_ok (zero_le _) (by rw [length_append]; exact le_add_right _ _),
      take_left, drop_zero]
  unfold sealedFrame
  rw [nameComponentsTlv_eq small, ok_bind, encoded, ok_bind]
  dsimp only
  rw [slice, ok_bind]
  exact encodeFastInline_eq memory (by rw [sized, sealedLen, version])

end FrameCodec

theorem frame_laws (codec : FrameCodec) : codec.FrameLaws where
  sealed := by
    intro name seq content slot sized memory
    have fits : codec.sealedLen name seq content < 2 ^ 63 := by
      rw [← sized]
      exact memory
    refine ⟨codec.frameBytes (codec.components name) (FrameCodec.versionTlv seq) content, ?_, ?_,
      FrameCodec.parseFrame_frameBytes fits, FrameCodec.isEos_frameBytes _ _ _⟩
    · intro slot' same
      apply FrameCodec.sealedFrame_eq _ (same.trans sized)
      unfold InMemory
      rw [same]
      exact memory
    · have version := FrameCodec.length_versionTlv seq
      rw [FrameCodec.sealedLen, ← version] at sized fits
      rw [sized]
      exact FrameCodec.length_frameBytes fits
  version := versionOf_appendVersion
  parse := FrameCodec.parseFrame_returns
  nameTlv := FrameCodec.decodeNameTlv_ne_panic

namespace Example

/-- The frames over the packet format of NDN. -/
def frameCodec : FrameCodec where
  toTlvNumbers := NdnTlv.tlvNumbers
  componentTlv component := NdnTlv.writeTlv component.typ component.value
  decodeName := NdnTlv.decodeName
  write_length := by
    intro value small
    change (NdnTlv.writeVaru64 value).length = varu64Len value
    unfold NdnTlv.writeVaru64 varu64Len
    split
    · rfl
    · change List.length (if value < 0x10000 then 253 :: beBytes 2 value
        else if value < 0x100000000 then 254 :: beBytes 4 value else 255 :: beBytes 8 value) = _
      split
      · rw [List.length_cons, length_beBytes]
      · split <;> rw [List.length_cons, length_beBytes]
  write_small small := if_pos small
  component_small component known small := by
    rw [NdnTlv.writeTlv, NdnTlv.writeVar, NdnTlv.writeVar, if_pos known, if_pos small]
    rfl
  decode_components name := by
    have encoded : NdnTlv.encodeName name =
        name.components.flatMap fun component => NdnTlv.writeTlv component.typ component.value := by
      rw [NdnTlv.encodeName, TlvCodec.writeAll, List.flatMap_map]
      rfl
    rw [← encoded, NdnTlv.decode_encode]

theorem frame_laws_ndn : frameCodec.FrameLaws := frame_laws frameCodec

end Example
end NdnExt.Surface
