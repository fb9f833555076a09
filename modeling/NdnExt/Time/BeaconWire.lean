import NdnExt.Lib.BigEndian
import NdnExt.Lib.Checked
import NdnExt.Service.Framing

/-! The bytes of a time beacon. -/

namespace NdnExt.Time

open NdnExt.Lib NdnExt.Service

inductive TimeSourceKind where
  | gnss
  | ptp
  | ntp
  | rtc
  | oscillator
  | peerDerived
  | manual
  deriving DecidableEq

inductive Traceability where
  | utc
  | tai
  | gnss
  | ensemble
  | none
  deriving DecidableEq

/-- The floats are kept as their bits. -/
structure Holdover where
  driftPpm : UInt32
  allanDev1s : UInt32
  agingPpmPerDay : UInt32
  tempSensitive : Bool
  deriving DecidableEq

structure ClockCapability where
  kind : TimeSourceKind
  traceable : Traceability
  holdover : Holdover
  baseUncertaintyNs : UInt64
  disciplinable : Bool
  referenceOnly : Bool
  deriving DecidableEq

def beaconWireVersion : UInt8 := 1

def encodedLen : Nat := 1 + 8 + 8 + 8 + 1 + 1 + 1 + 8 + 4 + 4 + 4

def flagDisciplinable : UInt8 := (1 : UInt8) <<< (0 : UInt8)
def flagReferenceOnly : UInt8 := (1 : UInt8) <<< (1 : UInt8)
def flagTempSensitive : UInt8 := (1 : UInt8) <<< (2 : UInt8)

def kindToU8 : TimeSourceKind → UInt8
  | .gnss => 0
  | .ptp => 1
  | .ntp => 2
  | .rtc => 3
  | .oscillator => 4
  | .peerDerived => 5
  | .manual => 6

def u8ToKind (b : UInt8) : Option TimeSourceKind :=
  if b = 0 then some .gnss
  else if b = 1 then some .ptp
  else if b = 2 then some .ntp
  else if b = 3 then some .rtc
  else if b = 4 then some .oscillator
  else if b = 5 then some .peerDerived
  else if b = 6 then some .manual
  else none

def traceToU8 : Traceability → UInt8
  | .utc => 0
  | .tai => 1
  | .gnss => 2
  | .ensemble => 3
  | .none => 4

def u8ToTrace (b : UInt8) : Option Traceability :=
  if b = 0 then some .utc
  else if b = 1 then some .tai
  else if b = 2 then some .gnss
  else if b = 3 then some .ensemble
  else if b = 4 then some .none
  else none

structure DecodedBeacon where
  seq : UInt64
  wallNs : Int64
  uncertaintyNs : UInt64
  cap : ClockCapability
  deriving DecidableEq

def flagIf (set : Bool) (flag : UInt8) : UInt8 := if set then flag else 0

def flagsOf (cap : ClockCapability) : UInt8 :=
  flagIf cap.disciplinable flagDisciplinable ||| flagIf cap.referenceOnly flagReferenceOnly |||
    flagIf cap.holdover.tempSensitive flagTempSensitive

def hasFlag (flags flag : UInt8) : Bool := flags &&& flag ≠ 0

def encode (seq : UInt64) (wallNs : Int64) (uncertaintyNs : UInt64) (cap : ClockCapability) :
    Bytes :=
  [beaconWireVersion] ++
  beBytes 8 seq.toNat ++
  beBytes 8 wallNs.toUInt64.toNat ++
  beBytes 8 uncertaintyNs.toNat ++
  [kindToU8 cap.kind] ++
  [traceToU8 cap.traceable] ++
  [flagsOf cap] ++
  beBytes 8 cap.baseUncertaintyNs.toNat ++
  beBytes 4 cap.holdover.driftPpm.toNat ++
  beBytes 4 cap.holdover.allanDev1s.toNat ++
  beBytes 4 cap.holdover.agingPpmPerDay.toNat

/-! ### Reading

A reader holds what follows the offset `o` of the source; a slice that ends behind the buffer
panics. `err` is the decoder's `None`. -/

def takeSlice (width : Nat) (unread : Bytes) : Outcome Unit (Bytes × Bytes) :=
  if width ≤ unread.length then .ok (unread.take width, unread.drop width) else .panic

def take8 (unread : Bytes) : Outcome Unit (UInt64 × Bytes) := do
  let (slice, rest) ← takeSlice 8 unread
  pure (UInt64.ofNat (ofBe slice), rest)

def take4 (unread : Bytes) : Outcome Unit (UInt32 × Bytes) := do
  let (slice, rest) ← takeSlice 4 unread
  pure (UInt32.ofNat (ofBe slice), rest)

def take1 : Bytes → Outcome Unit (UInt8 × Bytes)
  | [] => .panic
  | b :: rest => .ok (b, rest)

def decode (content : Bytes) : Outcome Unit DecodedBeacon :=
  if content.length < encodedLen then .err () else do
  let (version, unread) ← take1 content
  if version ≠ beaconWireVersion then .err () else do
  let (seq, unread) ← take8 unread
  let (wallNs, unread) ← take8 unread
  let (uncertaintyNs, unread) ← take8 unread
  let (kind, unread) ← take1 unread
  let kind ← Outcome.okOr (u8ToKind kind) ()
  let (traceable, unread) ← take1 unread
  let traceable ← Outcome.okOr (u8ToTrace traceable) ()
  let (flags, unread) ← take1 unread
  let (baseUncertaintyNs, unread) ← take8 unread
  let (driftPpm, unread) ← take4 unread
  let (allanDev1s, unread) ← take4 unread
  let (agingPpmPerDay, _) ← take4 unread
  pure {
    seq := seq
    wallNs := wallNs.toInt64
    uncertaintyNs := uncertaintyNs
    cap := {
      kind := kind
      traceable := traceable
      holdover := {
        driftPpm := driftPpm
        allanDev1s := allanDev1s
        agingPpmPerDay := agingPpmPerDay
        tempSensitive := hasFlag flags flagTempSensitive }
      baseUncertaintyNs := baseUncertaintyNs
      disciplinable := hasFlag flags flagDisciplinable
      referenceOnly := hasFlag flags flagReferenceOnly } }

/-! ### No slice is out of range -/

theorem takeSlice_ok {width : Nat} {unread : Bytes} (enough : width ≤ unread.length) :
    takeSlice width unread = .ok (unread.take width, unread.drop width) :=
  if_pos enough

theorem take8_ok {unread : Bytes} (enough : 8 ≤ unread.length) :
    ∃ value rest, take8 unread = .ok (value, rest) ∧ rest.length + 8 = unread.length := by
  refine ⟨_, unread.drop 8, by rw [take8, takeSlice_ok enough]; rfl, ?_⟩
  rw [List.length_drop]
  omega

theorem take4_ok {unread : Bytes} (enough : 4 ≤ unread.length) :
    ∃ value rest, take4 unread = .ok (value, rest) ∧ rest.length + 4 = unread.length := by
  refine ⟨_, unread.drop 4, by rw [take4, takeSlice_ok enough]; rfl, ?_⟩
  rw [List.length_drop]
  omega

theorem take1_ok {unread : Bytes} (enough : 1 ≤ unread.length) :
    ∃ value rest, take1 unread = .ok (value, rest) ∧ rest.length + 1 = unread.length := by
  cases unread with
  | nil => cases enough
  | cons b rest => exact ⟨b, rest, rfl, rfl⟩

/-- What was read leaves the rest of the buffer to the next slices. -/
theorem bind_read_ne_panic {A B : Type} {read : Outcome Unit (A × Bytes)}
    {next : A × Bytes → Outcome Unit B} {width total : Nat}
    (reads : ∃ value rest, read = .ok (value, rest) ∧ rest.length + width = total)
    (goesOn : ∀ value rest, rest.length + width = total → next (value, rest) ≠ .panic) :
    (read >>= next) ≠ .panic := by
  rcases reads with ⟨value, rest, done, left⟩
  rw [done, Outcome.ok_bind]
  exact goesOn value rest left

theorem decode_ne_panic (content : Bytes) : decode content ≠ .panic := by
  have errNe : (Outcome.err () : Outcome Unit DecodedBeacon) ≠ .panic := by
    intro impossible
    cases impossible
  unfold decode
  split
  case isTrue => exact errNe
  case isFalse long =>
    unfold encodedLen at long
    refine bind_read_ne_panic (take1_ok (by omega)) ?_
    intro version unread afterVersion
    dsimp only
    split
    case isTrue => exact errNe
    case isFalse =>
      refine bind_read_ne_panic (take8_ok (by omega)) ?_
      intro seq unread afterSeq
      dsimp only
      refine bind_read_ne_panic (take8_ok (by omega)) ?_
      intro wallNs unread afterWall
      dsimp only
      refine bind_read_ne_panic (take8_ok (by omega)) ?_
      intro uncertaintyNs unread afterUncertainty
      dsimp only
      refine bind_read_ne_panic (take1_ok (by omega)) ?_
      intro kind unread afterKind
      dsimp only
      refine Outcome.bind_ne_panic (Outcome.okOr_ne_panic _ _) ?_
      intro kind
      refine bind_read_ne_panic (take1_ok (by omega)) ?_
      intro traceable unread afterTrace
      dsimp only
      refine Outcome.bind_ne_panic (Outcome.okOr_ne_panic _ _) ?_
      intro traceable
      refine bind_read_ne_panic (take1_ok (by omega)) ?_
      intro flags unread afterFlags
      dsimp only
      refine bind_read_ne_panic (take8_ok (by omega)) ?_
      intro baseUncertaintyNs unread afterBase
      dsimp only
      refine bind_read_ne_panic (take4_ok (by omega)) ?_
      intro driftPpm unread afterDrift
      dsimp only
      refine bind_read_ne_panic (take4_ok (by omega)) ?_
      intro allanDev1s unread afterAllan
      dsimp only
      refine bind_read_ne_panic (take4_ok (by omega)) ?_
      intro agingPpmPerDay unread _ impossible
      cases impossible

/-! ### What is encoded decodes to what it was made from -/

theorem takeSlice_append {width : Nat} {slice : Bytes} (exactly : slice.length = width)
    (rest : Bytes) : takeSlice width (slice ++ rest) = .ok (slice, rest) := by
  rw [takeSlice_ok (by rw [List.length_append]; omega), ← exactly, List.take_left, List.drop_left]

@[simp] theorem take8_append (value : UInt64) (rest : Bytes) :
    take8 (beBytes 8 value.toNat ++ rest) = .ok (value, rest) := by
  have read : ofBe (beBytes 8 value.toNat) = value.toNat := ofBe_beBytes value.toNat_lt
  rw [take8, takeSlice_append (length_beBytes _ _), Outcome.ok_bind]
  dsimp only
  rw [read, UInt64.ofNat_toNat]
  rfl

@[simp] theorem take4_append (value : UInt32) (rest : Bytes) :
    take4 (beBytes 4 value.toNat ++ rest) = .ok (value, rest) := by
  have read : ofBe (beBytes 4 value.toNat) = value.toNat := ofBe_beBytes value.toNat_lt
  rw [take4, takeSlice_append (length_beBytes _ _), Outcome.ok_bind]
  dsimp only
  rw [read, UInt32.ofNat_toNat]
  rfl

theorem take4_beBytes (value : UInt32) : take4 (beBytes 4 value.toNat) = .ok (value, []) := by
  have read := take4_append value []
  rwa [List.append_nil] at read

@[simp] theorem u8ToKind_kindToU8 (kind : TimeSourceKind) : u8ToKind
    (kindToU8 kind) = some kind := by
  cases kind <;> rfl

@[simp] theorem u8ToTrace_traceToU8 (traceable : Traceability) :
    u8ToTrace (traceToU8 traceable) = some traceable := by
  cases traceable <;> rfl

theorem hasFlag_flagsOf (cap : ClockCapability) :
    hasFlag (flagsOf cap) flagTempSensitive = cap.holdover.tempSensitive ∧
      hasFlag (flagsOf cap) flagDisciplinable = cap.disciplinable ∧
      hasFlag (flagsOf cap) flagReferenceOnly = cap.referenceOnly := by
  unfold flagsOf
  cases cap.disciplinable <;> cases cap.referenceOnly <;> cases cap.holdover.tempSensitive <;>
    decide

theorem length_encode (seq : UInt64) (wallNs : Int64) (uncertaintyNs : UInt64)
    (cap : ClockCapability) : (encode seq wallNs uncertaintyNs cap).length = encodedLen := by
  simp [encode, encodedLen]

theorem decode_encode (seq : UInt64) (wallNs : Int64) (uncertaintyNs : UInt64)
    (cap : ClockCapability) :
    decode (encode seq wallNs uncertaintyNs cap) = .ok ⟨seq, wallNs, uncertaintyNs, cap⟩ := by
  have short : ¬(encode seq wallNs uncertaintyNs cap).length < encodedLen := by
    rw [length_encode]
    exact Nat.lt_irrefl _
  rcases hasFlag_flagsOf cap with ⟨temp, disciplinable, reference⟩
  rw [decode, if_neg short, encode]
  simp [take1, take4_beBytes, temp, disciplinable, reference]

end NdnExt.Time
