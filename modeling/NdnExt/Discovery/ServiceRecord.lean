import NdnExt.Lib.BigEndian
import NdnExt.Lib.Checked
import NdnExt.Lib.Tiling
import NdnExt.Packet.Name

/-! Service records and peer lists, and how their bytes are walked through. -/

namespace NdnExt.Discovery

open NdnExt.Lib

abbrev Bytes := List UInt8

/-- A slice of Rust is shorter than `isize::MAX`. -/
abbrev ByteSlice := { bytes : Bytes // bytes.length < 2 ^ 63 }

/-- Why there is no value: the bytes have none, or the fuel of a loop ran out. -/
inductive Stopped where
  | malformed
  | unfinished
  deriving DecidableEq

abbrev Read (A : Type) := Outcome Stopped A

def slice (b : Bytes) (start stop : Nat) : Read Bytes :=
  if start ≤ stop ∧ stop ≤ b.length then .ok ((b.take stop).drop start) else .panic

def readVarnumber (b : Bytes) (pos : Nat) : Read (Nat × Nat) :=
  match b[pos]? with
  | none => .err .malformed
  | some first =>
    if first = 0xFD then do
      let first ← u64 (pos + 1)
      let hi ← .okOr b[first]? .malformed
      let second ← u64 (pos + 2)
      let lo ← .okOr b[second]? .malformed
      .ok (hi.toNat * 256 + lo.toNat, 3)
    else if first = 0xFE then do
      let start ← u64 (pos + 1)
      let stop ← u64 (pos + 5)
      let v ← slice b start stop
      .ok (ofBe v, 5)
    else if first = 0xFF then do
      let start ← u64 (pos + 1)
      let stop ← u64 (pos + 9)
      let v ← slice b start stop
      .ok (ofBe v, 9)
    else .ok (first.toNat, 1)

/-- Type, value length and header length of the TLV at a position. -/
def readTlvHeader (b : Bytes) (pos : Nat) : Read (Nat × Nat × Nat) :=
  if pos ≥ b.length then .err .malformed
  else do
    let typ ← readVarnumber b pos
    let next ← u64 (pos + typ.2)
    let len ← readVarnumber b next
    let width ← u64 (typ.2 + len.2)
    .ok (typ.1 % 2 ^ 32, len.1, width)

/-- What a walk does where there is no header, and with a value beyond the end. -/
structure Walker where
  breaks : Bool
  checks : Bool

def recordWalker : Walker := ⟨false, true⟩
def nameWalker : Walker := ⟨false, false⟩
def peersWalker : Walker := ⟨true, false⟩

section Walk

variable {S : Type} (w : Walker) (field : S → Nat → Bytes → Read S)

def walk (b : Bytes) : Nat → Nat → S → Read S
  | 0, _, _ => .err .unfinished
  | fuel + 1, pos, state =>
    if pos < b.length then
      match readTlvHeader b pos with
      | .err why => if w.breaks then .ok state else .err why
      | .panic => .panic
      | .ok (typ, len, headerLen) => do
        let start ← u64 (pos + headerLen)
        let stop ← u64 (start + len)
        if w.checks && stop > b.length then .err .malformed
        else do
          let value ← slice b start stop
          let state ← field state typ value
          walk b fuel stop state
    else .ok state

def walkAll (b : Bytes) (state : S) : Read S := walk w field b (b.length + 1) 0 state

end Walk

/-! ### Names -/

def isUnreserved (b : UInt8) : Bool :=
  (48 ≤ b && b ≤ 57) || (65 ≤ b && b ≤ 90) || (97 ≤ b && b ≤ 122) || [45, 46, 126, 95].contains b

def hexDigit (n : Nat) : Char := Char.ofNat (if n < 10 then 48 + n else 55 + n)

def uriByte (b : UInt8) : List Char :=
  if isUnreserved b then [Char.ofNat b.toNat]
  else ['%', hexDigit (b.toNat / 16), hexDigit (b.toNat % 16)]

/-- A name as text; the types of its components are not in it. -/
def uriOf (components : List NameComponent) : List Char :=
  components.flatMap fun c => '/' :: c.value.flatMap uriByte

section Decode

-- How a name is read from its text is not part of this repository.
variable (fromStr : List Char → Option Name)

def nameOfComponents (components : List NameComponent) : Option Name :=
  if components.isEmpty then some .root else fromStr (uriOf components)

def decodeName (b : Bytes) : Read Name :=
  if b.head? ≠ some 0x07 then .err .malformed
  else do
    let header ← readTlvHeader b 0
    let stop ← u64 (header.2.2 + header.2.1)
    let components ← slice b header.2.2 stop
    let components ← walkAll nameWalker
      (fun components typ value => .ok (components ++ [⟨typ, value⟩])) components []
    .okOr (nameOfComponents fromStr components) .malformed

def decodeNameRaw : Bytes → Read Name := decodeName fromStr

def decodeNameTlv : Bytes → Read Name := decodeName fromStr

/-! ### Service records -/

structure ServiceRecord where
  announcedPrefix : Name
  nodeName : Name
  freshnessMs : Nat
  capabilities : UInt8
  version : Nat
  deriving DecidableEq

def ServiceRecord.new (announcedPrefix nodeName : Name) : ServiceRecord :=
  ⟨announcedPrefix, nodeName, 30000, 0, 0⟩

structure RecordFields where
  announcedPrefix : Option Name
  nodeName : Option Name
  freshnessMs : Nat
  capabilities : UInt8
  version : Nat

def tAnnouncedPrefix : Nat := 0xD0
def tSdNodeName : Nat := 0xD1
def tFreshnessMs : Nat := 0xD2
def tSdCapabilities : Nat := 0xD3
def tVersion : Nat := 0xD4
def tPeerEntry : Nat := 0xE0

def readNni (b : Bytes) : Option Nat := if b.length ∈ [1, 2, 4, 8] then some (ofBe b) else none

def RecordFields.field (fields : RecordFields) (typ : Nat) (value : Bytes) : Read RecordFields :=
  if typ = tAnnouncedPrefix then do
    let name ← decodeNameRaw fromStr value
    .ok { fields with announcedPrefix := some name }
  else if typ = tSdNodeName then do
    let name ← decodeNameRaw fromStr value
    .ok { fields with nodeName := some name }
  else if typ = tFreshnessMs then do
    let freshnessMs ← .okOr (readNni value) .malformed
    .ok { fields with freshnessMs := freshnessMs }
  else if typ = tSdCapabilities then do
    let capabilities ← .okOr value.head? .malformed
    .ok { fields with capabilities := capabilities }
  else if typ = tVersion then do
    let version ← .okOr (readNni value) .malformed
    .ok { fields with version := version }
  else .ok fields

def RecordFields.finish (fields : RecordFields) : Read ServiceRecord := do
  let announcedPrefix ← .okOr fields.announcedPrefix .malformed
  let nodeName ← .okOr fields.nodeName .malformed
  .ok ⟨announcedPrefix, nodeName, fields.freshnessMs, fields.capabilities, fields.version⟩

def ServiceRecord.decode (b : Bytes) : Read ServiceRecord := do
  let fields ← walkAll recordWalker (RecordFields.field fromStr) b ⟨none, none, 0, 0, 0⟩
  fields.finish

/-! ### Peer lists -/

def peerField (peers : List Name) (typ : Nat) (value : Bytes) : Read (List Name) :=
  if typ = tPeerEntry then
    match decodeNameTlv fromStr value with
    | .ok name => .ok (peers ++ [name])
    | .err .malformed => .ok peers
    | .err .unfinished => .err .unfinished
    | .panic => .panic
  else .ok peers

def decodePeerList (content : Bytes) : Read (List Name) :=
  walkAll peersWalker (peerField fromStr) content []

end Decode

/-! ### The names of service discovery under a root -/

def hasPrefix (name front : Name) : Bool := front.components.isPrefixOf name.components

/-- `services`. -/
def servicesComponent : NameComponent := .generic [115, 101, 114, 118, 105, 99, 101, 115]

/-- `service-info`. -/
def serviceInfoComponent : NameComponent :=
  .generic [115, 101, 114, 118, 105, 99, 101, 45, 105, 110, 102, 111]

def sdServicesUnder (root : Name) : Name := root.appendComponent servicesComponent

def sdServiceInfoUnder (root : Name) : Name := root.appendComponent serviceInfoComponent

theorem hasPrefix_iff {name front : Name} :
    hasPrefix name front = true ↔ front.components <+: name.components :=
  List.isPrefixOf_iff_prefix

theorem hasPrefix_refl (name : Name) : hasPrefix name name = true :=
  hasPrefix_iff.mpr (List.prefix_refl _)

/-- No name is under both the services and their bodies. -/
theorem not_service_info {root name : Name}
    (services : hasPrefix name (sdServicesUnder root) = true) :
    hasPrefix name (sdServiceInfoUnder root) = false := by
  apply Bool.eq_false_iff.mpr
  intro info
  have first := hasPrefix_iff.mp services
  have second := hasPrefix_iff.mp info
  have same : (sdServicesUnder root).components = (sdServiceInfoUnder root).components := by
    refine (List.prefix_of_prefix_length_le first second (Nat.le_of_eq ?_)).eq_of_length ?_
    all_goals
      unfold sdServicesUnder sdServiceInfoUnder Name.appendComponent
      rw [List.length_append, List.length_append]
      rfl
  have last := List.append_cancel_left same
  exact absurd last (by decide)

end NdnExt.Discovery
