import NdnExt.Nlsr.Lsa
import NdnExt.Nlsr.LsaTime
import NdnExt.Packet.Tlv

/-! The wire format of LSAs. Here an `f64` is its 64-bit pattern. -/

namespace NdnExt.Nlsr.Wire

open NdnExt.Lib

def tlvLsa : Nat := 128
def tlvSeqNo : Nat := 130
def tlvAdjacencyLsa : Nat := 131
def tlvAdjacency : Nat := 132
def tlvCoordinateLsa : Nat := 133
def tlvHyperbolicRadius : Nat := 135
def tlvHyperbolicAngle : Nat := 136
def tlvNameLsa : Nat := 137
def tlvExpirationTime : Nat := 139
def tlvCost : Nat := 140
def tlvUri : Nat := 141
def tlvPrefixInfo : Nat := 146

structure Adjacent where
  name : Name
  faceUri : String
  linkCost : UInt64

structure AdjacencyLsa where
  originRouter : Name
  seqNo : UInt64
  expirationMs : UInt64
  adjacencies : List Adjacent

structure PrefixInfo where
  name : Name
  cost : UInt64

structure NameLsa where
  originRouter : Name
  seqNo : UInt64
  expirationMs : UInt64
  prefixes : List PrefixInfo

structure CoordinateLsa where
  originRouter : Name
  seqNo : UInt64
  expirationMs : UInt64
  radius : UInt64
  angles : List UInt64

inductive Lsa where
  | adjacency (lsa : AdjacencyLsa)
  | name (lsa : NameLsa)
  | coordinate (lsa : CoordinateLsa)

variable (codec : NameCodec)

section Encoding

def writeNonnegInteger (typ : Nat) (v : UInt64) : List UInt8 :=
  codec.writeTlv typ (minimalSlice v.toNat)

def writeDouble (typ : Nat) (v : UInt64) : List UInt8 := codec.writeTlv typ (beBytes 8 v.toNat)

def writeLsaHeader (originRouter : Name) (seqNo expirationMs : UInt64) : List UInt8 :=
  codec.writeTlv tlvLsa
    (codec.encodeToTlv originRouter ++
      (writeNonnegInteger codec tlvSeqNo seqNo ++
        codec.writeTlv tlvExpirationTime (formatExpirationTime expirationMs.toNat)))

def Adjacent.write (adj : Adjacent) : List UInt8 :=
  codec.encodeToTlv adj.name ++
    (codec.writeTlv tlvUri (asBytes adj.faceUri) ++ writeDouble codec tlvCost adj.linkCost)

def PrefixInfo.write (p : PrefixInfo) : List UInt8 :=
  codec.encodeToTlv p.name ++ writeDouble codec tlvCost p.cost

def AdjacencyLsa.wireEncode (lsa : AdjacencyLsa) : List UInt8 :=
  codec.writeTlv tlvAdjacencyLsa
    (writeLsaHeader codec lsa.originRouter lsa.seqNo lsa.expirationMs ++
      codec.writeAll (lsa.adjacencies.map (fun adj => (tlvAdjacency, adj.write codec))))

def NameLsa.wireEncode (lsa : NameLsa) : List UInt8 :=
  codec.writeTlv tlvNameLsa
    (writeLsaHeader codec lsa.originRouter lsa.seqNo lsa.expirationMs ++
      codec.writeAll (lsa.prefixes.map (fun p => (tlvPrefixInfo, p.write codec))))

def CoordinateLsa.wireEncode (lsa : CoordinateLsa) : List UInt8 :=
  codec.writeTlv tlvCoordinateLsa
    (writeLsaHeader codec lsa.originRouter lsa.seqNo lsa.expirationMs ++
      (writeDouble codec tlvHyperbolicRadius lsa.radius ++
        codec.writeAll
          (lsa.angles.map (fun angle => (tlvHyperbolicAngle, beBytes 8 angle.toNat)))))

def Lsa.wireEncode : Lsa → List UInt8
  | adjacency lsa => lsa.wireEncode codec
  | name lsa => lsa.wireEncode codec
  | coordinate lsa => lsa.wireEncode codec

end Encoding

section Decoding

abbrev Decoded (A : Type) := Outcome (LsaCodecError codec.Error) A

/-- Reads one TLV, which must be of the expected type. -/
def readExpected (expected : Nat) (bytes : List UInt8) : Decoded codec (List UInt8 × List UInt8) :=
  match codec.readTlv bytes with
  | .error error => .err (.tlv error)
  | .ok (typ, value, rest) =>
    if typ ≠ expected then .err (.wrongType expected typ) else .ok (value, rest)

def readNonnegInteger (data : List UInt8) : UInt64 :=
  data.foldl (fun val b => val <<< 8 ||| b.toUInt64) 0

def readDouble (data : List UInt8) : Decoded codec UInt64 :=
  if data.length = 8 then .ok (UInt64.ofNat (ofBe data)) else .err .invalidDouble

def readName (bytes : List UInt8) : Decoded codec (Name × List UInt8) := do
  let (inner, rest) ← readExpected codec tlvName bytes
  let name ← .okOr (codec.decode inner) (.missingField "Name")
  pure (name, rest)

def readLsaHeader (bytes : List UInt8) :
    Decoded codec ((Name × UInt64 × UInt64) × List UInt8) := do
  let (inner, rest) ← readExpected codec tlvLsa bytes
  let (originRouter, inner) ← readName codec inner
  let (seqBytes, inner) ← readExpected codec tlvSeqNo inner
  let seqNo := readNonnegInteger seqBytes
  let (expBytes, _) ← readExpected codec tlvExpirationTime inner
  let ts ← .okOr (fromUtf8 expBytes) .invalidUtf8
  let expirationMs ← parseExpirationTime ts
  pure ((originRouter, seqNo, UInt64.ofNat expirationMs), rest)

/-- One TLV of the list at the end of an LSA: it must be of the expected type. -/
def pushItem {A : Type} (expected : Nat) (item : List UInt8 → Decoded codec A) (items : List A)
    (typ : Nat) (value : List UInt8) : Decoded codec (List A) :=
  if typ ≠ expected then .err (.wrongType expected typ)
  else do
    let item ← item value
    pure (items ++ [item])

def readItems {A : Type} (expected : Nat) (item : List UInt8 → Decoded codec A)
    (bytes : List UInt8) : Decoded codec (List A) :=
  codec.forEachTlv (fun error => .err (.tlv error)) (pushItem codec expected item) [] bytes

def readAdjacent (bytes : List UInt8) : Decoded codec Adjacent := do
  let (name, rest) ← readName codec bytes
  let (uriBytes, rest) ← readExpected codec tlvUri rest
  let faceUri ← .okOr (fromUtf8 uriBytes) .invalidUtf8
  let (costBytes, _) ← readExpected codec tlvCost rest
  let linkCost ← readDouble codec costBytes
  pure ⟨name, faceUri, linkCost⟩

def readPrefixInfo (bytes : List UInt8) : Decoded codec PrefixInfo := do
  let (name, rest) ← readName codec bytes
  let (costBytes, _) ← readExpected codec tlvCost rest
  let cost ← readDouble codec costBytes
  pure ⟨name, cost⟩

def AdjacencyLsa.wireDecode (input : List UInt8) : Decoded codec AdjacencyLsa := do
  let (outer, _) ← readExpected codec tlvAdjacencyLsa input
  let ((originRouter, seqNo, expirationMs), outer) ← readLsaHeader codec outer
  let adjacencies ← readItems codec tlvAdjacency (readAdjacent codec) outer
  pure ⟨originRouter, seqNo, expirationMs, adjacencies⟩

def NameLsa.wireDecode (input : List UInt8) : Decoded codec NameLsa := do
  let (outer, _) ← readExpected codec tlvNameLsa input
  let ((originRouter, seqNo, expirationMs), outer) ← readLsaHeader codec outer
  let prefixes ← readItems codec tlvPrefixInfo (readPrefixInfo codec) outer
  pure ⟨originRouter, seqNo, expirationMs, prefixes⟩

/-- The radius must be there before its type is looked at. -/
def readRadius (outer : List UInt8) : Decoded codec (UInt64 × List UInt8) :=
  if outer = [] then .err (.missingField "HyperbolicRadius")
  else do
    let (radiusBytes, outer) ← readExpected codec tlvHyperbolicRadius outer
    let radius ← readDouble codec radiusBytes
    pure (radius, outer)

def CoordinateLsa.wireDecode (input : List UInt8) : Decoded codec CoordinateLsa := do
  let (outer, _) ← readExpected codec tlvCoordinateLsa input
  let ((originRouter, seqNo, expirationMs), outer) ← readLsaHeader codec outer
  let (radius, outer) ← readRadius codec outer
  let angles ← readItems codec tlvHyperbolicAngle (readDouble codec) outer
  pure ⟨originRouter, seqNo, expirationMs, radius, angles⟩

def Lsa.wireDecode (lsaType : LsaType) (input : List UInt8) : Decoded codec Lsa :=
  match lsaType with
  | .adjacency => do
    let lsa ← AdjacencyLsa.wireDecode codec input
    pure (adjacency lsa)
  | .name => do
    let lsa ← NameLsa.wireDecode codec input
    pure (name lsa)
  | .coordinate => do
    let lsa ← CoordinateLsa.wireDecode codec input
    pure (coordinate lsa)

end Decoding

end NdnExt.Nlsr.Wire
