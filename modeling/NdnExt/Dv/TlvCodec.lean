import NdnExt.Dv.Tlv
import NdnExt.Lib.Utf8
import NdnExt.Packet.Tlv

/-! The TLV codec of DV packets. -/

namespace NdnExt.Dv

open NdnExt.Lib

def tAdvertisement : Nat := 201
def tAdvEntry : Nat := 202
def tDestination : Nat := 204
def tNextHop : Nat := 206
def tCost : Nat := 208
def tOtherCost : Nat := 210
def tPrefixOpList : Nat := 301
def tPrefixOpReset : Nat := 302
def tPrefixOpAdd : Nat := 304
def tPrefixOpRemove : Nat := 306
def tVersion : Nat := 0x191
def tNetworkName : Nat := 0x193
def tRouterName : Nat := 0x195
def tNRibEntries : Nat := 0x197
def tNNeighbors : Nat := 0x199
def tNFibEntries : Nat := 0x19B

inductive DvTlvError where
  | malformed
  | wrongType (expected got : Nat)
  | missingField (field : String)
  | invalidNniWidth (width : Nat)
  deriving DecidableEq

inductive Packet where
  | advertisement (adv : Advertisement)
  | prefixOpList (ops : PrefixOpList)

structure Status where
  version : String
  networkName : Name
  routerName : Name
  nRibEntries : Nat
  nNeighbors : Nat
  nFibEntries : Nat

variable (codec : PacketCodec)

section Encoding

def encodeNni (value : Nat) : List UInt8 :=
  if value ≤ 0xFF then [UInt8.ofNat value]
  else if value ≤ 0xFFFF then beBytes 2 value
  else if value ≤ 0xFFFFFFFF then beBytes 4 value
  else beBytes 8 value

def writeNniTlv (typ value : Nat) : List UInt8 := codec.writeTlv typ (encodeNni value)

/-- A name inside an outer TLV. -/
def writeNameField (outerType : Nat) (name : Name) : List UInt8 :=
  codec.writeTlv outerType (codec.encodeToTlv name)

def AdvEntry.writeInto (entry : AdvEntry) : List UInt8 :=
  codec.writeTlv tAdvEntry
    (writeNameField codec tDestination entry.destination ++
      (writeNameField codec tNextHop entry.nextHop ++
        (writeNniTlv codec tCost entry.cost ++ writeNniTlv codec tOtherCost entry.otherCost)))

def Advertisement.encode (adv : Advertisement) : List UInt8 :=
  codec.writeTlv tAdvertisement (adv.entries.flatMap (·.writeInto codec))

def Advertisement.encodeContent (adv : Advertisement) : List UInt8 :=
  adv.entries.flatMap (·.writeInto codec)

def PrefixOpAdd.writeInto (add : PrefixOpAdd) : List UInt8 :=
  codec.writeTlv tPrefixOpAdd (codec.encodeToTlv add.name ++ writeNniTlv codec tCost add.cost)

def PrefixOpRemove.writeInto (rm : PrefixOpRemove) : List UInt8 :=
  codec.writeTlv tPrefixOpRemove (codec.encodeToTlv rm.name)

def PrefixOpList.encodeContent (ops : PrefixOpList) : List UInt8 :=
  writeNameField codec tDestination ops.exitRouter ++
    ((if ops.reset then codec.writeTlv tPrefixOpReset [] else []) ++
      (ops.adds.flatMap (·.writeInto codec) ++ ops.removes.flatMap (·.writeInto codec)))

/-- The source repeats the fields of `encode_content` inside the wrapper. -/
def PrefixOpList.encode (ops : PrefixOpList) : List UInt8 :=
  codec.writeTlv tPrefixOpList (ops.encodeContent codec)

def Packet.encode : Packet → List UInt8
  | advertisement adv => adv.encode codec
  | prefixOpList ops => ops.encode codec

def Status.encodeContent (status : Status) : List UInt8 :=
  codec.writeTlv tVersion (asBytes status.version) ++
    (writeNameField codec tNetworkName status.networkName ++
      (writeNameField codec tRouterName status.routerName ++
        (writeNniTlv codec tNRibEntries status.nRibEntries ++
          (writeNniTlv codec tNNeighbors status.nNeighbors ++
            writeNniTlv codec tNFibEntries status.nFibEntries))))

end Encoding

section Decoding

abbrev Decoded := Except DvTlvError

def okOr {A : Type} (found : Option A) (error : DvTlvError) : Decoded A :=
  match found with
  | some value => .ok value
  | none => .error error

def decodeNameField (value : List UInt8) : Decoded Name :=
  okOr (codec.decodeFromTlv value) .malformed

def decodeNniValue (value : List UInt8) : Decoded Nat :=
  okOr (codec.decodeNni value) (.invalidNniWidth value.length)

/-- `while !r.is_empty()`: every TLV of the value goes to `field`. -/
def readFields {S : Type} (field : S → Nat → List UInt8 → Decoded S) (start : S)
    (value : List UInt8) : Decoded S :=
  codec.forEachTlv (fun _ => .error .malformed) field start value

/-- The one TLV of a wrapped value. -/
def readWrapper (bytes : List UInt8) : Decoded (Nat × List UInt8) :=
  match codec.readTlv bytes with
  | .ok (typ, value, _) => .ok (typ, value)
  | .error _ => .error .malformed

structure AdvEntryFields where
  destination : Option Name
  nextHop : Option Name
  cost : Option Nat
  otherCost : Option Nat

def AdvEntry.field (fields : AdvEntryFields) (typ : Nat) (v : List UInt8) :
    Decoded AdvEntryFields :=
  if typ = tDestination then do
    let name ← decodeNameField codec v
    pure { fields with destination := some name }
  else if typ = tNextHop then do
    let name ← decodeNameField codec v
    pure { fields with nextHop := some name }
  else if typ = tCost then do
    let cost ← decodeNniValue codec v
    pure { fields with cost := some cost }
  else if typ = tOtherCost then do
    let cost ← decodeNniValue codec v
    pure { fields with otherCost := some cost }
  else pure fields

def AdvEntry.decodeValue (value : List UInt8) : Decoded AdvEntry := do
  let fields ← readFields codec (AdvEntry.field codec) ⟨none, none, none, none⟩ value
  let destination ← okOr fields.destination (.missingField "Destination")
  let nextHop ← okOr fields.nextHop (.missingField "NextHop")
  let cost ← okOr fields.cost (.missingField "Cost")
  let otherCost ← okOr fields.otherCost (.missingField "OtherCost")
  pure ⟨destination, nextHop, cost, otherCost⟩

def Advertisement.field (entries : List AdvEntry) (typ : Nat) (v : List UInt8) :
    Decoded (List AdvEntry) :=
  if typ ≠ tAdvEntry then .error (.wrongType tAdvEntry typ)
  else do
    let entry ← AdvEntry.decodeValue codec v
    pure (entries ++ [entry])

def Advertisement.decodeValue (value : List UInt8) : Decoded Advertisement := do
  let entries ← readFields codec (Advertisement.field codec) [] value
  pure ⟨entries⟩

def Advertisement.decodeContent (bytes : List UInt8) : Decoded Advertisement :=
  Advertisement.decodeValue codec bytes

def Advertisement.decode (bytes : List UInt8) : Decoded Advertisement := do
  let (typ, value) ← readWrapper codec bytes
  if typ ≠ tAdvertisement then .error (.wrongType tAdvertisement typ)
  else Advertisement.decodeValue codec value

structure PrefixOpAddFields where
  name : Option Name
  cost : Option Nat

def PrefixOpAdd.field (fields : PrefixOpAddFields) (typ : Nat) (v : List UInt8) :
    Decoded PrefixOpAddFields :=
  if typ = tlvName then do
    let name ← okOr (codec.decode v) .malformed
    pure { fields with name := some name }
  else if typ = tCost then do
    let cost ← decodeNniValue codec v
    pure { fields with cost := some cost }
  else pure fields

def PrefixOpAdd.decodeValue (value : List UInt8) : Decoded PrefixOpAdd := do
  let fields ← readFields codec (PrefixOpAdd.field codec) ⟨none, none⟩ value
  let name ← okOr fields.name (.missingField "Name (PrefixOpAdd)")
  let cost ← okOr fields.cost (.missingField "Cost (PrefixOpAdd)")
  pure ⟨name, cost⟩

def PrefixOpRemove.field (name : Option Name) (typ : Nat) (v : List UInt8) :
    Decoded (Option Name) :=
  if typ = tlvName then do
    let name ← okOr (codec.decode v) .malformed
    pure (some name)
  else pure name

def PrefixOpRemove.decodeValue (value : List UInt8) : Decoded PrefixOpRemove := do
  let name ← readFields codec (PrefixOpRemove.field codec) none value
  let name ← okOr name (.missingField "Name (PrefixOpRemove)")
  pure ⟨name⟩

structure PrefixOpListFields where
  exitRouter : Option Name
  reset : Bool
  adds : List PrefixOpAdd
  removes : List PrefixOpRemove

def PrefixOpList.field (fields : PrefixOpListFields) (typ : Nat) (v : List UInt8) :
    Decoded PrefixOpListFields :=
  if typ = tDestination then do
    let name ← decodeNameField codec v
    pure { fields with exitRouter := some name }
  else if typ = tPrefixOpReset then pure { fields with reset := true }
  else if typ = tPrefixOpAdd then do
    let add ← PrefixOpAdd.decodeValue codec v
    pure { fields with adds := fields.adds ++ [add] }
  else if typ = tPrefixOpRemove then do
    let rm ← PrefixOpRemove.decodeValue codec v
    pure { fields with removes := fields.removes ++ [rm] }
  else pure fields

def PrefixOpList.decodeValue (value : List UInt8) : Decoded PrefixOpList := do
  let fields ← readFields codec (PrefixOpList.field codec) ⟨none, false, [], []⟩ value
  let exitRouter ← okOr fields.exitRouter (.missingField "ExitRouter")
  pure ⟨exitRouter, fields.reset, fields.adds, fields.removes⟩

def PrefixOpList.decodeContent (bytes : List UInt8) : Decoded PrefixOpList :=
  PrefixOpList.decodeValue codec bytes

def PrefixOpList.decode (bytes : List UInt8) : Decoded PrefixOpList := do
  let (typ, value) ← readWrapper codec bytes
  if typ ≠ tPrefixOpList then .error (.wrongType tPrefixOpList typ)
  else PrefixOpList.decodeValue codec value

def Packet.decode (bytes : List UInt8) : Decoded Packet := do
  let (typ, value) ← readWrapper codec bytes
  if typ = tAdvertisement then do
    let adv ← Advertisement.decodeValue codec value
    pure (advertisement adv)
  else if typ = tPrefixOpList then do
    let ops ← PrefixOpList.decodeValue codec value
    pure (prefixOpList ops)
  else .error (.wrongType tAdvertisement typ)

structure StatusFields where
  version : Option String
  networkName : Option Name
  routerName : Option Name
  nRibEntries : Option Nat
  nNeighbors : Option Nat
  nFibEntries : Option Nat

def Status.field (fields : StatusFields) (typ : Nat) (v : List UInt8) : Decoded StatusFields :=
  if typ = tVersion then do
    let version ← okOr (fromUtf8 v) .malformed
    pure { fields with version := some version }
  else if typ = tNetworkName then do
    let name ← decodeNameField codec v
    pure { fields with networkName := some name }
  else if typ = tRouterName then do
    let name ← decodeNameField codec v
    pure { fields with routerName := some name }
  else if typ = tNRibEntries then do
    let count ← decodeNniValue codec v
    pure { fields with nRibEntries := some count }
  else if typ = tNNeighbors then do
    let count ← decodeNniValue codec v
    pure { fields with nNeighbors := some count }
  else if typ = tNFibEntries then do
    let count ← decodeNniValue codec v
    pure { fields with nFibEntries := some count }
  else pure fields

def Status.decodeContent (bytes : List UInt8) : Decoded Status := do
  let fields ← readFields codec (Status.field codec) ⟨none, none, none, none, none, none⟩ bytes
  let version ← okOr fields.version (.missingField "Version")
  let networkName ← okOr fields.networkName (.missingField "NetworkName")
  let routerName ← okOr fields.routerName (.missingField "RouterName")
  let nRibEntries ← okOr fields.nRibEntries (.missingField "NRibEntries")
  let nNeighbors ← okOr fields.nNeighbors (.missingField "NNeighbors")
  let nFibEntries ← okOr fields.nFibEntries (.missingField "NFibEntries")
  pure ⟨version, networkName, routerName, nRibEntries, nNeighbors, nFibEntries⟩

end Decoding

end NdnExt.Dv
