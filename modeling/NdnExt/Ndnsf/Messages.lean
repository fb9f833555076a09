import NdnExt.Lib.Utf8
import NdnExt.Packet.Tlv

/-! The four messages of a service call and their TLV form. -/

namespace NdnExt.Ndnsf

open NdnExt.Lib

abbrev Bytes := List UInt8

/-- What the messages take from the packet crates: TLVs, names, their URIs, and the uppercase
hexadecimal SHA-256 of a text. -/
structure Wire where
  codec : NameCodec
  toUri : Name → String
  parseUri : String → Option Name
  sha256Hex : String → String

def requestMsg : Nat := 128
def responseMsg : Nat := 129
def ackMsg : Nat := 130
def selectionMsg : Nat := 131

def payloadTyp : Nat := 151
def statusTyp : Nat := 152
def errorInfoTyp : Nat := 153
def requestIdTyp : Nat := 154
def strategyTyp : Nat := 155
def providerNameTyp : Nat := 158
def targetIdentityTyp : Nat := 161
def userTokenTyp : Nat := 170
def providerTokenTyp : Nat := 171
def assignmentPayloadTyp : Nat := 184
def requestModeTyp : Nat := 189
def selectionProviderEntryTyp : Nat := 0xF503
def attemptTyp : Nat := 0xF626

def queueFull : String := "QUEUE_FULL"

/-- Proves to `provider` that the selection comes from who was given its token. -/
def selectionTokenProofHash (wire : Wire) (requester provider service : Name)
    (providerToken : String) : String :=
  if providerToken = "" then ""
  else wire.sha256Hex ("SELECTION" ++ wire.toUri requester ++ wire.toUri provider ++
    wire.toUri service ++ providerToken)

inductive Strategy where
  | firstResponding
  | randomSelection
  | allSelected
  deriving DecidableEq

def Strategy.toU8 : Strategy → UInt8
  | firstResponding => 0
  | randomSelection => 1
  | allSelected => 2

def Strategy.fromU8 (value : UInt8) : Strategy :=
  if value = 1 then randomSelection else if value = 2 then allSelected else firstResponding

inductive RequestMode where
  | normal
  | targeted
  | targetedBootstrap
  deriving DecidableEq

def RequestMode.toU8 : RequestMode → UInt8
  | normal => 0
  | targeted => 1
  | targetedBootstrap => 2

def RequestMode.fromU8 (value : UInt8) : RequestMode :=
  if value = 1 then targeted else if value = 2 then targetedBootstrap else normal

inductive MsgError where
  | wrongType
  | malformed
  deriving DecidableEq

structure RequestMessage where
  requestId : String
  userToken : String
  payload : Bytes
  strategy : Strategy
  requestMode : RequestMode
  targetProvider : Option Name
  providerToken : String
  deriving DecidableEq

structure AckMessage where
  status : Bool
  errorInfo : String
  userToken : String
  providerToken : String
  payload : Bytes
  deriving DecidableEq

structure SelectionProviderEntry where
  providerName : Name
  providerTokenHash : String
  assignmentPayload : Bytes
  deriving DecidableEq

structure SelectionMessage where
  providerToken : String
  requestId : String
  providerEntries : List SelectionProviderEntry
  attempt : Nat
  deriving DecidableEq

structure ResponseMessage where
  status : Bool
  errorInfo : String
  payload : Bytes
  deriving DecidableEq

section Encoding

variable (wire : Wire)

def putBytes (typ : Nat) (value : Bytes) : Bytes :=
  if value = [] then [] else wire.codec.writeTlv typ value

def putStr (typ : Nat) (text : String) : Bytes := putBytes wire typ (asBytes text)

def putU8 (typ : Nat) (value : UInt8) : Bytes := wire.codec.writeTlv typ [value]

def putBool (typ : Nat) (value : Bool) : Bytes := putU8 wire typ (if value then 1 else 0)

def nonneg (value : Nat) : Bytes :=
  if value < 2 ^ 8 then beBytes 1 value
  else if value < 2 ^ 16 then beBytes 2 value
  else if value < 2 ^ 32 then beBytes 4 value
  else beBytes 8 value

def RequestMessage.encode (message : RequestMessage) : Bytes :=
  wire.codec.writeTlv requestMsg
    (putStr wire requestIdTyp message.requestId ++ putStr wire userTokenTyp message.userToken ++
      putBytes wire payloadTyp message.payload ++ putU8 wire strategyTyp message.strategy.toU8 ++
      putU8 wire requestModeTyp message.requestMode.toU8 ++
      (match message.targetProvider with
        | some name => wire.codec.writeTlv targetIdentityTyp (wire.codec.encodeToTlv name)
        | none => []) ++
      putStr wire providerTokenTyp message.providerToken)

def AckMessage.encode (message : AckMessage) : Bytes :=
  wire.codec.writeTlv ackMsg
    (putBool wire statusTyp message.status ++ putStr wire errorInfoTyp message.errorInfo ++
      putStr wire userTokenTyp message.userToken ++
      putStr wire providerTokenTyp message.providerToken ++
      putBytes wire payloadTyp message.payload)

def SelectionProviderEntry.encode (entry : SelectionProviderEntry) : Bytes :=
  wire.codec.writeTlv selectionProviderEntryTyp
    (putStr wire providerNameTyp (wire.toUri entry.providerName) ++
      putStr wire providerTokenTyp entry.providerTokenHash ++
      putBytes wire assignmentPayloadTyp entry.assignmentPayload)

def SelectionMessage.encode (message : SelectionMessage) : Bytes :=
  wire.codec.writeTlv selectionMsg
    (putStr wire requestIdTyp message.requestId ++
      putStr wire providerTokenTyp message.providerToken ++
      wire.codec.writeTlv attemptTyp (nonneg message.attempt) ++
      message.providerEntries.flatMap (SelectionProviderEntry.encode wire))

def ResponseMessage.encode (message : ResponseMessage) : Bytes :=
  wire.codec.writeTlv responseMsg
    (putBool wire statusTyp message.status ++ putStr wire errorInfoTyp message.errorInfo ++
      putBytes wire payloadTyp message.payload)

end Encoding

section Decoding

variable (wire : Wire)

def fieldsOf (body : Bytes) : Outcome MsgError (List (Nat × Bytes)) :=
  wire.codec.forEachTlv (fun _ => .err .malformed)
    (fun fields typ value => pure (fields ++ [(typ, value)])) [] body

def openEnvelope (bytes : Bytes) (expected : Nat) : Outcome MsgError (List (Nat × Bytes)) :=
  match wire.codec.readTlv bytes with
  | .error _ => .err .malformed
  | .ok (typ, body, _) => if typ ≠ expected then .err .wrongType else fieldsOf wire body

def asStr (value : Bytes) : Outcome MsgError String := .okOr (fromUtf8 value) .malformed

def asName (value : Bytes) : Outcome MsgError Name :=
  match wire.codec.readTlv value with
  | .error _ => .err .malformed
  | .ok (typ, inner, _) =>
    if typ ≠ tlvName then .err .malformed else .okOr (wire.codec.decode inner) .malformed

def firstByte (value : Bytes) : UInt8 := value.head?.getD 0

def asNonneg (value : Bytes) : Nat :=
  if value = [] ∨ value.length > 8 then 0 else ofBe value

def RequestMessage.field (message : RequestMessage) (typed : Nat × Bytes) :
    Outcome MsgError RequestMessage :=
  if typed.1 = requestIdTyp then do
    return { message with requestId := ← asStr typed.2 }
  else if typed.1 = userTokenTyp then do
    return { message with userToken := ← asStr typed.2 }
  else if typed.1 = payloadTyp then pure { message with payload := typed.2 }
  else if typed.1 = strategyTyp then
    pure { message with strategy := .fromU8 (firstByte typed.2) }
  else if typed.1 = requestModeTyp then
    pure { message with requestMode := .fromU8 (firstByte typed.2) }
  else if typed.1 = targetIdentityTyp then do
    return { message with targetProvider := some (← asName wire typed.2) }
  else if typed.1 = providerTokenTyp then do
    return { message with providerToken := ← asStr typed.2 }
  else pure message

def RequestMessage.default : RequestMessage :=
  ⟨"", "", [], .firstResponding, .normal, none, ""⟩

def RequestMessage.decode (bytes : Bytes) : Outcome MsgError RequestMessage := do
  (← openEnvelope wire bytes requestMsg).foldlM (RequestMessage.field wire) RequestMessage.default

def AckMessage.field (message : AckMessage) (typed : Nat × Bytes) :
    Outcome MsgError AckMessage :=
  if typed.1 = statusTyp then pure { message with status := firstByte typed.2 ≠ 0 }
  else if typed.1 = errorInfoTyp then do
    return { message with errorInfo := ← asStr typed.2 }
  else if typed.1 = userTokenTyp then do
    return { message with userToken := ← asStr typed.2 }
  else if typed.1 = providerTokenTyp then do
    return { message with providerToken := ← asStr typed.2 }
  else if typed.1 = payloadTyp then pure { message with payload := typed.2 }
  else pure message

def AckMessage.default : AckMessage := ⟨false, "", "", "", []⟩

def AckMessage.decode (bytes : Bytes) : Outcome MsgError AckMessage := do
  (← openEnvelope wire bytes ackMsg).foldlM AckMessage.field AckMessage.default

def AckMessage.negative (reason userToken : String) : AckMessage :=
  { AckMessage.default with status := false, errorInfo := reason, userToken := userToken }

/-- The fields of an entry that have been read; without a name it selects nobody. -/
structure EntryFields where
  providerName : Option Name
  providerTokenHash : String
  assignmentPayload : Bytes

def EntryFields.field (fields : EntryFields) (typ : Nat) (value : Bytes) :
    Outcome MsgError EntryFields :=
  if typ = providerNameTyp then do
    let uri ← asStr value
    return { fields with providerName := some (← .okOr (wire.parseUri uri) .malformed) }
  else if typ = providerTokenTyp then do
    return { fields with providerTokenHash := ← asStr value }
  else if typ = assignmentPayloadTyp then pure { fields with assignmentPayload := value }
  else pure fields

def SelectionProviderEntry.decode (body : Bytes) : Outcome MsgError SelectionProviderEntry := do
  let fields ← wire.codec.forEachTlv (fun _ => .err .malformed) (EntryFields.field wire)
    ⟨none, "", []⟩ body
  let providerName ← .okOr fields.providerName .malformed
  return ⟨providerName, fields.providerTokenHash, fields.assignmentPayload⟩

def SelectionMessage.default : SelectionMessage := ⟨"", "", [], 1⟩

def SelectionMessage.field (message : SelectionMessage) (typed : Nat × Bytes) :
    Outcome MsgError SelectionMessage :=
  if typed.1 = providerTokenTyp then do
    return { message with providerToken := ← asStr typed.2 }
  else if typed.1 = requestIdTyp then do
    return { message with requestId := ← asStr typed.2 }
  else if typed.1 = attemptTyp then pure { message with attempt := asNonneg typed.2 }
  else if typed.1 = selectionProviderEntryTyp then do
    let entry ← SelectionProviderEntry.decode wire typed.2
    return { message with providerEntries := message.providerEntries ++ [entry] }
  else pure message

def SelectionMessage.decode (bytes : Bytes) : Outcome MsgError SelectionMessage := do
  (← openEnvelope wire bytes selectionMsg).foldlM (SelectionMessage.field wire)
    SelectionMessage.default

def ResponseMessage.field (message : ResponseMessage) (typed : Nat × Bytes) :
    Outcome MsgError ResponseMessage :=
  if typed.1 = statusTyp then pure { message with status := firstByte typed.2 ≠ 0 }
  else if typed.1 = errorInfoTyp then do
    return { message with errorInfo := ← asStr typed.2 }
  else if typed.1 = payloadTyp then pure { message with payload := typed.2 }
  else pure message

def ResponseMessage.default : ResponseMessage := ⟨false, "", []⟩

def ResponseMessage.decode (bytes : Bytes) : Outcome MsgError ResponseMessage := do
  (← openEnvelope wire bytes responseMsg).foldlM ResponseMessage.field ResponseMessage.default

end Decoding

end NdnExt.Ndnsf
