import NdnExt.Lib.LittleEndian
import NdnExt.Lib.Utf8
import NdnExt.Packet.Name

/-! Signed Interests as the services read them, and the framing of service messages:
length-delimited fields and the metadata envelope. -/

namespace NdnExt.Service

open NdnExt.Lib

abbrev Bytes := List UInt8

structure SigInfo where
  nonce : Option Bytes
  keyLocatorName : Option Name
  deriving DecidableEq

structure Interest where
  name : Name
  appParameters : Option Bytes
  sigInfo : Option SigInfo
  signature : Bytes
  deriving DecidableEq

/-- The anti-replay nonce of a signed request. -/
def Interest.nonce (interest : Interest) : Option Bytes := interest.sigInfo.bind SigInfo.nonce

inductive InterestValidationOutcome where
  | valid
  | pending
  | invalid (error : String)
  deriving DecidableEq

/-! ### Framing -/

inductive ServiceError where
  | decode (msg : String)
  | notFound
  | handler (msg : String)
  | transport (msg : String)
  | unauthorized (msg : String)
  deriving DecidableEq

def ServiceError.display : ServiceError → String
  | .decode e => "service payload decode failed: " ++ e
  | .notFound => "no such operation or no provider answered"
  | .handler e => "service handler failed: " ++ e
  | .transport e => "service transport failed: " ++ e
  | .unauthorized e => "service request unauthorized: " ++ e

/-- A `BTreeMap`: the entries in the order of their keys. -/
abbrev Metadata := List (String × Bytes)

def Metadata.insert (key : String) (value : Bytes) : Metadata → Metadata
  | [] => [(key, value)]
  | (k, v) :: rest =>
    if key < k then (key, value) :: (k, v) :: rest
    else if key = k then (key, value) :: rest
    else (k, v) :: Metadata.insert key value rest

/-- A length is written `as u32`. -/
def encodeField (field : Bytes) : Bytes := leBytes 4 field.length ++ field

def encodeFields (fields : List Bytes) : Bytes := fields.flatMap encodeField

/-- The next field, and the bytes after it. -/
def readField (bytes : Bytes) : Except ServiceError (Bytes × Bytes) :=
  if bytes.length < 4 then .error (.decode "truncated field length")
  else
    let len := ofLe (bytes.take 4)
    if (bytes.drop 4).length < len then .error (.decode "truncated field body")
    else .ok ((bytes.drop 4).take len, (bytes.drop 4).drop len)

def encodeEnvelope (metadata : Metadata) (payload : Bytes) : Bytes :=
  leBytes 4 metadata.length ++
    metadata.flatMap (fun entry => encodeField (asBytes entry.1) ++ encodeField entry.2) ++ payload

def utf8Error : String := "invalid utf-8 sequence"

/-- The entries of an envelope, as many as its count says. -/
def readEntries : Nat → Metadata → Bytes → Except ServiceError (Metadata × Bytes)
  | 0, metadata, bytes => .ok (metadata, bytes)
  | count + 1, metadata, bytes => do
    let (key, bytes) ← readField bytes
    let (value, bytes) ← readField bytes
    match fromUtf8 key with
    | none => .error (.decode utf8Error)
    | some key => readEntries count (metadata.insert key value) bytes

def decodeEnvelope (bytes : Bytes) : Except ServiceError (Metadata × Bytes) :=
  if bytes.length < 4 then .error (.decode "truncated metadata count")
  else readEntries (ofLe (bytes.take 4)) [] (bytes.drop 4)

/-! ### Frames of single values -/

def encodeString (text : String) : Bytes := asBytes text

def decodeString (bytes : Bytes) : Except ServiceError String :=
  match fromUtf8 bytes with
  | none => .error (.decode utf8Error)
  | some text => .ok text

def encodeBool (value : Bool) : Bytes := [if value then 1 else 0]

def decodeBool : Bytes → Except ServiceError Bool
  | [] => .error (.decode "empty bool")
  | first :: _ => .ok (first ≠ 0)

def encodeU64 (value : UInt64) : Bytes := leBytes 8 value.toNat

def decodeU64 (bytes : Bytes) : Except ServiceError UInt64 :=
  if bytes.length = 8 then .ok (UInt64.ofNat (ofLe bytes)) else .error (.decode "expected u64")

/-! ### Round trips -/

@[simp] theorem decodeString_encode (text : String) : decodeString
    (encodeString text) = .ok text := by
  rw [decodeString, encodeString, fromUtf8_asBytes]

@[simp] theorem decodeBool_encode (value : Bool) : decodeBool (encodeBool value) = .ok value := by
  cases value <;> rfl

@[simp] theorem decodeU64_encode (value : UInt64) : decodeU64 (encodeU64 value) = .ok value := by
  have low : ofLe (leBytes 8 value.toNat) = value.toNat := ofLe_leBytes value.toNat_lt
  rw [decodeU64, encodeU64, if_pos (length_leBytes _ _), low, UInt64.ofNat_toNat]

/-- A field is read with the length that 32 bits hold of its own. -/
theorem readField_encode_mod (field rest : Bytes) : readField (encodeField field ++ rest) =
    .ok ((field ++ rest).take (field.length % 2 ^ 32),
      (field ++ rest).drop (field.length % 2 ^ 32)) := by
  have four : (leBytes 4 field.length).length = 4 := length_leBytes _ _
  have len : ofLe (leBytes 4 field.length) = field.length % 2 ^ 32 := ofLe_leBytes_mod 4 _
  rw [readField, encodeField, List.append_assoc, if_neg (by rw [List.length_append]; omega),
    List.take_left' four, len, List.drop_left' four]
  rw [if_neg (by rw [List.length_append]; omega)]

theorem readField_encode {field : Bytes} (fits : field.length < 2 ^ 32) (rest : Bytes) :
    readField (encodeField field ++ rest) = .ok (field, rest) := by
  rw [readField_encode_mod, Nat.mod_eq_of_lt fits, List.take_left, List.drop_left]

end NdnExt.Service
