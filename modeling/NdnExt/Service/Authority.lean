import NdnExt.Service.Framing

/-! The policy authority: grants, their versions and the objects it signs. -/

namespace NdnExt.Service

open NdnExt.Lib

structure Grant where
  policy : String
  revoked : Bool
  version : UInt64
  deriving DecidableEq

namespace Grant

def encode (grant : Grant) : Bytes :=
  encodeFields [encodeString grant.policy, encodeBool grant.revoked, encodeU64 grant.version]

def decode (bytes : Bytes) : Except ServiceError Grant := do
  let (field, bytes) ← readField bytes
  let policy ← decodeString field
  let (field, bytes) ← readField bytes
  let revoked ← decodeBool field
  let (field, _) ← readField bytes
  let version ← decodeU64 field
  return ⟨policy, revoked, version⟩

/-- Whether the length of its policy fits into the 32 bits that frame it. -/
def Fits (grant : Grant) : Prop := (asBytes grant.policy).length < 2 ^ 32

theorem decode_encode {grant : Grant} (fits : grant.Fits) : decode grant.encode = .ok grant := by
  have text : (encodeString grant.policy).length < 2 ^ 32 := fits
  have bool : (encodeBool grant.revoked).length < 2 ^ 32 := by
    cases grant.revoked <;> decide
  have number : (encodeU64 grant.version).length < 2 ^ 32 := by
    rw [encodeU64, length_leBytes]
    decide
  have last := readField_encode number []
  rw [List.append_nil] at last
  have split : grant.encode = encodeField (encodeString grant.policy) ++
      (encodeField (encodeBool grant.revoked) ++ encodeField (encodeU64 grant.version)) := by
    rw [encode, encodeFields, List.flatMap_cons, List.flatMap_cons, List.flatMap_cons,
      List.flatMap_nil, List.append_nil]
  rw [decode, split]
  simp only [readField_encode text, readField_encode bool, last, decodeString_encode,
    decodeBool_encode, decodeU64_encode, bind, Except.bind, pure, Except.pure]

theorem length_encode (grant : Grant) : grant.encode.length =
    (asBytes grant.policy).length + 21 := by
  simp [encode, encodeFields, encodeField, encodeString, encodeBool, encodeU64]
  omega

/-- Grants of policies that fit are told apart by what is signed. -/
theorem encode_inj {grant grant' : Grant} (fits : grant.Fits)
    (same : grant.encode = grant'.encode) :
    grant = grant' := by
  have fits' : grant'.Fits := by
    have lengths := congrArg List.length same
    rw [length_encode, length_encode] at lengths
    unfold Fits at fits ⊢
    omega
  have decoded := decode_encode fits
  rw [same, decode_encode fits'] at decoded
  exact (Except.ok.inj decoded).symm

end Grant

/-- `ndn_packet`: names in their URI form. -/
structure NameUri where
  toUri : Name → String
  parse : String → Option Name
  parse_toUri : ∀ name, parse (toUri name) = some name

theorem NameUri.toUri_injective (uri : NameUri) : Function.Injective uri.toUri := by
  intro name name' same
  have parsed := uri.parse_toUri name
  rw [same, uri.parse_toUri] at parsed
  exact (Option.some.inj parsed).symm

structure Data where
  name : Name
  content : Option Bytes
  deriving DecidableEq

/-- A component of the bytes of a text. -/
def textComponent (text : String) : NameComponent := .generic (asBytes text)

section Names

variable (uri : NameUri)

/-- `<scope>/policy/<principal-uri>`. -/
def principalName (scope principal : Name) : Name :=
  (scope.appendComponent (textComponent "policy")).appendComponent
    (textComponent (uri.toUri principal))

def grantName (scope principal : Name) (version : UInt64) : Name :=
  (principalName uri scope principal).appendComponent
    (textComponent ("v=" ++ toString version.toNat))

/-- The object that is signed for a grant. -/
def grantObject (scope principal : Name) (grant : Grant) : Data :=
  ⟨grantName uri scope principal grant.version, some grant.encode⟩

variable {uri}

theorem asBytes_injective : Function.Injective asBytes := by
  intro text text' same
  have decoded := fromUtf8_asBytes text
  rw [same, fromUtf8_asBytes] at decoded
  exact (Option.some.inj decoded).symm

theorem principalName_inj {scope principal principal' : Name}
    (same : principalName uri scope principal = principalName uri scope principal') :
    principal = principal' := by
  have component := congrArg NameComponent.value (Name.appendComponent_inj same).2
  exact uri.toUri_injective (asBytes_injective component)

end Names

structure PolicyAuthority where
  scope : Name
  grants : Name → Option Grant
  version : UInt64

namespace PolicyAuthority

def new (scope : Name) : PolicyAuthority := ⟨scope, fun _ => none, 0⟩

def grant (authority : PolicyAuthority) (principal : Name) (policy : String) : PolicyAuthority :=
  let version := authority.version + 1
  { authority with
    version
    grants := Function.update authority.grants principal (some ⟨policy, false, version⟩) }

/-- Without a grant there is nothing to revoke. -/
def revoke (authority : PolicyAuthority) (principal : Name) : PolicyAuthority :=
  match authority.grants principal with
  | none => authority
  | some grant =>
    let version := authority.version + 1
    { authority with
      version
      grants := Function.update authority.grants principal
        (some { grant with revoked := true, version }) }

/-- `signs` is whether the signer succeeds. -/
def signedGrant (uri : NameUri) (authority : PolicyAuthority) (principal : Name) (signs : Bool) :
    Option Data :=
  match authority.grants principal with
  | none => none
  | some grant => if signs then some (grantObject uri authority.scope principal grant) else none

end PolicyAuthority

end NdnExt.Service
