import NdnExt.Ndnsf.Messages
import NdnExt.Packet.NdnTlv

/-! The names of the four phases and what a name says about its publication, and the trust context
of the service, with one whose messages carry the name of their signer. -/

namespace NdnExt.Ndnsf

open NdnExt.Lib

inductive Phase where
  | request
  | ack
  | selection
  | response
  deriving DecidableEq

def comp (text : String) : NameComponent := .generic (asBytes text)

def ndnsf : NameComponent := comp "NDNSF"

def Phase.marker : Phase → NameComponent
  | request => comp "REQUEST"
  | ack => comp "ACK"
  | selection => comp "SELECTION"
  | response => comp "RESPONSE"

def markerIdx (name : Name) : Option Nat := name.components.findIdx? (· = ndnsf)

def phaseOf (name : Name) : Option Phase :=
  match markerIdx name with
  | none => none
  | some idx =>
    match name.components[idx + 1]? with
    | none => none
    | some component =>
      if component = Phase.marker .request then some .request
      else if component = Phase.marker .ack then some .ack
      else if component = Phase.marker .selection then some .selection
      else if component = Phase.marker .response then some .response
      else none

def beforeNdnsf (name : Name) : Name :=
  ⟨name.components.take ((markerIdx name).getD name.components.length)⟩

def requestIdOf (name : Name) : Name :=
  match name.components.getLast? with
  | some component => ⟨[component]⟩
  | none => ⟨[]⟩

/-- The components from `start` up to the request id, where there are so many. -/
def servicePart (name : Name) (start : Nat) : Option Name :=
  if name.components = [] then none
  else if start > name.components.length - 1 then none
  else some ⟨(name.components.take (name.components.length - 1)).drop start⟩

def serviceOf (name : Name) : Option Name :=
  match markerIdx name with
  | none => none
  | some idx =>
    if name.components[idx + 1]? ≠ some (Phase.marker .request) then none
    else servicePart name (idx + 2)

def selectionMatchesService (name service : Name) : Bool :=
  match markerIdx name with
  | none => false
  | some idx =>
    if name.components[idx + 1]? ≠ some (Phase.marker .selection) then false
    else servicePart name (idx + 2) = some service || servicePart name (idx + 3) = some service

def appendName (base suffix : Name) : Name :=
  suffix.components.foldl Name.appendComponent base

def appendPeerUri (wire : Wire) (base peer : Name) : Name :=
  base.appendComponent (comp (wire.toUri peer))

def phaseBase (sender : Name) (phase : Phase) : Name :=
  (sender.appendComponent ndnsf).appendComponent phase.marker

def requestName (requester service requestId : Name) : Name :=
  appendName (appendName (phaseBase requester .request) service) requestId

def ackName (wire : Wire) (provider requester service requestId : Name) : Name :=
  appendName (appendName (appendPeerUri wire (phaseBase provider .ack) requester) service)
    requestId

def responseName (wire : Wire) (provider requester service requestId : Name) : Name :=
  appendName (appendName (appendPeerUri wire (phaseBase provider .response) requester) service)
    requestId

def compactSelectionName (requester service requestId : Name) : Name :=
  appendName (appendName (phaseBase requester .selection) service) requestId

/-! ### The trust context -/

/-- Signing and verification of messages: `unsealed` takes the expected sender and name. -/
structure TrustCtx where
  sealed : Name → Bytes → Bytes
  unsealed : Bytes → Name → Name → Option Bytes

/-- A message with its name and who signed it, in place of a signed Data. -/
def signedBlob (name signer : Name) (message : Bytes) : Bytes :=
  NdnTlv.codec.encodeToTlv name ++ NdnTlv.codec.encodeToTlv signer ++ message

def readName (bytes : Bytes) : Option (Name × Bytes) :=
  match NdnTlv.codec.readTlv bytes with
  | .ok (typ, inner, rest) =>
    if typ = tlvName then (NdnTlv.codec.decode inner).map (fun name => (name, rest)) else none
  | .error _ => none

def signedTrust (signer : Name) : TrustCtx where
  sealed name message := signedBlob name signer message
  unsealed payload sender expected := do
    let (name, rest) ← readName payload
    let (signer, message) ← readName rest
    if name = expected ∧ sender.components <+: signer.components then some message else none

def pinnedDigest : String := "D806419D1323BD3D555F00E13377348D0D2AE068F278D2196C4B6BF57CAD0B06"

/-- Names of plain components as URIs, and the digest of the one text that is hashed below. -/
def pinnedWire : Wire where
  codec := NdnTlv.codec
  toUri name := String.join (name.components.map (fun component =>
    "/" ++ String.ofList (component.value.map (fun byte => Char.ofNat byte.toNat))))
  parseUri uri := some ⟨((uri.toList.splitOn '/').filter (· ≠ [])).map (fun piece =>
    .generic (piece.map (fun char => UInt8.ofNat char.toNat)))⟩
  sha256Hex text :=
    if text = "SELECTION/muas/alice/met/stationA/svc/weatherdeadbeef" then pinnedDigest
    else "x" ++ text

/-- No digest is like the marked text of the others. -/
theorem marked_ne (rest text : String) (other : text.toList.head? ≠ some 'x') :
    "x" ++ rest ≠ text := by
  intro same
  have chars := congrArg String.toList same
  rw [String.toList_append] at chars
  exact other (chars ▸ rfl)

theorem pinnedWire_injective (requester provider service : Name) :
    Function.Injective (selectionTokenProofHash pinnedWire requester provider service) := by
  have digest : ∀ rest, "x" ++ rest ≠ pinnedDigest := fun rest =>
    marked_ne rest pinnedDigest (by decide)
  have hashed : ∀ text, pinnedWire.sha256Hex text ≠ "" := by
    intro text
    simp only [pinnedWire]
    split
    · decide
    · exact marked_ne text "" (by decide)
  have different : Function.Injective pinnedWire.sha256Hex := by
    intro text text' same
    simp only [pinnedWire] at same
    split at same
    · next first =>
      split at same
      · next second => exact first.trans second.symm
      · exact absurd same.symm (digest _)
    · split at same
      · exact absurd same (digest _)
      · exact (String.append_right_inj _).mp same
  intro token token' same
  unfold selectionTokenProofHash at same
  split at same
  · next empty =>
    split at same
    · next empty' => exact empty.trans empty'.symm
    · exact absurd same.symm (hashed _)
  · split at same
    · exact absurd same (hashed _)
    · exact (String.append_right_inj _).mp (different same)

def plain (texts : List String) : Name := ⟨texts.map (fun text => .generic (asBytes text))⟩

end NdnExt.Ndnsf
