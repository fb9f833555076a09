import NdnExt.Lib.Utf8
import NdnExt.Link.Trust
import NdnExt.Packet.SplitTlv

/-! The messages of a link and of a punch, written and read. -/

namespace NdnExt.Link.Messages

open NdnExt.Lib NdnExt.SplitTlv Outcome

/-- With the values of name TLVs, from `ndn_packet`; an error is its text. -/
structure MessageCodec extends TlvNumbers where
  encodeName : Name → Bytes
  decodeName : Bytes → Except String Name
  decode_encodeName : ∀ name, decodeName (encodeName name) = .ok name

/-! ### Types and sizes -/

def linkHello : Nat := 0x0450
def linkVersion : Nat := 0x0451
def linkVerdict : Nat := 0x0452
def enrollmentLink : Nat := 0x0454
def directPath : Nat := 0x045A
def membership : Nat := 0x045C
def membershipBinding : Nat := 0x045E
def reachability : Nat := 0x0440
def holdInterests : Nat := 0x0442
def wakeToken : Nat := 0x0444
def presence : Nat := 0x0446
def presentDevice : Nat := 0x0448
def keyDigest : Nat := 0x044A
def tlvData : Nat := 0x06

def punchKey : Nat := 0x0460
def candidate : Nat := 0x0462
def candidateKind : Nat := 0x0464
def udpAddress : Nat := 0x0466
def punchRefusal : Nat := 0x0468
def refusalCode : Nat := 0x046A
def refusalText : Nat := 0x046C

def linkProtocolVersion : UInt8 := 1

def wakeTokenMax : Nat := 1024

def candidatesMax : Nat := 8

abbrev PathSession := Vector UInt8 8

/-! ### Reading -/

/-- `{t:#x}`. -/
def hexText (t : Nat) : String := "0x" ++ String.ofList (Nat.toDigits 16 t)

/-- `<[u8; n]>::try_from`. -/
def array (n : Nat) (bytes : Bytes) : Option (Vector UInt8 n) :=
  if same : bytes.toArray.size = n then some ⟨bytes.toArray, same⟩ else none

/-- `bytes[i]`. -/
def index (bytes : Bytes) (i : Nat) : Outcome String UInt8 := .checked bytes[i]?

def mapErr {A : Type} (outcome : Outcome String A) (change : String → String) : Outcome String A :=
  match outcome with
  | .ok value => .ok value
  | .err error => .err (change error)
  | .panic => .panic

/-- A field of a type that the message at `place` does not have. -/
def unknown {S : Type} (state : S) (t : Nat) (place : String) : Outcome String S :=
  if skippable t then .ok state else .err s!"unknown critical field {hexText t} in {place}"

section Codec

variable (codec : MessageCodec)

def decodeName (value : Bytes) (what : String) : Outcome String Name :=
  match codec.decodeName value with
  | .ok name => .ok name
  | .error e => .err s!"{what}: {e}"

def encodeToTlv (name : Name) : Bytes :=
  writeTlv codec.toTlvNumbers tlvName (codec.encodeName name)

/-! ### Memberships -/

structure Membership where
  certificates : List Bytes
  binding : Bytes
  deriving DecidableEq

namespace Membership

def value (m : Membership) : Bytes :=
  m.certificates.flatMap id ++ writeTlv codec.toTlvNumbers membershipBinding m.binding

def write (m : Membership) : Bytes := writeTlv codec.toTlvNumbers membership (m.value codec)

structure Fields where
  certificates : List Bytes
  binding : Option Bytes

def field (state : Fields) (t : Nat) (wire value : Bytes) : Outcome String Fields :=
  if t = tlvData then .ok { state with certificates := state.certificates ++ [wire] }
  else if t = membershipBinding then
    if value.isEmpty then .err "an empty binding in a membership"
    else .ok { state with binding := some value }
  else unknown state t "a membership"

def finish (state : Fields) : Outcome String Membership :=
  if state.certificates.isEmpty then .err "a membership without a certificate"
  else do
    let binding ← .okOr state.binding "a membership without its binding"
    .ok ⟨state.certificates, binding⟩

def decode (value : Bytes) : Outcome String Membership :=
  decodeFields (tlvSplitter codec.toTlvNumbers) field ⟨[], none⟩ finish value

end Membership

/-! ### Hellos -/

structure LinkHello where
  certificates : List Bytes
  memberships : List Membership
  directPath : Option PathSession
  deriving DecidableEq

namespace LinkHello

def value (hello : LinkHello) : Bytes :=
  writeTlv codec.toTlvNumbers linkVersion [linkProtocolVersion] ++
    (hello.certificates.flatMap id ++
      (hello.memberships.flatMap (Membership.write codec) ++
        hello.directPath.elim [] fun session =>
          writeTlv codec.toTlvNumbers Messages.directPath session.toList))

def encode (hello : LinkHello) : Bytes := writeTlv codec.toTlvNumbers linkHello (hello.value codec)

structure Fields where
  version : Option UInt8
  certificates : List Bytes
  memberships : List Membership
  directPath : Option PathSession

def field (state : Fields) (t : Nat) (wire value : Bytes) : Outcome String Fields :=
  if t = linkVersion then
    match value with
    | [v] => .ok { state with version := some v }
    | other => .err <| s!"a link protocol version of {other.length} bytes in the link hello " ++
        "(it is one byte)"
  else if t = tlvData then .ok { state with certificates := state.certificates ++ [wire] }
  else if t = membership then do
    let m ← mapErr (Membership.decode codec value) fun e => s!"{e} in the link hello"
    .ok { state with memberships := state.memberships ++ [m] }
  else if t = Messages.directPath then do
    let session ← .okOr (array 8 value) <|
      s!"a direct-path session of {value.length} bytes in the link hello (it is 8 bytes)"
    .ok { state with directPath := some session }
  else unknown state t "the link hello"

def finish (state : Fields) : Outcome String LinkHello :=
  match state.version with
  | some v =>
    if v = linkProtocolVersion then
      .ok ⟨state.certificates, state.memberships, state.directPath⟩
    else .err <| s!"the peer speaks link protocol version {v}; this device speaks version " ++
      s!"{linkProtocolVersion}: update the older of the two"
  | none => .err "the link hello carries no protocol version"

def decode (value : Bytes) : Outcome String LinkHello :=
  decodeFields (tlvSplitter codec.toTlvNumbers) (field codec) ⟨none, [], [], none⟩ finish value

end LinkHello

/-! ### Verdicts -/

structure LinkVerdict where
  enrollmentLink : Option (List Name)
  deriving DecidableEq

namespace LinkVerdict

def value (verdict : LinkVerdict) : Bytes :=
  verdict.enrollmentLink.elim [] fun namespaces =>
    writeTlv codec.toTlvNumbers Messages.enrollmentLink (namespaces.flatMap (encodeToTlv codec))

def encode (verdict : LinkVerdict) : Bytes :=
  writeTlv codec.toTlvNumbers linkVerdict (verdict.value codec)

def namespaceField (namespaces : List Name) (t : Nat) (_wire value : Bytes) :
    Outcome String (List Name) :=
  if t ≠ tlvName then
    .err s!"{hexText t} where a namespace name belongs in the link verdict"
  else do
    let ns ← decodeName codec value "a namespace in the link verdict"
    .ok (namespaces ++ [ns])

def field (verdict : LinkVerdict) (t : Nat) (_wire value : Bytes) : Outcome String LinkVerdict :=
  if t = Messages.enrollmentLink then do
    let namespaces ← eachField (tlvSplitter codec.toTlvNumbers) (namespaceField codec) [] value
    if namespaces.isEmpty then .err "an enrollment link for no namespace in the link verdict"
    else .ok ⟨some namespaces⟩
  else unknown verdict t "the link verdict"

def decode (value : Bytes) : Outcome String LinkVerdict :=
  decodeFields (tlvSplitter codec.toTlvNumbers) (field codec) ⟨none⟩ .ok value

end LinkVerdict

/-! ### How a device is reached -/

structure Reachability where
  hold : Bool
  wakeToken : Option Bytes
  deriving DecidableEq

namespace Reachability

def value (r : Reachability) : Bytes :=
  (if r.hold then writeTlv codec.toTlvNumbers holdInterests [] else []) ++
    r.wakeToken.elim [] fun token => writeTlv codec.toTlvNumbers Messages.wakeToken token

def encode (r : Reachability) : Bytes := writeTlv codec.toTlvNumbers reachability (r.value codec)

def field (r : Reachability) (t : Nat) (_wire value : Bytes) : Outcome String Reachability :=
  if t = holdInterests then
    if value.isEmpty then .ok { r with hold := true }
    else .err <| s!"a HoldInterests of {value.length} bytes in the Reachability message " ++
      "(it is empty)"
  else if t = Messages.wakeToken then
    if 1 ≤ value.length ∧ value.length ≤ wakeTokenMax then
      .ok { r with wakeToken := some value }
    else .err <| s!"a wake token of {value.length} bytes in the Reachability message " ++
      s!"(it is 1 to {wakeTokenMax} bytes)"
  else unknown r t "the Reachability message"

def decode (value : Bytes) : Outcome String Reachability :=
  decodeFields (tlvSplitter codec.toTlvNumbers) field ⟨false, none⟩ .ok value

end Reachability

/-! ### Which devices are linked -/

structure PresentDevice where
  device : Name
  key : KeyFingerprint
  deriving DecidableEq

namespace PresentDevice

def value (d : PresentDevice) : Bytes :=
  encodeToTlv codec d.device ++ writeTlv codec.toTlvNumbers keyDigest d.key.bytes.toList

def write (d : PresentDevice) : Bytes := writeTlv codec.toTlvNumbers presentDevice (d.value codec)

structure Fields where
  device : Option Name
  key : Option KeyFingerprint

def field (state : Fields) (t : Nat) (_wire value : Bytes) : Outcome String Fields :=
  if t = tlvName then do
    let device ← decodeName codec value "a device in the Presence message"
    .ok { state with device := some device }
  else if t = keyDigest then do
    let digest ← .okOr (array 32 value)
      s!"a key digest of {value.length} bytes in the Presence message (it is 32)"
    .ok { state with key := some ⟨digest⟩ }
  else unknown state t "a PresentDevice"

def finish (state : Fields) : Outcome String PresentDevice :=
  match state.device, state.key with
  | some device, some key => .ok ⟨device, key⟩
  | _, _ => .err "a PresentDevice without its device name or key digest"

/-- `decode_present_device`. -/
def decode (value : Bytes) : Outcome String PresentDevice :=
  decodeFields (tlvSplitter codec.toTlvNumbers) (field codec) ⟨none, none⟩ finish value

end PresentDevice

structure Presence where
  ns : Name
  devices : List PresentDevice
  deriving DecidableEq

namespace Presence

def value (p : Presence) : Bytes :=
  encodeToTlv codec p.ns ++ p.devices.flatMap (PresentDevice.write codec)

def encode (p : Presence) : Bytes := writeTlv codec.toTlvNumbers presence (p.value codec)

structure Fields where
  ns : Option Name
  devices : List PresentDevice

def field (state : Fields) (t : Nat) (_wire value : Bytes) : Outcome String Fields :=
  if t = tlvName then do
    let ns ← decodeName codec value "the namespace of the Presence message"
    .ok { state with ns := some ns }
  else if t = presentDevice then do
    let device ← PresentDevice.decode codec value
    .ok { state with devices := state.devices ++ [device] }
  else unknown state t "the Presence message"

def finish (state : Fields) : Outcome String Presence := do
  let ns ← .okOr state.ns "a Presence message names no namespace"
  .ok ⟨ns, state.devices⟩

def decode (value : Bytes) : Outcome String Presence :=
  decodeFields (tlvSplitter codec.toTlvNumbers) (field codec) ⟨none, []⟩ finish value

end Presence

end Codec

/-! ### Addresses -/

structure Ipv4Addr where
  octets : Vector UInt8 4
  deriving DecidableEq

structure Ipv6Addr where
  octets : Vector UInt8 16
  deriving DecidableEq

inductive IpAddr where
  | v4 (ip : Ipv4Addr)
  | v6 (ip : Ipv6Addr)
  deriving DecidableEq

inductive SocketAddr where
  | v4 (ip : Ipv4Addr) (port : UInt16)
  | v6 (ip : Ipv6Addr) (port : UInt16) (flowinfo scopeId : UInt32)
  deriving DecidableEq

/-- The address in `::ffff:a.b.c.d`. -/
def Ipv6Addr.toIpv4Mapped (ip : Ipv6Addr) : Option Ipv4Addr :=
  if ip.octets.toList.take 12 = List.replicate 10 0 ++ [255, 255] then
    some ⟨#v[ip.octets[12], ip.octets[13], ip.octets[14], ip.octets[15]]⟩
  else none

def IpAddr.toCanonical : IpAddr → IpAddr
  | .v4 ip => .v4 ip
  | .v6 ip => ip.toIpv4Mapped.elim (.v6 ip) .v4

def IpAddr.octets : IpAddr → Bytes
  | .v4 ip => ip.octets.toList
  | .v6 ip => ip.octets.toList

namespace SocketAddr

def new : IpAddr → UInt16 → SocketAddr
  | .v4 ip, port => .v4 ip port
  | .v6 ip, port => .v6 ip port 0 0

def ip : SocketAddr → IpAddr
  | .v4 ip _ => .v4 ip
  | .v6 ip _ _ _ => .v6 ip

def port : SocketAddr → UInt16
  | .v4 _ port => port
  | .v6 _ port _ _ => port

/-- What is written of an address: its IPv4 address if it has one, and no more than the port. -/
def canonical (addr : SocketAddr) : SocketAddr := new addr.ip.toCanonical addr.port

end SocketAddr

def encodeUdpAddress (addr : SocketAddr) : Bytes :=
  addr.ip.toCanonical.octets ++ beBytes 2 addr.port.toNat

def portOf (p : Bytes) : Outcome String UInt16 := do
  let high ← index p 0
  let low ← index p 1
  .ok (UInt16.ofNat (ofBe [high, low]))

def decodeUdpAddress (value : Bytes) : Outcome String SocketAddr :=
  if value.length = 6 then do
    let a ← index value 0
    let b ← index value 1
    let c ← index value 2
    let d ← index value 3
    let p ← slice value 4 value.length
    let port ← portOf p
    .ok (.new (.v4 ⟨#v[a, b, c, d]⟩) port)
  else if value.length = 18 then do
    let front ← slice value 0 16
    -- `copy_from_slice` panics where the lengths differ
    let ip ← .checked (array 16 front)
    let p ← slice value 16 value.length
    let port ← portOf p
    .ok (.new (.v6 ⟨ip⟩) port)
  else .err s!"a UDP address of {value.length} bytes (it is 6 or 18)"

/-! ### Punches -/

inductive CandidateKind where
  | host
  | reflexive
  | advertised
  | mapped
  deriving DecidableEq

namespace CandidateKind

def code : CandidateKind → UInt8
  | host => 0
  | reflexive => 1
  | advertised => 2
  | mapped => 3

def fromCode (code : UInt8) : Option CandidateKind :=
  if code = 0 then some host
  else if code = 1 then some reflexive
  else if code = 2 then some advertised
  else if code = 3 then some mapped
  else none

end CandidateKind

structure Candidate where
  kind : CandidateKind
  addr : SocketAddr
  deriving DecidableEq

/-- The shortest of one, two, four and eight bytes. -/
def nni (n : UInt64) : Bytes :=
  if n.toNat ≤ 0xFF then [UInt8.ofNat n.toNat]
  else if n.toNat ≤ 0xFFFF then beBytes 2 n.toNat
  else if n.toNat ≤ 0xFFFFFFFF then beBytes 4 n.toNat
  else beBytes 8 n.toNat

section Splitting

variable (numbers : TlvNumbers)

/-- The TLV at the head of `buf`: its type, value, and where it ends. -/
def split (buf : Bytes) : Outcome String (Nat × Bytes × Nat) := do
  let (t, tn) ← .okOr (numbers.readVaru64 buf) "truncated TLV type"
  let rest ← slice buf tn buf.length
  let (l, ln) ← .okOr (numbers.readVaru64 rest) "truncated TLV length"
  let start := tn + ln
  let stop ← .okOr (if start + l ≤ buf.length then some (start + l) else none) "truncated TLV value"
  let value ← slice buf start stop
  .ok (t, value, stop)

def takeSplit (cur : Bytes) : Outcome String Taken := do
  let (t, value, stop) ← split numbers cur
  let wire ← slice cur 0 stop
  let rest ← slice cur stop cur.length
  .ok ⟨t, wire, value, rest⟩

/-- It is the other splitter, written again. -/
theorem takeSplit_eq (cur : Bytes) : takeSplit numbers cur = takeTlv numbers cur := by
  unfold takeSplit takeTlv split splitTlv
  cases numbers.readVaru64 cur with
  | none => rfl
  | some first =>
    rw [okOr_some, ok_bind, ok_bind]
    dsimp only
    cases slice cur first.2 cur.length with
    | err error => rfl
    | panic => rfl
    | ok rest =>
      rw [ok_bind, ok_bind]
      cases numbers.readVaru64 rest with
      | none => rfl
      | some second =>
        rw [okOr_some, ok_bind, ok_bind]
        by_cases within : first.2 + second.2 + second.1 ≤ cur.length
        · rw [if_pos within, if_pos within, okOr_some, ok_bind,
            ok_bind]
          cases slice cur (first.2 + second.2) (first.2 + second.2 + second.1) <;> rfl
        · rw [if_neg within, if_neg within]
          rfl

def punchSplitter : Splitter where
  take := takeSplit numbers
  shorter found := takeTlv_shorter ((takeSplit_eq numbers _).symm.trans found)

theorem punchSplitter_eq : punchSplitter numbers = tlvSplitter numbers := by
  have same : takeSplit numbers = takeTlv numbers := funext (takeSplit_eq numbers)
  unfold punchSplitter tlvSplitter
  simp only [same]

end Splitting

section Punch

variable (codec : MessageCodec)

namespace Candidate

def value (c : Candidate) : Bytes :=
  writeTlv codec.toTlvNumbers candidateKind [c.kind.code] ++
    writeTlv codec.toTlvNumbers udpAddress (encodeUdpAddress c.addr)

def write (c : Candidate) : Bytes := writeTlv codec.toTlvNumbers candidate (c.value codec)

structure Fields where
  kind : Option UInt8
  addr : Option SocketAddr

def field (state : Fields) (t : Nat) (_wire value : Bytes) : Outcome String Fields :=
  if t = candidateKind then
    match value with
    | [k] => .ok { state with kind := some k }
    | _ => .err "a candidate kind is one byte"
  else if t = udpAddress then do
    let addr ← decodeUdpAddress value
    .ok { state with addr := some addr }
  else unknown state t "a candidate"

/-- A candidate of a kind that is not known is none. -/
def finish (state : Fields) : Outcome String (Option Candidate) :=
  match state.kind, state.addr with
  | some kind, some addr => .ok ((CandidateKind.fromCode kind).map fun kind => ⟨kind, addr⟩)
  | _, _ => .err "a candidate lacks its kind or address"

/-- `decode_candidate`. -/
def decode (cur : Bytes) : Outcome String (Option Candidate) :=
  decodeFields (punchSplitter codec.toTlvNumbers) field ⟨none, none⟩ finish cur

end Candidate

namespace Refusal

def value (refusal : UInt64 × String) : Bytes :=
  writeTlv codec.toTlvNumbers refusalCode (nni refusal.1) ++
    writeTlv codec.toTlvNumbers refusalText (asBytes refusal.2)

structure Fields where
  code : Option UInt64
  text : String

def field (state : Fields) (t : Nat) (_wire value : Bytes) : Outcome String Fields :=
  if t = refusalCode then
    if value.length ∉ [1, 2, 4, 8] then .err "a refusal code is a NonNegativeInteger"
    else .ok { state with
      code := some (value.foldl (fun (n : UInt64) b => n <<< 8 ||| b.toUInt64) 0) }
  else if t = refusalText then .ok { state with text := fromUtf8Lossy value }
  else unknown state t "a punch refusal"

def finish (state : Fields) : Outcome String (UInt64 × String) := do
  let code ← .okOr state.code "a punch refusal carries no code"
  .ok (code, state.text)

/-- `decode_refusal`. -/
def decode (cur : Bytes) : Outcome String (UInt64 × String) :=
  decodeFields (punchSplitter codec.toTlvNumbers) field ⟨none, ""⟩ finish cur

end Refusal

structure PunchMessage where
  key : Bytes
  candidates : List Candidate
  refusal : Option (UInt64 × String)
  certificates : List Bytes
  memberships : List Membership
  deriving DecidableEq

namespace PunchMessage

def encode (m : PunchMessage) : Bytes :=
  writeTlv codec.toTlvNumbers punchKey m.key ++
    ((m.candidates.take candidatesMax).flatMap (Candidate.write codec) ++
      (m.refusal.elim [] (fun refusal =>
          writeTlv codec.toTlvNumbers punchRefusal (Refusal.value codec refusal)) ++
        (m.certificates.flatMap id ++ m.memberships.flatMap (Membership.write codec))))

structure Fields where
  key : Option Bytes
  candidates : List Candidate
  refusal : Option (UInt64 × String)
  certificates : List Bytes
  memberships : List Membership

/-- Candidates beyond the most there may be are read and left. -/
def pushCandidate (state : Fields) (c : Option Candidate) : Fields :=
  match c with
  | some c =>
    if state.candidates.length < candidatesMax then
      { state with candidates := state.candidates ++ [c] }
    else state
  | none => state

def field (state : Fields) (t : Nat) (wire value : Bytes) : Outcome String Fields :=
  if t = punchKey then .ok { state with key := some value }
  else if t = candidate then do
    let c ← Candidate.decode codec value
    .ok (pushCandidate state c)
  else if t = punchRefusal then do
    let refusal ← Refusal.decode codec value
    .ok { state with refusal := some refusal }
  else if t = tlvData then .ok { state with certificates := state.certificates ++ [wire] }
  else if t = membership then do
    let m ← Membership.decode codec value
    .ok { state with memberships := state.memberships ++ [m] }
  else unknown state t "the punch message"

def finish (state : Fields) : Outcome String PunchMessage := do
  let key ← .okOr state.key "the punch message names no link key"
  .ok ⟨key, state.candidates, state.refusal, state.certificates, state.memberships⟩

def decode (cur : Bytes) : Outcome String PunchMessage :=
  decodeFields (punchSplitter codec.toTlvNumbers) (field codec) ⟨none, [], none, [], []⟩ finish cur

end PunchMessage

end Punch

end NdnExt.Link.Messages
