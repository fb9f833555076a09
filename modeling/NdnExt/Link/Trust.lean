import NdnExt.Link.Quotas

/-! What a device judges its links by: the trust contexts it holds, its own certificates, its peers,
and what it says when it refuses. -/

namespace NdnExt.Link

abbrev Bytes := List UInt8

inductive CloseReason where
  | shutdown
  | replaced
  | idle
  | enrolled
  | pathExpired
  | asleep
  | released
  | unrecognized
  | certificateForAnotherKey
  | revoked
  | roleNotAllowed
  | notTheExpectedDevice
  | protocol
  | busy
  | noLinkKey
  | directPathsOff
  | notServed
  | membershipNotBound
  deriving DecidableEq

/-- The codes of what a device says about a link. -/
inductive LinkCode where
  | noCertificate
  | certificateUndecodable
  | certificateForAnotherKey
  | membershipUndecodable
  | membershipNotBound
  | issuerUndecodable
  | keyRevoked
  | issuerRevoked
  | notDeviceCertificate
  | certificateExpired
  | certificateUnauthenticated
  | certificateInvalid
  | certificateChainUnknown
  | rootCollides
  | foreignNoRoot
  | foreignRootNoNamespace
  | foreignNotDeviceCertificate
  | foreignRootInvalidNamespace
  | foreignRootExpired
  | foreignCertificateInvalid
  | foreignChainIncomplete
  | namespaceNotHeld
  | notExpectedKey
  | notExpectedDevice
  | expectedDeviceUnconfirmed
  | notServedNoCertificate
  | notServedUncertified
  | notServedUnlisted
  | notServedOwn
  | namespaceCollides
  | quotaNamespaceLinks
  | quotaLinks
  | unrecognizedKey
  | noEnrollmentLink
  | enrollmentLinksOff
  | enrollmentNoCa
  | enrollmentRoleMayNotRelay
  | enrollmentNoCertificate
  | enrollmentNoNamespace
  | enrollmentPossible
  | roleMayNotLink
  | roleMayNotRelay
  deriving DecidableEq

inductive Param where
  | name (name : Name)
  | names (names : List Name)
  | key (key : KeyFingerprint)
  | keys (keys : List KeyFingerprint)
  | number (number : Nat)
  | text (text : String)

/-- A code with its parameters, and the details that caused or follow it. -/
inductive LinkDetail where
  | new (code : LinkCode) (params : List (String × Param)) (causes : List LinkDetail)

structure Refusal where
  reason : CloseReason
  detail : LinkDetail

def QuotaRefusal.refusal : QuotaRefusal → Refusal
  | .namespaceCollides ns bound root =>
    ⟨.notServed, .new .namespaceCollides
      [("namespace", .name ns), ("bound_root", .key bound), ("root", .key root)] []⟩
  | .quotaNamespaceLinks max ns links =>
    ⟨.busy, .new .quotaNamespaceLinks
      [("max", .number max), ("namespace", .name ns), ("links", .number links)] []⟩
  | .quotaLinks max links =>
    ⟨.busy, .new .quotaLinks [("max", .number max), ("links", .number links)] []⟩

/-! ### Certificates and trust contexts -/

structure Certificate where
  name : Name
  keyName : Name
  publicKey : Bytes
  issuer : Option Name
  deriving DecidableEq

structure Role where
  asStr : String
  deriving DecidableEq

structure DeviceKey where
  role : Role
  device : String

structure LinkPolicy where
  enrollmentLinks : Bool
  allowsLink : String → Bool
  allowsRelay : String → Bool

structure TrustContext where
  ns : Name
  version : Nat
  linkPolicy : LinkPolicy
  caEndpoints : List Name
  anchors : List Certificate
  isAnchor : Name → Bool
  isRevoked : Name → Bool

/-- The contexts held, and the one that covers a name (of the root name where none does). -/
structure Keyring where
  contexts : List TrustContext
  contextFor : Name → TrustContext

def Covers (ns name : Name) : Prop := ns.components <+: name.components

instance (ns name : Name) : Decidable (Covers ns name) :=
  inferInstanceAs (Decidable (_ <+: _))

/-- The context of a name is the held one whose namespace is the longest that covers it, and a
namespace has one context. -/
structure Keyring.Lawful (keyring : Keyring) : Prop where
  held : ∀ name, (keyring.contextFor name).ns ≠ .root →
    keyring.contextFor name ∈ keyring.contexts ∧ Covers (keyring.contextFor name).ns name
  longest : ∀ name, ∀ ctx ∈ keyring.contexts, Covers ctx.ns name →
    ctx.ns.components.length ≤ (keyring.contextFor name).ns.components.length
  one : ∀ left ∈ keyring.contexts, ∀ right ∈ keyring.contexts, left.ns = right.ns → left = right

structure OwnMembership where
  ns : Name
  chain : List Bytes

structure LinkTrust where
  keyring : Keyring
  ownChain : List Bytes
  ownMemberships : List OwnMembership
  knownCertificate : Name → Option Certificate
  knownCertificateOfKey : KeyFingerprint → Option Certificate

inductive ValidationResult where
  | valid (authenticated : Bool)
  | invalid (error : String)
  | pending

/-- A decoded membership carries a certificate. -/
structure Membership where
  certificates : List Bytes
  carries : certificates ≠ []
  binding : Bytes

structure LinkHello where
  certificates : List Bytes
  memberships : List Membership

structure PeerKey where
  ndnPublicKey : Bytes
  fingerprint : KeyFingerprint

/-- What is asked of certificates: to decode them, to read the device of a device key's name, and to
validate a chain. -/
structure Security where
  decode : Bytes → Except String Certificate
  parseDeviceKey : Name → Name → Option DeviceKey
  keyNameOf : Name → Name
  isValidNow : Certificate → Bool
  ofNdnKey : Bytes → KeyFingerprint
  /-- The verdict on a leaf under a keyring and the certificates at hand, and what is missing. -/
  validateChainCached : Keyring → List Certificate → Bytes → ValidationResult × Option Name
  namespaceContext : Name → Option TrustContext
  addAnchor : TrustContext → Certificate → Option TrustContext
  adopted : TrustContext → Keyring
  verify : Membership → Bytes → KeyFingerprint → Bytes → Except String Unit

def text (s : String) : NameComponent := .generic s.toUTF8.toList

/-- The name of a device, from its certificate's namespace. -/
def DeviceKey.nameIn (device : DeviceKey) (ns : Name) : Name :=
  (ns.appendComponent (text device.role.asStr)).appendComponent (text device.device)

/-- A device key's name is that of its namespace, its role and its device, and what follows. -/
def Security.ReadsDevices (security : Security) : Prop :=
  ∀ ns name device, security.parseDeviceKey ns name = some device →
    Covers (device.nameIn ns) name

/-! ### Peers -/

structure PeerId where
  index : Nat
  deriving DecidableEq

structure RelayUse where
  preference : UInt32

structure PeerSpec where
  label : String
  key : Option KeyFingerprint
  device : Option Name
  relay : Option PeerId
  relayUse : Option RelayUse

structure Peers where
  slots : List (Option PeerSpec)

namespace Peers

def get (peers : Peers) (id : PeerId) : Option PeerSpec := (peers.slots[id.index]?).join

/-- Another peer is reached through it, or this device uses it as one. -/
def isRelay (peers : Peers) (id : PeerId) : Bool :=
  (peers.get id).any (fun p => p.relayUse.isSome) ||
    peers.slots.any fun slot => slot.any fun p => p.relay = some id

def findAny (peers : Peers) (fingerprint : KeyFingerprint) (devices : List Name) : Option PeerId :=
  (peers.slots.findIdx? fun slot => slot.any fun p =>
    p.key = some fingerprint || p.device.any fun d => devices.contains d).map PeerId.mk

end Peers

/-! ### The judge -/

inductive ServePolicy where
  | own
  | listed (roots : List KeyFingerprint) (quotas : Option Quotas)
  | «open» (quotas : Quotas)

structure Judge where
  security : Security
  trust : LinkTrust
  peers : Peers
  serve : ServePolicy
  quotas : Live

/-- Who a peer is; `served` is the root's fingerprint where its namespace is not held. -/
structure Identity where
  ns : Name
  version : Nat
  device : Name
  role : Role
  certificates : List Name
  served : Option KeyFingerprint

inductive Unidentified where
  | noCertificate
  | unusable (why : LinkDetail)

def Unidentified.detail : Unidentified → LinkDetail
  | .noCertificate => .new .noCertificate [] []
  | .unusable why => why

inductive Identified where
  | device (identity : Identity)
  | unknown (why : Unidentified)

structure Proven where
  identities : List Identity
  why : Unidentified

inductive Enrollment where
  | relay (namespaces : List Name)
  | device (ns : Name)

structure Admitted where
  fingerprint : KeyFingerprint
  identities : List Identity
  peer : Option PeerId
  enrollment : Option Enrollment
  quota : Option QuotaSlot
  quotas : List QuotaSlot

end NdnExt.Link
