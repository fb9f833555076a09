import Mathlib.Data.List.Sort
import NdnExt.Lib.Outcome
import NdnExt.Link.Identify

/-! Whether a link is admitted: the peer entry, the link policies and the serving policy over what
the peer's hello establishes. -/

namespace NdnExt.Link

open NdnExt.Lib

def LinkDetail.append : LinkDetail → LinkDetail → LinkDetail
  | .new code params causes, cause => .new code params (causes ++ [cause])

def notServed (code : LinkCode) (params : List (String × Param)) (own : List Name) : Refusal :=
  ⟨.notServed, .new code (params ++ if own.isEmpty then [] else [("own", .names own)]) []⟩

def Proven.result (proven : Proven) : Except Unidentified (List Identity) :=
  if proven.identities.isEmpty then .error proven.why else .ok proven.identities

/-- The order of the identities that are served: those without a slot, without limits, with. -/
def servedOrder : Option QuotaSlot → Nat
  | none => 0
  | some slot => if slot.limits.isNone then 1 else 2

namespace Judge

variable (judge : Judge)

def ownNamespaces : List Name :=
  (judge.keyring.contexts.map TrustContext.ns).filter fun ns =>
    ns ≠ .root && (judge.ownRoleIn ns).isSome

/-- The anchor keys of a held namespace. -/
def heldRoots (ns : Name) : List KeyFingerprint :=
  (judge.keyring.contexts.filter fun ctx => ctx.ns = ns).flatMap fun ctx =>
    ctx.anchors.map fun anchor => judge.security.ofNdnKey anchor.publicKey

def takeSlot (live : Live) (ns : Name) (root : KeyFingerprint) (quotas : Option Quotas) :
    Except Refusal (Live × Option QuotaSlot) :=
  match live.take ns root quotas with
  | .ok (live, slot) => .ok (live, some slot)
  | .error refusal => .error refusal.refusal

/-- Whether the serving policy serves a device of a held namespace. -/
def servesHeld (live : Live) (id : Identity) : Except Refusal (Live × Option QuotaSlot) :=
  let own := judge.ownNamespaces
  if own.contains id.ns then .ok (live, none)
  else
    let anchors := judge.heldRoots id.ns
    let params := [("device", .name id.device), ("namespace", .name id.ns)]
    match judge.serve with
    | .listed roots quotas =>
      match anchors.find? fun anchor => roots.contains anchor with
      | some root => takeSlot live id.ns root quotas
      | none => .error (notServed .notServedUncertified
          (params ++ [("listed", .number roots.length), ("roots", .keys anchors)]) own)
    | _ => .error (notServed .notServedUncertified params own)

def servesForeign (live : Live) (id : Identity) (root : KeyFingerprint) :
    Except Refusal (Live × Option QuotaSlot) :=
  let own := judge.ownNamespaces
  let params := [("device", .name id.device), ("namespace", .name id.ns), ("root", .key root)]
  match judge.serve with
  | .listed roots quotas =>
    if roots.contains root then takeSlot live id.ns root quotas
    else .error (notServed .notServedUnlisted (("listed", .number roots.length) :: params) own)
  | .open quotas => takeSlot live id.ns root (some quotas)
  | .own => .error (notServed .notServedOwn params own)

def serves (live : Live) (id : Identity) : Except Refusal (Live × Option QuotaSlot) :=
  match id.served with
  | none => judge.servesHeld live id
  | some root => judge.servesForeign live id root

/-- Why the link policy of its namespace refuses an identity. -/
def linkPolicyRefusal (peer : Option PeerId) (id : Identity) : Option Refusal :=
  if id.served.isSome then none
  else
    let policy := (judge.keyring.contextFor id.device).linkPolicy
    let params := [("namespace", .name id.ns), ("version", .number id.version),
      ("role", .text id.role.asStr)]
    if !policy.allowsLink id.role.asStr then
      some ⟨.roleNotAllowed, .new .roleMayNotLink params []⟩
    else if peer.any judge.peers.isRelay && !policy.allowsRelay id.role.asStr then
      some ⟨.roleNotAllowed, .new .roleMayNotRelay params []⟩
    else none

end Judge

/-! ### Serving -/

structure Serving where
  live : Live
  served : List (Identity × Option QuotaSlot)
  refused : Option (Refusal × Bool)

variable (judge : Judge)

def serveIdentity (s : Serving) (id : Identity) : Serving :=
  match judge.serves s.live id with
  | .ok (live, quota) => { s with live := live, served := s.served ++ [(id, quota)] }
  | .error refusal => { s with refused := s.refused.or (some (refusal, id.served.isSome)) }

/-- A device that is not served may enroll while its hello names no other namespace. -/
def withEnrollmentPossible (refusal : Refusal) (foreign unasked : Bool) : Refusal :=
  match refusal.reason = .notServed && foreign && unasked, judge.enrollmentNamespaces with
  | true, .ok namespaces => { refusal with
      detail := refusal.detail.append
        (.new .enrollmentPossible [("namespaces", .names namespaces)] []) }
  | _, _ => refusal

def serve (fingerprint : KeyFingerprint) (peer : Option PeerId) (ids : List Identity)
    (unasked : Bool) : Outcome Refusal (Live × Admitted) :=
  let judged := ids.foldl (serveIdentity judge) ⟨judge.quotas, [], none⟩
  match judged.served.insertionSort fun left right => servedOrder left.2 ≤ servedOrder right.2,
    judged.refused with
  | [], none => .panic
  | [], some (refusal, foreign) => .err (withEnrollmentPossible judge refusal foreign unasked)
  | (id, quota) :: rest, _ => .ok (judged.live, {
      fingerprint := fingerprint
      identities := id :: rest.map Prod.fst
      peer := peer
      enrollment := none
      quota := quota
      quotas := rest.filterMap Prod.snd })

/-! ### The admission matrix -/

namespace Judge

/-- Only a held namespace confirms a device a peer entry names. -/
def confirming (config : Option PeerSpec) (identities : Except Unidentified (List Identity)) :
    Except Unidentified (List Identity) :=
  match identities with
  | .error why => .error why
  | .ok ids =>
    if config.isNone then .ok ids
    else if (ids.filter fun id => id.served.isNone).isEmpty then
      .error (.unusable (.new .namespaceNotHeld [("namespaces",
        .names ((ids.filter fun id => id.served.isSome).map Identity.ns))] []))
    else .ok (ids.filter fun id => id.served.isNone)

/-- What a peer entry makes of the link by itself: a refusal, or an enrollment link. -/
def expects (p : PeerSpec) (fingerprint : KeyFingerprint)
    (identities : Except Unidentified (List Identity)) (dialed : Option PeerId) :
    Except Refusal (Option Enrollment) :=
  match p.key.filter (· ≠ fingerprint) with
  | some expected => .error ⟨.notTheExpectedDevice, .new .notExpectedKey
      [("peer", .text p.label), ("expected", .key expected), ("key", .key fingerprint)] []⟩
  | none =>
    match p.device, identities with
    | none, _ => .ok none
    | some device, .ok ids =>
      if ids.any fun id => id.device = device then .ok none
      else .error ⟨.notTheExpectedDevice, .new .notExpectedDevice
        [("expected", .name device), ("devices", .names (ids.map Identity.device))] []⟩
    | some device, .error why =>
      if p.key = some fingerprint then .ok none
      else if dialed.isSome && (judge.ownRoleIn (judge.namespaceOf device)).isNone then
        .ok (some (.device (judge.namespaceOf device)))
      else .error ⟨.unrecognized, .new .expectedDeviceUnconfirmed [("device", .name device)]
        [why.detail]⟩

/-- The device a peer entry expects decides the link. -/
def expectedFirst (expected : Option Name) (ids : List Identity) : List Identity :=
  match expected.bind fun device => ids.find? fun id => id.device = device with
  | none => ids
  | some id => id :: ids.eraseP fun other => other.device = id.device

def admitted (fingerprint : KeyFingerprint) (peer : Option PeerId) (identities : List Identity)
    (enrollment : Option Enrollment) : Outcome Refusal (Live × Admitted) :=
  .ok (judge.quotas, {
    fingerprint := fingerprint
    identities := identities
    peer := peer
    enrollment := enrollment
    quota := none
    quotas := [] })

/-- A peer that proved identities: each is judged by the link policy of its namespace. -/
def decideIdentities (fingerprint : KeyFingerprint) (peer : Option PeerId)
    (config : Option PeerSpec) (unasked : Bool) (ids : List Identity) :
    Outcome Refusal (Live × Admitted) :=
  let expected := config.bind PeerSpec.device
  let ids := expectedFirst expected ids
  match (ids.head?.filter fun _ => expected.isSome).bind (judge.linkPolicyRefusal peer) with
  | some refusal => .err refusal
  | none =>
    match ids.filter fun id => (judge.linkPolicyRefusal peer id).isNone,
      ids.findSome? (judge.linkPolicyRefusal peer) with
    | [], some first => .err first
    | allowed, _ =>
      if config.isSome then judge.admitted fingerprint peer allowed none
      else NdnExt.Link.serve judge fingerprint peer allowed unasked

/-- A peer that proved nothing is refused, unless nobody asked for the link and it may enroll. -/
def decideUnknown (fingerprint : KeyFingerprint) (peer : Option PeerId) (config : Option PeerSpec)
    (unasked : Bool) (why : Unidentified) : Outcome Refusal (Live × Admitted) :=
  match unasked, judge.enrollmentNamespaces with
  | true, .ok namespaces => judge.admitted fingerprint peer [] (some (.relay namespaces))
  | _, verdict =>
    let noEnrollmentLink := match unasked, verdict with
      | true, .error whyNot => [whyNot]
      | _, _ => []
    let policy := match judge.serve with
      | .own => none
      | .listed _ _ => some "listed"
      | .open _ => some "open"
    match why, policy, config with
    | .noCertificate, some policy, none => .err ⟨.notServed, .new .notServedNoCertificate
        [("policy", .text policy), ("key", .key fingerprint)] noEnrollmentLink⟩
    | _, _, _ =>
      let held := judge.keyring.contexts.map TrustContext.ns
      .err ⟨.unrecognized, .new .unrecognizedKey
        (("key", .key fingerprint) :: if held.isEmpty then [] else [("held", .names held)])
        (why.detail :: noEnrollmentLink)⟩

def decideIdentified (fingerprint : KeyFingerprint)
    (identities : Except Unidentified (List Identity)) (peer dialed : Option PeerId) :
    Outcome Refusal (Live × Admitted) :=
  let config := peer.bind judge.peers.get
  let identities := confirming config identities
  match config with
  | none => decided config identities
  | some p =>
    match judge.expects p fingerprint identities dialed with
    | .error refusal => .err refusal
    | .ok (some enrollment) => judge.admitted fingerprint peer [] (some enrollment)
    | .ok none => decided config identities
where
  decided (config : Option PeerSpec) (identities : Except Unidentified (List Identity)) :
      Outcome Refusal (Live × Admitted) :=
    let unasked := dialed.isNone && config.isNone
    match identities with
    | .ok ids => judge.decideIdentities fingerprint peer config unasked ids
    | .error why =>
      if config.any fun p => p.key = some fingerprint then
        judge.admitted fingerprint peer [] none
      else judge.decideUnknown fingerprint peer config unasked why

def decide (key : PeerKey) (hello : LinkHello) (channel : Bytes) (dialed : Option PeerId) :
    Outcome Refusal (Live × Admitted) :=
  match judge.identify key hello channel with
  | .error refusal => .err refusal
  | .ok proven =>
    let devices := (proven.identities.filter fun id => id.served.isNone).map Identity.device
    judge.decideIdentified key.fingerprint proven.result
      (dialed.or (judge.peers.findAny key.fingerprint devices)) dialed

end Judge

end NdnExt.Link
