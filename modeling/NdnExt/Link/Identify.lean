import NdnExt.Link.Trust

/-! Who a peer is, from the certificates of its hello. -/

namespace NdnExt.Link

def maxChain : Nat := 8

def membershipsMax : Nat := 8

def certificateExpired (certificate : Name) : LinkDetail :=
  .new .certificateExpired [("certificate", .name certificate)] []

def certificateUnauthenticated (certificate ns : Name) : LinkDetail :=
  .new .certificateUnauthenticated [("certificate", .name certificate), ("namespace", .name ns)] []

/-- The identity of a key name, which ends in `KEY` and the key's id. -/
def keyIdentity (key : Name) : Option Name :=
  let at' := key.components.length - 2
  if key.components.length < 2 then none
  else if (key.components[at']?).any fun c => c.value = "KEY".toUTF8.toList then
    some ⟨key.components.take at'⟩
  else none

def unusable (why : LinkDetail) : Identified := .unknown (.unusable why)

namespace Judge

variable (judge : Judge)

def keyring : Keyring := judge.trust.keyring

def isSelfSigned (cert : Certificate) : Bool :=
  cert.issuer.map judge.security.keyNameOf = some cert.keyName

def decodeCertificate (wire : Bytes) : Option Certificate :=
  (judge.security.decode wire).toOption

/-- This device's certificates: the link key's first, then each membership's. -/
def ownCertificates : List (Certificate × Option OwnMembership) :=
  judge.trust.ownMemberships.foldl
    (fun out m =>
      match m.chain.head?.bind judge.decodeCertificate with
      | none => out
      | some cert =>
        if out.any fun c => c.1.name = cert.name || c.1.publicKey = cert.publicKey then out
        else out ++ [(cert, some m)])
    ((judge.trust.ownChain.head?.bind judge.decodeCertificate).map fun cert => (cert, none)).toList

def ownRoleIn (ns : Name) : Option Role :=
  judge.ownCertificates.findSome? fun c =>
    (judge.security.parseDeviceKey ns c.1.name).map DeviceKey.role

/-- The namespace of a device: the held one it is in, else its name without role and device. -/
def namespaceOf (device : Name) : Name :=
  let ctx := judge.keyring.contextFor device
  if ctx.ns ≠ .root then ctx.ns else ⟨device.components.take (device.components.length - 2)⟩

/-- Whether this relay admits enrollment links for a held namespace. -/
def admitsEnrollment (ctx : TrustContext) : Except LinkDetail Name :=
  if !ctx.linkPolicy.enrollmentLinks then
    .error (.new .enrollmentLinksOff [("namespace", .name ctx.ns)] [])
  else if ctx.caEndpoints.isEmpty then
    .error (.new .enrollmentNoCa [("namespace", .name ctx.ns)] [])
  else
    match judge.ownRoleIn ctx.ns with
    | some role =>
      if ctx.linkPolicy.allowsRelay role.asStr then .ok ctx.ns
      else .error (.new .enrollmentRoleMayNotRelay
        [("namespace", .name ctx.ns), ("role", .text role.asStr)] [])
    | none => .error (.new .enrollmentNoCertificate [("namespace", .name ctx.ns)] [])

def enrollmentNamespaces : Except LinkDetail (List Name) :=
  let verdicts := (judge.keyring.contexts.filter fun ctx => ctx.ns ≠ .root).map
    judge.admitsEnrollment
  let namespaces := verdicts.filterMap Except.toOption
  let whyNot := verdicts.filterMap fun
    | .error why => some why
    | .ok _ => none
  if namespaces ≠ [] then .ok namespaces
  else .error (.new .noEnrollmentLink []
    (if whyNot.isEmpty then [.new .enrollmentNoNamespace [] []] else whyNot))

/-- The verdict on a leaf under the held contexts; certificates known already stand in for missing
ones, one a round. -/
def validateRounds : Nat → List Certificate → Bytes → ValidationResult
  | 0, _, _ => .pending
  | rounds + 1, cache, leaf =>
    match judge.security.validateChainCached judge.keyring cache leaf with
    | (.pending, some missing) =>
      match judge.trust.knownCertificate missing with
      | some cert => validateRounds rounds (cache ++ [cert]) leaf
      | none => .pending
    | (result, _) => result

def validate (leaf : Bytes) (issuers : List Certificate) : ValidationResult :=
  judge.validateRounds maxChain issuers leaf

/-- A device of a namespace that is not held, checked against the root its chain ends in. -/
def identifyForeign (leafWire : Bytes) (leaf : Certificate) (chain : List Certificate) :
    Identified :=
  match chain.getLast?.filter judge.isSelfSigned with
  | none => unusable (.new .foreignNoRoot [("certificate", .name leaf.name)] [])
  | some root =>
    match (keyIdentity root.keyName).filter (· ≠ .root) with
    | none => unusable (.new .foreignRootNoNamespace [("root", .name root.name)] [])
    | some ns =>
      match judge.security.parseDeviceKey ns leaf.name with
      | none => unusable (.new .foreignNotDeviceCertificate
          [("certificate", .name leaf.name), ("namespace", .name ns), ("root", .name root.name)] [])
      | some device =>
        if !judge.security.isValidNow leaf then unusable (certificateExpired leaf.name)
        else
          match judge.security.namespaceContext ns with
          | none => unusable (.new .foreignRootInvalidNamespace [("root", .name root.name)] [])
          | some ctx =>
            match judge.security.addAnchor ctx root with
            | none => unusable (.new .foreignRootExpired [("root", .name root.name)] [])
            | some ctx =>
              match (judge.security.validateChainCached (judge.security.adopted ctx) chain
                leafWire).1 with
              | .valid false => unusable (certificateUnauthenticated leaf.name ns)
              | .invalid e => unusable (.new .foreignCertificateInvalid
                  [("certificate", .name leaf.name), ("root", .name root.name),
                    ("error", .text e)] [])
              | .pending => unusable (.new .foreignChainIncomplete
                  [("certificate", .name leaf.name), ("root", .name root.name)] [])
              | .valid true =>
                .device {
                  ns := ns
                  version := 0
                  device := device.nameIn ns
                  role := device.role
                  certificates := leaf.name :: chain.map Certificate.name
                  served := some (judge.security.ofNdnKey root.publicKey) }

/-- Why a leaf of a held namespace does not validate there. -/
def invalidIn (ctx : TrustContext) (leaf : Certificate) : ValidationResult → Option LinkDetail
  | .valid true => none
  | .valid false => some (certificateUnauthenticated leaf.name ctx.ns)
  | .invalid e => some (.new .certificateInvalid
      [("certificate", .name leaf.name), ("namespace", .name ctx.ns),
        ("version", .number ctx.version), ("error", .text e)] [])
  | .pending => some (.new .certificateChainUnknown [("certificate", .name leaf.name)] [])

/-- What a certificate with the issuers sent with it establishes. -/
def identifyChain (leafWire : Bytes) (leaf : Certificate) (issuers : List Bytes) :
    Except Refusal Identified :=
  match (issuers.take maxChain).mapM judge.security.decode with
  | .error e => .error ⟨.protocol, .new .issuerUndecodable [("error", .text e)] []⟩
  | .ok chain =>
    let ctx := judge.keyring.contextFor leaf.name
    if ctx.ns = .root then .ok (judge.identifyForeign leafWire leaf chain)
    else if ctx.isRevoked leaf.name then
      .error ⟨.revoked, .new .keyRevoked [("key", .name leaf.keyName), ("namespace", .name ctx.ns),
        ("version", .number ctx.version)] []⟩
    else
      match judge.security.parseDeviceKey ctx.ns leaf.name with
      | none => .ok (unusable (.new .notDeviceCertificate
          [("certificate", .name leaf.name), ("namespace", .name ctx.ns)] []))
      | some device =>
        if !judge.security.isValidNow leaf then .ok (unusable (certificateExpired leaf.name))
        else
          match chain.find? fun c => ctx.isRevoked c.name with
          | some revoked => .error ⟨.revoked, .new .issuerRevoked [("issuer", .name revoked.name),
              ("namespace", .name ctx.ns), ("version", .number ctx.version)] []⟩
          | none =>
            match invalidIn ctx leaf (judge.validate leafWire chain) with
            | none => .ok (.device {
                ns := ctx.ns
                version := ctx.version
                device := device.nameIn ctx.ns
                role := device.role
                certificates := leaf.name :: chain.map Certificate.name
                served := none })
            | some why =>
              match judge.serve, chain.getLast?.filter fun c =>
                judge.isSelfSigned c && !ctx.isAnchor c.name with
              | .own, _ => .ok (unusable why)
              | _, none => .ok (unusable why)
              | _, some root => .error ⟨.notServed, .new .rootCollides
                  [("certificate", .name leaf.name),
                    ("root", .key (judge.security.ofNdnKey root.publicKey)),
                    ("namespace", .name ctx.ns)] []⟩

/-- A refusal of a key that a held context revokes a known certificate of. -/
def revokedKey (key : PeerKey) : Option Refusal :=
  (judge.trust.knownCertificateOfKey key.fingerprint).bind fun cert =>
    let ctx := judge.keyring.contextFor cert.name
    if ctx.ns = .root ∨ !ctx.isRevoked cert.name then none
    else some ⟨.revoked, .new .keyRevoked [("key", .name cert.keyName), ("namespace", .name ctx.ns),
      ("version", .number ctx.version)] []⟩

/-- What the certificates of a hello established so far. -/
structure Establishing where
  identities : List Identity
  heldBack : Option Refusal
  why : Unidentified

/-- The link key's own certificate. -/
def identifyLinkKey (key : PeerKey) (hello : LinkHello) : Except Refusal Establishing :=
  match judge.revokedKey key, hello.certificates with
  | some refusal, _ => .ok ⟨[], some refusal, .noCertificate⟩
  | none, [] => .ok ⟨[], none, .noCertificate⟩
  | none, leafWire :: issuers =>
    match judge.security.decode leafWire with
    | .error e => .error ⟨.protocol, .new .certificateUndecodable [("error", .text e)] []⟩
    | .ok leaf =>
      if leaf.publicKey ≠ key.ndnPublicKey then
        .error ⟨.certificateForAnotherKey, .new .certificateForAnotherKey
          [("certificate", .name leaf.name), ("key", .key key.fingerprint)] []⟩
      else
        match judge.identifyChain leafWire leaf issuers with
        | .ok (.device id) => .ok ⟨[id], none, .noCertificate⟩
        | .ok (.unknown why) => .ok ⟨[], none, why⟩
        | .error refusal =>
          if refusal.reason = .protocol then .error refusal
          else .ok ⟨[], some refusal, .noCertificate⟩

/-- One membership of the hello. -/
def identifyMembership (key : PeerKey) (hello : LinkHello) (channel : Bytes) (state : Establishing)
    (membership : Membership) : Except Refusal Establishing :=
  let leafWire := membership.certificates.head membership.carries
  match judge.security.decode leafWire with
  | .error e => .error ⟨.protocol, .new .membershipUndecodable [("error", .text e)] []⟩
  | .ok leaf =>
    match judge.security.verify membership leaf.publicKey key.fingerprint channel with
    | .error e => .error ⟨.membershipNotBound, .new .membershipNotBound
        [("certificate", .name leaf.name), ("error", .text e)] []⟩
    | .ok () =>
      match judge.identifyChain leafWire leaf membership.certificates.tail with
      | .ok (.device id) =>
        if state.identities.any fun i => i.ns = id.ns then .ok state
        else .ok { state with identities := state.identities ++ [id] }
      | .ok (.unknown why) =>
        match state.why with
        | .noCertificate =>
          if hello.certificates.isEmpty then .ok { state with why := why } else .ok state
        | .unusable _ => .ok state
      | .error refusal =>
        if refusal.reason = .protocol then .error refusal
        else .ok { state with heldBack := state.heldBack.or (some refusal) }

/-- What a peer's hello establishes. -/
def identify (key : PeerKey) (hello : LinkHello) (channel : Bytes) : Except Refusal Proven :=
  match judge.identifyLinkKey key hello with
  | .error refusal => .error refusal
  | .ok state =>
    match (hello.memberships.take membershipsMax).foldlM
      (judge.identifyMembership key hello channel) state with
    | .error refusal => .error refusal
    | .ok state =>
      match state.identities, state.heldBack with
      | [], some refusal => .error refusal
      | _, _ => .ok ⟨state.identities, state.why⟩

/-! ### What an identity proves -/

/-- An identity that is not served is of the held namespace of its certificate. -/
def Proves (id : Identity) : Prop :=
  id.served = none → ∃ leaf device, (judge.keyring.contextFor leaf).ns ≠ .root ∧
    id.ns = (judge.keyring.contextFor leaf).ns ∧
      judge.security.parseDeviceKey id.ns leaf = some device ∧ id.device = device.nameIn id.ns ∧
        id.role = device.role

variable {judge}

theorem identifyForeign_served {leafWire : Bytes} {leaf : Certificate} {chain : List Certificate}
    {id : Identity} (identified : judge.identifyForeign leafWire leaf chain = .device id) :
    id.served ≠ none := by
  unfold identifyForeign unusable at identified
  repeat' split at identified
  all_goals first
    | (cases identified; exact nofun)
    | cases identified

theorem identifyChain_proves {leafWire : Bytes} {leaf : Certificate} {issuers : List Bytes}
    {id : Identity} (identified : judge.identifyChain leafWire leaf issuers = .ok (.device id)) :
    judge.Proves id := by
  unfold identifyChain unusable at identified
  split at identified
  · cases identified
  · next chain decoded =>
    dsimp only at identified
    split at identified
    · intro held
      rw [Except.ok.injEq] at identified
      exact absurd held (identifyForeign_served identified)
    · next nonempty =>
      split at identified
      · cases identified
      · split at identified
        · cases identified
        · next device parsed =>
          split at identified
          · cases identified
          · split at identified
            · cases identified
            · split at identified
              · cases identified
                intro _
                exact ⟨leaf.name, device, nonempty, rfl, parsed, rfl, rfl⟩
              · split at identified <;> cases identified

variable {hello : LinkHello} {channel : Bytes}

section

variable {P : Identity → Prop}
  (chained : ∀ leafWire leaf issuers id,
    judge.identifyChain leafWire leaf issuers = .ok (.device id) → P id)

include chained

theorem identifyLinkKey_forall {key : PeerKey} {state : Establishing}
    (identified : judge.identifyLinkKey key hello = .ok state) : ∀ id ∈ state.identities, P id := by
  unfold identifyLinkKey at identified
  split at identified
  · cases identified
    exact List.forall_mem_nil _
  · cases identified
    exact List.forall_mem_nil _
  · split at identified
    · cases identified
    · split at identified
      · cases identified
      · split at identified
        · next chain =>
          cases identified
          intro id found
          rw [List.mem_singleton.mp found]
          exact chained _ _ _ _ chain
        · cases identified
          exact List.forall_mem_nil _
        · split at identified
          · cases identified
          · cases identified
            exact List.forall_mem_nil _

theorem identifyMembership_forall {key : PeerKey}
    {state state' : Establishing} {membership : Membership} (before : ∀ id ∈ state.identities, P id)
    (identified : judge.identifyMembership key hello channel state membership = .ok state') :
    ∀ id ∈ state'.identities, P id := by
  unfold identifyMembership at identified
  dsimp only at identified
  split at identified
  · cases identified
  · split at identified
    · cases identified
    · split at identified
      · next chain =>
        split at identified
        · cases identified
          exact before
        · cases identified
          intro id found
          rcases List.mem_append.mp found with earlier | new
          · exact before id earlier
          · rw [List.mem_singleton.mp new]
            exact chained _ _ _ _ chain
      · split at identified
        · split at identified <;> (cases identified; exact before)
        · cases identified
          exact before
      · split at identified
        · cases identified
        · cases identified
          exact before

/-- What holds of whatever a chain establishes holds of every identity a hello establishes. -/
theorem identify_forall {key : PeerKey} {proven : Proven}
    (identified : judge.identify key hello channel = .ok proven) :
    ∀ id ∈ proven.identities, P id := by
  have memberships : ∀ (rest : List Membership) (state state' : Establishing),
      rest.foldlM (judge.identifyMembership key hello channel) state = .ok state' →
        (∀ id ∈ state.identities, P id) → ∀ id ∈ state'.identities, P id := by
    intro rest
    induction rest with
    | nil =>
      intro state state' run before
      cases run
      exact before
    | cons membership rest ih =>
      intro state state' run before
      rw [List.foldlM_cons] at run
      cases first : judge.identifyMembership key hello channel state membership with
      | error refusal =>
        rw [first] at run
        cases run
      | ok next =>
        rw [first] at run
        exact ih next state' run (identifyMembership_forall chained before first)
  unfold identify at identified
  split at identified
  · cases identified
  · next state linked =>
    split at identified
    · cases identified
    · next state' run =>
      have after := memberships _ state state' run (identifyLinkKey_forall chained linked)
      split at identified
      · cases identified
      · cases identified
        exact after

end

/-- Every identity a hello establishes is proved. -/
theorem identify_proves {key : PeerKey} {proven : Proven}
    (identified : judge.identify key hello channel = .ok proven) :
    ∀ id ∈ proven.identities, judge.Proves id :=
  identify_forall (fun _ _ _ _ chain => identifyChain_proves chain) identified

end Judge

end NdnExt.Link
