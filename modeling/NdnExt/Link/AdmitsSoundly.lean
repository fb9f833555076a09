import NdnExt.Link.Admission

/-! Whom a device admits: the peers its entries expect, devices that a held namespace lets link, and
devices it serves. -/

namespace NdnExt.Link

open NdnExt.Lib List Option Judge

variable {judge : Judge} {fingerprint : KeyFingerprint} {peer dialed : Option PeerId}

/-! ### Identities -/

/-- The link policy of a held namespace lets a role link, and relay where the peer is a relay. -/
def LinkAllowed (judge : Judge) (peer : Option PeerId) (id : Identity) : Prop :=
  ∃ ctx ∈ judge.keyring.contexts, ctx.ns = id.ns ∧ ctx.ns ≠ .root ∧
    ctx.linkPolicy.allowsLink id.role.asStr ∧
      ((∃ p, peer = some p ∧ judge.peers.isRelay p) → ctx.linkPolicy.allowsRelay id.role.asStr)

/-- The serving policy serves a device: of one of this device's own namespaces, of a namespace whose
root it lists, or of any namespace that is not held. -/
inductive ServedBy (judge : Judge) (id : Identity) : Prop where
  | own (held : id.served = none) (own : id.ns ∈ judge.ownNamespaces)
  | listed (roots : List KeyFingerprint) (quotas : Option Quotas)
      (serve : judge.serve = .listed roots quotas) (root : KeyFingerprint) (listed : root ∈ roots)
      (proved : id.served = some root ∨ id.served = none ∧ root ∈ judge.heldRoots id.ns)
  | «open» (quotas : Quotas) (serve : judge.serve = .open quotas) (foreign : id.served ≠ none)

namespace Covers

theorem refl (name : Name) : Covers name name := prefix_refl _

theorem trans {ns name longer : Name} (first : Covers ns name) (second : Covers name longer) :
    Covers ns longer :=
  List.IsPrefix.trans first second

theorem nameIn (device : DeviceKey) (ns : Name) : Covers ns (device.nameIn ns) := by
  simp only [Covers, DeviceKey.nameIn, Name.appendComponent, append_assoc]
  exact prefix_append _ _

/-- Two namespaces of the same length that cover one name are the same. -/
theorem eq_of_length {left right name : Name} (first : Covers left name)
    (second : Covers right name)
    (length : left.components.length = right.components.length) : left = right := by
  have same : left.components = right.components :=
    (prefix_of_prefix_length_le first second length.le).eq_of_length length
  cases left
  cases right
  exact congrArg Name.mk same

end Covers

/-- The context of a proved device is the one its certificate was judged in. -/
theorem contextFor_device (lawful : judge.keyring.Lawful) (reads : judge.security.ReadsDevices)
    {leaf : Name} {device : DeviceKey} (nonempty : (judge.keyring.contextFor leaf).ns ≠ .root)
    (parsed : judge.security.parseDeviceKey (judge.keyring.contextFor leaf).ns leaf = some device) :
    judge.keyring.contextFor (device.nameIn (judge.keyring.contextFor leaf).ns) =
      judge.keyring.contextFor leaf := by
  have leafHeld := lawful.held leaf nonempty
  have longer := lawful.longest (device.nameIn (judge.keyring.contextFor leaf).ns) _ leafHeld.1
    (Covers.nameIn device _)
  have deviceHeld := lawful.held (device.nameIn (judge.keyring.contextFor leaf).ns) (by
    intro empty
    rw [empty] at longer
    have length : (judge.keyring.contextFor leaf).ns.components.length = 0 :=
      Nat.le_zero.mp longer
    refine nonempty ?_
    cases named : (judge.keyring.contextFor leaf).ns with
    | mk components =>
      rw [named] at length
      exact congrArg Name.mk (length_eq_zero_iff.mp length))
  have covers := deviceHeld.2.trans (reads _ _ _ parsed)
  have shorter := lawful.longest leaf _ deviceHeld.1 covers
  have same := covers.eq_of_length leafHeld.2 (Nat.le_antisymm shorter longer)
  exact lawful.one _ deviceHeld.1 _ leafHeld.1 same

theorem linkAllowed_of_no_refusal (lawful : judge.keyring.Lawful)
    (reads : judge.security.ReadsDevices) {id : Identity} (proves : judge.Proves id)
    (held : id.served = none) (allowed : judge.linkPolicyRefusal peer id = none) :
    LinkAllowed judge peer id := by
  rcases proves held with ⟨leaf, device, nonempty, ns, parsed, named, _⟩
  rw [ns] at parsed named
  have context : judge.keyring.contextFor id.device = judge.keyring.contextFor leaf := by
    rw [named]
    exact contextFor_device lawful reads nonempty parsed
  have leafHeld := lawful.held leaf nonempty
  refine ⟨_, leafHeld.1, ns.symm, nonempty, ?_⟩
  unfold linkPolicyRefusal at allowed
  rw [if_neg (by rw [held]; decide)] at allowed
  dsimp only at allowed
  rw [context] at allowed
  split at allowed
  · cases allowed
  · next links =>
    split at allowed
    · cases allowed
    · next relays =>
      have mayLink : (judge.keyring.contextFor leaf).linkPolicy.allowsLink id.role.asStr =
          true := by
        simpa only [Bool.not_eq_true', Bool.not_eq_false] using links
      refine ⟨mayLink, ?_⟩
      rintro ⟨p, rfl, isRelay⟩
      simpa only [any_some, isRelay, Bool.true_and, Bool.not_eq_true',
        Bool.not_eq_false] using relays


variable {live : Live} {ids : List Identity} {unasked : Bool}
  {identities : Except Unidentified (List Identity)} {p : PeerSpec} {config : Option PeerSpec}

theorem servedBy_of_ok {id : Identity} {result : Live × Option QuotaSlot}
    (served : judge.serves live id = .ok result) : ServedBy judge id := by
  unfold serves at served
  split at served
  · next held =>
    unfold servesHeld at served
    dsimp only at served
    split at served
    · next own => exact .own held (contains_iff_mem.mp own)
    · split at served
      · next roots quotas policy =>
        split at served
        · next root found =>
          have listed := List.find?_some found
          exact .listed roots quotas policy root (contains_iff_mem.mp listed)
            (.inr ⟨held, mem_of_find?_eq_some found⟩)
        · cases served
      · cases served
  · next root foreign =>
    unfold servesForeign at served
    split at served
    · next roots quotas policy =>
      split at served
      · next listed =>
        exact .listed roots quotas policy root (contains_iff_mem.mp listed)
          (.inl foreign)
      · cases served
    · next quotas policy => exact .open quotas policy (by rw [foreign]; exact nofun)
    · cases served

/-! ### The serving policy's decision -/

/-- What is served so far is of the identities judged so far, and none is left without a verdict. -/
structure Serving.Judged (judge : Judge) (s : Serving) (ids : List Identity) : Prop where
  served : ∀ entry ∈ s.served, entry.1 ∈ ids ∧ ServedBy judge entry.1
  verdict : ids ≠ [] → s.served ≠ [] ∨ s.refused ≠ none

theorem serveIdentity_judged {s : Serving} (judged : s.Judged judge ids)
    (id : Identity) : (serveIdentity judge s id).Judged judge (ids ++ [id]) := by
  unfold serveIdentity
  split
  · next live quota granted =>
    constructor
    · intro entry found
      rcases mem_append.mp found with earlier | new
      · have before := judged.served entry earlier
        exact ⟨mem_append_left _ before.1, before.2⟩
      · rw [mem_singleton.mp new]
        exact ⟨mem_append_right _ (mem_singleton_self id), servedBy_of_ok granted⟩
    · intro _
      exact .inl (append_ne_nil_of_right_ne_nil _ (cons_ne_nil _ _))
  · next refusal _ =>
    constructor
    · intro entry found
      have before := judged.served entry found
      exact ⟨mem_append_left _ before.1, before.2⟩
    · intro _
      refine .inr ?_
      cases s.refused <;> exact nofun

theorem foldl_judged (ids : List Identity) {s : Serving} {earlier : List Identity}
    (judged : s.Judged judge earlier) :
    (ids.foldl (serveIdentity judge) s).Judged judge (earlier ++ ids) := by
  induction ids generalizing s earlier with
  | nil => rwa [append_nil]
  | cons id rest ih =>
    have next := ih (serveIdentity_judged judged id)
    rwa [append_assoc, singleton_append] at next

theorem start_judged (judge : Judge) : Serving.Judged judge ⟨judge.quotas, [], none⟩ [] :=
  ⟨nofun, fun nonempty => absurd rfl nonempty⟩

theorem serve_ok {admitted : Admitted}
    (served : serve judge fingerprint peer ids unasked = .ok (live, admitted)) :
    admitted.enrollment = none ∧ admitted.identities ≠ [] ∧
      ∀ id ∈ admitted.identities, id ∈ ids ∧ ServedBy judge id := by
  have judged := foldl_judged ids (start_judged judge)
  rw [nil_append] at judged
  unfold serve at served
  dsimp only at served
  split at served
  · cases served
  · cases served
  · next id quota rest sorted =>
    cases served
    refine ⟨rfl, cons_ne_nil _ _, ?_⟩
    intro other found
    have listed : ∃ entry ∈ (id, quota) :: rest, entry.1 = other := by
      rcases mem_cons.mp found with rfl | later
      · exact ⟨_, mem_cons_self, rfl⟩
      · rcases mem_map.mp later with ⟨entry, among, rfl⟩
        exact ⟨entry, mem_cons_of_mem _ among, rfl⟩
    rcases listed with ⟨entry, among, rfl⟩
    rw [← sorted] at among
    exact judged.served entry ((mem_insertionSort _).mp among)

/-- An identity was judged, so the serving policy says something. -/
theorem serve_ne_panic (nonempty : ids ≠ []) (unasked : Bool) :
    serve judge fingerprint peer ids unasked ≠ .panic := by
  have judged := foldl_judged ids (start_judged judge)
  rw [nil_append] at judged
  unfold serve
  dsimp only
  split
  · next sorted unrefused =>
    exfalso
    rcases judged.verdict nonempty with served | refused
    · refine served ?_
      have length := congrArg List.length sorted
      rw [length_insertionSort] at length
      exact length_eq_zero_iff.mp length
    · exact refused unrefused
  · exact nofun
  · exact nofun

/-! ### Peer entries -/

theorem expects_key
    {enrollment : Option Enrollment}
    (expected : judge.expects p fingerprint identities dialed = .ok enrollment) :
    ∀ key, p.key = some key → key = fingerprint := by
  unfold expects at expected
  split at expected
  · cases expected
  · next matching =>
    intro key named
    rw [named] at matching
    by_contra other
    rw [filter_some, if_pos (decide_eq_true other)] at matching
    cases matching

/-- An enrollment link to a device that this side dialled and cannot confirm yet. -/
theorem expects_enrollment
    {enrollment : Enrollment}
    (expected : judge.expects p fingerprint identities dialed = .ok (some enrollment)) :
    ∃ device, p.device = some device ∧ enrollment = .device (judge.namespaceOf device) ∧
      dialed ≠ none ∧ judge.ownRoleIn (judge.namespaceOf device) = none := by
  unfold expects at expected
  split at expected
  · cases expected
  · split at expected
    · cases expected
    · split at expected <;> cases expected
    · next device why named =>
      split at expected
      · cases expected
      · split at expected
        · next outside =>
          cases expected
          rw [Bool.and_eq_true, isSome_iff_ne_none, isNone_iff_eq_none] at outside
          exact ⟨device, named, rfl, outside.1, outside.2⟩
        · cases expected

/-- Where a peer entry leaves the link to the other rules, its device is proved or its key is the
link's. -/
theorem expects_none
    (expected : judge.expects p fingerprint identities dialed = .ok none) {device : Name}
    (named : p.device = some device) :
    (∃ ids, identities = .ok ids ∧ ∃ id ∈ ids, id.device = device) ∨ p.key = some fingerprint := by
  unfold expects at expected
  split at expected
  · cases expected
  · split at expected
    · next unnamed => rw [unnamed] at named; cases named
    · next other ids other_named =>
      rw [other_named, Option.some.injEq] at named
      subst named
      split at expected
      · next proved =>
        rcases any_eq_true.mp proved with ⟨id, found, same⟩
        exact .inl ⟨ids, rfl, id, found, of_decide_eq_true same⟩
      · cases expected
    · split at expected
      · next key => exact .inr key
      · split at expected <;> cases expected

theorem expectedFirst_perm (expected : Option Name) (ids : List Identity) :
    (expectedFirst expected ids).Perm ids := by
  unfold expectedFirst
  split
  · rfl
  · next first found =>
    rcases bind_eq_some_iff.mp found with ⟨device, _, located⟩
    rcases List.find?_eq_some_iff_append.mp located with ⟨named, earlier, later, rfl, others⟩
    have named : first.device = device := of_decide_eq_true named
    rw [eraseP_append_right, eraseP_cons_of_pos (by exact decide_eq_true rfl)]
    · exact perm_middle.symm
    · intro other among
      rw [named]
      simpa only [Bool.not_eq_eq_eq_not, Bool.not_true, Bool.not_eq_true] using others other among

/-- An expected device that is among the identities is the first of them. -/
theorem expectedFirst_head {device : Name}
    (proved : ∃ id ∈ ids, id.device = device) :
    ∃ id rest, expectedFirst (some device) ids = id :: rest ∧ id.device = device := by
  rcases proved with ⟨other, among, same⟩
  have some : (ids.find? fun id => id.device = device).isSome :=
    List.find?_isSome.mpr ⟨other, among, decide_eq_true same⟩
  rcases isSome_iff_exists.mp some with ⟨id, found⟩
  refine ⟨id, ids.eraseP fun other => other.device = id.device, ?_, ?_⟩
  · simp only [expectedFirst, bind_some, found]
  · have named := List.find?_some found
    exact of_decide_eq_true named

/-! ### The admission matrix -/

/-- What admitting a peer that proved identities means. -/
structure AdmitsIdentities (judge : Judge) (peer : Option PeerId) (config : Option PeerSpec)
    (ids : List Identity) (admitted : Admitted) : Prop where
  nonempty : admitted.identities ≠ []
  unenrolled : admitted.enrollment = none
  allowed : ∀ id ∈ admitted.identities, id ∈ ids ∧ judge.linkPolicyRefusal peer id = none
  served : config = none → ∀ id ∈ admitted.identities, ServedBy judge id
  expected : ∀ p device, config = some p → p.device = some device →
    (∃ id ∈ ids, id.device = device) →
      ∃ id rest, admitted.identities = id :: rest ∧ id.device = device

/-- Where nothing is refused first, what the policies allow is not empty. -/
theorem allowed_of_unrefused (nonempty : ids ≠ [])
    (unrefused : ids.findSome? (judge.linkPolicyRefusal peer) = none) :
    ids.filter (fun id => (judge.linkPolicyRefusal peer id).isNone) ≠ [] := by
  rw [List.findSome?_eq_none_iff] at unrefused
  rw [filter_eq_self.mpr fun id among => by rw [unrefused id among]; rfl]
  exact nonempty

/-- A peer that proved identities is refused, or the policies allow some of them. -/
theorem decideIdentities_cases (fingerprint : KeyFingerprint) (peer : Option PeerId)
    (config : Option PeerSpec) (unasked : Bool) (nonempty : ids ≠ []) :
    (∃ refusal, judge.decideIdentities fingerprint peer config unasked ids = .err refusal) ∨
    ∃ first rest,
      (expectedFirst (config.bind PeerSpec.device) ids).filter
        (fun id => (judge.linkPolicyRefusal peer id).isNone) = first :: rest ∧
      ((expectedFirst (config.bind PeerSpec.device) ids).head?.filter
        fun _ => (config.bind PeerSpec.device).isSome).bind (judge.linkPolicyRefusal peer) = none ∧
      judge.decideIdentities fingerprint peer config unasked ids =
        if config.isSome then judge.admitted fingerprint peer (first :: rest) none
        else serve judge fingerprint peer (first :: rest) unasked := by
  have ordered : expectedFirst (config.bind PeerSpec.device) ids ≠ [] := by
    intro empty
    have perm := expectedFirst_perm (config.bind PeerSpec.device) ids
    rw [empty] at perm
    exact nonempty perm.nil_eq.symm
  unfold decideIdentities
  dsimp only
  split
  · next refusal _ => exact .inl ⟨refusal, rfl⟩
  · next deciding =>
    rcases allowed : (expectedFirst (config.bind PeerSpec.device) ids).filter
        (fun id => (judge.linkPolicyRefusal peer id).isNone) with _ | ⟨first, rest⟩
    · cases refusals : (expectedFirst (config.bind PeerSpec.device) ids).findSome?
        (judge.linkPolicyRefusal peer) with
      | none => exact absurd allowed (allowed_of_unrefused ordered refusals)
      | some refusal => exact .inl ⟨refusal, rfl⟩
    · exact .inr ⟨first, rest, rfl, deciding, rfl⟩

theorem decideIdentities_ok {admitted : Admitted} (nonempty : ids ≠ [])
    (decided : judge.decideIdentities fingerprint peer config unasked ids = .ok (live, admitted)) :
    AdmitsIdentities judge peer config ids admitted := by
  rcases decideIdentities_cases fingerprint peer config unasked nonempty with
    ⟨refusal, refused⟩ | ⟨first, rest, allowed, deciding, result⟩
  · rw [refused] at decided
    cases decided
  · have each : ∀ id ∈ first :: rest, id ∈ ids ∧ judge.linkPolicyRefusal peer id = none := by
      intro id found
      rw [← allowed] at found
      rcases mem_filter.mp found with ⟨among, unrefused⟩
      exact ⟨(expectedFirst_perm _ ids).mem_iff.mp among, isNone_iff_eq_none.mp unrefused⟩
    rw [result] at decided
    cases config with
    | none =>
      rw [if_neg (by decide)] at decided
      rcases serve_ok decided with ⟨unenrolled, remaining, served⟩
      exact {
        nonempty := remaining
        unenrolled := unenrolled
        allowed := fun id found => each id (served id found).1
        served := fun _ id found => (served id found).2
        expected := nofun }
    | some p =>
      rw [if_pos (by rfl)] at decided
      cases decided
      refine ⟨cons_ne_nil _ _, rfl, each, nofun, ?_⟩
      intro q device same named proved
      cases same
      rcases expectedFirst_head proved with ⟨id, others, head, isDevice⟩
      rw [bind_some, named, head] at allowed deciding
      rw [List.head?_cons, isSome_some, filter_some, if_pos (by rfl),
        bind_some] at deciding
      rw [filter_cons_of_pos (by rw [deciding]; rfl)] at allowed
      cases allowed
      exact ⟨_, _, rfl, isDevice⟩

/-- A peer that proved nothing is admitted only for its enrollment, where nobody asked for the
link. -/
theorem decideUnknown_ok {why : Unidentified} {admitted : Admitted}
    (decided : judge.decideUnknown fingerprint peer config unasked why = .ok (live, admitted)) :
    unasked ∧ admitted.identities = [] ∧
      ∃ namespaces, admitted.enrollment = some (.relay namespaces) := by
  unfold Judge.decideUnknown Judge.admitted at decided
  split at decided
  · next namespaces _ =>
    cases decided
    exact ⟨rfl, rfl, namespaces, rfl⟩
  · dsimp only at decided
    split at decided <;> cases decided

/-- Who is admitted, where `proven` is what the peer's hello establishes. -/
structure Judge.AdmitsSoundly (judge : Judge) (fingerprint : KeyFingerprint)
    (proven : List Identity) (peer dialed : Option PeerId) (admitted : Admitted) : Prop where
  key : ∀ p, peer.bind judge.peers.get = some p → ∀ key, p.key = some key → key = fingerprint
  device : ∀ p, peer.bind judge.peers.get = some p → ∀ device, p.device = some device →
    (∃ id rest, admitted.identities = id :: rest ∧ id ∈ proven ∧ id.served = none ∧
      id.device = device) ∨
    p.key = some fingerprint ∨
    (admitted.enrollment = some (.device (judge.namespaceOf device)) ∧ dialed ≠ none ∧
      judge.ownRoleIn (judge.namespaceOf device) = none)
  proved : ∀ id ∈ admitted.identities, id ∈ proven
  held : ∀ id ∈ admitted.identities, id.served = none → LinkAllowed judge peer id
  expected : peer.bind judge.peers.get ≠ none → ∀ id ∈ admitted.identities, id.served = none
  served : peer.bind judge.peers.get = none → ∀ id ∈ admitted.identities, ServedBy judge id
  empty : admitted.identities = [] →
    (∃ p, peer.bind judge.peers.get = some p ∧ p.key = some fingerprint) ∨
      admitted.enrollment ≠ none
  enrolling : ∀ ns, admitted.enrollment = some (.device ns) →
    ∃ p device, peer.bind judge.peers.get = some p ∧ p.device = some device ∧
      ns = judge.namespaceOf device ∧ dialed ≠ none ∧ judge.ownRoleIn ns = none
  relay : ∀ namespaces, admitted.enrollment = some (.relay namespaces) →
    dialed = none ∧ peer.bind judge.peers.get = none ∧ proven = []

/-- Identities that confirm a peer entry are held ones that the hello established. -/
theorem confirming_ok {proven : Proven}
    (confirmed : confirming config proven.result = .ok ids) :
    ids ≠ [] ∧ (∀ id ∈ ids, id ∈ proven.identities) ∧
      (config ≠ none → ∀ id ∈ ids, id.served = none) := by
  unfold confirming Proven.result at confirmed
  split at confirmed
  · cases confirmed
  · next found established =>
    split at established
    · cases established
    · next nonempty =>
      cases established
      split at confirmed
      · next unconfigured =>
        cases confirmed
        refine ⟨fun empty => nonempty (isEmpty_iff.mpr empty), fun _ among => among, ?_⟩
        intro configured
        exact absurd (isNone_iff_eq_none.mp unconfigured) configured
      · split at confirmed
        · cases confirmed
        · next some =>
          cases confirmed
          refine ⟨fun empty => some (isEmpty_iff.mpr empty), ?_, ?_⟩
          · intro id among
            exact (mem_filter.mp among).1
          · intro _ id among
            exact isNone_iff_eq_none.mp (mem_filter.mp among).2

/-- Without a peer entry, what a hello establishes is judged as it is. -/
theorem confirming_error {proven : Proven} {why : Unidentified}
    (unconfirmed : confirming none proven.result = .error why) : proven.identities = [] := by
  unfold confirming Proven.result at unconfirmed
  split at unconfirmed
  · next established =>
    split at established
    · next empty => exact isEmpty_iff.mp empty
    · cases established
  · cases unconfirmed

section Decided

variable {proven : Proven} {live : Live} {admitted : Admitted}

/-- Without a peer entry, a peer is admitted for what it proved, or for its enrollment. -/
theorem unexpected_soundly (lawful : judge.keyring.Lawful) (reads : judge.security.ReadsDevices)
    (proves : ∀ id ∈ proven.identities, judge.Proves id)
    (unconfigured : peer.bind judge.peers.get = none)
    (decided : decideIdentified.decided judge fingerprint peer dialed none
      (confirming none proven.result) = .ok (live, admitted)) :
    judge.AdmitsSoundly fingerprint proven.identities peer dialed admitted := by
  unfold decideIdentified.decided at decided
  split at decided
  · next ids confirmed =>
    rcases confirming_ok confirmed with ⟨nonempty, among, _⟩
    have admits := decideIdentities_ok nonempty decided
    exact {
      key := fun p configured => by rw [unconfigured] at configured; cases configured
      device := fun p configured => by rw [unconfigured] at configured; cases configured
      proved := fun id found => among id (admits.allowed id found).1
      held := fun id found held => linkAllowed_of_no_refusal lawful reads
        (proves id (among id (admits.allowed id found).1)) held (admits.allowed id found).2
      expected := fun configured => absurd unconfigured configured
      served := fun _ => admits.served rfl
      empty := fun empty => absurd empty admits.nonempty
      enrolling := fun ns enrolled => by rw [admits.unenrolled] at enrolled; cases enrolled
      relay := fun namespaces enrolled => by rw [admits.unenrolled] at enrolled; cases enrolled }
  · next why unconfirmed =>
    rw [any_none, if_neg (by decide)] at decided
    rcases decideUnknown_ok decided with ⟨unasked, empty, namespaces, enrolled⟩
    have undialed : dialed = none := by
      rw [Bool.and_eq_true, isNone_iff_eq_none] at unasked
      exact unasked.1
    exact {
      key := fun p configured => by rw [unconfigured] at configured; cases configured
      device := fun p configured => by rw [unconfigured] at configured; cases configured
      proved := fun id found => by rw [empty] at found; cases found
      held := fun id found => by rw [empty] at found; cases found
      expected := fun configured => absurd unconfigured configured
      served := fun _ id found => by rw [empty] at found; cases found
      empty := fun _ => .inr (by rw [enrolled]; exact nofun)
      enrolling := fun ns other => by rw [enrolled] at other; cases other
      relay := fun _ _ => ⟨undialed, unconfigured, confirming_error unconfirmed⟩ }

/-- A peer entry's enrollment link carries no identity. -/
theorem enrolling_soundly {enrollment : Enrollment}
    (configured : peer.bind judge.peers.get = some p)
    (expected : judge.expects p fingerprint identities dialed = .ok (some enrollment))
    (decided : judge.admitted fingerprint peer [] (some enrollment) = .ok (live, admitted)) :
    judge.AdmitsSoundly fingerprint proven.identities peer dialed admitted := by
  have keys := expects_key expected
  rcases expects_enrollment expected with ⟨device, named, rfl, dials, outside⟩
  cases decided
  exact {
    key := fun q same => by
      rw [configured] at same
      cases same
      exact keys
    device := fun q same other named' => by
      rw [configured] at same
      cases same
      rw [named, Option.some.injEq] at named'
      cases named'
      exact .inr (.inr ⟨rfl, dials, outside⟩)
    proved := nofun
    held := nofun
    expected := fun _ => nofun
    served := fun _ => nofun
    empty := fun _ => .inr nofun
    enrolling := fun ns enrolled => by
      cases enrolled
      exact ⟨p, device, configured, named, rfl, dials, outside⟩
    relay := nofun }

/-- A peer entry is met by the device it names, or by its key. -/
theorem expected_soundly (lawful : judge.keyring.Lawful) (reads : judge.security.ReadsDevices)
    (proves : ∀ id ∈ proven.identities, judge.Proves id)
    (configured : peer.bind judge.peers.get = some p)
    (expected : judge.expects p fingerprint (confirming (some p) proven.result) dialed =
      .ok none)
    (decided : decideIdentified.decided judge fingerprint peer dialed (some p)
      (confirming (some p) proven.result) = .ok (live, admitted)) :
    judge.AdmitsSoundly fingerprint proven.identities peer dialed admitted := by
  have keys := expects_key expected
  unfold decideIdentified.decided at decided
  split at decided
  · next ids confirmed =>
    rcases confirming_ok confirmed with ⟨nonempty, among, held⟩
    have admits := decideIdentities_ok nonempty decided
    have isHeld : ∀ id ∈ admitted.identities, id.served = none := fun id found =>
      held nofun id (admits.allowed id found).1
    exact {
      key := fun q same => by
        rw [configured] at same
        cases same
        exact keys
      device := fun q same device named => by
        rw [configured] at same
        cases same
        rcases expects_none expected named with ⟨others, confirmed', proved⟩ | key
        · rw [confirmed, Except.ok.injEq] at confirmed'
          cases confirmed'
          rcases admits.expected p device rfl named proved with ⟨id, rest, first, isDevice⟩
          have found : id ∈ admitted.identities := by
            rw [first]
            exact mem_cons_self
          exact .inl ⟨id, rest, first, among id (admits.allowed id found).1, isHeld id found,
            isDevice⟩
        · exact .inr (.inl key)
      proved := fun id found => among id (admits.allowed id found).1
      held := fun id found held => linkAllowed_of_no_refusal lawful reads
        (proves id (among id (admits.allowed id found).1)) held (admits.allowed id found).2
      expected := fun _ => isHeld
      served := fun unconfigured => by rw [configured] at unconfigured; cases unconfigured
      empty := fun empty => absurd empty admits.nonempty
      enrolling := fun ns enrolled => by rw [admits.unenrolled] at enrolled; cases enrolled
      relay := fun namespaces enrolled => by rw [admits.unenrolled] at enrolled; cases enrolled }
  · next why unconfirmed =>
    split at decided
    · next key =>
      have key : p.key = some fingerprint := by
        rw [any_some] at key
        exact of_decide_eq_true key
      cases decided
      exact {
        key := fun q same => by
          rw [configured] at same
          cases same
          exact keys
        device := fun q same _ _ => by
          rw [configured] at same
          cases same
          exact .inr (.inl key)
        proved := nofun
        held := nofun
        expected := fun _ => nofun
        served := fun _ => nofun
        empty := fun _ => .inl ⟨p, configured, key⟩
        enrolling := nofun
        relay := nofun }
    · have unasked := (decideUnknown_ok decided).1
      rw [isNone_some, Bool.and_false] at unasked
      cases unasked

end Decided

theorem decideUnknown_ne_panic (config : Option PeerSpec) (unasked : Bool) (why : Unidentified) :
    judge.decideUnknown fingerprint peer config unasked why ≠ .panic := by
  unfold decideUnknown admitted
  split
  · exact nofun
  · dsimp only
    split <;> exact nofun

/-- The admission matrix never runs into its panic. -/
theorem decideIdentified_ne_panic (judge : Judge) (fingerprint : KeyFingerprint) (proven : Proven)
    (peer dialed : Option PeerId) :
    judge.decideIdentified fingerprint proven.result peer dialed ≠ .panic := by
  have decided : ∀ config, decideIdentified.decided judge fingerprint peer dialed config
      (confirming config proven.result) ≠ .panic := by
    intro config
    unfold decideIdentified.decided
    split
    · next ids confirmed =>
      rcases decideIdentities_cases fingerprint peer config (dialed.isNone && config.isNone)
        (confirming_ok confirmed).1 with ⟨refusal, refused⟩ | ⟨first, rest, _, _, result⟩
      · rw [refused]
        exact nofun
      · rw [result]
        split
        · exact nofun
        · exact serve_ne_panic (cons_ne_nil _ _) _
    · split
      · exact nofun
      · exact decideUnknown_ne_panic _ _ _
  unfold decideIdentified
  dsimp only
  split
  · next unconfigured =>
    rw [unconfigured]
    exact decided none
  · next p configured =>
    rw [configured]
    split
    · exact nofun
    · exact nofun
    · exact decided (some p)

/-- Whoever `decideIdentified` admits, on what a hello establishes, is one that a peer entry expects,
a held namespace lets link, or the serving policy serves. -/
theorem decideIdentified_admits_soundly (judge : Judge) (lawful : judge.keyring.Lawful)
    (reads : judge.security.ReadsDevices) (key : PeerKey) (hello : LinkHello) (channel : Bytes)
    (proven : Proven) (identified : judge.identify key hello channel = .ok proven)
    (peer dialed : Option PeerId) (live : Live) (admitted : Admitted)
    (decided : judge.decideIdentified key.fingerprint proven.result peer dialed =
      .ok (live, admitted)) :
    judge.AdmitsSoundly key.fingerprint proven.identities peer dialed admitted := by
  have proves := Judge.identify_proves identified
  unfold Judge.decideIdentified at decided
  dsimp only at decided
  split at decided
  · next unconfigured =>
    rw [unconfigured] at decided
    exact unexpected_soundly lawful reads proves unconfigured decided
  · next p configured =>
    rw [configured] at decided
    split at decided
    · cases decided
    · next enrollment expected => exact enrolling_soundly configured expected decided
    · next expected => exact expected_soundly lawful reads proves configured expected decided

/-! ### One relay and a device of its namespace -/

namespace Example

def ns : Name := ⟨[text "n"]⟩

def certified (device key : String) (publicKey : Bytes) : Certificate where
  name := ⟨[text "n", text "node", text device, text "KEY", text key, text "root", text "v1"]⟩
  keyName := ⟨[text "n", text "node", text device, text "KEY", text key]⟩
  publicKey := publicKey
  issuer := some ⟨[text "n", text "KEY", text "root"]⟩

def context : TrustContext where
  ns := ns
  version := 1
  linkPolicy := ⟨false, fun role => role == "node", fun _ => false⟩
  caEndpoints := []
  anchors := []
  isAnchor := fun _ => false
  isRevoked := fun _ => false

def noContext : TrustContext := { context with ns := .root, version := 0 }

def keyring : Keyring where
  contexts := [context]
  contextFor name := if Covers ns name then context else noContext

theorem keyring_lawful : keyring.Lawful where
  held := by
    intro name nonempty
    simp only [keyring] at nonempty ⊢
    split at nonempty
    · next covers =>
      rw [if_pos covers]
      exact ⟨mem_singleton_self context, covers⟩
    · exact absurd rfl nonempty
  longest := by
    intro name ctx among covers
    cases mem_singleton.mp among
    rw [show keyring.contextFor name = context from if_pos covers]
  one := by
    intro left first right second _
    rw [mem_singleton.mp first, mem_singleton.mp second]

/-- The device of a key named after a node. -/
def parseDeviceKey (ns name : Name) : Option DeviceKey :=
  ["alpha", "beta"].findSome? fun device =>
    if Covers (DeviceKey.nameIn ⟨⟨"node"⟩, device⟩ ns) name then some ⟨⟨"node"⟩, device⟩ else none

def decode (wire : Bytes) : Except String Certificate :=
  if wire = [1] then .ok (certified "alpha" "a" [11])
  else if wire = [2] then .ok (certified "beta" "b" [12])
  else .error "no certificate"

def security : Security where
  decode := decode
  parseDeviceKey := parseDeviceKey
  keyNameOf := id
  isValidNow _ := true
  ofNdnKey key := ⟨Vector.replicate 32 (key.headD 0)⟩
  validateChainCached _ _ _ := (.valid true, none)
  namespaceContext _ := none
  addAnchor _ _ := none
  adopted _ := keyring
  verify _ _ _ _ := .ok ()

theorem security_reads_devices : security.ReadsDevices := by
  intro ns name device parsed
  rcases exists_of_findSome?_eq_some parsed with ⟨known, _, named⟩
  split at named
  · next covers =>
    cases named
    exact covers
  · cases named

/-- A relay certified as a node of the namespace, without peer entries. -/
def relay : Judge where
  security := security
  trust := ⟨keyring, [[2]], [], fun _ => none, fun _ => none⟩
  peers := ⟨[]⟩
  serve := .own
  quotas := .empty

def alphaKey : PeerKey := ⟨[11], ⟨Vector.replicate 32 11⟩⟩

def alphaHello : LinkHello := ⟨[[1]], []⟩

def alpha : Identity where
  ns := ns
  version := 1
  device := ⟨[text "n", text "node", text "alpha"]⟩
  role := ⟨"node"⟩
  certificates := [(certified "alpha" "a" [11]).name]
  served := none

theorem alpha_admitted_soundly : relay.AdmitsSoundly alphaKey.fingerprint [alpha] none none
    { fingerprint := alphaKey.fingerprint, identities := [alpha], peer := none
      enrollment := none, quota := none, quotas := [] } :=
  decideIdentified_admits_soundly relay keyring_lawful security_reads_devices alphaKey alphaHello []
    ⟨[alpha], .noCertificate⟩ (by with_unfolding_all rfl) none none .empty _
    (by with_unfolding_all rfl)

end Example

end NdnExt.Link
