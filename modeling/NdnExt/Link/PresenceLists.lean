import NdnExt.Link.Presence
import NdnExt.Link.TableSteps

/-! The presence lists of a relay and the links they are about. -/

namespace NdnExt.Link

open NdnExt.Lib NdnExt.Lib.Run List RelayState

/-! ### Who is present -/

/-- An identity of a held namespace. -/
def Seated (ns : Name) (identities : List Identity) (device : Name) (role : Role) : Prop :=
  ∃ id ∈ identities, id.ns = ns ∧ id.served = none ∧ id.device = device ∧ id.role = role

namespace LiveLink

/-- A link that is for no enrollment, of a device with an identity, with a link path. -/
def PresentIn (link : LiveLink) (ns device : Name) (role : Role) (handle : LinkHandle) : Prop :=
  link.enrolling = [] ∧ Seated ns link.identities device role ∧
    ∃ p ∈ link.paths, p.path.kind = .link ∧ p.path.handle = handle

def Visible (link : LiveLink) (ns : Name) : Prop :=
  ∃ device role handle, link.PresentIn ns device role handle

end LiveLink

def Present (table : LinkTable) (ns : Name) (key : KeyFingerprint) (device : Name) (role : Role)
    (handle : LinkHandle) : Prop :=
  ∃ link, table.live.lookup key = some link ∧ link.PresentIn ns device role handle

/-- Another device that the role matrix pairs with this one. -/
def Paired (ctx : HeldContext) (table : LinkTable) (key : KeyFingerprint) (role : Role)
    (other : PresentDevice) : Prop :=
  other.key ≠ key ∧ ∃ otherRole handle, Present table ctx.ns other.key other.device otherRole handle ∧
    ctx.allowsDirectPath role.asStr otherRole.asStr = true

/-- A list names the devices paired with one, all of them or as many as a list can hold. -/
structure Names (ctx : HeldContext) (table : LinkTable) (key : KeyFingerprint) (role : Role)
    (devices : List PresentDevice) : Prop where
  distinct : devices.Nodup
  sound : ∀ other ∈ devices, Paired ctx table key role other
  count : ∀ others : List PresentDevice, others.Nodup →
    (∀ other, other ∈ others ↔ Paired ctx table key role other) →
      devices.length = min presenceMax others.length

/-- Every device present was last told of the ones paired with it. -/
def ToldWell (state : RelayState) (ns : Name) : Prop :=
  ∀ ctx ∈ state.contexts.find? (fun ctx : HeldContext => ctx.ns = ns), ∀ key device role handle,
    Present state.table ns key device role handle →
      ∃ devices, state.last handle ns = some devices ∧ Names ctx state.table key role devices

/-! ### When the lists keep up -/

/-- A registration that neither gives the device a place in `ns`, nor takes or changes one. -/
def KeepsPlace (ns : Name) (old : Option LiveLink) (link : Registration) : Prop :=
  if link.path.kind = .link then
    (∀ before ∈ old, ¬before.Visible ns) ∧
      (link.enrolling ≠ [] ∨ ∀ device role, ¬Seated ns (shownWith old link) device role)
  else
    ∀ before ∈ old, before.enrolling = [] → (∃ p ∈ before.paths, p.path.kind = .link) →
      ∀ device role,
        Seated ns (shownWith old link) device role ↔ Seated ns before.identities device role

def FullLinkIn (ns : Name) (link : Registration) : Prop :=
  link.path.kind = .link ∧ link.enrolling = [] ∧ ∃ id ∈ link.identities, id.ns = ns

/-- A list still to be sent to a device that is present. -/
def Unsent (state : RelayState) (ns : Name) : Prop :=
  ∃ handle presence, .send handle presence ∈ state.tasks.flatten ∧ presence.ns = ns ∧
    ∃ key device role, Present state.table ns key device role handle

/-- Any list of present devices fits a message. -/
def ListsFit (encodedLen : Presence → Nat) (table : LinkTable) (ns : Name) : Prop :=
  ∀ devices : List PresentDevice, devices.Nodup → devices.length ≤ presenceMax →
    (∀ d ∈ devices, ∃ role handle, Present table ns d.key d.device role handle) →
      encodedLen ⟨ns, devices⟩ ≤ maxMessage

/-- The step announces the namespace where it changes who is present, and does not take a snapshot
before an earlier one was sent. -/
def Orderly (encodedLen : Presence → Nat) (ns : Name) (state : RelayState) : RelayAction → Prop
  | .linkUp link mine =>
    let old := state.table.live.lookup link.fingerprint
    Refused old link.toRegistration mine ∨ FullLinkIn ns link.toRegistration ∨
      KeepsPlace ns old link.toRegistration
  | .pathEnd fingerprint generation =>
    ∀ link ∈ state.table.live.lookup fingerprint, link.Visible ns →
      ∀ p ∈ link.paths.find? (fun p => p.generation = generation), p.path.kind = .link →
        link.paths = [p]
  | .revoked ctx =>
    ∀ fingerprint, ∀ link ∈ state.table.live.lookup fingerprint, link.Visible ns →
      ∀ id ∈ link.identities.find? (LiveLink.isRevoked ctx), id.ns = ns → link.identities ≠ [id]
  | .adopted ctx => ctx.ns = ns → ns ≠ .root
  | .run task =>
    (state.tasks[task]?).bind List.head? = some (.announce ns) →
      ¬Unsent state ns ∧ ListsFit encodedLen state.table ns

/-! ### What the table steps do to one link -/

/-- A registration that keeps the place of its device changes nobody's. -/
theorem registered_presentIn {ns : Name} {old : Option LiveLink} {link : Registration}
    (keeps : KeepsPlace ns old link) {generation : Nat} {device : Name} {role : Role}
    {handle : LinkHandle} :
    (registered old link generation).PresentIn ns device role handle ↔
      ∃ before ∈ old, before.PresentIn ns device role handle := by
  unfold KeepsPlace at keeps
  split at keeps
  case isTrue full =>
    rcases keeps with ⟨unseen, none⟩
    refine iff_of_false ?_ ?_
    · rintro ⟨enrolled, seated, _⟩
      rw [registered_enrolling old full] at enrolled
      rw [registered_identities] at seated
      rcases none with enrolling | unseated
      · exact enrolling enrolled
      · exact unseated device role seated
    · rintro ⟨before, was, present⟩
      exact unseen before was ⟨device, role, handle, present⟩
  case isFalse direct =>
    have path : (∃ p ∈ (registered old link generation).paths, p.path.kind = .link ∧
        p.path.handle = handle) ↔
        ∃ before ∈ old, ∃ p ∈ before.paths, p.path.kind = .link ∧ p.path.handle = handle := by
      simp only [mem_registered_paths]
      constructor
      · rintro ⟨p, rfl | ⟨before, was, among, _⟩, kind, same⟩
        · exact absurd kind direct
        · exact ⟨before, was, p, among, kind, same⟩
      · rintro ⟨before, was, p, among, kind, same⟩
        refine ⟨p, Or.inr ⟨before, was, among, ?_⟩, kind, same⟩
        rw [kind]
        exact Ne.symm direct
    rw [LiveLink.PresentIn, registered_identities, path]
    constructor
    · rintro ⟨enrolled, seated, before, was, p, among, kind, same⟩
      cases was
      have full : before.enrolling = [] := by
        rw [← enrolled]
        exact (if_neg direct).symm
      exact ⟨before, rfl, full, (keeps before rfl full ⟨p, among, kind⟩ device role).mp seated,
        p, among, kind, same⟩
    · rintro ⟨before, was, full, seated, p, among, kind, same⟩
      cases was
      refine ⟨(if_neg direct).trans full, ?_, before, rfl, p, among, kind, same⟩
      exact (keeps before rfl full ⟨p, among, kind⟩ device role).mpr seated

variable {handle : LinkHandle} {role : Role} {connections task : Nat}

theorem Shrinks.presentIn {after before : LiveLink} (shrinks : Shrinks after before)
    {ns device : Name}
    (present : after.PresentIn ns device role handle) : before.PresentIn ns device role handle := by
  rcases present with ⟨enrolled, ⟨id, among, seat⟩, p, path, kind, same⟩
  rcases shrinks.paths p path with ⟨q, before', sameKind, sameHandle⟩
  exact ⟨shrinks.enrolling ▸ enrolled, ⟨id, shrinks.identities.subset among, seat⟩, q, before',
    sameKind.trans kind, sameHandle.trans same⟩

/-- The end of a direct path leaves a link as present as it was. -/
theorem remaining_presentIn {link : LiveLink} {generation : Nat} {p : LivePath}
    (found : link.paths.find? (fun p => p.generation = generation) = some p)
    (direct : p.path.kind ≠ .link) {ns device : Name}
    (present : link.PresentIn ns device role handle) :
    ∃ after, remaining link generation = some after ∧ after.PresentIn ns device role handle := by
  rcases eraseP_of_find? found with ⟨earlier, later, split, rest⟩
  rcases present with ⟨enrolled, seated, q, among, kind, same⟩
  have kept : q ∈ earlier ++ later := by
    rw [split] at among
    apply mem_append_of_ne among
    rintro rfl
    exact direct kind
  unfold remaining
  rw [rest, if_neg (by simpa using ne_nil_of_mem kept)]
  exact ⟨_, rfl, enrolled, seated, q, kept, kind, same⟩

/-- A revocation takes a place in `ns` only with an identity of `ns`. -/
theorem revoke_presentIn {ctx : TrustContext} {link : LiveLink} {ns : Name}
    (elsewhere : ∀ id ∈ link.identities.find? (LiveLink.isRevoked ctx), id.ns ≠ ns) {device : Name}
    (present : link.PresentIn ns device role handle) :
    (link.revoke ctx).1.PresentIn ns device role handle := by
  unfold LiveLink.revoke
  split
  · exact present
  · next id found =>
    have other := elsewhere id found
    rcases eraseP_of_find? found with ⟨earlier, later, split, rest⟩
    rcases present with ⟨enrolled, ⟨seat, among, at', place⟩, p, path, kind, same⟩
    have kept : seat ∈ earlier ++ later := by
      rw [split] at among
      apply mem_append_of_ne among
      rintro rfl
      exact other at'
    rw [rest, if_neg (by simpa using ne_nil_of_mem kept)]
    refine ⟨enrolled, ⟨seat, kept, at', place⟩, LiveLink.without id p, ?_, kind, same⟩
    exact mem_map.mpr ⟨p, path, rfl⟩

/-- A revoked identity of a link that has another one is reported. -/
theorem revoke_drops {ctx : TrustContext} {link : LiveLink} {id : Identity}
    (found : link.identities.find? (LiveLink.isRevoked ctx) = some id)
    (others : link.identities ≠ [id]) :
    ∃ dropped, (link.revoke ctx).2.2 = some dropped ∧ dropped.ns = id.ns := by
  rcases eraseP_of_find? found with ⟨earlier, later, split, rest⟩
  have more : (earlier ++ later).isEmpty ≠ true := by
    intro empty
    rcases append_eq_nil_iff.mp (isEmpty_iff.mp empty) with ⟨rfl, rfl⟩
    exact others split
  unfold LiveLink.revoke
  rw [found]
  dsimp only
  rw [rest, if_neg more]
  exact ⟨_, rfl, rfl⟩

/-! ### The table between the steps -/

/-- The identities of a link are of different namespaces, and it has at most one link path. -/
structure LiveLink.Sane (link : LiveLink) (connections : Nat) : Prop where
  distinct : (link.identities.map Identity.ns).Nodup
  one : ∀ p ∈ link.paths, ∀ q ∈ link.paths, p.path.kind = .link → q.path.kind = .link →
    p.path.handle = q.path.handle
  numbered : ∀ p ∈ link.paths, p.path.handle.connection < connections

/-- No connection is a path of two links. -/
structure LinkTable.Sane (table : LinkTable) (connections : Nat) : Prop where
  links : ∀ key link, table.live.lookup key = some link → link.Sane connections
  own : ∀ key link key' link', table.live.lookup key = some link →
    table.live.lookup key' = some link' → ∀ p ∈ link.paths, ∀ q ∈ link'.paths,
      p.path.handle = q.path.handle → key = key'

theorem LiveLink.Sane.shrinks {after before : LiveLink}
    (sane : before.Sane connections) (shrinks : Shrinks after before) : after.Sane connections where
  distinct := (shrinks.identities.map Identity.ns).nodup sane.distinct
  one := by
    intro p amongP q amongQ kindP kindQ
    rcases shrinks.paths p amongP with ⟨p', beforeP, sameKindP, sameP⟩
    rcases shrinks.paths q amongQ with ⟨q', beforeQ, sameKindQ, sameQ⟩
    rw [← sameP, ← sameQ]
    exact sane.one p' beforeP q' beforeQ (sameKindP.trans kindP) (sameKindQ.trans kindQ)
  numbered := by
    intro p among
    rcases shrinks.paths p among with ⟨q, before', _, same⟩
    rw [← same]
    exact sane.numbered q before'

theorem LinkTable.Sane.shrinks {after before : LinkTable}
    (sane : before.Sane connections)
    (shrinks : ∀ key link, after.live.lookup key = some link →
      ∃ old, before.live.lookup key = some old ∧ Shrinks link old) : after.Sane connections where
  links := by
    intro key link held
    rcases shrinks key link held with ⟨old, was, less⟩
    exact (sane.links key old was).shrinks less
  own := by
    intro key link key' link' held held' p among q among' same
    rcases shrinks key link held with ⟨old, was, less⟩
    rcases shrinks key' link' held' with ⟨old', was', less'⟩
    rcases less.paths p among with ⟨p', beforeP, _, sameP⟩
    rcases less'.paths q among' with ⟨q', beforeQ, _, sameQ⟩
    exact sane.own key old key' old' was was' p' beforeP q' beforeQ
      (sameP.trans (same.trans sameQ.symm))

theorem LiveLink.Sane.more {link : LiveLink} (sane : link.Sane connections) :
    link.Sane (connections + 1) :=
  ⟨sane.distinct, sane.one, fun p among => Nat.lt_succ_of_lt (sane.numbered p among)⟩

theorem registered_sane {old : Option LiveLink} {link : Registration} {connections : Nat}
    (sane : ∀ before ∈ old, before.Sane connections)
    (distinct : (link.identities.map Identity.ns).Nodup)
    (next : link.path.handle = ⟨connections⟩) (generation : Nat) :
    (registered old link generation).Sane (connections + 1) where
  distinct := by
    rw [registered_identities, shownWith]
    split
    · cases old with
      | none => exact nodup_nil
      | some before => exact (sane before rfl).distinct
    · exact distinct
  one := by
    intro p amongP q amongQ kindP kindQ
    rcases mem_registered_paths.mp amongP with rfl | ⟨before, was, inP, otherP⟩
    · rcases mem_registered_paths.mp amongQ with rfl | ⟨before, was, inQ, otherQ⟩
      · rfl
      · exact absurd (kindQ.trans kindP.symm) otherQ
    · rcases mem_registered_paths.mp amongQ with rfl | ⟨before', was', inQ, otherQ⟩
      · exact absurd (kindP.trans kindQ.symm) otherP
      · cases was
        cases was'
        exact (sane before rfl).one p inP q inQ kindP kindQ
  numbered := by
    intro p among
    rcases mem_registered_paths.mp among with rfl | ⟨before, was, inP, _⟩
    · rw [next]
      exact Nat.lt_succ_self _
    · exact Nat.lt_succ_of_lt ((sane before was).numbered p inP)

theorem register_sane {table : LinkTable} {link : Registration} {mine : Option KeyFingerprint}
    (sane : table.Sane connections)
    (distinct : (link.identities.map Identity.ns).Nodup)
    (next : link.path.handle = ⟨connections⟩) :
    (table.register link mine).1.Sane (connections + 1) := by
  rcases register_lookup table link mine with ⟨_, same, _⟩ | ⟨_, generation, _, looked⟩
  · constructor
    · rw [same]
      exact fun key held found => (sane.links key held found).more
    · rw [same]
      exact sane.own
  · have new := @registered_sane (table.live.lookup link.fingerprint) link connections
      (fun before was => sane.links _ before was) distinct next generation
    -- a path of the new link is the new one, or one it had
    have path : ∀ p ∈ (registered (table.live.lookup link.fingerprint) link generation).paths,
        p.path.handle = ⟨connections⟩ ∨
          ∃ before, table.live.lookup link.fingerprint = some before ∧ p ∈ before.paths := by
      intro p among
      rcases mem_registered_paths.mp among with rfl | ⟨before, was, inP, _⟩
      · exact Or.inl next
      · exact Or.inr ⟨before, was, inP⟩
    have old : ∀ key held, table.live.lookup key = some held → ∀ p ∈ held.paths,
        p.path.handle ≠ ⟨connections⟩ := by
      intro key held found p among same
      have below := (sane.links key held found).numbered p among
      rw [same] at below
      exact Nat.lt_irrefl _ below
    constructor
    · intro key held found
      rw [looked] at found
      split at found
      · cases found
        exact new
      · exact (sane.links key held found).more
    · intro key held key' held' found found' p among q among' same
      rw [looked] at found found'
      split at found
      · next here =>
        cases found
        split at found'
        · next there => exact here.trans there.symm
        · rcases path p among with fresh | ⟨before, was, inP⟩
          · exact absurd (same.symm.trans fresh) (old key' held' found' q among')
          · exact here.trans (sane.own _ _ _ _ was found' p inP q among' same)
      · split at found'
        · next there =>
          cases found'
          rcases path q among' with fresh | ⟨before, was, inQ⟩
          · exact absurd (same.trans fresh) (old key held found p among)
          · exact (sane.own _ _ _ _ found was p among q inQ same).trans there.symm
        · exact sane.own _ _ _ _ found found' p among q among' same

/-! ### What a snapshot sends -/

section

variable {table : LinkTable} {connections : Nat} {ns : Name} {ctx : HeldContext}

theorem memberOf_eq_some {key : KeyFingerprint} {link : LiveLink} {m : Member} :
    LinkTable.memberOf ns key link = some m ↔
      ∃ id p, link.identities.find? (fun id => id.ns = ns) = some id ∧
        link.paths.find?
    (fun p => p.path.kind = .link) = some p ∧ m = ⟨key, id, p.path.handle⟩ := by
  unfold LinkTable.memberOf
  cases link.identities.find? (fun id => id.ns = ns) with
  | none => simp
  | some id =>
    cases link.paths.find? (fun p => p.path.kind = .link) with
    | none => simp
    | some p => simp [eq_comm]

theorem mem_members {m : Member} : m ∈ table.members ns ↔
    ∃ key link, table.live.lookup key = some link ∧ link.enrolling = [] ∧
      LinkTable.memberOf ns key link = some m := by
  simp only [LinkTable.members, List.mem_filterMap, List.mem_filter, Prod.exists,
    HashMap.mem_pairs, List.isEmpty_iff, and_assoc]

/-- The members of a held namespace are the devices present. -/
theorem exists_member (sane : table.Sane connections) {key : KeyFingerprint} {device : Name} :
    (∃ m ∈ (table.members ns).filter (fun m => m.identity.served.isNone), m.fingerprint = key ∧
      m.identity.device = device ∧ m.identity.role = role ∧ m.handle = handle) ↔
      Present table ns key device role handle := by
  constructor
  · rintro ⟨m, among, rfl, rfl, rfl, rfl⟩
    rcases mem_filter.mp among with ⟨among, unserved⟩
    rcases mem_members.mp among with ⟨key, link, held, enrolled, is⟩
    rcases memberOf_eq_some.mp is with ⟨id, p, foundId, foundPath, rfl⟩
    refine ⟨link, held, enrolled, ⟨id, mem_of_find?_eq_some foundId, ?_, ?_, rfl, rfl⟩,
      p, mem_of_find?_eq_some foundPath, ?_, rfl⟩
    · simpa using List.find?_some foundId
    · simpa using unserved
    · simpa using List.find?_some foundPath
  · rintro ⟨link, held, enrolled, ⟨id, among, at', unserved, rfl, rfl⟩, p, path, kind, rfl⟩
    have saneLink := sane.links key link held
    have foundId : link.identities.find? (fun id => id.ns = ns) = some id := by
      cases found : link.identities.find? (fun id => id.ns = ns) with
      | none => simpa [at'] using List.find?_eq_none.mp found id among
      | some other =>
        have same : other.ns = ns := by simpa using List.find?_some found
        rw [inj_on_of_nodup_map saneLink.distinct (mem_of_find?_eq_some found) among
          (same.trans at'.symm)]
    cases foundPath : link.paths.find? (fun p => p.path.kind = .link) with
    | none => simpa [kind] using List.find?_eq_none.mp foundPath p path
    | some q =>
      have kindQ : q.path.kind = .link := by simpa using List.find?_some foundPath
      have same := saneLink.one q (mem_of_find?_eq_some foundPath) p path kindQ kind
      refine ⟨⟨key, id, q.path.handle⟩, mem_filter.mpr ⟨?_, ?_⟩, rfl, rfl, rfl, same⟩
      · exact mem_members.mpr ⟨key, link, held, enrolled,
          memberOf_eq_some.mpr ⟨id, q, foundId, foundPath, rfl⟩⟩
      · rw [unserved]
        rfl

theorem members_distinct (table : LinkTable) (ns : Name) :
    ((table.members ns).map Member.fingerprint).Nodup := by
  rw [LinkTable.members, filterMap_filter]
  apply HashMap.filterMap_keys_nodup
  intro link m is
  split at is
  · rcases memberOf_eq_some.mp is with ⟨id, p, _, _, rfl⟩
    rfl
  · cases is

/-- The devices paired with a member, as the snapshot finds them. -/
def pairedWith (ctx : HeldContext) (members : List Member) (to' : Member) : List PresentDevice :=
  ((members.filter fun o => o.fingerprint ≠ to'.fingerprint).filter fun o =>
    ctx.allowsDirectPath to'.identity.role.asStr o.identity.role.asStr).map
      fun o => ⟨o.identity.device, o.fingerprint⟩

theorem devicesFor_eq (ctx : HeldContext) (members : List Member) (to' : Member) :
    devicesFor ctx members to' = (pairedWith ctx members to').take presenceMax :=
  map_take

theorem mem_pairedWith (sane : table.Sane connections) {to' : Member} {other : PresentDevice} :
    other ∈ pairedWith ctx
        ((table.members ctx.ns).filter fun m => m.identity.served.isNone) to' ↔
      Paired ctx table to'.fingerprint to'.identity.role other := by
  constructor
  · intro among
    rcases mem_map.mp among with ⟨m, kept, rfl⟩
    rcases mem_filter.mp kept with ⟨kept, allowed⟩
    rcases mem_filter.mp kept with ⟨member, different⟩
    refine ⟨of_decide_eq_true different, m.identity.role, m.handle, ?_, allowed⟩
    exact (exists_member sane).mp ⟨m, member, rfl, rfl, rfl, rfl⟩
  · rintro ⟨different, role, handle, present, allowed⟩
    rcases (exists_member sane).mpr present with ⟨m, member, key, device, rfl, rfl⟩
    refine mem_map.mpr ⟨m, mem_filter.mpr ⟨mem_filter.mpr ⟨member, ?_⟩, allowed⟩, ?_⟩
    · rw [key]
      exact decide_eq_true different
    · rw [key, device]

theorem pairedWith_distinct (table : LinkTable) (ns : Name) (to' : Member) :
    (pairedWith ctx ((table.members ns).filter fun m => m.identity.served.isNone) to').Nodup := by
  apply List.Nodup.of_map PresentDevice.key
  rw [pairedWith, map_map]
  have kept : (((((table.members ns).filter fun m => m.identity.served.isNone).filter
      fun o => o.fingerprint ≠ to'.fingerprint).filter
        fun o => ctx.allowsDirectPath to'.identity.role.asStr o.identity.role.asStr)).Sublist
      (table.members ns) :=
    filter_sublist.trans (filter_sublist.trans filter_sublist)
  exact (kept.map Member.fingerprint).nodup (members_distinct table ns)

/-- What a snapshot tells a member names the devices paired with it. -/
theorem devicesFor_names (sane : table.Sane connections) (to' : Member) :
    Names ctx table to'.fingerprint to'.identity.role
      (devicesFor ctx
        ((table.members ctx.ns).filter fun m => m.identity.served.isNone) to') := by
  have distinct := @pairedWith_distinct ctx table ctx.ns to'
  rw [devicesFor_eq]
  refine ⟨(take_sublist _ _).nodup distinct, ?_, ?_⟩
  · intro other among
    exact (mem_pairedWith sane).mp (mem_of_mem_take among)
  · intro others each all
    have same : others.Perm (pairedWith ctx
        ((table.members ctx.ns).filter fun m => m.identity.served.isNone) to') := by
      refine (perm_ext_iff_of_nodup each distinct).mpr ?_
      intro other
      exact (all other).trans (mem_pairedWith sane).symm
    rw [length_take, same.length_eq]

theorem names_congr {before after : LinkTable}
    (same : ∀ key device role handle, Present before ctx.ns key device role handle ↔
      Present after ctx.ns key device role handle) {key : KeyFingerprint}
    {devices : List PresentDevice} (names : Names ctx before key role devices) :
    Names ctx after key role devices := by
  have paired : ∀ other, Paired ctx before key role other ↔ Paired ctx after key role other := by
    intro other
    simp only [Paired, same]
  refine ⟨names.distinct, fun other among => (paired other).mp (names.sound other among), ?_⟩
  intro others each all
  exact names.count others each fun other => (all other).trans (paired other).symm

end

/-! ### What every step keeps -/

/-- The namespace is going to be announced. -/
def Announced (state : RelayState) (ns : Name) : Prop :=
  .announce ns ∈ state.tasks.flatten ∨ .announceAll ∈ state.tasks.flatten ∧ ns ≠ .root

/-- What a present device was last told, or is still to be told, is right. -/
def Current (encodedLen : Presence → Nat) (state : RelayState) (ns : Name) : Prop :=
  ∀ ctx ∈ state.contexts.find? (fun ctx : HeldContext => ctx.ns = ns), ∀ key device role handle,
    Present state.table ns key device role handle →
      (∀ presence, .send handle presence ∈ state.tasks.flatten → presence.ns = ns →
        encodedLen presence ≤ maxMessage ∧ Names ctx state.table key role presence.devices) ∧
      ((∀ presence, .send handle presence ∈ state.tasks.flatten → presence.ns ≠ ns) →
        ∃ devices, state.last handle ns = some devices ∧ Names ctx state.table key role devices)

structure Inv (encodedLen : Presence → Nat) (ns : Name) (state : RelayState) : Prop where
  sane : state.table.Sane state.connections
  held : ∃ ctx ∈ state.contexts, ctx.ns = ns
  upToDate : Announced state ns ∨ Current encodedLen state ns

section

variable {encodedLen : Presence → Nat} {ns : Name} {state : RelayState}

theorem announced_mono {after : RelayState}
    (more : ∀ op ∈ state.tasks.flatten, op ∈ after.tasks.flatten) (announced : Announced state ns) :
    Announced after ns := by
  rcases announced with one | ⟨all, named⟩
  · exact Or.inl (more _ one)
  · exact Or.inr ⟨more _ all, named⟩

/-- A step that changes nobody's presence in `ns` and sends nothing of it. -/
theorem current_of_same {after : RelayState} (current : Current encodedLen state ns)
    (same : ∀ key device role handle, Present state.table ns key device role handle ↔
      Present after.table ns key device role handle)
    (contexts : after.contexts.find? (fun ctx : HeldContext => ctx.ns = ns) =
      state.contexts.find? (fun ctx : HeldContext => ctx.ns = ns))
    (last : after.last = state.last)
    (sends : ∀ handle presence, presence.ns = ns →
      (.send handle presence ∈ after.tasks.flatten ↔ .send handle presence ∈ state.tasks.flatten)) :
    Current encodedLen after ns := by
  intro ctx found key device role handle present
  rw [contexts] at found
  have at' : ctx.ns = ns := by simpa using List.find?_some found
  subst at'
  rcases current ctx found key device role handle ((same ..).mpr present) with ⟨pending, settled⟩
  constructor
  · intro presence queued about
    rcases pending presence ((sends handle presence about).mp queued) about with ⟨fits, names⟩
    exact ⟨fits, names_congr same names⟩
  · intro quiet
    have before : ∀ presence, .send handle presence ∈ state.tasks.flatten → presence.ns ≠ ctx.ns :=
      fun presence queued about => quiet presence ((sends handle presence about).mpr queued) about
    rcases settled before with ⟨devices, told, names⟩
    exact ⟨devices, last ▸ told, names_congr same names⟩

theorem flatten_spawn (tasks : List (List Op)) (ops : List Op) :
    (tasks ++ [ops]).flatten = tasks.flatten ++ ops := by
  rw [flatten_append, flatten_singleton]

theorem mem_announceEach {identities : List Identity} {op : Op} :
    op ∈ announceEach identities ↔ ∃ id ∈ identities, op = .announce id.ns := by
  simp [announceEach, eq_comm]

/-- A step that leaves presence in `ns` as it was, and only announces. -/
theorem upToDate_of_same {after : RelayState} {ops : List Op}
    (upToDate : Announced state ns ∨ Current encodedLen state ns)
    (same : ∀ key device role handle, Present state.table ns key device role handle ↔
      Present after.table ns key device role handle)
    (contexts : after.contexts.find? (fun ctx : HeldContext => ctx.ns = ns) =
      state.contexts.find? (fun ctx : HeldContext => ctx.ns = ns))
    (last : after.last = state.last)
    (tasks : after.tasks.flatten = state.tasks.flatten ++ ops)
    (announces : ∀ handle presence, presence.ns = ns → .send handle presence ∉ ops) :
    Announced after ns ∨ Current encodedLen after ns := by
  rcases upToDate with announced | current
  · refine Or.inl (announced_mono ?_ announced)
    intro op queued
    rw [tasks]
    exact mem_append_left _ queued
  · refine Or.inr (current_of_same current same contexts last ?_)
    intro handle presence about
    rw [tasks, mem_append, or_iff_left (announces handle presence about)]

theorem send_notMem_announceEach (identities : List Identity) (handle : LinkHandle)
    (presence : Presence) : .send handle presence ∉ announceEach identities := by
  rw [mem_announceEach]
  rintro ⟨id, _, impossible⟩
  cases impossible

theorem inv_linkUp (inv : Inv encodedLen ns state) (link : Linked) (mine : Option KeyFingerprint)
    (orderly : Orderly encodedLen ns state (.linkUp link mine)) :
    Inv encodedLen ns (state.linkUp link mine) := by
  have sane : (state.table.register (state.admitted link) mine).1.Sane (state.connections + 1) :=
    register_sane inv.sane link.distinct rfl
  unfold linkUp
  dsimp only
  rcases register_lookup state.table (state.admitted link) mine with
    ⟨_, live, refused⟩ | ⟨allowed, generation, accepted, looked⟩
  · rw [refused]
    refine ⟨sane, inv.held, upToDate_of_same inv.upToDate ?_ rfl rfl (append_nil _).symm ?_⟩
    · intro key device role handle
      unfold Present
      rw [live]
    · intro handle presence _
      exact not_mem_nil
  · have quiet : KeepsPlace ns (state.table.live.lookup link.fingerprint) link.toRegistration →
        ∀ key device role handle, Present state.table ns key device role handle ↔
          Present (state.table.register (state.admitted link) mine).1 ns key device role handle := by
      intro keeps key device role handle
      unfold Present
      simp only [looked]
      by_cases here : key = (state.admitted link).fingerprint
      · subst here
        have place := @registered_presentIn ns (state.table.live.lookup link.fingerprint)
          (state.admitted link) keeps generation device role handle
        rw [if_pos rfl]
        simp only [Option.some.injEq, exists_eq_left']
        exact place.symm
      · rw [if_neg here]
    rw [accepted]
    dsimp only
    split
    case isTrue full =>
      refine ⟨sane, inv.held, ?_⟩
      rcases orderly with refused | known | keeps
      · exact absurd refused allowed
      · rcases known with ⟨_, _, id, among, at'⟩
        refine Or.inl (Or.inl ?_)
        change _ ∈ (state.tasks ++ [announceEach link.identities]).flatten
        rw [flatten_spawn, mem_append, mem_announceEach]
        exact Or.inr ⟨id, among, congrArg Op.announce at'.symm⟩
      · exact upToDate_of_same inv.upToDate (quiet keeps) rfl rfl (flatten_spawn _ _)
          fun handle presence _ => send_notMem_announceEach _ _ _
    case isFalse partial' =>
      refine ⟨sane, inv.held, ?_⟩
      rcases orderly with refused | known | keeps
      · exact absurd refused allowed
      · exact absurd ⟨known.1, known.2.1⟩ partial'
      · exact upToDate_of_same inv.upToDate (quiet keeps) rfl rfl (append_nil _).symm
          fun handle presence _ => not_mem_nil

theorem inv_pathEnd (inv : Inv encodedLen ns state) (fingerprint : KeyFingerprint)
    (generation : Nat) (orderly : Orderly encodedLen ns state (.pathEnd fingerprint generation)) :
    Inv encodedLen ns (state.pathEnd fingerprint generation) := by
  unfold pathEnd
  dsimp only
  rcases unregister_lookup state.table fingerprint generation with
    ⟨absent, live⟩ | ⟨link, p, ended, held, found, reported, identities, last, looked⟩
  · rw [absent]
    have sane : (state.table.unregister fingerprint generation).1.Sane state.connections := by
      apply inv.sane.shrinks
      rw [live]
      exact fun key link held => ⟨link, held, rfl, List.Sublist.refl _, fun p among => ⟨p, among, rfl, rfl⟩⟩
    refine ⟨sane, inv.held, upToDate_of_same inv.upToDate ?_ rfl rfl (append_nil _).symm ?_⟩
    · intro key device role handle
      unfold Present
      rw [live]
    · intro handle presence _
      exact not_mem_nil
  · have sane : (state.table.unregister fingerprint generation).1.Sane state.connections := by
      apply inv.sane.shrinks
      intro key after found'
      rw [looked] at found'
      split at found'
      · next here =>
        subst here
        exact ⟨link, held, remaining_shrinks found'⟩
      · exact ⟨after, found', rfl, List.Sublist.refl _, fun p among => ⟨p, among, rfl, rfl⟩⟩
    have less : ∀ key device role handle,
        Present (state.table.unregister fingerprint generation).1 ns key device role handle →
          Present state.table ns key device role handle := by
      rintro key device role handle ⟨after, found', present⟩
      rw [looked] at found'
      split at found'
      · next here =>
        subst here
        exact ⟨link, held, (remaining_shrinks found').presentIn present⟩
      · exact ⟨after, found', present⟩
    rw [reported]
    dsimp only
    by_cases taken : p.path.kind = .link ∧ link.Visible ns
    · -- the last path of the device: its namespaces are announced
      have only := orderly link held taken.2 p found taken.1
      have ends : remaining link generation = none := by
        have ended : p.generation = generation := by simpa using List.find?_some found
        simp [remaining, only, ended]
      rw [if_pos (last.mpr ends), identities]
      refine ⟨sane, inv.held, Or.inl (Or.inl ?_)⟩
      rcases taken.2 with ⟨_, _, _, _, ⟨id, among, at', _⟩, _⟩
      change _ ∈ (state.tasks ++ [announceEach link.identities]).flatten
      rw [flatten_spawn, mem_append, mem_announceEach]
      exact Or.inr ⟨id, among, congrArg Op.announce at'.symm⟩
    · have same : ∀ key device role handle, Present state.table ns key device role handle ↔
          Present (state.table.unregister fingerprint generation).1 ns key device role handle := by
        refine fun key device role handle => ⟨?_, less key device role handle⟩
        rintro ⟨old, was, present⟩
        unfold Present
        simp only [looked]
        by_cases here : key = fingerprint
        · subst here
          rw [held] at was
          cases was
          rw [if_pos rfl]
          have direct : p.path.kind ≠ .link := fun kind => taken ⟨kind, device, role, handle, present⟩
          exact remaining_presentIn found direct present
        · rw [if_neg here]
          exact ⟨old, was, present⟩
      split
      · exact ⟨sane, inv.held, upToDate_of_same inv.upToDate same rfl rfl (flatten_spawn _ _)
          fun handle presence _ => send_notMem_announceEach _ _ _⟩
      · exact ⟨sane, inv.held, upToDate_of_same inv.upToDate same rfl rfl (append_nil _).symm
          fun handle presence _ => not_mem_nil⟩

theorem inv_revoked (inv : Inv encodedLen ns state) (ctx : TrustContext)
    (orderly : Orderly encodedLen ns state (.revoked ctx)) :
    Inv encodedLen ns (state.revoked ctx) := by
  have sane : (state.table.closeRevoked ctx).1.Sane state.connections := by
    apply inv.sane.shrinks
    intro key after found
    rw [closeRevoked_lookup] at found
    rcases Option.map_eq_some_iff.mp found with ⟨link, held, rfl⟩
    exact ⟨link, held, revoke_shrinks ctx link⟩
  refine ⟨sane, inv.held, ?_⟩
  by_cases taken : ∃ dropped ∈ (state.table.closeRevoked ctx).2.2, dropped.ns = ns
  · rcases taken with ⟨dropped, among, at'⟩
    refine Or.inl (Or.inl ?_)
    change _ ∈ (state.tasks ++ [_]).flatten
    rw [flatten_spawn, mem_append, mem_flatMap]
    refine Or.inr ⟨dropped, among, mem_append_right _ ?_⟩
    rw [at']
    exact mem_singleton_self _
  · have same : ∀ key device role handle, Present state.table ns key device role handle ↔
        Present (state.table.closeRevoked ctx).1 ns key device role handle := by
      intro key device role handle
      unfold Present
      simp only [closeRevoked_lookup, Option.map_eq_some_iff]
      constructor
      · rintro ⟨link, held, present⟩
        refine ⟨_, ⟨link, held, rfl⟩, revoke_presentIn ?_ present⟩
        intro id found at'
        have others := orderly key link held ⟨device, role, handle, present⟩ id found at'
        rcases revoke_drops found others with ⟨dropped, reported, where'⟩
        exact taken ⟨dropped, mem_closed.mpr ⟨key, link, held, reported⟩, where'.trans at'⟩
      · rintro ⟨_, ⟨link, held, rfl⟩, present⟩
        exact ⟨link, held, (revoke_shrinks ctx link).presentIn present⟩
    refine upToDate_of_same inv.upToDate same rfl rfl (flatten_spawn _ _) ?_
    intro handle presence about sent
    rcases mem_flatMap.mp sent with ⟨dropped, among, told⟩
    rcases mem_append.mp told with empty | announce
    · rcases Option.mem_toList.mp empty with told
      rcases Option.map_eq_some_iff.mp told with ⟨to', _, sends⟩
      cases sends
      exact taken ⟨dropped, among, about⟩
    · cases mem_singleton.mp announce

theorem inv_adopted (inv : Inv encodedLen ns state) (ctx : HeldContext)
    (orderly : Orderly encodedLen ns state (.adopted ctx)) :
    Inv encodedLen ns (state.adopted ctx) := by
  have tasks : (state.adopted ctx).tasks.flatten = state.tasks.flatten ++ [.announceAll] :=
    flatten_spawn _ _
  by_cases here : ctx.ns = ns
  · refine ⟨inv.sane, ⟨ctx, mem_append_right _ (mem_singleton_self _), here⟩, ?_⟩
    refine Or.inl (Or.inr ⟨?_, orderly here⟩)
    rw [tasks]
    exact mem_append_right _ (mem_singleton_self _)
  · have kept : ∀ contexts : List HeldContext,
        ((contexts.filter fun held : HeldContext => held.ns ≠ ctx.ns) ++ [ctx]).find?
          (fun ctx : HeldContext => ctx.ns = ns) =
        contexts.find? (fun ctx : HeldContext => ctx.ns = ns) := by
      intro contexts
      induction contexts with
      | nil => simp [here]
      | cons head rest ih =>
        by_cases replaced : head.ns = ctx.ns
        · have other : head.ns ≠ ns := fun same => here (replaced.symm.trans same)
          simpa [replaced, other, here] using ih
        · by_cases found : head.ns = ns
          · simp [found, Ne.symm here]
          · simpa [replaced, found] using ih
    rcases inv.held with ⟨held, among, at'⟩
    have stays : held.ns ≠ ctx.ns := fun same => here (same.symm.trans at')
    refine ⟨inv.sane, ⟨held, mem_append_left _ (mem_filter.mpr ⟨among, ?_⟩), at'⟩, ?_⟩
    · exact decide_eq_true stays
    · refine upToDate_of_same inv.upToDate (fun _ _ _ _ => Iff.rfl) (kept state.contexts) rfl tasks ?_
      intro handle presence _ sent
      cases mem_singleton.mp sent

/-- Running a task replaces its first operation by what that one starts. -/
theorem flatten_set {tasks : List (List Op)} {op : Op} {rest : List Op}
    (next : tasks[task]? = some (op :: rest)) (started : List Op) :
    ∃ earlier later, tasks.flatten = earlier ++ op :: later ∧
      (tasks.set task (started ++ rest)).flatten = earlier ++ (started ++ later) := by
  induction tasks generalizing task with
  | nil => cases next
  | cons head others ih =>
    cases task with
    | zero =>
      rw [List.getElem?_cons_zero, Option.some.injEq] at next
      rw [next]
      exact ⟨[], rest ++ others.flatten, rfl, by
        rw [set_cons_zero, flatten_cons, append_assoc, nil_append]⟩
    | succ task =>
      rw [List.getElem?_cons_succ] at next
      rcases ih next with ⟨earlier, later, before, after⟩
      refine ⟨head ++ earlier, later, ?_, ?_⟩
      · rw [flatten_cons, before, append_assoc]
      · rw [set_cons_succ, flatten_cons, after, append_assoc]

theorem run_eq {op : Op} {rest : List Op} (next : state.tasks[task]? = some (op :: rest)) :
    state.run encodedLen task = { (state.perform encodedLen op).1 with
      tasks := state.tasks.set task ((state.perform encodedLen op).2 ++ rest) } := by
  rw [run, next]

section

variable {after : RelayState} {op : Op} {started others : List Op}

/-- An operation that sends no list of `ns`, and starts none, leaves it to the others. -/
theorem upToDate_of_passed (upToDate : Announced state ns ∨ Current encodedLen state ns)
    (table : after.table = state.table) (contexts : after.contexts = state.contexts)
    (last : after.last = state.last)
    (before : ∀ queued, queued ∈ state.tasks.flatten ↔ queued = op ∨ queued ∈ others)
    (tasks : ∀ queued, queued ∈ after.tasks.flatten ↔ queued ∈ started ∨ queued ∈ others)
    (announces : op = .announce ns ∨ op = .announceAll ∧ ns ≠ .root → .announce ns ∈ started)
    (quiet : ∀ handle presence, presence.ns = ns →
      op ≠ .send handle presence ∧ .send handle presence ∉ started) :
    Announced after ns ∨ Current encodedLen after ns := by
  rcases upToDate with announced | current
  · left
    rcases announced with one | ⟨all, named⟩
    · rcases (before _).mp one with same | waits
      · exact Or.inl ((tasks _).mpr (Or.inl (announces (Or.inl same.symm))))
      · exact Or.inl ((tasks _).mpr (Or.inr waits))
    · rcases (before _).mp all with same | waits
      · exact Or.inl ((tasks _).mpr (Or.inl (announces (Or.inr ⟨same.symm, named⟩))))
      · exact Or.inr ⟨(tasks _).mpr (Or.inr waits), named⟩
  · right
    refine current_of_same current ?_ (by rw [contexts]) last ?_
    · rw [table]
      exact fun _ _ _ _ => Iff.rfl
    · intro handle presence about
      rcases quiet handle presence about with ⟨other, unsent⟩
      rw [before, tasks, or_iff_right unsent, or_iff_right (Ne.symm other)]

theorem member_path {table : LinkTable} {m : Member} (among : m ∈ table.members ns) :
    ∃ link, table.live.lookup m.fingerprint = some link ∧
      ∃ p ∈ link.paths, p.path.handle = m.handle := by
  rcases mem_members.mp among with ⟨key, link, held, _, is⟩
  rcases memberOf_eq_some.mp is with ⟨id, p, _, found, rfl⟩
  exact ⟨link, held, p, mem_of_find?_eq_some found, rfl⟩

/-- An announcement of `ns` has the list of every present device from the table as it is. -/
theorem current_of_snapshot (sane : state.table.Sane state.connections)
    (table : after.table = state.table) (contexts : after.contexts = state.contexts)
    (fits : ListsFit encodedLen state.table ns)
    (tasks : ∀ queued, queued ∈ after.tasks.flatten ↔
      queued ∈ state.announcePresence ns ∨ queued ∈ others)
    (sent : ∀ handle presence, .send handle presence ∈ others → presence.ns = ns →
      ¬∃ key device role, Present state.table ns key device role handle) :
    Current encodedLen after ns := by
  intro ctx found key device role handle present
  rw [contexts] at found
  rw [table] at present ⊢
  have at' : ctx.ns = ns := by simpa using List.find?_some found
  subst at'
  rcases (exists_member sane).mpr present with ⟨m, among, rfl, rfl, rfl, rfl⟩
  have snapshot : state.announcePresence ctx.ns =
      ((state.table.members ctx.ns).filter fun m => m.identity.served.isNone).map fun to' =>
        .send to'.handle ⟨ctx.ns, devicesFor ctx
          ((state.table.members ctx.ns).filter fun m => m.identity.served.isNone) to'⟩ := by
    rw [announcePresence, Option.mem_def.mp found]
  have names := @devicesFor_names state.table state.connections ctx sane m
  constructor
  · intro presence queued about
    rcases (tasks _).mp queued with new | old
    · rw [snapshot] at new
      rcases mem_map.mp new with ⟨m', among', same⟩
      rw [Op.send.injEq] at same
      rcases same with ⟨sameHandle, rfl⟩
      have own : m' = m := by
        have in' := (mem_filter.mp among').1
        have in'' := (mem_filter.mp among).1
        rcases member_path in' with ⟨link', held', p', path', handle'⟩
        rcases member_path in'' with ⟨link, held, p, path, handle⟩
        have key := sane.own _ _ _ _ held' held p' path' p path
          (handle'.trans (sameHandle.trans handle.symm))
        exact inj_on_of_nodup_map (members_distinct _ _) in' in'' key
      subst own
      refine ⟨fits _ names.distinct ?_ ?_, names⟩
      · rw [devicesFor_eq, length_take]
        exact Nat.min_le_left _ _
      · intro d among
        rcases (names.sound d among).2 with ⟨role, handle, present, _⟩
        exact ⟨role, handle, present⟩
    · exact absurd ⟨_, _, _, present⟩ (sent _ presence old about)
  · intro quiet
    exfalso
    refine quiet ⟨ctx.ns, devicesFor ctx
      ((state.table.members ctx.ns).filter fun m => m.identity.served.isNone) m⟩ ?_ rfl
    rw [tasks, snapshot]
    exact Or.inl (mem_map.mpr ⟨m, among, rfl⟩)

/-- A list that is sent is what its device was last told. -/
theorem current_of_sent {presence : Presence}
    (current : Current encodedLen state ns) (table : after.table = state.table)
    (contexts : after.contexts = state.contexts)
    (last : after.last = (state.sendPresence encodedLen handle presence).last)
    (before : ∀ queued, queued ∈ state.tasks.flatten ↔
      queued = .send handle presence ∨ queued ∈ after.tasks.flatten) :
    Current encodedLen after ns := by
  intro ctx found key device role to' present
  rw [contexts] at found
  rw [table] at present ⊢
  rcases current ctx found key device role to' present with ⟨pending, settled⟩
  refine ⟨fun other queued => pending other ((before _).mpr (Or.inr queued)), ?_⟩
  intro quiet
  rw [last, sendPresence]
  by_cases here : to' = handle ∧ presence.ns = ns
  · rcases here with ⟨rfl, about⟩
    rcases pending presence ((before _).mpr (Or.inl rfl)) about with ⟨fits, names⟩
    rw [if_neg (Nat.not_lt.mpr fits)]
    exact ⟨presence.devices, if_pos ⟨rfl, about.symm⟩, names⟩
  · have none : ∀ other, .send to' other ∈ state.tasks.flatten → other.ns ≠ ns := by
      intro other queued about
      rcases (before _).mp queued with same | waits
      · cases same
        exact here ⟨rfl, about⟩
      · exact quiet other waits about
    rcases settled none with ⟨devices, told, names⟩
    refine ⟨devices, ?_, names⟩
    split
    · exact told
    · exact (if_neg fun both => here ⟨both.1, both.2.symm⟩).trans told

end

theorem mem_announcePresence {named : Name} {op : Op} (among : op ∈ state.announcePresence named) :
    ∃ handle presence, op = .send handle presence ∧ presence.ns = named := by
  unfold announcePresence at among
  split at among
  · cases among
  · rcases mem_map.mp among with ⟨m, _, rfl⟩
    exact ⟨_, _, rfl, rfl⟩

theorem inv_run (inv : Inv encodedLen ns state) (task : Nat)
    (orderly : Orderly encodedLen ns state (.run task)) :
    Inv encodedLen ns (state.run encodedLen task) := by
  cases next : state.tasks[task]? with
  | none =>
    rw [run, next]
    exact inv
  | some ops =>
    cases ops with
    | nil =>
      rw [run, next]
      exact inv
    | cons op rest =>
      rcases flatten_set next (state.perform encodedLen op).2 with ⟨earlier, later, split, set'⟩
      have before : ∀ queued, queued ∈ state.tasks.flatten ↔
          queued = op ∨ queued ∈ earlier ++ later := by
        intro queued
        rw [split]
        simp only [mem_append, mem_cons]
        tauto
      have tasks : ∀ queued, queued ∈ (state.tasks.set task
          ((state.perform encodedLen op).2 ++ rest)).flatten ↔
            queued ∈ (state.perform encodedLen op).2 ∨ queued ∈ earlier ++ later := by
        intro queued
        rw [set']
        simp only [mem_append]
        tauto
      rw [run_eq next]
      cases op with
      | announce named =>
        refine ⟨inv.sane, inv.held, ?_⟩
        by_cases here : named = ns
        · subst here
          rcases orderly (by rw [next]; rfl) with ⟨sent, fits⟩
          refine Or.inr (current_of_snapshot inv.sane rfl rfl fits tasks ?_)
          rintro handle presence queued about ⟨key, device, role, present⟩
          exact sent ⟨handle, presence, (before _).mpr (Or.inr queued), about,
            key, device, role, present⟩
        · refine upToDate_of_passed inv.upToDate rfl rfl rfl before tasks ?_ ?_
          · rintro (same | ⟨impossible, _⟩)
            · exact absurd (Op.announce.inj same) here
            · cases impossible
          · intro handle presence about
            refine ⟨(by intro impossible; cases impossible), ?_⟩
            intro queued
            rcases mem_announcePresence queued with ⟨_, _, same, other⟩
            cases same
            exact here (other.symm.trans about)
      | announceAll =>
        refine ⟨inv.sane, inv.held, ?_⟩
        refine upToDate_of_passed inv.upToDate rfl rfl rfl before tasks ?_ ?_
        · rintro (impossible | ⟨_, named⟩)
          · cases impossible
          · rcases inv.held with ⟨ctx, among, at'⟩
            refine mem_map.mpr ⟨ctx, mem_filter.mpr ⟨among, ?_⟩, congrArg _ at'⟩
            rw [at']
            exact decide_eq_true named
        · intro handle presence _
          refine ⟨(by intro impossible; cases impossible), ?_⟩
          intro queued
          rcases mem_map.mp queued with ⟨ctx, _, impossible⟩
          cases impossible
      | send handle presence =>
        have frame : state.sendPresence encodedLen handle presence =
            { state with last := (state.sendPresence encodedLen handle presence).last } := by
          unfold sendPresence
          split <;> rfl
        change Inv encodedLen ns { state.sendPresence encodedLen handle presence with
          tasks := state.tasks.set task ([] ++ rest) }
        have after : Announced { state with
              last := (state.sendPresence encodedLen handle presence).last
              tasks := state.tasks.set task ([] ++ rest) } ns ∨
            Current encodedLen { state with
              last := (state.sendPresence encodedLen handle presence).last
              tasks := state.tasks.set task ([] ++ rest) } ns := by
          have waits : ∀ queued, queued ∈ (state.tasks.set task ([] ++ rest)).flatten ↔
              queued ∈ earlier ++ later := by
            intro queued
            exact (tasks queued).trans (or_iff_right not_mem_nil)
          rcases inv.upToDate with announced | current
          · left
            rcases announced with one | ⟨all, named⟩
            · rcases (before _).mp one with impossible | queued
              · cases impossible
              · exact Or.inl ((waits _).mpr queued)
            · rcases (before _).mp all with impossible | queued
              · cases impossible
              · exact Or.inr ⟨(waits _).mpr queued, named⟩
          · right
            refine current_of_sent current rfl rfl rfl ?_
            intro queued
            rw [before, waits]
        rw [frame]
        exact ⟨inv.sane, inv.held, after⟩

theorem inv_step (inv : Inv encodedLen ns state) (action : RelayAction)
    (orderly : Orderly encodedLen ns state action) : Inv encodedLen ns
    (state.step encodedLen action) := by
  cases action with
  | linkUp link mine => exact inv_linkUp inv link mine orderly
  | pathEnd fingerprint generation => exact inv_pathEnd inv fingerprint generation orderly
  | revoked ctx => exact inv_revoked inv ctx orderly
  | adopted ctx => exact inv_adopted inv ctx orderly
  | run task => exact inv_run inv task orderly

theorem inv_start {contexts : List HeldContext} (held : ∃ ctx ∈ contexts, ctx.ns = ns) :
    Inv encodedLen ns (start contexts) where
  sane := by
    constructor
    · intro key link found
      cases found
    · intro key link key' link' found
      cases found
  held := held
  upToDate := by
    right
    rintro ctx _ key device role handle ⟨link, found, _⟩
    cases found

theorem toldWell_of_inv (inv : Inv encodedLen ns state) (settled : state.Settled) :
    ToldWell state ns := by
  have quiet : state.tasks.flatten = [] := flatten_eq_nil_iff.mpr settled
  rcases inv.upToDate with announced | current
  · unfold Announced at announced
    rw [quiet] at announced
    rcases announced with impossible | ⟨impossible, _⟩ <;> cases impossible
  · intro ctx found key device role handle present
    apply (current ctx found key device role handle present).2
    intro presence queued
    rw [quiet] at queued
    cases queued

end

/-- Once everything announced is sent, every device present was last told of the devices paired
with it, if the announcements were orderly. -/
theorem presence_tells_who_is_linked (encodedLen : Presence → Nat) {ns : Name}
    {contexts : List HeldContext} (held : ∃ ctx ∈ contexts, ctx.ns = ns)
    {actions : List RelayAction}
    (orderly : Throughout (RelayState.step encodedLen) (RelayState.start contexts) actions
      (Orderly encodedLen ns))
    (settled : (actions.foldl (RelayState.step encodedLen) (RelayState.start contexts)).Settled) :
    ToldWell (actions.foldl (RelayState.step encodedLen) (RelayState.start contexts)) ns := by
  refine @toldWell_of_inv encodedLen ns _ ?_ settled
  refine foldl_of_throughout ?_ ?_ orderly
  · exact fun _ action inv now => inv_step inv action now
  · exact inv_start held

/-! ### A relay with two devices -/

namespace Fleet

def home : Name := ⟨[.generic [104]]⟩

def ctx : HeldContext where
  ns := home
  version := 1
  linkPolicy := ⟨false, fun _ => true, fun _ => true⟩
  caEndpoints := []
  anchors := []
  isAnchor _ := false
  isRevoked _ := false
  allowsDirectPath _ _ := true

def key (n : UInt8) : KeyFingerprint := ⟨.replicate 32 n⟩

def node (n : UInt8) : Identity where
  ns := home
  version := 1
  device := ⟨[.generic [104], text "node", .generic [n]]⟩
  role := ⟨"node"⟩
  certificates := []
  served := none

/-- A path of device `n` on a link for no enrollment. -/
def path (n : UInt8) (kind : PathKind) : Linked where
  fingerprint := key n
  peer := none
  identities := [node n]
  shown := []
  enrolling := []
  path := ⟨⟨n.toNat⟩, ⟨0⟩, .accepted, kind, []⟩
  distinct := List.nodup_singleton _

/-- The bytes of a list of the devices above. -/
def encodedLen (presence : Presence) : Nat :=
  let len := 5 + 54 * presence.devices.length
  3 + (if len < 253 then 1 else 3) + len

def relay : RelayState := .start [ctx]

/-- Two devices link, and each is told. -/
def meet : List RelayAction :=
  [.linkUp (path 1 .link) none, .run 0, .run 0, .linkUp (path 2 .link) none, .run 1, .run 1, .run 1]

def after (actions : List RelayAction) : RelayState :=
  actions.foldl (RelayState.step encodedLen) relay

theorem listsFit (table : LinkTable) : ListsFit encodedLen table home := by
  intro devices _ few _
  unfold presenceMax at few
  unfold encodedLen maxMessage
  dsimp only
  split <;> omega

theorem orderly_announce {state : RelayState}
    (only : state.tasks.flatten = [.announce home]) : Orderly encodedLen home state
    (.run task) := by
  refine fun _ => ⟨?_, listsFit state.table⟩
  rintro ⟨handle, presence, queued, _⟩
  rw [only] at queued
  cases mem_singleton.mp queued

theorem orderly_linkUp (n : UInt8) (state : RelayState) :
    Orderly encodedLen home state (.linkUp (path n .link) none) :=
  Or.inr (Or.inl ⟨rfl, rfl, node n, mem_singleton_self _, rfl⟩)

theorem orderly_send {state : RelayState}
    (sends : (state.tasks[task]?).bind List.head? ≠ some (.announce home)) :
    Orderly encodedLen home state (.run task) :=
  fun next => absurd next sends

theorem meet_orderly :
    Throughout (step encodedLen) relay meet (Orderly encodedLen home) := by
  refine throughout_cons.mpr ⟨orderly_linkUp 1 _, ?_⟩
  refine throughout_cons.mpr ⟨orderly_announce (by decide +kernel), ?_⟩
  refine throughout_cons.mpr ⟨orderly_send (by decide +kernel), ?_⟩
  refine throughout_cons.mpr ⟨orderly_linkUp 2 _, ?_⟩
  refine throughout_cons.mpr ⟨orderly_announce (by decide +kernel), ?_⟩
  refine throughout_cons.mpr ⟨orderly_send (by decide +kernel), ?_⟩
  refine throughout_cons.mpr ⟨orderly_send (by decide +kernel), ?_⟩
  exact throughout_nil _ _

theorem both_told : ToldWell (after meet) home := by
  refine presence_tells_who_is_linked encodedLen ⟨ctx, List.mem_singleton_self _, rfl⟩ meet_orderly ?_
  exact List.flatten_eq_nil_iff.mp (by decide +kernel)

/-- The first device gets a direct path too, and loses its link path. -/
def loseLink : List RelayAction := meet ++ [.linkUp (path 1 .direct) none, .pathEnd (key 1) 1]

def directOnly : LiveLink := ⟨none, [node 1], [], [], [⟨⟨⟨1⟩, ⟨2⟩, .accepted, .direct, []⟩, 3⟩]⟩

def linked : LiveLink := ⟨none, [node 2], [], [], [⟨⟨⟨2⟩, ⟨1⟩, .accepted, .link, []⟩, 2⟩]⟩

theorem lost_link_still_listed : (after loseLink).Settled ∧ ¬ToldWell (after loseLink) home := by
  refine ⟨List.flatten_eq_nil_iff.mp (by decide +kernel), ?_⟩
  intro told
  have lost : (after loseLink).table.live.lookup (key 1) = some directOnly := by
    with_unfolding_all rfl
  have held : (after loseLink).table.live.lookup (key 2) = some linked := by with_unfolding_all rfl
  have present : Present (after loseLink).table home (key 2) (node 2).device ⟨"node"⟩ ⟨1⟩ :=
    ⟨linked, held, rfl, ⟨node 2, List.mem_singleton_self _, rfl, rfl, rfl, rfl⟩,
      _, List.mem_singleton_self _, rfl, rfl⟩
  have said : (after loseLink).last ⟨1⟩ home = some [⟨(node 1).device, key 1⟩] := by decide +kernel
  rcases told ctx (by with_unfolding_all rfl) _ _ _ _ present with ⟨devices, last, names⟩
  rw [said] at last
  cases last
  rcases (names.sound _ (List.mem_singleton_self _)).2 with ⟨role, handle, ⟨link, was, _, _, p, among,
    kind, _⟩, _⟩
  rw [lost] at was
  cases was
  cases List.mem_singleton.mp among
  cases kind

end Fleet

end NdnExt.Link
