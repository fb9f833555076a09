import NdnExt.Link.Trust

/-! The live links of a device, by the key of the other device. -/

namespace NdnExt.Link

open NdnExt.Lib

inductive Direction where
  | dialed
  | accepted
  deriving DecidableEq

inductive PathKind where
  | link
  | direct
  | relay
  deriving DecidableEq

structure FaceId where
  id : Nat
  deriving DecidableEq

structure Route where
  name : Name
  cost : UInt32
  deriving DecidableEq

/-- The end of a connection that this device holds. -/
structure LinkHandle where
  connection : Nat
  deriving DecidableEq

/-- What a device says on a connection that it closes. -/
inductive CloseText where
  | alreadyLinked
  | alreadyDirect
  | revoked (certificate ns : Name) (version : Nat)
  | refused
  deriving DecidableEq

structure Close where
  handle : LinkHandle
  reason : CloseReason
  text : CloseText
  deriving DecidableEq

namespace KeyFingerprint

instance : LT KeyFingerprint := ⟨fun left right => left.bytes.toList < right.bytes.toList⟩

instance (left right : KeyFingerprint) : Decidable (left < right) :=
  inferInstanceAs (Decidable (left.bytes.toList < right.bytes.toList))

end KeyFingerprint

/-- Which link stays when a link to a device that is already linked comes up. -/
def keepsExisting (existing new : Direction) (mine : Option KeyFingerprint)
    (theirs : KeyFingerprint) : Bool :=
  existing ≠ new && mine.any fun mine => decide (existing = .dialed) == decide (mine < theirs)

structure LinkPath where
  face : FaceId
  handle : LinkHandle
  direction : Direction
  kind : PathKind
  routes : List Route

structure LivePath where
  path : LinkPath
  generation : Nat

structure LiveLink where
  peer : Option PeerId
  identities : List Identity
  shown : List Name
  enrolling : List Name
  paths : List LivePath

structure Registration where
  fingerprint : KeyFingerprint
  peer : Option PeerId
  identities : List Identity
  shown : List Name
  enrolling : List Name
  path : LinkPath

/-- A path that ended. -/
structure Ended where
  peer : Option PeerId
  identities : List Identity
  kind : PathKind
  routes : List Route
  enrolling : Bool
  last : Bool

/-- A membership that a revocation takes from a link that stays. -/
structure Dropped where
  ns : Name
  routes : List (FaceId × List Name)
  handle : Option LinkHandle

structure LinkTable where
  live : HashMap KeyFingerprint LiveLink
  generation : Nat

namespace LiveLink

def ofKind (link : LiveLink) (kind : PathKind) : List LivePath :=
  link.paths.filter fun p => p.path.kind = kind

/-- A path takes the place of those of its kind. -/
def joined (existing : LiveLink) (link : Registration) (generation : Nat) : LiveLink where
  peer := link.peer.or existing.peer
  identities := if link.identities.isEmpty then existing.identities else link.identities
  shown := if link.path.kind = .link then link.shown else existing.shown
  enrolling := if link.path.kind = .link then link.enrolling else existing.enrolling
  paths := (existing.paths.filter fun p => p.path.kind ≠ link.path.kind) ++
    [⟨link.path, generation⟩]

/-- An identity that a trust context revokes. -/
def isRevoked (ctx : TrustContext) (id : Identity) : Bool :=
  Covers ctx.ns id.device && id.certificates.any ctx.isRevoked

def losesRoutes (id : Identity) (route : Route) : Bool :=
  route.name = id.device || route.name = id.ns

/-- The routes of a path without those of an identity. -/
def without (id : Identity) (p : LivePath) : LivePath :=
  { p with path := { p.path with routes := p.path.routes.filter fun r => !losesRoutes id r } }

def lost (id : Identity) (p : LivePath) : Option (FaceId × List Name) :=
  let gone := (p.path.routes.filter (losesRoutes id)).map Route.name
  if gone.isEmpty then none else some (p.path.face, gone)

/-- What a newly adopted trust context takes from a link. -/
def revoke (ctx : TrustContext) (link : LiveLink) : LiveLink × List Close × Option Dropped :=
  match link.identities.find? (isRevoked ctx) with
  | none => (link, [], none)
  | some id =>
    let identities := link.identities.eraseP (isRevoked ctx)
    if identities.isEmpty then
      let revoked := (id.certificates.find? ctx.isRevoked).getD .root
      ({ link with identities := [] },
        link.paths.map fun p => ⟨p.path.handle, .revoked, .revoked revoked ctx.ns ctx.version⟩,
        none)
    else
      ({ link with identities := identities, paths := link.paths.map (without id) }, [],
        some {
          ns := id.ns
          routes := link.paths.filterMap (lost id)
          handle := (link.ofKind .link).head?.map fun p => p.path.handle })

end LiveLink

namespace LinkTable

def empty : LinkTable := ⟨∅, 0⟩

/-- Records an admitted path; the other result is `none` where the path in place stays. -/
def register (table : LinkTable) (link : Registration) (mine : Option KeyFingerprint) :
    LinkTable × List Close × Option Nat :=
  let generation := table.generation + 1
  let text := if link.path.kind = .direct then .alreadyDirect else .alreadyLinked
  match table.live.lookup link.fingerprint with
  | none =>
    (⟨table.live.insert link.fingerprint
        ⟨link.peer, link.identities, link.shown, link.enrolling, [⟨link.path, generation⟩]⟩,
      generation⟩, [], some generation)
  | some existing =>
    if (existing.ofKind link.path.kind).any fun p =>
      keepsExisting p.path.direction link.path.direction mine link.fingerprint then
      (⟨table.live, generation⟩, [⟨link.path.handle, .replaced, text⟩], none)
    else
      (⟨table.live.insert link.fingerprint (existing.joined link generation), generation⟩,
        (existing.ofKind link.path.kind).map fun p => ⟨p.path.handle, .replaced, text⟩,
        some generation)

/-- The path of a generation ended. -/
def unregister (table : LinkTable) (fingerprint : KeyFingerprint) (generation : Nat) :
    LinkTable × Option Ended :=
  match table.live.lookup fingerprint with
  | none => (table, none)
  | some link =>
    match link.paths.find? fun p => p.generation = generation with
    | none => (table, none)
    | some ended =>
      let paths := link.paths.eraseP fun p => p.generation = generation
      ({ table with live :=
          if paths.isEmpty then table.live.erase fingerprint
          else table.live.insert fingerprint { link with paths := paths } },
        some {
          peer := link.peer
          identities := link.identities
          kind := ended.path.kind
          routes := ended.path.routes
          enrolling := !link.enrolling.isEmpty
          last := paths.isEmpty })

/-- A newly adopted trust context revokes certificates. -/
def closeRevoked (table : LinkTable) (ctx : TrustContext) :
    LinkTable × List Close × List Dropped :=
  let verdicts := table.live.pairs.map fun link => link.2.revoke ctx
  ({ table with live := table.live.mapValues fun _ link => (link.revoke ctx).1 },
    verdicts.flatMap fun verdict => verdict.2.1,
    verdicts.filterMap fun verdict => verdict.2.2)

def isLinked (table : LinkTable) (fingerprint : KeyFingerprint) : Bool :=
  (table.live.lookup fingerprint).isSome

/-- The face of a link path, else of the first path. -/
def senderTo (table : LinkTable) (fingerprint : KeyFingerprint) : Option FaceId :=
  (table.live.lookup fingerprint).bind fun link =>
    ((link.ofKind .link).head?.or link.paths.head?).map fun p => p.path.face

/-! ### The paths to one device -/

def paths (table : LinkTable) (fingerprint : KeyFingerprint) : List LivePath :=
  ((table.live.lookup fingerprint).map LiveLink.paths).getD []

variable {table : LinkTable} {link : Registration} {mine : Option KeyFingerprint}

theorem register_generation : (table.register link mine).1.generation = table.generation + 1 := by
  unfold register
  dsimp only
  split
  · rfl
  · split <;> rfl

/-- A registration is refused for a path in place, or takes the place of the paths of its kind. -/
theorem register_cases (table : LinkTable) (link : Registration) (mine : Option KeyFingerprint) :
    ((∃ p ∈ table.paths link.fingerprint, p.path.kind = link.path.kind ∧
        keepsExisting p.path.direction link.path.direction mine link.fingerprint) ∧
      (table.register link mine).1.live = table.live ∧
      (table.register link mine).2.1.map Close.handle = [link.path.handle] ∧
      (table.register link mine).2.2 = none) ∨
    ((∀ p ∈ table.paths link.fingerprint, p.path.kind = link.path.kind →
        keepsExisting p.path.direction link.path.direction mine link.fingerprint = false) ∧
      (∀ fingerprint, (table.register link mine).1.paths fingerprint =
        if fingerprint = link.fingerprint then
          (table.paths link.fingerprint).filter (fun p => p.path.kind ≠ link.path.kind) ++
            [⟨link.path, table.generation + 1⟩]
        else table.paths fingerprint) ∧
      (table.register link mine).2.1.map Close.handle =
        ((table.paths link.fingerprint).filter fun p => p.path.kind = link.path.kind).map
          (fun p => p.path.handle) ∧
      (table.register link mine).2.2 = some (table.generation + 1)) := by
  unfold register paths
  dsimp only
  split
  · next unlinked =>
    refine .inr ⟨by rw [unlinked]; exact nofun, ?_, by rw [unlinked]; rfl, rfl⟩
    intro fingerprint
    rw [HashMap.lookup_insert_eq]
    split
    · rw [unlinked]
      rfl
    · rfl
  · next existing linked =>
    split
    · next keeps =>
      rcases List.any_eq_true.mp keeps with ⟨p, among, keeps⟩
      rcases List.mem_filter.mp among with ⟨among, kind⟩
      refine .inl ⟨⟨p, ?_, of_decide_eq_true kind, keeps⟩, rfl, rfl, rfl⟩
      rw [linked]
      exact among
    · next keeps =>
      refine .inr ⟨?_, ?_, ?_, rfl⟩
      · intro p among kind
        rw [linked] at among
        by_contra kept
        refine keeps (List.any_eq_true.mpr ⟨p, ?_, (Bool.not_eq_false _).mp kept⟩)
        exact List.mem_filter.mpr ⟨among, decide_eq_true kind⟩
      · intro fingerprint
        rw [HashMap.lookup_insert_eq]
        split
        · rw [linked]
          rfl
        · rfl
      · rw [linked, List.map_map]
        rfl

/-- The end of a path takes it from the table, and nothing else. -/
theorem unregister_paths (table : LinkTable) (fingerprint : KeyFingerprint) (generation : Nat)
    (other : KeyFingerprint) :
    (table.unregister fingerprint generation).1.paths other =
      if other = fingerprint then
        (table.paths fingerprint).eraseP fun p => p.generation = generation
      else table.paths other := by
  unfold unregister paths
  split
  · next unlinked =>
    split
    · next same =>
      rw [same, unlinked]
      rfl
    · rfl
  · next link linked =>
    split
    · next absent =>
      split
      · next same =>
        rw [same, linked]
        refine (List.eraseP_of_forall_not ?_).symm
        intro p among
        exact List.find?_eq_none.mp absent p among
      · rfl
    · next ended found =>
      dsimp only
      split
      · next emptied =>
        rw [HashMap.lookup_erase_eq]
        split
        · rw [linked]
          exact (List.isEmpty_iff.mp emptied).symm
        · rfl
      · rw [HashMap.lookup_insert_eq]
        split
        · rw [linked]
          rfl
        · rfl

theorem unregister_generation (fingerprint : KeyFingerprint) (generation : Nat) :
    (table.unregister fingerprint generation).1.generation = table.generation := by
  unfold unregister
  split
  · rfl
  · split <;> rfl

/-- A generation that no path has ends nothing. -/
theorem unregister_absent {fingerprint : KeyFingerprint} {generation : Nat}
    (absent : ∀ p ∈ table.paths fingerprint, p.generation ≠ generation) :
    table.unregister fingerprint generation = (table, none) := by
  unfold unregister
  split
  · rfl
  · next link linked =>
    have none : link.paths.find? (fun p => p.generation = generation) = none := by
      rw [List.find?_eq_none]
      intro p among
      rw [decide_eq_true_eq]
      refine absent p ?_
      unfold paths
      rw [linked]
      exact among
    rw [none]

end LinkTable

end NdnExt.Link
