import NdnExt.Dv.Recompute
import NdnExt.Link.Table

/-! The relays that a device uses, and the routes on the link to one. -/

namespace NdnExt.Link.Relays

open NdnExt.Lib
open NdnExt.Dv (EngineRib RibRoute)

inductive RelaySource where
  | user
  | ofNamespace (ns : Name)
  deriving DecidableEq

structure RelayUse where
  source : RelaySource
  preference : UInt32
  deriving DecidableEq

structure PeerSpec where
  label : String
  key : Option KeyFingerprint
  device : Option Name
  endpoints : List String
  relay : Option PeerId
  routes : Option (List Name)
  relayUse : Option RelayUse

structure Peers where
  slots : List (Option PeerSpec)

/-- A relay as a trust context advertises it. -/
structure Advertised where
  device : Name
  key : Option KeyFingerprint
  endpoints : List String
  preference : UInt32

structure Context where
  ns : Name
  relays : List Advertised

/-- What this device holds: trust contexts, and certificates under the names of its devices. -/
structure Held where
  contexts : List Context
  hasRole : Name → Bool
  ownDevices : List Name
  mine : Option KeyFingerprint

namespace Peers

def get (peers : Peers) (id : PeerId) : Option PeerSpec := (peers.slots[id.index]?).join

def add (peers : Peers) (spec : PeerSpec) : Peers := ⟨peers.slots ++ [some spec]⟩

/-- A removed id is not used again. -/
def remove (peers : Peers) (id : PeerId) : Peers := ⟨peers.slots.set id.index none⟩

def update (peers : Peers) (id : PeerId) (change : PeerSpec → PeerSpec) : Peers :=
  ⟨peers.slots.modify id.index (Option.map change)⟩

def iter (peers : Peers) : List (PeerId × PeerSpec) :=
  (List.range peers.slots.length).filterMap fun i => (peers.get ⟨i⟩).map fun spec => (⟨i⟩, spec)

def reachedThrough (peers : Peers) (relay : PeerId) : List PeerSpec :=
  (peers.slots.filterMap id).filter fun p => p.relay = some relay

/-! ### The order of the relays -/

def ofNamespace (used : RelayUse) : Bool :=
  match used.source with
  | .user => false
  | .ofNamespace _ => true

/-- By preference, a user's before a namespace's, by id. -/
def notAfter (left right : PeerId × PeerSpec) : Bool :=
  match left.2.relayUse, right.2.relayUse with
  | some used, some used' =>
    decide (used.preference < used'.preference) || (used.preference = used'.preference &&
      ((!ofNamespace used && ofNamespace used') || (ofNamespace used == ofNamespace used' &&
        decide (left.1.index ≤ right.1.index))))
  | _, _ => true

/-- The relays, most preferred first. -/
def relayOrder (peers : Peers) : List (PeerId × PeerSpec) :=
  (peers.iter.filter fun entry => entry.2.relayUse.isSome).insertionSort
    fun left right => notAfter left right = true

def rank (peers : Peers) (id : PeerId) : Option Nat :=
  peers.relayOrder.findIdx? fun entry => entry.1 = id

/-- The rank, saturated. -/
def relayCost (peers : Peers) (id : PeerId) : UInt32 :=
  (peers.rank id).elim 0 fun rank => UInt32.ofNat (min rank (2 ^ 32 - 1))

end Peers

/-! ### The routes of a link -/

def Held.ownNamespaces (held : Held) : List Name :=
  (held.contexts.map Context.ns).filter fun ns => ns ≠ .root && held.hasRole ns

/-- The namespaces of this device that a relay is used for. -/
def Held.relayNamespaces (held : Held) (peer : PeerSpec) : List Name :=
  match peer.relayUse.map RelayUse.source with
  | some (.ofNamespace _) => held.ownNamespaces.filter fun ns =>
    (held.contexts.filter fun c => c.ns = ns).any fun c => c.relays.any fun r =>
      peer.device = some r.device || (peer.key.isSome && peer.key = r.key)
  | some .user => held.ownNamespaces
  | none => []

structure RelayRoutes where
  namespaces : List Name
  cost : UInt32

def viaRelayCost : UInt32 := 10

/-- The namespace of a node that this device dials, else the device name. -/
def identityRoute (id : Identity) (dialledPeer : Bool) : Name :=
  if id.role = ⟨"node"⟩ && dialledPeer then id.ns else id.device

def defaultRoutes (peer : Option PeerSpec) (identities : List Identity) (dials : Bool) :
    List Name :=
  match peer.bind PeerSpec.routes with
  | some routes => routes
  | none =>
    if identities.isEmpty then (peer.bind PeerSpec.device).toList
    else
      identities.foldl (fun out id =>
        let route := identityRoute id (peer.isSome && dials)
        if out.contains route then out else out ++ [route]) []

def routesFor (peers : Peers) (admitted : Admitted) (dials : Bool) (relay : Option RelayRoutes) :
    List Route :=
  match admitted.enrollment with
  | some (.relay _) => []
  | some (.device ns) => [⟨ns, 0⟩]
  | none =>
    let base := (relay.map RelayRoutes.cost).getD 0
    let peer := admitted.peer.bind peers.get
    let own :=
      match relay, peer.bind PeerSpec.routes with
      | some r, none =>
        if r.namespaces.isEmpty then defaultRoutes peer admitted.identities dials else r.namespaces
      | _, _ => defaultRoutes peer admitted.identities dials
    own.map (fun route => ⟨route, base⟩) ++
      (admitted.peer.map peers.reachedThrough).elim [] fun reached => reached.flatMap fun p =>
        (defaultRoutes (some p) [] false).map fun route => ⟨route, base + viaRelayCost⟩

/-- What a relay that this device uses gets on a link path. -/
def relayRoutes (peers : Peers) (held : Held) (admitted : Admitted) (kind : PathKind) :
    Option RelayRoutes :=
  match admitted.peer, admitted.peer.bind peers.get with
  | some id, some p =>
    if p.relayUse.isSome && kind = .link then some ⟨held.relayNamespaces p, peers.relayCost id⟩
    else none
  | _, _ => none

section Engine

variable {R : Type} (engine : EngineRib R) (fixed childInherit : Nat)

def staticRoute (face : FaceId) (route : Route) : RibRoute where
  faceId := face.id
  origin := fixed
  cost := route.cost.toNat
  flags := childInherit
  expiresAt := none

def addRoutes (rib : R) (face : FaceId) (routes : List Route) : R :=
  routes.foldl (fun rib route => engine.add rib route.name (staticRoute fixed childInherit face route))
    rib

/-- The cost of the route for a prefix on a face. -/
def costOn (rib : R) (face : FaceId) (name : Name) : Option Nat :=
  (engine.route rib name face.id fixed).map RibRoute.cost

variable {engine fixed childInherit}

/-- The routes of another face stay. -/
theorem costOn_addRoutes_of_ne {face other : FaceId} (different : other ≠ face) (rib : R)
    (routes : List Route) (name : Name) :
    costOn engine fixed (addRoutes engine fixed childInherit rib face routes) other name =
      costOn engine fixed rib other name := by
  unfold addRoutes
  induction routes generalizing rib with
  | nil => rfl
  | cons route rest ih =>
    rw [List.foldl_cons, ih]
    unfold costOn
    rw [engine.route_add, if_neg]
    rintro ⟨_, same, _⟩
    exact different (by cases other; cases face; cases same; rfl)

/-- A prefix that is only routed at one cost gets that cost. -/
theorem costOn_addRoutes {face : FaceId} {name : Name} {cost : UInt32} (rib : R)
    {routes : List Route} (routed : ∃ route ∈ routes, route.name = name)
    (only : ∀ route ∈ routes, route.name = name → route.cost = cost) :
    costOn engine fixed (addRoutes engine fixed childInherit rib face routes) face name =
      some cost.toNat := by
  unfold addRoutes
  induction routes using List.reverseRecOn with
  | nil =>
    rcases routed with ⟨_, among, _⟩
    cases among
  | append_singleton earlier route ih =>
    rw [List.foldl_append, List.foldl_cons, List.foldl_nil]
    unfold costOn
    rw [engine.route_add]
    by_cases same : name = route.name
    · have atCost := only route (by simp) same.symm
      rw [if_pos ⟨same, rfl, rfl⟩, Option.map_some, ← atCost]
      rfl
    · rw [if_neg (fun all => same all.1)]
      refine ih ?_ fun other among => only other (List.mem_append_left _ among)
      rcases routed with ⟨other, among, named⟩
      rcases List.mem_append.mp among with early | last
      · exact ⟨other, early, named⟩
      · rw [List.mem_singleton] at last
        subst last
        exact absurd named.symm same

end Engine

end NdnExt.Link.Relays
