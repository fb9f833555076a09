import NdnExt.Dv.Mirror
import NdnExt.Link.Relays

/-! Traffic takes the most preferred relay that is linked. -/

namespace NdnExt.Link.Relays

open NdnExt.Lib NdnExt.Lib.Run List
open NdnExt.Dv (EngineRib RibRoute hashEngine)

/-- A link path to an admitted device; `full` where it carries more than an enrollment. -/
structure RelayLink where
  face : FaceId
  peer : Option PeerId
  full : Bool
  deriving DecidableEq

structure RelayOptions where
  useNamespace : Bool
  /-- How a name is written in a label. -/
  display : Name → String

structure Relaying (R : Type) where
  peers : Peers
  held : Held
  dismissed : List String
  links : List RelayLink
  rib : R
  nextFace : Nat

inductive RelayAction where
  | addPeer (spec : PeerSpec)
  | removePeer (id : PeerId)
  | adopt (held : Held)
  | syncNamespaceRelays
  | up (admitted : Admitted) (dials : Bool) (kind : PathKind)
  | down (face : FaceId)

/-! ### The relays that the namespaces advertise -/

def advertised (options : RelayOptions) (held : Held) : List PeerSpec :=
  if !options.useNamespace then []
  else
    (held.contexts.filter fun ctx => ctx.ns ≠ .root && held.hasRole ctx.ns).flatMap fun ctx =>
      (ctx.relays.filter fun relay => !(held.ownDevices.contains relay.device ||
          (relay.key.isSome && relay.key = held.mine))).map fun relay =>
        { label := options.display relay.device
          key := relay.key
          device := some relay.device
          endpoints := relay.endpoints
          relay := none
          routes := none
          relayUse := some ⟨.ofNamespace ctx.ns, relay.preference⟩ }

def same (a p : PeerSpec) : Bool :=
  (a.device.isSome && a.device = p.device) || (a.key.isSome && a.key = p.key)

def syncPeer (advertised : List PeerSpec) (peers : Peers) (entry : PeerId × PeerSpec) : Peers :=
  if !entry.2.relayUse.any Peers.ofNamespace then peers
  else
    match advertised.find? fun a => same a entry.2 with
    | none => peers.remove entry.1
    | some a =>
      if a.endpoints ≠ entry.2.endpoints || a.key ≠ entry.2.key ||
          a.relayUse ≠ entry.2.relayUse then
        peers.update entry.1 fun spec =>
          { spec with endpoints := a.endpoints, key := a.key, relayUse := a.relayUse }
      else peers

def syncNamespaceRelays (options : RelayOptions) (held : Held) (dismissed : List String)
    (peers : Peers) : Peers :=
  let advertised := advertised options held
  let current := peers.iter
  (advertised.filter fun a =>
      !(current.any (fun entry => same entry.2 a) || dismissed.contains a.label)).foldl Peers.add
    (current.foldl (syncPeer advertised) peers)

namespace Relaying

variable {R : Type} (options : RelayOptions) (engine : EngineRib R) (fixed childInherit : Nat)

def start (specs : List PeerSpec) (held : Held) (rib : R) : Relaying R :=
  ⟨⟨specs.map some⟩, held, [], [], rib, 0⟩

def step (r : Relaying R) : RelayAction → Relaying R
  | .addPeer spec => { r with peers := r.peers.add spec }
  | .removePeer id =>
    match r.peers.get id with
    | none => r
    | some p => { r with
        peers := r.peers.remove id
        dismissed := if p.relayUse.isSome then p.label :: r.dismissed else r.dismissed }
  | .adopt held => { r with held := held }
  | .syncNamespaceRelays =>
    { r with peers := syncNamespaceRelays options r.held r.dismissed r.peers }
  | .up admitted dials kind =>
    let face : FaceId := ⟨r.nextFace⟩
    let routes := routesFor r.peers admitted dials (relayRoutes r.peers r.held admitted kind)
    { r with
      links := ⟨face, admitted.peer, admitted.enrollment.isNone && kind = .link⟩ :: r.links
      rib := addRoutes engine fixed childInherit r.rib face routes
      nextFace := r.nextFace + 1 }
  | .down face => { r with links := r.links.filter fun link => link.face ≠ face }

/-- Of two linked relays used for a namespace, the earlier one in the order has the cheaper route
for it. -/
def PrefersEarlier (r : Relaying R) : Prop :=
  ∀ left ∈ r.links, ∀ right ∈ r.links, left.full = true → right.full = true →
    ∀ (i j : Nat) earlier later, r.peers.relayOrder[i]? = some earlier →
      r.peers.relayOrder[j]? = some later → i < j →
      left.peer = some earlier.1 → right.peer = some later.1 →
      ∀ ns ∈ r.held.relayNamespaces earlier.2, ns ∈ r.held.relayNamespaces later.2 →
        ∃ cheaper dearer, costOn engine fixed r.rib left.face ns = some cheaper ∧
          costOn engine fixed r.rib right.face ns = some dearer ∧ cheaper < dearer

/-- A change leaves the rank of a relay, and does not have it used for a further namespace. -/
def LeavesRank (r next : Relaying R) (id : PeerId) : Prop :=
  ∀ p' ∈ next.peers.get id, p'.relayUse.isSome = true →
    (r.peers.get id).any (fun p => p.relayUse.isSome) = true ∧
    next.peers.rank id = r.peers.rank id ∧
    ∀ p ∈ r.peers.get id, ∀ ns ∈ next.held.relayNamespaces p', ns ∈ r.held.relayNamespaces p

def LeavesRanks (r next : Relaying R) : Prop :=
  ∀ link ∈ r.links, link.full = true → ∀ id ∈ link.peer, r.LeavesRank next id

/-- Neither the routes that a relay is given nor those through it replace the ones at its rank. -/
def RoutesAtRank (r : Relaying R) (id : PeerId) (p : PeerSpec) : Prop :=
  (∀ rank ∈ r.peers.rank id, rank < 2 ^ 32) ∧ ∀ ns ∈ r.held.relayNamespaces p,
    (∀ own ∈ p.routes, ns ∈ own) ∧
      ∀ reached ∈ r.peers.reachedThrough id, ns ∉ defaultRoutes (some reached) [] false

def Steady (r : Relaying R) (action : RelayAction) : Prop :=
  match action with
  | .up admitted _ kind => admitted.enrollment.isNone = true → kind = .link →
      ∀ id ∈ admitted.peer, ∀ p ∈ r.peers.get id, p.relayUse.isSome = true → r.RoutesAtRank id p
  | .down _ => True
  | change => r.LeavesRanks (r.step options engine fixed childInherit change)

instance (r next : Relaying R) (id : PeerId) : Decidable (r.LeavesRank next id) := by
  unfold LeavesRank
  infer_instance

instance (r next : Relaying R) : Decidable (r.LeavesRanks next) := by
  unfold LeavesRanks
  infer_instance

instance (r : Relaying R) (id : PeerId) (p : PeerSpec) : Decidable (r.RoutesAtRank id p) := by
  unfold RoutesAtRank
  infer_instance

instance (r : Relaying R) (action : RelayAction) :
    Decidable (r.Steady options engine fixed childInherit action) := by
  unfold Steady
  split <;> infer_instance

end Relaying

/-! ### Ranks -/

namespace Peers

variable {peers : Peers}

theorem mem_iter {id : PeerId} {p : PeerSpec} : (id, p) ∈ peers.iter ↔ peers.get id = some p := by
  unfold iter
  rw [mem_filterMap]
  constructor
  · rintro ⟨i, _, held⟩
    rcases Option.map_eq_some_iff.mp held with ⟨spec, found, entry⟩
    cases entry
    exact found
  · intro held
    refine ⟨id.index, mem_range.mpr ?_, by rw [held]; rfl⟩
    by_contra beyond
    unfold get at held
    rw [List.getElem?_eq_none (Nat.not_lt.mp beyond)] at held
    cases held

theorem iter_nodup : (peers.iter.map Prod.fst).Nodup := by
  unfold iter
  rw [map_filterMap]
  refine List.Nodup.filterMap ?_ nodup_range
  intro i j id fromI fromJ
  rw [Option.mem_def, Option.map_map, Option.map_eq_some_iff] at fromI fromJ
  rcases fromI with ⟨_, _, rfl⟩
  rcases fromJ with ⟨_, _, same⟩
  exact (PeerId.mk.inj same).symm

theorem relayOrder_perm :
    peers.relayOrder.Perm (peers.iter.filter fun entry => entry.2.relayUse.isSome) :=
  perm_insertionSort _ _

theorem mem_relayOrder {id : PeerId} {p : PeerSpec} :
    (id, p) ∈ peers.relayOrder ↔ peers.get id = some p ∧ p.relayUse.isSome = true := by
  rw [relayOrder_perm.mem_iff, mem_filter, mem_iter]

theorem relayOrder_nodup : (peers.relayOrder.map Prod.fst).Nodup := by
  rw [(relayOrder_perm.map Prod.fst).nodup_iff]
  exact iter_nodup.sublist (filter_sublist.map _)

/-- The rank of a relay is its place in the order. -/
theorem rank_of_getElem {i : Nat} {entry : PeerId × PeerSpec}
    (placed : peers.relayOrder[i]? = some entry) : peers.rank entry.1 = some i := by
  unfold rank
  rw [List.findIdx?_eq_some_iff_getElem]
  rcases List.getElem?_eq_some_iff.mp placed with ⟨inside, found⟩
  refine ⟨inside, by rw [found]; exact decide_eq_true rfl, ?_⟩
  intro j before
  rw [decide_eq_true_eq]
  intro twice
  have nodup := pairwise_iff_getElem.mp (@relayOrder_nodup peers)
  refine nodup j i (by rw [length_map]; omega) (by rw [length_map]; omega) before ?_
  rw [getElem_map, getElem_map, twice, found]

theorem rank_of_get {id : PeerId} {p : PeerSpec} (held : peers.get id = some p)
    (used : p.relayUse.isSome = true) : ∃ rank, peers.rank id = some rank := by
  rcases mem_iff_getElem?.mp (mem_relayOrder.mpr ⟨held, used⟩) with ⟨i, placed⟩
  exact ⟨i, rank_of_getElem placed⟩

theorem relayCost_of_rank {id : PeerId} {rank : Nat} (ranked : peers.rank id = some rank)
    (small : rank < 2 ^ 32) : (peers.relayCost id).toNat = rank := by
  unfold relayCost
  rw [ranked, Option.elim_some, Nat.min_eq_left (by omega), UInt32.toNat_ofNat',
    Nat.mod_eq_of_lt small]

end Peers

/-! ### What a run preserves -/

namespace Relaying

variable {R : Type} {options : RelayOptions} {engine : EngineRib R} {fixed childInherit : Nat}

/-- A linked relay has its rank for the cost of the namespaces that it is used for. -/
structure Sound (engine : EngineRib R) (fixed : Nat) (r : Relaying R) : Prop where
  fresh : ∀ link ∈ r.links, link.face.id < r.nextFace
  ranked : ∀ link ∈ r.links, link.full = true → ∀ id ∈ link.peer, ∀ p ∈ r.peers.get id,
    p.relayUse.isSome = true → ∃ rank, r.peers.rank id = some rank ∧
      ∀ ns ∈ r.held.relayNamespaces p, costOn engine fixed r.rib link.face ns = some rank

theorem start_sound (specs : List PeerSpec) (held : Held) (rib : R) :
    (start specs held rib).Sound engine fixed :=
  ⟨nofun, nofun⟩

theorem Sound.leavesRanks {r next : Relaying R} (sound : r.Sound engine fixed)
    (leaves : r.LeavesRanks next) (links : next.links = r.links) (rib : next.rib = r.rib)
    (faces : next.nextFace = r.nextFace) : next.Sound engine fixed := by
  refine ⟨by rw [links, faces]; exact sound.fresh, ?_⟩
  rw [links, rib]
  intro link among full id peer p' held' used'
  rcases leaves link among full id peer p' held' used' with ⟨known, same, fewer⟩
  rcases (Option.any_eq_true _ _).mp known with ⟨p, held, used⟩
  rcases sound.ranked link among full id peer p held used with ⟨rank, ranked, costs⟩
  exact ⟨rank, same.trans ranked, fun ns among => costs ns (fewer p held ns among)⟩

theorem costOn_up {r : Relaying R} {admitted : Admitted} {dials : Bool}
    (noEnrollment : admitted.enrollment = none) {id : PeerId} (peer : admitted.peer = some id)
    {p : PeerSpec} (held : r.peers.get id = some p) (used : p.relayUse.isSome = true)
    (atRank : r.RoutesAtRank id p) {rank : Nat} (ranked : r.peers.rank id = some rank)
    {face : FaceId} {ns : Name} (among : ns ∈ r.held.relayNamespaces p) :
    costOn engine fixed (addRoutes engine fixed childInherit r.rib face
      (routesFor r.peers admitted dials (relayRoutes r.peers r.held admitted .link))) face ns =
        some rank := by
  rcases atRank with ⟨small, routes⟩
  rcases routes ns among with ⟨own, through⟩
  have relay : relayRoutes r.peers r.held admitted .link =
      some ⟨r.held.relayNamespaces p, r.peers.relayCost id⟩ := by
    unfold relayRoutes
    simp [peer, held, used]
  have cost := Peers.relayCost_of_rank ranked (small rank ranked)
  rw [← cost]
  have all : routesFor r.peers admitted dials (relayRoutes r.peers r.held admitted .link) =
      ((p.routes.getD (r.held.relayNamespaces p)).map fun route => ⟨route, r.peers.relayCost id⟩) ++
        (r.peers.reachedThrough id).flatMap fun p => (defaultRoutes (some p) [] false).map
          fun route => ⟨route, r.peers.relayCost id + viaRelayCost⟩ := by
    unfold routesFor
    rw [relay, noEnrollment, peer]
    dsimp only
    rw [Option.bind_some, held, Option.bind_some]
    cases given : p.routes with
    | none =>
      have nonempty : (r.held.relayNamespaces p).isEmpty = false := by
        cases namespaces : r.held.relayNamespaces p with
        | nil =>
          rw [namespaces] at among
          cases among
        | cons _ _ => rfl
      dsimp only
      rw [nonempty]
      rfl
    | some own =>
      unfold defaultRoutes
      rw [Option.bind_some, given]
      rfl
  rw [all]
  apply costOn_addRoutes
  · refine ⟨⟨ns, r.peers.relayCost id⟩, mem_append_left _ (mem_map.mpr ⟨ns, ?_, rfl⟩), rfl⟩
    cases given : p.routes with
    | none => exact among
    | some routes => exact own routes given
  · intro route among' named
    rcases mem_append.mp among' with direct | via
    · rcases mem_map.mp direct with ⟨_, _, rfl⟩
      rfl
    · rcases mem_flatMap.mp via with ⟨reached, further, routed⟩
      rcases mem_map.mp routed with ⟨name, default, rfl⟩
      rw [show name = ns from named] at default
      exact absurd default (through reached further)

theorem step_sound {r : Relaying R} (sound : r.Sound engine fixed) {action : RelayAction}
    (steady : r.Steady options engine fixed childInherit action) :
    (r.step options engine fixed childInherit action).Sound engine fixed := by
  cases action with
  | addPeer spec => exact sound.leavesRanks steady rfl rfl rfl
  | removePeer id =>
    refine sound.leavesRanks steady ?_ ?_ ?_ <;>
      (unfold step; dsimp only; split <;> rfl)
  | adopt held => exact sound.leavesRanks steady rfl rfl rfl
  | syncNamespaceRelays => exact sound.leavesRanks steady rfl rfl rfl
  | up admitted dials kind =>
    have kept : ∀ link ∈ r.links, ∀ ns, costOn engine fixed (r.step options engine fixed
        childInherit (.up admitted dials kind)).rib link.face ns =
          costOn engine fixed r.rib link.face ns := by
      intro link among ns
      have older := sound.fresh link among
      exact costOn_addRoutes_of_ne (fun same => absurd older (by rw [same]; exact lt_irrefl _)) _ _ _
    refine ⟨?_, ?_⟩
    · intro link among
      rcases mem_cons.mp among with rfl | earlier
      · exact Nat.lt_succ_self _
      · exact Nat.lt_succ_of_lt (sound.fresh link earlier)
    · intro link among full id peer p held used
      rcases mem_cons.mp among with rfl | earlier
      · rw [Bool.and_eq_true, decide_eq_true_eq] at full
        rcases full with ⟨noEnrollment, rfl⟩
        rcases Peers.rank_of_get held used with ⟨rank, ranked⟩
        refine ⟨rank, ranked, ?_⟩
        intro ns used'
        exact @costOn_up R engine fixed childInherit r admitted dials
          (Option.isNone_iff_eq_none.mp noEnrollment) id peer p held used
          (steady noEnrollment rfl id peer p held used) rank ranked _ ns used'
      · rcases sound.ranked link earlier full id peer p held used with ⟨rank, ranked, costs⟩
        refine ⟨rank, ranked, ?_⟩
        intro ns used'
        rw [kept link earlier]
        exact costs ns used'
  | down face =>
    refine ⟨?_, ?_⟩
    · intro link among
      exact sound.fresh link (mem_of_mem_filter among)
    · intro link among
      exact sound.ranked link (mem_of_mem_filter among)

theorem Sound.prefersEarlier {r : Relaying R} (sound : r.Sound engine fixed) :
    r.PrefersEarlier engine fixed := by
  intro left amongLeft right amongRight fullLeft fullRight i j earlier later first second less
    isEarlier isLater ns ofEarlier ofLater
  have among : ∀ {k : Nat} {entry : PeerId × PeerSpec}, r.peers.relayOrder[k]? = some entry →
      r.peers.get entry.1 = some entry.2 ∧ entry.2.relayUse.isSome = true :=
    fun placed => Peers.mem_relayOrder.mp (mem_of_getElem? placed)
  rcases sound.ranked left amongLeft fullLeft _ isEarlier _ (among first).1 (among first).2 with
    ⟨rank, ranked, costs⟩
  rcases sound.ranked right amongRight fullRight _ isLater _ (among second).1 (among second).2 with
    ⟨rank', ranked', costs'⟩
  rw [Peers.rank_of_getElem first, Option.some.injEq] at ranked
  rw [Peers.rank_of_getElem second, Option.some.injEq] at ranked'
  exact ⟨rank, rank', costs ns ofEarlier, costs' ns ofLater, by omega⟩

/-- In a run that leaves the ranks of the linked relays, traffic takes the most preferred one. -/
theorem prefers_earlier (specs : List PeerSpec) (held : Held) (rib : R)
    (actions : List RelayAction)
    (steady : Throughout (step options engine fixed childInherit) (start specs held rib) actions
      (Steady options engine fixed childInherit)) :
    (actions.foldl (step options engine fixed childInherit)
      (start specs held rib)).PrefersEarlier engine fixed := by
  have sound : (actions.foldl (step options engine fixed childInherit)
      (start specs held rib)).Sound engine fixed :=
    @foldl_of_throughout _ _ (step options engine fixed childInherit)
      (fun state => state.Sound engine fixed) _ (fun _ _ sound now => step_sound sound now) _
      (start_sound specs held rib) actions steady
  exact sound.prefersEarlier

end Relaying

namespace Relaying.Example

def home : Name := ⟨[.generic [104]]⟩

def held : Held where
  contexts := [⟨home, []⟩]
  hasRole ns := ns = home
  ownDevices := []
  mine := none

def options : RelayOptions := ⟨true, fun _ => ""⟩

def relay (label : String) (preference : UInt32) : PeerSpec :=
  ⟨label, none, none, [label], none, none, some ⟨.user, preference⟩⟩

def admitted (id : Nat) : Admitted := ⟨⟨.replicate 32 0⟩, [], some ⟨id⟩, none, none, []⟩

abbrev sampleStep := step options hashEngine 255 1

def one : Relaying (HashMap (Name × Nat × Nat) RibRoute) := start [relay "a" 5] held ∅

/-- A more preferred relay is added while the first one is linked. -/
def preferred : List RelayAction :=
  [.up (admitted 0) true .link, .addPeer (relay "b" 1), .up (admitted 1) true .link]

theorem both_at_cost_zero : ¬ (preferred.foldl sampleStep one).PrefersEarlier hashEngine 255 := by
  intro prefers
  rcases prefers ⟨⟨1⟩, some ⟨1⟩, true⟩ (by decide +kernel) ⟨⟨0⟩, some ⟨0⟩, true⟩ (by decide +kernel)
    rfl rfl 0 1 (⟨1⟩, relay "b" 1) (⟨0⟩, relay "a" 5) (by with_unfolding_all rfl)
    (by with_unfolding_all rfl) (by decide) rfl rfl home (by decide +kernel) (by decide +kernel) with
    ⟨cheaper, dearer, first, second, less⟩
  rw [show costOn hashEngine 255 (preferred.foldl sampleStep one).rib ⟨1⟩ home = some 0 by
    decide +kernel] at first
  rw [show costOn hashEngine 255 (preferred.foldl sampleStep one).rib ⟨0⟩ home = some 0 by
    decide +kernel] at second
  cases first
  cases second
  exact lt_irrefl _ less

/-- A less preferred relay is added, and its link comes up and goes down. -/
def standby : List RelayAction :=
  [.up (admitted 0) true .link, .addPeer (relay "b" 7), .up (admitted 1) true .link,
    .syncNamespaceRelays, .down ⟨1⟩, .removePeer ⟨1⟩, .addPeer (relay "c" 9),
    .up (admitted 2) true .link]

theorem standby_prefers_earlier : (standby.foldl sampleStep one).PrefersEarlier hashEngine 255 :=
  prefers_earlier [relay "a" 5] held ∅ standby (by decide +kernel)

end Relaying.Example

end NdnExt.Link.Relays
