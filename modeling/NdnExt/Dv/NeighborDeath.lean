import NdnExt.Dv.Sync
import NdnExt.Dv.RibOps
import NdnExt.Lib.Run

/-! The fetcher and the dead-neighbour task on the shared Advertisement Sync state and RIB. -/

namespace NdnExt.Dv

open NdnExt.Lib

/-- `dead` is what is left of one round of the dead-neighbour task, `forgotten` the neighbour
between its two steps. `fetched` records, for the proofs only, the last advertisement applied. -/
structure NodeState (S : Type) where
  sync : DvSync S
  rib : DvRib
  channel : List NeighborAdvance
  fetcher : Fetcher
  dead : List Name
  forgotten : Option Name
  fetched : Name → Option (Version × Advertisement)

inductive NodeEvent where
  | syncInterest (entries : List SvsEntry) (incomingFace : Nat) (kind : SyncKind) (now : Nat)
  | startFetch
  | fetchFailed
  | applyAdvertisement (advertisement : Advertisement)
  | markFetched
  | tick (now deadInterval : Nat)
  | forgetNeighbor
  | removeNeighbor

variable {S : Type} (api : SvsLocal S)

def NodeState.init (svs : S) : NodeState S where
  sync := ⟨api.router svs, svs, FetchTracker.default, ∅⟩
  rib := DvRib.new (api.router svs)
  channel := []
  fetcher := .idle
  dead := []
  forgotten := none
  fetched _ := none

def nodeStep (node : NodeState S) : NodeEvent → Option (NodeState S)
  | .syncInterest entries incomingFace kind now =>
    let (sync, receipt) := node.sync.processSyncInterest api entries incomingFace kind now
    some { node with sync := sync, channel := node.channel ++ receipt.fetches }
  | .startFetch =>
    match node.fetcher, node.channel with
    | .idle, queued :: rest =>
      let (sync, adv) := node.sync.startFetch api queued.name
      some { node with sync := sync, channel := rest,
                       fetcher := (adv.map Fetcher.fetching).getD .idle }
    | _, _ => none
  | .fetchFailed =>
    match node.fetcher with
    | .fetching _ => some { node with fetcher := .idle }
    | _ => none
  | .applyAdvertisement advertisement =>
    match node.fetcher with
    | .fetching adv =>
      some { node with
        rib := (node.rib.applyAdvertisement adv.name advertisement).1
        fetcher := .applied adv
        fetched := Function.update node.fetched adv.name (some (adv.version, advertisement)) }
    | _ => none
  | .markFetched =>
    match node.fetcher with
    | .applied adv => some { node with sync := node.sync.markFetched adv, fetcher := .idle }
    | _ => none
  | .tick now deadInterval =>
    match node.dead, node.forgotten with
    | [], none => some { node with dead := node.sync.deadNeighbors now deadInterval }
    | _, _ => none
  | .forgetNeighbor =>
    match node.dead, node.forgotten with
    | name :: rest, none =>
      some { node with sync := node.sync.forgetNeighbor name, dead := rest,
                       forgotten := some name }
    | _, _ => none
  | .removeNeighbor =>
    match node.forgotten with
    | some name =>
      some { node with rib := (node.rib.removeNeighbor name).1, forgotten := none }
    | none => none

/-- The RIB holds, for `name`, exactly the costs of `advertisement`. -/
def NodeState.HoldsFor (node : NodeState S) (name : Name) (advertisement : Advertisement) : Prop :=
  ∀ destination,
    node.rib.reach destination name = recorded node.rib.selfName advertisement destination

/-- No fetch of `name` is under way and the dead-neighbour task is not between its steps for it. -/
def NodeState.Quiet (node : NodeState S) (name : Name) : Prop :=
  ¬ node.fetcher.of name ∧ node.forgotten ≠ some name

/-- No route via `name` is stranded: what is recorded as applied is held, and what is held can
be reported dead. -/
structure NodeState.Kept (node : NodeState S) (name : Name) : Prop where
  held : ∀ version, api.neighbor node.sync.svs name = some version →
    node.sync.fetches.applied.lookup name = some version →
      ∃ advertisement, node.fetched name = some (version, advertisement) ∧
        node.HoldsFor name advertisement
  bound : ∀ destination cost, node.rib.reach destination name = some cost →
    ∃ binding, node.sync.faces.lookup name = some binding ∧
      ∀ now deadInterval, now - binding.lastSeen ≥ deadInterval →
        name ∈ node.sync.deadNeighbors now deadInterval

/-- The two tasks do not get in each other's way: an advertisement is applied only while its
neighbour has a face and is not being removed, and a neighbour is not forgotten between the
application of its advertisement and the mark. -/
def Undisturbed (node : NodeState S) : NodeEvent → Prop
  | .applyAdvertisement _ => ∀ adv ∈ node.fetcher.arriving,
      adv.name ∈ node.sync.faces ∧ node.forgotten ≠ some adv.name
  | .forgetNeighbor => ∀ adv ∈ node.fetcher.unmarked, node.dead.head? ≠ some adv.name
  | _ => True

instance (node : NodeState S) (event : NodeEvent) : Decidable (Undisturbed node event) :=
  match event with
  | .applyAdvertisement _ => inferInstanceAs (Decidable (∀ adv ∈ node.fetcher.arriving,
      adv.name ∈ node.sync.faces ∧ node.forgotten ≠ some adv.name))
  | .forgetNeighbor => inferInstanceAs (Decidable (∀ adv ∈ node.fetcher.unmarked,
      node.dead.head? ≠ some adv.name))
  | .syncInterest _ _ _ _ => isTrue trivial
  | .startFetch => isTrue trivial
  | .fetchFailed => isTrue trivial
  | .markFetched => isTrue trivial
  | .tick _ _ => isTrue trivial
  | .removeNeighbor => isTrue trivial

/-- What undisturbed tasks keep. -/
structure Orderly (node : NodeState S) : Prop where
  self : node.rib.selfName = node.sync.router
  tracked : node.rib.Tracked
  applied : ∀ name version, node.sync.fetches.applied.lookup name = some version →
    node.forgotten ≠ some name ∧
      ((∃ adv, node.fetcher = .applied adv ∧ adv.name = name) ∨
        ∃ advertisement, node.fetched name = some (version, advertisement) ∧
          node.HoldsFor name advertisement)
  unmarked : ∀ adv, node.fetcher = .applied adv → node.forgotten ≠ some adv.name ∧
    ∃ advertisement, node.fetched adv.name = some (adv.version, advertisement) ∧
      node.HoldsFor adv.name advertisement
  bound : ∀ name destination cost, name ≠ node.sync.router →
    node.rib.reach destination name = some cost →
      name ∈ node.sync.faces ∨ node.forgotten = some name

theorem orderly_init (svs : S) : Orderly (NodeState.init api svs) := by
  constructor
  · rfl
  · exact tracked_new _
  · intro name version found
    simp [NodeState.init, FetchTracker.default] at found
  · intro adv found
    cases found
  · intro name destination cost other reached
    exact absurd (reach_new.mp reached).2.1 other

variable {node : NodeState S}

theorem Orderly.apply (orderly : Orderly node) {adv : NeighborAdvance}
    (fetching : node.fetcher = .fetching adv) (advertisement : Advertisement)
    (bound : adv.name ∈ node.sync.faces) (kept : node.forgotten ≠ some adv.name) :
    Orderly { node with
      rib := (node.rib.applyAdvertisement adv.name advertisement).1
      fetcher := .applied adv
      fetched := Function.update node.fetched adv.name (some (adv.version, advertisement)) } := by
  constructor
  · exact orderly.self
  · exact tracked_applyAdvertisement orderly.tracked adv.name advertisement
  · intro name version found
    rcases orderly.applied name version found with ⟨apart, current⟩
    refine ⟨apart, ?_⟩
    by_cases same : adv.name = name
    · exact Or.inl ⟨adv, rfl, same⟩
    · rcases current with ⟨other, applied, -⟩ | ⟨before, fetched, holds⟩
      · rw [fetching] at applied
        cases applied
      · refine Or.inr ⟨before, (Function.update_of_ne (Ne.symm same) _ _).trans fetched, ?_⟩
        intro destination
        rw [selfName_applyAdvertisement, reach_applyAdvertisement, if_neg (Ne.symm same)]
        exact holds destination
  · intro adv' found
    cases found
    refine ⟨kept, advertisement, Function.update_self _ _ _, ?_⟩
    intro destination
    rw [selfName_applyAdvertisement, reach_applyAdvertisement, if_pos rfl]
  · intro name destination cost other reached
    by_cases same : name = adv.name
    · exact Or.inl (same ▸ bound)
    · rw [reach_applyAdvertisement, if_neg same] at reached
      exact orderly.bound name destination cost other reached

theorem Orderly.mark (orderly : Orderly node) {adv : NeighborAdvance}
    (applied : node.fetcher = .applied adv) :
    Orderly { node with sync := node.sync.markFetched adv, fetcher := .idle } := by
  constructor
  · exact orderly.self
  · exact orderly.tracked
  · intro name version found
    simp only [DvSync.markFetched, FetchTracker.markApplied, HashMap.lookup_insert_eq] at found
    split at found
    · cases found
      subst name
      rcases orderly.unmarked adv applied with ⟨apart, current⟩
      exact ⟨apart, Or.inr current⟩
    · rcases orderly.applied name version found with ⟨apart, current⟩
      refine ⟨apart, ?_⟩
      rcases current with ⟨other, same, target⟩ | current
      · rw [applied] at same
        cases same
        exact absurd target.symm ‹_›
      · exact Or.inr current
  · intro adv' found
    cases found
  · exact orderly.bound

theorem Orderly.forget (orderly : Orderly node) {name : Name} {rest : List Name}
    (idle : node.forgotten = none)
    (marked : ∀ adv, node.fetcher = .applied adv → adv.name ≠ name) :
    Orderly { node with sync := node.sync.forgetNeighbor name, dead := rest,
                        forgotten := some name } := by
  constructor
  · exact orderly.self
  · exact orderly.tracked
  · intro other version found
    simp only [DvSync.forgetNeighbor, FetchTracker.forget, HashMap.lookup_erase_eq] at found
    split at found
    · cases found
    · refine ⟨?_, (orderly.applied other version found).2⟩
      intro same
      cases same
      contradiction
  · intro adv applied
    refine ⟨?_, (orderly.unmarked adv applied).2⟩
    intro same
    exact marked adv applied (Option.some.inj same).symm
  · intro other destination cost foreign reached
    by_cases same : other = name
    · exact Or.inr (congrArg some same.symm)
    · rcases orderly.bound other destination cost foreign reached with bound | removing
      · exact Or.inl (AList.mem_erase.mpr ⟨same, bound⟩)
      · rw [idle] at removing
        cases removing

theorem Orderly.remove (orderly : Orderly node) {name : Name}
    (forgotten : node.forgotten = some name) :
    Orderly { node with rib := (node.rib.removeNeighbor name).1, forgotten := none } := by
  have others : ∀ other, other ≠ name → ∀ advertisement, node.HoldsFor other advertisement →
      ∀ destination, (node.rib.removeNeighbor name).1.reach destination other =
        recorded (node.rib.removeNeighbor name).1.selfName advertisement destination := by
    intro other differs advertisement holds destination
    rw [selfName_removeNeighbor, reach_removeNeighbor orderly.tracked, if_neg differs]
    exact holds destination
  constructor
  · exact (selfName_removeNeighbor node.rib name).trans orderly.self
  · exact tracked_removeNeighbor orderly.tracked name
  · intro other version found
    rcases orderly.applied other version found with ⟨apart, current⟩
    refine ⟨by simp, ?_⟩
    rcases current with pending | ⟨advertisement, fetched, holds⟩
    · exact Or.inl pending
    · refine Or.inr ⟨advertisement, fetched, others other ?_ advertisement holds⟩
      intro same
      exact apart (same ▸ forgotten)
  · intro adv applied
    rcases orderly.unmarked adv applied with ⟨apart, advertisement, fetched, holds⟩
    refine ⟨by simp, advertisement, fetched, others adv.name ?_ advertisement holds⟩
    intro same
    exact apart (same ▸ forgotten)
  · intro other destination cost foreign reached
    rw [reach_removeNeighbor orderly.tracked] at reached
    split at reached
    · cases reached
    · rcases orderly.bound other destination cost foreign reached with bound | removing
      · exact Or.inl bound
      · rw [forgotten] at removing
        cases removing
        contradiction

/-- Steps that leave the RIB, the applied versions and the two-step tasks alone. -/
theorem Orderly.frame (orderly : Orderly node) {next : NodeState S}
    (router : next.sync.router = node.sync.router) (rib : next.rib = node.rib)
    (applied : next.sync.fetches.applied = node.sync.fetches.applied)
    (faces : ∀ name ∈ node.sync.faces, name ∈ next.sync.faces)
    (forgotten : next.forgotten = node.forgotten) (fetched : next.fetched = node.fetched)
    (pending : ∀ adv, next.fetcher = .applied adv ↔ node.fetcher = .applied adv) :
    Orderly next := by
  have holds : ∀ name advertisement,
      next.HoldsFor name advertisement ↔ node.HoldsFor name advertisement := by
    intro name advertisement
    simp only [NodeState.HoldsFor, rib]
  constructor
  · rw [rib, router, orderly.self]
  · rw [rib]
    exact orderly.tracked
  · rw [applied, forgotten, fetched]
    simp only [pending, holds]
    exact orderly.applied
  · rw [forgotten, fetched]
    simp only [pending, holds]
    exact orderly.unmarked
  · rw [rib, forgotten, router]
    intro name destination cost foreign reached
    exact (orderly.bound name destination cost foreign reached).imp_left (faces name)

theorem Orderly.step (orderly : Orderly node) {event : NodeEvent} {next : NodeState S}
    (undisturbed : Undisturbed node event) (taken : nodeStep api node event = some next) :
    Orderly next := by
  cases event with
  | syncInterest entries incomingFace kind now =>
    cases taken
    rcases node.sync.processSyncInterest_keeps api entries incomingFace kind now with
      ⟨router, applied, faces⟩
    exact orderly.frame router rfl applied faces rfl rfl (fun _ => Iff.rfl)
  | startFetch =>
    simp only [nodeStep] at taken
    split at taken
    · rename_i queued rest idle _
      cases taken
      have pending : ∀ adv,
          ((node.sync.startFetch api queued.name).2.map Fetcher.fetching).getD .idle =
            .applied adv ↔ node.fetcher = .applied adv := by
        intro adv
        rw [idle]
        cases (node.sync.startFetch api queued.name).2 <;> simp
      exact orderly.frame rfl rfl (FetchTracker.applied_start _ _ _ _)
        (fun _ bound => bound) rfl rfl pending
    · cases taken
  | fetchFailed =>
    simp only [nodeStep] at taken
    split at taken
    · rename_i adv fetching
      cases taken
      have pending : ∀ adv, Fetcher.idle = .applied adv ↔ node.fetcher = .applied adv := by
        intro adv
        rw [fetching]
        simp
      exact orderly.frame rfl rfl rfl (fun _ bound => bound) rfl rfl pending
    · cases taken
  | applyAdvertisement advertisement =>
    simp only [nodeStep] at taken
    split at taken
    · rename_i adv fetching
      cases taken
      rcases undisturbed adv (by rw [fetching]; rfl) with ⟨bound, kept⟩
      exact orderly.apply fetching advertisement bound kept
    · cases taken
  | markFetched =>
    simp only [nodeStep] at taken
    split at taken
    · rename_i adv applied
      cases taken
      exact orderly.mark applied
    · cases taken
  | tick now deadInterval =>
    simp only [nodeStep] at taken
    split at taken
    · cases taken
      exact orderly.frame rfl rfl rfl (fun _ bound => bound) rfl rfl (fun _ => Iff.rfl)
    · cases taken
  | forgetNeighbor =>
    simp only [nodeStep] at taken
    split at taken
    · rename_i name rest dead idle
      cases taken
      apply orderly.forget idle
      intro adv applied same
      apply undisturbed adv (by rw [applied]; rfl)
      rw [dead, same]
      rfl
    · cases taken
  | removeNeighbor =>
    simp only [nodeStep] at taken
    split at taken
    · rename_i name forgotten
      cases taken
      exact orderly.remove forgotten
    · cases taken

theorem Orderly.kept (orderly : Orderly node) {name : Name} (neighbour : name ≠ node.sync.router)
    (quiet : node.Quiet name) : node.Kept api name := by
  constructor
  · intro version _ applied
    rcases (orderly.applied name version applied).2 with ⟨adv, pending, target⟩ | current
    · exact absurd (show node.fetcher.of name by rw [pending]; exact target) quiet.1
    · exact current
  · intro destination cost reached
    rcases orderly.bound name destination cost neighbour reached with bound | removing
    · rcases HashMap.mem_iff_lookup.mp bound with ⟨binding, found⟩
      exact ⟨binding, found, fun now deadInterval old =>
        DvSync.mem_deadNeighbors.mpr ⟨binding, found, old⟩⟩
    · exact absurd removing quiet.2

/-- In every run in which the tasks do not get in each other's way, no neighbour's routes are
stranded while it is quiet. -/
theorem death_strands_nothing {svs : S}
    (reaches : System.Reaches (nodeStep api) Undisturbed (NodeState.init api svs) node)
    {name : Name} (neighbour : name ≠ node.sync.router) (quiet : node.Quiet name) :
    node.Kept api name := by
  have orderly : Orderly node := by
    apply reaches.invariant Orderly (orderly_init api svs)
    intro before event after holds undisturbed taken
    exact holds.step api undisturbed taken
  exact orderly.kept api neighbour quiet

/-! Router `a` hears of `d` from its neighbour `b`, which falls silent meanwhile. -/

def helloFromB : NodeEvent := .syncInterest [⟨Name.single 98, 1, 1⟩] 7 .active 0

def reachD : NodeEvent :=
  .applyAdvertisement ⟨[⟨Name.single 100, Name.single 100, 1, 16⟩]⟩

def routerA : NodeState StateVector :=
  NodeState.init stateVector (StateVector.new (Name.single 97))

/-- `b` is dropped before its advertisement arrives: its route stays, its face does not. -/
def routeWithoutFace : List NodeEvent :=
  [helloFromB, .startFetch, .tick 60 50, .forgetNeighbor, .removeNeighbor, reachD, .markFetched]

/-- The advertisement is applied between the two steps of the drop: it counts as applied, but
its route is gone. -/
def appliedWithoutRoute : List NodeEvent :=
  [helloFromB, .startFetch, .tick 60 50, .forgetNeighbor, reachD, .markFetched, .removeNeighbor]

theorem death_strands_routes :
    (¬ ∀ node, System.Reachable (nodeStep stateVector) routerA node →
      ∀ name, name ≠ node.sync.router → node.Quiet name → node.Kept stateVector name) ∧
    (∃ node, System.Reachable (nodeStep stateVector) routerA node ∧ node.Quiet (Name.single 98) ∧
      node.rib.reach (Name.single 100) (Name.single 98) = some 2 ∧
      node.sync.neighborFace (Name.single 98) = none) ∧
    (∃ node, System.Reachable (nodeStep stateVector) routerA node ∧ node.Quiet (Name.single 98) ∧
      stateVector.neighbor node.sync.svs (Name.single 98) = some (1, 1) ∧
      node.sync.fetches.applied.lookup (Name.single 98) = some (1, 1) ∧
      node.rib.reach (Name.single 100) (Name.single 98) = none) := by
  have faceless : ∃ node ∈ System.runAllowed (nodeStep stateVector) (fun _ _ => True) routerA
      routeWithoutFace, node.rib.reach (Name.single 100) (Name.single 98) = some 2 ∧
        node.sync.neighborFace (Name.single 98) = none ∧ node.forgotten = none ∧
        node.fetcher = .idle ∧ node.sync.router = Name.single 97 := by decide
  have routeless : ∃ node ∈ System.runAllowed (nodeStep stateVector) (fun _ _ => True) routerA
      appliedWithoutRoute, node.rib.reach (Name.single 100) (Name.single 98) = none ∧
        stateVector.neighbor node.sync.svs (Name.single 98) = some (1, 1) ∧
        node.sync.fetches.applied.lookup (Name.single 98) = some (1, 1) ∧
        node.forgotten = none ∧ node.fetcher = .idle := by decide
  rcases faceless with ⟨node, run, reached, unbound, idle, fetcher, router⟩
  rcases routeless with ⟨node', run', unreached, newest, applied, idle', fetcher'⟩
  have reachable := System.reaches_runAllowed System.Reaches.start run
  have quiet : node.Quiet (Name.single 98) := by
    refine ⟨?_, by rw [idle]; simp⟩
    rw [fetcher]
    exact id
  have quiet' : node'.Quiet (Name.single 98) := by
    refine ⟨?_, by rw [idle']; simp⟩
    rw [fetcher']
    exact id
  refine ⟨?_, ⟨node, reachable, quiet, reached, unbound⟩, ⟨node', ?_, quiet', newest, applied,
    unreached⟩⟩
  · intro all
    have kept := all node reachable (Name.single 98) (by rw [router]; decide) quiet
    rcases kept.bound _ _ reached with ⟨binding, bound, -⟩
    simp [DvSync.neighborFace, bound] at unbound
  · exact System.reaches_runAllowed System.Reaches.start run'

theorem death_strands_nothing_hello :
    ∃ node, System.runAllowed (nodeStep stateVector) Undisturbed routerA
        [helloFromB, .startFetch, reachD, .markFetched] = some node ∧
      node.rib.reach (Name.single 100) (Name.single 98) = some 2 ∧
      node.Kept stateVector (Name.single 98) := by
  have outcome : ∃ node ∈ System.runAllowed (nodeStep stateVector) Undisturbed routerA
      [helloFromB, .startFetch, reachD, .markFetched],
        node.rib.reach (Name.single 100) (Name.single 98) = some 2 ∧ node.forgotten = none ∧
          node.fetcher = .idle ∧ node.sync.router = Name.single 97 := by decide
  rcases outcome with ⟨node, run, reached, idle, fetcher, router⟩
  refine ⟨node, run, reached, ?_⟩
  apply death_strands_nothing stateVector (System.reaches_runAllowed System.Reaches.start run)
  · rw [router]
    decide
  · refine ⟨?_, by rw [idle]; simp⟩
    rw [fetcher]
    exact id

end NdnExt.Dv
