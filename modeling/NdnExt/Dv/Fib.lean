import NdnExt.Dv.Prefix
import NdnExt.Dv.RibOps

/-! The FIB computation: the RIB joined with the prefix table and the faces of
the neighbours. -/

namespace NdnExt.Dv

open NdnExt.Lib List HashMap

structure NextHop where
  cost : Nat
  face : Nat
  deriving DecidableEq

namespace NextHop

def orderKey (hop : NextHop) : ℕ ×ₗ ℕ := toLex (hop.cost, hop.face)

theorem orderKey_injective : Function.Injective orderKey := by
  intro left right same
  have parts := Prod.mk.inj (toLex.injective same)
  cases left
  cases right
  simp only [NextHop.mk.injEq]
  exact parts

instance : LinearOrder NextHop := LinearOrder.lift' orderKey orderKey_injective

end NextHop

structure FibUpdate where
  prefixName : Name
  nextHops : List NextHop
  deriving DecidableEq

def collectNextHops (costs : HashMap Name Nat) (faceForNeighbor : Name → Option Nat) :
    List NextHop :=
  costs.pairs.filterMap (fun (neighbor, cost) =>
    if cost ≥ infinity then none
    else (faceForNeighbor neighbor).map (fun face => { cost := cost, face := face }))

def mergeInto (out : HashMap Name (List NextHop)) (route : Name) (base : List NextHop)
    (extra : Nat) : HashMap Name (List NextHop) :=
  let added := base.map (fun nh => { cost := saturatingAddU32 nh.cost extra, face := nh.face })
  out.insert route ((out.lookup route).getD [] ++ added)

/-- `<network>/32=DV/32=PFS/<router>`. -/
def prefixSyncRoute (network router : Name) : Name :=
  router.components.foldl Name.appendComponent
    ((network.appendComponent (NameComponent.keyword [68, 86])).appendComponent
      (NameComponent.keyword [80, 70, 83]))

variable (prefixTable : PrefixTable) (network : Name) (faceForNeighbor : Name → Option Nat)

/-- The loop body over the snapshot of `compute_fib_updates`. -/
def mergeEntry (selfName : Name) (out : HashMap Name (List NextHop)) (entry : RibEntry) :
    HashMap Name (List NextHop) :=
  if entry.destination = selfName then out
  else if entry.lowest1 ≥ infinity then out
  else
    let nextHopsToRouter := collectNextHops entry.costs faceForNeighbor
    if nextHopsToRouter.isEmpty then out
    else
      (prefixTable.prefixesForRouter entry.destination).foldl
        (fun out item => mergeInto out item.1 nextHopsToRouter item.2)
        (mergeInto out (prefixSyncRoute network entry.destination) nextHopsToRouter 0)

def mergedRows (rib : DvRib) : HashMap Name (List NextHop) :=
  rib.snapshot.foldl (mergeEntry prefixTable network faceForNeighbor rib.selfName) ∅

def sortedUpdates (rows : HashMap Name (List NextHop)) : List FibUpdate :=
  (rows.pairs.map (fun (name, nextHops) =>
      { prefixName := name, nextHops := nextHops.insertionSort (· ≤ ·) }))
    |>.insertionSort (fun a b => a.prefixName ≤ b.prefixName)

def computeFibUpdates (rib : DvRib) : List FibUpdate :=
  sortedUpdates (mergedRows prefixTable network faceForNeighbor rib)

/-- The routes that lead to an exit router, with the cost to add to each. -/
def routesTo (destination : Name) : List (Name × Nat) :=
  (prefixSyncRoute network destination, 0) :: prefixTable.prefixesForRouter destination

theorem mergeEntry_eq (selfName : Name) (out : HashMap Name (List NextHop)) (entry : RibEntry)
    (reachable : entry.lowest1 < infinity) :
    mergeEntry prefixTable network faceForNeighbor selfName out entry =
      if entry.destination = selfName ∨ collectNextHops entry.costs faceForNeighbor = [] then out
      else (routesTo prefixTable network entry.destination).foldl
        (fun out route => mergeInto out route.1 (collectNextHops entry.costs faceForNeighbor) route.2)
        out := by
  unfold mergeEntry
  by_cases own : entry.destination = selfName
  · simp [own]
  · simp only [if_neg (not_le.mpr reachable), own, false_or, List.isEmpty_iff]
    rfl

/-- Entries beyond `INFINITY` contribute nothing, so only the advertised ones matter. -/
theorem mergedRows_eq (rib : DvRib) :
    mergedRows prefixTable network faceForNeighbor rib =
      (advertised rib).foldl (mergeEntry prefixTable network faceForNeighbor rib.selfName) ∅ := by
  unfold mergedRows advertised
  rw [foldl_filter]
  congr 1
  funext out entry
  by_cases reachable : entry.lowest1 < infinity
  · simp [reachable]
  · simp [mergeEntry, reachable, not_lt.mp reachable]

theorem lookup_mergeInto (out : HashMap Name (List NextHop)) (route : Name) (base : List NextHop)
    (extra : Nat) (key : Name) :
    (mergeInto out route base extra).lookup key =
      if key = route then
        some ((out.lookup route).getD [] ++
          base.map (fun nh => { cost := saturatingAddU32 nh.cost extra, face := nh.face }))
      else out.lookup key := lookup_insert_eq _ _ _ _

/-- The next hops of one route, none when the route is absent. -/
def rowOf (rows : HashMap Name (List NextHop)) (route : Name) : List NextHop :=
  (rows.lookup route).getD []

variable {base : List NextHop} {target : Name}

theorem mem_mergeRoutes {routes : List (Name × Nat)}
    {out : HashMap Name (List NextHop)} {hop : NextHop} :
    hop ∈ rowOf (routes.foldl (fun out route => mergeInto out route.1 base route.2) out) target ↔
      hop ∈ rowOf out target ∨ ∃ extra, (target, extra) ∈ routes ∧
        ∃ nh ∈ base, hop = { cost := saturatingAddU32 nh.cost extra, face := nh.face } := by
  induction routes generalizing out with
  | nil => simp
  | cons route tail ih =>
    rw [foldl_cons, ih, rowOf, lookup_mergeInto]
    rcases route with ⟨name, extra⟩
    by_cases same : target = name
    · subst same
      simp only [if_true, Option.getD_some, mem_append, mem_map, mem_cons,
        Prod.mk.injEq, true_and, or_and_right, exists_or, exists_eq_left, or_assoc, rowOf,
        @eq_comm _ hop]
    · simp only [mem_cons, Prod.mk.injEq, same, false_and, false_or]
      rfl

/-- What the snapshot of the RIB lists as next hops of a route: a usable entry of another router,
a neighbour with a face and a finite cost to it, and one of that router's routes. -/
def ListedHop (rib : DvRib) (target : Name) (hop : NextHop) : Prop :=
  ∃ entry, rib.entries.lookup entry.destination = some entry ∧
    entry.destination ≠ rib.selfName ∧ entry.lowest1 < infinity ∧
    ∃ neighbor cost face extra, entry.finiteCost neighbor = some cost ∧
      faceForNeighbor neighbor = some face ∧
      (target, extra) ∈ routesTo prefixTable network entry.destination ∧
      hop = { cost := saturatingAddU32 cost extra, face := face }

theorem mem_collectNextHops {entry : RibEntry} {hop : NextHop} :
    hop ∈ collectNextHops entry.costs faceForNeighbor ↔
      ∃ neighbor, entry.finiteCost neighbor = some hop.cost ∧
        faceForNeighbor neighbor = some hop.face := by
  simp only [collectNextHops, mem_filterMap, Prod.exists, finiteCost_eq_some]
  constructor
  · intro found
    rcases found with ⟨neighbor, cost, member, kept⟩
    split at kept
    · cases kept
    · rcases Option.map_eq_some_iff.mp kept with ⟨face, bound, same⟩
      subst same
      exact ⟨neighbor, ⟨member, not_le.mp ‹_›⟩, bound⟩
  · intro found
    rcases found with ⟨neighbor, ⟨member, finite⟩, bound⟩
    exact ⟨neighbor, hop.cost, member, by simp [not_le.mpr finite, bound]⟩

theorem mem_mergeEntry {selfName : Name} {out : HashMap Name (List NextHop)} {entry : RibEntry}
    (reachable : entry.lowest1 < infinity) {hop : NextHop} :
    hop ∈ rowOf (mergeEntry prefixTable network faceForNeighbor selfName out entry) target ↔
      hop ∈ rowOf out target ∨ entry.destination ≠ selfName ∧
        ∃ extra, (target, extra) ∈ routesTo prefixTable network entry.destination ∧
          ∃ nh ∈ collectNextHops entry.costs faceForNeighbor,
            hop = { cost := saturatingAddU32 nh.cost extra, face := nh.face } := by
  rw [mergeEntry_eq _ _ _ _ _ _ reachable]
  by_cases own : entry.destination = selfName
  · simp [own]
  · by_cases empty : collectNextHops entry.costs faceForNeighbor = []
    · simp [empty]
    · rw [if_neg (not_or.mpr ⟨own, empty⟩), mem_mergeRoutes]
      simp [own]

theorem mem_mergedRows {rib : DvRib} {hop : NextHop} :
    hop ∈ rowOf (mergedRows prefixTable network faceForNeighbor rib) target ↔
      ListedHop prefixTable network faceForNeighbor rib target hop := by
  have scan : ∀ (entries : List RibEntry) (out : HashMap Name (List NextHop)),
      (∀ entry ∈ entries, entry.lowest1 < infinity) →
      (hop ∈ rowOf (entries.foldl
          (mergeEntry prefixTable network faceForNeighbor rib.selfName) out) target ↔
        hop ∈ rowOf out target ∨ ∃ entry ∈ entries, entry.destination ≠ rib.selfName ∧
          ∃ extra, (target, extra) ∈ routesTo prefixTable network entry.destination ∧
            ∃ nh ∈ collectNextHops entry.costs faceForNeighbor,
              hop = { cost := saturatingAddU32 nh.cost extra, face := nh.face }) := by
    intro entries
    induction entries with
    | nil => simp
    | cons entry tail ih =>
      intro out reachable
      rw [foldl_cons, ih _ (fun other member => reachable other (mem_cons_of_mem _ member)),
        mem_mergeEntry _ _ _ (reachable entry mem_cons_self)]
      simp only [mem_cons, or_and_right, exists_or, exists_eq_left, or_assoc]
  rw [mergedRows_eq, scan _ _ (fun entry member => (mem_advertised.mp member).2)]
  constructor
  · intro listed
    rcases listed with absent | ⟨entry, member, foreign, extra, route, nh, usable, same⟩
    · simp [rowOf] at absent
    · rcases (mem_collectNextHops faceForNeighbor).mp usable with ⟨neighbor, finite, bound⟩
      rcases mem_advertised.mp member with ⟨found, reachable⟩
      exact ⟨entry, found, foreign, reachable, neighbor, nh.cost, nh.face, extra, finite, bound,
        route, same⟩
  · intro listed
    rcases listed with ⟨entry, found, foreign, reachable, neighbor, cost, face, extra, finite,
      bound, route, same⟩
    refine Or.inr ⟨entry, mem_advertised.mpr ⟨found, reachable⟩, foreign, extra, route,
      { cost := cost, face := face }, ?_, same⟩
    exact (mem_collectNextHops faceForNeighbor).mpr ⟨neighbor, finite, bound⟩

section order

/-! The rows are built in the iteration order of hash maps; sorting makes them the same. -/

/-- Two row maps that differ at most in the order within their rows. -/
def Shuffled (left right : HashMap Name (List NextHop)) : Prop :=
  ∀ key, Option.Rel List.Perm (left.lookup key) (right.lookup key)

variable {left right : HashMap Name (List NextHop)}

theorem Shuffled.mergeInto
    (shuffled : Shuffled left right) {base' : List NextHop} (perm : base.Perm base')
    (route : Name) (extra : Nat) :
    Shuffled (mergeInto left route base extra) (mergeInto right route base' extra) := by
  intro key
  rw [lookup_mergeInto, lookup_mergeInto]
  split
  · apply Option.Rel.some
    apply List.Perm.append _ (perm.map _)
    have rows := shuffled route
    cases first : left.lookup route with
    | none =>
      rw [first] at rows
      cases second : right.lookup route with
      | none => rfl
      | some row => rw [second] at rows; cases rows
    | some row =>
      rw [first] at rows
      cases second : right.lookup route with
      | none => rw [second] at rows; cases rows
      | some row' =>
        rw [second] at rows
        cases rows
        assumption
  · exact shuffled key

theorem Shuffled.mergeRoutes
    (shuffled : Shuffled left right) {base' : List NextHop} (perm : base.Perm base')
    (routes : List (Name × Nat)) :
    Shuffled (routes.foldl (fun out route => Dv.mergeInto out route.1 base route.2) left)
      (routes.foldl (fun out route => Dv.mergeInto out route.1 base' route.2) right) := by
  induction routes generalizing left right with
  | nil => exact shuffled
  | cons route tail ih => exact ih (shuffled.mergeInto perm route.1 route.2)

theorem collectNextHops_perm {left right : RibEntry}
    (same : ∀ hop, left.finiteCost hop = right.finiteCost hop) :
    (collectNextHops left.costs faceForNeighbor).Perm
      (collectNextHops right.costs faceForNeighbor) := by
  have finite : ∀ costs : HashMap Name Nat, collectNextHops costs faceForNeighbor =
      (costs.retain (fun _ cost => cost < infinity)).pairs.filterMap (fun (neighbor, cost) =>
        (faceForNeighbor neighbor).map (fun face => { cost := cost, face := face })) := by
    intro costs
    rw [pairs_retain, filterMap_filter]
    unfold collectNextHops
    congr 1
    funext item
    by_cases below : item.2 < infinity
    · simp [below, not_le.mpr below]
    · simp [below, not_lt.mp below]
  rw [finite, finite]
  apply List.Perm.filterMap
  apply pairs_perm
  intro hop
  rw [lookup_retain, lookup_retain]
  exact same hop

theorem Shuffled.mergeEntry
    (shuffled : Shuffled left right) {entry entry' : RibEntry} (selfName : Name)
    (target : entry.destination = entry'.destination)
    (reachable : entry.lowest1 < infinity) (reachable' : entry'.lowest1 < infinity)
    (same : ∀ hop, entry.finiteCost hop = entry'.finiteCost hop) :
    Shuffled (mergeEntry prefixTable network faceForNeighbor selfName left entry)
      (mergeEntry prefixTable network faceForNeighbor selfName right entry') := by
  have perm := collectNextHops_perm faceForNeighbor same
  have empty : collectNextHops entry.costs faceForNeighbor = [] ↔
      collectNextHops entry'.costs faceForNeighbor = [] :=
    ⟨fun none => perm_nil.mp (none ▸ perm.symm), fun none => perm_nil.mp (none ▸ perm)⟩
  rw [mergeEntry_eq _ _ _ _ _ _ reachable, mergeEntry_eq _ _ _ _ _ _ reachable', target]
  simp only [empty]
  split
  · exact shuffled
  · exact shuffled.mergeRoutes perm _

theorem sortedUpdates_congr
    (shuffled : Shuffled left right) : sortedUpdates left = sortedUpdates right := by
  have rows : ∀ rows : HashMap Name (List NextHop), sortedUpdates rows =
      ((rows.mapValues (fun _ nextHops => nextHops.insertionSort (· ≤ ·))).pairs.map
        (fun item => { prefixName := item.1, nextHops := item.2 : FibUpdate })).insertionSort
          (fun a b => a.prefixName ≤ b.prefixName) := by
    intro rows
    rw [pairs_mapValues, map_map]
    rfl
  have lookups : ∀ key,
      (left.mapValues (fun _ nextHops => nextHops.insertionSort (· ≤ ·))).lookup key =
        (right.mapValues (fun _ nextHops => nextHops.insertionSort (· ≤ ·))).lookup key := by
    intro key
    rw [lookup_mapValues, lookup_mapValues]
    have row := shuffled key
    generalize left.lookup key = first at row
    generalize right.lookup key = second at row
    cases row with
    | none => rfl
    | some perm =>
      simp only [Option.map_some, Option.some.injEq]
      apply List.Perm.eq_of_pairwise' (pairwise_insertionSort _ _)
        (pairwise_insertionSort _ _)
      exact ((perm_insertionSort _ _).trans perm).trans (perm_insertionSort _ _).symm
  rw [rows, rows]
  generalize left.mapValues (fun _ nextHops => nextHops.insertionSort (· ≤ ·)) = first at lookups
  generalize right.mapValues (fun _ nextHops => nextHops.insertionSort (· ≤ ·)) = second at lookups
  have perm := (pairs_perm first second lookups).map
    (fun item => { prefixName := item.1, nextHops := item.2 : FibUpdate })
  apply List.Perm.eq_of_pairwise _ (pairwise_insertionSort _ _)
    (pairwise_insertionSort _ _)
    (((perm_insertionSort _ _).trans perm).trans (perm_insertionSort _ _).symm)
  intro update other member member' below above
  rw [(perm_insertionSort _ _).mem_iff, mem_map] at member member'
  rcases member with ⟨⟨key, row⟩, inside, same⟩
  rcases member' with ⟨⟨key', row'⟩, inside', same'⟩
  subst same same'
  have keys : key = key' := le_antisymm below above
  subst keys
  rw [mem_pairs] at inside inside'
  rw [lookups, inside'] at inside
  cases inside
  rfl

end order
end NdnExt.Dv
