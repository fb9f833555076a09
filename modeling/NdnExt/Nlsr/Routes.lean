import NdnExt.Nlsr.LinkMatrix

/-! The computed routes are the shortest ones through each own adjacency. -/

namespace NdnExt.Nlsr

open NdnExt.Lib List

variable {adj : Adjacent} {adjacencies : List Adjacent}

namespace Lsdb

def ownAdjacencies (lsdb : Lsdb) (selfName : Name) : List Adjacent :=
  ((lsdb.adjacencyLsa selfName).map (·.adjacencies)).getD []

/-- The cost of the link to the neighbour and of a shortest path on from there that does not
come back. -/
def ThroughCost (lsdb : Lsdb) (selfName neighbor dest : Name) (cost : ℚ) : Prop :=
  ∃ weight length, lsdb.linkGraph.edge selfName neighbor = some weight ∧
    (lsdb.linkGraph.avoid selfName).Distance neighbor dest length ∧ cost = weight + length

def Usable (lsdb : Lsdb) (selfName dest : Name) (adj : Adjacent) : Prop :=
  ∃ cost < infinity, lsdb.ThroughCost selfName adj.name dest cost

def Leads (lsdb : Lsdb) (selfName dest : Name) (adj : Adjacent) (hop : NextHop) : Prop :=
  hop.faceUri = adj.faceUri ∧ lsdb.ThroughCost selfName adj.name dest hop.cost

open Classical in
noncomputable def usable (lsdb : Lsdb) (selfName dest : Name) (adjacencies : List Adjacent) :
    List Adjacent :=
  adjacencies.filter (fun adj => lsdb.Usable selfName dest adj)

variable {lsdb : Lsdb} {selfName neighbor dest : Name}

theorem usable_append_usable
    (isUsable : lsdb.Usable selfName dest adj) :
    lsdb.usable selfName dest (adjacencies ++ [adj]) =
      lsdb.usable selfName dest adjacencies ++ [adj] := by
  simp [usable, isUsable]

theorem usable_append_useless
    (useless : ¬ lsdb.Usable selfName dest adj) :
    lsdb.usable selfName dest (adjacencies ++ [adj]) =
      lsdb.usable selfName dest adjacencies := by
  simp [usable, useless]

theorem throughCost_iff (away : dest ≠ selfName) {cost : ℚ} :
    lsdb.ThroughCost selfName neighbor dest cost ↔
      (lsdb.linkGraph.only selfName neighbor).Distance selfName dest cost :=
  (WeightedGraph.distance_only away).symm

theorem ThroughCost.unique {cost other : ℚ}
    (through : lsdb.ThroughCost selfName neighbor dest cost)
    (through' : lsdb.ThroughCost selfName neighbor dest other) : cost = other := by
  rcases through with ⟨weight, length, edge, shortest, rfl⟩
  rcases through' with ⟨weight', length', edge', shortest', rfl⟩
  rw [edge] at edge'
  cases edge'
  rw [shortest.unique shortest']

/-- Every router on a route is in an LSA of the LSDB. -/
theorem ThroughCost.indexed {cost : ℚ} (through : lsdb.ThroughCost selfName neighbor dest cost)
    (away : dest ≠ selfName) :
    (∃ i, (nameToIdx lsdb.adjLsas).lookup neighbor = some i) ∧
      ∃ i, (nameToIdx lsdb.adjLsas).lookup dest = some i := by
  constructor
  · rcases through with ⟨weight, length, edge, -⟩
    exact linkGraph_indexed lsdb edge
  · cases ((throughCost_iff away).mp through).1 with
    | start => exact (away rfl).elim
    | step _ edge =>
      rw [WeightedGraph.only, Option.ite_none_left_eq_some] at edge
      exact linkGraph_indexed lsdb edge.2

end Lsdb

theorem ownAdjacencies_eq (lsdb : Lsdb) (selfName : Name) :
    ownAdjacencies lsdb.adjLsas selfName = lsdb.ownAdjacencies selfName := by
  have same : lsdb.adjLsas.find? (fun lsa => lsa.originRouter = selfName) =
      lsdb.adjacencyLsa selfName := by
    cases listed : lsdb.adjLsas.find? (fun lsa => lsa.originRouter = selfName) with
    | some lsa =>
      have origin : lsa.originRouter = selfName := by simpa using List.find?_some listed
      rw [← origin, Lsdb.mem_adjLsas.mp (mem_of_find?_eq_some listed)]
    | none =>
      cases found : lsdb.adjacencyLsa selfName with
      | none => rfl
      | some lsa =>
        have other := List.find?_eq_none.mp listed lsa
          (Lsdb.mem_adjLsas_of_adjacencyLsa found)
        simp [Lsdb.originRouter_of_adjacencyLsa found] at other
  unfold ownAdjacencies Lsdb.ownAdjacencies
  rw [same]

section Simulation

variable {lsdb : Lsdb} {selfName neighbor : Name} {source nbr : Nat}

/-- One simulation finds what the routes through one neighbour cost. -/
theorem simulation_distances (sourceIndex : (nameToIdx lsdb.adjLsas).lookup selfName = some source)
    (nbrIndex : (nameToIdx lsdb.adjLsas).lookup neighbor = some nbr) :
    ∃ dist, dijkstra (simulate (linkMatrix lsdb) source nbr (nameToIdx lsdb.adjLsas).pairs.length)
        source (nameToIdx lsdb.adjLsas).pairs.length = some dist ∧
      ∀ dest target, (nameToIdx lsdb.adjLsas).lookup dest = some target → dest ≠ selfName →
        ∀ cost, cost < infinity →
          (dist target = cost ↔ lsdb.ThroughCost selfName neighbor dest cost) := by
  have indexed := indexed_nameToIdx lsdb.adjLsas
  have sourceNode := indexed.bounded selfName source sourceIndex
  have nbrNode := indexed.bounded neighbor nbr nbrIndex
  rcases @dijkstra_distances (simulate (linkMatrix lsdb) source nbr _) _ _ sourceNode with
    ⟨dist, returned, distances⟩
  refine ⟨dist, returned, ?_⟩
  intro dest target destIndex away cost below
  have embeds := (embeds_linkGraph lsdb).only sourceNode nbrNode
  rw [distances target cost below, matrixGraph_simulate,
    embeds.distance_iff sourceNode (indexed.bounded dest target destIndex),
    indexed.idxToName sourceIndex, indexed.idxToName nbrIndex, indexed.idxToName destIndex,
    Lsdb.throughCost_iff away]

end Simulation

theorem lookup_pushNextHop (result : HashMap Nat (List NextHop)) (dest i : Nat) (hop : NextHop) :
    (pushNextHop result dest hop).lookup i =
      if i = dest then some ((result.lookup i).getD [] ++ [hop]) else result.lookup i := by
  unfold pushNextHop
  rw [HashMap.lookup_insert_eq]
  by_cases same : i = dest
  · rw [if_pos same, if_pos same, same]
  · rw [if_neg same, if_neg same]

theorem lookup_collectRoutes (source n : Nat) (dist : Nat → ℚ) (faceUri : String)
    (result : HashMap Nat (List NextHop)) (i : Nat) :
    (collectRoutes source n dist faceUri result).lookup i =
      if i < n ∧ i ≠ source ∧ dist i < infinity then
        some ((result.lookup i).getD [] ++ [⟨faceUri, dist i⟩])
      else result.lookup i := by
  have scan : ∀ (dests : List Nat) (result : HashMap Nat (List NextHop)), dests.Nodup →
      (dests.foldl (fun result dest =>
        if dest = source then result
        else if dist dest < infinity then
          pushNextHop result dest { faceUri := faceUri, cost := dist dest }
        else result) result).lookup i =
      if i ∈ dests ∧ i ≠ source ∧ dist i < infinity then
        some ((result.lookup i).getD [] ++ [⟨faceUri, dist i⟩])
      else result.lookup i := by
    intro dests
    induction dests with
    | nil => simp
    | cons dest rest ih =>
      intro result distinct
      rw [foldl_cons, ih _ (nodup_cons.mp distinct).2]
      by_cases here : i = dest
      · subst here
        have once := (nodup_cons.mp distinct).1
        simp only [once, false_and, if_false, mem_cons_self, true_and]
        by_cases own : i = source
        · simp [own]
        · rw [if_neg own]
          by_cases near : dist i < infinity
          · rw [if_pos near, lookup_pushNextHop, if_pos rfl, if_pos ⟨own, near⟩]
          · rw [if_neg near, if_neg (fun both => near both.2)]
      · have same : (if dest = source then result
            else if dist dest < infinity then
              pushNextHop result dest { faceUri := faceUri, cost := dist dest }
            else result).lookup i = result.lookup i := by
          split
          · rfl
          · split
            · rw [lookup_pushNextHop, if_neg here]
            · rfl
        rw [same]
        simp only [mem_cons, here, false_or]
  unfold collectRoutes
  rw [scan _ result nodup_range]
  simp only [mem_range]

section Loop

variable (lsdb : Lsdb) (selfName : Name) (source : Nat)

/-- What the loop has collected over the adjacencies `visited`. -/
structure Collected (visited : List Adjacent) (result : HashMap Nat (List NextHop)) : Prop where
  outside : ∀ i, (nameToIdx lsdb.adjLsas).pairs.length ≤ i ∨ i = source → result.lookup i = none
  proper : ∀ i, result.lookup i ≠ some []
  leads : ∀ dest i, (nameToIdx lsdb.adjLsas).lookup dest = some i → dest ≠ selfName →
    List.Forall₂ (lsdb.Leads selfName dest) (lsdb.usable selfName dest visited)
      ((result.lookup i).getD [])

variable {lsdb selfName source} {visited : List Adjacent} {result : HashMap Nat (List NextHop)}

section

variable (collected : Collected lsdb selfName source visited result)
include collected

theorem Collected.skip
    (useless : ∀ dest, dest ≠ selfName → ¬ lsdb.Usable selfName dest adj) :
    Collected lsdb selfName source (visited ++ [adj]) result := by
  refine ⟨collected.outside, collected.proper, ?_⟩
  intro dest i destIndex away
  rw [Lsdb.usable_append_useless (useless dest away)]
  exact collected.leads dest i destIndex away

section

variable (sourceIndex : (nameToIdx lsdb.adjLsas).lookup selfName = some source)
include sourceIndex

theorem Collected.collectRoutes
    {dist : Nat → ℚ}
    (distances : ∀ dest target, (nameToIdx lsdb.adjLsas).lookup dest = some target →
      dest ≠ selfName → ∀ cost, cost < infinity →
        (dist target = cost ↔ lsdb.ThroughCost selfName adj.name dest cost)) :
    Collected lsdb selfName source (visited ++ [adj])
      (collectRoutes source (nameToIdx lsdb.adjLsas).pairs.length dist adj.faceUri result) := by
  have indexed := indexed_nameToIdx lsdb.adjLsas
  constructor
  · intro i outside
    rw [lookup_collectRoutes, if_neg]
    · exact collected.outside i outside
    · rintro ⟨node, other, -⟩
      rcases outside with beyond | own
      · omega
      · exact other own
  · intro i
    rw [lookup_collectRoutes]
    split
    · simp
    · exact collected.proper i
  · intro dest i destIndex away
    have other : i ≠ source := by
      rintro rfl
      exact away (indexed.injective dest selfName i destIndex sourceIndex)
    have before := collected.leads dest i destIndex away
    rw [lookup_collectRoutes]
    by_cases near : dist i < infinity
    · have through := (distances dest i destIndex away (dist i) near).mp rfl
      rw [if_pos ⟨indexed.bounded dest i destIndex, other, near⟩,
        Lsdb.usable_append_usable ⟨dist i, near, through⟩]
      exact rel_append before (.cons ⟨rfl, through⟩ .nil)
    · have useless : ¬ lsdb.Usable selfName dest adj := by
        intro ⟨cost, below, through⟩
        rw [← (distances dest i destIndex away cost below).mpr through] at below
        exact near below
      rw [if_neg (fun both => near both.2.2), Lsdb.usable_append_useless useless]
      exact before

theorem Collected.routeVia (adj : Adjacent) :
    ∃ next, routeVia (nameToIdx lsdb.adjLsas) (linkMatrix lsdb) source
        (nameToIdx lsdb.adjLsas).pairs.length result adj = some next ∧
      Collected lsdb selfName source (visited ++ [adj]) next := by
  unfold Nlsr.routeVia
  cases nbrIndex : (nameToIdx lsdb.adjLsas).lookup adj.name with
  | none =>
    refine ⟨result, rfl, collected.skip ?_⟩
    rintro dest away ⟨cost, -, through⟩
    rcases (through.indexed away).1 with ⟨nbr, found⟩
    rw [nbrIndex] at found
    cases found
  | some nbr =>
    by_cases down : linkMatrix lsdb source nbr < 0
    · refine ⟨result, if_pos down, collected.skip ?_⟩
      rintro dest away ⟨cost, -, weight, length, edge, -⟩
      have up := ((linkMatrix_edge lsdb sourceIndex nbrIndex).mpr edge).1
      exact absurd down (not_lt.mpr up)
    · rcases simulation_distances sourceIndex nbrIndex with ⟨dist, returned, distances⟩
      refine ⟨_, ?_, collected.collectRoutes sourceIndex distances⟩
      simp only [down, if_false, returned, Option.bind_eq_bind, Option.bind_some]

theorem Collected.routes
    (adjacencies : List Adjacent) :
    ∃ final, adjacencies.foldlM (Nlsr.routeVia (nameToIdx lsdb.adjLsas) (linkMatrix lsdb) source
        (nameToIdx lsdb.adjLsas).pairs.length) result = some final ∧
      Collected lsdb selfName source (visited ++ adjacencies) final := by
  induction adjacencies generalizing visited result with
  | nil =>
    rw [append_nil]
    exact ⟨result, rfl, collected⟩
  | cons adj rest ih =>
    rcases collected.routeVia sourceIndex adj with ⟨next, stepped, through⟩
    rcases ih through with ⟨final, returned, done⟩
    rw [append_assoc] at done
    refine ⟨final, ?_, done⟩
    rw [foldlM_cons, stepped]
    exact returned

end

end

end Loop

section Snapshot

def RoutingSnapshot.nexthopsTo (snapshot : RoutingSnapshot) (dest : Name) : List NextHop :=
  ((snapshot.get dest).map (·.nexthops)).getD []

/-- The next hops of the snapshot are those of the shortest routes, for every usable own adjacency
one, in the order of the adjacencies. -/
structure ShortestRoutes (lsdb : Lsdb) (selfName : Name) (snapshot : RoutingSnapshot) : Prop where
  distinct : (snapshot.entries.map (·.destRouter)).Nodup
  proper : ∀ entry ∈ snapshot.entries, entry.destRouter ≠ selfName ∧ entry.nexthops ≠ []
  nexthop_iff : ∀ dest, dest ≠ selfName → ∀ hop, hop ∈ snapshot.nexthopsTo dest ↔
    hop.cost < infinity ∧ ∃ adj ∈ lsdb.ownAdjacencies selfName, lsdb.Leads selfName dest adj hop
  oneEach : ∀ dest, dest ≠ selfName →
    List.Forall₂ (lsdb.Leads selfName dest)
      (lsdb.usable selfName dest (lsdb.ownAdjacencies selfName)) (snapshot.nexthopsTo dest)
  isolated : lsdb.adjacencyLsa selfName = none → snapshot.entries = []

variable {lsdb : Lsdb} {selfName : Name} {snapshot : RoutingSnapshot}

theorem forall₂_image {α β : Type} {R : α → β → Prop} {left : List α} {right : List β}
    (pairs : List.Forall₂ R left right) {b : β} (member : b ∈ right) : ∃ a ∈ left, R a b := by
  induction pairs with
  | nil => cases member
  | @cons first image _ _ related _ ih =>
    rcases mem_cons.mp member with rfl | later
    · exact ⟨first, mem_cons_self, related⟩
    · rcases ih later with ⟨a, inside, related⟩
      exact ⟨a, mem_cons_of_mem _ inside, related⟩

theorem Lsdb.mem_usable {dest : Name} :
    adj ∈ lsdb.usable selfName dest adjacencies ↔
      adj ∈ adjacencies ∧ lsdb.Usable selfName dest adj := by
  simp only [usable, mem_filter, decide_eq_true_eq]

/-- One next hop for each usable adjacency leaves no other next hop. -/
theorem mem_nexthops_iff {dest : Name} {hops : List NextHop}
    (oneEach : List.Forall₂ (lsdb.Leads selfName dest) (lsdb.usable selfName dest adjacencies) hops)
    (hop : NextHop) :
    hop ∈ hops ↔ hop.cost < infinity ∧ ∃ adj ∈ adjacencies, lsdb.Leads selfName dest adj hop := by
  constructor
  · intro member
    rcases forall₂_image oneEach member with ⟨adj, usable, leads⟩
    rcases Lsdb.mem_usable.mp usable with ⟨listed, cost, below, through⟩
    refine ⟨?_, adj, listed, leads⟩
    rw [leads.2.unique through]
    exact below
  · intro ⟨below, adj, listed, leads⟩
    have usable := Lsdb.mem_usable.mpr ⟨listed, hop.cost, below, leads.2⟩
    rcases forall₂_image oneEach.flip usable with ⟨other, member, leads'⟩
    have same : other = hop := by
      cases other
      cases hop
      exact congrArg₂ NextHop.mk (leads'.1.trans leads.1.symm) (leads'.2.unique leads.2)
    rw [← same]
    exact member

theorem shortestRoutes_empty (none_listed : lsdb.ownAdjacencies selfName = []) :
    ShortestRoutes lsdb selfName ⟨[]⟩ := by
  have oneEach : ∀ dest, List.Forall₂ (lsdb.Leads selfName dest)
      (lsdb.usable selfName dest (lsdb.ownAdjacencies selfName)) [] := by
    intro dest
    rw [none_listed]
    exact .nil
  exact ⟨nodup_nil, fun entry member => absurd member not_mem_nil,
    fun dest _ => mem_nexthops_iff (oneEach dest), fun dest _ => oneEach dest, fun _ => rfl⟩

/-- The snapshot that the code makes of the collected next hops. -/
def listed (indices : HashMap Name Nat) (result : HashMap Nat (List NextHop)) : RoutingSnapshot :=
  ⟨result.pairs.map (fun item => { destRouter := idxToName indices item.1, nexthops := item.2 })⟩

variable {indices : HashMap Name Nat} {result : HashMap Nat (List NextHop)}

theorem mem_listed (indexed : Indexed indices)
    (nodes : ∀ i hops, result.lookup i = some hops → i < indices.pairs.length)
    {entry : RoutingTableEntry} :
    entry ∈ (listed indices result).entries ↔
      ∃ i, indices.lookup entry.destRouter = some i ∧ result.lookup i = some entry.nexthops := by
  unfold listed
  simp only [mem_map, Prod.exists, HashMap.mem_pairs]
  constructor
  · rintro ⟨i, hops, found, rfl⟩
    rcases indexed.onto i (nodes i hops found) with ⟨dest, index⟩
    refine ⟨i, ?_, found⟩
    change indices.lookup (idxToName indices i) = some i
    rw [indexed.idxToName index]
    exact index
  · intro ⟨i, index, found⟩
    refine ⟨i, entry.nexthops, found, ?_⟩
    rw [indexed.idxToName index]

theorem listed_distinct (indexed : Indexed indices)
    (nodes : ∀ i hops, result.lookup i = some hops → i < indices.pairs.length) :
    ((listed indices result).entries.map (·.destRouter)).Nodup := by
  have renamed : (listed indices result).entries.map (·.destRouter) =
      (result.pairs.map Prod.fst).map (idxToName indices) := by
    simp [listed, Function.comp_def]
  rw [renamed]
  apply List.Nodup.map_on _ result.pairs_keys_nodup
  intro i iKey j jKey same
  rcases mem_map.mp iKey with ⟨item, iItem, rfl⟩
  rcases mem_map.mp jKey with ⟨other, jItem, rfl⟩
  rcases indexed.onto _ (nodes _ _ (HashMap.mem_pairs.mp iItem)) with ⟨a, aIndex⟩
  rcases indexed.onto _ (nodes _ _ (HashMap.mem_pairs.mp jItem)) with ⟨b, bIndex⟩
  rw [indexed.idxToName aIndex, indexed.idxToName bIndex] at same
  subst same
  exact Option.some.inj (aIndex.symm.trans bIndex)

theorem nexthopsTo_listed (indexed : Indexed indices)
    (nodes : ∀ i hops, result.lookup i = some hops → i < indices.pairs.length) (dest : Name) :
    (listed indices result).nexthopsTo dest =
      ((indices.lookup dest).bind (fun i => result.lookup i)).getD [] := by
  unfold RoutingSnapshot.nexthopsTo RoutingSnapshot.get
  cases found : (listed indices result).entries.find? (fun entry => entry.destRouter = dest) with
  | some entry =>
    have origin : entry.destRouter = dest := by simpa using List.find?_some found
    rcases (mem_listed indexed nodes).mp (mem_of_find?_eq_some found) with ⟨i, index, hops⟩
    rw [← origin, index, Option.bind_some, hops]
    rfl
  | none =>
    cases held : (indices.lookup dest).bind (fun i => result.lookup i) with
    | none => rfl
    | some hops =>
      rcases Option.bind_eq_some_iff.mp held with ⟨i, index, collected⟩
      have member : (⟨dest, hops⟩ : RoutingTableEntry) ∈ (listed indices result).entries :=
        (mem_listed indexed nodes).mpr ⟨i, index, collected⟩
      have other := List.find?_eq_none.mp found _ member
      simp at other

end Snapshot

theorem Collected.shortest {lsdb : Lsdb} {selfName : Name} {source : Nat}
    {result : HashMap Nat (List NextHop)}
    (collected : Collected lsdb selfName source (lsdb.ownAdjacencies selfName) result)
    (sourceIndex : (nameToIdx lsdb.adjLsas).lookup selfName = some source)
    (adjacent : lsdb.ownAdjacencies selfName ≠ []) :
    ShortestRoutes lsdb selfName (listed (nameToIdx lsdb.adjLsas) result) := by
  have indexed := indexed_nameToIdx lsdb.adjLsas
  have nodes : ∀ i hops, result.lookup i = some hops →
      i < (nameToIdx lsdb.adjLsas).pairs.length := by
    intro i hops found
    by_contra beyond
    rw [collected.outside i (Or.inl (not_lt.mp beyond))] at found
    cases found
  have oneEach : ∀ dest, dest ≠ selfName → List.Forall₂ (lsdb.Leads selfName dest)
      (lsdb.usable selfName dest (lsdb.ownAdjacencies selfName))
      ((listed (nameToIdx lsdb.adjLsas) result).nexthopsTo dest) := by
    intro dest away
    rw [nexthopsTo_listed indexed nodes]
    cases destIndex : (nameToIdx lsdb.adjLsas).lookup dest with
    | some i => exact collected.leads dest i destIndex away
    | none =>
      have unreached : lsdb.usable selfName dest (lsdb.ownAdjacencies selfName) = [] := by
        apply eq_nil_iff_forall_not_mem.mpr
        intro adj member
        rcases Lsdb.mem_usable.mp member with ⟨-, cost, -, through⟩
        rcases (through.indexed away).2 with ⟨i, found⟩
        rw [destIndex] at found
        cases found
      rw [unreached]
      exact .nil
  refine ⟨listed_distinct indexed nodes, ?_, fun dest away => mem_nexthops_iff (oneEach dest away),
    oneEach, ?_⟩
  · intro entry member
    rcases (mem_listed indexed nodes).mp member with ⟨i, index, found⟩
    constructor
    · intro own
      rw [own, sourceIndex] at index
      cases index
      rw [collected.outside source (Or.inr rfl)] at found
      cases found
    · intro none_left
      rw [none_left] at found
      exact collected.proper i found
  · intro absent
    unfold Lsdb.ownAdjacencies at adjacent
    rw [absent] at adjacent
    exact (adjacent rfl).elim

theorem computeRoutes_shortest (lsdb : Lsdb) (selfName : Name) :
    ∃ snapshot, computeRoutes lsdb selfName = some snapshot ∧
      ShortestRoutes lsdb selfName snapshot := by
  unfold computeRoutes
  simp only [ownAdjacencies_eq]
  by_cases adjacent : lsdb.ownAdjacencies selfName = []
  · refine ⟨⟨[]⟩, ?_, shortestRoutes_empty adjacent⟩
    simp only [adjacent, List.isEmpty_nil, if_true]
    split
    · rfl
    · split <;> rfl
  · cases found : lsdb.adjacencyLsa selfName with
    | none =>
      unfold Lsdb.ownAdjacencies at adjacent
      rw [found] at adjacent
      exact (adjacent rfl).elim
    | some lsa =>
      have member := Lsdb.mem_adjLsas_of_adjacencyLsa found
      rcases origin_indexed member with ⟨source, sourceIndex⟩
      rw [Lsdb.originRouter_of_adjacencyLsa found] at sourceIndex
      have collected : Collected lsdb selfName source [] ∅ := by
        refine ⟨fun i _ => rfl, fun i => ?_, fun dest i _ _ => .nil⟩
        simp
      rcases collected.routes sourceIndex (lsdb.ownAdjacencies selfName) with
        ⟨result, returned, final⟩
      refine ⟨_, ?_, final.shortest sourceIndex adjacent⟩
      rw [if_neg (by simpa using List.ne_nil_of_mem member), sourceIndex]
      simp only [List.isEmpty_iff, adjacent, if_false]
      exact congrArg (Option.bind · _) returned

/-- Routers 1 and 2 list each other at half the greatest `f64`. -/
def farNeighbors : Lsdb :=
  let lsa (router neighbor : Name) : Lsa :=
    .adjacency ⟨router, 1, 1000, [⟨neighbor, "shm", infinity⟩]⟩
  (((Lsdb.new (Name.single 1)).install ⟨0, 0⟩ (lsa (Name.single 1) (Name.single 2))).1.install
    ⟨0, 0⟩ (lsa (Name.single 2) (Name.single 1))).1

theorem far_neighbor_not_routed :
    ¬ ∃ snapshot, computeRoutes farNeighbors (Name.single 1) = some snapshot ∧
      ∀ dest, dest ≠ Name.single 1 → ∀ hop, hop ∈ snapshot.nexthopsTo dest ↔
        ∃ adj ∈ farNeighbors.ownAdjacencies (Name.single 1),
          farNeighbors.Leads (Name.single 1) dest adj hop := by
  intro ⟨snapshot, computed, exact_routes⟩
  have unrouted : computeRoutes farNeighbors (Name.single 1) = some ⟨[]⟩ := by decide +kernel
  rw [unrouted] at computed
  cases computed
  have through : farNeighbors.ThroughCost (Name.single 1) (Name.single 2) (Name.single 2)
      infinity := by
    have edge : farNeighbors.linkGraph.edge (Name.single 1) (Name.single 2) = some infinity := by
      decide +kernel
    refine ⟨infinity, 0, edge, ⟨.start, ?_⟩, (add_zero _).symm⟩
    exact fun length path => WeightedGraph.Path.nonneg path
  have listed : (⟨Name.single 2, "shm", infinity⟩ : Adjacent) ∈
      farNeighbors.ownAdjacencies (Name.single 1) := by decide +kernel
  have routed := (exact_routes (Name.single 2) (by decide) ⟨"shm", infinity⟩).mpr
    ⟨_, listed, rfl, through⟩
  cases routed

end NdnExt.Nlsr
