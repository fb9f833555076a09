import NdnExt.Nlsr.Dijkstra

/-! The link graph of the LSDB, and the cost matrix as its image under the node indices. -/

namespace NdnExt.Nlsr

open NdnExt.Lib List

/-- The cost at which the LSA lists a neighbour. A later listing counts. -/
def AdjacencyLsa.costTo (lsa : AdjacencyLsa) (neighbor : Name) : Option ℚ :=
  ((lsa.adjacencies.filter (fun adj => adj.name = neighbor)).getLast?).map (·.linkCost)

variable {lsa : AdjacencyLsa} {indices : HashMap Name Nat}

namespace Lsdb

def adjacencyLsa (lsdb : Lsdb) (router : Name) : Option AdjacencyLsa :=
  (lsdb.lookup router .adjacency).bind Lsa.asAdjacency

def listedCost (lsdb : Lsdb) (router neighbor : Name) : Option ℚ :=
  (lsdb.adjacencyLsa router).bind (fun lsa => lsa.costTo neighbor)

/-- Two routers are linked when each lists the other at a cost that is not negative. The higher
cost counts. -/
def linkGraph (lsdb : Lsdb) : WeightedGraph Name ℚ where
  edge a b :=
    match lsdb.listedCost a b, lsdb.listedCost b a with
    | some outward, some inward =>
      if 0 ≤ outward ∧ 0 ≤ inward then some (max outward inward) else none
    | _, _ => none
  nonneg := by
    intro a b weight edge
    split at edge
    · split at edge
      · rename_i both
        cases edge
        exact both.1.trans (le_max_left _ _)
      · cases edge
    · cases edge

theorem linkGraph_edge (lsdb : Lsdb) {a b : Name} {weight : ℚ} :
    lsdb.linkGraph.edge a b = some weight ↔
      ∃ outward inward, lsdb.listedCost a b = some outward ∧ lsdb.listedCost b a = some inward ∧
        0 ≤ outward ∧ 0 ≤ inward ∧ max outward inward = weight := by
  unfold linkGraph
  simp only
  cases lsdb.listedCost a b with
  | none => simp
  | some outward =>
    cases lsdb.listedCost b a with
    | none => simp
    | some inward => simp [and_assoc]

theorem mem_adjLsas {lsdb : Lsdb} :
    lsa ∈ lsdb.adjLsas ↔ lsdb.adjacencyLsa lsa.originRouter = some lsa := by
  simp only [adjLsas, iterByType, mem_filterMap, mem_map, mem_filter,
    decide_eq_true_eq, Prod.exists, adjacencyLsa, lookup, Option.bind_map,
    Option.bind_eq_some_iff, Function.comp_apply, HashMap.mem_pairs]
  constructor
  · rintro ⟨_, ⟨key, entry, ⟨found, isAdjacency⟩, rfl⟩, adjacency⟩
    have keyed : entry.lsa.key = ⟨key.originRouter, .adjacency⟩ := by
      rw [lsdb.keyed key entry found, ← isAdjacency]
    refine ⟨entry, ?_, adjacency⟩
    rcases Lsa.eq_adjacency_of_key keyed with ⟨adjacencyLsa, same, origin⟩
    rw [same] at adjacency
    cases adjacency
    rw [origin, ← isAdjacency]
    exact found
  · intro ⟨entry, found, adjacency⟩
    exact ⟨entry.lsa, ⟨_, entry, ⟨found, rfl⟩, rfl⟩, adjacency⟩

theorem originRouter_of_adjacencyLsa {lsdb : Lsdb} {router : Name}
    (found : lsdb.adjacencyLsa router = some lsa) : lsa.originRouter = router := by
  rcases Option.bind_eq_some_iff.mp found with ⟨stored, held, adjacency⟩
  rcases Option.map_eq_some_iff.mp held with ⟨entry, located, rfl⟩
  rcases Lsa.eq_adjacency_of_key (lsdb.keyed _ entry located) with ⟨other, same, origin⟩
  rw [same] at adjacency
  cases adjacency
  exact origin

theorem mem_adjLsas_of_adjacencyLsa {lsdb : Lsdb} {router : Name}
    (found : lsdb.adjacencyLsa router = some lsa) : lsa ∈ lsdb.adjLsas := by
  rw [mem_adjLsas, originRouter_of_adjacencyLsa found]
  exact found

end Lsdb

/-- The indices are the numbers below the number of names, one for each name. -/
structure Indexed (indices : HashMap Name Nat) : Prop where
  injective : ∀ a b i, indices.lookup a = some i → indices.lookup b = some i → a = b
  bounded : ∀ a i, indices.lookup a = some i → i < indices.pairs.length
  onto : ∀ i, i < indices.pairs.length → ∃ a, indices.lookup a = some i

theorem assignIndex_known {name : Name} {i : Nat}
    (known : indices.lookup name = some i) : assignIndex indices name = indices := by
  unfold assignIndex
  rw [known]

theorem assignIndex_unknown {name : Name}
    (unknown : indices.lookup name = none) :
    assignIndex indices name = indices.insert name indices.pairs.length := by
  unfold assignIndex
  rw [unknown]

theorem Indexed.assignIndex (indexed : Indexed indices)
    (name : Name) : Indexed (assignIndex indices name) := by
  cases found : indices.lookup name with
  | some i =>
    rw [assignIndex_known found]
    exact indexed
  | none =>
    rw [assignIndex_unknown found]
    have grown : (HashMap.pairs (indices.insert name indices.pairs.length)).length =
        indices.pairs.length + 1 := by
      rw [HashMap.pairs, length_map,
        AList.entries_insert_of_notMem (AList.lookup_eq_none.mp found), length_cons,
        HashMap.pairs, length_map]
    have lookup : ∀ other, (indices.insert name indices.pairs.length).lookup other =
        if other = name then some indices.pairs.length else indices.lookup other :=
      fun other => HashMap.lookup_insert_eq _ _ _ _
    constructor
    · intro a b i left right
      rw [lookup] at left right
      split at left
      · split at right
        · rename_i first second
          exact first.trans second.symm
        · have bound := indexed.bounded b i right
          cases left
          omega
      · split at right
        · have bound := indexed.bounded a i left
          cases right
          omega
        · exact indexed.injective a b i left right
    · intro a i located
      rw [grown]
      rw [lookup] at located
      split at located
      · cases located
        exact Nat.lt_succ_self _
      · exact (indexed.bounded a i located).trans (Nat.lt_succ_self _)
    · intro i below
      rw [grown] at below
      by_cases last : i = indices.pairs.length
      · exact ⟨name, (lookup name).trans ((if_pos rfl).trans (by rw [last]))⟩
      · rcases indexed.onto i (by omega) with ⟨a, located⟩
        refine ⟨a, (lookup a).trans ((if_neg ?_).trans located)⟩
        rintro rfl
        rw [found] at located
        cases located

/-- No index is reassigned. -/
theorem lookup_assignIndex {name other : Name} {i : Nat}
    (located : indices.lookup other = some i) :
    (assignIndex indices name).lookup other = some i := by
  cases found : indices.lookup name with
  | some j =>
    rw [assignIndex_known found]
    exact located
  | none =>
    rw [assignIndex_unknown found, HashMap.lookup_insert_eq, if_neg, located]
    rintro rfl
    rw [found] at located
    cases located

theorem assigned (indices : HashMap Name Nat) (name : Name) :
    ∃ i, (assignIndex indices name).lookup name = some i := by
  cases found : indices.lookup name with
  | some i => exact ⟨i, lookup_assignIndex found⟩
  | none =>
    rw [assignIndex_unknown found]
    exact ⟨_, AList.lookup_insert _⟩

theorem Indexed.assignAll (indexed : Indexed indices)
    (names : List Name) : Indexed (names.foldl Nlsr.assignIndex indices) := by
  induction names generalizing indices with
  | nil => exact indexed
  | cons head tail ih => exact ih (indexed.assignIndex head)

theorem assignedAll (names : List Name) (indices : HashMap Name Nat) (name : Name)
    (listed : name ∈ names ∨ ∃ i, indices.lookup name = some i) :
    ∃ i, (names.foldl assignIndex indices).lookup name = some i := by
  induction names generalizing indices with
  | nil => simpa using listed
  | cons head tail ih =>
    apply ih
    rcases listed with member | ⟨i, located⟩
    · rcases mem_cons.mp member with rfl | later
      · exact Or.inr (assigned indices name)
      · exact Or.inl later
    · exact Or.inr ⟨i, lookup_assignIndex located⟩

/-- The names in the order the LSAs mention them. -/
def mentioned (adjLsas : List AdjacencyLsa) : List Name :=
  adjLsas.flatMap (fun lsa => lsa.originRouter :: lsa.adjacencies.map (·.name))

theorem nameToIdx_eq (adjLsas : List AdjacencyLsa) :
    nameToIdx adjLsas = (mentioned adjLsas).foldl assignIndex ∅ := by
  unfold nameToIdx mentioned
  rw [foldl_flatMap]
  simp only [foldl_cons, foldl_map]

theorem indexed_nameToIdx (adjLsas : List AdjacencyLsa) : Indexed (nameToIdx adjLsas) := by
  rw [nameToIdx_eq]
  apply Indexed.assignAll
  constructor
  · intro a b i located
    cases located
  · intro a i located
    cases located
  · intro i below
    exact (Nat.not_lt_zero i below).elim

theorem origin_indexed {adjLsas : List AdjacencyLsa}
    (member : lsa ∈ adjLsas) : ∃ i, (nameToIdx adjLsas).lookup lsa.originRouter = some i := by
  rw [nameToIdx_eq]
  apply assignedAll
  left
  exact mem_flatMap.mpr ⟨lsa, member, mem_cons_self⟩

theorem Indexed.idxToName (indexed : Indexed indices) {a : Name}
    {i : Nat} (located : indices.lookup a = some i) : idxToName indices i = a := by
  have scan : ∀ (items : List (Name × Nat)) (names : Nat → Name),
      (∀ item ∈ items, item.2 = i → item.1 = a) → ((a, i) ∈ items ∨ names i = a) →
      items.foldl (fun names item => Function.update names item.2 item.1) names i = a := by
    intro items
    induction items with
    | nil => simp
    | cons head tail ih =>
      intro names unique present
      apply ih
      · exact fun item member => unique item (mem_cons_of_mem _ member)
      · by_cases here : head.2 = i
        · right
          change Function.update names head.2 head.1 i = a
          rw [here, Function.update_self]
          exact unique head mem_cons_self here
        · rcases present with member | set
          · rcases mem_cons.mp member with rfl | later
            · exact (here rfl).elim
            · exact Or.inl later
          · right
            change Function.update names head.2 head.1 i = a
            rw [Function.update_of_ne (fun same => here same.symm)]
            exact set
  apply scan
  · rintro ⟨b, j⟩ member rfl
    exact indexed.injective b a j (HashMap.mem_pairs.mp member) located
  · exact Or.inl (HashMap.mem_pairs.mpr located)

end NdnExt.Nlsr
