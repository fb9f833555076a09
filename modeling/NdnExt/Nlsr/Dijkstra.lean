import NdnExt.Nlsr.RoutingTable
import Mathlib.Data.Finset.Card
import Mathlib.Tactic.NormNum

/-! The search on a cost matrix terminates with the distances. -/

namespace NdnExt.Nlsr

open NdnExt.Lib List

/-- The entries of the matrix that are not negative, as edges. -/
def matrixGraph (matrix : CostMatrix) (n : Nat) : WeightedGraph Nat ℚ where
  edge a b := if a < n ∧ b < n ∧ 0 ≤ matrix a b then some (matrix a b) else none
  nonneg := by
    intro a b weight edge
    split at edge
    · rename_i link
      cases edge
      exact link.2.2
    · cases edge

theorem matrixGraph_edge {matrix : CostMatrix} {n a b : Nat} {weight : ℚ} :
    (matrixGraph matrix n).edge a b = some weight ↔
      a < n ∧ b < n ∧ 0 ≤ matrix a b ∧ matrix a b = weight := by
  simp only [matrixGraph, Option.ite_none_right_eq_some, Option.some.injEq, and_assoc]

theorem infinity_pos : 0 < infinity := by
  exact sub_pos.mpr (pow_lt_pow_right₀ (by norm_num) (by norm_num))

variable (matrix : CostMatrix) (n : Nat)

/-- The loop invariant: the queue holds nodes, and the settled nodes are among them. -/
structure Searching (source : Nat) (search : Search Nat ℚ) (settled : Finset Nat) : Prop where
  invariant : search.Invariant (matrixGraph matrix n) source infinity settled (fun _ _ => False)
  nodes : ∀ item ∈ search.heap, (ofLex item).2 < n
  settledNodes : settled ⊆ Finset.range n

variable {matrix n} {source : Nat} {search : Search Nat ℚ} {settled : Finset Nat}

theorem relaxEdge_cases {u v : Nat} (uNode : u < n) (vNode : v < n) :
    ((matrixGraph matrix n).edge u v = none ∧ relaxEdge matrix u search v = search) ∨
      ∃ weight, (matrixGraph matrix n).edge u v = some weight ∧
        relaxEdge matrix u search v = search.relax u v weight := by
  by_cases down : matrix u v < 0
  · left
    refine ⟨if_neg ?_, if_pos down⟩
    intro link
    exact absurd down (not_lt.mpr link.2.2)
  · right
    exact ⟨matrix u v, matrixGraph_edge.mpr ⟨uNode, vNode, not_lt.mp down, rfl⟩, if_neg down⟩

theorem nodes_relaxEdge {u v : Nat} (vNode : v < n)
    (nodes : ∀ item ∈ search.heap, (ofLex item).2 < n) :
    ∀ item ∈ (relaxEdge matrix u search v).heap, (ofLex item).2 < n := by
  unfold relaxEdge Search.relax
  simp only
  split
  · exact nodes
  · split
    · intro item member
      rcases Search.mem_push.mp member with rfl | member
      · exact vNode
      · exact nodes item member
    · exact nodes

theorem length_relaxEdge (matrix : CostMatrix) (u v : Nat) (search : Search Nat ℚ) :
    (relaxEdge matrix u search v).heap.length ≤ search.heap.length + 1 := by
  unfold relaxEdge
  simp only
  split
  · exact Nat.le_succ _
  · exact search.length_relax u v _

/-- Relaxing the edges to `targets` leaves only the others waived. -/
theorem relaxed_targets {u : Nat} (uNode : u < n) (targets : List Nat)
    (areNodes : ∀ v ∈ targets, v < n) {waived : Nat → Nat → Prop}
    (invariant : search.Invariant (matrixGraph matrix n) source infinity settled waived)
    (farthest : search.Farthest settled u) :
    (targets.foldl (relaxEdge matrix u) search).Invariant (matrixGraph matrix n) source infinity
      settled (fun a b => waived a b ∧ ¬ (a = u ∧ b ∈ targets)) := by
  induction targets generalizing search waived with
  | nil => simpa using invariant
  | cons v rest ih =>
    have vNode := areNodes v mem_cons_self
    have later : ∀ w ∈ rest, w < n := fun w member => areNodes w (mem_cons_of_mem _ member)
    have next : (relaxEdge matrix u search v).Invariant (matrixGraph matrix n) source infinity
        settled (fun a b => waived a b ∧ ¬ (a = u ∧ b = v)) ∧
          (relaxEdge matrix u search v).Farthest settled u := by
      rcases relaxEdge_cases uNode vNode with ⟨absent, same⟩ | ⟨weight, edge, relaxed⟩
      · rw [same]
        refine ⟨invariant.mono ?_, farthest⟩
        intro a b weight edge waits
        refine ⟨waits, ?_⟩
        rintro ⟨rfl, rfl⟩
        rw [absent] at edge
        cases edge
      · rw [relaxed]
        exact invariant.relax farthest edge
    rw [foldl_cons]
    apply (ih later next.1 next.2).mono
    intro a b weight edge ⟨⟨waits, notFirst⟩, notRest⟩
    refine ⟨waits, ?_⟩
    intro ⟨same, member⟩
    rcases mem_cons.mp member with first | member
    · exact notFirst ⟨same, first⟩
    · exact notRest ⟨same, member⟩

theorem nodes_targets {u : Nat} (targets : List Nat) (areNodes : ∀ v ∈ targets, v < n)
    (nodes : ∀ item ∈ search.heap, (ofLex item).2 < n) :
    ∀ item ∈ (targets.foldl (relaxEdge matrix u) search).heap, (ofLex item).2 < n := by
  induction targets generalizing search with
  | nil => exact nodes
  | cons v rest ih =>
    apply ih (fun w member => areNodes w (mem_cons_of_mem _ member))
    exact nodes_relaxEdge (areNodes v mem_cons_self) nodes

theorem length_targets (matrix : CostMatrix) (u : Nat) (targets : List Nat)
    (search : Search Nat ℚ) :
    (targets.foldl (relaxEdge matrix u) search).heap.length ≤
      search.heap.length + targets.length := by
  induction targets generalizing search with
  | nil => exact le_rfl
  | cons v rest ih =>
    have first := length_relaxEdge matrix u v search
    have others := ih (relaxEdge matrix u search v)
    rw [foldl_cons, length_cons]
    omega

/-- A node popped again has no edge left to relax. -/
theorem targets_settled {u : Nat} (uNode : u < n) (member : u ∈ settled) (targets : List Nat)
    (areNodes : ∀ v ∈ targets, v < n)
    (invariant : search.Invariant (matrixGraph matrix n) source infinity settled
      (fun _ _ => False)) :
    targets.foldl (relaxEdge matrix u) search = search := by
  induction targets with
  | nil => rfl
  | cons v rest ih =>
    have unchanged : relaxEdge matrix u search v = search := by
      rcases relaxEdge_cases uNode (areNodes v mem_cons_self) with
        ⟨-, same⟩ | ⟨weight, edge, relaxed⟩
      · exact same
      · rcases invariant.relaxed u member v weight edge with never | short
        · exact never.elim
        · rw [relaxed, Search.relax_worse short]
    rw [foldl_cons, unchanged]
    exact ih (fun w later => areNodes w (mem_cons_of_mem _ later))

/-- What bounds the iterations left: every node not settled yet can push `n` items. -/
def work (n : Nat) (search : Search Nat ℚ) (settled : Finset Nat) : Nat :=
  (n - settled.card) * n + search.heap.length

theorem Searching.visit (searching : Searching matrix n source search settled)
    {item : ℚ ×ₗ Nat} {rest : List (ℚ ×ₗ Nat)} (popped : search.heap = item :: rest) :
    ∃ settled', Searching matrix n source
        (Nlsr.visit matrix n { search with heap := rest } (ofLex item).1 (ofLex item).2) settled' ∧
      work n (Nlsr.visit matrix n { search with heap := rest } (ofLex item).1 (ofLex item).2)
        settled' < work n search settled := by
  have invariant := searching.invariant
  have nodes : ∀ other ∈ rest, (ofLex other).2 < n := by
    intro other member
    apply searching.nodes other
    rw [popped]
    exact mem_cons_of_mem _ member
  have uNode : (ofLex item).2 < n := by
    apply searching.nodes item
    rw [popped]
    exact mem_cons_self
  have areNodes : ∀ v ∈ List.range n, v < n := fun v member => mem_range.mp member
  have shorter : work n { search with heap := rest } settled < work n search settled := by
    unfold work
    rw [popped, length_cons]
    exact Nat.lt_succ_self _
  unfold Nlsr.visit
  by_cases stale : search.dist (ofLex item).2 < (ofLex item).1
  · rw [if_pos stale]
    exact ⟨settled, ⟨invariant.drop popped (Or.inl stale), nodes, searching.settledNodes⟩, shorter⟩
  · rw [if_neg stale]
    by_cases member : (ofLex item).2 ∈ settled
    · have dropped := invariant.drop popped (Or.inr member)
      rw [targets_settled uNode member _ areNodes dropped]
      exact ⟨settled, ⟨dropped, nodes, searching.settledNodes⟩, shorter⟩
    · have settling := invariant.settle popped stale
      have farthest : ({ search with heap := rest } : Search Nat ℚ).Farthest
          (insert (ofLex item).2 settled) (ofLex item).2 := by
        refine ⟨Finset.mem_insert_self _ _, ?_⟩
        intro a inside
        rcases Finset.mem_insert.mp inside with rfl | inside
        · exact le_rfl
        · have near := invariant.frontier a inside item (by rw [popped]; exact mem_cons_self)
          exact near.trans (not_lt.mp stale)
      refine ⟨insert (ofLex item).2 settled, ⟨?_, nodes_targets _ areNodes nodes, ?_⟩, ?_⟩
      · apply (relaxed_targets uNode _ areNodes settling farthest).mono
        intro a b weight edge ⟨same, others⟩
        exact others ⟨same, mem_range.mpr (matrixGraph_edge.mp edge).2.1⟩
      · intro a inside
        rcases Finset.mem_insert.mp inside with rfl | inside
        · exact Finset.mem_range.mpr uNode
        · exact searching.settledNodes inside
      · have pushes := length_targets matrix (ofLex item).2 (List.range n)
          { search with heap := rest }
        have room : settled.card < n := by
          have grown := Finset.card_le_card (Finset.insert_subset (Finset.mem_range.mpr uNode)
            searching.settledNodes)
          rw [Finset.card_insert_of_notMem member, Finset.card_range] at grown
          omega
        have split : n - settled.card = n - (settled.card + 1) + 1 := by omega
        rw [length_range] at pushes
        unfold work
        rw [Finset.card_insert_of_notMem member, popped, length_cons, split, Nat.add_mul,
          Nat.one_mul]
        simp only at pushes
        omega

/-- The loop ends within the work left, with the distances below infinity. -/
theorem Searching.loop (searching : Searching matrix n source search settled) {fuel : Nat}
    (enough : work n search settled ≤ fuel) :
    ∃ dist, dijkstraLoop matrix n fuel search = some dist ∧
      ∀ target distance, distance < infinity →
        (dist target = distance ↔ (matrixGraph matrix n).Distance source target distance) := by
  induction fuel generalizing search settled with
  | zero =>
    have empty : search.heap = [] := by
      unfold work at enough
      exact length_eq_zero_iff.mp (by omega)
    refine ⟨search.dist, ?_, ?_⟩
    · rw [dijkstraLoop, empty]
    · exact fun target distance => searching.invariant.distances empty target
  | succ fuel ih =>
    cases popped : search.heap with
    | nil =>
      refine ⟨search.dist, ?_, ?_⟩
      · rw [dijkstraLoop, popped]
      · exact fun target distance => searching.invariant.distances popped target
    | cons item rest =>
      rcases searching.visit popped with ⟨settled', next, less⟩
      rcases ih next (by omega) with ⟨dist, returned, distances⟩
      refine ⟨dist, ?_, distances⟩
      rw [dijkstraLoop, popped]
      exact returned

theorem dijkstra_distances (sourceNode : source < n) :
    ∃ dist, dijkstra matrix source n = some dist ∧
      ∀ target distance, distance < infinity →
        (dist target = distance ↔ (matrixGraph matrix n).Distance source target distance) := by
  have searching : Searching matrix n source (Search.initial source infinity) ∅ := by
    refine ⟨Search.invariant_initial infinity_pos, ?_, Finset.empty_subset _⟩
    intro item member
    rw [mem_singleton.mp member]
    exact sourceNode
  apply searching.loop
  unfold work
  rw [Finset.card_empty, Nat.sub_zero]
  exact le_rfl

end NdnExt.Nlsr
