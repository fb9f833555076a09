import NdnExt.Lib.ShortestPath
import Mathlib.Data.Finset.Insert
import Mathlib.Data.List.Sort
import Mathlib.Data.Prod.Lex

/-! Dijkstra's search with stale queue items. -/

namespace NdnExt.Lib

/-- Tentative distances, and the priority queue as the list of its items in ascending order. -/
structure Search (V W : Type) where
  dist : V → W
  heap : List (W ×ₗ V)

namespace Search

variable {V W : Type} [AddCommGroup W] [LinearOrder W] [LinearOrder V]

omit [AddCommGroup W] in
def push (search : Search V W) (cost : W) (node : V) : Search V W :=
  { search with heap := search.heap.orderedInsert (· ≤ ·) (toLex (cost, node)) }

def relax (search : Search V W) (u v : V) (weight : W) : Search V W :=
  let newDist := search.dist u + weight
  if newDist < search.dist v then
    { search with dist := Function.update search.dist v newDist }.push newDist v
  else search

omit [AddCommGroup W] in
@[simp] theorem dist_push (search : Search V W) (cost : W) (node : V) :
    (search.push cost node).dist = search.dist := rfl

omit [AddCommGroup W] in
theorem mem_push {search : Search V W} {cost : W} {node : V} {item : W ×ₗ V} :
    item ∈ (search.push cost node).heap ↔ item = toLex (cost, node) ∨ item ∈ search.heap :=
  List.mem_orderedInsert _

omit [AddCommGroup W] in
/-- A better label for `v`, queued. -/
def lower (search : Search V W) (v : V) (label : W) : Search V W :=
  { search with dist := Function.update search.dist v label }.push label v

omit [AddCommGroup W] in
theorem dist_lower (search : Search V W) (v : V) (label : W) (x : V) :
    (search.lower v label).dist x = if x = v then label else search.dist x :=
  Function.update_apply _ _ _ _

omit [AddCommGroup W] in
theorem dist_lower_settled {search : Search V W} {settled : Finset V} {v : V} {label : W}
    (fresh : v ∉ settled) {a : V} (member : a ∈ settled) :
    (search.lower v label).dist a = search.dist a := by
  rw [dist_lower, if_neg]
  intro same
  exact fresh (same ▸ member)

omit [AddCommGroup W] in
theorem dist_lower_le {search : Search V W} {v : V} {label : W} (better : label ≤ search.dist v)
    (x : V) : (search.lower v label).dist x ≤ search.dist x := by
  rw [dist_lower]
  split
  · rename_i same
    rw [same]
    exact better
  · exact le_rfl

theorem relax_better {search : Search V W} {u v : V} {weight : W}
    (better : search.dist u + weight < search.dist v) :
    search.relax u v weight = search.lower v (search.dist u + weight) :=
  if_pos better

theorem relax_worse {search : Search V W} {u v : V} {weight : W}
    (worse : search.dist v ≤ search.dist u + weight) : search.relax u v weight = search :=
  if_neg (not_lt.mpr worse)

theorem length_relax (search : Search V W) (u v : V) (weight : W) :
    (search.relax u v weight).heap.length ≤ search.heap.length + 1 := by
  by_cases better : search.dist u + weight < search.dist v
  · rw [relax_better better]
    exact (List.orderedInsert_length _ _ _).le
  · rw [relax_worse (not_lt.mp better)]
    exact Nat.le_succ _

variable (graph : WeightedGraph V W) (source : V) (limit : W)

/-- The edges of the settled nodes are relaxed, those waived apart. -/
structure Invariant (search : Search V W) (settled : Finset V) (waived : V → V → Prop) : Prop
    where
  sound : graph.Sound source limit search.dist
  start : search.dist source ≤ 0
  sorted : search.heap.Pairwise (· ≤ ·)
  above : ∀ item ∈ search.heap, search.dist (ofLex item).2 ≤ (ofLex item).1
  opened : ∀ v, search.dist v < limit → v ∈ settled ∨ toLex (search.dist v, v) ∈ search.heap
  frontier : ∀ u ∈ settled, ∀ item ∈ search.heap, search.dist u ≤ (ofLex item).1
  relaxed : ∀ u ∈ settled, ∀ v weight, graph.edge u v = some weight →
    waived u v ∨ search.dist v ≤ search.dist u + weight

variable {graph source limit}

/-- The search before its loop. -/
def initial (source : V) (limit : W) : Search V W :=
  push { dist := Function.update (fun _ => limit) source 0, heap := [] } 0 source

theorem dist_initial (v : V) :
    (initial source limit).dist v = if v = source then 0 else limit := by
  simp only [initial, dist_push, Function.update_apply]

theorem invariant_initial (positive : 0 < limit) :
    Invariant graph source limit (initial source limit) ∅ (fun _ _ => False) := by
  have queue : (initial source limit).heap = [toLex (0, source)] := rfl
  have near : ∀ v, (initial source limit).dist v < limit →
      v = source ∧ (initial source limit).dist v = 0 := by
    intro v below
    rw [dist_initial] at below ⊢
    split at below
    · rename_i same
      exact ⟨same, if_pos same⟩
    · exact (lt_irrefl _ below).elim
  constructor
  · constructor
    · intro v below
      rcases near v below with ⟨rfl, zero⟩
      rw [zero]
      exact .start
    · intro v
      rw [dist_initial]
      split
      · exact positive.le
      · exact le_rfl
  · rw [dist_initial, if_pos rfl]
  · exact List.pairwise_singleton _ _
  · intro item member
    rw [queue] at member
    rw [List.mem_singleton.mp member]
    exact ((dist_initial source).trans (if_pos rfl)).le
  · intro v below
    right
    rcases near v below with ⟨rfl, zero⟩
    rw [queue, zero]
    exact List.mem_singleton_self _
  · intro u member
    exact (Finset.notMem_empty u member).elim
  · intro u member
    exact (Finset.notMem_empty u member).elim

variable {search : Search V W} {settled : Finset V} {waived : V → V → Prop}

theorem Invariant.mono (invariant : Invariant graph source limit search settled waived)
    {waived' : V → V → Prop}
    (still : ∀ a b weight, graph.edge a b = some weight → waived a b → waived' a b) :
    Invariant graph source limit search settled waived' := by
  refine ⟨invariant.sound, invariant.start, invariant.sorted, invariant.above, invariant.opened,
    invariant.frontier, ?_⟩
  intro a member b weight edge
  exact (invariant.relaxed a member b weight edge).imp_left (still a b weight edge)

/-- An item that is stale, or whose node is settled already, can be dropped. -/
theorem Invariant.drop (invariant : Invariant graph source limit search settled waived)
    {item : W ×ₗ V} {rest : List (W ×ₗ V)} (popped : search.heap = item :: rest)
    (needless : search.dist (ofLex item).2 < (ofLex item).1 ∨ (ofLex item).2 ∈ settled) :
    Invariant graph source limit { search with heap := rest } settled waived := by
  have kept : ∀ other ∈ rest, other ∈ search.heap := by
    intro other member
    rw [popped]
    exact List.mem_cons_of_mem _ member
  constructor
  · exact invariant.sound
  · exact invariant.start
  · have sorted := invariant.sorted
    rw [popped] at sorted
    exact sorted.of_cons
  · exact fun other member => invariant.above other (kept other member)
  · intro v below
    rcases invariant.opened v below with done | queued
    · exact Or.inl done
    · rw [popped] at queued
      rcases List.mem_cons.mp queued with same | later
      · rw [← same] at needless
        rcases needless with stale | done
        · exact (lt_irrefl _ stale).elim
        · exact Or.inl done
      · exact Or.inr later
  · exact fun u member other inside => invariant.frontier u member other (kept other inside)
  · exact invariant.relaxed

/-- The popped node becomes settled, its own edges still to be relaxed. -/
theorem Invariant.settle (invariant : Invariant graph source limit search settled
      (fun _ _ => False))
    {item : W ×ₗ V} {rest : List (W ×ₗ V)} (popped : search.heap = item :: rest)
    (current : ¬ search.dist (ofLex item).2 < (ofLex item).1) :
    Invariant graph source limit { search with heap := rest } (insert (ofLex item).2 settled)
      (fun a _ => a = (ofLex item).2) := by
  have kept : ∀ other ∈ rest, other ∈ search.heap := by
    intro other member
    rw [popped]
    exact List.mem_cons_of_mem _ member
  have sorted := invariant.sorted
  rw [popped] at sorted
  have exact' : search.dist (ofLex item).2 = (ofLex item).1 := by
    apply le_antisymm
    · exact invariant.above item (by rw [popped]; exact List.mem_cons_self)
    · exact not_lt.mp current
  constructor
  · exact invariant.sound
  · exact invariant.start
  · exact sorted.of_cons
  · exact fun other member => invariant.above other (kept other member)
  · intro v below
    rcases invariant.opened v below with done | queued
    · exact Or.inl (Finset.mem_insert_of_mem done)
    · rw [popped] at queued
      rcases List.mem_cons.mp queued with same | later
      · left
        rw [← same]
        exact Finset.mem_insert_self _ _
      · exact Or.inr later
  · intro u member other inside
    rcases Finset.mem_insert.mp member with rfl | member
    · have least := (List.pairwise_cons.mp sorted).1 other inside
      change search.dist (ofLex item).2 ≤ _
      rw [exact']
      exact Prod.Lex.monotone_fst item other least
    · exact invariant.frontier u member other (kept other inside)
  · intro u member v weight edge
    rcases Finset.mem_insert.mp member with rfl | member
    · exact Or.inl rfl
    · right
      rcases invariant.relaxed u member v weight edge with never | relaxed
      · exact never.elim
      · exact relaxed

/-- `u` is settled, and no settled node is farther. -/
def Farthest (search : Search V W) (settled : Finset V) (u : V) : Prop :=
  u ∈ settled ∧ ∀ a ∈ settled, search.dist a ≤ search.dist u

section

variable (invariant : Invariant graph source limit search settled waived)
include invariant

/-- A node that is not settled takes the label of a path. -/
theorem Invariant.lower {v : V}
    {label : W} (path : label < limit → graph.Path source v label) (better : label ≤ search.dist v)
    (fresh : v ∉ settled) (beyond : ∀ a ∈ settled, search.dist a ≤ label) :
    Invariant graph source limit (search.lower v label) settled waived := by
  have lower := dist_lower_le better
  constructor
  · constructor
    · intro x below
      rw [dist_lower] at below ⊢
      split at below
      · rename_i same
        rw [if_pos same, same]
        exact path below
      · rename_i different
        rw [if_neg different]
        exact invariant.sound.path x below
    · exact fun x => (lower x).trans (invariant.sound.bounded x)
  · exact (lower source).trans invariant.start
  · exact invariant.sorted.orderedInsert _ _
  · intro item member
    rcases mem_push.mp member with rfl | member
    · exact ((dist_lower search v label v).trans (if_pos rfl)).le
    · exact (lower _).trans (invariant.above item member)
  · intro x below
    rw [dist_lower] at below ⊢
    by_cases same : x = v
    · right
      rw [if_pos same, same]
      exact mem_push.mpr (Or.inl rfl)
    · rw [if_neg same] at below ⊢
      exact (invariant.opened x below).imp_right (fun queued => mem_push.mpr (Or.inr queued))
  · intro a member item inside
    rw [dist_lower_settled fresh member]
    rcases mem_push.mp inside with rfl | inside
    · exact beyond a member
    · exact invariant.frontier a member item inside
  · intro a member x weight edge
    rw [dist_lower_settled fresh member]
    exact (invariant.relaxed a member x weight edge).imp_right ((lower x).trans ·)

/-- An edge whose labels are in order need not be waived. -/
theorem Invariant.relaxed_edge
    {u v : V} {weight : W} (edge : graph.edge u v = some weight)
    (done : search.dist v ≤ search.dist u + weight) :
    Invariant graph source limit search settled
      (fun a b => waived a b ∧ ¬ (a = u ∧ b = v)) := by
  refine ⟨invariant.sound, invariant.start, invariant.sorted, invariant.above, invariant.opened,
    invariant.frontier, ?_⟩
  intro a member x weight' edge'
  by_cases this : a = u ∧ x = v
  · rcases this with ⟨rfl, rfl⟩
    rw [edge] at edge'
    cases edge'
    exact Or.inr done
  · exact (invariant.relaxed a member x weight' edge').imp_left (fun waits => ⟨waits, this⟩)

/-- A better label is never one of a settled node. -/
theorem Invariant.relax [IsOrderedAddMonoid W] {u v : V} {weight : W}
    (farthest : search.Farthest settled u) (edge : graph.edge u v = some weight) :
    Invariant graph source limit (search.relax u v weight) settled
        (fun a b => waived a b ∧ ¬ (a = u ∧ b = v)) ∧
      (search.relax u v weight).Farthest settled u := by
  have beyond : search.dist u ≤ search.dist u + weight :=
    le_add_of_nonneg_right (graph.nonneg u v weight edge)
  by_cases better : search.dist u + weight < search.dist v
  · have fresh : v ∉ settled := by
      intro member
      exact absurd (beyond.trans_lt better) (not_lt.mpr (farthest.2 v member))
    have lowered := invariant.lower
      (fun below => (invariant.sound.path u (beyond.trans_lt below)).step edge) better.le fresh
      (fun a member => (farthest.2 a member).trans beyond)
    rw [relax_better better]
    refine ⟨lowered.relaxed_edge edge ?_, farthest.1, ?_⟩
    · rw [dist_lower_settled fresh farthest.1, dist_lower, if_pos rfl]
    · intro a member
      rw [dist_lower_settled fresh member, dist_lower_settled fresh farthest.1]
      exact farthest.2 a member
  · rw [relax_worse (not_lt.mp better)]
    exact ⟨invariant.relaxed_edge edge (not_lt.mp better), farthest⟩

end

/-- When the queue is empty, the labels below the limit are the distances. -/
theorem Invariant.distances [IsOrderedAddMonoid W]
    (invariant : Invariant graph source limit search settled (fun _ _ => False))
    (finished : search.heap = []) (target : V) {distance : W} (below : distance < limit) :
    search.dist target = distance ↔ graph.Distance source target distance := by
  apply invariant.sound.eq_iff_distance invariant.start _ target below
  intro u near v weight edge
  rcases invariant.opened u near with done | queued
  · rcases invariant.relaxed u done v weight edge with never | relaxed
    · exact never.elim
    · exact relaxed
  · rw [finished] at queued
    cases queued

end Search
end NdnExt.Lib
