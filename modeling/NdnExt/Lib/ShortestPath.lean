import Mathlib.Algebra.Order.Group.Defs
import Mathlib.Order.Bounds.Basic
/-! Shortest paths in graphs with non-negative weights. -/

namespace NdnExt.Lib

variable {V V' W : Type} [AddCommGroup W] [LinearOrder W]

@[ext]
structure WeightedGraph (V W : Type) [AddCommGroup W] [LinearOrder W] where
  edge : V → V → Option W
  nonneg : ∀ a b weight, edge a b = some weight → 0 ≤ weight

namespace WeightedGraph

/-- There is a path of the given length from `source`. -/
inductive Path (graph : WeightedGraph V W) (source : V) : V → W → Prop
  | start : Path graph source source 0
  | step {u v : V} {length weight : W} : Path graph source u length →
      graph.edge u v = some weight → Path graph source v (length + weight)

def Distance (graph : WeightedGraph V W) (source target : V) (distance : W) : Prop :=
  IsLeast {length | Path graph source target length} distance

variable {graph : WeightedGraph V W} {source : V}

theorem Path.nonneg [IsOrderedAddMonoid W] {target : V} {length : W}
    (path : Path graph source target length) : 0 ≤ length := by
  induction path with
  | start => exact le_rfl
  | step _ edge ih => exact add_nonneg ih (graph.nonneg _ _ _ edge)

/-- Labels below `limit` are lengths of paths. -/
structure Sound (graph : WeightedGraph V W) (source : V) (limit : W) (dist : V → W) : Prop where
  path : ∀ v, dist v < limit → Path graph source v (dist v)
  bounded : ∀ v, dist v ≤ limit

theorem le_of_relaxed [IsOrderedAddMonoid W] {limit : W} {dist : V → W} (start : dist source ≤ 0)
    (relaxed : ∀ u, dist u < limit →
      ∀ v weight, graph.edge u v = some weight → dist v ≤ dist u + weight)
    {target : V} {length : W} (path : Path graph source target length) (below : length < limit) :
    dist target ≤ length := by
  induction path with
  | start => exact start
  | @step u v length weight _ edge ih =>
    have longer : length ≤ length + weight := le_add_of_nonneg_right (graph.nonneg _ _ _ edge)
    have near := ih (longer.trans_lt below)
    calc
      dist v ≤ dist u + weight :=
        relaxed u (near.trans_lt (longer.trans_lt below)) v weight edge
      _ ≤ length + weight := add_le_add_left near weight

/-- Sound labels whose edges are all relaxed are the distances below the limit. -/
theorem Sound.eq_iff_distance [IsOrderedAddMonoid W] {limit : W} {dist : V → W}
    (sound : Sound graph source limit dist)
    (start : dist source ≤ 0)
    (relaxed : ∀ u, dist u < limit →
      ∀ v weight, graph.edge u v = some weight → dist v ≤ dist u + weight)
    (target : V) {distance : W} (below : distance < limit) :
    dist target = distance ↔ Distance graph source target distance := by
  constructor
  · rintro rfl
    refine ⟨sound.path target below, ?_⟩
    intro length path
    by_cases short : length < limit
    · exact le_of_relaxed start relaxed path short
    · exact below.le.trans (not_lt.mp short)
  · intro least
    have upper := le_of_relaxed start relaxed least.1 below
    exact upper.antisymm (least.2 (sound.path target (upper.trans_lt below)))

section Through

variable [DecidableEq V]

/-- The graph without the edges of `node`. -/
def avoid (graph : WeightedGraph V W) (node : V) : WeightedGraph V W where
  edge a b := if a = node ∨ b = node then none else graph.edge a b
  nonneg := by
    intro a b weight edge
    split at edge
    · cases edge
    · exact graph.nonneg a b weight edge

/-- The graph in which `node` keeps only its edges with `neighbor`. -/
def only (graph : WeightedGraph V W) (node neighbor : V) : WeightedGraph V W where
  edge a b := if a = node ∧ b ≠ neighbor ∨ b = node ∧ a ≠ neighbor then none else graph.edge a b
  nonneg := by
    intro a b weight edge
    split at edge
    · cases edge
    · exact graph.nonneg a b weight edge

variable {node neighbor : V}

theorem Path.of_avoid {target : V} {weight length : W}
    (first : graph.edge node neighbor = some weight) (proper : neighbor ≠ node)
    (path : Path (graph.avoid node) neighbor target length) :
    Path (graph.only node neighbor) node target (weight + length) ∧ target ≠ node := by
  induction path with
  | start =>
    have edge : (graph.only node neighbor).edge node neighbor = some weight := by
      simp [only, first, proper]
    have path := Path.start.step edge
    rw [zero_add] at path
    rw [add_zero]
    exact ⟨path, proper⟩
  | @step u v length' weight' _ edge ih =>
    simp only [avoid] at edge
    by_cases touches : u = node ∨ v = node
    · rw [if_pos touches] at edge
      cases edge
    · rw [if_neg touches] at edge
      rw [not_or] at touches
      have kept : (graph.only node neighbor).edge u v = some weight' := by
        simp [only, touches, edge]
      rw [← add_assoc]
      exact ⟨ih.1.step kept, touches.2⟩

/-- What leaves `node` through its only neighbour can do so once and stay away. -/
theorem Path.avoid_of_only [IsOrderedAddMonoid W] {target : V} {length : W}
    (path : Path (graph.only node neighbor) node target length) (away : target ≠ node) :
    ∃ weight rest, graph.edge node neighbor = some weight ∧ neighbor ≠ node ∧
      Path (graph.avoid node) neighbor target rest ∧ weight + rest ≤ length := by
  induction path with
  | start => exact (away rfl).elim
  | @step u v length weight before edge ih =>
    simp only [only] at edge
    split at edge
    · cases edge
    · rename_i kept
      simp only [not_or, not_and, not_not] at kept
      by_cases fromNode : u = node
      · subst fromNode
        have isNeighbor := kept.1 rfl
        subst isNeighbor
        refine ⟨weight, 0, edge, away, Path.start, ?_⟩
        rw [add_zero]
        exact le_add_of_nonneg_left before.nonneg
      · rcases ih fromNode with ⟨first, rest, firstEdge, proper, path, shorter⟩
        have inside : (graph.avoid node).edge u v = some weight := by
          simp [avoid, fromNode, away, edge]
        refine ⟨first, rest + weight, firstEdge, proper, path.step inside, ?_⟩
        rw [← add_assoc]
        exact add_le_add_left shorter weight

theorem avoid_self {target : V} {length : W}
    (path : Path (graph.avoid node) node target length) : target = node := by
  induction path with
  | start => rfl
  | step _ edge ih =>
    subst ih
    simp [avoid] at edge

theorem distance_only [IsOrderedAddMonoid W] {target : V} (away : target ≠ node) {distance : W} :
    Distance (graph.only node neighbor) node target distance ↔
      ∃ weight rest, graph.edge node neighbor = some weight ∧
        Distance (graph.avoid node) neighbor target rest ∧ distance = weight + rest := by
  constructor
  · intro ⟨path, least⟩
    rcases path.avoid_of_only away with ⟨weight, rest, first, proper, avoiding, shorter⟩
    have same : distance = weight + rest :=
      (least (avoiding.of_avoid first proper).1).antisymm shorter
    refine ⟨weight, rest, first, ⟨avoiding, ?_⟩, same⟩
    intro other path'
    have above := least (path'.of_avoid first proper).1
    rw [same] at above
    exact le_of_add_le_add_left above
  · rintro ⟨weight, rest, first, ⟨avoiding, least⟩, rfl⟩
    have proper : neighbor ≠ node := by
      rintro rfl
      exact away (avoid_self avoiding)
    refine ⟨(avoiding.of_avoid first proper).1, ?_⟩
    intro length path
    rcases Path.avoid_of_only path away with ⟨weight', rest', first', -, avoiding', shorter⟩
    rw [first] at first'
    cases first'
    exact (add_le_add_right (least avoiding') weight).trans shorter

end Through

/-- `f` renames the nodes of `graph`, those that satisfy `inside`, to nodes of `target`. -/
structure Embeds (graph : WeightedGraph V W) (target : WeightedGraph V' W) (inside : V → Prop)
    (f : V → V') : Prop where
  injective : ∀ a b, inside a → inside b → f a = f b → a = b
  edge : ∀ a b, inside a → inside b → graph.edge a b = target.edge (f a) (f b)
  within : ∀ a b weight, graph.edge a b = some weight → inside a ∧ inside b
  covers : ∀ a b weight, target.edge a b = some weight → ∃ c, inside c ∧ f c = b

variable {target : WeightedGraph V' W} {inside : V → Prop} {f : V → V'}

section

variable (embeds : Embeds graph target inside f)
include embeds

theorem Embeds.path {v : V} {length : W}
    (path : Path graph source v length) : Path target (f source) (f v) length := by
  induction path with
  | start => exact .start
  | step _ edge ih =>
    have ends := embeds.within _ _ _ edge
    rw [embeds.edge _ _ ends.1 ends.2] at edge
    exact ih.step edge

theorem Embeds.lift (starts : inside source) {v : V'}
    {length : W} (path : Path target (f source) v length) :
    ∃ u, inside u ∧ f u = v ∧ Path graph source u length := by
  induction path with
  | start => exact ⟨source, starts, rfl, .start⟩
  | step _ edge ih =>
    rcases ih with ⟨u, ofGraph, rfl, path⟩
    rcases embeds.covers _ _ _ edge with ⟨next, nextOfGraph, rfl⟩
    rw [← embeds.edge u next ofGraph nextOfGraph] at edge
    exact ⟨next, nextOfGraph, rfl, path.step edge⟩

theorem Embeds.distance_iff (starts : inside source)
    {v : V} (ends : inside v) {distance : W} :
    Distance graph source v distance ↔ Distance target (f source) (f v) distance := by
  have same : {length | Path graph source v length} =
      {length | Path target (f source) (f v) length} := by
    ext length
    constructor
    · exact embeds.path
    · intro path
      rcases embeds.lift starts path with ⟨u, ofGraph, named, found⟩
      rw [embeds.injective u v ofGraph ends named] at found
      exact found
  unfold Distance
  rw [same]

theorem Embeds.only [DecidableEq V] [DecidableEq V']
    {node neighbor : V} (nodeInside : inside node) (neighborInside : inside neighbor) :
    Embeds (graph.only node neighbor) (target.only (f node) (f neighbor)) inside f := by
  have named : ∀ a b, inside a → inside b → (f a = f b ↔ a = b) := fun a b left right =>
    ⟨embeds.injective a b left right, congrArg f⟩
  constructor
  · exact embeds.injective
  · intro a b left right
    simp only [WeightedGraph.only, ne_eq, named a node left nodeInside,
      named b node right nodeInside, named a neighbor left neighborInside,
      named b neighbor right neighborInside, embeds.edge a b left right]
  · intro a b weight edge
    simp only [WeightedGraph.only] at edge
    split at edge
    · cases edge
    · exact embeds.within a b weight edge
  · intro a b weight edge
    simp only [WeightedGraph.only] at edge
    split at edge
    · cases edge
    · exact embeds.covers a b weight edge

end

end WeightedGraph
end NdnExt.Lib
