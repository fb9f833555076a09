import Mathlib.Combinatorics.SimpleGraph.Metric
import Mathlib.Tactic.NormNum

/-! Distance vectors with split horizon on a graph. A node records, per neighbour,
one more than what the neighbour reaches without coming back, so a recorded cost
is the length of a walk that never turns around at its second step; whatever else
was recorded at the start grows by one in every exchange and dies at the cap. -/

namespace NdnExt.Lib.DistanceVector

variable {V D : Type} (G : SimpleGraph V) (home : V → D) (cap : ℕ)

/-- `cost node destination via` is what `node` records; `via = node` is its own row. -/
abbrev Table (V D : Type) := V → D → V → Option ℕ

/-- A node's own row reaches its home at no cost, and nothing else. -/
def OwnRow (cost : Table V D) : Prop :=
  ∀ node destination value,
    cost node destination node = some value ↔ destination = home node ∧ value = 0

def ViaNeighbours (cost : Table V D) : Prop :=
  ∀ node destination via value,
    cost node destination via = some value → via = node ∨ G.Adj node via

/-- Every node replaces what it recorded for each neighbour by what that neighbour reached
before the exchange without coming back. -/
structure Exchange (before after : Table V D) : Prop where
  sound : ∀ node destination via value, G.Adj node via →
    after node destination via = some value →
    ∃ next previous, next ≠ node ∧ before via destination next = some previous ∧
      value = previous + 1
  complete : ∀ node destination via next previous, G.Adj node via →
    destination ≠ home node → next ≠ node → before via destination next = some previous →
    previous + 1 < cap → ∃ value, value ≤ previous + 1 ∧ after node destination via = some value

variable {G home cap}

theorem exists_next {node target : V} {length : ℕ} (far : G.edist node target = (length + 1 : ℕ)) :
    ∃ next, G.Adj node next ∧ G.edist next target = length := by
  obtain ⟨walk, measured⟩ := SimpleGraph.exists_walk_of_edist_eq_coe far
  cases walk with
  | nil => simp at measured
  | @cons _ next _ adjacent tail =>
    simp only [SimpleGraph.Walk.length_cons, Nat.add_right_cancel_iff] at measured
    refine ⟨next, adjacent, le_antisymm ?_ ?_⟩
    · rw [← measured]
      exact SimpleGraph.edist_le tail
    · have triangle : G.edist node target ≤ G.edist node next + G.edist next target :=
        SimpleGraph.edist_triangle
      rw [far, SimpleGraph.edist_eq_one_iff_adj.mpr adjacent] at triangle
      rw [Nat.cast_add, Nat.cast_one, add_comm] at triangle
      exact (ENat.add_le_add_iff_left (by simp)).mp triangle

variable (G home cap) in
/-- The tables before and after each of `cap` exchanges. -/
structure Run (cost : ℕ → Table V D) : Prop where
  own : ∀ round ≤ cap, OwnRow home (cost round)
  neighbours : ∀ round ≤ cap, ViaNeighbours G (cost round)
  exchange : ∀ round < cap, Exchange G home cap (cost round) (cost (round + 1))

variable {cost : ℕ → Table V D} (run : Run G home cap cost)

include run

/-- A recorded cost is as old as the run, or some home is that near. -/
theorem recorded_near (round : ℕ) (inRun : round ≤ cap) (node : V) (destination : D) (via : V)
    (value : ℕ) (found : cost round node destination via = some value) :
    round ≤ value ∨ ∃ target, home target = destination ∧ G.edist node target ≤ value := by
  induction round generalizing node destination via value with
  | zero => exact Or.inl (Nat.zero_le _)
  | succ round ih =>
    rcases run.neighbours (round + 1) inRun node destination via value found with same | adjacent
    · subst same
      have row := (run.own (round + 1) inRun via destination value).mp found
      right
      exact ⟨via, row.1.symm, by simp⟩
    · obtain ⟨next, previous, -, reached, equal⟩ :=
        (run.exchange round inRun).sound node destination via value adjacent found
      subst equal
      rcases ih (by omega) via destination next previous reached with old | near
      · left
        omega
      · obtain ⟨target, lives, near⟩ := near
        right
        refine ⟨target, lives, ?_⟩
        calc
          G.edist node target ≤ G.edist node via + G.edist via target :=
            SimpleGraph.edist_triangle
          _ = 1 + G.edist via target := by
            rw [SimpleGraph.edist_eq_one_iff_adj.mpr adjacent]
          _ ≤ 1 + (previous : ℕ∞) := by gcongr
          _ = ((previous + 1 : ℕ) : ℕ∞) := by rw [Nat.cast_add, Nat.cast_one, add_comm]

variable (injective : Function.Injective home)

include injective

/-- After as many exchanges as its length, every shortest path is recorded at its first hop. -/
theorem shortest_recorded (round : ℕ) (inRun : round ≤ cap) (node target via : V) (length : ℕ)
    (adjacent : G.Adj node via) (onPath : G.edist via target = length)
    (far : G.edist node target = (length + 1 : ℕ)) (travelled : length + 1 ≤ round)
    (below : length + 1 < cap) :
    ∃ value, value ≤ length + 1 ∧ cost round node (home target) via = some value := by
  induction round generalizing node via length with
  | zero => omega
  | succ round ih =>
    have elsewhere : home target ≠ home node := by
      intro same
      rw [injective same, SimpleGraph.edist_self] at far
      exact absurd far (by norm_cast)
    cases length with
    | zero =>
      have arrived : via = target := by simpa using onPath
      subst arrived
      have row := (run.own round (by omega) via (home via) 0).mpr ⟨rfl, rfl⟩
      have away : via ≠ node := fun same => elsewhere (by rw [same])
      exact (run.exchange round inRun).complete node _ via via 0 adjacent elsewhere away row below
    | succ length =>
      obtain ⟨next, adjacent', onPath'⟩ := exists_next onPath
      obtain ⟨previous, bound, reached⟩ :=
        ih (by omega) via next length adjacent' onPath' onPath (by omega) (by omega)
      have away : next ≠ node := by
        intro same
        rw [same, far] at onPath'
        have impossible : length + 1 + 1 = length := by exact_mod_cast onPath'
        omega
      obtain ⟨value, bound', recorded⟩ := (run.exchange round inRun).complete node _ via next
        previous adjacent elsewhere away reached (by omega)
      exact ⟨value, by omega, recorded⟩

/-- After `cap` exchanges the least recorded cost to a home nearer than the cap is its distance. -/
theorem least_recorded (node target : V) (length : ℕ) (far : G.edist node target = length)
    (below : length < cap) :
    (∃ via value, value ≤ length ∧ cost cap node (home target) via = some value) ∧
      ∀ via value, cost cap node (home target) via = some value → value < cap →
        length ≤ value := by
  constructor
  · cases length with
    | zero =>
      have arrived : node = target := by simpa using far
      subst arrived
      exact ⟨node, 0, le_rfl, (run.own cap le_rfl node _ 0).mpr ⟨rfl, rfl⟩⟩
    | succ length =>
      obtain ⟨via, adjacent, onPath⟩ := exists_next far
      exact ⟨via, shortest_recorded run injective cap le_rfl node
        target via length adjacent onPath far (by omega) below⟩
  · intro via value found small
    rcases recorded_near run cap le_rfl node _ via value found with
      old | near
    · omega
    · obtain ⟨other, lives, near⟩ := near
      rw [injective lives, far] at near
      exact_mod_cast near

omit injective in
/-- After `cap` exchanges nothing below the cap is recorded to a destination without a home
nearer than the cap. -/
theorem ghost_forgotten (node : V) (destination : D)
    (far : ∀ target, home target = destination → (cap : ℕ∞) ≤ G.edist node target)
    (via : V) (value : ℕ) (found : cost cap node destination via = some value) : cap ≤ value := by
  rcases recorded_near run cap le_rfl node _ via value found with
    old | near
  · exact old
  · obtain ⟨target, lives, near⟩ := near
    exact_mod_cast (far target lives).trans near

end NdnExt.Lib.DistanceVector
