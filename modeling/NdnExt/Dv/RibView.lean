import NdnExt.Dv.Rib

/-! What a RIB entry says, independently of how it came about: the finite costs
per neighbour, and the cached fields as a summary of them. -/

namespace NdnExt.Dv

open NdnExt.Lib

/-- The cost via `hop` when it is below `INFINITY`; leftovers of the dirty reset do not count. -/
def RibEntry.finiteCost (entry : RibEntry) (hop : Name) : Option Nat :=
  (entry.costs.lookup hop).filter (fun cost => cost < infinity)

/-- `low` holds the least finite cost and the least one via another hop. -/
structure Agrees (cost : Name → Option Nat) (low : Lowest) : Prop where
  first_cap : low.lowest1 ≤ infinity
  second_cap : low.lowest2 ≤ infinity
  first_le : ∀ hop value, cost hop = some value → low.lowest1 ≤ value
  first_attained : low.lowest1 < infinity →
    ∃ hop, low.nextHop1 = some hop ∧ cost hop = some low.lowest1
  second_le : ∀ hop value, cost hop = some value → low.nextHop1 ≠ some hop →
    low.lowest2 ≤ value
  second_attained : low.lowest2 < infinity →
    ∃ hop, cost hop = some low.lowest2 ∧ low.nextHop1 ≠ some hop

/-- As `Agrees`, with ties between best hops decided by name. -/
structure Reports (cost : Name → Option Nat) (low : Lowest) : Prop extends Agrees cost low where
  first_tie : ∀ hop other, low.lowest1 < infinity → low.nextHop1 = some hop →
    cost other = some low.lowest1 → hop ≤ other

/-- A missing hop loses every tie. -/
private def hopRank : Option Name → WithTop Name
  | none => ⊤
  | some hop => hop

private def rank (cost : Nat) (hop : Option Name) : ℕ ×ₗ WithTop Name := toLex (cost, hopRank hop)

private def ranks (low : Lowest) : (ℕ ×ₗ WithTop Name) × (ℕ ×ₗ WithTop Name) :=
  (rank low.lowest1 low.nextHop1, rank low.lowest2 low.nextHop2)

private def itemRank (item : Name × Nat) : ℕ ×ₗ WithTop Name := rank item.2 (some item.1)

private theorem hopRank_injective : Function.Injective hopRank := by
  intro left right same
  cases left <;> cases right <;> simp_all [hopRank]

private theorem rank_inj {cost cost' : Nat} {hop hop' : Option Name} :
    rank cost hop = rank cost' hop' ↔ cost = cost' ∧ hop = hop' := by
  constructor
  · intro same
    have parts := Prod.mk.inj (toLex.injective same)
    exact ⟨parts.1, hopRank_injective parts.2⟩
  · rintro ⟨rfl, rfl⟩
    rfl

private theorem rank_lt_iff (cost other : Nat) (hop : Name) (nextHop : Option Name) :
    rank cost (some hop) < rank other nextHop ↔
      cost < other ∨ (cost = other ∧ nextHop.all (fun nh => hop < nh)) := by
  rw [rank, rank, Prod.Lex.toLex_lt_toLex]
  cases nextHop <;> simp [hopRank]

private theorem ranks_visit (low : Lowest) (item : Name × Nat) :
    ranks (low.visit item) = keepTwo (ranks low) (itemRank item) := by
  obtain ⟨hop, cost⟩ := item
  simp only [Lowest.visit, keepTwo, itemRank, ranks, rank_lt_iff]
  split_ifs <;> rfl

private theorem ranks_foldl (items : List (Name × Nat)) (low : Lowest) :
    ranks (items.foldl Lowest.visit low) = leastTwo (ranks low) (items.map itemRank) := by
  induction items generalizing low with
  | nil => rfl
  | cons item tail ih => rw [List.foldl_cons, ih, ranks_visit]; rfl

private theorem itemRank_injective : Function.Injective itemRank := by
  intro ⟨hop, cost⟩ ⟨hop', cost'⟩ same
  simp only [itemRank, rank_inj] at same
  rw [same.1, Option.some.inj same.2]

private theorem refresh_leastTwo (entry : RibEntry) :
    LeastTwo (ranks (refresh entry).toLowest)
      (entry.costs.pairs.map itemRank ++ [rank infinity none, rank infinity none]) := by
  have start : LeastTwo (ranks Lowest.none) [rank infinity none, rank infinity none] :=
    ⟨[], List.Perm.refl _, le_rfl, by simp⟩
  have scanned := leastTwo_least (entry.costs.pairs.map itemRank) _ _ start
  rw [← ranks_foldl] at scanned
  exact scanned

private theorem cost_le_of_rank_le {cost other : Nat} {hop nextHop : Option Name}
    (below : rank cost hop ≤ rank other nextHop) : cost ≤ other := by
  rcases Prod.Lex.toLex_le_toLex.mp below with less | ⟨same, -⟩
  · exact less.le
  · exact same.le

private theorem rank_mem_items {items : List (Name × Nat)} {cost : Nat} {hop : Option Name}
    (member : rank cost hop ∈ items.map itemRank ++ [rank infinity none, rank infinity none])
    (finite : cost < infinity) : ∃ name, hop = some name ∧ (name, cost) ∈ items := by
  rcases List.mem_append.mp member with member | member
  · obtain ⟨⟨name, value⟩, inside, same⟩ := List.mem_map.mp member
    simp only [itemRank, rank_inj] at same
    obtain ⟨rfl, rfl⟩ := same
    exact ⟨name, rfl, inside⟩
  · simp only [List.mem_cons, List.not_mem_nil, or_false, or_self, rank_inj] at member
    exact absurd finite (by simp [member.1])

theorem finiteCost_eq_some {entry : RibEntry} {hop : Name} {cost : Nat} :
    entry.finiteCost hop = some cost ↔ (hop, cost) ∈ entry.costs.pairs ∧ cost < infinity := by
  rw [RibEntry.finiteCost, Option.filter_eq_some_iff, HashMap.mem_pairs]
  simp

theorem refresh_reports (entry : RibEntry) :
    Reports entry.finiteCost (refresh entry).toLowest := by
  have least := refresh_leastTwo entry
  generalize (refresh entry).toLowest = low at least
  have itemMember : ∀ hop value, entry.finiteCost hop = some value →
      itemRank (hop, value) ∈
        entry.costs.pairs.map itemRank ++ [rank infinity none, rank infinity none] := by
    intro hop value found
    exact List.mem_append_left _ (List.mem_map_of_mem (finiteCost_eq_some.mp found).1)
  have capMember : rank infinity none ∈
      entry.costs.pairs.map itemRank ++ [rank infinity none, rank infinity none] := by simp
  constructor
  · constructor
    · exact cost_le_of_rank_le (least.first_le capMember)
    · exact cost_le_of_rank_le least.second_le_cap
    · intro hop value found
      exact cost_le_of_rank_le (least.first_le (itemMember hop value found))
    · intro finite
      obtain ⟨hop, same, inside⟩ := rank_mem_items least.first_mem finite
      exact ⟨hop, same, finiteCost_eq_some.mpr ⟨inside, finite⟩⟩
    · intro hop value found other
      apply cost_le_of_rank_le (least.second_le (itemMember hop value found) _)
      intro same
      simp only [ranks, rank_inj] at same
      exact other same.2.symm
    · intro finite
      obtain ⟨hop, same, inside⟩ := rank_mem_items least.second_mem finite
      refine ⟨hop, finiteCost_eq_some.mpr ⟨inside, finite⟩, ?_⟩
      -- a hop kept as both best and second-best would be listed twice
      intro first
      have firstCost : low.lowest1 < infinity :=
        lt_of_le_of_lt (cost_le_of_rank_le (least.first_le least.second_mem)) finite
      obtain ⟨hop', same', inside'⟩ := rank_mem_items least.first_mem firstCost
      rw [same'] at first
      cases first
      have equal : low.lowest1 = low.lowest2 := by
        have left := HashMap.mem_pairs.mp inside'
        have right := HashMap.mem_pairs.mp inside
        rw [left] at right
        exact Option.some.inj right
      apply least.first_ne_second (entry.costs.pairs_nodup.map itemRank_injective) _
      · simp only [ranks, equal, same, same']
      · intro capped
        simp only [List.mem_cons, List.not_mem_nil, or_false, or_self, ranks, rank_inj] at capped
        omega
  · intro hop other finite nextHop tied
    have below := least.first_le (itemMember other low.lowest1 tied)
    simp only [ranks, itemRank, rank, nextHop] at below
    rcases Prod.Lex.toLex_le_toLex.mp below with less | ⟨-, names⟩
    · exact absurd less (lt_irrefl _)
    · exact WithTop.coe_le_coe.mp names

/-- The reported best cost, best hop and second-best cost depend only on the finite costs. -/
theorem Reports.unique {cost : Name → Option Nat} {left right : Lowest}
    (first : Reports cost left) (second : Reports cost right) :
    left.lowest1 = right.lowest1 ∧ left.lowest2 = right.lowest2 ∧
      (left.lowest1 < infinity → left.nextHop1 = right.nextHop1) := by
  have lowest1 : ∀ {one other : Lowest}, Reports cost one → Reports cost other →
      one.lowest1 ≤ other.lowest1 := by
    intro one other here there
    by_cases finite : other.lowest1 < infinity
    · obtain ⟨hop, -, found⟩ := there.first_attained finite
      exact here.first_le hop _ found
    · exact here.first_cap.trans (not_lt.mp finite)
  have equal : left.lowest1 = right.lowest1 :=
    le_antisymm (lowest1 first second) (lowest1 second first)
  have nextHop : left.lowest1 < infinity → left.nextHop1 = right.nextHop1 := by
    intro finite
    obtain ⟨hop, same, found⟩ := first.first_attained finite
    obtain ⟨hop', same', found'⟩ := second.first_attained (equal ▸ finite)
    have le := first.first_tie hop hop' finite same (equal ▸ found')
    have ge := second.first_tie hop' hop (equal ▸ finite) same' (equal ▸ found)
    rw [same, same', le_antisymm le ge]
  have lowest2 : ∀ {one other : Lowest}, Reports cost one → Reports cost other →
      (other.lowest1 < infinity → one.nextHop1 = other.nextHop1) →
      one.lowest2 ≤ other.lowest2 := by
    intro one other here there hops
    by_cases finite : other.lowest2 < infinity
    · obtain ⟨hop, found, differs⟩ := there.second_attained finite
      have below : other.lowest1 < infinity := lt_of_le_of_lt (there.first_le hop _ found) finite
      exact here.second_le hop _ found (by rw [hops below]; exact differs)
    · exact here.second_cap.trans (not_lt.mp finite)
  refine ⟨equal, le_antisymm ?_ ?_, nextHop⟩
  · exact lowest2 first second (fun finite => nextHop (equal ▸ finite))
  · exact lowest2 second first (fun finite => (nextHop finite).symm)

/-- Nothing is reachable through an entry whose best cost is `INFINITY`. -/
theorem Agrees.unreachable {cost : Name → Option Nat} {low : Lowest} (agrees : Agrees cost low)
    (finite : ∀ hop value, cost hop = some value → value < infinity) :
    ¬ low.lowest1 < infinity ↔ ∀ hop, cost hop = none := by
  constructor
  · intro above hop
    cases found : cost hop with
    | none => rfl
    | some value =>
      exact absurd (lt_of_le_of_lt (agrees.first_le hop value found) (finite hop value found)) above
  · intro empty below
    obtain ⟨hop, -, found⟩ := agrees.first_attained below
    rw [empty hop] at found
    cases found

theorem finiteCost_lt {entry : RibEntry} {hop : Name} {cost : Nat}
    (found : entry.finiteCost hop = some cost) : cost < infinity :=
  (finiteCost_eq_some.mp found).2

end NdnExt.Dv
