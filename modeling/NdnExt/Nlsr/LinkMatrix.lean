import NdnExt.Nlsr.Topology

/-! The cost matrix after its passes: listed costs, corrected pairs, one neighbour of the source. -/

namespace NdnExt.Nlsr

open NdnExt.Lib List CostMatrix

theorem CostMatrix.set_apply (matrix : CostMatrix) (row col : Nat) (cost : ℚ) (i j : Nat) :
    matrix.set row col cost i j = if i = row ∧ j = col then cost else matrix i j := by
  unfold set
  by_cases sameRow : i = row
  · subst sameRow
    rw [Function.update_self, Function.update_apply]
    simp
  · rw [Function.update_of_ne sameRow]
    simp [sameRow]

section Build

variable {indices : HashMap Name Nat} {a b : Name} {i j : Nat}

/-- The row loop: the last listing of the neighbour counts. -/
theorem row_cell (indexed : Indexed indices) (colIndex : indices.lookup b = some j)
    (adjacencies : List Adjacent) (matrix : CostMatrix) (row : Nat) :
    adjacencies.foldl (fun matrix adj =>
        match indices.lookup adj.name with
        | none => matrix
        | some col => matrix.set row col adj.linkCost) matrix i j =
      if i = row then
        (((adjacencies.filter (fun adj => adj.name = b)).getLast?).map (·.linkCost)).getD
          (matrix i j)
      else matrix i j := by
  induction adjacencies generalizing matrix with
  | nil => simp
  | cons adj rest ih =>
    rw [foldl_cons, ih]
    by_cases here : i = row
    · rw [if_pos here, if_pos here]
      by_cases same : adj.name = b
      · have found : indices.lookup adj.name = some j := by rw [same, colIndex]
        rw [filter_cons_of_pos (by simpa using same), List.getLast?_cons, found]
        cases (rest.filter (fun adj => adj.name = b)).getLast? with
        | none => simp [set_apply, here]
        | some last => rfl
      · rw [filter_cons_of_neg (by simpa using same)]
        cases found : indices.lookup adj.name with
        | none => rfl
        | some col =>
          have other : ¬ j = col := by
            rintro rfl
            exact same (indexed.injective _ _ _ found colIndex)
          simp [set_apply, other]
    · rw [if_neg here, if_neg here]
      cases found : indices.lookup adj.name with
      | none => rfl
      | some col => simp [set_apply, here]

/-- Every LSA of the row's origin writes the same cost, and some LSA does if there is one. -/
theorem buildMatrix_scan (indexed : Indexed indices) (rowIndex : indices.lookup a = some i)
    (colIndex : indices.lookup b = some j) (lsdb : Lsdb) (adjLsas : List AdjacencyLsa)
    (held : ∀ lsa ∈ adjLsas, lsdb.adjacencyLsa lsa.originRouter = some lsa)
    (located : ∀ lsa ∈ adjLsas, ∃ k, indices.lookup lsa.originRouter = some k)
    (matrix : CostMatrix) :
    adjLsas.foldl (fun matrix lsa =>
        match indices.lookup lsa.originRouter with
        | none => matrix
        | some row =>
          lsa.adjacencies.foldl (fun matrix adj =>
            match indices.lookup adj.name with
            | none => matrix
            | some col => matrix.set row col adj.linkCost) matrix) matrix i j =
      if ∃ lsa ∈ adjLsas, lsa.originRouter = a then (lsdb.listedCost a b).getD (matrix i j)
      else matrix i j := by
  induction adjLsas generalizing matrix with
  | nil => simp
  | cons lsa rest ih =>
    rw [foldl_cons, ih (fun other member => held other (mem_cons_of_mem _ member))
      (fun other member => located other (mem_cons_of_mem _ member))]
    rcases located lsa mem_cons_self with ⟨row, rowFound⟩
    rw [rowFound]
    simp only
    rw [row_cell indexed colIndex]
    by_cases own : lsa.originRouter = a
    · have same : i = row := by
        rw [own, rowIndex] at rowFound
        exact Option.some.inj rowFound
      have listed : lsdb.listedCost a b = lsa.costTo b := by
        unfold Lsdb.listedCost
        rw [← own, held lsa mem_cons_self]
        rfl
      have originates : ∃ other ∈ lsa :: rest, other.originRouter = a :=
        ⟨lsa, mem_cons_self, own⟩
      rw [if_pos same, if_pos originates, listed]
      change (if _ then (lsa.costTo b).getD ((lsa.costTo b).getD (matrix i j))
        else (lsa.costTo b).getD (matrix i j)) = _
      cases lsa.costTo b with
      | none => simp
      | some cost => simp
    · have other : ¬ i = row := by
        rintro rfl
        exact own (indexed.injective _ _ _ rowFound rowIndex)
      rw [if_neg other]
      simp [own]

theorem buildMatrix_cell (lsdb : Lsdb) (rowIndex : (nameToIdx lsdb.adjLsas).lookup a = some i)
    (colIndex : (nameToIdx lsdb.adjLsas).lookup b = some j) :
    buildMatrix (nameToIdx lsdb.adjLsas) lsdb.adjLsas i j =
      (lsdb.listedCost a b).getD nonAdjacent := by
  have scan := buildMatrix_scan (indexed_nameToIdx _) rowIndex colIndex lsdb lsdb.adjLsas
    (fun lsa member => Lsdb.mem_adjLsas.mp member) (fun lsa member => origin_indexed member)
    (fun _ _ => nonAdjacent)
  refine Eq.trans scan ?_
  by_cases originates : ∃ lsa ∈ lsdb.adjLsas, lsa.originRouter = a
  · rw [if_pos originates]
  · rw [if_neg originates]
    have absent : lsdb.adjacencyLsa a = none := by
      cases found : lsdb.adjacencyLsa a with
      | none => rfl
      | some lsa =>
        exact (originates ⟨lsa, Lsdb.mem_adjLsas_of_adjacencyLsa found,
          Lsdb.originRouter_of_adjacencyLsa found⟩).elim
    rw [Lsdb.listedCost, absent]
    rfl

end Build

/-- What the correction pass leaves at both ends of a link. -/
def corrected (outward inward : ℚ) : ℚ :=
  if outward = inward then outward
  else if 0 ≤ outward ∧ 0 ≤ inward then max outward inward
  else nonAdjacent

theorem corrected_self (cost : ℚ) : corrected cost cost = cost := if_pos rfl

theorem corrected_comm (outward inward : ℚ) :
    corrected outward inward = corrected inward outward := by
  by_cases same : outward = inward
  · rw [same]
  · unfold corrected
    rw [if_neg same, if_neg (Ne.symm same), max_comm]
    simp only [and_comm]

theorem corrected_nonneg {outward inward : ℚ} :
    0 ≤ corrected outward inward ↔ 0 ≤ outward ∧ 0 ≤ inward := by
  by_cases same : outward = inward
  · rw [same, corrected_self, and_self_iff]
  · unfold corrected
    rw [if_neg same]
    by_cases both : 0 ≤ outward ∧ 0 ≤ inward
    · rw [if_pos both]
      exact iff_of_true (both.1.trans (le_max_left _ _)) both
    · rw [if_neg both]
      exact iff_of_false (by decide) both

theorem corrected_eq_max {outward inward : ℚ} (both : 0 ≤ outward ∧ 0 ≤ inward) :
    corrected outward inward = max outward inward := by
  by_cases same : outward = inward
  · rw [same, corrected_self, max_self]
  · exact (if_neg same).trans (if_pos both)

theorem symmetrizePair_apply (r c : Nat) (matrix : CostMatrix) (i j : Nat) :
    symmetrizePair r matrix c i j =
      if (i, j) = (r, c) ∨ (j, i) = (r, c) then corrected (matrix i j) (matrix j i)
      else matrix i j := by
  simp only [Prod.mk.injEq]
  unfold symmetrizePair
  simp only
  by_cases same : matrix r c = matrix c r
  · rw [if_pos same]
    split
    · rename_i touched
      rcases touched with ⟨rfl, rfl⟩ | ⟨rfl, rfl⟩
      · rw [← same, corrected_self]
      · rw [same, corrected_self]
    · rfl
  · have value : (if 0 ≤ matrix r c ∧ 0 ≤ matrix c r then max (matrix r c) (matrix c r)
        else nonAdjacent) = corrected (matrix r c) (matrix c r) := (if_neg same).symm
    rw [if_neg same, value, set_apply, set_apply]
    by_cases inward : i = c ∧ j = r
    · rcases inward with ⟨rfl, rfl⟩
      rw [if_pos ⟨rfl, rfl⟩, if_pos (Or.inr ⟨rfl, rfl⟩), corrected_comm]
    · rw [if_neg inward]
      by_cases outward : i = r ∧ j = c
      · rcases outward with ⟨rfl, rfl⟩
        rw [if_pos ⟨rfl, rfl⟩, if_pos (Or.inl ⟨rfl, rfl⟩)]
      · rw [if_neg outward, if_neg]
        rintro (same | same)
        · exact outward same
        · exact inward same.symm

/-- The pairs the correction pass goes through. -/
def unordered (n : Nat) : List (Nat × Nat) :=
  (List.range n).flatMap (fun r => (List.range' (r + 1) (n - (r + 1))).map (fun c => (r, c)))

theorem mem_unordered {n r c : Nat} : (r, c) ∈ unordered n ↔ r < c ∧ c < n := by
  unfold unordered
  simp only [mem_flatMap, mem_range, mem_map, mem_range'_1, Prod.mk.injEq]
  constructor
  · rintro ⟨row, below, col, bounds, rfl, rfl⟩
    omega
  · intro bounds
    exact ⟨r, by omega, c, by omega, rfl, rfl⟩

theorem symmetrize_eq (n : Nat) (matrix : CostMatrix) :
    symmetrize n matrix =
      (unordered n).foldl (fun matrix pair => symmetrizePair pair.1 matrix pair.2) matrix := by
  unfold symmetrize unordered
  rw [foldl_flatMap]
  simp only [foldl_map]

theorem symmetrizePairs_apply (pairs : List (Nat × Nat)) (matrix : CostMatrix) (i j : Nat) :
    pairs.foldl (fun matrix pair => symmetrizePair pair.1 matrix pair.2) matrix i j =
      if (i, j) ∈ pairs ∨ (j, i) ∈ pairs then corrected (matrix i j) (matrix j i)
      else matrix i j := by
  induction pairs generalizing matrix with
  | nil => simp
  | cons pair rest ih =>
    rw [foldl_cons, ih, symmetrizePair_apply, symmetrizePair_apply]
    by_cases first : (i, j) = pair ∨ (j, i) = pair
    · rw [if_pos first, if_pos first.symm, corrected_comm (matrix j i), corrected_self, ite_self,
        if_pos]
      rcases first with rfl | rfl
      · exact Or.inl mem_cons_self
      · exact Or.inr mem_cons_self
    · rw [if_neg first, if_neg (mt Or.symm first)]
      rw [not_or] at first
      simp only [mem_cons, first.1, first.2, false_or]

theorem symmetrize_cell {n i j : Nat} (row : i < n) (col : j < n) (matrix : CostMatrix) :
    symmetrize n matrix i j = corrected (matrix i j) (matrix j i) := by
  rw [symmetrize_eq, symmetrizePairs_apply]
  by_cases diagonal : i = j
  · rw [diagonal, corrected_self, ite_self]
  · rw [if_pos]
    rw [mem_unordered, mem_unordered]
    omega

theorem isolate_apply (source nbr : Nat) (cols : List Nat) (matrix : CostMatrix) (i j : Nat) :
    cols.foldl (fun sim c =>
        if c = nbr then sim
        else (set sim source c nonAdjacent).set c source nonAdjacent) matrix i j =
      if i = source ∧ j ≠ nbr ∧ j ∈ cols ∨ j = source ∧ i ≠ nbr ∧ i ∈ cols then nonAdjacent
      else matrix i j := by
  induction cols generalizing matrix with
  | nil => simp
  | cons c rest ih =>
    rw [foldl_cons, ih]
    by_cases kept : c = nbr
    · subst kept
      rw [if_pos rfl]
      congr 1
      grind
    · rw [if_neg kept, set_apply, set_apply]
      grind

theorem simulate_cell {n i j : Nat} (row : i < n) (col : j < n) (matrix : CostMatrix)
    (source nbr : Nat) :
    simulate matrix source nbr n i j =
      if i = source ∧ j ≠ nbr ∨ j = source ∧ i ≠ nbr then nonAdjacent else matrix i j := by
  unfold simulate
  rw [isolate_apply]
  simp only [mem_range, row, col, and_true]

theorem matrixGraph_simulate (matrix : CostMatrix) (source nbr n : Nat) :
    matrixGraph (simulate matrix source nbr n) n = (matrixGraph matrix n).only source nbr := by
  ext a b weight
  change (matrixGraph _ n).edge a b = some weight ↔ (if _ then none else _) = some weight
  rw [Option.ite_none_left_eq_some, matrixGraph_edge, matrixGraph_edge]
  constructor
  · intro ⟨row, col, up, same⟩
    rw [simulate_cell row col] at up same
    split at up
    · exact absurd up (by decide)
    · rename_i kept
      rw [if_neg kept] at same
      exact ⟨kept, row, col, up, same⟩
  · intro ⟨kept, row, col, up, same⟩
    rw [simulate_cell row col, if_neg kept]
    exact ⟨row, col, up, same⟩

theorem getD_nonAdjacent_nonneg {listed : Option ℚ} :
    0 ≤ listed.getD nonAdjacent ↔ ∃ cost, listed = some cost ∧ 0 ≤ cost := by
  cases listed with
  | none => exact iff_of_false (by decide) (by simp)
  | some cost => simp

variable (lsdb : Lsdb)

/-- The matrix of the route computation, after the correction pass. -/
def linkMatrix : CostMatrix :=
  symmetrize (nameToIdx lsdb.adjLsas).pairs.length
    (buildMatrix (nameToIdx lsdb.adjLsas) lsdb.adjLsas)

theorem linkMatrix_edge {a b : Name} {i j : Nat} {weight : ℚ}
    (aIndex : (nameToIdx lsdb.adjLsas).lookup a = some i)
    (bIndex : (nameToIdx lsdb.adjLsas).lookup b = some j) :
    0 ≤ linkMatrix lsdb i j ∧ linkMatrix lsdb i j = weight ↔
      lsdb.linkGraph.edge a b = some weight := by
  have indexed := indexed_nameToIdx lsdb.adjLsas
  unfold linkMatrix
  rw [symmetrize_cell (indexed.bounded a i aIndex) (indexed.bounded b j bIndex),
    buildMatrix_cell lsdb aIndex bIndex, buildMatrix_cell lsdb bIndex aIndex, corrected_nonneg,
    Lsdb.linkGraph_edge]
  constructor
  · rintro ⟨both, rfl⟩
    rw [corrected_eq_max both]
    rcases getD_nonAdjacent_nonneg.mp both.1 with ⟨outward, listed, outwardUp⟩
    rcases getD_nonAdjacent_nonneg.mp both.2 with ⟨inward, listedBack, inwardUp⟩
    rw [listed, listedBack]
    exact ⟨outward, inward, rfl, rfl, outwardUp, inwardUp, rfl⟩
  · rintro ⟨outward, inward, listed, listedBack, outwardUp, inwardUp, rfl⟩
    rw [listed, listedBack]
    exact ⟨⟨outwardUp, inwardUp⟩, corrected_eq_max ⟨outwardUp, inwardUp⟩⟩

theorem linkGraph_indexed {a b : Name} {weight : ℚ}
    (edge : lsdb.linkGraph.edge a b = some weight) :
    ∃ j, (nameToIdx lsdb.adjLsas).lookup b = some j := by
  rcases lsdb.linkGraph_edge.mp edge with ⟨_, inward, -, listedBack, -⟩
  rcases Option.bind_eq_some_iff.mp listedBack with ⟨lsa, found, -⟩
  have index := origin_indexed (Lsdb.mem_adjLsas_of_adjacencyLsa found)
  rw [Lsdb.originRouter_of_adjacencyLsa found] at index
  exact index

/-- The matrix is the link graph under the indices. -/
theorem embeds_linkGraph :
    (matrixGraph (linkMatrix lsdb) (nameToIdx lsdb.adjLsas).pairs.length).Embeds lsdb.linkGraph
      (fun i => i < (nameToIdx lsdb.adjLsas).pairs.length)
      (idxToName (nameToIdx lsdb.adjLsas)) := by
  have indexed := indexed_nameToIdx lsdb.adjLsas
  constructor
  · intro i j iNode jNode same
    rcases indexed.onto i iNode with ⟨a, aIndex⟩
    rcases indexed.onto j jNode with ⟨b, bIndex⟩
    rw [indexed.idxToName aIndex, indexed.idxToName bIndex] at same
    subst same
    exact Option.some.inj (aIndex.symm.trans bIndex)
  · intro i j iNode jNode
    rcases indexed.onto i iNode with ⟨a, aIndex⟩
    rcases indexed.onto j jNode with ⟨b, bIndex⟩
    rw [indexed.idxToName aIndex, indexed.idxToName bIndex]
    ext weight
    rw [matrixGraph_edge, linkMatrix_edge lsdb aIndex bIndex]
    simp only [iNode, jNode, true_and]
  · intro i j weight edge
    have link := matrixGraph_edge.mp edge
    exact ⟨link.1, link.2.1⟩
  · intro a b weight edge
    rcases linkGraph_indexed lsdb edge with ⟨j, bIndex⟩
    exact ⟨j, indexed.bounded b j bIndex, indexed.idxToName bIndex⟩

end NdnExt.Nlsr
