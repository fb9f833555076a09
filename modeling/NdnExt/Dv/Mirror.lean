import NdnExt.Dv.Recompute
import NdnExt.Lib.Run
import Mathlib.Order.Bounds.Basic

/-! When the engine RIB mirrors the latest DV computation. -/

namespace NdnExt.Dv

open NdnExt.Lib List

/-- The cost the engine RIB has for one prefix and face after a round: a face no longer listed is
removed, and of the costs that were not installed the last one added stays. -/
def cellAfter (prev next : List Nat) (before : Option Nat) : Option Nat :=
  if next = [] then (if prev = [] then before else none)
  else ((next.filter (fun cost => cost ∉ prev)).getLast?).or before

/-- Every cost but the lowest was installed, and the lowest too only where it was the lowest. -/
def Consistent (installed listed : Set Nat) : Prop :=
  ∀ lowest, IsLeast listed lowest →
    (∀ cost ∈ listed, cost = lowest ∨ cost ∈ installed) ∧
      (lowest ∈ installed → IsLeast installed lowest)

theorem getLast?_sorted {items : List Nat} (sorted : items.Pairwise (· ≤ ·)) {last : Nat}
    (found : items.getLast? = some last) : last ∈ items ∧ ∀ item ∈ items, item ≤ last := by
  induction items with
  | nil => cases found
  | cons head tail ih =>
    rw [pairwise_cons] at sorted
    cases tail with
    | nil =>
      cases found
      simp
    | cons next rest =>
      rw [List.getLast?_cons_cons] at found
      rcases ih sorted.2 found with ⟨member, above⟩
      refine ⟨mem_cons_of_mem _ member, ?_⟩
      intro item inside
      rcases mem_cons.mp inside with same | inside
      · rw [same]
        exact sorted.1 last member
      · exact above item inside

theorem min?_eq_some_iff_isLeast {items : List Nat} {lowest : Nat} :
    items.min? = some lowest ↔ IsLeast {cost | cost ∈ items} lowest := by
  rw [List.min?_eq_some_iff]
  rfl

theorem cellAfter_lowest {prev next : List Nat} (sorted : next.Pairwise (· ≤ ·)) :
    cellAfter prev next prev.min? = next.min? ↔
      Consistent {cost | cost ∈ prev} {cost | cost ∈ next} := by
  unfold cellAfter
  by_cases empty : next = []
  · subst empty
    rw [if_pos rfl]
    constructor
    · intro _ lowest least
      exact absurd least.1 (by simp)
    · intro _
      split
      · subst prev
        rfl
      · rfl
  · rw [if_neg empty]
    rcases Option.isSome_iff_exists.mp (isSome_min?_of_ne_nil empty) with ⟨lowest, found⟩
    have least := min?_eq_some_iff_isLeast.mp found
    have unique : ∀ other, IsLeast {cost | cost ∈ next} other → other = lowest :=
      fun other also => also.unique least
    rw [found]
    cases added : (next.filter (fun cost => cost ∉ prev)).getLast? with
    | none =>
      -- nothing new: the engine keeps its route, the lowest installed cost
      have old : ∀ cost ∈ next, cost ∈ prev := by
        have nothing := List.getLast?_eq_none_iff.mp added
        simpa using nothing
      rw [Option.none_or, min?_eq_some_iff_isLeast]
      constructor
      · intro kept other also
        rw [unique other also]
        exact ⟨fun cost member => Or.inr (old cost member), fun _ => kept⟩
      · intro consistent
        exact (consistent lowest least).2 (old lowest least.1)
    | some last =>
      -- the greatest new cost wins, so it has to be the lowest of all
      rcases getLast?_sorted (sorted.sublist filter_sublist) added with ⟨member, above⟩
      simp only [mem_filter, decide_not, Bool.not_eq_eq_eq_not, Bool.not_true,
        decide_eq_false_iff_not] at member above
      rw [Option.some_or, Option.some.injEq]
      constructor
      · intro same other also
        subst same
        rw [unique other also]
        refine ⟨?_, fun installed => absurd installed member.2⟩
        intro cost inside
        by_cases installed : cost ∈ prev
        · exact Or.inr installed
        · left
          exact le_antisymm (above cost ⟨inside, installed⟩) (least.2 inside)
      · intro consistent
        rcases (consistent lowest least).1 last member.1 with same | installed
        · exact same
        · exact absurd installed member.2

section engine

variable {R : Type} (engine : EngineRib R) (dvr childInherit : Nat)

theorem route_adds (adds : List (Name × NextHop)) (rib : R) (prefixName : Name) (face : Nat) :
    engine.route (adds.foldl
        (fun rib item => engine.add rib item.1 (dvrRoute dvr childInherit item.2)) rib)
        prefixName face dvr =
      (((adds.filter (fun item => item.1 = prefixName ∧ item.2.face = face)).map
          (fun item => item.2.cost)).getLast?.map
            (fun cost => dvrRoute dvr childInherit { cost := cost, face := face })).or
        (engine.route rib prefixName face dvr) := by
  induction adds using List.reverseRecOn with
  | nil => simp
  | append_singleton adds item ih =>
    rw [foldl_append, filter_append, map_append, foldl_cons, foldl_nil,
      engine.route_add]
    by_cases same : item.1 = prefixName ∧ item.2.face = face
    · rcases same with ⟨rfl, rfl⟩
      simp [dvrRoute]
    · have other : ¬ (prefixName = item.1 ∧
          face = (dvrRoute dvr childInherit item.2).faceId ∧
            dvr = (dvrRoute dvr childInherit item.2).origin) := by
        intro found
        exact same ⟨found.1.symm, found.2.1.symm⟩
      rw [if_neg other, ih]
      simp [same]

theorem route_removes (removes : List (Name × Nat)) (rib : R) (prefixName : Name) (face : Nat) :
    engine.route (removes.foldl (fun rib item => engine.remove rib item.1 item.2 dvr) rib)
        prefixName face dvr =
      if (prefixName, face) ∈ removes then none else engine.route rib prefixName face dvr := by
  induction removes generalizing rib with
  | nil => simp
  | cons item tail ih =>
    rw [foldl_cons, ih, engine.route_remove]
    by_cases later : (prefixName, face) ∈ tail
    · simp [later]
    · by_cases same : prefixName = item.1 ∧ face = item.2
      · rcases same with ⟨rfl, rfl⟩
        simp
      · have other : ¬ (prefixName, face) = item := by
          intro found
          subst found
          exact same ⟨rfl, rfl⟩
        simp only [and_true, if_neg same, mem_cons, or_false, other, later]

/-- What one round leaves in the engine RIB, prefix by prefix and face by face. -/
theorem route_recompute (state : LoopState R) (updates : List FibUpdate) (prefixName : Name)
    (face : Nat) (before : Option Nat)
    (current : engine.route state.engineRib prefixName face dvr =
      before.map (fun cost => dvrRoute dvr childInherit { cost := cost, face := face })) :
    engine.route (recompute engine dvr childInherit state updates).engineRib prefixName face dvr =
      (cellAfter (costsFor state.installed prefixName face)
          (costsFor (collectUpdates updates) prefixName face) before).map
        (fun cost => dvrRoute dvr childInherit { cost := cost, face := face }) := by
  have added := planned_adds state.installed updates prefixName face
  have removed := @mem_planned_removes state.installed updates prefixName face
  unfold recompute cellAfter
  generalize computeDiffPlan state.installed updates = planned at added removed
  rcases planned with ⟨plan, newInstalled⟩
  simp only at added removed ⊢
  rw [← added]
  by_cases gone : costsFor (collectUpdates updates) prefixName face = []
  · rw [if_pos gone]
    have noAdds : plan.adds.filter (fun item => item.1 = prefixName ∧ item.2.face = face) = [] := by
      simpa [gone] using added
    by_cases fresh : costsFor state.installed prefixName face = []
    · rw [if_pos fresh]
      split
      · exact current
      · rw [applyPlan, route_removes, route_adds, noAdds, if_neg]
        · simpa using current
        · exact fun member => (removed.mp member).1 fresh
    · rw [if_neg fresh]
      have member := removed.mpr ⟨fresh, gone⟩
      rw [if_neg, applyPlan, route_removes, if_pos member]
      · rfl
      · intro empty
        simp only [Bool.and_eq_true, List.isEmpty_iff] at empty
        rw [empty.2] at member
        cases member
  · rw [if_neg gone]
    have kept : (prefixName, face) ∉ plan.removes := fun member => gone (removed.mp member).2
    split
    · rename_i empty
      simp only [Bool.and_eq_true, List.isEmpty_iff] at empty
      simpa [empty.1] using current
    · rw [applyPlan, route_removes, if_neg kept, route_adds, current, Option.map_or]

/-- The routes of origin DVR are exactly one for each listed prefix and face, at the lowest cost
listed for it. -/
def Mirrors (listed : Name → Nat → Set Nat) (rib : R) : Prop :=
  ∀ prefixName face route, engine.route rib prefixName face dvr = some route ↔
    ∃ lowest, IsLeast (listed prefixName face) lowest ∧
      route = dvrRoute dvr childInherit { cost := lowest, face := face }

def installedCosts (state : Installed) (prefixName : Name) (face : Nat) : Set Nat :=
  {cost | cost ∈ costsFor state prefixName face}

theorem mirrors_installed_iff (state : Installed) (rib : R) :
    Mirrors engine dvr childInherit (installedCosts state) rib ↔
      ∀ prefixName face, engine.route rib prefixName face dvr =
        (costsFor state prefixName face).min?.map
          (fun cost => dvrRoute dvr childInherit { cost := cost, face := face }) := by
  constructor
  · intro mirrors prefixName face
    apply Option.ext
    intro route
    rw [mirrors, Option.map_eq_some_iff]
    simp only [min?_eq_some_iff_isLeast, installedCosts, @eq_comm _ route]
  · intro lowest prefixName face route
    rw [lowest, Option.map_eq_some_iff]
    simp only [min?_eq_some_iff_isLeast, installedCosts, @eq_comm _ route]

theorem dvrRoute_injective (face : Nat) :
    Function.Injective (fun cost => dvrRoute dvr childInherit { cost := cost, face := face }) := by
  intro left right same
  exact congrArg RibRoute.cost same

/-- A round that starts from a mirror of `installed` ends in a mirror of the new computation
exactly when the new costs are consistent with the installed ones. -/
theorem recompute_mirrors_iff (state : LoopState R) (updates : List FibUpdate)
    (sorted : ∀ prefixName face,
      (costsFor (collectUpdates updates) prefixName face).Pairwise (· ≤ ·))
    (mirrors : Mirrors engine dvr childInherit (installedCosts state.installed) state.engineRib) :
    Mirrors engine dvr childInherit (installedCosts (collectUpdates updates))
        (recompute engine dvr childInherit state updates).engineRib ↔
      ∀ prefixName face, Consistent (installedCosts state.installed prefixName face)
        (installedCosts (collectUpdates updates) prefixName face) := by
  rw [mirrors_installed_iff] at mirrors ⊢
  apply forall_congr'
  intro prefixName
  apply forall_congr'
  intro face
  rw [route_recompute engine dvr childInherit state updates prefixName face _
      (mirrors prefixName face),
    (Option.map_injective (dvrRoute_injective dvr childInherit face)).eq_iff]
  exact cellAfter_lowest (sorted prefixName face)

/-- What was mirrored stays mirrored in `installed`, also by a round with an empty plan. -/
theorem recompute_keeps_mirror (state : LoopState R) (updates : List FibUpdate)
    (before : Mirrors engine dvr childInherit (installedCosts state.installed) state.engineRib)
    (after : Mirrors engine dvr childInherit (installedCosts (collectUpdates updates))
      (recompute engine dvr childInherit state updates).engineRib) :
    Mirrors engine dvr childInherit
      (installedCosts (recompute engine dvr childInherit state updates).installed)
      (recompute engine dvr childInherit state updates).engineRib := by
  unfold recompute at after ⊢
  have stored : (computeDiffPlan state.installed updates).2 = collectUpdates updates := rfl
  generalize computeDiffPlan state.installed updates = planned at after stored
  rcases planned with ⟨plan, newInstalled⟩
  simp only at after stored ⊢
  split
  · exact before
  · rw [if_neg ‹_›] at after
    rw [stored]
    exact after

end engine

section loop

/-- What one round reads: the RIB, the prefix table and the faces of the neighbours. -/
structure Snapshot where
  rib : DvRib
  prefixTable : PrefixTable
  faceForNeighbor : Name → Option Nat

def Snapshot.updates (network : Name) (snapshot : Snapshot) : List FibUpdate :=
  computeFibUpdates snapshot.prefixTable network snapshot.faceForNeighbor snapshot.rib

/-- The costs a snapshot has for one prefix and face. -/
def Snapshot.listed (network : Name) (snapshot : Snapshot) (prefixName : Name) (face : Nat) :
    Set Nat :=
  {cost | ListedHop snapshot.prefixTable network snapshot.faceForNeighbor snapshot.rib prefixName
    { cost := cost, face := face }}

theorem rowOf_collect_sorted (rows : HashMap Name (List NextHop)) (route : Name) :
    rowOf (collectUpdates (sortedUpdates rows)) route =
      (rowOf rows route).insertionSort (· ≤ ·) := by
  have perm : ((sortedUpdates rows).map (fun u => (u.prefixName, u.nextHops))).Perm
      (rows.mapValues (fun _ nextHops => nextHops.insertionSort (· ≤ ·))).pairs := by
    rw [HashMap.pairs_mapValues]
    have sorted := (perm_insertionSort (fun a b : FibUpdate => a.prefixName ≤ b.prefixName)
      (rows.pairs.map (fun row =>
        { prefixName := row.1, nextHops := row.2.insertionSort (· ≤ ·) }))).map
      (fun u => (u.prefixName, u.nextHops))
    rw [map_map] at sorted
    exact sorted
  have distinct : (((sortedUpdates rows).map (fun u => (u.prefixName, u.nextHops))).map
      Prod.fst).Nodup := by
    rw [(perm.map Prod.fst).nodup_iff]
    exact HashMap.pairs_keys_nodup _
  have same : (collectUpdates (sortedUpdates rows)).lookup route =
      (rows.lookup route).map (fun nextHops => nextHops.insertionSort (· ≤ ·)) := by
    apply Option.ext
    intro row
    rw [collectUpdates, HashMap.lookup_ofPairs distinct, perm.mem_iff, HashMap.mem_pairs,
      HashMap.lookup_mapValues]
  rw [rowOf, same, rowOf]
  cases rows.lookup route <;> rfl

theorem installedCosts_updates (network : Name) (snapshot : Snapshot) :
    installedCosts (collectUpdates (snapshot.updates network)) = snapshot.listed network := by
  funext prefixName face
  ext cost
  rw [installedCosts, Set.mem_ofPred_eq, mem_costsFor, Snapshot.updates, computeFibUpdates,
    rowOf_collect_sorted, (perm_insertionSort _ _).mem_iff, mem_mergedRows]
  rfl

theorem updates_sorted (network : Name) (snapshot : Snapshot) (prefixName : Name) (face : Nat) :
    (costsFor (collectUpdates (snapshot.updates network)) prefixName face).Pairwise (· ≤ ·) := by
  rw [costsFor, Snapshot.updates, computeFibUpdates, rowOf_collect_sorted, pairwise_map]
  apply List.Pairwise.sublist filter_sublist
  apply List.Pairwise.imp _ (pairwise_insertionSort _ _)
  intro left right below
  rcases Prod.Lex.toLex_le_toLex.mp below with less | ⟨same, -⟩
  · exact less.le
  · exact same.le

variable {R : Type} (engine : EngineRib R) (dvr childInherit : Nat) (network : Name)

def recomputeRound (state : LoopState R) (snapshot : Snapshot) : LoopState R :=
  recompute engine dvr childInherit state (snapshot.updates network)

/-- The engine RIB mirrors the latest computation after every round exactly when in every round,
for every prefix and face, all costs but the lowest were installed before, and the lowest one too
only where it was the lowest. -/
theorem loop_mirrors_iff (rib : R)
    (clean : ∀ prefixName face, engine.route rib prefixName face dvr = none)
    (snapshots : List Snapshot) :
    Run.Throughout (recomputeRound engine dvr childInherit network) ⟨∅, rib⟩ snapshots
        (fun before snapshot => Mirrors engine dvr childInherit (snapshot.listed network)
          (recomputeRound engine dvr childInherit network before snapshot).engineRib) ↔
      Run.Throughout (recomputeRound engine dvr childInherit network) ⟨∅, rib⟩ snapshots
        (fun before snapshot => ∀ prefixName face,
          Consistent (installedCosts before.installed prefixName face)
            (snapshot.listed network prefixName face)) := by
  apply Run.throughout_iff (fun state =>
    Mirrors engine dvr childInherit (installedCosts state.installed) state.engineRib)
  · intro state snapshot mirrors
    have step := recompute_mirrors_iff engine dvr childInherit state (snapshot.updates network)
      (updates_sorted network snapshot) mirrors
    rw [installedCosts_updates] at step
    exact step
  · intro state snapshot mirrors now
    apply recompute_keeps_mirror engine dvr childInherit state (snapshot.updates network) mirrors
    rw [installedCosts_updates]
    exact now
  · rw [mirrors_installed_iff]
    intro prefixName face
    rw [clean]
    simp [costsFor, rowOf]

end loop

/-! A router that reaches one exit router, then two, behind the same neighbour. -/

def hashEngine : EngineRib (HashMap (Name × Nat × Nat) RibRoute) where
  route rib prefixName face origin := rib.lookup (prefixName, face, origin)
  add rib prefixName added := rib.insert (prefixName, added.faceId, added.origin) added
  remove rib prefixName face origin := rib.erase (prefixName, face, origin)
  route_add _ _ _ _ _ _ := by
    rw [HashMap.lookup_insert_eq]
    simp only [Prod.mk.injEq]
  route_remove _ _ _ _ _ _ _ := by
    rw [HashMap.lookup_erase_eq]
    simp only [Prod.mk.injEq]

def announcing (router : Name) : PrefixOpList :=
  { exitRouter := router, reset := true
    adds := [{ name := Name.single 112, cost := 0 }], removes := [] }

def exits (rows : List AdvEntry) : Snapshot where
  rib := ((DvRib.new (Name.single 97)).applyAdvertisement (Name.single 98) ⟨rows⟩).1
  prefixTable := ((PrefixTable.new (Name.single 97)).applyOpList (announcing (Name.single 99))).1
    |>.applyOpList (announcing (Name.single 100)) |>.1
  faceForNeighbor neighbor := if neighbor = Name.single 98 then some 7 else none

def farExit : Snapshot := exits [⟨Name.single 100, Name.single 100, 2, 16⟩]

def bothExits : Snapshot :=
  exits [⟨Name.single 99, Name.single 99, 1, 16⟩, ⟨Name.single 100, Name.single 100, 2, 16⟩]

abbrev sampleRound := recomputeRound hashEngine 127 1 (Name.single 110)

def routeCost (state : LoopState (HashMap (Name × Nat × Nat) RibRoute)) : Option Nat :=
  (hashEngine.route state.engineRib (Name.single 112) 7 127).map RibRoute.cost

/-- The later add, at the higher cost, wins; with another history the same snapshot gives
another route. -/
theorem bothExits_not_mirrored :
    ¬ Run.Throughout sampleRound ⟨∅, ∅⟩ [bothExits]
      (fun before snapshot => Mirrors hashEngine 127 1 (snapshot.listed (Name.single 110))
        (sampleRound before snapshot).engineRib) ∧
    routeCost ([bothExits].foldl sampleRound ⟨∅, ∅⟩) = some 3 ∧
    routeCost ([farExit, bothExits].foldl sampleRound ⟨∅, ∅⟩) = some 2 := by
  refine ⟨?_, by decide, by decide⟩
  intro all
  have mirrors := all [] bothExits [] rfl
  have lists : 2 ∈ bothExits.listed (Name.single 110) (Name.single 112) 7 := by
    rw [← installedCosts_updates]
    change 2 ∈ costsFor (collectUpdates (bothExits.updates (Name.single 110))) (Name.single 112) 7
    decide
  have installed : hashEngine.route (sampleRound ⟨∅, ∅⟩ bothExits).engineRib (Name.single 112) 7
      127 = some (dvrRoute 127 1 { cost := 3, face := 7 }) := by decide
  rcases (mirrors (Name.single 112) 7 _).mp installed with ⟨lowest, least, same⟩
  have cost : 3 = lowest := congrArg RibRoute.cost same
  have below := least.2 lists
  omega

theorem loop_mirrors_iff_farExit :
    Run.Throughout sampleRound ⟨∅, ∅⟩ [farExit]
      (fun before snapshot => Mirrors hashEngine 127 1 (snapshot.listed (Name.single 110))
        (sampleRound before snapshot).engineRib) := by
  apply (loop_mirrors_iff hashEngine 127 1 (Name.single 110) ∅ (fun _ _ => rfl) [farExit]).mpr
  rw [Run.throughout_cons]
  refine ⟨?_, Run.throughout_nil _ _⟩
  have distinct : (((farExit.updates (Name.single 110)).map
      (fun u => (u.prefixName, u.nextHops))).map Prod.fst).Nodup := by decide
  have single : ∀ item ∈ (farExit.updates (Name.single 110)).map
      (fun u => (u.prefixName, u.nextHops)), ∀ hop ∈ item.2, hop.cost = 3 := by decide
  have only : ∀ prefixName face, ∀ cost ∈ farExit.listed (Name.single 110) prefixName face,
      cost = 3 := by
    intro prefixName face cost listed
    rw [← installedCosts_updates] at listed
    have member := mem_costsFor.mp listed
    rw [rowOf] at member
    cases found : (collectUpdates (farExit.updates (Name.single 110))).lookup prefixName with
    | none => simp [found] at member
    | some row =>
      rw [found, Option.getD_some] at member
      exact single _ ((HashMap.lookup_ofPairs distinct).mp found) _ member
  intro prefixName face lowest least
  constructor
  · intro cost listed
    left
    rw [only _ _ cost listed, only _ _ lowest least.1]
  · intro installed
    simp [installedCosts, costsFor, rowOf] at installed

end NdnExt.Dv
