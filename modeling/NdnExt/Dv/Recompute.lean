import NdnExt.Dv.Fib

/-! The recompute loop: the FIB computation of each round is compared with what was
installed before, and the difference is applied to the engine RIB. -/

namespace NdnExt.Dv

open NdnExt.Lib List

abbrev Installed := HashMap Name (List NextHop)

structure FibPlan where
  adds : List (Name × NextHop)
  removes : List (Name × Nat)
  affected : Finset Name

def FibPlan.default : FibPlan := ⟨[], [], ∅⟩

def collectUpdates (newUpdates : List FibUpdate) : Installed :=
  HashMap.ofPairs (newUpdates.map (fun u => (u.prefixName, u.nextHops)))

/-- A prefix that is no longer computed loses all its faces. -/
def planGone (newState : Installed) (plan : FibPlan) (item : Name × List NextHop) : FibPlan :=
  if item.1 ∈ newState then plan
  else
    { plan with
      removes := plan.removes ++ item.2.map (fun hop => (item.1, hop.face))
      affected := insert item.1 plan.affected }

def wasInstalled (prevHops : Option (List NextHop)) (hop : NextHop) : Bool :=
  (prevHops.map (fun p => p.any (fun h => h.face = hop.face ∧ h.cost = hop.cost))).getD false

/-- A next hop is added unless that face and cost were installed; a face is removed when no
next hop has it any more. -/
def planPrefix (prev : Installed) (plan : FibPlan) (item : Name × List NextHop) : FibPlan :=
  let (prefixName, newHops) := item
  let prevHops := prev.lookup prefixName
  let adds := newHops.filter (fun hop => !wasInstalled prevHops hop)
  let removes := (prevHops.getD []).filter (fun prevHop =>
    !newHops.any (fun h => h.face = prevHop.face))
  let delta := !adds.isEmpty ||
    match prevHops with
    | some _ => !removes.isEmpty
    | none => !newHops.isEmpty
  { adds := plan.adds ++ adds.map (fun hop => (prefixName, hop))
    removes := plan.removes ++ removes.map (fun prevHop => (prefixName, prevHop.face))
    affected := if delta then insert prefixName plan.affected else plan.affected }

def computeDiffPlan (prev : Installed) (newUpdates : List FibUpdate) : FibPlan × Installed :=
  let newState := collectUpdates newUpdates
  (newState.pairs.foldl (planPrefix prev) (prev.pairs.foldl (planGone newState) FibPlan.default),
   newState)

structure RibRoute where
  faceId : Nat
  origin : Nat
  cost : Nat
  flags : Nat
  expiresAt : Option Nat
  deriving DecidableEq

/-- The engine RIB, which is not part of this repository: one route for each prefix, face and
origin, which `add` replaces and `remove` deletes. -/
structure EngineRib (R : Type) where
  route : R → Name → Nat → Nat → Option RibRoute
  add : R → Name → RibRoute → R
  remove : R → Name → Nat → Nat → R
  route_add : ∀ rib target added prefixName face origin,
    route (add rib target added) prefixName face origin =
      if prefixName = target ∧ face = added.faceId ∧ origin = added.origin then some added
      else route rib prefixName face origin
  route_remove : ∀ rib target removed from' prefixName face origin,
    route (remove rib target removed from') prefixName face origin =
      if prefixName = target ∧ face = removed ∧ origin = from' then none
      else route rib prefixName face origin

section engine

variable {R : Type} (engine : EngineRib R) (dvr childInherit : Nat)

def dvrRoute (hop : NextHop) : RibRoute :=
  { faceId := hop.face, origin := dvr, cost := hop.cost, flags := childInherit, expiresAt := none }

/-- The effect of a plan on the engine RIB; `apply_to_fib` only reads it. -/
def applyPlan (plan : FibPlan) (rib : R) : R :=
  plan.removes.foldl (fun rib item => engine.remove rib item.1 item.2 dvr)
    (plan.adds.foldl (fun rib item => engine.add rib item.1 (dvrRoute dvr childInherit item.2)) rib)

structure LoopState (R : Type) where
  installed : Installed
  engineRib : R

/-- One turn of `recompute_loop`; an empty plan leaves `installed` as it is. -/
def recompute (state : LoopState R) (updates : List FibUpdate) : LoopState R :=
  let (plan, newInstalled) := computeDiffPlan state.installed updates
  if plan.adds.isEmpty && plan.removes.isEmpty then state
  else
    { installed := newInstalled
      engineRib := applyPlan engine dvr childInherit plan state.engineRib }

end engine

theorem foldl_planGone (newState : Installed) (items : List (Name × List NextHop))
    (plan : FibPlan) :
    (items.foldl (planGone newState) plan).adds = plan.adds ∧
      (items.foldl (planGone newState) plan).removes =
        plan.removes ++ items.flatMap (fun item =>
          if item.1 ∈ newState then [] else item.2.map (fun hop => (item.1, hop.face))) := by
  induction items generalizing plan with
  | nil => simp
  | cons item tail ih =>
    rw [foldl_cons, (ih _).1, (ih _).2, flatMap_cons]
    unfold planGone
    split
    · simp
    · simp

theorem foldl_planPrefix (prev : Installed) (items : List (Name × List NextHop))
    (plan : FibPlan) :
    (items.foldl (planPrefix prev) plan).adds =
        plan.adds ++ items.flatMap (fun item =>
          (item.2.filter (fun hop => !wasInstalled (prev.lookup item.1) hop)).map
            (fun hop => (item.1, hop))) ∧
      (items.foldl (planPrefix prev) plan).removes =
        plan.removes ++ items.flatMap (fun item =>
          ((rowOf prev item.1).filter (fun prevHop =>
            !item.2.any (fun h => h.face = prevHop.face))).map
              (fun prevHop => (item.1, prevHop.face))) := by
  induction items generalizing plan with
  | nil => simp
  | cons item tail ih =>
    rw [foldl_cons, (ih _).1, (ih _).2, flatMap_cons, flatMap_cons]
    simp only [planPrefix, rowOf, append_assoc, and_self]

/-- The costs a state has for one prefix and face, in its order. -/
def costsFor (state : Installed) (prefixName : Name) (face : Nat) : List Nat :=
  ((rowOf state prefixName).filter (fun hop => hop.face = face)).map NextHop.cost

theorem mem_costsFor {state : Installed} {prefixName : Name} {face cost : Nat} :
    cost ∈ costsFor state prefixName face ↔
      { cost := cost, face := face } ∈ rowOf state prefixName := by
  simp only [costsFor, mem_map, mem_filter, decide_eq_true_eq]
  constructor
  · intro found
    rcases found with ⟨hop, ⟨member, same⟩, rfl⟩
    rw [← same]
    exact member
  · intro member
    exact ⟨_, ⟨member, rfl⟩, rfl⟩

theorem wasInstalled_iff {prev : Installed} {prefixName : Name} {hop : NextHop} :
    wasInstalled (prev.lookup prefixName) hop = true ↔
      hop.cost ∈ costsFor prev prefixName hop.face := by
  rw [mem_costsFor, rowOf, wasInstalled]
  cases prev.lookup prefixName with
  | none => simp
  | some hops =>
    simp only [Option.map_some, Option.getD_some, any_eq_true, decide_eq_true_eq]
    constructor
    · intro found
      rcases found with ⟨other, member, face, cost⟩
      rw [← face, ← cost]
      exact member
    · intro member
      exact ⟨hop, member, rfl, rfl⟩

/-- For one prefix and face, the costs that are added are the new ones. -/
theorem planned_adds (prev : Installed) (updates : List FibUpdate) (prefixName : Name)
    (face : Nat) :
    ((computeDiffPlan prev updates).1.adds.filter
        (fun item => item.1 = prefixName ∧ item.2.face = face)).map (fun item => item.2.cost) =
      (costsFor (collectUpdates updates) prefixName face).filter
        (fun cost => cost ∉ costsFor prev prefixName face) := by
  have adds : (computeDiffPlan prev updates).1.adds =
      (collectUpdates updates).pairs.flatMap (fun item =>
        (item.2.filter (fun hop => !wasInstalled (prev.lookup item.1) hop)).map
          (fun hop => (item.1, hop))) := by
    simp only [computeDiffPlan]
    rw [(foldl_planPrefix prev _ _).1, (foldl_planGone _ _ _).1]
    rfl
  have split : ∀ items : List (Name × NextHop),
      items.filter (fun item => item.1 = prefixName ∧ item.2.face = face) =
        (items.filter (fun item => item.1 = prefixName)).filter
          (fun item => item.2.face = face) := by
    intro items
    rw [filter_filter]
    congr 1
    funext item
    simp [and_comm]
  rw [adds, split, HashMap.filter_collected (collectUpdates updates)
    (fun key hops => hops.filter (fun hop => !wasInstalled (prev.lookup key) hop)) prefixName]
  simp only [costsFor, rowOf]
  cases (collectUpdates updates).lookup prefixName with
  | none => rfl
  | some hops =>
    simp only [Option.map_some, Option.getD_some, filter_map, map_map,
      filter_filter, Function.comp_def]
    congr 1
    apply filter_congr
    intro hop _
    by_cases same : hop.face = face
    · subst same
      have installed : wasInstalled (prev.lookup prefixName) hop = true ↔
          hop.cost ∈ costsFor prev prefixName hop.face := wasInstalled_iff
      simp only [costsFor, rowOf] at installed
      simp [← installed]
    · simp [same]

/-- A prefix and face are removed when they were installed and are not computed any more. -/
theorem mem_planned_removes {prev : Installed} {updates : List FibUpdate} {prefixName : Name}
    {face : Nat} :
    (prefixName, face) ∈ (computeDiffPlan prev updates).1.removes ↔
      costsFor prev prefixName face ≠ [] ∧
        costsFor (collectUpdates updates) prefixName face = [] := by
  have present : ∀ state : Installed, costsFor state prefixName face ≠ [] ↔
      ∃ hop ∈ rowOf state prefixName, hop.face = face := by
    intro state
    simp [costsFor, filter_eq_nil_iff]
  have absent : costsFor (collectUpdates updates) prefixName face = [] ↔
      ¬ ∃ hop ∈ rowOf (collectUpdates updates) prefixName, hop.face = face := by
    rw [← present, not_not]
  rw [present, absent]
  simp only [computeDiffPlan]
  rw [(foldl_planPrefix prev _ _).2, (foldl_planGone _ _ _).2]
  generalize collectUpdates updates = newState
  simp only [FibPlan.default, nil_append, mem_append, mem_flatMap, Prod.exists,
    HashMap.mem_pairs]
  constructor
  · intro found
    rcases found with ⟨key, hops, lookup, member⟩ | ⟨key, hops, lookup, member⟩
    · split at member
      · cases member
      · rcases mem_map.mp member with ⟨hop, inside, same⟩
        cases same
        refine ⟨⟨hop, by simpa [rowOf, lookup] using inside, rfl⟩, ?_⟩
        intro kept
        have gone : newState.lookup prefixName = none := AList.lookup_eq_none.mpr ‹_›
        simp [rowOf, gone] at kept
    · rcases mem_map.mp member with ⟨hop, inside, same⟩
      cases same
      rw [mem_filter] at inside
      refine ⟨⟨hop, inside.1, rfl⟩, ?_⟩
      simpa [rowOf, lookup] using inside.2
  · intro found
    rcases found with ⟨⟨hop, inside, same⟩, gone⟩
    subst same
    cases lookup : newState.lookup prefixName with
    | none =>
      left
      cases before : prev.lookup prefixName with
      | none => simp [rowOf, before] at inside
      | some hops =>
        refine ⟨prefixName, hops, before, ?_⟩
        rw [if_neg (AList.lookup_eq_none.mp lookup)]
        exact mem_map.mpr ⟨hop, by simpa [rowOf, before] using inside, rfl⟩
    | some hops =>
      right
      refine ⟨prefixName, hops, lookup, mem_map.mpr ⟨hop, ?_, rfl⟩⟩
      rw [mem_filter]
      refine ⟨inside, ?_⟩
      simpa [rowOf, lookup] using gone

end NdnExt.Dv
