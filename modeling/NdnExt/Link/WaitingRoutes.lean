import NdnExt.Link.Trust

/-! The routes to the waiting face, in its table and in the forwarder. -/

namespace NdnExt.Link

open NdnExt.Lib List

inductive WaitFor where
  | peer (id : PeerId)
  | asleep (key : KeyFingerprint)
  deriving DecidableEq

def waitingCost : UInt32 := 1000

/-- A call of `route` that has updated the table: the prefixes it took from it that it has not
looked up again, those it has not found there, and those it put there first. -/
structure RouteCall where
  unchecked : List Name
  stale : List Name
  fresh : List Name
  deriving DecidableEq

inductive RouteOp where
  | check (name : Name)
  | remove (name : Name)
  | add (name : Name)
  deriving DecidableEq

/-- `routed` are the forwarder's routes to the face. -/
structure Waiting where
  routes : List (Name × WaitFor)
  routed : HashMap Name UInt32
  calls : List RouteCall

inductive WaitingAction where
  | route (target : WaitFor) (prefixes : List Name)
  | unroute (target : WaitFor)
  | proceed (call : Nat)

/-- What a call does next. -/
def RouteCall.next (call : RouteCall) : Option RouteOp :=
  match call.unchecked, call.stale, call.fresh with
  | name :: _, _, _ => some (.check name)
  | [], name :: _, _ => some (.remove name)
  | [], [], name :: _ => some (.add name)
  | [], [], [] => none

namespace RouteCall

variable {call : RouteCall} {name : Name}

theorem unchecked_of_next (next : call.next = some (.check name)) :
    call.unchecked = name :: call.unchecked.tail := by
  obtain ⟨_ | ⟨head, rest⟩, _ | ⟨first, more⟩, _ | ⟨new, others⟩⟩ := call
  all_goals cases next
  all_goals rfl

theorem stale_of_next (next : call.next = some (.remove name)) :
    call.unchecked = [] ∧ call.stale = name :: call.stale.tail := by
  obtain ⟨_ | ⟨head, rest⟩, _ | ⟨first, more⟩, _ | ⟨new, others⟩⟩ := call
  all_goals cases next
  all_goals exact ⟨rfl, rfl⟩

theorem fresh_of_next (next : call.next = some (.add name)) :
    call.fresh = name :: call.fresh.tail := by
  obtain ⟨_ | ⟨head, rest⟩, _ | ⟨first, more⟩, _ | ⟨new, others⟩⟩ := call
  all_goals cases next
  all_goals rfl

theorem nothing_of_next (next : call.next = none) :
    call.unchecked = [] ∧ call.stale = [] ∧ call.fresh = [] := by
  obtain ⟨_ | ⟨head, rest⟩, _ | ⟨first, more⟩, _ | ⟨new, others⟩⟩ := call
  all_goals cases next
  exact ⟨rfl, rfl, rfl⟩

end RouteCall

namespace Waiting

def start : Waiting := ⟨[], ∅, []⟩

def stillRouted (state : Waiting) (name : Name) : Bool := state.routes.any fun r => r.1 = name

/-- A call updates the table. -/
def route (state : Waiting) (target : WaitFor) (prefixes : List Name) : Waiting :=
  let stale := (state.routes.filter fun r => r.2 = target && !prefixes.contains r.1).map Prod.fst
  let kept := state.routes.filter fun r => r.2 ≠ target
  let fresh := prefixes.filter fun name => !kept.any fun r => r.1 = name
  { state with
    routes := kept ++ prefixes.map fun name => (name, target)
    calls := state.calls ++ [⟨stale, [], fresh⟩] }

def unroute (state : Waiting) (target : WaitFor) : Waiting := state.route target []

def perform (state : Waiting) (call : RouteCall) : RouteOp → RouteCall × HashMap Name UInt32
  | .check name =>
    let stale := if state.stillRouted name then call.stale else call.stale ++ [name]
    (⟨call.unchecked.tail, stale, call.fresh⟩, state.routed)
  | .remove name => (⟨call.unchecked, call.stale.tail, call.fresh⟩, state.routed.erase name)
  | .add name =>
    (⟨call.unchecked, call.stale, call.fresh.tail⟩, state.routed.insert name waitingCost)

def proceed (state : Waiting) (index : Nat) : Waiting :=
  match state.calls[index]? with
  | none => state
  | some call =>
    match call.next with
    | none => state
    | some op =>
      let (call, routed) := state.perform call op
      { state with routed, calls := state.calls.set index call }

def step (state : Waiting) : WaitingAction → Waiting
  | .route target prefixes => state.route target prefixes
  | .unroute target => state.unroute target
  | .proceed call => state.proceed call

def Settled (state : Waiting) : Prop := ∀ call ∈ state.calls, call.next = none

instance (state : Waiting) : Decidable state.Settled :=
  inferInstanceAs (Decidable (∀ call ∈ state.calls, call.next = none))

/-- The forwarder routes what the table does. -/
def Mirrors (state : Waiting) : Prop := ∀ name, name ∈ state.routed ↔ state.stillRouted name = true

/-- Some call will add it. -/
def adding (state : Waiting) (name : Name) : Bool :=
  state.calls.any fun call => call.fresh.contains name

/-- Some call will remove it, if it is not in the table when the call looks. -/
def leaving (state : Waiting) (name : Name) : Bool :=
  state.calls.any fun call => (call.unchecked ++ call.stale).contains name

/-- A call removes what the table does not have or what another call will add again, and adds what
the table has or what another call will remove again. -/
def orderly (state : Waiting) : WaitingAction → Bool
  | .proceed index =>
    match (state.calls[index]?).bind RouteCall.next with
    | some (.remove name) => !state.stillRouted name || state.adding name
    | some (.add name) => state.stillRouted name || state.leaving name
    | _ => true
  | _ => true

theorem any_set {A : Type} {items : List A} {index : Nat} {item changed : A} {p : A → Bool}
    (found : items[index]? = some item) (keeps : p item = true → p changed = true)
    (among : items.any p = true) : (items.set index changed).any p = true := by
  obtain ⟨other, member, held⟩ := any_eq_true.mp among
  obtain ⟨position, here⟩ := mem_iff_getElem?.mp member
  apply any_eq_true.mpr
  by_cases same : position = index
  · subst same
    cases found.symm.trans here
    have inside := (List.getElem?_eq_some_iff.mp found).1
    exact ⟨changed, mem_iff_getElem?.mpr ⟨position, List.getElem?_set_self inside⟩, keeps held⟩
  · refine ⟨other, mem_iff_getElem?.mpr ⟨position, ?_⟩, held⟩
    rw [List.getElem?_set_ne (Ne.symm same)]
    exact here

/-- The forwarder routes what the table does, or a call will see to it. -/
structure Covered (state : Waiting) : Prop where
  routed : ∀ name ∈ state.routed, state.stillRouted name = true ∨ state.leaving name = true
  listed : ∀ name, state.stillRouted name = true → name ∈ state.routed ∨ state.adding name = true

theorem covered_start : Covered start where
  routed := by
    intro name impossible
    exact absurd impossible (AList.notMem_empty name)
  listed := by
    intro name impossible
    cases impossible

variable {state : Waiting}

theorem covered_route (covered : Covered state) (target : WaitFor) (prefixes : List Name) :
    Covered (state.route target prefixes) := by
  have more : ∀ p : RouteCall → Bool, ∀ call, state.calls.any p = true →
      (state.calls ++ [call]).any p = true := by
    intro p call among
    rw [any_append, among]
    rfl
  constructor
  · intro name member
    rcases covered.routed name member with held | leaves
    · obtain ⟨r, listed, same⟩ := any_eq_true.mp held
      by_cases wanted : name ∈ prefixes
      · left
        apply any_eq_true.mpr
        exact ⟨(name, target), mem_append_right _ (mem_map_of_mem wanted), by simp⟩
      · by_cases own : r.2 = target
        · right
          apply any_eq_true.mpr
          refine ⟨_, mem_append_right _ (mem_singleton_self _), ?_⟩
          rw [append_nil, contains_iff_mem]
          refine mem_map.mpr ⟨r, mem_filter.mpr ⟨listed, ?_⟩, of_decide_eq_true same⟩
          rw [of_decide_eq_true same]
          simpa [own] using wanted
        · left
          apply any_eq_true.mpr
          exact ⟨r, mem_append_left _ (mem_filter.mpr ⟨listed, decide_eq_true own⟩), same⟩
    · exact Or.inr (more _ _ leaves)
  · intro name held
    obtain ⟨r, listed, same⟩ := any_eq_true.mp held
    by_cases kept : (state.routes.filter fun r => r.2 ≠ target).any fun r => r.1 = name
    · obtain ⟨r', listed', same'⟩ := any_eq_true.mp kept
      have before : state.stillRouted name = true :=
        any_eq_true.mpr ⟨r', (mem_filter.mp listed').1, same'⟩
      rcases covered.listed name before with there | later
      · exact Or.inl there
      · exact Or.inr (more _ _ later)
    · right
      apply any_eq_true.mpr
      refine ⟨_, mem_append_right _ (mem_singleton_self _), ?_⟩
      rw [contains_iff_mem]
      refine mem_filter.mpr ⟨?_, by rw [Bool.eq_false_of_not_eq_true kept]; rfl⟩
      rcases mem_append.mp listed with old | new
      · exact absurd (any_eq_true.mpr ⟨r, old, same⟩) kept
      · obtain ⟨name', wanted, rfl⟩ := mem_map.mp new
        rw [← of_decide_eq_true same]
        exact wanted

section Proceeding

variable {index : Nat} {call : RouteCall} {name : Name}

theorem covered_check (covered : Covered state) (found : state.calls[index]? = some call)
    (next : call.next = some (.check name)) :
    Covered { state with calls := state.calls.set index (state.perform call (.check name)).1 } := by
  have unchecked := RouteCall.unchecked_of_next next
  constructor
  · intro other member
    rcases covered.routed other member with held | leaves
    · exact Or.inl held
    · by_cases here : other = name ∧ state.stillRouted name = true
      · left
        rw [here.1]
        exact here.2
      · right
        refine any_set found ?_ leaves
        intro among
        rw [contains_iff_mem, mem_append, unchecked, mem_cons] at among
        rw [contains_iff_mem, mem_append]
        rcases among with (same | later) | known
        · right
          have new : state.stillRouted name = false :=
            Bool.eq_false_of_not_eq_true fun held => here ⟨same, held⟩
          simp only [perform, new, same]
          exact mem_append_right _ (mem_singleton_self _)
        · exact Or.inl later
        · right
          simp only [perform]
          split
          · exact known
          · exact mem_append_left _ known
  · intro other held
    rcases covered.listed other held with there | later
    · exact Or.inl there
    · exact Or.inr (any_set found id later)

theorem covered_remove (covered : Covered state) (found : state.calls[index]? = some call)
    (next : call.next = some (.remove name))
    (allowed : state.stillRouted name = true → state.adding name = true) :
    Covered { state with
      routed := state.routed.erase name
      calls := state.calls.set index (state.perform call (.remove name)).1 } := by
  obtain ⟨_, stale⟩ := RouteCall.stale_of_next next
  constructor
  · intro other member
    obtain ⟨different, there⟩ := AList.mem_erase.mp member
    rcases covered.routed other there with held | leaves
    · exact Or.inl held
    · right
      refine any_set found ?_ leaves
      intro among
      rw [contains_iff_mem, mem_append, stale, mem_cons] at among
      rw [contains_iff_mem, mem_append]
      rcases among with known | same | later
      · exact Or.inl known
      · exact absurd same different
      · exact Or.inr later
  · intro other held
    have kept : state.adding other = true →
        (state.calls.set index (state.perform call (.remove name)).1).any
          (fun call => call.fresh.contains other) = true := any_set found id
    by_cases same : other = name
    · rw [same] at held kept ⊢
      exact Or.inr (kept (allowed held))
    · rcases covered.listed other held with there | later
      · exact Or.inl (AList.mem_erase.mpr ⟨same, there⟩)
      · exact Or.inr (kept later)

theorem covered_add (covered : Covered state) (found : state.calls[index]? = some call)
    (next : call.next = some (.add name))
    (allowed : state.stillRouted name = true ∨ state.leaving name = true) :
    Covered { state with
      routed := state.routed.insert name waitingCost
      calls := state.calls.set index (state.perform call (.add name)).1 } := by
  have fresh := RouteCall.fresh_of_next next
  constructor
  · intro other member
    have reason : state.stillRouted other = true ∨ state.leaving other = true := by
      rcases (AList.mem_insert _).mp member with rfl | there
      · exact allowed
      · exact covered.routed other there
    exact reason.imp_right fun leaves => any_set found id leaves
  · intro other held
    by_cases same : other = name
    · exact Or.inl ((AList.mem_insert _).mpr (Or.inl same))
    · rcases covered.listed other held with there | later
      · exact Or.inl ((AList.mem_insert _).mpr (Or.inr there))
      · right
        refine any_set found ?_ later
        intro among
        rw [contains_iff_mem, fresh, mem_cons] at among
        rw [contains_iff_mem]
        exact among.resolve_left same

end Proceeding

theorem covered_step (covered : Covered state) {action : WaitingAction}
    (orderly : state.orderly action = true) : Covered (state.step action) := by
  cases action with
  | route target prefixes => exact covered_route covered target prefixes
  | unroute target => exact covered_route covered target []
  | proceed index =>
    dsimp only [step, proceed]
    cases found : state.calls[index]? with
    | none => exact covered
    | some call =>
      dsimp only
      cases next : call.next with
      | none => exact covered
      | some op =>
        simp only [Waiting.orderly, found, Option.bind_some, next] at orderly
        cases op with
        | check name => exact covered_check covered found next
        | remove name =>
          refine covered_remove covered found next ?_
          simpa [imp_iff_not_or] using orderly
        | add name =>
          refine covered_add covered found next ?_
          simpa using orderly

/-- Once no call is at work, nothing is left to a call. -/
theorem Covered.mirrors (covered : Covered state) (settled : state.Settled) : Mirrors state := by
  intro name
  constructor
  · intro member
    rcases covered.routed name member with held | leaves
    · exact held
    · obtain ⟨call, among, known⟩ := any_eq_true.mp leaves
      obtain ⟨unchecked, stale, _⟩ := RouteCall.nothing_of_next (settled call among)
      rw [unchecked, stale] at known
      cases known
  · intro held
    rcases covered.listed name held with there | later
    · exact there
    · obtain ⟨call, among, known⟩ := any_eq_true.mp later
      rw [(RouteCall.nothing_of_next (settled call among)).2.2] at known
      cases known

theorem mirrors_of_orderly (actions : List WaitingAction)
    (orderly : Run.Throughout step start actions fun state action => state.orderly action = true)
    (settled : (actions.foldl step start).Settled) : Mirrors (actions.foldl step start) := by
  have covered := @Run.foldl_of_throughout _ _ step Covered _
    (fun _ _ covered orderly => covered_step covered orderly) start covered_start actions orderly
  exact covered.mirrors settled

/-! ### Two targets -/

namespace Targets

def near : Name := ⟨[.generic [110]]⟩

def far : Name := ⟨[.generic [102]]⟩

def sleeper : WaitFor := .asleep ⟨.replicate 32 1⟩

/-- The second target keeps the route the first one gives up. -/
def shared : List WaitingAction :=
  [.route sleeper [near], .proceed 0, .route (.peer ⟨0⟩) [near, far], .proceed 1, .unroute sleeper,
    .proceed 2]

theorem shared_mirrors : Mirrors (shared.foldl step start) :=
  mirrors_of_orderly shared (by decide +kernel) (by decide +kernel)

/-- The device sleeps and wakes, and the call that routes it comes last to the forwarder. -/
def lateRoute : List WaitingAction :=
  [.route sleeper [near], .unroute sleeper, .proceed 1, .proceed 1, .proceed 0]

theorem late_route_stays : ¬∀ actions : List WaitingAction,
    (actions.foldl step start).Settled → Mirrors (actions.foldl step start) := by
  intro always
  have mirrors := always lateRoute (by decide +kernel)
  have held : near ∈ (lateRoute.foldl step start).routed := by decide +kernel
  have listed := (mirrors near).mp held
  have gone : (lateRoute.foldl step start).stillRouted near = false := by decide +kernel
  rw [gone] at listed
  cases listed

end Targets

end Waiting
end NdnExt.Link
