import NdnExt.Dv.Prefix
import NdnExt.Lib.Pointwise
import NdnExt.Lib.Run
import Mathlib.Data.Finset.Sort

/-! The readvertise loop of the distance-vector protocol: local announcements that follow the
snapshots of the RIB. -/

namespace NdnExt.Dv

open NdnExt.Lib List PrefixTable

def readvertiseCost : Nat := 0

/-- The prefix table beside what the loop itself announced, which lives across calls. -/
structure Readvertising where
  announced : Finset Name
  table : PrefixTable

/-- The closure of `announced.retain`, with the `changed` flag it updates. -/
def retainOne (wanted : List Name) (run : Readvertising × Bool) (prefixName : Name) :
    Readvertising × Bool :=
  if prefixName ∈ wanted then run
  else
    let (table, withdrawn) := run.1.table.withdrawLocal prefixName
    ({ announced := run.1.announced.erase prefixName, table := table }, run.2 || withdrawn.isSome)

/-- The loop body over `wanted`. -/
def announceOne (run : Readvertising × Bool) (prefixName : Name) : Readvertising × Bool :=
  if prefixName ∈ run.1.announced then run
  else
    let (table, told) := run.1.table.announceLocal prefixName readvertiseCost
    ({ announced := insert prefixName run.1.announced, table := table }, run.2 || told.isSome)

/-- Withdraw what is no longer wanted, then announce what is new. The flag tells whether the table
changed. -/
def reconcileReadvertised (wanted : List Name) (state : Readvertising) : Readvertising × Bool :=
  let retained := (state.announced.sort (· ≤ ·)).foldl (retainOne wanted) (state, false)
  wanted.foldl announceOne retained

/-- What a call owes the other sources, whose announcements are those of `original`. -/
structure OwnsOnlyItsOwn (original : PrefixTable) (state : Readvertising) (wanted : List Name) :
    Prop where
  announces : ∀ prefixName ∈ wanted,
    ((reconcileReadvertised wanted state).1.table.localPrefixes.lookup prefixName).isSome
  keeps : ∀ prefixName, prefixName ∉ wanted →
    (reconcileReadvertised wanted state).1.table.localPrefixes.lookup prefixName =
      original.localPrefixes.lookup prefixName
  tells : (reconcileReadvertised wanted state).2 = true ↔
    (reconcileReadvertised wanted state).1.table.snap ≠ state.table.snap

/-! ### Snapshots of the table -/

theorem mem_snap_adds {table : PrefixTable} {add : PrefixOpAdd} :
    add ∈ table.snap.adds ↔ table.localPrefixes.lookup add.name = some add.cost := by
  rw [snap, (perm_insertionSort _ _).mem_iff, mem_map]
  constructor
  · rintro ⟨item, member, rfl⟩
    exact HashMap.mem_pairs.mp member
  · intro found
    exact ⟨(add.name, add.cost), HashMap.mem_pairs.mpr found, rfl⟩

/-- Two tables of one router have the same snapshot exactly when they announce the same. -/
theorem snap_eq_iff {left right : PrefixTable} (same : left.selfRouter = right.selfRouter) :
    left.snap = right.snap ↔
      ∀ prefixName, left.localPrefixes.lookup prefixName = right.localPrefixes.lookup prefixName := by
  constructor
  · intro snaps prefixName
    apply Option.ext
    intro cost
    have adds : (⟨prefixName, cost⟩ : PrefixOpAdd) ∈ left.snap.adds ↔ ⟨prefixName, cost⟩ ∈ right.snap.adds := by
      rw [snaps]
    exact (mem_snap_adds.symm.trans adds).trans mem_snap_adds
  · intro lookups
    have perm := (HashMap.pairs_perm left.localPrefixes right.localPrefixes lookups).map
      (fun item => { name := item.1, cost := item.2 : PrefixOpAdd })
    have adds : left.snap.adds = right.snap.adds := by
      apply List.Perm.eq_of_pairwise _ (pairwise_insertionSort _ _)
        (pairwise_insertionSort _ _)
        (((perm_insertionSort _ _).trans perm).trans (perm_insertionSort _ _).symm)
      intro add other member member' below above
      have names : add.name = other.name := le_antisymm below above
      have costs : some add.cost = some other.cost := by
        rw [← mem_snap_adds.mp member, ← mem_snap_adds.mp member', names, lookups]
      obtain ⟨name, cost⟩ := add
      cases names
      cases costs
      rfl
    calc left.snap = ⟨left.selfRouter, true, left.snap.adds, []⟩ := rfl
      _ = ⟨right.selfRouter, true, right.snap.adds, []⟩ := by rw [same, adds]
      _ = right.snap := rfl

/-! ### One announcement, one withdrawal -/

theorem lookup_withdrawLocal (table : PrefixTable) (prefixName other : Name) :
    (table.withdrawLocal prefixName).1.localPrefixes.lookup other =
      if other = prefixName then none else table.localPrefixes.lookup other := by
  unfold withdrawLocal
  cases found : table.localPrefixes.lookup prefixName with
  | none =>
    by_cases same : other = prefixName
    · rw [if_pos same, same, found]
    · rw [if_neg same]
  | some cost => exact HashMap.lookup_erase_eq _ _ _

theorem withdrawLocal_isSome (table : PrefixTable) (prefixName : Name) :
    (table.withdrawLocal prefixName).2.isSome = true ↔
      table.localPrefixes.lookup prefixName ≠ none := by
  unfold withdrawLocal
  cases table.localPrefixes.lookup prefixName <;> simp

theorem lookup_announceLocal (table : PrefixTable) (prefixName other : Name) (cost : Nat) :
    (table.announceLocal prefixName cost).1.localPrefixes.lookup other =
      if other = prefixName then some cost else table.localPrefixes.lookup other := by
  unfold announceLocal
  by_cases held : table.localPrefixes.lookup prefixName = some cost
  · by_cases same : other = prefixName
    · rw [if_pos held, if_pos same, same, held]
    · rw [if_pos held, if_neg same]
  · rw [if_neg held]
    exact HashMap.lookup_insert_eq _ _ _ _

theorem announceLocal_isSome (table : PrefixTable) (prefixName : Name) (cost : Nat) :
    (table.announceLocal prefixName cost).2.isSome = true ↔
      table.localPrefixes.lookup prefixName ≠ some cost := by
  unfold announceLocal
  by_cases held : table.localPrefixes.lookup prefixName = some cost <;> simp [held]

/-! ### The two loops -/

/-- What a state holds of one prefix: whether the loop announced it, and its local cost. -/
def Readvertising.view (state : Readvertising) (prefixName : Name) : Bool × Option Nat :=
  (decide (prefixName ∈ state.announced), state.table.localPrefixes.lookup prefixName)

def retainView (wanted : List Name) (prefixName : Name) (view : Bool × Option Nat) :
    Bool × Option Nat :=
  if prefixName ∈ wanted then view else (false, none)

def announceView (view : Bool × Option Nat) : Bool × Option Nat :=
  if view.1 then view else (true, some readvertiseCost)

theorem view_retainOne (wanted : List Name) (run : Readvertising × Bool) (prefixName other : Name) :
    (retainOne wanted run prefixName).1.view other =
      if other = prefixName then retainView wanted prefixName (run.1.view prefixName)
      else run.1.view other := by
  unfold retainOne retainView
  by_cases kept : prefixName ∈ wanted
  · by_cases same : other = prefixName
    · simp [kept, same]
    · simp [kept, same]
  · by_cases same : other = prefixName
    · simp [kept, same, Readvertising.view, lookup_withdrawLocal]
    · simp [kept, same, Readvertising.view, lookup_withdrawLocal]

theorem view_announceOne (run : Readvertising × Bool) (prefixName other : Name) :
    (announceOne run prefixName).1.view other =
      if other = prefixName then announceView (run.1.view prefixName) else run.1.view other := by
  unfold announceOne announceView
  by_cases own : prefixName ∈ run.1.announced
  · by_cases same : other = prefixName
    · subst same
      simp [own, Readvertising.view]
    · simp [own, same]
  · by_cases same : other = prefixName
    · simp [own, same, Readvertising.view, lookup_announceLocal]
    · simp [own, same, Readvertising.view, lookup_announceLocal]

theorem flag_retainOne (wanted : List Name) (run : Readvertising × Bool) (prefixName : Name) :
    (retainOne wanted run prefixName).2 = true ↔
      run.2 = true ∨ (prefixName ∉ wanted ∧ (run.1.view prefixName).2 ≠ none) := by
  unfold retainOne
  by_cases kept : prefixName ∈ wanted
  · simp [kept]
  · simp [kept, Readvertising.view, withdrawLocal_isSome]

theorem flag_announceOne (run : Readvertising × Bool) (prefixName : Name) :
    (announceOne run prefixName).2 = true ↔
      run.2 = true ∨
        ((run.1.view prefixName).1 = false ∧ (run.1.view prefixName).2 ≠ some readvertiseCost) := by
  unfold announceOne
  by_cases own : prefixName ∈ run.1.announced
  · simp [own, Readvertising.view]
  · simp [own, Readvertising.view, announceLocal_isSome]

/-- What a call leaves of one prefix. -/
def reconciledView (wanted : List Name) (prefixName : Name) (view : Bool × Option Nat) :
    Bool × Option Nat :=
  if prefixName ∈ wanted then announceView view else if view.1 then (false, none) else view

theorem retainOne_own (wanted : List Name) :
    Pointwise.OwnKey (retainOne wanted) (fun run => run.1.view) (retainView wanted) := by
  refine ⟨view_retainOne wanted, ?_⟩
  intro prefixName view
  unfold retainView
  split <;> rfl

theorem announceOne_own :
    Pointwise.OwnKey announceOne (fun run => run.1.view) (fun _ => announceView) := by
  refine ⟨view_announceOne, ?_⟩
  rintro _ ⟨_ | _, cost⟩ <;> rfl

/-- The state between the two loops. -/
def retained (wanted : List Name) (state : Readvertising) : Readvertising × Bool :=
  (state.announced.sort (· ≤ ·)).foldl (retainOne wanted) (state, false)

theorem view_retained (wanted : List Name) (state : Readvertising) (prefixName : Name) :
    (retained wanted state).1.view prefixName =
      if (state.view prefixName).1 then retainView wanted prefixName (state.view prefixName)
      else state.view prefixName := by
  refine ((retainOne_own wanted).view_foldl _ _ _).trans ?_
  simp [Readvertising.view]

theorem view_reconcile (wanted : List Name) (state : Readvertising) (prefixName : Name) :
    (reconcileReadvertised wanted state).1.view prefixName =
      reconciledView wanted prefixName (state.view prefixName) := by
  refine (announceOne_own.view_foldl _ _ _).trans ?_
  change (if _ then announceView ((retained wanted state).1.view prefixName) else
    (retained wanted state).1.view prefixName) = _
  rw [view_retained]
  unfold reconciledView retainView
  by_cases kept : prefixName ∈ wanted <;> simp [kept]

theorem flag_reconcile (wanted : List Name) (state : Readvertising) :
    (reconcileReadvertised wanted state).2 = true ↔
      ∃ prefixName, (reconcileReadvertised wanted state).1.table.localPrefixes.lookup prefixName ≠
        state.table.localPrefixes.lookup prefixName := by
  have withdrew : (retained wanted state).2 = true ↔
      ∃ prefixName ∈ state.announced, prefixName ∉ wanted ∧ (state.view prefixName).2 ≠ none := by
    refine ((retainOne_own wanted).flag_foldl (fun run => run.2 = true)
      (fun prefixName view => prefixName ∉ wanted ∧ view.2 ≠ none) (flag_retainOne wanted)
      ?_ _ _).trans ?_
    · rintro prefixName view ⟨dropped, held⟩
      exact held (by simp [retainView, dropped])
    · simp
  have told : (reconcileReadvertised wanted state).2 = true ↔ (retained wanted state).2 = true ∨
      ∃ prefixName ∈ wanted, ((retained wanted state).1.view prefixName).1 = false ∧
        ((retained wanted state).1.view prefixName).2 ≠ some readvertiseCost := by
    refine announceOne_own.flag_foldl (fun run => run.2 = true)
      (fun _ view => view.1 = false ∧ view.2 ≠ some readvertiseCost) flag_announceOne ?_ _ _
    rintro _ ⟨_ | _, cost⟩ <;> simp [announceView]
  have after : ∀ prefixName,
      (reconcileReadvertised wanted state).1.table.localPrefixes.lookup prefixName =
        (reconciledView wanted prefixName (state.view prefixName)).2 := by
    intro prefixName
    rw [← view_reconcile]
    rfl
  rw [told, withdrew]
  -- the loops tell of a withdrawal or of a new cost, and each prefix is touched by one of them
  have here : ∀ prefixName, state.table.localPrefixes.lookup prefixName = (state.view prefixName).2 :=
    fun _ => rfl
  have own : ∀ prefixName, prefixName ∈ state.announced ↔ (state.view prefixName).1 = true :=
    fun _ => decide_eq_true_iff.symm
  simp only [after, view_retained, here, own, reconciledView, retainView, announceView]
  rw [← exists_or]
  refine exists_congr ?_
  intro prefixName
  obtain ⟨_ | _, cost⟩ := state.view prefixName <;> by_cases kept : prefixName ∈ wanted <;>
    simp [kept, eq_comm]

theorem selfRouter_retainOne (wanted : List Name) (run : Readvertising × Bool) (prefixName : Name) :
    (retainOne wanted run prefixName).1.table.selfRouter = run.1.table.selfRouter := by
  unfold retainOne
  split
  · rfl
  · exact selfRouter_withdrawLocal _ _

theorem selfRouter_announceOne (run : Readvertising × Bool) (prefixName : Name) :
    (announceOne run prefixName).1.table.selfRouter = run.1.table.selfRouter := by
  unfold announceOne
  split
  · rfl
  · exact selfRouter_announceLocal _ _ _

theorem selfRouter_foldl {turn : Readvertising × Bool → Name → Readvertising × Bool}
    (keeps : ∀ run prefixName, (turn run prefixName).1.table.selfRouter = run.1.table.selfRouter)
    (run : Readvertising × Bool) (names : List Name) :
    (names.foldl turn run).1.table.selfRouter = run.1.table.selfRouter := by
  induction names generalizing run with
  | nil => rfl
  | cons name rest ih => exact (ih (turn run name)).trans (keeps run name)

theorem selfRouter_reconcile (wanted : List Name) (state : Readvertising) :
    (reconcileReadvertised wanted state).1.table.selfRouter = state.table.selfRouter :=
  (selfRouter_foldl selfRouter_announceOne _ _).trans
    (selfRouter_foldl (selfRouter_retainOne wanted) (state, false) _)

/-! ### Whole runs -/

def Readvertising.call (state : Readvertising) (wanted : List Name) : Readvertising :=
  (reconcileReadvertised wanted state).1

/-- The loop starts with nothing announced, on whatever the table holds by then. -/
def Readvertising.start (table : PrefixTable) : Readvertising := ⟨∅, table⟩

/-- After a run the wanted prefixes are the loop's own, and of the others those it ever announced
are gone. -/
theorem view_run (table : PrefixTable) (earlier : List (List Name)) (prefixName : Name) :
    (earlier.foldl Readvertising.call (Readvertising.start table)).view prefixName =
      if prefixName ∈ earlier.getLast?.getD [] then (true, some readvertiseCost)
      else (false, if ∃ wanted ∈ earlier, prefixName ∈ wanted then none
        else table.localPrefixes.lookup prefixName) := by
  induction earlier using List.reverseRecOn with
  | nil => simp [Readvertising.start, Readvertising.view]
  | append_singleton earlier wanted ih =>
    rw [foldl_append, foldl_cons, foldl_nil, Readvertising.call, view_reconcile, ih]
    simp only [List.getLast?_append, List.getLast?_singleton, Option.some_or, Option.getD_some]
    unfold reconciledView
    by_cases now : prefixName ∈ wanted
    · by_cases last : prefixName ∈ earlier.getLast?.getD []
      · simp [now, last, announceView]
      · simp [now, last, announceView]
    · by_cases last : prefixName ∈ earlier.getLast?.getD []
      · have ever : ∃ wanted ∈ earlier, prefixName ∈ wanted := by
          cases found : earlier.getLast? with
          | none => simp [found] at last
          | some list =>
            rw [found] at last
            exact ⟨list, mem_of_getLast? found, last⟩
        obtain ⟨list, member, inside⟩ := ever
        simp only [now, last, if_true, if_false, Prod.mk.injEq, true_and]
        exact (if_pos ⟨list, mem_append_left _ member, inside⟩).symm
      · simp [now, last, or_and_right, exists_or]

theorem owns_after_run (table : PrefixTable) (earlier : List (List Name)) (wanted : List Name) :
    OwnsOnlyItsOwn table (earlier.foldl Readvertising.call (Readvertising.start table)) wanted ↔
      ∀ before ∈ earlier, ∀ prefixName ∈ before,
        prefixName ∈ table.localPrefixes → prefixName ∈ wanted := by
  have after : ∀ prefixName, (reconcileReadvertised wanted
      (earlier.foldl Readvertising.call (Readvertising.start table))).1.table.localPrefixes.lookup
        prefixName = if prefixName ∈ wanted then some readvertiseCost
          else if ∃ before ∈ earlier, prefixName ∈ before then none
          else table.localPrefixes.lookup prefixName := by
    intro prefixName
    have run := view_run table (earlier ++ [wanted]) prefixName
    rw [foldl_append, foldl_cons, foldl_nil] at run
    refine (congrArg Prod.snd run).trans ?_
    simp only [List.getLast?_append, List.getLast?_singleton, Option.some_or, Option.getD_some]
    by_cases now : prefixName ∈ wanted
    · simp [now]
    · simp [now, or_and_right, exists_or]
  constructor
  · intro owns before member prefixName inside other
    by_contra unwanted
    have kept := owns.keeps prefixName unwanted
    rw [after, if_neg unwanted, if_pos ⟨before, member, inside⟩] at kept
    obtain ⟨cost, held⟩ := HashMap.mem_iff_lookup.mp other
    rw [held] at kept
    cases kept
  · intro still
    refine ⟨?_, ?_, ?_⟩
    · intro prefixName now
      rw [after, if_pos now]
      rfl
    · intro prefixName unwanted
      rw [after, if_neg unwanted]
      by_cases ever : ∃ before ∈ earlier, prefixName ∈ before
      · obtain ⟨before, member, inside⟩ := ever
        rw [if_pos ⟨before, member, inside⟩]
        cases held : table.localPrefixes.lookup prefixName with
        | none => rfl
        | some cost =>
          exact absurd (still before member prefixName inside (HashMap.mem_iff_lookup.mpr ⟨cost, held⟩))
            unwanted
      · rw [if_neg ever]
    · rw [flag_reconcile, Ne, snap_eq_iff (selfRouter_reconcile _ _), not_forall]

theorem pairwise_iff_split {A : Type} {related : A → A → Prop} (items : List A) :
    items.Pairwise related ↔ ∀ earlier item later, items = earlier ++ item :: later →
      ∀ before ∈ earlier, related before item := by
  constructor
  · rintro pairwise earlier item later rfl before member
    exact (pairwise_append.mp pairwise).2.2 before member item mem_cons_self
  · intro splits
    induction items using List.reverseRecOn with
    | nil => exact List.Pairwise.nil
    | append_singleton front last ih =>
      rw [pairwise_append]
      refine ⟨ih ?_, pairwise_singleton _ _, ?_⟩
      · rintro earlier item later rfl
        exact splits earlier item (later ++ [last]) (by simp)
      · intro before member item alone
        rw [mem_singleton.mp alone]
        exact splits front last [] rfl before member

/-- Over a run the loop owns only its own announcements exactly when no other source's prefix
that was once wanted is unwanted later. -/
theorem owns_only_its_own_iff (table : PrefixTable) (snapshots : List (List Name)) :
    Run.Throughout Readvertising.call (Readvertising.start table) snapshots (OwnsOnlyItsOwn table) ↔
      snapshots.Pairwise (fun before wanted => ∀ prefixName ∈ before,
        prefixName ∈ table.localPrefixes → prefixName ∈ wanted) := by
  rw [pairwise_iff_split]
  refine forall_congr' fun earlier => forall_congr' fun wanted => forall_congr' fun later => ?_
  exact imp_congr_right fun _ => owns_after_run table earlier wanted

/-- `/a`, configured at cost 5, is readvertised for a while and lost when that ends. -/
theorem configured_prefix_lost :
    ¬∀ (table : PrefixTable) (snapshots : List (List Name)),
      Run.Throughout Readvertising.call (Readvertising.start table) snapshots
        (OwnsOnlyItsOwn table) := by
  intro owns
  let self : Name := ⟨[]⟩
  let a : Name := self.appendComponent (NameComponent.generic [97])
  let table := ((PrefixTable.new self).announceLocal a 5).1
  have lost := owns table [[a], []] [[a]] [] [] rfl
  have configured : a ∈ table.localPrefixes := by decide
  exact List.not_mem_nil ((owns_after_run table [[a]] []).mp lost [a] List.mem_cons_self a
    List.mem_cons_self configured)

end NdnExt.Dv
