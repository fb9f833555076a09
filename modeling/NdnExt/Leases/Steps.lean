import NdnExt.Leases.Table

/-! What each operation can do to the table of leases. -/

namespace NdnExt.Leases

open NdnExt.Lib

/-- The entry as it is once its expiry is looked at. -/
def LeaseEntry.expireAt (entry : LeaseEntry) (nowSecs : Nat) : LeaseEntry :=
  if entry.state.isLive ∧ nowSecs ≥ entry.expiresAtSecs then { entry with state := .expired }
  else entry

/-- Two tables that differ in their counters at most. -/
structure Same (table next : LeaseTable) : Prop where
  epoch : next.bootEpoch = table.bootEpoch
  leases : ∀ id, next.leases.lookup id = table.leases.lookup id
  slots : ∀ key, next.idempotency.lookup key = table.idempotency.lookup key

/-- The entry at `id` is replaced. -/
structure Sets (id : LeaseId) (entry : LeaseEntry) (table next : LeaseTable) : Prop where
  epoch : next.bootEpoch = table.bootEpoch
  leases : ∀ other, next.leases.lookup other =
    if other = id then some entry else table.leases.lookup other
  slots : ∀ key, next.idempotency.lookup key = table.idempotency.lookup key

theorem Same.refl (table : LeaseTable) : Same table table := ⟨rfl, fun _ => rfl, fun _ => rfl⟩

theorem Same.trans {first second third : LeaseTable} (left : Same first second)
    (right : Same second third) : Same first third :=
  ⟨right.epoch.trans left.epoch, fun id => (right.leases id).trans (left.leases id),
    fun key => (right.slots key).trans (left.slots key)⟩

theorem Sets.self (id : LeaseId) (entry : LeaseEntry) (table next : LeaseTable)
    (epoch : next.bootEpoch = table.bootEpoch) (slots : next.idempotency = table.idempotency)
    (leases : next.leases = table.leases.insert id entry) : Sets id entry table next := by
  refine ⟨epoch, ?_, ?_⟩
  · intro other
    rw [leases, HashMap.lookup_insert_eq]
  · intro key
    rw [slots]

variable {id : LeaseId} {last table : LeaseTable} {nowSecs : Nat}

theorem Same.sets {entry : LeaseEntry} {next : LeaseTable}
    (same : Same table next) (sets : Sets id entry next last) : Sets id entry table last := by
  refine ⟨sets.epoch.trans same.epoch, ?_, fun key => (sets.slots key).trans (same.slots key)⟩
  intro other
  rw [sets.leases, same.leases]

theorem Sets.same {entry : LeaseEntry} {next : LeaseTable}
    (sets : Sets id entry table next) (same : Same next last) : Sets id entry table last :=
  ⟨same.epoch.trans sets.epoch, fun other => (same.leases other).trans (sets.leases other),
    fun key => (same.slots key).trans (sets.slots key)⟩

theorem Sets.unchanged {entry : LeaseEntry} {next : LeaseTable}
    (sets : Sets id entry table next) (found : table.leases.lookup id = some entry) :
    Same table next := by
  refine ⟨sets.epoch, ?_, sets.slots⟩
  intro other
  rw [sets.leases]
  split
  · next same => rw [same, found]
  · rfl

/-- Nothing changed, except that an overdue lease may have expired. -/
def Kept (nowSecs : Nat) (table next : LeaseTable) : Prop :=
  Same table next ∨ ∃ id entry, table.leases.lookup id = some entry ∧ entry.state.isLive ∧
    entry.expiresAtSecs ≤ nowSecs ∧ Sets id { entry with state := .expired } table next

theorem Kept.same {next : LeaseTable} (kept : Kept nowSecs table next)
    (same : Same next last) : Kept nowSecs table last := by
  rcases kept with same' | ⟨id, entry, found, live, due, sets⟩
  · exact Or.inl (same'.trans same)
  · exact Or.inr ⟨id, entry, found, live, due, sets.same same⟩

theorem Same.kept {next : LeaseTable} (same : Same table next)
    (kept : Kept nowSecs next last) : Kept nowSecs table last := by
  rcases kept with same' | ⟨id, entry, found, live, due, sets⟩
  · exact Or.inl (same.trans same')
  · rw [same.leases] at found
    exact Or.inr ⟨id, entry, found, live, due, same.sets sets⟩

namespace LeaseEntry

theorem expireAt_of_due {entry : LeaseEntry} (live : entry.state.isLive)
    (due : entry.expiresAtSecs ≤ nowSecs) :
    entry.expireAt nowSecs = { entry with state := .expired } :=
  if_pos ⟨live, due⟩

theorem expireAt_of_not {entry : LeaseEntry}
    (kept : ¬ (entry.state.isLive ∧ nowSecs ≥ entry.expiresAtSecs)) :
    entry.expireAt nowSecs = entry :=
  if_neg kept

@[simp] theorem expireAt_holder (entry : LeaseEntry) (nowSecs : Nat) :
    (entry.expireAt nowSecs).holder = entry.holder := by
  unfold expireAt
  split <;> rfl

@[simp] theorem expireAt_conflictKeys (entry : LeaseEntry) (nowSecs : Nat) :
    (entry.expireAt nowSecs).conflictKeys = entry.conflictKeys := by
  unfold expireAt
  split <;> rfl

@[simp] theorem expireAt_idempotencyKey (entry : LeaseEntry) (nowSecs : Nat) :
    (entry.expireAt nowSecs).idempotencyKey = entry.idempotencyKey := by
  unfold expireAt
  split <;> rfl

/-- An entry that is not expired once it is looked at is unchanged, and live ones have time left. -/
theorem expireAt_eq_self {entry : LeaseEntry}
    (kept : (entry.expireAt nowSecs).state ≠ .expired) : entry.expireAt nowSecs = entry := by
  unfold expireAt at kept ⊢
  split at kept
  · exact absurd rfl kept
  · next notDue => rw [if_neg notDue]

theorem expireAt_of_live {entry : LeaseEntry}
    (live : (entry.expireAt nowSecs).state.isLive) : entry.expireAt nowSecs = entry := by
  apply expireAt_eq_self
  intro expired
  rw [expired] at live
  cases live

/-- Looking again later is looking later. -/
theorem expireAt_expireAt (entry : LeaseEntry) {later : Nat} (ordered : nowSecs ≤ later) :
    (entry.expireAt nowSecs).expireAt later = entry.expireAt later := by
  by_cases due : entry.state.isLive ∧ nowSecs ≥ entry.expiresAtSecs
  · rw [expireAt_of_due due.1 due.2, expireAt_of_due due.1 (Nat.le_trans due.2 ordered)]
    exact expireAt_of_not (by simp [LeaseState.isLive])
  · rw [expireAt_of_not due]

theorem time_left {entry : LeaseEntry}
    (kept : (entry.expireAt nowSecs).state ≠ .expired) (live : entry.state.isLive) :
    nowSecs < entry.expiresAtSecs := by
  by_contra due
  rw [expireAt_of_due live (Nat.le_of_not_lt due)] at kept
  exact kept rfl

end LeaseEntry

namespace LeaseTable

variable {table next : LeaseTable} {nowSecs : Nat} {id : LeaseId} {holder : Name}
  {bootEpoch : Nat}

theorem refuse_kept {A : Type} {start : LeaseTable} (kept : Kept nowSecs start table)
    (error : LeaseError) :
    ∃ reason next, (table.refuse error : Outcome LeaseError A × LeaseTable) = (.err reason, next) ∧
      Kept nowSecs start next :=
  ⟨error, _, rfl, kept.same ⟨rfl, fun _ => rfl, fun _ => rfl⟩⟩

theorem lazilyExpire_none (missing : table.leases.lookup id = none) :
    table.lazilyExpire id nowSecs = (false, table) := by
  rw [lazilyExpire, missing]

theorem lazilyExpire_fst {entry : LeaseEntry} (found : table.leases.lookup id = some entry) :
    (table.lazilyExpire id nowSecs).1 = decide ((entry.expireAt nowSecs).state = .expired) := by
  rw [lazilyExpire, found]
  by_cases due : entry.state.isLive ∧ nowSecs ≥ entry.expiresAtSecs
  · rw [LeaseEntry.expireAt_of_due due.1 due.2]
    simp only [if_pos due, decide_true]
  · rw [LeaseEntry.expireAt_of_not due]
    simp only [if_neg due]

theorem lazilyExpire_sets {entry : LeaseEntry} (nowSecs : Nat)
    (found : table.leases.lookup id = some entry) :
    Sets id (entry.expireAt nowSecs) table (table.lazilyExpire id nowSecs).2 := by
  rw [lazilyExpire, found]
  by_cases due : entry.state.isLive ∧ nowSecs ≥ entry.expiresAtSecs
  · rw [LeaseEntry.expireAt_of_due due.1 due.2]
    simp only [if_pos due]
    exact Sets.self id _ table _ rfl rfl rfl
  · rw [LeaseEntry.expireAt_of_not due]
    simp only [if_neg due]
    refine ⟨rfl, ?_, fun _ => rfl⟩
    intro other
    split
    · next same => rw [same, found]
    · rfl

theorem lazilyExpire_kept (table : LeaseTable) (nowSecs : Nat) (id : LeaseId) :
    Kept nowSecs table (table.lazilyExpire id nowSecs).2 := by
  cases found : table.leases.lookup id with
  | none =>
    rw [lazilyExpire_none found]
    exact Or.inl (Same.refl table)
  | some entry =>
    have sets := lazilyExpire_sets nowSecs found
    by_cases due : entry.state.isLive ∧ nowSecs ≥ entry.expiresAtSecs
    · rw [LeaseEntry.expireAt_of_due due.1 due.2] at sets
      exact Or.inr ⟨id, entry, found, due.1, due.2, sets⟩
    · rw [LeaseEntry.expireAt_of_not due] at sets
      exact Or.inl (sets.unchanged found)

/-- What is not expired has not been touched. -/
theorem lazilyExpire_false {entry : LeaseEntry} (nowSecs : Nat)
    (found : table.leases.lookup id = some entry)
    (kept : (table.lazilyExpire id nowSecs).1 = false) :
    (entry.expireAt nowSecs).state ≠ .expired ∧ Same table (table.lazilyExpire id nowSecs).2 := by
  have state : (entry.expireAt nowSecs).state ≠ .expired := by
    rw [lazilyExpire_fst found] at kept
    exact of_decide_eq_false kept
  have sets := lazilyExpire_sets nowSecs found
  rw [LeaseEntry.expireAt_eq_self state] at sets
  exact ⟨state, sets.unchanged found⟩

theorem lazilyExpire_found {entry : LeaseEntry} {after : LeaseTable}
    (looked : table.lazilyExpire id nowSecs = (false, after))
    (found : after.leases.lookup id = some entry) :
    table.leases.lookup id = some entry ∧ (entry.expireAt nowSecs).state ≠ .expired ∧
      Same table after := by
  cases before : table.leases.lookup id with
  | none =>
    rw [lazilyExpire_none before] at looked
    cases looked
    rw [before] at found
    cases found
  | some old =>
    have untouched := lazilyExpire_false nowSecs before (by rw [looked])
    rw [looked] at untouched
    rw [untouched.2.leases, before] at found
    cases found
    exact ⟨rfl, untouched⟩

theorem held_iff {key : String} :
    table.held key ↔ ∃ id entry, table.leases.lookup id = some entry ∧ entry.state.isLive ∧
      key ∈ entry.conflictKeys := by
  simp only [held, List.any_eq_true, Bool.and_eq_true, List.contains_iff_mem,
    Prod.exists, HashMap.mem_pairs]

theorem checkedEntry_cases (table : LeaseTable) (nowSecs : Nat) (id : LeaseId) (holder : Name)
    (bootEpoch : Nat) :
    (∃ entry next, table.checkedEntry nowSecs id holder bootEpoch = (.ok (), next) ∧
        bootEpoch = table.bootEpoch ∧ table.leases.lookup id = some entry ∧
        entry.holder = holder ∧ (entry.expireAt nowSecs).state ≠ .expired ∧ Same table next) ∨
      ∃ error next, table.checkedEntry nowSecs id holder bootEpoch = (.err error, next) ∧
        Kept nowSecs table next := by
  unfold checkedEntry
  split
  · exact Or.inr (refuse_kept (Or.inl (Same.refl table)) _)
  · next epoch =>
    split
    · exact Or.inr (refuse_kept (Or.inl (Same.refl table)) _)
    · next entry found =>
      split
      · exact Or.inr (refuse_kept (Or.inl (Same.refl table)) _)
      · next own =>
        have kept := lazilyExpire_kept table nowSecs id
        split
        · next expired looked =>
          rw [looked] at kept
          exact Or.inr (refuse_kept kept _)
        · next next looked =>
          have untouched := lazilyExpire_false nowSecs found (by rw [looked])
          rw [looked] at untouched
          exact Or.inl ⟨entry, next, rfl, not_not.mp epoch, found, not_not.mp own, untouched.1,
            untouched.2⟩

theorem transition_cases (table : LeaseTable) (nowSecs : Nat) (id : LeaseId) (holder : Name)
    (bootEpoch : Nat) (sources : List LeaseState) (target : LeaseState) :
    (∃ entry next, table.transition nowSecs id holder bootEpoch sources target = (.ok (), next) ∧
        bootEpoch = table.bootEpoch ∧ table.leases.lookup id = some entry ∧
        entry.holder = holder ∧ entry.state ∈ sources ∧ (entry.expireAt nowSecs).state ≠ .expired ∧
        Sets id { entry with state := target } table next) ∨
      ∃ error next, table.transition nowSecs id holder bootEpoch sources target =
        (.err error, next) ∧ Kept nowSecs table next := by
  unfold transition
  rcases checkedEntry_cases table nowSecs id holder bootEpoch with
    ⟨entry, checked, passed, epoch, found, own, time, same⟩ | ⟨error, checked, failed, kept⟩
  · rw [passed]
    dsimp only
    rw [same.leases, found]
    dsimp only
    split
    · next source =>
      exact Or.inl ⟨entry, _, rfl, epoch, rfl, own, source, time,
        same.sets (Sets.self id _ checked _ rfl rfl rfl)⟩
    · exact Or.inr (refuse_kept (Or.inl same) _)
  · rw [failed]
    exact Or.inr ⟨error, checked, rfl, kept⟩

theorem activate_cases (table : LeaseTable) (nowSecs : Nat) (id : LeaseId) (holder : Name)
    (bootEpoch : Nat) (planDigest : String) :
    (∃ entry next, table.activate nowSecs id holder bootEpoch planDigest = (.ok (), next) ∧
        bootEpoch = table.bootEpoch ∧ table.leases.lookup id = some entry ∧
        entry.holder = holder ∧ entry.planDigest = planDigest ∧ entry.state = .committed ∧
        Sets id { entry with state := .executing } table next) ∨
      ∃ error next, table.activate nowSecs id holder bootEpoch planDigest = (.err error, next) ∧
        Kept nowSecs table next := by
  unfold activate
  rcases checkedEntry_cases table nowSecs id holder bootEpoch with
    ⟨entry, checked, passed, epoch, found, own, _, same⟩ | ⟨error, checked, failed, kept⟩
  · rw [passed]
    dsimp only
    rw [same.leases, found]
    dsimp only
    split
    · exact Or.inr (refuse_kept (Or.inl same) _)
    · next plan =>
      rcases transition_cases checked nowSecs id holder bootEpoch [.committed] .executing with
        ⟨moved, next, taken, _, found', _, source, _, sets⟩ | ⟨error, next, failed, kept⟩
      · rw [same.leases, found, Option.some.injEq] at found'
        subst found'
        exact Or.inl ⟨entry, next, taken, epoch, rfl, own, not_not.mp plan,
          List.mem_singleton.mp source, same.sets sets⟩
      · exact Or.inr ⟨error, next, failed, same.kept kept⟩
  · rw [failed]
    exact Or.inr ⟨error, checked, rfl, kept⟩

theorem renew_cases (table : LeaseTable) (nowSecs : Nat) (id : LeaseId) (holder : Name)
    (bootEpoch extendSecs : Nat) :
    (∃ entry lease expiry next, table.renew nowSecs id holder bootEpoch extendSecs =
        (.ok lease, next) ∧ table.leases.lookup id = some entry ∧
        Sets id { entry with expiresAtSecs := expiry } table next) ∨
      ∃ error next, table.renew nowSecs id holder bootEpoch extendSecs = (.err error, next) ∧
        Kept nowSecs table next := by
  unfold renew
  rcases checkedEntry_cases table nowSecs id holder bootEpoch with
    ⟨entry, checked, passed, _, found, _, _, same⟩ | ⟨error, checked, failed, kept⟩
  · rw [passed]
    dsimp only
    rw [same.leases, found]
    exact Or.inl ⟨entry, _, _, _, rfl, rfl, same.sets (Sets.self id _ checked _ rfl rfl rfl)⟩
  · rw [failed]
    exact Or.inr ⟨error, checked, rfl, kept⟩

/-- The two ways a lease is returned: the one its key stands for, or a new one. -/
theorem prepare_cases (table : LeaseTable) (nowSecs : Nat) (req : LeaseRequest)
    (drawn : LeaseId) :
    (∃ id digest entry next, table.prepare nowSecs req drawn =
        (.ok ⟨id, table.bootEpoch, entry.expiresAtSecs⟩, next) ∧
        req.idempotencyKey.bind table.idempotency.lookup = some (id, digest) ∧
        digest = req.planDigest ∧ table.leases.lookup id = some entry ∧ entry.state.isLive ∧
        nowSecs < entry.expiresAtSecs ∧ Same table next) ∨
      (req.idempotencyKey.bind table.idempotency.lookup = none ∧
        (∀ key ∈ req.conflictKeys, ¬ table.held key) ∧
        table.prepare nowSecs req drawn =
          (.ok ⟨drawn, table.bootEpoch, saturatingAddU64 nowSecs req.ttlSecs⟩,
            table.grant nowSecs req drawn)) ∨
      ∃ error next, table.prepare nowSecs req drawn = (.err error, next) ∧
        Kept nowSecs table next := by
  unfold prepare
  split
  · next id digest slot =>
    split
    · exact Or.inr (Or.inr (refuse_kept (Or.inl (Same.refl table)) _))
    · next plan =>
      have kept := lazilyExpire_kept table nowSecs id
      unfold replay
      split
      · next expired looked =>
        rw [looked] at kept
        exact Or.inr (Or.inr (refuse_kept kept _))
      · next after looked =>
        rw [looked] at kept
        split
        · exact Or.inr (Or.inr (refuse_kept kept _))
        · next entry found =>
          split
          · next live =>
            rcases lazilyExpire_found looked found with ⟨before, time, same⟩
            rw [← same.epoch]
            exact Or.inl ⟨id, digest, entry, _, rfl, slot, not_not.mp plan, before, live,
              LeaseEntry.time_left time live, same.trans ⟨rfl, fun _ => rfl, fun _ => rfl⟩⟩
          · exact Or.inr (Or.inr (refuse_kept kept _))
  · next slot =>
    split
    · exact Or.inr (Or.inr (refuse_kept (Or.inl (Same.refl table)) _))
    · split
      · exact Or.inr (Or.inr (refuse_kept (Or.inl (Same.refl table)) _))
      · next free =>
        exact Or.inr (Or.inl ⟨slot, List.find?_eq_none.mp free, rfl⟩)

/-- Every lease as a look at the clock shows it. -/
structure Expired (nowSecs : Nat) (table next : LeaseTable) : Prop where
  epoch : next.bootEpoch = table.bootEpoch
  leases : ∀ id, next.leases.lookup id =
    (table.leases.lookup id).map (fun entry => entry.expireAt nowSecs)
  slots : ∀ key, next.idempotency.lookup key = table.idempotency.lookup key

theorem lookup_lazilyExpire (table : LeaseTable) (nowSecs : Nat) (id other : LeaseId) :
    (table.lazilyExpire id nowSecs).2.leases.lookup other =
      if other = id then (table.leases.lookup other).map (fun entry => entry.expireAt nowSecs)
      else table.leases.lookup other := by
  cases found : table.leases.lookup id with
  | none =>
    rw [lazilyExpire_none found]
    split
    · next same => rw [same, found, Option.map_none]
    · rfl
  | some entry =>
    rw [(lazilyExpire_sets nowSecs found).leases]
    split
    · next same => rw [same, found, Option.map_some]
    · rfl

theorem lookup_foldl_lazilyExpire (nowSecs : Nat) (ids : List LeaseId) (table : LeaseTable)
    (other : LeaseId) :
    (ids.foldl (fun table id => (table.lazilyExpire id nowSecs).2) table).leases.lookup other =
      if other ∈ ids then (table.leases.lookup other).map (fun entry => entry.expireAt nowSecs)
      else table.leases.lookup other := by
  induction ids generalizing table with
  | nil => rfl
  | cons id rest ih =>
    rw [List.foldl_cons, ih, lookup_lazilyExpire]
    by_cases same : other = id
    · have again : ((table.leases.lookup other).map (fun entry => entry.expireAt nowSecs)).map
          (fun entry => entry.expireAt nowSecs) =
          (table.leases.lookup other).map (fun entry => entry.expireAt nowSecs) := by
        rw [Option.map_map]
        congr 1
        funext entry
        exact entry.expireAt_expireAt (Nat.le_refl nowSecs)
      simp only [same, if_true, List.mem_cons, true_or] at again ⊢
      rw [again, ite_self]
    · simp only [same, if_false, List.mem_cons, false_or]

theorem expireAll_expired (table : LeaseTable) (nowSecs : Nat) :
    Expired nowSecs table (table.expireAll nowSecs) := by
  have frame : ∀ ids : List LeaseId, ∀ start : LeaseTable,
      (ids.foldl (fun table id => (table.lazilyExpire id nowSecs).2) start).bootEpoch =
        start.bootEpoch ∧
      (ids.foldl (fun table id => (table.lazilyExpire id nowSecs).2) start).idempotency =
        start.idempotency := by
    intro ids
    induction ids with
    | nil => exact fun start => ⟨rfl, rfl⟩
    | cons id rest ih =>
      intro start
      have one : (start.lazilyExpire id nowSecs).2.bootEpoch = start.bootEpoch ∧
          (start.lazilyExpire id nowSecs).2.idempotency = start.idempotency := by
        unfold lazilyExpire
        split
        · exact ⟨rfl, rfl⟩
        · split <;> exact ⟨rfl, rfl⟩
      rw [List.foldl_cons, (ih _).1, (ih _).2]
      exact one
  refine ⟨(frame _ table).1, ?_, fun key => by rw [expireAll, (frame _ table).2]⟩
  intro id
  rw [expireAll, lookup_foldl_lazilyExpire]
  split
  · rfl
  · next missing =>
    rw [AList.lookup_eq_none.mpr missing, Option.map_none]

theorem remove_none (missing : table.leases.lookup id = none) : table.remove id = table := by
  rw [remove, missing]

theorem lookup_remove (table : LeaseTable) (id other : LeaseId) :
    (table.remove id).leases.lookup other =
      if other = id then none else table.leases.lookup other := by
  cases found : table.leases.lookup id with
  | none =>
    rw [remove_none found]
    split
    · next same => rw [same, found]
    · rfl
  | some entry =>
    rw [remove, found]
    exact HashMap.lookup_erase_eq _ _ _

/-- A slot goes with the lease it points at, if that lease was prepared under its key. -/
theorem slot_remove {key : String} {other : LeaseId} {digest : String} :
    (table.remove id).idempotency.lookup key = some (other, digest) ↔
      table.idempotency.lookup key = some (other, digest) ∧
        ¬ (other = id ∧
          (table.leases.lookup id).bind (fun entry => entry.idempotencyKey) = some key) := by
  cases found : table.leases.lookup id with
  | none => simp [remove_none found]
  | some entry =>
    rw [remove, found, Option.bind_some]
    dsimp only
    cases named : entry.idempotencyKey with
    | none => simp
    | some own =>
      dsimp only
      by_cases points : (table.idempotency.lookup own).map Prod.fst = some id
      · rw [if_pos points, HashMap.lookup_erase_eq_some]
        rcases Option.map_eq_some_iff.mp points with ⟨⟨target, plan⟩, slot, rfl⟩
        constructor
        · intro ⟨different, kept⟩
          refine ⟨kept, ?_⟩
          intro ⟨_, same⟩
          exact different (Option.some.inj same).symm
        · intro ⟨kept, other⟩
          refine ⟨?_, kept⟩
          intro same
          rw [same, slot] at kept
          cases kept
          exact other ⟨rfl, by rw [same]⟩
      · rw [if_neg points]
        refine (and_iff_left_of_imp ?_).symm
        intro kept ⟨same, key⟩
        rw [Option.some.inj key, kept, same] at points
        exact points rfl

structure Removed (ids : List LeaseId) (table next : LeaseTable) : Prop where
  epoch : next.bootEpoch = table.bootEpoch
  leases : ∀ id, next.leases.lookup id = if id ∈ ids then none else table.leases.lookup id
  slots : ∀ key id digest, next.idempotency.lookup key = some (id, digest) ↔
    table.idempotency.lookup key = some (id, digest) ∧
      ¬ (id ∈ ids ∧ (table.leases.lookup id).bind (fun entry => entry.idempotencyKey) = some key)

theorem remove_epoch (table : LeaseTable) (id : LeaseId) :
    (table.remove id).bootEpoch = table.bootEpoch := by
  unfold remove
  split <;> rfl

theorem foldl_remove (ids : List LeaseId) (table : LeaseTable) :
    Removed ids table (ids.foldl remove table) := by
  induction ids generalizing table with
  | nil => exact ⟨rfl, fun _ => rfl, fun _ _ _ => by simp⟩
  | cons head rest ih =>
    have later := ih (table.remove head)
    rw [List.foldl_cons]
    refine ⟨later.epoch.trans (remove_epoch table head), ?_, ?_⟩
    · intro id
      rw [later.leases, lookup_remove]
      by_cases same : id = head
      · simp [same]
      · simp [same]
    · intro key id digest
      rw [later.slots, slot_remove, lookup_remove, and_assoc]
      refine and_congr_right (fun _ => ?_)
      by_cases same : id = head
      · subst same
        simp
      · simp [same]

theorem mem_dead :
    id ∈ table.dead ↔ ∃ entry, table.leases.lookup id = some entry ∧ ¬ entry.state.isLive := by
  rw [dead, List.mem_map]
  constructor
  · intro ⟨⟨found, entry⟩, member, same⟩
    subst same
    rw [List.mem_filter, HashMap.mem_pairs] at member
    exact ⟨entry, member.1, by simpa using member.2⟩
  · intro ⟨entry, found, terminal⟩
    refine ⟨(id, entry), ?_, rfl⟩
    rw [List.mem_filter, HashMap.mem_pairs]
    exact ⟨found, by simpa using terminal⟩

/-- Terminal leases are gone, and with them the slots that stand for them. -/
structure Cleaned (nowSecs : Nat) (table next : LeaseTable) : Prop where
  epoch : next.bootEpoch = table.bootEpoch
  leases : ∀ id entry, next.leases.lookup id = some entry ↔
    table.leases.lookup id = some entry ∧ (entry.expireAt nowSecs).state.isLive
  slots : ∀ key id digest, next.idempotency.lookup key = some (id, digest) ↔
    table.idempotency.lookup key = some (id, digest) ∧
      ¬ ∃ entry, table.leases.lookup id = some entry ∧ ¬ (entry.expireAt nowSecs).state.isLive ∧
        entry.idempotencyKey = some key

theorem cleanup_cleaned (table : LeaseTable) (nowSecs : Nat) :
    Cleaned nowSecs table (table.cleanup nowSecs).2 := by
  have expired := expireAll_expired table nowSecs
  have removed := foldl_remove (table.expireAll nowSecs).dead (table.expireAll nowSecs)
  refine ⟨removed.epoch.trans expired.epoch, ?_, ?_⟩
  · intro id entry
    rw [cleanup, removed.leases]
    by_cases gone : id ∈ (table.expireAll nowSecs).dead
    · rw [if_pos gone]
      refine iff_of_false nofun ?_
      intro ⟨found, live⟩
      rcases mem_dead.mp gone with ⟨last, found', terminal⟩
      rw [expired.leases, found, Option.map_some] at found'
      cases found'
      exact terminal live
    · rw [if_neg gone, expired.leases, Option.map_eq_some_iff]
      have stays : ∀ before, table.leases.lookup id = some before →
          (before.expireAt nowSecs).state.isLive := by
        intro before found
        by_contra terminal
        exact gone (mem_dead.mpr ⟨_, by rw [expired.leases, found, Option.map_some], terminal⟩)
      constructor
      · intro ⟨before, found, same⟩
        have live := stays before found
        rw [LeaseEntry.expireAt_of_live live] at same
        subst same
        exact ⟨found, live⟩
      · intro ⟨found, live⟩
        exact ⟨entry, found, LeaseEntry.expireAt_of_live live⟩
  · intro key id digest
    rw [cleanup, removed.slots, expired.slots]
    refine and_congr_right (fun _ => not_congr ?_)
    rw [mem_dead, expired.leases]
    cases table.leases.lookup id with
    | none => simp
    | some entry => simp

end LeaseTable
end NdnExt.Leases
