import NdnExt.Leases.Lifecycle

/-! Expiry on access beside expiry in time. -/

namespace NdnExt.Leases

open NdnExt.Lib NdnExt.Lib.Run LeaseTable Option HashMap

namespace LeaseTable

/-- Every live lease whose time has come is expired. -/
def expireDue (table : LeaseTable) (nowSecs : Nat) : LeaseTable :=
  { table with leases := table.leases.mapValues (fun _ entry => entry.expireAt nowSecs) }

def answers (table : LeaseTable) : List Call → List Answer
  | [] => []
  | input :: rest => (table.call input).1 :: (table.next input).answers rest

/-- The answers of the same calls, each on a table that has no overdue lease. -/
def eagerAnswers (table : LeaseTable) : List Call → List Answer
  | [] => []
  | input :: rest =>
    ((table.expireDue input.nowSecs).call input).1 ::
      ((table.expireDue input.nowSecs).next input).eagerAnswers rest

/-- A lease that still has time holds `key`. -/
def heldInTime (table : LeaseTable) (nowSecs : Nat) (key : String) : Bool :=
  table.leases.pairs.any (fun item =>
    (item.2.expireAt nowSecs).state.isLive && item.2.conflictKeys.contains key)

/-- A lease as it is once its expiry is looked at. -/
def view (table : LeaseTable) (nowSecs : Nat) (id : LeaseId) : Option LeaseEntry :=
  (table.leases.lookup id).map (fun entry => entry.expireAt nowSecs)

end LeaseTable

/-- Tables that a look at the clock makes equal. -/
structure Agree (nowSecs : Nat) (left right : LeaseTable) : Prop where
  epoch : left.bootEpoch = right.bootEpoch
  view : ∀ id, left.view nowSecs id = right.view nowSecs id
  slots : ∀ key, left.idempotency.lookup key = right.idempotency.lookup key

variable {table : LeaseTable} {id : LeaseId} {nowSecs : Nat}

theorem Same.view {next : LeaseTable} (same : Same table next) (nowSecs : Nat)
    (id : LeaseId) : next.view nowSecs id = table.view nowSecs id := by
  rw [LeaseTable.view, same.leases, LeaseTable.view]

theorem Sets.view {entry : LeaseEntry} {next : LeaseTable}
    (sets : Sets id entry table next) (nowSecs : Nat) (other : LeaseId) :
    next.view nowSecs other =
      if other = id then some (entry.expireAt nowSecs) else table.view nowSecs other := by
  rw [LeaseTable.view, sets.leases]
  split <;> rfl

theorem Kept.view {next : LeaseTable} (kept : Kept nowSecs table next)
    (id : LeaseId) : next.view nowSecs id = table.view nowSecs id := by
  rcases kept with same | ⟨other, entry, found, live, due, sets⟩
  · exact same.view nowSecs id
  · rw [sets.view]
    split
    · next same =>
      rw [LeaseTable.view, same, found, map_some,
        ← LeaseEntry.expireAt_of_due live due, LeaseEntry.expireAt_expireAt _ (Nat.le_refl _)]
    · rfl

theorem Kept.epoch {next : LeaseTable} (kept : Kept nowSecs table next) :
    next.bootEpoch = table.bootEpoch := by
  rcases kept with same | ⟨_, _, _, _, _, sets⟩
  · exact same.epoch
  · exact sets.epoch

theorem Kept.slots {next : LeaseTable} (kept : Kept nowSecs table next)
    (key : String) : next.idempotency.lookup key = table.idempotency.lookup key := by
  rcases kept with same | ⟨_, _, _, _, _, sets⟩
  · exact same.slots key
  · exact sets.slots key

namespace Agree

variable {nowSecs : Nat} {left right leftNext rightNext : LeaseTable}

theorem kept (agree : Agree nowSecs left right) (leftKept : Kept nowSecs left leftNext)
    (rightKept : Kept nowSecs right rightNext) : Agree nowSecs leftNext rightNext := by
  refine ⟨?_, ?_, ?_⟩
  · rw [leftKept.epoch, rightKept.epoch, agree.epoch]
  · intro id
    rw [leftKept.view, rightKept.view, agree.view]
  · intro key
    rw [leftKept.slots, rightKept.slots, agree.slots]

theorem same (agree : Agree nowSecs left right) (leftSame : Same left leftNext)
    (rightSame : Same right rightNext) : Agree nowSecs leftNext rightNext :=
  agree.kept (Or.inl leftSame) (Or.inl rightSame)

theorem sets {entry : LeaseEntry} (agree : Agree nowSecs left right)
    (leftSets : Sets id entry left leftNext) (rightSets : Sets id entry right rightNext) :
    Agree nowSecs leftNext rightNext := by
  refine ⟨?_, ?_, ?_⟩
  · rw [leftSets.epoch, rightSets.epoch, agree.epoch]
  · intro other
    rw [leftSets.view, rightSets.view, agree.view]
  · intro key
    rw [leftSets.slots, rightSets.slots, agree.slots]

theorem later {laterSecs : Nat} (agree : Agree nowSecs left right)
    (ordered : nowSecs ≤ laterSecs) : Agree laterSecs left right := by
  refine ⟨agree.epoch, ?_, agree.slots⟩
  intro id
  have again : ∀ table : LeaseTable, table.view laterSecs id =
      (table.view nowSecs id).map (fun entry => entry.expireAt laterSecs) := by
    intro table
    rw [LeaseTable.view, LeaseTable.view, map_map]
    congr 1
    funext entry
    exact (entry.expireAt_expireAt ordered).symm
  rw [again, again, agree.view]

theorem expireDue (agree : Agree nowSecs left right) :
    Agree nowSecs left (right.expireDue nowSecs) := by
  refine ⟨agree.epoch, ?_, agree.slots⟩
  intro id
  rw [agree.view, LeaseTable.view, LeaseTable.view, LeaseTable.expireDue,
    lookup_mapValues, map_map]
  congr 1
  funext entry
  exact (entry.expireAt_expireAt (Nat.le_refl _)).symm

theorem lookup_none (agree : Agree nowSecs left right) :
    left.leases.lookup id = none ↔ right.leases.lookup id = none := by
  have same := agree.view id
  rw [LeaseTable.view, LeaseTable.view] at same
  rw [← map_eq_none_iff (f := fun entry : LeaseEntry => entry.expireAt nowSecs), same,
    map_eq_none_iff]

theorem keys_length (agree : Agree nowSecs left right) :
    left.leases.keys.length = right.leases.keys.length := by
  refine List.Perm.length_eq ((List.perm_ext_iff_of_nodup left.leases.keys_nodup
    right.leases.keys_nodup).mpr ?_)
  intro id
  have none : left.leases.lookup id = none ↔ right.leases.lookup id = none := agree.lookup_none
  rw [AList.lookup_eq_none, AList.lookup_eq_none] at none
  exact not_iff_not.mp none

end Agree

/-- Equal answers, and tables that still agree. -/
def Lockstep {A : Type} (nowSecs : Nat) (left right : A × LeaseTable) : Prop :=
  left.1 = right.1 ∧ Agree nowSecs left.2 right.2

section Calls

variable {nowSecs : Nat} {left right : LeaseTable} {id : LeaseId} {holder : Name}
  {bootEpoch : Nat}

section

variable (agree : Agree nowSecs left right)
include agree

theorem refuse_lockstep {A : Type} (error : LeaseError) :
    Lockstep nowSecs (left.refuse error : Outcome LeaseError A × LeaseTable)
      (right.refuse error) :=
  ⟨rfl, agree.same ⟨rfl, fun _ => rfl, fun _ => rfl⟩ ⟨rfl, fun _ => rfl, fun _ => rfl⟩⟩

theorem lazilyExpire_lockstep (id : LeaseId) :
    Lockstep nowSecs (left.lazilyExpire id nowSecs) (right.lazilyExpire id nowSecs) := by
  refine ⟨?_, agree.kept (lazilyExpire_kept left nowSecs id) (lazilyExpire_kept right nowSecs id)⟩
  have same := agree.view id
  rw [view, view] at same
  cases leftFound : left.leases.lookup id with
  | none =>
    rw [lazilyExpire_none leftFound, lazilyExpire_none (agree.lookup_none.mp leftFound)]
  | some leftEntry =>
    cases rightFound : right.leases.lookup id with
    | none =>
      rw [agree.lookup_none.mpr rightFound] at leftFound
      cases leftFound
    | some rightEntry =>
      rw [leftFound, rightFound, map_some, map_some, Option.some.injEq] at same
      rw [lazilyExpire_fst leftFound, lazilyExpire_fst rightFound, same]

/-- After the look the entry is the same on both sides. -/
theorem lookup_lazilyExpire_eq (id : LeaseId) :
    (left.lazilyExpire id nowSecs).2.leases.lookup id =
      (right.lazilyExpire id nowSecs).2.leases.lookup id := by
  rw [lookup_lazilyExpire, lookup_lazilyExpire, if_pos rfl, if_pos rfl]
  exact agree.view id

theorem checkedEntry_lockstep :
    Lockstep nowSecs (left.checkedEntry nowSecs id holder bootEpoch)
        (right.checkedEntry nowSecs id holder bootEpoch) ∧
      ((left.checkedEntry nowSecs id holder bootEpoch).1 = .ok () →
        (left.checkedEntry nowSecs id holder bootEpoch).2.leases.lookup id =
          (right.checkedEntry nowSecs id holder bootEpoch).2.leases.lookup id) := by
  unfold checkedEntry
  rw [agree.epoch]
  split
  · exact ⟨refuse_lockstep agree _, nofun⟩
  · cases leftFound : left.leases.lookup id with
    | none =>
      rw [agree.lookup_none.mp leftFound]
      exact ⟨refuse_lockstep agree _, nofun⟩
    | some leftEntry =>
      cases rightFound : right.leases.lookup id with
      | none =>
        rw [agree.lookup_none.mpr rightFound] at leftFound
        cases leftFound
      | some rightEntry =>
        have same := agree.view id
        rw [view, view, leftFound, rightFound, map_some,
          map_some, Option.some.injEq] at same
        have own : leftEntry.holder = rightEntry.holder := by
          rw [← leftEntry.expireAt_holder nowSecs, same, rightEntry.expireAt_holder]
        have looked := lazilyExpire_lockstep agree id
        have entry := lookup_lazilyExpire_eq agree id
        dsimp only
        rw [own]
        split
        · exact ⟨refuse_lockstep agree _, nofun⟩
        · rcases leftLook : left.lazilyExpire id nowSecs with ⟨leftExpired, leftAfter⟩
          rcases rightLook : right.lazilyExpire id nowSecs with ⟨rightExpired, rightAfter⟩
          rw [leftLook, rightLook] at looked entry
          rcases looked with ⟨sameAnswer, agreeAfter⟩
          subst sameAnswer
          cases leftExpired with
          | true => exact ⟨refuse_lockstep agreeAfter _, nofun⟩
          | false => exact ⟨⟨rfl, agreeAfter⟩, fun _ => entry⟩

end

/-- A check passes on both sides, with the same entry, or fails on both with the same error. -/
theorem checkedEntry_both (agree : Agree nowSecs left right) :
    (∃ leftNext rightNext, left.checkedEntry nowSecs id holder bootEpoch = (.ok (), leftNext) ∧
        right.checkedEntry nowSecs id holder bootEpoch = (.ok (), rightNext) ∧
        Agree nowSecs leftNext rightNext ∧
        leftNext.leases.lookup id = rightNext.leases.lookup id) ∨
      ∃ error leftNext rightNext,
        left.checkedEntry nowSecs id holder bootEpoch = (.err error, leftNext) ∧
        right.checkedEntry nowSecs id holder bootEpoch = (.err error, rightNext) ∧
        Agree nowSecs leftNext rightNext := by
  have both : Lockstep nowSecs (left.checkedEntry nowSecs id holder bootEpoch)
      (right.checkedEntry nowSecs id holder bootEpoch) ∧ _ := checkedEntry_lockstep agree
  rcases rightCase : right.checkedEntry nowSecs id holder bootEpoch with ⟨answer, rightNext⟩
  rcases checkedEntry_cases left nowSecs id holder bootEpoch with
    ⟨_, leftNext, passed, _⟩ | ⟨error, leftNext, failed, _⟩
  · rw [passed, rightCase] at both
    rcases both with ⟨⟨same, agree⟩, entry⟩
    subst same
    exact Or.inl ⟨leftNext, rightNext, passed, rfl, agree, entry rfl⟩
  · rw [failed, rightCase] at both
    rcases both with ⟨⟨same, agree⟩, _⟩
    subst same
    exact Or.inr ⟨error, leftNext, rightNext, failed, rfl, agree⟩

section

variable (agree : Agree nowSecs left right)
include agree

theorem transition_lockstep (sources : List LeaseState)
    (target : LeaseState) :
    Lockstep nowSecs (left.transition nowSecs id holder bootEpoch sources target)
      (right.transition nowSecs id holder bootEpoch sources target) := by
  unfold transition
  rcases @checkedEntry_both nowSecs left right id holder bootEpoch agree with
    ⟨leftNext, rightNext, leftPassed, rightPassed, agree, entry⟩ |
      ⟨error, leftNext, rightNext, leftFailed, rightFailed, agree⟩
  · rw [leftPassed, rightPassed]
    dsimp only
    rw [entry]
    split
    · exact ⟨rfl, agree⟩
    · split
      · exact ⟨rfl, agree.sets (Sets.self id _ leftNext _ rfl rfl rfl)
          (Sets.self id _ rightNext _ rfl rfl rfl)⟩
      · exact refuse_lockstep agree _
  · rw [leftFailed, rightFailed]
    exact ⟨rfl, agree⟩

theorem activate_lockstep (planDigest : String) :
    Lockstep nowSecs (left.activate nowSecs id holder bootEpoch planDigest)
      (right.activate nowSecs id holder bootEpoch planDigest) := by
  unfold activate
  rcases @checkedEntry_both nowSecs left right id holder bootEpoch agree with
    ⟨leftNext, rightNext, leftPassed, rightPassed, agree, entry⟩ |
      ⟨error, leftNext, rightNext, leftFailed, rightFailed, agree⟩
  · rw [leftPassed, rightPassed]
    dsimp only
    rw [entry]
    split
    · exact ⟨rfl, agree⟩
    · split
      · exact refuse_lockstep agree _
      · exact transition_lockstep agree _ _
  · rw [leftFailed, rightFailed]
    exact ⟨rfl, agree⟩

theorem renew_lockstep (extendSecs : Nat) :
    Lockstep nowSecs (left.renew nowSecs id holder bootEpoch extendSecs)
      (right.renew nowSecs id holder bootEpoch extendSecs) := by
  unfold renew
  rcases @checkedEntry_both nowSecs left right id holder bootEpoch agree with
    ⟨leftNext, rightNext, leftPassed, rightPassed, agree, entry⟩ |
      ⟨error, leftNext, rightNext, leftFailed, rightFailed, agree⟩
  · rw [leftPassed, rightPassed]
    dsimp only
    rw [entry, agree.epoch]
    split
    · exact ⟨rfl, agree⟩
    · exact ⟨rfl, agree.sets (Sets.self id _ leftNext _ agree.epoch.symm rfl rfl)
        (Sets.self id _ rightNext _ rfl rfl rfl)⟩
  · rw [leftFailed, rightFailed]
    exact ⟨rfl, agree⟩

theorem state_lockstep (id : LeaseId) :
    Lockstep nowSecs (left.state nowSecs id) (right.state nowSecs id) := by
  refine ⟨?_, (lazilyExpire_lockstep agree id).2⟩
  exact congrArg (Option.map _) (lookup_lazilyExpire_eq agree id)

theorem replay_lockstep (id : LeaseId) :
    Lockstep nowSecs (left.replay nowSecs id) (right.replay nowSecs id) := by
  have looked := lazilyExpire_lockstep agree id
  have entry := lookup_lazilyExpire_eq agree id
  unfold replay
  rcases leftLook : left.lazilyExpire id nowSecs with ⟨leftExpired, leftAfter⟩
  rcases rightLook : right.lazilyExpire id nowSecs with ⟨rightExpired, rightAfter⟩
  rw [leftLook, rightLook] at looked entry
  rcases looked with ⟨sameAnswer, agreeAfter⟩
  dsimp only at sameAnswer agreeAfter entry
  subst sameAnswer
  cases leftExpired with
  | true => exact refuse_lockstep agreeAfter _
  | false =>
    dsimp only
    rw [entry, agreeAfter.epoch]
    split
    · exact refuse_lockstep agreeAfter _
    · split
      · exact ⟨rfl, agreeAfter.same ⟨agreeAfter.epoch.symm, fun _ => rfl, fun _ => rfl⟩
          ⟨rfl, fun _ => rfl, fun _ => rfl⟩⟩
      · exact refuse_lockstep agreeAfter _

theorem grant_agree (req : LeaseRequest) (drawn : LeaseId) :
    Agree nowSecs (left.grant nowSecs req drawn) (right.grant nowSecs req drawn) := by
  refine ⟨agree.epoch, ?_, ?_⟩
  · intro id
    have one : ∀ table : LeaseTable, (table.grant nowSecs req drawn).view nowSecs id =
        if id = drawn then some ((grantedEntry nowSecs req).expireAt nowSecs)
        else table.view nowSecs id := by
      intro table
      rw [view, grant, lookup_insert_eq]
      split <;> rfl
    rw [one, one, agree.view]
  · intro key
    unfold grant
    cases req.idempotencyKey with
    | none => exact agree.slots key
    | some own => rw [lookup_insert_eq, lookup_insert_eq, agree.slots]

end

theorem LeaseTable.Cleaned.view {next : LeaseTable} (cleaned : Cleaned nowSecs table next)
    (id : LeaseId) :
    next.view nowSecs id = (table.view nowSecs id).filter (fun entry => entry.state.isLive) := by
  apply Option.ext
  intro entry
  rw [filter_eq_some_iff, LeaseTable.view, LeaseTable.view, map_eq_some_iff,
    map_eq_some_iff]
  constructor
  · intro ⟨was, found, same⟩
    rw [cleaned.leases] at found
    exact ⟨⟨was, found.1, same⟩, same ▸ found.2⟩
  · intro ⟨⟨was, found, same⟩, live⟩
    exact ⟨was, (cleaned.leases id was).mpr ⟨found, same ▸ live⟩, same⟩

theorem LeaseTable.Cleaned.slots_view {next : LeaseTable} (cleaned : Cleaned nowSecs table next)
    {key : String} {digest : String} :
    next.idempotency.lookup key = some (id, digest) ↔
      table.idempotency.lookup key = some (id, digest) ∧
        ¬ ∃ entry, table.view nowSecs id = some entry ∧ ¬ entry.state.isLive ∧
          entry.idempotencyKey = some key := by
  rw [cleaned.slots, LeaseTable.view]
  refine and_congr_right (fun _ => not_congr ?_)
  cases table.leases.lookup id with
  | none => simp
  | some entry => simp

theorem Agree.cleaned (agree : Agree nowSecs left right) {leftNext rightNext : LeaseTable}
    (leftCleaned : Cleaned nowSecs left leftNext) (rightCleaned : Cleaned nowSecs right rightNext) :
    Agree nowSecs leftNext rightNext := by
  refine ⟨?_, ?_, ?_⟩
  · rw [leftCleaned.epoch, rightCleaned.epoch, agree.epoch]
  · intro id
    rw [leftCleaned.view, rightCleaned.view, agree.view]
  · intro key
    apply Option.ext
    intro ⟨id, digest⟩
    rw [leftCleaned.slots_view, rightCleaned.slots_view, agree.slots, agree.view]

theorem Agree.expired (agree : Agree nowSecs left right) {leftNext rightNext : LeaseTable}
    (leftExpired : Expired nowSecs left leftNext) (rightExpired : Expired nowSecs right rightNext) :
    Agree nowSecs leftNext rightNext := by
  have looked : ∀ {table next : LeaseTable}, Expired nowSecs table next → ∀ id,
      next.view nowSecs id = (table.view nowSecs id).map (fun entry => entry.expireAt nowSecs) := by
    intro table next expired id
    rw [LeaseTable.view, expired.leases, LeaseTable.view]
  refine ⟨?_, ?_, ?_⟩
  · rw [leftExpired.epoch, rightExpired.epoch, agree.epoch]
  · intro id
    rw [looked leftExpired, looked rightExpired, agree.view]
  · intro key
    rw [leftExpired.slots, rightExpired.slots, agree.slots]

theorem cleanup_lockstep (agree : Agree nowSecs left right) :
    Lockstep nowSecs (left.cleanup nowSecs) (right.cleanup nowSecs) := by
  have expired := agree.expired (expireAll_expired left nowSecs) (expireAll_expired right nowSecs)
  have cleaned := agree.cleaned (cleanup_cleaned left nowSecs) (cleanup_cleaned right nowSecs)
  refine ⟨?_, cleaned⟩
  have before := expired.keys_length
  have after := cleaned.keys_length
  unfold cleanup at after ⊢
  dsimp only at after ⊢
  rw [before, after]

/-- No live lease of the table is overdue. -/
def Eager (nowSecs : Nat) (table : LeaseTable) : Prop :=
  ∀ id entry, table.leases.lookup id = some entry → entry.expireAt nowSecs = entry

theorem eager_expireDue (table : LeaseTable) (nowSecs : Nat) :
    Eager nowSecs (table.expireDue nowSecs) := by
  intro id entry found
  rw [expireDue, lookup_mapValues, map_eq_some_iff] at found
  rcases found with ⟨was, _, rfl⟩
  exact was.expireAt_expireAt (Nat.le_refl _)

theorem Eager.view (eager : Eager nowSecs table) (id : LeaseId) :
    table.view nowSecs id = table.leases.lookup id := by
  rw [LeaseTable.view]
  cases found : table.leases.lookup id with
  | none => rfl
  | some entry => rw [map_some, eager id entry found]

theorem heldInTime_iff {key : String} :
    table.heldInTime nowSecs key ↔ ∃ id entry, table.view nowSecs id = some entry ∧
      entry.state.isLive ∧ key ∈ entry.conflictKeys := by
  simp only [heldInTime, List.any_eq_true, Bool.and_eq_true, List.contains_iff_mem,
    Prod.exists, mem_pairs, view, map_eq_some_iff]
  constructor
  · intro ⟨id, entry, found, live, member⟩
    exact ⟨id, _, ⟨entry, found, rfl⟩, live, by rwa [entry.expireAt_conflictKeys]⟩
  · intro ⟨id, _, ⟨entry, found, rfl⟩, live, member⟩
    exact ⟨id, entry, found, live, by rwa [entry.expireAt_conflictKeys] at member⟩

theorem held_of_heldInTime {key : String}
    (inTime : table.heldInTime nowSecs key) : table.held key := by
  simp only [heldInTime, held, List.any_eq_true, Bool.and_eq_true] at *
  rcases inTime with ⟨item, member, live, holds⟩
  rw [LeaseEntry.expireAt_of_live live] at live
  exact ⟨item, member, live, holds⟩

theorem held_eager (agree : Agree nowSecs left right) (eager : Eager nowSecs right)
    (key : String) : right.held key = left.heldInTime nowSecs key := by
  rw [Bool.eq_iff_iff, held_iff, heldInTime_iff]
  simp only [agree.view, eager.view]

/-- The conflict check, if the prepare comes to it, stops at no key that only overdue leases hold. -/
def PrepareInTime (table : LeaseTable) (nowSecs : Nat) (req : LeaseRequest) : Prop :=
  req.idempotencyKey.bind table.idempotency.lookup = none →
    table.leases.keys.length < maxLeases →
    ∀ key, req.conflictKeys.find? table.held = some key → table.heldInTime nowSecs key

theorem find?_of_imp {A : Type} {p q : A → Bool} (imp : ∀ item, q item → p item) {items : List A}
    {first : A} (found : items.find? p = some first) (holds : q first) :
    items.find? q = some first := by
  rcases List.find?_eq_some_iff_append.mp found with ⟨_, before, after, split, none⟩
  refine List.find?_eq_some_iff_append.mpr ⟨holds, before, after, split, ?_⟩
  intro item member
  have earlier := none item member
  rw [Bool.not_eq_true'] at earlier ⊢
  by_contra held
  rw [imp item (by simpa using held)] at earlier
  cases earlier

theorem prepare_lockstep (agree : Agree nowSecs left right) (eager : Eager nowSecs right)
    {req : LeaseRequest} (drawn : LeaseId) (inTime : PrepareInTime left nowSecs req) :
    Lockstep nowSecs (left.prepare nowSecs req drawn) (right.prepare nowSecs req drawn) := by
  have slots : req.idempotencyKey.bind left.idempotency.lookup =
      req.idempotencyKey.bind right.idempotency.lookup := by
    cases req.idempotencyKey with
    | none => rfl
    | some key => exact agree.slots key
  unfold prepare
  rw [← slots, ← agree.keys_length]
  split
  · split
    · exact refuse_lockstep agree _
    · exact replay_lockstep agree _
  · next slot =>
    split
    · exact refuse_lockstep agree _
    · next room =>
      have rightHeld : right.held = left.heldInTime nowSecs := funext (held_eager agree eager)
      rw [rightHeld]
      cases leftFound : req.conflictKeys.find? left.held with
      | none =>
        have rightFound : req.conflictKeys.find? (left.heldInTime nowSecs) = none := by
          rw [List.find?_eq_none] at leftFound ⊢
          exact fun key member held => leftFound key member (held_of_heldInTime held)
        rw [rightFound]
        exact ⟨by rw [agree.epoch], grant_agree agree req drawn⟩
      | some key =>
        have held := inTime slot (Nat.lt_of_not_le room) key leftFound
        rw [find?_of_imp (fun _ => held_of_heldInTime) leftFound held]
        exact refuse_lockstep agree _

theorem prepare_inTime (agree : Agree nowSecs left right) (eager : Eager nowSecs right)
    {req : LeaseRequest} {drawn : LeaseId}
    (same : (left.prepare nowSecs req drawn).1 = (right.prepare nowSecs req drawn).1) :
    PrepareInTime left nowSecs req := by
  intro slot room key leftFound
  have slots : req.idempotencyKey.bind right.idempotency.lookup = none := by
    rw [← slot]
    cases req.idempotencyKey with
    | none => rfl
    | some key => exact (agree.slots key).symm
  have rightHeld : right.held = left.heldInTime nowSecs := funext (held_eager agree eager)
  rw [prepare, prepare, slot, slots, ← agree.keys_length, rightHeld] at same
  simp only [if_neg (Nat.not_le_of_lt room), leftFound] at same
  split at same
  · next rightKey rightFound =>
    have conflict : key = rightKey := by
      simpa [refuse] using same
    rw [conflict]
    exact List.find?_some rightFound
  · cases same

/-- No live lease is overdue. -/
def CountInTime (table : LeaseTable) (nowSecs : Nat) : Prop :=
  ∀ item ∈ table.leases.pairs, item.2.state.isLive → (item.2.expireAt nowSecs).state.isLive

theorem liveCount_iff (agree : Agree nowSecs left right) (eager : Eager nowSecs right) :
    left.liveCount = right.liveCount ↔ CountInTime left nowSecs := by
  have perm : right.leases.pairs.Perm
      (left.leases.mapValues (fun _ entry => entry.expireAt nowSecs)).pairs := by
    apply pairs_perm
    intro id
    rw [← eager.view, ← agree.view, lookup_mapValues, view]
  have rightCount : right.liveCount = (left.leases.pairs.filter
      (fun item => (item.2.expireAt nowSecs).state.isLive)).length := by
    rw [liveCount, (perm.filter _).length_eq, pairs_mapValues, List.filter_map,
      List.length_map]
    rfl
  have nested : left.leases.pairs.filter (fun item => (item.2.expireAt nowSecs).state.isLive) =
      (left.leases.pairs.filter (fun item => item.2.state.isLive)).filter
        (fun item => (item.2.expireAt nowSecs).state.isLive) := by
    rw [List.filter_filter]
    apply List.filter_congr
    intro item _
    cases live : (item.2.expireAt nowSecs).state.isLive with
    | false => rfl
    | true =>
      rw [LeaseEntry.expireAt_of_live live] at live
      rw [live]
      rfl
  rw [rightCount, nested, liveCount, eq_comm, List.length_filter_eq_length_iff]
  simp only [List.mem_filter, and_imp, CountInTime]

/-- The calls that look at leases they do not touch see no overdue one that matters. -/
def InTime (table : LeaseTable) (input : Call) : Prop :=
  match input.op with
  | .prepare req _ => PrepareInTime table input.nowSecs req
  | .liveCount => CountInTime table input.nowSecs
  | _ => True

theorem answering_lockstep {A : Type} {wrap : A → Answer} {leftResult rightResult : A × LeaseTable}
    (lockstep : Lockstep nowSecs leftResult rightResult) :
    Lockstep nowSecs (answering wrap leftResult) (answering wrap rightResult) :=
  ⟨congrArg wrap lockstep.1, lockstep.2⟩

theorem call_lockstep {input : Call} (agree : Agree input.nowSecs left right)
    (eager : Eager input.nowSecs right) (inTime : InTime left input) :
    Lockstep input.nowSecs (left.call input) (right.call input) := by
  rcases input with ⟨nowSecs, op⟩
  cases op with
  | prepare req drawn => exact answering_lockstep (prepare_lockstep agree eager drawn inTime)
  | commit => exact answering_lockstep (transition_lockstep agree _ _)
  | activate => exact answering_lockstep (activate_lockstep agree _)
  | renew => exact answering_lockstep (renew_lockstep agree _)
  | abort => exact answering_lockstep (transition_lockstep agree _ _)
  | release => exact answering_lockstep (transition_lockstep agree _ _)
  | state id => exact answering_lockstep (state_lockstep agree id)
  | cleanup => exact answering_lockstep (cleanup_lockstep agree)
  | liveCount => exact ⟨congrArg Answer.count ((liveCount_iff agree eager).mpr inTime), agree⟩

theorem inTime_of_call {input : Call} (agree : Agree input.nowSecs left right)
    (eager : Eager input.nowSecs right) (same : (left.call input).1 = (right.call input).1) :
    InTime left input := by
  rcases input with ⟨nowSecs, op⟩
  cases op with
  | prepare req drawn => exact prepare_inTime agree eager (Answer.lease.inj same)
  | liveCount => exact (liveCount_iff agree eager).mp (Answer.count.inj same)
  | _ => trivial

end Calls

theorem answers_iff (inputs : List Call) {clock : Nat} {lazy eager : LeaseTable}
    (agree : Agree clock lazy eager) (started : ∀ input ∈ inputs, clock ≤ input.nowSecs)
    (ordered : inputs.Pairwise (fun first second => first.nowSecs ≤ second.nowSecs)) :
    lazy.answers inputs = eager.eagerAnswers inputs ↔
      Throughout next lazy inputs InTime := by
  induction inputs generalizing clock lazy eager with
  | nil => exact iff_of_true rfl (throughout_nil lazy InTime)
  | cons input rest ih =>
    rw [List.pairwise_cons] at ordered
    have now := (agree.later (started input (List.mem_cons_self ..))).expireDue
    have due := eager_expireDue eager input.nowSecs
    rw [answers, eagerAnswers, List.cons.injEq, throughout_cons]
    constructor
    · intro ⟨same, later⟩
      have inTime := inTime_of_call now due same
      exact ⟨inTime, (ih (call_lockstep now due inTime).2 ordered.1 ordered.2).mp later⟩
    · intro ⟨inTime, later⟩
      have lockstep := call_lockstep now due inTime
      exact ⟨lockstep.1, (ih lockstep.2 ordered.1 ordered.2).mpr later⟩

/-- A prepare is refused for a key only if a lease that still has time holds it. -/
def ConflictInTime (table : LeaseTable) (input : Call) : Prop :=
  ∀ req drawn key, input.op = .prepare req drawn →
    (table.call input).1 = .lease (.err (.conflict key)) → table.heldInTime input.nowSecs key

theorem replay_not_conflict (table : LeaseTable) (nowSecs : Nat) (id : LeaseId) (key : String) :
    (table.replay nowSecs id).1 ≠ .err (.conflict key) := by
  unfold replay
  split
  · nofun
  · split
    · nofun
    · split <;> nofun

theorem conflictInTime_of_inTime {input : Call} (inTime : InTime table input) :
    ConflictInTime table input := by
  intro req drawn key op refused
  rcases input with ⟨nowSecs, _⟩
  subst op
  have refused := Answer.lease.inj refused
  rw [prepare] at refused
  split at refused
  · split at refused
    · cases refused
    · exact absurd refused (replay_not_conflict table _ _ key)
  · next slot =>
    split at refused
    · cases refused
    · next room =>
      split at refused
      · next other found =>
        cases refused
        exact inTime slot (Nat.lt_of_not_le room) key found
      · cases refused

/-- Expiry on access is not seen in the answers of a run exactly if no call of it comes upon an
overdue lease that it does not touch. -/
theorem lazy_expiry_iff (bootEpoch : Nat) (inputs : List Call)
    (ordered : inputs.Pairwise (fun first second => first.nowSecs ≤ second.nowSecs)) :
    ((LeaseTable.new bootEpoch).answers inputs = (LeaseTable.new bootEpoch).eagerAnswers inputs ∧
        Throughout LeaseTable.next (LeaseTable.new bootEpoch) inputs ConflictInTime) ↔
      Throughout LeaseTable.next (LeaseTable.new bootEpoch) inputs InTime := by
  have agree : Agree 0 (LeaseTable.new bootEpoch) (LeaseTable.new bootEpoch) :=
    ⟨rfl, fun _ => rfl, fun _ => rfl⟩
  rw [answers_iff inputs agree (fun _ _ => Nat.zero_le _) ordered]
  refine and_iff_left_of_imp ?_
  intro inTime earlier input later same
  exact conflictInTime_of_inTime (inTime earlier input later same)

def untouched : List Call :=
  [⟨0, .prepare (gpuRequest alice none) ⟨"a"⟩⟩, ⟨60, .prepare (gpuRequest bob none) ⟨"b"⟩⟩]

def touched : List Call :=
  [⟨0, .prepare (gpuRequest alice none) ⟨"a"⟩⟩, ⟨60, .state ⟨"a"⟩⟩,
    ⟨60, .prepare (gpuRequest bob none) ⟨"b"⟩⟩]

theorem lazy_expiry_touched :
    (LeaseTable.new 7).answers touched = (LeaseTable.new 7).eagerAnswers touched := by
  have free : ∀ {table nowSecs req}, req.conflictKeys.find? (LeaseTable.held table) = none →
      PrepareInTime table nowSecs req := by
    intro table nowSecs req free _ _ key found
    rw [free] at found
    cases found
  refine ((lazy_expiry_iff 7 touched (by decide)).mpr ?_).1
  refine throughout_cons.mpr ⟨free (by decide +kernel), throughout_cons.mpr ⟨trivial, ?_⟩⟩
  exact throughout_cons.mpr ⟨free (by decide +kernel), throughout_nil _ _⟩

/-- Nobody has touched the lease since its time ran out, and its key is still refused. -/
theorem overdue_lease_conflicts :
    (LeaseTable.new 7).answers untouched =
        [.lease (.ok ⟨⟨"a"⟩, 7, 60⟩), .lease (.err (.conflict "gpu0"))] ∧
      (LeaseTable.new 7).eagerAnswers untouched =
        [.lease (.ok ⟨⟨"a"⟩, 7, 60⟩), .lease (.ok ⟨⟨"b"⟩, 7, 120⟩)] ∧
      (LeaseTable.new 7).answers untouched ≠ (LeaseTable.new 7).eagerAnswers untouched := by
  decide +kernel

end NdnExt.Leases
