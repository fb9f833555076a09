import NdnExt.Leases.Lifecycle

/-! What a prepare that returns a lease has granted. -/

namespace NdnExt.Leases

open NdnExt.Lib NdnExt.Lib.System LeaseTable

/-- The lease is the one that was asked for, and its holder can commit it in time. -/
structure Granted (nowSecs : Nat) (req : LeaseRequest) (lease : Lease) (entry : LeaseEntry)
    (next : LeaseTable) : Prop where
  found : next.leases.lookup lease.id = some entry
  live : entry.state.isLive
  unexpired : nowSecs < entry.expiresAtSecs
  holder : entry.holder = req.holder
  plan : entry.planDigest = req.planDigest
  reserves : ∀ key ∈ req.conflictKeys, key ∈ entry.conflictKeys
  commits : ∀ later, nowSecs ≤ later → later < lease.expiresAtSecs →
    (next.commit later lease.id req.holder lease.bootEpoch).1 = .ok ()

/-- A replay must be answered with a lease of the same holder that still waits for its commit and
has the keys, a new lease must have time. -/
def AsAsked (table : LeaseTable) (nowSecs : Nat) (req : LeaseRequest) : Prop :=
  match req.idempotencyKey.bind table.idempotency.lookup with
  | some (id, _) => ∃ entry, table.leases.lookup id = some entry ∧ entry.holder = req.holder ∧
      entry.state = .prepared ∧ ∀ key ∈ req.conflictKeys, key ∈ entry.conflictKeys
  | none => nowSecs < saturatingAddU64 nowSecs req.ttlSecs

theorem commit_ok {table : LeaseTable} {id : LeaseId} {entry : LeaseEntry} {later : Nat}
    (found : table.leases.lookup id = some entry) (state : entry.state = .prepared)
    (time : later < entry.expiresAtSecs) :
    (table.commit later id entry.holder table.bootEpoch).1 = .ok () := by
  have notDue : ¬ (entry.state.isLive ∧ later ≥ entry.expiresAtSecs) :=
    fun due => Nat.not_le_of_lt time due.2
  have looked : table.lazilyExpire id later = (false, table) := by
    rw [lazilyExpire, found]
    simp only [if_neg notDue]
    rw [state]
    rfl
  have checked : table.checkedEntry later id entry.holder table.bootEpoch = (.ok (), table) := by
    simp only [checkedEntry, found, looked, ne_eq, not_true_eq_false, if_false]
  simp only [commit, transition, checked, found, state, List.mem_singleton, if_true]

theorem commit_state {table : LeaseTable} {id : LeaseId} {entry : LeaseEntry} {later : Nat}
    {holder : Name} {bootEpoch : Nat} (found : table.leases.lookup id = some entry)
    (committed : (table.commit later id holder bootEpoch).1 = .ok ()) :
    entry.state = .prepared := by
  rcases transition_cases table later id holder bootEpoch [.prepared] .committed with
    ⟨before, next, _, _, found', _, source, _⟩ | ⟨error, next, failed, _⟩
  · rw [found] at found'
    cases found'
    exact List.mem_singleton.mp source
  · rw [commit, failed] at committed
    cases committed

/-- The answer of a prepare is the lease that was asked for exactly under the condition. -/
theorem granted_iff {bootEpoch : Nat} {table : LeaseTable} (reached : Reached bootEpoch table)
    {nowSecs : Nat} {req : LeaseRequest} {drawn : LeaseId} {lease : Lease} {next : LeaseTable}
    (returned : table.prepare nowSecs req drawn = (.ok lease, next)) :
    (∃ entry, Granted nowSecs req lease entry next) ↔ AsAsked table nowSecs req := by
  have sound := sound_reached reached
  unfold AsAsked
  rcases prepare_cases table nowSecs req drawn with
    ⟨id, digest, entry, after, taken, slot, plan, found, live, time, same⟩ | ⟨slot, _, taken⟩ |
      ⟨error, after, failed, _⟩
  · rw [taken] at returned
    cases returned
    have here : next.leases.lookup id = some entry := (same.leases id).trans found
    have digested : entry.planDigest = req.planDigest := by
      rcases Option.bind_eq_some_iff.mp slot with ⟨key, _, pointed⟩
      rcases (sound.slots key id digest).mp pointed with ⟨entry', found', _, digested⟩
      rw [found] at found'
      cases found'
      exact digested.trans plan
    rw [slot]
    dsimp only
    constructor
    · rintro ⟨entry', granted⟩
      have same' := granted.found
      rw [here] at same'
      cases same'
      exact ⟨entry, found, granted.holder,
        commit_state here (granted.commits nowSecs (Nat.le_refl _) time), granted.reserves⟩
    · rintro ⟨entry', found', own, state, reserves⟩
      rw [found] at found'
      cases found'
      refine ⟨entry, here, live, time, own, digested, reserves, ?_⟩
      intro later _ before
      rw [← own, ← same.epoch]
      exact commit_ok here state before
  · rw [taken] at returned
    cases returned
    have here : (table.grant nowSecs req drawn).leases.lookup drawn =
        some (grantedEntry nowSecs req) := by
      rw [grant, HashMap.lookup_insert_eq, if_pos rfl]
    rw [slot]
    dsimp only
    constructor
    · rintro ⟨entry, granted⟩
      have same := granted.found
      rw [here] at same
      cases same
      exact granted.unexpired
    · intro time
      refine ⟨grantedEntry nowSecs req, here, rfl, time, rfl, rfl, fun _ member => member, ?_⟩
      intro later _ before
      exact commit_ok here rfl before
  · rw [failed] at returned
    cases returned

theorem granted_gpu :
    ∃ entry, Granted 0 (gpuRequest alice (some "job")) ⟨⟨"a"⟩, 7, 60⟩ entry
      ((LeaseTable.new 7).prepare 0 (gpuRequest alice (some "job")) ⟨"a"⟩).2 :=
  (granted_iff Reaches.start rfl).mpr (by show 0 < saturatingAddU64 0 60; decide)

def heldByAlice : LeaseTable :=
  (LeaseTable.new 7).next ⟨0, .prepare (gpuRequest alice (some "job")) ⟨"a"⟩⟩

def bobsReplay : Outcome LeaseError Lease × LeaseTable :=
  heldByAlice.prepare 1 (gpuRequest bob (some "job")) ⟨"b"⟩

/-- Another holder's prepare under a known key is answered with the lease it cannot commit. -/
theorem replay_for_another_holder :
    bobsReplay.1 = .ok ⟨⟨"a"⟩, 7, 60⟩ ∧
      (bobsReplay.2.commit 2 ⟨"a"⟩ bob 7).1 = .err .wrongHolder ∧
      ¬ ∃ entry, Granted 1 (gpuRequest bob (some "job")) ⟨⟨"a"⟩, 7, 60⟩ entry bobsReplay.2 := by
  have refused : (bobsReplay.2.commit 2 ⟨"a"⟩ bob 7).1 = .err .wrongHolder := by decide +kernel
  refine ⟨by decide +kernel, refused, ?_⟩
  rintro ⟨entry, granted⟩
  have committed := granted.commits 2 (by decide) (by decide)
  exact absurd (refused.symm.trans committed) nofun

end NdnExt.Leases
