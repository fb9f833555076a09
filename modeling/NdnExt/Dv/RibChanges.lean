import NdnExt.Dv.Latest

/-! The change lists of the RIB are the difference between its answers before and after. -/

namespace NdnExt.Dv

open NdnExt.Lib HashMap

/-- The change list an operation returns. -/
def DvRib.changes (rib : DvRib) : RibOp → List RibChange
  | .applyAdvertisement peer adv => (rib.applyAdvertisement peer adv).2
  | .removeNeighbor peer => (rib.removeNeighbor peer).2

/-- The best routes after one change. -/
def RibChange.follow (best : Name → Option BestRoute) (change : RibChange) :
    Name → Option BestRoute :=
  Function.update best change.destination change.newBest

structure ExactDifference (before after : Name → Option BestRoute) (changes : List RibChange) :
    Prop where
  once : (changes.map RibChange.destination).Nodup
  answers : ∀ change ∈ changes,
    change.oldBest = before change.destination ∧ change.newBest = after change.destination
  listed : ∀ destination, (∃ change ∈ changes, change.destination = destination) ↔
    before destination ≠ after destination
  folds : changes.foldl RibChange.follow before = after

/-! ### Following a list of changes -/

/-- Where no change is listed, following them changes nothing. -/
theorem foldl_follow_unlisted {changes : List RibChange} (best : Name → Option BestRoute)
    {destination : Name} (unlisted : destination ∉ changes.map RibChange.destination) :
    changes.foldl RibChange.follow best destination = best destination := by
  induction changes generalizing best with
  | nil => rfl
  | cons change rest ih =>
    rw [List.map_cons, List.mem_cons, not_or] at unlisted
    rw [List.foldl_cons, ih _ unlisted.2]
    exact Function.update_of_ne unlisted.1 _ _

/-- Where one is, its answer is the new one. -/
theorem foldl_follow_listed {changes : List RibChange} (best : Name → Option BestRoute)
    (once : (changes.map RibChange.destination).Nodup) {change : RibChange}
    (among : change ∈ changes) :
    changes.foldl RibChange.follow best change.destination = change.newBest := by
  induction changes generalizing best with
  | nil => cases among
  | cons head rest ih =>
    rw [List.map_cons, List.nodup_cons] at once
    rw [List.foldl_cons]
    rcases List.mem_cons.mp among with rfl | later
    · rw [foldl_follow_unlisted _ once.1]
      exact Function.update_self _ _ _
    · exact ih _ once.2 later

theorem exactDifference_of {before after : Name → Option BestRoute} {changes : List RibChange}
    (once : (changes.map RibChange.destination).Nodup)
    (answers : ∀ change ∈ changes,
      change.oldBest = before change.destination ∧ change.newBest = after change.destination)
    (listed : ∀ destination, (∃ change ∈ changes, change.destination = destination) ↔
      before destination ≠ after destination) : ExactDifference before after changes where
  once := once
  answers := answers
  listed := listed
  folds := by
    funext destination
    by_cases found : ∃ change ∈ changes, change.destination = destination
    · rcases found with ⟨change, among, rfl⟩
      rw [foldl_follow_listed before once among, (answers change among).2]
    · have unlisted : destination ∉ changes.map RibChange.destination := by
        intro member
        rcases List.mem_map.mp member with ⟨change, among, same⟩
        exact found ⟨change, among, same⟩
      rw [foldl_follow_unlisted before unlisted]
      exact not_not.mp (mt (listed destination).mpr found)

/-! ### The comparison of the two maps -/

/-- The answer for a destination from a map of entries. -/
def bestIn (entries : HashMap Name RibEntry) (destination : Name) : Option BestRoute :=
  (entries.lookup destination).bind bestRouteOf

theorem newBest_eq (entry : RibEntry) :
    (if entry.lowest1 < infinity then bestRouteOf entry else none) = bestRouteOf entry := by
  split
  · rfl
  · next unreachable => exact (if_pos (not_lt.mp unreachable)).symm

theorem oldBests_lookup (rib : DvRib) (destination : Name) :
    (rib.oldBests.lookup destination).join = rib.bestRoute destination := by
  rw [DvRib.oldBests, lookup_mapValues, DvRib.bestRoute]
  cases rib.entries.lookup destination <;> rfl

theorem mem_ribChanges {rib : DvRib} {entries : HashMap Name RibEntry} {change : RibChange} :
    change ∈ ribChanges rib.oldBests entries ↔
      ∃ entry, entries.lookup change.destination = some entry ∧
        change.oldBest = rib.bestRoute change.destination ∧ change.newBest = bestRouteOf entry ∧
        rib.bestRoute change.destination ≠ bestRouteOf entry := by
  simp only [ribChanges, List.mem_filterMap, Prod.exists, mem_pairs, newBest_eq,
    oldBests_lookup]
  constructor
  · rintro ⟨name, entry, found, reported⟩
    split at reported
    · next differs =>
      cases reported
      exact ⟨entry, found, rfl, rfl, differs⟩
    · cases reported
  · rintro ⟨entry, found, old, new, differs⟩
    refine ⟨change.destination, entry, found, ?_⟩
    rw [if_pos differs, ← old, ← new]

theorem ribChanges_once (rib : DvRib) (entries : HashMap Name RibEntry) :
    ((ribChanges rib.oldBests entries).map RibChange.destination).Nodup := by
  apply filterMap_keys_nodup
  intro item change reported
  simp only [newBest_eq] at reported
  split at reported
  · cases reported
    rfl
  · cases reported

/-- Pruning what has no route leaves the answers as they are. -/
theorem bestIn_retain (entries : HashMap Name RibEntry) (keep : Name → RibEntry → Bool)
    (pruned : ∀ name entry, keep name entry = false → bestRouteOf entry = none)
    (destination : Name) :
    bestIn (entries.retain keep) destination = bestIn entries destination := by
  unfold bestIn
  rw [lookup_retain]
  cases entries.lookup destination with
  | none => rfl
  | some entry =>
    cases kept : keep destination entry with
    | true => simp [Option.filter, kept]
    | false => simp [Option.filter, kept, pruned destination entry kept]

/-- A map with every destination the RIB has is compared with it entry by entry. -/
theorem ribChanges_exact (rib : DvRib) {entries : HashMap Name RibEntry}
    (covers : ∀ destination, destination ∈ rib.entries → destination ∈ entries) :
    ExactDifference rib.bestRoute (bestIn entries) (ribChanges rib.oldBests entries) := by
  have new : ∀ {destination entry}, entries.lookup destination = some entry →
      bestIn entries destination = bestRouteOf entry := by
    intro destination entry found
    rw [bestIn, found, Option.bind_some]
  refine exactDifference_of (ribChanges_once rib entries) ?_ ?_
  · intro change among
    rcases mem_ribChanges.mp among with ⟨entry, found, old, answer, _⟩
    exact ⟨old, answer.trans (new found).symm⟩
  · intro destination
    constructor
    · rintro ⟨change, among, rfl⟩
      rcases mem_ribChanges.mp among with ⟨entry, found, _, _, differs⟩
      rwa [new found]
    · intro differs
      cases found : entries.lookup destination with
      | none =>
        have absent : rib.entries.lookup destination = none := by
          cases held : rib.entries.lookup destination with
          | none => rfl
          | some entry =>
            have inside := covers destination (mem_iff_lookup.mpr ⟨entry, held⟩)
            rcases mem_iff_lookup.mp inside with ⟨other, there⟩
            rw [found] at there
            cases there
        refine absurd ?_ differs
        rw [DvRib.bestRoute, absent, bestIn, found]
      | some entry =>
        rw [new found] at differs
        exact ⟨⟨destination, rib.bestRoute destination, bestRouteOf entry⟩,
          mem_ribChanges.mpr ⟨entry, found, rfl, rfl, differs⟩, rfl⟩

/-! ### The two calls -/

theorem mem_mapValues {entries : HashMap Name RibEntry} {f : Name → RibEntry → RibEntry}
    {destination : Name} : destination ∈ entries.mapValues f ↔ destination ∈ entries := by
  simp only [mem_iff_lookup, lookup_mapValues, Option.map_eq_some_iff]
  constructor
  · rintro ⟨_, entry, found, _⟩
    exact ⟨entry, found⟩
  · rintro ⟨entry, found⟩
    exact ⟨_, entry, found, rfl⟩

theorem mem_applyEntries {selfName peer : Name} {entries : HashMap Name RibEntry}
    {destination : Name} (advs : List AdvEntry) (held : destination ∈ entries) :
    destination ∈ advs.foldl (applyEntry selfName peer) entries := by
  induction advs generalizing entries with
  | nil => exact held
  | cons adv rest ih =>
    refine ih ?_
    unfold applyEntry
    split
    · exact held
    · split
      · exact held
      · exact AList.mem_insert _ |>.mpr (Or.inr held)

theorem unreachable_best {entry : RibEntry} (unreachable : ¬entry.lowest1 < infinity) :
    bestRouteOf entry = none :=
  if_pos (not_lt.mp unreachable)

theorem applyAdvertisement_exact (rib : DvRib) (peer : Name) (adv : Advertisement) :
    ExactDifference rib.bestRoute (rib.applyAdvertisement peer adv).1.bestRoute
      (rib.applyAdvertisement peer adv).2 := by
  have pruned : (rib.applyAdvertisement peer adv).1.bestRoute = bestIn (rib.appliedEntries peer adv) := by
    funext destination
    refine bestIn_retain _ _ ?_ destination
    intro name entry dropped
    exact unreachable_best (of_decide_eq_false dropped)
  rw [pruned]
  refine ribChanges_exact rib ?_
  intro destination held
  exact mem_mapValues.mpr (mem_applyEntries _ (mem_mapValues.mpr held))

theorem removeNeighbor_exact (rib : DvRib) (neighbor : Name) :
    ExactDifference rib.bestRoute (rib.removeNeighbor neighbor).1.bestRoute
      (rib.removeNeighbor neighbor).2 := by
  unfold DvRib.removeNeighbor
  split
  · have pruned : bestIn ((rib.removedEntries neighbor).retain fun name entry =>
        entry.lowest1 < infinity ∨ name = rib.selfName) = bestIn (rib.removedEntries neighbor) := by
      funext destination
      refine bestIn_retain _ _ ?_ destination
      intro name entry dropped
      exact unreachable_best (not_or.mp (of_decide_eq_false dropped)).1
    change ExactDifference rib.bestRoute (bestIn _) _
    rw [pruned]
    refine ribChanges_exact rib ?_
    intro destination held
    exact mem_mapValues.mpr held
  · refine exactDifference_of List.nodup_nil (List.forall_mem_nil _) ?_
    intro destination
    simp

/-- The list an operation returns is the difference between the answers before and after it. -/
theorem changes_are_the_difference (rib : DvRib) (op : RibOp) :
    ExactDifference rib.bestRoute (rib.perform op).bestRoute (rib.changes op) := by
  cases op with
  | applyAdvertisement peer adv => exact applyAdvertisement_exact rib peer adv
  | removeNeighbor peer => exact removeNeighbor_exact rib peer

end NdnExt.Dv
