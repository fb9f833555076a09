import NdnExt.Dv.RibView

/-! The RIB operations as updates of the finite costs, and what a RIB reports
as a function of them. -/

namespace NdnExt.Dv

open NdnExt.Lib Option HashMap DvRib

theorem lookup_singleton {V : Type} (key other : Name) (value : V) :
    (AList.singleton key value : HashMap Name V).lookup other =
      if other = key then some value else none := by
  rw [← AList.insert_empty, lookup_insert_eq, AList.lookup_empty]

def reachOf (entries : HashMap Name RibEntry) (destination hop : Name) : Option Nat :=
  (entries.lookup destination).bind (fun entry => entry.finiteCost hop)

def DvRib.reach (rib : DvRib) (destination hop : Name) : Option Nat :=
  reachOf rib.entries destination hop

/-- What the entries of an advertisement, in order, leave as the cost to one destination. -/
def recordStep (selfName destination : Name) (cost : Option Nat) (adv : AdvEntry) : Option Nat :=
  if adv.destination = destination then (computeReceivedCost adv selfName).or cost else cost

/-- The costs `apply_advertisement` records for the advertising peer. -/
def recorded (selfName : Name) (adv : Advertisement) (destination : Name) : Option Nat :=
  if destination = selfName then none
  else adv.entries.foldl (recordStep selfName destination) none

variable {cost : Nat} {selfName destination : Name} {rib : DvRib}

theorem computeReceivedCost_lt {adv : AdvEntry}
    (received : computeReceivedCost adv selfName = some cost) : cost < infinity := by
  simp only [computeReceivedCost, bind_eq_some_iff] at received
  obtain ⟨raw, -, kept⟩ := received
  split at kept
  · cases kept
  · cases kept
    omega

theorem asU32_infinity {raw : Nat} (finite : raw < infinity) :
    saturatingAddU32 (asU32 raw) localCost = raw + 1 := by
  have small : raw < 16 := finite
  rw [asU32_of_lt (by omega), saturatingAddU32_of_le (by simp only [localCost, u32Max]; omega)]
  rfl

theorem computeReceivedCost_eq (adv : AdvEntry) (selfName : Name) :
    computeReceivedCost adv selfName =
      let raw := if adv.nextHop = selfName then adv.otherCost else adv.cost
      if raw + 1 < infinity then some (raw + 1) else none := by
  have step : ∀ raw : Nat,
      ((if raw ≥ infinity then none else some raw).bind (fun raw =>
        let cost := saturatingAddU32 (asU32 raw) localCost
        if cost ≥ infinity then none else some cost)) =
      if raw + 1 < infinity then some (raw + 1) else none := by
    intro raw
    by_cases above : raw ≥ infinity
    · rw [if_pos above, if_neg (by omega)]
      rfl
    · rw [if_neg above]
      simp only [bind_some, asU32_infinity (not_le.mp above)]
      by_cases next : raw + 1 < infinity
      · rw [if_neg (not_le.mpr next), if_pos next]
      · rw [if_pos (not_lt.mp next), if_neg next]
  unfold computeReceivedCost
  by_cases self : adv.nextHop = selfName
  · simp only [if_pos self]
    exact step _
  · simp only [if_neg self]
    exact step _

theorem finiteCost_insert (entry : RibEntry) (peer hop : Name) (cost : Nat) :
    ({ entry with costs := entry.costs.insert peer cost } : RibEntry).finiteCost hop =
      if hop = peer then (if cost < infinity then some cost else none)
      else entry.finiteCost hop := by
  simp only [RibEntry.finiteCost, lookup_insert_eq]
  split
  · simp [Option.filter]
  · rfl

theorem finiteCost_erase (entry : RibEntry) (peer hop : Name) :
    ({ entry with costs := entry.costs.erase peer } : RibEntry).finiteCost hop =
      if hop = peer then none else entry.finiteCost hop := by
  simp only [RibEntry.finiteCost, lookup_erase_eq]
  split <;> rfl

theorem finiteCost_refresh (entry : RibEntry) (hop : Name) :
    (refresh entry).finiteCost hop = entry.finiteCost hop := rfl

theorem finiteCost_emptyEntry (destination hop : Name) :
    (emptyEntry destination).finiteCost hop = none := by
  simp [RibEntry.finiteCost, emptyEntry]

theorem finiteCost_dirtyReset (peer : Name) (entry : RibEntry) (hop : Name) :
    (dirtyReset peer entry).finiteCost hop = if hop = peer then none else entry.finiteCost hop := by
  unfold dirtyReset
  split
  · rw [finiteCost_insert]
    simp
  · split
    · subst hop
      simp [RibEntry.finiteCost, AList.lookup_eq_none.mpr ‹_›]
    · rfl

theorem reachOf_mapValues (f : RibEntry → RibEntry) (entries : HashMap Name RibEntry)
    (destination hop : Name) :
    reachOf (entries.mapValues (fun _ entry => f entry)) destination hop =
      (entries.lookup destination).bind (fun entry => (f entry).finiteCost hop) := by
  simp only [reachOf, lookup_mapValues, bind_map]
  rfl

theorem reachOf_reset (rib : DvRib) (peer destination hop : Name) :
    reachOf (rib.resetEntries peer) destination hop =
      if hop = peer then none else rib.reach destination hop := by
  rw [resetEntries, reachOf_mapValues]
  simp only [finiteCost_dirtyReset, reach, reachOf]
  split
  · cases rib.entries.lookup destination <;> rfl
  · rfl

theorem reachOf_applyEntry (selfName peer : Name) (entries : HashMap Name RibEntry)
    (adv : AdvEntry) (destination hop : Name) :
    reachOf (applyEntry selfName peer entries adv) destination hop =
      if hop = peer ∧ destination ≠ selfName then
        recordStep selfName destination (reachOf entries destination hop) adv
      else reachOf entries destination hop := by
  unfold applyEntry recordStep
  by_cases own : adv.destination = selfName
  · rw [if_pos own]
    split
    · rw [if_neg]
      intro same
      exact ‹hop = peer ∧ destination ≠ selfName›.2 (same.symm.trans own)
    · rfl
  rw [if_neg own]
  cases received : computeReceivedCost adv selfName with
  | none => simp
  | some cost =>
    have finite := computeReceivedCost_lt received
    simp only [reachOf, lookup_insert_eq]
    by_cases target : destination = adv.destination
    · subst target
      simp only [if_true, bind_some, finiteCost_insert, if_pos finite]
      by_cases same : hop = peer
      · simp [same, own]
      · simp only [same, false_and, if_false]
        cases entries.lookup adv.destination with
        | none => exact finiteCost_emptyEntry _ _
        | some entry => rfl
    · have other : ¬ adv.destination = destination := fun same => target same.symm
      simp only [if_neg target, if_neg other, ite_self]

theorem reachOf_applyEntries (selfName peer : Name) (advs : List AdvEntry)
    (entries : HashMap Name RibEntry) (destination hop : Name) :
    reachOf (advs.foldl (applyEntry selfName peer) entries) destination hop =
      if hop = peer ∧ destination ≠ selfName then
        advs.foldl (recordStep selfName destination) (reachOf entries destination hop)
      else reachOf entries destination hop := by
  induction advs generalizing entries with
  | nil => simp
  | cons adv tail ih =>
    rw [List.foldl_cons, ih, reachOf_applyEntry]
    split <;> rfl

theorem reachOf_applied (rib : DvRib) (peer : Name) (adv : Advertisement)
    (destination hop : Name) :
    reachOf (rib.appliedEntries peer adv) destination hop =
      if hop = peer then recorded rib.selfName adv destination else rib.reach destination hop := by
  rw [appliedEntries, reachOf_mapValues]
  simp only [finiteCost_refresh]
  change reachOf _ destination hop = _
  rw [reachOf_applyEntries, reachOf_reset]
  by_cases same : hop = peer
  · by_cases own : destination = rib.selfName
    · simp [same, own, recorded]
    · simp [same, own, recorded]
  · simp [same]

/-- Every cached summary is what `refresh` would report. -/
def Cached (entries : HashMap Name RibEntry) : Prop :=
  ∀ destination entry, entries.lookup destination = some entry →
    Reports entry.finiteCost entry.toLowest

theorem cached_refresh (entries : HashMap Name RibEntry) (f : RibEntry → RibEntry) :
    Cached (entries.mapValues (fun _ entry => refresh (f entry))) := by
  intro destination entry found
  simp only [lookup_mapValues, map_eq_some_iff] at found
  obtain ⟨old, -, rfl⟩ := found
  exact refresh_reports _

theorem cached_retain {entries : HashMap Name RibEntry} (cached : Cached entries)
    (keep : Name → RibEntry → Bool) : Cached (entries.retain keep) := by
  intro destination entry found
  simp only [lookup_retain, filter_eq_some_iff] at found
  exact cached destination entry found.1

/-- Pruning drops only entries through which nothing is reachable. -/
theorem reachOf_retain {entries : HashMap Name RibEntry} (cached : Cached entries)
    (keep : Name → RibEntry → Bool)
    (keeps : ∀ name entry, entry.lowest1 < infinity → keep name entry = true)
    (destination hop : Name) :
    reachOf (entries.retain keep) destination hop = reachOf entries destination hop := by
  simp only [reachOf, lookup_retain]
  cases found : entries.lookup destination with
  | none => rfl
  | some entry =>
    by_cases kept : keep destination entry = true
    · simp [Option.filter, kept]
    · have empty := (cached destination entry found).unreachable
        (fun _ _ some => finiteCost_lt some)
      have above : ¬ entry.lowest1 < infinity := fun below => kept (keeps _ _ below)
      simp [Option.filter, kept, empty.mp above hop]

theorem cached_applyAdvertisement (rib : DvRib) (peer : Name) (adv : Advertisement) :
    Cached (rib.applyAdvertisement peer adv).1.entries :=
  cached_retain (cached_refresh _ id) _

theorem reach_applyAdvertisement (rib : DvRib) (peer : Name) (adv : Advertisement)
    (destination hop : Name) :
    (rib.applyAdvertisement peer adv).1.reach destination hop =
      if hop = peer then recorded rib.selfName adv destination else rib.reach destination hop := by
  rw [← reachOf_applied]
  apply reachOf_retain (cached_refresh _ id)
  intro name entry below
  exact decide_eq_true below

theorem reach_removedEntries (rib : DvRib) (neighbor destination hop : Name) :
    reachOf (rib.removedEntries neighbor) destination hop =
      if hop = neighbor then none else rib.reach destination hop := by
  rw [removedEntries,
    reachOf_mapValues (fun entry => refresh { entry with costs := entry.costs.erase neighbor })]
  simp only [finiteCost_refresh, finiteCost_erase, reach, reachOf]
  split
  · cases rib.entries.lookup destination <;> rfl
  · rfl

/-- Every hop a RIB can use was advertised by it and not removed since. -/
def DvRib.Tracked (rib : DvRib) : Prop :=
  ∀ destination hop cost, rib.reach destination hop = some cost → hop ∈ rib.neighbors

theorem reach_removeNeighbor (tracked : rib.Tracked)
    (neighbor destination hop : Name) :
    (rib.removeNeighbor neighbor).1.reach destination hop =
      if hop = neighbor then none else rib.reach destination hop := by
  unfold removeNeighbor
  by_cases known : neighbor ∈ rib.neighbors
  · rw [if_pos known, ← reach_removedEntries]
    apply reachOf_retain (cached_refresh _ (fun entry =>
      { entry with costs := entry.costs.erase neighbor }))
    intro name entry below
    exact decide_eq_true (Or.inl below)
  · rw [if_neg known]
    split
    · subst hop
      cases found : rib.reach destination neighbor with
      | none => rfl
      | some cost => exact absurd (tracked _ _ _ found) known
    · rfl

theorem tracked_applyAdvertisement (tracked : rib.Tracked) (peer : Name)
    (adv : Advertisement) : (rib.applyAdvertisement peer adv).1.Tracked := by
  intro destination hop cost found
  rw [reach_applyAdvertisement] at found
  change hop ∈ insert peer rib.neighbors
  by_cases same : hop = peer
  · exact Finset.mem_insert.mpr (Or.inl same)
  · rw [if_neg same] at found
    exact Finset.mem_insert_of_mem (tracked _ _ _ found)

theorem tracked_removeNeighbor (tracked : rib.Tracked) (neighbor : Name) :
    (rib.removeNeighbor neighbor).1.Tracked := by
  intro destination hop cost found
  rw [reach_removeNeighbor tracked] at found
  split at found
  · cases found
  · have member := tracked _ _ _ found
    unfold removeNeighbor
    split
    · exact Finset.mem_erase.mpr ⟨‹_›, member⟩
    · exact member

theorem cached_removeNeighbor (cached : Cached rib.entries) (neighbor : Name) :
    Cached (rib.removeNeighbor neighbor).1.entries := by
  unfold removeNeighbor
  split
  · exact cached_retain (cached_refresh _ (fun entry =>
      { entry with costs := entry.costs.erase neighbor })) _
  · exact cached

theorem selfName_removeNeighbor (rib : DvRib) (neighbor : Name) :
    (rib.removeNeighbor neighbor).1.selfName = rib.selfName := by
  unfold removeNeighbor
  split <;> rfl

@[simp] theorem selfName_applyAdvertisement (rib : DvRib) (peer : Name) (adv : Advertisement) :
    (rib.applyAdvertisement peer adv).1.selfName = rib.selfName := rfl

/-- Every cached summary agrees with the costs it summarises. -/
def DvRib.Agreeing (rib : DvRib) : Prop :=
  ∀ destination entry, rib.entries.lookup destination = some entry →
    Agrees entry.finiteCost entry.toLowest

theorem agreeing_of_cached (cached : Cached rib.entries) : rib.Agreeing :=
  fun destination entry found => (cached destination entry found).toAgrees

theorem reach_lt {hop : Name}
    (found : rib.reach destination hop = some cost) : cost < infinity := by
  obtain ⟨entry, -, finite⟩ := bind_eq_some_iff.mp found
  exact finiteCost_lt finite

theorem costs_ownEntry {hop : Name} :
    (ownEntry selfName).costs.lookup hop = some cost ↔ hop = selfName ∧ cost = 0 := by
  simp only [ownEntry, lookup_singleton]
  by_cases same : hop = selfName <;> simp [same, eq_comm]

theorem lookup_new {entry : RibEntry} :
    (new selfName).entries.lookup destination = some entry ↔
      destination = selfName ∧ entry = ownEntry selfName := by
  simp only [new, lookup_singleton]
  by_cases same : destination = selfName <;> simp [same, eq_comm]

theorem refresh_ownEntry (selfName : Name) : refresh (ownEntry selfName) = ownEntry selfName :=
  rfl

theorem cached_new (selfName : Name) : Cached (new selfName).entries := by
  intro destination entry found
  rcases lookup_new.mp found with ⟨-, rfl⟩
  rw [← refresh_ownEntry]
  exact refresh_reports _

theorem reach_new {hop : Name} :
    (new selfName).reach destination hop = some cost ↔
      destination = selfName ∧ hop = selfName ∧ cost = 0 := by
  simp only [reach, reachOf, bind_eq_some_iff, RibEntry.finiteCost,
    filter_eq_some_iff, decide_eq_true_eq]
  constructor
  · intro found
    rcases found with ⟨entry, present, recorded, -⟩
    rcases lookup_new.mp present with ⟨target, same⟩
    subst same
    exact ⟨target, costs_ownEntry.mp recorded⟩
  · intro same
    rcases same with ⟨target, self, rfl⟩
    exact ⟨ownEntry selfName, lookup_new.mpr ⟨target, rfl⟩, costs_ownEntry.mpr ⟨self, rfl⟩,
      by decide⟩

theorem tracked_new (selfName : Name) : (new selfName).Tracked := by
  intro destination hop cost found
  rw [(reach_new.mp found).2.1]
  exact Finset.mem_singleton_self _

theorem bestRouteOf_eq_none {entry : RibEntry} (agrees : Agrees entry.finiteCost entry.toLowest) :
    bestRouteOf entry = none ↔ ∀ hop, entry.finiteCost hop = none := by
  rw [← agrees.unreachable (fun _ _ found => finiteCost_lt found), bestRouteOf]
  by_cases below : entry.lowest1 < infinity
  · obtain ⟨hop, same, -⟩ := agrees.first_attained below
    simp [below, same]
  · simp [below, not_lt.mp below]

theorem bestRouteOf_least {entry : RibEntry} (agrees : Agrees entry.finiteCost entry.toLowest)
    {best : BestRoute} (found : bestRouteOf entry = some best) :
    entry.finiteCost best.neighbor = some best.cost ∧
      ∀ hop cost, entry.finiteCost hop = some cost → best.cost ≤ cost := by
  unfold bestRouteOf at found
  split at found
  · cases found
  · obtain ⟨hop, same, attained⟩ := agrees.first_attained (not_le.mp ‹_›)
    rw [same] at found
    cases found
    exact ⟨attained, agrees.first_le⟩

theorem bestRoute_eq_none (agreeing : rib.Agreeing) (destination : Name) :
    rib.bestRoute destination = none ↔ ∀ hop, rib.reach destination hop = none := by
  unfold bestRoute reach reachOf
  cases found : rib.entries.lookup destination with
  | none => simp
  | some entry => exact bestRouteOf_eq_none (agreeing destination entry found)

theorem bestRoute_least (agreeing : rib.Agreeing)
    {best : BestRoute} (route : rib.bestRoute destination = some best) :
    rib.reach destination best.neighbor = some best.cost ∧
      ∀ hop cost, rib.reach destination hop = some cost → best.cost ≤ cost := by
  obtain ⟨entry, found, least⟩ := bind_eq_some_iff.mp route
  simp only [reach, reachOf, found, bind_some]
  exact bestRouteOf_least (agreeing destination entry found) least

theorem mapM_eq_some {α β : Type} {f : α → Option β} {items : List α} {out : List β}
    (mapped : items.mapM f = some out) : items.map f = out.map some := by
  induction items generalizing out with
  | nil =>
    cases mapped
    rfl
  | cons item tail ih =>
    simp only [List.mapM_cons, bind_eq_bind, bind_eq_some_iff] at mapped
    obtain ⟨head, first, rest, tailMapped, same⟩ := mapped
    cases same
    simp only [List.map_cons, first, ih tailMapped]

theorem mapM_isSome {α β : Type} {f : α → Option β} {items : List α}
    (total : ∀ item ∈ items, (f item).isSome) : ∃ out, items.mapM f = some out := by
  induction items with
  | nil => exact ⟨[], rfl⟩
  | cons item tail ih =>
    obtain ⟨head, first⟩ := isSome_iff_exists.mp (total item List.mem_cons_self)
    obtain ⟨rest, mapped⟩ := ih (fun other member => total other (List.mem_cons_of_mem _ member))
    exact ⟨head :: rest, by simp [List.mapM_cons, first, mapped]⟩

theorem snapshot_perm (rib : DvRib) : rib.snapshot.Perm (rib.entries.pairs.map Prod.snd) :=
  List.perm_insertionSort _ _

theorem mem_snapshot {entry : RibEntry} :
    entry ∈ rib.snapshot ↔ rib.entries.lookup entry.destination = some entry := by
  rw [(snapshot_perm rib).mem_iff, List.mem_map]
  constructor
  · intro listed
    obtain ⟨⟨key, value⟩, member, rfl⟩ := listed
    have found := mem_pairs.mp member
    rw [rib.keyed key value found]
    exact found
  · intro found
    exact ⟨_, mem_pairs.mpr found, rfl⟩

theorem snapshot_destinations (rib : DvRib) :
    (rib.snapshot.map RibEntry.destination).Nodup := by
  rw [((snapshot_perm rib).map _).nodup_iff, List.map_map]
  have keys : rib.entries.pairs.map (RibEntry.destination ∘ Prod.snd) =
      rib.entries.pairs.map Prod.fst := by
    apply List.map_congr_left
    intro item member
    exact rib.keyed item.1 item.2 (mem_pairs.mp member)
  rw [keys]
  exact rib.entries.pairs_keys_nodup

def advertised (rib : DvRib) : List RibEntry :=
  rib.snapshot.filter (fun entry => entry.lowest1 < infinity)

theorem mem_advertised {entry : RibEntry} :
    entry ∈ advertised rib ↔
      rib.entries.lookup entry.destination = some entry ∧ entry.lowest1 < infinity := by
  rw [advertised, List.mem_filter, mem_snapshot, decide_eq_true_eq]

/-- A RIB whose caches agree never reaches the `expect`. -/
theorem produceAdvertisement_isSome (agreeing : rib.Agreeing) :
    ∃ adv, rib.produceAdvertisement = some adv := by
  have rows : ∃ out, (advertised rib).mapM advRow = some out := by
    apply mapM_isSome
    intro entry member
    simp only [advertised, List.mem_filter, decide_eq_true_eq] at member
    obtain ⟨hop, same, -⟩ :=
      (agreeing _ entry (mem_snapshot.mp member.1)).first_attained member.2
    simp [advRow, same]
  obtain ⟨out, mapped⟩ := rows
  exact ⟨{ entries := out }, by simp only [produceAdvertisement]; rw [advertised] at mapped; simp [mapped]⟩

theorem produceAdvertisement_rows {adv : Advertisement}
    (produced : rib.produceAdvertisement = some adv) :
    (advertised rib).map advRow = adv.entries.map some := by
  simp only [produceAdvertisement, bind_eq_bind, bind_eq_some_iff] at produced
  obtain ⟨rows, mapped, same⟩ := produced
  cases same
  exact mapM_eq_some mapped

end NdnExt.Dv
