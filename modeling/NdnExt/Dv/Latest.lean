import NdnExt.Dv.Fib

/-! The RIB as a function of the latest advertisement of each live neighbour. -/

namespace NdnExt.Dv

open NdnExt.Lib List

/-- What the rest of the router sees of a RIB is the same. -/
structure SameReports (left right : DvRib) : Prop where
  bestRoute : ∀ destination, left.bestRoute destination = right.bestRoute destination
  advertisement : left.produceAdvertisement = right.produceAdvertisement
  fibUpdates : ∀ prefixTable network faceForNeighbor,
    computeFibUpdates prefixTable network faceForNeighbor left =
      computeFibUpdates prefixTable network faceForNeighbor right

/-- Both RIBs are of one router and have up-to-date caches and the same finite costs. -/
structure SameReach (left right : DvRib) : Prop where
  selfName : left.selfName = right.selfName
  cachedLeft : Cached left.entries
  cachedRight : Cached right.entries
  reach : ∀ destination hop, left.reach destination hop = right.reach destination hop

theorem advertised_sorted (rib : DvRib) :
    ((advertised rib).map RibEntry.destination).Pairwise (· < ·) := by
  have sorted : (rib.snapshot.map RibEntry.destination).Pairwise (· ≤ ·) :=
    pairwise_map.mpr (pairwise_insertionSort _ _)
  have strict : (rib.snapshot.map RibEntry.destination).Pairwise (· < ·) :=
    (sorted.and (snapshot_destinations rib)).imp (fun both => lt_of_le_of_ne both.1 both.2)
  exact strict.sublist (filter_sublist.map _)

variable {rib : DvRib} {router : Name} {last : Name → Option Advertisement}

/-- A destination is advertised exactly when some hop reaches it. -/
theorem mem_advertised_destinations (cached : Cached rib.entries)
    (destination : Name) :
    destination ∈ (advertised rib).map RibEntry.destination ↔
      ∃ hop cost, rib.reach destination hop = some cost := by
  rw [mem_map]
  constructor
  · intro listed
    rcases listed with ⟨entry, member, same⟩
    subst same
    rcases mem_advertised.mp member with ⟨found, finite⟩
    rcases (cached _ _ found).first_attained finite with ⟨hop, -, attained⟩
    refine ⟨hop, entry.lowest1, ?_⟩
    simp only [DvRib.reach, reachOf, found, Option.bind_some]
    exact attained
  · intro reached
    rcases reached with ⟨hop, cost, reached⟩
    rcases Option.bind_eq_some_iff.mp reached with ⟨entry, found, finite⟩
    have target := rib.keyed _ _ found
    refine ⟨entry, mem_advertised.mpr ⟨target.symm ▸ found, ?_⟩, target⟩
    exact lt_of_le_of_lt ((cached _ _ found).first_le hop cost finite) (finiteCost_lt finite)

theorem finiteCost_of_lookup {entry : RibEntry}
    (found : rib.entries.lookup entry.destination = some entry) (hop : Name) :
    entry.finiteCost hop = rib.reach entry.destination hop := by
  simp only [DvRib.reach, reachOf, found, Option.bind_some]

section reach

variable {left right : DvRib}

theorem SameReach.advertised_destinations (same : SameReach left right) :
    (advertised left).map RibEntry.destination = (advertised right).map RibEntry.destination := by
  apply List.Pairwise.eq_of_mem_iff (advertised_sorted left) (advertised_sorted right)
  intro destination
  rw [mem_advertised_destinations same.cachedLeft, mem_advertised_destinations same.cachedRight]
  simp only [same.reach]

/-- Entries of one destination have the same finite costs and the same summary. -/
theorem SameReach.entry (same : SameReach left right) {entry entry' : RibEntry}
    (member : entry ∈ advertised left) (member' : entry' ∈ advertised right)
    (target : entry.destination = entry'.destination) :
    (∀ hop, entry.finiteCost hop = entry'.finiteCost hop) ∧ entry.lowest1 = entry'.lowest1 ∧
      entry.lowest2 = entry'.lowest2 ∧ entry.nextHop1 = entry'.nextHop1 := by
  rcases mem_advertised.mp member with ⟨found, finite⟩
  rcases mem_advertised.mp member' with ⟨found', -⟩
  have costs : ∀ hop, entry.finiteCost hop = entry'.finiteCost hop := by
    intro hop
    rw [finiteCost_of_lookup found, finiteCost_of_lookup found', same.reach, target]
  have reports := same.cachedLeft _ _ found
  have reports' := same.cachedRight _ _ found'
  rw [show entry.finiteCost = entry'.finiteCost from funext costs] at reports
  rcases reports.unique reports' with ⟨lowest1, lowest2, nextHop1⟩
  exact ⟨costs, lowest1, lowest2, nextHop1 finite⟩

/-- Lists with the same keys in the same order are paired by their keys. -/
theorem forall₂_of_keys {α β γ : Type} {key : α → γ} {key' : β → γ} {R : α → β → Prop}
    {xs : List α} {ys : List β} (keys : xs.map key = ys.map key')
    (related : ∀ x ∈ xs, ∀ y ∈ ys, key x = key' y → R x y) : List.Forall₂ R xs ys := by
  induction xs generalizing ys with
  | nil =>
    rw [map_nil, eq_comm, map_eq_nil_iff] at keys
    subst keys
    exact List.Forall₂.nil
  | cons x xs ih =>
    cases ys with
    | nil => cases keys
    | cons y ys =>
      simp only [map_cons, List.cons.injEq] at keys
      apply List.Forall₂.cons
      · exact related x mem_cons_self y mem_cons_self keys.1
      · apply ih keys.2
        intro x' member y' member'
        exact related x' (mem_cons_of_mem _ member) y' (mem_cons_of_mem _ member')

/-- What the router uses of two entries of one destination. -/
structure SameEntry (entry entry' : RibEntry) : Prop where
  destination : entry.destination = entry'.destination
  reachable : entry.lowest1 < infinity
  reachable' : entry'.lowest1 < infinity
  costs : ∀ hop, entry.finiteCost hop = entry'.finiteCost hop
  row : DvRib.advRow entry = DvRib.advRow entry'
  best : bestRouteOf entry = bestRouteOf entry'

section

variable (same : SameReach left right)
include same

theorem SameReach.entries :
    List.Forall₂ SameEntry (advertised left) (advertised right) := by
  apply forall₂_of_keys same.advertised_destinations
  intro entry member entry' member' target
  rcases same.entry member member' target with ⟨costs, lowest1, lowest2, nextHop1⟩
  constructor
  · exact target
  · exact (mem_advertised.mp member).2
  · exact (mem_advertised.mp member').2
  · exact costs
  · simp only [DvRib.advRow, target, lowest1, lowest2, nextHop1]
  · simp only [bestRouteOf, lowest1, nextHop1]

theorem SameReach.produceAdvertisement :
    left.produceAdvertisement = right.produceAdvertisement := by
  have rows : ∀ {xs ys : List RibEntry}, List.Forall₂ SameEntry xs ys →
      xs.mapM DvRib.advRow = ys.mapM DvRib.advRow := by
    intro xs ys paired
    induction paired with
    | nil => rfl
    | cons first _ ih => simp only [mapM_cons, first.row, ih]
  have equal := rows same.entries
  unfold advertised at equal
  simp only [DvRib.produceAdvertisement, equal]

theorem SameReach.bestRoute (destination : Name) :
    left.bestRoute destination = right.bestRoute destination := by
  cases found : left.bestRoute destination with
  | none =>
    rw [bestRoute_eq_none (agreeing_of_cached same.cachedLeft)] at found
    rw [eq_comm, bestRoute_eq_none (agreeing_of_cached same.cachedRight)]
    simpa only [same.reach] using found
  | some best =>
    rcases Option.bind_eq_some_iff.mp found with ⟨entry, present, route⟩
    rcases bestRoute_least (agreeing_of_cached same.cachedLeft) found with ⟨reached, -⟩
    have target := left.keyed _ _ present
    subst target
    have finite := lt_of_le_of_lt ((same.cachedLeft _ _ present).first_le best.neighbor best.cost
      (by rw [finiteCost_of_lookup present, reached])) (reach_lt reached)
    rcases (mem_advertised_destinations same.cachedRight entry.destination).mpr
      ⟨best.neighbor, best.cost, by rw [← same.reach, reached]⟩ |> mem_map.mp with
      ⟨entry', member', target⟩
    rcases same.entry (mem_advertised.mpr ⟨present, finite⟩) member' target.symm with
      ⟨-, lowest1, -, nextHop1⟩
    rw [DvRib.bestRoute, ← target, (mem_advertised.mp member').1, Option.bind_some, ← route]
    simp only [bestRouteOf, lowest1, nextHop1]

theorem SameReach.computeFibUpdates (prefixTable : PrefixTable)
    (network : Name) (faceForNeighbor : Name → Option Nat) :
    Dv.computeFibUpdates prefixTable network faceForNeighbor left =
      Dv.computeFibUpdates prefixTable network faceForNeighbor right := by
  have rows : ∀ {xs ys : List RibEntry}, List.Forall₂ SameEntry xs ys →
      ∀ {out out' : HashMap Name (List NextHop)}, Shuffled out out' →
        Shuffled (xs.foldl (mergeEntry prefixTable network faceForNeighbor right.selfName) out)
          (ys.foldl (mergeEntry prefixTable network faceForNeighbor right.selfName) out') := by
    intro xs ys paired
    induction paired with
    | nil => exact fun shuffled => shuffled
    | cons first _ ih =>
      intro out out' shuffled
      exact ih (shuffled.mergeEntry _ _ _ _ first.destination first.reachable first.reachable'
        first.costs)
  apply sortedUpdates_congr
  rw [mergedRows_eq, mergedRows_eq, same.selfName]
  exact rows same.entries (fun key => by simp)

theorem SameReach.reports : SameReports left right :=
  ⟨same.bestRoute, same.produceAdvertisement, same.computeFibUpdates⟩

end

end reach

inductive RibOp where
  | applyAdvertisement (peer : Name) (adv : Advertisement)
  | removeNeighbor (peer : Name)
  deriving DecidableEq

def RibOp.peer : RibOp → Name
  | .applyAdvertisement peer _ => peer
  | .removeNeighbor peer => peer

/-- The advertisement an operation leaves as the latest one of its peer. -/
def RibOp.leaves : RibOp → Option Advertisement
  | .applyAdvertisement _ adv => some adv
  | .removeNeighbor _ => none

def DvRib.perform (rib : DvRib) : RibOp → DvRib
  | .applyAdvertisement peer adv => (rib.applyAdvertisement peer adv).1
  | .removeNeighbor peer => (rib.removeNeighbor peer).1

def DvRib.performAll (rib : DvRib) (ops : List RibOp) : DvRib := ops.foldl DvRib.perform rib

/-- The latest advertisement of `peer`, unless the peer was removed since. -/
def latest (ops : List RibOp) (peer : Name) : Option Advertisement :=
  ops.foldl (fun last op => if op.peer = peer then op.leaves else last) none

/-- A peer with a latest advertisement occurs in the history. -/
theorem latest_other {ops : List RibOp} {peer : Name} {adv : Advertisement}
    (others : ∀ op ∈ ops, op.peer ≠ router) (found : latest ops peer = some adv) :
    peer ≠ router := by
  intro same
  subst same
  have none : latest ops peer = none := by
    clear found
    unfold latest
    induction ops with
    | nil => rfl
    | cons op tail ih =>
      rw [foldl_cons, if_neg (others op mem_cons_self)]
      exact ih (fun other member => others other (mem_cons_of_mem _ member))
  rw [none] at found
  cases found

/-- What a RIB of `selfName` reaches when it holds one advertisement for each peer. -/
def held (selfName : Name) (last : Name → Option Advertisement) (destination hop : Name) :
    Option Nat :=
  if hop = selfName then (if destination = selfName then some 0 else none)
  else (last hop).bind (fun adv => recorded selfName adv destination)

/-- The RIB holds exactly the advertisements of `last`. -/
structure Holds (router : Name) (last : Name → Option Advertisement) (rib : DvRib) : Prop where
  selfName : rib.selfName = router
  cached : Cached rib.entries
  tracked : rib.Tracked
  reach : ∀ destination hop, rib.reach destination hop = held router last destination hop

theorem holds_new (router : Name) : Holds router (fun _ => none) (DvRib.new router) := by
  refine ⟨rfl, cached_new _, tracked_new _, ?_⟩
  intro destination hop
  apply Option.ext
  intro cost
  rw [reach_new, held]
  by_cases self : hop = router
  · by_cases own : destination = router <;> simp [self, own, eq_comm]
  · simp [self]

theorem Holds.perform
    (holds : Holds router last rib) (op : RibOp) (other : op.peer ≠ router) :
    Holds router (fun peer => if op.peer = peer then op.leaves else last peer)
      (rib.perform op) := by
  have step : ∀ destination hop, (rib.perform op).reach destination hop =
      if hop = op.peer then op.leaves.bind (fun adv => recorded router adv destination)
      else rib.reach destination hop := by
    intro destination hop
    cases op with
    | applyAdvertisement peer adv =>
      rw [← holds.selfName]
      exact reach_applyAdvertisement rib peer adv destination hop
    | removeNeighbor peer =>
      exact reach_removeNeighbor holds.tracked peer destination hop
  constructor
  · cases op with
    | applyAdvertisement peer adv => exact holds.selfName
    | removeNeighbor peer => exact (selfName_removeNeighbor rib peer).trans holds.selfName
  · cases op with
    | applyAdvertisement peer adv => exact cached_applyAdvertisement rib peer adv
    | removeNeighbor peer => exact cached_removeNeighbor holds.cached peer
  · cases op with
    | applyAdvertisement peer adv => exact tracked_applyAdvertisement holds.tracked peer adv
    | removeNeighbor peer => exact tracked_removeNeighbor holds.tracked peer
  · intro destination hop
    rw [step, holds.reach, held, held]
    by_cases same : hop = op.peer
    · subst same
      simp only [if_true, if_neg other]
    · simp only [if_neg same, if_neg (Ne.symm same)]

theorem Holds.performAll
    (holds : Holds router last rib) (ops : List RibOp)
    (others : ∀ op ∈ ops, op.peer ≠ router) :
    Holds router
      (fun peer => ops.foldl (fun last op => if op.peer = peer then op.leaves else last) (last peer))
      (rib.performAll ops) := by
  induction ops generalizing last rib with
  | nil => exact holds
  | cons op tail ih =>
    exact ih (holds.perform op (others op mem_cons_self))
      (fun other member => others other (mem_cons_of_mem _ member))

theorem holds_latest (router : Name) (ops : List RibOp)
    (others : ∀ op ∈ ops, op.peer ≠ router) :
    Holds router (latest ops) ((DvRib.new router).performAll ops) :=
  (holds_new router).performAll ops others

/-- RIBs that hold the same advertisements report the same. -/
theorem Holds.reports {last' : Name → Option Advertisement}
    {rib' : DvRib} (holds : Holds router last rib) (holds' : Holds router last' rib')
    (same : ∀ peer, last peer = last' peer) : SameReports rib rib' := by
  apply SameReach.reports
  constructor
  · exact holds.selfName.trans holds'.selfName.symm
  · exact holds.cached
  · exact holds'.cached
  · intro destination hop
    rw [holds.reach, holds'.reach, show last = last' from funext same]

theorem held_own {hop : Name} {cost : Nat} :
    held router last router hop = some cost ↔ hop = router ∧ cost = 0 := by
  unfold held
  by_cases self : hop = router
  · simp [self, eq_comm]
  · simp [self, recorded]

/-- The router always advertises itself at cost 0, without a fallback. -/
theorem Holds.own_row
    (holds : Holds router last rib) :
    ∃ entry ∈ advertised rib,
      DvRib.advRow entry = some ⟨router, router, 0, infinity⟩ ∧
      bestRouteOf entry = some ⟨router, 0⟩ ∧ rib.entries.lookup router = some entry := by
  have reached : rib.reach router router = some 0 := by
    rw [holds.reach]
    exact held_own.mpr ⟨rfl, rfl⟩
  rcases mem_map.mp ((mem_advertised_destinations holds.cached router).mpr
    ⟨router, 0, reached⟩) with ⟨entry, member, target⟩
  rcases mem_advertised.mp member with ⟨found, finite⟩
  have reports := holds.cached _ _ found
  have costs : ∀ hop value, entry.finiteCost hop = some value ↔ hop = router ∧ value = 0 := by
    intro hop value
    rw [finiteCost_of_lookup found, target, holds.reach, held_own]
  rcases reports.first_attained finite with ⟨hop, nextHop1, attained⟩
  rcases (costs hop _).mp attained with ⟨same, lowest1⟩
  subst same
  have lowest2 : entry.lowest2 = infinity := by
    by_contra below
    rcases reports.second_attained (lt_of_le_of_ne reports.second_cap below) with
      ⟨other, attained', differs⟩
    rw [((costs other _).mp attained').1] at differs
    exact differs nextHop1
  refine ⟨entry, member, ?_, ?_, target ▸ found⟩
  · simp only [DvRib.advRow, nextHop1, lowest1, lowest2, target, Option.map_some]
  · simp [bestRouteOf, nextHop1, lowest1, infinity]

/-- `order` lists every live peer once, with its latest advertisement. -/
structure Lists (order : List (Name × Advertisement)) (last : Name → Option Advertisement) :
    Prop where
  distinct : (order.map Prod.fst).Nodup
  exactly : ∀ peer adv, (peer, adv) ∈ order ↔ last peer = some adv

def applyOrder (order : List (Name × Advertisement)) : List RibOp :=
  order.map (fun item => RibOp.applyAdvertisement item.1 item.2)

theorem latest_applyOrder {order : List (Name × Advertisement)} (lists : Lists order last)
    (peer : Name) :
    latest (applyOrder order) peer = last peer := by
  have collects : ∀ (items : List (Name × Advertisement)) (m : HashMap Name Advertisement),
      (applyOrder items).foldl (fun last op => if op.peer = peer then op.leaves else last)
          (m.lookup peer) =
        (items.foldl (fun m item => m.insert item.1 item.2) m).lookup peer := by
    intro items
    induction items with
    | nil => exact fun _ => rfl
    | cons item tail ih =>
      intro m
      rw [foldl_cons, ← ih, HashMap.lookup_insert_eq]
      simp only [applyOrder, map_cons, foldl_cons, RibOp.peer, RibOp.leaves, eq_comm]
  apply Option.ext
  intro adv
  rw [latest, ← lists.exactly, ← HashMap.lookup_ofPairs lists.distinct, HashMap.ofPairs,
    ← collects order ∅, AList.lookup_empty]

/-- After any history a RIB reports what the latest advertisements alone, applied in any order
to a new RIB, would make it report. -/
theorem history_reports (router : Name) (history : List RibOp)
    (others : ∀ op ∈ history, op.peer ≠ router) :
    (∀ order, Lists order (latest history) →
      SameReports ((DvRib.new router).performAll history)
        ((DvRib.new router).performAll (applyOrder order))) ∧
    (∀ peer other adv adv', peer ≠ router → other ≠ router → peer ≠ other →
      SameReports
        ((DvRib.new router).performAll
          (history ++ [.applyAdvertisement peer adv, .applyAdvertisement other adv']))
        ((DvRib.new router).performAll
          (history ++ [.applyAdvertisement other adv', .applyAdvertisement peer adv]))) ∧
    (∀ peer adv, latest history peer = some adv →
      SameReports ((DvRib.new router).performAll history)
        ((DvRib.new router).performAll (history ++ [.applyAdvertisement peer adv]))) ∧
    ((DvRib.new router).performAll history).bestRoute router = some ⟨router, 0⟩ ∧
    ∃ adv, ((DvRib.new router).performAll history).produceAdvertisement = some adv ∧
      ⟨router, router, 0, infinity⟩ ∈ adv.entries := by
  have holds := holds_latest router history others
  refine ⟨?_, ?_, ?_, ?_⟩
  · intro order lists
    apply holds.reports (holds_latest router (applyOrder order) _)
    · intro peer
      exact (latest_applyOrder lists peer).symm
    · intro op member
      rcases List.mem_map.mp member with ⟨⟨peer, adv⟩, listed, same⟩
      subst same
      -- a listed peer was advertised by some operation of the history
      exact latest_other others ((lists.exactly peer adv).mp listed)
  · intro peer other adv adv' foreign foreign' differs
    unfold DvRib.performAll
    rw [List.foldl_append, List.foldl_append]
    apply Holds.reports (holds.performAll _ _) (holds.performAll _ _)
    · intro target
      simp only [List.foldl_cons, List.foldl_nil, RibOp.peer, RibOp.leaves]
      by_cases same : peer = target
      · subst same
        simp [Ne.symm differs]
      · simp [same]
        rfl
    · simp [RibOp.peer, foreign, foreign']
    · simp [RibOp.peer, foreign, foreign']
  · intro peer adv found
    unfold DvRib.performAll
    rw [List.foldl_append]
    apply Holds.reports holds (holds.performAll _ _)
    · intro target
      simp only [List.foldl_cons, List.foldl_nil, RibOp.peer, RibOp.leaves]
      by_cases same : peer = target
      · subst same
        simp [found]
      · simp [same]
    · simp [RibOp.peer, latest_other others found]
  · rcases holds.own_row with ⟨entry, member, row, best, found⟩
    constructor
    · rw [DvRib.bestRoute, found, Option.bind_some, best]
    · rcases produceAdvertisement_isSome (agreeing_of_cached holds.cached) with ⟨adv, produced⟩
      refine ⟨adv, produced, ?_⟩
      have rows := produceAdvertisement_rows produced
      have listed := List.mem_map_of_mem (f := DvRib.advRow) member
      rw [rows, row] at listed
      simpa using listed

/-- Router `a` hears of `d` from `b` and from `c`, twice, before `b` is removed. -/
def sampleHistory : List RibOp :=
  [.applyAdvertisement (Name.single 98) ⟨[⟨Name.single 100, Name.single 100, 1, 16⟩]⟩,
    .applyAdvertisement (Name.single 99) ⟨[⟨Name.single 101, Name.single 101, 1, 16⟩]⟩,
    .applyAdvertisement (Name.single 99) ⟨[⟨Name.single 100, Name.single 97, 1, 7⟩]⟩,
    .removeNeighbor (Name.single 98)]

theorem history_reports_sample :
    SameReports ((DvRib.new (Name.single 97)).performAll sampleHistory)
      ((DvRib.new (Name.single 97)).performAll
        [.applyAdvertisement (Name.single 99) ⟨[⟨Name.single 100, Name.single 97, 1, 7⟩]⟩]) ∧
    ((DvRib.new (Name.single 97)).performAll sampleHistory).bestRoute (Name.single 100) =
      some ⟨Name.single 99, 8⟩ := by
  have reports := history_reports (Name.single 97) sampleHistory (by decide)
  constructor
  · apply reports.1 [(Name.single 99, ⟨[⟨Name.single 100, Name.single 97, 1, 7⟩]⟩)]
    refine ⟨by decide, ?_⟩
    intro peer adv
    have differ : Name.single 98 ≠ Name.single 99 := by decide
    by_cases first : Name.single 98 = peer
    · subst first
      simp [latest, sampleHistory, RibOp.peer, RibOp.leaves, differ]
    · by_cases second : Name.single 99 = peer
      · subst second
        simp [latest, sampleHistory, RibOp.peer, RibOp.leaves, differ, eq_comm]
      · simp [latest, sampleHistory, RibOp.peer, RibOp.leaves, first, second, Ne.symm second]
  · decide

end NdnExt.Dv
