import NdnExt.Dv.RibOps
import NdnExt.Lib.DistanceVector

/-! Synchronous advertisement rounds over a graph of routers, from any state in
which the own rows are intact. -/

namespace NdnExt.Dv

open NdnExt.Lib NdnExt.Lib.DistanceVector List DvRib

/-! ### One advertisement, seen by its receiver -/

theorem foldl_recordStep_absent (selfName destination : Name) (advs : List AdvEntry)
    (cost : Option Nat) (absent : ∀ adv ∈ advs, adv.destination ≠ destination) :
    advs.foldl (recordStep selfName destination) cost = cost := by
  induction advs with
  | nil => rfl
  | cons adv tail ih =>
    rw [foldl_cons, recordStep, if_neg (absent adv mem_cons_self)]
    exact ih (fun other member => absent other (mem_cons_of_mem _ member))

theorem foldl_recordStep_member (selfName : Name) (advs : List AdvEntry)
    (distinct : (advs.map AdvEntry.destination).Nodup) (adv : AdvEntry) (member : adv ∈ advs) :
    advs.foldl (recordStep selfName adv.destination) none = computeReceivedCost adv selfName := by
  induction advs with
  | nil => cases member
  | cons head tail ih =>
    simp only [map_cons, nodup_cons] at distinct
    rcases mem_cons.mp member with same | member
    · subst same
      rw [foldl_cons, recordStep, if_pos rfl, Option.or_none]
      apply foldl_recordStep_absent
      intro other present equal
      exact distinct.1 (mem_map.mpr ⟨other, present, equal⟩)
    · have differs : head.destination ≠ adv.destination := by
        intro equal
        exact distinct.1 (mem_map.mpr ⟨adv, member, equal.symm⟩)
      rw [foldl_cons, recordStep, if_neg differs]
      exact ih distinct.2 member

variable {adv : Advertisement} {rib : DvRib} {cost : Nat} {destination : Name}

theorem rows_destinations
    (produced : rib.produceAdvertisement = some adv) :
    (adv.entries.map AdvEntry.destination).Nodup := by
  have rows := produceAdvertisement_rows produced
  have same : adv.entries.map AdvEntry.destination =
      (advertised rib).map RibEntry.destination := by
    apply map_injective_iff.mpr (Option.some_injective Name)
    calc
      (adv.entries.map AdvEntry.destination).map some =
          (adv.entries.map some).map (Option.map AdvEntry.destination) := by
        simp
      _ = ((advertised rib).map advRow).map (Option.map AdvEntry.destination) := by rw [rows]
      _ = ((advertised rib).map RibEntry.destination).map some := by
        simp only [map_map]
        apply map_congr_left
        intro entry member
        have produced : advRow entry ∈ adv.entries.map some := by
          rw [← rows]
          exact mem_map_of_mem member
        obtain ⟨row, -, equal⟩ := mem_map.mp produced
        simp only [Function.comp_apply, ← equal, Option.map_some]
        simp only [advRow, Option.some_eq_map_iff] at equal
        obtain ⟨hop, -, rfl⟩ := equal
        rfl
  rw [same]
  exact (snapshot_destinations rib).sublist (filter_sublist.map _)

theorem mem_rows
    (produced : rib.produceAdvertisement = some adv) {row : AdvEntry} :
    row ∈ adv.entries ↔ ∃ entry, rib.entries.lookup row.destination = some entry ∧
      entry.lowest1 < infinity ∧ advRow entry = some row := by
  have rows := produceAdvertisement_rows produced
  have listed : row ∈ adv.entries ↔ some row ∈ (advertised rib).map advRow := by
    rw [rows]
    simp
  rw [listed, mem_map]
  constructor
  · intro found
    obtain ⟨entry, member, equal⟩ := found
    simp only [advertised, mem_filter, decide_eq_true_eq] at member
    have destination : row.destination = entry.destination := by
      simp only [advRow, Option.map_eq_some_iff] at equal
      obtain ⟨hop, -, rfl⟩ := equal
      rfl
    rw [destination]
    exact ⟨entry, mem_snapshot.mp member.1, member.2, equal⟩
  · intro found
    obtain ⟨entry, present, below, equal⟩ := found
    refine ⟨entry, ?_, equal⟩
    simp only [advertised, mem_filter, decide_eq_true_eq]
    refine ⟨mem_snapshot.mpr ?_, below⟩
    rw [rib.keyed _ entry present]
    exact present

theorem recorded_row
    (produced : rib.produceAdvertisement = some adv) (receiver : Name) {row : AdvEntry}
    (member : row ∈ adv.entries) (elsewhere : row.destination ≠ receiver) :
    recorded receiver adv row.destination = computeReceivedCost row receiver := by
  rw [recorded, if_neg elsewhere]
  exact foldl_recordStep_member receiver _ (rows_destinations produced) row member

theorem recorded_listed {selfName : Name}
    (found : recorded selfName adv destination = some cost) :
    destination ≠ selfName ∧ ∃ row ∈ adv.entries, row.destination = destination := by
  unfold recorded at found
  split at found
  · cases found
  · refine ⟨‹_›, ?_⟩
    by_contra absent
    rw [foldl_recordStep_absent] at found
    · cases found
    · intro row member same
      exact absent ⟨row, member, same⟩

/-- The value read from a row is the least cost that does not come back to the receiver. -/
theorem received_least {entry : RibEntry} {row : AdvEntry}
    (agrees : Agrees entry.finiteCost entry.toLowest) (below : entry.lowest1 < infinity)
    (equal : advRow entry = some row) (receiver : Name) :
    (∀ cost, computeReceivedCost row receiver = some cost →
      ∃ hop previous, hop ≠ receiver ∧ entry.finiteCost hop = some previous ∧
        cost = previous + 1) ∧
    (∀ hop previous, hop ≠ receiver → entry.finiteCost hop = some previous →
      previous + 1 < infinity → ∃ cost, cost ≤ previous + 1 ∧
        computeReceivedCost row receiver = some cost) := by
  obtain ⟨best, nextHop, attained⟩ := agrees.first_attained below
  rw [advRow, nextHop] at equal
  cases equal
  rw [computeReceivedCost_eq]
  by_cases back : best = receiver
  · -- the best path returns to the receiver, so the second-best is read
    simp only [back, if_true]
    constructor
    · intro cost received
      split at received
      · cases received
        obtain ⟨hop, found, differs⟩ := agrees.second_attained (by omega)
        refine ⟨hop, _, ?_, found, rfl⟩
        intro same
        exact differs (by rw [nextHop, back, same])
      · cases received
    · intro hop previous away found small
      have least := agrees.second_le hop previous found (by
        rw [nextHop, back]
        intro same
        exact away (Option.some.inj same).symm)
      refine ⟨entry.lowest2 + 1, by omega, ?_⟩
      rw [if_pos (by omega)]
  · simp only [back, if_false]
    constructor
    · intro cost received
      split at received
      · cases received
        exact ⟨best, _, back, attained, rfl⟩
      · cases received
    · intro hop previous away found small
      have least := agrees.first_le hop previous found
      refine ⟨entry.lowest1 + 1, by omega, ?_⟩
      rw [if_pos (by omega)]

theorem recorded_sound (agreeing : rib.Agreeing)
    (produced : rib.produceAdvertisement = some adv) {receiver : Name}
    (found : recorded receiver adv destination = some cost) :
    destination ≠ receiver ∧ ∃ hop previous, hop ≠ receiver ∧
      rib.reach destination hop = some previous ∧ cost = previous + 1 := by
  obtain ⟨elsewhere, row, member, same⟩ := recorded_listed found
  subst same
  rw [recorded_row produced receiver member elsewhere] at found
  obtain ⟨entry, present, below, equal⟩ := (mem_rows produced).mp member
  obtain ⟨hop, previous, away, reached, value⟩ :=
    (received_least (agreeing _ entry present) below equal receiver).1 cost found
  refine ⟨elsewhere, hop, previous, away, ?_, value⟩
  simp only [reach, reachOf, present, Option.bind_some, reached]

theorem recorded_complete (agreeing : rib.Agreeing)
    (produced : rib.produceAdvertisement = some adv) {receiver hop : Name}
    {previous : Nat} (elsewhere : destination ≠ receiver) (away : hop ≠ receiver)
    (reached : rib.reach destination hop = some previous) (small : previous + 1 < infinity) :
    ∃ cost, cost ≤ previous + 1 ∧ recorded receiver adv destination = some cost := by
  obtain ⟨entry, present, finite⟩ := Option.bind_eq_some_iff.mp reached
  have agrees := agreeing _ entry present
  have below : entry.lowest1 < infinity :=
    lt_of_le_of_lt (agrees.first_le hop previous finite) (finiteCost_lt finite)
  obtain ⟨best, nextHop, -⟩ := agrees.first_attained below
  have keyed := rib.keyed _ entry present
  let row : AdvEntry :=
    { destination := entry.destination, nextHop := best,
      cost := entry.lowest1, otherCost := entry.lowest2 }
  have equal : advRow entry = some row := by simp only [advRow, nextHop, Option.map_some, row]
  have named : row.destination = destination := keyed
  have member : row ∈ adv.entries := by
    rw [mem_rows produced, named]
    exact ⟨entry, present, below, equal⟩
  obtain ⟨cost, bound, received⟩ :=
    (received_least agrees below equal receiver).2 hop previous away finite small
  refine ⟨cost, bound, ?_⟩
  rw [← named, recorded_row produced receiver member (by rw [named]; exact elsewhere)]
  exact received

/-! ### Rounds -/

section rounds

variable {V : Type} (G : SimpleGraph V) (name : V ↪ Name)

/-- The own row costs 0 via the router itself, every other recorded hop is a current neighbour,
and the caches agree with the costs. Anything else may be stale. -/
structure Intact (node : V) (rib : DvRib) : Prop where
  selfName : rib.selfName = name node
  ownRow : ∃ entry, rib.entries.lookup (name node) = some entry ∧
    entry.costs.lookup (name node) = some 0
  current : ∀ destination entry hop cost, rib.entries.lookup destination = some entry →
    entry.costs.lookup hop = some cost →
    (destination = name node ∧ hop = name node) ∨
      (cost ≤ infinity ∧ ∃ neighbour, G.Adj node neighbour ∧ hop = name neighbour)
  agreeing : rib.Agreeing

def applyAll (advs : V → Advertisement) (order : List V) (rib : DvRib) : DvRib :=
  order.foldl (fun rib neighbour => (rib.applyAdvertisement (name neighbour) (advs neighbour)).1) rib

/-- Every router applies, once per neighbour and in some order, what that neighbour produced at
the start of the round. -/
def Round (before after : V → DvRib) : Prop :=
  ∀ node, ∃ (order : List V) (advs : V → Advertisement),
    order.Nodup ∧ (∀ neighbour, neighbour ∈ order ↔ G.Adj node neighbour) ∧
      (∀ neighbour ∈ order, (before neighbour).produceAdvertisement = some (advs neighbour)) ∧
      after node = applyAll name advs order (before node)

/-- What a round keeps of `Intact`, in terms of finite costs only. -/
structure Sound (node : V) (rib : DvRib) : Prop where
  selfName : rib.selfName = name node
  ownRow : ∀ destination cost,
    rib.reach destination (name node) = some cost ↔ destination = name node ∧ cost = 0
  hops : ∀ destination hop cost, rib.reach destination hop = some cost →
    hop = name node ∨ ∃ neighbour, G.Adj node neighbour ∧ hop = name neighbour
  agreeing : rib.Agreeing

variable {G name}

theorem Intact.sound {node : V} (intact : Intact G name node rib) :
    Sound G name node rib := by
  rcases intact.ownRow with ⟨own, present, free⟩
  constructor
  · exact intact.selfName
  · intro destination cost
    constructor
    · intro found
      rcases Option.bind_eq_some_iff.mp found with ⟨entry, listed, finite⟩
      have recorded := (Option.filter_eq_some_iff.mp finite).1
      rcases intact.current destination entry _ cost listed recorded with ⟨same, -⟩ | stale
      · subst same
        rw [present] at listed
        cases listed
        rw [free] at recorded
        cases recorded
        exact ⟨rfl, rfl⟩
      · rcases stale with ⟨-, neighbour, adjacent, same⟩
        rw [name.injective same] at adjacent
        exact absurd adjacent (G.loopless.irrefl _)
    · intro same
      rcases same with ⟨rfl, rfl⟩
      simp [reach, reachOf, present, RibEntry.finiteCost, free, Option.filter, infinity]
  · intro destination hop cost found
    rcases Option.bind_eq_some_iff.mp found with ⟨entry, listed, finite⟩
    have recorded := (Option.filter_eq_some_iff.mp finite).1
    rcases intact.current destination entry hop cost listed recorded with ⟨-, same⟩ | stale
    · exact Or.inl same
    · exact Or.inr stale.2
  · exact intact.agreeing

theorem intact_new (node : V) : Intact G name node (new (name node)) := by
  constructor
  · rfl
  · exact ⟨ownEntry (name node), lookup_new.mpr ⟨rfl, rfl⟩, costs_ownEntry.mpr ⟨rfl, rfl⟩⟩
  · intro destination entry hop cost found recorded
    rcases lookup_new.mp found with ⟨same, rfl⟩
    exact Or.inl ⟨same, (costs_ownEntry.mp recorded).1⟩
  · exact agreeing_of_cached (cached_new _)

/-- A recorded cost of the new state was recorded before, or is the peer's. -/
theorem costs_applyEntries {selfName peer : Name} (advs : List AdvEntry)
    {entries : HashMap Name RibEntry} {hop : Name} {entry : RibEntry}
    (listed : (advs.foldl (applyEntry selfName peer) entries).lookup destination = some entry)
    (recorded : entry.costs.lookup hop = some cost) :
    (hop = peer ∧ cost ≤ infinity) ∨
      ∃ old, entries.lookup destination = some old ∧ old.costs.lookup hop = some cost := by
  induction advs generalizing entries with
  | nil => exact Or.inr ⟨entry, listed, recorded⟩
  | cons adv tail ih =>
    rcases ih listed with same | ⟨middle, found, kept⟩
    · exact Or.inl same
    · unfold applyEntry at found
      split at found
      · exact Or.inr ⟨middle, found, kept⟩
      · cases received : computeReceivedCost adv selfName with
        | none =>
          rw [received] at found
          exact Or.inr ⟨middle, found, kept⟩
        | some value =>
          rw [received] at found
          rw [HashMap.lookup_insert_eq] at found
          split at found
          · cases found
            rw [HashMap.lookup_insert_eq] at kept
            split at kept
            · cases kept
              exact Or.inl ⟨‹_›, (computeReceivedCost_lt received).le⟩
            · cases present : entries.lookup adv.destination with
              | none =>
                rw [present] at kept
                simp [emptyEntry] at kept
              | some old =>
                rw [present] at kept
                have same : destination = adv.destination := ‹_›
                exact Or.inr ⟨old, by rw [same, present], kept⟩
          · exact Or.inr ⟨middle, found, kept⟩

theorem costs_dirtyReset {peer hop : Name} {entry : RibEntry}
    (recorded : (dirtyReset peer entry).costs.lookup hop = some cost) :
    (hop = peer ∧ cost ≤ infinity) ∨ entry.costs.lookup hop = some cost := by
  unfold dirtyReset at recorded
  split at recorded
  · simp only [HashMap.lookup_insert_eq] at recorded
    split at recorded
    · cases recorded
      exact Or.inl ⟨‹_›, le_rfl⟩
    · exact Or.inr recorded
  · exact Or.inr recorded

/-- Whatever a neighbour advertises, applying it leaves an intact state intact. -/
theorem Intact.applyAdvertisement {node neighbour : V}
    (intact : Intact G name node rib) (adjacent : G.Adj node neighbour) (adv : Advertisement) :
    Intact G name node (rib.applyAdvertisement (name neighbour) adv).1 := by
  have sound := intact.sound
  have own : (rib.applyAdvertisement (name neighbour) adv).1.reach (name node) (name node) =
      some 0 := by
    rw [reach_applyAdvertisement, if_neg]
    · exact (sound.ownRow _ _).mpr ⟨rfl, rfl⟩
    · intro same
      exact adjacent.ne (name.injective same)
  constructor
  · exact intact.selfName
  · rcases Option.bind_eq_some_iff.mp own with ⟨entry, listed, finite⟩
    exact ⟨entry, listed, (Option.filter_eq_some_iff.mp finite).1⟩
  · intro destination entry hop cost listed recorded
    simp only [DvRib.applyAdvertisement, DvRib.appliedEntries, HashMap.lookup_retain,
      Option.filter_eq_some_iff, HashMap.lookup_mapValues, Option.map_eq_some_iff] at listed
    rcases listed with ⟨⟨unrefreshed, listed, rfl⟩, -⟩
    have byPeer : hop = name neighbour ∧ cost ≤ infinity →
        (destination = name node ∧ hop = name node) ∨
          (cost ≤ infinity ∧ ∃ neighbour, G.Adj node neighbour ∧ hop = name neighbour) :=
      fun peer => Or.inr ⟨peer.2, neighbour, adjacent, peer.1⟩
    rcases costs_applyEntries adv.entries listed recorded with peer | ⟨old, found, kept⟩
    · exact byPeer peer
    · simp only [DvRib.resetEntries, HashMap.lookup_mapValues, Option.map_eq_some_iff] at found
      rcases found with ⟨first, found, rfl⟩
      rcases costs_dirtyReset kept with peer | before
      · exact byPeer peer
      · exact intact.current destination first hop cost found before
  · exact agreeing_of_cached (cached_applyAdvertisement rib _ _)

theorem selfName_applyAll (advs : V → Advertisement) (order : List V) (rib : DvRib) :
    (applyAll name advs order rib).selfName = rib.selfName := by
  induction order generalizing rib with
  | nil => rfl
  | cons neighbour tail ih =>
    simp only [applyAll, foldl_cons] at ih ⊢
    rw [ih]
    rfl

theorem reach_applyAll_other (advs : V → Advertisement) (order : List V) (rib : DvRib)
    (destination hop : Name) (other : ∀ neighbour ∈ order, hop ≠ name neighbour) :
    (applyAll name advs order rib).reach destination hop = rib.reach destination hop := by
  induction order generalizing rib with
  | nil => rfl
  | cons neighbour tail ih =>
    simp only [applyAll, foldl_cons] at ih ⊢
    rw [ih _ (fun later member => other later (mem_cons_of_mem _ member)),
      reach_applyAdvertisement, if_neg (other neighbour mem_cons_self)]

theorem reach_applyAll_member (advs : V → Advertisement) (order : List V) (distinct : order.Nodup)
    (rib : DvRib) (destination : Name) (neighbour : V) (member : neighbour ∈ order) :
    (applyAll name advs order rib).reach destination (name neighbour) =
      recorded rib.selfName (advs neighbour) destination := by
  induction order generalizing rib with
  | nil => cases member
  | cons head tail ih =>
    rw [nodup_cons] at distinct
    have unfolded : applyAll name advs (head :: tail) rib =
        applyAll name advs tail (rib.applyAdvertisement (name head) (advs head)).1 := rfl
    rw [unfolded]
    rcases mem_cons.mp member with same | later
    · subst same
      rw [reach_applyAll_other, reach_applyAdvertisement, if_pos rfl]
      intro other present same
      exact distinct.1 (name.injective same ▸ present)
    · rw [ih distinct.2 _ later, selfName_applyAdvertisement]

theorem agreeing_applyAll (advs : V → Advertisement) (order : List V)
    (agreeing : rib.Agreeing) : (applyAll name advs order rib).Agreeing := by
  induction order generalizing rib with
  | nil => exact agreeing
  | cons neighbour tail ih => exact ih (agreeing_of_cached (cached_applyAdvertisement rib _ _))

section

variable {before after : V → DvRib} (round : Round G name before after)
include round

/-- One round, for one pair of neighbours. -/
theorem Round.reach
    (sound : ∀ node, Sound G name node (before node)) {node neighbour : V}
    (adjacent : G.Adj node neighbour) : ∃ adv,
      (before neighbour).produceAdvertisement = some adv ∧
        ∀ destination, (after node).reach destination (name neighbour) =
          recorded (name node) adv destination := by
  rcases round node with ⟨order, advs, distinct, complete, produced, equal⟩
  have member := (complete neighbour).mpr adjacent
  refine ⟨advs neighbour, produced neighbour member, ?_⟩
  intro destination
  rw [equal, reach_applyAll_member advs order distinct _ _ _ member, (sound node).selfName]

theorem Round.reach_other
    (node : V) (destination hop : Name)
    (other : ∀ neighbour, G.Adj node neighbour → hop ≠ name neighbour) :
    (after node).reach destination hop = (before node).reach destination hop := by
  rcases round node with ⟨order, advs, -, complete, -, equal⟩
  rw [equal]
  apply reach_applyAll_other
  intro neighbour member
  exact other neighbour ((complete neighbour).mp member)

theorem Round.sound
    (sound : ∀ node, Sound G name node (before node)) (node : V) :
    Sound G name node (after node) := by
  have notSelf : ∀ neighbour, G.Adj node neighbour → name node ≠ name neighbour := by
    intro neighbour adjacent same
    exact adjacent.ne (name.injective same)
  constructor
  · rcases round node with ⟨order, advs, -, -, -, equal⟩
    rw [equal, selfName_applyAll]
    exact (sound node).selfName
  · intro destination cost
    rw [round.reach_other node destination _ notSelf]
    exact (sound node).ownRow destination cost
  · intro destination hop cost found
    by_cases listed : ∃ neighbour, G.Adj node neighbour ∧ hop = name neighbour
    · exact Or.inr listed
    · rw [round.reach_other node destination hop (by
        intro neighbour adjacent same
        exact listed ⟨neighbour, adjacent, same⟩)] at found
      exact (sound node).hops destination hop cost found
  · rcases round node with ⟨order, advs, -, -, -, equal⟩
    rw [equal]
    exact agreeing_applyAll advs order (sound node).agreeing

end

theorem sound_after {states : ℕ → V → DvRib} (intact : ∀ node, Intact G name node (states 0 node))
    (last : ℕ) (rounds : ∀ round < last, Round G name (states round) (states (round + 1))) :
    ∀ round ≤ last, ∀ node, Sound G name node (states round node) := by
  intro round
  induction round with
  | zero => exact fun _ node => (intact node).sound
  | succ round ih =>
    intro inRun node
    exact (rounds round (by omega)).sound (ih (by omega)) node

def table (name : V ↪ Name) (state : V → DvRib) : Table V Name :=
  fun node destination via => (state node).reach destination (name via)

/-- A round of the routers is an exchange of distance vectors. -/
theorem Round.exchange {before after : V → DvRib} (round : Round G name before after)
    (sound : ∀ node, Sound G name node (before node)) :
    Exchange G name infinity (table name before) (table name after) := by
  constructor
  · intro node destination via value adjacent found
    rcases round.reach sound adjacent with ⟨adv, produced, equal⟩
    simp only [table, equal] at found
    rcases recorded_sound (sound via).agreeing produced found with
      ⟨-, hop, previous, away, reached, value⟩
    -- the hop is the neighbour itself or one of its neighbours
    rcases (sound via).hops destination hop previous reached with same | ⟨next, -, same⟩
    · subst same
      exact ⟨via, previous, fun equal => away (by rw [equal]), reached, value⟩
    · subst same
      exact ⟨next, previous, fun equal => away (by rw [equal]), reached, value⟩
  · intro node destination via next previous adjacent elsewhere away reached small
    rcases round.reach sound adjacent with ⟨adv, produced, equal⟩
    simp only [table, equal]
    apply recorded_complete (sound via).agreeing produced elsewhere _ reached small
    exact fun same => away (name.injective same)

theorem table_run {states : ℕ → V → DvRib} (first : ℕ)
    (sound : ∀ round ≤ infinity, ∀ node, Sound G name node (states (first + round) node))
    (rounds : ∀ round < infinity,
      Round G name (states (first + round)) (states (first + round + 1))) :
    Run G name infinity (fun round => table name (states (first + round))) := by
  constructor
  · intro round inRun node destination value
    exact (sound round inRun node).ownRow destination value
  · intro round inRun node destination via value found
    rcases (sound round inRun node).hops destination _ value found with same | known
    · exact Or.inl (name.injective same)
    · rcases known with ⟨neighbour, adjacent, same⟩
      rw [name.injective same]
      exact Or.inr adjacent
  · intro round inRun
    exact (rounds round inRun).exchange (sound round inRun.le)

/-- From any intact state, `INFINITY` rounds or more leave every best route at the hop distance,
and no route to a destination `INFINITY` hops away, unreachable or not in the graph. -/
theorem rounds_stabilise (states : ℕ → V → DvRib)
    (intact : ∀ node, Intact G name node (states 0 node)) (last : ℕ) (long : infinity ≤ last)
    (rounds : ∀ round < last, Round G name (states round) (states (round + 1)))
    (node : V) (destination : Name) :
    (∀ target hops, name target = destination → G.edist node target = (hops : ℕ) →
      hops < infinity →
      ((states last node).bestRoute destination).map BestRoute.cost = some hops) ∧
    ((∀ target, name target = destination → (infinity : ℕ∞) ≤ G.edist node target) →
      (states last node).bestRoute destination = none) := by
  have sound := sound_after intact last rounds
  have window : ∀ round, round ≤ infinity → last - infinity + round ≤ last := by
    intro round inRun
    omega
  have run : Run G name infinity (fun round => table name (states (last - infinity + round))) :=
    table_run (last - infinity) (fun round inRun => sound _ (window round inRun))
      (fun round inRun => rounds _ (by omega))
  have finish : last - infinity + infinity = last := Nat.sub_add_cancel long
  have agreeing := (sound last le_rfl node).agreeing
  constructor
  · intro target hops same far below
    subst same
    rcases least_recorded run name.injective node target hops far below with
      ⟨⟨via, value, near, found⟩, least⟩
    simp only [finish, table] at found least
    cases route : (states last node).bestRoute (name target) with
    | none =>
      rw [bestRoute_eq_none agreeing] at route
      rw [route] at found
      cases found
    | some best =>
      rcases bestRoute_least agreeing route with ⟨attained, lowest⟩
      have above : best.cost ≤ hops := (lowest _ _ found).trans near
      have hop : ∃ via, best.neighbor = name via := by
        rcases (sound last le_rfl node).hops _ _ _ attained with same | ⟨neighbour, -, same⟩
        · exact ⟨node, same⟩
        · exact ⟨neighbour, same⟩
      rcases hop with ⟨via', same⟩
      rw [same] at attained
      have exact' := least via' best.cost attained (reach_lt attained)
      simp only [Option.map_some, Option.some.injEq]
      omega
  · intro far
    rw [bestRoute_eq_none agreeing]
    intro hop
    cases found : (states last node).reach destination hop with
    | none => rfl
    | some cost =>
      have small := reach_lt found
      have via : ∃ via, hop = name via := by
        rcases (sound last le_rfl node).hops _ _ _ found with same | ⟨neighbour, -, same⟩
        · exact ⟨node, same⟩
        · exact ⟨neighbour, same⟩
      rcases via with ⟨via, same⟩
      subst same
      have old := ghost_forgotten run node destination far via cost (by
        simp only [finish, table]
        exact found)
      omega

/-- The round in which every router goes through its neighbours in the given order. -/
def nextRound (name : V ↪ Name) (order : V → List V) (before : V → DvRib) (node : V) : DvRib :=
  applyAll name (fun neighbour => (before neighbour).produceAdvertisement.getD { entries := [] })
    (order node) (before node)

/-- Rounds never panic: in a sound state every router can produce its advertisement. -/
theorem nextRound_round {order : V → List V} (distinct : ∀ node, (order node).Nodup)
    (complete : ∀ node neighbour, neighbour ∈ order node ↔ G.Adj node neighbour)
    {before : V → DvRib} (sound : ∀ node, Sound G name node (before node)) :
    Round G name before (nextRound name order before) := by
  intro node
  refine ⟨order node, _, distinct node, complete node, ?_, rfl⟩
  intro neighbour _
  rcases produceAdvertisement_isSome (sound neighbour).agreeing with ⟨adv, produced⟩
  simp [produced]

def iterateRounds (name : V ↪ Name) (order : V → List V) (start : V → DvRib) : ℕ → V → DvRib
  | 0 => start
  | round + 1 => nextRound name order (iterateRounds name order start round)

theorem iterateRounds_rounds {order : V → List V} (distinct : ∀ node, (order node).Nodup)
    (complete : ∀ node neighbour, neighbour ∈ order node ↔ G.Adj node neighbour)
    {start : V → DvRib} (intact : ∀ node, Intact G name node (start node)) (last : ℕ) :
    ∀ round < last, Round G name (iterateRounds name order start round)
      (iterateRounds name order start (round + 1)) := by
  have sound : ∀ round node, Sound G name node (iterateRounds name order start round node) := by
    intro round
    induction round with
    | zero => exact fun node => (intact node).sound
    | succ round ih => exact (nextRound_round distinct complete ih).sound ih
  exact fun round _ => nextRound_round distinct complete (sound round)

end rounds

/-! A pair of routers, one of which has learnt of a destination that does not exist. -/

def pairName : Fin 2 ↪ Name where
  toFun router := { components := [NameComponent.generic [if router = 0 then 97 else 98]] }
  inj' := by decide

def ghostName : Name := { components := [NameComponent.generic [103]] }

def ghostAdvertisement : Advertisement :=
  { entries := [{ destination := ghostName, nextHop := ghostName, cost := 2, otherCost := 16 }] }

def ghostPair (router : Fin 2) : DvRib :=
  if router = 0 then
    ((DvRib.new (pairName 0)).applyAdvertisement (pairName 1) ghostAdvertisement).1
  else DvRib.new (pairName 1)

theorem ghostPair_intact (router : Fin 2) : Intact ⊤ pairName router (ghostPair router) := by
  unfold ghostPair
  split
  · subst router
    exact (intact_new 0).applyAdvertisement (by simp) _
  · have same : router = 1 := by omega
    subst same
    exact intact_new 1

theorem rounds_stabilise_ghost :
    ((ghostPair 0).bestRoute ghostName).map BestRoute.cost = some 3 ∧
    ((iterateRounds pairName (fun router => [1 - router]) ghostPair 16 0).bestRoute
      (pairName 1)).map BestRoute.cost = some 1 ∧
    (iterateRounds pairName (fun router => [1 - router]) ghostPair 16 0).bestRoute ghostName =
      none := by
  have complete : ∀ router other : Fin 2,
      other ∈ [1 - router] ↔ (⊤ : SimpleGraph (Fin 2)).Adj router other := by decide
  have rounds : ∀ round < 16,
      Round ⊤ pairName (iterateRounds pairName (fun router => [1 - router]) ghostPair round)
        (iterateRounds pairName (fun router => [1 - router]) ghostPair (round + 1)) :=
    iterateRounds_rounds (fun _ => List.nodup_singleton _) complete ghostPair_intact 16
  have stable := rounds_stabilise _ ghostPair_intact 16 le_rfl rounds 0
  refine ⟨by decide, ?_, ?_⟩
  · apply (stable (pairName 1)).1 1 1 rfl _ (by decide)
    simp [SimpleGraph.edist_top_of_ne]
  · apply (stable ghostName).2
    intro target same
    exact absurd same (by revert target; decide)

end NdnExt.Dv
