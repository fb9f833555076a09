import NdnExt.Dv.Latest

/-! Announced costs, from the decoded list to the next hops. -/

namespace NdnExt.Dv

open NdnExt.Lib List

/-- A list that announces a prefix, at a cost still to be given. Nothing after the add names the
prefix again. -/
structure Announcement where
  exitRouter : Name
  prefixName : Name
  reset : Bool
  before : List PrefixOpAdd
  after : List PrefixOpAdd
  removes : List PrefixOpRemove
  last : ∀ add ∈ after, add.name ≠ prefixName
  kept : ∀ remove ∈ removes, remove.name ≠ prefixName

def Announcement.ops (ann : Announcement) (cost : Nat) : PrefixOpList where
  exitRouter := ann.exitRouter
  reset := ann.reset
  adds := ann.before ++ { name := ann.prefixName, cost := cost } :: ann.after
  removes := ann.removes

def PrefixTable.told (table : PrefixTable) (ann : Announcement) (cost : Nat) : PrefixTable :=
  (table.applyOpList (ann.ops cost)).1

/-- One way to a prefix: the exit router that has it, the neighbour it is reached through, at what
cost and on which face, and the cost the prefix is announced at. -/
structure Way where
  exit : Name
  neighbor : Name
  cost : Nat
  face : Nat
  extra : Nat

def Way.hop (way : Way) : NextHop := ⟨saturatingAddU32 way.cost way.extra, way.face⟩

/-- The list of next hops emitted for a prefix. -/
def emitted (updates : List FibUpdate) (target : Name) : List NextHop :=
  ((updates.find? (fun update => update.prefixName = target)).map FibUpdate.nextHops).getD []

section ways

variable (prefixTable : PrefixTable) (network : Name) (faceForNeighbor : Name → Option Nat)

def waysThrough (entry : RibEntry) (extra : Nat) : List Way :=
  entry.costs.pairs.filterMap (fun (neighbor, cost) =>
    if cost ≥ infinity then none
    else (faceForNeighbor neighbor).map (fun face => ⟨entry.destination, neighbor, cost, face, extra⟩))

def waysOf (selfName target : Name) (entry : RibEntry) : List Way :=
  if entry.destination = selfName then []
  else ((routesTo prefixTable network entry.destination).filter (fun route => route.1 = target)).flatMap
    (fun route => waysThrough faceForNeighbor entry route.2)

/-- All ways to a prefix, in the order in which the loop over the snapshot finds them. -/
def ways (rib : DvRib) (target : Name) : List Way :=
  (advertised rib).flatMap (waysOf prefixTable network faceForNeighbor rib.selfName target)

end ways

/-- Both ways lead through the same neighbour to the same exit, the first at no higher cost. -/
structure Way.AtMost (way way' : Way) : Prop where
  exit : way.exit = way'.exit
  neighbor : way.neighbor = way'.neighbor
  cost : way.hop.cost ≤ way'.hop.cost

structure NeverCheaper (table : PrefixTable) (network : Name) (faceForNeighbor : Name → Option Nat)
    (rib : DvRib) (ann : Announcement) (a b : Nat) : Prop where
  recorded : ∀ low high,
    (table.told ann a).announced ann.exitRouter ann.prefixName = some low →
    (table.told ann b).announced ann.exitRouter ann.prefixName = some high → low ≤ high
  emits : ∀ cost, (emitted (computeFibUpdates (table.told ann cost) network faceForNeighbor rib)
    ann.prefixName).Perm
      ((ways (table.told ann cost) network faceForNeighbor rib ann.prefixName).map Way.hop)
  ordered : List.Forall₂ Way.AtMost (ways (table.told ann a) network faceForNeighbor rib ann.prefixName)
    (ways (table.told ann b) network faceForNeighbor rib ann.prefixName)
  floor : ∀ way ∈ ways (table.told ann a) network faceForNeighbor rib ann.prefixName,
    way.cost ≤ way.hop.cost ∧
      ∀ best, rib.bestRoute way.exit = some best → best.cost ≤ way.hop.cost

/-! ### What the table records -/

theorem lookup_applyAdds (router key : Name) (adds : List PrefixOpAdd)
    (state : HashMap Name Nat × List PrefixChange) :
    (adds.foldl (applyAdd router) state).1.lookup key =
      adds.foldl (fun held add => if key = add.name then some (asU32 add.cost) else held)
        (state.1.lookup key) := by
  induction adds generalizing state with
  | nil => rfl
  | cons add rest ih =>
    rw [foldl_cons, ih, foldl_cons]
    exact congrArg (fun held => rest.foldl _ held) (HashMap.lookup_insert_eq _ _ _ _)

theorem lookup_applyRemove (router key : Name) (state : HashMap Name Nat × List PrefixChange)
    (remove : PrefixOpRemove) :
    (applyRemove router state remove).1.lookup key =
      if key = remove.name then none else state.1.lookup key := by
  obtain ⟨row, changes⟩ := state
  simp only [applyRemove]
  cases found : row.lookup remove.name with
  | none =>
    by_cases same : key = remove.name
    · rw [if_pos same, same, found]
    · rw [if_neg same]
  | some old => exact HashMap.lookup_erase_eq _ _ _

theorem lookup_applyRemoves (router key : Name) (removes : List PrefixOpRemove)
    (state : HashMap Name Nat × List PrefixChange) :
    (removes.foldl (applyRemove router) state).1.lookup key =
      removes.foldl (fun held remove => if key = remove.name then none else held)
        (state.1.lookup key) := by
  induction removes generalizing state with
  | nil => rfl
  | cons remove rest ih => rw [foldl_cons, ih, foldl_cons, lookup_applyRemove]

theorem foldl_unnamed {A : Type} (key : Name) (nameOf : A → Name) (read : A → Option Nat)
    {items : List A} (others : ∀ item ∈ items, nameOf item ≠ key) (held : Option Nat) :
    items.foldl (fun held item => if key = nameOf item then read item else held) held = held := by
  induction items with
  | nil => rfl
  | cons item rest ih =>
    rw [foldl_cons, if_neg (Ne.symm (others item mem_cons_self))]
    exact ih (fun other member => others other (mem_cons_of_mem _ member))

theorem lookup_applyOps_named (ann : Announcement) (row : HashMap Name Nat) (cost : Nat) :
    (applyOps (ann.ops cost) row).1.lookup ann.prefixName = some (asU32 cost) := by
  unfold applyOps
  rw [lookup_applyRemoves]
  refine (foldl_unnamed _ PrefixOpRemove.name (fun _ => none) ann.kept _).trans ?_
  rw [lookup_applyAdds, Announcement.ops, foldl_append, foldl_cons, if_pos rfl]
  exact foldl_unnamed _ PrefixOpAdd.name (fun add => some (asU32 add.cost)) ann.last _

variable {ann : Announcement} {network : Name}

theorem announced_named {table : PrefixTable} (cost : Nat)
    (foreign : ann.exitRouter ≠ table.selfRouter) :
    (table.told ann cost).announced ann.exitRouter ann.prefixName = some (asU32 cost) := by
  rw [PrefixTable.told, PrefixTable.announced_applyOpList, if_pos ⟨rfl, foreign⟩]
  exact lookup_applyOps_named ann _ cost

/-- Whoever announces the prefix, its cost is ordered as the low halves of the two costs are. -/
theorem announced_ordered {table : PrefixTable} {a b : Nat}
    (condition : ann.exitRouter = table.selfRouter ∨ a % 2 ^ 32 ≤ b % 2 ^ 32) (router : Name) :
    Option.Rel (· ≤ ·) ((table.told ann a).announced router ann.prefixName)
      ((table.told ann b).announced router ann.prefixName) := by
  by_cases named : router = ann.exitRouter ∧ router ≠ table.selfRouter
  · obtain ⟨rfl, foreign⟩ := named
    rw [announced_named a foreign, announced_named b foreign]
    exact Option.Rel.some (condition.resolve_left foreign)
  · have untouched : ∀ cost, (table.told ann cost).announced router ann.prefixName =
        table.announced router ann.prefixName := by
      intro cost
      exact (PrefixTable.announced_applyOpList _ _ _ _).trans (if_neg named)
    rw [untouched, untouched]
    cases table.announced router ann.prefixName with
    | none => exact Option.Rel.none
    | some held => exact Option.Rel.some le_rfl

/-! ### The rows the loop builds -/

section rows

variable (prefixTable : PrefixTable) (network : Name) (faceForNeighbor : Name → Option Nat)

theorem map_hop_waysThrough (entry : RibEntry) (extra : Nat) :
    (waysThrough faceForNeighbor entry extra).map Way.hop =
      (collectNextHops entry.costs faceForNeighbor).map
        (fun nh => { cost := saturatingAddU32 nh.cost extra, face := nh.face }) := by
  unfold waysThrough collectNextHops
  rw [map_filterMap, map_filterMap]
  congr 1
  funext item
  by_cases beyond : item.2 ≥ infinity
  · simp [beyond]
  · simp [beyond, Option.map_map, Function.comp_def, Way.hop]

theorem rowOf_mergeRoutes (routes : List (Name × Nat)) (base : List NextHop)
    (out : HashMap Name (List NextHop)) (target : Name) :
    rowOf (routes.foldl (fun out route => mergeInto out route.1 base route.2) out) target =
      rowOf out target ++ (routes.filter (fun route => route.1 = target)).flatMap
        (fun route => base.map
          (fun nh => { cost := saturatingAddU32 nh.cost route.2, face := nh.face })) := by
  induction routes generalizing out with
  | nil => simp
  | cons route rest ih =>
    rw [foldl_cons, ih, rowOf, lookup_mergeInto]
    by_cases same : route.1 = target
    · rw [if_pos same.symm, same, filter_cons_of_pos (by simpa using same), flatMap_cons]
      simp [rowOf]
    · rw [if_neg (Ne.symm same), filter_cons_of_neg (by simpa using same)]
      rfl

theorem rowOf_mergeEntry {selfName : Name} {out : HashMap Name (List NextHop)} {entry : RibEntry}
    (reachable : entry.lowest1 < infinity) (target : Name) :
    rowOf (mergeEntry prefixTable network faceForNeighbor selfName out entry) target =
      rowOf out target ++
        (waysOf prefixTable network faceForNeighbor selfName target entry).map Way.hop := by
  rw [mergeEntry_eq _ _ _ _ _ _ reachable, waysOf]
  by_cases own : entry.destination = selfName
  · simp [own]
  · by_cases empty : collectNextHops entry.costs faceForNeighbor = []
    · simp [own, empty, map_flatMap, map_hop_waysThrough]
    · rw [if_neg (not_or.mpr ⟨own, empty⟩), rowOf_mergeRoutes, if_neg own, map_flatMap]
      simp only [map_hop_waysThrough]

theorem rowOf_mergedRows (rib : DvRib) (target : Name) :
    rowOf (mergedRows prefixTable network faceForNeighbor rib) target =
      (ways prefixTable network faceForNeighbor rib target).map Way.hop := by
  have scan : ∀ (entries : List RibEntry) (out : HashMap Name (List NextHop)),
      (∀ entry ∈ entries, entry.lowest1 < infinity) →
      rowOf (entries.foldl (mergeEntry prefixTable network faceForNeighbor rib.selfName) out) target =
        rowOf out target ++ (entries.flatMap
          (waysOf prefixTable network faceForNeighbor rib.selfName target)).map Way.hop := by
    intro entries
    induction entries with
    | nil => simp
    | cons entry rest ih =>
      intro out reachable
      rw [foldl_cons, ih _ (fun other member => reachable other (mem_cons_of_mem _ member)),
        rowOf_mergeEntry _ _ _ (reachable entry mem_cons_self)]
      simp
  rw [mergedRows_eq, scan _ _ (fun entry member => (mem_advertised.mp member).2)]
  simp [rowOf, ways]

end rows

/-- Sorting the rows and the hops within them keeps the hops of each prefix. -/
theorem emitted_perm (rows : HashMap Name (List NextHop)) (target : Name) :
    (emitted (sortedUpdates rows) target).Perm (rowOf rows target) := by
  have listed : ∀ update, update ∈ sortedUpdates rows ↔
      ∃ row, rows.lookup update.prefixName = some row ∧
        update.nextHops = row.insertionSort (· ≤ ·) := by
    intro update
    rw [sortedUpdates, (perm_insertionSort _ _).mem_iff, mem_map]
    constructor
    · rintro ⟨⟨name, row⟩, member, rfl⟩
      exact ⟨row, HashMap.mem_pairs.mp member, rfl⟩
    · rintro ⟨row, found, sorted⟩
      exact ⟨(update.prefixName, row), HashMap.mem_pairs.mpr found,
        congrArg (FibUpdate.mk update.prefixName) sorted.symm⟩
  unfold emitted rowOf
  cases searched : (sortedUpdates rows).find? (fun update => update.prefixName = target) with
  | none =>
    rw [List.find?_eq_none] at searched
    cases found : rows.lookup target with
    | none => exact List.Perm.refl _
    | some row =>
      have member := (listed ⟨target, row.insertionSort (· ≤ ·)⟩).mpr ⟨row, found, rfl⟩
      exact absurd (decide_eq_true rfl) (searched _ member)
  | some update =>
    have named : update.prefixName = target := by simpa using List.find?_some searched
    obtain ⟨row, found, sorted⟩ := (listed update).mp (mem_of_find?_eq_some searched)
    rw [named] at found
    rw [found, Option.map_some, Option.getD_some, sorted]
    exact perm_insertionSort _ _

/-! ### Comparing the two tables -/

theorem filter_prefixesForRouter (table : PrefixTable) (router target : Name) :
    (table.prefixesForRouter router).filter (fun item => item.1 = target) =
      (table.announced router target).toList.map (fun cost => (target, cost)) := by
  have one : ∀ row : HashMap Name Nat,
      ((row.pairs.insertionSort (fun a b => a.1 ≤ b.1)).filter (fun item => item.1 = target)) =
        (row.lookup target).toList.map (fun cost => (target, cost)) := by
    intro row
    have perm := (perm_insertionSort (fun a b : Name × Nat => a.1 ≤ b.1) row.pairs).filter
      (fun item => item.1 = target)
    have alone : row.pairs.filter (fun item => item.1 = target) =
        (row.lookup target).toList.map (fun cost => (target, cost)) := by
      have collected := HashMap.filter_collected row (fun _ cost => [cost]) target
      simp only [map_cons, map_nil, flatMap_singleton'] at collected
      rw [collected]
      cases row.lookup target <;> rfl
    rw [alone] at perm
    cases found : row.lookup target with
    | none =>
      rw [found] at perm
      exact perm_nil.mp perm
    | some cost =>
      rw [found] at perm
      exact perm_singleton.mp perm
  unfold PrefixTable.prefixesForRouter PrefixTable.announced
  split <;> exact one _

theorem routes_ordered {table : PrefixTable} {a b : Nat}
    (condition : ann.exitRouter = table.selfRouter ∨ a % 2 ^ 32 ≤ b % 2 ^ 32) (router : Name) :
    List.Forall₂ (fun route route' : Name × Nat => route.2 ≤ route'.2)
      ((routesTo (table.told ann a) network router).filter (fun route => route.1 = ann.prefixName))
      ((routesTo (table.told ann b) network router).filter (fun route => route.1 = ann.prefixName)) := by
  have own : List.Forall₂ (fun route route' : Name × Nat => route.2 ≤ route'.2)
      (((table.told ann a).prefixesForRouter router).filter (fun item => item.1 = ann.prefixName))
      (((table.told ann b).prefixesForRouter router).filter (fun item => item.1 = ann.prefixName)) := by
    rw [filter_prefixesForRouter, filter_prefixesForRouter]
    have ordered := announced_ordered condition router
    cases low : (table.told ann a).announced router ann.prefixName with
    | none =>
      rw [low] at ordered
      cases high : (table.told ann b).announced router ann.prefixName with
      | none => exact List.Forall₂.nil
      | some cost => rw [high] at ordered; cases ordered
    | some cost =>
      rw [low] at ordered
      cases high : (table.told ann b).announced router ann.prefixName with
      | none => rw [high] at ordered; cases ordered
      | some cost' =>
        rw [high] at ordered
        cases ordered with
        | some below => exact List.Forall₂.cons below List.Forall₂.nil
  unfold routesTo
  by_cases sync : prefixSyncRoute network router = ann.prefixName
  · simp only [filter_cons, sync, decide_true, if_true]
    exact List.Forall₂.cons le_rfl own
  · simp only [filter_cons, sync, decide_false]
    exact own

theorem saturatingAddU32_le_right (cost : Nat) {extra extra' : Nat} (below : extra ≤ extra') :
    saturatingAddU32 cost extra ≤ saturatingAddU32 cost extra' := by
  unfold saturatingAddU32
  omega

theorem waysThrough_ordered (faceForNeighbor : Name → Option Nat) (entry : RibEntry)
    {extra extra' : Nat} (below : extra ≤ extra') :
    List.Forall₂ Way.AtMost (waysThrough faceForNeighbor entry extra)
      (waysThrough faceForNeighbor entry extra') := by
  unfold waysThrough
  induction entry.costs.pairs with
  | nil => exact List.Forall₂.nil
  | cons item rest ih =>
    obtain ⟨neighbor, cost⟩ := item
    by_cases beyond : cost ≥ infinity
    · simpa [beyond] using ih
    · cases bound : faceForNeighbor neighbor with
      | none => simpa [beyond, bound] using ih
      | some face =>
        simp only [filterMap_cons, beyond, bound, if_false, Option.map_some]
        exact List.Forall₂.cons ⟨rfl, rfl, saturatingAddU32_le_right cost below⟩ ih

theorem ways_ordered {table : PrefixTable} {a b : Nat}
    (condition : ann.exitRouter = table.selfRouter ∨ a % 2 ^ 32 ≤ b % 2 ^ 32) (network : Name)
    (faceForNeighbor : Name → Option Nat) (rib : DvRib) :
    List.Forall₂ Way.AtMost (ways (table.told ann a) network faceForNeighbor rib ann.prefixName)
      (ways (table.told ann b) network faceForNeighbor rib ann.prefixName) := by
  refine rel_flatMap (forall₂_eq_eq_eq ▸ rfl) ?_
  rintro entry _ rfl
  unfold waysOf
  split
  · exact List.Forall₂.nil
  · refine rel_flatMap (routes_ordered condition _) ?_
    intro route route' below
    exact waysThrough_ordered faceForNeighbor entry below

theorem mem_ways {prefixTable : PrefixTable} {faceForNeighbor : Name → Option Nat}
    {rib : DvRib} {target : Name} {way : Way}
    (found : way ∈ ways prefixTable network faceForNeighbor rib target) :
    ∃ entry, rib.entries.lookup way.exit = some entry ∧
      entry.finiteCost way.neighbor = some way.cost := by
  obtain ⟨entry, member, found⟩ := mem_flatMap.mp found
  unfold waysOf at found
  split at found
  · cases found
  · obtain ⟨route, _, found⟩ := mem_flatMap.mp found
    obtain ⟨⟨neighbor, cost⟩, listed, kept⟩ := mem_filterMap.mp found
    by_cases beyond : cost ≥ infinity
    · simp [beyond] at kept
    · simp only [beyond, if_false, Option.map_eq_some_iff] at kept
      obtain ⟨face, _, rfl⟩ := kept
      exact ⟨entry, (mem_advertised.mp member).1,
        finiteCost_eq_some.mpr ⟨listed, not_le.mp beyond⟩⟩

theorem cached_performAll {rib : DvRib} (cached : Cached rib.entries) (ops : List RibOp) :
    Cached (rib.performAll ops).entries := by
  induction ops generalizing rib with
  | nil => exact cached
  | cons op rest ih =>
    apply ih
    cases op with
    | applyAdvertisement peer adv => exact cached_applyAdvertisement rib peer adv
    | removeNeighbor peer => exact cached_removeNeighbor cached peer

/-- No next hop costs less than the RIB's way to the exit router does. -/
theorem way_floor {prefixTable : PrefixTable} {faceForNeighbor : Name → Option Nat}
    {rib : DvRib} (agreeing : rib.Agreeing) {target : Name} {way : Way}
    (found : way ∈ ways prefixTable network faceForNeighbor rib target) :
    way.cost ≤ way.hop.cost ∧
      ∀ best, rib.bestRoute way.exit = some best → best.cost ≤ way.hop.cost := by
  obtain ⟨entry, listed, finite⟩ := mem_ways found
  have through : way.cost ≤ way.hop.cost := by
    have small := finiteCost_lt finite
    simp only [Way.hop, saturatingAddU32, u32Max, infinity] at small ⊢
    omega
  refine ⟨through, ?_⟩
  intro best answer
  have reached : rib.reach way.exit way.neighbor = some way.cost := by
    rw [DvRib.reach, reachOf, listed, Option.bind_some, finite]
  exact ((bestRoute_least agreeing answer).2 _ _ reached).trans through

/-- A costlier announcement never looks cheaper than another exactly when the low halves of the
two costs are in order, or the router ignores both as its own. -/
theorem never_cheaper_iff (table : PrefixTable) (network : Name)
    (faceForNeighbor : Name → Option Nat) (selfName : Name) (ops : List RibOp) (ann : Announcement)
    (a b : Nat) :
    NeverCheaper table network faceForNeighbor ((DvRib.new selfName).performAll ops) ann a b ↔
      ann.exitRouter = table.selfRouter ∨ a % 2 ^ 32 ≤ b % 2 ^ 32 := by
  constructor
  · intro never
    by_cases own : ann.exitRouter = table.selfRouter
    · exact Or.inl own
    · exact Or.inr (never.recorded _ _ (announced_named a own) (announced_named b own))
  · intro condition
    have agreeing := agreeing_of_cached (cached_performAll (cached_new selfName) ops)
    refine ⟨?_, ?_, ways_ordered condition network faceForNeighbor _, ?_⟩
    · intro low high recorded recorded'
      have ordered := announced_ordered condition ann.exitRouter
      rw [recorded, recorded'] at ordered
      cases ordered with
      | some below => exact below
    · intro cost
      rw [← rowOf_mergedRows]
      exact emitted_perm _ _
    · intro way found
      exact way_floor agreeing found

/-- An announcement of `/p` at a cost beyond 32 bits is recorded as one at no cost. -/
theorem beyond_the_low_half :
    ¬∀ (table : PrefixTable) (network : Name) (faceForNeighbor : Name → Option Nat)
      (selfName : Name) (ops : List RibOp) (ann : Announcement) (a b : Nat), a ≤ b → b < 2 ^ 64 →
      NeverCheaper table network faceForNeighbor ((DvRib.new selfName).performAll ops) ann a b := by
  intro never
  let self : Name := ⟨[]⟩
  let router : Name := self.appendComponent (NameComponent.generic [114])
  let ann : Announcement := {
    exitRouter := router, prefixName := self.appendComponent (NameComponent.generic [112])
    reset := false, before := [], after := [], removes := []
    last := List.forall_mem_nil _, kept := List.forall_mem_nil _ }
  have foreign : ann.exitRouter ≠ (PrefixTable.new self).selfRouter := by decide
  have wrong := (never (PrefixTable.new self) self (fun _ => none) self [] ann 1 (2 ^ 32)
    (by decide) (by decide)).recorded _ _ (announced_named 1 foreign)
      (announced_named (2 ^ 32) foreign)
  exact absurd wrong (by decide)

end NdnExt.Dv
