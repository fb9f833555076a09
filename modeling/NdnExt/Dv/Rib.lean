import NdnExt.Dv.Tlv
import NdnExt.Lib.HashMap
import NdnExt.Lib.Checked
import NdnExt.Lib.TopTwo
import Mathlib.Data.Finset.Basic
import Mathlib.Data.List.Sort
import Mathlib.Order.WithBot

/-! The destination-vector RIB. -/

namespace NdnExt.Dv

open NdnExt.Lib

def infinity : Nat := 16

def localCost : Nat := 1

structure BestRoute where
  neighbor : Name
  cost : Nat
  deriving DecidableEq

structure RibChange where
  destination : Name
  oldBest : Option BestRoute
  newBest : Option BestRoute
  deriving DecidableEq

/-- The cached fields of a `RibEntry`, which `refresh` recomputes in one pass over `costs`. -/
structure Lowest where
  lowest1 : Nat
  nextHop1 : Option Name
  lowest2 : Nat
  nextHop2 : Option Name
  deriving DecidableEq

structure RibEntry extends Lowest where
  destination : Name
  costs : HashMap Name Nat
  deriving DecidableEq

structure DvRib where
  selfName : Name
  entries : HashMap Name RibEntry
  neighbors : Finset Name
  /-- An entry is stored under its own destination. -/
  keyed : ∀ key entry, entries.lookup key = some entry → entry.destination = key

def Lowest.none : Lowest := ⟨infinity, Option.none, infinity, Option.none⟩

/-- One turn of the loop of `refresh`. An equal cost is decided by the lesser name. -/
def Lowest.visit (low : Lowest) (item : Name × Nat) : Lowest :=
  let (hop, cost) := item
  if cost < low.lowest1 ∨ (cost = low.lowest1 ∧ low.nextHop1.all (fun nh => hop < nh)) then
    { lowest1 := cost, nextHop1 := some hop, lowest2 := low.lowest1, nextHop2 := low.nextHop1 }
  else if cost < low.lowest2 ∨ (cost = low.lowest2 ∧ low.nextHop2.all (fun nh => hop < nh)) then
    { low with lowest2 := cost, nextHop2 := some hop }
  else low

def refresh (entry : RibEntry) : RibEntry :=
  { entry with toLowest := entry.costs.pairs.foldl Lowest.visit Lowest.none }

def bestRouteOf (entry : RibEntry) : Option BestRoute :=
  if entry.lowest1 ≥ infinity then none
  else entry.nextHop1.map (fun nh => { neighbor := nh, cost := entry.lowest1 })

def computeReceivedCost (adv : AdvEntry) (selfName : Name) : Option Nat :=
  let raw :=
    if adv.nextHop = selfName then
      if adv.otherCost ≥ infinity then none else some adv.otherCost
    else
      if adv.cost ≥ infinity then none else some adv.cost
  raw.bind (fun raw =>
    let cost := saturatingAddU32 (asU32 raw) localCost
    if cost ≥ infinity then none else some cost)

def emptyEntry (destination : Name) : RibEntry :=
  { Lowest.none with destination := destination, costs := ∅ }

/-- The row installed at start: the router itself at cost 0. -/
def ownEntry (selfName : Name) : RibEntry where
  destination := selfName
  costs := AList.singleton selfName 0
  lowest1 := 0
  nextHop1 := some selfName
  lowest2 := infinity
  nextHop2 := none

def dirtyReset (peer : Name) (entry : RibEntry) : RibEntry :=
  if peer ∈ entry.costs then { entry with costs := entry.costs.insert peer infinity } else entry

/-- The loop body over `adv.entries` of `apply_advertisement`. -/
def applyEntry (selfName peer : Name) (entries : HashMap Name RibEntry) (adv : AdvEntry) :
    HashMap Name RibEntry :=
  if adv.destination = selfName then entries
  else
    match computeReceivedCost adv selfName with
    | none => entries
    | some cost =>
      let entry := (entries.lookup adv.destination).getD (emptyEntry adv.destination)
      entries.insert adv.destination { entry with costs := entry.costs.insert peer cost }

/-- The best routes that differ, in the iteration order of `entries`. -/
def ribChanges (oldBests : HashMap Name (Option BestRoute)) (entries : HashMap Name RibEntry) :
    List RibChange :=
  entries.pairs.filterMap (fun (name, entry) =>
    let old := (oldBests.lookup name).join
    let new := if entry.lowest1 < infinity then bestRouteOf entry else none
    if old ≠ new then some { destination := name, oldBest := old, newBest := new } else none)

def Keyed (entries : HashMap Name RibEntry) : Prop :=
  ∀ key entry, entries.lookup key = some entry → entry.destination = key

theorem keyed_mapValues {entries : HashMap Name RibEntry} (keyed : Keyed entries)
    (f : RibEntry → RibEntry) (same : ∀ entry, (f entry).destination = entry.destination) :
    Keyed (entries.mapValues (fun _ entry => f entry)) := by
  intro key entry found
  simp only [HashMap.lookup_mapValues, Option.map_eq_some_iff] at found
  obtain ⟨old, present, rfl⟩ := found
  rw [same, keyed key old present]

theorem keyed_retain {entries : HashMap Name RibEntry} (keyed : Keyed entries)
    (keep : Name → RibEntry → Bool) : Keyed (entries.retain keep) := by
  intro key entry found
  simp only [HashMap.lookup_retain, Option.filter_eq_some_iff] at found
  exact keyed key entry found.1

theorem dirtyReset_destination (peer : Name) (entry : RibEntry) :
    (dirtyReset peer entry).destination = entry.destination := by
  unfold dirtyReset
  split <;> rfl

theorem keyed_applyEntry (selfName peer : Name) {entries : HashMap Name RibEntry}
    (keyed : Keyed entries) (adv : AdvEntry) : Keyed (applyEntry selfName peer entries adv) := by
  unfold applyEntry
  split
  · exact keyed
  · cases received : computeReceivedCost adv selfName with
    | none => exact keyed
    | some cost =>
      have target :
          ((entries.lookup adv.destination).getD (emptyEntry adv.destination)).destination =
            adv.destination := by
        cases found : entries.lookup adv.destination with
        | none => rfl
        | some entry => exact keyed _ entry found
      intro key other found
      rw [HashMap.lookup_insert_eq] at found
      split at found
      · cases found
        exact target.trans (Eq.symm ‹_›)
      · exact keyed key other found

theorem keyed_applyEntries (selfName peer : Name) (advs : List AdvEntry)
    {entries : HashMap Name RibEntry} (keyed : Keyed entries) :
    Keyed (advs.foldl (applyEntry selfName peer) entries) := by
  induction advs generalizing entries with
  | nil => exact keyed
  | cons adv tail ih => exact ih (keyed_applyEntry selfName peer keyed adv)

namespace DvRib

def new (selfName : Name) : DvRib where
  selfName := selfName
  entries := AList.singleton selfName (ownEntry selfName)
  neighbors := {selfName}
  keyed := by
    intro key entry found
    rw [← AList.insert_empty, HashMap.lookup_insert_eq] at found
    split at found
    · cases found
      exact Eq.symm ‹_›
    · simp at found

def resetEntries (rib : DvRib) (peer : Name) : HashMap Name RibEntry :=
  rib.entries.mapValues (fun _ entry => dirtyReset peer entry)

/-- The entries of `apply_advertisement` after its three loops, before pruning. -/
def appliedEntries (rib : DvRib) (peer : Name) (adv : Advertisement) : HashMap Name RibEntry :=
  (adv.entries.foldl (applyEntry rib.selfName peer) (rib.resetEntries peer)).mapValues
    (fun _ entry => refresh entry)

theorem keyed_appliedEntries (rib : DvRib) (peer : Name) (adv : Advertisement) :
    Keyed (rib.appliedEntries peer adv) :=
  keyed_mapValues (keyed_applyEntries _ _ _
    (keyed_mapValues rib.keyed _ (dirtyReset_destination peer))) _ (fun _ => rfl)

def oldBests (rib : DvRib) : HashMap Name (Option BestRoute) :=
  rib.entries.mapValues (fun _ entry => bestRouteOf entry)

def applyAdvertisement (rib : DvRib) (peer : Name) (adv : Advertisement) :
    DvRib × List RibChange :=
  let entries := rib.appliedEntries peer adv
  ({ selfName := rib.selfName
     entries := entries.retain (fun _ entry => entry.lowest1 < infinity)
     neighbors := insert peer rib.neighbors
     keyed := keyed_retain (rib.keyed_appliedEntries peer adv) _ },
   ribChanges rib.oldBests entries)

def removedEntries (rib : DvRib) (neighbor : Name) : HashMap Name RibEntry :=
  rib.entries.mapValues (fun _ entry => refresh { entry with costs := entry.costs.erase neighbor })

def removeNeighbor (rib : DvRib) (neighbor : Name) : DvRib × List RibChange :=
  if neighbor ∈ rib.neighbors then
    let entries := rib.removedEntries neighbor
    ({ selfName := rib.selfName
       entries := entries.retain (fun name entry =>
         entry.lowest1 < infinity ∨ name = rib.selfName)
       neighbors := rib.neighbors.erase neighbor
       keyed := keyed_retain (keyed_mapValues rib.keyed
         (fun entry => refresh { entry with costs := entry.costs.erase neighbor })
         (fun _ => rfl)) _ },
     ribChanges rib.oldBests entries)
  else (rib, [])

def bestRoute (rib : DvRib) (destination : Name) : Option BestRoute :=
  (rib.entries.lookup destination).bind bestRouteOf

def snapshot (rib : DvRib) : List RibEntry :=
  (rib.entries.pairs.map Prod.snd).insertionSort (fun a b => a.destination ≤ b.destination)

/-- The row of one entry; `none` is the panic of `expect` on a missing next hop. -/
def advRow (entry : RibEntry) : Option AdvEntry :=
  entry.nextHop1.map (fun nextHop =>
    { destination := entry.destination, nextHop := nextHop,
      cost := entry.lowest1, otherCost := entry.lowest2 })

def produceAdvertisement (rib : DvRib) : Option Advertisement := do
  let rows ← (rib.snapshot.filter (fun entry => entry.lowest1 < infinity)).mapM advRow
  return { entries := rows }

end DvRib
end NdnExt.Dv
