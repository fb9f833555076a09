import NdnExt.Dv.Tlv
import NdnExt.Lib.HashMap
import NdnExt.Lib.Checked
import Mathlib.Data.List.Sort

/-! The global prefix table: which exit routers announce which prefixes. -/

namespace NdnExt.Dv

open NdnExt.Lib HashMap

structure PrefixChange where
  router : Name
  prefixName : Name
  oldCost : Option Nat
  newCost : Option Nat
  deriving DecidableEq

/-- `remote` maps a router to its row. A router's own announcements are in `localPrefixes`. -/
structure PrefixTable where
  selfRouter : Name
  localPrefixes : HashMap Name Nat
  remote : HashMap Name (HashMap Name Nat)
  deriving DecidableEq

/-- `insert` of one add, with the change it reports. -/
def applyAdd (router : Name) (state : HashMap Name Nat × List PrefixChange) (add : PrefixOpAdd) :
    HashMap Name Nat × List PrefixChange :=
  let (row, changes) := state
  let old := row.lookup add.name
  let cost := asU32 add.cost
  (row.insert add.name cost,
   if old ≠ some cost then changes ++ [⟨router, add.name, old, some cost⟩] else changes)

def applyRemove (router : Name) (state : HashMap Name Nat × List PrefixChange)
    (remove : PrefixOpRemove) : HashMap Name Nat × List PrefixChange :=
  let (row, changes) := state
  match row.lookup remove.name with
  | none => (row, changes)
  | some old => (row.erase remove.name, changes ++ [⟨router, remove.name, some old, none⟩])

/-- `row.drain()`, with the changes it reports. -/
def applyReset (router : Name) (row : HashMap Name Nat) : HashMap Name Nat × List PrefixChange :=
  (∅, row.pairs.map (fun item => ⟨router, item.1, some item.2, none⟩))

/-- The row of the exit router after reset, adds and removes, in this order. -/
def applyOps (ops : PrefixOpList) (row : HashMap Name Nat) : HashMap Name Nat × List PrefixChange :=
  let start := if ops.reset then applyReset ops.exitRouter row else (row, [])
  ops.removes.foldl (applyRemove ops.exitRouter) (ops.adds.foldl (applyAdd ops.exitRouter) start)

namespace PrefixTable

def new (selfRouter : Name) : PrefixTable := ⟨selfRouter, ∅, ∅⟩

def row (table : PrefixTable) (router : Name) : HashMap Name Nat :=
  (table.remote.lookup router).getD ∅

def applyOpList (table : PrefixTable) (ops : PrefixOpList) : PrefixTable × List PrefixChange :=
  if ops.exitRouter = table.selfRouter then (table, [])
  else
    let (row, changes) := applyOps ops (table.row ops.exitRouter)
    ({ table with
       remote :=
         if row.pairs.isEmpty then table.remote.erase ops.exitRouter
         else table.remote.insert ops.exitRouter row },
     changes)

def announceLocal (table : PrefixTable) (prefixName : Name) (cost : Nat) :
    PrefixTable × Option PrefixOpList :=
  if table.localPrefixes.lookup prefixName = some cost then (table, none)
  else
    ({ table with localPrefixes := table.localPrefixes.insert prefixName cost },
     some { exitRouter := table.selfRouter, reset := false
            adds := [{ name := prefixName, cost := cost }], removes := [] })

def withdrawLocal (table : PrefixTable) (prefixName : Name) : PrefixTable × Option PrefixOpList :=
  match table.localPrefixes.lookup prefixName with
  | none => (table, none)
  | some _ =>
    ({ table with localPrefixes := table.localPrefixes.erase prefixName },
     some { exitRouter := table.selfRouter, reset := false
            adds := [], removes := [{ name := prefixName }] })

def snap (table : PrefixTable) : PrefixOpList where
  exitRouter := table.selfRouter
  reset := true
  adds := (table.localPrefixes.pairs.map (fun item => { name := item.1, cost := item.2 }))
    |>.insertionSort (fun a b => a.name ≤ b.name)
  removes := []

def prefixesForRouter (table : PrefixTable) (router : Name) : List (Name × Nat) :=
  let out :=
    if router = table.selfRouter then table.localPrefixes.pairs
    else (table.row router).pairs
  out.insertionSort (fun a b => a.1 ≤ b.1)

/-- What `router` announces, as the table has it. -/
def announced (table : PrefixTable) (router prefixName : Name) : Option Nat :=
  if router = table.selfRouter then table.localPrefixes.lookup prefixName
  else (table.row router).lookup prefixName

@[simp] theorem selfRouter_applyOpList (table : PrefixTable) (ops : PrefixOpList) :
    (table.applyOpList ops).1.selfRouter = table.selfRouter := by
  unfold applyOpList
  split <;> rfl

theorem pairs_isEmpty {row : HashMap Name Nat} (empty : row.pairs.isEmpty) (key : Name) :
    row.lookup key = none := by
  rw [List.isEmpty_iff] at empty
  cases found : row.lookup key with
  | none => rfl
  | some value =>
    have member := mem_pairs.mpr found
    rw [empty] at member
    cases member

theorem lookup_stored (remote : HashMap Name (HashMap Name Nat)) (target : Name)
    (row : HashMap Name Nat) (router prefixName : Name) :
    (((if row.pairs.isEmpty then remote.erase target else remote.insert target row).lookup
        router).getD ∅).lookup prefixName =
      if router = target then row.lookup prefixName
      else ((remote.lookup router).getD ∅).lookup prefixName := by
  by_cases empty : row.pairs.isEmpty
  · rw [if_pos empty, lookup_erase_eq]
    split
    · exact (pairs_isEmpty empty prefixName).symm
    · rfl
  · rw [if_neg empty, lookup_insert_eq]
    split <;> rfl

/-- An op list changes the row of its exit router only, unless that is the table's own router. -/
theorem announced_applyOpList (table : PrefixTable) (ops : PrefixOpList)
    (router prefixName : Name) :
    (table.applyOpList ops).1.announced router prefixName =
      if router = ops.exitRouter ∧ router ≠ table.selfRouter then
        (applyOps ops (table.row router)).1.lookup prefixName
      else table.announced router prefixName := by
  unfold applyOpList
  by_cases own : ops.exitRouter = table.selfRouter
  · rw [if_pos own, if_neg]
    intro both
    exact both.2 (both.1.trans own)
  · rw [if_neg own]
    by_cases self : router = table.selfRouter
    · rw [if_neg (fun both => both.2 self)]
      simp only [announced, self, if_true]
    · by_cases same : router = ops.exitRouter
      · subst same
        rw [if_pos ⟨rfl, self⟩]
        simp only [announced, if_neg own]
        exact (lookup_stored table.remote _ _ _ prefixName).trans (if_pos rfl)
      · rw [if_neg (fun both => same both.1)]
        simp only [announced, if_neg self]
        exact (lookup_stored table.remote _ _ _ prefixName).trans (if_neg same)

theorem foldl_applyAdd (router : Name) (adds : List PrefixOpAdd)
    (state : HashMap Name Nat × List PrefixChange) :
    (adds.foldl (applyAdd router) state).1 =
      (adds.map (fun add => (add.name, asU32 add.cost))).foldl
        (fun row item => row.insert item.1 item.2) state.1 := by
  induction adds generalizing state with
  | nil => rfl
  | cons add rest ih => exact ih _

/-- Applying a snapshot makes any row the sender's local table. -/
theorem lookup_applyOps_snap {table : PrefixTable}
    (small : ∀ prefixName cost, table.localPrefixes.lookup prefixName = some cost → cost < 2 ^ 32)
    (row : HashMap Name Nat) (prefixName : Name) :
    (applyOps table.snap row).1.lookup prefixName = table.localPrefixes.lookup prefixName := by
  have applied : (applyOps table.snap row).1 =
      HashMap.ofPairs (table.snap.adds.map (fun add => (add.name, asU32 add.cost))) := by
    simp only [applyOps, snap, if_true, List.foldl_nil]
    rw [foldl_applyAdd]
    rfl
  have perm : (table.snap.adds.map (fun add => (add.name, asU32 add.cost))).Perm
      table.localPrefixes.pairs := by
    have sorted := (List.perm_insertionSort (fun a b : PrefixOpAdd => a.name ≤ b.name)
      (table.localPrefixes.pairs.map (fun item => { name := item.1, cost := item.2 }))).map
        (fun add => (add.name, asU32 add.cost))
    rw [List.map_map] at sorted
    have same : table.localPrefixes.pairs.map ((fun add : PrefixOpAdd => (add.name, asU32 add.cost)) ∘
        (fun item => { name := item.1, cost := item.2 })) = table.localPrefixes.pairs := by
      conv_rhs => rw [← List.map_id table.localPrefixes.pairs]
      apply List.map_congr_left
      intro item member
      have bound := small item.1 item.2 (mem_pairs.mp member)
      simp only [Function.comp_apply, asU32_of_lt bound, id_eq]
    rw [same] at sorted
    exact sorted
  have distinct : ((table.snap.adds.map (fun add => (add.name, asU32 add.cost))).map
      Prod.fst).Nodup := by
    rw [(perm.map Prod.fst).nodup_iff]
    exact pairs_keys_nodup _
  apply Option.ext
  intro cost
  rw [applied, lookup_ofPairs distinct, perm.mem_iff, mem_pairs]

theorem selfRouter_announceLocal (table : PrefixTable) (prefixName : Name) (cost : Nat) :
    (table.announceLocal prefixName cost).1.selfRouter = table.selfRouter := by
  unfold announceLocal
  split <;> rfl

theorem selfRouter_withdrawLocal (table : PrefixTable) (prefixName : Name) :
    (table.withdrawLocal prefixName).1.selfRouter = table.selfRouter := by
  unfold withdrawLocal
  split <;> rfl

/-- Costs are machine integers. -/
def SmallCosts (table : PrefixTable) : Prop :=
  ∀ prefixName cost, table.localPrefixes.lookup prefixName = some cost → cost < 2 ^ 32

theorem SmallCosts.announceLocal {table : PrefixTable} (small : SmallCosts table)
    (prefixName : Name) {cost : Nat} (bound : cost < 2 ^ 32) :
    SmallCosts (table.announceLocal prefixName cost).1 := by
  unfold PrefixTable.announceLocal
  split
  · exact small
  · intro other value found
    simp only [lookup_insert_eq] at found
    split at found
    · cases found
      exact bound
    · exact small other value found

theorem SmallCosts.withdrawLocal {table : PrefixTable} (small : SmallCosts table)
    (prefixName : Name) : SmallCosts (table.withdrawLocal prefixName).1 := by
  unfold PrefixTable.withdrawLocal
  split
  · exact small
  · intro other value found
    simp only [lookup_erase_eq] at found
    split at found
    · cases found
    · exact small other value found

end PrefixTable
end NdnExt.Dv
