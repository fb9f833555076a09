import NdnExt.Lib.Run
import NdnExt.Nlsr.RoutingTable

/-! The name prefix table and how it follows the events of the LSDB. -/

namespace NdnExt.Nlsr

open NdnExt.Lib

/-- An entry without destination routers is removed from the table. -/
structure NptEntry where
  destRouters : HashMap Name Unit
  listed : destRouters.keys ≠ []

structure NamePrefixTable where
  entries : HashMap Name NptEntry
  routerPool : HashMap Name RoutingTableEntry

namespace NptEntry

def single (router : Name) : NptEntry := ⟨AList.singleton router (), by simp⟩

def add (entry : NptEntry) (router : Name) : NptEntry :=
  ⟨entry.destRouters.insert router (), by simp⟩

/-- What is left of the entry without the router, if anything. -/
def without (entry : NptEntry) (router : Name) : Option NptEntry :=
  if listed : (entry.destRouters.erase router).keys = [] then none
  else some ⟨entry.destRouters.erase router, listed⟩

theorem mem_single {destRouter router : Name} :
    router ∈ (single destRouter).destRouters ↔ router = destRouter := by
  rw [AList.mem_keys]
  simp [single]

theorem mem_add {entry : NptEntry} {destRouter router : Name} :
    router ∈ (entry.add destRouter).destRouters ↔
      router = destRouter ∨ router ∈ entry.destRouters :=
  AList.mem_insert _

theorem mem_without {entry : NptEntry} {destRouter router : Name} :
    (∃ rest, entry.without destRouter = some rest ∧ router ∈ rest.destRouters) ↔
      router ∈ entry.destRouters ∧ router ≠ destRouter := by
  unfold without
  rw [and_comm, ← AList.mem_erase]
  by_cases listed : (entry.destRouters.erase destRouter).keys = []
  · rw [dif_pos listed, AList.mem_keys, listed]
    simp
  · rw [dif_neg listed]
    simp

end NptEntry

namespace NamePrefixTable

def new : NamePrefixTable := ⟨∅, ∅⟩

/-- The entry of the prefix, where `none` removes it. -/
def putEntry (npt : NamePrefixTable) (prefixName : Name) (entry : Option NptEntry) :
    NamePrefixTable :=
  match entry with
  | some entry => { npt with entries := npt.entries.insert prefixName entry }
  | none => { npt with entries := npt.entries.erase prefixName }

def addPrefix (npt : NamePrefixTable) (prefixName destRouter : Name) : NamePrefixTable :=
  match npt.entries.lookup prefixName with
  | some entry => npt.putEntry prefixName (some (entry.add destRouter))
  | none => npt.putEntry prefixName (some (.single destRouter))

def removePrefix (npt : NamePrefixTable) (prefixName destRouter : Name) : NamePrefixTable :=
  match npt.entries.lookup prefixName with
  | some entry => npt.putEntry prefixName (entry.without destRouter)
  | none => npt

def addToPool (npt : NamePrefixTable) (router : Name) : NamePrefixTable :=
  match npt.routerPool.lookup router with
  | some _ => npt
  | none =>
    { npt with
      routerPool := npt.routerPool.insert router { destRouter := router, nexthops := [] } }

def addAll (npt : NamePrefixTable) (router : Name) (prefixes : List Name) : NamePrefixTable :=
  prefixes.foldl (fun npt prefixName => npt.addPrefix prefixName router) npt

def removeAll (npt : NamePrefixTable) (router : Name) (prefixes : List Name) : NamePrefixTable :=
  prefixes.foldl (fun npt prefixName => npt.removePrefix prefixName router) npt

def updateFromLsdb (ownRouter : Name) (npt : NamePrefixTable) (event : LsdbEvent) :
    NamePrefixTable :=
  match event.lsa with
  | .name nameLsa =>
    if nameLsa.originRouter = ownRouter then npt
    else
      let router := nameLsa.originRouter
      match event.update with
      | .installed =>
        ((npt.addPrefix router router).addAll router (nameLsa.prefixes.map (·.name))).addToPool
          router
      | .updated =>
        (npt.addAll router event.prefixesAdded).removeAll router event.prefixesRemoved
      | .removed =>
        let npt := (npt.removePrefix router router).removeAll router
          (nameLsa.prefixes.map (·.name))
        { npt with routerPool := npt.routerPool.erase router }
  | _ => npt

def updateWithNewRoute (npt : NamePrefixTable) (snapshot : RoutingSnapshot) : NamePrefixTable :=
  { npt with
    routerPool := npt.routerPool.mapValues (fun router poolEntry =>
      { poolEntry with nexthops := ((snapshot.get router).map (·.nexthops)).getD [] }) }

def destRoutersOf (npt : NamePrefixTable) (prefixName : Name) : HashMap Name Unit :=
  ((npt.entries.lookup prefixName).map (·.destRouters)).getD ∅

def nexthopsForPrefix (npt : NamePrefixTable) (prefixName : Name) : List NextHop :=
  (npt.destRoutersOf prefixName).keys.flatMap (fun router =>
    ((npt.routerPool.lookup router).map (·.nexthops)).getD [])

/-- The router is a destination router of the prefix. -/
def IsDest (npt : NamePrefixTable) (prefixName router : Name) : Prop :=
  router ∈ npt.destRoutersOf prefixName

instance (npt : NamePrefixTable) (prefixName router : Name) :
    Decidable (npt.IsDest prefixName router) :=
  inferInstanceAs (Decidable (router ∈ npt.destRoutersOf prefixName))

theorem isDest_iff {npt : NamePrefixTable} {prefixName router : Name} :
    npt.IsDest prefixName router ↔
      ∃ entry, npt.entries.lookup prefixName = some entry ∧ router ∈ entry.destRouters := by
  unfold IsDest destRoutersOf
  cases npt.entries.lookup prefixName with
  | none => simp
  | some entry => simp

section

variable (npt : NamePrefixTable)
include npt

theorem lookup_putEntry (prefixName other : Name)
    (entry : Option NptEntry) :
    (npt.putEntry prefixName entry).entries.lookup other =
      if other = prefixName then entry else npt.entries.lookup other := by
  cases entry with
  | none => exact HashMap.lookup_erase_eq _ _ _
  | some entry => exact HashMap.lookup_insert_eq _ _ _ _

theorem isDest_putEntry (prefixName other router : Name)
    (entry : Option NptEntry) :
    (npt.putEntry prefixName entry).IsDest other router ↔
      if other = prefixName then ∃ rest, entry = some rest ∧ router ∈ rest.destRouters
      else npt.IsDest other router := by
  simp only [isDest_iff, lookup_putEntry]
  split <;> rfl

theorem isDest_addPrefix (prefixName destRouter other router : Name) :
    (npt.addPrefix prefixName destRouter).IsDest other router ↔
      npt.IsDest other router ∨ other = prefixName ∧ router = destRouter := by
  unfold addPrefix
  cases found : npt.entries.lookup prefixName with
  | none =>
    simp only [isDest_putEntry]
    by_cases same : other = prefixName
    · simp [same, isDest_iff, found, NptEntry.mem_single]
    · simp [same]
  | some entry =>
    simp only [isDest_putEntry]
    by_cases same : other = prefixName
    · simp [same, isDest_iff, found, NptEntry.mem_add, or_comm]
    · simp [same]

theorem isDest_removePrefix (prefixName destRouter other router : Name) :
    (npt.removePrefix prefixName destRouter).IsDest other router ↔
      npt.IsDest other router ∧ ¬ (other = prefixName ∧ router = destRouter) := by
  unfold removePrefix
  cases found : npt.entries.lookup prefixName with
  | none =>
    by_cases same : other = prefixName
    · simp [same, isDest_iff, found]
    · simp [same]
  | some entry =>
    simp only [isDest_putEntry]
    by_cases same : other = prefixName
    · simp [same, isDest_iff, found, NptEntry.mem_without]
    · simp [same]

theorem isDest_addAll (destRouter : Name) (prefixes : List Name)
    (prefixName router : Name) :
    (npt.addAll destRouter prefixes).IsDest prefixName router ↔
      npt.IsDest prefixName router ∨ prefixName ∈ prefixes ∧ router = destRouter := by
  unfold addAll
  induction prefixes generalizing npt with
  | nil => simp
  | cons head tail ih =>
    rw [List.foldl_cons, ih, isDest_addPrefix, List.mem_cons, or_and_right, or_assoc]

theorem isDest_removeAll (destRouter : Name) (prefixes : List Name)
    (prefixName router : Name) :
    (npt.removeAll destRouter prefixes).IsDest prefixName router ↔
      npt.IsDest prefixName router ∧ ¬ (prefixName ∈ prefixes ∧ router = destRouter) := by
  unfold removeAll
  induction prefixes generalizing npt with
  | nil => simp
  | cons head tail ih =>
    rw [List.foldl_cons, ih, isDest_removePrefix, List.mem_cons, or_and_right, not_or, and_assoc]

@[simp] theorem routerPool_putEntry (prefixName : Name)
    (entry : Option NptEntry) : (npt.putEntry prefixName entry).routerPool = npt.routerPool := by
  cases entry <;> rfl

@[simp] theorem routerPool_addPrefix (prefixName destRouter : Name) :
    (npt.addPrefix prefixName destRouter).routerPool = npt.routerPool := by
  unfold addPrefix
  split <;> exact routerPool_putEntry _ _ _

@[simp] theorem routerPool_removePrefix (prefixName destRouter : Name) :
    (npt.removePrefix prefixName destRouter).routerPool = npt.routerPool := by
  unfold removePrefix
  split
  · exact routerPool_putEntry _ _ _
  · rfl

@[simp] theorem routerPool_addAll (destRouter : Name)
    (prefixes : List Name) : (npt.addAll destRouter prefixes).routerPool = npt.routerPool := by
  unfold addAll
  induction prefixes generalizing npt with
  | nil => rfl
  | cons head tail ih => rw [List.foldl_cons, ih, routerPool_addPrefix]

@[simp] theorem routerPool_removeAll (destRouter : Name)
    (prefixes : List Name) : (npt.removeAll destRouter prefixes).routerPool = npt.routerPool := by
  unfold removeAll
  induction prefixes generalizing npt with
  | nil => rfl
  | cons head tail ih => rw [List.foldl_cons, ih, routerPool_removePrefix]

theorem isDest_addToPool (newRouter prefixName router : Name) :
    (npt.addToPool newRouter).IsDest prefixName router ↔ npt.IsDest prefixName router := by
  unfold addToPool
  split <;> rfl

theorem mem_addToPool (newRouter router : Name) :
    router ∈ (npt.addToPool newRouter).routerPool ↔
      router ∈ npt.routerPool ∨ router = newRouter := by
  unfold addToPool
  cases found : npt.routerPool.lookup newRouter with
  | none =>
    rw [AList.mem_insert]
    exact or_comm
  | some entry =>
    simp only [iff_self_or]
    rintro rfl
    exact HashMap.mem_iff_lookup.mpr ⟨entry, found⟩

end

end NamePrefixTable
end NdnExt.Nlsr
