import NdnExt.Lib.HashMap
import NdnExt.Nlsr.Lsa

/-! The link state database: one LSA per origin router and LSA type. -/

namespace NdnExt.Nlsr

open NdnExt.Lib

/-- What a step reads of the time: `SystemTime` in milliseconds since the epoch and the
monotonic `Instant` in nanoseconds. -/
structure Clock where
  systemMs : Nat
  instant : Nat

/-- `Duration::from_millis`, in nanoseconds. -/
def fromMillis (ms : Nat) : Nat := ms * 1000000

structure LsaEntry where
  lsa : Lsa
  expiresAt : Nat
  lifetime : Nat
  deriving DecidableEq

inductive InstallResult where
  | newer
  | stale
  | duplicate
  | invalid
  deriving DecidableEq

inductive LsdbUpdate where
  | installed
  | updated
  | removed
  deriving DecidableEq

structure LsdbEvent where
  update : LsdbUpdate
  lsa : Lsa
  prefixesAdded : List Name
  prefixesRemoved : List Name

structure ExpiredLsa where
  key : LsaKey
  lsa : Lsa

/-- Every entry is stored under the key of its LSA. -/
structure Lsdb where
  store : HashMap LsaKey LsaEntry
  ownRouter : Name
  keyed : ∀ key entry, store.lookup key = some entry → entry.lsa.key = key

namespace Lsdb

def new (ownRouter : Name) : Lsdb := ⟨∅, ownRouter, by simp⟩

/-- `DashMap::insert` under the key of the LSA. -/
def insertEntry (lsdb : Lsdb) (entry : LsaEntry) : Lsdb where
  store := lsdb.store.insert entry.lsa.key entry
  ownRouter := lsdb.ownRouter
  keyed := by
    intro key found stored
    rw [HashMap.lookup_insert_eq] at stored
    by_cases same : key = entry.lsa.key
    · rw [if_pos same] at stored
      cases stored
      exact same.symm
    · rw [if_neg same] at stored
      exact lsdb.keyed key found stored

/-- `DashMap::remove`. -/
def eraseEntry (lsdb : Lsdb) (key : LsaKey) : Lsdb where
  store := lsdb.store.erase key
  ownRouter := lsdb.ownRouter
  keyed := by
    intro other found stored
    rw [HashMap.lookup_erase_eq] at stored
    by_cases same : other = key
    · rw [if_pos same] at stored
      cases stored
    · rw [if_neg same] at stored
      exact lsdb.keyed other found stored

def newEntry (clock : Clock) (lsa : Lsa) : LsaEntry :=
  let lifetime := fromMillis (lsa.expirationMs - clock.systemMs)
  { lsa := lsa, expiresAt := clock.instant + lifetime, lifetime := lifetime }

@[simp] theorem newEntry_lsa (clock : Clock) (lsa : Lsa) : (newEntry clock lsa).lsa = lsa := rfl

/-- Returns the events sent along with the result. -/
def install (lsdb : Lsdb) (clock : Clock) (lsa : Lsa) : Lsdb × List LsdbEvent × InstallResult :=
  if lsa.expirationMs ≤ clock.systemMs then (lsdb, [], .invalid)
  else
    match lsdb.store.lookup lsa.key with
    | none => (lsdb.insertEntry (newEntry clock lsa), [⟨.installed, lsa, [], []⟩], .newer)
    | some stored =>
      if lsa.seqNo > stored.lsa.seqNo then
        (lsdb.insertEntry (newEntry clock lsa), [⟨.updated, lsa, [], []⟩], .newer)
      else if lsa.seqNo = stored.lsa.seqNo then (lsdb, [], .duplicate)
      else (lsdb, [], .stale)

def lookup (lsdb : Lsdb) (originator : Name) (lsaType : LsaType) : Option Lsa :=
  (lsdb.store.lookup ⟨originator, lsaType⟩).map (·.lsa)

def remove (lsdb : Lsdb) (key : LsaKey) : Lsdb × List LsdbEvent × Bool :=
  match lsdb.store.lookup key with
  | some entry => (lsdb.eraseEntry key, [⟨.removed, entry.lsa, [], []⟩], true)
  | none => (lsdb, [], false)

def iterByType (lsdb : Lsdb) (lsaType : LsaType) : List Lsa :=
  (lsdb.store.pairs.filter (fun item => item.1.lsaType = lsaType)).map (fun item => item.2.lsa)

/-- One removal of `expire_due`. -/
def expireKey (state : Lsdb × List ExpiredLsa) (key : LsaKey) : Lsdb × List ExpiredLsa :=
  match state.1.store.lookup key with
  | some entry => (state.1.eraseEntry key, state.2 ++ [⟨key, entry.lsa⟩])
  | none => state

def expiredKeys (lsdb : Lsdb) (now : Nat) : List LsaKey :=
  (lsdb.store.pairs.filter (fun item => item.2.expiresAt ≤ now)).map Prod.fst

def expireDue (lsdb : Lsdb) (now : Nat) : Lsdb × List ExpiredLsa :=
  (lsdb.expiredKeys now).foldl expireKey (lsdb, [])

/-- One tick of the age-out task. -/
def ageOut (lsdb : Lsdb) (now : Nat) : Lsdb × List LsdbEvent :=
  let (lsdb, expired) := lsdb.expireDue now
  (lsdb, expired.map (fun e => ⟨.removed, e.lsa, [], []⟩))

def isLsaNew (lsdb : Lsdb) (originator : Name) (lsaType : LsaType) (seqNo : Nat) : Bool :=
  match lsdb.lookup originator lsaType with
  | some existing => seqNo > existing.seqNo
  | none => true

def ownNameLsa (lsdb : Lsdb) (clock : Clock) (prefixes : List Name) (seqNo lsaRefreshMs : Nat) :
    Lsa :=
  .name
    { originRouter := lsdb.ownRouter, seqNo := seqNo
      expirationMs := clock.systemMs + lsaRefreshMs
      prefixes := prefixes.map (fun n => { name := n, cost := 0 }) }

def ownAdjLsa (lsdb : Lsdb) (clock : Clock) (adjacencies : List Adjacent)
    (seqNo lsaRefreshMs : Nat) : Lsa :=
  .adjacency
    { originRouter := lsdb.ownRouter, seqNo := seqNo
      expirationMs := clock.systemMs + lsaRefreshMs
      adjacencies := adjacencies }

def buildOwnNameLsa (lsdb : Lsdb) (clock : Clock) (prefixes : List Name)
    (seqNo lsaRefreshMs : Nat) : Lsdb × List LsdbEvent × InstallResult :=
  lsdb.install clock (lsdb.ownNameLsa clock prefixes seqNo lsaRefreshMs)

def buildOwnAdjLsa (lsdb : Lsdb) (clock : Clock) (adjacencies : List Adjacent)
    (seqNo lsaRefreshMs : Nat) : Lsdb × List LsdbEvent × InstallResult :=
  lsdb.install clock (lsdb.ownAdjLsa clock adjacencies seqNo lsaRefreshMs)

theorem store_insertEntry (lsdb : Lsdb) (entry : LsaEntry) (key : LsaKey) :
    (lsdb.insertEntry entry).store.lookup key =
      if key = entry.lsa.key then some entry else lsdb.store.lookup key :=
  HashMap.lookup_insert_eq _ _ _ _

@[simp] theorem ownRouter_insertEntry (lsdb : Lsdb) (entry : LsaEntry) :
    (lsdb.insertEntry entry).ownRouter = lsdb.ownRouter := rfl

theorem store_eraseEntry (lsdb : Lsdb) (key other : LsaKey) :
    (lsdb.eraseEntry key).store.lookup other =
      if other = key then none else lsdb.store.lookup other :=
  HashMap.lookup_erase_eq _ _ _

/-- The LSA is alive on arrival and newer than what its slot holds. -/
def Accepts (lsdb : Lsdb) (clock : Clock) (lsa : Lsa) : Prop :=
  clock.systemMs < lsa.expirationMs ∧
    ∀ stored, lsdb.store.lookup lsa.key = some stored → stored.lsa.seqNo < lsa.seqNo

instance (lsdb : Lsdb) (clock : Clock) (lsa : Lsa) : Decidable (lsdb.Accepts clock lsa) :=
  decidable_of_iff (clock.systemMs < lsa.expirationMs ∧
      ∀ stored ∈ lsdb.store.lookup lsa.key, stored.lsa.seqNo < lsa.seqNo) Iff.rfl

theorem install_refused {lsdb : Lsdb} {clock : Clock} {lsa : Lsa}
    (refused : ¬ lsdb.Accepts clock lsa) :
    (lsdb.install clock lsa).1 = lsdb ∧ (lsdb.install clock lsa).2.1 = [] := by
  unfold install
  by_cases late : lsa.expirationMs ≤ clock.systemMs
  · simp [late]
  · rw [if_neg late]
    cases found : lsdb.store.lookup lsa.key with
    | none =>
      apply (refused ⟨by omega, ?_⟩).elim
      intro stored held
      rw [found] at held
      cases held
    | some stored =>
      by_cases newer : lsa.seqNo > stored.lsa.seqNo
      · apply (refused ⟨by omega, ?_⟩).elim
        intro other held
        rw [found] at held
        cases held
        exact newer
      · simp only [if_neg newer]
        split <;> exact ⟨rfl, rfl⟩

theorem install_accepted {lsdb : Lsdb} {clock : Clock} {lsa : Lsa}
    (accepted : lsdb.Accepts clock lsa) :
    lsdb.install clock lsa =
      (lsdb.insertEntry (newEntry clock lsa),
       [⟨if (lsdb.store.lookup lsa.key).isSome then .updated else .installed, lsa, [], []⟩],
       .newer) := by
  unfold install
  rw [if_neg (by have alive := accepted.1; omega)]
  cases found : lsdb.store.lookup lsa.key with
  | none => simp
  | some stored => simp [accepted.2 stored found]

theorem store_install (lsdb : Lsdb) (clock : Clock) (lsa : Lsa) (key : LsaKey) :
    (lsdb.install clock lsa).1.store.lookup key =
      if key = lsa.key ∧ lsdb.Accepts clock lsa then some (newEntry clock lsa)
      else lsdb.store.lookup key := by
  by_cases accepted : lsdb.Accepts clock lsa
  · rw [install_accepted accepted, store_insertEntry, newEntry_lsa]
    by_cases same : key = lsa.key
    · rw [if_pos same, if_pos ⟨same, accepted⟩]
    · rw [if_neg same, if_neg (fun both => same both.1)]
  · rw [(install_refused accepted).1]
    simp [accepted]

@[simp] theorem ownRouter_install (lsdb : Lsdb) (clock : Clock) (lsa : Lsa) :
    (lsdb.install clock lsa).1.ownRouter = lsdb.ownRouter := by
  by_cases accepted : lsdb.Accepts clock lsa
  · rw [install_accepted accepted]
    rfl
  · rw [(install_refused accepted).1]

theorem remove_found {lsdb : Lsdb} {key : LsaKey} {entry : LsaEntry}
    (found : lsdb.store.lookup key = some entry) :
    lsdb.remove key = (lsdb.eraseEntry key, [⟨.removed, entry.lsa, [], []⟩], true) := by
  unfold remove
  rw [found]

theorem remove_absent {lsdb : Lsdb} {key : LsaKey} (absent : lsdb.store.lookup key = none) :
    lsdb.remove key = (lsdb, [], false) := by
  unfold remove
  rw [absent]

theorem expireKey_found {state : Lsdb × List ExpiredLsa} {key : LsaKey} {entry : LsaEntry}
    (found : state.1.store.lookup key = some entry) :
    expireKey state key = (state.1.eraseEntry key, state.2 ++ [⟨key, entry.lsa⟩]) := by
  unfold expireKey
  rw [found]

theorem expireKey_absent {state : Lsdb × List ExpiredLsa} {key : LsaKey}
    (absent : state.1.store.lookup key = none) : expireKey state key = state := by
  unfold expireKey
  rw [absent]

theorem store_expireKey (state : Lsdb × List ExpiredLsa) (key other : LsaKey) :
    (expireKey state key).1.store.lookup other =
      if other = key then none else state.1.store.lookup other := by
  cases found : state.1.store.lookup key with
  | none =>
    rw [expireKey_absent found]
    split
    · rename_i same
      rw [same, found]
    · rfl
  | some entry =>
    rw [expireKey_found found]
    exact store_eraseEntry _ _ _

theorem store_expireKeys (keys : List LsaKey) (state : Lsdb × List ExpiredLsa) (key : LsaKey) :
    (keys.foldl expireKey state).1.store.lookup key =
      if key ∈ keys then none else state.1.store.lookup key := by
  induction keys generalizing state with
  | nil => simp
  | cons head tail ih =>
    rw [List.foldl_cons, ih, store_expireKey]
    by_cases later : key ∈ tail
    · simp [later]
    · simp [later]

theorem mem_expiredKeys {lsdb : Lsdb} {now : Nat} {key : LsaKey} :
    key ∈ lsdb.expiredKeys now ↔
      ∃ entry, lsdb.store.lookup key = some entry ∧ entry.expiresAt ≤ now := by
  simp only [expiredKeys, List.mem_map, List.mem_filter, decide_eq_true_eq]
  constructor
  · rintro ⟨⟨stored, entry⟩, ⟨member, due⟩, rfl⟩
    exact ⟨entry, HashMap.mem_pairs.mp member, due⟩
  · intro ⟨entry, found, due⟩
    exact ⟨(key, entry), ⟨HashMap.mem_pairs.mpr found, due⟩, rfl⟩

/-- Expiry drops the due entries and keeps every other one. -/
theorem store_expireDue (lsdb : Lsdb) (now : Nat) (key : LsaKey) :
    (lsdb.expireDue now).1.store.lookup key =
      (lsdb.store.lookup key).filter (fun entry => now < entry.expiresAt) := by
  unfold expireDue
  rw [store_expireKeys]
  cases found : lsdb.store.lookup key with
  | none =>
    simp
  | some entry =>
    simp only [mem_expiredKeys, found, Option.some.injEq, exists_eq_left', Option.filter_some]
    by_cases due : entry.expiresAt ≤ now
    · simp [due, not_lt.mpr due]
    · simp [due, not_le.mp due]

theorem ownRouter_expireKeys (keys : List LsaKey) (state : Lsdb × List ExpiredLsa) :
    (keys.foldl expireKey state).1.ownRouter = state.1.ownRouter := by
  induction keys generalizing state with
  | nil => rfl
  | cons head tail ih =>
    rw [List.foldl_cons, ih]
    unfold expireKey
    split <;> rfl

@[simp] theorem ownRouter_ageOut (lsdb : Lsdb) (now : Nat) :
    (lsdb.ageOut now).1.ownRouter = lsdb.ownRouter := ownRouter_expireKeys _ _

theorem lookup_eq_name {lsdb : Lsdb} {router : Name} {lsa : Lsa}
    (found : lsdb.lookup router .name = some lsa) :
    ∃ nameLsa : NameLsa, lsa = .name nameLsa ∧ nameLsa.originRouter = router := by
  rcases Option.map_eq_some_iff.mp found with ⟨entry, stored, same⟩
  have keyed := lsdb.keyed _ entry stored
  rw [same] at keyed
  exact Lsa.eq_name_of_key keyed

end Lsdb
end NdnExt.Nlsr
