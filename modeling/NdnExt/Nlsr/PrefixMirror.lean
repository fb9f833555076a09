import NdnExt.Nlsr.NamePrefixTable

/-! What the name prefix table holds when every event of the LSDB reaches it in order. -/

namespace NdnExt.Nlsr

open NdnExt.Lib NamePrefixTable Lsdb Lsa

structure Tables where
  lsdb : Lsdb
  npt : NamePrefixTable

inductive TablesOp where
  | install (clock : Clock) (lsa : Lsa)
  | remove (key : LsaKey)
  | ageOut (now : Nat)
  | newRoute (snapshot : RoutingSnapshot)

def NameLsa.prefixNames (lsa : NameLsa) : List Name := lsa.prefixes.map (·.name)

namespace Tables

def new (ownRouter : Name) : Tables := ⟨Lsdb.new ownRouter, NamePrefixTable.new⟩

/-- The LSDB after an operation, and the table after the events it sent. -/
def deliver (tables : Tables) (lsdb : Lsdb) (events : List LsdbEvent) : Tables where
  lsdb := lsdb
  npt := events.foldl (NamePrefixTable.updateFromLsdb tables.lsdb.ownRouter) tables.npt

def step (tables : Tables) : TablesOp → Tables
  | .install clock lsa =>
    tables.deliver (tables.lsdb.install clock lsa).1 (tables.lsdb.install clock lsa).2.1
  | .remove key => tables.deliver (tables.lsdb.remove key).1 (tables.lsdb.remove key).2.1
  | .ageOut now => tables.deliver (tables.lsdb.ageOut now).1 (tables.lsdb.ageOut now).2
  | .newRoute snapshot => { tables with npt := tables.npt.updateWithNewRoute snapshot }

/-- A remote router is a destination of its own name and of what its NameLSA lists, and it is
in the pool while it has a NameLSA. -/
structure Mirrors (tables : Tables) : Prop where
  dests : ∀ prefixName router, tables.npt.IsDest prefixName router ↔
    router ≠ tables.lsdb.ownRouter ∧ ∃ lsa, tables.lsdb.lookup router .name = some (.name lsa) ∧
      (prefixName = router ∨ prefixName ∈ lsa.prefixNames)
  pool : ∀ router, router ∈ tables.npt.routerPool ↔
    router ≠ tables.lsdb.ownRouter ∧ ∃ lsa, tables.lsdb.lookup router .name = some (.name lsa)

/-- A NameLSA that replaces one of a remote router lists the same prefixes, apart from the
router's own name. -/
def KeepsListing (tables : Tables) : TablesOp → Prop
  | .install clock (.name lsa) =>
    lsa.originRouter ≠ tables.lsdb.ownRouter → tables.lsdb.Accepts clock (.name lsa) →
      ∀ old, tables.lsdb.lookup lsa.originRouter .name = some (.name old) →
        ∀ prefixName, prefixName ≠ lsa.originRouter →
          (prefixName ∈ lsa.prefixNames ↔ prefixName ∈ old.prefixNames)
  | _ => True

end Tables

namespace Lsdb

theorem lookup_insertEntry (lsdb : Lsdb) (entry : LsaEntry) (router : Name) (lsaType : LsaType) :
    (lsdb.insertEntry entry).lookup router lsaType =
      if ⟨router, lsaType⟩ = entry.lsa.key then some entry.lsa else lsdb.lookup router lsaType := by
  unfold lookup
  rw [store_insertEntry]
  split <;> rfl

theorem lookup_eraseEntry (lsdb : Lsdb) (key : LsaKey) (router : Name) (lsaType : LsaType) :
    (lsdb.eraseEntry key).lookup router lsaType =
      if ⟨router, lsaType⟩ = key then none else lsdb.lookup router lsaType := by
  unfold lookup
  rw [store_eraseEntry]
  split <;> rfl

end Lsdb

namespace NamePrefixTable

/-- Only NameLSAs of remote routers change the table. -/
theorem update_irrelevant {ownRouter : Name} {npt : NamePrefixTable} {event : LsdbEvent}
    (irrelevant : ¬ (event.lsa.lsaType = .name ∧ event.lsa.originRouter ≠ ownRouter)) :
    updateFromLsdb ownRouter npt event = npt := by
  unfold updateFromLsdb
  cases same : event.lsa with
  | adjacency lsa => rfl
  | coordinate lsa => rfl
  | name lsa =>
    apply if_pos
    by_contra remote
    rw [same] at irrelevant
    exact irrelevant ⟨rfl, remote⟩

variable {ownRouter : Name} {lsa : NameLsa} (remote : lsa.originRouter ≠ ownRouter)
include remote

theorem isDest_installed (npt : NamePrefixTable) (prefixName router : Name) :
    (updateFromLsdb ownRouter npt ⟨.installed, .name lsa, [], []⟩).IsDest prefixName router ↔
      npt.IsDest prefixName router ∨ router = lsa.originRouter ∧
        (prefixName = router ∨ prefixName ∈ lsa.prefixNames) := by
  simp only [updateFromLsdb, if_neg remote]
  rw [isDest_addToPool, isDest_addAll, isDest_addPrefix]
  unfold NameLsa.prefixNames
  by_cases same : router = lsa.originRouter
  · simp [same, or_assoc]
  · simp [same]

theorem isDest_removed (npt : NamePrefixTable) (prefixName router : Name) :
    (updateFromLsdb ownRouter npt ⟨.removed, .name lsa, [], []⟩).IsDest prefixName router ↔
      npt.IsDest prefixName router ∧ ¬ (router = lsa.originRouter ∧
        (prefixName = router ∨ prefixName ∈ lsa.prefixNames)) := by
  simp only [updateFromLsdb, if_neg remote]
  refine Iff.trans (isDest_removeAll _ _ _ prefixName router) ?_
  rw [isDest_removePrefix]
  unfold NameLsa.prefixNames
  by_cases same : router = lsa.originRouter
  · simp [same, and_assoc]
  · simp [same]

theorem pool_installed (npt : NamePrefixTable) (router : Name) :
    router ∈ (updateFromLsdb ownRouter npt ⟨.installed, .name lsa, [], []⟩).routerPool ↔
      router ∈ npt.routerPool ∨ router = lsa.originRouter := by
  simp only [updateFromLsdb, if_neg remote]
  rw [mem_addToPool, routerPool_addAll, routerPool_addPrefix]

theorem pool_removed (npt : NamePrefixTable) (router : Name) :
    router ∈ (updateFromLsdb ownRouter npt ⟨.removed, .name lsa, [], []⟩).routerPool ↔
      router ∈ npt.routerPool ∧ router ≠ lsa.originRouter := by
  simp only [updateFromLsdb, if_neg remote]
  rw [AList.mem_erase, routerPool_removeAll, routerPool_removePrefix]
  exact and_comm

end NamePrefixTable

namespace Lsa

theorem eq_name_of_relevant {lsa : Lsa} (relevant : lsa.lsaType = .name) :
    ∃ nameLsa, lsa = .name nameLsa := by
  cases lsa with
  | adjacency lsa => cases relevant
  | coordinate lsa => cases relevant
  | name lsa => exact ⟨lsa, rfl⟩

end Lsa

namespace Tables

variable {tables : Tables}

theorem Mirrors.frame {next : Tables} (mirrors : tables.Mirrors)
    (sameNpt : next.npt = tables.npt) (sameOwn : next.lsdb.ownRouter = tables.lsdb.ownRouter)
    (sameLsas : ∀ router, router ≠ tables.lsdb.ownRouter →
      next.lsdb.lookup router .name = tables.lsdb.lookup router .name) : next.Mirrors := by
  constructor
  · intro prefixName router
    rw [sameNpt, sameOwn, mirrors.dests]
    apply and_congr_right
    intro remote
    rw [sameLsas router remote]
  · intro router
    rw [sameNpt, sameOwn, mirrors.pool]
    apply and_congr_right
    intro remote
    rw [sameLsas router remote]

theorem irrelevant_key {ownRouter router : Name} {lsa : Lsa} (remote : router ≠ ownRouter)
    (irrelevant : ¬ (lsa.lsaType = .name ∧ lsa.originRouter ≠ ownRouter)) :
    (⟨router, .name⟩ : LsaKey) ≠ lsa.key := by
  intro same
  apply irrelevant
  have parts := LsaKey.mk.inj same
  rw [← parts.1, ← parts.2]
  exact ⟨rfl, remote⟩

/-- Removal of an entry, with its event. -/
theorem Mirrors.erase (mirrors : tables.Mirrors) {key : LsaKey}
    {entry : LsaEntry} (found : tables.lsdb.store.lookup key = some entry) :
    (tables.deliver (tables.lsdb.eraseEntry key) [⟨.removed, entry.lsa, [], []⟩]).Mirrors := by
  have keyed := tables.lsdb.keyed key entry found
  by_cases relevant : entry.lsa.lsaType = .name ∧ entry.lsa.originRouter ≠ tables.lsdb.ownRouter
  · rcases eq_name_of_relevant relevant.1 with ⟨lsa, isName⟩
    rw [isName] at keyed relevant ⊢
    have remote : lsa.originRouter ≠ tables.lsdb.ownRouter := relevant.2
    have held : tables.lsdb.lookup lsa.originRouter .name = some (.name lsa) := by
      rw [← isName]
      subst keyed
      exact congrArg (Option.map (·.lsa)) found
    have left : ∀ router other, (tables.lsdb.eraseEntry key).lookup router .name = some other ↔
        tables.lsdb.lookup router .name = some other ∧ router ≠ lsa.originRouter := by
      intro router other
      subst keyed
      rw [lookup_eraseEntry]
      by_cases same : router = lsa.originRouter
      · simp [same, key, originRouter, lsaType]
      · simp [same, key, originRouter, lsaType]
    constructor
    · intro prefixName router
      apply (isDest_removed remote tables.npt prefixName router).trans
      rw [mirrors.dests]
      constructor
      · intro ⟨⟨other, old, stored, listed⟩, kept⟩
        refine ⟨other, old, (left router _).mpr ⟨stored, ?_⟩, listed⟩
        rintro rfl
        rw [held] at stored
        cases stored
        exact kept ⟨rfl, listed⟩
      · intro ⟨other, old, stored, listed⟩
        have before := (left router _).mp stored
        exact ⟨⟨other, old, before.1, listed⟩, fun both => before.2 both.1⟩
    · intro router
      apply (pool_removed remote tables.npt router).trans
      rw [mirrors.pool]
      constructor
      · intro ⟨⟨other, old, stored⟩, kept⟩
        exact ⟨other, old, (left router _).mpr ⟨stored, kept⟩⟩
      · intro ⟨other, old, stored⟩
        have before := (left router _).mp stored
        exact ⟨⟨other, old, before.1⟩, before.2⟩
  · apply mirrors.frame
    · exact update_irrelevant relevant
    · rfl
    · intro router remote
      refine (lookup_eraseEntry tables.lsdb key router .name).trans (if_neg ?_)
      rw [← keyed]
      exact irrelevant_key remote relevant

theorem Mirrors.remove (mirrors : tables.Mirrors) (key : LsaKey) :
    (tables.step (.remove key)).Mirrors := by
  simp only [step]
  cases found : tables.lsdb.store.lookup key with
  | none =>
    rw [remove_absent found]
    exact mirrors
  | some entry =>
    rw [remove_found found]
    exact mirrors.erase found

/-- The table keeps up with every removal of `expire_due`. -/
theorem Mirrors.ageOut (mirrors : tables.Mirrors) (now : Nat) :
    (tables.step (.ageOut now)).Mirrors := by
  let expiredEvent := fun expired : ExpiredLsa => (⟨.removed, expired.lsa, [], []⟩ : LsdbEvent)
  have expired : ∀ (keys : List LsaKey) (state : Lsdb × List ExpiredLsa),
      state.1.ownRouter = tables.lsdb.ownRouter →
      (tables.deliver state.1 (state.2.map expiredEvent)).Mirrors →
      (tables.deliver (keys.foldl expireKey state).1
        ((keys.foldl expireKey state).2.map expiredEvent)).Mirrors := by
    intro keys
    induction keys with
    | nil => exact fun state own before => before
    | cons head tail ih =>
      intro state own before
      rw [List.foldl_cons]
      cases found : state.1.store.lookup head with
      | none =>
        rw [expireKey_absent found]
        exact ih state own before
      | some entry =>
        rw [expireKey_found found]
        refine ih (state.1.eraseEntry head, state.2 ++ [⟨head, entry.lsa⟩]) own ?_
        have after := before.erase found
        simp only [deliver, own] at after
        simp only [deliver, List.map_append, List.foldl_append]
        exact after
  exact expired (tables.lsdb.expiredKeys now) (tables.lsdb, []) rfl mirrors

theorem Mirrors.newRoute (mirrors : tables.Mirrors)
    (snapshot : RoutingSnapshot) : (tables.step (.newRoute snapshot)).Mirrors := by
  constructor
  · exact mirrors.dests
  · intro router
    refine Iff.trans ?_ (mirrors.pool router)
    simp only [HashMap.mem_iff_lookup, step, updateWithNewRoute,
      HashMap.lookup_mapValues, Option.map_eq_some_iff]
    constructor
    · rintro ⟨_, entry, found, -⟩
      exact ⟨entry, found⟩
    · intro ⟨entry, found⟩
      exact ⟨_, entry, found, rfl⟩

section Install

variable {tables : Tables} (mirrors : tables.Mirrors) {lsa : NameLsa}
  (remote : lsa.originRouter ≠ tables.lsdb.ownRouter) (clock : Clock)
include mirrors remote

omit mirrors remote in
theorem lookup_installed (router : Name) :
    (tables.lsdb.insertEntry (newEntry clock (.name lsa))).lookup router .name =
      if router = lsa.originRouter then some (.name lsa)
      else tables.lsdb.lookup router .name := by
  rw [lookup_insertEntry]
  by_cases same : router = lsa.originRouter
  · simp [same, key, originRouter, lsaType]
  · simp [same, key, originRouter, lsaType]

theorem Mirrors.install_vacant (vacant : tables.lsdb.lookup lsa.originRouter .name = none) :
    (tables.deliver (tables.lsdb.insertEntry (newEntry clock (.name lsa)))
      [⟨.installed, .name lsa, [], []⟩]).Mirrors := by
  constructor
  · intro prefixName router
    apply (isDest_installed remote tables.npt prefixName router).trans
    rw [mirrors.dests]
    simp only [deliver, lookup_installed]
    by_cases same : router = lsa.originRouter
    · subst same
      simp [vacant, remote]
    · simp [same]
  · intro router
    apply (pool_installed remote tables.npt router).trans
    rw [mirrors.pool]
    simp only [deliver, lookup_installed]
    by_cases same : router = lsa.originRouter
    · subst same
      simp [vacant, remote]
    · simp [same]

/-- The event of a replacement carries no added and no removed prefixes. -/
theorem Mirrors.replace_iff {old : NameLsa}
    (held : tables.lsdb.lookup lsa.originRouter .name = some (.name old)) :
    (tables.deliver (tables.lsdb.insertEntry (newEntry clock (.name lsa)))
      [⟨.updated, .name lsa, [], []⟩]).Mirrors ↔
      ∀ prefixName, prefixName ≠ lsa.originRouter →
        (prefixName ∈ lsa.prefixNames ↔ prefixName ∈ old.prefixNames) := by
  have unchanged : (tables.deliver (tables.lsdb.insertEntry (newEntry clock (.name lsa)))
      [⟨.updated, .name lsa, [], []⟩]).npt = tables.npt :=
    if_neg remote
  constructor
  · intro after prefixName other
    have now := after.dests prefixName lsa.originRouter
    rw [unchanged, mirrors.dests] at now
    simpa [deliver, lookup_installed, held, remote, other] using now.symm
  · intro sameListing
    constructor
    · intro prefixName router
      rw [unchanged, mirrors.dests]
      simp only [deliver, lookup_installed]
      by_cases same : router = lsa.originRouter
      · subst same
        by_cases own : prefixName = lsa.originRouter
        · simp [held, remote, own]
        · simp [held, remote, own, sameListing prefixName own]
      · simp [same]
    · intro router
      rw [unchanged, mirrors.pool]
      simp only [deliver, lookup_installed]
      by_cases same : router = lsa.originRouter
      · subst same
        simp [held, remote]
      · simp [same]

end Install

theorem Mirrors.install_iff (mirrors : tables.Mirrors) (clock : Clock)
    (lsa : Lsa) : (tables.step (.install clock lsa)).Mirrors ↔
      tables.KeepsListing (.install clock lsa) := by
  simp only [step]
  by_cases accepted : tables.lsdb.Accepts clock lsa
  · rw [install_accepted accepted]
    by_cases relevant : lsa.lsaType = .name ∧ lsa.originRouter ≠ tables.lsdb.ownRouter
    · rcases eq_name_of_relevant relevant.1 with ⟨lsa, rfl⟩
      cases held : tables.lsdb.lookup lsa.originRouter .name with
      | none =>
        have vacant : tables.lsdb.store.lookup (name lsa).key = none :=
          Option.map_eq_none_iff.mp held
        rw [vacant]
        apply iff_of_true (mirrors.install_vacant relevant.2 clock held)
        intro remote accepts old stored
        rw [held] at stored
        cases stored
      | some stored =>
        rcases lookup_eq_name held with ⟨old, rfl, -⟩
        have occupied : (tables.lsdb.store.lookup (name lsa).key).isSome := by
          rcases Option.map_eq_some_iff.mp held with ⟨entry, found, -⟩
          exact Option.isSome_iff_exists.mpr ⟨entry, found⟩
        rw [if_pos occupied]
        apply (mirrors.replace_iff relevant.2 clock held).trans
        constructor
        · intro sameListing remote accepts other found
          rw [held] at found
          cases found
          exact sameListing
        · intro keeps
          exact keeps relevant.2 accepted old held
    · apply iff_of_true
      · apply mirrors.frame
        · exact update_irrelevant relevant
        · rfl
        · intro router remote
          apply (lookup_insertEntry tables.lsdb (newEntry clock lsa) router .name).trans
          exact if_neg (irrelevant_key remote relevant)
      · cases lsa with
        | adjacency lsa => trivial
        | coordinate lsa => trivial
        | name lsa =>
          intro remote
          exact (relevant ⟨rfl, remote⟩).elim
  · rw [(install_refused accepted).1, (install_refused accepted).2]
    apply iff_of_true mirrors
    cases lsa with
    | adjacency lsa => trivial
    | coordinate lsa => trivial
    | name lsa =>
      intro remote accepts
      exact (accepted accepts).elim

theorem mirrors_new (ownRouter : Name) : (new ownRouter).Mirrors := by
  constructor
  · intro prefixName router
    simp [new, NamePrefixTable.new, NamePrefixTable.isDest_iff, Lsdb.new, Lsdb.lookup]
  · intro router
    simp [new, NamePrefixTable.new, Lsdb.new, Lsdb.lookup]

theorem Mirrors.step_iff (mirrors : tables.Mirrors) (op : TablesOp) :
    (tables.step op).Mirrors ↔ tables.KeepsListing op := by
  cases op with
  | install clock lsa => exact mirrors.install_iff clock lsa
  | remove key => exact iff_of_true (mirrors.remove key) trivial
  | ageOut now => exact iff_of_true (mirrors.ageOut now) trivial
  | newRoute snapshot => exact iff_of_true (mirrors.newRoute snapshot) trivial

/-- The table mirrors the LSDB after every operation of a run exactly when no operation replaces
the NameLSA of a remote router by one with another listing. -/
theorem table_mirrors_iff (ownRouter : Name) (ops : List TablesOp) :
    Run.Throughout step (new ownRouter) ops (fun tables op => (tables.step op).Mirrors) ↔
      Run.Throughout step (new ownRouter) ops KeepsListing :=
  Run.throughout_iff Mirrors (fun _ op mirrors => mirrors.step_iff op)
    (fun _ _ _ after => after) (mirrors_new ownRouter) ops

/-- Router 2 replaces prefix 3 by prefix 4 in its second NameLSA. -/
def changedListing : List TablesOp :=
  let router := Name.single 2
  [.install ⟨0, 0⟩ (.name ⟨router, 1, 1000, [⟨Name.single 3, 0⟩]⟩),
   .install ⟨0, 0⟩ (.name ⟨router, 2, 1000, [⟨Name.single 4, 0⟩]⟩)]

theorem changed_listing_not_mirrored :
    ¬ (changedListing.foldl step (new (Name.single 1))).Mirrors := by
  intro mirrors
  have listed := (mirrors.dests (Name.single 4) (Name.single 2)).mpr
    ⟨by decide, ⟨Name.single 2, 2, 1000, [⟨Name.single 4, 0⟩]⟩, by decide, by decide⟩
  revert listed
  decide

end Tables
end NdnExt.Nlsr
