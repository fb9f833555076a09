import NdnExt.Lib.Run
import NdnExt.Nlsr.Lsdb

/-! The lifetime of a router's own LSAs under the coordinator. -/

namespace NdnExt.Nlsr

open NdnExt.Lib Lsdb

structure NlsrConfig where
  ownRouter : Name
  lsaRefreshSecs : Nat
  positive : 1 ≤ lsaRefreshSecs

namespace NlsrConfig

def refreshMs (config : NlsrConfig) : Nat := config.lsaRefreshSecs * 1000

def lifetime (config : NlsrConfig) : Nat := fromMillis config.refreshMs

theorem refreshMs_pos (config : NlsrConfig) : 0 < config.refreshMs := by
  have positive := config.positive
  unfold refreshMs
  omega

theorem lifetime_pos (config : NlsrConfig) : 0 < config.lifetime := by
  have positive := config.refreshMs_pos
  unfold lifetime fromMillis
  omega

end NlsrConfig

/-- `nameAt` and `adjAt` record when the own LSAs were last originated; the code does not keep
them. -/
structure Coordinator where
  lsdb : Lsdb
  nameLsaSeq : Nat
  adjSeq : Nat
  clock : Clock
  nameAt : Nat
  adjAt : Option Nat

/-- `readvertise` comes with the merged prefixes, `helloTransition` with the active neighbours.
The monotonic clock passes by `elapsed`, the system clock can be set to anything. -/
inductive CoordinatorEvent where
  | readvertise (merged : List Name)
  | helloTransition (adjacencies : List Adjacent)
  | ageOutTick
  | pass (elapsed systemMs : Nat)

/-- `AtomicU64::fetch_add(1)`: what is stored. -/
def nextSeq (seq : Nat) : Nat := (seq + 1) % 2 ^ 64

theorem nextSeq_of_lt {seq : Nat} (fits : seq + 1 < 2 ^ 64) : nextSeq seq = seq + 1 :=
  Nat.mod_eq_of_lt fits

namespace Coordinator

variable (config : NlsrConfig)

def start (clock : Clock) (merged : List Name) : Coordinator where
  lsdb := ((Lsdb.new config.ownRouter).buildOwnNameLsa clock merged 1 config.refreshMs).1
  nameLsaSeq := 1
  adjSeq := 1
  clock := clock
  nameAt := clock.instant
  adjAt := none

def step (c : Coordinator) : CoordinatorEvent → Coordinator
  | .readvertise merged =>
    { c with
      lsdb := (c.lsdb.buildOwnNameLsa c.clock merged (nextSeq c.nameLsaSeq) config.refreshMs).1
      nameLsaSeq := nextSeq c.nameLsaSeq
      nameAt := c.clock.instant }
  | .helloTransition adjacencies =>
    { c with
      lsdb := (c.lsdb.buildOwnAdjLsa c.clock adjacencies c.adjSeq config.refreshMs).1
      adjSeq := nextSeq c.adjSeq
      adjAt := some c.clock.instant }
  | .ageOutTick => { c with lsdb := (c.lsdb.ageOut c.clock.instant).1 }
  | .pass elapsed systemMs => { c with clock := ⟨systemMs, c.clock.instant + elapsed⟩ }

/-- The LSDB holds an LSA of the own router that has not expired. -/
def Holds (c : Coordinator) (lsaType : LsaType) : Prop :=
  ∃ entry, c.lsdb.store.lookup ⟨config.ownRouter, lsaType⟩ = some entry ∧
    c.clock.instant < entry.expiresAt

def HoldsOwnLsas (c : Coordinator) : Prop :=
  c.Holds config .name ∧ (c.adjAt.isSome → c.Holds config .adjacency)

/-- Time passes only as far as the own LSAs were originated less than a lifetime ago. -/
def InTime (c : Coordinator) : CoordinatorEvent → Prop
  | .pass elapsed _ =>
    c.clock.instant + elapsed < c.nameAt + config.lifetime ∧
      ∀ adjAt, c.adjAt = some adjAt → c.clock.instant + elapsed < adjAt + config.lifetime
  | _ => True

/-- The sequence counters do not wrap. -/
def CountersFit (c : Coordinator) : CoordinatorEvent → Prop
  | .readvertise _ => c.nameLsaSeq + 1 < 2 ^ 64
  | .helloTransition _ => c.adjSeq + 1 < 2 ^ 64
  | _ => True

/-- The entry of an own LSA originated at `originated`, not expired yet. -/
def Fresh (c : Coordinator) (lsaType : LsaType) (originated seqBound : Nat) : Prop :=
  ∃ entry, c.lsdb.store.lookup ⟨config.ownRouter, lsaType⟩ = some entry ∧
    entry.expiresAt = originated + config.lifetime ∧ entry.lsa.seqNo < seqBound ∧
    c.clock.instant < entry.expiresAt

structure Invariant (c : Coordinator) : Prop where
  own : c.lsdb.ownRouter = config.ownRouter
  name : c.Fresh config .name c.nameAt (c.nameLsaSeq + 1)
  adjacency : ∀ adjAt, c.adjAt = some adjAt → c.Fresh config .adjacency adjAt c.adjSeq
  vacant : c.adjAt = none → c.lsdb.store.lookup ⟨config.ownRouter, .adjacency⟩ = none

variable {config}

variable {c : Coordinator} {originated seqBound : Nat}

section

variable {lsaType : LsaType} (fresh : c.Fresh config lsaType originated seqBound)
include fresh

theorem Fresh.holds : c.Holds config lsaType := by
  rcases fresh with ⟨entry, found, -, -, alive⟩
  exact ⟨entry, found, alive⟩

theorem Fresh.frame {next : Coordinator}
    (same : next.lsdb.store.lookup ⟨config.ownRouter, lsaType⟩ =
      c.lsdb.store.lookup ⟨config.ownRouter, lsaType⟩)
    (now : next.clock.instant < originated + config.lifetime) :
    next.Fresh config lsaType originated seqBound := by
  rcases fresh with ⟨entry, found, deadline, older, -⟩
  exact ⟨entry, same.trans found, deadline, older, by rw [deadline]; exact now⟩

theorem Fresh.in_time :
    c.clock.instant < originated + config.lifetime := by
  rcases fresh with ⟨entry, -, deadline, -, alive⟩
  exact deadline ▸ alive

/-- The tick keeps an entry that has not expired. -/
theorem Fresh.ageOut :
    (c.step config .ageOutTick).Fresh config lsaType originated seqBound := by
  apply fresh.frame
  · rcases fresh with ⟨entry, found, -, -, alive⟩
    apply (store_expireDue c.lsdb c.clock.instant ⟨config.ownRouter, lsaType⟩).trans
    rw [found]
    simp [alive]
  · exact fresh.in_time

end

/-- An own LSA with a sequence number beyond the stored one takes its slot for a lifetime. -/
theorem fresh_of_install (c next : Coordinator) (lsa : Lsa) {lsaType : LsaType}
    (installed : next.lsdb = (c.lsdb.install c.clock lsa).1)
    (sameClock : next.clock = c.clock)
    (keyed : lsa.key = ⟨config.ownRouter, lsaType⟩)
    (expiration : lsa.expirationMs = c.clock.systemMs + config.refreshMs)
    (newer : ∀ stored, c.lsdb.store.lookup ⟨config.ownRouter, lsaType⟩ = some stored →
      stored.lsa.seqNo < lsa.seqNo) (bound : lsa.seqNo < seqBound) :
    next.Fresh config lsaType c.clock.instant seqBound := by
  have accepted : c.lsdb.Accepts c.clock lsa := by
    constructor
    · have positive := config.refreshMs_pos
      omega
    · rw [keyed]
      exact newer
  have deadline : (newEntry c.clock lsa).expiresAt = c.clock.instant + config.lifetime := by
    simp only [newEntry, expiration, Nat.add_sub_cancel_left]
    rfl
  refine ⟨newEntry c.clock lsa, ?_, deadline, bound, ?_⟩
  · rw [installed, store_install, if_pos ⟨keyed.symm, accepted⟩]
  · rw [deadline, sameClock]
    have positive := config.lifetime_pos
    omega

theorem Fresh.of_other_install {next : Coordinator} {lsa : Lsa} {lsaType : LsaType}
    (fresh : c.Fresh config lsaType originated seqBound)
    (installed : next.lsdb = (c.lsdb.install c.clock lsa).1)
    (sameClock : next.clock = c.clock) (other : lsa.lsaType ≠ lsaType) :
    next.Fresh config lsaType originated seqBound := by
  apply fresh.frame
  · rw [installed, store_install, if_neg]
    rintro ⟨same, -⟩
    exact other (congrArg LsaKey.lsaType same).symm
  · rw [sameClock]
    exact fresh.in_time

theorem Invariant.readvertise (invariant : c.Invariant config)
    (merged : List Name) (fits : c.nameLsaSeq + 1 < 2 ^ 64) :
    (c.step config (.readvertise merged)).Invariant config := by
  have seq := nextSeq_of_lt fits
  constructor
  · exact (ownRouter_install _ _ _).trans invariant.own
  · apply fresh_of_install c (c.step config (.readvertise merged))
      (c.lsdb.ownNameLsa c.clock merged (nextSeq c.nameLsaSeq) config.refreshMs) rfl rfl
    · exact congrArg (LsaKey.mk · .name) invariant.own
    · rfl
    · intro stored found
      rcases invariant.name with ⟨entry, held, -, older, -⟩
      rw [held] at found
      cases found
      change _ < nextSeq c.nameLsaSeq
      rw [seq]
      exact older
    · exact Nat.lt_succ_self _
  · intro adjAt originated
    exact (invariant.adjacency adjAt originated).of_other_install rfl rfl (fun same => nomatch same)
  · intro never
    refine Eq.trans ?_ (invariant.vacant never)
    apply (store_install _ _ _ _).trans
    apply if_neg
    rintro ⟨same, -⟩
    cases congrArg LsaKey.lsaType same

theorem Invariant.helloTransition (invariant : c.Invariant config)
    (adjacencies : List Adjacent) (fits : c.adjSeq + 1 < 2 ^ 64) :
    (c.step config (.helloTransition adjacencies)).Invariant config := by
  have seq := nextSeq_of_lt fits
  constructor
  · exact (ownRouter_install _ _ _).trans invariant.own
  · exact invariant.name.of_other_install rfl rfl (fun same => nomatch same)
  · intro adjAt originated
    cases originated
    apply fresh_of_install c (c.step config (.helloTransition adjacencies))
      (c.lsdb.ownAdjLsa c.clock adjacencies c.adjSeq config.refreshMs) rfl rfl
    · exact congrArg (LsaKey.mk · .adjacency) invariant.own
    · rfl
    · intro stored found
      cases before : c.adjAt with
      | none =>
        rw [invariant.vacant before] at found
        cases found
      | some adjAt =>
        rcases invariant.adjacency adjAt before with ⟨entry, held, -, older, -⟩
        rw [held] at found
        cases found
        exact older
    · change c.adjSeq < nextSeq c.adjSeq
      rw [seq]
      exact Nat.lt_succ_self _
  · intro never
    cases never

theorem Invariant.ageOut (invariant : c.Invariant config) :
    (c.step config .ageOutTick).Invariant config := by
  constructor
  · exact (ownRouter_ageOut _ _).trans invariant.own
  · exact invariant.name.ageOut
  · intro adjAt originated
    exact (invariant.adjacency adjAt originated).ageOut
  · intro never
    apply (store_expireDue _ _ _).trans
    rw [invariant.vacant never]
    rfl

theorem Invariant.pass (invariant : c.Invariant config)
    (elapsed systemMs : Nat) (inTime : c.InTime config (.pass elapsed systemMs)) :
    (c.step config (.pass elapsed systemMs)).Invariant config := by
  constructor
  · exact invariant.own
  · exact invariant.name.frame rfl inTime.1
  · intro adjAt originated
    exact (invariant.adjacency adjAt originated).frame rfl (inTime.2 adjAt originated)
  · exact invariant.vacant

theorem Invariant.step {c : Coordinator} (invariant : c.Invariant config)
    (event : CoordinatorEvent) (fits : c.CountersFit event) (inTime : c.InTime config event) :
    (c.step config event).Invariant config := by
  cases event with
  | readvertise merged => exact invariant.readvertise merged fits
  | helloTransition adjacencies => exact invariant.helloTransition adjacencies fits
  | ageOutTick => exact invariant.ageOut
  | pass elapsed systemMs => exact invariant.pass elapsed systemMs inTime

theorem Invariant.holdsOwnLsas (invariant : c.Invariant config) :
    c.HoldsOwnLsas config := by
  constructor
  · exact invariant.name.holds
  · intro originated
    rcases Option.isSome_iff_exists.mp originated with ⟨adjAt, at'⟩
    exact (invariant.adjacency adjAt at').holds

/-- An own LSA that outlives a step was originated less than a lifetime before. -/
theorem Fresh.in_time_of_holds {lsaType : LsaType}
    (fresh : c.Fresh config lsaType originated seqBound)
    (next : Coordinator) (same : next.lsdb = c.lsdb) (holds : next.Holds config lsaType) :
    next.clock.instant < originated + config.lifetime := by
  rcases fresh with ⟨entry, found, deadline, -, -⟩
  rcases holds with ⟨other, held, alive⟩
  rw [same, found] at held
  cases held
  exact deadline ▸ alive

theorem Invariant.inTime_of_holds (invariant : c.Invariant config)
    (event : CoordinatorEvent) (holds : (c.step config event).HoldsOwnLsas config) :
    c.InTime config event := by
  cases event with
  | readvertise merged => trivial
  | helloTransition adjacencies => trivial
  | ageOutTick => trivial
  | pass elapsed systemMs =>
    constructor
    · exact invariant.name.in_time_of_holds (c.step config (.pass elapsed systemMs)) rfl holds.1
    · intro adjAt originated
      have held := holds.2 (Option.isSome_iff_exists.mpr ⟨adjAt, originated⟩)
      exact (invariant.adjacency adjAt originated).in_time_of_holds
        (c.step config (.pass elapsed systemMs)) rfl held

theorem invariant_start (clock : Clock) (merged : List Name) :
    (start config clock merged).Invariant config := by
  constructor
  · exact ownRouter_install _ _ _
  · refine fresh_of_install ⟨new config.ownRouter, 1, 1, clock, 0, none⟩
      (start config clock merged)
      ((new config.ownRouter).ownNameLsa clock merged 1 config.refreshMs) rfl rfl
      rfl rfl ?_ (Nat.lt_succ_self _)
    intro stored found
    cases found
  · intro adjAt originated
    cases originated
  · intro never
    apply (store_install _ _ _ _).trans
    rw [if_neg]
    · rfl
    · rintro ⟨same, -⟩
      cases congrArg LsaKey.lsaType same

variable (config)

/-- In a run whose counters do not wrap, the own LSAs are alive throughout exactly when each is
originated again before a lifetime has passed. Nothing in the code brings that about. -/
theorem own_lsas_alive_iff (clock : Clock) (merged : List Name)
    (events : List CoordinatorEvent) :
    Run.Throughout (step config) (start config clock merged) events
        (fun c event => c.CountersFit event ∧ (c.step config event).HoldsOwnLsas config) ↔
      Run.Throughout (step config) (start config clock merged) events
        (fun c event => c.CountersFit event ∧ c.InTime config event) := by
  apply Run.throughout_iff (Invariant config)
  · intro c event invariant
    apply and_congr_right
    intro fits
    constructor
    · exact invariant.inTime_of_holds event
    · intro inTime
      exact (invariant.step event fits inTime).holdsOwnLsas
  · intro c event invariant result
    exact invariant.step event result.1 (invariant.inTime_of_holds event result.2)
  · exact invariant_start clock merged

def defaultConfig : NlsrConfig := ⟨Name.single 1, 1800, by decide⟩

/-- Half an hour after the start, with nothing re-advertised and no neighbour. -/
theorem own_lsas_expire :
    ¬ ((start defaultConfig ⟨0, 0⟩ []).step defaultConfig
      (.pass (1800 * 1000 * 1000000) (1800 * 1000))).HoldsOwnLsas defaultConfig := by
  rintro ⟨⟨entry, found, alive⟩, -⟩
  cases found
  revert alive
  decide

end Coordinator
end NdnExt.Nlsr
