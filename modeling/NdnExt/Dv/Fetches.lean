import NdnExt.Packet.Name
import NdnExt.Lib.HashMap
import Mathlib.Data.Finset.Basic

/-! Which routers' published Data a sync group member has applied, or has a fetch queued for. -/

namespace NdnExt.Dv

open NdnExt.Lib List

/-- A boot time and a sequence number. -/
abbrev Version := Nat × Nat

structure NeighborAdvance where
  name : Name
  boot : Nat
  seq : Nat
  deriving DecidableEq

def NeighborAdvance.version (adv : NeighborAdvance) : Version := (adv.boot, adv.seq)

structure SvsEntry where
  name : Name
  boot : Nat
  seq : Nat
  deriving DecidableEq

/-- The lexicographically newer of two versions. -/
def newer (known : Option Version) (told : Version) : Version :=
  match known with
  | none => told
  | some known => if toLex known < toLex told then told else known

/-- The state vector of a sync group member, which is not part of this repository: it keeps the
newest version of every other router. -/
structure SvsLocal (S : Type) where
  router : S → Name
  neighbor : S → Name → Option Version
  neighbors : S → List NeighborAdvance
  applyEntry : S → SvsEntry → S
  router_applyEntry : ∀ svs entry, router (applyEntry svs entry) = router svs
  neighbor_router : ∀ svs, neighbor svs (router svs) = none
  neighbor_applyEntry : ∀ svs entry name, name ≠ router svs →
    neighbor (applyEntry svs entry) name =
      if name = entry.name then some (newer (neighbor svs name) (entry.boot, entry.seq))
      else neighbor svs name
  mem_neighbors : ∀ svs advance,
    advance ∈ neighbors svs ↔ neighbor svs advance.name = some advance.version

theorem le_newer (known told : Version) : toLex known ≤ toLex (newer (some known) told) := by
  simp only [newer]
  split
  · exact (‹toLex known < toLex told›).le
  · exact le_rfl

/-- What is known of a router never gets older. -/
theorem SvsLocal.neighbor_grows {S : Type} (api : SvsLocal S) (entries : List SvsEntry) (svs : S)
    {name : Name} {known : Version} (found : api.neighbor svs name = some known) :
    ∃ later, api.neighbor (entries.foldl api.applyEntry svs) name = some later ∧
      toLex known ≤ toLex later := by
  induction entries generalizing svs known with
  | nil => exact ⟨known, found, le_rfl⟩
  | cons entry rest ih =>
    have foreign : name ≠ api.router svs := by
      intro same
      rw [same, api.neighbor_router] at found
      cases found
    have step := api.neighbor_applyEntry svs entry name foreign
    rw [found] at step
    by_cases same : name = entry.name
    · rw [if_pos same] at step
      rcases ih (api.applyEntry svs entry) step with ⟨later, known', above⟩
      exact ⟨later, known', (le_newer known _).trans above⟩
    · rw [if_neg same] at step
      exact ih (api.applyEntry svs entry) step

/-- A state vector in a hash map. -/
structure StateVector where
  router : Name
  known : HashMap Name Version
  foreign : known.lookup router = none

def StateVector.new (router : Name) : StateVector := ⟨router, ∅, rfl⟩

def StateVector.applyEntry (svs : StateVector) (entry : SvsEntry) : StateVector :=
  if other : svs.router = entry.name then svs
  else
    { svs with
      known := svs.known.insert entry.name
        (newer (svs.known.lookup entry.name) (entry.boot, entry.seq))
      foreign := by rw [HashMap.lookup_insert_eq, if_neg other, svs.foreign] }

def stateVector : SvsLocal StateVector where
  router := StateVector.router
  neighbor svs name := svs.known.lookup name
  neighbors svs := svs.known.pairs.map (fun item => ⟨item.1, item.2.1, item.2.2⟩)
  applyEntry := StateVector.applyEntry
  router_applyEntry svs entry := by
    unfold StateVector.applyEntry
    split <;> rfl
  neighbor_router svs := svs.foreign
  neighbor_applyEntry svs entry name foreign := by
    unfold StateVector.applyEntry
    split
    · rw [if_neg]
      intro same
      exact foreign (same.trans (Eq.symm ‹_›))
    · rw [HashMap.lookup_insert_eq]
      by_cases same : name = entry.name
      · rw [if_pos same, if_pos same, same]
      · rw [if_neg same, if_neg same]
  mem_neighbors svs advance := by
    rw [← HashMap.mem_pairs, List.mem_map]
    constructor
    · intro found
      rcases found with ⟨item, member, rfl⟩
      exact member
    · intro member
      exact ⟨_, member, rfl⟩

/-- Where the fetcher is: a fetch ends by failing, or by being applied and then marked. -/
inductive Fetcher where
  | idle
  | fetching (adv : NeighborAdvance)
  | applied (adv : NeighborAdvance)
  deriving DecidableEq

def Fetcher.of (fetcher : Fetcher) (name : Name) : Prop :=
  match fetcher with
  | .idle => False
  | .fetching adv => adv.name = name
  | .applied adv => adv.name = name

def Fetcher.pending : Fetcher → Option NeighborAdvance
  | .idle => none
  | .fetching adv => some adv
  | .applied adv => some adv

def Fetcher.arriving : Fetcher → Option NeighborAdvance
  | .fetching adv => some adv
  | _ => none

def Fetcher.unmarked : Fetcher → Option NeighborAdvance
  | .applied adv => some adv
  | _ => none

structure FetchTracker where
  applied : HashMap Name Version
  queued : Finset Name

namespace FetchTracker

def default : FetchTracker := ⟨∅, ∅⟩

/-- Queue `router` at the version unless that state is applied or a fetch is already queued. -/
def queueState (tracker : FetchTracker) (router : Name) (version : Version) :
    FetchTracker × Option NeighborAdvance :=
  if tracker.applied.lookup router ≠ some version ∧ router ∉ tracker.queued then
    ({ tracker with queued := insert router tracker.queued },
     some { name := router, boot := version.1, seq := version.2 })
  else (tracker, none)

variable {S : Type} (api : SvsLocal S)

def queue (tracker : FetchTracker) (svs : S) (router : Name) :
    FetchTracker × Option NeighborAdvance :=
  match api.neighbor svs router with
  | none => (tracker, none)
  | some newest => tracker.queueState router newest

/-- `queue` for every router of a list, with the fetches to queue. -/
def queueEach (tracker : FetchTracker) : List NeighborAdvance →
    FetchTracker × List NeighborAdvance
  | [] => (tracker, [])
  | n :: rest =>
    let (tracker, fetch) := tracker.queueState n.name n.version
    let (tracker, fetches) := tracker.queueEach rest
    (tracker, fetch.toList ++ fetches)

def queueAll (tracker : FetchTracker) (svs : S) : FetchTracker × List NeighborAdvance :=
  tracker.queueEach (api.neighbors svs)

/-- Take `router`'s queued fetch: its newest known state, unless that is already applied. -/
def start (tracker : FetchTracker) (svs : S) (router : Name) :
    FetchTracker × Option NeighborAdvance :=
  let tracker := { tracker with queued := tracker.queued.erase router }
  match api.neighbor svs router with
  | none => (tracker, none)
  | some newest =>
    (tracker,
     if tracker.applied.lookup router ≠ some newest then
       some { name := router, boot := newest.1, seq := newest.2 }
     else none)

/-- Record that the Data of `adv` was fetched and applied. -/
def markApplied (tracker : FetchTracker) (adv : NeighborAdvance) : FetchTracker :=
  { tracker with applied := tracker.applied.insert adv.name adv.version }

def forget (tracker : FetchTracker) (router : Name) : FetchTracker :=
  { tracker with applied := tracker.applied.erase router }

@[simp] theorem applied_queueState (tracker : FetchTracker) (router : Name) (version : Version) :
    (tracker.queueState router version).1.applied = tracker.applied := by
  unfold queueState
  split <;> rfl

@[simp] theorem applied_queue (tracker : FetchTracker) (svs : S) (router : Name) :
    (tracker.queue api svs router).1.applied = tracker.applied := by
  unfold queue
  split
  · rfl
  · exact applied_queueState _ _ _

@[simp] theorem applied_start (tracker : FetchTracker) (svs : S) (router : Name) :
    (tracker.start api svs router).1.applied = tracker.applied := by
  unfold start
  split <;> rfl

theorem queued_start (tracker : FetchTracker) (svs : S) (router : Name) :
    (tracker.start api svs router).1.queued = tracker.queued.erase router := by
  unfold start
  split <;> rfl

/-- A started fetch is of the newest known version, which is not the applied one. -/
theorem start_newest {tracker : FetchTracker} {svs : S} {router : Name} {adv : NeighborAdvance}
    (started : (tracker.start api svs router).2 = some adv) :
    adv.name = router ∧ api.neighbor svs router = some adv.version ∧
      tracker.applied.lookup router ≠ some adv.version := by
  unfold start at started
  split at started
  · cases started
  · rename_i newest found
    simp only at started
    split at started
    · cases started
      exact ⟨rfl, found, ‹_›⟩
    · cases started

/-- The fetches in the channel are those the tracker has queued, each once. -/
structure Tokens (tracker : FetchTracker) (channel : List NeighborAdvance) : Prop where
  once : (channel.map NeighborAdvance.name).Nodup
  queued : ∀ name, name ∈ tracker.queued ↔ name ∈ channel.map NeighborAdvance.name

theorem Tokens.queueState {tracker : FetchTracker} {channel : List NeighborAdvance}
    (tokens : Tokens tracker channel) (router : Name) (version : Version) :
    Tokens (tracker.queueState router version).1
      (channel ++ (tracker.queueState router version).2.toList) := by
  unfold FetchTracker.queueState
  split
  · rename_i fresh
    constructor
    · simp only [Option.toList_some, map_append, map_cons, map_nil]
      rw [nodup_append_comm, singleton_append, nodup_cons, ← tokens.queued]
      exact ⟨fresh.2, tokens.once⟩
    · intro name
      simp only [Option.toList_some, map_append, map_cons, map_nil,
        mem_append, mem_singleton, Finset.mem_insert, ← tokens.queued]
      exact or_comm
  · simpa using tokens

theorem Tokens.start {tracker : FetchTracker} {svs : S} {queued : NeighborAdvance}
    {rest : List NeighborAdvance} (tokens : Tokens tracker (queued :: rest)) :
    Tokens (tracker.start api svs queued.name).1 rest := by
  have once := tokens.once
  rw [map_cons, nodup_cons] at once
  refine ⟨once.2, ?_⟩
  intro name
  rw [queued_start, Finset.mem_erase, tokens.queued, map_cons, mem_cons]
  constructor
  · intro both
    exact both.2.resolve_left both.1
  · intro member
    refine ⟨?_, Or.inr member⟩
    intro same
    exact once.1 (same ▸ member)

theorem Tokens.queueEach {tracker : FetchTracker} {channel : List NeighborAdvance}
    (tokens : Tokens tracker channel) (routers : List NeighborAdvance) :
    Tokens (tracker.queueEach routers).1 (channel ++ (tracker.queueEach routers).2) := by
  induction routers generalizing tracker channel with
  | nil => simpa [FetchTracker.queueEach] using tokens
  | cons router rest ih =>
    have next := ih (tokens.queueState router.name router.version)
    rw [append_assoc] at next
    exact next

@[simp] theorem applied_queueEach (tracker : FetchTracker) (routers : List NeighborAdvance) :
    (tracker.queueEach routers).1.applied = tracker.applied := by
  induction routers generalizing tracker with
  | nil => rfl
  | cons router rest ih =>
    simp only [queueEach]
    rw [ih, applied_queueState]

theorem queued_queueState (tracker : FetchTracker) (router : Name) (version : Version) :
    tracker.queued ⊆ (tracker.queueState router version).1.queued ∧
      (tracker.applied.lookup router ≠ some version →
        router ∈ (tracker.queueState router version).1.queued) := by
  unfold queueState
  split
  · exact ⟨Finset.subset_insert _ _, fun _ => Finset.mem_insert_self _ _⟩
  · rename_i settled
    refine ⟨fun _ member => member, ?_⟩
    intro unapplied
    by_contra absent
    exact settled ⟨unapplied, absent⟩

/-- Afterwards a fetch is queued for every router listed at a version that is not applied. -/
theorem queued_queueEach (tracker : FetchTracker) (routers : List NeighborAdvance) :
    tracker.queued ⊆ (tracker.queueEach routers).1.queued ∧
      ∀ router ∈ routers, tracker.applied.lookup router.name ≠ some router.version →
        router.name ∈ (tracker.queueEach routers).1.queued := by
  induction routers generalizing tracker with
  | nil => exact ⟨fun _ member => member, fun _ absent => by cases absent⟩
  | cons first rest ih =>
    simp only [queueEach]
    rcases queued_queueState tracker first.name first.version with ⟨grows, queues⟩
    rcases ih (tracker.queueState first.name first.version).1 with ⟨grows', queues'⟩
    refine ⟨grows.trans grows', ?_⟩
    intro router member unapplied
    rcases mem_cons.mp member with same | member
    · subst same
      exact grows' (queues unapplied)
    · exact queues' router member (by rwa [applied_queueState])

end FetchTracker
end NdnExt.Dv
