import NdnExt.Dv.Fetches

/-! Advertisement Sync: the newest version of every neighbour, the face it is reached on, and
which advertisements are applied. Times are milliseconds. -/

namespace NdnExt.Dv

open NdnExt.Lib

inductive SyncKind where
  | active
  | passive
  deriving DecidableEq

structure FaceBinding where
  faceId : Nat
  isActive : Bool
  lastSeen : Nat
  deriving DecidableEq

structure FaceChange where
  neighbor : Name
  oldFace : Option Nat
  newFace : Nat
  nowActive : Bool
  deriving DecidableEq

structure SyncReceipt where
  fetches : List NeighborAdvance
  faceChanges : List FaceChange

structure DvSync (S : Type) where
  router : Name
  svs : S
  fetches : FetchTracker
  faces : HashMap Name FaceBinding

namespace DvSync

variable {S : Type} (api : SvsLocal S)

def neighborFace (sync : DvSync S) (name : Name) : Option (Nat × Bool) :=
  (sync.faces.lookup name).map (fun b => (b.faceId, b.isActive))

/-- An active binding shadows passive pings: they neither move it nor freshen it. -/
def updateFace (sync : DvSync S) (neighbor : Name) (faceId : Nat) (isActive : Bool) (now : Nat) :
    DvSync S × Option FaceChange :=
  if neighbor = sync.router then (sync, none)
  else
    match sync.faces.lookup neighbor with
    | some binding =>
      if binding.isActive && !isActive then (sync, none)
      else
        ({ sync with faces := sync.faces.insert neighbor ⟨faceId, isActive, now⟩ },
         if binding.faceId ≠ faceId ∨ binding.isActive ≠ isActive then
           some ⟨neighbor, some binding.faceId, faceId, isActive⟩
         else none)
    | none =>
      ({ sync with faces := sync.faces.insert neighbor ⟨faceId, isActive, now⟩ },
       some ⟨neighbor, none, faceId, isActive⟩)

/-- The loop body over the entries of a validated Sync Interest. -/
def processEntry (incomingFace : Nat) (isActive : Bool) (now : Nat)
    (state : DvSync S × SyncReceipt) (entry : SvsEntry) : DvSync S × SyncReceipt :=
  let (sync, change) := state.1.updateFace entry.name incomingFace isActive now
  let svs := api.applyEntry sync.svs entry
  let (fetches, fetch) := sync.fetches.queue api svs entry.name
  ({ sync with svs := svs, fetches := fetches },
   { fetches := state.2.fetches ++ fetch.toList
     faceChanges := state.2.faceChanges ++ change.toList })

def processSyncInterest (sync : DvSync S) (entries : List SvsEntry) (incomingFace : Nat)
    (kind : SyncKind) (now : Nat) : DvSync S × SyncReceipt :=
  entries.foldl (processEntry api incomingFace (kind = .active) now) (sync, ⟨[], []⟩)

def startFetch (sync : DvSync S) (neighbor : Name) : DvSync S × Option NeighborAdvance :=
  let (fetches, adv) := sync.fetches.start api sync.svs neighbor
  ({ sync with fetches := fetches }, adv)

def markFetched (sync : DvSync S) (adv : NeighborAdvance) : DvSync S :=
  { sync with fetches := sync.fetches.markApplied adv }

/-- Neighbours whose `lastSeen` is older than `now - deadInterval`. -/
def deadNeighbors (sync : DvSync S) (now deadInterval : Nat) : List Name :=
  (sync.faces.pairs.filter (fun item => now - item.2.lastSeen ≥ deadInterval)).map Prod.fst

def forgetNeighbor (sync : DvSync S) (neighbor : Name) : DvSync S :=
  { sync with faces := sync.faces.erase neighbor, fetches := sync.fetches.forget neighbor }

theorem mem_deadNeighbors {sync : DvSync S} {now deadInterval : Nat} {name : Name} :
    name ∈ sync.deadNeighbors now deadInterval ↔
      ∃ binding, sync.faces.lookup name = some binding ∧
        now - binding.lastSeen ≥ deadInterval := by
  simp only [deadNeighbors, List.mem_map, List.mem_filter, Prod.exists, HashMap.mem_pairs,
    decide_eq_true_eq]
  constructor
  · intro found
    rcases found with ⟨key, binding, ⟨bound, old⟩, rfl⟩
    exact ⟨binding, bound, old⟩
  · intro found
    rcases found with ⟨binding, bound, old⟩
    exact ⟨name, binding, ⟨bound, old⟩, rfl⟩

/-- A Sync Interest only adds bindings. -/
theorem faces_updateFace (sync : DvSync S) (neighbor : Name) (faceId : Nat) (isActive : Bool)
    (now : Nat) (name : Name) (bound : name ∈ sync.faces) :
    name ∈ (sync.updateFace neighbor faceId isActive now).1.faces := by
  unfold updateFace
  split
  · exact bound
  · split
    · split
      · exact bound
      · exact (AList.mem_insert _).mpr (Or.inr bound)
    · exact (AList.mem_insert _).mpr (Or.inr bound)

theorem router_updateFace (sync : DvSync S) (neighbor : Name) (faceId : Nat) (isActive : Bool)
    (now : Nat) : (sync.updateFace neighbor faceId isActive now).1.router = sync.router := by
  unfold updateFace
  split
  · rfl
  · split
    · split <;> rfl
    · rfl

theorem fetches_updateFace (sync : DvSync S) (neighbor : Name) (faceId : Nat) (isActive : Bool)
    (now : Nat) : (sync.updateFace neighbor faceId isActive now).1.fetches = sync.fetches := by
  unfold updateFace
  split
  · rfl
  · split
    · split <;> rfl
    · rfl

/-- A Sync Interest keeps every binding and what is recorded as applied. -/
theorem processSyncInterest_keeps (sync : DvSync S) (entries : List SvsEntry)
    (incomingFace : Nat) (kind : SyncKind) (now : Nat) :
    (sync.processSyncInterest api entries incomingFace kind now).1.router = sync.router ∧
      (sync.processSyncInterest api entries incomingFace kind now).1.fetches.applied =
        sync.fetches.applied ∧
      ∀ name ∈ sync.faces,
        name ∈ (sync.processSyncInterest api entries incomingFace kind now).1.faces := by
  unfold processSyncInterest
  generalize SyncReceipt.mk [] [] = receipt
  induction entries generalizing sync receipt with
  | nil => exact ⟨rfl, rfl, fun _ bound => bound⟩
  | cons entry rest ih =>
    rw [List.foldl_cons]
    have rest' := ih (processEntry api incomingFace (kind = .active) now (sync, receipt) entry).1
      (processEntry api incomingFace (kind = .active) now (sync, receipt) entry).2
    refine ⟨?_, ?_, ?_⟩
    · rw [rest'.1]
      exact router_updateFace _ _ _ _ _
    · rw [rest'.2.1]
      simp only [processEntry, FetchTracker.applied_queue, fetches_updateFace]
    · intro name bound
      apply rest'.2.2
      exact faces_updateFace sync entry.name incomingFace _ now name bound

end DvSync
end NdnExt.Dv
