import NdnExt.Lib.HashMap
import NdnExt.Lib.Checked
import NdnExt.Packet.Name

/-! The provider's table of execution leases, which is the only authority on its capacity. -/

namespace NdnExt.Leases

open NdnExt.Lib

structure LeaseId where
  wire : String
  deriving DecidableEq

inductive LeaseState where
  | prepared
  | committed
  | executing
  | released
  | aborted
  | expired
  deriving DecidableEq

/-- A live lease holds its conflict keys; a terminal one does not. -/
def LeaseState.isLive : LeaseState → Bool
  | prepared => true
  | committed => true
  | executing => true
  | released => false
  | aborted => false
  | expired => false

inductive LeaseError where
  | staleEpoch
  | unknown
  | expired
  | wrongHolder
  | conflict (key : String)
  | idempotencyConflict
  | planMismatch
  | invalidTransition (state : LeaseState)
  | tableFull
  deriving DecidableEq

structure LeaseRequest where
  holder : Name
  conflictKeys : List String
  planDigest : String
  idempotencyKey : Option String
  ttlSecs : Nat

structure Lease where
  id : LeaseId
  bootEpoch : Nat
  expiresAtSecs : Nat
  deriving DecidableEq

structure LeaseEntry where
  holder : Name
  state : LeaseState
  conflictKeys : List String
  planDigest : String
  idempotencyKey : Option String
  expiresAtSecs : Nat

structure LeaseCounters where
  prepared : Nat
  replayed : Nat
  released : Nat
  aborted : Nat
  expired : Nat
  refused : Nat

def maxLeases : Nat := 8192

structure LeaseTable where
  bootEpoch : Nat
  leases : HashMap LeaseId LeaseEntry
  idempotency : HashMap String (LeaseId × String)
  counters : LeaseCounters

namespace LeaseTable

def new (bootEpoch : Nat) : LeaseTable := ⟨bootEpoch, ∅, ∅, ⟨0, 0, 0, 0, 0, 0⟩⟩

def liveCount (table : LeaseTable) : Nat :=
  (table.leases.pairs.filter (fun item => item.2.state.isLive)).length

def refuse {A : Type} (table : LeaseTable) (error : LeaseError) :
    Outcome LeaseError A × LeaseTable :=
  (.err error,
    { table with counters := { table.counters with refused := table.counters.refused + 1 } })

/-- Whether `id` just became or already was expired. -/
def lazilyExpire (table : LeaseTable) (id : LeaseId) (nowSecs : Nat) : Bool × LeaseTable :=
  match table.leases.lookup id with
  | none => (false, table)
  | some entry =>
    if entry.state.isLive ∧ nowSecs ≥ entry.expiresAtSecs then
      (true,
        { table with
          leases := table.leases.insert id { entry with state := .expired }
          counters := { table.counters with expired := table.counters.expired + 1 } })
    else (entry.state = .expired, table)

/-- The lease a known idempotency key stands for, while that lease is live and unexpired. -/
def replay (table : LeaseTable) (nowSecs : Nat) (id : LeaseId) :
    Outcome LeaseError Lease × LeaseTable :=
  match table.lazilyExpire id nowSecs with
  | (true, table) => table.refuse .expired
  | (false, table) =>
    match table.leases.lookup id with
    | none => table.refuse .unknown
    | some entry =>
      if entry.state.isLive then
        (.ok ⟨id, table.bootEpoch, entry.expiresAtSecs⟩,
          { table with counters := { table.counters with replayed := table.counters.replayed + 1 } })
      else table.refuse .unknown

def held (table : LeaseTable) (key : String) : Bool :=
  table.leases.pairs.any (fun item => item.2.state.isLive && item.2.conflictKeys.contains key)

def grantedEntry (nowSecs : Nat) (req : LeaseRequest) : LeaseEntry where
  holder := req.holder
  state := .prepared
  conflictKeys := req.conflictKeys
  planDigest := req.planDigest
  idempotencyKey := req.idempotencyKey
  expiresAtSecs := saturatingAddU64 nowSecs req.ttlSecs

def grant (table : LeaseTable) (nowSecs : Nat) (req : LeaseRequest) (id : LeaseId) : LeaseTable :=
  { table with
    leases := table.leases.insert id (grantedEntry nowSecs req)
    idempotency :=
      match req.idempotencyKey with
      | some key => table.idempotency.insert key (id, req.planDigest)
      | none => table.idempotency
    counters := { table.counters with prepared := table.counters.prepared + 1 } }

/-- `drawn` is the random id of a new lease. -/
def prepare (table : LeaseTable) (nowSecs : Nat) (req : LeaseRequest) (drawn : LeaseId) :
    Outcome LeaseError Lease × LeaseTable :=
  match req.idempotencyKey.bind table.idempotency.lookup with
  | some (id, digest) =>
    if digest ≠ req.planDigest then table.refuse .idempotencyConflict
    else table.replay nowSecs id
  | none =>
    if table.leases.keys.length ≥ maxLeases then table.refuse .tableFull
    else
      match req.conflictKeys.find? table.held with
      | some key => table.refuse (.conflict key)
      | none =>
        (.ok ⟨drawn, table.bootEpoch, saturatingAddU64 nowSecs req.ttlSecs⟩,
          table.grant nowSecs req drawn)

def checkedEntry (table : LeaseTable) (nowSecs : Nat) (id : LeaseId) (holder : Name)
    (bootEpoch : Nat) : Outcome LeaseError Unit × LeaseTable :=
  if bootEpoch ≠ table.bootEpoch then table.refuse .staleEpoch
  else
    match table.leases.lookup id with
    | none => table.refuse .unknown
    | some entry =>
      if entry.holder ≠ holder then table.refuse .wrongHolder
      else
        match table.lazilyExpire id nowSecs with
        | (true, table) => table.refuse .expired
        | (false, table) => (.ok (), table)

def countMove (counters : LeaseCounters) (target : LeaseState) : LeaseCounters :=
  match target with
  | .released => { counters with released := counters.released + 1 }
  | .aborted => { counters with aborted := counters.aborted + 1 }
  | _ => counters

def transition (table : LeaseTable) (nowSecs : Nat) (id : LeaseId) (holder : Name)
    (bootEpoch : Nat) (sources : List LeaseState) (target : LeaseState) :
    Outcome LeaseError Unit × LeaseTable :=
  match table.checkedEntry nowSecs id holder bootEpoch with
  | (.ok _, table) =>
    match table.leases.lookup id with
    | none => (.panic, table)
    | some entry =>
      if entry.state ∈ sources then
        (.ok (),
          { table with
            leases := table.leases.insert id { entry with state := target }
            counters := countMove table.counters target })
      else table.refuse (.invalidTransition entry.state)
  | failed => failed

def commit (table : LeaseTable) (nowSecs : Nat) (id : LeaseId) (holder : Name)
    (bootEpoch : Nat) : Outcome LeaseError Unit × LeaseTable :=
  table.transition nowSecs id holder bootEpoch [.prepared] .committed

def activate (table : LeaseTable) (nowSecs : Nat) (id : LeaseId) (holder : Name)
    (bootEpoch : Nat) (planDigest : String) : Outcome LeaseError Unit × LeaseTable :=
  match table.checkedEntry nowSecs id holder bootEpoch with
  | (.ok _, table) =>
    match table.leases.lookup id with
    | none => (.panic, table)
    | some entry =>
      if entry.planDigest ≠ planDigest then table.refuse .planMismatch
      else table.transition nowSecs id holder bootEpoch [.committed] .executing
  | failed => failed

def renew (table : LeaseTable) (nowSecs : Nat) (id : LeaseId) (holder : Name)
    (bootEpoch extendSecs : Nat) : Outcome LeaseError Lease × LeaseTable :=
  match table.checkedEntry nowSecs id holder bootEpoch with
  | (.ok _, table) =>
    match table.leases.lookup id with
    | none => (.panic, table)
    | some entry =>
      (.ok ⟨id, table.bootEpoch, saturatingAddU64 nowSecs extendSecs⟩,
        { table with
          leases := table.leases.insert id
            { entry with expiresAtSecs := saturatingAddU64 nowSecs extendSecs } })
  | (.err error, table) => (.err error, table)
  | (.panic, table) => (.panic, table)

def abort (table : LeaseTable) (nowSecs : Nat) (id : LeaseId) (holder : Name)
    (bootEpoch : Nat) : Outcome LeaseError Unit × LeaseTable :=
  table.transition nowSecs id holder bootEpoch [.prepared, .committed] .aborted

def release (table : LeaseTable) (nowSecs : Nat) (id : LeaseId) (holder : Name)
    (bootEpoch : Nat) : Outcome LeaseError Unit × LeaseTable :=
  table.transition nowSecs id holder bootEpoch [.executing] .released

def state (table : LeaseTable) (nowSecs : Nat) (id : LeaseId) : Option LeaseState × LeaseTable :=
  let table := (table.lazilyExpire id nowSecs).2
  ((table.leases.lookup id).map (fun entry => entry.state), table)

/-- The removal of one terminal entry, with the idempotency slot that still points at it. -/
def remove (table : LeaseTable) (id : LeaseId) : LeaseTable :=
  match table.leases.lookup id with
  | none => table
  | some entry =>
    { table with
      leases := table.leases.erase id
      idempotency :=
        match entry.idempotencyKey with
        | some key =>
          if (table.idempotency.lookup key).map Prod.fst = some id then table.idempotency.erase key
          else table.idempotency
        | none => table.idempotency }

def expireAll (table : LeaseTable) (nowSecs : Nat) : LeaseTable :=
  table.leases.keys.foldl (fun table id => (table.lazilyExpire id nowSecs).2) table

def dead (table : LeaseTable) : List LeaseId :=
  (table.leases.pairs.filter (fun item => !item.2.state.isLive)).map Prod.fst

def cleanup (table : LeaseTable) (nowSecs : Nat) : Nat × LeaseTable :=
  let expired := table.expireAll nowSecs
  let cleaned := expired.dead.foldl remove expired
  (expired.leases.keys.length - cleaned.leases.keys.length, cleaned)

end LeaseTable

/-- The operations of the table; a prepare comes with the id it draws if it grants. -/
inductive Op where
  | prepare (req : LeaseRequest) (drawn : LeaseId)
  | commit (id : LeaseId) (holder : Name) (bootEpoch : Nat)
  | activate (id : LeaseId) (holder : Name) (bootEpoch : Nat) (planDigest : String)
  | renew (id : LeaseId) (holder : Name) (bootEpoch extendSecs : Nat)
  | abort (id : LeaseId) (holder : Name) (bootEpoch : Nat)
  | release (id : LeaseId) (holder : Name) (bootEpoch : Nat)
  | state (id : LeaseId)
  | cleanup
  | liveCount

inductive Answer where
  | lease (result : Outcome LeaseError Lease)
  | done (result : Outcome LeaseError Unit)
  | state (found : Option LeaseState)
  | count (value : Nat)
  deriving DecidableEq

def Answer.refused : Answer → Prop
  | lease result => ∃ error, result = .err error
  | done result => ∃ error, result = .err error
  | state _ => False
  | count _ => False

/-- An operation with the clock reading it is called at. -/
structure Call where
  nowSecs : Nat
  op : Op

def answering {A : Type} (wrap : A → Answer) (result : A × LeaseTable) : Answer × LeaseTable :=
  (wrap result.1, result.2)

namespace LeaseTable

def call (table : LeaseTable) (input : Call) : Answer × LeaseTable :=
  match input.op with
  | .prepare req drawn => answering Answer.lease (table.prepare input.nowSecs req drawn)
  | .commit id holder bootEpoch =>
    answering Answer.done (table.commit input.nowSecs id holder bootEpoch)
  | .activate id holder bootEpoch planDigest =>
    answering Answer.done (table.activate input.nowSecs id holder bootEpoch planDigest)
  | .renew id holder bootEpoch extendSecs =>
    answering Answer.lease (table.renew input.nowSecs id holder bootEpoch extendSecs)
  | .abort id holder bootEpoch =>
    answering Answer.done (table.abort input.nowSecs id holder bootEpoch)
  | .release id holder bootEpoch =>
    answering Answer.done (table.release input.nowSecs id holder bootEpoch)
  | .state id => answering Answer.state (table.state input.nowSecs id)
  | .cleanup => answering Answer.count (table.cleanup input.nowSecs)
  | .liveCount => (.count table.liveCount, table)

def next (table : LeaseTable) (input : Call) : LeaseTable := (table.call input).2

end LeaseTable
end NdnExt.Leases
