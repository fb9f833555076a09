import NdnExt.Lib.HashMap
import NdnExt.Packet.Name

/-! The pipes that a relay or a producer holds. -/

namespace NdnExt.Pipes

open NdnExt.Lib

abbrev Bytes := List UInt8

/-- Nanoseconds, of a moment or of a duration. -/
abbrev Nanos := Nat

structure RelayEntry where
  ns : Name
  hop : UInt32
  pipeKey : Bytes
  pui : Nanos
  lastActivity : Nanos
  announced : Bool
  deriving DecidableEq

/-- A pipe whose teardown the monitor announces. -/
structure DueTeardown where
  ns : Name
  id : Bytes
  pipeKey : Bytes
  deriving DecidableEq

def hasPrefix (name ns : Name) : Bool := ns.components.isPrefixOf name.components

abbrev RelayPipeStore := HashMap Bytes RelayEntry

namespace RelayEntry

def renewed (now : Nanos) (e : RelayEntry) : RelayEntry :=
  { e with lastActivity := now, announced := false }

def threshold (quantum : Nanos) (e : RelayEntry) : Nanos := e.pui + quantum * e.hop.toNat

/-- Idle for longer than its threshold, and not announced yet. -/
def isDue (now quantum : Nanos) (e : RelayEntry) : Bool :=
  !e.announced && decide (now - e.lastActivity > e.threshold quantum)

end RelayEntry

namespace RelayPipeStore

def insert' (store : RelayPipeStore) (now : Nanos) (id : Bytes) (ns : Name) (hop : UInt32)
    (pipeKey : Bytes) (pui : Nanos) : RelayPipeStore :=
  store.insert id ⟨ns, hop, pipeKey, pui, now, false⟩

def pipeKey (store : RelayPipeStore) (id : Bytes) : Option Bytes :=
  (store.lookup id).map RelayEntry.pipeKey

/-- A packet was fetched: the pipes whose namespace its name has are in use. -/
def noteTraffic (store : RelayPipeStore) (now : Nanos) (name : Name) : RelayPipeStore :=
  store.mapValues fun _ e => if hasPrefix name e.ns then e.renewed now else e

def noteActivity (store : RelayPipeStore) (now : Nanos) (ns : Name) : RelayPipeStore :=
  store.mapValues fun _ e => if e.ns = ns then e.renewed now else e

/-- The pipes that are idle for too long, which are marked as announced. -/
def due (store : RelayPipeStore) (now quantum : Nanos) : RelayPipeStore × List DueTeardown :=
  (store.mapValues fun _ e => if e.isDue now quantum then { e with announced := true } else e,
    store.pairs.filterMap fun entry =>
      if entry.2.isDue now quantum then some ⟨entry.2.ns, entry.1, entry.2.pipeKey⟩ else none)

/-- Another node announced a teardown in a namespace. -/
def suppress (store : RelayPipeStore) (ns : Name) : RelayPipeStore :=
  store.mapValues fun _ e => if e.ns = ns then { e with announced := true } else e

def reapNow (store : RelayPipeStore) (id : Bytes) : RelayPipeStore × Option Name :=
  (store.erase id, (store.lookup id).map RelayEntry.ns)

end RelayPipeStore

/-! ### The producer's pipes -/

structure RegistryEntry where
  deadline : Nanos
  pipeKey : Bytes
  deriving DecidableEq

abbrev PipeRegistry := HashMap Bytes RegistryEntry

namespace PipeRegistry

/-- The key of a pipe that has not lapsed. -/
def pipeKey (registry : PipeRegistry) (now : Nanos) (id : Bytes) : Option Bytes :=
  ((registry.lookup id).filter fun e => now ≤ e.deadline).map RegistryEntry.pipeKey

def reapNow (registry : PipeRegistry) (id : Bytes) : PipeRegistry := registry.erase id

end PipeRegistry

end NdnExt.Pipes
