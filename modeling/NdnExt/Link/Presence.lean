import NdnExt.Link.Table

/-! Which devices a relay tells the devices linked to it of. -/

namespace NdnExt.Link

open NdnExt.Lib

structure PresentDevice where
  device : Name
  key : KeyFingerprint
  deriving DecidableEq

structure Presence where
  ns : Name
  devices : List PresentDevice
  deriving DecidableEq

def presenceMax : Nat := 256

/-- A link message is at most this long. -/
def maxMessage : Nat := 64 * 1024

/-- A held trust context with its direct-path role matrix. -/
structure HeldContext extends TrustContext where
  allowsDirectPath : String → String → Bool

structure Member where
  fingerprint : KeyFingerprint
  identity : Identity
  handle : LinkHandle

/-- The identities a device shows are of different namespaces. -/
structure Linked extends Registration where
  distinct : (identities.map Identity.ns).Nodup

namespace LinkTable

def memberOf (ns : Name) (fingerprint : KeyFingerprint) (link : LiveLink) : Option Member := do
  let identity ← link.identities.find? fun id => id.ns = ns
  let path ← link.paths.find? fun p => p.path.kind = .link
  pure ⟨fingerprint, identity, path.path.handle⟩

def members (table : LinkTable) (ns : Name) : List Member :=
  (table.live.pairs.filter fun link => link.2.enrolling.isEmpty).filterMap fun link =>
    memberOf ns link.1 link.2

end LinkTable

/-- What a task of the relay has to do next. -/
inductive Op where
  | announce (ns : Name)
  | announceAll
  | send (handle : LinkHandle) (presence : Presence)
  deriving DecidableEq

/-- `last` is the last list sent over a connection for a namespace, `connections` numbers the next
one. -/
structure RelayState where
  table : LinkTable
  contexts : List HeldContext
  connections : Nat
  last : LinkHandle → Name → Option (List PresentDevice)
  tasks : List (List Op)

inductive RelayAction where
  | linkUp (link : Linked) (mine : Option KeyFingerprint)
  | pathEnd (fingerprint : KeyFingerprint) (generation : Nat)
  | revoked (ctx : TrustContext)
  | adopted (ctx : HeldContext)
  | run (task : Nat)

namespace RelayState

/-- The devices one member is told of. -/
def devicesFor (ctx : HeldContext) (members : List Member) (to' : Member) : List PresentDevice :=
  (((members.filter fun o => o.fingerprint ≠ to'.fingerprint).filter fun o =>
    ctx.allowsDirectPath to'.identity.role.asStr o.identity.role.asStr).take presenceMax).map
      fun o => ⟨o.identity.device, o.fingerprint⟩

/-- The snapshot an announcement takes, as what it will send. -/
def announcePresence (state : RelayState) (ns : Name) : List Op :=
  match state.contexts.find? fun ctx => ctx.ns = ns with
  | none => []
  | some ctx =>
    let members := (state.table.members ns).filter fun m => m.identity.served.isNone
    members.map fun to' => .send to'.handle ⟨ns, devicesFor ctx members to'⟩

def announceAll (state : RelayState) : List Op :=
  (state.contexts.filter fun ctx => ctx.ns ≠ .root).map fun ctx => .announce ctx.ns

variable (encodedLen : Presence → Nat)

/-- A presence over the limit of a message is not sent. -/
def sendPresence (state : RelayState) (handle : LinkHandle) (presence : Presence) : RelayState :=
  if maxMessage < encodedLen presence then state
  else
    { state with last := fun h ns =>
        if h = handle ∧ ns = presence.ns then some presence.devices else state.last h ns }

def perform (state : RelayState) : Op → RelayState × List Op
  | .announce ns => (state, state.announcePresence ns)
  | .announceAll => (state, state.announceAll)
  | .send handle presence => (state.sendPresence encodedLen handle presence, [])

def spawn (state : RelayState) (ops : List Op) : RelayState :=
  { state with tasks := state.tasks ++ [ops] }

def run (state : RelayState) (task : Nat) : RelayState :=
  match state.tasks[task]? with
  | some (op :: rest) =>
    let performed := state.perform encodedLen op
    { performed.1 with tasks := state.tasks.set task (performed.2 ++ rest) }
  | _ => state

def announceEach (identities : List Identity) : List Op :=
  identities.map fun id => .announce id.ns

/-- A path is admitted on a new connection. -/
def admitted (state : RelayState) (link : Linked) : Registration :=
  { link.toRegistration with path := { link.path with handle := ⟨state.connections⟩ } }

/-- The path is recorded; `link_up` announces a full link. -/
def linkUp (state : RelayState) (link : Linked) (mine : Option KeyFingerprint) : RelayState :=
  let registered := state.table.register (state.admitted link) mine
  let linked := { state with table := registered.1, connections := state.connections + 1 }
  match registered.2.2 with
  | none => linked
  | some _ =>
    if link.path.kind = .link ∧ link.enrolling = [] then linked.spawn (announceEach link.identities)
    else linked

def pathEnd (state : RelayState) (fingerprint : KeyFingerprint) (generation : Nat) : RelayState :=
  let unregistered := state.table.unregister fingerprint generation
  let left := { state with table := unregistered.1 }
  match unregistered.2 with
  | none => left
  | some ended => if ended.last then left.spawn (announceEach ended.identities) else left

/-- What a revocation has to say about a link that stays. -/
def tellDropped (dropped : Dropped) : List Op :=
  (dropped.handle.map fun handle => .send handle ⟨dropped.ns, []⟩).toList ++ [.announce dropped.ns]

def revoked (state : RelayState) (ctx : TrustContext) : RelayState :=
  let closed := state.table.closeRevoked ctx
  { state with table := closed.1 }.spawn (closed.2.2.flatMap tellDropped)

def adopted (state : RelayState) (ctx : HeldContext) : RelayState :=
  { state with contexts := (state.contexts.filter fun held : HeldContext => held.ns ≠ ctx.ns) ++ [ctx] }.spawn
    [.announceAll]

def step (state : RelayState) : RelayAction → RelayState
  | .linkUp link mine => state.linkUp link mine
  | .pathEnd fingerprint generation => state.pathEnd fingerprint generation
  | .revoked ctx => state.revoked ctx
  | .adopted ctx => state.adopted ctx
  | .run task => state.run encodedLen task

/-- A relay with the contexts it holds and no link. -/
def start (contexts : List HeldContext) : RelayState := ⟨.empty, contexts, 0, fun _ _ => none, []⟩

/-- No task has anything left to do. -/
def Settled (state : RelayState) : Prop := ∀ task ∈ state.tasks, task = []

end RelayState
end NdnExt.Link
