import NdnExt.Nan.PathViews

/-! Two engines that set paths up with each other over a medium that may lose and reorder frames. -/

namespace NdnExt.Nan

open NdnExt.Lib NdnExt.Lib.Keyed NdnExt.Lib.Run

/-- The engines, the frames on their way to each, and the paths that were terminated while one of
them held them, as the side that asked for the path and its id. -/
structure Pair where
  engine : Bool → NanEngine
  flight : Bool → List Bytes
  terminated : List (Bool × UInt8)

inductive PairAction where
  | call (z : Bool) (call : Call)
  | poll (z : Bool) (now : Usec) (inbound : List RxFrame)
  | lose (z : Bool) (bytes : Bytes)

namespace NanEngine

/-- The session that a termination takes. -/
def terminates (engine : NanEngine) : Call → Option NdpSession
  | .terminateNdp peer ndpId => engine.ndps.find? fun s => s.peer == peer && s.ndpId == ndpId
  | _ => none

end NanEngine

namespace Pair

variable (sha256 : Bytes → Vector UInt8 32)

def start (cfg : Bool → NanConfig) (rendezvous : Bool → Rendezvous) : Pair where
  engine z := .withRendezvous (cfg z) (rendezvous z)
  flight _ := []
  terminated := []

/-- What is left of the frames to `z`, and what it sends to the other. -/
def afterPoll (flight : Bool → List Bytes) (z : Bool) (inbound : List RxFrame) (step : Step) :
    Bool → List Bytes := fun w =>
  if w = z then (flight z).diff (inbound.map RxFrame.bytes)
  else flight w ++ step.tx.map TxFrame.bytes

def step (pair : Pair) : PairAction → Pair
  | .call z call =>
    { pair with
      engine := Function.update pair.engine z ((pair.engine z).called sha256 call)
      terminated := pair.terminated ++ (((pair.engine z).terminates call).map fun s =>
        (if s.role = .initiator then z else !z, s.ndpId)).toList }
  | .poll z now inbound =>
    let (engine, step) := (pair.engine z).poll now inbound
    { pair with
      engine := Function.update pair.engine z engine
      flight := afterPoll pair.flight z inbound step }
  | .lose z bytes =>
    { pair with flight := Function.update pair.flight z ((pair.flight z).erase bytes) }

def run (pair : Pair) (actions : List PairAction) : Pair := actions.foldl (step sha256) pair

/-- What is handed in was on its way, each frame once. -/
def InFlight (pair : Pair) : PairAction → Prop
  | .call _ _ => True
  | .poll z _ inbound => (inbound.map RxFrame.bytes).Subperm (pair.flight z)
  | .lose z bytes => bytes ∈ pair.flight z

/-- No frame is on its way, nothing is due, and no request has an attempt left. -/
structure Quiet (pair : Pair) : Prop where
  flight : ∀ z, pair.flight z = []
  idle : ∀ z, ∀ s ∈ (pair.engine z).ndps,
    s.pendingTx = none ∧ (s.state = .awaitingResponse → Exhausted s)

/-- The path of `id` that `x` asked for, where it is held. -/
def asking (cfg : Bool → NanConfig) (pair : Pair) (x : Bool) (ndpId : UInt8) : Option NdpSession :=
  (pair.engine x).path ⟨(cfg !x).nmi, ndpId, .initiator⟩

/-- The path of `id` on the side that was asked by `x`. -/
def answering (cfg : Bool → NanConfig) (pair : Pair) (x : Bool) (ndpId : UInt8) :
    Option NdpSession :=
  (pair.engine !x).path ⟨(cfg x).nmi, ndpId, .responder⟩

def Established (held : Option NdpSession) : Prop := ∃ s, held = some s ∧ s.state = .established

/-- The two sides agree on every path. -/
structure Agrees (cfg : Bool → NanConfig) (pair : Pair) : Prop where
  established : ∀ x ndpId,
    Established (pair.asking cfg x ndpId) ↔ Established (pair.answering cfg x ndpId)
  terminated : ∀ x ndpId, (x, ndpId) ∈ pair.terminated →
    ¬ Established (pair.asking cfg x ndpId) ∧ ¬ Established (pair.answering cfg x ndpId)
  confirmed : ∀ z, ∀ s ∈ (pair.engine z).ndps, s.state ≠ .awaitingConfirm

end Pair

/-- Among the frames is one for `z` that says that of a path. -/
def Carried (cfg : Bool → NanConfig) (z : Bool) (subtype : NafSubtype) (ndpId : UInt8)
    (frames : List Bytes) : Prop :=
  ∃ bytes ∈ frames, ∃ m, pathMessage bytes = some m ∧ m.subtype = subtype ∧
    m.dest = some (cfg z).nmi ∧ m.ndpe.ndpId = ndpId

namespace Pair

def view (cfg : Bool → NanConfig) (pair : Pair) (x : Bool) (ndpId : UInt8) : PathView where
  asking := pair.asking cfg x ndpId
  answering := pair.answering cfg x ndpId
  request := Carried cfg (!x) .dataPathRequest ndpId (pair.flight !x)
  response := Carried cfg x .dataPathResponse ndpId (pair.flight x)
  confirm := Carried cfg (!x) .dataPathConfirm ndpId (pair.flight !x)

def lose (pair : Pair) (z : Bool) (bytes : Bytes) : Pair :=
  { pair with flight := Function.update pair.flight z ((pair.flight z).erase bytes) }

/-- Where the two sides do not come apart: no held path is terminated; no confirm is lost, and no
message that a request without further attempts depends on; a request that was given up is not
heard by a side that would accept it, and none is given up that such a side holds. -/
def KeepsTogether (cfg : Bool → NanConfig) (pair : Pair) : PairAction → Prop
  | .call z call => (pair.engine z).terminates call = none
  | .poll z now inbound =>
    (∀ rx ∈ inbound, ∀ m, pathMessage rx.bytes = some m → m.subtype = .dataPathRequest →
      m.dest = some (cfg z).nmi → (cfg z).ndpAutoAccept = true →
        pair.asking cfg (!z) m.ndpe.ndpId ≠ none) ∧
    (((pair.engine z).receive now inbound).1.inDw now = true →
      ∀ s ∈ ((pair.engine z).receive now inbound).1.ndps, NanEngine.rearm now s = none →
        s.peer = (cfg !z).nmi → (cfg !z).ndpAutoAccept = true →
          pair.answering cfg z s.ndpId = none)
  | .lose z bytes =>
    (∀ m, pathMessage bytes = some m → m.subtype ≠ .dataPathConfirm) ∧
    ∀ x ndpId, (cfg !x).ndpAutoAccept = true → ((pair.lose z bytes).view cfg x ndpId).Hopeful

end Pair

end NdnExt.Nan
