import NdnExt.Ndnsf.Names
import NdnExt.Ndnsf.Tokens

/-! The provider's loop: requests are acknowledged with a token, selections run the handler. -/

namespace NdnExt.Ndnsf

open NdnExt.Lib

structure Publication where
  name : Name
  payload : Bytes
  deriving DecidableEq

def targetedBatch : Nat := 4

def maxPendingPayloads : Nat := 1024

/-- The arguments of `serve_provider`. -/
structure Serving where
  wire : Wire
  trust : TrustCtx
  node : Name
  service : Name
  ttlSecs : Nat
  handler : PendingCoordination → Bytes → Bytes

/-- The variables of the loop. -/
structure Provider where
  engine : ProviderEngine
  pendingPayloads : HashMap String (Bytes × Nat)

/-- What one pass of the loop gets: the time, the publication, whether the rate limiter admits
its requester, and the random tokens. -/
structure Arrival where
  nowSecs : Nat
  publication : Publication
  admitted : Bool
  drawn : Nat → ProviderToken

/-- A message that passed the filters and the trust gate. -/
inductive Accepted where
  | request (requester reqid : Name) (req : RequestMessage)
  | selection (requester reqid : Name) (sel : SelectionMessage)
  deriving DecidableEq

/-- What one pass of the loop does; `handled` are the arguments the handler ran with. -/
structure Served where
  provider : Provider
  published : List Publication
  handled : Option (PendingCoordination × Bytes)

def Provider.new (ttlSecs : Nat) : Provider := ⟨.new ttlSecs, ∅⟩

namespace Serving

variable (serving : Serving)

def accepted (arrival : Arrival) : Option Accepted :=
  let name := arrival.publication.name
  let requester := beforeNdnsf name
  match phaseOf name with
  | some .request =>
    if serviceOf name ≠ some serving.service then none
    else if !arrival.admitted then none
    else match serving.trust.unsealed arrival.publication.payload requester name with
      | none => none
      | some payload =>
        match RequestMessage.decode serving.wire payload with
        | .ok req => some (.request requester (requestIdOf name) req)
        | _ => none
  | some .selection =>
    if !selectionMatchesService name serving.service then none
    else match serving.trust.unsealed arrival.publication.payload requester name with
      | none => none
      | some payload =>
        match SelectionMessage.decode serving.wire payload with
        | .ok sel => some (.selection requester (requestIdOf name) sel)
        | _ => none
  | _ => none

def publish (name : Name) (message : Bytes) : Publication := ⟨name, serving.trust.sealed name message⟩

def sendAck (requester reqid : Name) (ack : AckMessage) : Publication :=
  serving.publish (ackName serving.wire serving.node requester serving.service reqid)
    (ack.encode serving.wire)

def sendResponse (requester reqid : Name) (resp : ResponseMessage) : Publication :=
  serving.publish (responseName serving.wire serving.node requester serving.service reqid)
    (resp.encode serving.wire)

/-- Both maps lose what has expired. -/
def reap (provider : Provider) (nowSecs : Nat) : Provider where
  engine := (provider.engine.cleanupExpired nowSecs).2
  pendingPayloads := provider.pendingPayloads.retain (fun _ pending =>
    nowSecs - pending.2 < serving.ttlSecs)

/-- The key of a pending payload. -/
def keyOf (reqid : Name) : String := serving.wire.toUri reqid

def onNormal (provider : Provider) (arrival : Arrival) (requester reqid : Name)
    (req : RequestMessage) : Served :=
  if provider.pendingPayloads.keys.length ≥ maxPendingPayloads then
    ⟨provider, [serving.sendAck requester reqid (.negative queueFull req.userToken)], none⟩
  else
    let payloads := provider.pendingPayloads.insert (serving.keyOf reqid)
      (req.payload, arrival.nowSecs)
    let result := provider.engine.onRequest arrival.nowSecs requester serving.service req
      (arrival.drawn 0)
    ⟨⟨result.2, payloads⟩, [serving.sendAck requester reqid result.1], none⟩

def batch (arrival : Arrival) : List ProviderToken := (List.range targetedBatch).map arrival.drawn

def onBootstrap (provider : Provider) (arrival : Arrival) (requester reqid : Name)
    (req : RequestMessage) : Served :=
  let engine := (batch arrival).foldl (fun engine token =>
    engine.issueToken arrival.nowSecs requester serving.service req.userToken token)
    provider.engine
  let toks := "\n".intercalate ((batch arrival).map ProviderToken.wire)
  ⟨{ provider with engine := engine },
    [serving.sendResponse requester reqid ⟨true, "", asBytes toks⟩], none⟩

def targetedSelection (reqid : Name) (req : RequestMessage) : SelectionMessage :=
  { SelectionMessage.default with
    providerToken := req.providerToken
    requestId := serving.keyOf reqid }

def onTargeted (provider : Provider) (arrival : Arrival) (requester reqid : Name)
    (req : RequestMessage) : Served :=
  let sel := serving.targetedSelection reqid req
  let result := provider.engine.onSelection arrival.nowSecs sel requester (fun coord =>
    serving.handler coord req.payload)
  let handled := match (provider.engine.consumeSelection arrival.nowSecs sel requester).1 with
    | .ok coord => some (coord, req.payload)
    | _ => none
  match result.1 with
  | .ok resp =>
    ⟨{ provider with engine := result.2 }, [serving.sendResponse requester reqid resp], handled⟩
  | _ => ⟨{ provider with engine := result.2 }, [], handled⟩

/-- The token of a selection is redeemed by proof hash, or as plain text in the legacy shape. -/
def redeem (provider : Provider) (nowSecs : Nat) (requester : Name) (sel : SelectionMessage) :
    Outcome FlowError PendingCoordination × ProviderEngine :=
  if sel.providerEntries ≠ [] then
    let result := provider.engine.consumeSelectionCompact serving.wire nowSecs sel requester
      serving.node serving.service
    (do return (← result.1).1, result.2)
  else provider.engine.consumeSelection nowSecs sel requester

def payloadFor (provider : Provider) (reqid : Name) : Bytes :=
  ((provider.pendingPayloads.lookup (serving.keyOf reqid)).map Prod.fst).getD []

def onSelection (provider : Provider) (arrival : Arrival) (requester reqid : Name)
    (sel : SelectionMessage) : Served :=
  let payload := serving.payloadFor provider reqid
  let result := serving.redeem provider arrival.nowSecs requester sel
  match result.1 with
  | .ok coord =>
    ⟨⟨result.2, provider.pendingPayloads.erase (serving.keyOf reqid)⟩,
      [serving.sendResponse requester reqid ⟨true, "", serving.handler coord payload⟩],
      some (coord, payload)⟩
  | _ => ⟨{ provider with engine := result.2 }, [], none⟩

/-- One pass of the loop of `serve_provider`. -/
def serve (provider : Provider) (arrival : Arrival) : Served :=
  let provider := serving.reap provider arrival.nowSecs
  match serving.accepted arrival with
  | none => ⟨provider, [], none⟩
  | some (.request requester reqid req) =>
    match req.requestMode with
    | .normal => serving.onNormal provider arrival requester reqid req
    | .targetedBootstrap => serving.onBootstrap provider arrival requester reqid req
    | .targeted => serving.onTargeted provider arrival requester reqid req
  | some (.selection requester reqid sel) =>
    serving.onSelection provider arrival requester reqid sel

end Serving
end NdnExt.Ndnsf
