import NdnExt.Ndnsf.Driver
import NdnExt.Ndnsf.SingleUse

/-! What one pass of the provider's loop can do. -/

namespace NdnExt.Ndnsf

open NdnExt.Lib PendingProviderTokens

/-- What a token was issued for: a normal REQUEST, under whose id its payload is pending, or a
Targeted REQUEST that is still to come. -/
inductive Purpose where
  | request (key : String) (payload : Bytes)
  | targeted
  deriving DecidableEq

def Purpose.key : Purpose → Option String
  | request key _ => some key
  | targeted => none

structure Issuance where
  token : ProviderToken
  coord : PendingCoordination
  purpose : Purpose

namespace Serving

variable (serving : Serving)

def coordination (requester : Name) (req : RequestMessage) : PendingCoordination :=
  ⟨requester, serving.service, req.userToken⟩

/-- The tokens that a pass issues, and what for. -/
def issuances (reaped : Provider) (arrival : Arrival) : List Issuance :=
  match serving.accepted arrival with
  | some (.request requester reqid req) =>
    match req.requestMode with
    | .normal =>
      if reaped.pendingPayloads.keys.length ≥ maxPendingPayloads then []
      else [⟨arrival.drawn 0, serving.coordination requester req,
        .request (serving.keyOf reqid) req.payload⟩]
    | .targetedBootstrap => (batch arrival).map (fun token =>
      ⟨token, serving.coordination requester req, .targeted⟩)
    | .targeted => []
  | _ => []

/-- How a selection presents its token. -/
def selectionOp (requester : Name) (sel : SelectionMessage) : TokenOp :=
  if sel.providerEntries ≠ [] then .consumeCompact sel requester serving.node serving.service
  else .consume sel requester

/-- What a pass does to the provider whose maps have been reaped. -/
inductive Pass (reaped : Provider) (arrival : Arrival) : Served → List Issuance → Prop
  | idle {published} : Pass reaped arrival ⟨reaped, published, none⟩ []
  | normal {requester reqid req published} :
      serving.accepted arrival = some (.request requester reqid req) →
      req.requestMode = .normal →
      reaped.pendingPayloads.keys.length < maxPendingPayloads →
      Pass reaped arrival
        ⟨⟨reaped.engine.issueToken arrival.nowSecs requester serving.service req.userToken
            (arrival.drawn 0),
          reaped.pendingPayloads.insert (serving.keyOf reqid) (req.payload, arrival.nowSecs)⟩,
          published, none⟩
        [⟨arrival.drawn 0, serving.coordination requester req,
          .request (serving.keyOf reqid) req.payload⟩]
  | bootstrap {requester reqid req published} :
      serving.accepted arrival = some (.request requester reqid req) →
      Pass reaped arrival
        ⟨⟨(batch arrival).foldl (fun engine token =>
            engine.issueToken arrival.nowSecs requester serving.service req.userToken token)
            reaped.engine, reaped.pendingPayloads⟩, published, none⟩
        ((batch arrival).map (fun token =>
          ⟨token, serving.coordination requester req, .targeted⟩))
  | rejected {requester presents error engine published} :
      @Redeems FlowError reaped.engine.tokens arrival.nowSecs requester presents
        (.err error) engine.tokens →
      Pass reaped arrival ⟨⟨engine, reaped.pendingPayloads⟩, published, none⟩ []
  | targeted {requester reqid req coord engine published} :
      serving.accepted arrival = some (.request requester reqid req) →
      req.requestMode = .targeted →
      @Redeems FlowError reaped.engine.tokens arrival.nowSecs requester
        (fun token => token = ⟨req.providerToken⟩) (.ok coord) engine.tokens →
      Pass reaped arrival
        ⟨⟨engine, reaped.pendingPayloads⟩, published, some (coord, req.payload)⟩ []
  | selected {requester reqid sel coord engine published} :
      serving.accepted arrival = some (.selection requester reqid sel) →
      @Redeems FlowError reaped.engine.tokens arrival.nowSecs requester
        (Presents serving.wire (serving.selectionOp requester sel)) (.ok coord) engine.tokens →
      Pass reaped arrival
        ⟨⟨engine, reaped.pendingPayloads.erase (serving.keyOf reqid)⟩, published,
          some (coord, serving.payloadFor reaped reqid)⟩ []

variable {serving}

theorem Pass.direct {reaped : Provider} {arrival : Arrival} {requester reqid : Name}
    {req : RequestMessage}
    (accepts : serving.accepted arrival = some (.request requester reqid req))
    (mode : req.requestMode = .targeted) :
    Pass serving reaped arrival (serving.onTargeted reaped arrival requester reqid req) [] := by
  have redeems := @consume_call serving.wire reaped.engine arrival.nowSecs
    (serving.targetedSelection reqid req) requester
  unfold onTargeted ProviderEngine.onSelection
  dsimp only
  generalize reaped.engine.consumeSelection arrival.nowSecs (serving.targetedSelection reqid req)
    requester = result at redeems ⊢
  rcases result with ⟨answer, engine⟩
  cases answer with
  | ok coord => exact Pass.targeted accepts mode redeems
  | err error => exact Pass.rejected redeems
  | panic => cases redeems

/-- Both shapes of a selection, as one. -/
theorem redeem_redeems (provider : Provider) (nowSecs : Nat) (requester : Name)
    (sel : SelectionMessage) :
    Redeems provider.engine.tokens nowSecs requester
      (Presents serving.wire (serving.selectionOp requester sel))
      (serving.redeem provider nowSecs requester sel).1
      (serving.redeem provider nowSecs requester sel).2.tokens := by
  unfold redeem selectionOp
  split
  · exact consumeCompact_call provider.engine nowSecs sel requester serving.node serving.service
  · exact consume_call provider.engine nowSecs sel requester

theorem Pass.selection {reaped : Provider} {arrival : Arrival} {requester reqid : Name}
    {sel : SelectionMessage}
    (accepts : serving.accepted arrival = some (.selection requester reqid sel)) :
    Pass serving reaped arrival (serving.onSelection reaped arrival requester reqid sel) [] := by
  have redeems := @redeem_redeems serving reaped arrival.nowSecs requester sel
  unfold onSelection
  generalize serving.redeem reaped arrival.nowSecs requester sel = result at redeems ⊢
  rcases result with ⟨answer, engine⟩
  cases answer with
  | ok coord => exact Pass.selected accepts redeems
  | err error => exact Pass.rejected redeems
  | panic => cases redeems

theorem serve_passes (provider : Provider) (arrival : Arrival) :
    Pass serving (serving.reap provider arrival.nowSecs) arrival (serving.serve provider arrival)
      (serving.issuances (serving.reap provider arrival.nowSecs) arrival) := by
  unfold serve issuances
  cases accepts : serving.accepted arrival with
  | none => exact Pass.idle
  | some message =>
    cases message with
    | selection requester reqid sel => exact Pass.selection accepts
    | request requester reqid req =>
      dsimp only
      cases mode : req.requestMode with
      | normal =>
        dsimp only [onNormal]
        split
        · exact Pass.idle
        · next room => exact Pass.normal accepts mode (Nat.lt_of_not_ge room)
      | targetedBootstrap => exact Pass.bootstrap accepts
      | targeted => exact Pass.direct accepts mode

end Serving
end NdnExt.Ndnsf
