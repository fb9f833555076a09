import NdnExt.Ndnsf.Grants

/-! On which payload the provider's handler runs. -/

namespace NdnExt.Ndnsf

open NdnExt.Lib NdnExt.Lib.System PendingProviderTokens

/-- The provider with the tokens it issued, the newest first, and the numbers of those that the
handler ran for. -/
structure History where
  provider : Provider
  grants : List Grant
  runs : List Nat

/-- The numbers after a pass that ran the handler with the arguments, for the grant taken. -/
def History.ran (history : History) (handled : Option (PendingCoordination × Bytes))
    (taken : Option Grant) : List Nat :=
  match handled with
  | some _ => (taken.map Grant.number).toList ++ history.runs
  | none => history.runs

def History.record (history : History) (reaped : Provider) (nowSecs : Nat) (served : Served)
    (issued : List Issuance) : History where
  provider := served.provider
  grants := issued.foldl (addGrant nowSecs) history.grants
  runs := history.ran served.handled
    (consumed history.grants reaped.engine served.provider.engine)

def Accepted.requester : Accepted → Name
  | request requester _ _ => requester
  | selection requester _ _ => requester

/-- The payload is that of the REQUEST for which the token was issued. -/
def RunsOn (message : Accepted) (grant : Grant) (payload : Bytes) : Prop :=
  match grant.purpose, message with
  | .request _ issued, _ => payload = issued
  | .targeted, .request _ _ req => payload = req.payload
  | .targeted, .selection _ _ _ => False

namespace Serving

variable (serving : Serving)

def reaped (history : History) (arrival : Arrival) : Provider :=
  serving.reap history.provider arrival.nowSecs

def served (history : History) (arrival : Arrival) : Served :=
  serving.serve history.provider arrival

def next (history : History) (arrival : Arrival) : History :=
  history.record (serving.reaped history arrival) arrival.nowSecs (serving.served history arrival)
    (serving.issuances (serving.reaped history arrival) arrival)

def step (history : History) (arrival : Arrival) : Option History :=
  some (serving.next history arrival)

def start : History := ⟨.new serving.ttlSecs, [], []⟩

/-- The pass runs the handler on the coordination's own request, and a selection leaves the
payloads of other requesters. -/
structure OwnRequest (history : History) (arrival : Arrival) : Prop where
  own : ∀ coord payload, (serving.served history arrival).handled = some (coord, payload) →
    ∃ message grant, serving.accepted arrival = some message ∧
      consumed history.grants (serving.reaped history arrival).engine
        (serving.next history arrival).provider.engine = some grant ∧
      grant.coord = coord ∧ coord.requester = message.requester ∧ RunsOn message grant payload
  undisturbed : ∀ requester reqid sel,
    serving.accepted arrival = some (.selection requester reqid sel) → ∀ key pending,
    (serving.reaped history arrival).pendingPayloads.lookup key = some pending →
    ∃ holder, holderOf history.grants key = some holder ∧ (holder.coord.requester ≠ requester →
      (serving.next history arrival).provider.pendingPayloads.lookup key = some pending)

/-- What must hold of a token that is pending when the message is accepted. -/
def Apart (reaped : Provider) (token : ProviderToken) (coord : PendingCoordination)
    (purpose : Purpose) : Accepted → Prop
  | .request requester reqid req =>
    match req.requestMode with
    | .normal => reaped.pendingPayloads.keys.length < maxPendingPayloads →
        purpose.key ≠ some (serving.keyOf reqid)
    | .targetedBootstrap => True
    | .targeted => token = ⟨req.providerToken⟩ → coord.requester = requester →
        purpose = .targeted
  | .selection requester reqid sel =>
    Presents serving.wire (serving.selectionOp requester sel) token →
      coord.requester = requester → purpose.key = some (serving.keyOf reqid)

/-- No REQUEST takes the id of one whose token is pending, a SELECTION is sent under the id that
its token was issued for, and a Targeted REQUEST presents a token of a bootstrap. -/
def Separate (history : History) (arrival : Arrival) : Prop :=
  ∀ message, serving.accepted arrival = some message → ∀ token coord created grant,
    (serving.reaped history arrival).engine.tokens.entries.lookup token = some (coord, created) →
    grantOf history.grants token = some grant →
    serving.Apart (serving.reaped history arrival) token coord grant.purpose message

end Serving

theorem lookup_reap {serving : Serving} {provider : Provider} {nowSecs : Nat}
    {token : ProviderToken} {entry : PendingCoordination × Nat}
    (found : (serving.reap provider nowSecs).engine.tokens.entries.lookup token = some entry) :
    provider.engine.tokens.entries.lookup token = some entry ∧
      nowSecs - entry.2 < provider.engine.tokens.ttlSecs := by
  have kept := (provider.engine.cleaned nowSecs token).symm.trans found
  rcases Option.filter_eq_some_iff.mp kept with ⟨before, young⟩
  exact ⟨before, of_decide_eq_true young⟩

namespace Serving

variable {serving : Serving}

variable {arrival : Arrival} {history : History}

section

variable {reaped : Provider} {served : Served} {issued : List Issuance} (passes : Pass serving
  reaped arrival served issued)
include passes

theorem granted_record
    (granted : Granted reaped.engine.tokens.entries history.grants history.runs) :
    Granted (history.record reaped arrival.nowSecs served issued).provider.engine.tokens.entries
      (history.record reaped arrival.nowSecs served issued).grants
      (history.record reaped arrival.nowSecs served issued).runs := by
  have ran : ∀ {coord requester presents} {after : ProviderEngine},
      @Redeems FlowError reaped.engine.tokens arrival.nowSecs requester presents (.ok coord)
        after.tokens →
      Granted after.tokens.entries history.grants
        (((consumed history.grants reaped.engine after).map Grant.number).toList ++
          history.runs) := by
    intro coord requester presents after redeems
    rcases consumed_redeemed granted redeems with
      ⟨token, created, grant, taken, _, found, _, grantedBy, _, erased⟩
    rw [taken, erased]
    exact granted.run found grantedBy
  cases passes with
  | idle => exact granted
  | normal => exact granted.add (fun _ _ found => lookup_issueToken found)
  | @bootstrap requester reqid req =>
    exact granted.batch arrival.nowSecs (serving.coordination requester req) (batch arrival)
  | rejected redeems => exact granted.sub (fun _ _ found => redeems.known found)
  | targeted _ _ redeems => exact ran redeems
  | selected _ redeems => exact ran redeems

theorem Pass.ttl :
    served.provider.engine.tokens.ttlSecs = reaped.engine.tokens.ttlSecs := by
  cases passes with
  | idle | normal => rfl
  | @bootstrap requester reqid req =>
    exact issueToken_ttl arrival.nowSecs (serving.coordination requester req) (batch arrival) _
  | rejected redeems => exact redeems.ttl
  | targeted _ _ redeems => exact redeems.ttl
  | selected _ redeems => exact redeems.ttl

end

theorem waiting_reap {provider : Provider} {grants : List Grant}
    (ttl : provider.engine.tokens.ttlSecs = serving.ttlSecs)
    (waiting : Waiting provider.engine.tokens.entries provider.pendingPayloads grants)
    (nowSecs : Nat) :
    Waiting (serving.reap provider nowSecs).engine.tokens.entries
      (serving.reap provider nowSecs).pendingPayloads grants where
  held := by
    intro key pending found
    have kept := (HashMap.lookup_retain _ _ _).symm.trans found
    exact waiting.held key pending (Option.filter_eq_some_iff.mp kept).1
  waits := by
    intro token coord created grant key payload found grantedBy purpose
    rcases lookup_reap found with ⟨before, young⟩
    rcases waiting.waits token coord created grant key payload before grantedBy purpose with
      ⟨holds, pending⟩
    refine ⟨holds, (HashMap.lookup_retain _ _ _).trans ?_⟩
    rw [pending, Option.filter_some, if_pos]
    rw [ttl] at young
    exact decide_eq_true young

section Passing

variable {reaped : Provider} {arrival : Arrival} {served : Served} {issued : List Issuance}
  {history : History}

variable {coord : PendingCoordination}

/-- The grant of the token that a selection redeems was issued under the selection's id. -/
theorem selected_key {requester reqid : Name} {sel : SelectionMessage} {token : ProviderToken}
    {grant : Grant}
    (apart : serving.Apart reaped token coord grant.purpose (.selection requester reqid sel))
    (presented : Presents serving.wire (serving.selectionOp requester sel) token)
    (own : coord.requester = requester) : grant.purpose.key = some (serving.keyOf reqid) :=
  apart presented own

section

variable (passes : Pass serving reaped arrival served issued)
  (granted : Granted reaped.engine.tokens.entries history.grants history.runs)
include passes granted

theorem consumed_record {payload : Bytes}
    (handled : served.handled = some (coord, payload)) :
    ∃ grant, consumed history.grants reaped.engine served.provider.engine = some grant ∧ grant.coord = coord := by
  cases passes with
  | idle | normal | bootstrap | rejected => cases handled
  | targeted _ _ redeems | selected _ redeems =>
    cases handled
    rcases consumed_redeemed granted redeems with ⟨_, _, grant, taken, _, _, _, _, same, _⟩
    exact ⟨grant, taken, same⟩

variable
  (waiting : Waiting reaped.engine.tokens.entries reaped.pendingPayloads history.grants)
  (apart : ∀ message, serving.accepted arrival = some message → ∀ token coord created grant,
    reaped.engine.tokens.entries.lookup token = some (coord, created) →
    grantOf history.grants token = some grant →
    serving.Apart reaped token coord grant.purpose message)
include waiting apart

theorem waiting_record :
    Waiting (history.record reaped arrival.nowSecs served issued).provider.engine.tokens.entries
      (history.record reaped arrival.nowSecs served issued).provider.pendingPayloads
      (history.record reaped arrival.nowSecs served issued).grants := by
  cases passes with
  | idle => exact waiting
  | @normal requester reqid req published accepts mode room =>
    refine waiting.request ?_ (fun _ _ found => lookup_issueToken found)
    intro token coord created grant found grantedBy
    have apart := apart _ accepts token coord created grant found grantedBy
    rw [Apart, mode] at apart
    exact apart room
  | @bootstrap requester reqid req =>
    exact waiting.batch arrival.nowSecs (serving.coordination requester req) (batch arrival)
  | rejected redeems => exact waiting.sub (fun _ _ found => redeems.known found)
  | targeted _ _ redeems => exact waiting.sub (fun _ _ found => redeems.known found)
  | @selected requester reqid sel coord engine published accepts redeems =>
    rcases consumed_redeemed granted redeems with ⟨token, created, grant, _, presented, found, own, grantedBy, _, erased⟩
    have keyed := selected_key (apart _ accepts token coord created grant found grantedBy)
      presented own
    have selected := waiting.select found grantedBy keyed
    rw [← erased] at selected
    exact selected

theorem own_record {payload : Bytes} (handled : served.handled = some (coord, payload)) :
    ∃ message grant, serving.accepted arrival = some message ∧
      consumed history.grants reaped.engine served.provider.engine = some grant ∧ grant.coord = coord ∧
      coord.requester = message.requester ∧ RunsOn message grant payload := by
  cases passes with
  | idle | normal | bootstrap | rejected => cases handled
  | @targeted requester reqid req coord engine published accepts mode redeems =>
    cases handled
    rcases consumed_redeemed granted redeems with ⟨token, created, grant, taken, presented, found, own, grantedBy, same, _⟩
    refine ⟨_, grant, accepts, taken, same, own, ?_⟩
    have apart := apart _ accepts token coord created grant found grantedBy
    rw [Apart, mode] at apart
    unfold RunsOn
    rw [apart presented own]
  | @selected requester reqid sel coord engine published accepts redeems =>
    cases handled
    rcases consumed_redeemed granted redeems with ⟨token, created, grant, taken, presented, found, own, grantedBy, same, _⟩
    refine ⟨_, grant, accepts, taken, same, own, ?_⟩
    have keyed := selected_key (apart _ accepts token coord created grant found grantedBy)
      presented own
    rcases Purpose.key_eq keyed with ⟨issued, purpose⟩
    have pending := (waiting.waits token coord created grant _ issued found grantedBy purpose).2
    unfold RunsOn
    rw [purpose]
    rw [payloadFor, pending]
    rfl

theorem undisturbed_record {requester reqid : Name} {sel : SelectionMessage}
    (selects : serving.accepted arrival = some (.selection requester reqid sel)) {key : String}
    {pending : Bytes × Nat} {holder : Grant}
    (found : reaped.pendingPayloads.lookup key = some pending)
    (holds : holderOf history.grants key = some holder)
    (other : holder.coord.requester ≠ requester) :
    served.provider.pendingPayloads.lookup key = some pending := by
  cases passes with
  | idle | rejected | targeted => exact found
  | normal accepts | bootstrap accepts =>
    rw [selects] at accepts
    cases accepts
  | @selected requester' reqid' sel' coord engine published accepts redeems =>
    rw [selects] at accepts
    cases accepts
    rcases consumed_redeemed granted redeems with ⟨token, created, grant, _, presented, found', own, grantedBy, same, _⟩
    have keyed := selected_key (apart _ selects token coord created grant found' grantedBy)
      presented own
    rcases Purpose.key_eq keyed with ⟨issued, purpose⟩
    have held := (waiting.waits token coord created grant _ issued found' grantedBy purpose).1
    refine HashMap.lookup_erase_eq_some.mpr ⟨?_, found⟩
    intro equal
    rw [equal, held] at holds
    cases holds
    exact other (same ▸ own)

end

end Passing

/-- What holds after passes that were all apart. -/
structure Settled (serving : Serving) (history : History) : Prop where
  ttl : history.provider.engine.tokens.ttlSecs = serving.ttlSecs
  granted : Granted history.provider.engine.tokens.entries history.grants history.runs
  waiting : Waiting history.provider.engine.tokens.entries history.provider.pendingPayloads
    history.grants

theorem granted_start : Granted serving.start.provider.engine.tokens.entries serving.start.grants
    serving.start.runs where
  numbered := rfl
  known := nofun
  once := List.nodup_nil
  ran := nofun

theorem settled_start : Settled serving serving.start where
  ttl := rfl
  granted := granted_start
  waiting := ⟨nofun, nofun⟩

theorem granted_reap {history : History} (arrival : Arrival)
    (granted : Granted history.provider.engine.tokens.entries history.grants history.runs) :
    Granted (serving.reaped history arrival).engine.tokens.entries history.grants history.runs :=
  granted.sub (fun _ _ found => (lookup_reap found).1)

theorem granted_next (arrival : Arrival)
    (granted : Granted history.provider.engine.tokens.entries history.grants history.runs) :
    Granted (serving.next history arrival).provider.engine.tokens.entries
      (serving.next history arrival).grants (serving.next history arrival).runs :=
  granted_record (serve_passes history.provider arrival) (granted_reap arrival granted)

theorem settled_next (settled : Settled serving history)
    (separate : serving.Separate history arrival) :
    Settled serving (serving.next history arrival) where
  ttl := (serve_passes history.provider arrival).ttl.trans settled.ttl
  granted := granted_next arrival settled.granted
  waiting := waiting_record (serve_passes history.provider arrival)
    (granted_reap arrival settled.granted)
    (waiting_reap settled.ttl settled.waiting arrival.nowSecs) separate

theorem ownRequest_separate
    (settled : Settled serving history) (separate : serving.Separate history arrival) :
    serving.OwnRequest history arrival := by
  have passes := @serve_passes serving history.provider arrival
  have granted := @granted_reap serving history arrival settled.granted
  have waiting := waiting_reap settled.ttl settled.waiting arrival.nowSecs
  constructor
  · intro coord payload handled
    exact own_record passes granted waiting separate handled
  · intro requester reqid sel selects key pending found
    rcases waiting.held key pending found with ⟨holder, holds⟩
    exact ⟨holder, holds, fun other =>
      undisturbed_record passes granted waiting separate selects found holds other⟩

/-- No token runs the handler twice, whatever is received. Where the passes were all apart, the
handler runs on the coordination's own request. -/
theorem coordinations_own (serving : Serving) :
    (∀ history, Reachable serving.step serving.start history → history.runs.Nodup ∧
      ∀ arrival coord payload, (serving.served history arrival).handled = some (coord, payload) →
        ∃ grant, (serving.next history arrival).runs = grant.number :: history.runs ∧
          consumed history.grants (serving.reaped history arrival).engine
            (serving.next history arrival).provider.engine = some grant ∧ grant.coord = coord) ∧
    ∀ history, Reaches serving.step serving.Separate serving.start history → ∀ arrival,
      serving.Separate history arrival → serving.OwnRequest history arrival := by
  constructor
  · intro history reaches
    have granted := reaches.invariant (fun history =>
      Granted history.provider.engine.tokens.entries history.grants history.runs) granted_start
      (by
        intro history arrival next granted _ taken
        cases taken
        exact granted_next arrival granted)
    refine ⟨granted.once, ?_⟩
    intro arrival coord payload handled
    rcases consumed_record (serve_passes history.provider arrival) (granted_reap arrival granted)
      handled with ⟨grant, taken, same⟩
    have taken' : consumed history.grants (serving.reaped history arrival).engine
        (serving.next history arrival).provider.engine = some grant := taken
    refine ⟨grant, ?_, taken', same⟩
    have runs : (serving.next history arrival).runs = history.ran (serving.served history
        arrival).handled (consumed history.grants (serving.reaped history arrival).engine
          (serving.next history arrival).provider.engine) := rfl
    rw [runs, handled, taken']
    rfl
  · intro history reaches arrival separate
    have settled := reaches.invariant (Settled serving) settled_start
      (by
        intro history arrival next settled separate taken
        cases taken
        exact settled_next settled separate)
    exact ownRequest_separate settled separate

end Serving

def weather : Serving where
  wire := pinnedWire
  trust := signedTrust (plain ["p"])
  node := plain ["p"]
  service := plain ["svc"]
  ttlSecs := 60
  handler _ payload := payload

def requestFrom (requester : Name) (userToken : String) (payload : Bytes) (drawn : ProviderToken) :
    Arrival where
  nowSecs := 1
  publication :=
    let name := requestName requester (plain ["svc"]) (plain ["r1"])
    ⟨name, signedBlob name requester (RequestMessage.encode pinnedWire
      { RequestMessage.default with
        requestId := "/r1"
        userToken := userToken
        payload := payload })⟩
  admitted := true
  drawn _ := drawn

def selectionFrom (requester : Name) (token : String) : Arrival where
  nowSecs := 2
  publication :=
    let name := compactSelectionName requester (plain ["svc"]) (plain ["r1"])
    ⟨name, signedBlob name requester (SelectionMessage.encode pinnedWire
      { SelectionMessage.default with requestId := "/r1", providerToken := token })⟩
  admitted := true
  drawn _ := ⟨""⟩

def aliceAsks : Arrival := requestFrom (plain ["alice"]) "ua" [1] ⟨"ta"⟩

def bobAsks : Arrival := requestFrom (plain ["bob"]) "ub" [2] ⟨"tb"⟩

def aliceChooses : Arrival := selectionFrom (plain ["alice"]) "ta"

def aliceGrant : Grant where
  number := 0
  token := ⟨"ta"⟩
  coord := ⟨plain ["alice"], plain ["svc"], "ua"⟩
  createdAtSecs := 1
  purpose := .request "/r1" [1]

theorem separate_first (arrival : Arrival) : weather.Separate weather.start arrival := by
  intro message _ token coord created grant found
  cases (lookup_reap found).1

/-- A request and its selection, with nothing in between. -/
theorem coordinations_own_alice : weather.OwnRequest (weather.next weather.start aliceAsks)
    aliceChooses := by
  have reaches : Reaches weather.step weather.Separate weather.start
      (weather.next weather.start aliceAsks) := Reaches.start.step (separate_first aliceAsks) rfl
  refine (Serving.coordinations_own weather).2 _ reaches _ ?_
  intro message accepts token coord created grant _ grantedBy
  have selects : weather.accepted aliceChooses = some (.selection (plain ["alice"]) (plain ["r1"])
      { SelectionMessage.default with requestId := "/r1", providerToken := "ta" }) := by
    decide +kernel
  have granted : (weather.next weather.start aliceAsks).grants = [aliceGrant] := by decide +kernel
  rw [granted] at grantedBy
  have only := List.mem_singleton.mp (grantOf_some grantedBy).1
  rw [selects] at accepts
  cases accepts
  rw [only]
  intro _ _
  decide +kernel

/-- Alice and Bob chose the same request id: Alice's selection runs on Bob's payload. -/
theorem bob_payload_for_alice : ¬ ∀ history, Reachable weather.step weather.start history →
    ∀ arrival, weather.OwnRequest history arrival := by
  intro claim
  have reached : Reachable weather.step weather.start
      (weather.next (weather.next weather.start aliceAsks) bobAsks) :=
    (Reaches.start.step trivial rfl).step trivial rfl
  have handled : (weather.served (weather.next (weather.next weather.start aliceAsks) bobAsks)
      aliceChooses).handled = some (aliceGrant.coord, [2]) := by decide +kernel
  have taken : consumed (weather.next (weather.next weather.start aliceAsks) bobAsks).grants
      (weather.reaped (weather.next (weather.next weather.start aliceAsks) bobAsks)
        aliceChooses).engine
      (weather.next (weather.next (weather.next weather.start aliceAsks) bobAsks)
        aliceChooses).provider.engine = some aliceGrant := by decide +kernel
  rcases (claim _ reached aliceChooses).own _ _ handled with
    ⟨message, grant, _, taken', _, _, runs⟩
  rw [taken] at taken'
  cases taken'
  have same : ([2] : Bytes) = [1] := runs
  exact absurd same (by decide)

end NdnExt.Ndnsf
