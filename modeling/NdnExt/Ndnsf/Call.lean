import Mathlib.Data.Finset.Insert
import NdnExt.Ndnsf.Driver

/-! The user's side of a call, to one provider or to those a strategy selects, among the publications
of the whole group. -/

namespace NdnExt.Ndnsf

open NdnExt.Lib

/-- A publication as the subscription delivers it; the call does not see who made it. -/
structure Delivery extends Publication where
  byOther : Bool
  deriving DecidableEq

/-- The arguments of `call`. -/
structure Calling where
  wire : Wire
  trust : TrustCtx
  requester : Name
  provider : Name
  service : Name
  requestId : Name
  payload : Bytes
  userToken : String

def makeRequest (requestId userToken : String) (payload : Bytes) : RequestMessage :=
  { RequestMessage.default with
    requestId := requestId
    userToken := userToken
    payload := payload }

def makeCompactSelection (wire : Wire) (requester service : Name) (requestId : String)
    (selected : List (Name × AckMessage)) : SelectionMessage :=
  { SelectionMessage.default with
    requestId := requestId
    providerEntries := selected.map (fun item => ⟨item.1,
      selectionTokenProofHash wire requester item.1 service item.2.providerToken, []⟩) }

/-- What was delivered of the group but for the other members' publications. -/
def undisturbed (deliveries : List Delivery) : List Delivery :=
  deliveries.filter (fun delivery => !delivery.byOther)

namespace Calling

variable (calling : Calling)

def publish (name : Name) (message : Bytes) : Publication :=
  ⟨name, calling.trust.sealed name message⟩

def request : Publication :=
  calling.publish (requestName calling.requester calling.service calling.requestId)
    ((makeRequest (calling.wire.toUri calling.requestId) calling.userToken
      calling.payload).encode calling.wire)

def selection (ack : AckMessage) : Publication :=
  calling.publish (compactSelectionName calling.requester calling.service calling.requestId)
    ((makeCompactSelection calling.wire calling.requester calling.service
      (calling.wire.toUri calling.requestId) [(calling.provider, ack)]).encode calling.wire)

def expects (phase : Phase) (delivery : Delivery) : Bool :=
  phaseOf delivery.name = some phase && requestIdOf delivery.name = calling.requestId

/-- The loops of `call`: the first publication of the phase with the request id, and the rest. -/
def waitFor (phase : Phase) : List Delivery → Option (Delivery × List Delivery)
  | [] => none
  | delivery :: rest =>
    if calling.expects phase delivery then some (delivery, rest) else waitFor phase rest

def opened {A : Type} (decode : Bytes → Outcome MsgError A) (delivery : Delivery) : Option A :=
  match calling.trust.unsealed delivery.payload calling.provider delivery.name with
  | none => none
  | some message =>
    match decode message with
    | .ok value => some value
    | _ => none

def openedAck : Delivery → Option AckMessage := calling.opened (AckMessage.decode calling.wire)

def openedResponse : Delivery → Option ResponseMessage :=
  calling.opened (ResponseMessage.decode calling.wire)

/-- The payload of the RESPONSE, and what was published. -/
def call (deliveries : List Delivery) : Option Bytes × List Publication :=
  match calling.waitFor .ack deliveries with
  | none => (none, [calling.request])
  | some (delivery, rest) =>
    match calling.openedAck delivery with
    | none => (none, [calling.request])
    | some ack =>
      if !ack.status then (none, [calling.request])
      else
        let returned := (calling.waitFor .response rest).bind (fun heard =>
          (calling.openedResponse heard.1).map ResponseMessage.payload)
        (returned, [calling.request, calling.selection ack])

/-- The first ACK with the id is a positive one of the provider, and the first RESPONSE with the
id after it can be read. -/
def Answered (deliveries : List Delivery) : Prop :=
  ∃ ack rest acked response later resp, calling.waitFor .ack deliveries = some (ack, rest) ∧
    calling.openedAck ack = some acked ∧ acked.status = true ∧
    calling.waitFor .response rest = some (response, later) ∧
    calling.openedResponse response = some resp

/-- Neither the first ACK with the id nor the first RESPONSE after it is by another member. -/
def NotPreempted (deliveries : List Delivery) : Prop :=
  ∀ ack rest, calling.waitFor .ack deliveries = some (ack, rest) → ack.byOther = false ∧
    ∀ response later, calling.waitFor .response rest = some (response, later) →
      response.byOther = false

def ownAckName : Name :=
  ackName calling.wire calling.provider calling.requester calling.service calling.requestId

def ownResponseName : Name :=
  responseName calling.wire calling.provider calling.requester calling.service calling.requestId

/-- The first ACK with the id and the first RESPONSE after it are for this requester and service,
and the RESPONSE is a success. -/
def ForThisCall (deliveries : List Delivery) : Prop :=
  ∀ ack rest response later, calling.waitFor .ack deliveries = some (ack, rest) →
    calling.waitFor .response rest = some (response, later) →
    ack.name = calling.ownAckName ∧ response.name = calling.ownResponseName ∧
      ∀ resp, calling.openedResponse response = some resp → resp.status = true

/-- The provider published a positive ACK and after it a successful RESPONSE with the payload,
both for this requester, service and request id. -/
def Published (deliveries : List Delivery) (payload : Bytes) : Prop :=
  ∃ before ack middle response after acked resp,
    deliveries = before ++ ack :: (middle ++ response :: after) ∧
    ack.name = calling.ownAckName ∧ calling.openedAck ack = some acked ∧ acked.status = true ∧
    response.name = calling.ownResponseName ∧ calling.openedResponse response = some resp ∧
    resp.status = true ∧ resp.payload = payload

variable {calling}

variable {deliveries rest : List Delivery} {phase : Phase} {payload : Bytes}

theorem waitFor_append {heard : Delivery}
    (found : calling.waitFor phase deliveries = some (heard, rest)) :
    ∃ before, deliveries = before ++ heard :: rest := by
  induction deliveries with
  | nil => cases found
  | cons delivery tail ih =>
    rw [waitFor] at found
    split at found
    · cases found
      exact ⟨[], rfl⟩
    · rcases ih found with ⟨before, same⟩
      exact ⟨delivery :: before, congrArg (delivery :: ·) same⟩

theorem waitFor_undisturbed {heard : Delivery}
    (found : calling.waitFor phase deliveries = some (heard, rest))
    (own : heard.byOther = false) :
    calling.waitFor phase (undisturbed deliveries) = some (heard, undisturbed rest) := by
  induction deliveries with
  | nil => cases found
  | cons delivery tail ih =>
    rw [waitFor] at found
    rw [undisturbed, List.filter_cons]
    split at found
    · next expected =>
      cases found
      rw [own, Bool.not_false, if_pos rfl, waitFor, if_pos expected]
      rfl
    · next skipped =>
      split
      · rw [waitFor, if_neg skipped]
        exact ih found
      · exact ih found

theorem waitFor_undisturbed_none
    (missing : calling.waitFor phase deliveries = none) :
    calling.waitFor phase (undisturbed deliveries) = none := by
  induction deliveries with
  | nil => rfl
  | cons delivery tail ih =>
    rw [waitFor] at missing
    rw [undisturbed, List.filter_cons]
    split at missing
    · cases missing
    · next skipped =>
      split
      · rw [waitFor, if_neg skipped]
        exact ih missing
      · exact ih missing

theorem call_eq_some :
    (calling.call deliveries).1 = some payload ↔
      ∃ ack rest acked response later resp, calling.waitFor .ack deliveries = some (ack, rest) ∧
        calling.openedAck ack = some acked ∧ acked.status = true ∧
        calling.waitFor .response rest = some (response, later) ∧
        calling.openedResponse response = some resp ∧ resp.payload = payload := by
  constructor
  · intro returned
    unfold call at returned
    cases heard : calling.waitFor .ack deliveries with
    | none =>
      rw [heard] at returned
      cases returned
    | some found =>
      rcases found with ⟨ack, rest⟩
      rw [heard] at returned
      dsimp only at returned
      cases read : calling.openedAck ack with
      | none =>
        rw [read] at returned
        cases returned
      | some acked =>
        rw [read] at returned
        dsimp only at returned
        split at returned
        · cases returned
        · next positive =>
          rcases Option.bind_eq_some_iff.mp returned with ⟨⟨response, later⟩, waited, mapped⟩
          rcases Option.map_eq_some_iff.mp mapped with ⟨resp, opened, same⟩
          have status : acked.status = true := by simpa using positive
          exact ⟨ack, rest, acked, response, later, resp, rfl, read, status, waited, opened,
            same⟩
  · rintro ⟨ack, rest, acked, response, later, resp, heard, read, status, waited, opened, same⟩
    unfold call
    rw [heard]
    dsimp only
    rw [read]
    dsimp only
    rw [status, waited]
    simp only [Bool.not_true, Bool.false_eq_true, if_false, Option.bind_some, opened,
      Option.map_some, same]

theorem answered_iff :
    calling.Answered deliveries ↔ ∃ payload, (calling.call deliveries).1 = some payload := by
  constructor
  · rintro ⟨ack, rest, acked, response, later, resp, heard, read, status, waited, opened⟩
    exact ⟨resp.payload, call_eq_some.mpr
      ⟨ack, rest, acked, response, later, resp, heard, read, status, waited, opened, rfl⟩⟩
  · intro ⟨payload, returned⟩
    rcases call_eq_some.mp returned with
      ⟨ack, rest, acked, response, later, resp, heard, read, status, waited, opened, _⟩
    exact ⟨ack, rest, acked, response, later, resp, heard, read, status, waited, opened⟩

/-- Messages of other members do not pass as the provider's. -/
def Unforgeable (calling : Calling) (deliveries : List Delivery) : Prop :=
  ∀ delivery ∈ deliveries, delivery.byOther = true →
    calling.trust.unsealed delivery.payload calling.provider delivery.name = none

theorem own_of_opened {A : Type} {decode : Bytes → Outcome MsgError A}
    (unforgeable : Unforgeable calling deliveries) {delivery : Delivery}
    (listed : delivery ∈ deliveries) {value : A}
    (opened : calling.opened decode delivery = some value) : delivery.byOther = false := by
  cases other : delivery.byOther with
  | false => rfl
  | true =>
    rw [Calling.opened, unforgeable delivery listed other] at opened
    cases opened

theorem waitFor_listed {heard : Delivery}
    (found : calling.waitFor phase deliveries = some (heard, rest)) :
    heard ∈ deliveries ∧ ∀ delivery ∈ rest, delivery ∈ deliveries := by
  rcases waitFor_append found with ⟨before, same⟩
  rw [same]
  constructor
  · exact List.mem_append_right _ List.mem_cons_self
  · intro delivery listed
    exact List.mem_append_right _ (List.mem_cons_of_mem _ listed)

/-- A call that ends with a payload among all publications ends with it without the others'. -/
theorem call_own (unforgeable : Unforgeable calling deliveries)
    (returned : (calling.call deliveries).1 = some payload) :
    (calling.call (undisturbed deliveries)).1 = some payload := by
  rcases call_eq_some.mp returned with
    ⟨ack, rest, acked, response, later, resp, heard, read, status, waited, opened, same⟩
  have listed := waitFor_listed heard
  have ownAck := own_of_opened unforgeable listed.1 read
  have ownResponse := own_of_opened unforgeable (listed.2 _ (waitFor_listed waited).1) opened
  exact call_eq_some.mpr ⟨ack, undisturbed rest, acked, response, undisturbed later, resp,
    waitFor_undisturbed heard ownAck, read, status, waitFor_undisturbed waited ownResponse,
    opened, same⟩

theorem call_notPreempted
    (notPreempted : calling.NotPreempted deliveries) :
    calling.call deliveries = calling.call (undisturbed deliveries) := by
  unfold call
  cases heard : calling.waitFor .ack deliveries with
  | none => rw [waitFor_undisturbed_none heard]
  | some found =>
    rcases found with ⟨ack, rest⟩
    rcases notPreempted ack rest heard with ⟨own, ownResponse⟩
    rw [waitFor_undisturbed heard own]
    dsimp only
    cases waited : calling.waitFor .response rest with
    | none => rw [waitFor_undisturbed_none waited]
    | some found =>
      rcases found with ⟨response, later⟩
      rw [waitFor_undisturbed waited (ownResponse response later waited)]
      rfl

theorem notPreempted_of_same
    (unforgeable : Unforgeable calling deliveries)
    (same : (calling.call deliveries).1 = (calling.call (undisturbed deliveries)).1)
    (answered : calling.Answered (undisturbed deliveries)) : calling.NotPreempted deliveries := by
  rcases answered_iff.mp answered with ⟨payload, returned⟩
  rcases call_eq_some.mp (same.trans returned) with
    ⟨ack, rest, acked, response, later, resp, heard, read, _, waited, opened, _⟩
  have listed := waitFor_listed heard
  intro ack' rest' heard'
  rw [heard] at heard'
  cases heard'
  refine ⟨own_of_opened unforgeable listed.1 read, ?_⟩
  intro response' later' waited'
  rw [waited] at waited'
  cases waited'
  exact own_of_opened unforgeable (listed.2 _ (waitFor_listed waited).1) opened

theorem published_of_some
    (forThisCall : calling.ForThisCall deliveries)
    (returned : (calling.call deliveries).1 = some payload) :
    calling.Published deliveries payload := by
  rcases call_eq_some.mp returned with
    ⟨ack, rest, acked, response, later, resp, heard, read, status, waited, opened, same⟩
  rcases forThisCall ack rest response later heard waited with ⟨ackFor, responseFor, success⟩
  rcases waitFor_append heard with ⟨before, split⟩
  rcases waitFor_append waited with ⟨middle, split'⟩
  rw [split'] at split
  exact ⟨before, ack, middle, response, later, acked, resp, split, ackFor, read, status,
    responseFor, opened, success resp opened, same⟩

/-- Other members leave a call alone exactly where none of them comes first at a waiting point
of a call that its provider answers; and it ends with what the provider published for it where
what it takes is meant for it. -/
theorem call_undisturbed_iff (calling : Calling) (deliveries : List Delivery)
    (unforgeable : Unforgeable calling deliveries) :
    ((calling.call deliveries).1 = (calling.call (undisturbed deliveries)).1 ↔
      (calling.Answered (undisturbed deliveries) → calling.NotPreempted deliveries)) ∧
    (calling.ForThisCall deliveries → ∀ payload, (calling.call deliveries).1 = some payload →
      calling.Published deliveries payload) := by
  refine ⟨⟨notPreempted_of_same unforgeable, ?_⟩, fun forThisCall _ => published_of_some forThisCall⟩
  intro notPreempted
  by_cases answered : calling.Answered (undisturbed deliveries)
  · rw [call_notPreempted (notPreempted answered)]
  · have unreturned : ∀ payload, (calling.call (undisturbed deliveries)).1 ≠ some payload :=
      fun payload returned => answered (answered_iff.mpr ⟨payload, returned⟩)
    rw [Option.eq_none_iff_forall_ne_some.mpr unreturned]
    exact Option.eq_none_iff_forall_ne_some.mpr (fun payload returned =>
      unreturned payload (call_own unforgeable returned))

end Calling

def aliceCalls : Calling where
  wire := pinnedWire
  trust := signedTrust (plain ["alice"])
  requester := plain ["alice"]
  provider := plain ["p"]
  service := plain ["svc"]
  requestId := plain ["r1"]
  payload := [1]
  userToken := "ua"

def deliver (signer name : Name) (message : Bytes) (byOther : Bool) : Delivery :=
  ⟨⟨name, signedBlob name signer message⟩, byOther⟩

def ackFrom (member : Name) (byOther : Bool) : Delivery :=
  deliver member (ackName pinnedWire member (plain ["alice"]) (plain ["svc"]) (plain ["r1"]))
    (AckMessage.encode pinnedWire ⟨true, "", "ua", "ta", []⟩) byOther

def responseWith (status : Bool) (payload : Bytes) : Delivery :=
  deliver (plain ["p"]) aliceCalls.ownResponseName
    (ResponseMessage.encode pinnedWire ⟨status, if status then "" else "handler timed out",
      payload⟩) false

theorem unforgeable_ack (deliveries : List Delivery)
    (own : ∀ delivery ∈ deliveries, delivery.byOther = false) :
    Calling.Unforgeable aliceCalls (ackFrom (plain ["mallory"]) true :: deliveries) := by
  intro delivery listed other
  rcases List.mem_cons.mp listed with same | earlier
  · rw [same]
    decide +kernel
  · rw [own delivery earlier] at other
    cases other

/-- Mallory's ACK after the provider's does no harm. -/
theorem call_undisturbed_late :
    (aliceCalls.call [ackFrom (plain ["p"]) false, ackFrom (plain ["mallory"]) true,
      responseWith true [7]]).1 = (aliceCalls.call [ackFrom (plain ["p"]) false,
        responseWith true [7]]).1 := by
  have unforgeable : Calling.Unforgeable aliceCalls [ackFrom (plain ["p"]) false,
      ackFrom (plain ["mallory"]) true, responseWith true [7]] := by
    intro delivery listed other
    rcases List.mem_cons.mp listed with same | later
    · rw [same] at other
      cases other
    · exact unforgeable_ack [responseWith true [7]] (by decide) delivery later other
  refine (Calling.call_undisturbed_iff aliceCalls _ unforgeable).1.mpr ?_
  intro _ ack rest heard
  have first : aliceCalls.waitFor .ack [ackFrom (plain ["p"]) false,
      ackFrom (plain ["mallory"]) true, responseWith true [7]] =
        some (ackFrom (plain ["p"]) false,
          [ackFrom (plain ["mallory"]) true, responseWith true [7]]) := by decide +kernel
  rw [first] at heard
  cases heard
  refine ⟨rfl, ?_⟩
  intro response later waited
  have second : aliceCalls.waitFor .response [ackFrom (plain ["mallory"]) true,
      responseWith true [7]] = some (responseWith true [7], []) := by decide +kernel
  rw [second] at waited
  cases waited
  rfl

/-- Mallory's ACK before the provider's ends the call, and a failed RESPONSE ends it like a
success. -/
theorem foreign_ack_ends_call :
    ¬ (∀ deliveries, Calling.Unforgeable aliceCalls deliveries →
        (aliceCalls.call deliveries).1 = (aliceCalls.call (undisturbed deliveries)).1) ∧
      ¬ (∀ deliveries payload, (aliceCalls.call deliveries).1 = some payload →
        aliceCalls.Published deliveries payload) := by
  constructor
  · intro claim
    have unforgeable := unforgeable_ack [ackFrom (plain ["p"]) false, responseWith true [7]]
      (by decide)
    exact absurd (claim _ unforgeable) (by decide +kernel)
  · intro claim
    have returned : (aliceCalls.call [ackFrom (plain ["p"]) false, responseWith false []]).1 =
        some [] := by decide +kernel
    rcases claim _ _ returned with
      ⟨before, ack, middle, response, after, acked, resp, split, _, _, _, _, opened, success, _⟩
    have listed : response ∈ [ackFrom (plain ["p"]) false, responseWith false []] := by
      rw [split]
      simp
    have unread : aliceCalls.openedResponse (ackFrom (plain ["p"]) false) = none := by
      decide +kernel
    have failed : aliceCalls.openedResponse (responseWith false []) =
        some ⟨false, "handler timed out", []⟩ := by decide +kernel
    rcases List.mem_cons.mp listed with same | last
    · rw [same, unread] at opened
      cases opened
    · rw [List.mem_singleton.mp last, failed] at opened
      cases opened
      cases success

/-! ### Which provider may serve which service -/

structure PrincipalPolicy where
  identity : String
  allowedServices : List String

structure ServicePolicy where
  providers : List PrincipalPolicy
  users : List PrincipalPolicy

structure ProviderAuthorizer where
  allowed : HashMap String (Finset Name)

namespace ProviderAuthorizer

variable (parse : String → Option Name)

def permit (identity : Name) (allowed : HashMap String (Finset Name)) (service : String) :
    HashMap String (Finset Name) :=
  allowed.insert service (insert identity ((allowed.lookup service).getD ∅))

/-- A provider whose identity is no name is skipped. -/
def permitAll (allowed : HashMap String (Finset Name)) (p : PrincipalPolicy) :
    HashMap String (Finset Name) :=
  match parse p.identity with
  | some identity => p.allowedServices.foldl (permit identity) allowed
  | none => allowed

def fromPolicy (policy : ServicePolicy) : ProviderAuthorizer :=
  ⟨policy.providers.foldl (permitAll parse) ∅⟩

/-- The last component of a service's name as text. -/
def serviceKey (service : Name) : Option String :=
  service.components.getLast?.map fun c => fromUtf8Lossy c.value

def allows (authorizer : ProviderAuthorizer) (service provider : Name) : Bool :=
  match serviceKey service with
  | some key => (authorizer.allowed.lookup key).any fun providers => provider ∈ providers
  | none => false

def listed (allowed : HashMap String (Finset Name)) (key : String) (provider : Name) : Prop :=
  provider ∈ (allowed.lookup key).getD ∅

variable {parse} {allowed : HashMap String (Finset Name)} {key : String} {provider : Name}

theorem listed_permit {identity : Name} {services : List String} :
    listed (services.foldl (permit identity) allowed) key provider ↔
      listed allowed key provider ∨ provider = identity ∧ key ∈ services := by
  induction services generalizing allowed with
  | nil => simp
  | cons service rest ih =>
    rw [List.foldl_cons, ih, listed, permit, HashMap.lookup_insert_eq]
    by_cases same : key = service
    · subst same
      simp only [if_true, Option.getD_some, Finset.mem_insert, List.mem_cons, true_or, and_true,
        listed]
      tauto
    · simp [same, listed]

theorem listed_permitAll {providers : List PrincipalPolicy} :
    listed (providers.foldl (permitAll parse) allowed) key provider ↔
      listed allowed key provider ∨
        ∃ p ∈ providers, parse p.identity = some provider ∧ key ∈ p.allowedServices := by
  induction providers generalizing allowed with
  | nil => simp
  | cons p rest ih =>
    rw [List.foldl_cons, ih, permitAll]
    cases parsed : parse p.identity with
    | none => simp [parsed]
    | some identity =>
      simp only [listed_permit, List.mem_cons, exists_eq_or_imp, parsed, Option.some_inj, or_assoc,
        @eq_comm _ identity]

/-- A provider may serve a service exactly where the policy lists it for the last component of the
service's name. -/
theorem allows_iff {policy : ServicePolicy} {service : Name} :
    (fromPolicy parse policy).allows service provider = true ↔
      ∃ key, serviceKey service = some key ∧ ∃ p ∈ policy.providers,
        parse p.identity = some provider ∧ key ∈ p.allowedServices := by
  rw [allows]
  cases serviceKey service with
  | none => simp
  | some key =>
    have known := @listed_permitAll parse ∅ key provider policy.providers
    simp only [listed, AList.lookup_empty, Option.getD_none, Finset.notMem_empty, false_or] at known
    simp only [Option.some_inj, exists_eq_left', ← known, fromPolicy]
    cases AList.lookup key (policy.providers.foldl (permitAll parse) ∅) <;> simp

end ProviderAuthorizer

/-! ### A call by a selection strategy -/

/-- What a loop of `select_and_call` receives: a publication, or nothing more in its window. -/
abbrev Received := Option Delivery

/-- The provider of the random strategy is that of the drawn number. -/
def selectProviders (strategy : Strategy) (drawn : Nat) (acks : List (Name × AckMessage)) :
    List (Name × AckMessage) :=
  match strategy with
  | .firstResponding => acks.head?.toList
  | .allSelected => acks
  | .randomSelection => acks[drawn % acks.length]?.toList

namespace Calling

variable (calling : Calling) (authorizer : Option ProviderAuthorizer)

/-- The call, to the provider that a publication is named after. -/
def toSender (delivery : Delivery) : Calling :=
  { calling with provider := beforeNdnsf delivery.name }

/-- The positive ACK in a publication, where its provider may serve the service. -/
def candidate (delivery : Delivery) : Option (Name × AckMessage) :=
  if calling.expects .ack delivery &&
      authorizer.all (·.allows calling.service (beforeNdnsf delivery.name)) then
    (((calling.toSender delivery).openedAck delivery).filter AckMessage.status).map fun ack =>
      (beforeNdnsf delivery.name, ack)
  else none

/-- The ACKs, and what is left to receive. -/
def collectAcks (strategy : Strategy) (acks : List (Name × AckMessage)) :
    List Received → List (Name × AckMessage) × List Received
  | [] => (acks, [])
  | received :: rest =>
    if strategy = .firstResponding ∧ acks ≠ [] then (acks, received :: rest)
    else
      match received with
      | none => (acks, rest)
      | some delivery =>
        collectAcks strategy (acks ++ (calling.candidate authorizer delivery).toList) rest

/-- The RESPONSE in a publication, where its provider is wanted and did not answer yet. -/
def answer (want : List Name) (responses : List (Name × Bytes)) (delivery : Delivery) :
    Option (Name × Bytes) :=
  let provider := beforeNdnsf delivery.name
  if calling.expects .response delivery && want.contains provider &&
      !responses.any (fun response => response.1 = provider) then
    ((calling.toSender delivery).openedResponse delivery).map fun response =>
      (provider, response.payload)
  else none

def collectResponses (want : List Name) (responses : List (Name × Bytes)) :
    List Received → List (Name × Bytes)
  | [] => responses
  | received :: rest =>
    if want.length ≤ responses.length then responses
    else
      match received with
      | none => responses
      | some delivery =>
        collectResponses want (responses ++ (calling.answer want responses delivery).toList) rest

def requestWith (strategy : Strategy) : Publication :=
  calling.publish (requestName calling.requester calling.service calling.requestId)
    ({ makeRequest (calling.wire.toUri calling.requestId) calling.userToken calling.payload with
      strategy := strategy }.encode calling.wire)

def selectionOf (selected : List (Name × AckMessage)) : Publication :=
  calling.publish (compactSelectionName calling.requester calling.service calling.requestId)
    ((makeCompactSelection calling.wire calling.requester calling.service
      (calling.wire.toUri calling.requestId) selected).encode calling.wire)

/-- Who is selected, what they responded, and what was published. -/
def selectAndCall (strategy : Strategy) (drawn : Nat) (received : List Received) :
    List (Name × AckMessage) × List (Name × Bytes) × List Publication :=
  let (acks, rest) := calling.collectAcks authorizer strategy [] received
  let selected := selectProviders strategy drawn acks
  (selected, calling.collectResponses (selected.map Prod.fst) [] rest,
    calling.requestWith strategy ::
      if selected.isEmpty then [] else [calling.selectionOf selected])

/-- A publication that was delivered says `found` in the name of `provider`. -/
def Said {A : Type} (received : List Received) (phase : Phase)
    (opened : Calling → Delivery → Option A) (provider : Name) (found : A) : Prop :=
  ∃ delivery, some delivery ∈ received ∧ calling.expects phase delivery = true ∧
    beforeNdnsf delivery.name = provider ∧
    opened { calling with provider := provider } delivery = some found

variable {calling} {authorizer} {received : List Received} {strategy : Strategy}

/-- A positive ACK of a provider that may serve the service. -/
def Backed (calling : Calling) (authorizer : Option ProviderAuthorizer) (received : List Received)
    (ack : Name × AckMessage) : Prop :=
  calling.Said received .ack openedAck ack.1 ack.2 ∧ ack.2.status = true ∧
    authorizer.all (·.allows calling.service ack.1) = true

theorem candidate_backed {delivery : Delivery} {ack : Name × AckMessage}
    (among : some delivery ∈ received) (found : calling.candidate authorizer delivery = some ack) :
    calling.Backed authorizer received ack := by
  rw [candidate] at found
  split at found
  · next met =>
    rw [Bool.and_eq_true] at met
    rcases Option.map_eq_some_iff.mp found with ⟨message, positive, rfl⟩
    rcases Option.filter_eq_some_iff.mp positive with ⟨opened, status⟩
    exact ⟨⟨delivery, among, met.1, rfl, opened⟩, status, met.2⟩
  · cases found

theorem collectAcks_backed {events : List Received} {acks : List (Name × AckMessage)}
    (within : events ⊆ received) (backed : ∀ ack ∈ acks, calling.Backed authorizer received ack) :
    (∀ ack ∈ (calling.collectAcks authorizer strategy acks events).1,
      calling.Backed authorizer received ack) ∧
    (calling.collectAcks authorizer strategy acks events).2 ⊆ received := by
  induction events generalizing acks with
  | nil => exact ⟨backed, List.nil_subset _⟩
  | cons event rest ih =>
    rcases List.cons_subset.mp within with ⟨now, later⟩
    unfold collectAcks
    split
    · exact ⟨backed, within⟩
    · cases event with
      | none => exact ⟨backed, later⟩
      | some delivery =>
        refine ih later ?_
        intro ack among
        rcases List.mem_append.mp among with known | new
        · exact backed ack known
        · exact candidate_backed now (Option.mem_toList.mp new)

theorem selectProviders_subset {drawn : Nat} {acks : List (Name × AckMessage)} :
    selectProviders strategy drawn acks ⊆ acks := by
  intro ack among
  cases strategy with
  | firstResponding => exact List.mem_of_head? (Option.mem_toList.mp among)
  | randomSelection => exact List.mem_of_getElem? (Option.mem_toList.mp among)
  | allSelected => exact among

/-- Responses of wanted providers, one of each. -/
structure Answers (calling : Calling) (received : List Received) (want : List Name)
    (responses : List (Name × Bytes)) : Prop where
  distinct : (responses.map Prod.fst).Nodup
  wanted : ∀ response ∈ responses, response.1 ∈ want
  said : ∀ response ∈ responses,
    calling.Said received .response (fun c d => (c.openedResponse d).map ResponseMessage.payload)
      response.1 response.2

theorem Answers.nil (want : List Name) : calling.Answers received want [] :=
  ⟨List.nodup_nil, by simp, by simp⟩

theorem Answers.add {want : List Name} {responses : List (Name × Bytes)} {delivery : Delivery}
    {response : Name × Bytes} (answers : calling.Answers received want responses)
    (among : some delivery ∈ received)
    (found : calling.answer want responses delivery = some response) :
    calling.Answers received want (responses ++ [response]) := by
  rw [answer] at found
  split at found
  · next met =>
    rcases Option.map_eq_some_iff.mp found with ⟨message, opened, rfl⟩
    simp only [Bool.and_eq_true, List.contains_iff_mem, Bool.not_eq_true', List.any_eq_false,
      decide_eq_true_eq] at met
    have fresh : beforeNdnsf delivery.name ∉ responses.map Prod.fst := by
      intro known
      rcases List.mem_map.mp known with ⟨earlier, listed, same⟩
      exact met.2 earlier listed same
    refine ⟨?_, ?_, ?_⟩
    · simp [List.nodup_append', answers.distinct, fresh]
    · simpa [or_imp, forall_and, met.1.2] using answers.wanted
    · intro response listed
      rcases List.mem_append.mp listed with known | new
      · exact answers.said response known
      · rcases List.mem_singleton.mp new
        exact ⟨delivery, among, met.1.1, rfl,
          congrArg (Option.map ResponseMessage.payload) opened⟩
  · cases found

theorem Answers.collect {want : List Name} {responses : List (Name × Bytes)}
    (answers : calling.Answers received want responses) {events : List Received}
    (within : events ⊆ received) :
    calling.Answers received want (calling.collectResponses want responses events) := by
  induction events generalizing responses with
  | nil => exact answers
  | cons event rest ih =>
    rcases List.cons_subset.mp within with ⟨now, later⟩
    unfold collectResponses
    split
    · exact answers
    · cases event with
      | none => exact answers
      | some delivery =>
        refine ih ?_ later
        cases found : calling.answer want responses delivery with
        | none => simpa using answers
        | some response => exact answers.add now found

/-- Where a policy is enforced, a call selects only providers that it lists for the service and that
sent a positive ACK, and returns one response at most of each of them, whatever else the members
of the group publish and in whichever order. -/
theorem only_listed_serve (calling : Calling) (parse : String → Option Name)
    (policy : ServicePolicy) (strategy : Strategy) (drawn : Nat) (received : List Received) :
    let outcome := calling.selectAndCall (some (.fromPolicy parse policy)) strategy drawn received
    (∀ ack ∈ outcome.1, ack.2.status = true ∧
      calling.Said received .ack openedAck ack.1 ack.2 ∧
      ∃ key, ProviderAuthorizer.serviceKey calling.service = some key ∧
        ∃ p ∈ policy.providers, parse p.identity = some ack.1 ∧ key ∈ p.allowedServices) ∧
    calling.Answers received (outcome.1.map Prod.fst) outcome.2.1 := by
  have acks := @collectAcks_backed calling (some (.fromPolicy parse policy)) received strategy
    received [] (List.Subset.refl _) (by simp)
  refine ⟨?_, (Answers.nil _).collect acks.2⟩
  intro ack among
  rcases acks.1 ack (selectProviders_subset among) with ⟨said, status, allowed⟩
  exact ⟨status, said, ProviderAuthorizer.allows_iff.mp allowed⟩

end Calling

end NdnExt.Ndnsf
