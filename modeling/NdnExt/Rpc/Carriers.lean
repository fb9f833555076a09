import NdnExt.Service.Framing

/-! The serve sides of the two carriers of remote procedure calls. -/

namespace NdnExt.Rpc

open NdnExt.Lib NdnExt.Service

structure Invocation where
  op : String
  request : Bytes
  requester : Option Name
  metadata : Metadata
  deriving DecidableEq

inductive RpcError where
  | notFound
  | handlerFailed (msg : String)
  | badRequest (msg : String)
  | unauthorized (msg : String)
  deriving DecidableEq

inductive ReplayCheck where
  | fresh
  | replay
  deriving DecidableEq

/-- Remembers the last nonces it has seen, the latest first. -/
structure ReplayGuard (capacity : Nat) where
  State : Type
  start : State
  check : State → SigInfo → State × ReplayCheck
  recent : State → List Bytes
  recent_start : recent start = []
  check_seen : ∀ {state sig n}, sig.nonce = some n → n ∈ recent state →
    (check state sig).2 = .replay ∧ recent (check state sig).1 = recent state
  check_new : ∀ {state sig n}, sig.nonce = some n → n ∉ recent state →
    (check state sig).2 = .fresh ∧ recent (check state sig).1 = (n :: recent state).take capacity
  check_without : ∀ {state sig}, sig.nonce = none →
    (check state sig).2 = .fresh ∧ recent (check state sig).1 = recent state

structure Data where
  name : Name
  content : Bytes

/-- What a carrier serves: a service, its dispatcher, and how its node signs. -/
structure Serve where
  serviceLen : Nat
  /-- The answer to the last of the invocations so far. -/
  dispatch : List Invocation → Except ServiceError Bytes
  validator : Option (Interest → InterestValidationOutcome)
  sign : Name → Bytes → Except String Bytes
  decodeData : Bytes → Except String Data

def Serve.withValidator (serve : Serve) (validate : Interest → InterestValidationOutcome) : Serve :=
  { serve with validator := some validate }

def Serve.op (serve : Serve) (interest : Interest) : Option String :=
  interest.name.components[serve.serviceLen]?.map fun c => fromUtf8Lossy c.value

/-- What was dispatched, with the Interests it came from. -/
abbrev Dispatched := List (Interest × Invocation)

namespace RpcCarrier

variable (guard : ReplayGuard 256) (serve : Serve)

structure State where
  replay : guard.State
  dispatched : Dispatched

def authenticate (replay : guard.State) (interest : Interest) :
    guard.State × Except RpcError (Option Name) :=
  match serve.validator with
  | none => (replay, .ok none)
  | some validate =>
    match validate interest with
    | .pending => (replay, .error (.unauthorized "signer certificate not available"))
    | .invalid e => (replay, .error (.unauthorized e))
    | .valid =>
      match interest.sigInfo with
      | none => (replay, .error (.unauthorized "signed request carries no KeyLocator"))
      | some sig =>
        let (replay, check) := guard.check replay sig
        if check = .replay then (replay, .error (.unauthorized "replayed request rejected"))
        else
          match sig.keyLocatorName with
          | none => (replay, .error (.unauthorized "signed request carries no KeyLocator"))
          | some requester => (replay, .ok (some requester))

def dispatchError : ServiceError → RpcError
  | .notFound => .notFound
  | .decode m => .badRequest m
  | .unauthorized m => .unauthorized m
  | other => .handlerFailed other.display

def respond (interest : Interest) (metadata : Metadata) (reply : Bytes) : Except RpcError Data :=
  match serve.sign interest.name (encodeEnvelope metadata reply) with
  | .error e => .error (.handlerFailed ("response sign failed: " ++ e))
  | .ok wire =>
    match serve.decodeData wire with
    | .error e => .error (.handlerFailed ("response encode failed: " ++ e))
    | .ok data => .ok data

def handle (state : State guard) (interest : Interest) : State guard × Except RpcError Data :=
  match serve.op interest with
  | none => (state, .error (.badRequest "interest carries no operation component"))
  | some op =>
    let (replay, authenticated) := authenticate guard serve state.replay interest
    match authenticated with
    | .error e => ({ state with replay }, .error e)
    | .ok requester =>
      match decodeEnvelope (interest.appParameters.getD []) with
      | .error e => ({ state with replay }, .error (.badRequest e.display))
      | .ok (metadata, request) =>
        let dispatched := state.dispatched ++ [(interest, ⟨op, request, requester, metadata⟩)]
        (⟨replay, dispatched⟩,
          match serve.dispatch (dispatched.map Prod.snd) with
          | .error e => .error (dispatchError e)
          | .ok reply => respond serve interest metadata reply)

def step (state : State guard) (interest : Interest) : State guard :=
  (handle guard serve state interest).1

def start : State guard := ⟨guard.start, []⟩

def run (interests : List Interest) : State guard := interests.foldl (step guard serve) (start guard)

end RpcCarrier

namespace FaceRpcCarrier

variable (serve : Serve)

/-- The requester; none where the Interest is dropped. -/
def requester (interest : Interest) : Option (Option Name) :=
  match serve.validator with
  | none => some none
  | some validate =>
    match validate interest with
    | .valid =>
      match interest.sigInfo.bind SigInfo.keyLocatorName with
      | some name => some (some name)
      | none => none
    | .invalid _ | .pending => none

def handleRequest (dispatched : Dispatched) (interest : Interest) : Dispatched × Option Bytes :=
  match serve.op interest with
  | none => (dispatched, none)
  | some op =>
    match requester serve interest with
    | none => (dispatched, none)
    | some requester =>
      match decodeEnvelope (interest.appParameters.getD []) with
      | .error _ => (dispatched, none)
      | .ok (metadata, request) =>
        let dispatched := dispatched ++ [(interest, ⟨op, request, requester, metadata⟩)]
        (dispatched,
          match serve.dispatch (dispatched.map Prod.snd) with
          | .error _ => none
          | .ok reply => (serve.sign interest.name (encodeEnvelope metadata reply)).toOption)

def step (dispatched : Dispatched) (interest : Interest) : Dispatched :=
  (handleRequest serve dispatched interest).1

def run (interests : List Interest) : Dispatched := interests.foldl (step serve) []

end FaceRpcCarrier

/-! ### One Interest -/

/-- What an Interest invokes, if it is accepted, names its key and can be read. -/
def requested (serve : Serve) (validate : Interest → InterestValidationOutcome)
    (interest : Interest) : Option Invocation := do
  let op ← serve.op interest
  let sig ← interest.sigInfo
  let requester ← sig.keyLocatorName
  let parts ← (decodeEnvelope (interest.appParameters.getD [])).toOption
  if validate interest = .valid then some ⟨op, parts.2, some requester, parts.1⟩ else none

section

variable {guard : ReplayGuard 256} {serve : Serve} {validate : Interest → InterestValidationOutcome}
  {interest : Interest} {invocation : Invocation}

theorem requested_signed (found : requested serve validate interest = some invocation) :
    validate interest = .valid ∧ ∃ op sig requester, serve.op interest = some op ∧
      interest.sigInfo = some sig ∧ sig.keyLocatorName = some requester ∧
        invocation.requester = some requester := by
  rcases Option.bind_eq_some_iff.mp found with ⟨op, operation, found⟩
  rcases Option.bind_eq_some_iff.mp found with ⟨sig, signed, found⟩
  rcases Option.bind_eq_some_iff.mp found with ⟨requester, locator, found⟩
  rcases Option.bind_eq_some_iff.mp found with ⟨parts, _, found⟩
  by_cases valid : validate interest = .valid
  · rw [if_pos valid] at found
    cases found
    exact ⟨valid, op, sig, requester, operation, signed, locator, rfl⟩
  · rw [if_neg valid] at found
    cases found

@[simp] theorem withValidator_op : (serve.withValidator validate).op interest = serve.op interest :=
  rfl

@[simp] theorem withValidator_validator :
    (serve.withValidator validate).validator = some validate :=
  rfl

theorem requester_secure : FaceRpcCarrier.requester (serve.withValidator validate) interest =
    if validate interest = .valid then
      (interest.sigInfo.bind SigInfo.keyLocatorName).map some
    else none := by
  unfold FaceRpcCarrier.requester
  simp only [withValidator_validator]
  cases validate interest with
  | pending => rfl
  | invalid e => simp
  | valid => cases interest.sigInfo.bind SigInfo.keyLocatorName <;> rfl

/-- The face carrier dispatches whatever is requested. -/
theorem face_step (dispatched : Dispatched) (interest : Interest) :
    FaceRpcCarrier.step (serve.withValidator validate) dispatched interest =
      dispatched ++ ((requested serve validate interest).map (interest, ·)).toList := by
  unfold FaceRpcCarrier.step FaceRpcCarrier.handleRequest requested
  rw [withValidator_op, requester_secure]
  cases serve.op interest with
  | none => exact (List.append_nil _).symm
  | some op =>
    by_cases valid : validate interest = .valid
    · cases interest.sigInfo with
      | none => simp [valid]
      | some sig =>
        rcases sig with ⟨nonce, keyLocatorName⟩
        cases keyLocatorName with
        | none => simp [valid]
        | some requester =>
          cases decodeEnvelope (interest.appParameters.getD []) with
          | error e => simp [valid, Except.toOption]
          | ok parts => simp [valid, Except.toOption]
    · simp [valid]

/-- Whether the guard has a request's nonce among those it remembers. -/
def Remembered (guard : ReplayGuard 256) (replay : guard.State) (interest : Interest) : Prop :=
  ∃ n ∈ interest.nonce, n ∈ guard.recent replay

theorem replay_iff {replay : guard.State} {sig : SigInfo} (signed : interest.sigInfo = some sig) :
    (guard.check replay sig).2 = .replay ↔ Remembered guard replay interest := by
  have nonce : interest.nonce = sig.nonce := by
    rw [Interest.nonce, signed]
    rfl
  unfold Remembered
  rw [nonce]
  cases carried : sig.nonce with
  | none =>
    rw [(guard.check_without carried).1]
    simp
  | some n =>
    by_cases seen : n ∈ guard.recent replay
    · rw [(guard.check_seen carried seen).1]
      simp [seen]
    · rw [(guard.check_new carried seen).1]
      simp [seen]

/-- The other carrier shows the signature of an accepted Interest to its guard first, and dispatches
what is requested and not replayed. -/
theorem rpc_step (state : RpcCarrier.State guard) (interest : Interest) :
    (RpcCarrier.step guard (serve.withValidator validate) state interest = state ∧
        requested serve validate interest = none) ∨
      ∃ sig, interest.sigInfo = some sig ∧
        (RpcCarrier.step guard (serve.withValidator validate) state interest).replay =
          (guard.check state.replay sig).1 ∧
        (RpcCarrier.step guard (serve.withValidator validate) state interest).dispatched =
          if (guard.check state.replay sig).2 = .replay then state.dispatched
          else state.dispatched ++
    ((requested serve validate interest).map (interest, ·)).toList := by
  unfold RpcCarrier.step RpcCarrier.handle RpcCarrier.authenticate requested
  simp only [withValidator_op, withValidator_validator]
  cases serve.op interest with
  | none => exact Or.inl ⟨rfl, rfl⟩
  | some op =>
    cases validate interest with
    | pending => left; simp
    | invalid e => left; simp
    | valid =>
      cases interest.sigInfo with
      | none => exact Or.inl ⟨rfl, rfl⟩
      | some sig =>
        refine Or.inr ⟨sig, rfl, ?_⟩
        by_cases replayed : (guard.check state.replay sig).2 = .replay
        · simp [replayed]
        · rcases sig with ⟨nonce, keyLocatorName⟩
          cases keyLocatorName with
          | none => simp [replayed]
          | some requester =>
            cases decodeEnvelope (interest.appParameters.getD []) with
            | error e => simp [replayed, Except.toOption]
            | ok parts => simp [replayed, Except.toOption]

end

end NdnExt.Rpc
