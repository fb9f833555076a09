import NdnExt.Service.Authority

/-! Signed commands of operators, and the controller that applies them to a policy authority. -/

namespace NdnExt.Service

open NdnExt.Lib

def hasPrefix (name front : Name) : Bool := front.components.isPrefixOf name.components

/-- What a command asks for. -/
inductive Command where
  | grant (principal : Name) (policy : String)
  | revoke (principal : Name)
  deriving DecidableEq

namespace Command

def principal : Command → Name
  | .grant principal _ => principal
  | .revoke principal => principal

def verb : Command → String
  | .grant _ _ => "grant"
  | .revoke _ => "revoke"

def arguments (uri : NameUri) : Command → List Bytes
  | .grant principal policy => [encodeString (uri.toUri principal), encodeString policy]
  | .revoke principal => [encodeString (uri.toUri principal)]

/-- Its sequence number and its arguments. -/
def params (uri : NameUri) (command : Command) (seq : UInt64) : Bytes :=
  encodeFields (encodeU64 seq :: command.arguments uri)

def apply (authority : PolicyAuthority) : Command → PolicyAuthority
  | .grant principal policy => authority.grant principal policy
  | .revoke principal => authority.revoke principal

/-- The lengths of its arguments fit into the 32 bits that frame them. -/
def Fits (uri : NameUri) (command : Command) : Prop :=
  ∀ argument ∈ command.arguments uri, argument.length < 2 ^ 32

end Command

/-- What the builder of an Interest adds when it signs it. -/
structure Signing where
  paramsDigest : NameComponent
  sigInfo : SigInfo
  signature : Bytes

/-- `<scope>/policy/<verb>`, with the parameters, signed. -/
def signedCommand (uri : NameUri) (scope : Name) (command : Command) (seq : UInt64)
    (signing : Signing) : Interest where
  name := ((scope.appendComponent (textComponent "policy")).appendComponent
    (textComponent command.verb)).appendComponent signing.paramsDigest
  appParameters := some (command.params uri seq)
  sigInfo := some signing.sigInfo
  signature := signing.signature

def grantCommand (uri : NameUri) (scope principal : Name) (policy : String) (seq : UInt64)
    (signing : Signing) : Interest :=
  signedCommand uri scope (.grant principal policy) seq signing

def revokeCommand (uri : NameUri) (scope principal : Name) (seq : UInt64) (signing : Signing) :
    Interest :=
  signedCommand uri scope (.revoke principal) seq signing

/-- The component after `policy`, which stands right after the scope. -/
def commandVerb (name scope : Name) : Option String :=
  if hasPrefix name scope = false then none
  else
    let policyIdx := scope.components.length
    if name.components[policyIdx]?.map NameComponent.value ≠ some (asBytes "policy") then none
    else name.components[policyIdx + 1]?.map fun verb => fromUtf8Lossy verb.value

section

variable (uri : NameUri)

def decodeGrant (params : Bytes) : Option (Name × String) := do
  let (field, params) ← (readField params).toOption
  let principal ← (decodeString field).toOption
  let (field, _) ← (readField params).toOption
  let policy ← (decodeString field).toOption
  let principal ← uri.parse principal
  return (principal, policy)

def decodeRevoke (params : Bytes) : Option Name := do
  let (field, _) ← (readField params).toOption
  let principal ← (decodeString field).toOption
  uri.parse principal

/-- The command of a verb; none for other verbs and for arguments that cannot be read. -/
def decodeCommand (verb : String) (params : Bytes) : Option Command :=
  if verb = "grant" then (decodeGrant uri params).map fun (principal, policy) => .grant principal policy
  else if verb = "revoke" then (decodeRevoke uri params).map .revoke
  else none

end

structure PolicyController where
  authority : PolicyAuthority
  adminPrefix : Name
  /-- The highest sequence number accepted from each operator. -/
  seen : Name → Option UInt64

namespace PolicyController

variable (uri : NameUri) (validate : Interest → InterestValidationOutcome)

def new (scope adminPrefix : Name) : PolicyController :=
  ⟨.new scope, adminPrefix, fun _ => none⟩

/-- The signer of an authorized command. -/
def authorized (controller : PolicyController) (interest : Interest) : Option Name :=
  if validate interest ≠ .valid then none
  else
    match interest.sigInfo.bind SigInfo.keyLocatorName with
    | none => none
    | some signer => if hasPrefix signer controller.adminPrefix then some signer else none

def readSeq (interest : Interest) : Option (UInt64 × Bytes) := do
  let params ← interest.appParameters
  let (field, params) ← (readField params).toOption
  let seq ← (decodeU64 field).toOption
  return (seq, params)

/-- The checks that come before any change: the signer, the number and the command. -/
def admission (controller : PolicyController) (interest : Interest) :
    Option (Name × UInt64 × Command) := do
  let verb ← commandVerb interest.name controller.authority.scope
  let signer ← controller.authorized validate interest
  let (seq, params) ← readSeq interest
  if ∃ last ∈ controller.seen signer, seq ≤ last then none
  else
    let command ← decodeCommand uri verb params
    return (signer, seq, command)

/-- `signs` is whether the authority's signer succeeds. -/
def handle (controller : PolicyController) (wire : Option Interest) (signs : Bool) :
    PolicyController × Option Data :=
  match wire.bind (controller.admission uri validate) with
  | none => (controller, none)
  | some (signer, seq, command) =>
    let authority := command.apply controller.authority
    let result := authority.signedGrant uri command.principal signs
    ({ controller with
        authority
        seen := if result.isSome then Function.update controller.seen signer (some seq)
          else controller.seen },
      result)

/-- A wire that reaches the controller, and whether the authority's signer then succeeds. -/
abbrev Arrival := Option Interest × Bool

def step (controller : PolicyController) (arrival : Arrival) : PolicyController :=
  (controller.handle uri validate arrival.1 arrival.2).1

def run (scope adminPrefix : Name) (arrivals : List Arrival) : PolicyController :=
  arrivals.foldl (step uri validate) (new scope adminPrefix)

end PolicyController

/-! ### What a command says -/

/-- The sequence number and the command that an Interest carries for a scope. -/
def carried (uri : NameUri) (scope : Name) (interest : Interest) : Option (UInt64 × Command) := do
  let verb ← commandVerb interest.name scope
  let (seq, params) ← PolicyController.readSeq interest
  let command ← decodeCommand uri verb params
  return (seq, command)

variable {uri : NameUri} {scope : Name} {command : Command}

theorem commandVerb_signed (seq : UInt64) (signing : Signing) :
    commandVerb (signedCommand uri scope command seq signing).name scope = some command.verb := by
  have split : (signedCommand uri scope command seq signing).name.components =
      scope.components ++
        [textComponent "policy", textComponent command.verb, signing.paramsDigest] := by
    simp [signedCommand, Name.appendComponent]
  have under : hasPrefix (signedCommand uri scope command seq signing).name scope = true := by
    rw [hasPrefix, split]
    exact List.isPrefixOf_iff_prefix.mpr (List.prefix_append _ _)
  have next : scope.components.length + 1 - scope.components.length = 1 :=
    Nat.add_sub_cancel_left _ _
  rw [commandVerb, under, if_neg (by decide), split]
  dsimp only
  rw [List.getElem?_append_right (Nat.le_refl _), List.getElem?_append_right (Nat.le_succ _),
    Nat.sub_self, next]
  change (if some (asBytes "policy") ≠ some (asBytes "policy") then none
    else some (fromUtf8Lossy (asBytes command.verb))) = _
  rw [if_neg (not_not_intro rfl), fromUtf8Lossy_asBytes]

theorem decodeCommand_arguments (fits : command.Fits uri) :
    decodeCommand uri command.verb (encodeFields (command.arguments uri)) = some command := by
  cases command with
  | grant principal policy =>
    have first : (encodeString (uri.toUri principal)).length < 2 ^ 32 :=
      fits _ List.mem_cons_self
    have second : (encodeString policy).length < 2 ^ 32 :=
      fits _ (List.mem_cons_of_mem _ List.mem_cons_self)
    have last := readField_encode second []
    rw [List.append_nil] at last
    have split : encodeFields ((Command.grant principal policy).arguments uri) =
        encodeField (encodeString (uri.toUri principal)) ++ encodeField (encodeString policy) := by
      simp [encodeFields, Command.arguments]
    rw [decodeCommand, Command.verb, if_pos rfl, split, decodeGrant]
    simp [readField_encode first, last, Except.toOption, uri.parse_toUri]
  | revoke principal =>
    have only : (encodeString (uri.toUri principal)).length < 2 ^ 32 := fits _ List.mem_cons_self
    have last := readField_encode only []
    rw [List.append_nil] at last
    have split : encodeFields ((Command.revoke principal).arguments uri) =
        encodeField (encodeString (uri.toUri principal)) := by
      simp [encodeFields, Command.arguments]
    rw [decodeCommand, Command.verb, if_neg (by decide), if_pos rfl, split, decodeRevoke]
    simp [last, Except.toOption, uri.parse_toUri]

/-- A command that fits is read as it was built. -/
theorem carried_signed (fits : command.Fits uri) (seq : UInt64) (signing : Signing) :
    carried uri scope (signedCommand uri scope command seq signing) = some (seq, command) := by
  have number : (encodeU64 seq).length < 2 ^ 32 := by
    rw [encodeU64, length_leBytes]
    decide
  have read : PolicyController.readSeq (signedCommand uri scope command seq signing) =
      some (seq, encodeFields (command.arguments uri)) := by
    rw [PolicyController.readSeq, signedCommand, Command.params, encodeFields, List.flatMap_cons]
    simp [readField_encode number, Except.toOption, encodeFields]
  rw [carried, commandVerb_signed, read]
  simp [decodeCommand_arguments fits]

end NdnExt.Service
