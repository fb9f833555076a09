import NdnExt.Lib.Run
import NdnExt.Service.Commands
import NdnExt.Service.PlainUri

/-! Policy commands apply once or not at all. -/

namespace NdnExt.Service

open NdnExt.Lib NdnExt.Lib.Run Option PolicyController

/-- The grant that a command leaves its principal with. -/
def Command.Gives (before : PolicyAuthority) (grant : Grant) : Command → Prop
  | .grant _ policy => grant.policy = policy ∧ grant.revoked = false
  | .revoke principal =>
    (before.grants principal).map Grant.policy = some grant.policy ∧ grant.revoked = true

/-- What a command makes of an authority: one grant at the next version, and its object. -/
structure Effect (uri : NameUri) (command : Command) (before after : PolicyAuthority) (object : Data) :
    Prop where
  version : after.version.toNat = before.version.toNat + 1
  applied : ∃ grant, after.grants = Function.update before.grants command.principal (some grant) ∧
    grant.version = after.version ∧ object = grantObject uri before.scope command.principal grant ∧
    command.Gives before grant

section

variable (uri : NameUri) (validate : Interest → InterestValidationOutcome)
  (scope adminPrefix : Name)

structure AppliesOnce (arrivals : List Arrival) : Prop where
  unchanged : ∀ earlier wire signs later, arrivals = earlier ++ (wire, signs) :: later →
    ((run uri validate scope adminPrefix earlier).handle uri validate wire signs).2 = none →
      (step uri validate (run uri validate scope adminPrefix earlier) (wire, signs)).authority =
        (run uri validate scope adminPrefix earlier).authority
  authorized : ∀ earlier wire signs later object, arrivals = earlier ++ (wire, signs) :: later →
    ((run uri validate scope adminPrefix earlier).handle uri validate wire signs).2 = some object →
      ∃ interest, wire = some interest ∧ validate interest = .valid ∧
        (∃ sig ∈ interest.sigInfo, ∃ signer ∈ sig.keyLocatorName,
          adminPrefix.components <+: signer.components) ∧
        scope.components <+: interest.name.components ∧
        ∃ seq command, carried uri scope interest = some (seq, command) ∧
          Effect uri command (run uri validate scope adminPrefix earlier).authority
            (step uri validate (run uri validate scope adminPrefix earlier)
              (wire, signs)).authority object
  commanded : ∀ earlier command seq signing signs later object,
    arrivals = earlier ++ (some (signedCommand uri scope command seq signing), signs) :: later →
    ((run uri validate scope adminPrefix earlier).handle uri validate
      (some (signedCommand uri scope command seq signing)) signs).2 = some object →
      Effect uri command (run uri validate scope adminPrefix earlier).authority
        (step uri validate (run uri validate scope adminPrefix earlier)
          (some (signedCommand uri scope command seq signing), signs)).authority object
  again : ∀ earlier wire signs middle signs' later,
    arrivals = earlier ++ (wire, signs) :: middle ++ (wire, signs') :: later →
      step uri validate (run uri validate scope adminPrefix (earlier ++ (wire, signs) :: middle))
          (wire, signs') =
        run uri validate scope adminPrefix (earlier ++ (wire, signs) :: middle)

end

variable {command : Command} {seq : UInt64}

namespace PolicyController

section

variable (uri : NameUri) (validate : Interest → InterestValidationOutcome)

/-- What is applied can be signed and recorded: the signer succeeds, what is revoked was granted,
the version does not overflow, and a command as it was built has arguments that fit. -/
structure Orderly (controller : PolicyController) (arrival : Arrival) : Prop where
  signs : arrival.1.bind (controller.admission uri validate) ≠ none → arrival.2 = true
  granted : ∀ signer seq principal,
    arrival.1.bind (controller.admission uri validate) = some (signer, seq, .revoke principal) →
      controller.authority.grants principal ≠ none
  versions : controller.authority.version.toNat + 1 < 2 ^ 64
  fits : ∀ command seq signing,
    arrival.1 = some (signedCommand uri controller.authority.scope command seq signing) →
      command.Fits uri

end

variable {uri : NameUri} {validate : Interest → InterestValidationOutcome}
  {controller : PolicyController}

variable {interest : Interest} {signer : Name} {wire : Option Interest}
  {authority : PolicyAuthority} {signs : Bool}

theorem admission_eq_some_iff :
    controller.admission uri validate interest = some (signer, seq, command) ↔
      carried uri controller.authority.scope interest = some (seq, command) ∧
        controller.authorized validate interest = some signer ∧
          ∀ last ∈ controller.seen signer, last < seq := by
  unfold admission carried
  cases commandVerb interest.name controller.authority.scope with
  | none => simp
  | some verb =>
    cases controller.authorized validate interest with
    | none => simp
    | some found =>
      cases readSeq interest with
      | none => simp
      | some parts =>
        rcases parts with ⟨number, params⟩
        cases decoded : decodeCommand uri verb params with
        | none => simp [decoded]
        | some read =>
          simp only [decoded, bind_eq_bind, bind_some, pure_def,
            ite_none_left_eq_some, Option.some.injEq, Prod.mk.injEq]
          constructor
          · rintro ⟨newer, rfl, rfl, rfl⟩
            refine ⟨⟨rfl, rfl⟩, rfl, ?_⟩
            intro last held
            exact UInt64.not_le.mp fun above => newer ⟨last, held, above⟩
          · rintro ⟨⟨rfl, rfl⟩, rfl, newer⟩
            refine ⟨?_, rfl, rfl, rfl⟩
            rintro ⟨last, held, above⟩
            exact absurd (newer last held) (UInt64.not_lt.mpr above)

/-- Nothing happens, or an admitted command is applied, and recorded if its object is signed. -/
theorem handle_cases (controller : PolicyController) (wire : Option Interest) (signs : Bool) :
    (controller.handle uri validate wire signs = (controller, none) ∧
      wire.bind (controller.admission uri validate) = none) ∨
    ∃ signer seq command, wire.bind (controller.admission uri validate) = some
    (signer, seq, command) ∧
      controller.handle uri validate wire signs =
        ({ controller with
            authority := command.apply controller.authority
            seen := if ((command.apply controller.authority).signedGrant uri command.principal
                signs).isSome then Function.update controller.seen signer (some seq)
              else controller.seen },
          (command.apply controller.authority).signedGrant uri command.principal signs) := by
  unfold handle
  cases wire.bind (controller.admission uri validate) with
  | none => exact Or.inl ⟨rfl, rfl⟩
  | some found =>
    rcases found with ⟨signer, seq, command⟩
    exact Or.inr ⟨signer, seq, command, rfl, rfl⟩

theorem scope_apply (authority : PolicyAuthority) (command : Command) :
    (command.apply authority).scope = authority.scope := by
  cases command with
  | grant principal policy => rfl
  | revoke principal =>
    rw [Command.apply, PolicyAuthority.revoke]
    cases authority.grants principal <;> rfl

/-- The scope and the operators' prefix stay, and the numbers only grow. -/
theorem step_keeps (controller : PolicyController) (arrival : Arrival) :
    (step uri validate controller arrival).authority.scope = controller.authority.scope ∧
      (step uri validate controller arrival).adminPrefix = controller.adminPrefix ∧
      ∀ signer last, controller.seen signer = some last →
        ∃ last',
    (step uri validate controller arrival).seen signer = some last' ∧ last ≤ last' := by
  rw [step]
  rcases @handle_cases uri validate controller arrival.1 arrival.2 with
    ⟨same, _⟩ | ⟨signer, seq, command, admitted, after⟩
  · rw [same]
    exact ⟨rfl, rfl, fun signer last held => ⟨last, held, UInt64.le_refl _⟩⟩
  · rw [after]
    refine ⟨scope_apply _ _, rfl, ?_⟩
    intro other last held
    dsimp only
    split
    · by_cases here : other = signer
      · subst here
        rcases bind_eq_some_iff.mp admitted with ⟨interest, _, admitted⟩
        have newer := (admission_eq_some_iff.mp admitted).2.2 last held
        exact ⟨seq, Function.update_self _ _ _, UInt64.le_of_lt newer⟩
      · rw [Function.update_of_ne here]
        exact ⟨last, held, UInt64.le_refl _⟩
    · exact ⟨last, held, UInt64.le_refl _⟩

/-! ### Replays -/

/-- An Interest that is never admitted again. -/
def Spent (uri : NameUri) (validate : Interest → InterestValidationOutcome)
    (controller : PolicyController) (wire : Option Interest) : Prop :=
  wire.bind (controller.admission uri validate) = none

theorem Spent.step {wire : Option Interest} (spent : Spent uri validate controller wire)
    (arrival : Arrival) : Spent uri validate (step uri validate controller arrival) wire := by
  rcases @step_keeps uri validate controller arrival with ⟨scope, admins, grows⟩
  cases wire with
  | none => rfl
  | some interest =>
    rw [Spent, bind_some, eq_none_iff_forall_ne_some] at spent ⊢
    rintro ⟨signer, seq, command⟩ admitted
    rcases admission_eq_some_iff.mp admitted with ⟨carries, signed, newer⟩
    rw [scope] at carries
    have signed' : controller.authorized validate interest = some signer := by
      rw [authorized, admins] at signed
      exact signed
    apply spent (signer, seq, command)
    refine admission_eq_some_iff.mpr ⟨carries, signed', ?_⟩
    intro last held
    rcases grows signer last held with ⟨last', held', above⟩
    exact UInt64.lt_of_le_of_lt above (newer last' held')

theorem Spent.run (spent : Spent uri validate controller wire)
    (arrivals : List Arrival) :
    Spent uri validate (arrivals.foldl (PolicyController.step uri validate) controller) wire := by
  induction arrivals generalizing controller with
  | nil => exact spent
  | cons arrival rest ih => exact ih (spent.step arrival)

theorem Spent.unchanged (spent : Spent uri validate controller wire)
    (signs : Bool) : PolicyController.step uri validate controller (wire, signs) = controller := by
  rw [PolicyController.step, handle, show wire.bind (controller.admission uri validate) = none from spent]

/-! ### One command -/

/-- A command gives its principal one grant, of the next version. -/
theorem apply_grants
    (granted : ∀ principal, command = .revoke principal → authority.grants principal ≠ none) :
    ∃ grant, (command.apply authority).grants =
        Function.update authority.grants command.principal (some grant) ∧
      (command.apply authority).version = authority.version + 1 ∧
      grant.version = authority.version + 1 ∧ command.Gives authority grant := by
  cases command with
  | grant principal policy => exact ⟨_, rfl, rfl, rfl, rfl, rfl⟩
  | revoke principal =>
    rcases ne_none_iff_exists'.mp (granted principal rfl) with ⟨old, held⟩
    have after : (Command.revoke principal).apply authority = { authority with
        version := authority.version + 1
        grants := Function.update authority.grants principal
          (some { old with revoked := true, version := authority.version + 1 }) } := by
      rw [Command.apply, PolicyAuthority.revoke, held]
    rw [after]
    exact ⟨_, rfl, rfl, rfl, congrArg (Option.map Grant.policy) held, rfl⟩

theorem signedGrant_of_grant {principal : Name} {grant : Grant}
    (held : authority.grants principal = some grant) (signs : Bool) :
    authority.signedGrant uri principal signs =
      if signs then some (grantObject uri authority.scope principal grant) else none := by
  rw [PolicyAuthority.signedGrant, held]

theorem apply_effect {object : Data}
    (granted : ∀ principal, command = .revoke principal → authority.grants principal ≠ none)
    (fits : authority.version.toNat + 1 < 2 ^ 64)
    (signed : (command.apply authority).signedGrant uri command.principal signs = some object) :
    Effect uri command authority (command.apply authority) object := by
  rcases apply_grants granted with ⟨grant, grants, version, version', content⟩
  have held : (command.apply authority).grants command.principal = some grant := by
    rw [grants, Function.update_self]
  rw [signedGrant_of_grant held, scope_apply] at signed
  refine ⟨?_, grant, grants, version'.trans version.symm, ?_, content⟩
  · rw [version, UInt64.toNat_add]
    exact Nat.mod_eq_of_lt fits
  · cases signs with
    | false => cases signed
    | true => exact (Option.some.inj signed).symm

section

variable (orderly : Orderly uri validate controller (wire, signs))
include orderly

theorem Orderly.granted'
    (admitted : wire.bind (controller.admission uri validate) = some (signer, seq, command)) :
    ∀ principal, command = .revoke principal → controller.authority.grants principal ≠ none := by
  rintro principal rfl
  exact orderly.granted signer seq principal admitted

/-- Where the condition holds, an admitted command gets its object. -/
theorem Orderly.answers
    (admitted : wire.bind (controller.admission uri validate) = some (signer, seq, command)) :
    ((command.apply controller.authority).signedGrant uri command.principal signs).isSome := by
  have signs' : signs = true := by
    apply orderly.signs
    rw [admitted]
    exact some_ne_none _
  rcases apply_grants (orderly.granted' admitted) with ⟨grant, grants, _⟩
  have held : (command.apply controller.authority).grants command.principal = some grant := by
    rw [grants, Function.update_self]
  rw [signedGrant_of_grant held, signs']
  rfl

/-- What was handled under the condition is spent. -/
theorem Orderly.spends :
    Spent uri validate (step uri validate controller (wire, signs)) wire := by
  rcases @handle_cases uri validate controller wire signs with
    ⟨_, refused⟩ | ⟨signer, seq, command, admitted, after⟩
  · exact Spent.step refused (wire, signs)
  · rcases @step_keeps uri validate controller (wire, signs) with ⟨scope, admins, _⟩
    rcases bind_eq_some_iff.mp admitted with ⟨interest, rfl, admitted'⟩
    rcases admission_eq_some_iff.mp admitted' with ⟨carries, signed, _⟩
    rw [Spent, bind_some, eq_none_iff_forall_ne_some]
    rintro ⟨signer', seq', command'⟩ again
    rcases admission_eq_some_iff.mp again with ⟨carries', signed', newer⟩
    rw [scope, carries] at carries'
    cases carries'
    rw [authorized, admins] at signed'
    change controller.authorized validate interest = some signer' at signed'
    rw [signed] at signed'
    cases signed'
    have recorded : (step uri validate controller (some interest, signs)).seen
        signer = some seq := by
      rw [step, after]
      dsimp only
      rw [if_pos (orderly.answers admitted), Function.update_self]
    exact absurd (newer seq recorded) (UInt64.lt_irrefl seq)

end

theorem run_keeps {scope adminPrefix : Name} (arrivals : List Arrival) :
    (run uri validate scope adminPrefix arrivals).authority.scope = scope ∧
      (run uri validate scope adminPrefix arrivals).adminPrefix = adminPrefix := by
  induction arrivals using List.reverseRecOn with
  | nil => exact ⟨rfl, rfl⟩
  | append_singleton arrivals arrival ih =>
    rcases @step_keeps uri validate (run uri validate scope adminPrefix arrivals)
      arrival with ⟨scope', admins, _⟩
    rw [run, List.foldl_append]
    exact ⟨scope'.trans ih.1, admins.trans ih.2⟩

/-- What `authorized` has checked. -/
theorem authorized_eq_some
    (found : controller.authorized validate interest = some signer) :
    validate interest = .valid ∧ ∃ sig ∈ interest.sigInfo, signer ∈ sig.keyLocatorName ∧
      controller.adminPrefix.components <+: signer.components := by
  unfold authorized at found
  by_cases valid : validate interest = .valid
  · rw [if_neg (not_not_intro valid)] at found
    cases located : interest.sigInfo.bind SigInfo.keyLocatorName with
    | none =>
      rw [located] at found
      cases found
    | some name =>
      rw [located] at found
      dsimp only at found
      by_cases under : hasPrefix name controller.adminPrefix = true
      · rw [if_pos under] at found
        cases found
        rcases bind_eq_some_iff.mp located with ⟨sig, signed, locator⟩
        exact ⟨valid, sig, signed, locator, List.isPrefixOf_iff_prefix.mp under⟩
      · rw [if_neg under] at found
        cases found
  · rw [if_pos valid] at found
    cases found

theorem carried_scope {scope : Name}
    (carries : carried uri scope interest = some (seq, command)) :
    scope.components <+: interest.name.components := by
  rcases bind_eq_some_iff.mp carries with ⟨verb, found, _⟩
  by_cases under : hasPrefix interest.name scope = true
  · exact List.isPrefixOf_iff_prefix.mp under
  · rw [commandVerb, if_pos (by simpa using under)] at found
    cases found

end PolicyController

section

variable (uri : NameUri) (validate : Interest → InterestValidationOutcome)
  (scope adminPrefix : Name)

theorem applies_once (arrivals : List Arrival)
    (orderly : Throughout (step uri validate) (new scope adminPrefix) arrivals
      (Orderly uri validate)) : AppliesOnce uri validate scope adminPrefix arrivals := by
  have effects : ∀ earlier wire signs later object, arrivals = earlier ++ (wire, signs) :: later →
      ((run uri validate scope adminPrefix earlier).handle uri validate wire signs).2 = some object →
        ∃ interest signer seq command, wire = some interest ∧
          (run uri validate scope adminPrefix earlier).admission uri validate interest =
            some (signer, seq, command) ∧
          Effect uri command (run uri validate scope adminPrefix earlier).authority
            (step uri validate (run uri validate scope adminPrefix earlier)
              (wire, signs)).authority object := by
    rintro earlier wire signs later object rfl answered
    have now : Orderly uri validate (run uri validate scope adminPrefix earlier) (wire, signs) :=
      orderly earlier (wire, signs) later rfl
    rcases @handle_cases uri validate (run uri validate scope adminPrefix earlier) wire signs with
      ⟨same, _⟩ | ⟨signer, seq, command, admitted, after⟩
    · rw [same] at answered
      cases answered
    · rcases Option.bind_eq_some_iff.mp admitted with ⟨interest, came, admitted'⟩
      refine ⟨interest, signer, seq, command, came, admitted', ?_⟩
      rw [after] at answered
      rw [step, after]
      exact apply_effect (now.granted' admitted) now.versions answered
  refine ⟨?_, ?_, ?_, ?_⟩
  · rintro earlier wire signs later rfl nothing
    have now : Orderly uri validate (run uri validate scope adminPrefix earlier) (wire, signs) :=
      orderly earlier (wire, signs) later rfl
    rcases @handle_cases uri validate (run uri validate scope adminPrefix earlier) wire signs with
      ⟨same, _⟩ | ⟨signer, seq, command, admitted, after⟩
    · rw [step, same]
    · have some' := now.answers admitted
      rw [after] at nothing
      dsimp only at nothing
      rw [nothing] at some'
      cases some'
  · intro earlier wire signs later object split answered
    rcases effects earlier wire signs later object split answered with
      ⟨interest, signer, seq, command, came, admitted, effect⟩
    rcases admission_eq_some_iff.mp admitted with ⟨carries, signed, _⟩
    rw [(run_keeps earlier).1] at carries
    rcases authorized_eq_some signed with ⟨valid, sig, info, locator, under⟩
    rw [(run_keeps earlier).2] at under
    exact ⟨interest, came, valid, ⟨sig, info, signer, locator, under⟩, carried_scope carries, seq,
      command, carries, effect⟩
  · intro earlier command seq signing signs later object split answered
    rcases effects earlier _ signs later object split answered with
      ⟨interest, signer, seq', command', came, admitted, effect⟩
    cases came
    have now : Orderly uri validate (run uri validate scope adminPrefix earlier)
        (some (signedCommand uri scope command seq signing), signs) :=
      orderly earlier _ later split
    have fits : command.Fits uri := by
      apply now.fits command seq signing
      rw [(run_keeps earlier).1]
    have carries := (admission_eq_some_iff.mp admitted).1
    rw [(run_keeps earlier).1, carried_signed fits] at carries
    cases carries
    exact effect
  · rintro earlier wire signs middle signs' later rfl
    have now : Orderly uri validate (run uri validate scope adminPrefix earlier) (wire, signs) :=
      orderly earlier (wire, signs) (middle ++ (wire, signs') :: later) (by simp)
    have spent := now.spends.run middle
    rw [run, List.foldl_append, List.foldl_cons]
    exact spent.unchanged signs'

end

/-! ### One operator -/

theorem fits_of_params {uri : NameUri}
    (short : (command.params uri seq).length < 2 ^ 32) : command.Fits uri := by
  intro argument found
  have inside : argument.length ≤ (command.params uri seq).length := by
    rcases List.append_of_mem found with ⟨before, after, split⟩
    simp only [Command.params, encodeFields, split, List.flatMap_cons, List.flatMap_append,
      encodeField, List.length_append]
    omega
  omega

/-- Alice signs as an operator. -/
def aliceSigns : Signing := ⟨⟨2, []⟩, ⟨none, some alice⟩, []⟩

/-- Her first command grants herself a policy. -/
def firstCommand : Interest := grantCommand plainUri ⟨[]⟩ alice "a" 1 aliceSigns

theorem firstCommand_short : ((Command.grant alice "a").params plainUri 1).length < 2 ^ 32 := by
  have uri : asBytes (plainUri.toUri alice) = [47, 97, 108, 105, 99, 101] := by
    rw [plainUri]
    dsimp only
    rw [if_pos rfl]
    exact asBytes_ofList _
  have policy : asBytes "a" = [97] := asBytes_ofList ['a']
  rw [Command.params, Command.arguments, encodeString, encodeString, uri, policy]
  decide

theorem firstCommand_admitted : (new ⟨[]⟩ ⟨[]⟩).admission plainUri (fun _ => .valid) firstCommand =
    some (alice, 1, .grant alice "a") := by
  refine admission_eq_some_iff.mpr ⟨carried_signed (fits_of_params firstCommand_short) 1 aliceSigns,
    rfl, ?_⟩
  intro last impossible
  cases impossible

theorem applies_once_first :
    AppliesOnce plainUri (fun _ => .valid) ⟨[]⟩ ⟨[]⟩ [(some firstCommand, true)] := by
  apply applies_once
  refine throughout_cons.mpr ⟨⟨fun _ => rfl, ?_, by decide, ?_⟩, throughout_nil _ _⟩
  · intro signer seq principal admitted
    rw [Option.bind_some, firstCommand_admitted] at admitted
    cases admitted
  · intro command seq signing same
    have params := congrArg Interest.appParameters (Option.some.inj same)
    apply fits_of_params
    rw [← Option.some.inj params]
    exact firstCommand_short

theorem signedGrant_unsigned (authority : PolicyAuthority) (principal : Name) :
    authority.signedGrant plainUri principal false = none := by
  rw [PolicyAuthority.signedGrant]
  cases authority.grants principal <;> rfl

/-- When the authority cannot sign, the command is answered with nothing and applied all the same. -/
theorem unsigned_result_applied :
    ¬AppliesOnce plainUri (fun _ => .valid) ⟨[]⟩ ⟨[]⟩ [(some firstCommand, false)] := by
  intro once
  rcases @PolicyController.handle_cases plainUri (fun _ => .valid) (.new ⟨[]⟩ ⟨[]⟩)
    (some firstCommand) false with ⟨_, refused⟩ | ⟨signer, seq, command, admitted, after⟩
  · rw [Option.bind_some, firstCommand_admitted] at refused
    cases refused
  · rw [Option.bind_some, firstCommand_admitted] at admitted
    cases admitted
    have nothing : ((PolicyController.new ⟨[]⟩ ⟨[]⟩).handle plainUri (fun _ => .valid)
        (some firstCommand) false).2 = none := by
      rw [after]
      dsimp only
      exact signedGrant_unsigned _ _
    have same := once.unchanged [] (some firstCommand) false [] rfl nothing
    have applied : (PolicyController.step plainUri (fun _ => .valid) (.new ⟨[]⟩ ⟨[]⟩)
        (some firstCommand, false)).authority = (PolicyAuthority.new ⟨[]⟩).grant alice "a" := by
      rw [PolicyController.step, after]
      rfl
    have version := congrArg PolicyAuthority.version (applied.symm.trans same)
    revert version
    decide

end NdnExt.Service
