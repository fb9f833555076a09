import NdnExt.Service.GrantCache
import NdnExt.Service.PlainUri

/-! The runs of an authority and a consumer: no accepted grant rolls back. -/

namespace NdnExt.Service

open NdnExt.Lib NdnExt.Lib.Run GrantWorld List PolicyAuthority

section

variable {uri : NameUri} {validator : GrantValidator} {scope : Name}

/-- What is in the world is what the authority had: its grants, what it signed, what was accepted. -/
structure GrantWorld.Sound (uri : NameUri) (validator : GrantValidator) (scope : Name)
    (events : List GrantEvent) : Prop where
  rooted : (GrantWorld.run uri validator scope events).authority.scope = scope
  grants : ∀ principal grant,
    (GrantWorld.run uri validator scope events).authority.grants principal = some grant →
      Had uri validator scope events principal grant
  signed : ∀ data ∈ (GrantWorld.run uri validator scope events).signed, ∃ principal grant,
    data = grantObject uri scope principal grant ∧ Had uri validator scope events principal grant
  tracks : Tracks uri scope (Had uri validator scope events)
    (GrantWorld.run uri validator scope events).cache (GrantWorld.run uri validator scope events).log

variable {events : List GrantEvent}

/-- An object is accepted as what the authority had, or refused for one of the two reasons. -/
theorem accept_cases {data : Option Data}
    (sound : GrantWorld.Sound uri validator scope events)
    (framed : Framed uri scope (run uri validator scope events) (.accept data)) :
    (((run uri validator scope events).cache.accept (validator.authentic
          (run uri validator scope events).signed) data) =
        ((run uri validator scope events).cache, none) ∧
      ∀ d, data = some d → validator.authentic
    (run uri validator scope events).signed d =
          false ∨ ∃ principal grant last, d = grantObject uri scope principal grant ∧
        (run uri validator scope events).cache.seen (principalName uri scope principal) =
          some last ∧ grant.version < last) ∨
    ∃ principal grant, data = some (grantObject uri scope principal grant) ∧
      Had uri validator scope events principal grant ∧
      (∀ last ∈ (run uri validator scope events).cache.seen
        (principalName uri scope principal), last ≤ grant.version) ∧
      ((run uri validator scope events).cache.accept (validator.authentic
          (run uri validator scope events).signed) data) =
        (⟨Function.update (run uri validator scope events).cache.seen
          (principalName uri scope principal) (some grant.version)⟩, some grant) := by
  cases data with
  | none =>
    refine Or.inl ⟨rfl, ?_⟩
    intro d impossible
    cases impossible
  | some d =>
    cases authentic : validator.authentic (run uri validator scope events).signed d with
    | false =>
      refine Or.inl ⟨?_, ?_⟩
      · unfold GrantCache.accept
        dsimp only
        rw [authentic]
        cases grantPrincipalKey d.name with
        | none => rfl
        | some key => exact if_pos rfl
      · intro d' same
        cases same
        exact Or.inl authentic
    | true =>
      rcases sound.signed d (validator.sound authentic) with ⟨principal, grant, rfl, had⟩
      have keyed := @key_object uri scope principal grant
      have decoded := Grant.decode_encode (framed principal grant rfl)
      have content : (grantObject uri scope principal grant).content.map Grant.decode =
          some (.ok grant) := congrArg some decoded
      rw [GrantCache.accept_eq keyed, GrantCache.verdict, authentic, if_neg (by decide), content]
      dsimp only
      by_cases stale : ∃ version ∈ (run uri validator scope events).cache.seen
          (principalName uri scope principal), grant.version < version
      · rw [if_pos stale]
        refine Or.inl ⟨rfl, ?_⟩
        intro d' same
        cases same
        rcases stale with ⟨last, found, newer⟩
        exact Or.inr ⟨principal, grant, last, rfl, found, newer⟩
      · rw [if_neg stale]
        refine Or.inr ⟨principal, grant, rfl, had, ?_, rfl⟩
        intro last found
        exact UInt64.not_lt.mp fun newer => stale ⟨last, found, newer⟩

theorem start_sound : GrantWorld.Sound uri validator scope [] where
  rooted := rfl
  grants := by
    intro principal grant impossible
    cases impossible
  signed := forall_mem_nil _
  tracks := by
    refine ⟨?_, fun _ _ => forall_mem_nil _, ?_, List.Pairwise.nil⟩
    · intro data grant impossible
      cases impossible
    · intro principal version impossible
      cases impossible

/-- What the authority and the signer do leaves the consumer as it is. -/
theorem authority_sound {event : GrantEvent}
    (sound : GrantWorld.Sound uri validator scope events)
    (framed : Framed uri scope (run uri validator scope events) event)
    (cache : (run uri validator scope (events ++ [event])).cache =
      (run uri validator scope events).cache)
    (log : (run uri validator scope (events ++ [event])).log =
      (run uri validator scope events).log)
    (signed : ∀ data ∈ (run uri validator scope (events ++ [event])).signed,
      ∃ principal grant, data = grantObject uri scope principal grant ∧
        Had uri validator scope events principal grant) :
    GrantWorld.Sound uri validator scope (events ++ [event]) := by
  have after := @authority_step uri validator scope _ event framed
  rw [← run_append] at after
  refine ⟨?_, ?_, ?_, ?_⟩
  · rcases after with same | ⟨_, _, _, _, next⟩
    · rw [same]
      exact sound.rooted
    · rw [next]
      exact sound.rooted
  · intro principal grant held
    rcases after with same | ⟨changed, new, _, version, next⟩
    · rw [same] at held
      exact (sound.grants principal grant held).append _
    · by_cases here : principal = changed
      · refine ⟨events ++ [event], [], (append_nil _).symm, held, ?_⟩
        rw [next] at held ⊢
        dsimp only at held ⊢
        rw [here, Function.update_self] at held
        rw [← Option.some.inj held, version]
      · rw [next] at held
        dsimp only at held
        rw [Function.update_of_ne here] at held
        exact (sound.grants principal grant held).append _
  · intro data found
    rcases signed data found with ⟨principal, grant, same, had⟩
    exact ⟨principal, grant, same, had.append _⟩
  · rw [cache, log]
    exact sound.tracks.mono fun _ _ had => had.append _

theorem accept_sound {data : Option Data}
    (sound : GrantWorld.Sound uri validator scope events)
    (framed : Throughout (step uri validator) (.start scope)
      (events ++ [.accept data]) (Framed uri scope)) :
    GrantWorld.Sound uri validator scope (events ++ [.accept data]) := by
  have now : Framed uri scope (run uri validator scope events) (.accept data) :=
    framed events (.accept data) [] rfl
  have after : run uri validator scope (events ++ [.accept data]) =
      { run uri validator scope events with
        cache := ((run uri validator scope events).cache.accept (validator.authentic
          (run uri validator scope events).signed) data).1
        log := (run uri validator scope events).log ++ [(data,
          ((run uri validator scope events).cache.accept (validator.authentic
            (run uri validator scope events).signed) data).2)] } := run_append _ _
  refine ⟨?_, ?_, ?_, ?_⟩
  · rw [after]
    exact sound.rooted
  · rw [after]
    intro principal grant held
    exact (sound.grants principal grant held).append _
  · rw [after]
    intro d found
    rcases sound.signed d found with ⟨principal, grant, same, had⟩
    exact ⟨principal, grant, same, had.append _⟩
  · rw [after]
    rcases accept_cases sound now with ⟨nothing, _⟩ | ⟨principal, grant, rfl, had, newest, accepts⟩
    · rw [nothing]
      exact (sound.tracks.refuse data).mono fun _ _ had => had.append _
    · rw [accepts]
      have unique : ∀ grant', Had uri validator scope events principal grant' →
          grant'.version = grant.version → grant' = grant :=
        fun grant' had' same => had_unique (throughout_append.mp framed).1 had' had same
      exact (sound.tracks.accept had unique newest).mono fun _ _ had => had.append _

theorem run_sound
    (framed : Throughout (step uri validator) (.start scope) events
      (Framed uri scope)) : GrantWorld.Sound uri validator scope events := by
  induction events using List.reverseRecOn with
  | nil => exact start_sound
  | append_singleton events event ih =>
    have sound := ih (throughout_append.mp framed).1
    have now : Framed uri scope (run uri validator scope events) event :=
      framed events event [] rfl
    have after := @run_append uri validator scope events event
    cases event with
    | grant principal policy =>
      exact authority_sound sound now (by rw [after]; rfl) (by rw [after]; rfl)
        (by rw [after]; exact sound.signed)
    | revoke principal =>
      exact authority_sound sound now (by rw [after]; rfl) (by rw [after]; rfl)
        (by rw [after]; exact sound.signed)
    | sign principal signs =>
      refine authority_sound sound now (by rw [after]; rfl) (by rw [after]; rfl) ?_
      rw [after]
      intro data found
      rcases mem_append.mp found with earlier | new
      · exact sound.signed data earlier
      · rw [signedGrant] at new
        cases held : (run uri validator scope events).authority.grants principal with
        | none =>
          rw [held] at new
          cases new
        | some grant =>
          rw [held, sound.rooted] at new
          cases signs with
          | false => cases new
          | true =>
            have only : data = grantObject uri scope principal grant :=
              mem_singleton.mp new
            exact ⟨principal, grant, only, sound.grants principal grant held⟩
    | accept data => exact accept_sound sound framed

/-- Two runs that differ only in what came for other principals. -/
theorem run_apart (events : List GrantEvent) (principal : Name) :
    let whole := run uri validator scope events
    let part := run uri validator scope (events.filter (concerns uri scope principal))
    part.authority = whole.authority ∧ part.signed = whole.signed ∧
      part.cache.seen (principalName uri scope principal) =
        whole.cache.seen (principalName uri scope principal) ∧
      part.log = whole.log.filter (fun entry => ofPrincipal uri scope principal entry.1) := by
  induction events using List.reverseRecOn with
  | nil => exact ⟨rfl, rfl, rfl, rfl⟩
  | append_singleton events event ih =>
    rcases ih with ⟨authority, signed, seen, log⟩
    rw [filter_append, run_append]
    by_cases concerned : concerns uri scope principal event = true
    · rw [filter_cons_of_pos concerned, filter_nil, run_append]
      cases event with
      | grant other policy =>
        refine ⟨?_, signed, seen, log⟩
        exact congrArg (fun a => grant a other policy) authority
      | revoke other =>
        refine ⟨?_, signed, seen, log⟩
        exact congrArg (fun a => revoke a other) authority
      | sign other signs =>
        refine ⟨authority, ?_, seen, log⟩
        simp only [step]
        rw [signed, authority]
      | accept data =>
        have own : data.bind (fun data => grantPrincipalKey data.name) =
            some (principalName uri scope principal) := of_decide_eq_true concerned
        have same := @GrantCache.accept_own _ _ (validator.authentic
          (run uri validator scope events).signed) _ _ own seen
        refine ⟨authority, signed, ?_, ?_⟩
        · simp only [step]
          rw [signed]
          exact same.2
        · simp only [step]
          have kept : ofPrincipal uri scope principal data = true := concerned
          rw [signed, log, same.1, filter_append]
          simp [kept]
    · rw [filter_cons_of_neg concerned, filter_nil, append_nil]
      cases event with
      | grant other policy => exact absurd rfl concerned
      | revoke other => exact absurd rfl concerned
      | sign other signs => exact absurd rfl concerned
      | accept data =>
        have other : data.bind (fun data => grantPrincipalKey data.name) ≠
            some (principalName uri scope principal) :=
          fun own => concerned (decide_eq_true own)
        refine ⟨authority, signed, ?_, ?_⟩
        · exact seen.trans (GrantCache.accept_other other).symm
        · simp only [step]
          have dropped : ¬ofPrincipal uri scope principal data = true := concerned
          rw [log, filter_append]
          simp [dropped]

variable (uri validator scope)

theorem never_rolls_back (events : List GrantEvent)
    (framed : Throughout (GrantWorld.step uri validator) (.start scope) events
      (Framed uri scope)) : NeverRollsBack uri validator scope events := by
  have sound := run_sound framed
  refine ⟨sound.tracks.entries, sound.tracks.forward, ?_, ?_, fun principal =>
    (run_apart events principal).2.2.2⟩
  · rintro earlier data later rfl nothing
    have before := run_sound (throughout_append.mp framed).1
    rcases accept_cases before (framed earlier _ later rfl) with
      ⟨_, reason⟩ | ⟨principal, grant, _, _, _, accepts⟩
    · rcases reason data rfl with forged | ⟨principal, grant, last, object, held, newer⟩
      · exact Or.inl forged
      · rcases (before.tracks.seen principal last held).1 with ⟨entry, found, newest, accepted, same⟩
        rw [← same] at newer
        exact Or.inr ⟨principal, grant, newest, object, newer, entry, found, accepted⟩
    · rw [accepts] at nothing
      cases nothing
  · intro principal version
    constructor
    · exact sound.tracks.seen principal version
    · rintro ⟨⟨entry, found, grant, accepted, same⟩, highest⟩
      rw [GrantCache.latestVersion]
      cases held : (GrantWorld.run uri validator scope events).cache.seen
          (principalName uri scope principal) with
      | none => exact absurd accepted (sound.tracks.unseen principal held entry found grant)
      | some last =>
        rcases sound.tracks.seen principal last held with
          ⟨⟨entry', found', grant', accepted', same'⟩, highest'⟩
        have below := highest entry' found' grant' accepted'
        have above := highest' entry found grant accepted
        rw [same'] at below
        rw [same] at above
        rw [UInt64.le_antisymm below above]

end

/-! ### Two authorities -/

/-- Accepts all that the key has signed. -/
def signedOnly : GrantValidator where
  authentic signed data := decide (data ∈ signed)
  sound := of_decide_eq_true

theorem grantObject_fits {uri : NameUri} {scope principal principal' : Name} {grant grant' : Grant}
    (same : grantObject uri scope principal grant = grantObject uri scope principal' grant')
    (fits : grant.Fits) : grant'.Fits := by
  have content : grant.encode = grant'.encode := Option.some.inj (congrArg Data.content same)
  have lengths := congrArg List.length content
  rw [Grant.length_encode, Grant.length_encode] at lengths
  unfold Grant.Fits at fits ⊢
  omega

/-- Alice is granted a policy, and the signed grant reaches a consumer twice. -/
def grantTwice : List GrantEvent :=
  [.grant alice "a", .sign alice true,
    .accept (some (grantObject plainUri ⟨[]⟩ alice ⟨"a", false, 1⟩)),
    .accept (some (grantObject plainUri ⟨[]⟩ alice ⟨"a", false, 1⟩))]

theorem never_rolls_back_twice : NeverRollsBack plainUri signedOnly ⟨[]⟩ grantTwice := by
  have short : (⟨"a", false, 1⟩ : Grant).Fits := by
    change (asBytes (String.ofList ['a'])).length < 2 ^ 32
    rw [asBytes_ofList]
    decide
  apply never_rolls_back
  refine throughout_cons.mpr ⟨(by decide : 0 + 1 < 2 ^ 64), throughout_cons.mpr ⟨trivial, throughout_cons.mpr
    ⟨?_, throughout_cons.mpr ⟨?_, throughout_nil _ _⟩⟩⟩⟩
  · intro principal grant same
    exact grantObject_fits (Option.some.inj same) short
  · intro principal grant same
    exact grantObject_fits (Option.some.inj same) short

/-- A policy of `n` letters. -/
def letterPolicy (n : Nat) : String := String.ofList (List.replicate n 'a')

theorem asBytes_letterPolicy (n : Nat) : asBytes (letterPolicy n) = List.replicate n 97 := by
  rw [letterPolicy, asBytes_ofList]
  induction n with
  | zero => rfl
  | succ n ih =>
    rw [replicate_succ, replicate_succ, flatMap_cons, ih]
    rfl

/-- What four letters say as a length. -/
def letters : Nat := 1633771873

theorem fourLetters : ofLe (List.replicate 4 97) = letters := by decide

/-- A run of one byte is read as fields of the length that four of them say. -/
theorem readField_replicate {b : UInt8} {len n : Nat} (reads : ofLe (List.replicate 4 b) = len)
    (long : len + 4 ≤ n) (rest : Bytes) : readField (List.replicate n b ++ rest) =
      .ok (List.replicate len b, List.replicate (n - (len + 4)) b ++ rest) := by
  have split : List.replicate n b ++ rest = List.replicate 4 b ++
      (List.replicate len b ++ (List.replicate (n - (len + 4)) b ++ rest)) := by
    rw [← append_assoc, ← append_assoc, ← replicate_add, ← replicate_add]
    congr 2
    omega
  have four : (List.replicate 4 b).length = 4 := length_replicate
  have more : (List.replicate len b).length = len := length_replicate
  rw [split, readField, if_neg (by rw [length_append]; omega), take_left' four,
    drop_left' four, reads]
  rw [if_neg (by rw [length_append]; omega), take_left' more, drop_left' more]

theorem decodeBool_replicate {b : UInt8} (nonzero : b ≠ 0) {n : Nat} (positive : 0 < n) :
    decodeBool (List.replicate n b) = .ok true := by
  cases n with
  | zero => exact absurd positive (Nat.lt_irrefl 0)
  | succ n =>
    rw [replicate_succ, decodeBool, decide_eq_true nonzero]

/-- Where the length wraps to zero, the letters are read as the other fields. -/
theorem decode_letterPolicy {n len : Nat} (wraps : n % 2 ^ 32 = 0)
    (reads : ofLe (List.replicate 4 97) = len) (positive : 0 < len) (other : len ≠ 8)
    (long : len + 4 + (len + 4) ≤ n) (revoked : Bool) (version : UInt64) :
    Grant.decode (Grant.encode ⟨letterPolicy n, revoked, version⟩) =
      .error (.decode "expected u64") := by
  have zero : (encodeString (letterPolicy n)).length % 2 ^ 32 = 0 := by
    rw [encodeString, asBytes_letterPolicy, length_replicate, wraps]
  have empty : decodeString [] = .ok "" := decodeString_encode ""
  have filled := decodeBool_replicate (show (97 : UInt8) ≠ 0 by decide) positive
  have number : decodeU64 (List.replicate len 97) = .error (.decode "expected u64") := by
    rw [decodeU64, length_replicate, if_neg other]
  rw [Grant.decode, Grant.encode, encodeFields, flatMap_cons, readField_encode_mod, zero,
    encodeString, asBytes_letterPolicy]
  simp only [take_zero, drop_zero, bind, Except.bind, empty,
    readField_replicate reads (show len + 4 ≤ n by omega), filled,
    readField_replicate reads (show len + 4 ≤ n - (len + 4) by omega), number]

/-- Alice is granted a policy of `n` letters, and the signed grant reaches a consumer. -/
def letterRun (n : Nat) : List GrantEvent :=
  [.grant alice (letterPolicy n), .sign alice true,
    .accept (some (grantObject plainUri ⟨[]⟩ alice ⟨letterPolicy n, false, 1⟩))]

theorem letterRun_refused {n : Nat} (wraps : n % 2 ^ 32 = 0)
    (long : letters + 4 + (letters + 4) ≤ n) :
    ¬NeverRollsBack plainUri signedOnly ⟨[]⟩ (letterRun n) := by
  intro never
  let world := run plainUri signedOnly ⟨[]⟩
    [.grant alice (letterPolicy n), .sign alice true]
  let object := grantObject plainUri ⟨[]⟩ alice ⟨letterPolicy n, false, 1⟩
  have signed : world.signed = [object] := by
    simp [world, object, run, step, start, grant,
      new, signedGrant]
  have authentic : signedOnly.authentic world.signed object = true := by
    rw [signed]
    exact decide_eq_true (mem_singleton_self _)
  have content : object.content.map Grant.decode = some (.error (.decode "expected u64")) :=
    congrArg some (decode_letterPolicy wraps fourLetters (by decide) (by decide) long false 1)
  have nothing : (world.cache.accept (signedOnly.authentic world.signed) (some object)).2 = none := by
    rw [GrantCache.accept_eq (key_object alice _), GrantCache.verdict, authentic,
      if_neg (by decide), content]
  rcases never.refused _ _ [] rfl nothing with forged | ⟨_, _, _, _, _, entry, found, _⟩
  · rw [authentic] at forged
    cases forged
  · cases found

/-- Its signed grant is refused, though it is authentic and the first one. -/
theorem overlong_grant_refused : ¬NeverRollsBack plainUri signedOnly ⟨[]⟩ (letterRun (2 ^ 32)) :=
  letterRun_refused (by decide) (by decide)

end NdnExt.Service
