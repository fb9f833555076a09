import NdnExt.Ndnsf.Passes

/-! What the pending tokens were issued for, and the payloads that wait with them. -/

namespace NdnExt.Ndnsf

open NdnExt.Lib PendingProviderTokens List

structure Grant where
  number : Nat
  token : ProviderToken
  coord : PendingCoordination
  createdAtSecs : Nat
  purpose : Purpose
  deriving DecidableEq

def grantOf (grants : List Grant) (token : ProviderToken) : Option Grant :=
  grants.find? (fun grant => grant.token = token)

/-- The grant whose REQUEST set the payload that is pending under the key. -/
def holderOf (grants : List Grant) (key : String) : Option Grant :=
  grants.find? (fun grant => grant.purpose.key = some key)

def addGrant (nowSecs : Nat) (grants : List Grant) (issuance : Issuance) : List Grant :=
  ⟨grants.length, issuance.token, issuance.coord, nowSecs, issuance.purpose⟩ :: grants

/-- The grant whose token is no longer in the table. -/
def consumed (grants : List Grant) (before after : ProviderEngine) : Option Grant :=
  (spent before after).bind (grantOf grants)

abbrev Tokens := HashMap ProviderToken (PendingCoordination × Nat)

abbrev Payloads := HashMap String (Bytes × Nat)

/-- Every pending token has a grant that the handler has not run for. -/
structure Granted (entries : Tokens) (grants : List Grant) (runs : List Nat) : Prop where
  numbered : grants.map Grant.number = (List.range grants.length).reverse
  known : ∀ token coord created, entries.lookup token = some (coord, created) →
    ∃ grant, grantOf grants token = some grant ∧ grant.coord = coord ∧ grant.number ∉ runs
  once : runs.Nodup
  ran : ∀ number ∈ runs, number < grants.length

/-- The payload of a REQUEST is pending as long as its token is. -/
structure Waiting (entries : Tokens) (payloads : Payloads) (grants : List Grant) : Prop where
  held : ∀ key pending, payloads.lookup key = some pending →
    ∃ holder, holderOf grants key = some holder
  waits : ∀ token coord created grant key payload, entries.lookup token = some (coord, created) →
    grantOf grants token = some grant → grant.purpose = .request key payload →
    holderOf grants key = some grant ∧ payloads.lookup key = some (payload, created)

theorem grantOf_addGrant (nowSecs : Nat) (grants : List Grant) (issuance : Issuance)
    (token : ProviderToken) :
    grantOf (addGrant nowSecs grants issuance) token =
      if issuance.token = token then
        some ⟨grants.length, issuance.token, issuance.coord, nowSecs, issuance.purpose⟩
      else grantOf grants token := by
  rw [grantOf, addGrant, List.find?_cons]
  by_cases same : issuance.token = token
  · simp [same]
  · simp [same, grantOf]

theorem holderOf_addGrant (nowSecs : Nat) (grants : List Grant) (issuance : Issuance)
    (key : String) :
    holderOf (addGrant nowSecs grants issuance) key =
      if issuance.purpose.key = some key then
        some ⟨grants.length, issuance.token, issuance.coord, nowSecs, issuance.purpose⟩
      else holderOf grants key := by
  rw [holderOf, addGrant, List.find?_cons]
  by_cases same : issuance.purpose.key = some key
  · simp [same]
  · simp [same, holderOf]

variable {grant : Grant} {grants : List Grant} {token : ProviderToken} {nowSecs : Nat}
  {engine : ProviderEngine} {coord : PendingCoordination}

theorem grantOf_some
    (found : grantOf grants token = some grant) : grant ∈ grants ∧ grant.token = token := by
  have holds := List.find?_some found
  exact ⟨mem_of_find?_eq_some found, by simpa using holds⟩

theorem Purpose.key_eq {purpose : Purpose} {key : String} (keyed : purpose.key = some key) :
    ∃ payload, purpose = .request key payload := by
  cases purpose with
  | request other payload =>
    cases keyed
    exact ⟨payload, rfl⟩
  | targeted => cases keyed

namespace Granted

variable {entries entries' : Tokens} {grants : List Grant} {runs : List Nat}

section

variable (granted : Granted entries grants runs)
include granted

theorem sub
    (smaller : ∀ token entry, entries'.lookup token = some entry →
      entries.lookup token = some entry) : Granted entries' grants runs where
  numbered := granted.numbered
  known token coord created found := granted.known token coord created (smaller _ _ found)
  once := granted.once
  ran := granted.ran

theorem add {issuance : Issuance}
    (issued : ∀ token entry, entries'.lookup token = some entry →
      issuance.token = token ∧ entry = (issuance.coord, nowSecs) ∨
        issuance.token ≠ token ∧ entries.lookup token = some entry) :
    Granted entries' (addGrant nowSecs grants issuance) runs where
  numbered := by
    simp only [addGrant, map_cons, granted.numbered, length_cons, range_succ,
      reverse_append, reverse_singleton, singleton_append]
  known := by
    intro token coord created found
    rw [grantOf_addGrant]
    rcases issued token (coord, created) found with ⟨same, entry⟩ | ⟨different, before⟩
    · cases entry
      rw [if_pos same]
      refine ⟨_, rfl, rfl, ?_⟩
      intro ran
      exact Nat.lt_irrefl _ (granted.ran _ ran)
    · rw [if_neg different]
      exact granted.known token coord created before
  once := granted.once
  ran number listed := Nat.lt_succ_of_lt (granted.ran number listed)

theorem numbers_inj {grant' : Grant}
    (listed : grant ∈ grants) (listed' : grant' ∈ grants) (same : grant.number = grant'.number) :
    grant = grant' := by
  have distinct : (grants.map Grant.number).Nodup := by
    rw [granted.numbered]
    exact nodup_reverse.mpr nodup_range
  exact inj_on_of_nodup_map distinct listed listed' same

theorem run
    {entry : PendingCoordination × Nat} (found : entries.lookup token = some entry)
    (grantedBy : grantOf grants token = some grant) :
    Granted (entries.erase token) grants (grant.number :: runs) where
  numbered := granted.numbered
  known := by
    intro other coord created found'
    rcases HashMap.lookup_erase_eq_some.mp found' with ⟨different, found'⟩
    rcases granted.known other coord created found' with ⟨grant', grantedBy', same, unused⟩
    refine ⟨grant', grantedBy', same, ?_⟩
    intro ran
    rcases mem_cons.mp ran with equal | earlier
    · rcases grantOf_some grantedBy with ⟨listed, token_eq⟩
      rcases grantOf_some grantedBy' with ⟨listed', token_eq'⟩
      have equal := granted.numbers_inj listed' listed equal
      exact different (token_eq'.symm.trans ((congrArg Grant.token equal).trans token_eq))
    · exact unused earlier
  once := by
    rcases granted.known token entry.1 entry.2 found with ⟨grant', grantedBy', _, unused⟩
    rw [grantedBy] at grantedBy'
    cases grantedBy'
    exact nodup_cons.mpr ⟨unused, granted.once⟩
  ran := by
    intro number listed
    rcases mem_cons.mp listed with same | earlier
    · have ranged : number ∈ (List.range grants.length).reverse := by
        rw [← granted.numbered, same]
        exact mem_map_of_mem (grantOf_some grantedBy).1
      exact mem_range.mp (mem_reverse.mp ranged)
    · exact granted.ran number earlier

end

end Granted

theorem lookup_shed {table : PendingProviderTokens}
    {entry : PendingCoordination × Nat} (found : table.shed.lookup token = some entry) :
    table.entries.lookup token = some entry := by
  unfold shed at found
  split at found
  · split at found
    · exact (HashMap.lookup_erase_eq_some.mp found).2
    · exact found
  · exact found

theorem lookup_issueToken {requester service : Name}
    {userToken : String} {drawn : ProviderToken} {entry : PendingCoordination × Nat}
    (found : (engine.issueToken nowSecs requester service userToken drawn).tokens.entries.lookup
      token = some entry) :
    drawn = token ∧ entry = (⟨requester, service, userToken⟩, nowSecs) ∨
      drawn ≠ token ∧ engine.tokens.entries.lookup token = some entry := by
  have inserted := (HashMap.lookup_insert_eq _ _ _ _).symm.trans found
  split at inserted
  · next same => exact Or.inl ⟨same.symm, (Option.some.inj inserted).symm⟩
  · next different => exact Or.inr ⟨Ne.symm different, lookup_shed inserted⟩

theorem Granted.batch {runs : List Nat}
    (granted : Granted engine.tokens.entries grants runs) (nowSecs : Nat)
    (coord : PendingCoordination) (tokens : List ProviderToken) :
    Granted (tokens.foldl (fun engine token => engine.issueToken nowSecs coord.requester
        coord.service coord.userToken token) engine).tokens.entries
      ((tokens.map (fun token => (⟨token, coord, .targeted⟩ : Issuance))).foldl
        (addGrant nowSecs) grants) runs := by
  induction tokens generalizing engine grants with
  | nil => exact granted
  | cons token rest ih => exact ih (granted.add (fun _ _ found => lookup_issueToken found))

/-- A redemption takes out the token of the grant that is recorded. -/
theorem consumed_redeemed {E : Type} {runs : List Nat}
    {before after : ProviderEngine} (granted : Granted before.tokens.entries grants runs)
    {requester : Name} {presents : ProviderToken → Prop}
    (redeems : @Redeems E before.tokens nowSecs requester presents (.ok coord) after.tokens) :
    ∃ token created grant, consumed grants before after = some grant ∧ presents token ∧
      before.tokens.entries.lookup token = some (coord, created) ∧ coord.requester = requester ∧
      grantOf grants token = some grant ∧ grant.coord = coord ∧
      after.tokens.entries = before.tokens.entries.erase token := by
  rcases after with ⟨table⟩
  cases redeems with
  | @redeemed token _ created presented found own _ =>
    rcases granted.known token coord created found with ⟨grant, grantedBy, same, _⟩
    refine ⟨token, created, grant, ?_, presented, found, own, grantedBy, same, rfl⟩
    rw [consumed, spent_erase found rfl]
    exact grantedBy

namespace Waiting

variable {entries entries' : Tokens} {payloads : Payloads} {grants : List Grant}

theorem sub (waiting : Waiting entries payloads grants)
    (smaller : ∀ token entry, entries'.lookup token = some entry →
      entries.lookup token = some entry) : Waiting entries' payloads grants where
  held := waiting.held
  waits token coord created grant key payload found :=
    waiting.waits token coord created grant key payload (smaller _ _ found)

theorem targeted (waiting : Waiting entries payloads grants) {nowSecs : Nat}
    {drawn : ProviderToken} {coord : PendingCoordination}
    (issued : ∀ token entry, entries'.lookup token = some entry →
      drawn = token ∧ entry = (coord, nowSecs) ∨
        drawn ≠ token ∧ entries.lookup token = some entry) :
    Waiting entries' payloads (addGrant nowSecs grants ⟨drawn, coord, .targeted⟩) where
  held key pending found := (holderOf_addGrant nowSecs grants _ key).symm ▸ waiting.held key pending found
  waits := by
    intro token coord' created grant key payload found grantedBy purpose
    rw [grantOf_addGrant] at grantedBy
    rw [holderOf_addGrant, if_neg nofun]
    rcases issued token (coord', created) found with ⟨same, _⟩ | ⟨different, before⟩
    · rw [if_pos same] at grantedBy
      cases grantedBy
      cases purpose
    · rw [if_neg different] at grantedBy
      exact waiting.waits token coord' created grant key payload before grantedBy purpose

theorem request (waiting : Waiting entries payloads grants)
    {drawn : ProviderToken} {key : String} {payload : Bytes}
    (apart : ∀ token coord created grant, entries.lookup token = some (coord, created) →
      grantOf grants token = some grant → grant.purpose.key ≠ some key)
    (issued : ∀ token entry, entries'.lookup token = some entry →
      drawn = token ∧ entry = (coord, nowSecs) ∨
        drawn ≠ token ∧ entries.lookup token = some entry) :
    Waiting entries' (payloads.insert key (payload, nowSecs))
      (addGrant nowSecs grants ⟨drawn, coord, .request key payload⟩) where
  held := by
    intro other pending found
    rw [holderOf_addGrant]
    split
    · exact ⟨_, rfl⟩
    · next different =>
      have other_ne : other ≠ key := fun same => different (congrArg some same.symm)
      rw [AList.lookup_insert_ne other_ne] at found
      exact waiting.held other pending found
  waits := by
    intro token coord' created grant key' payload' found grantedBy purpose
    rw [grantOf_addGrant] at grantedBy
    rw [holderOf_addGrant]
    rcases issued token (coord', created) found with ⟨same, entry⟩ | ⟨different, before⟩
    · rw [if_pos same] at grantedBy
      cases grantedBy
      cases purpose
      cases entry
      exact ⟨if_pos rfl, AList.lookup_insert _⟩
    · rw [if_neg different] at grantedBy
      have other : key' ≠ key := by
        intro same
        refine apart token coord' created grant before grantedBy ?_
        rw [purpose, same]
        rfl
      have other_key : Purpose.key (.request key payload) ≠ some key' := fun same =>
        other (Option.some.inj same).symm
      rw [if_neg other_key, AList.lookup_insert_ne other]
      exact waiting.waits token coord' created grant key' payload' before grantedBy purpose

theorem select (waiting : Waiting entries payloads grants) {created : Nat} {key : String}
    (found : entries.lookup token = some (coord, created))
    (grantedBy : grantOf grants token = some grant) (issued : grant.purpose.key = some key) :
    Waiting (entries.erase token) (payloads.erase key) grants where
  held other pending found := waiting.held other pending (HashMap.lookup_erase_eq_some.mp found).2
  waits := by
    intro token' coord' created' grant' key' payload' found' grantedBy' purpose'
    rcases HashMap.lookup_erase_eq_some.mp found' with ⟨different, before⟩
    rcases waiting.waits token' coord' created' grant' key' payload' before grantedBy' purpose'
      with ⟨holds, pending⟩
    refine ⟨holds, HashMap.lookup_erase_eq_some.mpr ⟨?_, pending⟩⟩
    -- Two tokens that wait under one key would have one grant.
    intro same
    rcases Purpose.key_eq issued with ⟨payload, purpose⟩
    have holds' := (waiting.waits token coord created grant key payload found grantedBy purpose).1
    rw [same, holds'] at holds
    cases holds
    exact different ((grantOf_some grantedBy').2.symm.trans (grantOf_some grantedBy).2)

end Waiting

theorem Waiting.batch {payloads : Payloads}
    (waiting : Waiting engine.tokens.entries payloads grants) (nowSecs : Nat)
    (coord : PendingCoordination) (tokens : List ProviderToken) :
    Waiting (tokens.foldl (fun engine token => engine.issueToken nowSecs coord.requester
        coord.service coord.userToken token) engine).tokens.entries payloads
      ((tokens.map (fun token => (⟨token, coord, .targeted⟩ : Issuance))).foldl
        (addGrant nowSecs) grants) := by
  induction tokens generalizing engine grants with
  | nil => exact waiting
  | cons token rest ih => exact ih (waiting.targeted (fun _ _ found => lookup_issueToken found))

theorem issueToken_ttl (nowSecs : Nat) (coord : PendingCoordination) (tokens : List ProviderToken)
    (engine : ProviderEngine) :
    (tokens.foldl (fun engine token => engine.issueToken nowSecs coord.requester coord.service
      coord.userToken token) engine).tokens.ttlSecs = engine.tokens.ttlSecs := by
  induction tokens generalizing engine with
  | nil => rfl
  | cons token rest ih => exact ih _

end NdnExt.Ndnsf
