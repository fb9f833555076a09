import Mathlib.Data.List.Pairwise
import NdnExt.Lib.Run
import NdnExt.Service.Authority

/-! A consumer's cache of grants, and what it holds of the states that the principals had. -/

namespace NdnExt.Service

open NdnExt.Lib NdnExt.Lib.Run List Function

/-- The name without its version component. -/
def grantPrincipalKey (name : Name) : Option Name :=
  if name.components.length < 2 then none else some ⟨name.components.dropLast⟩

structure GrantCache where
  seen : Name → Option UInt64

namespace GrantCache

def empty : GrantCache := ⟨fun _ => none⟩

/-- `data` is what the wire decodes to, `authentic` the verdict of the validator. -/
def accept (cache : GrantCache) (authentic : Data → Bool) (data : Option Data) :
    GrantCache × Option Grant :=
  match data with
  | none => (cache, none)
  | some data =>
    match grantPrincipalKey data.name with
    | none => (cache, none)
    | some key =>
      if authentic data = false then (cache, none)
      else
        match data.content.map Grant.decode with
        | some (.ok grant) =>
          if ∃ last ∈ cache.seen key, grant.version < last then (cache, none)
          else (⟨Function.update cache.seen key (some grant.version)⟩, some grant)
        | _ => (cache, none)

def latestVersion (uri : NameUri) (cache : GrantCache) (scope principal : Name) : Option UInt64 :=
  cache.seen (principalName uri scope principal)

end GrantCache

/-- Its verdict, by what the authority's key has signed so far. -/
structure GrantValidator where
  authentic : List Data → Data → Bool
  sound : ∀ {signed data}, authentic signed data = true → data ∈ signed

structure GrantWorld where
  authority : PolicyAuthority
  signed : List Data
  cache : GrantCache
  /-- What reached the cache, with its answers. -/
  log : List (Option Data × Option Grant)

inductive GrantEvent where
  | grant (principal : Name) (policy : String)
  | revoke (principal : Name)
  | sign (principal : Name) (signs : Bool)
  | accept (data : Option Data)

namespace GrantWorld

variable (uri : NameUri) (validator : GrantValidator)

def start (scope : Name) : GrantWorld := ⟨.new scope, [], .empty, []⟩

def step (world : GrantWorld) : GrantEvent → GrantWorld
  | .grant principal policy => { world with authority := world.authority.grant principal policy }
  | .revoke principal => { world with authority := world.authority.revoke principal }
  | .sign principal signs =>
    { world with
      signed := world.signed ++ (world.authority.signedGrant uri principal signs).toList }
  | .accept data =>
    let (cache, answer) := world.cache.accept (validator.authentic world.signed) data
    { world with cache, log := world.log ++ [(data, answer)] }

def run (scope : Name) (events : List GrantEvent) : GrantWorld :=
  events.foldl (step uri validator) (start scope)

end GrantWorld

/-! ### What a consumer relies on -/

section

variable (uri : NameUri) (validator : GrantValidator) (scope : Name)

/-- The object of a principal's grant was accepted. -/
def Accepted (entry : Option Data × Option Grant) (principal : Name) (grant : Grant) : Prop :=
  entry = (some (grantObject uri scope principal grant), some grant)

/-- The principal had this grant when the authority was at its version. -/
def Had (events : List GrantEvent) (principal : Name) (grant : Grant) : Prop :=
  ∃ earlier later, events = earlier ++ later ∧
    (GrantWorld.run uri validator scope earlier).authority.grants principal = some grant ∧
      (GrantWorld.run uri validator scope earlier).authority.version = grant.version

/-- What came for a principal. -/
def ofPrincipal (principal : Name) (data : Option Data) : Bool :=
  data.bind (fun data => grantPrincipalKey data.name) = some (principalName uri scope principal)

/-- All but what came to the cache for others. -/
def concerns (principal : Name) : GrantEvent → Bool
  | .accept data => ofPrincipal uri scope principal data
  | _ => true

structure NeverRollsBack (events : List GrantEvent) : Prop where
  had : ∀ data grant, (data, some grant) ∈ (GrantWorld.run uri validator scope events).log →
    ∃ principal, Accepted uri scope (data, some grant) principal grant ∧
      Had uri validator scope events principal grant
  forward : (GrantWorld.run uri validator scope events).log.Pairwise fun first second =>
    ∀ principal grant grant', Accepted uri scope first principal grant →
      Accepted uri scope second principal grant' → grant.version ≤ grant'.version ∧
        (grant.revoked = true → grant'.revoked = false → grant.version < grant'.version)
  refused : ∀ earlier data later, events = earlier ++ .accept (some data) :: later →
    ((GrantWorld.run uri validator scope earlier).cache.accept (validator.authentic
      (GrantWorld.run uri validator scope earlier).signed) (some data)).2 = none →
    validator.authentic (GrantWorld.run uri validator scope earlier).signed data = false ∨
      ∃ principal grant newer, data = grantObject uri scope principal grant ∧
        grant.version < newer.version ∧
          ∃ entry ∈ (GrantWorld.run uri validator scope earlier).log,
            Accepted uri scope entry principal newer
  latest : ∀ principal version,
    (GrantWorld.run uri validator scope events).cache.latestVersion uri scope principal =
        some version ↔
      (∃ entry ∈ (GrantWorld.run uri validator scope events).log, ∃ grant,
        Accepted uri scope entry principal grant ∧ grant.version = version) ∧
      ∀ entry ∈ (GrantWorld.run uri validator scope events).log, ∀ grant,
        Accepted uri scope entry principal grant → grant.version ≤ version
  /-- The answers for a principal are those of the run without the objects of others. -/
  apart : ∀ principal,
    (GrantWorld.run uri validator scope (events.filter (concerns uri scope principal))).log =
      (GrantWorld.run uri validator scope events).log.filter
        (fun entry => ofPrincipal uri scope principal entry.1)

/-- No version overflows, and no object of an overlong policy is accepted. -/
def Framed (world : GrantWorld) : GrantEvent → Prop
  | .grant _ _ => world.authority.version.toNat + 1 < 2 ^ 64
  | .revoke principal => world.authority.grants principal ≠ none →
    world.authority.version.toNat + 1 < 2 ^ 64
  | .sign _ _ => True
  | .accept data => ∀ principal grant, data = some (grantObject uri scope principal grant) →
    grant.Fits

end

/-! ### The authority -/

section

variable {uri : NameUri} {validator : GrantValidator} {scope : Name}

theorem run_append (events : List GrantEvent) (event : GrantEvent) :
    GrantWorld.run uri validator scope (events ++ [event]) =
      (GrantWorld.run uri validator scope events).step uri validator event := by
  rw [GrantWorld.run, foldl_append]
  rfl

/-- An event leaves the authority as it is or gives one principal a grant of the next version. -/
theorem authority_step {world : GrantWorld} {event : GrantEvent}
    (framed : Framed uri scope world event) :
    (world.step uri validator event).authority = world.authority ∨
      ∃ principal grant, world.authority.version.toNat + 1 < 2 ^ 64 ∧
        grant.version = world.authority.version + 1 ∧
        (world.step uri validator event).authority = { world.authority with
          version := world.authority.version + 1
          grants := Function.update world.authority.grants principal (some grant) } := by
  cases event with
  | grant principal policy => exact Or.inr ⟨principal, _, framed, rfl, rfl⟩
  | revoke principal =>
    change world.authority.revoke principal = _ ∨ ∃ _ _, _ ∧ _ ∧ world.authority.revoke principal = _
    unfold PolicyAuthority.revoke
    cases held : world.authority.grants principal with
    | none => exact Or.inl rfl
    | some grant =>
      refine Or.inr ⟨principal, _, framed ?_, rfl, rfl⟩
      rw [held]
      exact Option.some_ne_none _
  | sign principal signs => exact Or.inl rfl
  | accept data => exact Or.inl rfl

theorem toNat_succ {version : UInt64} (fits : version.toNat + 1 < 2 ^ 64) :
    (version + 1).toNat = version.toNat + 1 := by
  rw [UInt64.toNat_add]
  exact Nat.mod_eq_of_lt fits

/-- Versions only grow, and where they stay the authority stays. -/
theorem version_grows {earlier later : List GrantEvent}
    (framed : Throughout (GrantWorld.step uri validator) (.start scope) (earlier ++ later)
      (Framed uri scope)) :
    (GrantWorld.run uri validator scope earlier).authority.version.toNat <
        (GrantWorld.run uri validator scope (earlier ++ later)).authority.version.toNat ∨
      (GrantWorld.run uri validator scope (earlier ++ later)).authority =
        (GrantWorld.run uri validator scope earlier).authority := by
  induction later using List.reverseRecOn with
  | nil =>
    rw [append_nil]
    exact Or.inr rfl
  | append_singleton later event ih =>
    rw [← append_assoc] at framed ⊢
    have now : Framed uri scope (GrantWorld.run uri validator scope (earlier ++ later)) event :=
      framed (earlier ++ later) event [] rfl
    rw [throughout_append] at framed
    rw [run_append]
    rcases @authority_step uri validator scope _ event now with same | ⟨_, _, fits, _, after⟩
    · rw [same]
      exact ih framed.1
    · have next : ((GrantWorld.run uri validator scope (earlier ++ later)).step uri validator
          event).authority.version.toNat =
            (GrantWorld.run uri validator scope (earlier ++ later)).authority.version.toNat + 1 := by
        rw [after]
        exact toNat_succ fits
      rw [next]
      rcases ih framed.1 with less | same
      · exact Or.inl (by omega)
      · rw [same]
        exact Or.inl (Nat.lt_succ_self _)

theorem Had.append {events : List GrantEvent} {principal : Name} {grant : Grant}
    (had : Had uri validator scope events principal grant) (more : List GrantEvent) :
    Had uri validator scope (events ++ more) principal grant := by
  rcases had with ⟨earlier, later, rfl, rest⟩
  exact ⟨earlier, later ++ more, append_assoc _ _ _, rest⟩

theorem had_unique {events : List GrantEvent}
    (framed : Throughout (GrantWorld.step uri validator) (.start scope) events (Framed uri scope))
    {principal : Name} {grant grant' : Grant} (had : Had uri validator scope events principal grant)
    (had' : Had uri validator scope events principal grant')
    (version : grant.version = grant'.version) : grant = grant' := by
  have ordered : ∀ {earlier between : List GrantEvent} {g g' : Grant},
      Throughout (GrantWorld.step uri validator) (.start scope) (earlier ++ between)
        (Framed uri scope) →
      (GrantWorld.run uri validator scope earlier).authority.grants principal = some g →
      (GrantWorld.run uri validator scope (earlier ++ between)).authority.grants principal =
        some g' →
      (GrantWorld.run uri validator scope earlier).authority.version =
        (GrantWorld.run uri validator scope (earlier ++ between)).authority.version → g = g' := by
    intro earlier between g g' framed held held' same
    rcases version_grows framed with less | equal
    · rw [same] at less
      exact absurd less (Nat.lt_irrefl _)
    · rw [equal, held] at held'
      exact Option.some.inj held'
  rcases had with ⟨earlier, later, split, held, at'⟩
  rcases had' with ⟨earlier', later', split', held', at''⟩
  have front : earlier <+: events := ⟨later, split.symm⟩
  have front' : earlier' <+: events := ⟨later', split'.symm⟩
  rcases prefix_or_prefix_of_prefix front front' with ⟨between, rfl⟩ | ⟨between, rfl⟩
  · rw [split', throughout_append] at framed
    exact ordered framed.1 held held' (by rw [at', at'', version])
  · rw [split, throughout_append] at framed
    exact (ordered framed.1 held' held (by rw [at', at'', version])).symm

/-! ### Objects -/

theorem key_object (principal : Name) (grant : Grant) :
    grantPrincipalKey (grantObject uri scope principal grant).name =
      some (principalName uri scope principal) := by
  have split : (grantObject uri scope principal grant).name.components =
      (principalName uri scope principal).components ++
        [textComponent ("v=" ++ toString grant.version.toNat)] := rfl
  have long : 0 < (principalName uri scope principal).components.length := by
    rw [principalName, Name.appendComponent, length_append, length_singleton]
    omega
  rw [grantPrincipalKey, split, length_append, length_singleton, if_neg (by omega),
    dropLast_concat]

theorem grantObject_principal {principal principal' : Name} {grant grant' : Grant}
    (same : grantObject uri scope principal grant = grantObject uri scope principal' grant') :
    principal = principal' := by
  have keys := congrArg (fun data => grantPrincipalKey data.name) same
  simp only [key_object, Option.some.injEq] at keys
  exact principalName_inj keys

theorem Accepted.unique {entry : Option Data × Option Grant} {principal principal' : Name}
    {grant grant' : Grant} (accepted : Accepted uri scope entry principal grant)
    (accepted' : Accepted uri scope entry principal' grant') :
    principal = principal' ∧ grant = grant' := by
  have both := accepted.symm.trans accepted'
  rw [Prod.mk.injEq, Option.some.injEq, Option.some.injEq] at both
  exact ⟨grantObject_principal both.1, both.2⟩

/-! ### The cache -/

namespace GrantCache

/-- What a cache makes of an object, by the last version it has accepted for its key. -/
def verdict (authentic : Data → Bool) (last : Option UInt64) (data : Data) : Option Grant :=
  if authentic data = false then none
  else
    match data.content.map Grant.decode with
    | some (.ok grant) => if ∃ version ∈ last, grant.version < version then none else some grant
    | _ => none

theorem accept_eq {cache : GrantCache} {authentic : Data → Bool} {data : Data} {key : Name}
    (keyed : grantPrincipalKey data.name = some key) :
    cache.accept authentic (some data) =
      match verdict authentic (cache.seen key) data with
      | none => (cache, none)
      | some grant => (⟨Function.update cache.seen key (some grant.version)⟩, some grant) := by
  unfold accept verdict
  dsimp only
  rw [keyed]
  dsimp only
  by_cases forged : authentic data = false
  · rw [if_pos forged, if_pos forged]
  · rw [if_neg forged, if_neg forged]
    split
    · rename_i grant _
      by_cases stale : ∃ version ∈ cache.seen key, grant.version < version
      · rw [if_pos stale, if_pos stale]
      · rw [if_neg stale, if_neg stale]
    · rfl

/-- Only the entry of the object's own principal can change. -/
theorem accept_other {cache : GrantCache} {authentic : Data → Bool} {data : Option Data}
    {key : Name}
    (other : data.bind (fun data => grantPrincipalKey data.name) ≠ some key) :
    (cache.accept authentic data).1.seen key = cache.seen key := by
  cases data with
  | none => rfl
  | some data =>
    cases keyed : grantPrincipalKey data.name with
    | none => rw [accept, keyed]
    | some own =>
      have differs : key ≠ own := by
        rintro rfl
        exact other keyed
      rw [accept_eq keyed]
      cases verdict authentic (cache.seen own) data with
      | none => rfl
      | some grant => exact update_of_ne differs _ _

/-- The answer depends on that entry alone. -/
theorem accept_own {cache cache' : GrantCache} {authentic : Data → Bool} {data : Option Data}
    {key : Name} (own : data.bind (fun data => grantPrincipalKey data.name) = some key)
    (same : cache.seen key = cache'.seen key) :
    (cache.accept authentic data).2 = (cache'.accept authentic data).2 ∧
      (cache.accept authentic data).1.seen key = (cache'.accept authentic data).1.seen key := by
  cases data with
  | none => cases own
  | some data =>
    rw [accept_eq own, accept_eq own, same]
    cases verdict authentic (cache'.seen key) data with
    | none => exact ⟨rfl, same⟩
    | some grant =>
      refine ⟨rfl, ?_⟩
      dsimp only
      rw [update_self, update_self]

end GrantCache

/-- What a cache holds and has answered, with the states that the principals had. -/
structure Tracks (uri : NameUri) (scope : Name) (had : Name → Grant → Prop) (cache : GrantCache)
    (log : List (Option Data × Option Grant)) : Prop where
  entries : ∀ data grant, (data, some grant) ∈ log →
    ∃ principal, Accepted uri scope (data, some grant) principal grant ∧ had principal grant
  unseen : ∀ principal, cache.seen (principalName uri scope principal) = none →
    ∀ entry ∈ log, ∀ grant, ¬Accepted uri scope entry principal grant
  seen : ∀ principal version, cache.seen (principalName uri scope principal) = some version →
    (∃ entry ∈ log, ∃ grant, Accepted uri scope entry principal grant ∧ grant.version = version) ∧
      ∀ entry ∈ log, ∀ grant, Accepted uri scope entry principal grant → grant.version ≤ version
  forward : log.Pairwise fun first second =>
    ∀ principal grant grant', Accepted uri scope first principal grant →
      Accepted uri scope second principal grant' → grant.version ≤ grant'.version ∧
        (grant.revoked = true → grant'.revoked = false → grant.version < grant'.version)

namespace Tracks

variable {had had' : Name → Grant → Prop} {cache : GrantCache}
  {log : List (Option Data × Option Grant)}

theorem not_accepted_none {data : Option Data} {principal : Name} {grant : Grant} :
    ¬Accepted uri scope (data, none) principal grant := by
  intro accepted
  cases congrArg Prod.snd accepted

section

variable (tracks : Tracks uri scope had cache log)
include tracks

theorem mono
    (more : ∀ principal grant, had principal grant → had' principal grant) :
    Tracks uri scope had' cache log := by
  refine ⟨?_, tracks.unseen, tracks.seen, tracks.forward⟩
  intro data grant found
  rcases tracks.entries data grant found with ⟨principal, accepted, held⟩
  exact ⟨principal, accepted, more principal grant held⟩

theorem refuse (data : Option Data) :
    Tracks uri scope had cache (log ++ [(data, none)]) := by
  refine ⟨?_, ?_, ?_, ?_⟩
  · intro d grant found
    rcases mem_append.mp found with earlier | last
    · exact tracks.entries d grant earlier
    · cases congrArg Prod.snd (mem_singleton.mp last)
  · intro principal absent entry found
    rcases mem_append.mp found with earlier | last
    · exact tracks.unseen principal absent entry earlier
    · rw [mem_singleton.mp last]
      exact fun _ => not_accepted_none
  · intro principal version present
    rcases tracks.seen principal version present with ⟨⟨entry, found, grant, accepted⟩, highest⟩
    refine ⟨⟨entry, mem_append_left _ found, grant, accepted⟩, ?_⟩
    intro entry found
    rcases mem_append.mp found with earlier | last
    · exact highest entry earlier
    · rw [mem_singleton.mp last]
      exact fun _ accepted => absurd accepted not_accepted_none
  · refine pairwise_append.mpr ⟨tracks.forward, pairwise_singleton _ _, ?_⟩
    intro first _ second last principal grant grant' _ accepted
    rw [mem_singleton.mp last] at accepted
    exact absurd accepted not_accepted_none

/-- No entry of a principal is beyond what its cache entry bounds. -/
theorem bounded {principal : Name} {bound : UInt64}
    (newest : ∀ last ∈ cache.seen (principalName uri scope principal), last ≤ bound)
    {entry : Option Data × Option Grant} (found : entry ∈ log) {grant : Grant}
    (accepted : Accepted uri scope entry principal grant) : grant.version ≤ bound := by
  cases held : cache.seen (principalName uri scope principal) with
  | none => exact absurd accepted (tracks.unseen principal held entry found grant)
  | some last =>
    exact UInt64.le_trans ((tracks.seen principal last held).2 entry found grant accepted)
      (newest last held)

theorem accept {principal : Name} {grant : Grant}
    (held : had principal grant)
    (unique : ∀ grant', had principal grant' → grant'.version = grant.version → grant' = grant)
    (newest : ∀ last ∈ cache.seen (principalName uri scope principal), last ≤ grant.version) :
    Tracks uri scope had
      ⟨Function.update cache.seen (principalName uri scope principal) (some grant.version)⟩
      (log ++ [(some (grantObject uri scope principal grant), some grant)]) := by
  have own : Accepted uri scope (some (grantObject uri scope principal grant), some grant)
      principal grant := rfl
  have differs : ∀ {other}, other ≠ principal →
      principalName uri scope other ≠ principalName uri scope principal :=
    fun here same => here (principalName_inj same)
  refine ⟨?_, ?_, ?_, ?_⟩
  · intro d grant' found
    rcases mem_append.mp found with earlier | last
    · exact tracks.entries d grant' earlier
    · cases mem_singleton.mp last
      exact ⟨principal, own, held⟩
  · intro other absent entry found
    dsimp only at absent
    by_cases here : other = principal
    · rw [here, update_self] at absent
      cases absent
    · rw [update_of_ne (differs here)] at absent
      rcases mem_append.mp found with earlier | last
      · exact tracks.unseen other absent entry earlier
      · rw [mem_singleton.mp last]
        exact fun _ accepted => here (accepted.unique own).1
  · intro other version present
    dsimp only at present
    by_cases here : other = principal
    · subst here
      rw [update_self] at present
      cases present
      refine ⟨⟨_, mem_append_right _ (mem_singleton_self _), grant, own, rfl⟩, ?_⟩
      intro entry found grant' accepted
      rcases mem_append.mp found with earlier | last
      · exact tracks.bounded newest earlier accepted
      · rw [mem_singleton.mp last] at accepted
        rw [(accepted.unique own).2]
        exact UInt64.le_refl _
    · rw [update_of_ne (differs here)] at present
      rcases tracks.seen other version present with ⟨⟨entry, found, grant', accepted⟩, highest⟩
      refine ⟨⟨entry, mem_append_left _ found, grant', accepted⟩, ?_⟩
      intro entry found grant' accepted
      rcases mem_append.mp found with earlier | last
      · exact highest entry earlier grant' accepted
      · rw [mem_singleton.mp last] at accepted
        exact absurd (accepted.unique own).1 here
  · refine pairwise_append.mpr ⟨tracks.forward, pairwise_singleton _ _, ?_⟩
    intro first earlier second last other grant' grant'' accepted accepted'
    rw [mem_singleton.mp last] at accepted'
    rcases accepted'.unique own with ⟨rfl, rfl⟩
    have below := tracks.bounded newest earlier accepted
    refine ⟨below, ?_⟩
    intro revoked unrevoked
    rcases UInt64.lt_or_eq_of_le below with less | same
    · exact less
    · have held' : had other grant' := by
        rw [accepted] at earlier
        rcases tracks.entries _ _ earlier with ⟨owner, accepted', held'⟩
        have itself : Accepted uri scope
          (some (grantObject uri scope other grant'), some grant') other grant' := rfl
        rw [(itself.unique accepted').1]
        exact held'
      rw [unique grant' held' same, unrevoked] at revoked
      cases revoked

end

end Tracks

end

end NdnExt.Service
