import NdnExt.Lib.HashMap
import NdnExt.Service.PlainUri

/-! Policy files that are reloaded into a live policy authority. -/

namespace NdnExt.Service

open NdnExt.Lib HashMap List

inductive ConfigError where
  | toml (error : String)
  | badPrincipal (principal : String)
  deriving DecidableEq

def ConfigError.display : ConfigError → String
  | .toml e => "policy config did not parse: " ++ e
  | .badPrincipal p => "invalid principal name: " ++ p

structure GrantEntry where
  principal : String
  policy : String

/-- `toml` is the library that reads the entries, which is not part of this repository. -/
def loadPolicyToml (toml : String → Except String (List GrantEntry)) (uri : NameUri) (src : String) :
    Except ConfigError (List (Name × String)) := do
  let config ← (toml src).mapError ConfigError.toml
  config.mapM fun g =>
    match uri.parse g.principal with
    | none => .error (.badPrincipal g.principal)
    | some name => .ok (name, g.policy)

structure ReloadReport where
  granted : List Name
  revoked : List Name
  version : UInt64
  deriving DecidableEq

def ReloadReport.isNoop (report : ReloadReport) : Bool :=
  report.granted.isEmpty && report.revoked.isEmpty

namespace PolicyAuthority

def needsGrant (authority : PolicyAuthority) (entry : Name × String) : Bool :=
  match authority.grants entry.1 with
  | none => true
  | some grant => grant.revoked || grant.policy ≠ entry.2

def grantEntry (state : PolicyAuthority × List Name) (entry : Name × String) :
    PolicyAuthority × List Name :=
  if state.1.needsGrant entry then (state.1.grant entry.1 entry.2, state.2 ++ [entry.1]) else state

/-- The first pass: what the file lists is granted, unless it already is. -/
def grantAll (authority : PolicyAuthority) (desired : List (Name × String)) :
    PolicyAuthority × List Name :=
  desired.foldl grantEntry (authority, [])

def isActive (authority : PolicyAuthority) (principal : Name) : Bool :=
  (authority.grants principal).any fun grant => !grant.revoked

/-- `listed` has the principals of the grants as the map lists them after the first pass. -/
def reload (authority : PolicyAuthority) (desired : List (Name × String)) (listed : List Name) :
    PolicyAuthority × ReloadReport :=
  let (authority, granted) := authority.grantAll desired
  let toRevoke := listed.filter fun p => authority.isActive p && p ∉ HashMap.ofPairs desired
  let authority := toRevoke.foldl revoke authority
  (authority, ⟨granted, toRevoke, authority.version⟩)

/-- The order of a map that has these grants. -/
structure Lists (authority : PolicyAuthority) (listed : List Name) : Prop where
  nodup : listed.Nodup
  mem : ∀ p, p ∈ listed ↔ (authority.grants p).isSome

inductive Reachable (scope : Name) : PolicyAuthority → Prop
  | new : Reachable scope (new scope)
  | grant {authority : PolicyAuthority} (principal : Name) (policy : String) :
      Reachable scope authority → Reachable scope (authority.grant principal policy)
  | revoke {authority : PolicyAuthority} (principal : Name) :
      Reachable scope authority → Reachable scope (authority.revoke principal)

/-- The principal has the policy in a grant that is not revoked. -/
def Holds (authority : PolicyAuthority) (principal : Name) (policy : String) : Prop :=
  ∃ grant, authority.grants principal = some grant ∧ grant.revoked = false ∧ grant.policy = policy

/-- The state that the file states for a principal is the one it is in. -/
def Matches (authority : PolicyAuthority) (desired : List (Name × String)) (principal : Name) :
    Prop :=
  ∀ policy, authority.Holds principal policy ↔
    (HashMap.ofPairs desired).lookup principal = some policy

/-- What one reload makes of an authority, given a file's grants. -/
structure ReachesFile (before : PolicyAuthority) (desired : List (Name × String))
    (result : PolicyAuthority × ReloadReport) : Prop where
  unrevoked : ∀ p, result.1.Matches desired p
  others : ∀ p grant, result.1.grants p = some grant → p ∉ HashMap.ofPairs desired →
    grant.revoked = true
  kept : ∀ p, before.Matches desired p → result.1.grants p = before.grants p
  named : ∀ p, p ∈ result.2.granted ∨ p ∈ result.2.revoked ↔ result.1.grants p ≠ before.grants p
  version : result.2.version = result.1.version

/-- A reload reaches the state of the file, and another one has nothing left to do. -/
def ReloadsExactly (authority : PolicyAuthority) (desired : List (Name × String)) : Prop :=
  ∀ listed, (authority.grantAll desired).1.Lists listed →
    ReachesFile authority desired (authority.reload desired listed) ∧
    ∀ again, ((authority.reload desired listed).1.grantAll desired).1.Lists again →
      ((authority.reload desired listed).1.reload desired again).1 =
          (authority.reload desired listed).1 ∧
        ((authority.reload desired listed).1.reload desired again).2.isNoop = true

/-- No principal is listed with two policies. -/
def Unambiguous (desired : List (Name × String)) : Prop :=
  ∀ p policy policy', (p, policy) ∈ desired → (p, policy') ∈ desired → policy = policy'

variable {authority : PolicyAuthority} {desired : List (Name × String)} {entry : Name × String}
  {p : Name} {policy : String} {state : PolicyAuthority × List Name}

/-! ### The first pass -/

theorem needsGrant_eq_false : authority.needsGrant entry = false ↔
    authority.Holds entry.1 entry.2 := by
  unfold needsGrant Holds
  cases authority.grants entry.1 with
  | none => simp
  | some grant => simp

theorem Holds.unique {policy' : String} (first : authority.Holds p policy)
    (second : authority.Holds p policy') : policy = policy' := by
  rcases first with ⟨grant, found, _, rfl⟩
  rcases second with ⟨grant', found', _, rfl⟩
  rw [found] at found'
  rw [Option.some.inj found']

theorem grantEntry_of_holds (holds : state.1.Holds entry.1 entry.2) :
    grantEntry state entry = state := by
  rw [grantEntry, needsGrant_eq_false.mpr holds, if_neg Bool.false_ne_true]

theorem grantEntry_of_not_holds (lacks : ¬ state.1.Holds entry.1 entry.2) :
    grantEntry state entry = (state.1.grant entry.1 entry.2, state.2 ++ [entry.1]) := by
  have needs : state.1.needsGrant entry = true := by
    rw [← Bool.not_eq_false, needsGrant_eq_false]
    exact lacks
  rw [grantEntry, if_pos needs]

theorem grantEntry_holds (state : PolicyAuthority × List Name) (entry : Name × String) :
    (grantEntry state entry).1.Holds entry.1 entry.2 := by
  by_cases holds : state.1.Holds entry.1 entry.2
  · rw [grantEntry_of_holds holds]
    exact holds
  · rw [grantEntry_of_not_holds holds]
    exact ⟨_, Function.update_self _ _ _, rfl, rfl⟩

theorem grantEntry_other (different : p ≠ entry.1) :
    (grantEntry state entry).1.grants p = state.1.grants p := by
  by_cases holds : state.1.Holds entry.1 entry.2
  · rw [grantEntry_of_holds holds]
  · rw [grantEntry_of_not_holds holds]
    exact Function.update_of_ne different _ _

theorem mem_grantEntry_other (different : p ≠ entry.1) :
    p ∈ (grantEntry state entry).2 ↔ p ∈ state.2 := by
  by_cases holds : state.1.Holds entry.1 entry.2
  · rw [grantEntry_of_holds holds]
  · rw [grantEntry_of_not_holds holds, mem_append, mem_singleton, or_iff_left different]

theorem grantAll_append (authority : PolicyAuthority) (earlier : List (Name × String))
    (entry : Name × String) : authority.grantAll (earlier ++ [entry]) =
      grantEntry (authority.grantAll earlier) entry := by
  rw [grantAll, foldl_append, foldl_cons, foldl_nil]
  rfl

theorem lookup_ofPairs_append (earlier : List (Name × String)) (entry : Name × String) :
    (ofPairs (earlier ++ [entry])).lookup p =
      if p = entry.1 then some entry.2 else (ofPairs earlier).lookup p := by
  rw [ofPairs, foldl_append, foldl_cons, foldl_nil]
  exact lookup_insert_eq _ _ _ _

theorem lookup_mem (found : (ofPairs desired).lookup p = some policy) :
    (p, policy) ∈ desired := by
  induction desired using List.reverseRecOn with
  | nil => cases found
  | append_singleton earlier entry ih =>
    rw [lookup_ofPairs_append] at found
    split at found
    · next same =>
      cases found
      rw [same]
      exact mem_append_right _ (mem_singleton_self entry)
    · exact mem_append_left _ (ih found)

theorem lookup_eq_none : (ofPairs desired).lookup p = none ↔
    ∀ policy, (p, policy) ∉ desired := by
  induction desired using List.reverseRecOn with
  | nil => exact iff_of_true rfl fun _ => not_mem_nil
  | append_singleton earlier entry ih =>
    rw [lookup_ofPairs_append]
    constructor
    · intro missing policy among
      split at missing
      · cases missing
      · next different =>
        rcases mem_append.mp among with before | last
        · exact ih.mp missing policy before
        · rw [mem_singleton] at last
          exact different (congrArg Prod.fst last)
    · intro none
      rw [if_neg]
      · exact ih.mpr fun policy among => none policy (mem_append_left _ among)
      · rintro rfl
        exact none entry.2 (mem_append_right _ (mem_singleton_self entry))

theorem mem_ofPairs : p ∈ ofPairs desired ↔ ∃ policy, (p, policy) ∈ desired := by
  rw [mem_iff_lookup]
  constructor
  · rintro ⟨policy, found⟩
    exact ⟨policy, lookup_mem found⟩
  · rintro ⟨policy, among⟩
    apply Option.ne_none_iff_exists'.mp
    intro missing
    exact lookup_eq_none.mp missing policy among

/-- After the first pass a listed principal has the policy that it is listed with last. -/
theorem grantAll_holds (found : (ofPairs desired).lookup p = some policy) :
    (authority.grantAll desired).1.Holds p policy := by
  induction desired using List.reverseRecOn with
  | nil => cases found
  | append_singleton earlier entry ih =>
    rw [lookup_ofPairs_append] at found
    rw [grantAll_append]
    split at found
    · next same =>
      cases found
      rw [same]
      exact grantEntry_holds _ _
    · next different =>
      unfold Holds
      rw [grantEntry_other different]
      exact ih found

theorem grantAll_other (missing : ∀ policy, (p, policy) ∉ desired) :
    (authority.grantAll desired).1.grants p = authority.grants p ∧
      p ∉ (authority.grantAll desired).2 := by
  induction desired using List.reverseRecOn with
  | nil => exact ⟨rfl, not_mem_nil⟩
  | append_singleton earlier entry ih =>
    have different : p ≠ entry.1 := by
      rintro rfl
      exact missing entry.2 (mem_append_right _ (mem_singleton_self entry))
    rw [grantAll_append, grantEntry_other different, mem_grantEntry_other different]
    exact ih fun policy among => missing policy (mem_append_left _ among)

/-- A principal that has every policy it is listed with is passed over. -/
theorem grantAll_kept (all : ∀ policy, (p, policy) ∈ desired → authority.Holds p policy) :
    (authority.grantAll desired).1.grants p = authority.grants p ∧
      p ∉ (authority.grantAll desired).2 := by
  induction desired using List.reverseRecOn with
  | nil => exact ⟨rfl, not_mem_nil⟩
  | append_singleton earlier entry ih =>
    have before := ih fun policy among => all policy (mem_append_left _ among)
    rw [grantAll_append]
    by_cases different : p ≠ entry.1
    · rw [grantEntry_other different, mem_grantEntry_other different]
      exact before
    · have same : p = entry.1 := not_not.mp different
      have held := all entry.2 (by
        rw [same]
        exact mem_append_right _ (mem_singleton_self entry))
      have still : (authority.grantAll earlier).1.Holds entry.1 entry.2 := by
        unfold Holds
        rw [← same, before.1]
        exact held
      rw [grantEntry_of_holds still]
      exact before

/-- A principal that is listed with one policy and does not have it is granted it. -/
theorem mem_grantAll (one : ∀ policy', (p, policy') ∈ desired → policy' = policy)
    (listed : (p, policy) ∈ desired) (lacks : ¬ authority.Holds p policy) :
    p ∈ (authority.grantAll desired).2 := by
  induction desired using List.reverseRecOn with
  | nil => cases listed
  | append_singleton earlier entry ih =>
    have one' := fun policy' among => one policy' (mem_append_left [entry] among)
    rw [grantAll_append]
    by_cases different : p ≠ entry.1
    · rw [mem_grantEntry_other different]
      rcases mem_append.mp listed with before | last
      · exact ih one' before
      · rw [mem_singleton] at last
        exact absurd (congrArg Prod.fst last) different
    · have same : p = entry.1 := not_not.mp different
      have policies : entry.2 = policy := one entry.2 (by
        rw [same]
        exact mem_append_right _ (mem_singleton_self entry))
      by_cases before : (p, policy) ∈ earlier
      · have held : (authority.grantAll earlier).1.Holds entry.1 entry.2 := by
          rw [← same, policies]
          cases found : (ofPairs earlier).lookup p with
          | none => exact absurd before (lookup_eq_none.mp found policy)
          | some policy' =>
            rw [← one' policy' (lookup_mem found)]
            exact grantAll_holds found
        rw [grantEntry_of_holds held]
        exact ih one' before
      · have missing : ∀ policy', (p, policy') ∉ earlier := by
          intro policy' among
          rw [one' policy' among] at among
          exact before among
        have lacks' : ¬ (authority.grantAll earlier).1.Holds entry.1 entry.2 := by
          unfold Holds
          rw [← same, policies, (grantAll_other missing).1]
          exact lacks
        rw [grantEntry_of_not_holds lacks', same]
        exact mem_append_right _ (mem_singleton_self _)

/-- A first pass that grants nothing finds every entry granted. -/
theorem grantAll_eq_nil (nothing : (authority.grantAll desired).2 = []) :
    (authority.grantAll desired).1 = authority ∧
      ∀ entry ∈ desired, authority.Holds entry.1 entry.2 := by
  induction desired using List.reverseRecOn with
  | nil => exact ⟨rfl, forall_mem_nil _⟩
  | append_singleton earlier entry ih =>
    rw [grantAll_append] at nothing ⊢
    by_cases holds : (authority.grantAll earlier).1.Holds entry.1 entry.2
    · rw [grantEntry_of_holds holds] at nothing ⊢
      rcases ih nothing with ⟨unchanged, all⟩
      refine ⟨unchanged, ?_⟩
      intro other among
      rcases mem_append.mp among with before | last
      · exact all other before
      · rw [mem_singleton.mp last, ← unchanged]
        exact holds
    · rw [grantEntry_of_not_holds holds] at nothing
      exact absurd nothing (append_ne_nil_of_right_ne_nil _ (cons_ne_nil _ _))

theorem grantAll_of_holds (all : ∀ entry ∈ desired, authority.Holds entry.1 entry.2) :
    authority.grantAll desired = (authority, []) := by
  induction desired using List.reverseRecOn with
  | nil => rfl
  | append_singleton earlier entry ih =>
    have before := ih fun other among => all other (mem_append_left _ among)
    rw [grantAll_append, before]
    exact grantEntry_of_holds (all entry (mem_append_right _ (mem_singleton_self entry)))

/-! ### The second pass -/

theorem revoke_grants (authority : PolicyAuthority) (q p : Name) :
    (authority.revoke q).grants p = if p = q then (authority.grants p).map (fun grant =>
      { grant with revoked := true, version := authority.version + 1 }) else authority.grants p := by
  unfold revoke
  by_cases same : p = q
  · rw [same, if_pos rfl]
    cases found : authority.grants q with
    | none => exact found
    | some grant => exact Function.update_self _ _ _
  · rw [if_neg same]
    cases authority.grants q with
    | none => rfl
    | some grant => exact Function.update_of_ne same _ _

theorem revokeAll_other {toRevoke : List Name} (apart : p ∉ toRevoke) :
    (toRevoke.foldl revoke authority).grants p = authority.grants p := by
  induction toRevoke generalizing authority with
  | nil => rfl
  | cons q rest ih =>
    rw [mem_cons, not_or] at apart
    rw [foldl_cons, ih apart.2, revoke_grants, if_neg apart.1]

theorem revokeAll_revoked {toRevoke : List Name} (among : p ∈ toRevoke)
    (granted : (authority.grants p).isSome) :
    ∃ grant, (toRevoke.foldl revoke authority).grants p = some grant ∧ grant.revoked = true := by
  induction toRevoke generalizing authority with
  | nil => cases among
  | cons q rest ih =>
    rw [foldl_cons]
    by_cases later : p ∈ rest
    · refine ih later ?_
      rw [revoke_grants]
      split
      · rw [Option.isSome_map]
        exact granted
      · exact granted
    · have same : p = q := (mem_cons.mp among).resolve_right later
      rcases Option.isSome_iff_exists.mp granted with ⟨grant, found⟩
      rw [revokeAll_other later, revoke_grants, if_pos same, found]
      exact ⟨_, rfl, rfl⟩

theorem isActive_iff : authority.isActive p = true ↔ ∃ policy, authority.Holds p policy := by
  unfold isActive Holds
  cases authority.grants p with
  | none => simp
  | some grant => simp

section Reload

variable {listed : List Name}

theorem mem_revoked : p ∈ (authority.reload desired listed).2.revoked ↔
    p ∈ listed ∧
    (authority.grantAll desired).1.isActive p = true ∧ p ∉ ofPairs desired := by
  change p ∈ listed.filter _ ↔ _
  rw [mem_filter, Bool.and_eq_true, decide_eq_true_iff]
  exact Iff.rfl

theorem reload_kept (apart : p ∉ (authority.reload desired listed).2.revoked) :
    (authority.reload desired listed).1.grants p = (authority.grantAll desired).1.grants p :=
  revokeAll_other apart

theorem reload_of_listed (among : p ∈ ofPairs desired) :
    (authority.reload desired listed).1.grants p = (authority.grantAll desired).1.grants p :=
  reload_kept fun revoked => (mem_revoked.mp revoked).2.2 among

theorem not_listed (missing : p ∉ ofPairs desired) (policy : String) :
    (p, policy) ∉ desired :=
  fun among => missing (mem_ofPairs.mpr ⟨policy, among⟩)

theorem reload_of_dropped (lists : (authority.grantAll desired).1.Lists listed)
    (missing : p ∉ ofPairs desired) (holds : authority.Holds p policy) :
    p ∈ (authority.reload desired listed).2.revoked ∧
      ∃ grant,
    (authority.reload desired listed).1.grants p = some grant ∧ grant.revoked = true := by
  have first := (@grantAll_other authority desired p (not_listed missing)).1
  have still : (authority.grantAll desired).1.Holds p policy := by
    unfold Holds
    rw [first]
    exact holds
  have granted : ((authority.grantAll desired).1.grants p).isSome := by
    rcases still with ⟨grant, found, _⟩
    rw [found]
    rfl
  have revoked : p ∈ (authority.reload desired listed).2.revoked :=
    mem_revoked.mpr ⟨(lists.mem p).mpr granted, isActive_iff.mpr ⟨policy, still⟩, missing⟩
  exact ⟨revoked, revokeAll_revoked revoked granted⟩

theorem reload_of_inactive (missing : p ∉ ofPairs desired)
    (inactive : ∀ policy, ¬ authority.Holds p policy) :
    p ∉ (authority.reload desired listed).2.revoked ∧
      (authority.reload desired listed).1.grants p = authority.grants p := by
  have first := (@grantAll_other authority desired p (not_listed missing)).1
  have apart : p ∉ (authority.reload desired listed).2.revoked := by
    intro revoked
    rcases isActive_iff.mp (mem_revoked.mp revoked).2.1 with ⟨policy, holds⟩
    unfold Holds at holds
    rw [first] at holds
    exact inactive policy holds
  exact ⟨apart, (reload_kept apart).trans first⟩

theorem reload_holds (found : (ofPairs desired).lookup p = some policy) :
    (authority.reload desired listed).1.Holds p policy := by
  unfold Holds
  rw [reload_of_listed (mem_iff_lookup.mpr ⟨policy, found⟩)]
  exact grantAll_holds found

theorem reload_others (lists : (authority.grantAll desired).1.Lists listed)
    (missing : p ∉ ofPairs desired) {grant : Grant}
    (found : (authority.reload desired listed).1.grants p = some grant) : grant.revoked = true := by
  by_cases active : ∃ policy, authority.Holds p policy
  · rcases active with ⟨policy, holds⟩
    rcases (reload_of_dropped lists missing holds).2 with ⟨grant', found', revoked⟩
    rw [found] at found'
    rw [Option.some.inj found']
    exact revoked
  · have inactive := not_exists.mp active
    rw [(reload_of_inactive missing inactive).2] at found
    by_contra unrevoked
    exact inactive grant.policy ⟨grant, found, Bool.not_eq_true _ ▸ unrevoked, rfl⟩

theorem reload_matches (lists : (authority.grantAll desired).1.Lists listed) (p : Name) :
    (authority.reload desired listed).1.Matches desired p := by
  intro policy
  constructor
  · intro holds
    cases found : (ofPairs desired).lookup p with
    | some policy' => rw [holds.unique (reload_holds found)]
    | none =>
      have missing : p ∉ ofPairs desired := by
        intro among
        rcases mem_ofPairs.mp among with ⟨policy', listed⟩
        exact lookup_eq_none.mp found policy' listed
      rcases holds with ⟨grant, granted, unrevoked, _⟩
      have revoked := reload_others lists missing granted
      rw [unrevoked] at revoked
      cases revoked
  · exact reload_holds

/-! ### Unambiguous files -/

section

variable (unambiguous : Unambiguous desired)
include unambiguous

theorem Unambiguous.lookup (among : (p, policy) ∈ desired) :
    (ofPairs desired).lookup p = some policy := by
  cases found : (ofPairs desired).lookup p with
  | none => exact absurd among (lookup_eq_none.mp found policy)
  | some policy' => rw [unambiguous p policy policy' among (lookup_mem found)]

/-- Whether a principal is named, and what becomes of its grant. -/
theorem reload_cases
    (lists : (authority.grantAll desired).1.Lists listed) (p : Name) :
    (authority.Matches desired p ∧ (authority.reload desired listed).1.grants p = authority.grants p ∧
      p ∉ (authority.reload desired listed).2.granted ∧
      p ∉ (authority.reload desired listed).2.revoked) ∨
    (¬ authority.Matches desired p ∧ (p ∈ (authority.reload desired listed).2.granted ∨
      p ∈ (authority.reload desired listed).2.revoked)) := by
  by_cases among : p ∈ ofPairs desired
  · rcases mem_ofPairs.mp among with ⟨policy, listedWith⟩
    have one := fun policy' => unambiguous p policy' policy
    have found := unambiguous.lookup listedWith
    have unrevoked : p ∉ (authority.reload desired listed).2.revoked :=
      fun revoked => (mem_revoked.mp revoked).2.2 among
    by_cases holds : authority.Holds p policy
    · have all : ∀ policy', (p, policy') ∈ desired → authority.Holds p policy' := by
        intro policy' listed'
        rw [one policy' listed' listedWith]
        exact holds
      have kept := grantAll_kept all
      refine Or.inl ⟨?_, (reload_of_listed among).trans kept.1, kept.2, unrevoked⟩
      intro policy'
      rw [found]
      constructor
      · intro holds'
        rw [holds.unique holds']
      · rintro ⟨⟩
        exact holds
    · refine Or.inr ⟨fun matched => holds ((matched policy).mpr found), Or.inl ?_⟩
      exact mem_grantAll (fun policy' listed' => one policy' listed' listedWith) listedWith holds
  · have missing : (ofPairs desired).lookup p = none :=
      lookup_eq_none.mpr (not_listed among)
    have ungranted := (@grantAll_other authority desired p (not_listed among)).2
    by_cases active : ∃ policy, authority.Holds p policy
    · rcases active with ⟨policy, holds⟩
      refine Or.inr ⟨?_, Or.inr (reload_of_dropped lists among holds).1⟩
      intro matched
      have found := (matched policy).mp holds
      rw [missing] at found
      cases found
    · have inactive := not_exists.mp active
      have kept := @reload_of_inactive authority desired p listed among inactive
      refine Or.inl ⟨?_, kept.2, ungranted, kept.1⟩
      intro policy
      rw [missing]
      exact iff_of_false (inactive policy) (Option.some_ne_none policy).symm

theorem reachesFile_of_unambiguous
    (lists : (authority.grantAll desired).1.Lists listed) :
    ReachesFile authority desired (authority.reload desired listed) where
  unrevoked := reload_matches lists
  others := fun p grant found missing => reload_others lists missing found
  kept := by
    intro p matched
    rcases reload_cases unambiguous lists p with ⟨_, kept, _⟩ | ⟨unmatched, _⟩
    · exact kept
    · exact absurd matched unmatched
  named := by
    intro p
    rcases reload_cases unambiguous lists p with ⟨_, kept, ungranted, unrevoked⟩ | ⟨unmatched, named⟩
    · exact iff_of_false (not_or.mpr ⟨ungranted, unrevoked⟩) (not_not.mpr kept)
    · refine iff_of_true named ?_
      intro unchanged
      apply unmatched
      have matched := @reload_matches authority desired listed lists p
      unfold Matches Holds at matched ⊢
      rw [unchanged] at matched
      exact matched
  version := rfl

/-- In the state of an unambiguous file nothing is left to grant or to revoke. -/
theorem reload_of_matches
    (matched : ∀ p, authority.Matches desired p) :
    authority.reload desired listed = (authority, ⟨[], [], authority.version⟩) := by
  have all : ∀ entry ∈ desired, authority.Holds entry.1 entry.2 :=
    fun entry among => (matched entry.1 entry.2).mpr (unambiguous.lookup among)
  have first := grantAll_of_holds all
  have none : (authority.reload desired listed).2.revoked = [] := by
    rw [eq_nil_iff_forall_not_mem]
    intro p revoked
    rw [mem_revoked, first, isActive_iff] at revoked
    rcases revoked with ⟨_, ⟨policy, holds⟩, missing⟩
    exact missing (mem_iff_lookup.mpr ⟨policy, (matched p policy).mp holds⟩)
  have second : (authority.reload desired listed).1 =
      (authority.reload desired listed).2.revoked.foldl revoke (authority.grantAll desired).1 := rfl
  have report : (authority.reload desired listed).2 = ⟨(authority.grantAll desired).2,
      (authority.reload desired listed).2.revoked, (authority.reload desired listed).1.version⟩ := rfl
  rw [none, first, foldl_nil] at second
  rw [none, first, second] at report
  exact Prod.ext second report

end

end Reload

/-! ### Reachable authorities -/

section Reachable

variable {scope : Name}

theorem isSome_revoke (q p : Name) :
    ((authority.revoke q).grants p).isSome = (authority.grants p).isSome := by
  rw [revoke_grants]
  split
  · rw [Option.isSome_map]
  · rfl

section

variable (reachable : Reachable scope authority)
include reachable

/-- The grants of an authority are finitely many. -/
theorem Reachable.exists_lists :
    ∃ listed, authority.Lists listed := by
  induction reachable with
  | new => exact ⟨[], nodup_nil, fun p => iff_of_false not_mem_nil Bool.false_ne_true⟩
  | @grant authority principal policy _ ih =>
    rcases ih with ⟨listed, nodup, mem⟩
    refine ⟨listed.insert principal, nodup.insert, ?_⟩
    intro p
    rw [mem_insert_iff, mem]
    change _ ↔ (Function.update authority.grants principal _ p).isSome = true
    by_cases same : p = principal
    · rw [same, Function.update_self]
      exact iff_of_true (Or.inl rfl) rfl
    · rw [Function.update_of_ne same, or_iff_right same]
  | revoke principal _ ih =>
    rcases ih with ⟨listed, nodup, mem⟩
    refine ⟨listed, nodup, ?_⟩
    intro p
    rw [isSome_revoke]
    exact mem p

theorem Reachable.grantAll
    (desired : List (Name × String)) :
    Reachable scope (authority.grantAll desired).1 := by
  induction desired using List.reverseRecOn with
  | nil => exact reachable
  | append_singleton earlier entry ih =>
    rw [grantAll_append, grantEntry]
    split
    · exact ih.grant entry.1 entry.2
    · exact ih

theorem Reachable.reload (desired : List (Name × String))
    (listed : List Name) : Reachable scope (authority.reload desired listed).1 := by
  have each : ∀ (toRevoke : List Name) (authority : PolicyAuthority), Reachable scope authority →
      Reachable scope (toRevoke.foldl PolicyAuthority.revoke authority) := by
    intro toRevoke
    induction toRevoke with
    | nil => exact fun _ reachable => reachable
    | cons q rest ih => exact fun authority reachable => ih _ (reachable.revoke q)
  exact each _ _ (reachable.grantAll desired)

/-- A second reload that grants nothing finds every policy that a principal is listed with. -/
theorem unambiguous_of_exactly
    (exactly : authority.ReloadsExactly desired) : Unambiguous desired := by
  rcases (reachable.grantAll desired).exists_lists with ⟨listed, lists⟩
  have after := reachable.reload desired listed
  rcases (after.grantAll desired).exists_lists with ⟨again, lists'⟩
  have noop := ((exactly listed lists).2 again lists').2
  rw [ReloadReport.isNoop, Bool.and_eq_true, List.isEmpty_iff] at noop
  have nothing : ((authority.reload desired listed).1.grantAll desired).2 = [] := noop.1
  have all := (grantAll_eq_nil nothing).2
  intro p policy policy' first second
  exact (all _ first).unique (all _ second)

end

/-- Reloads are exact for the files that list no principal with two policies. -/
theorem reload_exactly_iff (reachable : Reachable scope authority)
    (desired : List (Name × String)) :
    authority.ReloadsExactly desired ↔ Unambiguous desired := by
  constructor
  · exact unambiguous_of_exactly reachable
  · intro unambiguous listed lists
    refine ⟨reachesFile_of_unambiguous unambiguous lists, ?_⟩
    intro again _
    rw [reload_of_matches unambiguous (reload_matches lists)]
    exact ⟨rfl, rfl⟩

end Reachable
end PolicyAuthority

namespace Example

def twiceListedSrc : String :=
  "[[grant]]\nprincipal = \"/alice\"\npolicy = \"service:echo\"\n" ++
    "[[grant]]\nprincipal = \"/alice\"\npolicy = \"service:cam\"\n"

/-- The entries of this file, which has two for one principal. -/
def twiceListedToml (src : String) : Except String (List GrantEntry) :=
  if src = twiceListedSrc then .ok [⟨"/alice", "service:echo"⟩, ⟨"/alice", "service:cam"⟩]
  else .error "expected the file"

def twiceListed : List (Name × String) := [(alice, "service:echo"), (alice, "service:cam")]

theorem reload_exactly_once :
    (PolicyAuthority.new alice).ReloadsExactly [(alice, "service:echo")] ↔
      PolicyAuthority.Unambiguous [(alice, "service:echo")] :=
  PolicyAuthority.reload_exactly_iff (@PolicyAuthority.Reachable.new alice) _

/-- Every reload of this file grants the principal twice. -/
theorem reload_not_idempotent :
    loadPolicyToml twiceListedToml plainUri twiceListedSrc = .ok twiceListed ∧
      ¬ (PolicyAuthority.new alice).ReloadsExactly twiceListed := by
  refine ⟨by decide, ?_⟩
  intro exactly
  have unambiguous := PolicyAuthority.unambiguous_of_exactly PolicyAuthority.Reachable.new exactly
  have same := unambiguous alice "service:echo" "service:cam" List.mem_cons_self
    (List.mem_cons_of_mem _ (List.mem_singleton_self _))
  exact absurd same (by decide)

end Example
end NdnExt.Service
