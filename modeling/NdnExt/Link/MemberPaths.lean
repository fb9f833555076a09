import NdnExt.Lib.FirstHeard
import NdnExt.Link.Presence
import Mathlib.Data.Finset.Basic

/-! The members a device punches direct paths to because its relays list them. -/

namespace NdnExt.Link

open NdnExt.Lib NdnExt.Lib.FirstHeard HashMap List

/-- What does not change while the device follows its relays. -/
structure OwnDevice where
  membership : Bool
  fingerprint : Option KeyFingerprint
  devices : List Name
  roleIn : Name → Option Role
  peerFind : KeyFingerprint → Name → Option PeerId
  pairOff : Name → Bool

structure MemberEntry where
  relay : PeerId
  device : Name
  deriving DecidableEq

/-- The task that follows the presence of one link; `taken` says whether it has taken the list the
link has now. -/
structure Follower where
  relay : PeerId
  current : List Presence
  taken : Bool
  closed : Bool
  deriving DecidableEq

structure MemberPaths where
  linkFaces : HashMap PeerId FaceId
  followers : HashMap FaceId Follower
  members : HashMap KeyFingerprint MemberEntry
  routes : Finset (FaceId × Name)
  nextFace : Nat

inductive MemberAction where
  | linkUp (relay : PeerId)
  | lists (face : FaceId) (list : List Presence)
  | linkEnds (face : FaceId)
  | faceDown (face : FaceId)
  | take (face : FaceId)
  | finish (face : FaceId)

variable {list : List Presence}

namespace OwnDevice

variable (own : OwnDevice)

def qualifies (mine : KeyFingerprint) (ns : Name) (d : PresentDevice) : Bool :=
  !(d.key = mine || own.devices.contains d.device || d.key < mine ||
    !ns.components.isPrefixOf d.device.components || (own.peerFind d.key d.device).isSome ||
    own.pairOff d.device)

/-- The devices of a list that qualify, in its order. -/
def candidates (list : List Presence) : List (KeyFingerprint × Name) :=
  match own.fingerprint with
  | some mine =>
    if own.membership then
      (list.filter fun p => (own.roleIn p.ns).isSome).flatMap fun p =>
        (p.devices.filter (own.qualifies mine p.ns)).map fun d => (d.key, d.device)
    else []
  | none => []

/-- The first of them for each key. -/
def wanted (list : List Presence) : List (KeyFingerprint × Name) := heard (own.candidates list)

/-- The list names a device that qualifies under this key. -/
def Offers (list : List Presence) (key : KeyFingerprint) (device : Name) : Prop :=
  own.membership = true ∧ ∃ mine, own.fingerprint = some mine ∧
    ∃ p ∈ list, (own.roleIn p.ns).isSome = true ∧
      ∃ d ∈ p.devices, own.qualifies mine p.ns d = true ∧ d.key = key ∧ d.device = device

theorem mem_candidates {key : KeyFingerprint} {device : Name} :
    (key, device) ∈ own.candidates list ↔ own.Offers list key device := by
  unfold candidates Offers
  cases own.fingerprint with
  | none => simp
  | some mine =>
    cases own.membership with
    | false => simp
    | true => simp [and_assoc]

theorem offers_of_wanted {key : KeyFingerprint} {device : Name}
    (listed : (key, device) ∈ own.wanted list) : own.Offers list key device :=
  own.mem_candidates.mp (mem_of_mem_heard listed)

theorem wanted_of_offers {key : KeyFingerprint} {device : Name}
    (offers : own.Offers list key device) : key ∈ (own.wanted list).map Prod.fst :=
  (mem_keys_heard _ _).mpr (mem_map_of_mem (own.mem_candidates.mpr offers))

end OwnDevice

namespace MemberPaths

variable (own : OwnDevice)

def start : MemberPaths := ⟨∅, ∅, ∅, ∅, 0⟩

/-- The entry goes, with its route on the relay's face. -/
def dropMember (relayFace : Option FaceId) (state : MemberPaths) (fp : KeyFingerprint) :
    MemberPaths :=
  match state.members.lookup fp with
  | none => state
  | some m =>
    { state with
      members := state.members.erase fp
      routes := relayFace.elim state.routes fun face => state.routes.erase (face, m.device) }

def addMember (relay : PeerId) (relayFace : Option FaceId) (state : MemberPaths)
    (member : KeyFingerprint × Name) : MemberPaths :=
  if member.1 ∈ state.members then state
  else
    { state with
      members := state.members.insert member.1 ⟨relay, member.2⟩
      routes := relayFace.elim state.routes fun face => insert (face, member.2) state.routes }

/-- The members of a relay that its list no longer names. -/
def gone (state : MemberPaths) (relay : PeerId) (list : List Presence) : List KeyFingerprint :=
  (state.members.pairs.filter fun m =>
    m.2.relay = relay && !(own.wanted list).any fun w => w.1 = m.1).map Prod.fst

def takePresence (state : MemberPaths) (relay : PeerId) (list : List Presence) : MemberPaths :=
  let relayFace := state.linkFaces.lookup relay
  let left := (state.gone own relay list).foldl (dropMember relayFace) state
  (own.wanted list).foldl (addMember relay relayFace) left

/-- A link comes up on a face of its own, and closes the one there is to that relay. -/
def linkUp (state : MemberPaths) (relay : PeerId) : MemberPaths :=
  { state with
    linkFaces := state.linkFaces.insert relay ⟨state.nextFace⟩
    followers := (state.followers.mapValues fun _ f =>
      if f.relay = relay then { f with closed := true } else f).insert ⟨state.nextFace⟩
        ⟨relay, [], false, false⟩
    nextFace := state.nextFace + 1 }

def step (state : MemberPaths) : MemberAction → MemberPaths
  | .linkUp relay => state.linkUp relay
  | .lists face list =>
    match state.followers.lookup face with
    | some f =>
      if f.closed then state
      else { state with
        followers := state.followers.insert face { f with current := list, taken := false } }
    | none => state
  | .linkEnds face =>
    match state.followers.lookup face with
    | some f => { state with followers := state.followers.insert face { f with closed := true } }
    | none => state
  | .faceDown face =>
    if (state.followers.lookup face).any fun f => !f.closed then state
    else { state with
      linkFaces := state.linkFaces.retain fun _ held => held ≠ face
      routes := state.routes.filter fun route => route.1 ≠ face }
  | .take face =>
    match state.followers.lookup face with
    | some f =>
      if f.taken then state
      else
        let taken := state.takePresence own f.relay f.current
        { taken with followers := taken.followers.insert face { f with taken := true } }
    | none => state
  | .finish face =>
    match state.followers.lookup face with
    | some f =>
      if f.closed then
        let taken := state.takePresence own f.relay []
        { taken with followers := taken.followers.erase face }
      else state
    | none => state

/-- No list is to be taken, nor the end of a link. -/
def Settled (state : MemberPaths) : Prop :=
  ∀ face f, state.followers.lookup face = some f → f.taken = true ∧ f.closed = false

/-- The members are those that some relay lists now, each with its route on that relay's face. -/
structure Follows (state : MemberPaths) : Prop where
  listed : ∀ face f key device, state.followers.lookup face = some f →
    own.Offers f.current key device → key ∈ state.members
  members : ∀ key m, state.members.lookup key = some m →
    ∃ face f, state.followers.lookup face = some f ∧ f.relay = m.relay ∧
      own.Offers f.current key m.device ∧ state.linkFaces.lookup m.relay = some face ∧
        (face, m.device) ∈ state.routes
  routes : ∀ relay face device, state.linkFaces.lookup relay = some face →
    (face, device) ∈ state.routes →
      ∃ key, state.members.lookup key = some ⟨relay, device⟩

/-- What a relay no longer names may go: no other list that was taken names it, what stays keeps the
name it is listed under, and what goes shares no name with what stays. -/
structure LetsGo (state : MemberPaths) (face : FaceId) (relay : PeerId) (list : List Presence) :
    Prop where
  elsewhere : ∀ key m, state.members.lookup key = some m → m.relay = relay →
    key ∉ (own.wanted list).map Prod.fst →
      ∀ other f, state.followers.lookup other = some f → other ≠ face → f.closed = false →
        f.taken = true → ∀ device, ¬own.Offers f.current key device
  named : ∀ key m, state.members.lookup key = some m → m.relay = relay →
    key ∈ (own.wanted list).map Prod.fst → own.Offers list key m.device
  apart : ∀ key m key' m', state.members.lookup key = some m → m.relay = relay →
    key ∉ (own.wanted list).map Prod.fst → state.members.lookup key' = some m' →
      m'.relay = relay → key' ∈ (own.wanted list).map Prod.fst → m.device ≠ m'.device

def Orderly (state : MemberPaths) : MemberAction → Prop
  | .take face => ∀ f, state.followers.lookup face = some f → f.taken = false →
    state.LetsGo own face f.relay f.current
  | .finish face => ∀ f, state.followers.lookup face = some f → f.closed = true →
    state.LetsGo own face f.relay []
  | _ => True

/-! ### Taking a list -/

/-- All but the members and their routes. -/
structure SameLinks (state after : MemberPaths) : Prop where
  linkFaces : after.linkFaces = state.linkFaces
  followers : after.followers = state.followers
  nextFace : after.nextFace = state.nextFace

theorem sameLinks_drop (relayFace : Option FaceId) (state : MemberPaths) (fp : KeyFingerprint) :
    SameLinks state (dropMember relayFace state fp) := by
  unfold dropMember
  split
  · exact ⟨rfl, rfl, rfl⟩
  · exact ⟨rfl, rfl, rfl⟩

theorem sameLinks_add (relay : PeerId) (relayFace : Option FaceId) (state : MemberPaths)
    (member : KeyFingerprint × Name) :
    SameLinks state (addMember relay relayFace state member) := by
  unfold addMember
  split
  · exact ⟨rfl, rfl, rfl⟩
  · exact ⟨rfl, rfl, rfl⟩

theorem sameLinks_foldl {A : Type} {change : MemberPaths → A → MemberPaths}
    (each : ∀ state item, SameLinks state (change state item)) (items : List A)
    (state : MemberPaths) : SameLinks state (items.foldl change state) := by
  induction items generalizing state with
  | nil => exact ⟨rfl, rfl, rfl⟩
  | cons item rest ih =>
    have first := each state item
    have later := ih (change state item)
    exact ⟨later.linkFaces.trans first.linkFaces, later.followers.trans first.followers,
      later.nextFace.trans first.nextFace⟩

theorem lookup_dropMember (relayFace : Option FaceId) (state : MemberPaths)
    (fp key : KeyFingerprint) : (dropMember relayFace state fp).members.lookup key =
      if key = fp then none else state.members.lookup key := by
  unfold dropMember
  cases held : state.members.lookup fp with
  | none =>
    by_cases same : key = fp
    · rw [if_pos same, same]
      exact held
    · rw [if_neg same]
  | some m => exact lookup_erase_eq _ _ _

theorem mem_routes_dropMember (relayFace : Option FaceId) (state : MemberPaths)
    (fp : KeyFingerprint) (route : FaceId × Name) :
    route ∈ (dropMember relayFace state fp).routes ↔ route ∈ state.routes ∧
      ∀ m, state.members.lookup fp = some m → relayFace = some route.1 → m.device ≠ route.2 := by
  unfold dropMember
  cases held : state.members.lookup fp with
  | none => simp
  | some m =>
    cases relayFace with
    | none => simp
    | some face =>
      simp only [Option.elim_some, Finset.mem_erase, Option.some.injEq, forall_eq', ne_eq]
      rw [and_comm, Prod.ext_iff]
      apply and_congr_right
      intro _
      rw [not_and]
      constructor
      · intro other same device
        exact other same.symm device.symm
      · intro other same device
        exact other same.symm device.symm

theorem lookup_dropAll (relayFace : Option FaceId) (fps : List KeyFingerprint)
    (state : MemberPaths) (key : KeyFingerprint) :
    (fps.foldl (dropMember relayFace) state).members.lookup key =
      if key ∈ fps then none else state.members.lookup key := by
  induction fps generalizing state with
  | nil => rfl
  | cons fp rest ih =>
    rw [foldl_cons, ih, lookup_dropMember]
    by_cases same : key = fp
    · simp [same]
    · simp [same]

theorem mem_routes_dropAll (relayFace : Option FaceId) (fps : List KeyFingerprint)
    (state : MemberPaths) (route : FaceId × Name) :
    route ∈ (fps.foldl (dropMember relayFace) state).routes ↔ route ∈ state.routes ∧
      ∀ fp ∈ fps, ∀ m, state.members.lookup fp = some m → relayFace = some route.1 →
        m.device ≠ route.2 := by
  induction fps generalizing state with
  | nil => simp
  | cons fp rest ih =>
    rw [foldl_cons, ih, mem_routes_dropMember, forall_mem_cons, and_assoc]
    apply and_congr_right
    intro _
    apply and_congr_right
    intro first
    constructor
    · intro later other member m held
      by_cases same : other = fp
      · exact first m (same ▸ held)
      · refine later other member m ?_
        rw [lookup_dropMember, if_neg same]
        exact held
    · intro later other member m held
      rw [lookup_dropMember] at held
      split at held
      · cases held
      · exact later other member m held

theorem lookup_addMember (relay : PeerId) (relayFace : Option FaceId) (state : MemberPaths)
    (member : KeyFingerprint × Name) (key : KeyFingerprint) :
    (addMember relay relayFace state member).members.lookup key =
      (state.members.lookup key).or
        (if key = member.1 then some ⟨relay, member.2⟩ else none) := by
  unfold addMember
  split
  · next known =>
    obtain ⟨m, held⟩ := mem_iff_lookup.mp known
    by_cases same : key = member.1
    · rw [same, held]
      rfl
    · rw [if_neg same, Option.or_none]
  · next new =>
    have absent := AList.lookup_eq_none.mpr new
    refine (lookup_insert_eq _ _ _ _).trans ?_
    by_cases same : key = member.1
    · rw [if_pos same, if_pos same, same, absent]
      rfl
    · rw [if_neg same, if_neg same, Option.or_none]

theorem mem_routes_addMember (relay : PeerId) (relayFace : Option FaceId) (state : MemberPaths)
    (member : KeyFingerprint × Name) (route : FaceId × Name) :
    route ∈ (addMember relay relayFace state member).routes ↔ route ∈ state.routes ∨
      relayFace = some route.1 ∧ member.2 = route.2 ∧ member.1 ∉ state.members := by
  unfold addMember
  split
  · next known => simp [known]
  · next new =>
    cases relayFace with
    | none => simp
    | some face =>
      simp only [Option.elim_some, Finset.mem_insert, Option.some.injEq]
      rw [Prod.ext_iff, or_comm]
      apply or_congr_right
      constructor
      · rintro ⟨same, device⟩
        exact ⟨same.symm, device.symm, new⟩
      · rintro ⟨same, device, _⟩
        exact ⟨same.symm, device.symm⟩

/-- New members, each with its route; those there were stay. -/
structure Added (relay : PeerId) (relayFace : Option FaceId) (list : List (KeyFingerprint × Name))
    (state after : MemberPaths) : Prop where
  kept : ∀ key m, state.members.lookup key = some m → after.members.lookup key = some m
  origin : ∀ key m, after.members.lookup key = some m → state.members.lookup key = some m ∨
    state.members.lookup key = none ∧ m.relay = relay ∧ (key, m.device) ∈ list
  known : ∀ key ∈ list.map Prod.fst, key ∈ after.members
  routes : ∀ route, route ∈ after.routes ↔ route ∈ state.routes ∨ relayFace = some route.1 ∧
    ∃ key, state.members.lookup key = none ∧ after.members.lookup key = some ⟨relay, route.2⟩

theorem added_nothing (relay : PeerId) (relayFace : Option FaceId) (state : MemberPaths) :
    Added relay relayFace [] state state where
  kept := fun _ _ held => held
  origin := fun _ _ held => Or.inl held
  known := forall_mem_nil _
  routes := by
    intro route
    refine (or_iff_left ?_).symm
    rintro ⟨_, key, absent, held⟩
    rw [absent] at held
    cases held

theorem Added.cons {relay : PeerId} {relayFace : Option FaceId} {state after : MemberPaths}
    {member : KeyFingerprint × Name} {list : List (KeyFingerprint × Name)}
    (added : Added relay relayFace list (addMember relay relayFace state member) after) :
    Added relay relayFace (member :: list) state after := by
  have first : ∀ key, (addMember relay relayFace state member).members.lookup key =
      (state.members.lookup key).or (if key = member.1 then some ⟨relay, member.2⟩ else none) :=
    lookup_addMember relay relayFace state member
  have kept : ∀ key m, state.members.lookup key = some m → after.members.lookup key = some m := by
    intro key m held
    apply added.kept
    rw [first, held]
    rfl
  have new : member.1 ∉ state.members →
      after.members.lookup member.1 = some ⟨relay, member.2⟩ := by
    intro absent
    apply added.kept
    rw [first, AList.lookup_eq_none.mpr absent, if_pos rfl]
    rfl
  refine ⟨kept, ?_, ?_, ?_⟩
  · intro key m held
    rcases added.origin key m held with before | ⟨absent, same, listed⟩
    · rw [first] at before
      rcases Option.or_eq_some_iff.mp before with already | ⟨absent, now⟩
      · exact Or.inl already
      · split at now
        · next same =>
          cases now
          exact Or.inr ⟨absent, rfl, by rw [same]; exact mem_cons_self⟩
        · cases now
    · rw [first, Option.or_eq_none_iff] at absent
      exact Or.inr ⟨absent.1, same, mem_cons_of_mem _ listed⟩
  · rw [map_cons, forall_mem_cons]
    refine ⟨?_, added.known⟩
    by_cases already : member.1 ∈ state.members
    · obtain ⟨m, held⟩ := mem_iff_lookup.mp already
      exact mem_iff_lookup.mpr ⟨m, kept _ m held⟩
    · exact mem_iff_lookup.mpr ⟨_, new already⟩
  · intro route
    rw [added.routes, mem_routes_addMember, or_assoc]
    apply or_congr_right
    constructor
    · rintro (⟨face, device, absent⟩ | ⟨face, key, absent, held⟩)
      · refine ⟨face, member.1, AList.lookup_eq_none.mpr absent, ?_⟩
        rw [← device]
        exact new absent
      · rw [first, Option.or_eq_none_iff] at absent
        exact ⟨face, key, absent.1, held⟩
    · rintro ⟨face, key, absent, held⟩
      by_cases same : key = member.1
      · subst same
        rw [new (AList.lookup_eq_none.mp absent)] at held
        have device := congrArg MemberEntry.device (Option.some.inj held)
        exact Or.inl ⟨face, device, AList.lookup_eq_none.mp absent⟩
      · refine Or.inr ⟨face, key, ?_, held⟩
        rw [first, absent, if_neg same]
        rfl

theorem added_foldl (relay : PeerId) (relayFace : Option FaceId)
    (list : List (KeyFingerprint × Name)) (state : MemberPaths) :
    Added relay relayFace list state (list.foldl (addMember relay relayFace) state) := by
  induction list generalizing state with
  | nil => exact added_nothing relay relayFace state
  | cons member rest ih => exact (ih (addMember relay relayFace state member)).cons

/-- What taking a relay's list does. -/
structure Took (own : OwnDevice) (relay : PeerId) (list : List Presence)
    (state after : MemberPaths) : Prop where
  links : SameLinks state after
  kept : ∀ key m, state.members.lookup key = some m →
    (m.relay = relay → key ∈ (own.wanted list).map Prod.fst) → after.members.lookup key = some m
  origin : ∀ key m, after.members.lookup key = some m →
    state.members.lookup key = some m ∧
        (m.relay = relay → key ∈ (own.wanted list).map Prod.fst) ∨
      m.relay = relay ∧ (key, m.device) ∈ own.wanted list ∧
        ∀ face, state.linkFaces.lookup relay = some face → (face, m.device) ∈ after.routes
  known : ∀ key ∈ (own.wanted list).map Prod.fst, key ∈ after.members
  routes : ∀ route, route ∈ after.routes ↔
    (route ∈ state.routes ∧ (state.linkFaces.lookup relay = some route.1 → ∀ key m,
      state.members.lookup key = some m → m.relay = relay →
        key ∉ (own.wanted list).map Prod.fst → m.device ≠ route.2)) ∨
    state.linkFaces.lookup relay = some route.1 ∧
      ∃ key, after.members.lookup key = some ⟨relay, route.2⟩ ∧
        ∀ m, state.members.lookup key ≠ some m

variable {own}

theorem mem_gone {state : MemberPaths} {relay : PeerId}
    {key : KeyFingerprint} : key ∈ state.gone own relay list ↔
      ∃ m, state.members.lookup key = some m ∧ m.relay = relay ∧
        key ∉ (own.wanted list).map Prod.fst := by
  have unwanted : ∀ fp, (!(own.wanted list).any fun w => w.1 = fp) = true ↔
      fp ∉ (own.wanted list).map Prod.fst := by
    intro fp
    simp only [Bool.not_eq_true', any_eq_false, decide_eq_true_eq, mem_map, not_exists,
      not_and]
  simp only [gone, mem_map, mem_filter, Prod.exists, mem_pairs,
    Bool.and_eq_true, decide_eq_true_eq, unwanted]
  constructor
  · rintro ⟨_, m, ⟨held, same, absent⟩, rfl⟩
    refine ⟨m, held, same, ?_⟩
    simpa using absent
  · rintro ⟨m, held, same, absent⟩
    refine ⟨key, m, ⟨held, same, ?_⟩, rfl⟩
    simpa using absent

theorem took_takePresence (state : MemberPaths) (relay : PeerId) (list : List Presence) :
    Took own relay list state (state.takePresence own relay list) := by
  let relayFace := state.linkFaces.lookup relay
  let left := (state.gone own relay list).foldl (dropMember relayFace) state
  have added := added_foldl relay relayFace (own.wanted list) left
  have links : SameLinks state left := sameLinks_foldl (sameLinks_drop relayFace) _ state
  have later := sameLinks_foldl (sameLinks_add relay relayFace) (own.wanted list) left
  have lookup : ∀ key, left.members.lookup key =
      if key ∈ state.gone own relay list then none else state.members.lookup key :=
    lookup_dropAll relayFace (state.gone own relay list) state
  have stays : ∀ key m, left.members.lookup key = some m ↔ state.members.lookup key = some m ∧
      (m.relay = relay → key ∈ (own.wanted list).map Prod.fst) := by
    intro key m
    rw [lookup]
    by_cases dropped : key ∈ state.gone own relay list
    · rw [if_pos dropped]
      obtain ⟨held, found, same, absent⟩ := mem_gone.mp dropped
      refine iff_of_false (by intro impossible; cases impossible) ?_
      rintro ⟨found', listed⟩
      rw [found] at found'
      cases found'
      exact absent (listed same)
    · rw [if_neg dropped]
      refine (and_iff_left_of_imp ?_).symm
      intro found same
      by_contra absent
      exact dropped (mem_gone.mpr ⟨m, found, same, absent⟩)
  have absent : ∀ key, left.members.lookup key = none → ∀ device,
      (key, device) ∈ own.wanted list → ∀ m, state.members.lookup key ≠ some m := by
    intro key missing device listed m found
    have kept := (stays key m).mpr ⟨found, fun _ => mem_map_of_mem listed⟩
    rw [missing] at kept
    cases kept
  refine ⟨⟨later.linkFaces.trans links.linkFaces, later.followers.trans links.followers,
    later.nextFace.trans links.nextFace⟩, ?_, ?_, added.known, ?_⟩
  · intro key m found listed
    exact added.kept key m ((stays key m).mpr ⟨found, listed⟩)
  · intro key m found
    rcases added.origin key m found with before | ⟨missing, same, listed⟩
    · exact Or.inl ((stays key m).mp before)
    · refine Or.inr ⟨same, listed, ?_⟩
      intro face link
      have whole : m = ⟨relay, m.device⟩ := by rw [← same]
      exact (added.routes (face, m.device)).mpr
        (Or.inr ⟨link, key, missing, found.trans (congrArg some whole)⟩)
  · intro route
    refine (added.routes route).trans ?_
    rw [mem_routes_dropAll]
    apply or_congr
    · apply and_congr_right
      intro _
      constructor
      · intro each link key m found same unlisted
        exact each key (mem_gone.mpr ⟨m, found, same, unlisted⟩) m found link
      · intro each key dropped m found link
        obtain ⟨held, found', same, unlisted⟩ := mem_gone.mp dropped
        rw [found] at found'
        cases found'
        exact each link key m found same unlisted
    · apply and_congr_right
      intro _
      constructor
      · rintro ⟨key, missing, found⟩
        rcases added.origin key _ found with before | ⟨_, _, listed⟩
        · rw [missing] at before
          cases before
        · exact ⟨key, found, absent key missing _ listed⟩
      · rintro ⟨key, found, new⟩
        refine ⟨key, ?_, found⟩
        rw [lookup]
        split
        · rfl
        · exact Option.eq_none_iff_forall_ne_some.mpr new

/-! ### One step -/

/-- A member is in the hands of a follower of its relay: one whose link has ended, or one on whose
face it is routed, and whose list names it once taken. -/
def Backed (own : OwnDevice) (state : MemberPaths) (key : KeyFingerprint)
    (m : MemberEntry) : Prop :=
  ∃ face f, state.followers.lookup face = some f ∧ f.relay = m.relay ∧
    (f.closed = true ∨ (face, m.device) ∈ state.routes ∧
      (f.taken = true → own.Offers f.current key m.device))

structure Inv (own : OwnDevice) (state : MemberPaths) : Prop where
  faces : ∀ face f, state.followers.lookup face = some f → face.id < state.nextFace
  links : ∀ relay face, state.linkFaces.lookup relay = some face → face.id < state.nextFace
  alone : ∀ relay relay' face, state.linkFaces.lookup relay = some face →
    state.linkFaces.lookup relay' = some face → relay = relay'
  fresh : ∀ route ∈ state.routes, route.1.id < state.nextFace
  live : ∀ face f, state.followers.lookup face = some f → f.closed = false →
    state.linkFaces.lookup f.relay = some face
  covered : ∀ face f, state.followers.lookup face = some f → f.closed = false → f.taken = true →
    ∀ key device, own.Offers f.current key device → key ∈ state.members
  entries : ∀ key m, state.members.lookup key = some m → Backed own state key m
  routed : ∀ relay face device, state.linkFaces.lookup relay = some face →
    (face, device) ∈ state.routes → ∃ key, state.members.lookup key = some ⟨relay, device⟩

theorem start_inv (own : OwnDevice) : Inv own start where
  faces := by intro _ _ impossible; cases impossible
  links := by intro _ _ impossible; cases impossible
  alone := by intro _ _ _ impossible; cases impossible
  fresh := by intro _ impossible; cases impossible
  live := by intro _ _ impossible; cases impossible
  covered := by intro _ _ impossible; cases impossible
  entries := by intro _ _ impossible; cases impossible
  routed := by intro _ _ _ impossible; cases impossible

variable {state after : MemberPaths}

theorem linkUp_inv (inv : Inv own state) (relay : PeerId) : Inv own (state.linkUp relay) := by
  have followers : ∀ face, (state.linkUp relay).followers.lookup face =
      if face = ⟨state.nextFace⟩ then some ⟨relay, [], false, false⟩
      else (state.followers.lookup face).map fun f =>
        if f.relay = relay then { f with closed := true } else f := by
    intro face
    refine (lookup_insert_eq _ _ _ _).trans ?_
    rw [lookup_mapValues]
  have linkFaces : ∀ other, (state.linkUp relay).linkFaces.lookup other =
      if other = relay then some ⟨state.nextFace⟩ else state.linkFaces.lookup other :=
    fun other => lookup_insert_eq _ _ _ _
  -- An open follower is the new one, or one of another relay as it was.
  have opened : ∀ face f, (state.linkUp relay).followers.lookup face = some f →
      f.closed = false → face = ⟨state.nextFace⟩ ∧ f = ⟨relay, [], false, false⟩ ∨
        state.followers.lookup face = some f ∧ f.relay ≠ relay := by
    intro face f found isOpen
    rw [followers] at found
    split at found
    · next same => exact Or.inl ⟨same, (Option.some.inj found).symm⟩
    · obtain ⟨before, held, changed⟩ := Option.map_eq_some_iff.mp found
      split at changed
      · rw [← changed] at isOpen
        cases isOpen
      · next other =>
        subst changed
        exact Or.inr ⟨held, other⟩
  refine ⟨?_, ?_, ?_, ?_, ?_, ?_, ?_, ?_⟩
  · intro face f found
    rw [followers] at found
    split at found
    · next same => rw [same]; exact Nat.lt_succ_self _
    · obtain ⟨before, held, _⟩ := Option.map_eq_some_iff.mp found
      exact Nat.lt_succ_of_lt (inv.faces face before held)
  · intro other face found
    rw [linkFaces] at found
    split at found
    · cases found
      exact Nat.lt_succ_self _
    · exact Nat.lt_succ_of_lt (inv.links other face found)
  · intro one other face found found'
    rw [linkFaces] at found found'
    split at found
    · next same =>
      split at found'
      · next same' => rw [same, same']
      · cases found
        exact absurd (inv.links other _ found') (Nat.lt_irrefl _)
    · split at found'
      · cases found'
        exact absurd (inv.links one _ found) (Nat.lt_irrefl _)
      · exact inv.alone one other face found found'
  · intro route member
    exact Nat.lt_succ_of_lt (inv.fresh route member)
  · intro face f found isOpen
    rw [linkFaces]
    rcases opened face f found isOpen with ⟨rfl, rfl⟩ | ⟨held, other⟩
    · exact if_pos rfl
    · rw [if_neg other]
      exact inv.live face f held isOpen
  · intro face f found isOpen taken
    rcases opened face f found isOpen with ⟨_, rfl⟩ | ⟨held, _⟩
    · cases taken
    · exact inv.covered face f held isOpen taken
  · intro key m held
    obtain ⟨face, f, found, same, backed⟩ := inv.entries key m held
    have other : face ≠ ⟨state.nextFace⟩ := by
      rintro rfl
      exact absurd (inv.faces _ f found) (Nat.lt_irrefl _)
    refine ⟨face, if f.relay = relay then { f with closed := true } else f, ?_, ?_, ?_⟩
    · rw [followers, if_neg other, found]
      rfl
    · split
      · exact same
      · exact same
    · split
      · exact Or.inl rfl
      · exact backed
  · intro other face device found member
    rw [linkFaces] at found
    split at found
    · cases found
      exact absurd (inv.fresh _ member) (Nat.lt_irrefl _)
    · exact inv.routed other face device found member

variable {f : Follower}

/-- A follower of an unclosed link learns something, or its link ends. -/
theorem inv_changed (inv : Inv own state) {face : FaceId} {changed : Follower}
    (found : state.followers.lookup face = some f) (same : changed.relay = f.relay)
    (kept : f.closed = true → changed.closed = true)
    (idle : changed.closed = true ∨ changed.taken = false) :
    Inv own { state with followers := state.followers.insert face changed } := by
  have followers : ∀ other, (state.followers.insert face changed).lookup other =
      if other = face then some changed else state.followers.lookup other :=
    fun other => lookup_insert_eq _ _ _ _
  refine ⟨?_, inv.links, inv.alone, inv.fresh, ?_, ?_, ?_, inv.routed⟩
  · intro other g held
    rw [followers] at held
    split at held
    · next here => rw [here]; exact inv.faces face f found
    · exact inv.faces other g held
  · intro other g held isOpen
    rw [followers] at held
    split at held
    · next here =>
      cases held
      have before : f.closed = false := by
        by_contra closed
        rw [kept (Bool.eq_true_of_not_eq_false closed)] at isOpen
        cases isOpen
      rw [here, same]
      exact inv.live face f found before
    · exact inv.live other g held isOpen
  · intro other g held isOpen taken
    rw [followers] at held
    split at held
    · cases held
      rcases idle with closed | untaken
      · rw [closed] at isOpen
        cases isOpen
      · rw [untaken] at taken
        cases taken
    · exact inv.covered other g held isOpen taken
  · intro key m held
    obtain ⟨other, g, held', relay, backed⟩ := inv.entries key m held
    by_cases here : other = face
    · subst here
      rw [found] at held'
      cases held'
      refine ⟨other, changed, (followers other).trans (if_pos rfl), same.trans relay, ?_⟩
      rcases idle with closed | untaken
      · exact Or.inl closed
      · rcases backed with closed | ⟨routed, _⟩
        · exact Or.inl (kept closed)
        · refine Or.inr ⟨routed, ?_⟩
          intro taken
          rw [untaken] at taken
          cases taken
    · exact ⟨other, g, (followers other).trans ((if_neg here).trans held'), relay, backed⟩

theorem faceDown_inv (inv : Inv own state) {face : FaceId}
    (unused : ∀ f, state.followers.lookup face = some f → f.closed = true) :
    Inv own { state with
      linkFaces := state.linkFaces.retain fun _ held => held ≠ face
      routes := state.routes.filter fun route => route.1 ≠ face } := by
  have linkFaces : ∀ relay other, (state.linkFaces.retain fun _ held => held ≠ face).lookup relay =
      some other ↔ state.linkFaces.lookup relay = some other ∧ other ≠ face := by
    intro relay other
    rw [lookup_retain, Option.filter_eq_some_iff, decide_eq_true_eq]
  have routes : ∀ route, route ∈ state.routes.filter (fun route => route.1 ≠ face) ↔
      route ∈ state.routes ∧ route.1 ≠ face := fun route => Finset.mem_filter
  have elsewhere : ∀ other f, state.followers.lookup other = some f → f.closed = false →
      other ≠ face := by
    rintro other f found isOpen rfl
    rw [unused f found] at isOpen
    cases isOpen
  refine ⟨inv.faces, ?_, ?_, ?_, ?_, inv.covered, ?_, ?_⟩
  · intro relay other found
    exact inv.links relay other ((linkFaces relay other).mp found).1
  · intro relay relay' other found found'
    exact inv.alone relay relay' other ((linkFaces relay other).mp found).1
      ((linkFaces relay' other).mp found').1
  · intro route member
    exact inv.fresh route ((routes route).mp member).1
  · intro other f found isOpen
    exact (linkFaces f.relay other).mpr
      ⟨inv.live other f found isOpen, elsewhere other f found isOpen⟩
  · intro key m held
    obtain ⟨other, f, found, same, backed⟩ := inv.entries key m held
    refine ⟨other, f, found, same, ?_⟩
    cases isOpen : f.closed with
    | true => exact Or.inl rfl
    | false =>
      rw [isOpen] at backed
      obtain ⟨routed, offers⟩ := backed.resolve_left Bool.false_ne_true
      exact Or.inr ⟨(routes _).mpr ⟨routed, elsewhere other f found isOpen⟩, offers⟩
  · intro relay other device found member
    exact inv.routed relay other device ((linkFaces relay other).mp found).1
      ((routes (other, device)).mp member).1

section Taking

variable {relay : PeerId} {list : List Presence} {face : FaceId}

section

variable (inv : Inv own state)
include inv

section

variable (took : Took own relay list state after)
include took

theorem took_fresh :
    ∀ route ∈ after.routes, route.1.id < state.nextFace := by
  intro route member
  rcases (took.routes route).mp member with ⟨before, _⟩ | ⟨link, _⟩
  · exact inv.fresh route before
  · exact inv.links relay route.1 link

theorem took_routed :
    ∀ other face device, state.linkFaces.lookup other = some face →
      (face, device) ∈ after.routes →
        ∃ key, after.members.lookup key = some ⟨other, device⟩ := by
  intro other face device found member
  rcases (took.routes (face, device)).mp member with ⟨before, stays⟩ | ⟨link, key, held, _⟩
  · obtain ⟨key, held⟩ := inv.routed other face device found before
    refine ⟨key, took.kept key _ held ?_⟩
    rintro rfl
    by_contra unlisted
    exact stays found key _ held rfl unlisted rfl
  · cases inv.alone other relay face found link
    exact ⟨key, held⟩

/-- The route of a member that stays outlives what goes. -/
theorem took_route
    (lets : state.LetsGo own face relay list) {key : KeyFingerprint} {m : MemberEntry}
    (held : state.members.lookup key = some m)
    (listed : m.relay = relay → key ∈ (own.wanted list).map Prod.fst) {other : FaceId}
    (found : state.followers.lookup other = some f) (isOpen : f.closed = false)
    (same : f.relay = m.relay) (routed : (other, m.device) ∈ state.routes) :
    (other, m.device) ∈ after.routes := by
  refine (took.routes _).mpr (Or.inl ⟨routed, ?_⟩)
  intro link key' m' held' relay' unlisted
  have own' : m.relay = relay := by
    have live := inv.live other f found isOpen
    rw [same] at live
    exact inv.alone _ _ _ live link
  exact lets.apart key' m' key m held' relay' unlisted held own' (listed own')

/-- What other relays have listed is still there. -/
theorem took_covered
    (lets : state.LetsGo own face relay list) {other : FaceId}
    (found : state.followers.lookup other = some f) (different : other ≠ face)
    (isOpen : f.closed = false) (taken : f.taken = true) {key : KeyFingerprint} {device : Name}
    (offers : own.Offers f.current key device) : key ∈ after.members := by
  obtain ⟨m, held⟩ :=
    mem_iff_lookup.mp (inv.covered other f found isOpen taken key device offers)
  refine mem_iff_lookup.mpr ⟨m, took.kept key m held ?_⟩
  intro same
  by_contra unlisted
  exact lets.elsewhere key m held same unlisted other f found different isOpen taken device offers

end

theorem take_inv
    (found : state.followers.lookup face = some f)
    (took : Took own f.relay f.current state after)
    (lets : state.LetsGo own face f.relay f.current) :
    Inv own { after with followers := after.followers.insert face { f with taken := true } } := by
  have followers : ∀ other, (after.followers.insert face { f with taken := true }).lookup other =
      if other = face then some { f with taken := true } else state.followers.lookup other := by
    intro other
    rw [lookup_insert_eq, took.links.followers]
  have linkFaces := took.links.linkFaces
  have nextFace := took.links.nextFace
  refine ⟨?_, ?_, ?_, ?_, ?_, ?_, ?_, ?_⟩
  · intro other g held
    rw [nextFace]
    rw [followers] at held
    split at held
    · next here => rw [here]; exact inv.faces face f found
    · exact inv.faces other g held
  · rw [linkFaces, nextFace]
    exact inv.links
  · rw [linkFaces]
    exact inv.alone
  · intro route member
    rw [nextFace]
    exact took_fresh inv took route member
  · intro other g held isOpen
    rw [linkFaces]
    rw [followers] at held
    split at held
    · next here =>
      cases held
      rw [here]
      exact inv.live face f found isOpen
    · exact inv.live other g held isOpen
  · intro other g held isOpen taken key device offers
    rw [followers] at held
    split at held
    · cases held
      exact took.known key (own.wanted_of_offers offers)
    · next different => exact took_covered inv took lets held different isOpen taken offers
  · intro key m held
    rcases took.origin key m held with ⟨before, listed⟩ | ⟨same, listed, routed⟩
    · obtain ⟨other, g, held', same, backed⟩ := inv.entries key m before
      by_cases here : other = face
      · subst here
        rw [found] at held'
        cases held'
        refine ⟨other, _, (followers other).trans (if_pos rfl), same, ?_⟩
        cases isOpen : f.closed with
        | true => exact Or.inl rfl
        | false =>
          rw [isOpen] at backed
          have route := (backed.resolve_left Bool.false_ne_true).1
          exact Or.inr ⟨took_route inv took lets before listed found isOpen same route,
            fun _ => lets.named key m before same.symm (listed same.symm)⟩
      · refine ⟨other, g, (followers other).trans ((if_neg here).trans held'), same, ?_⟩
        cases isOpen : g.closed with
        | true => exact Or.inl rfl
        | false =>
          rw [isOpen] at backed
          obtain ⟨route, offers⟩ := backed.resolve_left Bool.false_ne_true
          exact Or.inr ⟨took_route inv took lets before listed held' isOpen same route, offers⟩
    · refine ⟨face, _, (followers face).trans (if_pos rfl), same.symm, ?_⟩
      cases isOpen : f.closed with
      | true => exact Or.inl rfl
      | false =>
        exact Or.inr ⟨routed face (inv.live face f found isOpen),
          fun _ => own.offers_of_wanted listed⟩
  · intro other linked device link member
    rw [linkFaces] at link
    exact took_routed inv took other linked device link member

theorem finish_inv
    (found : state.followers.lookup face = some f) (took : Took own f.relay [] state after)
    (lets : state.LetsGo own face f.relay []) :
    Inv own { after with followers := after.followers.erase face } := by
  have followers : ∀ other g, (after.followers.erase face).lookup other = some g ↔
      other ≠ face ∧ state.followers.lookup other = some g := by
    intro other g
    rw [lookup_erase_eq_some, took.links.followers]
  have nothing : own.wanted [] = [] := by
    unfold OwnDevice.wanted OwnDevice.candidates
    cases own.fingerprint with
    | none => rfl
    | some mine => cases own.membership <;> rfl
  have linkFaces := took.links.linkFaces
  have nextFace := took.links.nextFace
  refine ⟨?_, ?_, ?_, ?_, ?_, ?_, ?_, ?_⟩
  · intro other g held
    rw [nextFace]
    exact inv.faces other g ((followers other g).mp held).2
  · rw [linkFaces, nextFace]
    exact inv.links
  · rw [linkFaces]
    exact inv.alone
  · intro route member
    rw [nextFace]
    exact took_fresh inv took route member
  · intro other g held isOpen
    rw [linkFaces]
    exact inv.live other g ((followers other g).mp held).2 isOpen
  · intro other g held isOpen taken key device offers
    obtain ⟨different, held'⟩ := (followers other g).mp held
    exact took_covered inv took lets held' different isOpen taken offers
  · intro key m held
    rcases took.origin key m held with ⟨before, listed⟩ | ⟨_, listed, _⟩
    · have different : m.relay ≠ f.relay := by
        intro same
        have impossible := listed same
        rw [nothing] at impossible
        cases impossible
      obtain ⟨other, g, held', same, backed⟩ := inv.entries key m before
      have here : other ≠ face := by
        rintro rfl
        rw [found] at held'
        cases held'
        exact different same.symm
      refine ⟨other, g, (followers other g).mpr ⟨here, held'⟩, same, ?_⟩
      cases isOpen : g.closed with
      | true => exact Or.inl rfl
      | false =>
        rw [isOpen] at backed
        obtain ⟨route, offers⟩ := backed.resolve_left Bool.false_ne_true
        exact Or.inr ⟨took_route inv took lets before listed held' isOpen same route, offers⟩
    · rw [nothing] at listed
      cases listed
  · intro other linked device link member
    rw [linkFaces] at link
    exact took_routed inv took other linked device link member

end

end Taking

theorem step_inv (inv : Inv own state) {action : MemberAction}
    (orderly : state.Orderly own action) : Inv own (state.step own action) := by
  cases action with
  | linkUp relay => exact linkUp_inv inv relay
  | lists face list =>
    dsimp only [step]
    cases found : state.followers.lookup face with
    | none => exact inv
    | some f =>
      dsimp only
      split
      · exact inv
      · next isOpen =>
        exact inv_changed inv found rfl (fun closed => absurd closed isOpen) (Or.inr rfl)
  | linkEnds face =>
    dsimp only [step]
    cases found : state.followers.lookup face with
    | none => exact inv
    | some f => exact inv_changed inv found rfl (fun _ => rfl) (Or.inl rfl)
  | faceDown face =>
    dsimp only [step]
    split
    · exact inv
    · next unused =>
      apply faceDown_inv inv
      intro f found
      rw [found] at unused
      simpa using unused
  | take face =>
    dsimp only [step]
    cases found : state.followers.lookup face with
    | none => exact inv
    | some f =>
      dsimp only
      split
      · exact inv
      · next untaken =>
        exact take_inv inv found (took_takePresence state f.relay f.current)
          (orderly f found (Bool.eq_false_of_not_eq_true untaken))
  | finish face =>
    dsimp only [step]
    cases found : state.followers.lookup face with
    | none => exact inv
    | some f =>
      dsimp only
      split
      · next closed =>
        exact finish_inv inv found (took_takePresence state f.relay [])
          (orderly f found closed)
      · exact inv

theorem Inv.follows (inv : Inv own state) (settled : state.Settled) : Follows own state := by
  refine ⟨?_, ?_, inv.routed⟩
  · intro face f key device found offers
    obtain ⟨taken, isOpen⟩ := settled face f found
    exact inv.covered face f found isOpen taken key device offers
  · intro key m held
    obtain ⟨face, f, found, same, backed⟩ := inv.entries key m held
    obtain ⟨taken, isOpen⟩ := settled face f found
    rw [isOpen] at backed
    obtain ⟨route, offers⟩ := backed.resolve_left Bool.false_ne_true
    have live := inv.live face f found isOpen
    rw [same] at live
    exact ⟨face, f, found, same, offers taken, live, route⟩

/-! ### Runs -/

/-- Where no step takes from the members what another relay still lists, the members are the ones
listed whenever no list is left to take. -/
theorem follows_of_orderly (own : OwnDevice) (actions : List MemberAction)
    (orderly : Run.Throughout (step own) start actions (Orderly own))
    (settled : (actions.foldl (step own) start).Settled) :
    Follows own (actions.foldl (step own) start) := by
  have inv := @Run.foldl_of_throughout _ _ (step own) (Inv own) (Orderly own)
    (fun _ _ inv orderly => step_inv inv orderly) start (start_inv own) actions orderly
  exact inv.follows settled

theorem settled_of_pairs {state : MemberPaths}
    (all : ∀ p ∈ state.followers.pairs, p.2.taken = true ∧ p.2.closed = false) : state.Settled :=
  fun face f found => all (face, f) (mem_pairs.mpr found)

theorem orderly_take_of_no_member {state : MemberPaths} {face : FaceId} {f : Follower}
    (found : state.followers.lookup face = some f)
    (others : ∀ m ∈ state.members.pairs, m.2.relay ≠ f.relay) :
    state.Orderly own (.take face) := by
  intro g held _
  cases found.symm.trans held
  have none' : ∀ key m, state.members.lookup key = some m → m.relay ≠ f.relay :=
    fun key m held => others (key, m) (mem_pairs.mpr held)
  refine ⟨?_, ?_, ?_⟩
  · intro key m held same
    exact absurd same (none' key m held)
  · intro key m held same
    exact absurd same (none' key m held)
  · intro key m _ _ held same
    exact absurd same (none' key m held)

/-- A relay may list nothing any more when no other one lists anything. -/
theorem orderly_take_nothing {state : MemberPaths} {face : FaceId} {f : Follower}
    (found : state.followers.lookup face = some f) (nothing : own.wanted f.current = [])
    (others : ∀ p ∈ state.followers.pairs, p.1 ≠ face → p.2.current = []) :
    state.Orderly own (.take face) := by
  intro g held _
  cases found.symm.trans held
  refine ⟨?_, ?_, ?_⟩
  · rintro key m _ _ _ other g held different _ _ device ⟨_, _, _, p, listed, _⟩
    have lists := others (other, g) (mem_pairs.mpr held) different
    rw [lists] at listed
    cases listed
  · intro key m _ _ listed
    rw [nothing] at listed
    cases listed
  · intro key m key' m' _ _ _ _ _ listed
    rw [nothing] at listed
    cases listed

/-! ### Two relays that know one device -/

namespace TwoRelays

def mesh : Name := ⟨[.generic [109]]⟩

def device (n : UInt8) : Name := ⟨[.generic [109], .generic [n]]⟩

def laptop : OwnDevice where
  membership := true
  fingerprint := some ⟨.replicate 32 1⟩
  devices := [device 1]
  roleIn ns := if ns = mesh then some ⟨"node"⟩ else none
  peerFind _ _ := none
  pairOff _ := false

def peer : KeyFingerprint := ⟨.replicate 32 2⟩

def naming : List Presence := [⟨mesh, [⟨device 2, peer⟩]⟩]

/-- Both relays are linked and list the device, the first one first. -/
def bothList : List MemberAction :=
  [.linkUp ⟨0⟩, .linkUp ⟨1⟩, .lists ⟨0⟩ naming, .take ⟨0⟩, .lists ⟨1⟩ naming, .take ⟨1⟩]

def reached (actions : List MemberAction) : MemberPaths := actions.foldl (step laptop) start

/-- The first relay lists the device until the second one does. -/
def handOver : List MemberAction :=
  [.linkUp ⟨0⟩, .linkUp ⟨1⟩, .lists ⟨0⟩ naming, .take ⟨0⟩, .take ⟨1⟩, .lists ⟨0⟩ [], .take ⟨0⟩,
    .lists ⟨1⟩ naming, .take ⟨1⟩]

theorem handOver_orderly : Run.Throughout (step laptop) start handOver (Orderly laptop) := by
  refine Run.throughout_cons.mpr ⟨trivial, Run.throughout_cons.mpr ⟨trivial, ?_⟩⟩
  refine Run.throughout_cons.mpr ⟨trivial, ?_⟩
  refine Run.throughout_cons.mpr
    ⟨@orderly_take_of_no_member laptop _ _ ⟨⟨0⟩, naming, false, false⟩ (by decide +kernel)
      (by decide +kernel), ?_⟩
  refine Run.throughout_cons.mpr
    ⟨@orderly_take_of_no_member laptop _ _ ⟨⟨1⟩, [], false, false⟩ (by decide +kernel)
      (by decide +kernel), ?_⟩
  refine Run.throughout_cons.mpr ⟨trivial, ?_⟩
  refine Run.throughout_cons.mpr
    ⟨@orderly_take_nothing laptop _ _ ⟨⟨0⟩, [], false, false⟩ (by decide +kernel)
      (by decide +kernel) (by decide +kernel), ?_⟩
  refine Run.throughout_cons.mpr ⟨trivial, ?_⟩
  refine Run.throughout_cons.mpr
    ⟨@orderly_take_of_no_member laptop _ _ ⟨⟨1⟩, naming, false, false⟩ (by decide +kernel)
      (by decide +kernel), ?_⟩
  exact Run.throughout_nil _ _

theorem hand_over_follows : Follows laptop (reached handOver) :=
  follows_of_orderly laptop handOver handOver_orderly (settled_of_pairs (by decide +kernel))

theorem withdrawn_by_one : ¬∀ (own : OwnDevice) (actions : List MemberAction),
    (actions.foldl (step own) start).Settled → Follows own (actions.foldl (step own) start) := by
  intro always
  let withdraw : List MemberAction := [.lists ⟨0⟩ [], .take ⟨0⟩]
  have follows : Follows laptop (reached (bothList ++ withdraw)) :=
    always laptop (bothList ++ withdraw) (settled_of_pairs (by decide +kernel))
  have offers : laptop.Offers naming peer (device 2) :=
    ⟨rfl, _, rfl, _, List.mem_singleton_self _, by decide +kernel, _, List.mem_singleton_self _,
      by decide +kernel, rfl, rfl⟩
  have held : peer ∈ (reached (bothList ++ withdraw)).members :=
    follows.listed ⟨1⟩ ⟨⟨1⟩, naming, true, false⟩ peer (device 2) (by decide +kernel) offers
  have lost : (reached (bothList ++ withdraw)).members.lookup peer = none := by decide +kernel
  obtain ⟨m, found⟩ := HashMap.mem_iff_lookup.mp held
  rw [lost] at found
  cases found

end TwoRelays

end MemberPaths
end NdnExt.Link
