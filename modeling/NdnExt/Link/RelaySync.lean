import NdnExt.Link.RelayOrder

/-! The relays that namespaces advertise, as peers of this device. -/

namespace NdnExt.Link.Relays

open List

def PeerSpec.ofNamespace (p : PeerSpec) : Bool := p.relayUse.any Peers.ofNamespace

/-- An advertised relay has one peer, as an advertisement that matches it says. -/
def Represented (ads : List PeerSpec) (dismissed : List String) (after : Peers) : Prop :=
  ∀ a ∈ ads, a.label ∉ dismissed → ∃! id : PeerId, ∃ p, after.get id = some p ∧
    same p a = true ∧ ∃ b ∈ ads, same b p = true ∧ p.endpoints = b.endpoints ∧ p.key = b.key ∧
      p.relayUse.map RelayUse.preference = b.relayUse.map RelayUse.preference

/-- What a synchronisation makes of the peers. -/
structure Synchronised (options : RelayOptions) (held : Held) (dismissed : List String)
    (before after : Peers) : Prop where
  advertised : ∀ id p, after.get id = some p → p.ofNamespace = true →
    ∃ b ∈ advertised options held, same b p = true ∧ p.endpoints = b.endpoints ∧ p.key = b.key ∧
      p.relayUse = b.relayUse
  untouched : ∀ id p, p.ofNamespace = false → (after.get id = some p ↔ before.get id = some p)
  represented : ∀ earlier a later, Relays.advertised options held = earlier ++ a :: later →
    (∀ b ∈ earlier ++ later, same b a = false) → a.label ∉ dismissed →
    (∀ id id' p p', before.get id = some p → before.get id' = some p' → same p a = true →
      same p' a = true → id = id') →
    (∀ id p, before.get id = some p → same p a = true → ∀ b ∈ earlier ++ later, same b p = false) →
    ∃! id : PeerId, ∃ p, after.get id = some p ∧ same p a = true
  settled : (∀ a ∈ Relays.advertised options held, ∀ b ∈ Relays.advertised options held,
      same a b = true → a = b) →
    (∀ id p, before.get id = some p → ∀ a ∈ Relays.advertised options held,
      ∀ b ∈ Relays.advertised options held, same a p = true → same b p = true → a = b) →
    syncNamespaceRelays options held dismissed after = after

/-! ### The slots -/

namespace Peers

variable {peers : Peers}

theorem get_remove (id other : PeerId) :
    (peers.remove id).get other = if other = id then none else peers.get other := by
  unfold remove get
  by_cases same : other = id
  · subst same
    rw [if_pos rfl, List.getElem?_set_self']
    cases peers.slots[other.index]? <;> rfl
  · have different : id.index ≠ other.index := by
      intro equal
      exact same (by cases id; cases other; cases equal; rfl)
    rw [if_neg same, List.getElem?_set_ne different]

theorem get_update (id other : PeerId) (change : PeerSpec → PeerSpec) :
    (peers.update id change).get other =
      if other = id then (peers.get other).map change else peers.get other := by
  unfold update get
  rw [List.getElem?_modify]
  by_cases same : other = id
  · subst same
    rw [if_pos rfl]
    rcases peers.slots[other.index]? with _ | _ | spec <;> simp
  · have different : id.index ≠ other.index := by
      intro equal
      exact same (by cases id; cases other; cases equal; rfl)
    simp [same, different]

end Peers

/-! ### What becomes of a peer -/

theorem same_comm (a p : PeerSpec) : same a p = same p a := by
  have half : ∀ {A : Type} [DecidableEq A] (x y : Option A),
      (x.isSome && decide (x = y)) = (y.isSome && decide (y = x)) := by
    intro A _ x y
    by_cases equal : x = y
    · rw [equal]
    · simp [equal, Ne.symm equal]
  unfold same
  rw [half, half a.key]

variable {a p : PeerSpec}

theorem same_iff : same a p = true ↔
    (a.device.isSome = true ∧ a.device = p.device) ∨ (a.key.isSome = true ∧ a.key = p.key) := by
  simp [same]

/-- A peer with what an advertisement says of it. -/
def PeerSpec.withAdvertised (p a : PeerSpec) : PeerSpec :=
  { p with endpoints := a.endpoints, key := a.key, relayUse := a.relayUse }

/-- What is left of a peer. -/
def settle (ads : List PeerSpec) (p : PeerSpec) : Option PeerSpec :=
  if p.ofNamespace then (ads.find? fun a => same a p).map p.withAdvertised else some p

variable {ads : List PeerSpec} {peers : Peers}

theorem get_syncPeer {id : PeerId} (held : peers.get id = some p)
    (other : PeerId) :
    (syncPeer ads peers (id, p)).get other =
      if other = id then settle ads p else peers.get other := by
  have stays : (if other = id then some p else peers.get other) = peers.get other := by
    split
    · next same => rw [same, held]
    · rfl
  unfold syncPeer settle
  change (if !p.ofNamespace then _ else _ : Peers).get other = _
  cases p.ofNamespace with
  | false => exact stays.symm
  | true =>
    rw [if_neg (by decide), if_pos rfl]
    cases found : ads.find? fun a => same a p with
    | none => exact Peers.get_remove id other
    | some a =>
      dsimp only
      split
      · rw [Peers.get_update]
        split
        · next same =>
          rw [same, held]
          rfl
        · rfl
      · next unchanged =>
        have equal : p.withAdvertised a = p := by
          simp only [Bool.or_eq_true, decide_eq_true_eq, not_or, not_not] at unchanged
          rcases unchanged with ⟨⟨endpoints, key⟩, use⟩
          unfold PeerSpec.withAdvertised
          rw [endpoints, key, use]
        rw [Option.map_some, equal]
        exact stays.symm

theorem length_syncPeer (entry : PeerId × PeerSpec) :
    (syncPeer ads peers entry).slots.length = peers.slots.length := by
  unfold syncPeer
  split
  · rfl
  · split
    · exact length_set
    · split
      · exact length_modify _ _ _
      · rfl

theorem get_foldl_syncPeer (entries : List (PeerId × PeerSpec)) (peers : Peers)
    (distinct : (entries.map Prod.fst).Nodup)
    (held : ∀ entry ∈ entries, peers.get entry.1 = some entry.2) (id : PeerId) :
    (entries.foldl (syncPeer ads) peers).get id =
      if id ∈ entries.map Prod.fst then (peers.get id).bind (settle ads) else peers.get id := by
  induction entries generalizing peers with
  | nil => rfl
  | cons entry rest ih =>
    rcases entry with ⟨first, p⟩
    rw [map_cons, nodup_cons] at distinct
    have here := held (first, p) mem_cons_self
    have later : ∀ entry ∈ rest, (syncPeer ads peers (first, p)).get entry.1 = some entry.2 := by
      intro entry among
      rw [get_syncPeer here, if_neg]
      · exact held entry (mem_cons_of_mem _ among)
      · intro equal
        exact distinct.1 (mem_map.mpr ⟨entry, among, equal⟩)
    rw [foldl_cons, ih _ distinct.2 later, get_syncPeer here]
    by_cases same : id = first
    · subst same
      rw [if_neg distinct.1, if_pos rfl, map_cons, if_pos mem_cons_self, here]
      rfl
    · rw [if_neg same]
      simp only [map_cons, mem_cons, same, false_or]

theorem length_foldl_syncPeer (entries : List (PeerId × PeerSpec)) (peers : Peers) :
    (entries.foldl (syncPeer ads) peers).slots.length = peers.slots.length := by
  induction entries generalizing peers with
  | nil => rfl
  | cons entry rest ih => rw [foldl_cons, ih, length_syncPeer]

theorem get_foldl_add (specs : List PeerSpec) (peers : Peers) (id : PeerId) :
    (specs.foldl Peers.add peers).get id =
      if id.index < peers.slots.length then peers.get id
      else specs[id.index - peers.slots.length]? := by
  have slots : (specs.foldl Peers.add peers).slots = peers.slots ++ specs.map some := by
    induction specs generalizing peers with
    | nil => simp
    | cons spec rest ih => rw [foldl_cons, ih]; simp [Peers.add]
  unfold Peers.get
  rw [slots]
  split
  · next inside => rw [List.getElem?_append_left inside]
  · next beyond =>
    rw [List.getElem?_append_right (Nat.not_lt.mp beyond), List.getElem?_map]
    cases specs[id.index - peers.slots.length]? <;> rfl

section Sync

variable (options : RelayOptions) (held : Held) (dismissed : List String) (before : Peers)

/-- No peer matches an advertisement, nor was its relay dismissed. -/
def isNew (a : PeerSpec) : Bool :=
  !(before.iter.any (fun entry => same entry.2 a) || dismissed.contains a.label)

/-- The advertised relays that become peers. -/
def added : List PeerSpec := (advertised options held).filter (isNew dismissed before)

theorem get_sync (id : PeerId) :
    (syncNamespaceRelays options held dismissed before).get id =
      if id.index < before.slots.length then
        (before.get id).bind (settle (advertised options held))
      else (added options held dismissed before)[id.index - before.slots.length]? := by
  change ((added options held dismissed before).foldl Peers.add _).get id = _
  rw [get_foldl_add, length_foldl_syncPeer, get_foldl_syncPeer _ _ Peers.iter_nodup]
  · split
    · split
      · rfl
      · next absent =>
        have none : before.get id = none := by
          cases found : before.get id with
          | none => rfl
          | some p =>
            exact absurd (mem_map.mpr ⟨(id, p), Peers.mem_iter.mpr found, rfl⟩) absent
        rw [none]
        rfl
    · rfl
  · intro entry among
    exact Peers.mem_iter.mp among

variable {options held dismissed before}

theorem mem_added : a ∈ added options held dismissed before ↔
    a ∈ advertised options held ∧ a.label ∉ dismissed ∧
      ∀ id p, before.get id = some p → same p a = false := by
  unfold added isNew
  rw [mem_filter, Bool.not_eq_true', Bool.or_eq_false_iff]
  apply and_congr_right
  intro _
  constructor
  · rintro ⟨unmatched, kept⟩
    refine ⟨by simpa using kept, ?_⟩
    intro id p held
    have all := any_eq_false.mp unmatched (id, p) (Peers.mem_iter.mpr held)
    exact (Bool.not_eq_true _).mp all
  · rintro ⟨kept, unmatched⟩
    refine ⟨?_, by simpa using kept⟩
    rw [any_eq_false]
    intro entry among
    rw [unmatched entry.1 entry.2 (Peers.mem_iter.mp among)]
    decide

/-- A peer is one that was there, or an advertised relay. -/
theorem get_sync_cases {id : PeerId}
    (now : (syncNamespaceRelays options held dismissed before).get id = some p) :
    (id.index < before.slots.length ∧ ∃ old, before.get id = some old ∧
      settle (advertised options held) old = some p) ∨
    (before.slots.length ≤ id.index ∧
      (added options held dismissed before)[id.index - before.slots.length]? = some p) := by
  rw [get_sync] at now
  split at now
  · next inside => exact Or.inl ⟨inside, Option.bind_eq_some_iff.mp now⟩
  · next beyond => exact Or.inr ⟨Nat.not_lt.mp beyond, now⟩

theorem advertised_ofNamespace (among : a ∈ advertised options held) :
    a.ofNamespace = true ∧ same a a = true := by
  unfold advertised at among
  split at among
  · cases among
  · rcases mem_flatMap.mp among with ⟨ctx, _, made⟩
    rcases mem_map.mp made with ⟨relay, _, rfl⟩
    exact ⟨rfl, by simp [same]⟩

/-- What is left of a peer: itself, or what the first advertisement that matches it makes of it. -/
theorem settle_cases {ads : List PeerSpec} {old : PeerSpec} (left : settle ads old = some p) :
    (old.ofNamespace = false ∧ p = old) ∨
      ∃ a ∈ ads, old.ofNamespace = true ∧ same a old = true ∧ p = old.withAdvertised a := by
  unfold settle at left
  split at left
  · next named =>
    rcases Option.map_eq_some_iff.mp left with ⟨a, found, rfl⟩
    have first : same a old = true := by simpa using List.find?_some found
    exact Or.inr ⟨a, mem_of_find?_eq_some found, named, first, rfl⟩
  · next named =>
    cases left
    exact Or.inl ⟨(Bool.not_eq_true _).mp named, rfl⟩

/-- What an advertisement makes of a peer that it matches matches it. -/
theorem same_withAdvertised (matches' : same a p = true) :
    same a (p.withAdvertised a) = true := by
  rw [same_iff] at matches' ⊢
  rcases matches' with device | ⟨known, _⟩
  · exact Or.inl device
  · exact Or.inr ⟨known, rfl⟩

/-- What matches a peer afterwards matched it before, or matches what it was made from. -/
theorem same_of_withAdvertised {b : PeerSpec} (matches' : same b (p.withAdvertised a) = true) :
    same b p = true ∨ same b a = true := by
  rw [same_iff] at matches'
  rcases matches' with device | key
  · exact Or.inl (same_iff.mpr (Or.inl device))
  · exact Or.inr (same_iff.mpr (Or.inr key))

theorem sync_advertised {id : PeerId}
    (now : (syncNamespaceRelays options held dismissed before).get id = some p)
    (named : p.ofNamespace = true) :
    ∃ b ∈ advertised options held, same b p = true ∧ p.endpoints = b.endpoints ∧ p.key = b.key ∧
      p.relayUse = b.relayUse := by
  rcases get_sync_cases now with ⟨_, old, _, left⟩ | ⟨_, new⟩
  · rcases settle_cases left with ⟨configured, rfl⟩ | ⟨a, among, _, matched, rfl⟩
    · rw [configured] at named
      cases named
    · exact ⟨a, among, same_withAdvertised matched, rfl, rfl, rfl⟩
  · have among := (mem_added.mp (mem_of_getElem? new)).1
    exact ⟨p, among, (advertised_ofNamespace among).2, rfl, rfl, rfl⟩

theorem index_lt_of_get {peers : Peers} {id : PeerId}
    (present : peers.get id = some p) : id.index < peers.slots.length := by
  by_contra beyond
  unfold Peers.get at present
  rw [List.getElem?_eq_none (Nat.not_lt.mp beyond)] at present
  cases present

theorem sync_untouched {id : PeerId} (configured : p.ofNamespace = false) :
    (syncNamespaceRelays options held dismissed before).get id = some p ↔
      before.get id = some p := by
  constructor
  · intro now
    rcases get_sync_cases now with ⟨_, old, was, left⟩ | ⟨_, new⟩
    · rcases settle_cases left with ⟨_, rfl⟩ | ⟨a, among, _, _, rfl⟩
      · exact was
      · have named : (old.withAdvertised a).ofNamespace = true :=
          (advertised_ofNamespace among).1
        rw [named] at configured
        cases configured
    · have among := (mem_added.mp (mem_of_getElem? new)).1
      rw [(advertised_ofNamespace among).1] at configured
      cases configured
  · intro was
    rw [get_sync, if_pos (index_lt_of_get was), was, Option.bind_some, settle, configured]
    rfl

/-- A peer that one advertisement matches stays matched by it. -/
theorem sync_matched {id : PeerId} {p a : PeerSpec} (was : before.get id = some p)
    (among : a ∈ advertised options held) (matched : same a p = true)
    (alone : ∀ b ∈ advertised options held, same b p = true → b = a) :
    ∃ now, (syncNamespaceRelays options held dismissed before).get id = some now ∧
      same a now = true := by
  rw [get_sync, if_pos (index_lt_of_get was), was, Option.bind_some]
  unfold settle
  split
  · cases found : (advertised options held).find? fun a => same a p with
    | none => exact absurd matched (List.find?_eq_none.mp found a among)
    | some b =>
      have first : same b p = true := by simpa using List.find?_some found
      have equal := alone b (mem_of_find?_eq_some found) first
      subst equal
      exact ⟨_, rfl, same_withAdvertised matched⟩
  · exact ⟨p, rfl, matched⟩

theorem get_of_added {i : Nat}
    (new : (added options held dismissed before)[i]? = some a) :
    (syncNamespaceRelays options held dismissed before).get ⟨before.slots.length + i⟩ =
      some a := by
  rw [get_sync, if_neg (by dsimp only; omega), ← new]
  congr 1
  dsimp only
  omega

/-- An advertised relay that is not dismissed has a peer, if at most one relay is advertised as
each peer. -/
theorem sync_represented {a : PeerSpec} (among : a ∈ advertised options held)
    (kept : a.label ∉ dismissed)
    (alone : ∀ id p, before.get id = some p → same a p = true →
      ∀ b ∈ advertised options held, same b p = true → b = a) :
    ∃ id now, (syncNamespaceRelays options held dismissed before).get id = some now ∧
      same a now = true := by
  by_cases known : ∃ id p, before.get id = some p ∧ same a p = true
  · rcases known with ⟨id, p, was, matched⟩
    rcases @sync_matched options held dismissed before id p a was among matched
      (alone id p was matched) with ⟨now, present, matched⟩
    exact ⟨id, now, present, matched⟩
  · have new : a ∈ added options held dismissed before := by
      refine mem_added.mpr ⟨among, kept, ?_⟩
      intro id p was
      rw [same_comm]
      by_contra matched
      exact known ⟨id, p, was, (Bool.not_eq_false _).mp matched⟩
    rcases mem_iff_getElem?.mp new with ⟨i, placed⟩
    exact ⟨_, a, get_of_added placed, (advertised_ofNamespace among).2⟩

/-- What a peer is after a synchronisation, the next one would make of it. -/
theorem sync_found
    (apart : ∀ a ∈ advertised options held, ∀ b ∈ advertised options held,
      same a b = true → a = b)
    (alone : ∀ id p, before.get id = some p → ∀ a ∈ advertised options held,
      ∀ b ∈ advertised options held, same a p = true → same b p = true → a = b)
    {id : PeerId}
    (now : (syncNamespaceRelays options held dismissed before).get id = some p)
    (named : p.ofNamespace = true) :
    ∃ a, (advertised options held).find? (fun a => same a p) = some a ∧
      p.endpoints = a.endpoints ∧ p.key = a.key ∧ p.relayUse = a.relayUse := by
  have first : ∀ a ∈ advertised options held, same a p = true →
      (∀ b ∈ advertised options held, same b p = true → b = a) →
      (advertised options held).find? (fun a => same a p) = some a := by
    intro a among matched only
    cases found : (advertised options held).find? fun a => same a p with
    | none => exact absurd matched (List.find?_eq_none.mp found a among)
    | some b =>
      have same : same b p = true := by simpa using List.find?_some found
      rw [only b (mem_of_find?_eq_some found) same]
  rcases get_sync_cases now with ⟨_, old, was, left⟩ | ⟨_, new⟩
  · rcases settle_cases left with ⟨configured, rfl⟩ | ⟨a, among, _, matched, rfl⟩
    · rw [configured] at named
      cases named
    · refine ⟨a, first a among (same_withAdvertised matched) ?_, rfl, rfl, rfl⟩
      intro b among' matched'
      rcases same_of_withAdvertised matched' with older | other
      · exact alone id old was b among' a among older matched
      · exact apart b among' a among other
  · have among := (mem_added.mp (mem_of_getElem? new)).1
    refine ⟨p, first p among (advertised_ofNamespace among).2 ?_, rfl, rfl, rfl⟩
    intro b among' matched'
    exact apart b among' p among matched'

theorem sync_settled
    (apart : ∀ a ∈ advertised options held, ∀ b ∈ advertised options held,
      same a b = true → a = b)
    (alone : ∀ id p, before.get id = some p → ∀ a ∈ advertised options held,
      ∀ b ∈ advertised options held, same a p = true → same b p = true → a = b) :
    syncNamespaceRelays options held dismissed
        (syncNamespaceRelays options held dismissed before) =
      syncNamespaceRelays options held dismissed before := by
  generalize equal : syncNamespaceRelays options held dismissed before = after
  have unchanged : ∀ entries : List (PeerId × PeerSpec), (∀ entry ∈ entries, entry ∈ after.iter) →
      entries.foldl (syncPeer (advertised options held)) after = after := by
    intro entries
    induction entries with
    | nil => exact fun _ => rfl
    | cons entry rest ih =>
      intro all
      have here : syncPeer (advertised options held) after entry = after := by
        change (if !entry.2.ofNamespace then _ else _) = _
        split
        · rfl
        · next named =>
          have named : entry.2.ofNamespace = true := by simpa using named
          have present := Peers.mem_iter.mp (all entry mem_cons_self)
          rw [← equal] at present
          rcases sync_found apart alone present named with ⟨a, first, endpoints, key, use⟩
          rw [first]
          dsimp only
          rw [if_neg (by simp [endpoints, key, use])]
      rw [foldl_cons, here]
      exact ih fun entry among => all entry (mem_cons_of_mem _ among)
  have none : added options held dismissed after = [] := by
    rw [eq_nil_iff_forall_not_mem]
    intro a new
    rcases mem_added.mp new with ⟨among, kept, unmatched⟩
    rcases @sync_represented options held dismissed before a among kept (by
      intro id p was matched b among' matched'
      exact alone id p was b among' a among matched' matched) with ⟨id, now, present, matched⟩
    rw [equal] at present
    have absent := unmatched id now present
    rw [same_comm, matched] at absent
    cases absent
  change (added options held dismissed after).foldl Peers.add
    (after.iter.foldl (syncPeer (advertised options held)) after) = after
  rw [none, foldl_nil]
  exact unchanged after.iter fun _ among => among

/-- Where an item stands that occurs once. -/
theorem index_of_once {A : Type} {earlier later : List A} {item : A} {i : Nat}
    (once : item ∉ earlier ++ later) (placed : (earlier ++ item :: later)[i]? = some item) :
    i = earlier.length := by
  rw [mem_append, not_or] at once
  rcases Nat.lt_trichotomy i earlier.length with before | same | after
  · rw [List.getElem?_append_left before] at placed
    exact absurd (mem_of_getElem? placed) once.1
  · exact same
  · rw [List.getElem?_append_right (by omega)] at placed
    have positive : i - earlier.length = (i - earlier.length - 1) + 1 := by omega
    rw [positive, List.getElem?_cons_succ] at placed
    exact absurd (mem_of_getElem? placed) once.2

section Once

variable {earlier later : List PeerSpec} {a : PeerSpec}

/-- Which peers match an advertised relay that no other advertisement matches. -/
theorem sync_matching (split : advertised options held = earlier ++ a :: later)
    (others : ∀ b ∈ earlier ++ later, same b a = false) {id : PeerId}
    (now : (syncNamespaceRelays options held dismissed before).get id = some p)
    (matched : same p a = true) :
    (∃ old, before.get id = some old ∧ same old a = true) ∨
    (before.slots.length ≤ id.index ∧
      (added options held dismissed before)[id.index - before.slots.length]? = some a) := by
  have mine : ∀ b ∈ advertised options held, same b a = true → b = a := by
    intro b among matched
    rw [split, mem_append, mem_cons] at among
    have elsewhere : b ∉ earlier ++ later := by
      intro inside
      rw [others b inside] at matched
      cases matched
    rw [mem_append] at elsewhere
    tauto
  rcases get_sync_cases now with ⟨_, old, was, left⟩ | ⟨beyond, new⟩
  · rcases settle_cases left with ⟨_, rfl⟩ | ⟨b, among, _, matched', rfl⟩
    · exact Or.inl ⟨p, was, matched⟩
    · rw [same_comm] at matched
      rcases same_of_withAdvertised matched with older | other
      · exact Or.inl ⟨old, was, by rw [same_comm]; exact older⟩
      · rw [same_comm] at other
        have equal := mine b among other
        subst equal
        exact Or.inl ⟨old, was, by rw [same_comm]; exact matched'⟩
  · have equal := mine p (mem_added.mp (mem_of_getElem? new)).1 matched
    subst equal
    exact Or.inr ⟨beyond, new⟩

theorem sync_once (split : advertised options held = earlier ++ a :: later)
    (others : ∀ b ∈ earlier ++ later, same b a = false) (kept : a.label ∉ dismissed)
    (single : ∀ id id' p p', before.get id = some p → before.get id' = some p' →
      same p a = true → same p' a = true → id = id')
    (alone : ∀ id p, before.get id = some p → same p a = true →
      ∀ b ∈ earlier ++ later, same b p = false) :
    ∃! id : PeerId, ∃ p,
      (syncNamespaceRelays options held dismissed before).get id = some p ∧ same p a = true := by
  have among : a ∈ advertised options held := by
    rw [split]
    simp
  have exists' : ∃ id now, (syncNamespaceRelays options held dismissed before).get id = some now ∧
      same a now = true := by
    apply sync_represented among kept
    intro id p was matched b inside matched'
    rw [split, mem_append, mem_cons] at inside
    have elsewhere : b ∉ earlier ++ later := by
      intro inside
      rw [alone id p was (by rw [same_comm]; exact matched) b inside] at matched'
      cases matched'
    rw [mem_append] at elsewhere
    tauto
  have absent : a ∉ earlier ++ later := by
    intro inside
    have itself := others a inside
    rw [(advertised_ofNamespace among).2] at itself
    cases itself
  have place : ∀ i, (added options held dismissed before)[i]? = some a →
      i = (earlier.filter (isNew dismissed before)).length := by
    intro i placed
    have passes := (mem_filter.mp (mem_of_getElem? placed)).2
    rw [added, split, filter_append, filter_cons_of_pos passes] at placed
    apply index_of_once _ placed
    rw [← filter_append]
    exact fun inside => absent (mem_of_mem_filter inside)
  have unique : ∀ id id' p p',
      (syncNamespaceRelays options held dismissed before).get id = some p →
      (syncNamespaceRelays options held dismissed before).get id' = some p' →
      same p a = true → same p' a = true → id = id' := by
    intro id id' p p' now now' matched matched'
    have unmatched : ∀ i : Nat, (added options held dismissed before)[i]? = some a →
        ¬ ∃ id old, before.get id = some old ∧ same old a = true := by
      rintro i new ⟨id, old, was, older⟩
      rw [(mem_added.mp (mem_of_getElem? new)).2.2 id old was] at older
      cases older
    rcases sync_matching split others now matched with ⟨old, was, older⟩ | ⟨beyond, new⟩
    · rcases sync_matching split others now' matched' with ⟨old', was', older'⟩ | ⟨_, new'⟩
      · exact single id id' old old' was was' older older'
      · exact absurd ⟨id, old, was, older⟩ (unmatched _ new')
    · rcases sync_matching split others now' matched' with ⟨old', was', older'⟩ | ⟨beyond', new'⟩
      · exact absurd ⟨id', old', was', older'⟩ (unmatched _ new)
      · have here := place _ new
        have here' := place _ new'
        have index : id.index = id'.index := by omega
        cases id
        cases id'
        cases index
        rfl
  rcases exists' with ⟨id, now, present, matched⟩
  refine ⟨id, ⟨now, present, by rw [same_comm]; exact matched⟩, ?_⟩
  rintro id' ⟨p', present', matched'⟩
  exact unique id' id p' now present' present matched' (by rw [same_comm]; exact matched)

end Once

theorem namespace_relays_synchronised (options : RelayOptions) (held : Held)
    (dismissed : List String) (before : Peers) :
    Synchronised options held dismissed before
      (syncNamespaceRelays options held dismissed before) where
  advertised _ _ now named := sync_advertised now named
  untouched _ _ configured := sync_untouched configured
  represented _ _ _ split others kept single alone := sync_once split others kept single alone
  settled apart alone := sync_settled apart alone

end Sync

/-! ### A relay that the host configured, and a relay that two namespaces advertise -/

namespace TwoNamespaces

def home : Name := ⟨[.generic [104]]⟩

def fleet : Name := ⟨[.generic [102]]⟩

def relayOf (ns : Name) : Name := ns.appendComponent (text "relay")

def key : KeyFingerprint := ⟨.replicate 32 1⟩

def options : RelayOptions := ⟨true, fun name => if name = relayOf home then "home" else "fleet"⟩

/-- Each namespace knows the relay under a name and an endpoint of its own. -/
def context (ns : Name) (endpoint : String) : Context :=
  ⟨ns, [⟨relayOf ns, some key, [endpoint], 1⟩]⟩

def held (contexts : List Context) : Held := ⟨contexts, fun _ => true, [], none⟩

def both : Held := held [context home "a", context fleet "b"]

def one : Held := held [context home "a"]

/-- The host's own relay, with an endpoint that it chose. -/
def mine : PeerSpec := ⟨"mine", none, some (relayOf home), ["c"], none, none, some ⟨.user, 1⟩⟩

def afterBoth : Peers := syncNamespaceRelays options both [] ⟨[]⟩

def spec (ns : Name) (label endpoint : String) : PeerSpec :=
  ⟨label, some key, some (relayOf ns), [endpoint], none, none, some ⟨.ofNamespace ns, 1⟩⟩

theorem ads_one : advertised options one = [spec home "home" "a"] := by
  with_unfolding_all rfl

theorem peers_one : syncNamespaceRelays options one [] ⟨[some mine]⟩ = ⟨[some mine]⟩ := by
  with_unfolding_all rfl

theorem ads_both : advertised options both = [spec home "home" "a", spec fleet "fleet" "b"] := by
  with_unfolding_all rfl

theorem peers_both :
    afterBoth = ⟨[some (spec home "home" "a"), some (spec fleet "fleet" "b")]⟩ := by
  with_unfolding_all rfl

theorem not_represented :
    ¬ Represented (advertised options one) []
        (syncNamespaceRelays options one [] ⟨[some mine]⟩) ∧
      ¬ Represented (advertised options both) [] afterBoth ∧
      syncNamespaceRelays options both [] afterBoth ≠ afterBoth := by
  refine ⟨?_, ?_, ?_⟩
  · intro represented
    rw [ads_one, peers_one] at represented
    rcases represented (spec home "home" "a") List.mem_cons_self List.not_mem_nil with
      ⟨id, ⟨p, present, _, b, among, _, endpoints, _⟩, _⟩
    have host : p = mine := by
      have inside := index_lt_of_get present
      have first : id.index = 0 := by simpa using inside
      unfold Peers.get at present
      rw [first] at present
      exact (Option.some.inj present).symm
    rw [List.mem_singleton] at among
    rw [host, among] at endpoints
    exact absurd endpoints (by decide)
  · intro represented
    rcases represented (spec home "home" "a") (by rw [ads_both]; simp) List.not_mem_nil with
      ⟨id, _, unique⟩
    have first := unique ⟨0⟩ ⟨spec home "home" "a", by rw [peers_both]; rfl, by decide +kernel,
      spec home "home" "a", by rw [ads_both]; simp, by decide +kernel, rfl, rfl, rfl⟩
    have second := unique ⟨1⟩ ⟨spec fleet "fleet" "b", by rw [peers_both]; rfl, by decide +kernel,
      spec fleet "fleet" "b", by rw [ads_both]; simp, by decide +kernel, rfl, rfl, rfl⟩
    rw [← second] at first
    cases first
  · intro settled
    have endpoints := congrArg (fun peers => (peers.get ⟨1⟩).map PeerSpec.endpoints) settled
    exact absurd endpoints (by decide +kernel)

end TwoNamespaces

end NdnExt.Link.Relays
