import NdnExt.Link.RelayOrder

/-! Which relays are linked at once. -/

namespace NdnExt.Link.Relays

open NdnExt.Lib List

inductive LinkMode where
  | always
  | onDemand
  | off
  deriving DecidableEq

/-- The mode of a relay, and what its dial loop and the table of links know of it. -/
structure Dial where
  mode : LinkMode
  asked : Bool
  failing : Bool
  linked : Bool

structure Choice where
  chosen : List PeerId
  retrying : List PeerId
  deriving DecidableEq

/-- `chosenFor` is how many relays are chosen for each namespace. -/
structure Walk where
  choice : Choice
  chosenFor : List (Name × Nat)

def addOne : List (Name × Nat) → Name → List (Name × Nat)
  | [], ns => [(ns, 1)]
  | (n, count) :: rest, ns =>
    if n = ns then (n, count + 1) :: rest else (n, count) :: addOne rest ns

/-- The namespaces a relay counts for: the root name for one that is used for none. -/
def Held.serves (held : Held) (peer : PeerSpec) : List Name :=
  if held.relayNamespaces peer = [] then [.root] else held.relayNamespaces peer

section Choosing

variable (held : Held) (dial : PeerId → Dial) (count : Nat)

namespace Walk

def start : Walk := ⟨⟨[], []⟩, []⟩

def needs (walk : Walk) (serves : List Name) : Bool :=
  serves.any fun ns => (walk.chosenFor.lookup ns).all fun chosen => chosen < count

def visit (walk : Walk) (relay : PeerId × PeerSpec) : Walk :=
  let serves := held.serves relay.2
  let ctl := dial relay.1
  if !walk.needs count serves then walk
  else if ctl.mode = .off && !ctl.asked && !ctl.linked then walk
  else if ctl.linked || !ctl.failing then
    { choice := { walk.choice with chosen := walk.choice.chosen ++ [relay.1] }
      chosenFor := serves.foldl addOne walk.chosenFor }
  else { walk with
    choice := { walk.choice with retrying := walk.choice.retrying ++ [relay.1] } }

end Walk

def relayChoice (peers : Peers) : Choice :=
  (peers.relayOrder.foldl (Walk.visit held dial count) Walk.start).choice

/-! ### What the choice promises -/

def Dial.available (ctl : Dial) : Bool :=
  ctl.linked || (!ctl.failing && !(ctl.mode = .off && !ctl.asked))

/-- Its dial failed, and it would be dialled. -/
def Dial.down (ctl : Dial) : Bool :=
  !ctl.linked && ctl.failing && !(ctl.mode = .off && !ctl.asked)

theorem Dial.not_down (ctl : Dial) (dialled : ctl.available = true) : ctl.down = false := by
  unfold available at dialled
  unfold down
  cases linked : ctl.linked with
  | true => rfl
  | false =>
    rw [linked, Bool.false_or, Bool.and_eq_true, Bool.not_eq_true'] at dialled
    rw [dialled.1]
    rfl

/-- How many of some relays are chosen for a namespace. -/
def chosenAmong (choice : Choice) (relays : List (PeerId × PeerSpec)) (ns : Name) : Nat :=
  relays.countP fun relay => relay.1 ∈ choice.chosen && ns ∈ held.serves relay.2

/-- The first relays that are available for a namespace are chosen. -/
def Covers (peers : Peers) : Prop :=
  ∀ ns ∈ held.ownNamespaces, ∀ relay ∈ (peers.relayOrder.filter fun relay =>
      ns ∈ held.relayNamespaces relay.2 && (dial relay.1).available).take count,
    relay.1 ∈ (relayChoice held dial count peers).chosen

/-- A relay is only chosen or retried for a namespace that lacks relays. -/
def OnlyNeeded (peers : Peers) : Prop :=
  ∀ earlier relay later, peers.relayOrder = earlier ++ relay :: later →
    relay.1 ∈ (relayChoice held dial count peers).chosen ∨
      relay.1 ∈ (relayChoice held dial count peers).retrying →
    ∃ ns ∈ held.serves relay.2,
      chosenAmong held (relayChoice held dial count peers) earlier ns < count

/-- A relay that is down is retried while a relay after it is chosen for one of its namespaces. -/
def RetriesBefore (peers : Peers) : Prop :=
  ∀ earlier relay between next later,
    peers.relayOrder = earlier ++ relay :: between ++ next :: later →
    (dial relay.1).down = true → next.1 ∈ (relayChoice held dial count peers).chosen →
    (∃ ns ∈ held.serves relay.2, ns ∈ held.serves next.2) →
    relay.1 ∈ (relayChoice held dial count peers).retrying

/-- A relay that is down is retried when one of its namespaces lacks relays before it. -/
def RetriesNeeded (peers : Peers) : Prop :=
  ∀ earlier relay later, peers.relayOrder = earlier ++ relay :: later →
    (dial relay.1).down = true →
    (∃ ns ∈ held.serves relay.2,
      chosenAmong held (relayChoice held dial count peers) earlier ns < count) →
    relay.1 ∈ (relayChoice held dial count peers).retrying

end Choosing

/-! ### The counts of a walk -/

theorem lookup_entry (n other : Name) (chosen : Nat) (rest : List (Name × Nat)) :
    ((n, chosen) :: rest).lookup other = if other = n then some chosen else rest.lookup other := by
  rw [lookup_cons]
  by_cases same : other = n
  · rw [if_pos same, beq_iff_eq.mpr same]
  · rw [if_neg same, beq_eq_false_iff_ne.mpr same]

theorem lookup_addOne (counts : List (Name × Nat)) (ns other : Name) :
    (addOne counts ns).lookup other =
      if other = ns then some ((counts.lookup ns).getD 0 + 1) else counts.lookup other := by
  induction counts with
  | nil => rw [addOne, lookup_entry]; rfl
  | cons head rest ih =>
    rcases head with ⟨n, chosen⟩
    rw [addOne, lookup_entry, lookup_entry]
    split
    · next here =>
      subst here
      rw [lookup_entry]
      by_cases same : other = n <;> simp [same]
    · next elsewhere =>
      rw [lookup_entry, ih]
      by_cases same : other = n
      · subst same
        simp [elsewhere]
      · simp [same, Ne.symm elsewhere]

theorem lookup_addAll (serves : List Name) (distinct : serves.Nodup) (counts : List (Name × Nat))
    (ns : Name) :
    (serves.foldl addOne counts).lookup ns =
      if ns ∈ serves then some ((counts.lookup ns).getD 0 + 1) else counts.lookup ns := by
  induction serves generalizing counts with
  | nil => simp
  | cons head rest ih =>
    rcases nodup_cons.mp distinct with ⟨absent, distinct⟩
    rw [foldl_cons, ih distinct, lookup_addOne]
    by_cases same : ns = head
    · subst same
      simp [absent]
    · by_cases among : ns ∈ rest <;> simp [same, among]

section Proofs

variable {held : Held} {dial : PeerId → Dial} {count : Nat}

theorem serves_nodup (one : (held.contexts.map Context.ns).Nodup) (peer : PeerSpec) :
    (held.serves peer).Nodup := by
  have own : held.ownNamespaces.Nodup := one.filter _
  unfold Held.serves
  split
  · exact nodup_singleton _
  · unfold Held.relayNamespaces
    split
    · exact own.filter _
    · exact own
    · exact nodup_nil

namespace Walk

/-- A relay is chosen, or retried, or left. -/
theorem visit_cases (walk : Walk) (relay : PeerId × PeerSpec) :
    (walk.needs count (held.serves relay.2) = true ∧ (dial relay.1).available = true ∧
      walk.visit held dial count relay =
        ⟨⟨walk.choice.chosen ++ [relay.1], walk.choice.retrying⟩,
          (held.serves relay.2).foldl addOne walk.chosenFor⟩) ∨
    (walk.needs count (held.serves relay.2) = true ∧ (dial relay.1).down = true ∧
      walk.visit held dial count relay =
        ⟨⟨walk.choice.chosen, walk.choice.retrying ++ [relay.1]⟩, walk.chosenFor⟩) ∨
    ((walk.needs count (held.serves relay.2) = false ∨
        (dial relay.1).available = false ∧ (dial relay.1).down = false) ∧
      walk.visit held dial count relay = walk) := by
  unfold visit Dial.available Dial.down
  generalize dial relay.1 = ctl
  dsimp only
  generalize (decide (ctl.mode = .off) && !ctl.asked) = off
  generalize walk.needs count (held.serves relay.2) = needed
  cases needed
  · exact Or.inr (Or.inr ⟨Or.inl rfl, rfl⟩)
  · cases ctl.linked <;> cases ctl.failing <;> cases off <;> simp

/-- A walk only adds the relays it visits. -/
theorem visits_grow (walk : Walk) (relays : List (PeerId × PeerSpec)) :
    ∃ chosen retrying, (relays.foldl (visit held dial count) walk).choice =
        ⟨walk.choice.chosen ++ chosen, walk.choice.retrying ++ retrying⟩ ∧
      chosen ⊆ relays.map Prod.fst ∧ retrying ⊆ relays.map Prod.fst := by
  induction relays generalizing walk with
  | nil => exact ⟨[], [], by simp⟩
  | cons relay rest ih =>
    rcases ih (walk.visit held dial count relay) with ⟨chosen, retrying, same, among, among'⟩
    rw [foldl_cons, same, map_cons]
    have later := subset_cons_of_subset relay.1 among
    have later' := subset_cons_of_subset relay.1 among'
    rcases @visit_cases held dial count walk relay with ⟨_, _, new⟩ | ⟨_, _, new⟩ | ⟨_, new⟩
    · refine ⟨relay.1 :: chosen, retrying, by rw [new]; simp, ?_, later'⟩
      exact cons_subset.mpr ⟨mem_cons_self, later⟩
    · refine ⟨chosen, relay.1 :: retrying, by rw [new]; simp, later, ?_⟩
      exact cons_subset.mpr ⟨mem_cons_self, later'⟩
    · exact ⟨chosen, retrying, by rw [new], later, later'⟩

/-- The counts of a walk are those of the relays it chose. -/
structure Counted (held : Held) (walk : Walk) (visited : List (PeerId × PeerSpec)) : Prop where
  counts : ∀ ns, (walk.chosenFor.lookup ns).getD 0 = chosenAmong held walk.choice visited ns
  chosen : walk.choice.chosen ⊆ visited.map Prod.fst
  retrying : walk.choice.retrying ⊆ visited.map Prod.fst

theorem chosenAmong_of_same {choice next : Choice} {visited : List (PeerId × PeerSpec)}
    (same : ∀ relay ∈ visited, relay.1 ∈ next.chosen ↔ relay.1 ∈ choice.chosen) (ns : Name) :
    chosenAmong held next visited ns = chosenAmong held choice visited ns := by
  apply countP_congr
  intro relay among
  simp [same relay among]

theorem counted_visit (one : (held.contexts.map Context.ns).Nodup) {walk : Walk}
    {visited : List (PeerId × PeerSpec)} (counted : walk.Counted held visited)
    {relay : PeerId × PeerSpec} (fresh : relay.1 ∉ visited.map Prod.fst) :
    (walk.visit held dial count relay).Counted held (visited ++ [relay]) := by
  have unchosen : relay.1 ∉ walk.choice.chosen := fun among => fresh (counted.chosen among)
  have others : ∀ other ∈ visited, other.1 ≠ relay.1 := by
    intro other among same
    exact fresh (mem_map.mpr ⟨other, among, same⟩)
  have earlier : ∀ {ids : List PeerId}, ids ⊆ visited.map Prod.fst →
      ids ⊆ (visited ++ [relay]).map Prod.fst := by
    intro ids subset
    rw [map_append]
    exact subset_append_of_subset_left _ subset
  have unchanged : ∀ ns, chosenAmong held walk.choice (visited ++ [relay]) ns =
      chosenAmong held walk.choice visited ns := by
    intro ns
    unfold chosenAmong
    rw [countP_append]
    simp [unchosen]
  rcases @visit_cases held dial count walk relay with ⟨_, _, new⟩ | ⟨_, _, new⟩ | ⟨_, new⟩
  · rw [new]
    refine ⟨?_, ?_, earlier counted.retrying⟩
    · intro ns
      have kept := @chosenAmong_of_same held walk.choice
        ⟨walk.choice.chosen ++ [relay.1], walk.choice.retrying⟩ visited
        (by intro other inside; simp [others other inside]) ns
      rw [lookup_addAll _ (serves_nodup one _)]
      unfold chosenAmong at kept ⊢
      rw [countP_append, kept, ← chosenAmong, ← counted.counts ns]
      by_cases serves : ns ∈ held.serves relay.2 <;> simp [serves]
    · exact append_subset.mpr ⟨earlier counted.chosen, by simp⟩
  · rw [new]
    refine ⟨?_, earlier counted.chosen, ?_⟩
    · intro ns
      exact (counted.counts ns).trans (unchanged ns).symm
    · exact append_subset.mpr ⟨earlier counted.retrying, by simp⟩
  · rw [new]
    refine ⟨?_, earlier counted.chosen, earlier counted.retrying⟩
    intro ns
    exact (counted.counts ns).trans (unchanged ns).symm

theorem counted_visits (one : (held.contexts.map Context.ns).Nodup)
    (relays : List (PeerId × PeerSpec)) (distinct : (relays.map Prod.fst).Nodup) :
    (relays.foldl (visit held dial count) start).Counted held relays := by
  induction relays using List.reverseRecOn with
  | nil => exact ⟨fun ns => rfl, nil_subset _, nil_subset _⟩
  | append_singleton relays relay ih =>
    rw [map_append, nodup_append] at distinct
    rw [foldl_append]
    apply counted_visit one (ih distinct.1)
    intro among
    exact distinct.2.2 _ among relay.1 (by simp) rfl

theorem needs_of_count {walk : Walk} {serves : List Name} {ns : Name} (among : ns ∈ serves)
    (few : (walk.chosenFor.lookup ns).getD 0 < count) : walk.needs count serves = true := by
  refine any_eq_true.mpr ⟨ns, among, ?_⟩
  cases known : walk.chosenFor.lookup ns with
  | none => rfl
  | some chosen =>
    rw [known] at few
    exact decide_eq_true few

theorem count_of_needs {walk : Walk} {serves : List Name} (positive : 0 < count)
    (needed : walk.needs count serves = true) :
    ∃ ns ∈ serves, (walk.chosenFor.lookup ns).getD 0 < count := by
  rcases any_eq_true.mp needed with ⟨ns, among, few⟩
  refine ⟨ns, among, ?_⟩
  cases known : walk.chosenFor.lookup ns with
  | none => exact positive
  | some chosen =>
    rw [known] at few
    exact of_decide_eq_true few

end Walk

variable {peers : Peers} {earlier later : List (PeerId × PeerSpec)} {relay : PeerId × PeerSpec}

/-- What becomes of a relay is decided by the walk over those before it. -/
theorem choice_of_split (one : (held.contexts.map Context.ns).Nodup)
    (split : peers.relayOrder = earlier ++ relay :: later) :
    ∃ walk : Walk, (∀ ns, (walk.chosenFor.lookup ns).getD 0 =
        chosenAmong held (relayChoice held dial count peers) earlier ns) ∧
      (relay.1 ∈ (relayChoice held dial count peers).chosen ↔
        walk.needs count (held.serves relay.2) = true ∧ (dial relay.1).available = true) ∧
      (relay.1 ∈ (relayChoice held dial count peers).retrying ↔
        walk.needs count (held.serves relay.2) = true ∧ (dial relay.1).down = true) := by
  have distinct := @Peers.relayOrder_nodup peers
  rw [split, map_append, map_cons, nodup_append, nodup_cons] at distinct
  rcases distinct with ⟨distinct, ⟨unvisited, _⟩, apart⟩
  let walk := earlier.foldl (Walk.visit held dial count) Walk.start
  have counted : walk.Counted held earlier := Walk.counted_visits one earlier distinct
  have fresh : relay.1 ∉ earlier.map Prod.fst := fun among => apart _ among relay.1 (by simp) rfl
  have choice : relayChoice held dial count peers =
      (later.foldl (Walk.visit held dial count) (walk.visit held dial count relay)).choice := by
    rw [relayChoice, split, foldl_append, foldl_cons]
  rcases @Walk.visits_grow held dial count (walk.visit held dial count relay) later with
    ⟨chosen, retrying, grown, among, among'⟩
  rw [← choice] at grown
  have notLater : relay.1 ∉ chosen ∧ relay.1 ∉ retrying :=
    ⟨fun member => unvisited (among member), fun member => unvisited (among' member)⟩
  have notEarlier : relay.1 ∉ walk.choice.chosen ∧ relay.1 ∉ walk.choice.retrying :=
    ⟨fun member => fresh (counted.chosen member), fun member => fresh (counted.retrying member)⟩
  have others : ∀ other ∈ earlier, other.1 ≠ relay.1 ∧ other.1 ∉ chosen := by
    intro other inside
    have id : other.1 ∈ earlier.map Prod.fst := mem_map.mpr ⟨other, inside, rfl⟩
    refine ⟨apart _ id relay.1 mem_cons_self, ?_⟩
    intro member
    exact apart _ id _ (mem_cons_of_mem _ (among member)) rfl
  have same : ∀ other ∈ earlier, other.1 ∈ (relayChoice held dial count peers).chosen ↔
      other.1 ∈ walk.choice.chosen := by
    intro other inside
    rcases @Walk.visit_cases held dial count walk relay with ⟨_, _, new⟩ | ⟨_, _, new⟩ | ⟨_, new⟩
    · simp [grown, new, others other inside]
    · simp [grown, new, others other inside]
    · simp [grown, new, others other inside]
  refine ⟨walk, fun ns => (counted.counts ns).trans (Walk.chosenAmong_of_same same ns).symm, ?_⟩
  rcases @Walk.visit_cases held dial count walk relay with
    ⟨needed, available, new⟩ | ⟨needed, down, new⟩ | ⟨left, new⟩
  · have up := (dial relay.1).not_down available
    constructor
    · simp [grown, new, needed, available]
    · simp [grown, new, up, notEarlier, notLater]
  · have unavailable : (dial relay.1).available = false := by
      by_contra available
      rw [(dial relay.1).not_down ((Bool.not_eq_false _).mp available)] at down
      cases down
    constructor
    · simp [grown, new, unavailable, notEarlier, notLater]
    · simp [grown, new, needed, down]
  · rcases left with unneeded | ⟨unavailable, up⟩
    · simp [grown, new, unneeded, notEarlier, notLater]
    · simp [grown, new, unavailable, up, notEarlier, notLater]

theorem available_of_chosen (one : (held.contexts.map Context.ns).Nodup)
    (ordered : relay ∈ peers.relayOrder)
    (chosen : relay.1 ∈ (relayChoice held dial count peers).chosen) :
    (dial relay.1).available = true := by
  rcases mem_iff_append.mp ordered with ⟨earlier, later, split⟩
  rcases @choice_of_split held dial count peers earlier later relay one split with
    ⟨walk, _, iff, _⟩
  exact (iff.mp chosen).2

theorem mem_serves {ns : Name} (own : ns ∈ held.ownNamespaces) (peer : PeerSpec) :
    ns ∈ held.serves peer ↔ ns ∈ held.relayNamespaces peer := by
  have named : ns ≠ .root := by
    have condition := (mem_filter.mp own).2
    rw [Bool.and_eq_true, decide_eq_true_eq] at condition
    exact condition.1
  unfold Held.serves
  split
  · next none => simp [none, named]
  · rfl

/-- Of the first items that pass a test, few come before each. -/
theorem countP_lt_of_mem_take {A : Type} {test : A → Bool} {earlier later : List A} {item : A}
    {n : Nat} (distinct : (earlier ++ item :: later).Nodup)
    (among : item ∈ ((earlier ++ item :: later).filter test).take n) :
    earlier.countP test < n := by
  by_contra many
  have enough : n ≤ (earlier.filter test).length := by
    rw [← countP_eq_length_filter]
    exact Nat.not_lt.mp many
  rw [filter_append, take_append_of_le_length enough] at among
  have before := mem_of_mem_filter (mem_of_mem_take among)
  rw [nodup_append] at distinct
  exact distinct.2.2 item before item mem_cons_self rfl

theorem covers (one : (held.contexts.map Context.ns).Nodup) : Covers held dial count peers := by
  intro ns own relay among
  have inside := mem_of_mem_take among
  rcases mem_filter.mp inside with ⟨ordered, condition⟩
  rw [Bool.and_eq_true, decide_eq_true_eq] at condition
  rcases condition with ⟨used, available⟩
  rcases mem_iff_append.mp ordered with ⟨earlier, later, split⟩
  rcases @choice_of_split held dial count peers earlier later relay one split with
    ⟨walk, counts, chosen, _⟩
  apply chosen.mpr
  refine ⟨Walk.needs_of_count ((mem_serves own relay.2).mpr used) ?_, available⟩
  rw [counts]
  have distinct := List.Nodup.of_map _ (@Peers.relayOrder_nodup peers)
  rw [split] at distinct among
  apply lt_of_le_of_lt _ (countP_lt_of_mem_take distinct among)
  apply countP_mono_left
  intro other before both
  rw [Bool.and_eq_true, decide_eq_true_eq, decide_eq_true_eq] at both
  have placed : other ∈ peers.relayOrder := by
    rw [split]
    exact mem_append_left _ before
  rw [Bool.and_eq_true, decide_eq_true_eq]
  exact ⟨(mem_serves own other.2).mp both.2, available_of_chosen one placed both.1⟩

theorem onlyNeeded (one : (held.contexts.map Context.ns).Nodup) (positive : 0 < count) :
    OnlyNeeded held dial count peers := by
  intro earlier relay later split wanted
  rcases @choice_of_split held dial count peers earlier later relay one split with
    ⟨walk, counts, chosen, retrying⟩
  have needed : walk.needs count (held.serves relay.2) = true := by
    rcases wanted with among | among
    · exact (chosen.mp among).1
    · exact (retrying.mp among).1
  rcases Walk.count_of_needs positive needed with ⟨ns, among, few⟩
  rw [counts] at few
  exact ⟨ns, among, few⟩

theorem retriesNeeded (one : (held.contexts.map Context.ns).Nodup) :
    RetriesNeeded held dial count peers := by
  rintro earlier relay later split down ⟨ns, among, few⟩
  rcases @choice_of_split held dial count peers earlier later relay one split with
    ⟨walk, counts, _, retrying⟩
  rw [← counts] at few
  exact retrying.mpr ⟨Walk.needs_of_count among few, down⟩

/-- The relays chosen for a namespace are the first that are available for it, up to the count. -/
theorem relay_choice_covers (held : Held) (dial : PeerId → Dial) (count : Nat) (peers : Peers)
    (one : (held.contexts.map Context.ns).Nodup) :
    Covers held dial count peers ∧ (0 < count → OnlyNeeded held dial count peers) ∧
      RetriesNeeded held dial count peers :=
  ⟨covers one, onlyNeeded one, retriesNeeded one⟩

end Proofs

/-! ### A relay of two namespaces after one of them has its relay -/

namespace Overlap

def home : Name := ⟨[.generic [104]]⟩

def fleet : Name := ⟨[.generic [102]]⟩

def device (n : UInt8) : Name := ⟨[.generic [104], .generic [n]]⟩

def held : Held where
  contexts := [⟨home, [⟨device 1, none, [], 1⟩, ⟨device 2, none, [], 2⟩]⟩, ⟨fleet, []⟩]
  hasRole _ := true
  ownDevices := []
  mine := none

def ofHome (n : UInt8) : PeerSpec :=
  ⟨"", none, some (device n), [], none, none, some ⟨.ofNamespace home, n.toUInt32⟩⟩

def ofUser : PeerSpec := ⟨"", none, none, [], none, none, some ⟨.user, 3⟩⟩

def peers : Peers := ⟨[some (ofHome 1), some (ofHome 2), some ofUser]⟩

/-- The first relay is linked, the dial of the second failed. -/
def dial (id : PeerId) : Dial := ⟨.always, false, id.index = 1, id.index = 0⟩

theorem two_covered :
    Covers held dial 2 peers ∧ (0 < 2 → OnlyNeeded held dial 2 peers) ∧
      RetriesNeeded held dial 2 peers :=
  relay_choice_covers held dial 2 peers (by decide)

theorem order : peers.relayOrder = [(⟨0⟩, ofHome 1), (⟨1⟩, ofHome 2), (⟨2⟩, ofUser)] := by
  with_unfolding_all rfl

/-- The user's relay is chosen for the other namespace, and counts for both; and with no relay
wanted one is chosen for each namespace. -/
theorem second_not_retried :
    ¬ RetriesBefore held dial 1 peers ∧ ¬ OnlyNeeded held dial 0 peers := by
  constructor
  · intro retries
    have among := retries [(⟨0⟩, ofHome 1)] (⟨1⟩, ofHome 2) [] (⟨2⟩, ofUser) [] order rfl
      (by decide +kernel) ⟨home, by decide +kernel, by decide +kernel⟩
    exact absurd among (by decide +kernel)
  · intro only
    rcases only [] (⟨0⟩, ofHome 1) [(⟨1⟩, ofHome 2), (⟨2⟩, ofUser)] order
      (Or.inl (by decide +kernel)) with ⟨_, _, few⟩
    exact Nat.not_lt_zero _ few

end Overlap

end NdnExt.Link.Relays
