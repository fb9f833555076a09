import NdnExt.Quic.ScopeSound

/-! The later fragments of a packet follow its first one. -/

namespace NdnExt.Quic

open List

/-- A frame and the time it is judged at. -/
abbrev Timed := Bytes × Nat

variable (wire : LinkWire) (direction : Direction)

/-- The scope judges a frame; those over the rate do not come this far. -/
def ScopeState.next (state : ScopeState) (frame : Timed) : ScopeState :=
  (state.judge (wire.packetOf frame.1) direction frame.2).1

def ScopeState.passes (state : ScopeState) (frame : Timed) : Prop :=
  (state.judge (wire.packetOf frame.1) direction frame.2).2 = .pass

def Packet.base : Option Packet → Option Nat
  | some (.network _ _ _ firstOf) => firstOf
  | some (.laterFragment base) => some base
  | _ => none

/-- A packet is in flight from its first frame of index zero to its last frame. -/
def inFlight (earlier later : List Timed) : List Nat :=
  let first (frame : Timed) : Option Nat :=
    (Packet.base (wire.packetOf frame.1)).filter fun base =>
      Packet.isFirstOf base (wire.packetOf frame.1)
  (earlier.filterMap first).dedup.filter fun base =>
    later.any fun frame => Packet.base (wire.packetOf frame.1) = some base

/-- At no time are more packets in flight than are remembered. -/
def FewInFlight (frames : List Timed) : Prop :=
  ∀ n ∈ List.range frames.length,
    (inFlight wire (frames.take (n + 1)) (frames.drop n)).length ≤ rememberedFragmented

instance (frames : List Timed) : Decidable (FewInFlight wire frames) :=
  inferInstanceAs (Decidable (∀ n ∈ List.range frames.length,
    (inFlight wire (frames.take (n + 1)) (frames.drop n)).length ≤ rememberedFragmented))

/-- A first fragment of the packet was judged to pass. -/
def FirstPassed (start : ScopeState) (earlier : List Timed) (base : Nat) : Prop :=
  ∃ before first after, earlier = before ++ first :: after ∧
    Packet.isFirstOf base (wire.packetOf first.1) = true ∧
      (before.foldl (ScopeState.next wire direction) start).passes wire direction first

/-- Every later fragment of a packet whose first fragment passed is judged to pass. -/
def LaterFollow (start : ScopeState) (frames : List Timed) : Prop :=
  ∀ earlier later rest base, frames = earlier ++ later :: rest →
    wire.packetOf later.1 = some (.laterFragment base) →
      FirstPassed wire direction start earlier base →
        (earlier.foldl (ScopeState.next wire direction) start).passes wire direction later

/-- The base of a first fragment that the scope carries. -/
def carriedFirst (scope : LinkScope) (frame : Timed) : Option Nat :=
  match wire.packetOf frame.1 with
  | some (.network kind name _ (some base)) =>
    if (scope.carries direction).carry kind && scope.names name then some base else none
  | _ => none

def carriedFirsts (scope : LinkScope) (frames : List Timed) : List Nat :=
  frames.filterMap (carriedFirst wire direction scope)

def newest (bases : List Nat) : List Nat := bases.drop (bases.length - rememberedFragmented)

/-- A later fragment comes before as many first fragments as are remembered, repeats among them,
have come since that of its packet. -/
def SoonEnough (scope : LinkScope) (frames : List Timed) : Prop :=
  ∀ earlier later rest base, frames = earlier ++ later :: rest →
    wire.packetOf later.1 = some (.laterFragment base) →
      base ∈ carriedFirsts wire direction scope earlier →
        base ∈ newest (carriedFirsts wire direction scope earlier)

/-! ### What is remembered -/

theorem newest_append (bases : List Nat) (base : Nat) :
    newest (bases ++ [base]) =
      (if (newest bases).length = rememberedFragmented then (newest bases).tail
        else newest bases) ++ [base] := by
  unfold newest
  rw [length_drop, length_append, length_singleton]
  rcases Nat.lt_or_ge bases.length rememberedFragmented with few | many
  · have none' : bases.length - rememberedFragmented = 0 := by omega
    have none'' : bases.length + 1 - rememberedFragmented = 0 := by omega
    rw [none', none'', if_neg (by omega), drop_zero, drop_zero]
  · have some' : 0 < rememberedFragmented := by decide
    have more : bases.length + 1 - rememberedFragmented =
        bases.length - rememberedFragmented + 1 := by omega
    rw [if_pos (by omega), tail_drop, more, drop_append_of_le_length (by omega)]

variable {wire direction} {start : ScopeState} {frames : List Timed}

theorem carriedFirst_eq_some {scope : LinkScope} {frame : Timed} {base : Nat} :
    carriedFirst wire direction scope frame = some base ↔
      ∃ kind name whole, wire.packetOf frame.1 = some (.network kind name whole (some base)) ∧
        ((scope.carries direction).carry kind && scope.names name) = true := by
  unfold carriedFirst
  split
  · next kind name whole first packet =>
    rw [packet]
    constructor
    · intro found
      split at found
      · next carried =>
        cases found
        exact ⟨kind, name, whole, rfl, carried⟩
      · cases found
    · rintro ⟨_, _, _, ⟨⟩, carried⟩
      rw [if_pos carried]
  · next other =>
    constructor
    · intro impossible
      cases impossible
    · rintro ⟨kind, name, whole, packet, _⟩
      exact absurd packet (other kind name whole base)

theorem isFirstOf_iff {packet : Option Packet} {base : Nat} :
    Packet.isFirstOf base packet = true ↔
      ∃ kind name whole, packet = some (.network kind name whole (some base)) := by
  unfold Packet.isFirstOf
  split
  · simp [eq_comm]
  · next other =>
    constructor
    · intro impossible
      cases impossible
    · rintro ⟨kind, name, whole, rfl⟩
      exact absurd rfl (other kind name whole base)

namespace ScopeState

variable {state : ScopeState} {frame : Timed} {kind : Kind} {name : Name} {whole : Option Bytes}
  {firstOf : Option Nat}

theorem next_scope : (state.next wire direction frame).scope = state.scope := by
  rcases state.judge_cases (wire.packetOf frame.1) direction frame.2 with
    ⟨_, drops⟩ | ⟨_, same⟩ | ⟨_, _, _, same⟩ | ⟨_, _, _, firstOf, _, _, _, same⟩
  · unfold next
    rw [drops]
    rfl
  · unfold next
    rw [same]
  · unfold next
    rw [same]
    rfl
  · unfold next
    rw [same]
    cases firstOf <;> cases direction <;> rfl

theorem passes_network (packet : wire.packetOf frame.1 = some (.network kind name whole firstOf)) :
    state.passes wire direction frame ↔
      ((state.scope.carries direction).carry kind && state.scope.names name) = true := by
  unfold passes
  rw [packet]
  unfold judge
  dsimp only
  split
  · next carried => simp only [carried]
  · next refused => simp [refused]

theorem passes_later {base : Nat}
    (packet : wire.packetOf frame.1 = some (.laterFragment base)) :
    state.passes wire direction frame ↔ base ∈ (state.fragmented direction).passed := by
  unfold passes
  rw [packet]
  unfold judge
  dsimp only
  split
  · next among => simp only [among]
  · next absent => simp [absent]

/-- The memory takes up the first fragments that the scope carries, and nothing else. -/
theorem next_passed : ((state.next wire direction frame).fragmented direction).passed =
    ((carriedFirst wire direction state.scope frame).elim (state.fragmented direction)
      (state.fragmented direction).remember).passed := by
  have kept {other : ScopeState} (memory : SameMemory state other)
      (none' : carriedFirst wire direction state.scope frame = none) :
      (other.fragmented direction).passed =
        ((carriedFirst wire direction state.scope frame).elim (state.fragmented direction)
          (state.fragmented direction).remember).passed := by
    rw [none', memory.fragmented]
    rfl
  unfold next
  cases packet : wire.packetOf frame.1 with
  | none => exact kept .noteDrop (by unfold carriedFirst; rw [packet])
  | some found =>
    cases found with
    | linkOnly => exact kept .refl (by unfold carriedFirst; rw [packet])
    | laterFragment base =>
      have none' : carriedFirst wire direction state.scope frame = none := by
        unfold carriedFirst
        rw [packet]
      unfold judge
      dsimp only
      split
      · exact kept (.notePassed frame.2) none'
      · exact kept .noteDrop none'
    | network kind name whole firstOf =>
      unfold judge
      dsimp only
      split
      · next carried =>
        cases firstOf with
        | none => exact kept (.notePassed frame.2) (by unfold carriedFirst; rw [packet])
        | some base =>
          have first : carriedFirst wire direction state.scope frame = some base :=
            carriedFirst_eq_some.mpr ⟨kind, name, whole, packet, carried⟩
          rw [first]
          cases direction <;> rfl
      · next refused =>
        apply kept .noteDrop
        apply Option.eq_none_iff_forall_ne_some.mpr
        intro base found
        obtain ⟨_, _, _, same, carried⟩ := carriedFirst_eq_some.mp found
        rw [packet] at same
        cases same
        exact refused carried

end ScopeState

/-- What is remembered are the newest of the first fragments that the scope carries. -/
theorem foldl_passed {scope : LinkScope} (same : start.scope = scope)
    (empty : (start.fragmented direction).passed = []) (earlier : List Timed) :
    (earlier.foldl (ScopeState.next wire direction) start).scope = scope ∧
      ((earlier.foldl (ScopeState.next wire direction) start).fragmented direction).passed =
        newest (carriedFirsts wire direction scope earlier) := by
  induction earlier using List.reverseRecOn with
  | nil => exact ⟨same, empty⟩
  | append_singleton earlier frame ih =>
    obtain ⟨sameScope, remembered⟩ := ih
    rw [foldl_append, foldl_cons, foldl_nil]
    constructor
    · rw [ScopeState.next_scope, sameScope]
    · rw [ScopeState.next_passed, sameScope]
      unfold carriedFirsts at remembered ⊢
      rw [filterMap_append, filterMap_cons, filterMap_nil]
      cases first : carriedFirst wire direction scope frame with
      | none =>
        dsimp only [Option.elim_none]
        rw [append_nil, remembered]
      | some base =>
        dsimp only [Option.elim_some, Fragmented.remember]
        rw [newest_append, remembered]

theorem firstPassed_iff {scope : LinkScope} (same : start.scope = scope)
    (empty : (start.fragmented direction).passed = []) {earlier : List Timed} {base : Nat} :
    FirstPassed wire direction start earlier base ↔
      base ∈ carriedFirsts wire direction scope earlier := by
  unfold carriedFirsts
  rw [mem_filterMap]
  constructor
  · rintro ⟨before, first, after, rfl, isFirst, passes⟩
    refine ⟨first, by simp, ?_⟩
    obtain ⟨kind, name, whole, packet⟩ := isFirstOf_iff.mp isFirst
    rw [ScopeState.passes_network packet, (foldl_passed same empty before).1] at passes
    exact carriedFirst_eq_some.mpr ⟨kind, name, whole, packet, passes⟩
  · rintro ⟨first, among, carried⟩
    obtain ⟨before, after, rfl⟩ := append_of_mem among
    obtain ⟨kind, name, whole, packet, carries⟩ := carriedFirst_eq_some.mp carried
    refine ⟨before, first, after, rfl, isFirstOf_iff.mpr ⟨kind, name, whole, packet⟩, ?_⟩
    rw [ScopeState.passes_network packet, (foldl_passed same empty before).1]
    exact carries

/-- The later fragments of the packets that pass are those that come soon enough. -/
theorem later_follow_iff (wire : LinkWire) (direction : Direction) (scope : LinkScope)
    (shared : Option SharedRate) (begin : Nat) (frames : List Timed) :
    LaterFollow wire direction (.new scope shared begin) frames ↔
      SoonEnough wire direction scope frames := by
  have same : (ScopeState.new scope shared begin).scope = scope := rfl
  have empty : ((ScopeState.new scope shared begin).fragmented direction).passed = [] := by
    cases direction <;> rfl
  unfold LaterFollow SoonEnough
  refine forall₄_congr fun earlier later rest base => ?_
  refine imp_congr_right fun _ => imp_congr_right fun packet => ?_
  rw [firstPassed_iff same empty, ScopeState.passes_later packet,
    (foldl_passed same empty earlier).2]

/-! ### A first fragment that is sent again -/

namespace Enrollment

/-- Two packets, and the first fragment of the second one is sent as often as are remembered. -/
def repeated : List Timed :=
  let other : Bytes := [100, 18, 81, 1, 20, 82, 1, 0, 83, 1, 2, 80, 7, 5, 7, 7, 3, 8, 1, 104]
  (first, 0) :: (List.replicate rememberedFragmented (other, 0) ++ [(second, 0)])

theorem repeated_first_forgets : ¬∀ (wire : LinkWire) (direction : Direction) (scope : LinkScope)
    (shared : Option SharedRate) (begin : Nat) (frames : List Timed), FewInFlight wire frames →
      LaterFollow wire direction (.new scope shared begin) frames := by
  intro always
  have few : FewInFlight wire repeated := by decide +kernel
  have passed : FirstPassed wire .inbound (.new scope none 0) repeated.dropLast 10 :=
    (firstPassed_iff rfl rfl).mpr (by decide +kernel)
  have passes := always wire .inbound scope none 0 repeated few repeated.dropLast (second, 0) [] 10
    rfl rfl passed
  rw [ScopeState.passes_later rfl, (foldl_passed rfl rfl repeated.dropLast).2] at passes
  have gone : 10 ∉ newest (carriedFirsts wire .inbound scope repeated.dropLast) := by
    decide +kernel
  exact gone passes

end Enrollment

end NdnExt.Quic
