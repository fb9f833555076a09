import NdnExt.Lib.Run
import NdnExt.Quic.Scope

/-! Nothing outside the scope crosses a scoped link. -/

namespace NdnExt.Quic

open NdnExt.Lib List

/-- `passed` are the frames judged to pass, oldest first. -/
structure ScopedLink where
  state : ScopeState
  now : Nat
  passed : List (Direction × Bytes)

/-- `otherLink` takes from the bucket the links share. -/
inductive ScopeAction where
  | wait (nanos : Nat)
  | frame (direction : Direction) (frame : Bytes)
  | otherLink

namespace ScopedLink

def start (scope : LinkScope) (shared : Option SharedRate) (now : Nat) : ScopedLink :=
  ⟨.new scope shared now, now, []⟩

def judgeFrame (wire : LinkWire) (link : ScopedLink) : Direction → Bytes → ScopeState × Judged
  | .inbound, frame => link.state.received wire frame link.now
  | .outbound, frame => link.state.sending wire frame link.now

def step (wire : LinkWire) (link : ScopedLink) : ScopeAction → ScopedLink
  | .wait nanos => { link with now := link.now + nanos }
  | .frame direction frame =>
    let judged := link.judgeFrame wire direction frame
    { link with
      state := judged.1
      passed := if judged.2 = .pass then link.passed ++ [(direction, frame)] else link.passed }
  | .otherLink => { link with state := (link.state.takeShared link.now).1 }

end ScopedLink

/-- A packet with its nack header, if there is one. -/
structure NetworkPacket where
  nack : Bool
  bytes : Bytes

namespace LinkWire

variable (wire : LinkWire)

def IsLp (frame : Bytes) (lp : LpPacket) : Prop :=
  (∃ t, wire.readVaru64 frame = some t ∧ t.1 = lpPacketType) ∧ wire.decodeLp frame = some lp

/-- The key of a fragment is its sequence less its index. -/
def IsPiece (frame : Bytes) (lp : LpPacket) (bytes : Bytes) (key : Nat) : Prop :=
  wire.IsLp frame lp ∧ 1 < lp.fragCount.getD 1 ∧ lp.fragment = some bytes ∧
    ∃ sequence, lp.sequence = some sequence ∧ sequence = key + lp.fragIndex.getD 0

/-- What a reassembler can make of some frames: packets sent whole, and the fragments that have a
key together, which begin with one of index zero whose nack header is the packet's. -/
inductive Formed (frames : List Bytes) : NetworkPacket → Prop where
  | bare {frame : Bytes} {t : Nat × Nat} (among : frame ∈ frames)
      (typed : wire.readVaru64 frame = some t) (other : t.1 ≠ lpPacketType) :
      Formed frames ⟨false, frame⟩
  | whole {frame bytes : Bytes} {lp : LpPacket} (among : frame ∈ frames) (isLp : wire.IsLp frame lp)
      (carries : lp.fragment = some bytes) (one : lp.fragCount.getD 1 ≤ 1) :
      Formed frames ⟨lp.nack.isSome, bytes⟩
  | reassembled {frame bytes : Bytes} {lp : LpPacket} {key : Nat} {parts : List Bytes}
      (among : frame ∈ frames) (first : wire.IsPiece frame lp bytes key)
      (zero : lp.fragIndex.getD 0 = 0)
      (later : ∀ part ∈ parts, ∃ frame' ∈ frames, ∃ lp', wire.IsPiece frame' lp' part key) :
      Formed frames ⟨lp.nack.isSome, bytes ++ parts.flatten⟩

/-- The type and the length of a TLV, and what comes after them. -/
def header (bytes : Bytes) : Option (Nat × Nat × Bytes) := do
  let t ← wire.readVaru64 bytes
  let rest ← sliceFrom bytes t.2
  let len ← wire.readVaru64 rest
  let rest' ← sliceFrom rest len.2
  return (t.1, len.1, rest')

def readTlv (bytes : Bytes) : Option (Nat × Bytes) := do
  let header ← wire.header bytes
  let value ← slice header.2.2 0 header.2.1
  return (header.1, value)

/-- An Interest or a Data begins with its name. -/
def IsPacket (bytes : Bytes) (kind : Kind) (name : Name) : Prop :=
  ∃ typ value nameValue, wire.readTlv bytes = some (typ, value) ∧ Kind.ofType typ = some kind ∧
    wire.readTlv value = some (nameType, nameValue) ∧ wire.decodeName nameValue = some name

end LinkWire

/-- The scope carries a packet of that kind and name. -/
def LinkScope.Carries (scope : LinkScope) (wire : LinkWire) (direction : Direction)
    (packet : NetworkPacket) : Prop :=
  ∀ kind name, wire.IsPacket packet.bytes kind name →
    (scope.carries direction).carry (if packet.nack then .nack else kind) = true ∧
      scope.names name = true

def Packet.isLinkOnly : Option Packet → Bool
  | some .linkOnly => true
  | _ => false

def Packet.isFirstOf (base : Nat) : Option Packet → Bool
  | some (.network _ _ _ (some first)) => first = base
  | _ => false

namespace ScopedLink

variable (wire : LinkWire) (link : ScopedLink)

def frames (direction : Direction) : List Bytes :=
  (link.passed.filter fun crossed => crossed.1 = direction).map Prod.snd

/-- How many received frames have passed, without those that carry no network packet. -/
def counted : Nat :=
  link.passed.countP fun crossed =>
    crossed.1 = .inbound && !Packet.isLinkOnly (wire.packetOf crossed.2)

/-- A later fragment passes only after the first one, and a frame that carries no network packet
passes and changes nothing, the tokens and the time of the last packet among it. -/
def JudgesFrame : ScopeAction → Prop
  | .frame direction frame =>
    (∀ base, wire.packetOf frame = some (.laterFragment base) →
      (link.judgeFrame wire direction frame).2 = .pass →
        ∃ first ∈ link.frames direction, Packet.isFirstOf base (wire.packetOf first) = true) ∧
      (wire.packetOf frame = some .linkOnly →
        link.judgeFrame wire direction frame = (link.state, .pass))
  | _ => True

def Bounded (begin : Nat) (rate : RateLimit) : Prop :=
  (link.counted wire : ℚ) ≤ rate.burst + (link.now - begin : Nat) * rate.perNano

end ScopedLink

/-! ### The head of a packet -/

variable {bytes rest value : Bytes}

theorem sliceFrom_eq_some {start : Nat} :
    sliceFrom bytes start = some rest ↔ start ≤ bytes.length ∧ bytes.drop start = rest := by
  unfold sliceFrom
  split <;> simp_all

theorem slice_eq_some {start stop : Nat} :
    slice bytes start stop = some value ↔
      (start ≤ stop ∧ stop ≤ bytes.length) ∧ (bytes.drop start).take (stop - start) = value := by
  unfold slice
  split <;> simp_all

theorem sliceFrom_append {start : Nat} (more : Bytes)
    (found : sliceFrom bytes start = some rest) :
    sliceFrom (bytes ++ more) start = some (rest ++ more) := by
  obtain ⟨inside, rfl⟩ := sliceFrom_eq_some.mp found
  apply sliceFrom_eq_some.mpr
  constructor
  · rw [length_append]
    omega
  · exact drop_append_of_le_length inside

theorem slice_append {start stop : Nat} (more : Bytes)
    (found : slice bytes start stop = some value) :
    slice (bytes ++ more) start stop = some value := by
  obtain ⟨⟨ordered, inside⟩, rfl⟩ := slice_eq_some.mp found
  apply slice_eq_some.mpr
  refine ⟨⟨ordered, ?_⟩, ?_⟩
  · rw [length_append]
    omega
  · rw [drop_append_of_le_length (by omega), take_append_of_le_length]
    rw [length_drop]
    omega

theorem sliceFrom_sliceFrom {start : Nat} (more : Nat)
    (found : sliceFrom bytes start = some rest) :
    sliceFrom rest more = sliceFrom bytes (start + more) := by
  obtain ⟨inside, rfl⟩ := sliceFrom_eq_some.mp found
  unfold sliceFrom
  rw [length_drop, drop_drop]
  exact if_congr (by omega) rfl rfl

theorem slice_of_sliceFrom {start : Nat} (len : Nat)
    (found : sliceFrom bytes start = some rest) :
    slice rest 0 len = slice bytes start (start + len) := by
  obtain ⟨inside, rfl⟩ := sliceFrom_eq_some.mp found
  unfold slice
  rw [length_drop, drop_zero, Nat.sub_zero, Nat.add_sub_cancel_left]
  exact if_congr (by omega) rfl rfl

namespace LinkWire

variable {wire : LinkWire} {bytes : Bytes}

theorem header_eq_some {typ len : Nat} :
    wire.header bytes = some (typ, len, rest) ↔
      ∃ t rest' l, wire.readVaru64 bytes = some t ∧ sliceFrom bytes t.2 = some rest' ∧
        wire.readVaru64 rest' = some l ∧ sliceFrom rest' l.2 = some rest ∧ t.1 = typ ∧
        l.1 = len := by
  unfold header
  constructor
  · intro found
    simpa [Option.bind_eq_some_iff] using found
  · rintro ⟨t, rest', l, typed, cut, lengthed, cut', rfl, rfl⟩
    simp [typed, cut, lengthed, cut']

/-- What comes after a header does not change it. -/
theorem header_append {typ len : Nat} (more : Bytes)
    (found : wire.header bytes = some (typ, len, rest)) :
    wire.header (bytes ++ more) = some (typ, len, rest ++ more) := by
  obtain ⟨t, rest', l, typed, cut, lengthed, cut', rfl, rfl⟩ := header_eq_some.mp found
  apply header_eq_some.mpr
  exact ⟨t, rest' ++ more, l, wire.append more typed, sliceFrom_append more cut,
    wire.append more lengthed, sliceFrom_append more cut', rfl, rfl⟩

/-- The head of a packet is its header and the name after it. -/
theorem head_eq_some {kind : Kind} {name : Name} :
    wire.head bytes = some (kind, name) ↔
      ∃ typ len rest nl rest' value, wire.header bytes = some (typ, len, rest) ∧
        Kind.ofType typ = some kind ∧ wire.header rest = some (nameType, nl, rest') ∧
        slice rest' 0 nl = some value ∧ wire.decodeName value = some name := by
  constructor
  · intro found
    unfold head at found
    simp only [bind, Option.bind_eq_some_iff] at found
    obtain ⟨t, typed, kind', ofKind, rest', cut, l, lengthed, rest, cut', nt, named, guarded,
      isName, rest'', cut'', nl, lengthed', value, sliced, name', decoded, same⟩ := found
    cases same
    have isName' : nt.1 = nameType := by
      by_contra other
      simp [guard, other] at isName
    have last : sliceFrom rest'' nl.2 = some (rest''.drop nl.2) :=
      sliceFrom_eq_some.mpr ⟨wire.size_le lengthed', rfl⟩
    have cutRest : sliceFrom rest (nt.2 + nl.2) = some (rest''.drop nl.2) := by
      rw [← sliceFrom_sliceFrom nl.2 cut'', last]
    refine ⟨t.1, l.1, rest, nl.1, rest''.drop nl.2, value, ?_, ofKind, ?_, ?_, decoded⟩
    · apply header_eq_some.mpr
      exact ⟨t, rest', l, typed, cut, lengthed, by rw [sliceFrom_sliceFrom l.2 cut, cut'], rfl, rfl⟩
    · apply header_eq_some.mpr
      exact ⟨nt, rest'', nl, named, cut'', lengthed', last, isName', rfl⟩
    · rw [slice_of_sliceFrom nl.1 cutRest, sliced]
  · rintro ⟨typ, len, rest, n, rest', value, outer, ofKind, inner, sliced, decoded⟩
    obtain ⟨t, afterType, l, typed, cut, lengthed, cut', rfl, rfl⟩ := header_eq_some.mp outer
    obtain ⟨nt, afterName, nl, named, cutName, lengthed', cutName', isName, rfl⟩ :=
      header_eq_some.mp inner
    rw [sliceFrom_sliceFrom l.2 cut] at cut'
    rw [sliceFrom_sliceFrom nl.2 cutName] at cutName'
    rw [slice_of_sliceFrom nl.1 cutName'] at sliced
    unfold head
    simp [typed, ofKind, cut, lengthed, cut', named, isName, cutName, lengthed', sliced, decoded]

/-- The head of a packet is in its first fragment, where the fragment has one. -/
theorem head_append {kind : Kind} {name : Name} (more : Bytes)
    (found : wire.head bytes = some (kind, name)) :
    wire.head (bytes ++ more) = some (kind, name) := by
  obtain ⟨typ, len, rest, nl, rest', value, outer, ofKind, inner, sliced, decoded⟩ :=
    head_eq_some.mp found
  apply head_eq_some.mpr
  exact ⟨typ, len, rest ++ more, nl, rest' ++ more, value, header_append more outer, ofKind,
    header_append more inner, slice_append more sliced, decoded⟩

theorem readTlv_eq_some {typ : Nat} : wire.readTlv bytes = some (typ, value) ↔
    ∃ len rest, wire.header bytes = some (typ, len, rest) ∧ slice rest 0 len = some value := by
  unfold readTlv
  constructor
  · intro found
    simp only [bind, Option.bind_eq_some_iff] at found
    obtain ⟨⟨typ', len, rest⟩, headed, value', sliced, same⟩ := found
    cases same
    exact ⟨len, rest, headed, sliced⟩
  · rintro ⟨len, rest, headed, sliced⟩
    simp [headed, sliced]

/-- The scope reads the kind and the name that a packet has. -/
theorem head_of_isPacket {kind : Kind} {name : Name} (packet : wire.IsPacket bytes kind name) :
    wire.head bytes = some (kind, name) := by
  obtain ⟨typ, value, nameValue, outer, ofKind, inner, decoded⟩ := packet
  obtain ⟨len, rest, headed, sliced⟩ := readTlv_eq_some.mp outer
  obtain ⟨nl, rest', named, slicedName⟩ := readTlv_eq_some.mp inner
  obtain ⟨-, taken⟩ := slice_eq_some.mp sliced
  have whole : rest = value ++ rest.drop len := by
    rw [← taken]
    simp
  apply head_eq_some.mpr
  refine ⟨typ, len, rest, nl, rest' ++ rest.drop len, nameValue, headed, ofKind, ?_, ?_, decoded⟩
  · have longer := header_append (rest.drop len) named
    rwa [← whole] at longer
  · exact slice_append _ slicedName

/-! ### What the frames that pass carry -/

theorem packetOf_bare {frame : Bytes} {t : Nat × Nat} (typed : wire.readVaru64 frame = some t)
    (other : t.1 ≠ lpPacketType) : wire.packetOf frame =
      (wire.head frame).map fun named => .network named.1 named.2 (some frame) none := by
  unfold packetOf
  cases wire.head frame <;> simp [typed, other]

theorem packetOf_whole {frame : Bytes} {lp : LpPacket} (isLp : wire.IsLp frame lp)
    (carries : lp.fragment = some bytes) (one : lp.fragCount.getD 1 ≤ 1) :
    wire.packetOf frame = (wire.head bytes).map fun named =>
      .network (kindOf lp named.1) named.2 (some bytes) none := by
  obtain ⟨⟨t, typed, isType⟩, decoded⟩ := isLp
  unfold packetOf
  cases headed : wire.head bytes <;>
    simp [typed, isType, decoded, carries, Nat.not_lt.mpr one, headed]

theorem packetOf_first {frame : Bytes} {lp : LpPacket} {key : Nat}
    (piece : wire.IsPiece frame lp bytes key) (zero : lp.fragIndex.getD 0 = 0) :
    wire.packetOf frame =
      (wire.head bytes).map fun named => .network (kindOf lp named.1) named.2 none (some key) := by
  obtain ⟨⟨⟨t, typed, isType⟩, decoded⟩, many, carries, sequence, sequenced, keyed⟩ := piece
  rw [zero, Nat.add_zero] at keyed
  unfold packetOf
  cases headed : wire.head bytes <;>
    simp [typed, isType, decoded, carries, many, sequenced, zero, keyed, guard, headed]

end LinkWire

namespace ScopedLink

variable {wire : LinkWire} {link : ScopedLink}

/-- A frame that the scope passes in a direction. -/
def Allowed (wire : LinkWire) (scope : LinkScope) (direction : Direction) (frame : Bytes) : Prop :=
  ∃ packet, wire.packetOf frame = some packet ∧ ∀ kind name whole firstOf,
    packet = .network kind name whole firstOf →
      (scope.carries direction).carry kind = true ∧ scope.names name = true

/-- Frames that pass are allowed, and what is remembered are the first fragments among them. -/
structure Sound (wire : LinkWire) (scope : LinkScope) (link : ScopedLink) : Prop where
  same : link.state.scope = scope
  allowed : ∀ direction, ∀ frame ∈ link.frames direction, Allowed wire scope direction frame
  remembered : ∀ direction, ∀ base ∈ (link.state.fragmented direction).passed,
    ∃ first ∈ link.frames direction, Packet.isFirstOf base (wire.packetOf first) = true

theorem Sound.carries {scope : LinkScope} (sound : link.Sound wire scope) (direction : Direction)
    {packet : NetworkPacket} (formed : wire.Formed (link.frames direction) packet) :
    scope.Carries wire direction packet := by
  intro kind name isPacket
  cases formed with
  | bare among typed other =>
    obtain ⟨p, decoded, allowed⟩ := sound.allowed direction _ among
    rw [LinkWire.packetOf_bare typed other, LinkWire.head_of_isPacket isPacket] at decoded
    cases decoded
    exact allowed _ _ _ _ rfl
  | whole among isLp carries one =>
    obtain ⟨p, decoded, allowed⟩ := sound.allowed direction _ among
    rw [LinkWire.packetOf_whole isLp carries one, LinkWire.head_of_isPacket isPacket] at decoded
    cases decoded
    exact allowed _ _ _ _ rfl
  | @reassembled frame bytes lp key parts among first zero later =>
    obtain ⟨p, decoded, allowed⟩ := sound.allowed direction _ among
    rw [LinkWire.packetOf_first first zero] at decoded
    obtain ⟨named, headed, rfl⟩ := Option.map_eq_some_iff.mp decoded
    -- The name is in the first fragment, or that would not have passed.
    have whole := LinkWire.head_append parts.flatten headed
    rw [LinkWire.head_of_isPacket isPacket] at whole
    cases whole
    exact allowed _ _ _ _ rfl

/-! ### Runs -/

/-- What is known of a frame that passes, and of the state after it. -/
structure Passes (wire : LinkWire) (link : ScopedLink) (direction : Direction) (frame : Bytes)
    (state : ScopeState) : Prop where
  same : state.scope = link.state.scope
  allowed : Allowed wire link.state.scope direction frame
  later : ∀ base, wire.packetOf frame = some (.laterFragment base) →
    base ∈ (link.state.fragmented direction).passed
  remembered : ∀ d, ∀ base ∈ (state.fragmented d).passed,
    base ∈ (link.state.fragmented d).passed ∨
      d = direction ∧ Packet.isFirstOf base (wire.packetOf frame) = true

theorem judge_passes {taken : ScopeState} {direction : Direction} {frame : Bytes} (now : Nat)
    (memory : ScopeState.SameMemory link.state taken) :
    let judged := taken.judge (wire.packetOf frame) direction now
    judged.2 ≠ .pass ∧ ScopeState.SameMemory link.state judged.1 ∨
      ∃ state, judged = (state, .pass) ∧ link.Passes wire direction frame state := by
  have kept {state : ScopeState} (same : ScopeState.SameMemory link.state state) (d : Direction)
      (base : Nat) (among : base ∈ (state.fragmented d).passed) :
      base ∈ (link.state.fragmented d).passed := by
    rwa [same.fragmented] at among
  rcases taken.judge_cases (wire.packetOf frame) direction now with
    ⟨fails, drops⟩ | ⟨only, same⟩ | ⟨base, later, among, same⟩ |
      ⟨kind, name, whole, firstOf, network, carried, named, same⟩
  · left
    refine ⟨fails, ?_⟩
    rw [drops]
    exact memory.trans .noteDrop
  all_goals right; rw [same]
  · refine ⟨taken, rfl, memory.scope, ⟨_, only, ?_⟩, ?_, ?_⟩
    · intro kind name whole firstOf impossible
      cases impossible
    · intro base impossible
      rw [only] at impossible
      cases impossible
    · exact fun d base among => Or.inl (kept memory d base among)
  · have memory' := memory.trans (.notePassed now)
    refine ⟨_, rfl, memory'.scope, ⟨_, later, ?_⟩, ?_, ?_⟩
    · intro kind name whole firstOf impossible
      cases impossible
    · intro other is
      rw [later] at is
      cases is
      exact kept memory direction base among
    · exact fun d base among => Or.inl (kept memory' d base among)
  · refine ⟨_, rfl, ?_, ⟨_, network, ?_⟩, ?_, ?_⟩
    · cases firstOf <;> cases direction <;> exact memory.scope
    · rintro _ _ _ _ ⟨⟩
      rw [← memory.scope]
      exact ⟨carried, named⟩
    · intro base impossible
      rw [network] at impossible
      cases impossible
    · intro d base among
      rw [(ScopeState.SameMemory.notePassed now).fragmented] at among
      rcases ScopeState.mem_rememberFirst among with old | ⟨rfl, rfl⟩
      · exact Or.inl (kept memory d base old)
      · right
        rw [network]
        simp [Packet.isFirstOf]

theorem judgeFrame_cases (wire : LinkWire) (link : ScopedLink) (direction : Direction)
    (frame : Bytes) : (link.judgeFrame wire direction frame).2 ≠ .pass ∧
        ScopeState.SameMemory link.state (link.judgeFrame wire direction frame).1 ∨
      ∃ state, link.judgeFrame wire direction frame = (state, .pass) ∧
        link.Passes wire direction frame state := by
  cases direction with
  | outbound => exact judge_passes link.now .refl
  | inbound =>
    have tokens : ScopeState.SameMemory link.state (link.state.takeTokens link.now).1 :=
      .takeTokens link.now
    change (link.state.received wire frame link.now).2 ≠ .pass ∧
        ScopeState.SameMemory link.state (link.state.received wire frame link.now).1 ∨
      ∃ state, link.state.received wire frame link.now = (state, .pass) ∧ _
    rcases link.state.received_cases wire frame link.now with
      ⟨only, same⟩ | ⟨_, ⟨_, same⟩ | ⟨_, same⟩⟩
    · have judged := @judge_passes wire link link.state .inbound frame link.now .refl
      rw [only] at judged
      rwa [same]
    · rw [same]
      exact Or.inl ⟨by simp, tokens.trans .noteDrop⟩
    · rw [same]
      exact judge_passes link.now tokens

namespace Sound

variable {scope : LinkScope}

theorem start (shared : Option SharedRate) (now : Nat) :
    (ScopedLink.start scope shared now).Sound wire scope := by
  refine ⟨rfl, ?_, ?_⟩
  · intro direction frame among
    cases among
  · intro direction base among
    cases direction <;> cases among

/-- The same frames have passed, and the same is remembered. -/
theorem congr {next : ScopedLink} (sound : link.Sound wire scope)
    (passed : next.passed = link.passed)
    (memory : ScopeState.SameMemory link.state next.state) : next.Sound wire scope := by
  have frames (direction : Direction) : next.frames direction = link.frames direction := by
    unfold ScopedLink.frames
    rw [passed]
  refine ⟨memory.scope.trans sound.same, ?_, ?_⟩
  · intro direction
    rw [frames]
    exact sound.allowed direction
  · intro direction base among
    rw [memory.fragmented] at among
    rw [frames]
    exact sound.remembered direction base among

/-- A frame passes that is allowed; what is remembered of it is a first fragment. -/
theorem push {state : ScopeState} {direction : Direction} {frame : Bytes}
    (sound : link.Sound wire scope) (same : state.scope = scope)
    (allowed : Allowed wire scope direction frame)
    (remembered : ∀ d, ∀ base ∈ (state.fragmented d).passed,
      base ∈ (link.state.fragmented d).passed ∨
        d = direction ∧ Packet.isFirstOf base (wire.packetOf frame) = true) :
    Sound wire scope ⟨state, link.now, link.passed ++ [(direction, frame)]⟩ := by
  have older {d : Direction} {f : Bytes} (among : f ∈ link.frames d) :
      f ∈ frames ⟨state, link.now, link.passed ++ [(direction, frame)]⟩ d := by
    unfold frames at among ⊢
    rw [filter_append, map_append]
    exact mem_append_left _ among
  have newest :
      frame ∈ frames ⟨state, link.now, link.passed ++ [(direction, frame)]⟩ direction := by
    unfold frames
    simp
  refine ⟨same, ?_, ?_⟩
  · intro d f among
    unfold frames at among
    rw [filter_append, map_append] at among
    rcases mem_append.mp among with old | new
    · exact sound.allowed d f old
    · by_cases equal : direction = d
      · rw [filter_cons_of_pos (by simpa using equal)] at new
        rw [← equal, mem_singleton.mp new]
        exact allowed
      · rw [filter_cons_of_neg (by simpa using equal)] at new
        cases new
  · intro d base among
    rcases remembered d base among with old | ⟨rfl, first⟩
    · obtain ⟨f, there, isFirst⟩ := sound.remembered d base old
      exact ⟨f, older there, isFirst⟩
    · exact ⟨frame, newest, first⟩

theorem frame (sound : link.Sound wire scope) (direction : Direction) (frame : Bytes) :
    (link.step wire (.frame direction frame)).Sound wire scope := by
  rcases judgeFrame_cases wire link direction frame with ⟨fails, memory⟩ | ⟨state, same, passes⟩
  · exact sound.congr (if_neg fails) memory
  · have stepped : link.step wire (.frame direction frame) =
        ⟨state, link.now, link.passed ++ [(direction, frame)]⟩ := by
      unfold ScopedLink.step
      simp [same]
    rw [stepped]
    have allowed := passes.allowed
    rw [sound.same] at allowed
    exact sound.push (passes.same.trans sound.same) allowed passes.remembered

theorem step (sound : link.Sound wire scope) (action : ScopeAction) :
    (link.step wire action).Sound wire scope := by
  cases action with
  | wait nanos => exact sound.congr rfl .refl
  | frame direction frame => exact sound.frame direction frame
  | otherLink => exact sound.congr rfl (.takeShared link.now)

theorem judgesFrame (sound : link.Sound wire scope) (action : ScopeAction) :
    link.JudgesFrame wire action := by
  cases action with
  | wait nanos => trivial
  | otherLink => trivial
  | frame direction frame =>
    constructor
    · intro base later passed
      rcases judgeFrame_cases wire link direction frame with ⟨fails, _⟩ | ⟨state, _, passes⟩
      · exact absurd passed fails
      · exact sound.remembered direction base (passes.later base later)
    · intro only
      cases direction with
      | inbound =>
        change link.state.received wire frame link.now = _
        unfold ScopeState.received
        rw [only]
        rfl
      | outbound =>
        change link.state.sending wire frame link.now = _
        unfold ScopeState.sending
        rw [only]
        rfl

end Sound

/-! ### Tokens -/

def tokenCost (passed : Bool) : ℚ := if passed then 1 else 0

theorem tokenCost_nonneg (passed : Bool) : 0 ≤ tokenCost passed := by
  cases passed <;> simp [tokenCost]

theorem tokenCost_le_one (passed : Bool) : tokenCost passed ≤ 1 := by
  cases passed <;> simp [tokenCost]

/-- What a step takes from the link's bucket and from the one it shares. -/
structure Costs (now : Nat) (state : ScopeState) (own shared : ℚ) (next : ScopeState) : Prop where
  same : next.scope.rate = state.scope.rate
  own : next.bucket.level now + own ≤ state.bucket.level now
  rates : next.shared.map SharedRate.rate = state.shared.map SharedRate.rate
  shared : ∀ rate ∈ next.shared, ∃ rate' ∈ state.shared, rate.rate = rate'.rate ∧
    rate.bucket.level now + shared ≤ rate'.bucket.level now

namespace Costs

variable {now : Nat} {state next : ScopeState} {own shared : ℚ}

theorem free (scope : next.scope.rate = state.scope.rate)
    (level : next.bucket.level now = state.bucket.level now) (same : next.shared = state.shared) :
    Costs now state 0 0 next := by
  refine ⟨scope, ?_, by rw [same], ?_⟩
  · rw [level, add_zero]
  · intro rate among
    rw [same] at among
    exact ⟨rate, among, rfl, (add_zero _).le⟩

theorem trans {middle : ScopeState} {own' shared' : ℚ} (first : Costs now state own shared middle)
    (second : Costs now middle own' shared' next) :
    Costs now state (own + own') (shared + shared') next := by
  refine ⟨second.same.trans first.same, ?_, second.rates.trans first.rates, ?_⟩
  · linarith [first.own, second.own]
  · intro rate among
    obtain ⟨rate', among', same', cheaper'⟩ := second.shared rate among
    obtain ⟨rate'', among'', same'', cheaper''⟩ := first.shared rate' among'
    exact ⟨rate'', among'', same'.trans same'', by linarith⟩

theorem mono {own' shared' : ℚ} (costs : Costs now state own shared next) (lessOwn : own' ≤ own)
    (lessShared : shared' ≤ shared) : Costs now state own' shared' next := by
  refine ⟨costs.same, by linarith [costs.own], costs.rates, ?_⟩
  intro rate among
  obtain ⟨rate', among', same', cheaper⟩ := costs.shared rate among
  exact ⟨rate', among', same', by linarith⟩

theorem takeToken (now : Nat) (state : ScopeState) :
    Costs now state (tokenCost (state.bucket.take now).2) 0 (state.takeToken now).1 := by
  refine ⟨rfl, (state.bucket.level_take now).le, rfl, ?_⟩
  intro rate among
  exact ⟨rate, among, rfl, (add_zero _).le⟩

theorem takeShared (now : Nat) (state : ScopeState) :
    Costs now state 0 (tokenCost (state.takeShared now).2) (state.takeShared now).1 := by
  unfold ScopeState.takeShared
  cases among : state.shared with
  | none =>
    refine ⟨rfl, (add_zero _).le, rfl, ?_⟩
    intro rate shared
    rw [among] at shared
    cases shared
  | some rate =>
    refine ⟨rfl, (add_zero _).le, by rw [among]; rfl, ?_⟩
    rintro _ ⟨⟩
    exact ⟨rate, among, rfl, (rate.bucket.level_take now).le⟩

/-- A frame that both buckets let through costs a token of each. -/
theorem takeTokens (now : Nat) (state : ScopeState) :
    Costs now state (tokenCost (state.takeTokens now).2) (tokenCost (state.takeTokens now).2)
      (state.takeTokens now).1 := by
  have first := takeToken now state
  rcases state.takeTokens_cases now with ⟨took, same⟩ | ⟨took, same⟩
  · rw [same]
    rwa [took] at first
  · rw [same]
    rw [took] at first
    apply (first.trans (takeShared now _)).mono
    · rw [add_zero]
      exact tokenCost_le_one _
    · rw [zero_add]

theorem judge (now : Nat) (state : ScopeState) (packet : Option Packet) (direction : Direction) :
    Costs now state 0 0 (state.judge packet direction now).1 := by
  rcases state.judge_cases packet direction now with
    ⟨_, drops⟩ | ⟨_, same⟩ | ⟨_, _, _, same⟩ | ⟨_, _, _, firstOf, _, _, _, same⟩
  · rw [drops]
    exact free rfl rfl rfl
  · rw [same]
    exact free rfl rfl rfl
  · rw [same]
    exact free rfl rfl rfl
  · rw [same]
    cases firstOf <;> cases direction <;> exact free rfl rfl rfl

end Costs

/-- A frame that the scope takes a token for. -/
def isCounted (wire : LinkWire) (direction : Direction) (frame : Bytes) : Bool :=
  direction = .inbound && !Packet.isLinkOnly (wire.packetOf frame)

theorem Costs.judgeFrame (wire : LinkWire) (link : ScopedLink) (direction : Direction)
    (frame : Bytes) :
    let judged := link.judgeFrame wire direction frame
    let cost := tokenCost (judged.2 = .pass && isCounted wire direction frame)
    Costs link.now link.state cost cost judged.1 := by
  cases direction with
  | outbound =>
    apply (Costs.judge link.now link.state (wire.packetOf frame) .outbound).mono
    · simp [tokenCost, isCounted]
    · simp [tokenCost, isCounted]
  | inbound =>
    have tokens := Costs.takeTokens link.now link.state
    change Costs link.now link.state
      (tokenCost ((link.state.received wire frame link.now).2 = .pass &&
        isCounted wire .inbound frame))
      (tokenCost ((link.state.received wire frame link.now).2 = .pass &&
        isCounted wire .inbound frame)) (link.state.received wire frame link.now).1
    rcases link.state.received_cases wire frame link.now with
      ⟨only, same⟩ | ⟨_, ⟨took, same⟩ | ⟨took, same⟩⟩
    · rw [same]
      apply (Costs.free rfl rfl rfl).mono
      · simp [tokenCost, isCounted, only, Packet.isLinkOnly]
      · simp [tokenCost, isCounted, only, Packet.isLinkOnly]
    · rw [same]
      rw [took] at tokens
      have noted : Costs link.now (link.state.takeTokens link.now).1 0 0
          (link.state.takeTokens link.now).1.noteDrop := Costs.free rfl rfl rfl
      apply (tokens.trans noted).mono
      · simp [tokenCost]
      · simp [tokenCost]
    · rw [same]
      rw [took] at tokens
      apply (tokens.trans (Costs.judge link.now _ (wire.packetOf frame) .inbound)).mono
      · rw [add_zero]
        exact tokenCost_le_one _
      · rw [add_zero]
        exact tokenCost_le_one _

/-- The tokens that the frames which passed have cost, and those there are, came from the burst and
the refill since. -/
structure Charged (wire : LinkWire) (begin : Nat) (rates : Option RateLimit) (link : ScopedLink) :
    Prop where
  began : begin ≤ link.now
  rates : link.state.shared.map SharedRate.rate = rates
  own : link.counted wire + link.state.bucket.level link.now ≤
    link.state.scope.rate.burst + (link.now - begin : Nat) * link.state.scope.rate.perNano
  shared : ∀ rate ∈ link.state.shared, link.counted wire + rate.bucket.level link.now ≤
    rate.rate.burst + (link.now - begin : Nat) * rate.rate.perNano

namespace Charged

variable {begin : Nat} {rates : Option RateLimit}

theorem start (scope : LinkScope) (shared : Option SharedRate) :
    (ScopedLink.start scope shared begin).Charged wire begin (shared.map SharedRate.rate) := by
  refine ⟨le_rfl, rfl, ?_, ?_⟩
  · simpa [ScopedLink.start, counted] using Bucket.level_le_burst _ begin
  · intro rate among
    simpa [ScopedLink.start, counted] using rate.bucket.level_le_burst begin

theorem wait (charged : link.Charged wire begin rates) (nanos : Nat) :
    (link.step wire (.wait nanos)).Charged wire begin rates := by
  have began := charged.began
  have later : link.now + nanos - begin = link.now - begin + nanos := by omega
  refine ⟨Nat.le_add_right_of_le began, charged.rates, ?_, ?_⟩
  · have waited := link.state.bucket.level_wait link.now nanos
    have before := charged.own
    change (link.counted wire : ℚ) + link.state.bucket.level (link.now + nanos) ≤
      link.state.scope.rate.burst +
        (link.now + nanos - begin : Nat) * link.state.scope.rate.perNano
    rw [later, Nat.cast_add, add_mul]
    linarith
  · intro rate among
    have waited := rate.bucket.level_wait link.now nanos
    have before := charged.shared rate among
    change (link.counted wire : ℚ) + rate.bucket.level (link.now + nanos) ≤
      rate.rate.burst + (link.now + nanos - begin : Nat) * rate.rate.perNano
    rw [later, Nat.cast_add, add_mul]
    linarith

/-- A step in which a frame passes for what it costs. -/
theorem spend {next : ScopedLink} {cost : ℚ} (charged : link.Charged wire begin rates)
    (now : next.now = link.now) (costs : Costs link.now link.state cost cost next.state)
    (counts : (next.counted wire : ℚ) ≤ link.counted wire + cost) :
    next.Charged wire begin rates := by
  refine ⟨by rw [now]; exact charged.began, costs.rates.trans charged.rates, ?_, ?_⟩
  · have burst : (next.state.scope.rate.burst : ℚ) = link.state.scope.rate.burst := by
      rw [costs.same]
    have refill : next.state.scope.rate.perNano = link.state.scope.rate.perNano := by
      rw [costs.same]
    rw [now, burst, refill]
    linarith [charged.own, costs.own]
  · intro rate among
    obtain ⟨rate', among', same, cheaper⟩ := costs.shared rate among
    have before := charged.shared rate' among'
    have burst : (rate.rate.burst : ℚ) = rate'.rate.burst := by rw [same]
    have refill : rate.rate.perNano = rate'.rate.perNano := by rw [same]
    rw [now, burst, refill]
    linarith

theorem step (charged : link.Charged wire begin rates) (action : ScopeAction) :
    (link.step wire action).Charged wire begin rates := by
  cases action with
  | wait nanos => exact charged.wait nanos
  | otherLink =>
    refine charged.spend rfl ((Costs.takeShared link.now link.state).mono le_rfl ?_) ?_
    · exact tokenCost_nonneg _
    · rw [add_zero]
      rfl
  | frame direction frame =>
    refine charged.spend rfl (Costs.judgeFrame wire link direction frame) ?_
    unfold ScopedLink.step counted
    dsimp only
    by_cases passes : (link.judgeFrame wire direction frame).2 = .pass
    · rw [if_pos passes, countP_append, countP_singleton]
      simp [passes, isCounted, tokenCost]
    · rw [if_neg passes]
      simp [passes, tokenCost]

end Charged

theorem Charged.bounded {begin : Nat} {scope : LinkScope} {shared : Option SharedRate}
    (charged : link.Charged wire begin (shared.map SharedRate.rate))
    (same : link.state.scope = scope) :
    link.Bounded wire begin scope.rate ∧ ∀ rate ∈ shared, link.Bounded wire begin rate.rate := by
  constructor
  · have nonneg := link.state.bucket.level_nonneg link.now
    unfold Bounded
    rw [← same]
    linarith [charged.own]
  · intro rate among
    have held := charged.rates
    rw [among, Option.map_some] at held
    obtain ⟨rate', there, same'⟩ := Option.map_eq_some_iff.mp held
    have nonneg := rate'.bucket.level_nonneg link.now
    unfold Bounded
    rw [← same']
    linarith [charged.shared rate' there]

/-- Nothing outside the scope can be made of what crosses the link, and no more packets cross it
than its rates allow. -/
theorem carries_nothing_else (wire : LinkWire) (scope : LinkScope) (shared : Option SharedRate)
    (begin : Nat) (actions : List ScopeAction) :
    let first := start scope shared begin
    let link := actions.foldl (step wire) first
    (∀ direction packet, wire.Formed (link.frames direction) packet →
      scope.Carries wire direction packet) ∧
      Run.Throughout (step wire) first actions (fun link action => link.JudgesFrame wire action) ∧
      link.Bounded wire begin scope.rate ∧ ∀ rate ∈ shared, link.Bounded wire begin rate.rate := by
  have sound (actions : List ScopeAction) :
      (actions.foldl (step wire) (start scope shared begin)).Sound wire scope :=
    List.foldlRecOn actions (step wire) (Sound.start shared begin)
      fun _ sound action _ => sound.step action
  have charged := List.foldlRecOn actions (step wire)
    (@Charged.start wire begin scope shared)
      fun _ charged action _ => charged.step action
  refine ⟨fun direction packet => (sound actions).carries direction, ?_,
    charged.bounded (sound actions).same⟩
  intro earlier action later _
  exact (sound earlier).judgesFrame action

end ScopedLink

/-! ### A fragmented Interest -/

namespace Enrollment

open ScopedLink

def fields : Nat → Bytes → Option (List (Nat × Bytes))
  | _, [] => some []
  | 0, _ => none
  | fuel + 1, bytes =>
    match NdnTlv.readTlv bytes with
    | .ok (typ, value, rest) => (fields fuel rest).map fun later => (typ, value) :: later
    | .error _ => none

def field (found : List (Nat × Bytes)) (typ : Nat) : Option Bytes :=
  (found.find? fun typed => typed.1 = typ).map Prod.snd

def decodeLp (frame : Bytes) : Option LpPacket :=
  match NdnTlv.readTlv frame with
  | .ok (_, value, _) => (fields value.length value).map fun found =>
    { fragment := field found 0x50
      sequence := (field found 0x51).map Lib.ofBe
      fragIndex := (field found 0x52).map Lib.ofBe
      fragCount := (field found 0x53).map Lib.ofBe
      nack := (field found 0x320).map fun _ => 150 }
  | .error _ => none

def wire : LinkWire where
  toVarNumbers := NdnTlv.varNumbers
  decodeLp := decodeLp
  decodeName bytes := (fields bytes.length bytes).map fun found =>
    ⟨found.map fun typed => ⟨typed.1, typed.2⟩⟩

def home : Name := ⟨[.generic [104]]⟩

def scope : LinkScope := ⟨.interests, .answers, fun name => name = home, ⟨4, 1⟩⟩

/-- The Interest of the home's name in two fragments. -/
def first : Bytes := [100, 18, 81, 1, 10, 82, 1, 0, 83, 1, 2, 80, 7, 5, 7, 7, 3, 8, 1, 104]

def second : Bytes := [100, 13, 81, 1, 11, 82, 1, 1, 83, 1, 2, 80, 2, 18, 0]

def actions : List ScopeAction := [.frame .inbound first, .frame .inbound second]

theorem fragmented_interest_is_carried : scope.receives.carry .interest = true ∧
    scope.names home = true := by
  have formed : wire.Formed
      ((actions.foldl (step wire) (start scope none 0)).frames .inbound)
      ⟨false, [5, 7, 7, 3, 8, 1, 104] ++ [[18, 0]].flatten⟩ := by
    refine @LinkWire.Formed.reassembled wire _ first _ ⟨some [5, 7, 7, 3, 8, 1, 104], some 10,
      some 0, some 2, none⟩ 10 _ (by decide +kernel) ?_ rfl ?_
    · exact ⟨⟨⟨(100, 1), rfl, rfl⟩, rfl⟩, by decide, rfl, 10, rfl, rfl⟩
    · intro part among
      rw [List.mem_singleton.mp among]
      exact ⟨second, by decide +kernel, ⟨some [18, 0], some 11, some 1, some 2, none⟩,
        ⟨⟨(100, 1), rfl, rfl⟩, rfl⟩, by decide, rfl, 11, rfl, rfl⟩
  exact (carries_nothing_else wire scope none 0 actions).1 .inbound _ formed .interest home
    ⟨interestType, [7, 3, 8, 1, 104, 18, 0], [8, 1, 104], rfl, rfl, rfl, rfl⟩

end Enrollment

end NdnExt.Quic
