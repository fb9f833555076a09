import Mathlib.Tactic.Linarith
import Mathlib.Tactic.Positivity
import NdnExt.Packet.VarNumber

/-! What a scoped link carries. -/

namespace NdnExt.Quic

abbrev Bytes := List UInt8

/-- Which packets one direction of a scoped link carries. -/
inductive Carries where
  | interests
  | answers
  | everything
  deriving DecidableEq

structure RateLimit where
  burst : Nat
  perSec : Nat

def RateLimit.perNano (rate : RateLimit) : ℚ := rate.perSec / 10 ^ 9

/-- Times are in nanoseconds, tokens an exact number in place of an `f64`. -/
structure Bucket (rate : RateLimit) where
  tokens : ℚ
  takenAt : Nat
  nonneg : 0 ≤ tokens
  within : tokens ≤ rate.burst

namespace Bucket

variable {rate : RateLimit}

def full (rate : RateLimit) (now : Nat) : Bucket rate :=
  ⟨rate.burst, now, Nat.cast_nonneg _, le_rfl⟩

/-- The tokens there are once the bucket is refilled. -/
def level (bucket : Bucket rate) (now : Nat) : ℚ :=
  min (bucket.tokens + (now - bucket.takenAt : Nat) * rate.perNano) rate.burst

theorem level_nonneg (bucket : Bucket rate) (now : Nat) : 0 ≤ bucket.level now := by
  have nonneg := bucket.nonneg
  apply le_min
  · unfold RateLimit.perNano
    positivity
  · positivity

theorem level_le_burst (bucket : Bucket rate) (now : Nat) : bucket.level now ≤ rate.burst :=
  min_le_right _ _

/-- Refill for the time since the last take, then take a token if there is one. -/
def take (bucket : Bucket rate) (now : Nat) : Bucket rate × Bool :=
  if one : 1 ≤ bucket.level now then
    (⟨bucket.level now - 1, now, sub_nonneg.mpr one,
      (sub_le_self _ zero_le_one).trans (bucket.level_le_burst now)⟩, true)
  else (⟨bucket.level now, now, bucket.level_nonneg now, bucket.level_le_burst now⟩, false)

theorem level_of_takenAt {bucket : Bucket rate} {now : Nat} (same : bucket.takenAt = now) :
    bucket.level now = bucket.tokens := by
  unfold level
  rw [same, Nat.sub_self, Nat.cast_zero, zero_mul, add_zero]
  exact min_eq_left bucket.within

/-- A take that succeeds costs one token. -/
theorem level_take (bucket : Bucket rate) (now : Nat) :
    (bucket.take now).1.level now + (if (bucket.take now).2 then 1 else 0) = bucket.level now := by
  unfold take
  split
  · rw [level_of_takenAt rfl]
    simp
  · rw [level_of_takenAt rfl]
    simp

theorem level_wait (bucket : Bucket rate) (now nanos : Nat) :
    bucket.level (now + nanos) ≤ bucket.level now + nanos * rate.perNano := by
  have rate_nonneg : 0 ≤ rate.perNano := by
    unfold RateLimit.perNano
    positivity
  have longer : now + nanos - bucket.takenAt ≤ now - bucket.takenAt + nanos := by omega
  have refill : ((now + nanos - bucket.takenAt : Nat) : ℚ) * rate.perNano ≤
      (now - bucket.takenAt : Nat) * rate.perNano + nanos * rate.perNano := by
    rw [← add_mul, ← Nat.cast_add]
    exact mul_le_mul_of_nonneg_right (Nat.cast_le.mpr longer) rate_nonneg
  have waited : 0 ≤ nanos * rate.perNano := by positivity
  unfold level
  rw [← min_add_add_right]
  apply min_le_min
  · linarith
  · linarith

end Bucket

/-- One rate bucket shared by several links. -/
structure SharedRate where
  rate : RateLimit
  bucket : Bucket rate

structure LinkScope where
  receives : Carries
  sends : Carries
  names : Name → Bool
  rate : RateLimit

/-- What a scope did with a frame: dropped, it may be an Interest to Nack. -/
inductive Judged where
  | pass
  | drop (interest : Option Bytes)
  deriving DecidableEq

/-- How many fragmented packets in flight a scope remembers the verdict of. -/
def rememberedFragmented : Nat := 32

/-- The fragmented packets of one direction that passed, by the sequence of their first fragment. -/
structure Fragmented where
  passed : List Nat

def Fragmented.remember (fragmented : Fragmented) (base : Nat) : Fragmented :=
  ⟨(if fragmented.passed.length = rememberedFragmented then fragmented.passed.tail
    else fragmented.passed) ++ [base]⟩

/-! ### What a frame carries -/

structure LpPacket where
  fragment : Option Bytes
  sequence : Option Nat
  fragIndex : Option Nat
  fragCount : Option Nat
  nack : Option Nat

/-- With the decoders of frames and of names, from `ndn_packet`. -/
structure LinkWire extends VarNumbers where
  decodeLp : Bytes → Option LpPacket
  decodeName : Bytes → Option Name

inductive Kind where
  | interest
  | data
  | nack
  deriving DecidableEq

/-- `base` is the sequence of a packet's first fragment. -/
inductive Packet where
  | linkOnly
  | network (kind : Kind) (name : Name) (whole : Option Bytes) (firstOf : Option Nat)
  | laterFragment (base : Nat)

def lpPacketType : Nat := 0x64

def interestType : Nat := 0x05

def dataType : Nat := 0x06

def nameType : Nat := 0x07

def Kind.ofType (t : Nat) : Option Kind :=
  if t = interestType then some .interest else if t = dataType then some .data else none

def sliceFrom (bytes : Bytes) (start : Nat) : Option Bytes :=
  if start ≤ bytes.length then some (bytes.drop start) else none

def slice (bytes : Bytes) (start stop : Nat) : Option Bytes :=
  if start ≤ stop ∧ stop ≤ bytes.length then some ((bytes.drop start).take (stop - start)) else none

namespace LinkWire

variable (wire : LinkWire)

/-- The kind and name at the head of a network packet, or of its first fragment. -/
def head (packet : Bytes) : Option (Kind × Name) := do
  let t ← wire.readVaru64 packet
  let kind ← Kind.ofType t.1
  let len ← wire.readVaru64 (← sliceFrom packet t.2)
  let rest ← sliceFrom packet (t.2 + len.2)
  let nt ← wire.readVaru64 rest
  guard (nt.1 = nameType)
  let nl ← wire.readVaru64 (← sliceFrom rest nt.2)
  let start := nt.2 + nl.2
  let value ← slice rest start (start + nl.1)
  let name ← wire.decodeName value
  return (kind, name)

def kindOf (lp : LpPacket) (kind : Kind) : Kind := if lp.nack.isSome then .nack else kind

def packetOf (frame : Bytes) : Option Packet := do
  let t ← wire.readVaru64 frame
  if t.1 ≠ lpPacketType then
    let named ← wire.head frame
    return .network named.1 named.2 (some frame) none
  let lp ← wire.decodeLp frame
  match lp.fragment with
  | none => return .linkOnly
  | some fragment =>
    let count := lp.fragCount.getD 1
    let index := lp.fragIndex.getD 0
    if 1 < count then
      let sequence ← lp.sequence
      guard (index ≤ sequence)
      let base := sequence - index
      if 0 < index then return .laterFragment base
      let named ← wire.head fragment
      return .network (kindOf lp named.1) named.2 none (some base)
    else
      let named ← wire.head fragment
      return .network (kindOf lp named.1) named.2 (some fragment) none

end LinkWire

/-! ### A scope at work -/

inductive Direction where
  | inbound
  | outbound
  deriving DecidableEq

/-- `shared` is what the scope's `Arc` points to, `lastPassedMs` is since `started`. -/
structure ScopeState where
  scope : LinkScope
  shared : Option SharedRate
  inbound : Fragmented
  outbound : Fragmented
  bucket : Bucket scope.rate
  started : Nat
  lastPassedMs : Nat
  dropped : Nat

def Carries.carry : Carries → Kind → Bool
  | .interests, kind => kind = .interest
  | .answers, kind => kind ≠ .interest
  | .everything, _ => true

def LinkScope.carries (scope : LinkScope) : Direction → Carries
  | .inbound => scope.receives
  | .outbound => scope.sends

namespace ScopeState

def new (scope : LinkScope) (shared : Option SharedRate) (now : Nat) : ScopeState where
  scope := scope
  shared := shared
  inbound := ⟨[]⟩
  outbound := ⟨[]⟩
  bucket := .full scope.rate now
  started := now
  lastPassedMs := 0
  dropped := 0

variable (state : ScopeState)

def fragmented : Direction → Fragmented
  | .inbound => state.inbound
  | .outbound => state.outbound

def remember (base : Nat) : Direction → ScopeState
  | .inbound => { state with inbound := state.inbound.remember base }
  | .outbound => { state with outbound := state.outbound.remember base }

def rememberFirst (firstOf : Option Nat) (direction : Direction) : ScopeState :=
  match firstOf with
  | some base => state.remember base direction
  | none => state

def noteDrop : ScopeState := { state with dropped := state.dropped + 1 }

def notePassed (now : Nat) : ScopeState :=
  { state with lastPassedMs := min ((now - state.started) / 10 ^ 6) (2 ^ 64 - 1) }

/-- How long the scope has passed no packet. -/
def idleFor (now : Nat) : Nat := (now - state.started) - state.lastPassedMs * 10 ^ 6

def judge (packet : Option Packet) (direction : Direction) (now : Nat) : ScopeState × Judged :=
  match packet with
  | none => (state.noteDrop, .drop none)
  | some .linkOnly => (state, .pass)
  | some (.laterFragment base) =>
    if base ∈ (state.fragmented direction).passed then (state.notePassed now, .pass)
    else (state.noteDrop, .drop none)
  | some (.network kind name whole firstOf) =>
    if (state.scope.carries direction).carry kind && state.scope.names name then
      ((state.rememberFirst firstOf direction).notePassed now, .pass)
    else (state.noteDrop, .drop (whole.filter fun _ => kind = .interest))

def takeToken (now : Nat) : ScopeState × Bool :=
  let taken := state.bucket.take now
  ({ state with bucket := taken.1 }, taken.2)

def takeShared (now : Nat) : ScopeState × Bool :=
  match state.shared with
  | none => (state, true)
  | some shared =>
    let taken := shared.bucket.take now
    ({ state with shared := some ⟨shared.rate, taken.1⟩ }, taken.2)

/-- The link's bucket is asked first, then the one it shares. -/
def takeTokens (now : Nat) : ScopeState × Bool :=
  let own := state.takeToken now
  if own.2 then own.1.takeShared now else own

/-- Judge a frame the peer sent. -/
def received (wire : LinkWire) (frame : Bytes) (now : Nat) : ScopeState × Judged :=
  match wire.packetOf frame with
  | some .linkOnly => state.judge (some .linkOnly) .inbound now
  | packet =>
    let taken := state.takeTokens now
    if taken.2 then taken.1.judge packet .inbound now else (taken.1.noteDrop, .drop none)

/-- Judge a frame this side would send. -/
def sending (wire : LinkWire) (frame : Bytes) (now : Nat) : ScopeState × Judged :=
  state.judge (wire.packetOf frame) .outbound now

theorem mem_rememberFirst {state : ScopeState} {firstOf : Option Nat} {direction d : Direction}
    {base : Nat} (among : base ∈ ((state.rememberFirst firstOf direction).fragmented d).passed) :
    base ∈ (state.fragmented d).passed ∨ d = direction ∧ firstOf = some base := by
  cases firstOf with
  | none => exact Or.inl among
  | some first =>
    have remembered {fragmented : Fragmented}
        (among : base ∈ (fragmented.remember first).passed) :
        base ∈ fragmented.passed ∨ some first = some base := by
      rcases List.mem_append.mp among with old | new
      · split at old
        · exact Or.inl (List.mem_of_mem_tail old)
        · exact Or.inl old
      · exact Or.inr (congrArg some (List.mem_singleton.mp new).symm)
    cases d <;> cases direction
    · exact (remembered among).imp_right fun same => ⟨rfl, same⟩
    · exact Or.inl among
    · exact Or.inl among
    · exact (remembered among).imp_right fun same => ⟨rfl, same⟩

theorem judge_cases (packet : Option Packet) (direction : Direction) (now : Nat) :
    (state.judge packet direction now).2 ≠ .pass ∧
        (state.judge packet direction now).1 = state.noteDrop ∨
      packet = some .linkOnly ∧ state.judge packet direction now = (state, .pass) ∨
      (∃ base, packet = some (.laterFragment base) ∧ base ∈ (state.fragmented direction).passed ∧
        state.judge packet direction now = (state.notePassed now, .pass)) ∨
      ∃ kind name whole firstOf, packet = some (.network kind name whole firstOf) ∧
        (state.scope.carries direction).carry kind = true ∧ state.scope.names name = true ∧
        state.judge packet direction now =
          ((state.rememberFirst firstOf direction).notePassed now, .pass) := by
  unfold judge
  split
  · left
    simp
  · simp
  · next base =>
    split
    · next among =>
      right; right; left
      exact ⟨base, rfl, among, rfl⟩
    · left
      simp
  · next kind name whole firstOf =>
    split
    · next carried =>
      rw [Bool.and_eq_true] at carried
      right; right; right
      exact ⟨kind, name, whole, firstOf, rfl, carried.1, carried.2, rfl⟩
    · left
      simp

theorem takeTokens_cases (now : Nat) :
    (state.bucket.take now).2 = false ∧
        state.takeTokens now = ((state.takeToken now).1, false) ∨
      (state.bucket.take now).2 = true ∧
        state.takeTokens now = (state.takeToken now).1.takeShared now := by
  unfold takeTokens
  dsimp only
  split
  · next took => exact Or.inr ⟨took, rfl⟩
  · next empty =>
    have none' := Bool.eq_false_of_not_eq_true empty
    exact Or.inl ⟨none', Prod.ext rfl none'⟩

theorem received_cases (wire : LinkWire) (frame : Bytes) (now : Nat) :
    wire.packetOf frame = some .linkOnly ∧ state.received wire frame now = (state, .pass) ∨
      wire.packetOf frame ≠ some .linkOnly ∧
        ((state.takeTokens now).2 = false ∧
            state.received wire frame now = ((state.takeTokens now).1.noteDrop, .drop none) ∨
          (state.takeTokens now).2 = true ∧ state.received wire frame now =
            (state.takeTokens now).1.judge (wire.packetOf frame) .inbound now) := by
  unfold received
  split
  · next only => exact Or.inl ⟨only, rfl⟩
  · next other =>
    right
    refine ⟨other, ?_⟩
    cases taken : (state.takeTokens now).2 with
    | false => simp [taken]
    | true => simp [taken]

/-! What a step keeps of the scope and of the memory of fragments. -/

structure SameMemory (state next : ScopeState) : Prop where
  scope : next.scope = state.scope
  fragmented : ∀ direction, next.fragmented direction = state.fragmented direction

namespace SameMemory

variable {state}

theorem refl : SameMemory state state := ⟨rfl, fun _ => rfl⟩

theorem trans {middle next : ScopeState} (first : SameMemory state middle)
    (second : SameMemory middle next) : SameMemory state next :=
  ⟨second.scope.trans first.scope,
    fun direction => (second.fragmented direction).trans (first.fragmented direction)⟩

theorem noteDrop : SameMemory state state.noteDrop :=
  ⟨rfl, fun direction => by cases direction <;> rfl⟩

theorem notePassed (now : Nat) : SameMemory state (state.notePassed now) :=
  ⟨rfl, fun direction => by cases direction <;> rfl⟩

theorem takeToken (now : Nat) : SameMemory state (state.takeToken now).1 :=
  ⟨rfl, fun direction => by cases direction <;> rfl⟩

theorem takeShared (now : Nat) : SameMemory state (state.takeShared now).1 := by
  unfold ScopeState.takeShared
  split
  · exact refl
  · exact ⟨rfl, fun direction => by cases direction <;> rfl⟩

theorem takeTokens (now : Nat) : SameMemory state (state.takeTokens now).1 := by
  unfold ScopeState.takeTokens
  dsimp only
  split
  · exact (takeToken now).trans (takeShared now)
  · exact takeToken now

end SameMemory

end ScopeState
end NdnExt.Quic
