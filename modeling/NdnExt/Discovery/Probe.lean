import NdnExt.Lib.BigEndian
import NdnExt.Lib.HashMap
import NdnExt.Lib.Run
import NdnExt.Packet.Name

/-! The probing of neighbours: one thread ticks, others bring in replies. -/

namespace NdnExt.Discovery

open NdnExt.Lib NdnExt.Lib.Run

/-- A moment of the clock, in nanoseconds. -/
abbrev Instant := Int

def probeTimeout : Int := 5000000000

structure ProbeEntry where
  lastProbe : Instant
  pendingNonce : Option (UInt32 × Instant)
  missCount : UInt8
  deriving DecidableEq

structure ProbeState where
  nonceCounter : UInt32
  entries : HashMap Name ProbeEntry

structure ProbeConfig where
  probePing : Name
  probeInterval : Int
  missLimit : UInt8

/-- What is said of a neighbour. -/
inductive NeighborVerdict where
  | established
  | stale (missCount : UInt8)
  deriving DecidableEq

def durationSince (now earlier : Instant) : Int := max 0 (now - earlier)

namespace ProbeState

def entry (st : ProbeState) (cfg : ProbeConfig) (now : Instant) (n : Name) : ProbeEntry :=
  (st.entries.lookup n).getD ⟨now - cfg.probeInterval, none, 0⟩

/-- What a tick decides for a neighbour under the lock. -/
inductive Decision where
  | timeOut (missCount : UInt8)
  | probe
  | wait
  deriving DecidableEq

def saturatingSucc (count : UInt8) : UInt8 := if count = 255 then 255 else count + 1

def decide' (st : ProbeState) (cfg : ProbeConfig) (now : Instant) (n : Name) :
    ProbeState × Decision :=
  let e := st.entry cfg now n
  if e.pendingNonce.any fun pending => decide (durationSince now pending.2 ≥ probeTimeout) then
    let miss := saturatingSucc e.missCount
    ({ st with entries := st.entries.insert n { e with pendingNonce := none, missCount := miss } },
      .timeOut miss)
  else if e.pendingNonce.isNone && decide (durationSince now e.lastProbe ≥ cfg.probeInterval) then
    ({ st with entries := st.entries.insert n { e with lastProbe := now } }, .probe)
  else ({ st with entries := st.entries.insert n e }, .wait)

def nextNonce (st : ProbeState) : ProbeState × UInt32 :=
  let nonce := st.nonceCounter + 1
  ({ st with nonceCounter := nonce }, nonce)

/-- The nonce of a probe that went out. -/
def record (st : ProbeState) (n : Name) (nonce : UInt32) (now : Instant) : ProbeState :=
  match st.entries.lookup n with
  | none => st
  | some e => { st with entries := st.entries.insert n { e with pendingNonce := some (nonce, now) } }

/-- The neighbour and the nonce that the name of a reply carries. -/
def replyOf (cfg : ProbeConfig) (name : Name) : Option (Name × UInt32) :=
  let depth := cfg.probePing.components.length
  if !cfg.probePing.components.isPrefixOf name.components then none
  else if name.components.length ≤ depth + 1 then none
  else
    (name.components.getLast?).bind fun last =>
      if last.value.length ≠ 4 then none
      else some (⟨(name.components.drop depth).dropLast⟩, UInt32.ofNat (ofBe last.value))

/-- A reply: the neighbour is established where it carries the pending nonce. -/
def reply (st : ProbeState) (n : Name) (nonce : UInt32) : ProbeState × Bool :=
  match st.entries.lookup n with
  | none => (st, false)
  | some e =>
    match e.pendingNonce with
    | some (pending, _) =>
      if pending = nonce then
        ({ st with entries := st.entries.insert n { e with pendingNonce := none, missCount := 0 } },
          true)
      else (st, false)
    | none => (st, false)

end ProbeState

/-! ### The threads -/

/-- Where the ticking thread is. -/
inductive Ticking where
  | between
  | decided (n : Name) (now : Instant)
  | sent (n : Name) (nonce : UInt32) (now : Instant)
  deriving DecidableEq

/-- The latest probe of a neighbour: its nonce, its tick, and whether a reply to it came in. -/
structure Probe where
  nonce : UInt32
  sent : Instant
  answered : Bool
  deriving DecidableEq

structure Probing where
  state : ProbeState
  ticking : Ticking
  latest : Name → Option Probe

/-- The ticking thread takes up a neighbour, sends its probe, or records the nonce; or a packet comes
in. -/
inductive ProbeStep where
  | tick (n : Name) (now : Instant)
  | send
  | record
  | inbound (name : Name)

namespace Probing

variable (cfg : ProbeConfig)

def start (seed : UInt32) : Probing := ⟨⟨seed, ∅⟩, .between, fun _ => none⟩

def step (p : Probing) : ProbeStep → Probing
  | .tick n now =>
    match p.ticking with
    | .between =>
      let (state, decision) := p.state.decide' cfg now n
      { p with state := state, ticking := if decision = .probe then .decided n now else .between }
    | _ => p
  | .send =>
    match p.ticking with
    | .decided n now =>
      let (state, nonce) := p.state.nextNonce
      { state := state
        ticking := .sent n nonce now
        latest := Function.update p.latest n (some ⟨nonce, now, false⟩) }
    | _ => p
  | .record =>
    match p.ticking with
    | .sent n nonce now => { p with state := p.state.record n nonce now, ticking := .between }
    | _ => p
  | .inbound name =>
    match ProbeState.replyOf cfg name with
    | none => p
    | some (n, nonce) => { p with
        state := (p.state.reply n nonce).1
        latest := Function.update p.latest n ((p.latest n).map fun probe =>
          if probe.nonce = nonce then { probe with answered := true } else probe) }

/-- The misses a step counts: the neighbour and its count now. -/
def misses (p : Probing) : ProbeStep → Option (Name × UInt8)
  | .tick n now =>
    match p.ticking, (p.state.decide' cfg now n).2 with
    | .between, .timeOut miss => some (n, miss)
    | _, _ => none
  | _ => none

/-- What a step says of a neighbour. -/
def verdict' (p : Probing) (step : ProbeStep) : Option (Name × NeighborVerdict) :=
  match step with
  | .inbound name => (ProbeState.replyOf cfg name).bind fun (n, nonce) =>
    if (p.state.reply n nonce).2 then some (n, .established) else none
  | _ => (p.misses cfg step).bind fun (n, miss) =>
    if miss ≥ cfg.missLimit then some (n, .stale miss) else none

/-- A tick that comes at the end of a probe's time finds that a reply came in. -/
def AnsweredInTime (n : Name) (p : Probing) : ProbeStep → Prop
  | .tick n' now => n' = n → p.ticking = .between → ∀ probe, p.latest n = some probe →
      probeTimeout ≤ durationSince now probe.sent → probe.answered = true
  | _ => True

/-- A reply in time is never a missed probe. -/
structure CountsRightly (seed : UInt32) (steps : List ProbeStep) : Prop where
  unanswered : Throughout (step cfg) (start seed) steps fun p step =>
    ∀ n miss, p.misses cfg step = some (n, miss) →
      ∃ probe pending, p.latest n = some probe ∧ probe.answered = false ∧
        p.state.entries.lookup n = some pending ∧
          pending.pendingNonce = some (probe.nonce, probe.sent)
  live : ∀ n, Throughout (step cfg) (start seed) steps (AnsweredInTime n) →
    Throughout (step cfg) (start seed) steps fun p step =>
      ∀ miss, p.verdict' cfg step ≠ some (n, .stale miss)
  established : Throughout (step cfg) (start seed) steps fun p step =>
    ∀ n, p.verdict' cfg step = some (n, .established) →
      ∃ name probe, step = .inbound name ∧ ProbeState.replyOf cfg name = some (n, probe.nonce) ∧
        p.latest n = some probe

/-- No reply comes in between the sending of its probe and the recording of the nonce. -/
def Recorded (p : Probing) : ProbeStep → Prop
  | .inbound name =>
    match p.ticking with
    | .sent n nonce _ => ProbeState.replyOf cfg name ≠ some (n, nonce)
    | _ => True
  | _ => True

instance (p : Probing) (step : ProbeStep) : Decidable (p.Recorded cfg step) := by
  unfold Recorded
  split
  · split <;> infer_instance
  · infer_instance

/-! ### What the lock regions do -/

variable {cfg : ProbeConfig}

/-- A decision leaves the other neighbours alone, and takes a pending nonce only where its time is
over. -/
theorem decide_cases (st : ProbeState) (now : Instant) (n : Name) :
    ∃ e, (∀ other, (st.decide' cfg now n).1.entries.lookup other =
        if other = n then some e else st.entries.lookup other) ∧
      (e.pendingNonce = none ∨ ∃ before, st.entries.lookup n = some before ∧
        e.pendingNonce = before.pendingNonce) ∧
      ((st.decide' cfg now n).2 = .probe → e.pendingNonce = none) ∧
      (∀ miss, (st.decide' cfg now n).2 = .timeOut miss → ∃ before nonce sent,
        st.entries.lookup n = some before ∧ before.pendingNonce = some (nonce, sent) ∧
          probeTimeout ≤ durationSince now sent) := by
  have known : ∀ pending, (st.entry cfg now n).pendingNonce = some pending →
      ∃ before, st.entries.lookup n = some before ∧ before.pendingNonce = some pending := by
    intro pending found
    unfold ProbeState.entry at found
    cases held : st.entries.lookup n with
    | none =>
      rw [held] at found
      cases found
    | some before =>
      rw [held] at found
      exact ⟨before, rfl, found⟩
  unfold ProbeState.decide'
  dsimp only
  split
  · next expired =>
    refine ⟨_, fun other => HashMap.lookup_insert_eq _ _ _ _, .inl rfl, nofun, ?_⟩
    intro miss _
    rcases Option.any_eq_true_iff_get _ _ |>.mp expired with ⟨present, late⟩
    rcases known _ (Option.some_get present).symm with ⟨before, held, pending⟩
    exact ⟨before, _, _, held, pending, of_decide_eq_true late⟩
  · split
    · next due =>
      rw [Bool.and_eq_true, Option.isNone_iff_eq_none] at due
      exact ⟨_, fun other => HashMap.lookup_insert_eq _ _ _ _, .inl due.1, fun _ => due.1,
        nofun⟩
    · refine ⟨_, fun other => HashMap.lookup_insert_eq _ _ _ _, ?_, nofun, nofun⟩
      cases pending : (st.entry cfg now n).pendingNonce with
      | none => exact .inl rfl
      | some waits =>
        rcases known waits pending with ⟨before, held, same⟩
        exact .inr ⟨before, held, same.symm⟩

/-- A reply is accepted where it carries the pending nonce, which is pending no longer. -/
theorem reply_cases (st : ProbeState) (n : Name) (nonce : UInt32) :
    ((st.reply n nonce).2 = true ∧ ∃ e sent, st.entries.lookup n = some e ∧
      e.pendingNonce = some (nonce, sent) ∧ ∃ e', e'.pendingNonce = none ∧
        ∀ other, (st.reply n nonce).1.entries.lookup other =
          if other = n then some e' else st.entries.lookup other) ∨
    ((st.reply n nonce).2 = false ∧ (st.reply n nonce).1 = st ∧
      ∀ e sent, st.entries.lookup n = some e → e.pendingNonce ≠ some (nonce, sent)) := by
  unfold ProbeState.reply
  split
  · next absent => exact .inr ⟨rfl, rfl, by rw [absent]; exact nofun⟩
  · next e held =>
    split
    · next pending sent waits =>
      split
      · next same =>
        subst same
        exact .inl ⟨rfl, e, sent, held, waits, _, rfl,
          fun other => HashMap.lookup_insert_eq _ _ _ _⟩
      · next different =>
        refine .inr ⟨rfl, rfl, ?_⟩
        intro e' sent' held' waits'
        rw [held, Option.some.injEq] at held'
        subst held'
        rw [waits, Option.some.injEq, Prod.mk.injEq] at waits'
        exact different waits'.1
    · next quiet =>
      refine .inr ⟨rfl, rfl, ?_⟩
      intro e' sent' held' waits'
      rw [held, Option.some.injEq] at held'
      subst held'
      rw [quiet] at waits'
      cases waits'

/-! ### What a run preserves -/

/-- A pending nonce is of the latest probe, and no reply to it came in. -/
structure Sound (p : Probing) : Prop where
  pending : ∀ n e nonce sent, p.state.entries.lookup n = some e →
    e.pendingNonce = some (nonce, sent) → p.latest n = some ⟨nonce, sent, false⟩
  decided : ∀ n now, p.ticking = .decided n now →
    ∀ e, p.state.entries.lookup n = some e → e.pendingNonce = none
  sent : ∀ n nonce now, p.ticking = .sent n nonce now → p.latest n = some ⟨nonce, now, false⟩ ∧
    ∀ e, p.state.entries.lookup n = some e → e.pendingNonce = none

theorem start_sound (seed : UInt32) : (start seed).Sound := by
  refine ⟨?_, nofun, nofun⟩
  intro n e nonce sent held
  cases held

variable {p : Probing}

theorem tick_sound (sound : p.Sound) (n : Name) (now : Instant) :
    (p.step cfg (.tick n now)).Sound := by
  unfold step
  dsimp only
  split
  · rcases @decide_cases cfg p.state now n with ⟨e, entries, kept, probes, _⟩
    refine ⟨?_, ?_, ?_⟩
    · intro n' e' nonce sent held waits
      rw [entries] at held
      split at held
      · next same =>
        cases held
        rcases kept with none | ⟨before, found, same'⟩
        · rw [none] at waits
          cases waits
        · rw [same] at *
          exact sound.pending n before nonce sent found (same'.symm.trans waits)
      · exact sound.pending n' e' nonce sent held waits
    · intro n' now' decided e' held
      split at decided
      · next probe =>
        cases decided
        rw [entries, if_pos rfl] at held
        cases held
        exact probes probe
      · cases decided
    · intro n' nonce now' sending
      split at sending <;> cases sending
  · exact sound

theorem send_sound (sound : p.Sound) : (p.step cfg .send).Sound := by
  unfold step
  dsimp only
  split
  · next n now decided =>
    have quiet := sound.decided n now decided
    refine ⟨?_, nofun, ?_⟩
    · intro n' e nonce sent held waits
      have different : n' ≠ n := by
        rintro rfl
        rw [quiet e held] at waits
        cases waits
      dsimp only
      rw [Function.update_of_ne different]
      exact sound.pending n' e nonce sent held waits
    · intro n' nonce now' sending
      cases sending
      exact ⟨Function.update_self _ _ _, quiet⟩
  · exact sound

theorem record_sound (sound : p.Sound) : (p.step cfg .record).Sound := by
  unfold step
  dsimp only
  split
  · next n nonce now sending =>
    have latest := (sound.sent n nonce now sending).1
    refine ⟨?_, nofun, nofun⟩
    intro n' e' nonce' sent' held waits
    unfold ProbeState.record at held
    split at held
    · exact sound.pending n' e' nonce' sent' held waits
    · rw [HashMap.lookup_insert_eq] at held
      split at held
      · next same =>
        cases held
        cases waits
        rw [same]
        exact latest
      · exact sound.pending n' e' nonce' sent' held waits
  · exact sound

theorem inbound_sound (sound : p.Sound) {name : Name}
    (recorded : p.Recorded cfg (.inbound name)) : (p.step cfg (.inbound name)).Sound := by
  unfold step
  dsimp only
  split
  · exact sound
  · next n nonce carried =>
    have others : ∀ n' probe, p.latest n' = some probe → (n' = n → probe.nonce ≠ nonce) →
        Function.update p.latest n ((p.latest n).map fun probe =>
          if probe.nonce = nonce then { probe with answered := true } else probe) n' =
            some probe := by
      intro n' probe found different
      by_cases same : n' = n
      · subst same
        rw [Function.update_self, found, Option.map_some, if_neg (different rfl)]
      · rw [Function.update_of_ne same, found]
    have stillQuiet : ∀ n', (∀ e, p.state.entries.lookup n' = some e → e.pendingNonce = none) →
        ∀ e, (p.state.reply n nonce).1.entries.lookup n' = some e → e.pendingNonce = none := by
      intro n' quiet e held
      rcases reply_cases p.state n nonce with ⟨_, _, _, _, _, e', cleared, entries⟩ | ⟨_, same, _⟩
      · rw [entries] at held
        split at held
        · cases held
          exact cleared
        · exact quiet e held
      · rw [same] at held
        exact quiet e held
    refine ⟨?_, ?_, ?_⟩
    · intro n' e' nonce' sent' held waits
      rcases reply_cases p.state n nonce with
        ⟨_, _, _, _, _, e'', cleared, entries⟩ | ⟨_, same, other⟩
      · rw [entries] at held
        split at held
        · cases held
          rw [cleared] at waits
          cases waits
        · next different =>
          exact others n' _ (sound.pending n' e' nonce' sent' held waits)
            fun here => absurd here different
      · rw [same] at held
        refine others n' _ (sound.pending n' e' nonce' sent' held waits) ?_
        rintro rfl rfl
        exact other e' sent' held waits
    · intro n' now' decided e held
      exact stillQuiet n' (sound.decided n' now' decided) e held
    · intro n' nonce' now' sending
      rcases sound.sent n' nonce' now' sending with ⟨latest, quiet⟩
      refine ⟨others n' _ latest ?_, stillQuiet n' quiet⟩
      rintro rfl rfl
      unfold Recorded at recorded
      rw [sending] at recorded
      exact recorded carried

theorem step_sound (sound : p.Sound) {step : ProbeStep}
    (recorded : p.Recorded cfg step) : (p.step cfg step).Sound := by
  cases step with
  | tick n now => exact tick_sound sound n now
  | send => exact send_sound sound
  | record => exact record_sound sound
  | inbound name => exact inbound_sound sound recorded

theorem run_sound (seed : UInt32) {steps : List ProbeStep}
    (recorded : Throughout (step cfg) (start seed) steps (Recorded cfg)) :
    (steps.foldl (step cfg) (start seed)).Sound :=
  @foldl_of_throughout _ _ (step cfg) Probing.Sound _ (fun _ _ sound now => step_sound sound now)
    (start seed) (start_sound seed) steps recorded

/-- A counted miss is of the latest probe, whose time is over without a reply. -/
theorem misses_spec (sound : p.Sound) {step : ProbeStep} {n : Name} {miss : UInt8}
    (missed : p.misses cfg step = some (n, miss)) :
    ∃ now nonce sent e, step = .tick n now ∧ p.ticking = .between ∧
      p.state.entries.lookup n = some e ∧ e.pendingNonce = some (nonce, sent) ∧
        p.latest n = some ⟨nonce, sent, false⟩ ∧ probeTimeout ≤ durationSince now sent := by
  cases step with
  | tick n' now =>
    simp only [misses] at missed
    split at missed
    · next miss' between timedOut =>
      cases missed
      rcases @decide_cases cfg p.state now n with ⟨_, _, _, _, late⟩
      rcases late miss timedOut with ⟨e, nonce, sent, held, waits, elapsed⟩
      exact ⟨now, nonce, sent, e, rfl, between, held, waits,
        sound.pending n e nonce sent held waits, elapsed⟩
    · cases missed
  | send => cases missed
  | record => cases missed
  | inbound name => cases missed

/-- A neighbour is stale only by a counted miss. -/
theorem misses_of_stale {step : ProbeStep} {n : Name} {miss : UInt8}
    (said : p.verdict' cfg step = some (n, .stale miss)) : p.misses cfg step = some (n, miss) := by
  unfold verdict' at said
  split at said
  · rcases Option.bind_eq_some_iff.mp said with ⟨⟨n', nonce⟩, _, verdict⟩
    split at verdict <;> simp at verdict
  · rcases Option.bind_eq_some_iff.mp said with ⟨⟨n', miss'⟩, found, verdict⟩
    dsimp only at verdict
    split at verdict
    · rw [found]
      simpa using verdict
    · cases verdict

/-- A neighbour is established only by an accepted reply. -/
theorem accepted_of_established {step : ProbeStep} {n : Name}
    (said : p.verdict' cfg step = some (n, .established)) :
    ∃ name nonce, step = .inbound name ∧ ProbeState.replyOf cfg name = some (n, nonce) ∧
      (p.state.reply n nonce).2 = true := by
  unfold verdict' at said
  split at said
  · next name =>
    rcases Option.bind_eq_some_iff.mp said with ⟨⟨n', nonce⟩, carried, verdict⟩
    dsimp only at verdict
    split at verdict
    · next accepted =>
      rw [Option.some.injEq, Prod.mk.injEq] at verdict
      rw [← verdict.1]
      exact ⟨name, nonce, rfl, carried, accepted⟩
    · cases verdict
  · rcases Option.bind_eq_some_iff.mp said with ⟨⟨n', miss'⟩, _, verdict⟩
    split at verdict <;> simp at verdict

theorem counts_rightly (seed : UInt32) (steps : List ProbeStep)
    (recorded : Throughout (step cfg) (start seed) steps (Recorded cfg)) :
    CountsRightly cfg seed steps := by
  have sound : ∀ earlier step later, steps = earlier ++ step :: later →
      (earlier.foldl (Probing.step cfg) (start seed)).Sound := by
    rintro earlier step later rfl
    exact run_sound seed (throughout_append.mp recorded).1
  refine ⟨?_, ?_, ?_⟩
  · intro earlier step later split n miss missed
    rcases misses_spec (sound earlier step later split) missed with
      ⟨now, nonce, sent, e, _, _, held, waits, latest, _⟩
    exact ⟨_, e, latest, rfl, held, waits⟩
  · intro n answered earlier step later split miss said
    rcases misses_spec (sound earlier step later split) (misses_of_stale said) with
      ⟨now, nonce, sent, e, ticks, between, _, _, latest, elapsed⟩
    have inTime := answered earlier step later split
    rw [ticks] at inTime
    have replied := inTime rfl between _ latest elapsed
    cases replied
  · intro earlier step later split n said
    rcases accepted_of_established said with ⟨name, nonce, arrives, carried, accepted⟩
    rcases reply_cases (earlier.foldl (Probing.step cfg) (start seed)).state n nonce with
      ⟨_, e, sent, held, waits, _⟩ | ⟨refused, _⟩
    · exact ⟨name, _, arrives, carried,
        (sound earlier _ later split).pending n e nonce sent held waits⟩
    · rw [refused] at accepted
      cases accepted

namespace Example

/-- `/ndn/local/nd/probe/ping`. -/
def probePing : Name := ⟨[.generic [110, 100, 110], .generic [108, 111, 99, 97, 108],
  .generic [110, 100], .generic [112, 114, 111, 98, 101], .generic [112, 105, 110, 103]]⟩

def config : ProbeConfig := ⟨probePing, 1000000000, 3⟩

def peer : Name := ⟨[.generic [112]]⟩

def replyName (nonce : UInt8) : Name :=
  ⟨probePing.components ++ peer.components ++ [.generic [0, 0, 0, nonce]]⟩

/-- The reply comes in before the nonce of its probe is recorded. -/
def early : List ProbeStep := [.tick peer 0, .send, .inbound (replyName 1), .record,
  .tick peer 5000000000]

theorem early_reply_is_a_miss : ¬ CountsRightly config 0 early := by
  intro rightly
  have missed : ((early.take 4).foldl (step config) (start 0)).misses config
      (.tick peer 5000000000) = some (peer, 1) := by
    decide +kernel
  have latest : ((early.take 4).foldl (step config) (start 0)).latest peer =
      some ⟨1, 0, true⟩ := by
    decide +kernel
  rcases rightly.unanswered (early.take 4) _ [] rfl peer 1 missed with
    ⟨probe, _, found, unanswered, _⟩
  rw [latest, Option.some.injEq] at found
  subst found
  cases unanswered

/-- The first reply comes in after the recording, and the second probe is not answered. -/
def recorded : List ProbeStep := [.tick peer 0, .send, .record, .inbound (replyName 1),
  .tick peer 1000000000, .send, .record, .tick peer 6000000000]

theorem recorded_counts_rightly : CountsRightly config 0 recorded :=
  counts_rightly 0 recorded (by decide +kernel)

end Example

end Probing

end NdnExt.Discovery
