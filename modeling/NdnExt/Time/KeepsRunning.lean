import Mathlib.Data.List.ReduceOption
import NdnExt.Lib.Run
import NdnExt.Time.Driver

/-! Which beacons and which clock values the time service survives. -/

namespace NdnExt.Time

open NdnExt.Lib NdnExt.Lib.Run NdnExt.Service List Timekeeper

variable {T : Type} (node : Node T)

def InI64 (value : Int) : Prop := -2 ^ 63 ≤ value ∧ value < 2 ^ 63

namespace TimeService

/-! ### What a run is to keep -/

structure Unlocked (service : TimeService T) : Prop where
  tk : service.tk.poisoned = false
  sources : service.sources.poisoned = false
  lastWallNs : service.lastWallNs.poisoned = false

/-- The node's own sample is one of its local readings. -/
def OwnClock (service : TimeService T) : Prop :=
  ∀ sample, node.core.kept service.tk.value.state selfPeerId = some sample →
    ∃ reading ∈ service.readings, sample = Timekeeper.selfSample node reading

/-- What was sealed decodes to what the beacon was made from. -/
def Decodes (sent : Sent) : Prop :=
  ∃ payload decoded, sent.wire = node.auth.sealWire node.nodeId sent.seq payload ∧
    decode payload = .ok decoded ∧ decoded.seq = sent.seq ∧
    decoded.wallNs.toInt = sent.localWallNs.toInt + sent.correction.offsetNs.toInt ∧
    decoded.uncertaintyNs = sent.correction.uncertaintyNs ∧ decoded.cap = node.localCap

/-- The wire opens and what it holds decodes. -/
def OpensAndDecodes (wire : Bytes) : Prop :=
  ∃ vb decoded, node.auth.openWire wire = .ok (some vb) ∧ decode vb.content = .ok decoded

/-- A call that went well, and what holds after it. -/
structure WentWell (service : TimeService T) (call : Call) : Prop where
  answers : (answer node service call).2 ≠ .panicked
  passes : ∀ nowMonoNs wire, call = .ingestOnce nowMonoNs wire →
    ((answer node service call).2 = .ingested true ↔ OpensAndDecodes node wire)
  unlocked : Unlocked (step node service call)
  ownClock : OwnClock node (step node service call)
  sends : ∀ wire, (answer node service call).2 = .disciplined (some wire) →
    ∃ beacon, (step node service call).sent = service.sent ++ [beacon] ∧ beacon.wire = wire
  decodes : ∀ beacon ∈ (step node service call).sent, Decodes node beacon
  increases : ((step node service call).sent.map Sent.seq).Pairwise (· < ·)

/-! ### When a call goes well -/

/-- The wire names no reserved peer. -/
def Harmless : BeaconAuth → Bytes → Prop
  | .dev, wire => wire.length < 8 ∨ ofBe (wire.take 8) % 2 ^ 32 ≠ 2 ^ 32 - 1
  | .other _ opening, wire => ∀ vb ∈ opening wire, ∀ decoded, decode vb.content = .ok decoded →
    vb.peerId ≠ selfPeerId

/-- The wall time once the sources were polled. -/
def polledWall (service : TimeService T) (polled : List (Option Reading)) : Int64 :=
  (polled.reduceOption.getLast?.map (·.wall.centerNs)).getD service.lastWallNs.value

/-- The samples once the sources were polled. -/
def polledState (service : TimeService T) (polled : List (Option Reading)) : T :=
  polled.reduceOption.foldl
    (fun state reading => node.core.ingest state selfPeerId (Timekeeper.selfSample node reading))
    service.tk.value.state

/-- The timekeeper the policy is asked with. -/
def polledTk (service : TimeService T) (polled : List (Option Reading)) : Timekeeper T :=
  { service.tk.value with state := service.polledState node polled }

/-- The policy's answer. -/
def corrected (service : TimeService T) (nowMonoNs : UInt64) (polled : List (Option Reading)) :
    Correction × T :=
  node.core.discipline (service.polledState node polled) (service.polledWall polled) nowMonoNs

/-- The policy lets a beacon out. -/
def Due (service : TimeService T) (nowMonoNs : UInt64) (polled : List (Option Reading)) : Prop :=
  node.core.act (service.corrected node nowMonoNs polled).1 node.localCap
    service.tk.value.hasPriorWall ≠ .withhold

/-- The corrected wall time is one. -/
def WallFits (service : TimeService T) (nowMonoNs : UInt64) (polled : List (Option Reading)) : Prop :=
  InI64 ((service.polledWall polled).toInt +
    (service.corrected node nowMonoNs polled).1.offsetNs.toInt)

/-- The timekeeper's own count of tightened fixes has room. -/
def SeqFits (service : TimeService T) (nowMonoNs : UInt64) (polled : List (Option Reading)) : Prop :=
  node.core.shouldRebeacon (service.corrected node nowMonoNs polled).1
      service.tk.value.lastBeaconedUncertaintyNs = true →
    service.tk.value.seq.toNat + 1 < 2 ^ 64

def InRange (service : TimeService T) : Call → Prop
  | .ingestOnce _ wire => Harmless node.auth wire
  | .disciplineOnce nowMonoNs polled =>
    service.SeqFits node nowMonoNs polled ∧ (service.Due node nowMonoNs polled →
      service.WallFits node nowMonoNs polled ∧ service.sent.length < 2 ^ 64)

variable {node}

/-! ### What one call does -/

/-- What the local sources gave is all that polling changes. -/
theorem sense_eq (service : TimeService T) (polled : List (Option Reading)) :
    service.sense node polled =
      { service with
        tk := { service.tk with value := service.polledTk node polled }
        lastWallNs := { service.lastWallNs with value := service.polledWall polled }
        readings := service.readings ++ polled.reduceOption } := by
  induction polled generalizing service with
  | nil => simp [sense, polledTk, polledState, polledWall]
  | cons source rest ih =>
    rw [sense, foldl_cons, ← sense, ih]
    cases source with
    | none => simp [senseOne, polledTk, polledState, polledWall]
    | some reading =>
      cases last : rest.reduceOption.getLast? <;>
        simp [senseOne, polledTk, polledState, polledWall, ingestLocalReading, last,
          List.getLast?_cons]

theorem checkedSucc_eq (value : UInt64) :
    checkedSucc value = if value.toNat + 1 < 2 ^ 64 then .ok (UInt64.ofNat (value.toNat + 1))
      else .panic := by
  unfold checkedSucc u64
  split <;> rfl

theorem checkedAdd_of_fits {left right : Int64} (fits : InI64 (left.toInt + right.toInt)) :
    ∃ sum, checkedAdd left right = .ok sum ∧ sum.toInt = left.toInt + right.toInt := by
  refine ⟨Int64.ofInt (left.toInt + right.toInt), ?_, Int64.toInt_ofInt_of_le fits.1 fits.2⟩
  rw [checkedAdd, i64_ok fits.1 fits.2]
  rfl

theorem checkedAdd_of_not_fits {left right : Int64} (outside : ¬InI64 (left.toInt + right.toInt)) :
    checkedAdd left right = .panic := by
  unfold InI64 at outside
  rw [checkedAdd, i64, if_neg outside]
  rfl

theorem clockMsOf_eq_none {wall : Int64} {discipline : Discipline} :
    clockMsOf wall discipline = none ↔ discipline = .withhold := by
  cases discipline <;> simp [clockMsOf]

theorem tick_panics {tk : Timekeeper T} {now : UInt64} {wall : Int64}
    (tightened : node.core.shouldRebeacon (node.core.discipline tk.state wall now).1
      tk.lastBeaconedUncertaintyNs = true)
    (full : ¬tk.seq.toNat + 1 < 2 ^ 64) : tk.tick node now wall = .panic := by
  rw [tick, if_pos tightened, checkedSucc_eq, if_neg full]
  rfl

theorem tick_ok {tk : Timekeeper T} {now : UInt64} {wall : Int64}
    (room : node.core.shouldRebeacon (node.core.discipline tk.state wall now).1
      tk.lastBeaconedUncertaintyNs = true → tk.seq.toNat + 1 < 2 ^ 64) :
    ∃ out after, tk.tick node now wall = .ok (out, after) ∧
      out.correction = (node.core.discipline tk.state wall now).1 ∧
      out.clockMs = clockMsOf wall (node.core.act
        (node.core.discipline tk.state wall now).1 node.localCap tk.hasPriorWall) ∧
      after.state = (node.core.discipline tk.state wall now).2 := by
  by_cases tightened : node.core.shouldRebeacon (node.core.discipline tk.state wall now).1
      tk.lastBeaconedUncertaintyNs = true
  · rw [tick, if_pos tightened, checkedSucc_eq, if_pos (room tightened)]
    exact ⟨_, _, rfl, rfl, rfl, rfl⟩
  · rw [tick, if_neg tightened]
    exact ⟨_, _, rfl, rfl, rfl, rfl⟩

/-- What every pass that does not panic leaves. -/
structure Passed (node : Node T) (service : TimeService T) (now : UInt64)
    (polled : List (Option Reading)) (after : TimeService T) : Prop where
  unlocked : Unlocked after
  state : after.tk.value.state = (service.corrected node now polled).2
  readings : after.readings = service.readings ++ polled.reduceOption

section

variable {service : TimeService T} {now : UInt64} {polled : List (Option Reading)}

section

variable (unlocked : Unlocked service)
include unlocked

theorem disciplineOnce_eq :
    service.disciplineOnce node now polled =
      afterTick node (service.sense node polled) (service.polledWall polled)
        ((service.polledTk node polled).tick node now (service.polledWall polled)) := by
  rw [disciplineOnce, unlocked.sources, unlocked.tk, unlocked.lastWallNs, sense_eq, decideAndAct]
  rw [unlocked.tk, unlocked.lastWallNs]
  rfl

theorem discipline_panics (full : ¬service.SeqFits node now polled) :
    (service.disciplineOnce node now polled).2 = .panicked := by
  rw [SeqFits, Classical.not_imp] at full
  have panics := @tick_panics T node (service.polledTk node polled) now (service.polledWall polled)
    full.1 full.2
  rw [disciplineOnce_eq unlocked, panics]
  rfl

theorem discipline_waits (room : service.SeqFits node now polled)
    (withheld : ¬service.Due node now polled) :
    ∃ after, service.disciplineOnce node now polled = (after, .disciplined none) ∧
      Passed node service now polled after ∧ after.sent = service.sent ∧
      after.beaconSeq = service.beaconSeq := by
  rcases @tick_ok T node (service.polledTk node polled) now (service.polledWall polled) room with
    ⟨out, tk, ticked, _, clock, state⟩
  have quiet : out.clockMs = none := clock.trans (clockMsOf_eq_none.mpr (not_not.mp withheld))
  rw [disciplineOnce_eq unlocked, ticked, afterTick, sense_eq, quiet]
  exact ⟨_, rfl, ⟨⟨unlocked.tk, unlocked.sources, unlocked.lastWallNs⟩, state, rfl⟩, rfl, rfl⟩

/-- A due pass comes to the heartbeat. -/
theorem discipline_due (room : service.SeqFits node now polled)
    (due : service.Due node now polled) :
    ∃ acted, Passed node service now polled acted ∧ acted.sent = service.sent ∧
      acted.beaconSeq = service.beaconSeq ∧
      service.disciplineOnce node now polled =
        heartbeat node acted (service.polledWall polled) (service.corrected node now polled).1 := by
  rcases @tick_ok T node (service.polledTk node polled) now (service.polledWall polled) room with
    ⟨out, tk, ticked, correction, clock, state⟩
  have given : out.clockMs ≠ none := by
    rw [clock]
    exact mt clockMsOf_eq_none.mp due
  rcases Option.ne_none_iff_exists'.mp given with ⟨ms, given⟩
  rw [disciplineOnce_eq unlocked, ticked, afterTick, sense_eq, given, correction]
  refine ⟨_, ?_, ?_, ?_, rfl⟩
  · exact ⟨⟨unlocked.tk, unlocked.sources, unlocked.lastWallNs⟩, state, rfl⟩
  · rfl
  · rfl

theorem discipline_overflows (due : service.Due node now polled)
    (outside : ¬service.WallFits node now polled) :
    (service.disciplineOnce node now polled).2 = .panicked := by
  by_cases room : service.SeqFits node now polled
  · rcases discipline_due unlocked room due with ⟨acted, _, _, _, reached⟩
    rw [reached, heartbeat, checkedAdd_of_not_fits outside]
  · exact discipline_panics unlocked room

theorem discipline_sends (room : service.SeqFits node now polled)
    (due : service.Due node now polled) (fits : service.WallFits node now polled) :
    ∃ after beacon, service.disciplineOnce node now polled =
    (after, .disciplined (some beacon.wire)) ∧
      Passed node service now polled after ∧ after.sent = service.sent ++ [beacon] ∧
      after.beaconSeq = service.beaconSeq + 1 ∧ beacon.seq = service.beaconSeq ∧
      Decodes node beacon := by
  rcases discipline_due unlocked room due with ⟨acted, passed, sent, counted, reached⟩
  rcases checkedAdd_of_fits fits with ⟨wall, added, exactly⟩
  rw [reached, heartbeat, added, sent, counted]
  refine ⟨_, ⟨service.beaconSeq, service.polledWall polled, _, _⟩, rfl, ?_, rfl, rfl, rfl, ?_⟩
  · exact ⟨⟨passed.unlocked.tk, passed.unlocked.sources, passed.unlocked.lastWallNs⟩,
      passed.state, passed.readings⟩
  · exact ⟨_, _, rfl, decode_encode _ _ _ _, rfl, exactly, rfl, rfl⟩

end

end

/-! ### What one wire does -/

theorem checkedSucc32_eq (value : UInt32) :
    checkedSucc32 value = if value.toNat ≠ 2 ^ 32 - 1 then .ok (value + 1) else .panic := by
  have small := value.toNat_lt
  unfold checkedSucc32
  split
  case isTrue room => rw [if_pos (by omega)]
  case isFalse full => rw [if_neg (by omega)]

theorem peer_toNat (wire : Bytes) :
    (UInt64.ofNat (ofBe (wire.take 8))).toNat = ofBe (wire.take 8) := by
  have bound := ofBe_lt (wire.take 8)
  have short : 256 ^ (wire.take 8).length ≤ 256 ^ 8 :=
    Nat.pow_le_pow_right (by decide) (length_take_le 8 wire)
  rw [UInt64.toNat_ofNat']
  omega

theorem devAuth_panics {wire : Bytes} (harmful : ¬Harmless .dev wire) :
    DevAuth.openWire wire = .panic := by
  rw [Harmless, not_or, not_not] at harmful
  have full : ¬(UInt64.ofNat (ofBe (wire.take 8))).toUInt32.toNat ≠ 2 ^ 32 - 1 := by
    rw [UInt64.toNat_toUInt32, peer_toNat, harmful.2]
    exact not_not.mpr rfl
  rw [DevAuth.openWire, if_neg harmful.1]
  dsimp only
  rw [checkedSucc32_eq, if_neg full]
  rfl

theorem devAuth_opens {wire : Bytes} (harmless : Harmless .dev wire) :
    ∃ opened, DevAuth.openWire wire = .ok opened ∧ ∀ vb ∈ opened, vb.peerId ≠ selfPeerId := by
  by_cases short : wire.length < 8
  · rw [DevAuth.openWire, if_pos short]
    exact ⟨none, rfl, by intro vb found; cases found⟩
  · have low : (UInt64.ofNat (ofBe (wire.take 8))).toUInt32.toNat ≠ 2 ^ 32 - 1 := by
      rw [UInt64.toNat_toUInt32, peer_toNat]
      exact harmless.resolve_left short
    rw [DevAuth.openWire, if_neg short]
    dsimp only
    rw [checkedSucc32_eq, if_pos low]
    refine ⟨_, rfl, ?_⟩
    rintro vb ⟨⟩ own
    dsimp only at own
    rw [own] at low
    exact low rfl

theorem harmless_opens {auth : BeaconAuth} {wire : Bytes} (harmless : Harmless auth wire) :
    ∃ opened, auth.openWire wire = .ok opened ∧ ∀ vb ∈ opened, ∀ decoded,
      decode vb.content = .ok decoded → vb.peerId ≠ selfPeerId := by
  cases auth with
  | dev =>
    rcases devAuth_opens harmless with ⟨opened, done, others⟩
    exact ⟨opened, done, fun vb found _ _ => others vb found⟩
  | other sealing opening => exact ⟨opening wire, rfl, harmless⟩

theorem harmful_wire {auth : BeaconAuth} {wire : Bytes} (harmful : ¬Harmless auth wire) :
    auth.openWire wire = .panic ∨ ∃ vb decoded, auth.openWire wire = .ok (some vb) ∧
      decode vb.content = .ok decoded ∧ vb.peerId = selfPeerId := by
  cases auth with
  | dev => exact Or.inl (devAuth_panics harmful)
  | other sealing opening =>
    simp only [Harmless, not_forall, not_not] at harmful
    rcases harmful with ⟨vb, found, decoded, read, own⟩
    refine Or.inr ⟨vb, decoded, ?_, read, own⟩
    rw [BeaconAuth.openWire, Option.mem_def.mp found]
    rfl

section

variable {service : TimeService T} {now : UInt64} {wire : Bytes}

theorem received_of_decodes {vb : VerifiedBeacon} {decoded : DecodedBeacon}
    (opened : node.auth.openWire wire = .ok (some vb)) (read : decode vb.content = .ok decoded) :
    received node wire = .ok (some (vb, decoded)) := by
  rw [received, opened, Outcome.ok_bind]
  dsimp only
  rw [read]
  rfl

theorem received_none {opened : Option VerifiedBeacon} (done : node.auth.openWire wire = .ok opened)
    (nothing : ∀ vb ∈ opened, ∀ decoded, decode vb.content ≠ .ok decoded) :
    received node wire = .ok none := by
  rw [received, done, Outcome.ok_bind]
  cases opened with
  | none => rfl
  | some vb =>
    dsimp only
    cases read : decode vb.content with
    | ok decoded => exact absurd read (nothing vb rfl decoded)
    | err error => rfl
    | panic => exact absurd read (decode_ne_panic vb.content)

theorem ingest_panics (unlocked : Unlocked service) (harmful : ¬Harmless node.auth wire) :
    (service.ingestOnce node now wire).2 = .panicked := by
  rcases harmful_wire harmful with stopped | ⟨vb, decoded, opened, read, own⟩
  · rw [ingestOnce, received, stopped]
    rfl
  · rw [ingestOnce, received_of_decodes opened read]
    dsimp only
    rw [unlocked.tk, ingestBeacon, if_pos own]
    rfl

/-- A harmless wire is passed over, or gives its peer a sample. -/
theorem ingest_cases (unlocked : Unlocked service) (harmless : Harmless node.auth wire) :
    service.ingestOnce node now wire = (service, .ingested false) ∧ ¬OpensAndDecodes node wire ∨
      ∃ after peer sample, service.ingestOnce node now wire = (after, .ingested true) ∧
        OpensAndDecodes node wire ∧ peer ≠ selfPeerId ∧ Unlocked after ∧
        after.tk.value.state = node.core.ingest service.tk.value.state peer sample ∧
        after.readings = service.readings ∧ after.sent = service.sent ∧
        after.beaconSeq = service.beaconSeq := by
  rcases harmless_opens harmless with ⟨opened, done, others⟩
  by_cases passes : OpensAndDecodes node wire
  · rcases id passes with ⟨vb, decoded, opens, read⟩
    have peer : vb.peerId ≠ selfPeerId := by
      apply others vb _ decoded read
      rw [opens] at done
      cases done
      rfl
    rw [ingestOnce, received_of_decodes opens read]
    dsimp only
    rw [unlocked.tk, ingestBeacon, if_neg peer]
    refine Or.inr ⟨_, vb.peerId, _, rfl, passes, peer, ?_, rfl, rfl, rfl, rfl⟩
    exact ⟨rfl, unlocked.sources, unlocked.lastWallNs⟩
  · have nothing : ∀ vb ∈ opened, ∀ decoded, decode vb.content ≠ .ok decoded := by
      intro vb found decoded read
      exact passes ⟨vb, decoded, by rw [done, Option.mem_def.mp found], read⟩
    rw [ingestOnce, received_none done nothing]
    exact Or.inl ⟨rfl, passes⟩

end

/-! ### Runs -/

/-- What holds between the calls. -/
structure Sound (node : Node T) (service : TimeService T) : Prop where
  unlocked : Unlocked service
  ownClock : OwnClock node service
  decodes : ∀ beacon ∈ service.sent, Decodes node beacon
  numbered : service.sent.map Sent.seq = (List.range service.sent.length).map UInt64.ofNat
  counted : service.beaconSeq = UInt64.ofNat service.sent.length
  increases : (service.sent.map Sent.seq).Pairwise (· < ·)

theorem sound_new (keeps : node.core.KeepsByPeer) : Sound node (new node) where
  unlocked := ⟨rfl, rfl, rfl⟩
  ownClock := by
    intro sample held
    have empty : node.core.kept node.core.new selfPeerId = some sample := held
    rw [keeps.new] at empty
    cases empty
  decodes := forall_mem_nil _
  numbered := rfl
  counted := rfl
  increases := List.Pairwise.nil

section

variable {service : TimeService T} {now : UInt64} {polled : List (Option Reading)}

/-- Polling puts nothing but readings in the node's own place. -/
theorem kept_polled (keeps : node.core.KeepsByPeer) (readings : List Reading) (state : T)
    {sample : PeerSample}
    (held : node.core.kept (readings.foldl (fun state reading =>
      node.core.ingest state selfPeerId (selfSample node reading)) state) selfPeerId =
        some sample) :
    node.core.kept state selfPeerId = some sample ∨
      ∃ reading ∈ readings, sample = selfSample node reading := by
  induction readings generalizing state with
  | nil => exact Or.inl held
  | cons reading rest ih =>
    rcases ih _ held with before | ⟨later, found, same⟩
    · rcases keeps.ingest _ _ _ _ _ before with older | ⟨_, same⟩
      · exact Or.inl older
      · exact Or.inr ⟨reading, mem_cons_self .., same⟩
    · exact Or.inr ⟨later, mem_cons_of_mem _ found, same⟩

theorem ownClock_of_passed (keeps : node.core.KeepsByPeer) (own : OwnClock node service)
    {after : TimeService T} (passed : Passed node service now polled after) :
    OwnClock node after := by
  intro sample held
  rw [passed.state] at held
  rw [passed.readings]
  rcases kept_polled keeps _ _ (keeps.discipline _ _ _ _ _ held) with before | ⟨reading, found, same⟩
  · rcases own sample before with ⟨reading, found, same⟩
    exact ⟨reading, mem_append_left _ found, same⟩
  · exact ⟨reading, mem_append_right _ found, same⟩

/-- While fewer than `2 ^ 64` beacons have gone out, the next number is above theirs. -/
theorem seq_increases (sound : Sound node service) (room : service.sent.length < 2 ^ 64) :
    (service.sent.map Sent.seq ++ [service.beaconSeq]).Pairwise (· < ·) := by
  refine pairwise_append.mpr ⟨sound.increases, pairwise_singleton _ _, ?_⟩
  intro seq earlier next latest
  rw [mem_singleton.mp latest, sound.counted]
  rw [sound.numbered, mem_map] at earlier
  rcases earlier with ⟨index, below, rfl⟩
  have less := mem_range.mp below
  rw [UInt64.lt_iff_toNat_lt, UInt64.toNat_ofNat', UInt64.toNat_ofNat']
  omega

/-- After that many, a number comes again. -/
theorem seq_repeats (sound : Sound node service) (full : ¬service.sent.length < 2 ^ 64) :
    ¬(service.sent.map Sent.seq ++ [service.beaconSeq]).Pairwise (· < ·) := by
  intro increasing
  have below := (pairwise_append.mp increasing).2.2
  have again : service.beaconSeq ∈ service.sent.map Sent.seq := by
    rw [sound.numbered, sound.counted, mem_map]
    refine ⟨service.sent.length - 2 ^ 64, mem_range.mpr (by omega), ?_⟩
    apply UInt64.toNat_inj.mp
    rw [UInt64.toNat_ofNat', UInt64.toNat_ofNat']
    omega
  exact UInt64.lt_irrefl _ (below _ again _ (mem_singleton_self _))

theorem sound_sends (keeps : node.core.KeepsByPeer) (sound : Sound node service)
    {after : TimeService T} {beacon : Sent} (passed : Passed node service now polled after)
    (sent : after.sent = service.sent ++ [beacon])
    (counted : after.beaconSeq = service.beaconSeq + 1)
    (seq : beacon.seq = service.beaconSeq) (decodes : Decodes node beacon)
    (room : service.sent.length < 2 ^ 64) : Sound node after where
  unlocked := passed.unlocked
  ownClock := ownClock_of_passed keeps sound.ownClock passed
  decodes := by
    rw [sent]
    exact forall_mem_append.mpr ⟨sound.decodes, forall_mem_singleton.mpr decodes⟩
  numbered := by
    rw [sent, map_append, sound.numbered, length_append, length_singleton,
      range_succ, map_append, map_singleton, map_singleton, seq, sound.counted]
  counted := by
    rw [counted, sent, sound.counted, length_append, length_singleton]
    exact (UInt64.ofNat_add _ _).symm
  increases := by
    rw [sent, map_append, map_singleton, seq]
    exact seq_increases sound room

/-- A call that sends nothing leaves a sound service as sound as its clock. -/
theorem sound_quiet (sound : Sound node service) {after : TimeService T} (unlocked : Unlocked after)
    (own : OwnClock node after) (sent : after.sent = service.sent)
    (counted : after.beaconSeq = service.beaconSeq) : Sound node after where
  unlocked := unlocked
  ownClock := own
  decodes := by
    rw [sent]
    exact sound.decodes
  numbered := by
    rw [sent]
    exact sound.numbered
  counted := by
    rw [sent, counted]
    exact sound.counted
  increases := by
    rw [sent]
    exact sound.increases

theorem wentWell_of {call : Call} {after : TimeService T} {reply : Answer}
    (answered : answer node service call = (after, reply)) (sound : Sound node after)
    (calm : reply ≠ .panicked)
    (passes : ∀ now wire, call = .ingestOnce now wire →
      (reply = .ingested true ↔ OpensAndDecodes node wire))
    (sends : ∀ wire, reply = .disciplined (some wire) →
      ∃ beacon, after.sent = service.sent ++ [beacon] ∧ beacon.wire = wire) :
    WentWell node service call ∧ Sound node (step node service call) := by
  have stepped : step node service call = after := congrArg Prod.fst answered
  have replied : (answer node service call).2 = reply := congrArg Prod.snd answered
  rw [stepped]
  refine ⟨⟨?_, ?_, ?_, ?_, ?_, ?_, ?_⟩, sound⟩
  · rwa [replied]
  · rwa [replied]
  · rw [stepped]
    exact sound.unlocked
  · rw [stepped]
    exact sound.ownClock
  · rwa [replied, stepped]
  · rw [stepped]
    exact sound.decodes
  · rw [stepped]
    exact sound.increases

theorem wentWell_ingest (keeps : node.core.KeepsByPeer) (sound : Sound node service) {wire : Bytes}
    (harmless : Harmless node.auth wire) :
    WentWell node service (.ingestOnce now wire) ∧
      Sound node (step node service (.ingestOnce now wire)) := by
  rcases @ingest_cases T node service now wire sound.unlocked harmless with
    ⟨passed, fails⟩ | ⟨after, peer, sample, took, opens, other, unlocked, state, readings, sent, count⟩
  · refine wentWell_of passed sound (by decide) ?_ ?_
    · rintro now wire ⟨⟩
      exact iff_of_false (by decide) fails
    · intro wire impossible
      cases impossible
  · have own : OwnClock node after := by
      intro held keeping
      rw [state] at keeping
      rw [readings]
      rcases keeps.ingest _ _ _ _ _ keeping with before | ⟨same, _⟩
      · exact sound.ownClock held before
      · exact absurd same.symm other
    refine wentWell_of took (sound_quiet sound unlocked own sent count) (by decide) ?_ ?_
    · rintro now wire ⟨⟩
      exact iff_of_true rfl opens
    · intro wire impossible
      cases impossible

theorem wentWell_discipline (keeps : node.core.KeepsByPeer) (sound : Sound node service)
    (inRange : InRange node service (.disciplineOnce now polled)) :
    WentWell node service (.disciplineOnce now polled) ∧
      Sound node (step node service (.disciplineOnce now polled)) := by
  rcases inRange with ⟨room, fits⟩
  by_cases due : service.Due node now polled
  · rcases discipline_sends sound.unlocked room due (fits due).1 with
      ⟨after, beacon, sends, passed, sent, counted, seq, decodes⟩
    refine wentWell_of sends (sound_sends keeps sound passed sent counted seq decodes (fits due).2)
      (by intro impossible; cases impossible) (by intro now wire impossible; cases impossible) ?_
    intro wire same
    cases same
    exact ⟨beacon, sent, rfl⟩
  · rcases discipline_waits sound.unlocked room due with ⟨after, waits, passed, sent, counted⟩
    refine wentWell_of waits (sound_quiet sound passed.unlocked
      (ownClock_of_passed keeps sound.ownClock passed) sent counted) (by decide)
      (by intro now wire impossible; cases impossible) ?_
    intro wire impossible
    cases impossible

theorem inRange_discipline (sound : Sound node service)
    (well : WentWell node service (.disciplineOnce now polled)) :
    InRange node service (.disciplineOnce now polled) := by
  have room : service.SeqFits node now polled := by
    by_contra full
    exact well.answers (discipline_panics sound.unlocked full)
  refine ⟨room, ?_⟩
  intro due
  have fits : service.WallFits node now polled := by
    by_contra outside
    exact well.answers (discipline_overflows sound.unlocked due outside)
  refine ⟨fits, ?_⟩
  by_contra full
  rcases discipline_sends sound.unlocked room due fits with
    ⟨after, beacon, sends, _, sent, _, seq, _⟩
  have stepped : step node service (.disciplineOnce now polled) = after := congrArg Prod.fst sends
  have increases := well.increases
  rw [stepped, sent, map_append, map_singleton, seq] at increases
  exact seq_repeats sound full increases

theorem wentWell_iff (keeps : node.core.KeepsByPeer) (sound : Sound node service) (call : Call) :
    WentWell node service call ↔ InRange node service call := by
  cases call with
  | ingestOnce now wire =>
    constructor
    · intro well
      by_contra harmful
      exact well.answers (ingest_panics sound.unlocked harmful)
    · intro harmless
      exact (wentWell_ingest keeps sound harmless).1
  | disciplineOnce now polled =>
    exact ⟨inRange_discipline sound, fun inRange => (wentWell_discipline keeps sound inRange).1⟩

theorem sound_step (keeps : node.core.KeepsByPeer) (sound : Sound node service) (call : Call)
    (well : WentWell node service call) : Sound node (step node service call) := by
  have inRange := (wentWell_iff keeps sound call).mp well
  cases call with
  | ingestOnce now wire => exact (wentWell_ingest keeps sound inRange).2
  | disciplineOnce now polled => exact (wentWell_discipline keeps sound inRange).2

end

/-- The service keeps running, and nothing poses as its clock, exactly while no wire names the
reserved peer and the corrected wall times stay in `i64`. -/
theorem keeps_running_iff (keeps : node.core.KeepsByPeer) (calls : List Call) :
    Throughout (step node) (new node) calls (WentWell node) ↔
      Throughout (step node) (new node) calls (InRange node) :=
  throughout_iff (Sound node) (fun _ call sound => wentWell_iff keeps sound call)
    (fun _ call sound well => sound_step keeps sound call well) (sound_new keeps) calls

/-! ### A node whose policy always corrects by `offset` -/

def steadyCore (offset : Int64) : TimeCore (UInt64 → Option PeerSample) where
  new := fun _ => none
  ingest state peer sample := fun other => if other = peer then some sample else state other
  kept state peer := state peer
  interval := TimeInterval.mk
  intoPeerSample beacon :=
    ⟨⟨beacon.wall.centerNs, beacon.wall.radiusNs, beacon.prov⟩, beacon.capturedMonoNs, beacon.cap⟩
  discipline state _ _ := (⟨offset, 1000⟩, state)
  act _ _ _ := .step offset
  shouldRebeacon correction last := correction.uncertaintyNs < last

theorem steadyCore_keeps (offset : Int64) : (steadyCore offset).KeepsByPeer where
  new _ := rfl
  ingest := by
    intro state peer sample other kept held
    change (if other = peer then some sample else state other) = some kept at held
    split at held
    case isTrue same =>
      cases held
      exact Or.inr ⟨same, rfl⟩
    case isFalse => exact Or.inl held
  discipline _ _ _ _ _ held := held

def steadyNode (offset : Int64) (auth : BeaconAuth) : Node (UInt64 → Option PeerSample) where
  core := steadyCore offset
  nodeId := 1
  selfKey := 1
  localCap := ⟨.gnss, .utc, ⟨0, 0, 0, false⟩, 100, false, true⟩
  auth := auth

def gnssReading (wall : Int64) : Reading where
  wall := ⟨wall, 30⟩
  cap := ⟨.gnss, .utc, ⟨0, 0, 0, false⟩, 100, false, true⟩
  capturedMonoNs := 0

def ptpBeacon : Bytes := encode 0 1700 50 ⟨.ptp, .tai, ⟨0, 0, 0, true⟩, 100, true, false⟩

/-- What peer 7 sends, and then one pass with a reading. -/
def peerThenReading : List Call :=
  [.ingestOnce 5 (DevAuth.sealWire 7 ptpBeacon),
    .disciplineOnce 6 [none, some (gnssReading 1000)]]

theorem keeps_running_with_peer :
    Throughout (step (steadyNode 20 .dev)) (new (steadyNode 20 .dev)) peerThenReading
      (WentWell (steadyNode 20 .dev)) := by
  refine (keeps_running_iff (steadyCore_keeps 20) peerThenReading).mpr ?_
  refine throughout_cons.mpr ⟨Or.inr (by decide +kernel), ?_⟩
  refine throughout_cons.mpr ⟨⟨fun _ => by decide +kernel, fun _ => ⟨?_, by decide +kernel⟩⟩, ?_⟩
  · exact ⟨by decide +kernel, by decide +kernel⟩
  · exact throughout_nil _ _

/-- Authentication that takes the sender's word, and its beacon, from the wire. -/
def framed : BeaconAuth :=
  .other (fun nodeId _ payload => DevAuth.sealWire nodeId payload) (fun wire =>
    some ⟨UInt64.ofNat (ofBe (wire.take 8)), wire.drop 8, ⟨false, true, .authenticatedDomainPeer 1, 1⟩⟩)

/-- The reserved id stops `DevAuth` itself; opened by another authentication it leaves a poisoned
lock to the next pass. A correction can put the wall time out of `i64`. -/
theorem reserved_peer_stops_the_service :
    (answer (steadyNode 20 .dev) (new (steadyNode 20 .dev))
      (.ingestOnce 0 (DevAuth.sealWire selfPeerId ptpBeacon))).2 = .panicked ∧
    (answer (steadyNode 20 framed) (step (steadyNode 20 framed) (new (steadyNode 20 framed))
      (.ingestOnce 0 (framed.sealWire selfPeerId 0 ptpBeacon))) (.disciplineOnce 1 [])).2 =
        .panicked ∧
    (answer (steadyNode 0x7FFFFFFFFFFFFFFF .dev) (new (steadyNode 0x7FFFFFFFFFFFFFFF .dev))
      (.disciplineOnce 0 [some (gnssReading 1)])).2 = .panicked := by
  refine ⟨by decide +kernel, by decide +kernel, by decide +kernel⟩

end TimeService
end NdnExt.Time
