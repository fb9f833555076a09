import NdnExt.Link.Quotas

/-! The punches of direct paths that run at the same time. -/

namespace NdnExt.Link

open NdnExt.Lib NdnExt.Lib.Run HashMap

/-- The id of a punch, which the device that asks for it picks. -/
structure PathSession where
  bytes : Vector UInt8 8
  deriving DecidableEq

def punchesMax : Nat := 16

/-- `up` is the channel to the task of a punch, and `owner` the punch that inserted the session. -/
structure Session where
  peer : KeyFingerprint
  up : Option Nat
  claimed : Bool
  owner : Nat
  deriving DecidableEq

/-- A punch whose task runs, which a guard takes from the sessions when it ends. -/
structure Punch where
  number : Nat
  session : PathSession
  peer : KeyFingerprint
  deriving DecidableEq

/-- A path that claimed its session and is being admitted, with the punch it claimed. -/
structure Claimed where
  session : PathSession
  owner : Nat
  deriving DecidableEq

structure Punching where
  sessions : HashMap PathSession Session
  running : List Punch
  next : Nat
  admitting : List Claimed
  claims : List Nat

inductive PunchAction where
  | runPunch (session : PathSession) (peer : KeyFingerprint)
  | claim (session : PathSession) (peer : KeyFingerprint)
  | pathUp (path : Claimed)
  | giveUp (path : Claimed)
  | finish (punch : Punch)

namespace Punching

def start : Punching := ⟨∅, [], 0, [], []⟩

/-- The session that a path from a peer may claim. -/
def claimable (p : Punching) (session : PathSession) (peer : KeyFingerprint) : Option Session :=
  (p.sessions.lookup session).filter fun s => s.peer = peer && !s.claimed

/-- The punch that a path is handed to. -/
def handedTo (p : Punching) (session : PathSession) : Option Nat :=
  (p.sessions.lookup session).bind Session.up

def step (p : Punching) : PunchAction → Punching
  | .runPunch session peer =>
    if p.sessions.entries.length ≥ punchesMax then p
    else { p with
      sessions := p.sessions.insert session ⟨peer, some p.next, false, p.next⟩
      running := ⟨p.next, session, peer⟩ :: p.running
      next := p.next + 1 }
  | .claim session peer =>
    match p.claimable session peer with
    | none => p
    | some s => { p with
        sessions := p.sessions.insert session { s with claimed := true }
        admitting := ⟨session, s.owner⟩ :: p.admitting
        claims := s.owner :: p.claims }
  | .pathUp path =>
    if path ∈ p.admitting then
      { p with
        sessions := match p.sessions.lookup path.session with
          | none => p.sessions
          | some s => p.sessions.insert path.session { s with up := none }
        admitting := p.admitting.erase path }
    else p
  | .giveUp path => { p with admitting := p.admitting.erase path }
  | .finish punch =>
    if punch ∈ p.running then
      { p with
        sessions := p.sessions.erase punch.session
        running := p.running.erase punch }
    else p

/-- What the steps of other punches leave to each one. -/
structure Undisturbed (actions : List PunchAction) : Prop where
  few : (actions.foldl step start).sessions.entries.length ≤ punchesMax
  own : ∀ punch ∈ (actions.foldl step start).running, ∃ s,
    (actions.foldl step start).sessions.lookup punch.session = some s ∧
      s.owner = punch.number ∧ s.peer = punch.peer
  claims : Throughout step start actions fun p action => ∀ session peer,
    action = .claim session peer → ∀ s, p.claimable session peer = some s →
      s.owner ∉ p.claims ∧ (∃ punch ∈ p.running, punch.number = s.owner ∧
        punch.session = session ∧ punch.peer = peer) ∧
      (p.step action).claims = s.owner :: p.claims
  handed : Throughout step start actions fun p action => ∀ path ∈ p.admitting,
    action = .pathUp path → (∀ n, p.handedTo path.session = some n → n = path.owner) ∧
      ((∃ punch ∈ p.running, punch.number = path.owner) →
        p.handedTo path.session = some path.owner)
  ends : Throughout step start actions fun p action => ∀ punch, action = .finish punch →
    ∀ other ∈ p.running, other ≠ punch →
      (p.step action).sessions.lookup other.session = p.sessions.lookup other.session

/-- No punch takes the id of one that runs, or of one whose path is being admitted. -/
def Distinct (p : Punching) : PunchAction → Prop
  | .runPunch session _ => p.sessions.lookup session = none ∧
      ∀ path ∈ p.admitting, path.session ≠ session
  | _ => True

instance (p : Punching) (action : PunchAction) : Decidable (p.Distinct action) := by
  unfold Distinct
  split <;> infer_instance

/-! ### What a run preserves -/

/-- The sessions are those of the running punches, and a path being admitted is the only one of
its punch. -/
structure Sound (p : Punching) : Prop where
  few : p.sessions.entries.length ≤ punchesMax
  older : ∀ punch ∈ p.running, punch.number < p.next
  distinct : (p.running.map Punch.number).Nodup
  own : ∀ punch ∈ p.running, ∃ s, p.sessions.lookup punch.session = some s ∧
    s.owner = punch.number ∧ s.peer = punch.peer
  owned : ∀ session s, p.sessions.lookup session = some s →
    ⟨s.owner, session, s.peer⟩ ∈ p.running ∧ (∀ n, s.up = some n → n = s.owner) ∧
      (s.claimed = false → s.owner ∉ p.claims ∧ s.up = some s.owner)
  claims : ∀ n ∈ p.claims, n < p.next
  admitting : (p.admitting.map Claimed.owner).Nodup
  claimed : ∀ path ∈ p.admitting, path.owner ∈ p.claims ∧
    (∀ punch ∈ p.running, punch.number = path.owner → punch.session = path.session) ∧
      ∀ s, p.sessions.lookup path.session = some s → s.owner = path.owner ∧ s.up = some path.owner

theorem start_sound : start.Sound where
  few := Nat.zero_le _
  older := nofun
  distinct := List.nodup_nil
  own := nofun
  owned := nofun
  claims := nofun
  admitting := List.nodup_nil
  claimed := nofun

variable {p : Punching}

theorem Sound.eq_of_number (sound : p.Sound) {left right : Punch} (among : left ∈ p.running)
    (among' : right ∈ p.running) (same : left.number = right.number) : left = right :=
  List.inj_on_of_nodup_map sound.distinct among among' same

theorem Sound.eq_of_session (sound : p.Sound) {left right : Punch} (among : left ∈ p.running)
    (among' : right ∈ p.running) (same : left.session = right.session) : left = right := by
  rcases sound.own left among with ⟨s, held, owner, _⟩
  rcases sound.own right among' with ⟨s', held', owner', _⟩
  rw [same, held', Option.some.injEq] at held
  subst held
  exact sound.eq_of_number among among' (owner.symm.trans owner')

theorem runPunch_sound (sound : p.Sound) {session : PathSession} {peer : KeyFingerprint}
    (distinct : p.Distinct (.runPunch session peer)) :
    (p.step (.runPunch session peer)).Sound := by
  rcases distinct with ⟨absent, unclaimed⟩
  unfold step
  dsimp only
  split
  · exact sound
  · next room =>
    have elsewhere : ∀ {other s}, p.sessions.lookup other = some s → other ≠ session := by
      rintro other s held rfl
      rw [absent] at held
      cases held
    refine ⟨?_, ?_, ?_, ?_, ?_, ?_, sound.admitting, ?_⟩
    · have longer := length_insert_le p.sessions session ⟨peer, some p.next, false, p.next⟩
      exact longer.trans (Nat.not_le.mp room)
    · intro punch among
      rcases List.mem_cons.mp among with rfl | earlier
      · exact Nat.lt_succ_self _
      · exact Nat.lt_succ_of_lt (sound.older punch earlier)
    · rw [List.map_cons, List.nodup_cons]
      refine ⟨?_, sound.distinct⟩
      intro taken
      rcases List.mem_map.mp taken with ⟨punch, among, same⟩
      exact absurd (sound.older punch among) (by rw [same]; exact lt_irrefl _)
    · intro punch among
      rcases List.mem_cons.mp among with rfl | earlier
      · exact ⟨_, by rw [lookup_insert_eq, if_pos rfl], rfl, rfl⟩
      · rcases sound.own punch earlier with ⟨s, held, same⟩
        exact ⟨s, by rw [lookup_insert_eq, if_neg (elsewhere held)]; exact held, same⟩
    · intro other s held
      rw [lookup_insert_eq] at held
      split at held
      · next same =>
        subst same
        cases held
        refine ⟨List.mem_cons_self, fun _ up => (Option.some.inj up).symm, fun _ => ⟨?_, rfl⟩⟩
        intro known
        exact lt_irrefl _ (sound.claims _ known)
      · rcases sound.owned other s held with ⟨among, rest⟩
        exact ⟨List.mem_cons_of_mem _ among, rest⟩
    · intro n known
      exact Nat.lt_succ_of_lt (sound.claims n known)
    · intro path among
      rcases sound.claimed path among with ⟨known, same, entry⟩
      refine ⟨known, ?_, ?_⟩
      · intro punch running number
        rcases List.mem_cons.mp running with rfl | earlier
        · have less := sound.claims _ known
          rw [← number] at less
          exact absurd less (lt_irrefl _)
        · exact same punch earlier number
      · intro s held
        rw [lookup_insert_eq, if_neg (unclaimed path among)] at held
        exact entry s held

/-- A path claims the session of a running punch with its peer, which no path claimed before. -/
theorem Sound.claimable_spec (sound : p.Sound) {session : PathSession} {peer : KeyFingerprint}
    {s : Session} (claims : p.claimable session peer = some s) :
    p.sessions.lookup session = some s ∧ s.owner ∉ p.claims ∧ s.up = some s.owner ∧
      ⟨s.owner, session, peer⟩ ∈ p.running := by
  rcases Option.filter_eq_some_iff.mp claims with ⟨held, condition⟩
  rw [Bool.and_eq_true, decide_eq_true_eq, Bool.not_eq_true'] at condition
  rcases sound.owned session s held with ⟨among, _, fresh⟩
  rcases fresh condition.2 with ⟨unclaimed, up⟩
  rw [condition.1] at among
  exact ⟨held, unclaimed, up, among⟩

theorem claims_claim {session : PathSession} {peer : KeyFingerprint} {s : Session}
    (claims : p.claimable session peer = some s) :
    (p.step (.claim session peer)).claims = s.owner :: p.claims := by
  unfold step
  dsimp only
  rw [claims]

/-- The end of a punch leaves the sessions of the others. -/
theorem Sound.lookup_finish (sound : p.Sound) {punch other : Punch} (among : other ∈ p.running)
    (different : other ≠ punch) :
    (p.step (.finish punch)).sessions.lookup other.session = p.sessions.lookup other.session := by
  unfold step
  dsimp only
  split
  · next running =>
    rw [lookup_erase_eq, if_neg]
    intro same
    exact different (sound.eq_of_session among running same)
  · rfl

theorem claim_sound (sound : p.Sound) (session : PathSession) (peer : KeyFingerprint) :
    (p.step (.claim session peer)).Sound := by
  unfold step
  dsimp only
  split
  · exact sound
  · next s claims =>
    rcases sound.claimable_spec claims with ⟨held, unclaimed, up, among⟩
    have others : ∀ path ∈ p.admitting, path.owner ≠ s.owner := by
      intro path admitting same
      exact unclaimed (same ▸ (sound.claimed path admitting).1)
    refine ⟨?_, sound.older, sound.distinct, ?_, ?_, ?_, ?_, ?_⟩
    · rw [length_insert_of_lookup _ held]
      exact sound.few
    · intro punch running
      rcases sound.own punch running with ⟨s', held', same⟩
      rw [lookup_insert_eq]
      split
      · next here =>
        rw [here, held, Option.some.injEq] at held'
        subst held'
        exact ⟨_, rfl, same⟩
      · exact ⟨s', held', same⟩
    · intro other s' held'
      rw [lookup_insert_eq] at held'
      split at held'
      · next here =>
        subst here
        cases held'
        exact ⟨(sound.owned other s held).1, (sound.owned other s held).2.1, nofun⟩
      · next elsewhere =>
        rcases sound.owned other s' held' with ⟨running, mine, fresh⟩
        refine ⟨running, mine, ?_⟩
        intro free
        refine ⟨?_, (fresh free).2⟩
        intro known
        rcases List.mem_cons.mp known with same | earlier
        · exact elsewhere (congrArg Punch.session (sound.eq_of_number running among same))
        · exact (fresh free).1 earlier
    · intro n known
      rcases List.mem_cons.mp known with rfl | earlier
      · exact sound.older _ among
      · exact sound.claims n earlier
    · rw [List.map_cons, List.nodup_cons]
      refine ⟨?_, sound.admitting⟩
      intro taken
      rcases List.mem_map.mp taken with ⟨path, admitting, same⟩
      exact others path admitting same
    · intro path admitting
      rcases List.mem_cons.mp admitting with rfl | earlier
      · refine ⟨List.mem_cons_self, ?_, ?_⟩
        · intro punch running number
          rw [sound.eq_of_number running among number]
        · intro s' held'
          rw [lookup_insert_eq, if_pos rfl] at held'
          cases held'
          exact ⟨rfl, up⟩
      · rcases sound.claimed path earlier with ⟨known, same, entry⟩
        refine ⟨List.mem_cons_of_mem _ known, same, ?_⟩
        intro s' held'
        rw [lookup_insert_eq] at held'
        split at held'
        · next here =>
          rw [← here] at held
          exact absurd (entry s held).1.symm (others path earlier)
        · exact entry s' held'

theorem Sound.forget (sound : p.Sound) (path : Claimed) :
    Sound { p with admitting := p.admitting.erase path } :=
  { sound with
    admitting := sound.admitting.sublist (List.erase_sublist.map _)
    claimed := fun other among => sound.claimed other (List.mem_of_mem_erase among) }

theorem pathUp_sound (sound : p.Sound) (path : Claimed) : (p.step (.pathUp path)).Sound := by
  unfold step
  dsimp only
  split
  · next admitting =>
    split
    · exact sound.forget path
    · next s held =>
      rcases sound.claimed path admitting with ⟨known, same, entry⟩
      rcases entry s held with ⟨owner, up⟩
      have forgotten := sound.forget path
      refine ⟨?_, sound.older, sound.distinct, ?_, ?_, sound.claims, forgotten.admitting, ?_⟩
      · rw [length_insert_of_lookup _ held]
        exact sound.few
      · intro punch running
        rcases sound.own punch running with ⟨s', held', mine⟩
        rw [lookup_insert_eq]
        split
        · next here =>
          rw [here, held, Option.some.injEq] at held'
          subst held'
          exact ⟨_, rfl, mine⟩
        · exact ⟨s', held', mine⟩
      · intro other s' held'
        rw [lookup_insert_eq] at held'
        split at held'
        · next here =>
          subst here
          cases held'
          rcases sound.owned path.session s held with ⟨running, _, fresh⟩
          refine ⟨running, nofun, ?_⟩
          intro free
          exact absurd (owner ▸ known) (fresh free).1
        · exact sound.owned other s' held'
      · intro other among
        rcases forgotten.claimed other among with ⟨known', same', entry'⟩
        refine ⟨known', same', ?_⟩
        intro s' held'
        rw [lookup_insert_eq] at held'
        split at held'
        · next here =>
          rw [← here] at held
          have both := (entry' s held).1.symm.trans owner
          have twice := List.inj_on_of_nodup_map sound.admitting
            (List.mem_of_mem_erase among) admitting both
          rw [twice] at among
          have nodup := sound.admitting.of_map
          exact absurd among nodup.not_mem_erase
        · exact entry' s' held'
  · exact sound

theorem finish_sound (sound : p.Sound) (punch : Punch) : (p.step (.finish punch)).Sound := by
  unfold step
  dsimp only
  split
  · next running =>
    have others : ∀ other ∈ p.running.erase punch, other.session ≠ punch.session := by
      intro other among same
      have twice := sound.eq_of_session (List.mem_of_mem_erase among) running same
      rw [twice] at among
      exact sound.distinct.of_map.not_mem_erase among
    refine ⟨?_, ?_, ?_, ?_, ?_, sound.claims, sound.admitting, ?_⟩
    · exact (length_erase_le _ _).trans sound.few
    · exact fun other among => sound.older other (List.mem_of_mem_erase among)
    · exact sound.distinct.sublist (List.erase_sublist.map _)
    · intro other among
      rw [lookup_erase_eq, if_neg (others other among)]
      exact sound.own other (List.mem_of_mem_erase among)
    · intro session s held
      rcases lookup_erase_eq_some.mp held with ⟨elsewhere, held⟩
      rcases sound.owned session s held with ⟨among, rest⟩
      refine ⟨(List.mem_erase_of_ne ?_).mpr among, rest⟩
      rintro rfl
      exact elsewhere rfl
    · intro path admitting
      rcases sound.claimed path admitting with ⟨known, same, entry⟩
      refine ⟨known, fun other among => same other (List.mem_of_mem_erase among), ?_⟩
      intro s held
      exact entry s (lookup_erase_eq_some.mp held).2
  · exact sound

theorem step_sound (sound : p.Sound) {action : PunchAction} (distinct : p.Distinct action) :
    (p.step action).Sound := by
  cases action with
  | runPunch session peer => exact runPunch_sound sound distinct
  | claim session peer => exact claim_sound sound session peer
  | pathUp path => exact pathUp_sound sound path
  | giveUp path => exact sound.forget path
  | finish punch => exact finish_sound sound punch

theorem run_sound {actions : List PunchAction}
    (distinct : Throughout step start actions Distinct) : (actions.foldl step start).Sound :=
  @foldl_of_throughout _ _ step Punching.Sound _ (fun _ _ sound now => step_sound sound now) start
    start_sound actions distinct

/-- Punches with distinct ids do not disturb each other. -/
theorem undisturbed (actions : List PunchAction)
    (distinct : Throughout step start actions Distinct) : Undisturbed actions := by
  have sound : ∀ earlier action later, actions = earlier ++ action :: later →
      (earlier.foldl step start).Sound := by
    rintro earlier action later rfl
    exact run_sound (throughout_append.mp distinct).1
  refine ⟨(run_sound distinct).few, (run_sound distinct).own, ?_, ?_, ?_⟩
  · rintro earlier action later split session peer rfl s claims
    rcases (sound earlier _ later split).claimable_spec claims with ⟨_, unclaimed, _, among⟩
    exact ⟨unclaimed, ⟨_, among, rfl, rfl, rfl⟩, claims_claim claims⟩
  · rintro earlier action later split path admitting rfl
    rcases (sound earlier _ later split).claimed path admitting with ⟨_, same, entry⟩
    unfold handedTo
    constructor
    · intro n handed
      rcases Option.bind_eq_some_iff.mp handed with ⟨s, held, up⟩
      rw [(entry s held).2, Option.some.injEq] at up
      exact up.symm
    · rintro ⟨punch, running, number⟩
      rcases (sound earlier _ later split).own punch running with ⟨s, held, _⟩
      rw [same punch running number] at held
      rw [held]
      exact (entry s held).2
  · rintro earlier action later split punch rfl other among different
    exact (sound earlier _ later split).lookup_finish among different

namespace Example

def id : PathSession := ⟨.replicate 8 7⟩

def left : KeyFingerprint := ⟨.replicate 32 1⟩

def right : KeyFingerprint := ⟨.replicate 32 2⟩

/-- Another device picks the id of a punch that runs. -/
def taken : List PunchAction := [.runPunch id left, .runPunch id right]

theorem taken_disturbed : ¬ Undisturbed taken := by
  intro undisturbed
  rcases undisturbed.own ⟨0, id, left⟩ (by decide +kernel) with ⟨s, held, owner, _⟩
  have replaced : (taken.foldl step start).sessions.lookup id =
      some ⟨right, some 1, false, 1⟩ := by
    decide +kernel
  rw [show (⟨0, id, left⟩ : Punch).session = id from rfl, replaced, Option.some.injEq] at held
  subst held
  cases owner

/-- Two punches run, one is claimed and gets its path, and its id is taken again after its end. -/
def again : List PunchAction :=
  [.runPunch id left, .runPunch ⟨.replicate 8 9⟩ right, .claim id left, .claim id left,
    .pathUp ⟨id, 0⟩, .finish ⟨0, id, left⟩, .runPunch id right]

theorem again_undisturbed : Undisturbed again := undisturbed again (by decide +kernel)

end Example

end Punching

end NdnExt.Link
