import NdnExt.Link.Table

/-! Two devices that dial each other: the connections between them, and what each has of them in its
table. -/

namespace NdnExt.Link

inductive Side where
  | left
  | right
  deriving DecidableEq

namespace Side

def other : Side → Side
  | left => right
  | right => left

@[simp] theorem other_other (side : Side) : side.other.other = side := by cases side <;> rfl

theorem other_ne (side : Side) : side.other ≠ side := by cases side <;> decide

theorem eq_or_eq_other (side side' : Side) : side' = side ∨ side' = side.other := by
  cases side <;> cases side' <;> decide

end Side

/-- How far one end of a connection is. -/
inductive Phase where
  | unborn
  | pending
  | live (generation : Nat)
  | done
  deriving DecidableEq

/-- One end of a connection: `closed` once it is closed here or the other end's close came, and
`closing` while that is on its way. -/
structure End where
  phase : Phase
  closed : Bool
  closing : Bool
  deriving DecidableEq

/-- A device: its table of links, and the generations that newer paths took the place of. -/
structure Device where
  fingerprint : KeyFingerprint
  table : LinkTable
  replaced : List Nat

structure Pair where
  dialed : Nat
  dialer : Nat → Side
  ends : Nat → Side → End
  device : Side → Device

/-- What is recorded of a link beside its connection. -/
structure LinkRecord where
  peer : Option PeerId
  identities : List Identity
  shown : List Name
  enrolling : List Name
  face : FaceId
  routes : List Route

inductive LinkAction where
  | dial (side : Side)
  | register (side : Side) (connection : Nat) (link : LinkRecord)
  | refuse (side : Side) (connection : Nat)
  | close (side : Side) (connection : Nat)
  | arrive (side : Side) (connection : Nat)
  | unregister (side : Side) (connection : Nat)

namespace Pair

def start (left right : KeyFingerprint) : Pair where
  dialed := 0
  dialer _ := .left
  ends _ _ := ⟨.unborn, false, false⟩
  device
    | .left => ⟨left, .empty, []⟩
    | .right => ⟨right, .empty, []⟩

variable (pair : Pair)

def theirs (side : Side) : KeyFingerprint := (pair.device side.other).fingerprint

/-- The paths a side has to the other device. -/
def paths (side : Side) : List LivePath := (pair.device side).table.paths (pair.theirs side)

def setEnd (side : Side) (connection : Nat) (e : End) : Pair :=
  let ends := Function.update (pair.ends connection) side e
  { pair with ends := Function.update pair.ends connection ends }

def setDevice (side : Side) (device : Device) : Pair :=
  { pair with device := Function.update pair.device side device }

def setPhase (side : Side) (connection : Nat) (phase : Phase) : Pair :=
  pair.setEnd side connection { pair.ends connection side with phase := phase }

/-- A side closes a connection: it is closed there, and the other end will hear of it. -/
def shut (side : Side) (connection : Nat) : Pair where
  dialed := pair.dialed
  dialer := pair.dialer
  ends := Function.update pair.ends connection fun side' =>
    let e := pair.ends connection side'
    if side' = side then { e with closed := true }
    else { e with closing := e.closing || !e.closed }
  device := pair.device

def shutAll (side : Side) (connections : List Nat) : Pair :=
  connections.foldl (fun pair connection => pair.shut side connection) pair

/-- The registration of a connection at a side. -/
def registration (side : Side) (connection : Nat) (link : LinkRecord) : Registration where
  fingerprint := pair.theirs side
  peer := link.peer
  identities := link.identities
  shown := link.shown
  enrolling := link.enrolling
  path := {
    face := link.face
    handle := ⟨connection⟩
    direction := if pair.dialer connection = side then .dialed else .accepted
    kind := .link
    routes := link.routes }

def register (side : Side) (connection : Nat) (link : LinkRecord) : Pair :=
  let device := pair.device side
  let (table, closes, generation) :=
    device.table.register (pair.registration side connection link) (some device.fingerprint)
  let gone := (device.table.paths (pair.theirs side)).filter fun p =>
    !(table.paths (pair.theirs side)).any fun q => q.generation = p.generation
  let pair := pair.setDevice side
    { device with table := table, replaced := gone.map LivePath.generation ++ device.replaced }
  let pair := pair.setPhase side connection (generation.elim .done .live)
  pair.shutAll side (closes.map fun close => close.handle.connection)

def unregister (side : Side) (connection generation : Nat) : Pair :=
  let device := pair.device side
  let pair := pair.setDevice side
    { device with table := (device.table.unregister (pair.theirs side) generation).1 }
  pair.setPhase side connection .done

/-- One step; an action that cannot happen changes nothing. -/
def step (pair : Pair) : LinkAction → Pair
  | .dial side => {
      dialed := pair.dialed + 1
      dialer := Function.update pair.dialer pair.dialed side
      ends := Function.update pair.ends pair.dialed fun _ => ⟨.pending, false, false⟩
      device := pair.device }
  | .register side connection link =>
    if (pair.ends connection side).phase = .pending then pair.register side connection link
    else pair
  | .refuse side connection =>
    if (pair.ends connection side).phase = .pending then
      (pair.setPhase side connection .done).shut side connection
    else pair
  | .close side connection =>
    if (pair.ends connection side).phase ≠ .unborn then pair.shut side connection else pair
  | .arrive side connection =>
    if (pair.ends connection side).closing then
      pair.setEnd side connection
        { pair.ends connection side with closed := true, closing := false }
    else pair
  | .unregister side connection =>
    match (pair.ends connection side).phase, (pair.ends connection side).closed with
    | .live generation, true => pair.unregister side connection generation
    | _, _ => pair

/-- The connections in a side's table. -/
def held (side : Side) : List Nat := (pair.paths side).map fun p => p.path.handle.connection

/-- No registration, close or unregistration is pending. -/
structure Settled : Prop where
  registered : ∀ connection side, (pair.ends connection side).phase ≠ .pending
  heard : ∀ connection side, (pair.ends connection side).closing = false
  unregistered : ∀ connection side generation,
    (pair.ends connection side).phase = .live generation →
      (pair.ends connection side).closed = false

/-- Both ends keep the same link. -/
structure KeepsSame : Prop where
  one : ∀ side, (pair.held side).length ≤ 1
  same : pair.Settled → pair.held .left = pair.held .right
  open' : pair.Settled → ∀ side, ∀ connection ∈ pair.held side, ∀ side',
    (pair.ends connection side').closed = false
  replaced : ∀ side, ∀ generation ∈ (pair.device side).replaced,
    (pair.device side).table.unregister (pair.theirs side) generation =
      ((pair.device side).table, none)

/-! ### What one step preserves -/

def phase (connection : Nat) (side : Side) : Phase := (pair.ends connection side).phase

/-- The tables against the phases of the connections. -/
structure Linked : Prop where
  born : ∀ connection side, pair.phase connection side = .unborn ↔ pair.dialed ≤ connection
  kinds : ∀ side, ∀ p ∈ pair.paths side, p.path.kind = .link
  one : ∀ side, (pair.paths side).length ≤ 1
  standing : ∀ side, ∀ p ∈ pair.paths side,
    pair.phase p.path.handle.connection side = .live p.generation
  bound : ∀ side connection generation, pair.phase connection side = .live generation →
    generation ≤ (pair.device side).table.generation
  distinct : ∀ side connection other generation, pair.phase connection side = .live generation →
    pair.phase other side = .live generation → connection = other
  stale : ∀ side, ∀ generation ∈ (pair.device side).replaced,
    generation ≤ (pair.device side).table.generation ∧
      ∀ p ∈ pair.paths side, p.generation ≠ generation

/-- What is closed at one end is closed at the other, or will be. -/
structure Told : Prop where
  told : ∀ connection side, (pair.ends connection side).closed →
    (pair.ends connection side.other).closed ∨ (pair.ends connection side.other).closing
  heard : ∀ connection side, (pair.ends connection side).closing →
    (pair.ends connection side.other).closed

/-- What left a table, or never came into it, is closed. -/
structure Accounted : Prop where
  listed : ∀ side connection generation, pair.phase connection side = .live generation →
    (∃ p ∈ pair.paths side, p.path.handle.connection = connection ∧
      p.generation = generation) ∨ (pair.ends connection side).closed
  ended : ∀ side connection, pair.phase connection side = .done →
    (pair.ends connection side).closed

structure Sound : Prop where
  linked : pair.Linked
  told : pair.Told
  accounted : pair.Accounted

variable {pair}

theorem Linked.congr {other : Pair} (linked : pair.Linked) (dialed : other.dialed = pair.dialed)
    (device : other.device = pair.device) (phase : other.phase = pair.phase) : other.Linked := by
  have paths : other.paths = pair.paths := by
    funext side
    unfold paths theirs
    rw [device]
  constructor
  · rw [dialed, phase]; exact linked.born
  · rw [paths]; exact linked.kinds
  · rw [paths]; exact linked.one
  · rw [paths, phase]; exact linked.standing
  · rw [device, phase]; exact linked.bound
  · rw [phase]; exact linked.distinct
  · rw [device, paths]; exact linked.stale

/-! #### Closing -/

@[simp] theorem shut_phase (side : Side) (connection : Nat) :
    (pair.shut side connection).phase = pair.phase := by
  funext other side'
  unfold phase shut
  dsimp only
  rw [Function.update_apply]
  split
  · next same =>
    subst same
    dsimp only
    split <;> rfl
  · rfl

theorem shut_closed (side : Side) (connection other : Nat) (side' : Side) :
    ((pair.shut side connection).ends other side').closed =
      ((pair.ends other side').closed || decide (other = connection ∧ side' = side)) := by
  unfold shut
  dsimp only
  rw [Function.update_apply]
  split
  · next same =>
    subst same
    by_cases here : side' = side
    · simp [here]
    · simp [here]
  · next different => simp [different]

theorem shut_told (told : pair.Told) (side : Side) (connection : Nat) :
    (pair.shut side connection).Told := by
  have same : ∀ other side', other ≠ connection →
      (pair.shut side connection).ends other side' = pair.ends other side' := by
    intro other side' different
    exact congrFun (Function.update_of_ne different _ _) side'
  have here : (pair.shut side connection).ends connection side =
      { pair.ends connection side with closed := true } := by
    simp [shut]
  have there : (pair.shut side connection).ends connection side.other =
      { pair.ends connection side.other with
        closing := (pair.ends connection side.other).closing ||
          !(pair.ends connection side.other).closed } := by
    simp [shut, side.other_ne]
  constructor
  · intro other side' closed
    by_cases connected : other = connection
    · subst connected
      rcases side.eq_or_eq_other side' with rfl | rfl
      · rw [there]
        cases (pair.ends other side'.other).closed <;> simp
      · rw [Side.other_other, here]
        exact .inl rfl
    · rw [same other _ connected] at closed ⊢
      exact told.told other side' closed
  · intro other side' closing
    by_cases connected : other = connection
    · subst connected
      rcases side.eq_or_eq_other side' with rfl | rfl
      · rw [here] at closing
        rw [there]
        exact told.heard other side' closing
      · rw [Side.other_other, here]
    · rw [same other _ connected] at closing ⊢
      exact told.heard other side' closing

theorem shut_accounted (accounted : pair.Accounted) (side : Side) (connection : Nat) :
    (pair.shut side connection).Accounted := by
  constructor
  · intro side' other generation live
    rw [shut_phase] at live
    rcases accounted.listed side' other generation live with listed | closed
    · exact .inl listed
    · exact .inr (by rw [shut_closed, closed]; rfl)
  · intro side' other done
    rw [shut_phase] at done
    rw [shut_closed, accounted.ended side' other done]
    rfl

theorem shut_sound (sound : pair.Sound) (side : Side) (connection : Nat) :
    (pair.shut side connection).Sound where
  linked := sound.linked.congr rfl rfl (shut_phase side connection)
  told := shut_told sound.told side connection
  accounted := shut_accounted sound.accounted side connection

/-- Closing some connections changes no table and no phase. -/
theorem shutAll_spec (connections : List Nat) (side : Side) (pair : Pair) :
    (pair.shutAll side connections).dialed = pair.dialed ∧
    (pair.shutAll side connections).device = pair.device ∧
    (pair.shutAll side connections).phase = pair.phase ∧
    (pair.Told → (pair.shutAll side connections).Told) ∧
    ∀ other side', ((pair.shutAll side connections).ends other side').closed =
      ((pair.ends other side').closed || decide (other ∈ connections ∧ side' = side)) := by
  induction connections generalizing pair with
  | nil => exact ⟨rfl, rfl, rfl, id, fun other side' => by simp [shutAll]⟩
  | cons connection rest ih =>
    rcases ih (pair.shut side connection) with ⟨dialed, device, phase, told, closed⟩
    refine ⟨dialed, device, phase.trans (shut_phase side connection), ?_, ?_⟩
    · intro before
      exact told (shut_told before side connection)
    · intro other side'
      refine (closed other side').trans ?_
      rw [shut_closed, Bool.or_assoc, ← Bool.decide_or]
      congr 2
      rw [List.mem_cons, or_and_right]

/-! #### Registering -/

theorem setDevice_device (side : Side) (device : Device) (side' : Side) :
    (pair.setDevice side device).device side' =
      if side' = side then device else pair.device side' :=
  Function.update_apply _ _ _ _

theorem setPhase_ends (side : Side) (connection : Nat) (phase : Phase) (other : Nat)
    (side' : Side) :
    (pair.setPhase side connection phase).ends other side' =
      if other = connection ∧ side' = side then { pair.ends connection side with phase := phase }
      else pair.ends other side' := by
  unfold setPhase setEnd
  dsimp only
  by_cases connected : other = connection
  · subst connected
    rw [Function.update_self, Function.update_apply]
    simp only [true_and]
  · rw [Function.update_of_ne connected, if_neg fun both => connected both.1]

theorem setPhase_phase (side : Side) (connection : Nat) (phase : Phase) (other : Nat)
    (side' : Side) :
    (pair.setPhase side connection phase).phase other side' =
      if other = connection ∧ side' = side then phase else pair.phase other side' := by
  unfold Pair.phase
  rw [setPhase_ends]
  split <;> rfl

theorem setPhase_closed (side : Side) (connection : Nat) (phase : Phase) (other : Nat)
    (side' : Side) :
    ((pair.setPhase side connection phase).ends other side').closed =
      (pair.ends other side').closed ∧
    ((pair.setPhase side connection phase).ends other side').closing =
      (pair.ends other side').closing := by
  rw [setPhase_ends]
  split
  · next same =>
    rw [same.1, same.2]
    exact ⟨rfl, rfl⟩
  · exact ⟨rfl, rfl⟩

theorem Told.congr {other : Pair} (told : pair.Told)
    (closed : ∀ connection side,
      (other.ends connection side).closed = (pair.ends connection side).closed ∧
      (other.ends connection side).closing = (pair.ends connection side).closing) :
    other.Told := by
  constructor
  · intro connection side
    rw [(closed connection side).1, (closed connection side.other).1,
      (closed connection side.other).2]
    exact told.told connection side
  · intro connection side
    rw [(closed connection side).2, (closed connection side.other).1]
    exact told.heard connection side

/-- A side has a new table, with one connection in a new phase. -/
structure Moves (pair next : Pair) (side : Side) (connection : Nat) (phase : Phase) : Prop where
  dialed : next.dialed = pair.dialed
  phases : ∀ other side', next.phase other side' =
    if other = connection ∧ side' = side then phase else pair.phase other side'
  paths : next.paths side.other = pair.paths side.other
  device : next.device side.other = pair.device side.other

variable {connection : Nat} {side : Side}

theorem Moves.accounted {next : Pair} {phase : Phase}
    (moves : pair.Moves next side connection phase) (accounted : pair.Accounted)
    (closed : ∀ other side', (pair.ends other side').closed → (next.ends other side').closed)
    (here : ∀ generation, phase = .live generation →
      (∃ p ∈ next.paths side, p.path.handle.connection = connection ∧ p.generation = generation) ∨
        (next.ends connection side).closed)
    (done : phase = .done → (next.ends connection side).closed)
    (others : ∀ other generation, other ≠ connection → pair.phase other side = .live generation →
      ∀ p ∈ pair.paths side, p.path.handle.connection = other → p.generation = generation →
        p ∈ next.paths side ∨ (next.ends other side).closed) :
    next.Accounted := by
  constructor
  · intro side' other generation live
    rw [moves.phases] at live
    split at live
    · next same =>
      rcases same with ⟨rfl, rfl⟩
      exact here generation live
    · next elsewhere =>
      rcases accounted.listed side' other generation live with ⟨p, listed, handle, same⟩ | before
      · rcases side.eq_or_eq_other side' with rfl | rfl
        · have different : other ≠ connection := fun same => elsewhere ⟨same, rfl⟩
          rcases others other generation different live p listed handle same with stays | closed
          · exact .inl ⟨p, stays, handle, same⟩
          · exact .inr closed
        · rw [moves.paths]
          exact .inl ⟨p, listed, handle, same⟩
      · exact .inr (closed other side' before)
  · intro side' other ended
    rw [moves.phases] at ended
    split at ended
    · next same =>
      rcases same with ⟨rfl, rfl⟩
      exact done ended
    · exact closed other side' (accounted.ended side' other ended)

theorem Moves.linked {next : Pair} {phase : Phase}
    (moves : pair.Moves next side connection phase) (linked : pair.Linked)
    (born : connection < pair.dialed) (real : phase ≠ .unborn)
    (kinds : ∀ p ∈ next.paths side, p.path.kind = .link) (one : (next.paths side).length ≤ 1)
    (standing : ∀ p ∈ next.paths side,
      (p.path.handle.connection = connection ∧ phase = .live p.generation) ∨
        (p.path.handle.connection ≠ connection ∧ p ∈ pair.paths side))
    (fresh : ∀ generation, phase = .live generation →
      generation = (pair.device side).table.generation + 1 ∧
        (next.device side).table.generation = generation)
    (grows : (pair.device side).table.generation ≤ (next.device side).table.generation)
    (stale : ∀ generation ∈ (next.device side).replaced,
      generation ≤ (next.device side).table.generation ∧
        ∀ p ∈ next.paths side, p.generation ≠ generation) : next.Linked := by
  constructor
  · intro other side'
    rw [moves.dialed, moves.phases]
    split
    · next same =>
      rw [same.1]
      exact iff_of_false real (Nat.not_le_of_gt born)
    · exact linked.born other side'
  · intro side'
    rcases side.eq_or_eq_other side' with rfl | rfl
    · exact kinds
    · rw [moves.paths]
      exact linked.kinds _
  · intro side'
    rcases side.eq_or_eq_other side' with rfl | rfl
    · exact one
    · rw [moves.paths]
      exact linked.one _
  · intro side' p listed
    rw [moves.phases]
    rcases side.eq_or_eq_other side' with rfl | rfl
    · rcases standing p listed with ⟨handle, live⟩ | ⟨elsewhere, before⟩
      · rw [if_pos ⟨handle, rfl⟩, live]
      · rw [if_neg fun same => elsewhere same.1]
        exact linked.standing _ p before
    · rw [if_neg fun same => side.other_ne same.2]
      rw [moves.paths] at listed
      exact linked.standing _ p listed
  · intro side' other generation live
    rw [moves.phases] at live
    rcases side.eq_or_eq_other side' with rfl | rfl
    · split at live
      · rw [(fresh generation live).2]
      · exact (linked.bound _ other generation live).trans grows
    · rw [if_neg fun same => side.other_ne same.2] at live
      rw [moves.device]
      exact linked.bound _ other generation live
  · intro side' first second generation live live'
    rw [moves.phases] at live live'
    rcases side.eq_or_eq_other side' with rfl | rfl
    · split at live
      · next same =>
        split at live'
        · next same' => rw [same.1, same'.1]
        · have before := linked.bound _ second generation live'
          have after := (fresh generation live).1
          omega
      · split at live'
        · have before := linked.bound _ first generation live
          have after := (fresh generation live').1
          omega
        · exact linked.distinct _ first second generation live live'
    · rw [if_neg fun same => side.other_ne same.2] at live live'
      exact linked.distinct _ first second generation live live'
  · intro side'
    rcases side.eq_or_eq_other side' with rfl | rfl
    · exact stale
    · rw [moves.device, moves.paths]
      exact linked.stale _

/-- The table's answer to a registration. -/
def answer (pair : Pair) (side : Side) (connection : Nat) (link : LinkRecord) :
    LinkTable × List Close × Option Nat :=
  (pair.device side).table.register (pair.registration side connection link)
    (some (pair.device side).fingerprint)

theorem register_spec (side : Side) (connection : Nat) (link : LinkRecord) :
    let next := pair.register side connection link
    pair.Moves next side connection ((pair.answer side connection link).2.2.elim .done .live) ∧
    next.paths side = (pair.answer side connection link).1.paths (pair.theirs side) ∧
    (next.device side).table = (pair.answer side connection link).1 ∧
    (∀ generation ∈ (next.device side).replaced,
      generation ∈ (pair.device side).replaced ∨
        (∃ p ∈ pair.paths side, p.generation = generation) ∧
          ∀ p ∈ next.paths side, p.generation ≠ generation) ∧
    (pair.Told → next.Told) ∧
    ∀ other side', (next.ends other side').closed =
      ((pair.ends other side').closed || decide (other ∈
        ((pair.answer side connection link).2.1.map Close.handle).map LinkHandle.connection ∧
          side' = side)) := by
  intro next
  let answer := pair.answer side connection link
  let gone := (pair.paths side).filter fun p =>
    !(answer.1.paths (pair.theirs side)).any fun q => q.generation = p.generation
  let device : Device := { pair.device side with
    table := answer.1
    replaced := gone.map LivePath.generation ++ (pair.device side).replaced }
  let phased := (pair.setDevice side device).setPhase side connection
    (answer.2.2.elim .done .live)
  have unfolded : next = phased.shutAll side
      (answer.2.1.map fun close => close.handle.connection) := rfl
  rcases shutAll_spec (answer.2.1.map fun close => close.handle.connection) side phased with
    ⟨dialed, devices, phases, told, closed⟩
  rw [← unfolded] at dialed devices phases told closed
  have here : next.device side = device := by
    rw [devices]
    exact (setDevice_device side device side).trans (if_pos rfl)
  have there : next.device side.other = pair.device side.other := by
    rw [devices]
    exact (setDevice_device side device side.other).trans (if_neg side.other_ne)
  have theirs : next.theirs side = pair.theirs side := by
    unfold Pair.theirs
    rw [there]
  have ours : next.theirs side.other = pair.theirs side.other := by
    unfold Pair.theirs
    rw [Side.other_other, here]
  have paths : next.paths side = answer.1.paths (pair.theirs side) := by
    unfold Pair.paths
    rw [here, theirs]
  refine ⟨⟨dialed, ?_, ?_, there⟩, paths, by rw [here], ?_, ?_, ?_⟩
  · intro other side'
    rw [phases]
    exact setPhase_phase side connection _ other side'
  · unfold Pair.paths
    rw [there, ours]
  · intro generation among
    rw [here] at among
    rcases List.mem_append.mp among with new | before
    · rcases List.mem_map.mp new with ⟨p, left, rfl⟩
      rcases List.mem_filter.mp left with ⟨listed, unlisted⟩
      refine .inr ⟨⟨p, listed, rfl⟩, ?_⟩
      intro q listed' same
      rw [paths] at listed'
      rw [Bool.not_eq_true', List.any_eq_false] at unlisted
      exact unlisted q listed' (decide_eq_true same)
    · exact .inl before
  · intro before
    exact told (before.congr fun other side' => setPhase_closed side connection _ other side')
  · intro other side'
    rw [closed, List.map_map]
    exact congrArg (· || _) (setPhase_closed side connection _ other side').1

/-- A registration keeps the tables, the phases and what is closed in step. -/
theorem register_sound (sound : pair.Sound)
    (pending : pair.phase connection side = .pending) (link : LinkRecord) :
    (pair.register side connection link).Sound := by
  have linked := sound.linked
  have born : connection < pair.dialed := by
    by_contra unborn
    rw [(linked.born connection side).mpr (Nat.le_of_not_lt unborn)] at pending
    cases pending
  have elsewhere : ∀ p ∈ pair.paths side, p.path.handle.connection ≠ connection := by
    intro p listed same
    have live := linked.standing side p listed
    rw [same, pending] at live
    cases live
  rcases pair.register_spec side connection link with ⟨moves, paths, table, replaced, told, closed⟩
  have grown : (pair.answer side connection link).1.generation =
      (pair.device side).table.generation + 1 := LinkTable.register_generation
  have keepsClosed : ∀ other side', (pair.ends other side').closed →
      ((pair.register side connection link).ends other side').closed := by
    intro other side' before
    rw [closed, before]
    rfl
  have old : ∀ generation ∈ ((pair.register side connection link).device side).replaced,
      generation ≤ (pair.device side).table.generation := by
    intro generation among
    rcases replaced generation among with before | ⟨⟨p, listed, rfl⟩, _⟩
    · exact (linked.stale side generation before).1
    · exact linked.bound side _ _ (linked.standing side p listed)
  rcases (pair.device side).table.register_cases (pair.registration side connection link)
    (some (pair.device side).fingerprint) with
    ⟨_, live, handles, refused⟩ | ⟨_, joined, handles, granted⟩
  · have phase : (pair.answer side connection link).2.2.elim Phase.done .live = .done :=
      congrArg (fun granted => Option.elim granted Phase.done .live) refused
    have same : (pair.register side connection link).paths side = pair.paths side := by
      rw [paths]
      unfold LinkTable.paths Pair.paths LinkTable.paths answer
      rw [live]
    have shut : ((pair.register side connection link).ends connection side).closed := by
      rw [closed]
      have among : connection ∈ ((pair.answer side connection link).2.1.map Close.handle).map
          LinkHandle.connection := by
        rw [show (pair.answer side connection link).2.1.map Close.handle = _ from handles]
        exact List.mem_singleton_self connection
      rw [decide_eq_true ⟨among, rfl⟩, Bool.or_true]
    rw [phase] at moves
    refine ⟨moves.linked linked born nofun ?_ ?_ ?_ nofun ?_ ?_, told sound.told,
      moves.accounted sound.accounted keepsClosed nofun (fun _ => shut) ?_⟩
    · rw [same]
      exact linked.kinds side
    · rw [same]
      exact linked.one side
    · intro p listed
      rw [same] at listed
      exact .inr ⟨elsewhere p listed, listed⟩
    · rw [table, grown]
      exact Nat.le_succ _
    · intro generation among
      rw [table, grown]
      refine ⟨(old generation among).trans (Nat.le_succ _), ?_⟩
      rcases replaced generation among with before | ⟨_, gone⟩
      · rw [same]
        exact (linked.stale side generation before).2
      · exact gone
    · intro other generation _ _ p listed _ _
      rw [same]
      exact .inl listed
  · have phase : (pair.answer side connection link).2.2.elim Phase.done .live =
        .live ((pair.device side).table.generation + 1) :=
      congrArg (fun granted => Option.elim granted Phase.done .live) granted
    have single : (pair.register side connection link).paths side =
        [⟨(pair.registration side connection link).path,
          (pair.device side).table.generation + 1⟩] := by
      rw [paths]
      refine (joined (pair.theirs side)).trans ?_
      rw [if_pos (by rfl), List.filter_eq_nil_iff.mpr, List.nil_append]
      intro p listed
      rw [decide_eq_true_eq, not_not]
      exact linked.kinds side p listed
    rw [phase] at moves
    refine ⟨moves.linked linked born nofun ?_ ?_ ?_ ?_ ?_ ?_, told sound.told,
      moves.accounted sound.accounted keepsClosed ?_ nofun ?_⟩
    · intro p listed
      rw [single] at listed
      rw [List.mem_singleton.mp listed]
      rfl
    · rw [single]
      rfl
    · intro p listed
      rw [single] at listed
      rw [List.mem_singleton.mp listed]
      exact .inl ⟨rfl, rfl⟩
    · intro generation same
      cases same
      exact ⟨rfl, by rw [table, grown]⟩
    · rw [table, grown]
      exact Nat.le_succ _
    · intro generation among
      rw [table, grown]
      have before := old generation among
      refine ⟨by omega, ?_⟩
      intro p listed
      rw [single] at listed
      rw [List.mem_singleton.mp listed]
      dsimp only
      omega
    · intro generation same
      cases same
      refine .inl ⟨_, by rw [single]; exact List.mem_singleton_self _, rfl, rfl⟩
    · intro other generation different live p listed handle same
      refine .inr ?_
      rw [closed]
      have among : other ∈ ((pair.answer side connection link).2.1.map Close.handle).map
          LinkHandle.connection := by
        rw [show (pair.answer side connection link).2.1.map Close.handle = _ from handles]
        refine List.mem_map.mpr ⟨p.path.handle, List.mem_map.mpr ⟨p, ?_, rfl⟩, handle⟩
        exact List.mem_filter.mpr ⟨listed, decide_eq_true (linked.kinds side p listed)⟩
      rw [decide_eq_true ⟨among, rfl⟩, Bool.or_true]

/-! #### Unregistering -/

theorem eraseP_of_one {paths : List LivePath} (one : paths.length ≤ 1) {p : LivePath}
    (listed : p ∈ paths) : paths.eraseP (fun q => q.generation = p.generation) = [] := by
  rcases paths with _ | ⟨q, _ | ⟨_, _⟩⟩
  · cases listed
  · rw [List.mem_singleton.mp listed]
    exact List.eraseP_cons_of_pos (decide_eq_true rfl)
  · simp at one

/-- The end of a path, handled with the generation it was registered under. -/
theorem unregister_sound (sound : pair.Sound) {generation : Nat}
    (live : pair.phase connection side = .live generation)
    (closed : (pair.ends connection side).closed) :
    (pair.unregister side connection generation).Sound := by
  have linked := sound.linked
  let next := pair.unregister side connection generation
  have here : next.device side = { pair.device side with
      table := ((pair.device side).table.unregister (pair.theirs side) generation).1 } :=
    (setDevice_device side _ side).trans (if_pos rfl)
  have there : next.device side.other = pair.device side.other :=
    (setDevice_device side _ side.other).trans (if_neg side.other_ne)
  have theirs : next.theirs side = pair.theirs side := by
    unfold Pair.theirs
    rw [there]
  have ours : next.theirs side.other = pair.theirs side.other := by
    unfold Pair.theirs
    rw [Side.other_other, here]
  have paths : next.paths side =
      (pair.paths side).eraseP fun p => p.generation = generation := by
    unfold Pair.paths
    rw [here, theirs]
    exact (LinkTable.unregister_paths _ _ _ _).trans (if_pos rfl)
  have moves : pair.Moves next side connection .done := {
    dialed := rfl
    phases := setPhase_phase side connection .done
    paths := by
      unfold Pair.paths
      rw [there, ours]
    device := there }
  have ends : ∀ other side', (next.ends other side').closed = (pair.ends other side').closed ∧
      (next.ends other side').closing = (pair.ends other side').closing :=
    setPhase_closed side connection .done
  have counter : (next.device side).table.generation = (pair.device side).table.generation := by
    rw [here]
    exact LinkTable.unregister_generation _ _
  have still : ∀ p ∈ next.paths side, p ∈ pair.paths side := by
    intro p listed
    rw [paths] at listed
    exact List.mem_of_mem_eraseP listed
  have born : connection < pair.dialed := by
    by_contra unborn
    rw [(linked.born connection side).mpr (Nat.le_of_not_lt unborn)] at live
    cases live
  refine ⟨moves.linked linked born nofun ?_ ?_ ?_ nofun counter.ge ?_, sound.told.congr ends,
    moves.accounted sound.accounted ?_ nofun ?_ ?_⟩
  · intro p listed
    exact linked.kinds side p (still p listed)
  · rw [paths]
    exact List.length_eraseP_le.trans (linked.one side)
  · intro p listed
    refine .inr ⟨?_, still p listed⟩
    intro same
    have standing := linked.standing side p (still p listed)
    rw [same, live, Phase.live.injEq] at standing
    have before := still p listed
    rw [paths, standing, eraseP_of_one (linked.one side) before] at listed
    cases listed
  · intro other among
    rw [counter]
    rw [here] at among
    exact ⟨(linked.stale side other among).1, fun p listed =>
      (linked.stale side other among).2 p (still p listed)⟩
  · intro other side' before
    rw [(ends other side').1]
    exact before
  · intro _
    rw [(ends connection side).1]
    exact closed
  · intro other generation' different live' p listed handle same
    rw [paths]
    refine .inl ((List.mem_eraseP_of_neg ?_).mpr listed)
    rw [decide_eq_true_eq]
    intro ended
    refine different (linked.distinct side other connection generation ?_ live)
    rw [live', ← same, ended]

/-! ### Runs -/

theorem dial_sound (sound : pair.Sound) (side : Side) : (pair.step (.dial side)).Sound := by
  have phases : ∀ connection side', (pair.step (.dial side)).phase connection side' =
      if connection = pair.dialed then .pending else pair.phase connection side' := by
    intro connection side'
    unfold phase step
    dsimp only
    rw [Function.update_apply]
    split <;> rfl
  have others : ∀ connection, connection ≠ pair.dialed →
      (pair.step (.dial side)).ends connection = pair.ends connection :=
    fun connection different => Function.update_of_ne different _ _
  have new : (pair.step (.dial side)).ends pair.dialed = fun _ => ⟨.pending, false, false⟩ :=
    Function.update_self _ _ _
  have older : ∀ {connection side' generation},
      (pair.step (.dial side)).phase connection side' = .live generation →
        pair.phase connection side' = .live generation := by
    intro connection side' generation live
    rw [phases] at live
    split at live
    · cases live
    · exact live
  have linked := sound.linked
  refine ⟨⟨?_, linked.kinds, linked.one, ?_, ?_, ?_, linked.stale⟩, ⟨?_, ?_⟩, ⟨?_, ?_⟩⟩
  · intro connection side'
    rw [phases, show (pair.step (.dial side)).dialed = pair.dialed + 1 from rfl]
    split
    · next same => exact iff_of_false nofun (by omega)
    · next different =>
      rw [linked.born]
      omega
  · intro side' p listed
    have standing := linked.standing side' p listed
    rw [phases, if_neg, standing]
    intro same
    rw [same, (linked.born pair.dialed side').mpr le_rfl] at standing
    cases standing
  · intro side' connection generation live
    exact linked.bound side' connection generation (older live)
  · intro side' connection other generation live live'
    exact linked.distinct side' connection other generation (older live) (older live')
  · intro connection side' closed
    by_cases same : connection = pair.dialed
    · rw [same, new] at closed
      cases closed
    · rw [others connection same] at closed ⊢
      exact sound.told.told connection side' closed
  · intro connection side' closing
    by_cases same : connection = pair.dialed
    · rw [same, new] at closing
      cases closing
    · rw [others connection same] at closing ⊢
      exact sound.told.heard connection side' closing
  · intro side' connection generation live
    rcases sound.accounted.listed side' connection generation (older live) with listed | closed
    · exact .inl listed
    · refine .inr ?_
      rw [others]
      · exact closed
      · rintro rfl
        rw [phases, if_pos rfl] at live
        cases live
  · intro side' connection done
    rw [phases] at done
    split at done
    · cases done
    · next different =>
      rw [others connection different]
      exact sound.accounted.ended side' connection done

/-- An end that was not registered is done, and closed. -/
theorem refuse_sound (sound : pair.Sound)
    (pending : pair.phase connection side = .pending) :
    ((pair.setPhase side connection .done).shut side connection).Sound := by
  have linked := sound.linked
  have born : connection < pair.dialed := by
    by_contra unborn
    rw [(linked.born connection side).mpr (Nat.le_of_not_lt unborn)] at pending
    cases pending
  have elsewhere : ∀ p ∈ pair.paths side, p.path.handle.connection ≠ connection := by
    intro p listed same
    have live := linked.standing side p listed
    rw [same, pending] at live
    cases live
  let next := (pair.setPhase side connection .done).shut side connection
  have moves : pair.Moves next side connection .done := {
    dialed := rfl
    phases := by
      intro other side'
      rw [shut_phase]
      exact setPhase_phase side connection .done other side'
    paths := rfl
    device := rfl }
  have closed : ∀ other side', (next.ends other side').closed =
      ((pair.ends other side').closed || decide (other = connection ∧ side' = side)) := by
    intro other side'
    rw [shut_closed, (setPhase_closed side connection .done other side').1]
  refine ⟨moves.linked linked born nofun (linked.kinds side) (linked.one side) ?_ nofun le_rfl
    (linked.stale side), shut_told (sound.told.congr (setPhase_closed side connection .done)) _ _,
    moves.accounted sound.accounted ?_ nofun ?_ ?_⟩
  · intro p listed
    exact .inr ⟨elsewhere p listed, listed⟩
  · intro other side' before
    rw [closed, before]
    rfl
  · intro _
    rw [closed, decide_eq_true ⟨rfl, rfl⟩, Bool.or_true]
  · intro other generation _ _ p listed _ _
    exact .inl listed

theorem arrive_sound (sound : pair.Sound)
    (closing : (pair.ends connection side).closing) :
    (pair.setEnd side connection
      { pair.ends connection side with closed := true, closing := false }).Sound := by
  let next := pair.setEnd side connection
    { pair.ends connection side with closed := true, closing := false }
  have ends : ∀ other side', next.ends other side' =
      if other = connection ∧ side' = side then
        { pair.ends connection side with closed := true, closing := false }
      else pair.ends other side' := by
    intro other side'
    by_cases connected : other = connection
    · subst connected
      refine (congrFun (Function.update_self _ _ _) side').trans ?_
      rw [Function.update_apply]
      simp only [true_and]
    · rw [if_neg fun both => connected both.1]
      exact congrFun (Function.update_of_ne connected _ _) side'
  have phases : next.phase = pair.phase := by
    funext other side'
    unfold Pair.phase
    rw [ends]
    split
    · next same => rw [same.1, same.2]
    · rfl
  have closed : ∀ other side', (pair.ends other side').closed → (next.ends other side').closed := by
    intro other side' before
    rw [ends]
    split
    · rfl
    · exact before
  have heard := sound.told.heard connection side closing
  refine ⟨sound.linked.congr rfl rfl phases, ⟨?_, ?_⟩, ⟨?_, ?_⟩⟩
  · intro other side' before
    rw [ends] at before
    split at before
    · next same =>
      rw [same.1, same.2]
      exact .inl (closed _ _ heard)
    · rcases sound.told.told other side' before with told | coming
      · exact .inl (closed _ _ told)
      · rw [ends]
        split
        · exact .inl rfl
        · exact .inr coming
  · intro other side' coming
    rw [ends] at coming
    split at coming
    · cases coming
    · exact closed _ _ (sound.told.heard other side' coming)
  · intro side' other generation live
    rw [phases] at live
    rcases sound.accounted.listed side' other generation live with listed | before
    · exact .inl listed
    · exact .inr (closed _ _ before)
  · intro side' other done
    rw [phases] at done
    exact closed _ _ (sound.accounted.ended side' other done)

theorem start_sound (left right : KeyFingerprint) : (start left right).Sound := by
  have paths : ∀ side, (start left right).paths side = [] := by
    intro side
    cases side <;> rfl
  refine ⟨⟨fun c _ => iff_of_true rfl c.zero_le, ?_, ?_, ?_, nofun, nofun, ?_⟩, ⟨nofun, nofun⟩, ⟨nofun, nofun⟩⟩
  · intro side p listed
    rw [paths] at listed
    cases listed
  · intro side
    rw [paths]
    exact Nat.zero_le 1
  · intro side p listed
    rw [paths] at listed
    cases listed
  · intro side
    cases side <;> exact nofun

theorem step_sound (sound : pair.Sound) (action : LinkAction) : (pair.step action).Sound := by
  cases action with
  | dial side => exact dial_sound sound side
  | register side connection link =>
    unfold step
    dsimp only
    split
    · next pending => exact register_sound sound pending link
    · exact sound
  | refuse side connection =>
    unfold step
    dsimp only
    split
    · next pending => exact refuse_sound sound pending
    · exact sound
  | close side connection =>
    unfold step
    dsimp only
    split
    · exact shut_sound sound side connection
    · exact sound
  | arrive side connection =>
    unfold step
    dsimp only
    split
    · next closing => exact arrive_sound sound closing
    · exact sound
  | unregister side connection =>
    unfold step
    dsimp only
    split
    · next generation live closed => exact unregister_sound sound live closed
    · exact sound

theorem run_sound (left right : KeyFingerprint) (actions : List LinkAction) :
    (actions.foldl step (start left right)).Sound := by
  induction actions using List.reverseRecOn with
  | nil => exact start_sound left right
  | append_singleton earlier action ih =>
    rw [List.foldl_append]
    exact step_sound ih action

/-- Where nothing is pending, a connection in one table is open at both ends and in the other. -/
theorem Sound.other_holds (sound : pair.Sound) (settled : pair.Settled)
    (holds : connection ∈ pair.held side) :
    connection ∈ pair.held side.other ∧ ∀ side', (pair.ends connection side').closed = false := by
  rcases List.mem_map.mp holds with ⟨p, listed, rfl⟩
  have live := sound.linked.standing side p listed
  have here := settled.unregistered _ side _ live
  have there : (pair.ends p.path.handle.connection side.other).closed = false := by
    by_contra closed
    rcases sound.told.told _ side.other ((Bool.not_eq_false _).mp closed) with told | coming
    · rw [Side.other_other, here] at told
      cases told
    · rw [settled.heard] at coming
      cases coming
  refine ⟨?_, ?_⟩
  · cases phase : pair.phase p.path.handle.connection side.other with
    | unborn =>
      have unborn := (sound.linked.born _ side).mpr ((sound.linked.born _ _).mp phase)
      rw [unborn] at live
      cases live
    | pending => exact absurd phase (settled.registered _ _)
    | done =>
      rw [sound.accounted.ended _ _ phase] at there
      cases there
    | live generation =>
      rcases sound.accounted.listed _ _ _ phase with ⟨q, listed', handle, _⟩ | closed
      · exact List.mem_map.mpr ⟨q, listed', handle⟩
      · rw [closed] at there
        cases there
  · intro side'
    rcases side.eq_or_eq_other side' with rfl | rfl
    · exact here
    · exact there

theorem eq_of_mem_iff {left right : List Nat} (short : left.length ≤ 1) (short' : right.length ≤ 1)
    (same : ∀ connection, connection ∈ left ↔ connection ∈ right) : left = right := by
  rcases left with _ | ⟨first, _ | ⟨_, _⟩⟩
  · exact (List.eq_nil_iff_forall_not_mem.mpr fun connection among =>
      List.not_mem_nil ((same connection).mpr among)).symm
  · rcases right with _ | ⟨second, _ | ⟨_, _⟩⟩
    · exact absurd ((same first).mp List.mem_cons_self) List.not_mem_nil
    · rw [List.mem_singleton.mp ((same first).mp List.mem_cons_self)]
    · simp at short'
  · simp at short

theorem Sound.keepsSame (sound : pair.Sound) : pair.KeepsSame := by
  have one : ∀ side, (pair.held side).length ≤ 1 := by
    intro side
    unfold held
    rw [List.length_map]
    exact sound.linked.one side
  refine ⟨one, ?_, ?_, ?_⟩
  · intro settled
    refine eq_of_mem_iff (one .left) (one .right) ?_
    intro connection
    exact ⟨fun holds => (sound.other_holds settled holds).1,
      fun holds => (sound.other_holds settled holds).1⟩
  · intro settled side connection holds
    exact (sound.other_holds settled holds).2
  · intro side generation among
    exact LinkTable.unregister_absent (sound.linked.stale side generation among).2

/-- Whatever two devices dial, register, refuse, close and unregister, and in whatever order, they
are left with the same link. -/
theorem both_ends_keep_the_same_link (left right : KeyFingerprint) (actions : List LinkAction) :
    (actions.foldl step (start left right)).KeepsSame :=
  (run_sound left right actions).keepsSame

end Pair

/-! ### When both dial -/

theorem KeyFingerprint.lt_or_lt {left right : KeyFingerprint} (distinct : left ≠ right) :
    left < right ∨ right < left := by
  by_contra neither
  rw [not_or] at neither
  apply distinct
  have same : left.bytes.toList = right.bytes.toList :=
    List.le_antisymm (List.not_lt.mp neither.2) (List.not_lt.mp neither.1)
  cases left
  cases right
  exact congrArg KeyFingerprint.mk (Vector.toList_inj.mp same)

theorem KeyFingerprint.not_lt_of_lt {left right : KeyFingerprint} (less : left < right) :
    ¬ right < left :=
  @List.lt_asymm UInt8 _ _ _ _ less

/-- Each of two links that were dialed from both ends is kept over the other at one end exactly where
it is kept at the other end. -/
theorem keepsExisting_agrees {left right : KeyFingerprint} (distinct : left ≠ right)
    (existing : Direction) :
    let new := match existing with
      | .dialed => Direction.accepted
      | .accepted => .dialed
    keepsExisting existing new (some left) right = keepsExisting new existing (some right) left ∧
      keepsExisting existing new (some left) right =
        !keepsExisting new existing (some left) right := by
  rcases KeyFingerprint.lt_or_lt distinct with less | less
  · have greater := KeyFingerprint.not_lt_of_lt less
    cases existing <;> simp [keepsExisting, less, greater]
  · have greater := KeyFingerprint.not_lt_of_lt less
    cases existing <;> simp [keepsExisting, less, greater]

theorem keepsExisting_agrees_zero_one :
    keepsExisting .dialed .accepted (some ⟨.replicate 32 0⟩) ⟨.replicate 32 1⟩ =
      keepsExisting .accepted .dialed (some ⟨.replicate 32 1⟩) ⟨.replicate 32 0⟩ :=
  (keepsExisting_agrees (by decide) .dialed).1

end NdnExt.Link
