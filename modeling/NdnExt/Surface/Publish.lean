import Mathlib.Data.List.Nodup
import NdnExt.Lib.BigEndian
import NdnExt.Lib.Run
import NdnExt.Packet.Name

/-! A surface's publisher: one subscriber or many, a window for remote ones, and a durable store. -/

namespace NdnExt.Surface

open NdnExt.Lib NdnExt.Lib.Run List

abbrev Bytes := List UInt8

def versionComponent (v : UInt64) : NameComponent := ⟨0x36, minimalSlice v.toNat⟩

def appendVersion (name : Name) (v : UInt64) : Name := name.appendComponent (versionComponent v)

/-- The wire of a frame. -/
structure Frame where
  name : Name
  content : Bytes
  deriving DecidableEq

/-- Faces are numbered in the order in which their rings are made. -/
inductive Sink where
  | single (face : Nat)
  | fanout (faces incoming : List Nat)
  deriving DecidableEq

/-- Recent frames by version, in ascending order. -/
structure FrameWindow where
  frames : List (UInt64 × Frame)
  cap : Nat

variable {wire : Frame}

namespace FrameWindow

def new (cap : Nat) : FrameWindow := ⟨[], cap⟩

def insert (window : FrameWindow) (seq : UInt64) (wire : Frame) : FrameWindow :=
  let frames := window.frames.filter (·.1 < seq) ++
    (seq, wire) :: window.frames.filter (seq < ·.1)
  { window with frames := frames.drop (frames.length - window.cap) }

def get (window : FrameWindow) (seq : UInt64) : Option Frame :=
  (window.frames.find? (·.1 = seq)).map (·.2)

theorem mem_insert {window : FrameWindow} {seq : UInt64} {entry : UInt64 × Frame}
    (found : entry ∈ (window.insert seq wire).frames) :
    entry = (seq, wire) ∨ entry ∈ window.frames := by
  have among := mem_of_mem_drop found
  rcases mem_append.mp among with older | rest
  · exact Or.inr (mem_filter.mp older).1
  · rcases mem_cons.mp rest with same | newer
    · exact Or.inl same
    · exact Or.inr (mem_filter.mp newer).1

end FrameWindow

def defaultServeWindow : Nat := 1024

structure NamedPublisher where
  sink : Sink
  name : Name
  seq : UInt64
  window : Option FrameWindow
  /-- The frames handed to the write-behind task. -/
  retainTx : Option (List Frame)

/-- A publisher and the rings of its subscribers, by face. -/
structure World where
  publisher : NamedPublisher
  rings : List (List Frame)

inductive PublishAction where
  | attach
  /-- `fails` says which faces fail to send. -/
  | publish (content : Bytes) (fails : Nat → Bool)

/-- Sends a wire to each face in turn, and leaves on the first that fails. -/
def sendEach (fails : Nat → Bool) (wire : Frame) :
    List Nat → List (List Frame) → List (List Frame) × Bool
  | [], rings => (rings, true)
  | face :: faces, rings =>
    if fails face then (rings, false)
    else sendEach fails wire faces (rings.modify face (· ++ [wire]))

def sendWireToSink (fails : Nat → Bool) (wire : Frame) (rings : List (List Frame)) :
    Sink → Sink × List (List Frame) × Bool
  | .single face => (.single face, sendEach fails wire [face] rings)
  | .fanout faces incoming =>
    (.fanout (faces ++ incoming) [], sendEach fails wire (faces ++ incoming) rings)

namespace World

def openSingle (name : Name) : World := ⟨⟨.single 0, name, 0, none, none⟩, [[]]⟩

def openFanout (name : Name) : World := ⟨⟨.fanout [] [], name, 0, none, none⟩, []⟩

def serveOnForwarder (world : World) : World :=
  { world with publisher := { world.publisher with window := some (.new defaultServeWindow) } }

def retain (world : World) : World :=
  { world with publisher := { world.publisher with retainTx := some [] } }

/-- What an application opens: served on a forwarder or not, retained or not. -/
inductive Opened (name : Name) : World → Prop where
  | single : Opened name (openSingle name)
  | fanout : Opened name (openFanout name)
  | serveOnForwarder {world : World} : Opened name world → Opened name world.serveOnForwarder
  | retain {world : World} : Opened name world → Opened name world.retain

/-- The name of the frame, or none where the publish fails. -/
def publish (fails : Nat → Bool) (content : Bytes) (world : World) : World × Option Name :=
  let p := world.publisher
  let frameName := appendVersion p.name p.seq
  let wire : Frame := ⟨frameName, content⟩
  if p.window.isSome || p.retainTx.isSome then
    let (sink, rings, sent) := sendWireToSink fails wire world.rings p.sink
    if sent then
      (⟨{ p with
          sink := sink
          window := p.window.map (·.insert p.seq wire)
          retainTx := p.retainTx.map (· ++ [wire])
          seq := p.seq + 1 }, rings⟩, some frameName)
    else (⟨{ p with sink := sink }, rings⟩, none)
  else
    match p.sink with
    | .single face =>
      if fails face then (world, none)
      else (⟨{ p with seq := p.seq + 1 }, world.rings.modify face (· ++ [wire])⟩, some frameName)
    | .fanout faces incoming =>
      let faces := faces ++ incoming
      let (rings, sent) := sendEach fails wire faces world.rings
      if sent then (⟨{ p with sink := .fanout faces [], seq := p.seq + 1 }, rings⟩, some frameName)
      else (⟨{ p with sink := .fanout faces [] }, rings⟩, none)

/-- The one ring of a single sink is made when the surface is opened. -/
def attach (world : World) : World :=
  match world.publisher.sink with
  | .single _ => world
  | .fanout faces incoming =>
    ⟨{ world.publisher with sink := .fanout faces (incoming ++ [world.rings.length]) },
      world.rings ++ [[]]⟩

def step (world : World) : PublishAction → World
  | .attach => world.attach
  | .publish content fails => (world.publish fails content).1

def run (world : World) (actions : List PublishAction) : World := actions.foldl step world

/-- The frame of a publish that succeeds. -/
def answered (world : World) : PublishAction → List Frame
  | .attach => []
  | .publish content fails => (world.publish fails content).2.toList.map (⟨·, content⟩)

/-- The frames of the publishes of a run that succeed. -/
def accepted : World → List PublishAction → List Frame
  | _, [] => []
  | world, action :: rest => world.answered action ++ accepted (world.step action) rest

def ring (world : World) (face : Nat) : List Frame := world.rings.getD face []

/-- A subscriber, the window or the write-behind task has the frame. -/
def Holds (world : World) (frame : Frame) : Prop :=
  (∃ ring ∈ world.rings, frame ∈ ring) ∨
    (∃ window, world.publisher.window = some window ∧ ∃ entry ∈ window.frames, entry.2 = frame) ∨
    ∃ handed, world.publisher.retainTx = some handed ∧ frame ∈ handed

def Delivered (world : World) (actions : List PublishAction) (frame : Frame) : Prop :=
  ∃ earlier later, actions = earlier ++ later ∧ (world.run earlier).Holds frame

/-- Each subscriber gets the frames of the publishes that succeed, under names of their own, and one
that fails keeps no other from its frames. -/
structure DeliversExactly (world : World) (actions : List PublishAction) : Prop where
  one_content : ∀ first second, world.Delivered actions first → world.Delivered actions second →
    first.name = second.name → first.content = second.content
  exactly : ∀ earlier later face, actions = earlier ++ later →
    face < (world.run earlier).rings.length →
      (∀ content fails, .publish content fails ∈ later → fails face = false) →
        (world.run actions).ring face =
          (world.run earlier).ring face ++ (world.run earlier).accepted later
  others : ∀ earlier later failing face, actions = earlier ++ later → failing ≠ face →
    failing < (world.run earlier).rings.length → face < (world.run earlier).rings.length →
      (∀ content fails, .publish content fails ∈ later →
        fails failing = true ∧ fails face = false) →
        ((world.run actions).ring face).map Frame.content =
          ((world.run earlier).ring face).map Frame.content ++ later.filterMap fun
            | .attach => none
            | .publish content _ => some content

end World

def Sink.faces : Sink → List Nat
  | .single face => [face]
  | .fanout faces incoming => faces ++ incoming

namespace World

/-- The sends of a publish fail to all subscribers or to none, and its version is not the last. -/
def Together (world : World) : PublishAction → Prop
  | .attach => True
  | .publish _ fails => world.publisher.seq.toNat + 1 < 2 ^ 64 ∧
      ((∀ face ∈ world.publisher.sink.faces, fails face = true) ∨
        ∀ face ∈ world.publisher.sink.faces, fails face = false)

instance (world : World) (action : PublishAction) : Decidable (world.Together action) :=
  match action with
  | .attach => .isTrue trivial
  | .publish _ _ => inferInstanceAs (Decidable (_ ∧ (_ ∨ _)))

/-! ### One publish -/

variable {fails : Nat → Bool} {world : World}

theorem sendEach_err {faces : List Nat}
    (all : ∀ face ∈ faces, fails face = true) (some : faces ≠ [])
    (rings : List (List Frame)) : sendEach fails wire faces rings = (rings, false) := by
  cases faces with
  | nil => exact absurd rfl some
  | cons face faces => rw [sendEach, if_pos (all face mem_cons_self)]

theorem sendEach_ok {faces : List Nat}
    (none : ∀ face ∈ faces, fails face = false) (rings : List (List Frame)) :
    sendEach fails wire faces rings =
      (faces.foldl (fun rings face => rings.modify face (· ++ [wire])) rings, true) := by
  induction faces generalizing rings with
  | nil => rfl
  | cons face faces ih =>
    rw [forall_mem_cons] at none
    rw [sendEach, none.1, if_neg (by decide), ih none.2, foldl_cons]

theorem getElem_sent (wire : Frame) {faces : List Nat} (nodup : faces.Nodup)
    (rings : List (List Frame)) (face : Nat) :
    (faces.foldl (fun rings face => rings.modify face (· ++ [wire])) rings)[face]? =
      if face ∈ faces then rings[face]?.map (· ++ [wire]) else rings[face]? := by
  induction faces generalizing rings with
  | nil => rfl
  | cons first faces ih =>
    rw [nodup_cons] at nodup
    rw [foldl_cons, ih nodup.2, List.getElem?_modify]
    by_cases here : face = first
    · subst here
      simp [nodup.1]
    · simp [here, Ne.symm here]

/-- Each ring takes the frame once. -/
theorem sendEach_range {rings : List (List Frame)}
    (none : ∀ face ∈ List.range rings.length, fails face = false) :
    sendEach fails wire (List.range rings.length) rings =
      (rings.map (· ++ [wire]), true) := by
  rw [sendEach_ok none]
  refine congrArg (·, true) (ext_getElem? ?_)
  intro face
  rw [getElem_sent wire nodup_range, List.getElem?_map]
  split
  · rfl
  · next beyond =>
    rw [mem_range] at beyond
    rw [List.getElem?_eq_none (by omega)]
    rfl

/-- The subscribers are those whose rings were made. -/
def Sound (world : World) : Prop :=
  world.publisher.sink.faces = List.range world.rings.length

/-- After a publish that reaches every subscriber. -/
def sent (world : World) (sink : Sink) (wire : Frame) : World :=
  let p := world.publisher
  ⟨{ p with
      sink := sink
      window := p.window.map (·.insert p.seq wire)
      retainTx := p.retainTx.map (· ++ [wire])
      seq := p.seq + 1 }, world.rings.map (· ++ [wire])⟩

/-- After a publish that reaches none. -/
def unsent (world : World) (sink : Sink) : World :=
  { world with publisher := { world.publisher with sink := sink } }

/-- Both ways of a publish send the same. -/
theorem publish_eq (fails : Nat → Bool) (content : Bytes) (world : World) :
    world.publish fails content =
      let p := world.publisher
      let wire : Frame := ⟨appendVersion p.name p.seq, content⟩
      let out := sendWireToSink fails wire world.rings p.sink
      if out.2.2 then
        (⟨{ p with
            sink := out.1
            window := p.window.map (·.insert p.seq wire)
            retainTx := p.retainTx.map (· ++ [wire])
            seq := p.seq + 1 }, out.2.1⟩, some wire.name)
      else (⟨{ p with sink := out.1 }, out.2.1⟩, none) := by
  rcases world with ⟨⟨sink, name, seq, window, retainTx⟩, rings⟩
  unfold publish
  dsimp only
  split
  · rfl
  · next plain =>
    rw [Bool.or_eq_true, not_or, Bool.not_eq_true, Bool.not_eq_true] at plain
    rw [Option.isSome_eq_false_iff, Option.isSome_eq_false_iff, Option.isNone_iff_eq_none,
      Option.isNone_iff_eq_none] at plain
    rcases plain with ⟨rfl, rfl⟩
    cases sink with
    | single face =>
      dsimp only [sendWireToSink, sendEach]
      split <;> rfl
    | fanout faces incoming => rfl

theorem publish_cases (sound : world.Sound) {content : Bytes}
    (together : world.Together (.publish content fails)) :
    ∃ sink : Sink, sink.faces = world.publisher.sink.faces ∧
      (world.publish fails content =
          (world.sent sink ⟨appendVersion world.publisher.name world.publisher.seq, content⟩,
            some (appendVersion world.publisher.name world.publisher.seq)) ∨
        world.publish fails content = (world.unsent sink, none) ∧
          ∀ face ∈ world.publisher.sink.faces, fails face = true) := by
  have faces : ∀ wire rings, ∃ sink, sink.faces = world.publisher.sink.faces ∧
      sendWireToSink fails wire rings world.publisher.sink =
        (sink, sendEach fails wire world.publisher.sink.faces rings) := by
    intro wire rings
    cases world.publisher.sink with
    | single face => exact ⟨_, rfl, rfl⟩
    | fanout faces incoming => exact ⟨.fanout (faces ++ incoming) [], append_nil _, rfl⟩
  rcases faces ⟨appendVersion world.publisher.name world.publisher.seq, content⟩ world.rings with
    ⟨sink, same, sends⟩
  refine ⟨sink, same, ?_⟩
  rw [publish_eq]
  dsimp only
  rw [sends, sound]
  by_cases none : ∀ face ∈ List.range world.rings.length, fails face = false
  · rw [sendEach_range none]
    exact Or.inl rfl
  · have all := together.2.resolve_right (by rw [sound]; exact none)
    rw [sound] at all
    have some : List.range world.rings.length ≠ [] := by
      intro empty
      rw [empty] at none
      exact none (forall_mem_nil _)
    rw [sendEach_err all some]
    exact Or.inr ⟨rfl, all⟩

/-! ### Runs -/

theorem Opened.sound {name : Name} (opened : Opened name world) :
    world.Sound ∧ ∀ frame, ¬ world.Holds frame := by
  induction opened with
  | single => exact ⟨rfl, by simp [Holds, openSingle]⟩
  | fanout => exact ⟨rfl, by simp [Holds, openFanout]⟩
  | serveOnForwarder _ ih =>
    refine ⟨ih.1, ?_⟩
    rintro frame (among | ⟨window, same, entry, found, _⟩ | handed)
    · exact ih.2 frame (Or.inl among)
    · cases same
      cases found
    · exact ih.2 frame (Or.inr (Or.inr handed))
  | retain _ ih =>
    refine ⟨ih.1, ?_⟩
    rintro frame (among | window | ⟨handed, same, found⟩)
    · exact ih.2 frame (Or.inl among)
    · exact ih.2 frame (Or.inr (Or.inl window))
    · cases same
      cases found

/-- What a step does to the rings and to what is held. -/
structure Follows (world : World) (action : PublishAction) (next : World) : Prop where
  sound : next.Sound
  name : next.publisher.name = world.publisher.name
  more : world.rings.length ≤ next.rings.length
  ring : ∀ face < world.rings.length, next.ring face = world.ring face ++ world.answered action
  holds : ∀ frame, next.Holds frame → world.Holds frame ∨ frame ∈ world.answered action
  seq : world.answered action = [] ∧ next.publisher.seq = world.publisher.seq ∨
    (∃ content, world.answered action =
        [⟨appendVersion world.publisher.name world.publisher.seq, content⟩]) ∧
      next.publisher.seq.toNat = world.publisher.seq.toNat + 1

theorem attach_follows (sound : world.Sound) :
    world.Follows .attach (world.step .attach) := by
  rcases world with ⟨⟨sink, name, seq, window, retainTx⟩, rings⟩
  cases sink with
  | single face =>
    exact ⟨sound, rfl, Nat.le_refl _, fun _ _ => (append_nil _).symm, fun _ => Or.inl,
      Or.inl ⟨rfl, rfl⟩⟩
  | fanout faces incoming =>
    refine ⟨?_, rfl, ?_, ?_, ?_, Or.inl ⟨rfl, rfl⟩⟩
    · change faces ++ (incoming ++ [rings.length]) = List.range (rings ++ [[]]).length
      rw [← append_assoc, length_append, length_singleton, range_succ]
      exact congrArg (· ++ [rings.length]) sound
    · change rings.length ≤ (rings ++ [[]]).length
      rw [length_append]
      omega
    · intro face below
      change (rings ++ [[]]).getD face [] = rings.getD face [] ++ []
      rw [append_nil, getD_eq_getElem?_getD, getD_eq_getElem?_getD,
        List.getElem?_append_left below]
    · rintro frame (⟨ring, among, found⟩ | other)
      · rcases mem_append.mp among with before | new
        · exact Or.inl (Or.inl ⟨ring, before, found⟩)
        · rw [mem_singleton.mp new] at found
          cases found
      · exact Or.inl (Or.inr other)

theorem sent_follows (sound : world.Sound) {content : Bytes}
    (fits : world.publisher.seq.toNat + 1 < 2 ^ 64) {sink : Sink}
    (same : sink.faces = world.publisher.sink.faces)
    (publishes : world.publish fails content =
      (world.sent sink ⟨appendVersion world.publisher.name world.publisher.seq, content⟩,
        some (appendVersion world.publisher.name world.publisher.seq))) :
    world.Follows (.publish content fails) (world.step (.publish content fails)) := by
  have answers : world.answered (.publish content fails) =
      [⟨appendVersion world.publisher.name world.publisher.seq, content⟩] := by
    rw [answered, publishes]
    rfl
  rw [step, publishes]
  refine ⟨?_, rfl, ?_, ?_, ?_, Or.inr ⟨⟨content, answers⟩, ?_⟩⟩
  · change sink.faces = List.range (world.rings.map _).length
    rw [length_map, same]
    exact sound
  · exact Nat.le_of_eq (length_map _).symm
  · intro face below
    rw [answers]
    unfold World.ring sent
    rw [getD_eq_getElem?_getD, getD_eq_getElem?_getD, List.getElem?_map,
      List.getElem?_eq_getElem below]
    rfl
  · rw [answers]
    rintro frame (⟨ring, among, found⟩ | ⟨window, is, entry, found, rfl⟩ | ⟨handed, is, found⟩)
    · rcases mem_map.mp among with ⟨before, mem, rfl⟩
      rcases mem_append.mp found with old | new
      · exact Or.inl (Or.inl ⟨before, mem, old⟩)
      · exact Or.inr new
    · rcases Option.map_eq_some_iff.mp is with ⟨before, was, rfl⟩
      rcases FrameWindow.mem_insert found with new | old
      · rw [new]
        exact Or.inr (mem_singleton_self _)
      · exact Or.inl (Or.inr (Or.inl ⟨before, was, entry, old, rfl⟩))
    · rcases Option.map_eq_some_iff.mp is with ⟨before, was, rfl⟩
      rcases mem_append.mp found with old | new
      · exact Or.inl (Or.inr (Or.inr ⟨before, was, old⟩))
      · exact Or.inr new
  · change (world.publisher.seq + 1).toNat = _
    rw [UInt64.toNat_add, UInt64.toNat_one, Nat.mod_eq_of_lt fits]

theorem step_follows (sound : world.Sound) {action : PublishAction}
    (together : world.Together action) : world.Follows action (world.step action) := by
  cases action with
  | attach => exact attach_follows sound
  | publish content fails =>
    rcases publish_cases sound together with ⟨sink, same, publishes | ⟨publishes, _⟩⟩
    · exact sent_follows sound together.1 same publishes
    · have answers : world.answered (.publish content fails) = [] := by
        rw [answered, publishes]
        rfl
      rw [step, publishes]
      refine ⟨same.trans sound, rfl, Nat.le_refl _, ?_, fun _ => Or.inl, Or.inl ⟨answers, rfl⟩⟩
      intro face _
      rw [answers, append_nil]
      rfl

section

variable {world : World} {actions : List PublishAction}

theorem run_sound (sound : world.Sound) (together : Throughout step world actions Together) :
    (world.run actions).Sound ∧ world.rings.length ≤ (world.run actions).rings.length := by
  induction actions generalizing world with
  | nil => exact ⟨sound, Nat.le_refl _⟩
  | cons action rest ih =>
    rw [throughout_cons] at together
    have follows := step_follows sound together.1
    have later := ih follows.sound together.2
    exact ⟨later.1, Nat.le_trans follows.more later.2⟩

theorem ring_run (sound : world.Sound) (together : Throughout step world actions Together)
    {face : Nat} (below : face < world.rings.length) :
    (world.run actions).ring face = world.ring face ++ world.accepted actions := by
  induction actions generalizing world with
  | nil => exact (append_nil _).symm
  | cons action rest ih =>
    rw [throughout_cons] at together
    have follows := step_follows sound together.1
    calc
      (world.run (action :: rest)).ring face
        = (world.step action).ring face ++ (world.step action).accepted rest :=
          ih follows.sound together.2 (Nat.lt_of_lt_of_le below follows.more)
      _ = world.ring face ++ world.accepted (action :: rest) := by
          rw [follows.ring face below, append_assoc, accepted]

theorem holds_run (sound : world.Sound) (together : Throughout step world actions Together)
    {frame : Frame} (holds : (world.run actions).Holds frame) :
    world.Holds frame ∨ frame ∈ world.accepted actions := by
  induction actions generalizing world with
  | nil => exact Or.inl holds
  | cons action rest ih =>
    rw [throughout_cons] at together
    have follows := step_follows sound together.1
    rw [accepted, mem_append]
    rcases ih follows.sound together.2 holds with before | later
    · exact (follows.holds frame before).imp_right Or.inl
    · exact Or.inr (Or.inr later)

theorem accepted_append (earlier later : List PublishAction) :
    world.accepted (earlier ++ later) =
      world.accepted earlier ++ (world.run earlier).accepted later := by
  induction earlier generalizing world with
  | nil => rfl
  | cons action rest ih =>
    rw [cons_append, accepted, accepted, ih, append_assoc]
    rfl

theorem accepted_above (sound : world.Sound) (together : Throughout step world actions Together) :
    ∀ frame ∈ world.accepted actions, ∃ v : UInt64, world.publisher.seq.toNat ≤ v.toNat ∧
      frame.name = appendVersion world.publisher.name v := by
  induction actions generalizing world with
  | nil => exact forall_mem_nil _
  | cons action rest ih =>
    rw [throughout_cons] at together
    have follows := step_follows sound together.1
    intro frame found
    rcases mem_append.mp found with now | later
    · rcases follows.seq with ⟨none, _⟩ | ⟨⟨content, one⟩, _⟩
      · rw [none] at now
        cases now
      · rw [one] at now
        rw [mem_singleton.mp now]
        exact ⟨_, Nat.le_refl _, rfl⟩
    · rcases ih follows.sound together.2 frame later with ⟨v, above, named⟩
      refine ⟨v, ?_, by rw [named, follows.name]⟩
      rcases follows.seq with ⟨_, same⟩ | ⟨_, next⟩
      · rw [← same]
        exact above
      · omega

end

end World

theorem appendVersion_inj {name : Name} {v w : UInt64}
    (same : appendVersion name v = appendVersion name w) : v = w := by
  have values := congrArg NameComponent.value (Name.appendComponent_inj same).2
  have numbers := congrArg ofBe values
  change ofBe (minimalSlice _) = ofBe (minimalSlice _) at numbers
  rw [ofBe_minimalSlice v.toNat_lt, ofBe_minimalSlice w.toNat_lt] at numbers
  exact UInt64.toNat_inj.mp numbers

namespace World

variable {world : World} {actions : List PublishAction}

/-- No two frames of publishes that succeed have one name. -/
theorem accepted_nodup (sound : world.Sound) (together : Throughout step world actions Together) :
    ((world.accepted actions).map Frame.name).Nodup := by
  induction actions generalizing world with
  | nil => exact nodup_nil
  | cons action rest ih =>
    rw [throughout_cons] at together
    have follows := step_follows sound together.1
    have later := ih follows.sound together.2
    rw [accepted]
    rcases follows.seq with ⟨none, _⟩ | ⟨⟨content, one⟩, next⟩
    · rw [none]
      exact later
    · rw [one, singleton_append, map_cons, nodup_cons]
      refine ⟨?_, later⟩
      intro again
      rcases mem_map.mp again with ⟨frame, found, named⟩
      rcases accepted_above follows.sound together.2 frame found with ⟨v, above, named'⟩
      rw [named, follows.name] at named'
      rw [appendVersion_inj named'] at next
      omega

theorem accepted_attaches (only : ∀ action ∈ actions, action = .attach) :
    world.accepted actions = [] := by
  induction actions generalizing world with
  | nil => rfl
  | cons action rest ih =>
    rw [forall_mem_cons] at only
    rw [accepted, only.1, ih only.2]
    rfl

/-- Where the sends of each publish fail to all subscribers or to none, each subscriber gets exactly
the frames of the publishes that succeed. -/
theorem delivers_exactly_together {name : Name} (opened : Opened name world)
    (together : Throughout step world actions Together) : world.DeliversExactly actions := by
  have sound := opened.sound.1
  have parts : ∀ earlier later, actions = earlier ++ later →
      Throughout step world earlier Together ∧ (world.run earlier).Sound ∧
        Throughout step (world.run earlier) later Together := by
    intro earlier later same
    rw [same, throughout_append] at together
    exact ⟨together.1, (run_sound sound together.1).1, together.2⟩
  have among : ∀ frame, world.Delivered actions frame → frame ∈ world.accepted actions := by
    rintro frame ⟨earlier, later, rfl, holds⟩
    rw [accepted_append, List.mem_append]
    exact Or.inl ((holds_run sound (parts earlier later rfl).1 holds).resolve_left
      (opened.sound.2 frame))
  have rings : ∀ earlier later face, actions = earlier ++ later →
      face < (world.run earlier).rings.length → (world.run actions).ring face =
        (world.run earlier).ring face ++ (world.run earlier).accepted later := by
    intro earlier later face same below
    have run : world.run actions = (world.run earlier).run later := by
      rw [same]
      exact List.foldl_append
    rw [run]
    exact ring_run (parts earlier later same).2.1 (parts earlier later same).2.2 below
  refine ⟨?_, fun earlier later face same below _ => rings earlier later face same below, ?_⟩
  · intro first second there there' same
    have one := List.inj_on_of_nodup_map (accepted_nodup sound together) (among first there)
      (among second there') same
    rw [one]
  · intro earlier later failing face same _ below below' keeps
    rcases parts earlier later same with ⟨_, sound', together'⟩
    have only : ∀ action ∈ later, action = .attach := by
      intro action found
      cases action with
      | attach => rfl
      | publish content fails =>
        have fail := keeps content fails found
        rcases List.append_of_mem found with ⟨before, after, split⟩
        have here := together' before _ after split
        have prior : Throughout step (world.run earlier) before Together := by
          rw [split, throughout_append] at together'
          exact together'.1
        rcases run_sound sound' prior with ⟨sound'', more⟩
        have attached : ∀ face < (world.run earlier).rings.length,
            face ∈ ((world.run earlier).run before).publisher.sink.faces := by
          intro face below
          rw [sound'', List.mem_range]
          omega
        rcases here.2 with all | none
        · have hit := all face (attached face below')
          rw [fail.2] at hit
          cases hit
        · have hit := none failing (attached failing below)
          rw [fail.1] at hit
          cases hit
    rw [rings earlier later face same below', accepted_attaches only, List.append_nil,
      List.filterMap_eq_nil_iff.mpr, List.append_nil]
    intro action found
    rw [only action found]

/-- The second of two subscribers fails once. -/
def oneFails : List PublishAction :=
  [.attach, .attach, .publish [1] (· = 1), .publish [2] fun _ => false]

theorem one_name_two_contents : ¬ ∀ (name : Name) (world : World) (actions : List PublishAction),
    Opened name world → world.DeliversExactly actions := by
  intro claim
  have exact' := claim .root _ oneFails .fanout
  have there : ∀ frame ∈ ((openFanout .root).run oneFails).ring 0,
      (openFanout .root).Delivered oneFails frame := by
    intro frame found
    refine ⟨oneFails, [], rfl, Or.inl ⟨_, ?_, found⟩⟩
    decide +kernel
  have same := exact'.one_content ⟨appendVersion .root 0, [1]⟩ ⟨appendVersion .root 0, [2]⟩
    (there _ (by decide +kernel)) (there _ (by decide +kernel)) rfl
  cases same

theorem delivers_exactly_two :
    (openFanout .root).retain.DeliversExactly
        [.attach, .publish [1] fun _ => false, .attach, .publish [2] fun _ => true] ∧
      ((openFanout .root).retain.run
        [.attach, .publish [1] fun _ => false, .attach, .publish [2] fun _ => true]).ring 0 =
          [⟨appendVersion .root 0, [1]⟩] :=
  ⟨delivers_exactly_together (.retain .fanout) (by decide +kernel), by decide +kernel⟩

end World
end NdnExt.Surface
