import NdnExt.Surface.Publish

/-! A reader that replays a surface's stored frames and then follows its live ones. -/

namespace NdnExt.Surface

open NdnExt.Lib NdnExt.Lib.Run List

def versionOf (name : Name) : Option UInt64 :=
  match name.components.getLast? with
  | none => none
  | some c =>
    if c.typ ≠ 0x36 then none
    else if c.value = [] ∨ 8 < c.value.length then none
    else some (c.value.foldl (fun acc b => acc <<< 8 ||| b.toUInt64) 0)

inductive NamedOp where
  | insert (name : Name) (wire : Frame)
  | remove (name : Name)

abbrev Store := Name → Option Frame

def NamedOp.apply (store : Store) : NamedOp → Store
  | .insert name wire => Function.update store name (some wire)
  | .remove name => Function.update store name none

def writeBatch (store : Store) (ops : List NamedOp) : Store := ops.foldl NamedOp.apply store

/-! ### The writer -/

def maxBatch : Nat := 256

/-- The insertion of a frame, and the eviction of the one that it pushes out. -/
def retainOps (surface : Name) (maxVersions : Option UInt64) (frame : Frame) : List NamedOp :=
  let evict := maxVersions.bind fun keep =>
    ((versionOf frame.name).filter (keep ≤ ·)).map fun v => appendVersion surface (v - keep)
  .insert frame.name frame :: evict.toList.map .remove

/-- Takes the frames that are ready into one batch, and leaves those that do not fit. -/
def drain (surface : Name) (maxVersions : Option UInt64) (ops : List NamedOp) :
    List Frame → List NamedOp × List Frame
  | [] => (ops, [])
  | frame :: rest =>
    let ops := ops ++ retainOps surface maxVersions frame
    if maxBatch ≤ ops.length then (ops, rest) else drain surface maxVersions ops rest

/-! ### The reader -/

/-- The frames that a live source is about to give, and how it ended. -/
structure LiveSource where
  queue : List Frame
  ended : Option Bool

structure CatchUpFollow where
  surface : Name
  next : UInt64
  caughtUp : Bool
  held : Option Frame
  complete : Option Bool

namespace CatchUpFollow

def new (surface : Name) (origin : UInt64) : CatchUpFollow := ⟨surface, origin, false, none, none⟩

/-- One pass of the loop of `next_frame`: it delivers a frame, waits for the live source, or goes
on. -/
def pass (store : Store) (r : CatchUpFollow) (live : LiveSource) :
    CatchUpFollow × LiveSource × Option Frame :=
  if r.complete.isSome then (r, live, none)
  else
    match r.held with
    | some frame =>
      let hv := (versionOf frame.name).getD r.next
      let parked := ({ r with held := none, next := hv + 1 }, live, some frame)
      if r.next < hv then
        match store (appendVersion r.surface r.next) with
        | some wire => ({ r with next := r.next + 1 }, live, some wire)
        | none => parked
      else parked
    | none =>
      if r.caughtUp then
        match live.queue with
        | [] => ({ r with complete := live.ended }, live, none)
        | frame :: rest =>
          let lv := (versionOf frame.name).getD r.next
          let live := { live with queue := rest }
          if lv < r.next then (r, live, none)
          else if lv = r.next then ({ r with next := r.next + 1 }, live, some frame)
          else ({ r with held := some frame }, live, none)
      else
        match store (appendVersion r.surface r.next) with
        | some wire => ({ r with next := r.next + 1 }, live, some wire)
        | none => ({ r with caughtUp := true }, live, none)

end CatchUpFollow

/-! ### The surface, its store and a reader -/

structure Following where
  surface : Name
  maxVersions : Option UInt64
  origin : UInt64
  published : List Frame
  /-- The frames that wait for the writer. -/
  queue : List Frame
  store : Store
  live : LiveSource
  reader : CatchUpFollow
  delivered : List Frame

inductive FollowAction where
  | publish (content : Bytes)
  /-- The writer drains a batch while the first `ready` frames are in its queue. -/
  | commit (ready : Nat)
  /-- The live source gets a version. -/
  | hear (version : Nat)
  | hangUp (clean : Bool)
  | pass

namespace Following

def start (surface : Name) (maxVersions : Option UInt64) (origin : UInt64) : Following :=
  ⟨surface, maxVersions, origin, [], [], fun _ => none, ⟨[], none⟩, .new surface origin, []⟩

/-- What a step delivers. -/
def emitted (world : Following) : FollowAction → Option Frame
  | .pass => (world.reader.pass world.store world.live).2.2
  | _ => none

def step (world : Following) : FollowAction → Following
  | .publish content =>
    -- The version after the new one is a number too: the publisher counts with checks.
    if world.published.length + 1 < 2 ^ 64 then
      let frame : Frame :=
        ⟨appendVersion world.surface (UInt64.ofNat world.published.length), content⟩
      { world with published := world.published ++ [frame], queue := world.queue ++ [frame] }
    else world
  | .commit ready =>
    let (ops, rest) := drain world.surface world.maxVersions [] (world.queue.take ready)
    { world with
      store := writeBatch world.store ops
      queue := rest ++ world.queue.drop ready }
  | .hear version =>
    { world with live := { world.live with
        queue := world.live.queue ++ world.published[version]?.toList } }
  | .hangUp clean => { world with live := { world.live with ended := some clean } }
  | .pass =>
    let (reader, live, frame) := world.reader.pass world.store world.live
    { world with reader := reader, live := live, delivered := world.delivered ++ frame.toList }

def run (world : Following) (actions : List FollowAction) : Following := actions.foldl step world

/-- A version is neither in the store nor on its way to it. -/
def Gone (world : Following) (v : UInt64) : Prop :=
  world.store (appendVersion world.surface v) = none ∧
    ∀ frame ∈ world.queue, frame.name ≠ appendVersion world.surface v

def Delivered (world : Following) (v : UInt64) : Prop :=
  ∃ frame ∈ world.delivered, frame.name = appendVersion world.surface v

/-- What a step delivers is a published frame, beyond all that was delivered; each version that it
passes by is gone. -/
def Seamless (world : Following) (action : FollowAction) : Prop :=
  ∀ frame, world.emitted action = some frame → ∃ v : UInt64,
    world.published[v.toNat]? = some frame ∧ frame.name = appendVersion world.surface v ∧
      world.origin ≤ v ∧ (∀ earlier ∈ world.delivered, ∃ u < v,
        earlier.name = appendVersion world.surface u) ∧
      ∀ w, world.origin ≤ w → w < v → world.Delivered w ∨ world.Gone w

/-- The reader holds a frame ahead of the next version, and the store does not have that version. -/
def Misses (world : Following) (hv : UInt64) : Prop :=
  world.reader.complete = none ∧
    (∃ frame, world.reader.held = some frame ∧ versionOf frame.name = some hv) ∧
    world.reader.next < hv ∧ world.store (appendVersion world.surface world.reader.next) = none

/-- Where the version that the reader looks up before a held frame is missing, all up to the held
one are gone. -/
def NothingBetween (world : Following) : FollowAction → Prop
  | .pass => ∀ hv, world.Misses hv → ∀ w, world.reader.next ≤ w → w < hv → world.Gone w
  | _ => True

end Following

/-! ### The store -/

theorem versionOf_appendVersion (name : Name) (v : UInt64) :
    versionOf (appendVersion name v) = some v := by
  have width := minimalWidth_mem v.toNat
  have length : (minimalSlice v.toNat).length = minimalWidth v.toNat := by
    rw [minimalSlice_eq, length_beBytes]
  have fits : ¬ (minimalSlice v.toNat = [] ∨ 8 < (minimalSlice v.toNat).length) := by
    rw [← length_eq_zero_iff, length]
    simp only [mem_cons, not_mem_nil, or_false] at width
    omega
  have last : (appendVersion name v).components.getLast? = some (versionComponent v) :=
    List.getLast?_concat
  unfold versionOf
  rw [last]
  dsimp only [versionComponent]
  rw [if_neg (by decide), if_neg fits]
  refine congrArg some (UInt64.toNat_inj.mp ?_)
  rw [foldl_shiftIn]
  change ofBe (minimalSlice v.toNat) % 2 ^ 64 = v.toNat
  rw [ofBe_minimalSlice v.toNat_lt, Nat.mod_eq_of_lt v.toNat_lt]

theorem writeBatch_append (store : Store) (first second : List NamedOp) :
    writeBatch store (first ++ second) = writeBatch (writeBatch store first) second :=
  foldl_append

/-- What a frame leaves in the store is itself or was there. -/
theorem writeBatch_retainOps {store : Store} {surface : Name} {maxVersions : Option UInt64}
    {frame : Frame} {name : Name} {wire : Frame}
    (found : writeBatch store (retainOps surface maxVersions frame) name = some wire) :
    frame.name = name ∧ wire = frame ∨ store name = some wire := by
  have inserted : Function.update store frame.name (some frame) name = some wire →
      frame.name = name ∧ wire = frame ∨ store name = some wire := by
    intro found
    rw [Function.update_apply] at found
    split at found
    · next same => exact Or.inl ⟨same.symm, (Option.some.inj found).symm⟩
    · exact Or.inr found
  unfold retainOps at found
  cases evict : maxVersions.bind fun keep =>
      ((versionOf frame.name).filter (keep ≤ ·)).map fun v => appendVersion surface (v - keep) with
  | none =>
    rw [evict] at found
    exact inserted found
  | some old =>
    rw [evict] at found
    change Function.update (Function.update store frame.name (some frame)) old none name = _
      at found
    rw [Function.update_apply] at found
    split at found
    · cases found
    · exact inserted found

theorem writeBatch_frames {surface : Name} {maxVersions : Option UInt64} {frames : List Frame}
    {store : Store} {name : Name} {wire : Frame}
    (found : writeBatch store (frames.flatMap (retainOps surface maxVersions)) name = some wire) :
    wire ∈ frames ∧ wire.name = name ∨ store name = some wire := by
  induction frames generalizing store with
  | nil => exact Or.inr found
  | cons frame rest ih =>
    rw [flatMap_cons, writeBatch_append] at found
    rcases ih found with ⟨later, named⟩ | before
    · exact Or.inl ⟨mem_cons_of_mem _ later, named⟩
    · rcases writeBatch_retainOps before with ⟨named, rfl⟩ | old
      · exact Or.inl ⟨mem_cons_self, named⟩
      · exact Or.inr old

theorem drain_eq (surface : Name) (maxVersions : Option UInt64) (ops : List NamedOp)
    (frames : List Frame) : ∃ taken rest, frames = taken ++ rest ∧
      drain surface maxVersions ops frames =
        (ops ++ taken.flatMap (retainOps surface maxVersions), rest) := by
  induction frames generalizing ops with
  | nil => exact ⟨[], [], rfl, by rw [drain, flatMap_nil, append_nil]⟩
  | cons frame frames ih =>
    rw [drain]
    split
    · exact ⟨[frame], frames, rfl, by rw [flatMap_singleton]⟩
    · rcases ih (ops ++ retainOps surface maxVersions frame) with ⟨taken, rest, split, drains⟩
      refine ⟨frame :: taken, rest, by rw [split, cons_append], ?_⟩
      rw [drains, flatMap_cons, append_assoc]

namespace Following

/-! ### One step -/

structure Sound (world : Following) : Prop where
  few : world.published.length < 2 ^ 64
  named : ∀ i frame, world.published[i]? = some frame →
    frame.name = appendVersion world.surface (UInt64.ofNat i)
  queued : ∀ frame ∈ world.queue, frame ∈ world.published
  stored : ∀ name frame, world.store name = some frame →
    frame ∈ world.published ∧ frame.name = name
  live : ∀ frame ∈ world.live.queue, frame ∈ world.published
  reader : world.reader.surface = world.surface
  held : ∀ frame, world.reader.held = some frame → frame ∈ world.published ∧
    ∀ v, frame.name = appendVersion world.surface v → world.reader.next ≤ v
  origin : world.origin ≤ world.reader.next
  reached : world.reader.next = world.origin ∨
    world.reader.next.toNat ≤ world.published.length
  delivered : ∀ frame ∈ world.delivered, ∃ u < world.reader.next,
    frame.name = appendVersion world.surface u
  passed : ∀ w, world.origin ≤ w → w < world.reader.next → world.Delivered w ∨ world.Gone w

theorem start_sound (surface : Name) (maxVersions : Option UInt64) (origin : UInt64) :
    (start surface maxVersions origin).Sound where
  few := Nat.two_pow_pos 64
  named := by
    intro i frame found
    cases found
  queued := forall_mem_nil _
  stored := by
    intro name frame found
    cases found
  live := forall_mem_nil _
  reader := rfl
  held := by
    intro frame found
    cases found
  origin := UInt64.le_refl _
  reached := Or.inl rfl
  delivered := forall_mem_nil _
  passed := by
    intro w above below
    exact absurd (UInt64.lt_of_le_of_lt above below) (UInt64.lt_irrefl _)

section

variable {world : Following}

/-- A published frame stands at its version. -/
theorem Sound.at (sound : world.Sound) {frame : Frame} (found : frame ∈ world.published) :
    ∃ v : UInt64, world.published[v.toNat]? = some frame ∧
      frame.name = appendVersion world.surface v ∧ v.toNat < world.published.length := by
  rcases List.getElem?_of_mem found with ⟨i, stands⟩
  have below := (List.getElem?_eq_some_iff.mp stands).1
  have number : (UInt64.ofNat i).toNat = i :=
    UInt64.toNat_ofNat_of_lt' (Nat.lt_trans below sound.few)
  exact ⟨UInt64.ofNat i, by rw [number]; exact stands, sound.named i frame stands,
    by rw [number]; exact below⟩

/-- A pass delivers nothing, or the next version, or the frame that it held behind a missing one. -/
theorem pass_cases (sound : world.Sound) :
    ∃ reader live frame, world.reader.pass world.store world.live = (reader, live, frame) ∧
      reader.surface = world.surface ∧ (∀ queued ∈ live.queue, queued ∈ world.live.queue) ∧
      (∀ waits, reader.held = some waits → waits ∈ world.published ∧
        ∀ v, waits.name = appendVersion world.surface v → reader.next ≤ v) ∧
      match frame with
      | none => reader.next = world.reader.next ∧ ∀ hv, ¬ world.Misses hv
      | some frame => ∃ v : UInt64, frame ∈ world.published ∧
          frame.name = appendVersion world.surface v ∧ reader.next = v + 1 ∧
            (v = world.reader.next ∧ (∀ hv, ¬ world.Misses hv) ∨
              world.Misses v ∧ world.reader.next < v) := by
  have next_lt : ∀ v, world.reader.next < v →
      (world.reader.next + 1).toNat = world.reader.next.toNat + 1 := by
    intro v below
    have small := v.toNat_lt
    rw [UInt64.lt_iff_toNat_lt] at below
    rw [UInt64.toNat_add, UInt64.toNat_one, Nat.mod_eq_of_lt (by omega)]
  unfold CatchUpFollow.pass
  cases complete : world.reader.complete with
  | some clean =>
    refine ⟨_, _, none, if_pos rfl, sound.reader, fun _ => id, sound.held, rfl, ?_⟩
    rintro hv ⟨open', _⟩
    rw [complete] at open'
    cases open'
  | none =>
    rw [Option.isSome_none, if_neg (by decide)]
    cases held : world.reader.held with
    | some frame =>
      rcases sound.held frame held with ⟨among, ahead⟩
      rcases sound.at among with ⟨v, _, named, _⟩
      have version : versionOf frame.name = some v := by rw [named, versionOf_appendVersion]
      dsimp only
      rw [version, Option.getD_some, sound.reader]
      by_cases before : world.reader.next < v
      · rw [if_pos before]
        cases stored : world.store (appendVersion world.surface world.reader.next) with
        | some wire =>
          rcases sound.stored _ wire stored with ⟨among', named'⟩
          refine ⟨_, _, some wire, rfl, rfl, fun _ => id, ?_, world.reader.next,
            among', named', rfl, Or.inl ⟨rfl, ?_⟩⟩
          · intro waits is
            have one : waits = frame := Option.some.inj is.symm
            rw [one]
            refine ⟨among, ?_⟩
            intro u other
            rw [← appendVersion_inj (named.symm.trans other), UInt64.le_iff_toNat_le,
              next_lt v before]
            exact UInt64.lt_iff_toNat_lt.mp before
          · rintro hv ⟨_, _, _, missing⟩
            rw [stored] at missing
            cases missing
        | none =>
          refine ⟨_, _, some frame, rfl, rfl, fun _ => id, ?_, v, among, named, rfl,
            Or.inr ⟨⟨complete, ⟨frame, held, version⟩, before, stored⟩, before⟩⟩
          intro waits is
          cases is
      · rw [if_neg before]
        have same : v = world.reader.next :=
          UInt64.le_antisymm (UInt64.not_lt.mp before) (ahead v named)
        refine ⟨_, _, some frame, rfl, rfl, fun _ => id, ?_, v, among, named, rfl,
          Or.inl ⟨same, ?_⟩⟩
        · intro waits is
          cases is
        · rintro hv ⟨_, ⟨other, is, version'⟩, below, _⟩
          rw [held] at is
          cases is
          rw [version] at version'
          cases version'
          exact before below
    | none =>
      have misses : ∀ hv, ¬ world.Misses hv := by
        rintro hv ⟨_, ⟨frame, is, _⟩, _⟩
        rw [held] at is
        cases is
      rw [sound.reader]
      cases world.reader.caughtUp with
      | true =>
        rw [if_pos rfl]
        cases queue : world.live.queue with
        | nil =>
          refine ⟨_, _, none, rfl, rfl, ?_, ?_, rfl, misses⟩
          · intro queued found
            rw [queue] at found
            exact found
          · intro waits is
            cases is
        | cons frame rest =>
          have among := sound.live frame (by rw [queue]; exact mem_cons_self)
          rcases sound.at among with ⟨v, _, named, _⟩
          have version : versionOf frame.name = some v := by
            rw [named, versionOf_appendVersion]
          dsimp only
          rw [version, Option.getD_some]
          by_cases before : v < world.reader.next
          · rw [if_pos before]
            exact ⟨_, _, none, rfl, sound.reader, fun _ => mem_cons_of_mem _,
              sound.held, rfl, misses⟩
          · rw [if_neg before]
            by_cases same : v = world.reader.next
            · rw [if_pos same]
              refine ⟨_, _, some frame, rfl, rfl, fun _ => mem_cons_of_mem _,
                ?_, v, among, named, by rw [same], Or.inl ⟨same, misses⟩⟩
              intro waits is
              cases is
            · rw [if_neg same]
              refine ⟨_, _, none, rfl, rfl, fun _ => mem_cons_of_mem _, ?_,
                rfl, misses⟩
              intro waits is
              cases is
              refine ⟨among, ?_⟩
              intro u other
              rw [← appendVersion_inj (named.symm.trans other)]
              exact UInt64.not_lt.mp before
      | false =>
        rw [if_neg (by decide)]
        cases stored : world.store (appendVersion world.surface world.reader.next) with
        | some wire =>
          rcases sound.stored _ wire stored with ⟨among, named⟩
          refine ⟨_, _, some wire, rfl, rfl, fun _ => id, ?_, world.reader.next,
            among, named, rfl, Or.inl ⟨rfl, misses⟩⟩
          intro waits is
          cases is
        | none =>
          refine ⟨_, _, none, rfl, rfl, fun _ => id, ?_, rfl, misses⟩
          intro waits is
          cases is

theorem seamless_iff (sound : world.Sound) (action : FollowAction) :
    world.Seamless action ↔ world.NothingBetween action := by
  cases action with
  | pass =>
    rcases pass_cases sound with ⟨reader, live, frame, passes, _, _, _, outcome⟩
    have emits : world.emitted .pass = frame := by rw [emitted, passes]
    unfold Seamless
    rw [emits]
    cases frame with
    | none =>
      refine iff_of_true (fun _ impossible => ?_) fun hv misses => absurd misses (outcome.2 hv)
      cases impossible
    | some frame =>
      rcases outcome with ⟨v, among, named, _, which⟩
      rcases sound.at among with ⟨u, stands, named', _⟩
      have one : v = u := appendVersion_inj (named.symm.trans named')
      rw [← one] at stands
      have ahead : world.reader.next ≤ v := by
        rcases which with ⟨same, _⟩ | ⟨_, below⟩
        · exact UInt64.le_of_eq same.symm
        · exact UInt64.le_of_lt below
      have later : ∀ earlier ∈ world.delivered, ∃ u < v,
          earlier.name = appendVersion world.surface u := by
        intro earlier found
        rcases sound.delivered earlier found with ⟨u, below, is⟩
        exact ⟨u, UInt64.lt_of_lt_of_le below ahead, is⟩
      constructor
      · intro seamless hv misses w from' below
        rcases which with ⟨_, none⟩ | ⟨misses', _⟩
        · exact absurd misses (none hv)
        · have same : hv = v := by
            rcases misses.2.1 with ⟨first, is, version⟩
            rcases misses'.2.1 with ⟨second, is', version'⟩
            rw [is] at is'
            cases is'
            rw [version] at version'
            exact Option.some.inj version'
          rcases seamless frame rfl with ⟨v', _, named', _, _, all⟩
          have here : v' = v := appendVersion_inj (named'.symm.trans named)
          rcases all w (UInt64.le_trans sound.origin from') (by rw [here, ← same]; exact below)
            with ⟨earlier, found, is⟩ | gone
          · rcases sound.delivered earlier found with ⟨u', before, is'⟩
            rw [← appendVersion_inj (is.symm.trans is')] at before
            exact absurd before (UInt64.not_lt.mpr from')
          · exact gone
      · intro nothing frame' is
        cases is
        refine ⟨v, stands, named, UInt64.le_trans sound.origin ahead, later, ?_⟩
        intro w from' below
        by_cases before : w < world.reader.next
        · exact sound.passed w from' before
        · rcases which with ⟨same, _⟩ | ⟨misses, _⟩
          · rw [same] at below
            exact absurd below before
          · exact Or.inr (nothing v misses w (UInt64.not_lt.mp before) below)
  | publish | commit | hear | hangUp =>
    refine iff_of_true (fun _ impossible => ?_) trivial
    cases impossible

theorem Delivered.more {v : UInt64} {frame : Option Frame} {next : Following}
    (surface : next.surface = world.surface)
    (delivered : next.delivered = world.delivered ++ frame.toList) (was : world.Delivered v) :
    next.Delivered v := by
  rcases was with ⟨earlier, found, named⟩
  exact ⟨earlier, by rw [delivered]; exact mem_append_left _ found, by rw [named, surface]⟩

theorem publish_sound (sound : world.Sound) (content : Bytes) :
    (world.step (.publish content)).Sound := by
  unfold step
  dsimp only
  split
  · next fits =>
    have number : (UInt64.ofNat world.published.length).toNat = world.published.length :=
      UInt64.toNat_ofNat_of_lt' sound.few
    refine ⟨?_, ?_, ?_, ?_, ?_, sound.reader, ?_, sound.origin, ?_, sound.delivered, ?_⟩
    · rw [length_append]
      exact fits
    · intro i frame found
      by_cases old : i < world.published.length
      · rw [List.getElem?_append_left old] at found
        exact sound.named i frame found
      · have last : i = world.published.length := by
          have below := (List.getElem?_eq_some_iff.mp found).1
          rw [length_append, length_singleton] at below
          omega
        rw [last, List.getElem?_concat_length] at found
        cases found
        rw [last]
    · intro frame found
      rcases mem_append.mp found with old | new
      · exact mem_append_left _ (sound.queued frame old)
      · exact mem_append_right _ new
    · intro name frame found
      have stored := sound.stored name frame found
      exact ⟨mem_append_left _ stored.1, stored.2⟩
    · intro frame found
      exact mem_append_left _ (sound.live frame found)
    · intro frame held
      have before := sound.held frame held
      exact ⟨mem_append_left _ before.1, before.2⟩
    · refine sound.reached.imp_right ?_
      intro reached
      rw [length_append]
      exact Nat.le_add_right_of_le reached
    · intro w above below
      refine (sound.passed w above below).imp_right ?_
      rintro ⟨absent, unqueued⟩
      refine ⟨absent, ?_⟩
      intro frame found
      rcases mem_append.mp found with old | new
      · exact unqueued frame old
      · rw [mem_singleton.mp new]
        intro same
        have equal := congrArg UInt64.toNat (appendVersion_inj same)
        rw [number] at equal
        change w < world.reader.next at below
        rw [UInt64.lt_iff_toNat_lt] at below
        rcases sound.reached with here | reached
        · rw [here] at below
          exact absurd above (UInt64.not_le.mpr (UInt64.lt_iff_toNat_lt.mpr below))
        · omega
  · exact sound

theorem commit_sound (sound : world.Sound) (ready : Nat) : (world.step (.commit ready)).Sound := by
  rcases drain_eq world.surface world.maxVersions [] (world.queue.take ready) with
    ⟨taken, rest, split, drains⟩
  have whole : world.queue = taken ++ (rest ++ world.queue.drop ready) := by
    rw [← append_assoc, ← split, take_append_drop]
  unfold step
  dsimp only
  rw [drains, nil_append]
  refine ⟨sound.few, sound.named, ?_, ?_, sound.live, sound.reader, sound.held, sound.origin,
    sound.reached, sound.delivered, ?_⟩
  · intro frame found
    apply sound.queued
    rw [whole]
    exact mem_append_right _ found
  · intro name frame found
    rcases writeBatch_frames found with ⟨new, named⟩ | old
    · refine ⟨sound.queued frame ?_, named⟩
      rw [whole]
      exact mem_append_left _ new
    · exact sound.stored name frame old
  · intro w above below
    refine (sound.passed w above below).imp_right ?_
    rintro ⟨absent, unqueued⟩
    rw [whole, forall_mem_append] at unqueued
    refine ⟨?_, unqueued.2⟩
    rw [← Option.not_isSome_iff_eq_none]
    intro present
    rcases Option.isSome_iff_exists.mp present with ⟨wire, found⟩
    rcases writeBatch_frames found with ⟨new, named⟩ | old
    · exact unqueued.1 wire new named
    · rw [absent] at old
      cases old

theorem pass_sound (sound : world.Sound) (seamless : world.Seamless .pass) :
    (world.step .pass).Sound := by
  rcases pass_cases sound with ⟨reader, live, frame, passes, surface, queue, held, outcome⟩
  have emits : world.emitted .pass = frame := by rw [emitted, passes]
  have after : world.step .pass = { world with
      reader := reader, live := live, delivered := world.delivered ++ frame.toList } := by
    rw [step, passes]
  have more : ∀ w, world.Delivered w → (world.step .pass).Delivered w := fun w =>
    Delivered.more (by rw [after]) (by rw [after])
  have sources : ∀ queued ∈ live.queue, queued ∈ world.published :=
    fun queued found => sound.live queued (queue queued found)
  have named : ∀ waits, reader.held = some waits → waits ∈ world.published ∧
      ∀ v, waits.name = appendVersion world.surface v → reader.next ≤ v := held
  rw [after] at more ⊢
  cases frame with
  | none =>
    have same := outcome.1
    refine ⟨sound.few, sound.named, sound.queued, sound.stored, sources, surface, named, ?_, ?_,
      ?_, ?_⟩
    · rw [same]
      exact sound.origin
    · rw [same]
      exact sound.reached
    · rw [same, Option.toList_none, append_nil]
      exact sound.delivered
    · rw [same]
      intro w above below
      exact (sound.passed w above below).imp_left (more w)
  | some frame =>
    rcases outcome with ⟨v, _, is, next, _⟩
    rcases seamless frame emits with ⟨v', stands, is', above, later, all⟩
    rw [appendVersion_inj (is'.symm.trans is)] at stands above later all
    have below := (List.getElem?_eq_some_iff.mp stands).1
    have number : (v + 1).toNat = v.toNat + 1 := by
      have few := sound.few
      rw [UInt64.toNat_add, UInt64.toNat_one, Nat.mod_eq_of_lt (by omega)]
    have last : ∀ u : UInt64, u < reader.next ↔ u ≤ v := by
      intro u
      rw [next, UInt64.lt_iff_toNat_lt, UInt64.le_iff_toNat_le, number, Nat.lt_succ_iff]
    refine ⟨sound.few, sound.named, sound.queued, sound.stored, sources, surface, named, ?_, ?_,
      ?_, ?_⟩
    · exact UInt64.le_of_lt ((last _).mpr above)
    · refine Or.inr ?_
      change reader.next.toNat ≤ world.published.length
      rw [next, number]
      exact below
    · intro earlier found
      rcases mem_append.mp found with old | new
      · rcases later earlier old with ⟨u, before, named⟩
        exact ⟨u, (last u).mpr (UInt64.le_of_lt before), named⟩
      · rw [mem_singleton.mp new]
        exact ⟨v, (last v).mpr (UInt64.le_refl v), is⟩
    · intro w from' before
      rcases UInt64.lt_or_eq_of_le ((last w).mp before) with less | same
      · exact (all w from' less).imp_left (more w)
      · rw [same]
        exact Or.inl ⟨frame, mem_append_right _ (mem_singleton_self _), is⟩

theorem step_sound (sound : world.Sound) {action : FollowAction}
    (seamless : world.Seamless action) : (world.step action).Sound := by
  cases action with
  | publish content => exact publish_sound sound content
  | commit ready => exact commit_sound sound ready
  | hear version =>
    refine ⟨sound.few, sound.named, sound.queued, sound.stored, ?_, sound.reader, sound.held,
      sound.origin, sound.reached, sound.delivered, sound.passed⟩
    intro frame found
    rcases mem_append.mp found with old | new
    · exact sound.live frame old
    · exact mem_of_getElem? (Option.mem_toList.mp new)
  | hangUp clean =>
    exact ⟨sound.few, sound.named, sound.queued, sound.stored, sound.live, sound.reader,
      sound.held, sound.origin, sound.reached, sound.delivered, sound.passed⟩
  | pass => exact pass_sound sound seamless

end

/-- The reader skips nothing exactly where nothing is left between a missing version and the frame
that it holds. -/
theorem seamless_throughout_iff (surface : Name) (maxVersions : Option UInt64) (origin : UInt64)
    (actions : List FollowAction) :
    Throughout step (start surface maxVersions origin) actions Seamless ↔
      Throughout step (start surface maxVersions origin) actions NothingBetween :=
  throughout_iff Sound (fun _ action sound => seamless_iff sound action)
    (fun _ _ sound seamless => step_sound sound seamless)
    (start_sound surface maxVersions origin) actions

/-- The live source gives version 2 while 0 and 1 wait for the writer. -/
def lagging : List FollowAction :=
  [.publish [1], .publish [2], .publish [3], .hear 2, .pass, .pass, .pass]

theorem queued_versions_are_skipped : ¬ ∀ (surface : Name) (maxVersions : Option UInt64)
    (origin : UInt64) (actions : List FollowAction),
    Throughout step (start surface maxVersions origin) actions Seamless := by
  intro claim
  have last := claim .root none 0 lagging [.publish [1], .publish [2], .publish [3], .hear 2,
    .pass, .pass] .pass [] rfl
  rcases last ⟨appendVersion .root 2, [3]⟩ (by decide +kernel) with ⟨v, _, named, _, _, all⟩
  have two : 2 = v := appendVersion_inj named
  rcases all 0 (by decide) (by rw [← two]; decide) with ⟨earlier, found, _⟩ | gone
  · have empty : (((start .root none 0).run [.publish [1], .publish [2], .publish [3], .hear 2,
        .pass, .pass]).delivered) = [] := by decide +kernel
    change earlier ∈ ((start .root none 0).run _).delivered at found
    rw [empty] at found
    cases found
  · have first : ∃ frame ∈ ((start .root none 0).run [.publish [1], .publish [2], .publish [3],
        .hear 2, .pass, .pass]).queue, frame.name = appendVersion .root 0 := by decide +kernel
    rcases first with ⟨frame, found, is⟩
    exact gone.2 frame found is

end Following
end NdnExt.Surface
