import NdnExt.Surface.CatchUp

/-! The write-behind task of a retained surface: its batches, evictions and flushes. -/

namespace NdnExt.Surface

open NdnExt.Lib NdnExt.Lib.Run List

/-- A frame to persist, or a flush with the number of its channel. -/
inductive RetainMsg where
  | frame (frame : Frame)
  | flush (ack : Nat)

def RetainMsg.frame? : RetainMsg → Option Frame
  | .frame published => some published
  | .flush _ => none

def RetainMsg.ack? : RetainMsg → Option Nat
  | .frame _ => none
  | .flush ack => some ack

def framesOf (messages : List RetainMsg) : List Frame := messages.filterMap RetainMsg.frame?

def acksOf (messages : List RetainMsg) : List Nat := messages.filterMap RetainMsg.ack?

def NamedOp.inserted : NamedOp → Option Frame
  | .insert _ wire => some wire
  | .remove _ => none

/-- Receives the messages that are there, until the batch is full. -/
def collect (surface : Name) (maxVersions : Option UInt64) (ops : List NamedOp) (acks : List Nat) :
    List RetainMsg → List NamedOp × List Nat × List RetainMsg
  | [] => (ops, acks, [])
  | .frame frame :: rest =>
    let ops := ops ++ retainOps surface maxVersions frame
    if maxBatch ≤ ops.length then (ops, acks, rest) else collect surface maxVersions ops acks rest
  | .flush ack :: rest =>
    if maxBatch ≤ ops.length then (ops, acks ++ [ack], rest)
    else collect surface maxVersions ops (acks ++ [ack]) rest

structure Retained where
  surface : Name
  maxVersions : Option UInt64
  /-- The version of the next frame. -/
  seq : Nat
  /-- All that was sent to the writer, and what of it waits in its queue. -/
  sent : List RetainMsg
  queue : List RetainMsg
  store : Store
  /-- The frames of the batches that were committed. -/
  committed : List Frame
  /-- The flushes that the writer acknowledges next, and those that it has. -/
  acks : List Nat
  acked : List Nat

inductive RetainAction where
  | publish (content : Bytes)
  | flush
  /-- The writer drains a batch while `ready` messages are in its queue; `applies` is whether
  `write_batch` succeeds. -/
  | drain (ready : Nat) (applies : Bool)
  | ack

/-- A batch that is written is applied. -/
def RetainAction.Applies : RetainAction → Prop
  | .drain _ applies => applies = true
  | _ => True

namespace Retained

/-- The retention of a surface from its version `first` on. -/
def start (surface : Name) (n first : UInt64) (store : Store) : Retained :=
  ⟨surface, some n, first.toNat, [], [], store, [], [], []⟩

def send (state : Retained) (message : RetainMsg) : Retained :=
  { state with sent := state.sent ++ [message], queue := state.queue ++ [message] }

def step (state : Retained) : RetainAction → Retained
  | .publish content =>
    -- The publisher counts with checks.
    if state.seq + 1 < 2 ^ 64 then
      { state.send (.frame ⟨appendVersion state.surface (UInt64.ofNat state.seq), content⟩) with
        seq := state.seq + 1 }
    else state
  | .flush => state.send (.flush state.sent.length)
  | .drain ready applies =>
    if state.acks ≠ [] then state
    else
      let (ops, acks, rest) := collect state.surface state.maxVersions [] [] (state.queue.take ready)
      { state with
        queue := rest ++ state.queue.drop ready
        store := if applies then writeBatch state.store ops else state.store
        committed := if applies then state.committed ++ ops.filterMap NamedOp.inserted
          else state.committed
        acks := acks }
  | .ack => { state with acked := state.acked ++ state.acks, acks := [] }

def run (state : Retained) (actions : List RetainAction) : Retained := actions.foldl step state

/-- The version of the frame that was committed last. -/
def lastVersion (state : Retained) : Option UInt64 :=
  state.committed.getLast?.bind fun frame => versionOf frame.name

/-- The store holds the last `n` of the versions that were committed, and what it held before. -/
structure KeepsLast (n : UInt64) (old : Store) (state : Retained) : Prop where
  published : ∃ waiting, framesOf state.sent = state.committed ++ waiting
  held : ∀ v wire, old (appendVersion state.surface v) = none →
    (state.store (appendVersion state.surface v) = some wire ↔
      wire ∈ state.committed ∧ wire.name = appendVersion state.surface v ∧
        ∃ last ∈ state.lastVersion, last.toNat < v.toNat + n.toNat)
  others : ∀ name, (∀ v, name ≠ appendVersion state.surface v) → state.store name = old name
  flushed : ∀ ack ∈ state.acked, state.sent[ack]? = some (.flush ack) ∧
    ∀ frame ∈ framesOf (state.sent.take ack), frame ∈ state.committed

end Retained

/-! ### Batches -/

section Batches

variable {surface : Name} {n : UInt64} {store : Store}

variable {frame : Frame} {frames : List Frame}

section

variable {w : UInt64} (named : frame.name = appendVersion surface w)
include named

theorem retainOps_of_version : retainOps surface (some n) frame =
      .insert frame.name frame ::
        if n ≤ w then [.remove (appendVersion surface (w - n))] else [] := by
  unfold retainOps
  rw [Option.bind_some, named, versionOf_appendVersion, Option.filter_some]
  by_cases old : n ≤ w
  · rw [decide_eq_true old, if_pos rfl, if_pos old]
    rfl
  · rw [decide_eq_false old, if_neg Bool.false_ne_true, if_neg old]
    rfl

theorem writeBatch_version (v : UInt64) :
    writeBatch store (retainOps surface (some n) frame) (appendVersion surface v) =
      if w.toNat = v.toNat + n.toNat then none
      else if v = w then some frame else store (appendVersion surface v) := by
  rw [retainOps_of_version named]
  have inserted : writeBatch store [.insert frame.name frame] (appendVersion surface v) =
      if v = w then some frame else store (appendVersion surface v) := by
    change Function.update store frame.name (some frame) (appendVersion surface v) = _
    rw [named, Function.update_apply]
    by_cases same : v = w
    · rw [if_pos same, if_pos (congrArg _ same)]
    · rw [if_neg same, if_neg fun named' => same (appendVersion_inj named')]
  by_cases old : n ≤ w
  · have difference := UInt64.toNat_sub_of_le _ _ old
    have below := UInt64.le_iff_toNat_le.mp old
    rw [if_pos old]
    change Function.update (writeBatch store [.insert frame.name frame])
      (appendVersion surface (w - n)) none (appendVersion surface v) = _
    rw [Function.update_apply, inserted]
    by_cases evicted : w.toNat = v.toNat + n.toNat
    · have same : v = w - n := by
        apply UInt64.toNat_inj.mp
        omega
      rw [if_pos evicted, if_pos (congrArg _ same)]
    · rw [if_neg evicted, if_neg]
      intro named'
      have same := appendVersion_inj named'
      rw [same] at evicted
      omega
  · have above := UInt64.lt_iff_toNat_lt.mp (UInt64.not_le.mp old)
    have kept : w.toNat ≠ v.toNat + n.toNat := by omega
    rw [if_neg old, inserted, if_neg kept]

theorem writeBatch_other {name : Name}
    (other : ∀ v, name ≠ appendVersion surface v) :
    writeBatch store (retainOps surface (some n) frame) name = store name := by
  rw [retainOps_of_version named]
  have inserted : writeBatch store [.insert frame.name frame] name = store name := by
    rw [named]
    exact Function.update_of_ne (other w) _ _
  split
  · change Function.update (writeBatch store [.insert frame.name frame])
      (appendVersion surface (w - n)) none name = _
    rw [Function.update_of_ne (other (w - n)), inserted]
  · exact inserted

end

/-- Frames of the versions from `first` on. -/
def Numbered (surface : Name) (first : Nat) (frames : List Frame) : Prop :=
  ∀ i frame, frames[i]? = some frame → frame.name = appendVersion surface (UInt64.ofNat (first + i))

theorem numbered_append {first : Nat} :
    Numbered surface first (frames ++ [frame]) ↔ Numbered surface first frames ∧
      frame.name = appendVersion surface (UInt64.ofNat (first + frames.length)) := by
  constructor
  · intro numbered
    refine ⟨?_, numbered frames.length frame List.getElem?_concat_length⟩
    intro i earlier stands
    have below := (List.getElem?_eq_some_iff.mp stands).1
    exact numbered i earlier (by rw [List.getElem?_append_left below, stands])
  · rintro ⟨numbered, named⟩ i other stands
    by_cases below : i < frames.length
    · rw [List.getElem?_append_left below] at stands
      exact numbered i other stands
    · rw [List.getElem?_append_right (Nat.le_of_not_lt below), List.getElem?_singleton] at stands
      split at stands
      · next last =>
        have index : i = frames.length := by omega
        cases stands
        rw [index]
        exact named
      · cases stands

/-- After frames of consecutive versions the last `n` of them are held. -/
theorem writeBatch_numbered {first : Nat}
    (numbered : Numbered surface first frames) (small : first + frames.length < 2 ^ 64) (v : UInt64)
    (wire : Frame) (fresh : store (appendVersion surface v) = none) :
    writeBatch store (frames.flatMap (retainOps surface (some n))) (appendVersion surface v) =
        some wire ↔
      ∃ i, frames[i]? = some wire ∧ v.toNat = first + i ∧
        first + frames.length ≤ v.toNat + n.toNat := by
  induction frames using List.reverseRecOn with
  | nil =>
    refine iff_of_false ?_ ?_
    · change store (appendVersion surface v) ≠ some wire
      rw [fresh]
      exact (Option.some_ne_none wire).symm
    · rintro ⟨i, found, _⟩
      cases found
  | append_singleton frames frame ih =>
    rcases numbered_append.mp numbered with ⟨earlier, named⟩
    rw [length_append, length_singleton] at small ⊢
    have within : first + frames.length < 2 ^ 64 := by omega
    have version : (UInt64.ofNat (first + frames.length)).toNat = first + frames.length :=
      UInt64.toNat_ofNat_of_lt' within
    rw [flatMap_append, flatMap_singleton, writeBatch_append, writeBatch_version named,
      version]
    have same : v = UInt64.ofNat (first + frames.length) ↔ v.toNat = first + frames.length := by
      rw [← version, UInt64.toNat_inj, UInt64.ofNat_toNat]
    by_cases evicted : first + frames.length = v.toNat + n.toNat
    · rw [if_pos evicted]
      refine iff_of_false (Option.some_ne_none wire).symm ?_
      rintro ⟨i, _, _, kept⟩
      omega
    · rw [if_neg evicted]
      by_cases newest : v.toNat = first + frames.length
      · rw [if_pos (same.mpr newest)]
        constructor
        · intro held
          cases held
          exact ⟨frames.length, List.getElem?_concat_length, newest, by omega⟩
        · rintro ⟨i, found, number, _⟩
          have index : i = frames.length := by omega
          rw [index, List.getElem?_concat_length] at found
          exact found
      · rw [if_neg (mt same.mp newest), ih earlier (by omega)]
        constructor
        · rintro ⟨i, found, number, kept⟩
          have below := (List.getElem?_eq_some_iff.mp found).1
          exact ⟨i, by rw [List.getElem?_append_left below, found], number, by omega⟩
        · rintro ⟨i, found, number, kept⟩
          have within := (List.getElem?_eq_some_iff.mp found).1
          rw [length_append, length_singleton] at within
          have below : i < frames.length := by omega
          rw [List.getElem?_append_left below] at found
          exact ⟨i, found, number, by omega⟩

theorem writeBatch_numbered_other {first : Nat}
    (numbered : Numbered surface first frames) {name : Name}
    (other : ∀ v, name ≠ appendVersion surface v) :
    writeBatch store (frames.flatMap (retainOps surface (some n))) name = store name := by
  induction frames using List.reverseRecOn with
  | nil => rfl
  | append_singleton frames frame ih =>
    rcases numbered_append.mp numbered with ⟨earlier, named⟩
    rw [flatMap_append, flatMap_singleton, writeBatch_append,
      writeBatch_other named other, ih earlier]

theorem inserted_retainOps (surface : Name) (maxVersions : Option UInt64) (frames : List Frame) :
    (frames.flatMap (retainOps surface maxVersions)).filterMap NamedOp.inserted = frames := by
  induction frames with
  | nil => rfl
  | cons frame rest ih =>
    have one : (retainOps surface maxVersions frame).filterMap NamedOp.inserted = [frame] := by
      unfold retainOps
      cases maxVersions.bind fun keep =>
        ((versionOf frame.name).filter (keep ≤ ·)).map fun v => appendVersion surface (v - keep) with
      | none => rfl
      | some old => rfl
    rw [flatMap_cons, filterMap_append, one, ih, singleton_append]

/-- A drain takes messages off the front of those that are there, all of them or a full batch. -/
theorem collect_eq (surface : Name) (maxVersions : Option UInt64) (ops : List NamedOp)
    (acks : List Nat) (messages : List RetainMsg) : ∃ taken rest, messages = taken ++ rest ∧
      collect surface maxVersions ops acks messages =
        (ops ++ (framesOf taken).flatMap (retainOps surface maxVersions), acks ++ acksOf taken,
          rest) := by
  induction messages generalizing ops acks with
  | nil =>
    refine ⟨[], [], rfl, ?_⟩
    rw [collect, framesOf, acksOf, filterMap_nil, filterMap_nil, flatMap_nil,
      append_nil, append_nil]
  | cons message messages ih =>
    cases message with
    | frame frame =>
      rw [collect]
      split
      · refine ⟨[.frame frame], messages, rfl, ?_⟩
        change _ = (_, acks ++ [], messages)
        rw [append_nil]
        change _ = (ops ++ (retainOps surface maxVersions frame ++ []), acks, messages)
        rw [append_nil]
      · rcases ih (ops ++ retainOps surface maxVersions frame) acks with
          ⟨taken, rest, split, collects⟩
        refine ⟨.frame frame :: taken, rest, by rw [split, cons_append], ?_⟩
        rw [collects]
        change _ = (ops ++ (retainOps surface maxVersions frame ++
          (framesOf taken).flatMap (retainOps surface maxVersions)), acks ++ acksOf taken, rest)
        rw [append_assoc]
    | flush ack =>
      rw [collect]
      split
      · refine ⟨[.flush ack], messages, rfl, ?_⟩
        change _ = (ops ++ [], acks ++ [ack], messages)
        rw [append_nil]
      · rcases ih ops (acks ++ [ack]) with ⟨taken, rest, split, collects⟩
        refine ⟨.flush ack :: taken, rest, by rw [split, cons_append], ?_⟩
        rw [collects]
        change _ = (ops ++ (framesOf taken).flatMap (retainOps surface maxVersions),
          acks ++ ([ack] ++ acksOf taken), rest)
        rw [append_assoc]

end Batches

namespace Retained

variable {n first : UInt64} {old : Store} {state : Retained}

/-- What the writer has received is the front of what was sent, and it has dealt with all of it. -/
structure Sound (n first : UInt64) (old : Store) (state : Retained) : Prop where
  keeps : state.maxVersions = some n
  numbered : Numbered state.surface first.toNat (framesOf state.sent)
  seq : state.seq = first.toNat + (framesOf state.sent).length
  small : state.seq < 2 ^ 64
  flushes : ∀ i ack : Nat, state.sent[i]? = some (.flush ack) → ack = i
  received : ∃ taken, state.sent = taken ++ state.queue ∧ state.committed = framesOf taken ∧
    state.acked ++ state.acks = acksOf taken
  stored : state.store =
    writeBatch old (state.committed.flatMap (retainOps state.surface (some n)))

theorem start_sound (surface : Name) (n first : UInt64) (old : Store) :
    Sound n first old (start surface n first old) where
  keeps := rfl
  numbered := by
    intro i frame found
    cases found
  seq := rfl
  small := first.toNat_lt
  flushes := by
    intro i ack found
    cases found
  received := ⟨[], rfl, rfl, rfl⟩
  stored := rfl

theorem framesOf_append (earlier later : List RetainMsg) :
    framesOf (earlier ++ later) = framesOf earlier ++ framesOf later := filterMap_append

theorem acksOf_append (earlier later : List RetainMsg) :
    acksOf (earlier ++ later) = acksOf earlier ++ acksOf later := filterMap_append

theorem flushes_append {messages : List RetainMsg} {message : RetainMsg}
    (flushes : ∀ i ack : Nat, messages[i]? = some (.flush ack) → ack = i)
    (last : ∀ ack, message = .flush ack → ack = messages.length) :
    ∀ i ack : Nat, (messages ++ [message])[i]? = some (.flush ack) → ack = i := by
  intro i ack found
  by_cases below : i < messages.length
  · rw [List.getElem?_append_left below] at found
    exact flushes i ack found
  · rw [List.getElem?_append_right (Nat.le_of_not_lt below), List.getElem?_singleton] at found
    split at found
    · have index : i = messages.length := by omega
      rw [index]
      exact last ack (Option.some.inj found)
    · cases found

section

variable (sound : Sound n first old state)
include sound

theorem publish_sound (content : Bytes) :
    Sound n first old (state.step (.publish content)) := by
  rw [step]
  split
  · next small =>
    have frames : framesOf (state.sent ++ [.frame ⟨appendVersion state.surface
        (UInt64.ofNat state.seq), content⟩]) = framesOf state.sent ++
          [⟨appendVersion state.surface (UInt64.ofNat state.seq), content⟩] := framesOf_append _ _
    refine ⟨sound.keeps, ?_, ?_, small, ?_, ?_, sound.stored⟩
    · change Numbered state.surface first.toNat (framesOf (state.sent ++ _))
      rw [frames]
      exact numbered_append.mpr ⟨sound.numbered, by rw [sound.seq]⟩
    · change state.seq + 1 = first.toNat + (framesOf (state.sent ++ _)).length
      rw [frames, length_append, length_singleton, sound.seq]
      exact Nat.add_assoc _ _ _
    · refine flushes_append sound.flushes ?_
      intro ack impossible
      cases impossible
    · rcases sound.received with ⟨taken, split, committed, acked⟩
      refine ⟨taken, ?_, committed, acked⟩
      change state.sent ++ _ = _
      rw [split]
      exact append_assoc _ _ _
  · exact sound

theorem flush_sound : Sound n first old (state.step .flush) := by
  have frames : framesOf (state.sent ++ [.flush state.sent.length]) = framesOf state.sent :=
    (framesOf_append _ _).trans (append_nil _)
  refine ⟨sound.keeps, ?_, ?_, sound.small, ?_, ?_, sound.stored⟩
  · change Numbered state.surface first.toNat (framesOf (state.sent ++ [.flush state.sent.length]))
    rw [frames]
    exact sound.numbered
  · change state.seq = first.toNat + (framesOf (state.sent ++ [.flush state.sent.length])).length
    rw [frames]
    exact sound.seq
  · refine flushes_append sound.flushes ?_
    rintro ack ⟨⟩
    rfl
  · rcases sound.received with ⟨taken, split, committed, acked⟩
    refine ⟨taken, ?_, committed, acked⟩
    change state.sent ++ _ = taken ++ (state.queue ++ _)
    rw [← append_assoc, ← split]

theorem drain_sound (ready : Nat) :
    Sound n first old (state.step (.drain ready true)) := by
  rw [step]
  split
  · exact sound
  · next idle =>
    rcases collect_eq state.surface state.maxVersions [] [] (state.queue.take ready) with
      ⟨batch, rest, split, collects⟩
    rcases sound.received with ⟨taken, sent, committed, acked⟩
    rw [not_not.mp idle, append_nil] at acked
    rw [collects]
    dsimp only
    rw [if_pos rfl, if_pos rfl, nil_append, nil_append, inserted_retainOps]
    refine ⟨sound.keeps, sound.numbered, sound.seq, sound.small, sound.flushes,
      ⟨taken ++ batch, ?_, ?_, ?_⟩, ?_⟩
    · change state.sent = taken ++ batch ++ (rest ++ state.queue.drop ready)
      rw [sent, append_assoc, ← append_assoc batch, ← split, take_append_drop]
    · change state.committed ++ framesOf batch = _
      rw [framesOf_append, committed]
    · change state.acked ++ acksOf batch = _
      rw [acksOf_append, acked]
    · change writeBatch state.store _ = writeBatch old ((state.committed ++ framesOf batch).flatMap _)
      rw [flatMap_append, writeBatch_append, sound.keeps, sound.stored]

theorem ack_sound : Sound n first old (state.step .ack) := by
  rcases sound.received with ⟨taken, sent, committed, acked⟩
  refine ⟨sound.keeps, sound.numbered, sound.seq, sound.small, sound.flushes,
    ⟨taken, sent, committed, ?_⟩, sound.stored⟩
  change state.acked ++ state.acks ++ [] = _
  rw [append_nil, acked]

theorem step_sound {action : RetainAction}
    (applies : action.Applies) : Sound n first old (state.step action) := by
  cases action with
  | publish content => exact publish_sound sound content
  | flush => exact flush_sound sound
  | drain ready written =>
    have written' : written = true := applies
    rw [written']
    exact drain_sound sound ready
  | ack => exact ack_sound sound

theorem run_sound {actions : List RetainAction}
    (applies : ∀ action ∈ actions, action.Applies) : Sound n first old (state.run actions) := by
  induction actions generalizing state with
  | nil => exact sound
  | cons action rest ih =>
    exact ih (step_sound sound (applies action mem_cons_self))
      fun later among => applies later (mem_cons_of_mem _ among)

theorem Sound.committed_numbered :
    Numbered state.surface first.toNat state.committed := by
  rcases sound.received with ⟨taken, sent, committed, _⟩
  intro i frame found
  apply sound.numbered i frame
  rw [committed] at found
  have below := (List.getElem?_eq_some_iff.mp found).1
  rw [sent, framesOf_append, List.getElem?_append_left below, found]

theorem Sound.committed_small :
    first.toNat + state.committed.length < 2 ^ 64 := by
  rcases sound.received with ⟨taken, sent, committed, _⟩
  have all := sound.seq
  have small := sound.small
  rw [sent, framesOf_append, length_append, ← committed] at all
  omega

/-- The versions that were committed are consecutive, up to the last one. -/
theorem Sound.lastVersion (some : state.committed ≠ []) :
    ∃ last, state.lastVersion = Option.some last ∧
      last.toNat + 1 = first.toNat + state.committed.length := by
  have positive := length_pos_iff.mpr some
  have small := sound.committed_small
  have stands : state.committed[state.committed.length - 1]? =
      Option.some (state.committed.getLast some) := by
    rw [← List.getLast?_eq_getElem?, List.getLast?_eq_some_getLast]
  have named := sound.committed_numbered _ _ stands
  refine ⟨UInt64.ofNat (first.toNat + (state.committed.length - 1)), ?_, ?_⟩
  · unfold Retained.lastVersion
    rw [List.getLast?_eq_some_getLast some, Option.bind_some, named, versionOf_appendVersion]
  · have within : first.toNat + (state.committed.length - 1) < 2 ^ 64 := by omega
    rw [UInt64.toNat_ofNat_of_lt' within]
    omega

end

theorem Sound.held (sound : Sound n first old state) (v : UInt64) (wire : Frame)
    (fresh : old (appendVersion state.surface v) = none) :
    state.store (appendVersion state.surface v) = some wire ↔
      wire ∈ state.committed ∧ wire.name = appendVersion state.surface v ∧
        ∃ last ∈ state.lastVersion, last.toNat < v.toNat + n.toNat := by
  have numbered := sound.committed_numbered
  have small := sound.committed_small
  rw [sound.stored, writeBatch_numbered numbered small v wire fresh]
  constructor
  · rintro ⟨i, found, number, kept⟩
    have among := mem_of_getElem? found
    rcases sound.lastVersion (ne_nil_of_mem among) with ⟨last, is, follows⟩
    refine ⟨among, ?_, last, is, ?_⟩
    · rw [numbered i wire found, ← number, UInt64.ofNat_toNat]
    · omega
  · rintro ⟨among, named, last, is, kept⟩
    rcases List.getElem?_of_mem among with ⟨i, found⟩
    have below := (List.getElem?_eq_some_iff.mp found).1
    rcases sound.lastVersion (ne_nil_of_mem among) with ⟨last', is', follows⟩
    rw [is'] at is
    cases is
    have version := appendVersion_inj (named.symm.trans (numbered i wire found))
    have within : first.toNat + i < 2 ^ 64 := by omega
    have number : v.toNat = first.toNat + i := by
      rw [version, UInt64.toNat_ofNat_of_lt' within]
    exact ⟨i, found, number, by omega⟩

theorem Sound.flushed (sound : Sound n first old state) {ack : Nat} (acked : ack ∈ state.acked) :
    state.sent[ack]? = some (.flush ack) ∧
      ∀ frame ∈ framesOf (state.sent.take ack), frame ∈ state.committed := by
  rcases sound.received with ⟨taken, sent, committed, acks⟩
  have among : ack ∈ acksOf taken := by
    rw [← acks]
    exact mem_append_left _ acked
  rcases mem_filterMap.mp among with ⟨message, received, channel⟩
  cases message with
  | frame frame => cases channel
  | flush ack' =>
    cases channel
    rcases List.getElem?_of_mem received with ⟨i, stands⟩
    have below := (List.getElem?_eq_some_iff.mp stands).1
    have at_i : state.sent[i]? = some (.flush ack) := by
      rw [sent, List.getElem?_append_left below, stands]
    have index := sound.flushes i ack at_i
    rw [index]
    refine ⟨index ▸ at_i, ?_⟩
    intro frame queued
    rw [sent, take_append_of_le_length (Nat.le_of_lt below)] at queued
    rw [committed]
    exact ((take_sublist i taken).filterMap RetainMsg.frame?).subset queued

theorem Sound.keepsLast (sound : Sound n first old state) : KeepsLast n old state where
  published := by
    rcases sound.received with ⟨taken, sent, committed, _⟩
    exact ⟨framesOf state.queue, by rw [sent, framesOf_append, committed]⟩
  held := sound.held
  others := by
    intro name other
    rw [sound.stored]
    exact writeBatch_numbered_other sound.committed_numbered other
  flushed := fun _ acked => sound.flushed acked

/-- However its drains cut the queue into batches, the writer keeps the last `n` versions. -/
theorem keeps_last (surface : Name) (n first : UInt64) (old : Store) (actions : List RetainAction)
    (applies : ∀ action ∈ actions, action.Applies) :
    KeepsLast n old ((start surface n first old).run actions) :=
  (run_sound (start_sound surface n first old) applies).keepsLast

end Retained

namespace Example

/-- Two frames and a flush, drained one by one. -/
def twoFrames : List RetainAction :=
  [.publish [1], .publish [2], .flush, .drain 1 true, .ack, .drain 2 true, .ack]

theorem keeps_last_one : Retained.KeepsLast 1 (fun _ => none)
    ((Retained.start (Name.single 0) 1 0 fun _ => none).run twoFrames) := by
  refine Retained.keeps_last (Name.single 0) 1 0 (fun _ => none) twoFrames ?_
  intro action among
  simp only [twoFrames, List.mem_cons, List.not_mem_nil, or_false] at among
  rcases among with rfl | rfl | rfl | rfl | rfl | rfl | rfl <;> trivial

end Example
end NdnExt.Surface
