import NdnExt.Shm.Broadcast
import Mathlib.Data.List.Range

/-! Readers of the broadcast ring see whole frames, in order, with exact loss accounting. -/

namespace NdnExt.Shm

open NdnExt.Lib

/-- The bytes that a reader finds in a slot nobody writes. -/
def BcastSlot.read (slot : BcastSlot) (slotSize : Nat) : List UInt8 :=
  (List.range (min slot.len slotSize)).map slot.payload

/-- Every sequence from the start to the cursor was returned once or lost once. -/
def BroadcastReader.Accounted (reader : BroadcastReader) : Prop :=
  ∃ lost : List Nat, lost.length = reader.dropped ∧
    (reader.returned.map Prod.fst ++ lost).Perm
      (List.range' reader.start (reader.next - reader.start))

/-- What a reader has seen of the published frames. -/
structure BroadcastReader.Exact (frames : List (List UInt8)) (reader : BroadcastReader) : Prop
    where
  whole : ∀ entry ∈ reader.returned, frames[entry.1]? = some entry.2
  ordered : (reader.returned.map Prod.fst).Pairwise (· < ·)
  counted : reader.next = reader.start + reader.returned.length + reader.dropped
  accounted : reader.Accounted
  behind : reader.next ≤ frames.length

namespace BroadcastReader

variable {geometry : BcastGeometry}

/-- While the slot still carries the cursor, the bytes already copied are those of its frame. -/
def CopiedSoFar (frames : List (List UInt8)) (slot : BcastSlot) (next : Nat) (buf : List UInt8)
    (pending : List Nat) : Prop :=
  slot.seq = next → ∃ frame, frames[next]? = some frame ∧ buf.length = frame.length ∧
    ∀ i, i ∉ pending → buf[i]? = frame[i]?

/-- What the local variables of `peek` say of the shared memory. -/
def PhaseHolds (geometry : BcastGeometry) (frames : List (List UInt8)) (slots : Nat → BcastSlot)
    (reader : BroadcastReader) : Prop :=
  match reader.phase with
  | .idle => True
  | .polling _ => True
  | .tailRead _ t => reader.next < t ∧ t ≤ frames.length
  | .adjusted _ => reader.next < frames.length
  | .matched _ => reader.next < frames.length
  | .copying _ buf pending => reader.next < frames.length ∧
      CopiedSoFar frames (slots (reader.next % geometry.capacity)) reader.next buf pending
  | .confirmed buf => frames[reader.next]? = some buf

/-- The invariant of a reader. -/
structure Holds (geometry : BcastGeometry) (frames : List (List UInt8)) (slots : Nat → BcastSlot)
    (reader : BroadcastReader) : Prop where
  whole : ∀ entry ∈ reader.returned, frames[entry.1]? = some entry.2
  ordered : (reader.returned.map Prod.fst).Pairwise (· < ·)
  accounted : reader.Accounted
  started : reader.start ≤ reader.next
  behind : reader.next ≤ frames.length
  phase : reader.PhaseHolds geometry frames slots

/-- Every slot that carries the sequence of a published frame holds that frame. -/
def Stored (geometry : BcastGeometry) (frames : List (List UInt8)) (slots : Nat → BcastSlot) :
    Prop :=
  ∀ seq frame, frames[seq]? = some frame → (slots (seq % geometry.capacity)).seq = seq →
    (slots (seq % geometry.capacity)).read geometry.slotSize = frame

section Accounting

variable {reader : BroadcastReader}

theorem Accounted.mem_returned (accounted : reader.Accounted) {seq : Nat}
    (returned : seq ∈ reader.returned.map Prod.fst) : seq < reader.next := by
  rcases accounted with ⟨lost, -, perm⟩
  have ranged := perm.mem_iff.mp (List.mem_append_left lost returned)
  rw [List.mem_range'_1] at ranged
  omega

theorem Accounted.counted (accounted : reader.Accounted) (started : reader.start ≤ reader.next) :
    reader.next = reader.start + reader.returned.length + reader.dropped := by
  rcases accounted with ⟨lost, length, perm⟩
  have lengths := perm.length_eq
  rw [List.length_append, List.length_map, List.length_range', length] at lengths
  omega

theorem Accounted.skip (accounted : reader.Accounted) (started : reader.start ≤ reader.next)
    {oldest dropped : Nat} (lapped : reader.next < oldest)
    (counts : dropped = reader.dropped + (oldest - reader.next)) (phase : PeekPhase) :
    Accounted { reader with dropped := dropped, next := oldest, phase := phase } := by
  rcases accounted with ⟨lost, length, perm⟩
  refine ⟨lost ++ List.range' reader.next (oldest - reader.next), ?_, ?_⟩
  · rw [List.length_append, List.length_range', length, counts]
  · have joined : List.range' reader.start (oldest - reader.start) =
        List.range' reader.start (reader.next - reader.start) ++
          List.range' reader.next (oldest - reader.next) := by
      have appended := @List.range'_append_1 reader.start (reader.next - reader.start)
        (oldest - reader.next)
      rw [show reader.start + (reader.next - reader.start) = reader.next by omega,
        show reader.next - reader.start + (oldest - reader.next) = oldest - reader.start by omega]
        at appended
      exact appended.symm
    change (reader.returned.map Prod.fst ++ (lost ++ _)).Perm
      (List.range' reader.start (oldest - reader.start))
    rw [joined, ← List.append_assoc]
    exact perm.append_right _

theorem Accounted.take (accounted : reader.Accounted) (started : reader.start ≤ reader.next)
    (buf : List UInt8) (phase : PeekPhase) :
    Accounted { reader with
      next := reader.next + 1, phase := phase
      returned := reader.returned ++ [(reader.next, buf)] } := by
  rcases accounted with ⟨lost, length, perm⟩
  refine ⟨lost, length, ?_⟩
  have grown : List.range' reader.start (reader.next + 1 - reader.start) =
      List.range' reader.start (reader.next - reader.start) ++ [reader.next] := by
    rw [show reader.next + 1 - reader.start = reader.next - reader.start + 1 by omega,
      List.range'_1_concat, show reader.start + (reader.next - reader.start) = reader.next by omega]
  change ((reader.returned ++ [(reader.next, buf)]).map Prod.fst ++ lost).Perm
    (List.range' reader.start (reader.next + 1 - reader.start))
  rw [grown, List.map_append, List.append_assoc]
  have moved : (reader.returned.map Prod.fst ++ ([reader.next] ++ lost)).Perm
      (reader.returned.map Prod.fst ++ lost ++ [reader.next]) := by
    rw [List.append_assoc]
    exact List.perm_append_comm.append_left _
  exact moved.trans (perm.append_right _)

end Accounting

section Steps

variable {frames : List (List UInt8)} {slots : Nat → BcastSlot} {reader : BroadcastReader}

section

variable (holds : reader.Holds geometry frames slots)
include holds

theorem Holds.exact : reader.Exact frames :=
  ⟨holds.whole, holds.ordered, holds.accounted.counted holds.started, holds.accounted,
    holds.behind⟩

/-- A reader that does not move keeps its invariant while frames are only appended and no slot
takes the sequence of a frame published before. -/
theorem Holds.mono {grown : List (List UInt8)}
    {written : Nat → BcastSlot} (appended : frames <+: grown)
    (fresh : ∀ idx, (written idx).seq < frames.length → (slots idx).seq = (written idx).seq) :
    reader.Holds geometry grown written := by
  rcases appended with ⟨later, rfl⟩
  have kept : ∀ {seq : Nat} {frame : List UInt8}, frames[seq]? = some frame →
      (frames ++ later)[seq]? = some frame := by
    intro seq frame published
    rw [List.getElem?_append_left (List.getElem?_eq_some_iff.mp published).1]
    exact published
  have longer : frames.length ≤ (frames ++ later).length := by
    rw [List.length_append]
    omega
  refine ⟨fun entry mem => kept (holds.whole entry mem), holds.ordered, holds.accounted,
    holds.started, holds.behind.trans longer, ?_⟩
  have phase := holds.phase
  unfold PhaseHolds at phase ⊢
  split at phase
  · trivial
  · trivial
  · exact ⟨phase.1, phase.2.trans longer⟩
  · exact phase.trans_le longer
  · exact phase.trans_le longer
  · refine ⟨phase.1.trans_le longer, ?_⟩
    intro carries
    have before := fresh _ (by rw [carries]; exact phase.1)
    rcases phase.2 (before.trans carries) with ⟨frame, published, same⟩
    exact ⟨frame, kept published, same⟩
  · exact kept phase

theorem Holds.idle :
    Holds geometry frames slots { reader with phase := .idle } :=
  ⟨holds.whole, holds.ordered, holds.accounted, holds.started, holds.behind, trivial⟩

theorem Holds.polling (budget : Nat) :
    Holds geometry frames slots { reader with phase := .polling budget } :=
  ⟨holds.whole, holds.ordered, holds.accounted, holds.started, holds.behind, trivial⟩

theorem Holds.retry (budget : Nat) :
    Holds geometry frames slots { reader with phase := retry budget } := by
  cases budget with
  | zero => exact holds.idle
  | succ budget => exact holds.polling budget

end

variable {budget : Nat} {buf : List UInt8}

/-- The cursor jumps to the oldest frame that can still be in the ring. -/
theorem Holds.adjust (holds : reader.Holds geometry frames slots)
    (small : frames.length < bcastWriting) {t : Nat}
    (reading : reader.phase = .tailRead budget t)
    (lapped : reader.next < t - geometry.capacity) :
    Holds geometry frames slots { reader with
      dropped := wrappingAdd (2 ^ 64) reader.dropped (t - geometry.capacity - reader.next)
      next := t - geometry.capacity
      phase := .adjusted budget } := by
  have phase := holds.phase
  unfold PhaseHolds at phase
  rw [reading] at phase
  have counted := holds.accounted.counted holds.started
  have positive := geometry.capacity_pos
  unfold bcastWriting at small
  have exactly : wrappingAdd (2 ^ 64) reader.dropped (t - geometry.capacity - reader.next) =
      reader.dropped + (t - geometry.capacity - reader.next) :=
    Nat.mod_eq_of_lt (by omega)
  refine ⟨holds.whole, holds.ordered,
    holds.accounted.skip holds.started lapped exactly (.adjusted budget), ?_, ?_, ?_⟩
  · exact holds.started.trans lapped.le
  · change t - geometry.capacity ≤ frames.length
    omega
  · change t - geometry.capacity < frames.length
    omega

theorem Holds.readLen (holds : reader.Holds geometry frames slots)
    (stored : Stored geometry frames slots)
    (reading : reader.phase = .matched budget) :
    let len := min (slots (reader.next % geometry.capacity)).len geometry.slotSize
    Holds geometry frames slots { reader with
      phase := .copying budget (List.replicate len 0) (List.range len) } := by
  intro len
  have phase := holds.phase
  unfold PhaseHolds at phase
  rw [reading] at phase
  have published : reader.next < frames.length := phase
  refine ⟨holds.whole, holds.ordered, holds.accounted, holds.started, holds.behind, published, ?_⟩
  intro carries
  have frame := stored reader.next _ (List.getElem?_eq_getElem published) carries
  have length : (frames[reader.next]).length = len := by
    rw [← frame, BcastSlot.read, List.length_map, List.length_range]
  refine ⟨_, List.getElem?_eq_getElem published, ?_, ?_⟩
  · rw [List.length_replicate, length]
  · intro i outside
    rw [List.mem_range] at outside
    rw [List.getElem?_eq_none (by rw [List.length_replicate]; omega),
      List.getElem?_eq_none (by rw [length]; omega)]

theorem getElem?_read (slot : BcastSlot) (slotSize : Nat) {i : Nat}
    (inside : i < (slot.read slotSize).length) :
    (slot.read slotSize)[i]? = some (slot.payload i) := by
  rw [BcastSlot.read, List.length_map, List.length_range] at inside
  rw [BcastSlot.read, List.getElem?_map, List.getElem?_range inside]
  rfl

theorem Holds.copy (holds : reader.Holds geometry frames slots)
    (stored : Stored geometry frames slots) {offset : Nat}
    {pending : List Nat} (reading : reader.phase = .copying budget buf pending) :
    Holds geometry frames slots { reader with
      phase := .copying budget
        (buf.set offset ((slots (reader.next % geometry.capacity)).payload offset))
        (pending.erase offset) } := by
  have phase := holds.phase
  unfold PhaseHolds at phase
  rw [reading] at phase
  refine ⟨holds.whole, holds.ordered, holds.accounted, holds.started, holds.behind, phase.1, ?_⟩
  intro carries
  rcases phase.2 carries with ⟨frame, published, length, copied⟩
  have whole := stored reader.next frame published carries
  refine ⟨frame, published, by rw [List.length_set, length], ?_⟩
  intro i outside
  by_cases here : offset = i
  · subst here
    by_cases inside : offset < buf.length
    · rw [List.getElem?_set_self inside, ← whole,
        getElem?_read _ _ (by rw [whole, ← length]; exact inside)]
    · rw [List.getElem?_eq_none (by rw [List.length_set]; omega),
        List.getElem?_eq_none (by omega)]
  · rw [List.getElem?_set_ne here]
    exact copied i (fun mem => outside ((List.mem_erase_of_ne (Ne.symm here)).mpr mem))

/-- The second read of the sequence still finds the cursor: the copy is the whole frame. -/
theorem Holds.confirm (holds : reader.Holds geometry frames slots)
    (reading : reader.phase = .copying budget buf [])
    (carries : (slots (reader.next % geometry.capacity)).seq = reader.next) :
    Holds geometry frames slots { reader with phase := .confirmed buf } := by
  have phase := holds.phase
  unfold PhaseHolds at phase
  rw [reading] at phase
  rcases phase.2 carries with ⟨frame, published, -, copied⟩
  have same : buf = frame := List.ext_getElem? (fun i => copied i List.not_mem_nil)
  refine ⟨holds.whole, holds.ordered, holds.accounted, holds.started, holds.behind, ?_⟩
  change frames[reader.next]? = some buf
  rw [published, same]

theorem Holds.take (holds : reader.Holds geometry frames slots)
    (reading : reader.phase = .confirmed buf) :
    Holds geometry frames slots { reader with
      next := reader.next + 1
      phase := .idle
      returned := reader.returned ++ [(reader.next, buf)] } := by
  have phase := holds.phase
  unfold PhaseHolds at phase
  rw [reading] at phase
  have published : frames[reader.next]? = some buf := phase
  refine ⟨?_, ?_, holds.accounted.take holds.started buf .idle,
    holds.started.trans (Nat.le_succ _), (List.getElem?_eq_some_iff.mp published).1, trivial⟩
  · intro entry mem
    rcases List.mem_append.mp mem with earlier | last
    · exact holds.whole entry earlier
    · rw [List.mem_singleton.mp last]
      exact published
  · rw [List.map_append, List.pairwise_append]
    refine ⟨holds.ordered, List.pairwise_singleton _ _, ?_⟩
    intro seq earlier last mem
    rw [List.mem_singleton.mp mem]
    exact holds.accounted.mem_returned earlier

theorem Holds.step (holds : reader.Holds geometry frames slots)
    (stored : Stored geometry frames slots) (small : frames.length < bcastWriting) {tail : Nat}
    (published : tail ≤ frames.length) {offset : Nat} {next : BroadcastReader}
    (taken : reader.step geometry tail slots offset = some next) :
    next.Holds geometry frames slots := by
  have phase := holds.phase
  unfold BroadcastReader.step at taken
  dsimp only at taken
  unfold PhaseHolds at phase
  split at taken
  · cases taken
    exact holds.polling _
  · split at taken
    · cases taken
      exact holds.idle
    · cases taken
      exact ⟨holds.whole, holds.ordered, holds.accounted, holds.started, holds.behind,
        Nat.lt_of_not_le ‹_›, published⟩
  · rename_i budget t reading
    split at taken
    · cases taken
      exact holds.adjust small reading ‹_›
    · cases taken
      rw [reading] at phase
      exact ⟨holds.whole, holds.ordered, holds.accounted, holds.started, holds.behind,
        Nat.lt_of_lt_of_le phase.1 phase.2⟩
  · rename_i budget reading
    split at taken
    · cases taken
      exact holds.retry _
    · cases taken
      rw [reading] at phase
      exact ⟨holds.whole, holds.ordered, holds.accounted, holds.started, holds.behind, phase⟩
  · cases taken
    exact holds.readLen stored ‹_›
  · split at taken
    · rename_i done
      subst done
      split at taken
      · cases taken
        exact holds.retry _
      · cases taken
        exact holds.confirm ‹_› (not_not.mp ‹_›)
    · split at taken
      · cases taken
        exact holds.copy stored ‹_›
      · cases taken
  · cases taken
    exact holds.take ‹_›

end Steps

end BroadcastReader

namespace Broadcast

open BroadcastReader (Stored)

variable {geometry : BcastGeometry}

/-- What the writer's phase says of the tail, the frames and the slot at the tail. -/
def WriterHolds (geometry : BcastGeometry) (state : Broadcast) : Prop :=
  match state.writer with
  | .idle => state.frames.length = state.tail
  | .marked t len => t = state.tail ∧ state.frames.length = t ∧ len ≤ geometry.slotSize ∧
      (state.slots (t % geometry.capacity)).seq = bcastWriting
  | .filling t len => t = state.tail ∧ state.frames.length = t ∧ len ≤ geometry.slotSize ∧
      (state.slots (t % geometry.capacity)).seq = bcastWriting ∧
      (state.slots (t % geometry.capacity)).len = len
  | .stored t => t = state.tail ∧ state.frames.length = t + 1

structure Holds (geometry : BcastGeometry) (state : Broadcast) : Prop where
  writer : state.WriterHolds geometry
  stored : Stored geometry state.frames state.slots
  readers : ∀ idx reader, state.readers idx = some reader →
    reader.Holds geometry state.frames state.slots

theorem create_holds : create.Holds geometry := by
  refine ⟨rfl, ?_, ?_⟩
  · intro seq frame published
    cases published
  · intro idx reader joined
    cases joined

section Steps

variable {state : Broadcast}

theorem Holds.tail_le (holds : state.Holds geometry) : state.tail ≤ state.frames.length := by
  have writer := holds.writer
  unfold WriterHolds at writer
  split at writer <;> omega

@[simp] theorem setSlot_slots (state : Broadcast) (t : Nat) (put : BcastSlot → BcastSlot)
    (phase : CommitPhase) : (state.setSlot geometry t put phase).slots =
      Function.update state.slots (t % geometry.capacity)
        (put (state.slots (t % geometry.capacity))) := rfl

/-- Writing a slot that carries `bcastWriting` afterwards disturbs no reader and no frame. -/
theorem Holds.setSlot (holds : state.Holds geometry) (small : state.frames.length < bcastWriting)
    {t : Nat} {put : BcastSlot → BcastSlot} {phase : CommitPhase}
    (marks : (put (state.slots (t % geometry.capacity))).seq = bcastWriting)
    (writer : (state.setSlot geometry t put phase).WriterHolds geometry) :
    (state.setSlot geometry t put phase).Holds geometry := by
  have fresh : ∀ idx, ((state.setSlot geometry t put phase).slots idx).seq < state.frames.length →
      (state.setSlot geometry t put phase).slots idx = state.slots idx := by
    intro idx published
    rw [setSlot_slots] at published ⊢
    by_cases here : idx = t % geometry.capacity
    · subst here
      rw [Function.update_self, marks] at published
      exact absurd published (Nat.lt_asymm small)
    · exact Function.update_of_ne here _ _
  refine ⟨writer, ?_, ?_⟩
  · intro seq frame published carries
    have same := fresh (seq % geometry.capacity)
      (by rw [carries]; exact (List.getElem?_eq_some_iff.mp published).1)
    rw [same] at carries ⊢
    exact holds.stored seq frame published carries
  · intro idx reader joined
    apply (holds.readers idx reader joined).mono (List.prefix_refl _)
    intro slot published
    rw [fresh slot published]

/-- Storing the sequence publishes the frame that the slot holds. -/
theorem Holds.storeSeq (holds : state.Holds geometry) {t len : Nat}
    (filling : state.writer = .filling t len) :
    Holds geometry { state.setSlot geometry t ({ · with seq := t }) (.stored t) with
      frames := state.frames ++
        [(List.range len).map (state.slots (t % geometry.capacity)).payload] } := by
  have writer := holds.writer
  unfold WriterHolds at writer
  rw [filling] at writer
  rcases writer with ⟨atTail, published, fits, -, length⟩
  refine ⟨⟨atTail, by rw [List.length_append, published]; rfl⟩, ?_, ?_⟩
  · intro seq frame found carries
    change (Function.update state.slots (t % geometry.capacity) _ _).read _ = frame
    change (Function.update state.slots (t % geometry.capacity) _ _).seq = seq at carries
    rcases Nat.lt_trichotomy seq t with earlier | same | later
    · change (state.frames ++ _)[seq]? = some frame at found
      rw [List.getElem?_append_left (by omega)] at found
      by_cases here : seq % geometry.capacity = t % geometry.capacity
      · rw [here, Function.update_self] at carries
        change t = seq at carries
        omega
      · rw [Function.update_of_ne here] at carries ⊢
        exact holds.stored seq frame found carries
    · subst same
      change (state.frames ++ _)[seq]? = some frame at found
      rw [← published, List.getElem?_concat_length] at found
      cases found
      rw [Function.update_self, published]
      change List.map _ (List.range (min _ _)) = _
      rw [length, Nat.min_eq_left fits]
    · have bound := (List.getElem?_eq_some_iff.mp found).1
      change seq < (state.frames ++ _).length at bound
      rw [List.length_append, List.length_singleton] at bound
      omega
  · intro idx reader joined
    apply (holds.readers idx reader joined).mono (List.prefix_append _ _)
    intro slot carries
    change (Function.update state.slots (t % geometry.capacity) _ slot).seq < _ at carries
    change _ = (Function.update state.slots (t % geometry.capacity) _ slot).seq
    by_cases here : slot = t % geometry.capacity
    · subst here
      rw [Function.update_self] at carries
      change t < state.frames.length at carries
      omega
    · rw [Function.update_of_ne here]

/-- A reader joins or moves; the writer and its memory stay. -/
theorem Holds.setReader (holds : state.Holds geometry) (idx : Nat) {reader : BroadcastReader}
    (reads : reader.Holds geometry state.frames state.slots) :
    Holds geometry { state with readers := Function.update state.readers idx (some reader) } := by
  refine ⟨holds.writer, holds.stored, ?_⟩
  intro other found joined
  change Function.update state.readers idx (some reader) other = some found at joined
  by_cases here : other = idx
  · subst here
    rw [Function.update_self, Option.some.injEq] at joined
    subst joined
    exact reads
  · rw [Function.update_of_ne here] at joined
    exact holds.readers other found joined

theorem join_holds (frames : List (List UInt8)) (slots : Nat → BcastSlot) {tail : Nat}
    (published : tail ≤ frames.length) :
    BroadcastReader.Holds geometry frames slots ⟨tail, tail, 0, .idle, []⟩ := by
  refine ⟨?_, List.Pairwise.nil, ⟨[], rfl, ?_⟩, Nat.le_refl _, published, trivial⟩
  · intro entry mem
    cases mem
  · change List.Perm [] (List.range' tail (tail - tail))
    rw [Nat.sub_self]
    exact List.Perm.refl _

theorem Holds.step (holds : state.Holds geometry) (small : state.frames.length < bcastWriting)
    {event : BroadcastEvent} {next : Broadcast} (taken : state.step geometry event = some next) :
    next.Holds geometry := by
  have writer := holds.writer
  unfold WriterHolds at writer
  cases event with
  | publishWith len =>
    simp only [Broadcast.step] at taken
    split at taken
    · rename_i phase
      rw [phase] at writer
      split at taken
      · cases taken
        exact holds
      · cases taken
        apply holds.setSlot small rfl
        exact ⟨rfl, writer, by omega, by rw [setSlot_slots, Function.update_self]⟩
    · cases taken
  | storeLen =>
    simp only [Broadcast.step] at taken
    split at taken
    · rename_i phase
      rw [phase] at writer
      rcases writer with ⟨atTail, published, fits, marked⟩
      cases taken
      apply holds.setSlot small marked
      have sized := geometry.slotSize_lt
      refine ⟨atTail, published, fits, ?_, ?_⟩
      · rw [setSlot_slots, Function.update_self]
        exact marked
      · rw [setSlot_slots, Function.update_self]
        exact asU32_of_lt (by omega)
    · cases taken
  | fill offset byte =>
    simp only [Broadcast.step] at taken
    split at taken
    · rename_i phase
      rw [phase] at writer
      rcases writer with ⟨atTail, published, fits, marked, length⟩
      split at taken
      · cases taken
        apply holds.setSlot small marked
        refine ⟨atTail, published, fits, ?_, ?_⟩
        · rw [setSlot_slots, Function.update_self]
          exact marked
        · rw [setSlot_slots, Function.update_self]
          exact length
      · cases taken
    · cases taken
  | storeSeq =>
    simp only [Broadcast.step] at taken
    split at taken
    · cases taken
      exact holds.storeSeq ‹_›
    · cases taken
  | storeTail =>
    simp only [Broadcast.step] at taken
    split at taken
    · rename_i phase
      rw [phase] at writer
      rcases writer with ⟨-, published⟩
      cases taken
      refine ⟨?_, holds.stored, holds.readers⟩
      unfold bcastWriting at small
      exact published.trans (Nat.mod_eq_of_lt (by omega)).symm
    · cases taken
  | join idx =>
    simp only [Broadcast.step] at taken
    split at taken
    · cases taken
      exact holds.setReader idx (join_holds state.frames state.slots holds.tail_le)
    · cases taken
  | reader idx offset =>
    simp only [Broadcast.step] at taken
    split at taken
    · cases taken
    · rename_i reader joined
      rw [Option.map_eq_some_iff] at taken
      rcases taken with ⟨moved, stepped, rfl⟩
      exact holds.setReader idx
        ((holds.readers idx reader joined).step holds.stored small holds.tail_le stepped)

end Steps

theorem frames_step {state next : Broadcast} {event : BroadcastEvent}
    (taken : state.step geometry event = some next) : state.frames <+: next.frames := by
  cases event with
  | publishWith len =>
    simp only [Broadcast.step] at taken
    split at taken
    · split at taken <;> cases taken <;> exact List.prefix_refl _
    · cases taken
  | storeLen =>
    simp only [Broadcast.step] at taken
    split at taken <;> cases taken
    exact List.prefix_refl _
  | fill offset byte =>
    simp only [Broadcast.step] at taken
    split at taken
    · split at taken <;> cases taken
      exact List.prefix_refl _
    · cases taken
  | storeSeq =>
    simp only [Broadcast.step] at taken
    split at taken <;> cases taken
    exact List.prefix_append _ _
  | storeTail =>
    simp only [Broadcast.step] at taken
    split at taken <;> cases taken
    exact List.prefix_refl _
  | join idx =>
    simp only [Broadcast.step] at taken
    split at taken <;> cases taken
    exact List.prefix_refl _
  | reader idx offset =>
    simp only [Broadcast.step] at taken
    split at taken
    · cases taken
    · rw [Option.map_eq_some_iff] at taken
      rcases taken with ⟨moved, -, rfl⟩
      exact List.prefix_refl _

theorem reachable_holds {state : Broadcast}
    (reachable : System.Reachable (step geometry) create state)
    (small : state.frames.length < bcastWriting) : state.Holds geometry := by
  induction reachable with
  | start => exact create_holds
  | step _ _ taken ih =>
    have before := Nat.lt_of_le_of_lt (frames_step taken).length_le small
    exact (ih before).step before taken

/-- Every reader sees whole frames, in order, and counts what it loses, however the steps of
the writer and of the readers interleave. -/
theorem readers_exact {state : Broadcast}
    (reachable : System.Reachable (step geometry) create state)
    (small : state.frames.length < bcastWriting) {idx : Nat} {reader : BroadcastReader}
    (joined : state.readers idx = some reader) : reader.Exact state.frames :=
  ((reachable_holds reachable small).readers idx reader joined).exact

/-- A frame of two bytes is overwritten in a ring of one slot while a reader copies it. -/
def lapped : List BroadcastEvent :=
  [.join 0, .publishWith 2, .storeLen, .fill 0 5, .fill 1 6, .storeSeq, .storeTail,
    .reader 0 0, .reader 0 0, .reader 0 0, .reader 0 0, .reader 0 0, .reader 0 0,
    .publishWith 1, .storeLen, .fill 0 7, .reader 0 1, .storeSeq, .reader 0 0, .storeTail,
    .reader 0 0, .reader 0 0, .reader 0 0, .reader 0 0, .reader 0 0, .reader 0 0, .reader 0 0]

theorem readers_exact_lapped :
    ∃ state, System.runAllowed (step ⟨1, 2, by decide, by decide⟩) (fun _ _ => True) create lapped =
        some state ∧
      ∃ reader, state.readers 0 = some reader ∧ reader.returned = [(1, [7])] ∧
        reader.dropped = 1 ∧ reader.Exact state.frames := by
  have outcome : ∃ state ∈ System.runAllowed (step ⟨1, 2, by decide, by decide⟩) (fun _ _ => True)
      create lapped, state.frames.length < bcastWriting ∧
        ∃ reader ∈ state.readers 0, reader.returned = [(1, [7])] ∧ reader.dropped = 1 := by decide
  rcases outcome with ⟨state, run, small, reader, joined, returned, dropped⟩
  refine ⟨state, run, reader, joined, returned, dropped, ?_⟩
  exact readers_exact (System.reaches_runAllowed System.Reaches.start run) small joined

end Broadcast

end NdnExt.Shm
