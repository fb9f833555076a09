import NdnExt.Lib.Checked
import NdnExt.Lib.Run
import NdnExt.Lib.WrappingCounter

/-! The broadcast ring of a shared-memory face: one writer that never waits and readers that
copy its slots under a sequence check, as interleaved steps on shared memory. -/

namespace NdnExt.Shm

open NdnExt.Lib

/-- The sequence of a slot whose producer is mid-write. -/
def bcastWriting : Nat := 2 ^ 64 - 1

structure BcastGeometry where
  capacity : Nat
  slotSize : Nat
  capacity_pos : 0 < capacity
  slotSize_lt : slotSize < 2 ^ 32

structure BcastSlot where
  seq : Nat
  len : Nat
  payload : Nat → UInt8

/-- Where the writer is in `commit`, with the tail it loaded and the length it was given. -/
inductive CommitPhase where
  | idle
  | marked (t len : Nat)
  | filling (t len : Nat)
  | stored (t : Nat)
  deriving DecidableEq

/-- Where a reader is in `try_recv`: the attempts left after this one, and what `peek` holds
in its local variables. -/
inductive PeekPhase where
  | idle
  | polling (budget : Nat)
  | tailRead (budget t : Nat)
  | adjusted (budget : Nat)
  | matched (budget : Nat)
  | copying (budget : Nat) (buf : List UInt8) (pending : List Nat)
  | confirmed (buf : List UInt8)
  deriving DecidableEq

/-- A reader with its history: the tail it joined at and the frames it returned, each with the
cursor it was returned at. -/
structure BroadcastReader where
  start : Nat
  next : Nat
  dropped : Nat
  phase : PeekPhase
  returned : List (Nat × List UInt8)
  deriving DecidableEq

/-- `Retry`: the next attempt, or nothing this poll when the budget is spent. -/
def retry : Nat → PeekPhase
  | 0 => .idle
  | budget + 1 => .polling budget

/-- The next step of a reader; `offset` is the byte it copies when it is copying. -/
def BroadcastReader.step (geometry : BcastGeometry) (tail : Nat) (slots : Nat → BcastSlot)
    (reader : BroadcastReader) (offset : Nat) : Option BroadcastReader :=
  let slot := slots (reader.next % geometry.capacity)
  match reader.phase with
  | .idle => some { reader with phase := .polling (4 * geometry.capacity + 16 - 1) }
  | .polling budget =>
    if reader.next ≥ tail then some { reader with phase := .idle }
    else some { reader with phase := .tailRead budget tail }
  | .tailRead budget t =>
    let oldest := t - geometry.capacity
    if reader.next < oldest then
      some { reader with
        dropped := wrappingAdd (2 ^ 64) reader.dropped (oldest - reader.next)
        next := oldest
        phase := .adjusted budget }
    else some { reader with phase := .adjusted budget }
  | .adjusted budget =>
    if slot.seq ≠ reader.next then some { reader with phase := retry budget }
    else some { reader with phase := .matched budget }
  | .matched budget =>
    let len := min slot.len geometry.slotSize
    some { reader with phase := .copying budget (List.replicate len 0) (List.range len) }
  | .copying budget buf pending =>
    if pending = [] then
      if slot.seq ≠ reader.next then some { reader with phase := retry budget }
      else some { reader with phase := .confirmed buf }
    else if offset ∈ pending then
      some { reader with
        phase := .copying budget (buf.set offset (slot.payload offset)) (pending.erase offset) }
    else none
  | .confirmed buf =>
    some { reader with
      next := reader.next + 1
      phase := .idle
      returned := reader.returned ++ [(reader.next, buf)] }

/-- The ring with its writer and readers, and the frames published so far. -/
structure Broadcast where
  tail : Nat
  slots : Nat → BcastSlot
  writer : CommitPhase
  readers : Nat → Option BroadcastReader
  frames : List (List UInt8)

inductive BroadcastEvent where
  | publishWith (len : Nat)
  | storeLen
  | fill (offset : Nat) (byte : UInt8)
  | storeSeq
  | storeTail
  | join (idx : Nat)
  | reader (idx offset : Nat)

namespace Broadcast

variable (geometry : BcastGeometry)

/-- A fresh ring: the mapping is zero. -/
def create : Broadcast where
  tail := 0
  slots := fun _ => ⟨0, 0, fun _ => 0⟩
  writer := .idle
  readers := fun _ => none
  frames := []

def setSlot (state : Broadcast) (t : Nat) (put : BcastSlot → BcastSlot) (phase : CommitPhase) :
    Broadcast :=
  let idx := t % geometry.capacity
  { state with slots := Function.update state.slots idx (put (state.slots idx)), writer := phase }

def step (state : Broadcast) : BroadcastEvent → Option Broadcast
  | .publishWith len =>
    match state.writer with
    | .idle =>
      if len > geometry.slotSize then some state
      else
        some (state.setSlot geometry state.tail ({ · with seq := bcastWriting })
          (.marked state.tail len))
    | _ => none
  | .storeLen =>
    match state.writer with
    | .marked t len =>
      some (state.setSlot geometry t ({ · with len := asU32 len }) (.filling t len))
    | _ => none
  | .fill offset byte =>
    match state.writer with
    | .filling t len =>
      if offset < len then
        some (state.setSlot geometry t
          (fun slot => { slot with payload := Function.update slot.payload offset byte })
          (.filling t len))
      else none
    | _ => none
  | .storeSeq =>
    match state.writer with
    | .filling t len =>
      let frame := (List.range len).map (state.slots (t % geometry.capacity)).payload
      some { state.setSlot geometry t ({ · with seq := t }) (.stored t) with
        frames := state.frames ++ [frame] }
    | _ => none
  | .storeTail =>
    match state.writer with
    | .stored t => some { state with tail := wrappingAdd (2 ^ 64) t 1, writer := .idle }
    | _ => none
  | .join idx =>
    match state.readers idx with
    | none =>
      some { state with
        readers := Function.update state.readers idx (some ⟨state.tail, state.tail, 0, .idle, []⟩) }
    | some _ => none
  | .reader idx offset =>
    match state.readers idx with
    | none => none
    | some reader =>
      (reader.step geometry state.tail state.slots offset).map fun reader =>
        { state with readers := Function.update state.readers idx (some reader) }

end Broadcast

end NdnExt.Shm
