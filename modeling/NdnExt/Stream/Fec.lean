import NdnExt.Lib.BigEndian
import NdnExt.Stream.Reorder
import Mathlib.Data.List.Sort

/-! Recovery of lost items from parity: the bookkeeping of repair groups over an erasure code. -/

namespace NdnExt.Stream

open NdnExt.Lib

structure FecConfig where
  k : Nat
  r : Nat

structure ParityItem where
  group : Nat
  index : Nat
  payload : Bytes

/-- The erasure code, which is not part of this repository: from `k`, `k + r` and the rows at
hand, the `k` source rows if these suffice. -/
abbrev RowCodec := Nat → Nat → List (Nat × Bytes) → Option (List Bytes)

def groupOf (seq k : Nat) : Nat := seq / max k 1

def frame (payload : Bytes) (width : Nat) : Bytes :=
  (beBytes 4 (payload.length % 2 ^ 32) ++ payload ++ List.replicate width 0).take width

def unframe (row : Bytes) : Option Bytes :=
  if row.length < 4 then none
  else if 4 + ofBe (row.take 4) > row.length then none
  else some ((row.drop 4).take (ofBe (row.take 4)))

structure GroupState where
  sources : HashMap Nat Bytes
  parities : HashMap Nat Bytes
  recovered : Bool

structure GroupDecoder where
  cfg : FecConfig
  groups : HashMap Nat GroupState

/-- `entry(key).or_insert(value)`. -/
def orInsert (rows : HashMap Nat Bytes) (key : Nat) (value : Bytes) : HashMap Nat Bytes :=
  if key ∈ rows then rows else rows.insert key value

def inOrder (rows : HashMap Nat Bytes) : List (Nat × Bytes) :=
  rows.pairs.insertionSort (fun left right => left.1 ≤ right.1)

namespace GroupDecoder

def new (cfg : FecConfig) : GroupDecoder := ⟨cfg, ∅⟩

def groupState (decoder : GroupDecoder) (group : Nat) : GroupState :=
  (decoder.groups.lookup group).getD ⟨∅, ∅, false⟩

def setGroup (decoder : GroupDecoder) (group : Nat) (state : GroupState) : GroupDecoder :=
  { decoder with groups := decoder.groups.insert group state }

/-- One missing source: its row gives the payload, unless that does not unframe. -/
def takeRow (k group : Nat) (rows : List Bytes) (state : GroupState × List (Nat × Bytes))
    (idx : Nat) : Checked (GroupState × List (Nat × Bytes)) :=
  match rows[idx]? with
  | none => .panic
  | some row =>
    match unframe row with
    | none => .ok state
    | some payload => do
      let start ← u64 (group * k)
      let seq ← u64 (start + idx)
      pure ({ state.1 with sources := state.1.sources.insert idx payload },
        state.2 ++ [(seq, payload)])

variable (codec : RowCodec)

def tryRecover (decoder : GroupDecoder) (group : Nat) :
    Checked (GroupDecoder × List (Nat × Bytes)) :=
  match decoder.groups.lookup group with
  | none => .ok (decoder, [])
  | some state =>
    let held := state.sources.keys.length
    let width := (state.parities.pairs.map (fun row => row.2.length)).foldl max 0
    if state.recovered ∨ held ≥ max decoder.cfg.k 1 ∨ state.parities.keys = [] ∨
        held + state.parities.keys.length < max decoder.cfg.k 1 then .ok (decoder, [])
    else if (∃ row ∈ state.parities.pairs, row.2.length ≠ width) ∨
        ∃ row ∈ state.sources.pairs, 4 + row.2.length > width then .ok (decoder, [])
    else do
      let n ← u16 (decoder.cfg.k + decoder.cfg.r)
      match codec decoder.cfg.k n
          ((inOrder state.sources).map (fun row => (row.1, frame row.2 width)) ++
            (inOrder state.parities).map (fun row => (decoder.cfg.k + row.1, row.2))) with
      | none => .ok (decoder, [])
      | some rows => do
        let (state, out) ← ((List.range decoder.cfg.k).filter
          (fun idx => idx ∉ state.sources)).foldlM (takeRow decoder.cfg.k group rows) (state, [])
        pure (decoder.setGroup group { state with recovered := true }, out)

def addSource (decoder : GroupDecoder) (seq : Nat) (payload : Bytes) :
    Checked (GroupDecoder × List (Nat × Bytes)) :=
  let group := groupOf seq decoder.cfg.k
  let state := decoder.groupState group
  (decoder.setGroup group
    { state with sources := orInsert state.sources (seq % max decoder.cfg.k 1) payload }).tryRecover
      codec group

def addParity (decoder : GroupDecoder) (item : ParityItem) :
    Checked (GroupDecoder × List (Nat × Bytes)) :=
  if item.index ≥ decoder.cfg.r then .ok (decoder, [])
  else
    let state := decoder.groupState item.group
    (decoder.setGroup item.group
      { state with parities := orInsert state.parities item.index item.payload }).tryRecover codec
        item.group

def evictBelow (decoder : GroupDecoder) (seq : Nat) : GroupDecoder :=
  { decoder with
    groups := decoder.groups.retain (fun group _ => groupOf seq decoder.cfg.k ≤ group) }

end GroupDecoder
end NdnExt.Stream
