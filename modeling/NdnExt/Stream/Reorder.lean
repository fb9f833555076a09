import NdnExt.Lib.HashMap
import NdnExt.Lib.Checked

/-! The reorder buffer of a stream consumer: items are keyed by their sequence number and leave
in order. -/

namespace NdnExt.Stream

open NdnExt.Lib List

abbrev Bytes := List UInt8

inductive InsertOutcome where
  | accepted
  | duplicate
  | stale
  | tooFarAhead
  deriving DecidableEq

/-- Buffered items lie at or above the cursor, and below the last sequence number: inserting
refuses that one, so the cursor never leaves `u64`. -/
structure ReorderBuffer where
  next : Nat
  buffered : HashMap Nat Bytes
  maxSpan : Nat
  ahead : ∀ seq ∈ buffered, next ≤ seq ∧ seq < u64Max

namespace ReorderBuffer

def new (firstSeq maxSpan : Nat) : ReorderBuffer := ⟨firstSeq, ∅, max maxSpan 1, by simp⟩

def insert (buffer : ReorderBuffer) (seq : Nat) (item : Bytes) : ReorderBuffer × InsertOutcome :=
  if stale : seq < buffer.next then (buffer, .stale)
  else if far : seq ≥ saturatingAddU64 buffer.next buffer.maxSpan then (buffer, .tooFarAhead)
  else if seq ∈ buffer.buffered then (buffer, .duplicate)
  else
    ({ buffer with
        buffered := buffer.buffered.insert seq item
        ahead := by
          intro other member
          rcases (AList.mem_insert _).mp member with rfl | member
          · unfold saturatingAddU64 at far
            omega
          · exact buffer.ahead other member }, .accepted)

/-- Whether `seq` is buffered or passed already. -/
def has (buffer : ReorderBuffer) (seq : Nat) : Bool := seq < buffer.next || seq ∈ buffer.buffered

/-- The cursor past the item at it. -/
def popNext (buffer : ReorderBuffer) : ReorderBuffer where
  next := buffer.next + 1
  buffered := buffer.buffered.erase buffer.next
  maxSpan := buffer.maxSpan
  ahead := by
    intro seq member
    rw [AList.mem_erase] at member
    have ahead := buffer.ahead seq member.2
    omega

def popReadyFuel : Nat → ReorderBuffer → ReorderBuffer × List (Nat × Bytes)
  | 0, buffer => (buffer, [])
  | fuel + 1, buffer =>
    match buffer.buffered.lookup buffer.next with
    | none => (buffer, [])
    | some item =>
      let (rest, out) := popReadyFuel fuel buffer.popNext
      (rest, (buffer.next, item) :: out)

/-- Every round removes an item. -/
def popReady (buffer : ReorderBuffer) : ReorderBuffer × List (Nat × Bytes) :=
  popReadyFuel buffer.buffered.keys.length buffer

def skipTo (buffer : ReorderBuffer) (seq : Nat) : ReorderBuffer × List Nat :=
  if seq ≤ buffer.next then (buffer, [])
  else
    ({ buffer with
        next := seq
        buffered := buffer.buffered.retain (fun other _ => seq ≤ other)
        ahead := by
          intro other member
          rw [HashMap.mem_retain_key, decide_eq_true_eq] at member
          exact ⟨member.2, (buffer.ahead other member.1).2⟩ },
     (List.range' buffer.next (seq - buffer.next)).filter (fun other => other ∉ buffer.buffered))

variable {buffer : ReorderBuffer} {seq other : Nat} {item : Bytes}

theorem has_iff :
    buffer.has seq ↔ seq < buffer.next ∨ seq ∈ buffer.buffered := by
  rw [has, Bool.or_eq_true, decide_eq_true_eq, decide_eq_true_eq]

/-- What draining leaves and yields: the run of buffered items at the cursor. -/
structure Drained (before after : ReorderBuffer) (out : List (Nat × Bytes)) : Prop where
  span : after.maxSpan = before.maxSpan
  next : after.next = before.next + out.length
  run : out.map Prod.fst = List.range' before.next out.length
  items : ∀ seq item, (seq, item) ∈ out → before.buffered.lookup seq = some item
  rest : ∀ seq, after.buffered.lookup seq =
    if seq < after.next then none else before.buffered.lookup seq

theorem lookup_below (below : seq < buffer.next) :
    buffer.buffered.lookup seq = none := by
  rw [AList.lookup_eq_none]
  intro member
  have ahead := buffer.ahead seq member
  omega

theorem Drained.nothing (buffer : ReorderBuffer) : Drained buffer buffer [] := by
  refine ⟨rfl, rfl, rfl, by simp, ?_⟩
  intro seq
  split
  · exact lookup_below ‹_›
  · rfl

theorem Drained.cons {before after : ReorderBuffer} {item : Bytes} {out : List (Nat × Bytes)}
    (found : before.buffered.lookup before.next = some item)
    (drained : Drained before.popNext after out) :
    Drained before after ((before.next, item) :: out) := by
  have popped : ∀ seq, before.popNext.buffered.lookup seq =
      if seq = before.next then none else before.buffered.lookup seq :=
    fun seq => HashMap.lookup_erase_eq _ _ _
  have next : after.next = before.next + 1 + out.length := drained.next
  refine ⟨drained.span, ?_, ?_, ?_, ?_⟩
  · rw [next, length_cons]
    omega
  · rw [map_cons, drained.run, length_cons, List.range'_succ]
    rfl
  · intro seq value member
    rcases mem_cons.mp member with same | member
    · cases same
      exact found
    · have later := drained.items seq value member
      rw [popped] at later
      split at later
      · cases later
      · exact later
  · intro seq
    rw [drained.rest, popped]
    split
    · rfl
    · rw [if_neg (by omega)]

theorem drained_popReadyFuel (fuel : Nat) (buffer : ReorderBuffer) :
    Drained buffer (popReadyFuel fuel buffer).1 (popReadyFuel fuel buffer).2 := by
  induction fuel generalizing buffer with
  | zero => exact Drained.nothing buffer
  | succ fuel ih =>
    rw [popReadyFuel]
    cases found : buffer.buffered.lookup buffer.next with
    | none => exact Drained.nothing buffer
    | some item => exact Drained.cons found (ih buffer.popNext)

/-- With as much fuel as items, the drain stops at a seq that is not buffered. -/
theorem lookup_popReadyFuel {fuel : Nat}
    (enough : buffer.buffered.keys.length ≤ fuel) :
    (popReadyFuel fuel buffer).1.buffered.lookup (popReadyFuel fuel buffer).1.next = none := by
  induction fuel generalizing buffer with
  | zero =>
    have empty := length_eq_zero_iff.mp (Nat.le_zero.mp enough)
    rw [popReadyFuel, AList.lookup_eq_none, AList.mem_keys, empty]
    exact not_mem_nil
  | succ fuel ih =>
    rw [popReadyFuel]
    cases found : buffer.buffered.lookup buffer.next with
    | none => exact found
    | some item =>
      have member : buffer.next ∈ buffer.buffered.keys :=
        AList.mem_keys.mp (HashMap.mem_iff_lookup.mpr ⟨item, found⟩)
      apply ih
      change (buffer.buffered.erase buffer.next).keys.length ≤ fuel
      rw [AList.keys_erase, length_erase_of_mem member]
      omega

theorem drained_popReady (buffer : ReorderBuffer) :
    Drained buffer buffer.popReady.1 buffer.popReady.2 := drained_popReadyFuel _ _

theorem lookup_popReady (buffer : ReorderBuffer) :
    buffer.popReady.1.buffered.lookup buffer.popReady.1.next = none :=
  lookup_popReadyFuel (Nat.le_refl _)

theorem mem_popReady (above : buffer.popReady.1.next ≤ seq) :
    seq ∈ buffer.popReady.1.buffered ↔ seq ∈ buffer.buffered := by
  rw [← AList.lookup_isSome, ← AList.lookup_isSome, buffer.drained_popReady.rest,
    if_neg (by omega)]

/-- The cursor stops at the last buffered seq at the latest. -/
theorem next_popReady_lt (bounded : buffer.next < 2 ^ 64) :
    buffer.popReady.1.next < 2 ^ 64 := by
  have drained := buffer.drained_popReady
  have next := drained.next
  cases length : buffer.popReady.2.length with
  | zero => omega
  | succ last =>
    have member : buffer.next + last ∈ buffer.popReady.2.map Prod.fst := by
      rw [drained.run, length, mem_range'_1]
      omega
    rcases mem_map.mp member with ⟨⟨seq, item⟩, inside, same⟩
    have found := drained.items seq item inside
    have ahead := buffer.ahead seq (HashMap.mem_iff_lookup.mpr ⟨item, found⟩)
    unfold u64Max at ahead
    omega

/-- Inserting changes nothing but the lookup of an accepted item. -/
theorem lookup_insert (buffer : ReorderBuffer) (seq other : Nat) (item : Bytes) :
    (buffer.insert seq item).1.buffered.lookup other =
      if other = seq ∧ (buffer.insert seq item).2 = .accepted then some item
      else buffer.buffered.lookup other := by
  unfold insert
  split
  · simp
  · split
    · simp
    · split
      · simp
      · simp only [and_true]
        exact HashMap.lookup_insert_eq _ _ _ _

@[simp] theorem next_insert (buffer : ReorderBuffer) (seq : Nat) (item : Bytes) :
    (buffer.insert seq item).1.next = buffer.next := by
  unfold insert
  split
  · rfl
  · split
    · rfl
    · split <;> rfl

@[simp] theorem maxSpan_insert (buffer : ReorderBuffer) (seq : Nat) (item : Bytes) :
    (buffer.insert seq item).1.maxSpan = buffer.maxSpan := by
  unfold insert
  split
  · rfl
  · split
    · rfl
    · split <;> rfl

/-- An item is accepted within the span, unless its seq is buffered. -/
theorem insert_accepted :
    (buffer.insert seq item).2 = .accepted ↔
      buffer.next ≤ seq ∧ seq < saturatingAddU64 buffer.next buffer.maxSpan ∧
        seq ∉ buffer.buffered := by
  unfold insert
  split
  · exact iff_of_false nofun (by omega)
  · split
    · exact iff_of_false nofun (by omega)
    · split
      · exact iff_of_false nofun (fun all => all.2.2 ‹_›)
      · exact iff_of_true rfl ⟨by omega, by omega, ‹_›⟩

theorem mem_insert_of_mem
    (member : other ∈ buffer.buffered) : other ∈ (buffer.insert seq item).1.buffered := by
  rw [← AList.lookup_isSome] at member ⊢
  rw [lookup_insert]
  split
  · rfl
  · exact member

/-- Within the span, an item ends up in the buffer. -/
theorem mem_insert (low : buffer.next ≤ seq)
    (high : seq < saturatingAddU64 buffer.next buffer.maxSpan) :
    seq ∈ (buffer.insert seq item).1.buffered := by
  by_cases member : seq ∈ buffer.buffered
  · exact mem_insert_of_mem member
  · have accepted : (buffer.insert seq item).2 = .accepted :=
      insert_accepted.mpr ⟨low, high, member⟩
    rw [← AList.lookup_isSome, lookup_insert, if_pos ⟨rfl, accepted⟩]
    rfl

/-- What skipping leaves, and the seqs it reports. -/
theorem skipTo_le (behind : seq ≤ buffer.next) :
    buffer.skipTo seq = (buffer, []) :=
  if_pos behind

theorem next_skipTo (buffer : ReorderBuffer) (seq : Nat) :
    (buffer.skipTo seq).1.next = max buffer.next seq := by
  unfold skipTo
  split
  · exact (max_eq_left ‹_›).symm
  · change seq = _
    omega

theorem maxSpan_skipTo (buffer : ReorderBuffer) (seq : Nat) :
    (buffer.skipTo seq).1.maxSpan = buffer.maxSpan := by
  unfold skipTo
  split <;> rfl

theorem lookup_skipTo (buffer : ReorderBuffer) (seq other : Nat) :
    (buffer.skipTo seq).1.buffered.lookup other =
      if other < (buffer.skipTo seq).1.next then none else buffer.buffered.lookup other := by
  unfold skipTo
  split
  · split
    · exact lookup_below ‹_›
    · rfl
  · change (buffer.buffered.retain _).lookup other = if other < seq then none else _
    rw [HashMap.lookup_retain_key]
    by_cases below : other < seq
    · rw [if_pos below, if_neg (by simpa using below)]
    · rw [if_neg below, if_pos (by simpa using below)]

theorem mem_skipTo
    (above : (buffer.skipTo seq).1.next ≤ other) :
    other ∈ (buffer.skipTo seq).1.buffered ↔ other ∈ buffer.buffered := by
  rw [← AList.lookup_isSome, ← AList.lookup_isSome, lookup_skipTo, if_neg (by omega)]

/-- Skipping past the cursor alone loses exactly the seq at it. -/
theorem skipTo_succ
    (hole : buffer.buffered.lookup buffer.next = none) :
    (buffer.skipTo (buffer.next + 1)).2 = [buffer.next] := by
  unfold skipTo
  rw [if_neg (by omega), Nat.add_sub_cancel_left, List.range'_one, filter_cons_of_pos]
  · rfl
  · rw [decide_eq_true_eq]
    exact AList.lookup_eq_none.mp hole

theorem mem_lost_skipTo :
    other ∈ (buffer.skipTo seq).2 ↔ other < seq ∧ ¬ buffer.has other := by
  rw [has_iff, not_or, Nat.not_lt]
  unfold skipTo
  split
  · refine iff_of_false not_mem_nil ?_
    omega
  · rw [mem_filter, mem_range'_1, decide_eq_true_eq, ← and_assoc]
    apply and_congr_left
    intro _
    omega

section Having

/-- An item is refused only beyond the span: any other one is buffered or passed. -/
theorem has_insert_self
    (near : (buffer.insert seq item).2 ≠ .tooFarAhead) : (buffer.insert seq item).1.has seq := by
  rw [has_iff, next_insert]
  by_cases stale : seq < buffer.next
  · exact Or.inl stale
  · refine Or.inr (mem_insert (Nat.le_of_not_lt stale) ?_)
    by_contra far
    refine near ?_
    unfold insert
    rw [dif_neg stale, dif_pos (Nat.le_of_not_lt far)]

theorem has_insert_of_has
    (had : buffer.has other) : (buffer.insert seq item).1.has other := by
  rw [has_iff, next_insert]
  rcases has_iff.mp had with passed | buffered
  · exact Or.inl passed
  · exact Or.inr (mem_insert_of_mem buffered)

@[simp] theorem has_popReady :
    buffer.popReady.1.has seq = buffer.has seq := by
  have drained := buffer.drained_popReady
  have next := drained.next
  rw [Bool.eq_iff_iff, has_iff, has_iff]
  by_cases above : buffer.popReady.1.next ≤ seq
  · rw [mem_popReady above]
    apply or_congr_left
    omega
  · refine iff_of_true (Or.inl (Nat.lt_of_not_le above)) ?_
    by_cases passed : seq < buffer.next
    · exact Or.inl passed
    · have member : seq ∈ buffer.popReady.2.map Prod.fst := by
        rw [drained.run, mem_range'_1]
        omega
      rcases mem_map.mp member with ⟨⟨_, item⟩, inside, rfl⟩
      exact Or.inr (HashMap.mem_iff_lookup.mpr ⟨item, drained.items _ item inside⟩)

theorem has_skipTo :
    (buffer.skipTo seq).1.has other ↔ buffer.has other ∨ other < seq := by
  have next := buffer.next_skipTo seq
  rw [has_iff, has_iff]
  by_cases above : (buffer.skipTo seq).1.next ≤ other
  · rw [mem_skipTo above, or_right_comm]
    apply or_congr_left
    omega
  · refine iff_of_true (Or.inl (Nat.lt_of_not_le above)) ?_
    omega

end Having

/-- A drained buffer has nothing ready. -/
theorem popReady_drained (hole : buffer.next ∉ buffer.buffered) :
    buffer.popReady = (buffer, []) := by
  unfold popReady
  cases buffer.buffered.keys.length with
  | zero => rfl
  | succ fuel => rw [popReadyFuel, AList.lookup_eq_none.mpr hole]

end ReorderBuffer
end NdnExt.Stream
