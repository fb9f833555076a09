import NdnExt.Shm.Ring

/-! The rings as FIFO queues, through the wrap of the counters. -/

namespace NdnExt.Shm

open NdnExt.Lib List

variable {slotSize : Nat}

inductive RingEvent (slotSize : Nat) where
  | push (data : Payload slotSize)
  | reserveCommit (len : Nat) (fits : len ≤ slotSize) (fill : Fill)
  | pushBatch (pkts : List (Payload slotSize))
  | pop
  | peekConsume

/-- A ring with its history: the payloads accepted and consumed, and how many were unread
whenever a push was refused. -/
structure Traffic (slotSize : Nat) where
  ring : Ring slotSize
  accepted : List (List UInt8)
  consumed : List (List UInt8)
  refusedAt : List Nat

namespace Traffic

variable (capacity : Nat)

def start (counter : Nat) (slots : Nat → Slot slotSize) : Traffic slotSize :=
  ⟨⟨counter, counter, slots⟩, [], [], []⟩

def unread (traffic : Traffic slotSize) : Nat :=
  traffic.accepted.length - traffic.consumed.length

def afterPush (traffic : Traffic slotSize) (result : Ring slotSize × Bool)
    (payload : List UInt8) : Traffic slotSize :=
  match result with
  | (ring, true) => { traffic with ring := ring, accepted := traffic.accepted ++ [payload] }
  | (ring, false) =>
    { traffic with ring := ring, refusedAt := traffic.refusedAt ++ [traffic.unread] }

def afterBatch (traffic : Traffic slotSize) (result : Ring slotSize × Nat)
    (pkts : List (Payload slotSize)) : Traffic slotSize :=
  let next := { traffic with
    ring := result.1
    accepted := traffic.accepted ++ (pkts.take result.2).map (·.bytes) }
  if result.2 < pkts.length then { next with refusedAt := next.refusedAt ++ [next.unread] }
  else next

def afterPop (traffic : Traffic slotSize) (result : Ring slotSize × Option (List UInt8)) :
    Traffic slotSize :=
  { traffic with ring := result.1, consumed := traffic.consumed ++ result.2.toList }

def step (traffic : Traffic slotSize) : RingEvent slotSize → Traffic slotSize
  | .push data => traffic.afterPush (ringPush capacity traffic.ring data) data.bytes
  | .reserveCommit len _ fill =>
    let slot := traffic.ring.slots (traffic.ring.tail % capacity)
    traffic.afterPush (ringReserveCommit capacity traffic.ring len fill) (slot.filled len fill).bytes
  | .pushBatch pkts => traffic.afterBatch (ringPushBatch capacity traffic.ring pkts) pkts
  | .pop => traffic.afterPop (ringPop capacity traffic.ring)
  | .peekConsume => traffic.afterPop (ringPeekConsume capacity traffic.ring id)

/-- What is consumed is a prefix of what was accepted, at most `capacity` payloads are unread,
and a push is refused only when `capacity` are. -/
structure Fifo (traffic : Traffic slotSize) : Prop where
  ordered : traffic.consumed <+: traffic.accepted
  bounded : traffic.unread ≤ capacity
  refused : ∀ unread ∈ traffic.refusedAt, unread = capacity

end Traffic

/-- The counters are `count` apart. -/
structure Counted (capacity : Nat) (ring : Ring slotSize) (count : Nat) : Prop where
  head : ring.head < 2 ^ 32
  bounded : count ≤ capacity
  tail : ring.tail = wrappingAdd (2 ^ 32) ring.head count

/-- The ring holds the unread payloads `items`. -/
structure Represents (capacity : Nat) (ring : Ring slotSize) (items : List (List UInt8)) : Prop
    where
  counted : Counted capacity ring items.length
  stored : ∀ i item, items[i]? = some item →
    (ring.slots (wrappingAdd (2 ^ 32) ring.head i % capacity)).read = item

section Counters

variable {capacity : Nat} {ring : Ring slotSize} {count : Nat}

section

variable (counted : Counted capacity ring count)
include counted

theorem Counted.occupancy (small : capacity < 2 ^ 32) :
    wrappingSub (2 ^ 32) ring.tail ring.head = count := by
  rw [counted.tail]
  exact wrappingSub_wrappingAdd counted.head (lt_of_le_of_lt counted.bounded small)

theorem Counted.empty_iff (small : capacity < 2 ^ 32) :
    ring.head = ring.tail ↔ count = 0 := by
  constructor
  · intro same
    have occupancy := counted.occupancy small
    rw [← same, wrappingSub, Nat.add_sub_cancel' counted.head.le, Nat.mod_self] at occupancy
    exact occupancy.symm
  · rintro rfl
    rw [counted.tail, wrappingAdd_zero counted.head]

theorem Counted.advance (room : count < capacity)
    (put : Slot slotSize → Slot slotSize) :
    Counted capacity (ring.advance capacity put) (count + 1) := by
  constructor
  · exact counted.head
  · exact room
  · change wrappingAdd (2 ^ 32) ring.tail 1 = wrappingAdd (2 ^ 32) ring.head (count + 1)
    rw [counted.tail, wrappingAdd_assoc]

/-- A push of any kind: refused when `capacity` payloads are unread, else it advances. -/
theorem Counted.push (small : capacity < 2 ^ 32)
    (data : Payload slotSize) :
    ringPush capacity ring data =
      if count = capacity then (ring, false) else (ring.advance capacity (·.write data), true) := by
  unfold ringPush
  rw [counted.occupancy small]
  have bounded := counted.bounded
  by_cases full : count = capacity
  · rw [if_pos full, if_pos full.ge]
  · rw [if_neg full, if_neg (by omega)]

end

theorem reserveCommit_eq_push {len : Nat} (fits : len ≤ slotSize) (fill : Fill) :
    ringReserveCommit capacity ring len fill =
      ringPush capacity ring ((ring.slots (ring.tail % capacity)).filled len fill) := by
  simp only [ringReserveCommit, ringPush, Ring.advance, Slot.fillInPlace_eq_write _ fits]

theorem peekConsume_eq_pop {R : Type} (f : List UInt8 → R) :
    ringPeekConsume capacity ring f =
      ((ringPop capacity ring).1, (ringPop capacity ring).2.map f) := by
  unfold ringPeekConsume ringPop
  split <;> rfl

/-- A batch is as many pushes as there is room for. -/
theorem Counted.pushBatch (counted : Counted capacity ring count) (small : capacity < 2 ^ 32)
    (pkts : List (Payload slotSize)) :
    ringPushBatch capacity ring pkts =
      ((pkts.take (capacity - count)).foldl
        (fun ring pkt => ring.advance capacity (·.write pkt)) ring,
       min (capacity - count) pkts.length) := by
  have free : wrappingSub (2 ^ 32) capacity count = capacity - count := by
    have bounded := counted.bounded
    have total : capacity + (2 ^ 32 - count) = capacity - count + 2 ^ 32 := by omega
    rw [wrappingSub, total, Nat.add_mod_right, Nat.mod_eq_of_lt (by omega)]
  unfold ringPushBatch
  rw [counted.occupancy small, free]
  cases pkts with
  | nil => simp
  | cons first rest =>
    simp only [isEmpty_cons, Bool.false_eq_true, if_false]
    by_cases full : min (capacity - count) (first :: rest).length = 0
    · have none : capacity - count = 0 := by
        simpa using full
      rw [if_pos full, full, none]
      rfl
    · rw [if_neg full, ← take_eq_take_min]

end Counters

section Contents

variable {capacity : Nat} {ring : Ring slotSize} {items : List (List UInt8)}

theorem represents_start (counter : Nat) (bounded : counter < 2 ^ 32)
    (slots : Nat → Slot slotSize) : Represents capacity ⟨counter, counter, slots⟩ [] := by
  constructor
  · exact ⟨bounded, Nat.zero_le _, (wrappingAdd_zero bounded).symm⟩
  · intro i item found
    cases found

/-- A write does not touch the slot of any unread payload. -/
theorem Represents.write (represents : Represents capacity ring items)
    (divides : capacity ∣ 2 ^ 32) (slotSmall : slotSize < 2 ^ 32) (room : items.length < capacity)
    (data : Payload slotSize) :
    Represents capacity (ring.advance capacity (·.write data)) (items ++ [data.bytes]) := by
  have idx : ring.tail % capacity =
      wrappingAdd (2 ^ 32) ring.head items.length % capacity := by
    rw [represents.counted.tail]
  constructor
  · rw [length_append]
    exact represents.counted.advance room _
  · intro i item found
    change (Function.update ring.slots (ring.tail % capacity) _
      (wrappingAdd (2 ^ 32) ring.head i % capacity)).read = item
    rw [idx]
    by_cases last : i = items.length
    · subst last
      rw [Function.update_self, Slot.read_write _ _ slotSmall]
      simpa using found
    · have inside : i < items.length := by
        have bound := (List.getElem?_eq_some_iff.mp found).1
        rw [length_append, length_singleton] at bound
        omega
      rw [List.getElem?_append_left inside] at found
      have apart := slot_ne divides ring.head inside (by omega)
      rw [Function.update_of_ne apart]
      exact represents.stored i item found

theorem Represents.writeAll (represents : Represents capacity ring items)
    (divides : capacity ∣ 2 ^ 32) (slotSmall : slotSize < 2 ^ 32) (pkts : List (Payload slotSize))
    (room : items.length + pkts.length ≤ capacity) :
    Represents capacity (pkts.foldl (fun ring pkt => ring.advance capacity (·.write pkt)) ring)
      (items ++ pkts.map (·.bytes)) := by
  induction pkts generalizing ring items with
  | nil => simpa using represents
  | cons first rest ih =>
    simp only [length_cons] at room
    rw [foldl_cons, map_cons, append_cons]
    apply ih (represents.write divides slotSmall (by omega) first)
    simp only [length_append, length_singleton]
    omega

theorem Represents.pop_nil (represents : Represents capacity ring [])
    (small : capacity < 2 ^ 32) : ringPop capacity ring = (ring, none) :=
  if_pos ((represents.counted.empty_iff small).mpr rfl)

theorem Represents.pop_cons {item : List UInt8}
    (represents : Represents capacity ring (item :: items)) (small : capacity < 2 ^ 32) :
    (ringPop capacity ring).2 = some item ∧
      Represents capacity (ringPop capacity ring).1 items := by
  have nonempty : ¬ ring.head = ring.tail := by
    rw [represents.counted.empty_iff small]
    exact Nat.succ_ne_zero _
  have popped : ringPop capacity ring =
      ({ ring with head := wrappingAdd (2 ^ 32) ring.head 1 },
       some (ring.slots (ring.head % capacity)).read) := if_neg nonempty
  have bounded := represents.counted.bounded
  rw [length_cons] at bounded
  rw [popped]
  constructor
  · have first := represents.stored 0 item rfl
    rw [wrappingAdd_zero represents.counted.head] at first
    exact congrArg some first
  · constructor
    · constructor
      · exact wrappingAdd_lt 1 represents.counted.head
      · omega
      · change ring.tail = _
        rw [represents.counted.tail, wrappingAdd_assoc, length_cons, Nat.add_comm]
    · intro i later found
      change (ring.slots (wrappingAdd _ (wrappingAdd _ ring.head 1) i % capacity)).read = later
      rw [wrappingAdd_assoc, Nat.add_comm]
      exact represents.stored (i + 1) later found

end Contents

namespace Traffic

variable {capacity : Nat}

/-- The ring holds what was accepted and not consumed yet, in this order. -/
def Queued (capacity : Nat) (traffic : Traffic slotSize) : Prop :=
  (∃ items, Represents capacity traffic.ring items ∧
    traffic.accepted = traffic.consumed ++ items) ∧
  ∀ unread ∈ traffic.refusedAt, unread = capacity

section

variable {traffic : Traffic slotSize} (queued : traffic.Queued capacity)
include queued

theorem Queued.fifo :
    traffic.Fifo capacity := by
  rcases queued with ⟨⟨items, represents, history⟩, refused⟩
  constructor
  · exact ⟨items, history.symm⟩
  · have bounded := represents.counted.bounded
    rw [unread, history, length_append]
    omega
  · exact refused

theorem Queued.push
    (divides : capacity ∣ 2 ^ 32) (small : capacity < 2 ^ 32) (slotSmall : slotSize < 2 ^ 32)
    (data : Payload slotSize) :
    (traffic.afterPush (ringPush capacity traffic.ring data) data.bytes).Queued capacity := by
  rcases queued with ⟨⟨items, represents, history⟩, refused⟩
  rw [represents.counted.push small]
  by_cases full : items.length = capacity
  · rw [if_pos full]
    refine ⟨⟨items, represents, history⟩, ?_⟩
    intro unread member
    rcases mem_append.mp member with member | member
    · exact refused unread member
    · rw [mem_singleton.mp member, Traffic.unread, history, length_append]
      omega
  · rw [if_neg full]
    have room := lt_of_le_of_ne represents.counted.bounded full
    refine ⟨⟨_, represents.write divides slotSmall room data, ?_⟩, refused⟩
    change traffic.accepted ++ [data.bytes] = traffic.consumed ++ (items ++ [data.bytes])
    rw [history, append_assoc]

theorem Queued.pushBatch
    (divides : capacity ∣ 2 ^ 32) (small : capacity < 2 ^ 32) (slotSmall : slotSize < 2 ^ 32)
    (pkts : List (Payload slotSize)) :
    (traffic.afterBatch (ringPushBatch capacity traffic.ring pkts) pkts).Queued capacity := by
  rcases queued with ⟨⟨items, represents, history⟩, refused⟩
  have bounded := represents.counted.bounded
  rw [represents.counted.pushBatch small]
  have taken : pkts.take (min (capacity - items.length) pkts.length) =
      pkts.take (capacity - items.length) := take_eq_take_min.symm
  have written := represents.writeAll divides slotSmall (pkts.take (capacity - items.length)) (by
    rw [length_take]
    omega)
  unfold afterBatch
  simp only [taken]
  have grown : traffic.accepted ++ (pkts.take (capacity - items.length)).map (·.bytes) =
      traffic.consumed ++ (items ++ (pkts.take (capacity - items.length)).map (·.bytes)) := by
    rw [history, append_assoc]
  by_cases cut : min (capacity - items.length) pkts.length < pkts.length
  · rw [if_pos cut]
    refine ⟨⟨_, written, grown⟩, ?_⟩
    intro unread member
    rcases mem_append.mp member with member | member
    · exact refused unread member
    · rw [mem_singleton.mp member, Traffic.unread, grown]
      simp only [length_append, length_map, length_take]
      omega
  · rw [if_neg cut]
    exact ⟨⟨_, written, grown⟩, refused⟩

theorem Queued.pop
    (small : capacity < 2 ^ 32) :
    (traffic.afterPop (ringPop capacity traffic.ring)).Queued capacity := by
  rcases queued with ⟨⟨items, represents, history⟩, refused⟩
  refine ⟨?_, refused⟩
  cases items with
  | nil =>
    rw [represents.pop_nil small]
    refine ⟨[], represents, ?_⟩
    simpa [afterPop] using history
  | cons first rest =>
    rcases represents.pop_cons small with ⟨popped, left⟩
    refine ⟨rest, left, ?_⟩
    simp only [afterPop, popped, Option.toList_some, history, append_assoc,
      singleton_append]

end

theorem Queued.step {traffic : Traffic slotSize} (queued : traffic.Queued capacity)
    (divides : capacity ∣ 2 ^ 32) (small : capacity < 2 ^ 32) (slotSmall : slotSize < 2 ^ 32)
    (event : RingEvent slotSize) : (traffic.step capacity event).Queued capacity := by
  cases event with
  | push data => exact queued.push divides small slotSmall data
  | reserveCommit len fits fill =>
    simp only [Traffic.step, reserveCommit_eq_push fits]
    exact queued.push divides small slotSmall _
  | pushBatch pkts => exact queued.pushBatch divides small slotSmall pkts
  | pop => exact queued.pop small
  | peekConsume =>
    simp only [Traffic.step, peekConsume_eq_pop, Option.map_id, id_eq]
    exact queued.pop small

theorem step_push {traffic : Traffic slotSize} {count : Nat}
    (counted : Counted capacity traffic.ring count) (small : capacity < 2 ^ 32)
    (room : count < capacity) (data : Payload slotSize) :
    traffic.step capacity (.push data) =
      { traffic with
        ring := traffic.ring.advance capacity (·.write data)
        accepted := traffic.accepted ++ [data.bytes] } := by
  simp only [step, counted.push small, if_neg room.ne, afterPush]

/-- Pushes with room left, whatever becomes of the slots. -/
theorem pushes_counted (small : capacity < 2 ^ 32) (pkts : List (Payload slotSize)) {count : Nat}
    (traffic : Traffic slotSize) (counted : Counted capacity traffic.ring count)
    (room : count + pkts.length ≤ capacity) :
    let after := (pkts.map RingEvent.push).foldl (step capacity) traffic
    Counted capacity after.ring (count + pkts.length) ∧ after.ring.head = traffic.ring.head ∧
      after.accepted = traffic.accepted ++ pkts.map (·.bytes) ∧
      after.consumed = traffic.consumed := by
  induction pkts generalizing count traffic with
  | nil => exact ⟨counted, rfl, (append_nil _).symm, rfl⟩
  | cons first rest ih =>
    simp only [length_cons] at room
    have pushed := step_push counted small (by omega) first
    have next := counted.advance (by omega) (·.write first)
    rcases ih { traffic with
        ring := traffic.ring.advance capacity (·.write first)
        accepted := traffic.accepted ++ [first.bytes] } next (by omega) with
      ⟨after, head, accepted, consumed⟩
    simp only [map_cons, foldl_cons, pushed, length_cons]
    refine ⟨?_, head, ?_, consumed⟩
    · rw [Nat.add_comm rest.length, ← Nat.add_assoc]
      exact after
    · rw [accepted, ← append_cons]

/-- A push into the slot of the oldest unread payload is what the next pop returns. -/
theorem push_pop_same_slot {traffic : Traffic slotSize} {count : Nat}
    (counted : Counted capacity traffic.ring count) (small : capacity < 2 ^ 32)
    (slotSmall : slotSize < 2 ^ 32) (room : count < capacity)
    (same : traffic.ring.tail % capacity = traffic.ring.head % capacity)
    (data : Payload slotSize) :
    ((traffic.step capacity (.push data)).step capacity .pop).consumed =
      traffic.consumed ++ [data.bytes] := by
  have nonempty : ¬ traffic.ring.head = wrappingAdd (2 ^ 32) traffic.ring.tail 1 :=
    mt ((counted.advance room (·.write data)).empty_iff small).mp (Nat.succ_ne_zero _)
  have slot : (Function.update traffic.ring.slots (traffic.ring.tail % capacity)
      ((traffic.ring.slots (traffic.ring.tail % capacity)).write data)
      (traffic.ring.head % capacity)).read = data.bytes := by
    rw [← same, Function.update_self, Slot.read_write _ _ slotSmall]
  rw [step_push counted small room]
  simp only [step, afterPop, ringPop, Ring.advance, if_neg nonempty, Option.toList_some, slot]

/-- When the capacity does not divide `2 ^ 32`, the first payload pushed after the wrap lands in
the slot of the oldest unread one. -/
theorem wrap_overwrites (positive : 0 < capacity) (small : capacity < 2 ^ 32)
    (slotPositive : 0 < slotSize) (slotSmall : slotSize < 2 ^ 32)
    (indivisible : ¬ capacity ∣ 2 ^ 32) (slots : Nat → Slot slotSize) :
    ∃ counter, counter < 2 ^ 32 ∧ ∃ events : List (RingEvent slotSize),
      ¬ (events.foldl (step capacity) (start counter slots)).Fifo capacity := by
  let short : Payload slotSize := ⟨[], Nat.zero_le _⟩
  let long : Payload slotSize := ⟨[0], slotPositive⟩
  have remains : 0 < 2 ^ 32 % capacity :=
    Nat.pos_of_ne_zero (fun none => indivisible (Nat.dvd_of_mod_eq_zero none))
  have less : 2 ^ 32 % capacity < capacity := Nat.mod_lt _ positive
  let base := 2 ^ 32 - 2 ^ 32 % capacity
  have bounded : base < 2 ^ 32 := Nat.sub_lt (by decide) remains
  let pkts := short :: List.replicate (2 ^ 32 % capacity - 1) long
  have length : 0 + pkts.length = 2 ^ 32 % capacity := by
    simp only [pkts, length_cons, length_replicate]
    omega
  let before := (pkts.map RingEvent.push).foldl (step capacity) (start base slots)
  have empty : Counted capacity (start base slots).ring 0 :=
    (represents_start base bounded slots).counted
  have pushes := pushes_counted small pkts (start base slots) empty (by rw [length]; exact less.le)
  rw [length] at pushes
  rcases pushes with ⟨counted, head, accepted, consumed⟩
  have same : before.ring.tail % capacity = before.ring.head % capacity := by
    rw [counted.tail, head]
    exact slot_eq_wrapped capacity
  refine ⟨base, bounded, pkts.map RingEvent.push ++ [.push long, .pop], ?_⟩
  intro fifo
  have ordered := fifo.ordered
  rw [foldl_append, foldl_cons, foldl_cons, foldl_nil,
    push_pop_same_slot counted small slotSmall less same long,
    step_push counted small less long] at ordered
  change _ <+: before.accepted ++ [long.bytes] at ordered
  rw [consumed, accepted] at ordered
  have first := (cons_prefix_cons.mp ordered).1
  cases first

/-- Which rings are FIFO queues in every run. -/
theorem fifo_iff_dvd (geometry : Geometry) :
    (∀ counter, counter < 2 ^ 32 → ∀ (slots : Nat → Slot geometry.slotSize)
      (events : List (RingEvent geometry.slotSize)),
        (events.foldl (step geometry.capacity) (start counter slots)).Fifo geometry.capacity) ↔
      geometry.capacity ∣ 2 ^ 32 := by
  constructor
  · intro always
    by_contra indivisible
    let slots : Nat → Slot geometry.slotSize := fun _ =>
      ⟨0, List.replicate geometry.slotSize 0, List.length_replicate⟩
    rcases wrap_overwrites geometry.capacity_pos geometry.capacity_lt geometry.slotSize_pos
      geometry.slotSize_lt indivisible slots with ⟨counter, bounded, events, broken⟩
    exact broken (always counter bounded slots events)
  · intro divides counter bounded slots events
    have queued : (events.foldl (step geometry.capacity) (start counter slots)).Queued
        geometry.capacity := by
      apply List.foldlRecOn
      · exact ⟨⟨[], represents_start counter bounded slots, rfl⟩, by simp [start]⟩
      · intro traffic queued event _
        exact queued.step divides geometry.capacity_lt geometry.slotSize_lt event
    exact queued.fifo

example : capacityForSlot (slotSizeForMtu 8960) = 90 := by decide

def threeSlots : Geometry := ⟨3, 1, rfl⟩

/-- The second push of a ring of three slots, just after the wrap, overwrites the first. -/
theorem three_slots_overwritten :
    ¬ (([.push ⟨[], by decide⟩, .push ⟨[0], by decide⟩, .pop] :
      List (RingEvent threeSlots.slotSize)).foldl (step threeSlots.capacity)
        (start (2 ^ 32 - 1) (fun _ => ⟨0, [0], rfl⟩))).Fifo threeSlots.capacity := by
  intro fifo
  have ordered := fifo.ordered
  revert ordered
  decide

end Traffic
end NdnExt.Shm
