import NdnExt.Stream.Session

/-! The account of a stream: what the events name against what the buffer took. -/

namespace NdnExt.Stream

open NdnExt.Lib ReorderBuffer List

namespace StreamEvent

/-- The seqs that an event names. -/
def named : StreamEvent → List Nat
  | .item seq _ => [seq]
  | .lost seqs => seqs
  | .sessionReset _ => []

def losses : StreamEvent → List Nat
  | .lost seqs => seqs
  | _ => []

def delivered : StreamEvent → Option Nat
  | .item seq _ => some seq
  | _ => none

def isReset : StreamEvent → Bool
  | .sessionReset _ => true
  | _ => false

theorem delivered_sublist_named (events : List StreamEvent) :
    (events.filterMap delivered).Sublist (events.flatMap named) := by
  induction events with
  | nil => exact List.Sublist.slnil
  | cons event rest ih =>
    rw [flatMap_cons, filterMap_cons]
    cases event with
    | item seq payload => exact ih.cons_cons seq
    | lost seqs => exact ih.trans (sublist_append_right seqs _)
    | sessionReset session => exact ih

end StreamEvent

variable {seqs : List Nat}

namespace ReorderBuffer

/-- The items at the cursor, as events. -/
def ready (buffer : ReorderBuffer) : List StreamEvent :=
  buffer.popReady.2.map (fun entry => .item entry.1 entry.2)

def offer (buffer : ReorderBuffer) (rows : List (Nat × Bytes)) : ReorderBuffer :=
  rows.foldl (fun buffer row => (buffer.insert row.1 row.2).1) buffer

/-- What the buffer takes of the rows it is offered. -/
def acceptedOf : ReorderBuffer → List (Nat × Bytes) → List (Nat × Bytes)
  | _, [] => []
  | buffer, row :: rest =>
    (if (buffer.insert row.1 row.2).2 = .accepted then [row] else []) ++
      acceptedOf (buffer.insert row.1 row.2).1 rest

/-- The seqs of the rows beyond its span. -/
def refusedOf : ReorderBuffer → List (Nat × Bytes) → List Nat
  | _, [] => []
  | buffer, row :: rest =>
    (if (buffer.insert row.1 row.2).2 = .tooFarAhead then [row.1] else []) ++
      refusedOf (buffer.insert row.1 row.2).1 rest

/-- The buffer's share of giving up `seq`. -/
def giveUp (buffer : ReorderBuffer) (seq : Nat) : ReorderBuffer × List StreamEvent :=
  let skipped := buffer.skipTo (seq + 1)
  (skipped.1.popReady.1,
    (if skipped.2 = [] then [] else [.lost skipped.2]) ++ skipped.1.ready)

def giveUps : ReorderBuffer → List Nat → ReorderBuffer × List StreamEvent
  | buffer, [] => (buffer, [])
  | buffer, seq :: rest =>
    ((giveUps (buffer.giveUp seq).1 rest).1,
      (buffer.giveUp seq).2 ++ (giveUps (buffer.giveUp seq).1 rest).2)

theorem named_ready (buffer : ReorderBuffer) : buffer.ready.flatMap StreamEvent.named =
    List.range' buffer.next (buffer.popReady.1.next - buffer.next) := by
  have drained := buffer.drained_popReady
  rw [drained.next, Nat.add_sub_cancel_left, ← drained.run, ready]
  induction buffer.popReady.2 with
  | nil => rfl
  | cons entry rest ih => exact congrArg (entry.1 :: ·) ih

theorem losses_ready (buffer : ReorderBuffer) : buffer.ready.flatMap StreamEvent.losses = [] := by
  rw [flatMap_eq_nil_iff]
  intro event member
  rcases mem_map.mp member with ⟨entry, -, rfl⟩
  rfl

theorem isReset_ready (buffer : ReorderBuffer) : buffer.ready.any StreamEvent.isReset = false := by
  rw [any_eq_false]
  intro event member
  rcases mem_map.mp member with ⟨entry, -, rfl⟩
  exact Bool.false_ne_true

variable {buffer : ReorderBuffer} {seq : Nat}

theorem item_ready {payload : Bytes}
    (member : StreamEvent.item seq payload ∈ buffer.ready) :
    buffer.buffered.lookup seq = some payload := by
  rcases mem_map.mp member with ⟨⟨other, item⟩, inside, same⟩
  cases same
  exact buffer.drained_popReady.items _ _ inside

section Offering

variable {rows : List (Nat × Bytes)}

theorem has_offer_of_has
    (had : buffer.has seq) : (buffer.offer rows).has seq := by
  induction rows generalizing buffer with
  | nil => exact had
  | cons row rest ih => exact ih (has_insert_of_has had)

theorem next_offer (buffer : ReorderBuffer) (rows : List (Nat × Bytes)) :
    (buffer.offer rows).next = buffer.next := by
  induction rows generalizing buffer with
  | nil => rfl
  | cons row rest ih => exact (ih _).trans (next_insert _ _ _)

/-- What is offered is refused, or buffered or passed in the end. -/
theorem has_offer
    (member : seq ∈ rows.map Prod.fst) :
    (buffer.offer rows).has seq ∨ seq ∈ buffer.refusedOf rows := by
  induction rows generalizing buffer with
  | nil => exact absurd member not_mem_nil
  | cons row rest ih =>
    rw [refusedOf, mem_append]
    rcases mem_cons.mp member with rfl | member
    · by_cases far : (buffer.insert row.1 row.2).2 = .tooFarAhead
      · rw [if_pos far]
        exact Or.inr (Or.inl mem_cons_self)
      · have kept : ((buffer.insert row.1 row.2).1.offer rest).has row.1 :=
          has_offer_of_has (has_insert_self far)
        exact Or.inl kept
    · exact (ih member).imp_right Or.inr

theorem mem_refusedOf
    (member : seq ∈ buffer.refusedOf rows) : seq ∈ rows.map Prod.fst := by
  induction rows generalizing buffer with
  | nil => exact member
  | cons row rest ih =>
    rw [refusedOf, mem_append] at member
    rcases member with own | later
    · split at own
      · exact mem_cons.mpr (Or.inl (mem_singleton.mp own))
      · exact absurd own not_mem_nil
    · exact mem_cons_of_mem _ (ih later)

end Offering

section GivingUp

theorem drained_giveUp (buffer : ReorderBuffer) (seq : Nat) :
    (buffer.giveUp seq).1.next ∉ (buffer.giveUp seq).1.buffered :=
  AList.lookup_eq_none.mp (lookup_popReady _)

variable {other : Nat}

theorem has_giveUp :
    (buffer.giveUp seq).1.has other ↔ buffer.has other ∨ other ≤ seq := by
  unfold giveUp
  rw [has_popReady, has_skipTo, Nat.lt_succ_iff]

theorem lt_next_giveUp (buffer : ReorderBuffer) (seq : Nat) :
    max buffer.next (seq + 1) ≤ (buffer.giveUp seq).1.next := by
  rw [← next_skipTo]
  exact (drained_popReady _).next ▸ Nat.le_add_right _ _

theorem mem_losses_giveUp :
    other ∈ (buffer.giveUp seq).2.flatMap StreamEvent.losses ↔
      ¬ buffer.has other ∧ other ≤ seq := by
  unfold giveUp
  rw [flatMap_append, losses_ready, append_nil, and_comm, ← Nat.lt_succ_iff,
    ← mem_lost_skipTo]
  split
  · rename_i none
    rw [none]
    rfl
  · simp [StreamEvent.losses]

/-- A seq that is passed is given up without effect. -/
theorem giveUp_behind
    (hole : buffer.next ∉ buffer.buffered) (behind : seq < buffer.next) :
    buffer.giveUp seq = (buffer, []) := by
  unfold giveUp ready
  rw [skipTo_le behind]
  dsimp only
  rw [popReady_drained hole]
  rfl

theorem drained_giveUps
    (hole : buffer.next ∉ buffer.buffered) :
    (buffer.giveUps seqs).1.next ∉ (buffer.giveUps seqs).1.buffered := by
  induction seqs generalizing buffer with
  | nil => exact hole
  | cons seq rest ih => exact ih (drained_giveUp buffer seq)

theorem has_giveUps :
    (buffer.giveUps seqs).1.has other ↔ buffer.has other ∨ ∃ seq ∈ seqs, other ≤ seq := by
  induction seqs generalizing buffer with
  | nil => simp [giveUps]
  | cons seq rest ih =>
    change (giveUps (buffer.giveUp seq).1 rest).1.has other ↔ _
    rw [ih, has_giveUp, or_assoc]
    simp only [mem_cons, exists_eq_or_imp]

theorem le_next_giveUps (buffer : ReorderBuffer) (seqs : List Nat) :
    buffer.next ≤ (buffer.giveUps seqs).1.next ∧
      ∀ seq ∈ seqs, seq < (buffer.giveUps seqs).1.next := by
  induction seqs generalizing buffer with
  | nil => exact ⟨Nat.le_refl _, fun _ member => absurd member not_mem_nil⟩
  | cons seq rest ih =>
    have first := lt_next_giveUp buffer seq
    have later := ih (buffer.giveUp seq).1
    refine ⟨?_, ?_⟩
    · exact Nat.le_trans (by omega) later.1
    · intro other member
      rcases mem_cons.mp member with rfl | member
      · exact Nat.lt_of_lt_of_le (by omega) later.1
      · exact later.2 other member

/-- Giving up loses every seq up to those given up that is neither passed nor buffered. -/
theorem mem_losses_giveUps :
    other ∈ (buffer.giveUps seqs).2.flatMap StreamEvent.losses ↔
      ¬ buffer.has other ∧ ∃ seq ∈ seqs, other ≤ seq := by
  induction seqs generalizing buffer with
  | nil => simp [giveUps]
  | cons seq rest ih =>
    rw [giveUps, flatMap_append, mem_append, ih, mem_losses_giveUp, has_giveUp]
    simp only [mem_cons, exists_eq_or_imp]
    by_cases first : other ≤ seq
    · simp [first]
    · simp [first]

theorem isReset_giveUps (buffer : ReorderBuffer) (seqs : List Nat) :
    (buffer.giveUps seqs).2.any StreamEvent.isReset = false := by
  induction seqs generalizing buffer with
  | nil => rfl
  | cons seq rest ih =>
    rw [giveUps, any_append, ih, Bool.or_false, giveUp]
    rw [any_append, isReset_ready, Bool.or_false]
    split <;> rfl

/-- Every seq up to those given up is passed, buffered or given up itself. -/
def Cleared (buffer : ReorderBuffer) (seqs : List Nat) : Prop :=
  ∀ seq ∈ seqs, ∀ other ≤ seq, buffer.has other ∨ other ∈ seqs

theorem cleared_iff :
    buffer.Cleared seqs ↔
      ∀ other ∈ (buffer.giveUps seqs).2.flatMap StreamEvent.losses, other ∈ seqs := by
  constructor
  · intro cleared other lost
    rcases mem_losses_giveUps.mp lost with ⟨missing, seq, member, below⟩
    exact (cleared seq member other below).resolve_left missing
  · intro all seq member other below
    by_cases had : buffer.has other
    · exact Or.inl had
    · exact Or.inr (all other (mem_losses_giveUps.mpr ⟨had, seq, member, below⟩))

end GivingUp
end ReorderBuffer

/-- The events since `start` name every seq up to the cursor once and in order; what they deliver
and what the buffer holds was accepted first for its seq. -/
structure Tally (start : Nat) (accepted : List (Nat × Bytes)) (events : List StreamEvent)
    (buffer : ReorderBuffer) : Prop where
  low : start ≤ buffer.next
  named : events.flatMap StreamEvent.named = List.range' start (buffer.next - start)
  items : ∀ seq payload, .item seq payload ∈ events → accepted.lookup seq = some payload
  buffered : ∀ seq payload, buffer.buffered.lookup seq = some payload →
    accepted.lookup seq = some payload
  taken : ∀ row ∈ accepted, buffer.has row.1

namespace Tally

variable {start : Nat} {accepted : List (Nat × Bytes)} {events : List StreamEvent}
  {buffer : ReorderBuffer}

theorem new (start maxSpan : Nat) : Tally start [] [] (new start maxSpan) where
  low := Nat.le_refl _
  named := by
    change [] = List.range' start (start - start)
    rw [Nat.sub_self]
    rfl
  items := by
    intro seq payload member
    exact absurd member not_mem_nil
  buffered := nofun
  taken := by
    intro row member
    exact absurd member not_mem_nil

theorem insert (tally : Tally start accepted events buffer) (row : Nat × Bytes) :
    Tally start
      (accepted ++ (if (buffer.insert row.1 row.2).2 = .accepted then [row] else [])) events
      (buffer.insert row.1 row.2).1 := by
  have kept : ∀ {seq : Nat} {payload : Bytes} (more : List (Nat × Bytes)),
      accepted.lookup seq = some payload → (accepted ++ more).lookup seq = some payload := by
    intro seq payload more found
    rw [lookup_append, found]
    rfl
  refine ⟨?_, ?_, ?_, ?_, ?_⟩
  · rw [next_insert]
    exact tally.low
  · rw [next_insert]
    exact tally.named
  · intro seq payload member
    exact kept _ (tally.items seq payload member)
  · intro seq payload found
    rw [lookup_insert] at found
    split at found
    · rename_i new
      rcases new with ⟨rfl, taken⟩
      have fresh : accepted.lookup row.1 = none := by
        rw [lookup_eq_none_iff]
        intro other member
        have had := has_iff.mp (tally.taken other member)
        have room := insert_accepted.mp taken
        rw [bne_iff_ne]
        intro same
        rw [← same] at had
        rcases had with passed | buffered
        · omega
        · exact room.2.2 buffered
      rw [if_pos taken, lookup_append, fresh, Option.none_or, ← found, lookup_cons_self]
    · exact kept _ (tally.buffered seq payload found)
  · intro other member
    rcases mem_append.mp member with old | new
    · exact has_insert_of_has (tally.taken other old)
    · split at new
      · rename_i taken
        rw [mem_singleton.mp new]
        exact has_insert_self (by rw [taken]; decide)
      · exact absurd new not_mem_nil

theorem offer (rows : List (Nat × Bytes)) (tally : Tally start accepted events buffer) :
    Tally start (accepted ++ buffer.acceptedOf rows) events (buffer.offer rows) := by
  induction rows generalizing accepted buffer with
  | nil =>
    rw [acceptedOf, append_nil]
    exact tally
  | cons row rest ih =>
    rw [acceptedOf, ← append_assoc]
    exact ih (tally.insert row)

section

variable (tally : Tally start accepted events buffer)
include tally

/-- The events that follow name the next seqs. -/
theorem advance {after : ReorderBuffer} {more : List StreamEvent}
    (forward : buffer.next ≤ after.next)
    (named : more.flatMap StreamEvent.named =
      List.range' buffer.next (after.next - buffer.next))
    (items : ∀ seq payload, .item seq payload ∈ more →
      buffer.buffered.lookup seq = some payload)
    (fewer : ∀ seq payload, after.buffered.lookup seq = some payload →
      buffer.buffered.lookup seq = some payload)
    (has : ∀ seq, buffer.has seq → after.has seq) :
    Tally start accepted (events ++ more) after where
  low := Nat.le_trans tally.low forward
  named := by
    have low := tally.low
    have split : after.next - start = buffer.next - start + (after.next - buffer.next) := by omega
    have middle : start + (buffer.next - start) = buffer.next := by omega
    rw [flatMap_append, tally.named, named, split, ← List.range'_append_1, middle]
  items := by
    intro seq payload member
    rcases mem_append.mp member with old | new
    · exact tally.items seq payload old
    · exact tally.buffered seq payload (items seq payload new)
  buffered := fun seq payload found => tally.buffered seq payload (fewer seq payload found)
  taken := fun row member => has row.1 (tally.taken row member)

theorem popReady :
    Tally start accepted (events ++ buffer.ready) buffer.popReady.1 := by
  have drained := buffer.drained_popReady
  apply tally.advance
  · rw [drained.next]
    exact Nat.le_add_right _ _
  · exact buffer.named_ready
  · intro seq payload member
    exact item_ready member
  · intro seq payload found
    rw [drained.rest] at found
    split at found
    · cases found
    · exact found
  · intro seq had
    rw [has_popReady]
    exact had

theorem skipTo :
    Tally start accepted (events ++ [.lost [buffer.next]])
      (buffer.skipTo (buffer.next + 1)).1 := by
  have next : (buffer.skipTo (buffer.next + 1)).1.next = buffer.next + 1 := by
    rw [next_skipTo]
    omega
  apply tally.advance
  · omega
  · rw [next, Nat.add_sub_cancel_left]
    rfl
  · intro seq payload member
    cases mem_singleton.mp member
  · intro seq payload found
    rw [lookup_skipTo] at found
    split at found
    · cases found
    · exact found
  · intro seq had
    exact has_skipTo.mpr (Or.inl had)

theorem giveUp
    (hole : buffer.next ∉ buffer.buffered) :
    Tally start accepted (events ++ (buffer.giveUp buffer.next).2)
      (buffer.giveUp buffer.next).1 := by
  have lost := ReorderBuffer.skipTo_succ (AList.lookup_eq_none.mpr hole)
  unfold ReorderBuffer.giveUp
  dsimp only
  rw [lost, if_neg (cons_ne_nil _ _), ← append_assoc]
  exact tally.skipTo.popReady

/-- Where every seq up to those given up is accounted for, each is lost at the cursor. -/
theorem giveUps
    (sorted : seqs.Pairwise (· < ·)) (hole : buffer.next ∉ buffer.buffered)
    (cleared : buffer.Cleared seqs) :
    Tally start accepted (events ++ (buffer.giveUps seqs).2) (buffer.giveUps seqs).1 := by
  induction seqs generalizing events buffer with
  | nil =>
    rw [giveUps, append_nil]
    exact tally
  | cons seq rest ih =>
    rw [pairwise_cons] at sorted
    have rest_cleared : (buffer.giveUp seq).1.Cleared rest := by
      intro later member other below
      rw [has_giveUp]
      rcases cleared later (mem_cons_of_mem _ member) other below with had | given
      · exact Or.inl (Or.inl had)
      · rcases mem_cons.mp given with same | given
        · exact Or.inl (Or.inr (Nat.le_of_eq same))
        · exact Or.inr given
    have low : seq ≤ buffer.next := by
      by_contra above
      rcases cleared seq mem_cons_self buffer.next (by omega) with had | given
      · rcases has_iff.mp had with passed | buffered
        · exact Nat.lt_irrefl _ passed
        · exact hole buffered
      · rcases mem_cons.mp given with same | given
        · omega
        · have later := sorted.1 _ given
          omega
    have first : Tally start accepted (events ++ (buffer.giveUp seq).2)
        (buffer.giveUp seq).1 := by
      rcases Nat.lt_or_eq_of_le low with behind | rfl
      · rw [giveUp_behind hole behind, append_nil]
        exact tally
      · exact tally.giveUp hole
    rw [giveUps, ← append_assoc]
    exact ih first sorted.2 (drained_giveUp buffer seq) rest_cleared

/-- The delivered seqs increase. -/
theorem ordered :
    (events.flatMap StreamEvent.named).Pairwise (· < ·) := by
  rw [tally.named]
  exact pairwise_lt_range'

end

end Tally
end NdnExt.Stream
