import Mathlib.Data.List.TakeWhile

/-! A stage that serves a queue in order and stops behind the first item it cannot use. -/

namespace NdnExt.Lib.Stage

open List

variable {A B : Type} (use : A → Option B)

def usable (item : A) : Bool := (use item).isSome

/-- What one turn hands on. -/
def handed (queue : List A) : List B := (queue.takeWhile (usable use)).filterMap use

/-- What it leaves in the queue: the item it stopped at is gone. -/
def kept (queue : List A) : List A := (queue.dropWhile (usable use)).tail

def Idle (queue : List A) : Prop := ∀ item ∈ queue, use item = none

instance (queue : List A) : Decidable (Idle use queue) :=
  inferInstanceAs (Decidable (∀ item ∈ queue, use item = none))

def skipped (queue : List A) : Nat := queue.countP (fun item => !usable use item)

variable {use}

theorem usable_eq_false {item : A} : usable use item = false ↔ use item = none := by
  rw [usable, Option.isSome_eq_false_iff, Option.isNone_iff_eq_none]

theorem filterMap_dropWhile (queue : List A) :
    (queue.dropWhile (usable use)).filterMap use = (kept use queue).filterMap use := by
  unfold kept
  cases rest : queue.dropWhile (usable use) with
  | nil => rfl
  | cons head tail =>
    have stopped : usable use head = false := by
      have first := List.head?_dropWhile_not (usable use) queue
      rw [rest] at first
      exact first
    rw [filterMap_cons_none (usable_eq_false.mp stopped), tail_cons]

theorem idle_iff {queue : List A} : Idle use queue ↔ queue.filterMap use = [] :=
  filterMap_eq_nil_iff.symm

theorem idle_dropWhile_iff {queue : List A} :
    Idle use (queue.dropWhile (usable use)) ↔ Idle use (kept use queue) := by
  rw [idle_iff, idle_iff, filterMap_dropWhile]

/-- Nothing usable is lost: it is handed on or still in the queue. -/
theorem handed_append_kept (queue : List A) :
    handed use queue ++ (kept use queue).filterMap use = queue.filterMap use := by
  rw [handed, ← filterMap_dropWhile, ← filterMap_append, takeWhile_append_dropWhile]

theorem handed_eq_iff (queue : List A) :
    handed use queue = queue.filterMap use ↔ Idle use (kept use queue) := by
  rw [← handed_append_kept queue, idle_iff]
  exact ⟨fun same => self_eq_append_right.mp same, fun none => by rw [none, append_nil]⟩

theorem kept_eq_nil {queue : List A} (usable : ¬ 0 < skipped use queue) : kept use queue = [] := by
  have all : queue.dropWhile (Stage.usable use) = [] := by
    rw [dropWhile_eq_nil_iff]
    intro item member
    by_contra stops
    exact usable (countP_pos_iff.mpr ⟨item, member, by simp [stops]⟩)
  rw [kept, all, tail_nil]

theorem skipped_of_idle {queue : List A} (idle : Idle use queue) :
    skipped use queue = queue.length := by
  rw [skipped, countP_eq_length]
  intro item member
  rw [usable_eq_false.mpr (idle item member)]
  rfl

theorem dropWhile_of_idle {queue : List A} (idle : Idle use queue) :
    queue.dropWhile (usable use) = queue := by
  cases queue with
  | nil => rfl
  | cons head tail =>
    have first := usable_eq_false.mpr (idle head (mem_cons_self ..))
    rw [dropWhile_cons_of_neg (by rw [first]; exact Bool.false_ne_true)]

theorem skipped_dropWhile (queue : List A) :
    skipped use (queue.dropWhile (usable use)) = skipped use queue := by
  induction queue with
  | nil => rfl
  | cons head tail ih =>
    by_cases first : usable use head = true
    · rw [dropWhile_cons_of_pos first, ih]
      simp [skipped, first]
    · rw [dropWhile_cons_of_neg first]

/-- One turn on idle items followed by `arrived` leaves only idle ones exactly if `arrived` has
its usable items in front, and has none where something waits. -/
theorem idle_kept_iff {waiting arrived : List A} (idle : Idle use waiting) :
    Idle use (kept use (waiting ++ arrived)) ↔
      (waiting = [] ∨ Idle use arrived) ∧ Idle use (arrived.dropWhile (usable use)) := by
  cases waiting with
  | nil =>
    simp only [nil_append, true_or, true_and, idle_dropWhile_iff]
  | cons head tail =>
    have first := usable_eq_false.mpr (idle head (mem_cons_self ..))
    have rest : kept use (head :: tail ++ arrived) = tail ++ arrived := by
      rw [kept, cons_append,
        dropWhile_cons_of_neg (by rw [first]; exact Bool.false_ne_true), tail_cons]
    simp only [rest, reduceCtorEq, false_or]
    constructor
    · intro all
      have new : Idle use arrived := fun item member => all item (mem_append_right _ member)
      exact ⟨new, by rwa [dropWhile_of_idle new]⟩
    · intro ⟨new, _⟩ item member
      rcases mem_append.mp member with member | member
      · exact idle item (mem_cons_of_mem _ member)
      · exact new item member

theorem length_kept {waiting arrived : List A} (idle : Idle use waiting)
    (after : Idle use (kept use (waiting ++ arrived))) :
    (kept use (waiting ++ arrived)).length = waiting.length + skipped use arrived - 1 := by
  have total : skipped use (waiting ++ arrived) = waiting.length + skipped use arrived := by
    rw [← skipped_of_idle idle]
    exact countP_append
  rw [← total, ← skipped_dropWhile, skipped_of_idle (idle_dropWhile_iff.mpr after), kept,
    length_tail]

end NdnExt.Lib.Stage
