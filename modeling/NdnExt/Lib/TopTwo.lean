import Mathlib.Data.List.Perm.Basic
import Mathlib.Tactic.Order
/-! Keeping the two least items of a list in one pass. -/

namespace NdnExt.Lib

variable {α : Type} [LinearOrder α]

def keepTwo (best : α × α) (item : α) : α × α :=
  if item < best.1 then (item, best.1)
  else if item < best.2 then (best.1, item)
  else best

def leastTwo (best : α × α) (items : List α) : α × α := items.foldl keepTwo best

/-- `pair` holds the two least items of `items`. -/
def LeastTwo (pair : α × α) (items : List α) : Prop :=
  ∃ rest, (pair.1 :: pair.2 :: rest).Perm items ∧ pair.1 ≤ pair.2 ∧ ∀ item ∈ rest, pair.2 ≤ item

theorem keepTwo_least (best : α × α) (items : List α) (item : α) (least : LeastTwo best items) :
    LeastTwo (keepTwo best item) (item :: items) := by
  obtain ⟨rest, perm, sorted, above⟩ := least
  have grown := perm.cons item
  unfold keepTwo
  split_ifs with below between
  · refine ⟨best.2 :: rest, grown, below.le, ?_⟩
    intro other member
    rcases List.mem_cons.mp member with rfl | member
    · exact sorted
    · exact sorted.trans (above other member)
  · refine ⟨best.2 :: rest, ((List.Perm.swap item best.1 _).trans grown), not_lt.mp below, ?_⟩
    intro other member
    rcases List.mem_cons.mp member with rfl | member
    · exact between.le
    · exact between.le.trans (above other member)
  · have moved : (best.1 :: best.2 :: item :: rest).Perm (item :: best.1 :: best.2 :: rest) :=
      ((List.Perm.swap item best.2 rest).cons best.1).trans (List.Perm.swap item best.1 _)
    refine ⟨item :: rest, moved.trans grown, sorted, ?_⟩
    intro other member
    rcases List.mem_cons.mp member with rfl | member
    · exact not_lt.mp between
    · exact above other member

theorem leastTwo_least (items : List α) (best : α × α) (seen : List α)
    (least : LeastTwo best seen) : LeastTwo (leastTwo best items) (items ++ seen) := by
  induction items generalizing best seen with
  | nil => exact least
  | cons item tail ih =>
    have next := ih (keepTwo best item) (item :: seen) (keepTwo_least best seen item least)
    obtain ⟨rest, perm, sorted, above⟩ := next
    exact ⟨rest, perm.trans List.perm_middle, sorted, above⟩

section

variable {pair : α × α} {items : List α} (least : LeastTwo pair items)
include least

theorem LeastTwo.first_le
    {item : α} (member : item ∈ items) : pair.1 ≤ item := by
  obtain ⟨rest, perm, sorted, above⟩ := least
  rcases List.mem_cons.mp (perm.mem_iff.mpr member) with rfl | member
  · exact le_rfl
  · rcases List.mem_cons.mp member with rfl | member
    · exact sorted
    · exact sorted.trans (above item member)

theorem LeastTwo.first_mem :
    pair.1 ∈ items := by
  obtain ⟨rest, perm, -, -⟩ := least
  exact perm.mem_iff.mp (by simp)

theorem LeastTwo.second_mem :
    pair.2 ∈ items := by
  obtain ⟨rest, perm, -, -⟩ := least
  exact perm.mem_iff.mp (by simp)

theorem LeastTwo.second_le
    {item : α} (member : item ∈ items) (other : item ≠ pair.1) : pair.2 ≤ item := by
  obtain ⟨rest, perm, sorted, above⟩ := least
  rcases List.mem_cons.mp (perm.mem_iff.mpr member) with same | member
  · exact absurd same other
  · rcases List.mem_cons.mp member with rfl | member
    · exact le_rfl
    · exact above item member

end

/-- A cap given twice bounds the second item as well. -/
theorem LeastTwo.second_le_cap {pair : α × α} {items : List α} {cap : α}
    (least : LeastTwo pair (items ++ [cap, cap])) : pair.2 ≤ cap := by
  by_cases first : cap = pair.1
  · obtain ⟨rest, perm, sorted, above⟩ := least
    have twice := perm.count_eq cap
    rw [first, List.count_cons_self, List.count_append, List.count_cons_self,
      List.count_cons_self] at twice
    have member : pair.1 ∈ pair.2 :: rest := List.count_pos_iff.mp (by omega)
    rw [first]
    rcases List.mem_cons.mp member with same | member
    · exact same.ge
    · exact above _ member
  · exact least.second_le (by simp) first

/-- Distinct items are kept at most once. -/
theorem LeastTwo.first_ne_second {pair : α × α} {items others : List α}
    (least : LeastTwo pair (items ++ others)) (distinct : items.Nodup)
    (outside : pair.1 ∉ others) : pair.1 ≠ pair.2 := by
  intro same
  obtain ⟨rest, perm, -, -⟩ := least
  have count := perm.count_eq pair.1
  rw [← same, List.count_cons_self, List.count_cons_self, List.count_append,
    List.count_eq_zero.mpr outside] at count
  have atMost := List.nodup_iff_count.mp distinct pair.1
  omega

end NdnExt.Lib
