import Mathlib.Data.List.Basic

/-! Streams that a delimiter cuts into segments. -/

namespace NdnExt.Lib.Segments

variable {A : Type}

/-- The segments that `delim` has closed and what has come of the next one, after `opened`. -/
def split [DecidableEq A] (delim : A) (opened : List A) : List A → List (List A) × List A
  | [] => ([], opened)
  | head :: rest =>
    if head = delim then
      (opened :: (split delim [] rest).1, (split delim [] rest).2)
    else split delim (opened ++ [head]) rest

def join (delim : A) (segments : List (List A)) : List A :=
  segments.flatMap (· ++ [delim])

variable {delim : A}

@[simp] theorem join_nil : join delim [] = [] := rfl

@[simp] theorem join_cons (segment : List A) (segments : List (List A)) :
    join delim (segment :: segments) = segment ++ delim :: join delim segments := by
  simp [join]

theorem join_append (front back : List (List A)) :
    join delim (front ++ back) = join delim front ++ join delim back := List.flatMap_append

variable [DecidableEq A]

theorem split_append (opened front back : List A) :
    split delim opened (front ++ back) =
      ((split delim opened front).1 ++ (split delim (split delim opened front).2 back).1,
        (split delim (split delim opened front).2 back).2) := by
  induction front generalizing opened with
  | nil => rfl
  | cons head rest ih =>
    by_cases closes : head = delim
    · simp only [List.cons_append, split, if_pos closes, ih]
    · simp only [List.cons_append, split, if_neg closes, ih]

theorem split_of_not_mem {bytes : List A} (opened : List A) (clean : delim ∉ bytes) :
    split delim opened bytes = ([], opened ++ bytes) := by
  induction bytes generalizing opened with
  | nil => rw [split, List.append_nil]
  | cons head rest ih =>
    have other : head ≠ delim := fun same => clean (by simp [same])
    rw [split, if_neg other, ih _ (List.not_mem_of_not_mem_cons clean), List.append_assoc]
    rfl

theorem split_segment {segment : List A} (opened rest : List A) (clean : delim ∉ segment) :
    split delim opened (segment ++ delim :: rest) =
      ((opened ++ segment) :: (split delim [] rest).1, (split delim [] rest).2) := by
  rw [split_append, split_of_not_mem opened clean, split, if_pos rfl]
  rfl

theorem split_join {segments : List (List A)} (clean : ∀ segment ∈ segments, delim ∉ segment) :
    split delim [] (join delim segments) = (segments, []) := by
  induction segments with
  | nil => rfl
  | cons segment rest ih =>
    rw [List.forall_mem_cons] at clean
    rw [join_cons, split_segment [] _ clean.1, ih clean.2, List.nil_append]

theorem join_split (opened bytes : List A) :
    join delim (split delim opened bytes).1 ++ (split delim opened bytes).2 = opened ++ bytes := by
  induction bytes generalizing opened with
  | nil => simp [split]
  | cons head rest ih =>
    by_cases closes : head = delim
    · simp [split, closes, ih]
    · simp [split, closes, ih]

theorem split_clean {opened : List A} (bytes : List A) (clean : delim ∉ opened) :
    (∀ segment ∈ (split delim opened bytes).1, delim ∉ segment) ∧
      delim ∉ (split delim opened bytes).2 := by
  induction bytes generalizing opened with
  | nil => exact ⟨by simp [split], clean⟩
  | cons head rest ih =>
    by_cases closes : head = delim
    · have next := @ih [] (by simp)
      simp only [split, if_pos closes, List.forall_mem_cons]
      exact ⟨⟨clean, next.1⟩, next.2⟩
    · rw [split, if_neg closes]
      apply ih
      simp [clean, Ne.symm closes]

/-- What is open when a delimiter follows becomes the front of a segment. -/
theorem exists_segment {bytes : List A} (opened : List A) (closes : delim ∈ bytes) :
    ∃ segment ∈ (split delim opened bytes).1, opened <+: segment := by
  induction bytes generalizing opened with
  | nil => cases closes
  | cons head rest ih =>
    by_cases same : head = delim
    · rw [split, if_pos same]
      exact ⟨opened, List.mem_cons_self .., List.prefix_rfl⟩
    · rw [split, if_neg same]
      have later := List.mem_of_ne_of_mem (Ne.symm same) closes
      rcases ih (opened ++ [head]) later with ⟨segment, member, front⟩
      exact ⟨segment, member, (List.prefix_append opened [head]).trans front⟩

end NdnExt.Lib.Segments
