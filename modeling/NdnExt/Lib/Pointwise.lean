import Mathlib.Data.List.Basic

/-! Loops over keys whose body changes what a state shows under its own key only, and the same
when it meets that key again. -/

namespace NdnExt.Lib.Pointwise

variable {S K V : Type} [DecidableEq K]

/-- `step` changes the view of its own key by `f`, which does nothing the second time. -/
structure OwnKey (step : S → K → S) (view : S → K → V) (f : K → V → V) : Prop where
  turn : ∀ state key other, view (step state key) other =
    if other = key then f key (view state key) else view state other
  again : ∀ key value, f key (f key value) = f key value

variable {step : S → K → S} {view : S → K → V} {f : K → V → V}

theorem OwnKey.view_foldl (own : OwnKey step view f) (start : S) (keys : List K) (other : K) :
    view (keys.foldl step start) other =
      if other ∈ keys then f other (view start other) else view start other := by
  induction keys generalizing start with
  | nil => simp
  | cons key rest ih =>
    rw [List.foldl_cons, ih, own.turn]
    by_cases same : other = key
    · subst same
      simp [own.again]
    · simp [same]

/-- A flag that is raised by the turns that change something is up exactly when some key changes. -/
theorem OwnKey.flag_foldl (own : OwnKey step view f) (flag : S → Prop) (changes : K → V → Prop)
    (raises : ∀ state key, flag (step state key) ↔ flag state ∨ changes key (view state key))
    (still : ∀ key value, ¬changes key (f key value)) (start : S) (keys : List K) :
    flag (keys.foldl step start) ↔ flag start ∨ ∃ key ∈ keys, changes key (view start key) := by
  induction keys generalizing start with
  | nil => simp
  | cons key rest ih =>
    have others : (∃ other ∈ rest, changes other (view (step start key) other)) ∨
        changes key (view start key) ↔ ∃ other ∈ key :: rest, changes other (view start other) := by
      simp only [own.turn, List.mem_cons]
      constructor
      · rintro (⟨other, member, change⟩ | change)
        · by_cases same : other = key
          · rw [if_pos same, same] at change
            exact absurd change (still key _)
          · rw [if_neg same] at change
            exact ⟨other, Or.inr member, change⟩
        · exact ⟨key, Or.inl rfl, change⟩
      · rintro ⟨other, member, change⟩
        by_cases same : other = key
        · exact Or.inr (same ▸ change)
        · exact Or.inl ⟨other, member.resolve_left same, by rwa [if_neg same]⟩
    rw [List.foldl_cons, ih, raises, or_assoc, ← others]
    exact or_congr_right or_comm

end NdnExt.Lib.Pointwise
