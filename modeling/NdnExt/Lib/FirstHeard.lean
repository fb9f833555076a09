import Mathlib.Data.List.Basic

/-! A listener that keeps, of what is said under each key, what it heard first. -/

namespace NdnExt.Lib.FirstHeard

variable {K V : Type} [DecidableEq K]

def hear (known : List (K × V)) (said : K × V) : List (K × V) :=
  if said.1 ∈ known.map Prod.fst then known else known ++ [said]

/-- What a listener that knew nothing has kept. -/
def heard (said : List (K × V)) : List (K × V) := said.foldl hear []

theorem hear_of_known {known : List (K × V)} {said : K × V}
    (known' : said.1 ∈ known.map Prod.fst) : hear known said = known := if_pos known'

theorem hear_of_new {known : List (K × V)} {said : K × V} (new : said.1 ∉ known.map Prod.fst) :
    hear known said = known ++ [said] := if_neg new

theorem mem_keys_hear (known : List (K × V)) (said : K × V) (key : K) :
    key ∈ (hear known said).map Prod.fst ↔ key ∈ known.map Prod.fst ∨ key = said.1 := by
  by_cases new : said.1 ∈ known.map Prod.fst
  · rw [hear_of_known new]
    constructor
    · exact Or.inl
    · rintro (already | rfl)
      · exact already
      · exact new
  · rw [hear_of_new new, List.map_append, List.mem_append, List.map_singleton, List.mem_singleton]

theorem mem_keys_foldl (known said : List (K × V)) (key : K) :
    key ∈ (said.foldl hear known).map Prod.fst ↔
      key ∈ known.map Prod.fst ∨ key ∈ said.map Prod.fst := by
  induction said generalizing known with
  | nil => simp
  | cons head rest ih =>
    rw [List.foldl_cons, ih, mem_keys_hear, List.map_cons, List.mem_cons, or_assoc]

theorem mem_keys_heard (said : List (K × V)) (key : K) :
    key ∈ (heard said).map Prod.fst ↔ key ∈ said.map Prod.fst := by
  rw [heard, mem_keys_foldl]
  simp

/-- Hearing known keys again changes nothing. -/
theorem foldl_hear_of_known {known said : List (K × V)}
    (all : ∀ key ∈ said.map Prod.fst, key ∈ known.map Prod.fst) :
    said.foldl hear known = known := by
  induction said with
  | nil => rfl
  | cons head rest ih =>
    rw [List.map_cons, List.forall_mem_cons] at all
    rw [List.foldl_cons, hear_of_known all.1]
    exact ih all.2

theorem heard_append (said more : List (K × V)) :
    heard (said ++ more) = more.foldl hear (heard said) := by
  rw [heard, List.foldl_append]
  rfl

/-- A speaker that repeats all it said, and goes on, is heard as if it had not said it before. -/
theorem heard_append_of_prefix {said before more : List (K × V)}
    (same : heard said = heard before) (repeats : before <+: more) :
    heard (said ++ more) = heard more := by
  rcases repeats with ⟨new, rfl⟩
  have again : before.foldl hear (heard before) = heard before := by
    apply foldl_hear_of_known
    intro key said
    exact (mem_keys_heard before key).mpr said
  rw [heard_append, same, List.foldl_append, again, ← heard_append]

theorem mem_of_mem_foldl {known said : List (K × V)} {entry : K × V}
    (kept : entry ∈ said.foldl hear known) : entry ∈ known ∨ entry ∈ said := by
  induction said generalizing known with
  | nil => exact Or.inl kept
  | cons head rest ih =>
    rcases ih kept with earlier | later
    · by_cases new : head.1 ∈ known.map Prod.fst
      · rw [hear_of_known new] at earlier
        exact Or.inl earlier
      · rw [hear_of_new new, List.mem_append, List.mem_singleton] at earlier
        rcases earlier with earlier | rfl
        · exact Or.inl earlier
        · exact Or.inr List.mem_cons_self
    · exact Or.inr (List.mem_cons_of_mem head later)

theorem mem_of_mem_heard {said : List (K × V)} {entry : K × V} (kept : entry ∈ heard said) :
    entry ∈ said :=
  (mem_of_mem_foldl kept).resolve_left List.not_mem_nil

/-- Where a key is only ever said with one value, that value is what was kept. -/
theorem mem_heard_of_agree {said : List (K × V)} {key : K} {value : V}
    (spoken : (key, value) ∈ said) (agree : ∀ other, (key, other) ∈ said → other = value) :
    (key, value) ∈ heard said := by
  have kept : key ∈ (heard said).map Prod.fst :=
    (mem_keys_heard said key).mpr (List.mem_map_of_mem spoken)
  rcases List.mem_map.mp kept with ⟨⟨other, found⟩, mem, rfl⟩
  rw [← agree found (mem_of_mem_heard mem)]
  exact mem

end NdnExt.Lib.FirstHeard
