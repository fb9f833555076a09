import Mathlib.Data.List.Basic
import NdnExt.Lib.Outcome

/-! Records that are read from a list of typed fields, in whatever order these stand. -/

namespace NdnExt.Lib.Fields

variable {V A E S F : Type}

/-- What a record holds for a type after the fields in `done`. -/
def pick (done : List (Nat × V)) (typ : Nat) (value absent : A) : A :=
  if typ ∈ done.map Prod.fst then value else absent

@[simp] theorem pick_nil (typ : Nat) (value absent : A) :
    pick ([] : List (Nat × V)) typ value absent = absent :=
  if_neg List.not_mem_nil

@[simp] theorem pick_snoc (done : List (Nat × V)) (typed : Nat × V) (typ : Nat)
    (value absent : A) : pick (done ++ [typed]) typ value absent =
      if typed.1 = typ then value else pick done typ value absent := by
  have either : typ ∈ (done ++ [typed]).map Prod.fst ↔
      typ ∈ done.map Prod.fst ∨ typ = typed.1 := by
    rw [List.map_append, List.mem_append, List.map_singleton, List.mem_singleton]
  unfold pick
  by_cases same : typed.1 = typ
  · rw [if_pos same, if_pos (either.mpr (Or.inr same.symm))]
  · rw [if_neg same]
    exact if_congr (either.trans (or_iff_left (Ne.symm same))) rfl rfl

theorem pick_of_mem {done : List (Nat × V)} {typ : Nat} {raw : V} (value absent : A)
    (member : (typ, raw) ∈ done) : pick done typ value absent = value :=
  if_pos (List.mem_map_of_mem member)

@[simp] theorem pick_self (done : List (Nat × V)) (typ : Nat) (value : A) :
    pick done typ value value = value :=
  ite_self _

/-- Where every field moves the record on from what the fields before it have made, all of them
lead to what they make together. -/
theorem foldlM_of_steps {field : S → F → Outcome E S} {reached : List F → S}
    {admits : F → Prop}
    (step : ∀ done typed, admits typed →
      field (reached done) typed = .ok (reached (done ++ [typed])))
    {fields : List F} (all : ∀ typed ∈ fields, admits typed) :
    fields.foldlM field (reached []) = .ok (reached fields) := by
  have onward : ∀ (more done : List F), (∀ typed ∈ more, admits typed) →
      more.foldlM field (reached done) = .ok (reached (done ++ more)) := by
    intro more
    induction more with
    | nil =>
      intro done _
      rw [List.append_nil]
      rfl
    | cons typed rest ih =>
      intro done each
      rw [List.forall_mem_cons] at each
      rw [List.foldlM_cons, step done typed each.1, Outcome.ok_bind, ih _ each.2,
        List.append_assoc]
      rfl
  exact onward fields [] all

/-- The fields in another order, with ones of other types among them. -/
def Rearranged (known : List Nat) (fields others : List (Nat × V)) : Prop :=
  (others.filter fun typed => typed.1 ∈ known).Perm fields

variable {known : List Nat} {fields others : List (Nat × V)} {typed : Nat × V}

theorem rearranged_refl (own : ∀ typed ∈ fields, typed.1 ∈ known) :
    Rearranged known fields fields := by
  rw [Rearranged, List.filter_eq_self.mpr (fun typed member => decide_eq_true (own typed member))]

theorem Rearranged.kept (rearranged : Rearranged known fields others) (member : typed ∈ fields) :
    typed ∈ others :=
  (List.mem_filter.mp (rearranged.mem_iff.mpr member)).1

theorem Rearranged.origin (rearranged : Rearranged known fields others) (member : typed ∈ others) :
    typed ∈ fields ∨ typed.1 ∉ known := by
  by_cases own : typed.1 ∈ known
  · exact Or.inl (rearranged.mem_iff.mp (List.mem_filter.mpr ⟨member, decide_eq_true own⟩))
  · exact Or.inr own

end NdnExt.Lib.Fields
