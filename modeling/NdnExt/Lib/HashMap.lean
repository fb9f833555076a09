import Mathlib.Data.List.AList
import Mathlib.Data.List.Induction

/-! Hash maps as association lists with distinct keys. The list order stands for
the unspecified iteration order, so a result about `pairs` is only usable when it
does not depend on that order. -/

namespace NdnExt.Lib

abbrev HashMap (K V : Type) := AList (fun _ : K => V)

namespace HashMap

variable {K V W : Type}

def pairs (m : HashMap K V) : List (K × V) :=
  m.entries.map (fun entry => (entry.1, entry.2))

/-- Rust's `values_mut` loop: every value is replaced, no key is. -/
def mapValues (f : K → V → W) (m : HashMap K V) : HashMap K W :=
  ⟨m.entries.map (fun entry => ⟨entry.1, f entry.1 entry.2⟩),
    m.nodupKeys.map₂ f _⟩

def retain (keep : K → V → Bool) (m : HashMap K V) : HashMap K V :=
  ⟨m.entries.filter (fun entry => keep entry.1 entry.2),
    List.NodupKeys.sublist List.filter_sublist m.nodupKeys⟩

variable [DecidableEq K]

/-- Rust's `collect`: a later pair replaces an earlier one with the same key. -/
def ofPairs (items : List (K × V)) : HashMap K V :=
  items.foldl (fun m item => m.insert item.1 item.2) ∅

theorem lookup_insert_eq (m : HashMap K V) (key other : K) (value : V) :
    (m.insert key value).lookup other = if other = key then some value else m.lookup other := by
  by_cases same : other = key
  · subst same
    simp
  · rw [AList.lookup_insert_ne same, if_neg same]

theorem lookup_erase_eq (m : HashMap K V) (key other : K) :
    (m.erase key).lookup other = if other = key then none else m.lookup other := by
  by_cases same : other = key
  · subst same
    simp
  · rw [AList.lookup_erase_ne same, if_neg same]

theorem lookup_erase_eq_some {m : HashMap K V} {key other : K} {value : V} :
    (m.erase key).lookup other = some value ↔ other ≠ key ∧ m.lookup other = some value := by
  rw [lookup_erase_eq]
  split
  · rename_i same
    exact iff_of_false nofun (fun both => both.1 same)
  · rename_i different
    exact (and_iff_right different).symm

theorem length_insert_le (m : HashMap K V) (key : K) (value : V) :
    (m.insert key value).entries.length ≤ m.entries.length + 1 :=
  Nat.succ_le_succ List.length_eraseP_le

/-- A value that replaces another one. -/
theorem length_insert_of_lookup (m : HashMap K V) {key : K} {value other : V}
    (held : m.lookup key = some value) :
    (m.insert key other).entries.length = m.entries.length := by
  have among : (⟨key, value⟩ : Sigma fun _ : K => V) ∈ m.entries := AList.mem_lookup_iff.mp held
  have shorter : (m.erase key).entries.length = m.entries.length - 1 :=
    List.length_eraseP_of_mem among (decide_eq_true rfl)
  have positive := List.length_pos_of_mem among
  change (m.erase key).entries.length + 1 = m.entries.length
  omega

theorem length_erase_le (m : HashMap K V) (key : K) :
    (m.erase key).entries.length ≤ m.entries.length :=
  List.length_eraseP_le

theorem mem_pairs {m : HashMap K V} {key : K} {value : V} :
    (key, value) ∈ m.pairs ↔ m.lookup key = some value := by
  have found : ⟨key, value⟩ ∈ m.entries ↔ m.lookup key = some value := by
    rw [← AList.mem_lookup_iff]
    rfl
  rw [← found]
  constructor
  · intro member
    obtain ⟨entry, inside, same⟩ := List.mem_map.mp member
    cases same
    exact inside
  · intro member
    exact List.mem_map.mpr ⟨_, member, rfl⟩

theorem mem_iff_lookup {m : HashMap K V} {key : K} :
    key ∈ m ↔ ∃ value, m.lookup key = some value := by
  rw [← AList.lookup_isSome, Option.isSome_iff_exists]

omit [DecidableEq K] in
omit [DecidableEq K] in
theorem pairs_keys (m : HashMap K V) : m.pairs.map Prod.fst = m.keys := by
  simp [pairs, AList.keys, List.keys, Function.comp_def]

omit [DecidableEq K] in
theorem pairs_keys_nodup (m : HashMap K V) : (m.pairs.map Prod.fst).Nodup := by
  rw [pairs_keys]
  exact m.keys_nodup

omit [DecidableEq K] in
/-- What is made of some entries, each under the key of its entry, has distinct keys. -/
theorem filterMap_keys_nodup {B : Type} (m : HashMap K V) {make : K × V → Option B} {keyOf : B → K}
    (same : ∀ item made, make item = some made → keyOf made = item.1) :
    ((m.pairs.filterMap make).map keyOf).Nodup := by
  have sublist : ∀ items : List (K × V),
      ((items.filterMap make).map keyOf).Sublist (items.map Prod.fst) := by
    intro items
    induction items with
    | nil => exact List.Sublist.refl _
    | cons item rest ih =>
      cases made : make item with
      | none =>
        rw [List.filterMap_cons_none made, List.map_cons]
        exact ih.cons _
      | some b =>
        rw [List.filterMap_cons_some made, List.map_cons, List.map_cons, same item b made]
        exact ih.cons_cons _
  exact (sublist m.pairs).nodup m.pairs_keys_nodup

omit [DecidableEq K] in
theorem pairs_nodup (m : HashMap K V) : m.pairs.Nodup :=
  List.Nodup.of_map Prod.fst m.pairs_keys_nodup

@[simp] theorem lookup_mapValues (f : K → V → W) (m : HashMap K V) (key : K) :
    (m.mapValues f).lookup key = (m.lookup key).map (f key) :=
  List.dlookup_map₂ key

omit [DecidableEq K] in
@[simp] theorem pairs_mapValues (f : K → V → W) (m : HashMap K V) :
    (m.mapValues f).pairs = m.pairs.map (fun item => (item.1, f item.1 item.2)) := by
  simp [pairs, mapValues, Function.comp_def]

omit [DecidableEq K] in
@[simp] theorem pairs_retain (keep : K → V → Bool) (m : HashMap K V) :
    (m.retain keep).pairs = m.pairs.filter (fun item => keep item.1 item.2) := by
  simp [pairs, retain, List.filter_map, Function.comp_def]

@[simp] theorem lookup_retain (keep : K → V → Bool) (m : HashMap K V) (key : K) :
    (m.retain keep).lookup key = (m.lookup key).filter (keep key) := by
  apply Option.ext
  intro value
  rw [← mem_pairs, pairs_retain, List.mem_filter, mem_pairs]
  simp [Option.filter_eq_some_iff]

/-- Keeping by the key alone. -/
theorem lookup_retain_key (keep : K → Bool) (m : HashMap K V) (key : K) :
    (m.retain (fun other _ => keep other)).lookup key = if keep key then m.lookup key else none := by
  rw [lookup_retain]
  cases m.lookup key with
  | none => rw [Option.filter_none, ite_self]
  | some value => exact Option.filter_some

theorem mem_retain_key (keep : K → Bool) (m : HashMap K V) (key : K) :
    key ∈ m.retain (fun other _ => keep other) ↔ key ∈ m ∧ keep key := by
  rw [← AList.lookup_isSome, lookup_retain_key, ← AList.lookup_isSome]
  cases keep key <;> simp

/-- Two maps with the same lookups iterate over the same pairs, in some order. -/
theorem pairs_perm (left right : HashMap K V)
    (same : ∀ key, left.lookup key = right.lookup key) : left.pairs.Perm right.pairs := by
  rw [List.perm_ext_iff_of_nodup left.pairs_nodup right.pairs_nodup]
  intro ⟨key, value⟩
  rw [mem_pairs, mem_pairs, same key]

theorem lookup_foldl_insert (items : List (K × V)) (distinct : (items.map Prod.fst).Nodup)
    (m : HashMap K V) (key : K) :
    (items.foldl (fun m item => m.insert item.1 item.2) m).lookup key =
      ((items.find? (fun item => item.1 = key)).map Prod.snd).or (m.lookup key) := by
  induction items generalizing m with
  | nil => simp
  | cons head tail ih =>
    simp only [List.map_cons, List.nodup_cons] at distinct
    rw [List.foldl_cons, ih distinct.2, lookup_insert_eq]
    by_cases same : head.1 = key
    · have absent : tail.find? (fun item => item.1 = key) = none := by
        rw [List.find?_eq_none]
        intro item member
        simp only [decide_eq_true_eq]
        intro found
        exact distinct.1 (List.mem_map.mpr ⟨item, member, found.trans same.symm⟩)
      simp [absent, same]
    · have other : ¬ key = head.1 := fun found => same found.symm
      simp [same, other]

/-- The last pair under a key stays. -/
theorem lookup_foldl_insert_last {key : K} {value : V} {earlier later : List (K × V)}
    (last : key ∉ later.map Prod.fst) (m : HashMap K V) :
    ((earlier ++ (key, value) :: later).foldl (fun m item => m.insert item.1 item.2) m).lookup key =
      some value := by
  rw [List.foldl_append, List.foldl_cons]
  generalize earlier.foldl (fun m item => m.insert item.1 item.2) m = before
  induction later using List.reverseRecOn with
  | nil => exact (lookup_insert_eq _ _ _ _).trans (if_pos rfl)
  | append_singleton later item ih =>
    rw [List.map_append, List.mem_append, not_or] at last
    have other : key ≠ item.1 := by
      intro same
      exact last.2 (List.mem_singleton.mpr same)
    rw [List.foldl_append, List.foldl_cons, List.foldl_nil, lookup_insert_eq, if_neg other]
    exact ih last.1

theorem lookup_ofPairs {items : List (K × V)} (distinct : (items.map Prod.fst).Nodup)
    {key : K} {value : V} :
    (ofPairs items).lookup key = some value ↔ (key, value) ∈ items := by
  rw [ofPairs, lookup_foldl_insert items distinct]
  simp only [AList.lookup_empty, Option.or_none, Option.map_eq_some_iff]
  constructor
  · rintro ⟨item, found, rfl⟩
    have same := List.find?_some found
    simp only [decide_eq_true_eq] at same
    subst same
    exact List.mem_of_find?_eq_some found
  · intro member
    have present : (items.find? (fun item => item.1 = key)).isSome := by
      rw [List.find?_isSome]
      exact ⟨_, member, by simp⟩
    obtain ⟨item, found⟩ := Option.isSome_iff_exists.mp present
    refine ⟨item, found, ?_⟩
    have same := List.find?_some found
    simp only [decide_eq_true_eq] at same
    have equal := List.inj_on_of_nodup_map distinct (List.mem_of_find?_eq_some found) member same
    rw [equal]

/-- Of what a loop over a map collects under each key, one key's share comes from its value. -/
theorem filter_collected (m : HashMap K V) (collect : K → V → List W) (key : K) :
    (m.pairs.flatMap (fun item => (collect item.1 item.2).map (fun out => (item.1, out)))).filter
        (fun out => out.1 = key) =
      (((m.lookup key).map (collect key)).getD []).map (fun out => (key, out)) := by
  have scan : ∀ items : List (K × V), (items.map Prod.fst).Nodup →
      (items.flatMap (fun item => (collect item.1 item.2).map (fun out => (item.1, out)))).filter
          (fun out => out.1 = key) =
        (((items.find? (fun item => item.1 = key)).map (fun item => collect key item.2)).getD []).map
          (fun out => (key, out)) := by
    intro items
    induction items with
    | nil => simp
    | cons item tail ih =>
      intro distinct
      simp only [List.map_cons, List.nodup_cons] at distinct
      rw [List.flatMap_cons, List.filter_append, ih distinct.2, List.filter_map]
      by_cases same : item.1 = key
      · have absent : tail.find? (fun item => item.1 = key) = none := by
          rw [List.find?_eq_none]
          intro other member
          simp only [decide_eq_true_eq]
          intro found
          exact distinct.1 (List.mem_map.mpr ⟨other, member, found.trans same.symm⟩)
        simp [absent, same, Function.comp_def]
      · simp [same, Function.comp_def]
  rw [scan m.pairs m.pairs_keys_nodup]
  congr 2
  cases listed : m.pairs.find? (fun item => item.1 = key) with
  | none =>
    cases found : m.lookup key with
    | none => rfl
    | some value =>
      have absent := List.find?_eq_none.mp listed _ (mem_pairs.mpr found)
      simp at absent
  | some item =>
    have same : item.1 = key := by simpa using List.find?_some listed
    have found : m.lookup key = some item.2 := by
      rw [← mem_pairs, ← same]
      exact List.mem_of_find?_eq_some listed
    simp [found]

end HashMap
end NdnExt.Lib
