import Mathlib.Data.List.Lex
import Mathlib.Data.List.Nodup
import Mathlib.Data.List.TakeWhile
import Mathlib.Order.Lattice

/-! Lists of entries that are told apart by a key, searched from the front and changed in place. -/

namespace NdnExt.Lib.Keyed

open List

variable {V K : Type} (key : V → K)

def Distinct (entries : List V) : Prop := (entries.map key).Nodup

variable [DecidableEq K]

/-- The first entry under a key. -/
def entry (entries : List V) (k : K) : Option V := entries.find? fun v => key v == k

/-- Where it stands. -/
def position (entries : List V) (k : K) : Option Nat := entries.findIdx? fun v => key v == k

variable {key} {entries : List V} {k : K} {v : V} {i : Nat}

theorem key_entry (found : entry key entries k = some v) : key v = k := by
  simpa using List.find?_some found

theorem mem_of_entry (found : entry key entries k = some v) : v ∈ entries :=
  mem_of_find?_eq_some found

@[simp] theorem entry_nil (k : K) : entry key [] k = none := rfl

@[simp] theorem entry_cons (v : V) (entries : List V) (k : K) :
    entry key (v :: entries) k = if key v = k then some v else entry key entries k := by
  by_cases same : key v = k <;> simp [entry, same]

theorem entry_eq_none : entry key entries k = none ↔ k ∉ entries.map key := by
  simp [entry]

theorem entry_append (entries more : List V) (k : K) :
    entry key (entries ++ more) k = (entry key entries k).or (entry key more k) :=
  List.find?_append

theorem distinct_cons : Distinct key (v :: entries) ↔
    entry key entries (key v) = none ∧ Distinct key entries := by
  rw [Distinct, map_cons, nodup_cons, ← entry_eq_none, Distinct]

/-- In a distinct list every entry is the one that is found. -/
theorem entry_of_mem (distinct : Distinct key entries) (mem : v ∈ entries) :
    entry key entries (key v) = some v := by
  induction entries with
  | nil => cases mem
  | cons head rest ih =>
    rw [distinct_cons] at distinct
    rw [entry_cons]
    rcases mem_cons.mp mem with rfl | later
    · exact if_pos rfl
    · have other : key head ≠ key v := by
        intro same
        have missing := distinct.1
        rw [same, ih distinct.2 later] at missing
        cases missing
      rw [if_neg other, ih distinct.2 later]

theorem entry_of_position (found : position key entries k = some i) :
    ∃ v, entries[i]? = some v ∧ entry key entries k = some v := by
  rw [position, List.findIdx?_eq_some_iff_getElem] at found
  rcases found with ⟨bound, same, before⟩
  refine ⟨entries[i], List.getElem?_eq_getElem bound, ?_⟩
  rw [entry, List.find?_eq_some_iff_getElem]
  exact ⟨same, i, bound, rfl, fun j earlier => by simpa using before j earlier⟩

theorem entry_of_no_position (none : position key entries k = none) :
    entry key entries k = .none := by
  rw [position, List.findIdx?_eq_none_iff] at none
  rw [entry, List.find?_eq_none]
  intro v mem
  simpa using none v mem

/-- In a distinct list every entry stands where its key is found. -/
theorem position_of_getElem? (distinct : Distinct key entries) (stands : entries[i]? = some v) :
    position key entries (key v) = some i := by
  induction entries generalizing i with
  | nil => cases stands
  | cons head rest ih =>
    rw [distinct_cons] at distinct
    rw [position, List.findIdx?_cons]
    cases i with
    | zero =>
      cases stands
      simp
    | succ j =>
      have later : rest[j]? = some v := stands
      have known := ih distinct.2 later
      have other : key head ≠ key v := by
        intro same
        have missing := distinct.1
        rw [same, entry_of_mem distinct.2 (mem_of_getElem? later)] at missing
        cases missing
      rw [position] at known
      simp [other, known]

/-! ### Changes to one entry -/

/-- After a change that concerns the one key. -/
structure Updated (key : V → K) (before after : List V) (k : K) (value : Option V) : Prop where
  distinct : Distinct key after
  lookup : ∀ other, entry key after other = if other = k then value else entry key before other

theorem Updated.refl (distinct : Distinct key entries) (k : K) :
    Updated key entries entries k (entry key entries k) := by
  refine ⟨distinct, ?_⟩
  intro other
  by_cases same : other = k
  · rw [if_pos same, same]
  · rw [if_neg same]

theorem Updated.mem_keys {before after : List V} (updated : Updated key before after k (some v))
    (other : K) : other ∈ after.map key ↔ other = k ∨ other ∈ before.map key := by
  have missing := updated.lookup other
  rw [← not_iff_not, not_or, ← entry_eq_none, ← entry_eq_none, missing]
  by_cases same : other = k
  · simp [same]
  · simp [same]

section

variable (distinct : Distinct key entries)
include distinct

theorem updated_append (new : entry key entries (key v) = none) :
    Updated key entries (entries ++ [v]) (key v) (some v) := by
  refine ⟨?_, ?_⟩
  · have single : Distinct key [v] := nodup_singleton _
    rw [Distinct, map_append, nodup_append']
    refine ⟨distinct, single, ?_⟩
    intro k known found
    have same : k = key v := by simpa using found
    exact entry_eq_none.mp new (same ▸ known)
  · intro other
    rw [entry_append, entry_cons, entry_nil]
    by_cases same : other = key v
    · subst same
      simp [new]
    · rw [if_neg (Ne.symm same), if_neg same]
      exact Option.or_none

/-- The entry at its position is replaced by one with the same key. -/
theorem updated_set (found : position key entries k = some i)
    (same : key v = k) : Updated key entries (entries.set i v) k (some v) := by
  subst same
  induction entries generalizing i with
  | nil => cases found
  | cons head rest ih =>
    rw [distinct_cons] at distinct
    rw [position, List.findIdx?_cons] at found
    by_cases first : key head = key v
    · have front : i = 0 := by simpa [first] using found.symm
      subst front
      refine ⟨?_, ?_⟩
      · rw [set_cons_zero, distinct_cons, ← first]
        exact distinct
      · intro other
        rw [set_cons_zero, entry_cons, entry_cons, first]
        by_cases here : key v = other
        · rw [if_pos here, if_pos here.symm]
        · rw [if_neg here, if_neg (Ne.symm here), if_neg here]
    · have later : (List.findIdx? (fun entry => key entry == key v) rest).map (· + 1) =
          some i := by
        simpa [first] using found
      rcases Option.map_eq_some_iff.mp later with ⟨j, position', rfl⟩
      have updated := ih distinct.2 position'
      refine ⟨?_, ?_⟩
      · rw [set_cons_succ, distinct_cons]
        refine ⟨?_, updated.distinct⟩
        rw [updated.lookup, if_neg first]
        exact distinct.1
      · intro other
        rw [set_cons_succ, entry_cons, entry_cons, updated.lookup]
        by_cases here : key head = other
        · rw [if_pos here, if_pos here, if_neg (here ▸ first)]
        · rw [if_neg here, if_neg here]

theorem updated_modify
    (found : position key entries k = some i) (change : V → V)
    (same : ∀ v, key (change v) = key v) :
    Updated key entries (entries.modify i change) k ((entry key entries k).map change) := by
  rcases entry_of_position found with ⟨v, at', is⟩
  rcases List.getElem?_eq_some_iff.mp at' with ⟨bound, value⟩
  have replaced : entries.modify i change = entries.set i (change v) := by
    apply ext_getElem?
    intro j
    rw [List.getElem?_modify, List.getElem?_set]
    by_cases here : i = j
    · subst here
      simp [bound, value]
    · simp [here]
  rw [is, Option.map_some, replaced]
  exact updated_set distinct found (by rw [same, key_entry is])

theorem updated_eraseIdx
    (found : position key entries k = some i) :
    Updated key entries (entries.eraseIdx i) k none := by
  induction entries generalizing i with
  | nil => cases found
  | cons head rest ih =>
    rw [distinct_cons] at distinct
    rw [position, List.findIdx?_cons] at found
    by_cases first : key head = k
    · have front : i = 0 := by simpa [first] using found.symm
      subst front
      refine ⟨distinct.2, ?_⟩
      intro other
      rw [eraseIdx_cons_zero, entry_cons]
      by_cases here : key head = other
      · have gone : other = k := here.symm.trans first
        rw [if_pos gone, ← here, distinct.1]
      · rw [if_neg here, if_neg (fun same => here (first.trans same.symm))]
    · have later : (List.findIdx? (fun entry => key entry == k) rest).map (· + 1) =
          some i := by
        simpa [first] using found
      rcases Option.map_eq_some_iff.mp later with ⟨j, position', rfl⟩
      have updated := ih distinct.2 position'
      refine ⟨?_, ?_⟩
      · rw [eraseIdx_cons_succ, distinct_cons]
        refine ⟨?_, updated.distinct⟩
        rw [updated.lookup]
        split
        · rfl
        · exact distinct.1
      · intro other
        rw [eraseIdx_cons_succ, entry_cons, entry_cons, updated.lookup]
        by_cases here : key head = other
        · rw [if_pos here, if_pos here, if_neg (here ▸ first)]
        · rw [if_neg here, if_neg here]

/-- The entry is dropped where there is one. -/
theorem updated_drop (k : K) :
    Updated key entries
      (match position key entries k with
        | none => entries
        | some i => entries.eraseIdx i) k none := by
  cases found : position key entries k with
  | none =>
    have none := entry_of_no_position found
    have same := Updated.refl distinct k
    rwa [none] at same
  | some i => exact updated_eraseIdx distinct found

end

/-! ### Changes to all entries -/

omit [DecidableEq K] in
theorem distinct_map {change : V → V} (same : ∀ v ∈ entries, key (change v) = key v)
    (distinct : Distinct key entries) : Distinct key (entries.map change) := by
  have keys : (entries.map change).map key = entries.map key := by
    rw [map_map]
    exact map_congr_left same
  rw [Distinct, keys]
  exact distinct

theorem entry_map {change : V → V} (same : ∀ v ∈ entries, key (change v) = key v) (k : K) :
    entry key (entries.map change) k = (entry key entries k).map change := by
  induction entries with
  | nil => rfl
  | cons head rest ih =>
    rw [forall_mem_cons] at same
    rw [map_cons, entry_cons, entry_cons, same.1, ih same.2]
    split <;> rfl

/-- Entries are kept or dropped by their key. -/
theorem entry_filter_key (keep : K → Bool) (entries : List V) (k : K) :
    entry key (entries.filter fun v => keep (key v)) k =
      if keep k then entry key entries k else none := by
  induction entries with
  | nil => exact (ite_self _).symm
  | cons head rest ih =>
    rw [filter_cons]
    by_cases same : key head = k
    · subst same
      split
      · rw [entry_cons, entry_cons, if_pos rfl, if_pos rfl]
      · next dropped => rw [ih, if_neg dropped]
    · split
      · rw [entry_cons, entry_cons, if_neg same, if_neg same, ih]
      · rw [entry_cons, if_neg same, ih]

omit [DecidableEq K] in
theorem distinct_filter (keep : V → Bool) (distinct : Distinct key entries) :
    Distinct key (entries.filter keep) :=
  distinct.sublist (filter_sublist.map key)

/-! ### Entries in the order of their keys -/

section Ordered

variable {K V : Type} [LinearOrder K]

def Ordered (entries : List (K × V)) : Prop := (entries.map Prod.fst).Pairwise (· < ·)

/-- The value under a key is changed, or a new one put in its place. -/
def enter (entries : List (K × V)) (k : K) (change : Option V → V) : List (K × V) :=
  match entries with
  | [] => [(k, change none)]
  | (head, v) :: rest =>
    if k < head then (k, change none) :: (head, v) :: rest
    else if k = head then (head, change (some v)) :: rest
    else (head, v) :: enter rest k change

variable {entries : List (K × V)} {k : K} {change : Option V → V}

/-- The value under a key. -/
def valueAt : List (K × V) → K → Option V
  | [], _ => none
  | (head, v) :: rest, k => if k = head then some v else valueAt rest k

@[simp] theorem valueAt_nil (k : K) : valueAt ([] : List (K × V)) k = none := rfl

theorem valueAt_cons (head : K) (v : V) (rest : List (K × V)) (k : K) :
    valueAt ((head, v) :: rest) k = if k = head then some v else valueAt rest k := rfl

theorem valueAt_eq_none : valueAt entries k = none ↔ k ∉ entries.map Prod.fst := by
  induction entries with
  | nil => exact iff_of_true rfl (not_mem_nil)
  | cons entry rest ih =>
    rcases entry with ⟨head, v⟩
    rw [valueAt_cons, map_cons, mem_cons, not_or, ← ih]
    by_cases same : k = head
    · rw [if_pos same]
      exact iff_of_false (Option.some_ne_none v) fun missing => missing.1 same
    · rw [if_neg same]
      exact (and_iff_right same).symm

theorem ordered_cons {head : K} {v : V} : Ordered ((head, v) :: entries) ↔
    (∀ k ∈ entries.map Prod.fst, head < k) ∧ Ordered entries := by
  rw [Ordered, map_cons, pairwise_cons, Ordered]

theorem Ordered.nodup (ordered : Ordered entries) : (entries.map Prod.fst).Nodup :=
  ordered.imp ne_of_lt

theorem mem_keys_enter {k' : K} :
    k' ∈ (enter entries k change).map Prod.fst ↔ k' = k ∨ k' ∈ entries.map Prod.fst := by
  induction entries with
  | nil => exact mem_cons
  | cons entry rest ih =>
    rcases entry with ⟨head, v⟩
    rw [enter]
    split
    · rw [map_cons, mem_cons]
    · split
      · next same =>
        rw [map_cons, map_cons, mem_cons, same]
        exact ⟨Or.inr, fun among => among.elim Or.inl id⟩
      · rw [map_cons, map_cons, mem_cons, mem_cons, ih]
        exact or_left_comm

theorem ordered_enter (ordered : Ordered entries) : Ordered (enter entries k change) := by
  induction entries with
  | nil => exact pairwise_singleton _ _
  | cons entry rest ih =>
    rcases entry with ⟨head, v⟩
    rcases ordered_cons.mp ordered with ⟨above, later⟩
    rw [enter]
    split
    · next before =>
      refine ordered_cons.mpr ⟨?_, ordered⟩
      intro k' among
      rcases mem_cons.mp among with rfl | further
      · exact before
      · exact before.trans (above k' further)
    · split
      · exact ordered_cons.mpr ⟨above, later⟩
      · next notBefore other =>
        refine ordered_cons.mpr ⟨?_, ih later⟩
        intro k' among
        rcases mem_keys_enter.mp among with rfl | further
        · exact lt_of_le_of_ne (not_lt.mp notBefore) (Ne.symm other)
        · exact above k' further

theorem valueAt_enter (ordered : Ordered entries) (k' : K) :
    valueAt (enter entries k change) k' =
      if k' = k then some (change (valueAt entries k)) else valueAt entries k' := by
  induction entries with
  | nil => rw [enter, valueAt_cons, valueAt_nil, valueAt_nil]
  | cons entry rest ih =>
    rcases entry with ⟨head, v⟩
    rcases ordered_cons.mp ordered with ⟨above, later⟩
    rw [enter]
    split
    · next before =>
      have missing : valueAt ((head, v) :: rest) k = none := by
        rw [valueAt_eq_none]
        intro among
        rcases mem_cons.mp among with same | further
        · exact before.ne same
        · exact (before.trans (above k further)).false
      rw [valueAt_cons, missing]
    · split
      · next same =>
        subst same
        rw [valueAt_cons, valueAt_cons, valueAt_cons, if_pos rfl]
        split <;> rfl
      · next other =>
        rw [valueAt_cons, valueAt_cons, valueAt_cons, ih later, if_neg other]
        by_cases found : k' = head
        · have apart : k' ≠ k := fun same => other (same.symm.trans found)
          rw [if_pos found, if_neg apart, if_pos found]
        · rw [if_neg found, if_neg found]

theorem mem_of_valueAt {v : V} (found : valueAt entries k = some v) : (k, v) ∈ entries := by
  induction entries with
  | nil => cases found
  | cons entry rest ih =>
    rcases entry with ⟨head, first⟩
    rw [valueAt_cons] at found
    split at found
    · next same =>
      cases found
      rw [same]
      exact mem_cons_self
    · exact mem_cons_of_mem _ (ih found)

theorem valueAt_of_mem (ordered : Ordered entries) {v : V} (among : (k, v) ∈ entries) :
    valueAt entries k = some v := by
  induction entries with
  | nil => cases among
  | cons entry rest ih =>
    rcases entry with ⟨head, first⟩
    rcases ordered_cons.mp ordered with ⟨above, later⟩
    rw [valueAt_cons]
    rcases mem_cons.mp among with same | further
    · cases same
      exact if_pos rfl
    · have before := above k (mem_map_of_mem further)
      rw [if_neg before.ne', ih later further]

theorem forall_mem_enter {holds : K × V → Prop} (ordered : Ordered entries)
    (kept : ∀ entry ∈ entries, holds entry) (entered : holds (k, change (valueAt entries k))) :
    ∀ entry ∈ enter entries k change, holds entry := by
  rintro ⟨k', v⟩ among
  have found := valueAt_of_mem (ordered_enter ordered) among
  rw [valueAt_enter ordered] at found
  split at found
  · next same =>
    cases same
    cases found
    exact entered
  · exact kept _ (mem_of_valueAt found)

theorem valueAt_map_values (change : K → V → V) (entries : List (K × V)) (k : K) :
    valueAt (entries.map fun entry => (entry.1, change entry.1 entry.2)) k =
      (valueAt entries k).map (change k) := by
  induction entries with
  | nil => rfl
  | cons entry rest ih =>
    rcases entry with ⟨head, v⟩
    rw [map_cons, valueAt_cons, valueAt_cons, ih]
    split
    · next same =>
      rw [same]
      rfl
    · rfl

omit [LinearOrder K] in
theorem keys_map_values (change : K → V → V) (entries : List (K × V)) :
    (entries.map fun entry => (entry.1, change entry.1 entry.2)).map Prod.fst =
      entries.map Prod.fst := by
  rw [map_map]
  rfl

/-- The keys that satisfy `holds` are an interval that `k` is the least of. -/
structure IsRange (k : K) (holds : K → Bool) : Prop where
  above : ∀ {k'}, holds k' = true → k ≤ k'
  convex : ∀ {k₁ k₂}, k ≤ k₁ → k₁ < k₂ → holds k₂ = true → holds k₁ = true

/-- From the first key of a range on. -/
def fromKey (entries : List (K × V)) (k : K) : List (K × V) :=
  entries.dropWhile fun entry => entry.1 < k

/-- A scan from the first key of a range to its end. -/
def scan (entries : List (K × V)) (k : K) (holds : K → Bool) : List (K × V) :=
  (fromKey entries k).takeWhile fun entry => holds entry.1

/-- The entries that a scan visits are changed. -/
def changeScanned (entries : List (K × V)) (k : K) (holds : K → Bool) (change : V → V) :
    List (K × V) :=
  (entries.takeWhile fun entry => entry.1 < k) ++
    ((scan entries k holds).map fun entry => (entry.1, change entry.2)) ++
      (fromKey entries k).dropWhile fun entry => holds entry.1

section Range

variable {holds : K → Bool}

theorem scan_split (entries : List (K × V)) (k : K) (holds : K → Bool) :
    entries = (entries.takeWhile fun entry => entry.1 < k) ++ scan entries k holds ++
      (fromKey entries k).dropWhile fun entry => holds entry.1 := by
  rw [append_assoc, scan, takeWhile_append_dropWhile, fromKey,
    takeWhile_append_dropWhile]

theorem ordered_fromKey (ordered : Ordered entries) : Ordered (fromKey entries k) :=
  List.Pairwise.sublist ((dropWhile_sublist _).map _) ordered

theorem le_of_mem_fromKey (ordered : Ordered entries) {entry : K × V}
    (among : entry ∈ fromKey entries k) : k ≤ entry.1 := by
  induction entries with
  | nil => cases among
  | cons head rest ih =>
    rcases ordered_cons.mp ordered with ⟨above, later⟩
    rw [fromKey, dropWhile_cons] at among
    split at among
    · exact ih later among
    · next notBelow =>
      rw [decide_eq_true_eq, not_lt] at notBelow
      rcases mem_cons.mp among with rfl | further
      · exact notBelow
      · exact notBelow.trans (above _ (mem_map_of_mem further)).le

theorem not_holds_before (range : IsRange k holds) {entry : K × V}
    (among : entry ∈ entries.takeWhile fun entry => entry.1 < k) : ¬ holds entry.1 := by
  have below := mem_takeWhile_imp among
  rw [decide_eq_true_eq] at below
  intro held
  exact absurd below (not_lt.mpr (range.above held))

theorem holds_of_mem_scan {entry : K × V} (among : entry ∈ scan entries k holds) :
    holds entry.1 :=
  @List.mem_takeWhile_imp _ (fun entry : K × V => holds entry.1) _ _ among

section

variable (range : IsRange k holds) (ordered : Ordered entries)
include range ordered

/-- Behind the first key that is not in the range there is no key of the range. -/
theorem not_holds_after
    (above : ∀ entry ∈ entries, k ≤ entry.1) {entry : K × V}
    (among : entry ∈ entries.dropWhile fun entry => holds entry.1) : ¬ holds entry.1 := by
  induction entries with
  | nil => cases among
  | cons head rest ih =>
    rcases ordered_cons.mp ordered with ⟨least, later⟩
    rw [dropWhile_cons] at among
    split at among
    · exact ih later (fun entry further => above entry (mem_cons_of_mem _ further)) among
    · next outside =>
      rcases mem_cons.mp among with rfl | further
      · exact outside
      · intro held
        have first := above head mem_cons_self
        exact outside (range.convex first (least _ (mem_map_of_mem further)) held)

theorem not_holds_rest {entry : K × V}
    (among : entry ∈ (fromKey entries k).dropWhile fun entry => holds entry.1) :
    ¬ holds entry.1 :=
  not_holds_after range (ordered_fromKey ordered) (fun _ => le_of_mem_fromKey ordered) among

/-- A scan visits the entries of the range. -/
theorem scan_eq_filter :
    scan entries k holds = entries.filter fun entry => holds entry.1 := by
  conv_rhs => rw [scan_split entries k holds]
  rw [filter_append, filter_append, filter_eq_self.mpr fun _ => holds_of_mem_scan,
    filter_eq_nil_iff.mpr fun _ => not_holds_before range,
    filter_eq_nil_iff.mpr fun _ => not_holds_rest range ordered, nil_append,
    append_nil]

theorem changeScanned_eq (change : V → V) :
    changeScanned entries k holds change =
      entries.map fun entry => (entry.1, if holds entry.1 then change entry.2 else entry.2) := by
  have unchanged : ∀ part : List (K × V), (∀ entry ∈ part, ¬ holds entry.1) →
      (part.map fun entry => (entry.1, if holds entry.1 then change entry.2 else entry.2)) =
        part := by
    intro part outside
    calc
      _ = part.map id := by
        apply map_congr_left
        intro entry among
        rw [if_neg (outside entry among)]
        rfl
      _ = part := map_id part
  conv_rhs => rw [scan_split entries k holds]
  rw [map_append, map_append, unchanged _ fun _ => not_holds_before range,
    unchanged _ fun _ => not_holds_rest range ordered, changeScanned]
  congr 2
  apply map_congr_left
  intro entry among
  rw [if_pos (holds_of_mem_scan among)]

theorem ordered_changeScanned
    (change : V → V) : Ordered (changeScanned entries k holds change) := by
  have keys := keys_map_values (fun k v => if holds k then change v else v) entries
  rw [changeScanned_eq range ordered, Ordered, keys]
  exact ordered

theorem valueAt_changeScanned
    (change : V → V) (k' : K) : valueAt (changeScanned entries k holds change) k' =
      (valueAt entries k').map fun v => if holds k' then change v else v := by
  rw [changeScanned_eq range ordered,
    valueAt_map_values (fun k v => if holds k then change v else v)]

end

theorem forall_mem_changeScanned {satisfies : V → Prop} {change : V → V}
    (kept : ∀ entry ∈ entries, satisfies entry.2)
    (changed : ∀ entry ∈ entries, satisfies (change entry.2)) :
    ∀ entry ∈ changeScanned entries k holds change, satisfies entry.2 := by
  have parts := scan_split entries k holds
  intro entry among
  rcases mem_append.mp among with among | among
  · rcases mem_append.mp among with among | among
    · refine kept entry ?_
      rw [parts]
      exact mem_append_left _ (mem_append_left _ among)
    · rcases mem_map.mp among with ⟨before, visited, rfl⟩
      refine changed before ?_
      rw [parts]
      exact mem_append_left _ (mem_append_right _ visited)
  · refine kept entry ?_
    rw [parts]
    exact mem_append_right _ among

end Range

/-- In lexicographic order the lists with a prefix are a range. -/
theorem isRange_isPrefix {C : Type} [LinearOrder C] {front : List C} {starts : List C → Bool}
    (known : ∀ list, starts list = true ↔ front <+: list) : IsRange front starts := by
  constructor
  · intro list starts
    rw [known] at starts
    rcases starts with ⟨rest, rfl⟩
    rw [← not_lt]
    intro before
    clear known
    induction front with
    | nil => exact not_lt_nil _ before
    | cons c front ih =>
      rcases cons_lt_cons_iff.mp before with first | ⟨_, later⟩
      · exact lt_irrefl c first
      · exact ih later
  · intro list further above before starts
    rw [known] at starts ⊢
    rw [← not_lt] at above
    clear known
    induction front generalizing list further with
    | nil => exact nil_prefix
    | cons c front ih =>
      rcases starts with ⟨rest, rfl⟩
      cases list with
      | nil => exact absurd (nil_lt_cons c front) above
      | cons d list =>
        rcases cons_lt_cons_iff.mp before with first | ⟨rfl, later⟩
        · exact absurd (cons_lt_cons_iff.mpr (Or.inl first)) above
        · have notEarlier : ¬ list < front := by
            intro earlier
            exact above (cons_lt_cons_iff.mpr (Or.inr ⟨rfl, earlier⟩))
          exact cons_prefix_cons.mpr ⟨rfl, ih notEarlier later (prefix_append _ _)⟩

end Ordered

end NdnExt.Lib.Keyed
