import NdnExt.Link.Table

/-! What each operation on the table does to one link. -/

namespace NdnExt.Link

open NdnExt.Lib

/-- The identities of a device once a registration is recorded. -/
def shownWith (old : Option LiveLink) (link : Registration) : List Identity :=
  if link.identities = [] then (old.map LiveLink.identities).getD [] else link.identities

def Refused (old : Option LiveLink) (link : Registration) (mine : Option KeyFingerprint) : Prop :=
  ∃ before ∈ old, (before.ofKind link.path.kind).any (fun p =>
    keepsExisting p.path.direction link.path.direction mine link.fingerprint) = true

/-- A link once a registration that is not refused is recorded. -/
def registered (old : Option LiveLink) (link : Registration) (generation : Nat) : LiveLink :=
  match old with
  | none => ⟨link.peer, link.identities, link.shown, link.enrolling, [⟨link.path, generation⟩]⟩
  | some before => before.joined link generation

theorem register_lookup (table : LinkTable) (link : Registration) (mine : Option KeyFingerprint) :
    Refused (table.live.lookup link.fingerprint) link mine ∧
        (table.register link mine).1.live = table.live ∧ (table.register link mine).2.2 = none ∨
      ¬Refused (table.live.lookup link.fingerprint) link mine ∧
        ∃ generation, (table.register link mine).2.2 = some generation ∧
          ∀ key, (table.register link mine).1.live.lookup key =
          if key = link.fingerprint then
            some (registered (table.live.lookup link.fingerprint) link generation)
          else table.live.lookup key := by
  unfold LinkTable.register
  dsimp only
  split
  · next unlinked =>
    refine Or.inr ⟨?_, table.generation + 1, rfl, ?_⟩
    · rintro ⟨before, was, _⟩
      rw [unlinked] at was
      cases was
    · intro key
      rw [HashMap.lookup_insert_eq, unlinked]
      rfl
  · next before linked =>
    split
    · next keeps => exact Or.inl ⟨⟨before, linked, keeps⟩, rfl, rfl⟩
    · next allows =>
      refine Or.inr ⟨?_, table.generation + 1, rfl, ?_⟩
      · rintro ⟨other, was, keeps⟩
        rw [linked] at was
        cases was
        exact allows keeps
      · intro key
        rw [HashMap.lookup_insert_eq, linked]
        rfl

@[simp] theorem registered_identities (old : Option LiveLink) (link : Registration)
    (generation : Nat) : (registered old link generation).identities = shownWith old link := by
  cases old with
  | none => by_cases empty : link.identities = [] <;> simp [registered, shownWith, empty]
  | some before => simp [registered, LiveLink.joined, shownWith]

theorem mem_shownWith {old : Option LiveLink} {link : Registration} {id : Identity}
    (shown : id ∈ shownWith old link) :
    id ∈ link.identities ∨ ∃ before, old = some before ∧ id ∈ before.identities := by
  unfold shownWith at shown
  split at shown
  · cases old with
    | none => cases shown
    | some before => exact Or.inr ⟨before, rfl, shown⟩
  · exact Or.inl shown

theorem mem_registered_paths {old : Option LiveLink} {link : Registration} {generation : Nat}
    {p : LivePath} : p ∈ (registered old link generation).paths ↔
      p = ⟨link.path, generation⟩ ∨
        ∃ before ∈ old, p ∈ before.paths ∧ p.path.kind ≠ link.path.kind := by
  cases old with
  | none => simp [registered]
  | some before => simp [registered, LiveLink.joined, or_comm]

theorem registered_enrolling (old : Option LiveLink) {link : Registration} {generation : Nat}
    (full : link.path.kind = .link) :
    (registered old link generation).enrolling = link.enrolling := by
  cases old with
  | none => rfl
  | some before => simp [registered, LiveLink.joined, full]

/-- Where the first item that a test finds stands. -/
theorem eraseP_of_find? {A : Type} {test : A → Bool} {items : List A} {found : A}
    (first : items.find? test = some found) :
    ∃ earlier later, items = earlier ++ found :: later ∧ items.eraseP test = earlier ++ later := by
  rcases List.find?_eq_some_iff_append.mp first with ⟨passes, earlier, later, split, others⟩
  have fails : ∀ item ∈ earlier, ¬test item = true := by
    intro item among
    simpa using others item among
  refine ⟨earlier, later, split, ?_⟩
  rw [split, List.eraseP_append_right _ fails, List.eraseP_cons_of_pos passes]

theorem mem_append_of_ne {A : Type} {item found : A} {earlier later : List A}
    (among : item ∈ earlier ++ found :: later) (other : item ≠ found) :
    item ∈ earlier ++ later := by
  simp only [List.mem_append, List.mem_cons] at among ⊢
  rcases among with before | same | after
  · exact Or.inl before
  · exact absurd same other
  · exact Or.inr after

/-- The link that a path's end leaves, or none with the last path. -/
def remaining (link : LiveLink) (generation : Nat) : Option LiveLink :=
  let paths := link.paths.eraseP fun p => p.generation = generation
  if paths.isEmpty then none else some { link with paths := paths }

theorem unregister_lookup (table : LinkTable) (fingerprint : KeyFingerprint) (generation : Nat) :
    (table.unregister fingerprint generation).2 = none ∧
        (table.unregister fingerprint generation).1.live = table.live ∨
      ∃ link p ended, table.live.lookup fingerprint = some link ∧
        link.paths.find? (fun p => p.generation = generation) = some p ∧
        (table.unregister fingerprint generation).2 = some ended ∧
        ended.identities = link.identities ∧
        (ended.last = true ↔ remaining link generation = none) ∧
        ∀ key, (table.unregister fingerprint generation).1.live.lookup key =
          if key = fingerprint then remaining link generation else table.live.lookup key := by
  unfold LinkTable.unregister
  split
  · exact Or.inl ⟨rfl, rfl⟩
  · next link linked =>
    split
    · exact Or.inl ⟨rfl, rfl⟩
    · next p found =>
      refine Or.inr ⟨link, p, _, linked, found, rfl, rfl, ?_, ?_⟩
      · unfold remaining
        dsimp only
        split <;> simp_all
      · intro key
        unfold remaining
        dsimp only
        split
        · exact HashMap.lookup_erase_eq _ _ _
        · exact HashMap.lookup_insert_eq _ _ _ _

/-- A link after it lost paths, identities or routes. -/
structure Shrinks (after before : LiveLink) : Prop where
  enrolling : after.enrolling = before.enrolling
  identities : after.identities.Sublist before.identities
  paths : ∀ p ∈ after.paths, ∃ q ∈ before.paths, q.path.kind = p.path.kind ∧
    q.path.handle = p.path.handle

theorem remaining_shrinks {link after : LiveLink} {generation : Nat}
    (remains : remaining link generation = some after) : Shrinks after link := by
  unfold remaining at remains
  dsimp only at remains
  split at remains
  · cases remains
  · cases remains
    exact ⟨rfl, List.Sublist.refl _, fun p among => ⟨p, List.mem_of_mem_eraseP among, rfl, rfl⟩⟩

theorem closeRevoked_lookup (table : LinkTable) (ctx : TrustContext) (key : KeyFingerprint) :
    (table.closeRevoked ctx).1.live.lookup key =
      (table.live.lookup key).map fun link => (link.revoke ctx).1 :=
  HashMap.lookup_mapValues _ _ _

theorem mem_closed {table : LinkTable} {ctx : TrustContext} {dropped : Dropped} :
    dropped ∈ (table.closeRevoked ctx).2.2 ↔
      ∃ key link, table.live.lookup key = some link ∧ (link.revoke ctx).2.2 = some dropped := by
  simp only [LinkTable.closeRevoked, List.mem_filterMap, List.mem_map, Prod.exists,
    HashMap.mem_pairs]
  constructor
  · rintro ⟨_, _, _, ⟨key, link, held, verdict⟩, reported⟩
    exact ⟨key, link, held, by rw [verdict]; exact reported⟩
  · rintro ⟨key, link, held, reported⟩
    exact ⟨_, _, _, ⟨key, link, held, Prod.mk.eta.symm⟩, reported⟩

theorem revoke_shrinks (ctx : TrustContext) (link : LiveLink) :
    Shrinks (link.revoke ctx).1 link := by
  unfold LiveLink.revoke
  split
  · exact ⟨rfl, List.Sublist.refl _, fun p among => ⟨p, among, rfl, rfl⟩⟩
  · next id found =>
    dsimp only
    split
    · exact ⟨rfl, List.nil_sublist _, fun p among => ⟨p, among, rfl, rfl⟩⟩
    · refine ⟨rfl, List.eraseP_sublist, ?_⟩
      intro p among
      rcases List.mem_map.mp among with ⟨q, before, rfl⟩
      exact ⟨q, before, rfl, rfl⟩

end NdnExt.Link
