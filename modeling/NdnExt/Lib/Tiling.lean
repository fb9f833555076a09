import Mathlib.Data.List.Basic

/-! Lists as tiles one after another: each a header that tells its type and the length of its
value, and the value. -/

namespace NdnExt.Lib.Tiling

variable {B T : Type} (header : List B → Option (T × Nat × Nat))

/-- A header inside the list, the value it tells of too. -/
def Whole (items : List B) (typ : T) (length width : Nat) : Prop :=
  header items = some (typ, length, width) ∧ 0 < width ∧ width + length ≤ items.length

/-- The list is made of tiles, and of a last part that begins with none. -/
inductive Tiled : List B → List (T × List B) → List B → Prop where
  | last {items : List B} (none : ∀ typ length width, ¬ Whole header items typ length width) :
      Tiled items [] items
  | tile {items : List B} {typ : T} {length width : Nat} {tiles : List (T × List B)}
      {rest : List B} (whole : Whole header items typ length width)
      (more : Tiled (items.drop (width + length)) tiles rest) :
      Tiled items ((typ, (items.drop width).take length) :: tiles) rest

def splitFuel : Nat → List B → List (T × List B) × List B
  | 0, items => ([], items)
  | fuel + 1, items =>
    match header items with
    | none => ([], items)
    | some (typ, length, width) =>
      if 0 < width ∧ width + length ≤ items.length then
        let more := splitFuel fuel (items.drop (width + length))
        ((typ, (items.drop width).take length) :: more.1, more.2)
      else ([], items)

/-- The tiles of a list, and what follows the last one. -/
def split (items : List B) : List (T × List B) × List B :=
  splitFuel header (items.length + 1) items

variable {header}

theorem Whole.eq {items : List B} {typ typ' : T} {length length' width width' : Nat}
    (left : Whole header items typ length width) (right : Whole header items typ' length' width') :
    typ = typ' ∧ length = length' ∧ width = width' := by
  have same := left.1.symm.trans right.1
  rw [Option.some.injEq, Prod.mk.injEq, Prod.mk.injEq] at same
  exact same

theorem tiled_splitFuel {fuel : Nat} {items : List B} (enough : items.length < fuel) :
    Tiled header items (splitFuel header fuel items).1 (splitFuel header fuel items).2 := by
  induction fuel generalizing items with
  | zero => exact absurd enough (Nat.not_lt_zero _)
  | succ fuel ih =>
    unfold splitFuel
    split
    · next absent =>
      refine .last ?_
      rintro typ length width ⟨found, _⟩
      rw [absent] at found
      cases found
    · next typ length width found =>
      split
      · next inside =>
        refine .tile ⟨found, inside⟩ (ih ?_)
        rw [List.length_drop]
        omega
      · next outside =>
        refine .last ?_
        rintro typ' length' width' ⟨found', inside⟩
        rw [found, Option.some.injEq, Prod.mk.injEq, Prod.mk.injEq] at found'
        rcases found' with ⟨_, rfl, rfl⟩
        exact outside inside

theorem tiled_split (items : List B) :
    Tiled header items (split header items).1 (split header items).2 :=
  tiled_splitFuel (Nat.lt_succ_self _)

/-- A list is tiled in one way. -/
theorem Tiled.unique {items rest rest' : List B} {tiles tiles' : List (T × List B)}
    (left : Tiled header items tiles rest) (right : Tiled header items tiles' rest') :
    tiles = tiles' ∧ rest = rest' := by
  induction left generalizing tiles' rest' with
  | last none =>
    cases right with
    | last _ => exact ⟨rfl, rfl⟩
    | tile whole _ => exact absurd whole (none _ _ _)
  | tile whole _ ih =>
    cases right with
    | last none => exact absurd whole (none _ _ _)
    | tile whole' more =>
      rcases whole.eq whole' with ⟨rfl, rfl, rfl⟩
      rcases ih more with ⟨rfl, rfl⟩
      exact ⟨rfl, rfl⟩

theorem Tiled.split_eq {items rest : List B} {tiles : List (T × List B)}
    (tiled : Tiled header items tiles rest) : split header items = (tiles, rest) := by
  rcases (tiled_split items).unique tiled with ⟨first, second⟩
  exact Prod.ext first second

theorem split_of_whole {items : List B} {typ : T} {length width : Nat}
    (whole : Whole header items typ length width) :
    split header items =
      ((typ, (items.drop width).take length) :: (split header (items.drop (width + length))).1,
        (split header (items.drop (width + length))).2) :=
  (Tiled.tile whole (tiled_split _)).split_eq

theorem split_of_none {items : List B}
    (none : ∀ typ length width, ¬ Whole header items typ length width) :
    split header items = ([], items) :=
  (Tiled.last none).split_eq

/-- A value is no longer than the list. -/
theorem Tiled.length_le {items rest : List B} {tiles : List (T × List B)}
    (tiled : Tiled header items tiles rest) : ∀ tile ∈ tiles, tile.2.length ≤ items.length := by
  induction tiled with
  | last _ => exact fun tile among => nomatch among
  | tile _ _ ih =>
    intro tile among
    rcases List.mem_cons.mp among with rfl | later
    · rw [List.length_take, List.length_drop]
      omega
    · have shorter := ih tile later
      rw [List.length_drop] at shorter
      omega

end NdnExt.Lib.Tiling
