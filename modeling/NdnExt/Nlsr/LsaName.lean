import NdnExt.Lib.BigEndian
import NdnExt.Nlsr.Lsa

/-! The names under which LSAs are announced, fetched and served:
`<lsa_prefix>/<router_suffix>/<TYPE>/<seqNo>`. -/

namespace NdnExt.Nlsr

open NdnExt.Lib

/-- The accessors of typed name components: each accepts components of its own type only. -/
structure TypedComponents where
  asSequenceNum : NameComponent → Option Nat
  asSegment : NameComponent → Option Nat
  asVersion : NameComponent → Option Nat
  sequenceNum_typ : ∀ comp, (asSequenceNum comp).isSome → comp.typ = 58
  segment_typ : ∀ comp, (asSegment comp).isSome → comp.typ = 50
  version_typ : ∀ comp, (asVersion comp).isSome → comp.typ = 54

def encodeNniMinimal (n : Nat) : List UInt8 := minimalSlice n

/-- `parse_u64_component` and `parse_nni_bytes`. -/
def parseNniBytes (value : List UInt8) : Option Nat :=
  if value.length ∈ [1, 2, 4, 8] then some (ofBe value) else none

/-- The accessors of the naming conventions. -/
def TypedComponents.ndn : TypedComponents where
  asSequenceNum := fun comp => if comp.typ = 58 then parseNniBytes comp.value else none
  asSegment := fun comp => if comp.typ = 50 then parseNniBytes comp.value else none
  asVersion := fun comp => if comp.typ = 54 then parseNniBytes comp.value else none
  sequenceNum_typ := by
    intro comp found
    split at found
    · assumption
    · cases found
  segment_typ := by
    intro comp found
    split at found
    · assumption
    · cases found
  version_typ := by
    intro comp found
    split at found
    · assumption
    · cases found

/-- The keyword in the name: `ADJACENCY`, `NAME` or `COORDINATE`. -/
def typeStr : LsaType → List UInt8
  | .adjacency => [65, 68, 74, 65, 67, 69, 78, 67, 89]
  | .name => [78, 65, 77, 69]
  | .coordinate => [67, 79, 79, 82, 68, 73, 78, 65, 84, 69]

def lsaTypeOf (value : List UInt8) : Option LsaType :=
  if value = typeStr .name then some .name
  else if value = typeStr .adjacency then some .adjacency
  else if value = typeStr .coordinate then some .coordinate
  else none

/-- What the routers of a network share. -/
structure LsaNaming where
  network : Name
  lsaPrefix : Name

namespace LsaNaming

variable (naming : LsaNaming) (typed : TypedComponents)

def userPrefixFor (ownRouter : Name) (lsaType : LsaType) : Name :=
  ⟨naming.lsaPrefix.components ++ ownRouter.components.drop naming.network.components.length ++
    [NameComponent.generic (typeStr lsaType)]⟩

/-- The name that `run` publishes for an own LSA. -/
def publishedName (ownRouter : Name) (lsaType : LsaType) (seqNo : Nat) : Name :=
  (naming.userPrefixFor ownRouter lsaType).appendComponent
    (NameComponent.generic (encodeNniMinimal seqNo))

/-- The name that `lsa_io_task` fetches an LSA by. -/
def interestName (originRouter : Name) (lsaType : LsaType) (seqNo : Nat) : Name :=
  ⟨naming.lsaPrefix.components ++ originRouter.components.drop naming.network.components.length ++
    [NameComponent.generic (typeStr lsaType)] ++
    [NameComponent.generic (encodeNniMinimal seqNo)]⟩

def parseUpdateName (updateName : Name) : Option (Name × LsaType × Nat) :=
  let comps := updateName.components
  let prefixLen := naming.lsaPrefix.components.length
  if comps.length < prefixLen + 3 then none
  else if comps.take prefixLen ≠ naming.lsaPrefix.components then none
  else do
    let seqComp ← comps.getLast?
    let seqNo ← (typed.asSequenceNum seqComp).or (parseNniBytes seqComp.value)
    let typeComp ← comps[comps.length - 2]?
    let lsaType ← lsaTypeOf typeComp.value
    let routerComps := (comps.take (comps.length - 2)).drop prefixLen
    if routerComps = [] then none
    else some (⟨naming.network.components ++ routerComps⟩, lsaType, seqNo)

def nniFromComp (comp : NameComponent) : Option Nat :=
  ((typed.asSequenceNum comp).or (typed.asSegment comp)).or (parseNniBytes comp.value)

/-- Strips a trailing `/<version>/<segment>`. -/
def stripVersion (comps : List NameComponent) : List NameComponent :=
  match comps.reverse with
  | segment :: version :: front =>
    if (typed.asSegment segment).isSome ∧ (typed.asVersion version).isSome then front.reverse
    else comps
  | _ => comps

/-- What follows the prefix in the name of an LSA, which `serve_lsa_interest_sync` and
`install_lsa_from_data` both read from the end: router, type and sequence number. -/
def parseBase (base : List NameComponent) : Option (Name × LsaType × Nat) := do
  let prefixLen := naming.lsaPrefix.components.length
  let seqComp ← base.getLast?
  let seqNo ← nniFromComp typed seqComp
  let typeComp ← base[base.length - 2]?
  let lsaType ← lsaTypeOf typeComp.value
  let routerComps := (base.take (base.length - 2)).drop prefixLen
  some (⟨naming.network.components ++ routerComps⟩, lsaType, seqNo)

end LsaNaming

theorem parseNni_encode {n : Nat} (small : n < 2 ^ 64) :
    parseNniBytes (encodeNniMinimal n) = some n := by
  have width := minimalWidth_mem n
  rw [parseNniBytes, encodeNniMinimal, minimalSlice_eq, length_beBytes, if_pos width,
    ofBe_beBytes (minimalWidth_fits small)]

theorem lsaTypeOf_typeStr (lsaType : LsaType) : lsaTypeOf (typeStr lsaType) = some lsaType := by
  cases lsaType <;> decide

namespace TypedComponents

variable (typed : TypedComponents)

theorem asSequenceNum_generic (value : List UInt8) :
    typed.asSequenceNum (NameComponent.generic value) = none := by
  by_contra some'
  have typ := typed.sequenceNum_typ _ (Option.isSome_iff_ne_none.mpr some')
  cases typ

theorem asSegment_generic (value : List UInt8) :
    typed.asSegment (NameComponent.generic value) = none := by
  by_contra some'
  have typ := typed.segment_typ _ (Option.isSome_iff_ne_none.mpr some')
  cases typ

end TypedComponents

section Reading

variable {A : Type} (front : List A) (second last : A)

theorem getLast_pair : (front ++ [second, last]).getLast? = some last := by
  rw [List.getLast?_append]
  rfl

theorem get_pair : (front ++ [second, last])[(front ++ [second, last]).length - 2]? =
    some second := by
  have length : (front ++ [second, last]).length - 2 = front.length := by
    rw [List.length_append]
    rfl
  rw [length, List.getElem?_append_right (Nat.le_refl _), Nat.sub_self]
  rfl

theorem take_pair : (front ++ [second, last]).take ((front ++ [second, last]).length - 2) =
    front := by
  have length : (front ++ [second, last]).length - 2 = front.length := by
    rw [List.length_append]
    rfl
  rw [length, List.take_left]

end Reading

end NdnExt.Nlsr
