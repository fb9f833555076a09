import Mathlib.Logic.Equiv.List
import NdnExt.Service.Authority

/-! A URI form of names, with the name `/alice` in it as the packet library writes it. -/

namespace NdnExt.Service

def alice : Name := ⟨[.generic [97, 108, 105, 99, 101]]⟩

def nameCode (name : Name) : Nat :=
  Encodable.encode (name.components.map fun component =>
    (component.typ, component.value.map UInt8.toNat))

def nameOfCode (code : Nat) : Option Name :=
  (Encodable.decode code).map fun components : List (Nat × List Nat) =>
    ⟨components.map fun component => ⟨component.1, component.2.map UInt8.ofNat⟩⟩

theorem nameOfCode_nameCode (name : Name) : nameOfCode (nameCode name) = some name := by
  have round : UInt8.ofNat ∘ UInt8.toNat = id := funext fun b => UInt8.ofNat_toNat
  rw [nameOfCode, nameCode, Encodable.encodek, Option.map_some, List.map_map]
  congr 1
  apply Name.components_injective
  refine (List.map_congr_left ?_).trans (List.map_id _)
  intro component _
  rcases component with ⟨typ, value⟩
  change NameComponent.mk typ ((value.map UInt8.toNat).map UInt8.ofNat) = ⟨typ, value⟩
  rw [List.map_map, round, List.map_id]

/-- Other names are written in unary. -/
def plainUri : NameUri where
  toUri name := String.ofList
    (if name = alice then ['/', 'a', 'l', 'i', 'c', 'e'] else List.replicate (nameCode name) '%')
  parse text :=
    if text.toList = ['/', 'a', 'l', 'i', 'c', 'e'] then some alice
    else nameOfCode text.toList.length
  parse_toUri := by
    intro name
    rw [String.toList_ofList]
    by_cases known : name = alice
    · rw [if_pos known, if_pos rfl, known]
    · rw [if_neg known]
      have plain : List.replicate (nameCode name) '%' ≠ ['/', 'a', 'l', 'i', 'c', 'e'] := by
        intro same
        have slash : '/' ∈ List.replicate (nameCode name) '%' := by
          rw [same]
          exact List.mem_cons_self
        exact absurd (List.eq_of_mem_replicate slash) (by decide)
      rw [if_neg plain, List.length_replicate]
      exact nameOfCode_nameCode name

end NdnExt.Service
