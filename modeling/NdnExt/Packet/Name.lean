import Mathlib.Data.List.Lex
import Mathlib.Data.Prod.Lex
/-! NDN names: sequences of typed components in the canonical order. -/

namespace NdnExt

structure NameComponent where
  typ : Nat
  value : List UInt8
  deriving Repr

namespace NameComponent

def generic (value : List UInt8) : NameComponent := ⟨8, value⟩

def keyword (value : List UInt8) : NameComponent := ⟨32, value⟩

/-- Canonical order: by type, then by length, then byte by byte. -/
def orderKey (component : NameComponent) : ℕ ×ₗ ℕ ×ₗ List ℕ :=
  toLex (component.typ, toLex (component.value.length, component.value.map UInt8.toNat))

theorem orderKey_injective : Function.Injective orderKey := by
  intro ⟨typ, value⟩ ⟨typ', value'⟩ same
  simp only [orderKey, EmbeddingLike.apply_eq_iff_eq, Prod.mk.injEq] at same
  obtain ⟨sameType, -, sameBytes⟩ := same
  have bytes : value = value' :=
    List.map_injective_iff.mpr (fun _ _ equal => UInt8.toNat_inj.mp equal) sameBytes
  rw [sameType, bytes]

instance : LinearOrder NameComponent := LinearOrder.lift' orderKey orderKey_injective

end NameComponent

structure Name where
  components : List NameComponent
  deriving Repr

namespace Name

theorem components_injective : Function.Injective Name.components := by
  intro ⟨components⟩ ⟨components'⟩ same
  rw [show components = components' from same]

instance : LinearOrder Name := LinearOrder.lift' Name.components components_injective

instance : LawfulBEq Name := inferInstance

def root : Name := ⟨[]⟩

/-- The name of one generic component of one byte. -/
def single (byte : UInt8) : Name := ⟨[NameComponent.generic [byte]]⟩

def appendComponent (name : Name) (component : NameComponent) : Name :=
  ⟨name.components ++ [component]⟩

theorem appendComponent_inj {name name' : Name} {component component' : NameComponent}
    (same : name.appendComponent component = name'.appendComponent component') :
    name = name' ∧ component = component' := by
  have parts := List.append_inj' (congrArg Name.components same) rfl
  exact ⟨Name.components_injective parts.1, List.singleton_inj.mp parts.2⟩

end Name
end NdnExt
