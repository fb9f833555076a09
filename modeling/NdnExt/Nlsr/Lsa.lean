import NdnExt.Packet.Name
import Mathlib.Algebra.Field.Rat

/-! Link state advertisements. Costs are exact numbers in place of `f64`. -/

namespace NdnExt.Nlsr

inductive LsaType where
  | adjacency
  | name
  | coordinate
  deriving DecidableEq

structure Adjacent where
  name : Name
  faceUri : String
  linkCost : ℚ
  deriving DecidableEq

structure AdjacencyLsa where
  originRouter : Name
  seqNo : Nat
  expirationMs : Nat
  adjacencies : List Adjacent
  deriving DecidableEq

structure PrefixInfo where
  name : Name
  cost : ℚ
  deriving DecidableEq

structure NameLsa where
  originRouter : Name
  seqNo : Nat
  expirationMs : Nat
  prefixes : List PrefixInfo
  deriving DecidableEq

structure CoordinateLsa where
  originRouter : Name
  seqNo : Nat
  expirationMs : Nat
  radius : ℚ
  angles : List ℚ
  deriving DecidableEq

inductive Lsa where
  | adjacency (lsa : AdjacencyLsa)
  | name (lsa : NameLsa)
  | coordinate (lsa : CoordinateLsa)
  deriving DecidableEq

structure LsaKey where
  originRouter : Name
  lsaType : LsaType
  deriving DecidableEq

namespace Lsa

def lsaType : Lsa → LsaType
  | adjacency _ => .adjacency
  | name _ => .name
  | coordinate _ => .coordinate

def originRouter : Lsa → Name
  | adjacency lsa => lsa.originRouter
  | name lsa => lsa.originRouter
  | coordinate lsa => lsa.originRouter

def seqNo : Lsa → Nat
  | adjacency lsa => lsa.seqNo
  | name lsa => lsa.seqNo
  | coordinate lsa => lsa.seqNo

def expirationMs : Lsa → Nat
  | adjacency lsa => lsa.expirationMs
  | name lsa => lsa.expirationMs
  | coordinate lsa => lsa.expirationMs

/-- The slot of the LSDB that the LSA belongs in. -/
def key (lsa : Lsa) : LsaKey := ⟨lsa.originRouter, lsa.lsaType⟩

theorem eq_name_of_key {lsa : Lsa} {router : Name} (keyed : lsa.key = ⟨router, .name⟩) :
    ∃ nameLsa : NameLsa, lsa = name nameLsa ∧ nameLsa.originRouter = router := by
  cases lsa with
  | adjacency lsa => cases keyed
  | name lsa =>
    cases keyed
    exact ⟨lsa, rfl, rfl⟩
  | coordinate lsa => cases keyed

theorem eq_adjacency_of_key {lsa : Lsa} {router : Name} (keyed : lsa.key = ⟨router, .adjacency⟩) :
    ∃ adjacencyLsa : AdjacencyLsa, lsa = adjacency adjacencyLsa ∧
      adjacencyLsa.originRouter = router := by
  cases lsa with
  | adjacency lsa =>
    cases keyed
    exact ⟨lsa, rfl, rfl⟩
  | name lsa => cases keyed
  | coordinate lsa => cases keyed

end Lsa
end NdnExt.Nlsr
