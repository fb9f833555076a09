import NdnExt.Packet.Name

/-! The values carried by DV packets. Costs are `u64` on the wire. -/

namespace NdnExt.Dv

structure AdvEntry where
  destination : Name
  nextHop : Name
  cost : Nat
  otherCost : Nat
  deriving DecidableEq

structure Advertisement where
  entries : List AdvEntry
  deriving DecidableEq

structure PrefixOpAdd where
  name : Name
  cost : Nat
  deriving DecidableEq

structure PrefixOpRemove where
  name : Name
  deriving DecidableEq

structure PrefixOpList where
  exitRouter : Name
  reset : Bool
  adds : List PrefixOpAdd
  removes : List PrefixOpRemove
  deriving DecidableEq

end NdnExt.Dv
