import NdnExt.Lib.Dijkstra
import NdnExt.Nlsr.Lsdb

/-! The route computation over the adjacency LSAs. Vectors and matrices are functions of
the index, of which the code uses the first `n` values. -/

namespace NdnExt.Nlsr

open NdnExt.Lib

structure NextHop where
  faceUri : String
  cost : ℚ
  deriving DecidableEq

structure RoutingTableEntry where
  destRouter : Name
  nexthops : List NextHop
  deriving DecidableEq

structure RoutingSnapshot where
  entries : List RoutingTableEntry
  deriving DecidableEq

def RoutingSnapshot.get (snapshot : RoutingSnapshot) (dest : Name) : Option RoutingTableEntry :=
  snapshot.entries.find? (fun entry => entry.destRouter = dest)

def nonAdjacent : ℚ := -1

/-- `f64::MAX / 2.0`. -/
def infinity : ℚ := 2 ^ 1023 - 2 ^ 970

abbrev CostMatrix := Nat → Nat → ℚ

def CostMatrix.set (matrix : CostMatrix) (row col : Nat) (cost : ℚ) : CostMatrix :=
  Function.update matrix row (Function.update (matrix row) col cost)

def Lsa.asAdjacency : Lsa → Option AdjacencyLsa
  | .adjacency lsa => some lsa
  | _ => none

def Lsdb.adjLsas (lsdb : Lsdb) : List AdjacencyLsa :=
  (lsdb.iterByType .adjacency).filterMap Lsa.asAdjacency

/-- `entry(name).or_insert(len)`. -/
def assignIndex (nameToIdx : HashMap Name Nat) (name : Name) : HashMap Name Nat :=
  match nameToIdx.lookup name with
  | some _ => nameToIdx
  | none => nameToIdx.insert name nameToIdx.pairs.length

def nameToIdx (adjLsas : List AdjacencyLsa) : HashMap Name Nat :=
  adjLsas.foldl (fun nameToIdx lsa =>
    lsa.adjacencies.foldl (fun nameToIdx adj => assignIndex nameToIdx adj.name)
      (assignIndex nameToIdx lsa.originRouter)) ∅

def idxToName (nameToIdx : HashMap Name Nat) : Nat → Name :=
  nameToIdx.pairs.foldl (fun names item => Function.update names item.2 item.1)
    (fun _ => Name.root)

def buildMatrix (nameToIdx : HashMap Name Nat) (adjLsas : List AdjacencyLsa) : CostMatrix :=
  adjLsas.foldl (fun matrix lsa =>
    match nameToIdx.lookup lsa.originRouter with
    | none => matrix
    | some row =>
      lsa.adjacencies.foldl (fun matrix adj =>
        match nameToIdx.lookup adj.name with
        | none => matrix
        | some col => matrix.set row col adj.linkCost) matrix)
    (fun _ _ => nonAdjacent)

def symmetrizePair (r : Nat) (matrix : CostMatrix) (c : Nat) : CostMatrix :=
  let outward := matrix r c
  let inward := matrix c r
  if outward = inward then matrix
  else
    let corrected := if 0 ≤ outward ∧ 0 ≤ inward then max outward inward else nonAdjacent
    (matrix.set r c corrected).set c r corrected

def symmetrize (n : Nat) (matrix : CostMatrix) : CostMatrix :=
  (List.range n).foldl (fun matrix r =>
    (List.range' (r + 1) (n - (r + 1))).foldl (symmetrizePair r) matrix) matrix

/-- The simulation matrix in which the source reaches only one neighbour. -/
def simulate (matrix : CostMatrix) (source nbr n : Nat) : CostMatrix :=
  (List.range n).foldl (fun sim c =>
    if c = nbr then sim
    else (sim.set source c nonAdjacent).set c source nonAdjacent) matrix

def relaxEdge (matrix : CostMatrix) (u : Nat) (search : Search Nat ℚ) (v : Nat) :
    Search Nat ℚ :=
  let edge := matrix u v
  if edge < 0 then search else search.relax u v edge

/-- The loop body for the popped item. -/
def visit (matrix : CostMatrix) (n : Nat) (search : Search Nat ℚ) (d : ℚ) (u : Nat) :
    Search Nat ℚ :=
  if d > search.dist u then search
  else (List.range n).foldl (relaxEdge matrix u) search

/-- The `while let` loop, `none` when the fuel ends before the heap does. -/
def dijkstraLoop (matrix : CostMatrix) (n fuel : Nat) (search : Search Nat ℚ) :
    Option (Nat → ℚ) :=
  match search.heap with
  | [] => some search.dist
  | item :: heap =>
    match fuel with
    | 0 => none
    | fuel + 1 =>
      dijkstraLoop matrix n fuel
        (visit matrix n { search with heap := heap } (ofLex item).1 (ofLex item).2)

/-- Every visit of a node pushes at most `n` items. -/
def dijkstra (matrix : CostMatrix) (source n : Nat) : Option (Nat → ℚ) :=
  dijkstraLoop matrix n (n * n + 1) (Search.initial source infinity)

def pushNextHop (result : HashMap Nat (List NextHop)) (dest : Nat) (hop : NextHop) :
    HashMap Nat (List NextHop) :=
  result.insert dest ((result.lookup dest).getD [] ++ [hop])

/-- The routes of one simulation. -/
def collectRoutes (source n : Nat) (dist : Nat → ℚ) (faceUri : String)
    (result : HashMap Nat (List NextHop)) : HashMap Nat (List NextHop) :=
  (List.range n).foldl (fun result dest =>
    if dest = source then result
    else if dist dest < infinity then
      pushNextHop result dest { faceUri := faceUri, cost := dist dest }
    else result) result

/-- The loop body over the own adjacencies. -/
def routeVia (nameToIdx : HashMap Name Nat) (matrix : CostMatrix) (source n : Nat)
    (result : HashMap Nat (List NextHop)) (adj : Adjacent) :
    Option (HashMap Nat (List NextHop)) :=
  match nameToIdx.lookup adj.name with
  | none => some result
  | some nbr =>
    if matrix source nbr < 0 then some result
    else do
      let dist ← dijkstra (simulate matrix source nbr n) source n
      some (collectRoutes source n dist adj.faceUri result)

def ownAdjacencies (adjLsas : List AdjacencyLsa) (selfName : Name) : List Adjacent :=
  ((adjLsas.find? (fun lsa => lsa.originRouter = selfName)).map (·.adjacencies)).getD []

/-- `none` when a simulation runs out of fuel. -/
def computeRoutes (lsdb : Lsdb) (selfName : Name) : Option RoutingSnapshot :=
  let adjLsas := lsdb.adjLsas
  if adjLsas.isEmpty then some ⟨[]⟩
  else
    let indices := nameToIdx adjLsas
    let n := indices.pairs.length
    match indices.lookup selfName with
    | none => some ⟨[]⟩
    | some source =>
      let ownAdj := ownAdjacencies adjLsas selfName
      if ownAdj.isEmpty then some ⟨[]⟩
      else do
        let matrix := symmetrize n (buildMatrix indices adjLsas)
        let result ← ownAdj.foldlM (routeVia indices matrix source n) ∅
        some ⟨result.pairs.map (fun item =>
          { destRouter := idxToName indices item.1, nexthops := item.2 })⟩

end NdnExt.Nlsr
