import NdnExt.Lib.Checked
import NdnExt.Lib.HashMap
import NdnExt.Packet.Name

/-! The rate limit policies of the forwarder, and what a packet is charged by them. -/

namespace NdnExt.RateLimit

open NdnExt.Lib List

inductive Direction where
  | inbound
  | outbound
  deriving DecidableEq

/-- A face and the prefix of a name, `none` for any. -/
structure Cell where
  face : Option Nat
  prefixName : Option Name
  direction : Direction
  deriving DecidableEq

structure BucketSpec where
  interestPps : Option Nat
  interestBurst : Option Nat
  dataBps : Option Nat
  dataBurstBytes : Option Nat

inductive Overflow where
  | nack
  | drop
  | queue
  deriving DecidableEq

structure RateLimitPolicy where
  cell : Cell
  bucket : BucketSpec
  overflow : Overflow
  queueMax : Option Nat

inductive RateLimitError where
  | invalidCell (reason : String)
  | tableFull

inductive BucketOutcome where
  | permit
  | deny
  deriving DecidableEq

/-- The tokens that each limiter holds when a packet comes; `none` is unlimited. -/
structure TokenBucket where
  interestPps : Option Nat
  dataBps : Option Nat
  overflowEvents : Nat

/-- `check_n` of a limiter: what is left, if it holds the tokens. -/
def checkN (tokens n : Nat) : Option Nat := if n ≤ tokens then some (tokens - n) else none

namespace TokenBucket

def fromSpec (spec : BucketSpec) : Except String TokenBucket := do
  if spec.interestPps = none ∧ spec.dataBps = none then
    throw "BucketSpec must set at least one limit"
  let interestPps ← match spec.interestPps with
    | some rate =>
      if rate = 0 then throw "interest_pps must be > 0"
      else pure (some (max (spec.interestBurst.getD rate) 1))
    | none => pure none
  let dataBps ← match spec.dataBps with
    | some rate =>
      if u32Max < rate then throw "data_bps > u32::MAX is not supported"
      else if rate = 0 then throw "data_bps must be > 0"
      else if u32Max < spec.dataBurstBytes.getD rate then
        throw "data_burst_bytes > u32::MAX is not supported"
      else pure (some (max (spec.dataBurstBytes.getD rate) 1))
    | none => pure none
  return ⟨interestPps, dataBps, 0⟩

/-- One more of the events that the operator sees. -/
def noted (bucket : TokenBucket) : TokenBucket :=
  { bucket with overflowEvents := (bucket.overflowEvents + 1) % 2 ^ 64 }

/-- A limiter after a cost, where there is the limiter and the cost; `none` if it refuses. -/
def consume (limiter : Option Nat) (cost : Nat) : Option (Option Nat) :=
  if cost = 0 then some limiter
  else match limiter with
    | none => some none
    | some tokens => (checkN tokens cost).map some

def tryConsume (bucket : TokenBucket) (interestCost dataBytes : Nat) :
    BucketOutcome × TokenBucket :=
  match consume bucket.interestPps interestCost with
  | none => (.deny, bucket.noted)
  | some interestPps =>
    let bucket := { bucket with interestPps := interestPps }
    match consume bucket.dataBps dataBytes with
    | none => (.deny, bucket.noted)
    | some dataBps => (.permit, { bucket with dataBps := dataBps })

end TokenBucket

structure CellEntry where
  policy : RateLimitPolicy
  bucket : TokenBucket

structure RateLimitPolicyTable where
  cells : HashMap Cell CellEntry
  maxCells : Nat

def RateLimitPolicy.validate (policy : RateLimitPolicy) : Except RateLimitError Unit :=
  if policy.overflow = .queue ∧ policy.queueMax = none then
    .error (.invalidCell "overflow = queue requires queue_max")
  else if policy.bucket.interestPps = none ∧ policy.bucket.dataBps = none then
    .error (.invalidCell "BucketSpec must set at least one limit")
  else .ok ()

/-- A name and its prefixes, the longest one first; `more` is how many components it has. -/
def lpmChain : Nat → Name → List Name
  | 0, p => [p]
  | more + 1, p => p :: lpmChain more ⟨p.components.dropLast⟩

namespace RateLimitPolicyTable

def withCapacityBound (maxCells : Nat) : RateLimitPolicyTable := ⟨∅, maxCells⟩

def set (table : RateLimitPolicyTable) (policy : RateLimitPolicy) :
    Except RateLimitError RateLimitPolicyTable := do
  policy.validate
  let bucket ← (TokenBucket.fromSpec policy.bucket).mapError .invalidCell
  if policy.cell ∉ table.cells ∧ table.maxCells ≤ table.cells.keys.length then
    throw .tableFull
  return { table with cells := table.cells.insert policy.cell ⟨policy, bucket⟩ }

/-- The entry of a cell, known by the cell: the table and whoever found it share the bucket. -/
def get (table : RateLimitPolicyTable) (cell : Cell) : Option (Cell × CellEntry) :=
  (table.cells.lookup cell).map fun entry => (cell, entry)

def matchesOfFace (table : RateLimitPolicyTable) (name : Option Name) (direction : Direction)
    (faceKey : Option Nat) : List (Cell × CellEntry) :=
  let prefixes := (name.map fun name => lpmChain name.components.length name).getD []
  (prefixes.map some ++ [none]).filterMap fun prefixName =>
    table.get ⟨faceKey, prefixName, direction⟩

/-- `matches` of the source. -/
def matchesOf (table : RateLimitPolicyTable) (face : Nat) (name : Option Name)
    (direction : Direction) : List (Cell × CellEntry) :=
  [some face, none].flatMap (table.matchesOfFace name direction)

/-- The bucket that the table shares is changed. -/
def share (table : RateLimitPolicyTable) (cell : Cell) (entry : CellEntry) (bucket : TokenBucket) :
    RateLimitPolicyTable :=
  { table with cells := table.cells.insert cell { entry with bucket := bucket } }

end RateLimitPolicyTable

inductive PacketKind where
  | interest
  | data

inductive Decision where
  | permit
  | nack
  | drop
  deriving DecidableEq

def Overflow.decision : Overflow → Decision
  | .nack => .nack
  | .drop | .queue => .drop

def costs (kind : PacketKind) (wireBytes : Nat) : Nat × Nat :=
  match kind with
  | .interest => (1, 0)
  | .data => (0, min wireBytes u32Max)

def charge (cost : Nat × Nat) (table : RateLimitPolicyTable) :
    List (Cell × CellEntry) → Decision × RateLimitPolicyTable
  | [] => (.permit, table)
  | (cell, entry) :: rest =>
    let (outcome, bucket) := entry.bucket.tryConsume cost.1 cost.2
    let table := table.share cell entry bucket
    match outcome with
    | .deny => (entry.policy.overflow.decision, table)
    | .permit => charge cost table rest

def consult (table : RateLimitPolicyTable) (face : Nat) (name : Name) (kind : PacketKind)
    (wireBytes : Nat) (direction : Direction) : Decision × RateLimitPolicyTable :=
  charge (costs kind wireBytes) table (table.matchesOf face (some name) direction)

/-! ### The cells that match -/

/-- The cell is one of the packet's: of its direction, face and name. -/
def Cell.Matches (face : Nat) (name : Name) (direction : Direction) (cell : Cell) : Prop :=
  cell.direction = direction ∧ (cell.face = some face ∨ cell.face = none) ∧
    ∀ p ∈ cell.prefixName, p.components <+: name.components

def Cell.depth (cell : Cell) : Nat :=
  cell.prefixName.elim 0 fun p => p.components.length + 1

/-- The order of the cells: the face's own first, and deeper prefixes first within a face. -/
def Cell.Earlier (cell other : Cell) : Prop :=
  cell.face ≠ none ∧ other.face = none ∨ cell.face = other.face ∧ other.depth < cell.depth

theorem Cell.Earlier.ne {cell other : Cell} (earlier : cell.Earlier other) : cell ≠ other := by
  rintro rfl
  rcases earlier with ⟨some', none'⟩ | ⟨-, less⟩
  · exact some' none'
  · exact Nat.lt_irrefl _ less

theorem mem_lpmChain {more : Nat} {p q : Name} (count : p.components.length = more) :
    q ∈ lpmChain more p ↔ q.components <+: p.components := by
  induction more generalizing p with
  | zero =>
    have empty := length_eq_zero_iff.mp count
    rw [lpmChain, mem_singleton, empty, prefix_nil]
    exact ⟨fun same => by rw [same, empty],
      fun same => Name.components_injective (same.trans empty.symm)⟩
  | succ more ih =>
    have some' : p.components ≠ [] := ne_nil_of_length_eq_add_one count
    have parts := dropLast_append_getLast some'
    rw [lpmChain, mem_cons, ih (by rw [length_dropLast, count]; rfl)]
    conv_rhs => rw [← parts, prefix_concat_iff, parts]
    exact or_congr_left Name.components_injective.eq_iff.symm

theorem lpmChain_deeper {more : Nat} {p : Name} (count : p.components.length = more) :
    (lpmChain more p).Pairwise fun a b => b.components.length < a.components.length := by
  induction more generalizing p with
  | zero => exact pairwise_singleton _ _
  | succ more ih =>
    have shorter : p.components.dropLast.length = more := by rw [length_dropLast, count]; rfl
    refine pairwise_cons.mpr ⟨fun q mem => ?_, ih shorter⟩
    have within := ((mem_lpmChain shorter).mp mem).length_le
    rw [shorter] at within
    omega

variable {table : RateLimitPolicyTable} {face : Nat} {name : Name} {direction : Direction}

theorem get_eq_some {cell : Cell} {e : Cell × CellEntry} :
    table.get cell = some e ↔ e.1 = cell ∧ table.cells.lookup e.1 = some e.2 := by
  unfold RateLimitPolicyTable.get
  rw [Option.map_eq_some_iff]
  constructor
  · rintro ⟨entry, found, rfl⟩
    exact ⟨rfl, found⟩
  · rintro ⟨rfl, found⟩
    exact ⟨e.2, found, rfl⟩

theorem mem_matchesOfFace {faceKey : Option Nat} {e : Cell × CellEntry} :
    e ∈ table.matchesOfFace (some name) direction faceKey ↔
      table.cells.lookup e.1 = some e.2 ∧ e.1.direction = direction ∧ e.1.face = faceKey ∧
        ∀ p ∈ e.1.prefixName, p.components <+: name.components := by
  unfold RateLimitPolicyTable.matchesOfFace
  simp only [Option.map_some, Option.getD_some, mem_filterMap, get_eq_some, mem_append,
    mem_map, mem_singleton, mem_lpmChain rfl]
  constructor
  · rintro ⟨prefixName, among, same, found⟩
    rw [same]
    refine ⟨by rw [← same]; exact found, rfl, rfl, ?_⟩
    rintro p ⟨⟩
    rcases among with ⟨q, below, ⟨⟩⟩ | absent
    · exact below
    · cases absent
  · rintro ⟨found, rfl, rfl, below⟩
    refine ⟨e.1.prefixName, ?_, rfl, found⟩
    cases shape : e.1.prefixName with
    | none => exact .inr rfl
    | some p => exact .inl ⟨p, below p shape, rfl⟩

theorem mem_matchesOf {e : Cell × CellEntry} : e ∈ table.matchesOf face (some name) direction ↔
    table.cells.lookup e.1 = some e.2 ∧ e.1.Matches face name direction := by
  unfold RateLimitPolicyTable.matchesOf Cell.Matches
  simp only [mem_flatMap, mem_cons, not_mem_nil, or_false, mem_matchesOfFace]
  constructor
  · rintro ⟨faceKey, among, found, way, same, below⟩
    exact ⟨found, way, by rw [same]; exact among, below⟩
  · rintro ⟨found, way, among, below⟩
    exact ⟨e.1.face, among, found, way, rfl, below⟩

theorem matchesOfFace_ordered (faceKey : Option Nat) :
    ((table.matchesOfFace (some name) direction faceKey).map Prod.fst).Pairwise Cell.Earlier := by
  unfold RateLimitPolicyTable.matchesOfFace
  rw [pairwise_map, pairwise_filterMap, pairwise_append, pairwise_map]
  refine ⟨(lpmChain_deeper rfl).imp ?_, pairwise_singleton _ _, ?_⟩
  · rintro a b deeper e found e' found'
    rw [(get_eq_some.mp found).1, (get_eq_some.mp found').1]
    exact .inr ⟨rfl, Nat.add_lt_add_right deeper 1⟩
  · rintro a among b last e found e' found'
    rcases mem_map.mp among with ⟨p, -, rfl⟩
    cases mem_singleton.mp last
    rw [(get_eq_some.mp found).1, (get_eq_some.mp found').1]
    exact .inr ⟨rfl, Nat.succ_pos _⟩

theorem matchesOf_ordered :
    ((table.matchesOf face (some name) direction).map Prod.fst).Pairwise Cell.Earlier := by
  unfold RateLimitPolicyTable.matchesOf
  rw [flatMap_cons, flatMap_cons, flatMap_nil, append_nil, map_append,
    pairwise_append]
  refine ⟨matchesOfFace_ordered _, matchesOfFace_ordered _, ?_⟩
  intro cell own other any
  rcases mem_map.mp own with ⟨e, among, rfl⟩
  rcases mem_map.mp any with ⟨e', among', rfl⟩
  refine .inl ⟨?_, (mem_matchesOfFace.mp among').2.2.1⟩
  rw [(mem_matchesOfFace.mp among).2.2.1]
  exact Option.some_ne_none face

/-! ### What a packet is charged -/

/-- The limiters of a bucket hold the tokens. -/
def Affords (cost : Nat × Nat) (bucket : TokenBucket) : Prop :=
  (∀ tokens ∈ bucket.interestPps, cost.1 ≤ tokens) ∧ ∀ tokens ∈ bucket.dataBps, cost.2 ≤ tokens

def TokenBucket.minus (bucket : TokenBucket) (cost : Nat × Nat) : TokenBucket :=
  { bucket with
    interestPps := bucket.interestPps.map (· - cost.1)
    dataBps := bucket.dataBps.map (· - cost.2) }

theorem costs_one (kind : PacketKind) (wireBytes : Nat) :
    (costs kind wireBytes).1 = 0 ∨ (costs kind wireBytes).2 = 0 := by
  cases kind with
  | interest => exact .inr rfl
  | data => exact .inl rfl

theorem consume_eq (limiter : Option Nat) (cost : Nat) :
    (∀ tokens ∈ limiter, cost ≤ tokens) ∧
        TokenBucket.consume limiter cost = some (limiter.map (· - cost)) ∨
      ¬(∀ tokens ∈ limiter, cost ≤ tokens) ∧ cost ≠ 0 ∧
        TokenBucket.consume limiter cost = none := by
  unfold TokenBucket.consume checkN
  by_cases free : cost = 0
  · subst free
    refine .inl ⟨fun _ _ => Nat.zero_le _, ?_⟩
    cases limiter <;> rfl
  · rw [if_neg free]
    cases limiter with
    | none => exact .inl ⟨by rintro _ ⟨⟩, rfl⟩
    | some tokens =>
      dsimp only
      by_cases enough : cost ≤ tokens
      · rw [if_pos enough]
        exact .inl ⟨by rintro _ ⟨⟩; exact enough, rfl⟩
      · rw [if_neg enough]
        exact .inr ⟨fun all => enough (all tokens rfl), free, rfl⟩

/-- A packet that costs tokens of one limiter only takes them, or none at all. -/
theorem tryConsume_eq {cost : Nat × Nat} (one : cost.1 = 0 ∨ cost.2 = 0) (bucket : TokenBucket) :
    Affords cost bucket ∧ bucket.tryConsume cost.1 cost.2 = (.permit, bucket.minus cost) ∨
      ¬Affords cost bucket ∧ bucket.tryConsume cost.1 cost.2 = (.deny, bucket.noted) := by
  unfold TokenBucket.tryConsume
  rcases consume_eq bucket.interestPps cost.1 with ⟨interests, left⟩ | ⟨short, some', refused⟩
  · rw [left]
    dsimp only
    rcases consume_eq bucket.dataBps cost.2 with ⟨bytes, left'⟩ | ⟨short, some', refused⟩
    · rw [left']
      exact .inl ⟨⟨interests, bytes⟩, rfl⟩
    · have untouched : bucket.interestPps.map (· - cost.1) = bucket.interestPps := by
        rw [one.resolve_right some']
        exact Option.map_id'
      rw [refused, untouched]
      exact .inr ⟨fun affords => short affords.2, rfl⟩
  · rw [refused]
    exact .inr ⟨fun affords => short affords.1, rfl⟩

/-- Every cell pays, and no other. -/
structure Permitted (cost : Nat × Nat) (table : RateLimitPolicyTable)
    (entries : List (Cell × CellEntry)) (after : RateLimitPolicyTable) : Prop where
  affords : ∀ e ∈ entries, Affords cost e.2.bucket
  paid : ∀ e ∈ entries,
    after.cells.lookup e.1 = some { e.2 with bucket := e.2.bucket.minus cost }
  others : ∀ cell ∉ entries.map Prod.fst, after.cells.lookup cell = table.cells.lookup cell

/-- The first cell without the tokens refuses; those before it have paid, and no other. -/
structure Refused (cost : Nat × Nat) (table : RateLimitPolicyTable)
    (entries : List (Cell × CellEntry)) (decision : Decision) (after : RateLimitPolicyTable)
    (before : List (Cell × CellEntry)) (refusing : Cell × CellEntry)
    (later : List (Cell × CellEntry)) : Prop where
  order : entries = before ++ refusing :: later
  affords : ∀ e ∈ before, Affords cost e.2.bucket
  short : ¬Affords cost refusing.2.bucket
  decides : decision = refusing.2.policy.overflow.decision
  paid : ∀ e ∈ before, after.cells.lookup e.1 = some { e.2 with bucket := e.2.bucket.minus cost }
  noted : after.cells.lookup refusing.1 =
    some { refusing.2 with bucket := refusing.2.bucket.noted }
  others : ∀ cell ∉ (before ++ [refusing]).map Prod.fst,
    after.cells.lookup cell = table.cells.lookup cell

theorem decision_ne_permit (overflow : Overflow) : overflow.decision ≠ .permit := by
  cases overflow <;> rintro ⟨⟩

theorem lookup_share (table : RateLimitPolicyTable) (cell other : Cell) (entry : CellEntry)
    (bucket : TokenBucket) : (table.share cell entry bucket).cells.lookup other =
      if other = cell then some { entry with bucket := bucket } else table.cells.lookup other :=
  HashMap.lookup_insert_eq _ _ _ _

theorem charge_cases {cost : Nat × Nat} (one : cost.1 = 0 ∨ cost.2 = 0)
    {entries : List (Cell × CellEntry)} (distinct : (entries.map Prod.fst).Nodup) :
    (charge cost table entries).1 = .permit ∧
        Permitted cost table entries (charge cost table entries).2 ∨
      ∃ before refusing later, Refused cost table entries (charge cost table entries).1
        (charge cost table entries).2 before refusing later := by
  induction entries generalizing table with
  | nil => exact .inl ⟨rfl, by rintro _ ⟨⟩, by rintro _ ⟨⟩, fun _ _ => rfl⟩
  | cons e rest ih =>
    rcases e with ⟨cell, entry⟩
    rw [map_cons, nodup_cons] at distinct
    rcases tryConsume_eq one entry.bucket with ⟨affords, consumed⟩ | ⟨short, consumed⟩
    · have goesOn : charge cost table ((cell, entry) :: rest) =
          charge cost (table.share cell entry (entry.bucket.minus cost)) rest := by
        rw [charge, consumed]
      have mine := lookup_share table cell cell entry (entry.bucket.minus cost)
      rw [if_pos rfl] at mine
      rw [goesOn]
      rcases @ih (table.share cell entry (entry.bucket.minus cost)) distinct.2 with
        ⟨permits, permitted⟩ | ⟨before, refusing, later, refused⟩
      · refine .inl ⟨permits, ?_, ?_, ?_⟩
        · exact forall_mem_cons.mpr ⟨affords, permitted.affords⟩
        · refine forall_mem_cons.mpr ⟨?_, permitted.paid⟩
          exact (permitted.others cell distinct.1).trans mine
        · intro other absent
          rw [map_cons, mem_cons, not_or] at absent
          rw [permitted.others other absent.2, lookup_share, if_neg absent.1]
      · refine .inr ⟨(cell, entry) :: before, refusing, later, ?_, ?_, refused.short,
          refused.decides, ?_, refused.noted, ?_⟩
        · rw [refused.order]
          rfl
        · exact forall_mem_cons.mpr ⟨affords, refused.affords⟩
        · refine forall_mem_cons.mpr ⟨?_, refused.paid⟩
          refine (refused.others cell fun among => distinct.1 ?_).trans mine
          rw [refused.order, append_cons, map_append]
          exact mem_append_left _ among
        · intro other absent
          rw [cons_append, map_cons, mem_cons, not_or] at absent
          rw [refused.others other absent.2, lookup_share, if_neg absent.1]
    · have stops : charge cost table ((cell, entry) :: rest) =
          (entry.policy.overflow.decision, table.share cell entry entry.bucket.noted) := by
        rw [charge, consumed]
      rw [stops]
      refine .inr ⟨[], (cell, entry), rest, rfl, by rintro _ ⟨⟩, short, rfl, by rintro _ ⟨⟩, ?_, ?_⟩
      · exact (lookup_share _ _ _ _ _).trans (if_pos rfl)
      · intro other absent
        refine (lookup_share _ _ _ _ _).trans (if_neg fun same => absent ?_)
        rw [same]
        exact mem_singleton_self _

/-- The matching cells, each once and in their order; a packet is permitted exactly where all of
them hold its tokens, and then all pay; and where it is refused, those before the first one that
lacks them have paid. -/
theorem consult_charges (table : RateLimitPolicyTable) (face : Nat) (name : Name)
    (kind : PacketKind) (wireBytes : Nat) (direction : Direction) :
    ((∀ e, e ∈ table.matchesOf face (some name) direction ↔
        table.cells.lookup e.1 = some e.2 ∧ e.1.Matches face name direction) ∧
      ((table.matchesOf face (some name) direction).map Prod.fst).Nodup ∧
      ((table.matchesOf face (some name) direction).map Prod.fst).Pairwise Cell.Earlier) ∧
    ((consult table face name kind wireBytes direction).1 = .permit ↔
      ∀ e ∈ table.matchesOf face (some name) direction,
        Affords (costs kind wireBytes) e.2.bucket) ∧
    ((consult table face name kind wireBytes direction).1 = .permit →
      Permitted (costs kind wireBytes) table (table.matchesOf face (some name) direction)
        (consult table face name kind wireBytes direction).2) ∧
    ((consult table face name kind wireBytes direction).1 ≠ .permit →
      ∃ before refusing later, Refused (costs kind wireBytes) table
        (table.matchesOf face (some name) direction)
        (consult table face name kind wireBytes direction).1
        (consult table face name kind wireBytes direction).2 before refusing later) := by
  have ordered := @matchesOf_ordered table face name direction
  have distinct := ordered.imp Cell.Earlier.ne
  refine ⟨⟨fun e => mem_matchesOf, distinct, ordered⟩, ?_⟩
  rcases @charge_cases table _ (costs_one kind wireBytes) _ distinct with
    ⟨permits, permitted⟩ | ⟨before, refusing, later, refused⟩
  · exact ⟨iff_of_true permits permitted.affords, fun _ => permitted,
      fun refuses => absurd permits refuses⟩
  · have denies : (consult table face name kind wireBytes direction).1 ≠ .permit := by
      rw [consult, refused.decides]
      exact decision_ne_permit _
    refine ⟨iff_of_false denies fun all => refused.short (all refusing ?_),
      fun permits => absurd permits denies, fun _ => ⟨before, refusing, later, refused⟩⟩
    rw [refused.order]
    exact List.mem_append_right _ List.mem_cons_self

namespace Example

def policy (face : Option Nat) (burst : Nat) : RateLimitPolicy where
  cell := ⟨face, none, .inbound⟩
  bucket := ⟨some 1, some burst, none, none⟩
  overflow := .nack
  queueMax := none

/-- Two Interests for the face, and one for all faces together. -/
def limited : RateLimitPolicyTable :=
  match (RateLimitPolicyTable.withCapacityBound 4096).set (policy (some 1) 2) with
  | .ok table => (table.set (policy none 1)).toOption.getD table
  | .error _ => .withCapacityBound 0

/-- After the first Interest. -/
def spent : RateLimitPolicyTable := (consult limited 1 .root .interest 0 .inbound).2

theorem second_refused : ∃ before refusing later,
    Refused (costs .interest 0) spent (spent.matchesOf 1 (some .root) .inbound)
      (consult spent 1 .root .interest 0 .inbound).1 (consult spent 1 .root .interest 0 .inbound).2
      before refusing later :=
  (consult_charges spent 1 .root .interest 0 .inbound).2.2.2 (by decide)

/-- The second Interest is refused for all faces, and has used up what the face had left. -/
theorem refused_pays :
    ¬∀ table face name kind wireBytes direction cell,
      (consult table face name kind wireBytes direction).1 ≠ .permit →
        ((consult table face name kind wireBytes direction).2.cells.lookup cell).map
            (fun entry => (entry.bucket.interestPps, entry.bucket.dataBps)) =
          (table.cells.lookup cell).map
            (fun entry => (entry.bucket.interestPps, entry.bucket.dataBps)) := by
  intro free
  have kept := free spent 1 .root .interest 0 .inbound ⟨some 1, none, .inbound⟩ (by decide)
  exact absurd kept (by decide)

end Example
end NdnExt.RateLimit
