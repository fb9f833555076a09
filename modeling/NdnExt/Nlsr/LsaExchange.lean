import NdnExt.Nlsr.LsaSync

/-! Fetching an LSA from its origin: the Interest, the answer and what it installs. -/

namespace NdnExt.Nlsr

open NdnExt.Lib

/-- The Interest and Data packets of the exchange. A packet builder fixes the fields that no
function here reads (lifetime, nonce, freshness, signature). -/
structure LsaPackets (typed : TypedComponents) where
  buildInterest : Name → List UInt8
  decodeInterest : List UInt8 → Option Name
  buildData : Name → List UInt8 → List UInt8
  decodeData : List UInt8 → Option (Name × Option (List UInt8))
  version : Nat → NameComponent
  segment : Nat → NameComponent
  decode_buildInterest : ∀ name, decodeInterest (buildInterest name) = some name
  decode_buildData : ∀ name content, decodeData (buildData name content) = some (name, some content)
  buildData_head : ∀ name content, (buildData name content).head? = some 6
  asVersion_version : ∀ now, (typed.asVersion (version now)).isSome
  asSegment_segment : ∀ index, (typed.asSegment (segment index)).isSome

/-- The LSA as it is encoded; `bits` is the pattern of an `f64`. -/
def wireOfLsa (bits : ℚ → UInt64) : Lsa → Wire.Lsa
  | .adjacency lsa => .adjacency ⟨lsa.originRouter, UInt64.ofNat lsa.seqNo,
      UInt64.ofNat lsa.expirationMs,
      lsa.adjacencies.map (fun adj => ⟨adj.name, adj.faceUri, bits adj.linkCost⟩)⟩
  | .name lsa => .name ⟨lsa.originRouter, UInt64.ofNat lsa.seqNo, UInt64.ofNat lsa.expirationMs,
      lsa.prefixes.map (fun p => ⟨p.name, bits p.cost⟩)⟩
  | .coordinate lsa => .coordinate ⟨lsa.originRouter, UInt64.ofNat lsa.seqNo,
      UInt64.ofNat lsa.expirationMs, bits lsa.radius, lsa.angles.map bits⟩

namespace NlsrSync

variable (sync : NlsrSync) (packets : LsaPackets sync.typed) (bits : ℚ → UInt64)

/-- `lsa_io_task`: the Interest for an LSA that an update announced. -/
def fetchInterest (originRouter : Name) (lsaType : LsaType) (seqNo : Nat) : List UInt8 :=
  packets.buildInterest (sync.naming.interestName originRouter lsaType seqNo)

/-- `now` is the time in microseconds. -/
def serveLsaInterest (lsdb : Lsdb) (now : Nat) (pkt : List UInt8) : Option (List UInt8) := do
  let interestName ← packets.decodeInterest pkt
  let base := LsaNaming.stripVersion sync.typed interestName.components
  let prefixLen := sync.naming.lsaPrefix.components.length
  if base.length < prefixLen + 3 then none
  else if base.take prefixLen ≠ sync.naming.lsaPrefix.components then none
  else
    let (originRouter, lsaType, seqNo) ← sync.naming.parseBase sync.typed base
    if originRouter ≠ sync.config.ownRouter then none
    else
      let lsa ← lsdb.lookup originRouter lsaType
      if lsa.seqNo ≠ seqNo then none
      else
        some (packets.buildData ⟨base ++ [packets.version now, packets.segment 0]⟩
          ((wireOfLsa bits lsa).wireEncode sync.codec))

/-- `lsa_io_task`: an inbound packet. -/
def ioInbound (state : SyncState) (pkt : List UInt8) : SyncState :=
  match pkt.head? with
  | some first =>
    if first = 6 then
      match packets.decodeData pkt with
      | some (name, content) => sync.installLsaFromData state name content
      | none => state
    else state
  | none => state

end NlsrSync

section Names

variable (naming : LsaNaming) (typed : TypedComponents)

/-- The components that follow the network in the name of a router of it. -/
structure InNetwork (router : Name) (suffix : List NameComponent) : Prop where
  name : router = ⟨naming.network.components ++ suffix⟩
  longer : suffix ≠ []

variable {naming} {typed} {router : Name} {suffix : List NameComponent}

theorem InNetwork.dropped (inside : InNetwork naming router suffix) :
    router.components.drop naming.network.components.length = suffix := by
  rw [inside.name]
  exact List.drop_left

/-- The base of the name of an LSA: prefix, suffix, keyword, sequence number. -/
def lsaBase (naming : LsaNaming) (suffix : List NameComponent) (lsaType : LsaType) (seqNo : Nat) :
    List NameComponent :=
  (naming.lsaPrefix.components ++ suffix) ++
    [NameComponent.generic (typeStr lsaType), NameComponent.generic (encodeNniMinimal seqNo)]

theorem publishedName_base (inside : InNetwork naming router suffix) (lsaType : LsaType)
    (seqNo : Nat) :
    (naming.publishedName router lsaType seqNo).components =
      lsaBase naming suffix lsaType seqNo := by
  rw [LsaNaming.publishedName, Name.appendComponent, LsaNaming.userPrefixFor, inside.dropped,
    List.append_assoc]
  rfl

theorem interestName_base (inside : InNetwork naming router suffix) (lsaType : LsaType)
    (seqNo : Nat) :
    (naming.interestName router lsaType seqNo).components =
      lsaBase naming suffix lsaType seqNo := by
  rw [LsaNaming.interestName, inside.dropped, List.append_assoc]
  rfl

theorem length_lsaBase (inside : InNetwork naming router suffix) (lsaType : LsaType)
    (seqNo : Nat) :
    naming.lsaPrefix.components.length + 3 ≤ (lsaBase naming suffix lsaType seqNo).length := by
  have longer := List.length_pos_of_ne_nil inside.longer
  rw [lsaBase, List.length_append, List.length_append]
  change _ ≤ _ + 2
  omega

theorem take_lsaBase (lsaType : LsaType) (seqNo : Nat) :
    (lsaBase naming suffix lsaType seqNo).take naming.lsaPrefix.components.length =
      naming.lsaPrefix.components := by
  rw [lsaBase, List.append_assoc]
  exact List.take_left

theorem parseBase_lsaBase (inside : InNetwork naming router suffix) (lsaType : LsaType)
    {seqNo : Nat} (small : seqNo < 2 ^ 64) :
    naming.parseBase typed (lsaBase naming suffix lsaType seqNo) =
      some (router, lsaType, seqNo) := by
  have nni : LsaNaming.nniFromComp typed (NameComponent.generic (encodeNniMinimal seqNo)) =
      some seqNo := by
    rw [LsaNaming.nniFromComp, typed.asSequenceNum_generic, typed.asSegment_generic]
    exact parseNni_encode small
  have keyword : lsaTypeOf (NameComponent.generic (typeStr lsaType)).value = some lsaType :=
    lsaTypeOf_typeStr lsaType
  rw [LsaNaming.parseBase, lsaBase, getLast_pair, get_pair, take_pair]
  simp only [Option.bind_eq_bind, Option.bind_some, nni, keyword]
  rw [List.drop_left, inside.name]

theorem parseUpdateName_published (inside : InNetwork naming router suffix) (lsaType : LsaType)
    {seqNo : Nat} (small : seqNo < 2 ^ 64) :
    naming.parseUpdateName typed (naming.publishedName router lsaType seqNo) =
      some (router, lsaType, seqNo) := by
  have length := length_lsaBase inside lsaType seqNo
  have nni : (typed.asSequenceNum (NameComponent.generic (encodeNniMinimal seqNo))).or
      (parseNniBytes (NameComponent.generic (encodeNniMinimal seqNo)).value) = some seqNo := by
    rw [typed.asSequenceNum_generic]
    exact parseNni_encode small
  have keyword : lsaTypeOf (NameComponent.generic (typeStr lsaType)).value = some lsaType :=
    lsaTypeOf_typeStr lsaType
  unfold LsaNaming.parseUpdateName
  rw [publishedName_base inside, if_neg (by omega), if_neg (not_not.mpr (take_lsaBase _ _)),
    lsaBase, getLast_pair, get_pair, take_pair]
  simp only [Option.bind_eq_bind, Option.bind_some, nni, keyword]
  rw [List.drop_left, if_neg inside.longer, inside.name]

/-- Nothing is stripped from a name that ends in a generic component. -/
theorem stripVersion_lsaBase (lsaType : LsaType) (seqNo : Nat) :
    LsaNaming.stripVersion typed (lsaBase naming suffix lsaType seqNo) =
      lsaBase naming suffix lsaType seqNo := by
  rw [LsaNaming.stripVersion, lsaBase, List.reverse_append]
  change (if (typed.asSegment _).isSome ∧ _ then _ else _) = _
  rw [typed.asSegment_generic, if_neg (by simp)]

theorem stripVersion_trailing (front : List NameComponent) {version segment : NameComponent}
    (versioned : (typed.asVersion version).isSome) (segmented : (typed.asSegment segment).isSome) :
    LsaNaming.stripVersion typed (front ++ [version, segment]) = front := by
  rw [LsaNaming.stripVersion, List.reverse_append]
  change (if _ ∧ _ then front.reverse.reverse else _) = _
  rw [if_pos ⟨segmented, versioned⟩, List.reverse_reverse]

end Names

section Exchange

/-- What may follow the name of an LSA in an Interest for it. -/
def Trailing (typed : TypedComponents) (trailing : List NameComponent) : Prop :=
  trailing = [] ∨ ∃ version segment, trailing = [version, segment] ∧
    (typed.asVersion version).isSome ∧ (typed.asSegment segment).isSome

def Lsa.wholeSecond : Lsa → Lsa
  | .adjacency lsa => .adjacency { lsa with expirationMs := lsa.expirationMs / 1000 * 1000 }
  | .name lsa => .name { lsa with expirationMs := lsa.expirationMs / 1000 * 1000 }
  | .coordinate lsa => .coordinate { lsa with expirationMs := lsa.expirationMs / 1000 * 1000 }

def Lsa.costs : Lsa → List ℚ
  | .adjacency lsa => lsa.adjacencies.map (·.linkCost)
  | .name lsa => lsa.prefixes.map (·.cost)
  | .coordinate lsa => lsa.radius :: lsa.angles

/-- The LSA as the origin's Data carries it to another router. -/
def carried (value : UInt64 → ℚ) (bits : ℚ → UInt64) (lsa : Lsa) : Lsa :=
  lsaOfWire value (wireOfLsa bits lsa).wholeSecond

variable {value : UInt64 → ℚ} {bits : ℚ → UInt64}

theorem map_exact {A : Type} {items : List A} {read : A → A}
    (exact' : ∀ item ∈ items, read item = item) : items.map read = items := by
  conv_rhs => rw [← List.map_id items]
  exact List.map_congr_left exact'

theorem wholeSecond_ofNat {ms : Nat} (early : ms < Wire.year10000) :
    (Wire.wholeSecond (UInt64.ofNat ms)).toNat = ms / 1000 * 1000 := by
  have small : ms < 2 ^ 64 := early.trans (by decide)
  rw [Wire.wholeSecond, UInt64.toNat_ofNat', UInt64.toNat_ofNat', Nat.mod_eq_of_lt small,
    Nat.mod_eq_of_lt (by omega)]

theorem toNat_ofNat_small {n : Nat} (small : n < 2 ^ 64) : (UInt64.ofNat n).toNat = n := by
  rw [UInt64.toNat_ofNat', Nat.mod_eq_of_lt small]

/-- Costs that are `f64` values survive, and so does all else but the fraction of a second. -/
theorem carried_eq {lsa : Lsa} (small : lsa.seqNo < 2 ^ 64)
    (early : lsa.expirationMs < Wire.year10000)
    (floats : ∀ cost ∈ lsa.costs, value (bits cost) = cost) :
    carried value bits lsa = lsa.wholeSecond := by
  cases lsa with
  | adjacency lsa =>
    have number : (UInt64.ofNat lsa.seqNo).toNat = lsa.seqNo := toNat_ofNat_small small
    have expiry : (Wire.wholeSecond (UInt64.ofNat lsa.expirationMs)).toNat = _ :=
      wholeSecond_ofNat early
    have adjacencies : (lsa.adjacencies.map (fun adj =>
        (⟨adj.name, adj.faceUri, bits adj.linkCost⟩ : Wire.Adjacent))).map
          (fun adj => (⟨adj.name, adj.faceUri, value adj.linkCost⟩ : Adjacent)) =
            lsa.adjacencies := by
      rw [List.map_map]
      apply map_exact
      intro adj member
      rw [Function.comp_apply, floats _ (List.mem_map_of_mem member)]
    dsimp only [carried, wireOfLsa, Wire.Lsa.wholeSecond, lsaOfWire]
    rw [number, expiry, adjacencies]
    rfl
  | name lsa =>
    have number : (UInt64.ofNat lsa.seqNo).toNat = lsa.seqNo := toNat_ofNat_small small
    have expiry : (Wire.wholeSecond (UInt64.ofNat lsa.expirationMs)).toNat = _ :=
      wholeSecond_ofNat early
    have prefixes : (lsa.prefixes.map (fun p =>
        (⟨p.name, bits p.cost⟩ : Wire.PrefixInfo))).map
          (fun p => (⟨p.name, value p.cost⟩ : PrefixInfo)) = lsa.prefixes := by
      rw [List.map_map]
      apply map_exact
      intro p member
      rw [Function.comp_apply, floats _ (List.mem_map_of_mem member)]
    dsimp only [carried, wireOfLsa, Wire.Lsa.wholeSecond, lsaOfWire]
    rw [number, expiry, prefixes]
    rfl
  | coordinate lsa =>
    have number : (UInt64.ofNat lsa.seqNo).toNat = lsa.seqNo := toNat_ofNat_small small
    have expiry : (Wire.wholeSecond (UInt64.ofNat lsa.expirationMs)).toNat = _ :=
      wholeSecond_ofNat early
    have angles : (lsa.angles.map bits).map value = lsa.angles := by
      rw [List.map_map]
      exact map_exact (fun angle member => floats angle (List.mem_cons_of_mem _ member))
    dsimp only [carried, wireOfLsa, Wire.Lsa.wholeSecond, lsaOfWire]
    rw [number, expiry, angles, floats _ List.mem_cons_self]
    rfl

theorem decode_wireOfLsa (codec : NameCodec) {lsa : Lsa}
    (early : lsa.expirationMs < Wire.year10000) :
    Wire.Lsa.wireDecode codec lsa.lsaType ((wireOfLsa bits lsa).wireEncode codec) =
      .ok (wireOfLsa bits lsa).wholeSecond := by
  have small : lsa.expirationMs < 2 ^ 64 := early.trans (by decide)
  have type : (wireOfLsa bits lsa).lsaType = lsa.lsaType := by
    cases lsa <;> rfl
  have expiry : (wireOfLsa bits lsa).expirationMs.toNat = lsa.expirationMs := by
    rw [← toNat_ofNat_small small]
    cases lsa <;> rfl
  rw [← type]
  exact Wire.wireDecode_wireEncode (by rw [expiry]; exact early)

theorem lookup_lsaType {lsdb : Lsdb} {router : Name} {lsaType : LsaType} {lsa : Lsa}
    (stored : lsdb.lookup router lsaType = some lsa) : lsa.lsaType = lsaType := by
  rcases Option.map_eq_some_iff.mp stored with ⟨entry, found, rfl⟩
  have keyed := lsdb.keyed _ _ found
  exact congrArg LsaKey.lsaType keyed

theorem stripVersion_appended {naming : LsaNaming} {typed : TypedComponents}
    {suffix trailing : List NameComponent} (follows : Trailing typed trailing) (lsaType : LsaType)
    (seqNo : Nat) :
    LsaNaming.stripVersion typed (lsaBase naming suffix lsaType seqNo ++ trailing) =
      lsaBase naming suffix lsaType seqNo := by
  rcases follows with rfl | ⟨version, segment, rfl, versioned, segmented⟩
  · rw [List.append_nil]
    exact stripVersion_lsaBase lsaType seqNo
  · exact stripVersion_trailing _ versioned segmented

namespace NlsrSync

variable {sync : NlsrSync} {packets : LsaPackets sync.typed} {suffix : List NameComponent}

/-- The Interest for an LSA with what may follow its name. -/
def interestFor (sync : NlsrSync) (packets : LsaPackets sync.typed) (lsaType : LsaType)
    (seqNo : Nat) (trailing : List NameComponent) : List UInt8 :=
  packets.buildInterest
    ⟨(sync.naming.interestName sync.config.ownRouter lsaType seqNo).components ++ trailing⟩

/-- The Data that the origin answers with. -/
def answer (sync : NlsrSync) (packets : LsaPackets sync.typed) (bits : ℚ → UInt64) (now : Nat)
    (suffix : List NameComponent) (lsaType : LsaType) (lsa : Lsa) : List UInt8 :=
  packets.buildData
    ⟨lsaBase sync.naming suffix lsaType lsa.seqNo ++ [packets.version now, packets.segment 0]⟩
    ((wireOfLsa bits lsa).wireEncode sync.codec)

theorem serve_interestFor (lsdb : Lsdb) (now : Nat)
    (inside : InNetwork sync.naming sync.config.ownRouter suffix) (lsaType : LsaType)
    {seqNo : Nat} (small : seqNo < 2 ^ 64) {trailing : List NameComponent}
    (follows : Trailing sync.typed trailing) :
    sync.serveLsaInterest packets bits lsdb now
        (sync.interestFor packets lsaType seqNo trailing) =
      ((lsdb.lookup sync.config.ownRouter lsaType).filter (fun lsa => lsa.seqNo = seqNo)).map
        (sync.answer packets bits now suffix lsaType) := by
  have long := length_lsaBase inside lsaType seqNo
  unfold serveLsaInterest interestFor
  rw [interestName_base inside, packets.decode_buildInterest]
  simp only [Option.bind_eq_bind, Option.bind_some]
  rw [stripVersion_appended follows, if_neg (by omega), if_neg (not_not.mpr (take_lsaBase _ _)),
    parseBase_lsaBase inside lsaType small]
  simp only [Option.bind_some]
  rw [if_neg (not_not.mpr rfl)]
  cases lsdb.lookup sync.config.ownRouter lsaType with
  | none => rfl
  | some lsa =>
    rw [Option.bind_some]
    by_cases held : lsa.seqNo = seqNo
    · rw [if_neg (not_not.mpr held), Option.filter_some, if_pos (decide_eq_true held),
        Option.map_some, answer, held]
    · rw [if_pos held, Option.filter_some, if_neg (by simpa using held)]
      rfl

theorem dataName_answer (now : Nat) {router : Name} (inside : InNetwork sync.naming router suffix)
    (lsaType : LsaType) {seqNo : Nat} (small : seqNo < 2 ^ 64) :
    sync.dataName
      ⟨lsaBase sync.naming suffix lsaType seqNo ++ [packets.version now, packets.segment 0]⟩ =
        some (router, lsaType, seqNo) := by
  have long := length_lsaBase inside lsaType seqNo
  have follows : Trailing sync.typed [packets.version now, packets.segment 0] :=
    Or.inr ⟨_, _, rfl, packets.asVersion_version now, packets.asSegment_segment 0⟩
  unfold dataName
  rw [stripVersion_appended follows, if_neg (by omega), parseBase_lsaBase inside lsaType small]

theorem ioInbound_eq (state : SyncState) (now : Nat) {router : Name}
    (inside : InNetwork sync.naming router suffix) {lsa : Lsa} (small : lsa.seqNo < 2 ^ 64) :
    sync.ioInbound packets state (sync.answer packets bits now suffix lsa.lsaType lsa) =
      match Wire.Lsa.wireDecode sync.codec lsa.lsaType
          ((wireOfLsa bits lsa).wireEncode sync.codec) with
      | .ok lsa =>
        { state with lsdb := (state.lsdb.install state.clock (lsaOfWire sync.value lsa)).1 }
      | .err _ => state
      | .panic => { state with ioRunning := false } := by
  unfold ioInbound answer
  rw [packets.buildData_head]
  dsimp only
  rw [if_pos rfl, packets.decode_buildData]
  dsimp only
  unfold installLsaFromData
  rewrite [dataName_answer now inside lsa.lsaType small]
  rfl

theorem ioInbound_answer (state : SyncState) (now : Nat) {router : Name}
    (inside : InNetwork sync.naming router suffix) {lsa : Lsa} (small : lsa.seqNo < 2 ^ 64)
    (early : lsa.expirationMs < Wire.year10000) :
    sync.ioInbound packets state (sync.answer packets bits now suffix lsa.lsaType lsa) =
      { state with
        lsdb := (state.lsdb.install state.clock (carried sync.value bits lsa)).1 } := by
  rw [ioInbound_eq state now inside small, decode_wireOfLsa sync.codec early]
  rfl

/-- What a router publishes about its LSAs is read back as it is, the Interest for an LSA is
answered exactly when the origin holds it, and the answer installs that LSA, with its expiration
time rounded down to the second. -/
theorem exchange_agrees (sync : NlsrSync) (packets : LsaPackets sync.typed) (bits : ℚ → UInt64)
    (lsdb : Lsdb) (now : Nat) {suffix : List NameComponent}
    (inside : InNetwork sync.naming sync.config.ownRouter suffix) (lsaType : LsaType)
    {seqNo : Nat} (small : seqNo < 2 ^ 64) :
    sync.naming.parseUpdateName sync.typed
        (sync.naming.publishedName sync.config.ownRouter lsaType seqNo) =
      some (sync.config.ownRouter, lsaType, seqNo) ∧
    ∀ trailing, Trailing sync.typed trailing →
      ((sync.serveLsaInterest packets bits lsdb now
          (sync.interestFor packets lsaType seqNo trailing)).isSome ↔
        ∃ lsa, lsdb.lookup sync.config.ownRouter lsaType = some lsa ∧ lsa.seqNo = seqNo) ∧
      ∀ data lsa,
        sync.serveLsaInterest packets bits lsdb now
          (sync.interestFor packets lsaType seqNo trailing) = some data →
        lsdb.lookup sync.config.ownRouter lsaType = some lsa →
        lsa.expirationMs < Wire.year10000 →
        (∀ (peer : NlsrConfig) (state : SyncState),
          ioInbound { sync with config := peer } packets state data =
            { state with
              lsdb := (state.lsdb.install state.clock (carried sync.value bits lsa)).1 }) ∧
        ((∀ cost ∈ lsa.costs, sync.value (bits cost) = cost) →
          carried sync.value bits lsa = lsa.wholeSecond) := by
  refine ⟨parseUpdateName_published inside lsaType small, ?_⟩
  intro trailing follows
  rw [serve_interestFor lsdb now inside lsaType small follows]
  constructor
  · rw [Option.isSome_map, Option.isSome_filter]
    simp only [Option.any_eq_true, decide_eq_true_eq]
  · intro data lsa served stored early
    rw [stored, Option.filter_some] at served
    split at served
    · rename_i held
      have held : lsa.seqNo = seqNo := of_decide_eq_true held
      have type : lsa.lsaType = lsaType := lookup_lsaType stored
      cases served
      rw [← type]
      constructor
      · intro peer state
        exact @ioInbound_answer bits { sync with config := peer } packets suffix state now _ inside
          lsa (by rw [held]; exact small) early
      · exact carried_eq (by rw [held]; exact small) early
    · cases served

/-- Packets of the fields that are read, in the packet format. -/
def ndnPackets : LsaPackets TypedComponents.ndn where
  buildInterest := fun name => NdnTlv.writeTlv 5 (NdnTlv.writeTlv tlvName (NdnTlv.encodeName name))
  decodeInterest := fun bytes => do
    let (fields, _) ← NdnTlv.readTyped 5 bytes
    let (name, _) ← NdnTlv.readTyped tlvName fields
    NdnTlv.decodeName name
  buildData := NdnTlv.encodeData
  decodeData := NdnTlv.decodeData
  version := fun now => ⟨54, encodeNniMinimal now⟩
  segment := fun index => ⟨50, encodeNniMinimal index⟩
  decode_buildInterest := by
    intro name
    simp only [Option.bind_eq_bind, NdnTlv.readTyped_write_last, Option.bind_some,
      NdnTlv.decode_encode]
  decode_buildData := NdnTlv.decode_encodeData
  buildData_head := fun _ _ => rfl
  asVersion_version := by
    intro now
    change (parseNniBytes (encodeNniMinimal now)).isSome
    rw [parseNniBytes, encodeNniMinimal, minimalSlice_eq, length_beBytes,
      if_pos (minimalWidth_mem now)]
    rfl
  asSegment_segment := by
    intro index
    change (parseNniBytes (encodeNniMinimal index)).isSome
    rw [parseNniBytes, encodeNniMinimal, minimalSlice_eq, length_beBytes,
      if_pos (minimalWidth_mem index)]
    rfl

/-- The own LSA of router `/1`, which expires at the given time. -/
def expiringLsa (expirationMs : Nat) : Lsa := .name ⟨Name.single 1, 300, expirationMs, []⟩

def holding (lsa : Lsa) : Lsdb :=
  (Lsdb.new (Name.single 1)).insertEntry (Lsdb.newEntry ⟨1700000000000, 0⟩ lsa)

/-- Router `/2` of the same network. -/
def routerTwo : NlsrSync :=
  { routerOne with config := { routerOne.config with ownRouter := Name.single 2 } }

def peerState : SyncState := routerTwo.start ⟨1700000000000, 0⟩

theorem routerOne_inNetwork :
    InNetwork routerOne.naming routerOne.config.ownRouter [NameComponent.generic [1]] :=
  ⟨rfl, by decide⟩

theorem exchange_agrees_ndn :
    ∃ data,
      routerOne.serveLsaInterest ndnPackets (fun _ => 0) (holding (expiringLsa 1700000600000)) 5
        (routerOne.interestFor ndnPackets .name 300 [⟨54, [1]⟩, ⟨50, [0]⟩]) = some data ∧
      (routerTwo.ioInbound ndnPackets peerState data).lsdb.lookup (Name.single 1) .name =
        some (expiringLsa 1700000600000) := by
  have agrees := (exchange_agrees routerOne ndnPackets (fun _ => 0)
    (holding (expiringLsa 1700000600000)) 5 routerOne_inNetwork .name
    (show 300 < 2 ^ 64 by decide)).2 [⟨54, [1]⟩, ⟨50, [0]⟩] (Or.inr ⟨_, _, rfl, by decide, by decide⟩)
  have stored : (holding (expiringLsa 1700000600000)).lookup routerOne.config.ownRouter .name =
      some (expiringLsa 1700000600000) := by decide
  rcases Option.isSome_iff_exists.mp (agrees.1.mpr ⟨_, stored, rfl⟩) with ⟨data, served⟩
  have reaches := agrees.2 data _ served stored (by decide)
  have installs : routerTwo.ioInbound ndnPackets peerState data = _ :=
    reaches.1 routerTwo.config peerState
  refine ⟨data, served, ?_⟩
  rw [installs, reaches.2 (by nofun)]
  decide +kernel

theorem served_ndn (expirationMs : Nat) :
    routerOne.serveLsaInterest ndnPackets (fun _ => 0) (holding (expiringLsa expirationMs)) 5
        (routerOne.interestFor ndnPackets .name 300 []) =
      some (routerTwo.answer ndnPackets (fun _ => 0) 5 [NameComponent.generic [1]] .name
        (expiringLsa expirationMs)) := by
  have stored : (holding (expiringLsa expirationMs)).lookup routerOne.config.ownRouter .name =
      some (expiringLsa expirationMs) := rfl
  refine (serve_interestFor _ _ routerOne_inNetwork .name (by decide) (Or.inl rfl)).trans ?_
  rw [stored]
  rfl

/-- A text of 20 bytes is no expiration time. -/
theorem decode_year10000 (codec : NameCodec) :
    Wire.Lsa.wireDecode codec (expiringLsa 253402300800000).lsaType
        ((wireOfLsa (fun _ => 0) (expiringLsa 253402300800000)).wireEncode codec) =
      .err .invalidDateTime := by
  have text : formatExpirationTime 253402300800000 = asBytes "10000-01-01 00:00:00" := by
    decide +kernel
  have refused : (parseExpirationTime "10000-01-01 00:00:00" : Wire.Decoded codec Nat) =
      .err .invalidDateTime := by
    unfold parseExpirationTime
    rw [if_pos (by decide)]
  change (Wire.NameLsa.wireDecode codec (codec.writeTlv Wire.tlvNameLsa
    (codec.writeTlv Wire.tlvLsa (_ ++ (_ ++ codec.writeTlv Wire.tlvExpirationTime
      (formatExpirationTime 253402300800000))) ++ _)) >>= _) = _
  rw [text, Wire.NameLsa.wireDecode, Wire.readExpected_write_last, Outcome.ok_bind]
  dsimp only
  rw [Wire.readLsaHeader_text _ _ (fromUtf8_asBytes _), refused]
  rfl

/-- The origin serves an LSA that expires within a second as one that expires at its start, and
one that expires after the year 9999 as one that no router can read. -/
theorem served_lsa_differs :
    (∃ data,
      routerOne.serveLsaInterest ndnPackets (fun _ => 0) (holding (expiringLsa 1700000600999)) 5
        (routerOne.interestFor ndnPackets .name 300 []) = some data ∧
      (routerTwo.ioInbound ndnPackets peerState data).lsdb.lookup (Name.single 1) .name =
        some (expiringLsa 1700000600000)) ∧
    ∃ data,
      routerOne.serveLsaInterest ndnPackets (fun _ => 0) (holding (expiringLsa 253402300800000)) 5
        (routerOne.interestFor ndnPackets .name 300 []) = some data ∧
      routerTwo.ioInbound ndnPackets peerState data = peerState := by
  have inside : InNetwork routerTwo.naming (Name.single 1) [NameComponent.generic [1]] :=
    routerOne_inNetwork
  constructor
  · have installs : routerTwo.ioInbound ndnPackets peerState (routerTwo.answer ndnPackets
        (fun _ => 0) 5 [NameComponent.generic [1]] .name (expiringLsa 1700000600999)) = _ :=
      @ioInbound_answer _ routerTwo ndnPackets _ peerState 5 _ inside
        (expiringLsa 1700000600999) (by decide) (by decide)
    refine ⟨_, served_ndn 1700000600999, ?_⟩
    rw [installs, carried_eq (by decide) (by decide) (by nofun)]
    decide +kernel
  · have reads : routerTwo.ioInbound ndnPackets peerState (routerTwo.answer ndnPackets
        (fun _ => 0) 5 [NameComponent.generic [1]] .name (expiringLsa 253402300800000)) = _ :=
      @ioInbound_eq _ routerTwo ndnPackets _ peerState 5 _ inside
        (expiringLsa 253402300800000) (by decide)
    refine ⟨_, served_ndn 253402300800000, ?_⟩
    rw [reads, decode_year10000]

end NlsrSync

end Exchange

end NdnExt.Nlsr
