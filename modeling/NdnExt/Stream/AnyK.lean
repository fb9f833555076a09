import NdnExt.Stream.Repair
import Mathlib.Data.Finset.Card

/-! A group's sources are recovered from any `k` of its items, once and exactly. -/

namespace NdnExt.Stream

open NdnExt.Lib HashMap List Nat GroupDecoder AList

/-- The payload published under a number. -/
def payloadAt (payloads : List Bytes) (seq : Nat) : Bytes := (payloads[seq]?).getD []

/-- What a group's state may hold: its own sources, and its own parity rows. -/
structure Held (encoder : RowEncoder) (cfg : FecConfig) (payloads : List Bytes) (group : Nat)
    (state : GroupState) : Prop where
  sources : ∀ idx payload, state.sources.lookup idx = some payload →
    idx < cfg.k ∧ payloads[group * cfg.k + idx]? = some payload
  parities : ∀ idx row, state.parities.lookup idx = some row →
    IsParity encoder cfg payloads ⟨group, idx, row⟩

def missing (k : Nat) (state : GroupState) : List Nat :=
  (List.range k).filter (fun idx => idx ∉ state.sources)

variable {idx : Nat} {decoder : GroupDecoder}

section Rows

variable {encoder : RowEncoder} {codec : RowCodec} {cfg : FecConfig} {payloads : List Bytes}
  {group : Nat} {state : GroupState}

theorem getElem?_payloadAt {seq : Nat} (published : seq < payloads.length) :
    payloads[seq]? = some (payloadAt payloads seq) := by
  rw [payloadAt, List.getElem?_eq_getElem published, Option.getD_some]

theorem sourceRows_getElem? (inside : idx < cfg.k) :
    (sourceRows payloads cfg.k group)[idx]? = (payloads[group * cfg.k + idx]?).map (fun payload =>
      frame payload (rowsWidth (groupPayloads payloads cfg.k group))) := by
  rw [sourceRows, List.getElem?_map, groupPayloads_getElem? payloads inside]

theorem fits_rowsWidth (inside : idx < cfg.k) {payload : Bytes}
    (found : payloads[group * cfg.k + idx]? = some payload) :
    4 + payload.length ≤ rowsWidth (groupPayloads payloads cfg.k group) := by
  have listed : (groupPayloads payloads cfg.k group)[idx]? = some payload := by
    rw [groupPayloads_getElem? payloads inside, found]
  exact le_rowsWidth (mem_of_getElem? listed)

/-- Every missing source is taken from its row. -/
theorem takeRow_missing (complete : group * cfg.k + cfg.k ≤ payloads.length)
    (small : payloads.length < 2 ^ 64) (short : ∀ payload ∈ payloads, payload.length < 2 ^ 32)
    (wanted : List Nat) (inside : ∀ idx ∈ wanted, idx < cfg.k) (out : List (Nat × Bytes)) :
    ∃ sources, wanted.foldlM (takeRow cfg.k group (sourceRows payloads cfg.k group))
        (state, out) =
      .ok ({ state with sources := sources }, out ++ wanted.map (fun idx =>
        (group * cfg.k + idx, payloadAt payloads (group * cfg.k + idx)))) ∧
      ∀ idx, sources.lookup idx = if idx ∈ wanted then
        some (payloadAt payloads (group * cfg.k + idx)) else state.sources.lookup idx := by
  induction wanted generalizing state out with
  | nil =>
    refine ⟨state.sources, ?_, fun _ => by rw [if_neg not_mem_nil]⟩
    rw [foldlM_nil, map_nil, append_nil]
    rfl
  | cons idx rest ih =>
    have below := inside idx mem_cons_self
    have published : group * cfg.k + idx < payloads.length := by omega
    have found := getElem?_payloadAt published
    obtain ⟨payload, value⟩ : ∃ payload, payloadAt payloads (group * cfg.k + idx) = payload :=
      ⟨_, rfl⟩
    rw [value] at found
    have row : (sourceRows payloads cfg.k group)[idx]? = some (frame payload
        (rowsWidth (groupPayloads payloads cfg.k group))) := by
      rw [sourceRows_getElem? below, found, Option.map_some]
    have unframed := unframe_frame (short _ (mem_of_getElem? found))
      (fits_rowsWidth below found)
    have taken : takeRow cfg.k group (sourceRows payloads cfg.k group) (state, out)
        idx = .ok (⟨state.sources.insert idx payload, state.parities, state.recovered⟩,
          out ++ [(group * cfg.k + idx, payload)]) := by
      rw [takeRow, row]
      dsimp only
      rw [unframed]
      dsimp only
      rw [u64_ok (by omega), Outcome.ok_bind, u64_ok (by omega), Outcome.ok_bind]
      rfl
    rcases @ih ⟨state.sources.insert idx payload, state.parities, state.recovered⟩
      (fun idx later => inside idx (mem_cons_of_mem _ later))
      (out ++ [(group * cfg.k + idx, payload)]) with ⟨sources, folded, lookups⟩
    refine ⟨sources, ?_, ?_⟩
    · rw [foldlM_cons, taken, Outcome.ok_bind, folded, map_cons, value, append_assoc]
      rfl
    · intro other
      rw [lookups other, lookup_insert_eq]
      by_cases later : other ∈ rest
      · rw [if_pos later, if_pos (mem_cons_of_mem _ later)]
      · by_cases same : other = idx
        · rw [if_neg later, if_pos same, if_pos (same ▸ mem_cons_self), same, value]
        · rw [if_neg later, if_neg same, if_neg]
          exact fun either => (mem_cons.mp either).elim same later

theorem mem_inOrder {rows : HashMap Nat Bytes} {row : Bytes} :
    (idx, row) ∈ inOrder rows ↔ rows.lookup idx = some row := by
  rw [inOrder, (perm_insertionSort _ _).mem_iff, mem_pairs]

theorem inOrder_keys (rows : HashMap Nat Bytes) :
    ((inOrder rows).map Prod.fst).Perm rows.keys := by
  rw [← pairs_keys]
  exact (perm_insertionSort _ _).map Prod.fst

/-- The rows that a group's state gives the decoder. -/
def atHand (cfg : FecConfig) (state : GroupState) (width : Nat) : List (Nat × Bytes) :=
  (inOrder state.sources).map (fun row => (row.1, frame row.2 width)) ++
    (inOrder state.parities).map (fun row => (cfg.k + row.1, row.2))

theorem atHand_length (cfg : FecConfig) (state : GroupState) (width : Nat) :
    (atHand cfg state width).length =
      state.sources.keys.length + state.parities.keys.length := by
  have sources := (inOrder_keys state.sources).length_eq
  have parities := (inOrder_keys state.parities).length_eq
  rw [length_map] at sources parities
  rw [atHand, length_append, length_map, length_map, sources, parities]

theorem atHand_nodup (held : Held encoder cfg payloads group state) (width : Nat) :
    ((atHand cfg state width).map Prod.fst).Nodup := by
  have keys : (atHand cfg state width).map Prod.fst = (inOrder state.sources).map Prod.fst ++
      ((inOrder state.parities).map Prod.fst).map (cfg.k + ·) := by
    rw [atHand, map_append, map_map, map_map, map_map]
    rfl
  rw [keys]
  refine nodup_append'.mpr ⟨(inOrder_keys _).nodup_iff.mpr state.sources.keys_nodup, ?_, ?_⟩
  · exact ((inOrder_keys _).nodup_iff.mpr state.parities.keys_nodup).map
      (fun _ _ same => add_left_cancel same)
  · intro idx source parity
    rcases mem_map.mp source with ⟨⟨key, payload⟩, listed, same⟩
    rcases mem_map.mp parity with ⟨other, _, shifted⟩
    have below := (held.sources key payload (mem_inOrder.mp listed)).1
    omega

theorem atHand_rows (held : Held encoder cfg payloads group state) {parity : Nat → Option Bytes}
    (encoded : encoder cfg.k (cfg.k + cfg.r) (sourceRows payloads cfg.k group) = some parity) :
    ∀ item ∈ atHand cfg state (rowsWidth (groupPayloads payloads cfg.k group)),
      (sourceRows payloads cfg.k group)[item.1]? = some item.2 ∨
        ∃ i < cfg.r, item.1 = cfg.k + i ∧ parity (cfg.k + i) = some item.2 := by
  intro item listed
  rcases mem_append.mp listed with source | parities
  · rcases mem_map.mp source with ⟨⟨idx, payload⟩, listed, same⟩
    rcases held.sources idx payload (mem_inOrder.mp listed) with ⟨inside, found⟩
    refine Or.inl ?_
    rw [← same, sourceRows_getElem? inside, found, Option.map_some]
  · rcases mem_map.mp parities with ⟨⟨idx, row⟩, listed, same⟩
    rcases held.parities idx row (mem_inOrder.mp listed) with ⟨_, inside, parity', encoded', read⟩
    rw [encoded] at encoded'
    cases encoded'
    refine Or.inr ⟨idx, inside, ?_⟩
    rw [← same]
    exact ⟨rfl, read⟩

theorem parity_width (code : MdsCode encoder codec cfg) {item : ParityItem}
    (genuine : IsParity encoder cfg payloads item) :
    item.payload.length = rowsWidth (groupPayloads payloads cfg.k item.group) := by
  rcases genuine with ⟨complete, inside, parity, encoded, read⟩
  have length : (sourceRows payloads cfg.k item.group).length = cfg.k := by
    rw [sourceRows, length_map, length_groupPayloads complete]
  rcases code.encodes _ _ length (sourceRows_width payloads cfg.k item.group) with
    ⟨parity', encoded', rows⟩
  rw [encoded] at encoded'
  cases encoded'
  rcases rows item.index inside with ⟨row, read', width⟩
  rw [read] at read'
  cases read'
  exact width

/-- The parity rows show the width of the group. -/
theorem width_at_hand (code : MdsCode encoder codec cfg)
    (held : Held encoder cfg payloads group state) (some_parity : state.parities.keys ≠ []) :
    (state.parities.pairs.map (fun row => row.2.length)).foldl max 0 =
      rowsWidth (groupPayloads payloads cfg.k group) := by
  refine foldl_max_same ?_ ?_
  · intro empty
    have nothing := map_eq_nil_iff.mp empty
    exact some_parity (by rw [← pairs_keys, nothing, map_nil])
  · intro width listed
    rcases mem_map.mp listed with ⟨⟨idx, row⟩, member, same⟩
    rw [← same]
    exact parity_width code (held.parities idx row (mem_pairs.mp member))

/-- What the published stream and the erasure code provide. -/
structure Repairable (encoder : RowEncoder) (codec : RowCodec) (cfg : FecConfig)
    (payloads : List Bytes) : Prop where
  code : MdsCode encoder codec cfg
  positive : 1 ≤ cfg.k
  small : payloads.length < 2 ^ 64
  short : ∀ payload ∈ payloads, payload.length < 2 ^ 32

/-- A full group: the decoder gets the rows it needs, and every missing source comes back. -/
theorem tryRecover_full (repairable : Repairable encoder codec cfg payloads)
    (shape : decoder.cfg = cfg)
    (found : decoder.groups.lookup group = some state)
    (held : Held encoder cfg payloads group state) (unrecovered : state.recovered = false)
    (lacking : state.sources.keys.length < cfg.k)
    (full : state.sources.keys.length + state.parities.keys.length = cfg.k) :
    ∃ sources, decoder.tryRecover codec group =
        .ok (decoder.setGroup group ⟨sources, state.parities, true⟩,
          (missing cfg.k state).map (fun idx =>
            (group * cfg.k + idx, payloadAt payloads (group * cfg.k + idx)))) ∧
      ∀ idx, sources.lookup idx = if idx ∈ missing cfg.k state then
        some (payloadAt payloads (group * cfg.k + idx)) else state.sources.lookup idx := by
  have some_parity : state.parities.keys ≠ [] := by
    intro none
    rw [none] at full
    exact absurd full (Nat.ne_of_lt lacking)
  have width := width_at_hand repairable.code held some_parity
  have at_least : max cfg.k 1 = cfg.k := Nat.max_eq_left repairable.positive
  rcases exists_mem_of_ne_nil _ some_parity with ⟨index, listed⟩
  rcases mem_iff_lookup.mp (mem_keys.mpr listed) with ⟨row, read⟩
  rcases held.parities index row read with ⟨complete, _, parity, encoded, _⟩
  have recovers : codec cfg.k (cfg.k + cfg.r)
      (atHand cfg state (rowsWidth (groupPayloads payloads cfg.k group))) =
        some (sourceRows payloads cfg.k group) := by
    refine repairable.code.recovers _ _ parity _ ?_ (sourceRows_width payloads cfg.k group) encoded
      ?_ (atHand_nodup held _) (atHand_rows held encoded)
    · rw [sourceRows, length_map, length_groupPayloads complete]
    · rw [atHand_length, full]
  rcases @takeRow_missing cfg payloads group state complete repairable.small repairable.short
    (missing cfg.k state) (fun idx wanted => mem_range.mp (mem_filter.mp wanted).1) []
    with ⟨sources, taken, lookups⟩
  refine ⟨sources, ?_, lookups⟩
  have ready : ¬ (state.recovered = true ∨ state.sources.keys.length ≥ max cfg.k 1 ∨
      state.parities.keys = [] ∨
      state.sources.keys.length + state.parities.keys.length < max cfg.k 1) := by
    rw [at_least, unrecovered]
    intro idle
    rcases idle with recovered | sources | parities | few
    · cases recovered
    · exact absurd sources (Nat.not_le_of_lt lacking)
    · exact some_parity parities
    · omega
  have consistent : ¬ ((∃ row ∈ state.parities.pairs,
        row.2.length ≠ rowsWidth (groupPayloads payloads cfg.k group)) ∨
      ∃ row ∈ state.sources.pairs,
        4 + row.2.length > rowsWidth (groupPayloads payloads cfg.k group)) := by
    rintro (⟨⟨index, row⟩, member, differs⟩ | ⟨⟨idx, payload⟩, member, wide⟩)
    · exact differs (parity_width repairable.code
        (held.parities index row (mem_pairs.mp member)))
    · rcases held.sources idx payload (mem_pairs.mp member) with ⟨inside, found⟩
      exact absurd wide (Nat.not_lt_of_le (fits_rowsWidth inside found))
  have shaped : (u16 (cfg.k + cfg.r) : Checked Nat) = .ok (cfg.k + cfg.r) :=
    if_pos repairable.code.shape
  unfold tryRecover
  rw [found]
  dsimp only
  rw [shape, if_neg ready, width, if_neg consistent, shaped, Outcome.ok_bind]
  rw [atHand] at recovers
  rw [recovers]
  dsimp only
  rw [missing] at taken ⊢
  rw [taken]
  rfl

theorem tryRecover_idle (positive : 1 ≤ cfg.k)
    (shape : decoder.cfg = cfg) (found : decoder.groups.lookup group = some state)
    (idle : state.recovered = true ∨ cfg.k ≤ state.sources.keys.length ∨
      state.sources.keys.length + state.parities.keys.length < cfg.k) :
    decoder.tryRecover codec group = .ok (decoder, []) := by
  have at_least : max cfg.k 1 = cfg.k := max_eq_left positive
  unfold tryRecover
  rw [found]
  dsimp only
  rw [shape, at_least, if_pos]
  rcases idle with recovered | sources | few
  · exact Or.inl recovered
  · exact Or.inr (Or.inl sources)
  · exact Or.inr (Or.inr (Or.inr few))

end Rows

/-- An item given to the decoder. -/
inductive Offer where
  | source (seq : Nat) (payload : Bytes)
  | parity (item : ParityItem)

def GroupDecoder.offer (codec : RowCodec) (decoder : GroupDecoder) :
    Offer → Checked (GroupDecoder × List (Nat × Bytes))
  | .source seq payload => decoder.addSource codec seq payload
  | .parity item => decoder.addParity codec item

/-- The decoder after the offers, and all that it returned. -/
def offerAll (codec : RowCodec) (cfg : FecConfig) (offers : List Offer) :
    Checked (GroupDecoder × List (Nat × Bytes)) :=
  offers.foldlM (fun done offer => do
    let (decoder, answer) ← done.1.offer codec offer
    pure (decoder, done.2 ++ answer)) (.new cfg, [])

/-- The item is one of those published: a payload under its number, or a parity item. -/
def Offer.Published (payloads : List Bytes) (published : List Published) : Offer → Prop
  | source seq payload => (seq, payload) ∈ (published.map Published.seq).zip payloads
  | parity item => ∃ out ∈ published, item ∈ out.parity

/-- The group of an item, and its row there. -/
def Offer.row (k : Nat) : Offer → Nat × Nat
  | source seq _ => (groupOf seq k, seq % max k 1)
  | parity item => (item.group, k + item.index)

/-- The distinct items of a group that have been offered. -/
def offeredRows (k : Nat) (offers : List Offer) (group : Nat) : Finset Nat :=
  ((offers.filter (fun offer => (offer.row k).1 = group)).map (fun offer =>
    (offer.row k).2)).toFinset

def OfferedSource (offers : List Offer) (seq : Nat) : Prop :=
  ∃ payload, Offer.source seq payload ∈ offers

/-- What the decoder has returned is exact, once for each source, and all that is missing of the
groups with enough items. -/
structure Recovered (cfg : FecConfig) (payloads : List Bytes) (offers : List Offer)
    (returned : List (Nat × Bytes)) : Prop where
  exactly : ∀ item ∈ returned, payloads[item.1]? = some item.2
  once : (returned.map Prod.fst).Nodup
  enough : ∀ group, cfg.k ≤ (offeredRows cfg.k offers group).card → ∀ idx < cfg.k,
    OfferedSource offers (group * cfg.k + idx) ∨ group * cfg.k + idx ∈ returned.map Prod.fst
  few : ∀ group, (offeredRows cfg.k offers group).card < cfg.k →
    ∀ item ∈ returned, groupOf item.1 cfg.k ≠ group

/-- The rows that a group's state has. -/
def stateRows (k : Nat) (state : GroupState) : Finset Nat :=
  state.sources.keys.toFinset ∪ state.parities.keys.toFinset.image (k + ·)

/-- A group's state after the offers. -/
structure GroupSound (encoder : RowEncoder) (cfg : FecConfig) (payloads : List Bytes)
    (offers : List Offer) (returned : List (Nat × Bytes)) (group : Nat) (state : GroupState) :
    Prop where
  held : Held encoder cfg payloads group state
  origin : ∀ idx, idx ∈ state.sources → OfferedSource offers (group * cfg.k + idx) ∨
    group * cfg.k + idx ∈ returned.map Prod.fst
  collecting : state.recovered = false → offeredRows cfg.k offers group = stateRows cfg.k state ∧
    (cfg.k ≤ state.sources.keys.length ∨
      state.sources.keys.length + state.parities.keys.length < cfg.k) ∧
    ∀ item ∈ returned, groupOf item.1 cfg.k ≠ group
  finished : state.recovered = true → (∀ idx < cfg.k, idx ∈ state.sources) ∧
    cfg.k ≤ (offeredRows cfg.k offers group).card

theorem offeredRows_append (k : Nat) (offers : List Offer) (offer : Offer) (group : Nat) :
    offeredRows k (offers ++ [offer]) group =
      if (offer.row k).1 = group then insert (offer.row k).2 (offeredRows k offers group)
      else offeredRows k offers group := by
  rw [offeredRows, filter_append, filter_singleton]
  split
  · next same =>
    rw [decide_eq_true same, cond_true, map_append, toFinset_append, map_singleton]
    ext row
    simp [offeredRows]
  · next other =>
    rw [decide_eq_false other, cond_false, append_nil]
    rfl

theorem offeredSource_append {offers : List Offer} {seq : Nat} (offered : OfferedSource offers seq)
    (offer : Offer) : OfferedSource (offers ++ [offer]) seq := by
  rcases offered with ⟨payload, listed⟩
  exact ⟨payload, mem_append_left _ listed⟩

section Rows

variable {rows : HashMap Nat Bytes} {key : Nat} {value : Bytes}

theorem lookup_orInsert {other : Nat} {found : Bytes}
    (read : (orInsert rows key value).lookup other = some found) :
    rows.lookup other = some found ∨ other = key ∧ found = value := by
  rw [orInsert] at read
  split at read
  · exact Or.inl read
  · rw [lookup_insert_eq] at read
    split at read
    · next same =>
      cases read
      exact Or.inr ⟨same, rfl⟩
    · exact Or.inl read

theorem keys_orInsert (rows : HashMap Nat Bytes) (key : Nat) (value : Bytes) :
    (orInsert rows key value).keys.toFinset = insert key rows.keys.toFinset := by
  rw [orInsert]
  split
  · next present =>
    exact (Finset.insert_eq_of_mem (mem_toFinset.mpr (mem_keys.mp present))).symm
  · next absent =>
    rw [keys_insert, erase_of_not_mem (fun listed => absent (mem_keys.mpr listed)),
      toFinset_cons]

theorem keys_card (rows : HashMap Nat Bytes) : rows.keys.toFinset.card = rows.keys.length :=
  toFinset_card_of_nodup rows.keys_nodup

theorem length_orInsert (rows : HashMap Nat Bytes) (key : Nat) (value : Bytes) :
    rows.keys.length ≤ (orInsert rows key value).keys.length := by
  rw [← keys_card, ← keys_card, keys_orInsert]
  exact Finset.card_le_card (Finset.subset_insert _ _)

end Rows

theorem stateRows_card {encoder : RowEncoder} {cfg : FecConfig} {payloads : List Bytes}
    {group : Nat} {state : GroupState} (held : Held encoder cfg payloads group state) :
    (stateRows cfg.k state).card = state.sources.keys.length + state.parities.keys.length := by
  have disjoint : Disjoint state.sources.keys.toFinset
      (state.parities.keys.toFinset.image (cfg.k + ·)) := by
    rw [Finset.disjoint_left]
    intro idx source parity
    rcases Finset.mem_image.mp parity with ⟨other, _, shifted⟩
    rcases mem_iff_lookup.mp (mem_keys.mpr (mem_toFinset.mp source)) with
      ⟨payload, found⟩
    have below := (held.sources idx payload found).1
    omega
  rw [stateRows, Finset.card_union_of_disjoint disjoint,
    Finset.card_image_of_injective _ (fun _ _ same => add_left_cancel same), keys_card,
    keys_card]

section Taking

variable {encoder : RowEncoder} {codec : RowCodec} {cfg : FecConfig} {payloads : List Bytes}
  {group : Nat} {state taken : GroupState} {offers : List Offer} {offer : Offer}
  {returned : List (Nat × Bytes)}

/-- The state of the offer's group with the offer's row. -/
structure Takes (encoder : RowEncoder) (cfg : FecConfig) (payloads : List Bytes)
    (offers : List Offer) (group : Nat) (state taken : GroupState) (offer : Offer) : Prop where
  held : Held encoder cfg payloads group taken
  row : (offer.row cfg.k).1 = group
  rows : stateRows cfg.k taken = insert (offer.row cfg.k).2 (stateRows cfg.k state)
  recovered : taken.recovered = state.recovered
  more : state.sources.keys.length ≤ taken.sources.keys.length
  kept : ∀ idx, idx ∈ state.sources → idx ∈ taken.sources
  origin : ∀ idx, idx ∈ taken.sources → idx ∈ state.sources ∨
    OfferedSource (offers ++ [offer]) (group * cfg.k + idx)

theorem complete_of_parity (held : Held encoder cfg payloads group state)
    (some_parity : state.parities.keys ≠ []) : group * cfg.k + cfg.k ≤ payloads.length := by
  rcases exists_mem_of_ne_nil _ some_parity with ⟨index, listed⟩
  rcases mem_iff_lookup.mp (mem_keys.mpr listed) with ⟨row, read⟩
  exact (held.parities index row read).1

theorem seq_group {k : Nat} (inside : idx < k) (group : Nat) :
    groupOf (group * k + idx) k = group ∧ (group * k + idx) % k = idx := by
  have positive : 1 ≤ k := by omega
  rw [groupOf, max_eq_left positive, mul_comm group k]
  constructor
  · rw [mul_add_div positive, div_eq_of_lt inside, add_zero]
  · rw [mul_add_mod, mod_eq_of_lt inside]

/-- As long as a group collects, its state has the sources that have been offered. -/
theorem offered_source_held
    (rows : offeredRows cfg.k offers group = stateRows cfg.k state)
    (inside : idx < cfg.k) (offered : OfferedSource offers (group * cfg.k + idx)) :
    idx ∈ state.sources := by
  rcases offered with ⟨payload, listed⟩
  rcases seq_group inside group with ⟨same, place⟩
  have positive : 1 ≤ cfg.k := by omega
  have row : (Offer.source (group * cfg.k + idx) payload).row cfg.k = (group, idx) := by
    rw [Offer.row, same, max_eq_left positive, place]
  have member : idx ∈ offeredRows cfg.k offers group := by
    refine mem_toFinset.mpr (mem_map.mpr ⟨_, mem_filter.mpr ⟨listed, ?_⟩, ?_⟩)
    · rw [row]
      exact decide_eq_true rfl
    · rw [row]
  rw [rows] at member
  rcases Finset.mem_union.mp member with source | parity
  · exact mem_keys.mpr (mem_toFinset.mp source)
  · rcases Finset.mem_image.mp parity with ⟨other, _, shifted⟩
    omega

/-- A group that is not recovered yet has room for one more row, or all of its sources. -/
theorem takes_total (sound : GroupSound encoder cfg payloads offers returned group state)
    (takes : Takes encoder cfg payloads offers group state taken offer)
    (unrecovered : taken.recovered = false) (lacking : taken.sources.keys.length < cfg.k) :
    taken.sources.keys.length + taken.parities.keys.length ≤ cfg.k := by
  have waits := (sound.collecting (takes.recovered.symm.trans unrecovered)).2.1
  have one := Finset.card_insert_le (offer.row cfg.k).2 (stateRows cfg.k state)
  rw [← takes.rows, stateRows_card takes.held, stateRows_card sound.held] at one
  have more := takes.more
  omega

theorem offeredRows_takes (takes : Takes encoder cfg payloads offers group state taken offer)
    (rows : offeredRows cfg.k offers group = stateRows cfg.k state) :
    offeredRows cfg.k (offers ++ [offer]) group = stateRows cfg.k taken := by
  rw [offeredRows_append, if_pos takes.row, rows, takes.rows]

/-- The group's state without a recovery. -/
theorem sound_idle (sound : GroupSound encoder cfg payloads offers returned group state)
    (takes : Takes encoder cfg payloads offers group state taken offer)
    (idle : taken.recovered = true ∨ cfg.k ≤ taken.sources.keys.length ∨
      taken.sources.keys.length + taken.parities.keys.length < cfg.k) :
    GroupSound encoder cfg payloads (offers ++ [offer]) returned group taken where
  held := takes.held
  origin := by
    intro idx inside
    rcases takes.origin idx inside with before | offered
    · exact (sound.origin idx before).imp (fun offered => offeredSource_append offered offer) id
    · exact Or.inl offered
  collecting := by
    intro unrecovered
    rcases sound.collecting (takes.recovered.symm.trans unrecovered) with ⟨rows, _, none⟩
    refine ⟨offeredRows_takes takes rows, ?_, none⟩
    rcases idle with recovered | rest
    · rw [unrecovered] at recovered
      cases recovered
    · exact rest
  finished := by
    intro recovered
    rcases sound.finished (takes.recovered.symm.trans recovered) with ⟨all, enough⟩
    refine ⟨fun idx inside => takes.kept idx (all idx inside), ?_⟩
    rw [offeredRows_append, if_pos takes.row]
    exact enough.trans (Finset.card_le_card (Finset.subset_insert _ _))

/-- What a call returns: missing sources of one group, of which nothing was returned before. -/
structure Answer (k : Nat) (payloads : List Bytes) (offers : List Offer)
    (returned : List (Nat × Bytes)) (group : Nat) (answer : List (Nat × Bytes)) : Prop where
  exactly : ∀ item ∈ answer, payloads[item.1]? = some item.2
  unoffered : ∀ item ∈ answer, ¬ OfferedSource offers item.1
  inGroup : ∀ item ∈ answer, groupOf item.1 k = group
  once : (answer.map Prod.fst).Nodup
  first : answer ≠ [] → ∀ item ∈ returned, groupOf item.1 k ≠ group

theorem answer_nil (k : Nat) : Answer k payloads offers returned group [] where
  exactly := nofun
  unoffered := nofun
  inGroup := nofun
  once := nodup_nil
  first := fun empty => absurd rfl empty

theorem answer_missing (complete : group * cfg.k + cfg.k ≤ payloads.length)
    (rows : offeredRows cfg.k offers group = stateRows cfg.k state)
    (first : ∀ item ∈ returned, groupOf item.1 cfg.k ≠ group) :
    Answer cfg.k payloads offers returned group ((missing cfg.k state).map (fun idx =>
      (group * cfg.k + idx, payloadAt payloads (group * cfg.k + idx)))) where
  exactly := by
    intro item listed
    rcases mem_map.mp listed with ⟨idx, wanted, same⟩
    have inside := mem_range.mp (mem_filter.mp wanted).1
    rw [← same]
    exact getElem?_payloadAt (by omega)
  unoffered := by
    intro item listed offered
    rcases mem_map.mp listed with ⟨idx, wanted, same⟩
    rcases mem_filter.mp wanted with ⟨inside, absent⟩
    rw [← same] at offered
    exact of_decide_eq_true absent
      (offered_source_held rows (mem_range.mp inside) offered)
  inGroup := by
    intro item listed
    rcases mem_map.mp listed with ⟨idx, wanted, same⟩
    rw [← same]
    exact (seq_group (mem_range.mp (mem_filter.mp wanted).1) group).1
  once := by
    rw [map_map]
    exact (nodup_range.filter _).map (fun _ _ same => add_left_cancel same)
  first := fun _ => first

/-- The group's state with all of its sources. -/
theorem sound_full (complete : group * cfg.k + cfg.k ≤ payloads.length)
    (sound : GroupSound encoder cfg payloads offers returned group state)
    (takes : Takes encoder cfg payloads offers group state taken offer)
    (unrecovered : taken.recovered = false)
    (full : taken.sources.keys.length + taken.parities.keys.length = cfg.k)
    {sources : HashMap Nat Bytes}
    (lookups : ∀ idx, sources.lookup idx = if idx ∈ missing cfg.k taken then
      some (payloadAt payloads (group * cfg.k + idx)) else taken.sources.lookup idx) :
    GroupSound encoder cfg payloads (offers ++ [offer])
      (returned ++ (missing cfg.k taken).map (fun idx =>
        (group * cfg.k + idx, payloadAt payloads (group * cfg.k + idx)))) group
      ⟨sources, taken.parities, true⟩ where
  held := by
    refine ⟨?_, takes.held.parities⟩
    intro idx payload found
    rw [lookups] at found
    split at found
    · next wanted =>
      have inside := mem_range.mp (mem_filter.mp wanted).1
      cases found
      exact ⟨inside, getElem?_payloadAt (by omega)⟩
    · exact takes.held.sources idx payload found
  origin := by
    intro idx present
    rcases mem_iff_lookup.mp present with ⟨payload, found⟩
    rw [lookups] at found
    rw [map_append, mem_append, map_map]
    split at found
    · next wanted => exact Or.inr (Or.inr (mem_map.mpr ⟨idx, wanted, rfl⟩))
    · rcases takes.origin idx (mem_iff_lookup.mpr ⟨payload, found⟩) with before | offered
      · exact (sound.origin idx before).imp (fun offered => offeredSource_append offered offer)
          Or.inl
      · exact Or.inl offered
  collecting := nofun
  finished := by
    intro _
    constructor
    · intro idx inside
      refine mem_iff_lookup.mpr ?_
      rw [lookups]
      by_cases present : idx ∈ taken.sources
      · rcases mem_iff_lookup.mp present with ⟨payload, found⟩
        have held : idx ∉ missing cfg.k taken := fun wanted =>
          of_decide_eq_true (mem_filter.mp wanted).2 present
        exact ⟨payload, by rw [if_neg held, found]⟩
      · have wanted : idx ∈ missing cfg.k taken :=
          mem_filter.mpr ⟨mem_range.mpr inside, decide_eq_true present⟩
        exact ⟨_, if_pos wanted⟩
    · rcases sound.collecting (takes.recovered.symm.trans unrecovered) with ⟨rows, _, _⟩
      rw [offeredRows_takes takes rows, stateRows_card takes.held, full]

theorem tryRecover_taken (repairable : Repairable encoder codec cfg payloads)
    (sound : GroupSound encoder cfg payloads offers returned group state)
    (takes : Takes encoder cfg payloads offers group state taken offer)
    (shape : decoder.cfg = cfg) (found : decoder.groups.lookup group = some taken) :
    ∃ next answer, ((decoder.tryRecover codec group = .ok (decoder, answer) ∧ next = taken) ∨
        decoder.tryRecover codec group = .ok (decoder.setGroup group next, answer)) ∧
      GroupSound encoder cfg payloads (offers ++ [offer]) (returned ++ answer) group next ∧
      Answer cfg.k payloads (offers ++ [offer]) returned group answer := by
  by_cases idle : taken.recovered = true ∨ cfg.k ≤ taken.sources.keys.length ∨
      taken.sources.keys.length + taken.parities.keys.length < cfg.k
  · refine ⟨taken, [], Or.inl ⟨tryRecover_idle repairable.positive shape found idle, rfl⟩, ?_,
      answer_nil cfg.k⟩
    rw [append_nil]
    exact sound_idle sound takes idle
  · rw [not_or, not_or] at idle
    rcases idle with ⟨recovered, sources, few⟩
    have unrecovered : taken.recovered = false := Bool.eq_false_iff.mpr recovered
    have lacking := Nat.lt_of_not_le sources
    have full : taken.sources.keys.length + taken.parities.keys.length = cfg.k :=
      Nat.le_antisymm (takes_total sound takes unrecovered lacking) (Nat.le_of_not_lt few)
    have some_parity : taken.parities.keys ≠ [] := by
      intro none
      rw [none] at full
      exact absurd full (Nat.ne_of_lt lacking)
    have complete := complete_of_parity takes.held some_parity
    rcases tryRecover_full repairable shape found takes.held unrecovered lacking full with
      ⟨restored, recovers, lookups⟩
    rcases sound.collecting (takes.recovered.symm.trans unrecovered) with ⟨rows, _, first⟩
    exact ⟨_, _, Or.inr recovers, sound_full complete sound takes unrecovered full lookups,
      answer_missing complete (offeredRows_takes takes rows) first⟩

theorem takes_source (positive : 1 ≤ cfg.k)
    (sound : GroupSound encoder cfg payloads offers returned group state) {seq : Nat}
    {payload : Bytes} (published : payloads[seq]? = some payload)
    (same : groupOf seq cfg.k = group) :
    Takes encoder cfg payloads offers group state
      { state with sources := orInsert state.sources (seq % max cfg.k 1) payload }
      (.source seq payload) where
  held := by
    refine ⟨?_, sound.held.parities⟩
    intro idx value found
    rcases lookup_orInsert found with before | ⟨here, value_eq⟩
    · exact sound.held.sources idx value before
    · rw [max_eq_left positive] at here
      have place : group * cfg.k + idx = seq := by
        rw [← same, groupOf, max_eq_left positive, here, mul_comm]
        exact div_add_mod seq cfg.k
      rw [place, value_eq, here]
      exact ⟨mod_lt _ positive, published⟩
  row := same
  rows := by
    rw [stateRows, keys_orInsert, Finset.insert_union]
    rfl
  recovered := rfl
  more := length_orInsert _ _ _
  kept := by
    intro idx present
    have listed := mem_toFinset.mpr (mem_keys.mp present)
    refine mem_keys.mpr (mem_toFinset.mp ?_)
    rw [keys_orInsert]
    exact Finset.mem_insert_of_mem listed
  origin := by
    intro idx present
    rcases mem_iff_lookup.mp present with ⟨value, found⟩
    rcases lookup_orInsert found with before | ⟨here, _⟩
    · exact Or.inl (mem_iff_lookup.mpr ⟨value, before⟩)
    · rw [max_eq_left positive] at here
      have place : group * cfg.k + idx = seq := by
        rw [← same, groupOf, max_eq_left positive, here, mul_comm]
        exact div_add_mod seq cfg.k
      rw [place]
      exact Or.inr ⟨payload, mem_append_right _ (mem_singleton.mpr rfl)⟩

theorem takes_parity (sound : GroupSound encoder cfg payloads offers returned group state)
    {item : ParityItem} (genuine : IsParity encoder cfg payloads item)
    (same : item.group = group) :
    Takes encoder cfg payloads offers group state
      { state with parities := orInsert state.parities item.index item.payload }
      (.parity item) where
  held := by
    refine ⟨sound.held.sources, ?_⟩
    intro idx row found
    rcases lookup_orInsert found with before | ⟨here, row_eq⟩
    · exact sound.held.parities idx row before
    · rw [here, row_eq, ← same]
      exact genuine
  row := same
  rows := by
    rw [stateRows, keys_orInsert, Finset.image_insert, Finset.union_insert]
    rfl
  recovered := rfl
  more := le_refl _
  kept := fun _ present => present
  origin := fun _ present => Or.inl present

/-- A group that the offer is not of. -/
theorem sound_other (sound : GroupSound encoder cfg payloads offers returned group state)
    (other : (offer.row cfg.k).1 ≠ group) {answer : List (Nat × Bytes)}
    (elsewhere : ∀ item ∈ answer, groupOf item.1 cfg.k ≠ group) :
    GroupSound encoder cfg payloads (offers ++ [offer]) (returned ++ answer) group state where
  held := sound.held
  origin := by
    intro idx present
    rw [map_append, mem_append]
    exact (sound.origin idx present).imp (fun offered => offeredSource_append offered offer) Or.inl
  collecting := by
    intro unrecovered
    rcases sound.collecting unrecovered with ⟨rows, waits, none⟩
    rw [offeredRows_append, if_neg other]
    refine ⟨rows, waits, ?_⟩
    intro item listed
    exact (mem_append.mp listed).elim (none item) (elsewhere item)
  finished := by
    rw [offeredRows_append, if_neg other]
    exact sound.finished

end Taking

/-- The decoder after the offers. -/
structure DecoderSound (encoder : RowEncoder) (cfg : FecConfig) (payloads : List Bytes)
    (offers : List Offer) (returned : List (Nat × Bytes)) (decoder : GroupDecoder) : Prop where
  shape : decoder.cfg = cfg
  groups : ∀ group, GroupSound encoder cfg payloads offers returned group
    (decoder.groupState group)
  exactly : ∀ item ∈ returned, payloads[item.1]? = some item.2
  once : (returned.map Prod.fst).Nodup

/-- An offer that the published stream backs. -/
def Genuine (encoder : RowEncoder) (cfg : FecConfig) (payloads : List Bytes) : Offer → Prop
  | .source seq payload => payloads[seq]? = some payload
  | .parity item => IsParity encoder cfg payloads item

section Offering

variable {encoder : RowEncoder} {codec : RowCodec} {cfg : FecConfig} {payloads : List Bytes}
  {offers : List Offer} {offer : Offer} {returned : List (Nat × Bytes)} {decoder : GroupDecoder}

theorem groupState_setGroup (decoder : GroupDecoder) (group other : Nat) (state : GroupState) :
    (decoder.setGroup group state).groupState other =
      if other = group then state else decoder.groupState other := by
  rw [groupState, setGroup, lookup_insert_eq]
  split
  · rfl
  · rfl

theorem decoderSound_start (positive : 1 ≤ cfg.k) :
    DecoderSound encoder cfg payloads [] [] (.new cfg) where
  shape := rfl
  groups := by
    intro group
    refine ⟨⟨nofun, nofun⟩, ?_, ?_, nofun⟩
    · intro idx present
      rcases mem_iff_lookup.mp present with ⟨_, found⟩
      cases found
    · intro _
      exact ⟨rfl, Or.inr positive, nofun⟩
  exactly := nofun
  once := nodup_nil

section

variable (repairable : Repairable encoder codec cfg payloads)
include repairable

theorem decoderSound_taken
    (sound : DecoderSound encoder cfg payloads offers returned decoder) {group : Nat}
    {taken : GroupState}
    (takes : Takes encoder cfg payloads offers group (decoder.groupState group) taken offer) :
    ∃ next answer,
      (decoder.setGroup group taken).tryRecover codec group = .ok (next, answer) ∧
      DecoderSound encoder cfg payloads (offers ++ [offer]) (returned ++ answer) next ∧
      ∀ item ∈ answer, ¬ OfferedSource (offers ++ [offer]) item.1 := by
  have shape : (decoder.setGroup group taken).cfg = cfg := sound.shape
  have found : (decoder.setGroup group taken).groups.lookup group = some taken :=
    lookup_insert _
  rcases tryRecover_taken repairable (sound.groups group) takes shape found with
    ⟨state, answer, recovers, here, answers⟩
  have once : ((returned ++ answer).map Prod.fst).Nodup := by
    rw [map_append]
    refine nodup_append'.mpr ⟨sound.once, answers.once, ?_⟩
    intro seq before now
    rcases mem_map.mp before with ⟨item, listed, same⟩
    rcases mem_map.mp now with ⟨item', listed', same'⟩
    have elsewhere := answers.first (ne_nil_of_mem listed') item listed
    rw [same, ← same'] at elsewhere
    exact elsewhere (answers.inGroup item' listed')
  have exactly : ∀ item ∈ returned ++ answer, payloads[item.1]? = some item.2 := by
    intro item listed
    exact (mem_append.mp listed).elim (sound.exactly item) (answers.exactly item)
  have settled : ∀ next : GroupDecoder, next.cfg = cfg →
      (∀ other, next.groupState other =
        if other = group then state else decoder.groupState other) →
      DecoderSound encoder cfg payloads (offers ++ [offer]) (returned ++ answer) next := by
    intro next shape states
    refine ⟨shape, ?_, exactly, once⟩
    intro other
    rw [states other]
    split
    · next same => exact same ▸ here
    · next different =>
      refine sound_other (sound.groups other) (fun same => ?_) (fun item listed => ?_)
      · exact different (same.symm.trans takes.row)
      · rw [answers.inGroup item listed]
        exact Ne.symm different
  rcases recovers with ⟨idle, same⟩ | full
  · refine ⟨_, answer, idle, settled _ sound.shape ?_, answers.unoffered⟩
    rw [same]
    exact fun other => groupState_setGroup decoder group other taken
  · refine ⟨_, answer, full, settled _ sound.shape ?_, answers.unoffered⟩
    intro other
    rw [groupState_setGroup, groupState_setGroup]
    split
    · rfl
    · rfl

theorem decoderSound_offer
    (sound : DecoderSound encoder cfg payloads offers returned decoder)
    (genuine : Genuine encoder cfg payloads offer) :
    ∃ next answer, decoder.offer codec offer = .ok (next, answer) ∧
      DecoderSound encoder cfg payloads (offers ++ [offer]) (returned ++ answer) next ∧
      ∀ item ∈ answer, ¬ OfferedSource (offers ++ [offer]) item.1 := by
  cases offer with
  | source seq payload =>
    have takes := takes_source repairable.positive (sound.groups (groupOf seq cfg.k)) genuine rfl
    rcases decoderSound_taken repairable sound takes with ⟨next, answer, recovers, rest⟩
    refine ⟨next, answer, ?_, rest⟩
    rw [offer, addSource, sound.shape]
    exact recovers
  | parity item =>
    have takes := takes_parity (sound.groups item.group) genuine rfl
    rcases decoderSound_taken repairable sound takes with ⟨next, answer, recovers, rest⟩
    refine ⟨next, answer, ?_, rest⟩
    have inside : ¬ item.index ≥ cfg.r := Nat.not_le_of_lt genuine.2.1
    rw [offer, addParity, sound.shape, if_neg inside]
    exact recovers

theorem decoderSound_offerAll
    (genuine : ∀ offer ∈ offers, Genuine encoder cfg payloads offer) :
    ∃ decoder returned, offerAll codec cfg offers = .ok (decoder, returned) ∧
      DecoderSound encoder cfg payloads offers returned decoder := by
  have run : ∀ (rest done : List Offer) (decoder : GroupDecoder) (returned : List (Nat × Bytes)),
      DecoderSound encoder cfg payloads done returned decoder →
      (∀ offer ∈ rest, Genuine encoder cfg payloads offer) →
      ∃ decoder' returned', rest.foldlM (fun done offer => do
          let (decoder, answer) ← done.1.offer codec offer
          pure (decoder, done.2 ++ answer)) (decoder, returned) =
            (.ok (decoder', returned') : Checked _) ∧
        DecoderSound encoder cfg payloads (done ++ rest) returned' decoder' := by
    intro rest
    induction rest with
    | nil =>
      intro done decoder returned sound _
      rw [append_nil]
      exact ⟨decoder, returned, rfl, sound⟩
    | cons offer rest ih =>
      intro done decoder returned sound genuine
      rcases decoderSound_offer repairable sound (genuine offer mem_cons_self) with
        ⟨next, answer, offered, sound', _⟩
      rcases ih (done ++ [offer]) next (returned ++ answer) sound'
        (fun offer later => genuine offer (mem_cons_of_mem _ later)) with
        ⟨decoder', returned', folded, sound''⟩
      refine ⟨decoder', returned', ?_, ?_⟩
      · rw [foldlM_cons, offered]
        exact folded
      · rw [append_assoc] at sound''
        exact sound''
  exact run offers [] (.new cfg) [] (decoderSound_start repairable.positive) genuine

end

/-- With `k` distinct rows all sources are there, with fewer none has been returned. -/
theorem recovered_of_sound
    (sound : DecoderSound encoder cfg payloads offers returned decoder) :
    Recovered cfg payloads offers returned where
  exactly := sound.exactly
  once := sound.once
  enough := by
    intro group enough idx inside
    have here := sound.groups group
    refine here.origin idx ?_
    cases recovered : (decoder.groupState group).recovered with
    | true => exact (here.finished recovered).1 idx inside
    | false =>
      rcases here.collecting recovered with ⟨rows, waits, _⟩
      rw [rows, stateRows_card here.held] at enough
      have full : cfg.k ≤ (decoder.groupState group).sources.keys.toFinset.card := by
        rw [keys_card]
        omega
      have within : (decoder.groupState group).sources.keys.toFinset ⊆ Finset.range cfg.k := by
        intro key listed
        rcases mem_iff_lookup.mp (mem_keys.mpr (mem_toFinset.mp listed)) with
          ⟨payload, found⟩
        exact Finset.mem_range.mpr (here.held.sources key payload found).1
      have all := Finset.eq_of_subset_of_card_le within ((Finset.card_range cfg.k).trans_le full)
      have listed := Finset.mem_range.mpr inside
      rw [← all] at listed
      exact mem_keys.mpr (mem_toFinset.mp listed)
  few := by
    intro group few
    have here := sound.groups group
    cases recovered : (decoder.groupState group).recovered with
    | true => exact absurd (here.finished recovered).2 (Nat.not_le_of_lt few)
    | false => exact (here.collecting recovered).2.2

theorem genuine_of_published {producer : SessionProducer} {published : List Published}
    (produces : Produces encoder cfg payloads producer published)
    (offered : offer.Published payloads published) : Genuine encoder cfg payloads offer := by
  cases offer with
  | source seq payload =>
    rw [Offer.Published, produces.seqs] at offered
    rcases mem_iff_getElem?.mp offered with ⟨i, found⟩
    rcases List.getElem?_zip_eq_some.mp found with ⟨number, here⟩
    rcases List.getElem?_eq_some_iff.mp number with ⟨inside, same⟩
    rw [getElem_range] at same
    have place : i = seq := same
    rw [Genuine, ← place]
    exact here
  | parity item =>
    rcases offered with ⟨out, listed, inside⟩
    exact produces.parity out listed item inside

end Offering

/-- Any order, loss and duplication of what was published: no call fails, and what the decoder
returns is exact, once for each source that was not offered, and complete from `k` items on. -/
theorem anyK_recovers {encoder : RowEncoder} {codec : RowCodec} {cfg : FecConfig}
    (code : MdsCode encoder codec cfg) (positive : 1 ≤ cfg.k) (session retention : Nat)
    {payloads : List Bytes} (countable : payloads.length < 2 ^ 64)
    (short : ∀ payload ∈ payloads, payload.length < 2 ^ 32) :
    ∃ producer published,
      (SessionProducer.new session ⟨retention, some cfg⟩).publishAll encoder payloads =
        .ok (producer, published) ∧
      ∀ offers : List Offer, (∀ offer ∈ offers, offer.Published payloads published) →
        ∃ decoder returned, offerAll codec cfg offers = .ok (decoder, returned) ∧
          Recovered cfg payloads offers returned ∧
          ∀ offer : Offer, offer.Published payloads published →
            ∃ next answer, decoder.offer codec offer = .ok (next, answer) ∧
              ∀ item ∈ answer, ¬ OfferedSource (offers ++ [offer]) item.1 := by
  rcases produces_publishAll positive code.shape session retention countable with
    ⟨producer, published, publishes, produces⟩
  refine ⟨producer, published, publishes, ?_⟩
  have repairable : Repairable encoder codec cfg payloads := ⟨code, positive, countable, short⟩
  intro offers offered
  rcases decoderSound_offerAll repairable (fun offer listed =>
    genuine_of_published produces (offered offer listed)) with ⟨decoder, returned, folded, sound⟩
  refine ⟨decoder, returned, folded, recovered_of_sound sound, ?_⟩
  intro offer one
  rcases decoderSound_offer repairable sound (genuine_of_published produces one) with
    ⟨next, answer, answers, _, unoffered⟩
  exact ⟨next, answer, answers, unoffered⟩

/-- With one source in a group every row is the source itself. -/
def repeatRow : RowEncoder := fun _ _ rows => rows.head?.map (fun row _ => some row)

def firstRow : RowCodec := fun _ _ held => held.head?.map (fun item => [item.2])

theorem repetition_code (r : Nat) (shape : 1 + r < 2 ^ 16) : MdsCode repeatRow firstRow ⟨1, r⟩ where
  shape := shape
  encodes := by
    intro rows width length same
    rcases length_eq_one_iff.mp length with ⟨row, rows_eq⟩
    rw [rows_eq]
    refine ⟨fun _ => some row, rfl, fun i _ => ⟨row, rfl, same row ?_⟩⟩
    rw [rows_eq]
    exact mem_singleton.mpr rfl
  recovers := by
    intro rows width parity held length _ encoded size _ genuine
    rcases length_eq_one_iff.mp length with ⟨row, rows_eq⟩
    rcases length_eq_one_iff.mp size with ⟨item, held_eq⟩
    rw [rows_eq] at encoded genuine ⊢
    rw [held_eq] at genuine ⊢
    cases encoded
    have same : item.2 = row := by
      rcases genuine item (mem_singleton.mpr rfl) with source | ⟨_, _, _, repeated⟩
      · rcases List.getElem?_eq_some_iff.mp source with ⟨inside, here⟩
        have first : item.1 = 0 := lt_one_iff.mp inside
        simpa [first] using here.symm
      · exact (Option.some.inj repeated).symm
    rw [← same]
    rfl

/-- The one source of a group, from its parity. -/
theorem anyK_recovers_repetition : ∃ decoder returned,
    offerAll firstRow ⟨1, 1⟩ [.parity ⟨0, 0, frame [7] 5⟩] = .ok (decoder, returned) ∧
      (0, [7]) ∈ returned := by
  have short : ∀ payload ∈ ([[7]] : List Bytes), payload.length < 2 ^ 32 := by decide
  rcases anyK_recovers (repetition_code 1 (by decide)) (Nat.le_refl 1) 1 1024 (by decide) short
    with ⟨producer, published, publishes, recovers⟩
  have item : published = [⟨0, [⟨0, 0, frame [7] 5⟩]⟩] := by
    have computed : (SessionProducer.new 1 ⟨1024, some ⟨1, 1⟩⟩).publishAll repeatRow [[7]] =
        .ok (⟨1, ⟨1024, some ⟨1, 1⟩⟩, 1, [(0, [7])], some ⟨⟨1, 1⟩, [], 1⟩⟩,
          [⟨0, [⟨0, 0, frame [7] 5⟩]⟩]) := rfl
    rw [computed] at publishes
    cases publishes
    rfl
  have offered : ∀ offer ∈ [Offer.parity ⟨0, 0, frame [7] 5⟩],
      offer.Published [[7]] published := by
    intro offer listed
    rw [List.mem_singleton.mp listed, item]
    exact ⟨_, List.mem_singleton.mpr rfl, List.mem_singleton.mpr rfl⟩
  rcases recovers _ offered with ⟨decoder, returned, folded, recovered, _⟩
  refine ⟨decoder, returned, folded, ?_⟩
  have enough : 1 ≤ (offeredRows 1 [Offer.parity ⟨0, 0, frame [7] 5⟩] 0).card := by decide
  rcases recovered.enough 0 enough 0 (by decide) with ⟨payload, listed⟩ | listed
  · cases List.mem_singleton.mp listed
  · rcases List.mem_map.mp listed with ⟨⟨seq, payload⟩, member, same⟩
    have place : seq = 0 := same
    have exactly := recovered.exactly _ member
    rw [place] at exactly member
    cases exactly
    exact member

end NdnExt.Stream
