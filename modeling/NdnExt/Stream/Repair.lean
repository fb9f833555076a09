import NdnExt.Stream.Producer

/-! The rows of a repair group, and that the producer publishes the parity of every complete one. -/

namespace NdnExt.Stream

open NdnExt.Lib List

theorem le_foldl_max (values : List Nat) (first : Nat) :
    first ≤ values.foldl max first ∧ ∀ value ∈ values, value ≤ values.foldl max first := by
  induction values generalizing first with
  | nil => exact ⟨Nat.le_refl _, nofun⟩
  | cons head tail ih =>
    rw [foldl_cons]
    rcases ih (max first head) with ⟨start, rest⟩
    constructor
    · exact (Nat.le_max_left first head).trans start
    · intro value listed
      rcases mem_cons.mp listed with same | later
      · rw [same]
        exact (Nat.le_max_right first head).trans start
      · exact rest value later

theorem foldl_max_same {values : List Nat} {width : Nat} (nonempty : values ≠ [])
    (same : ∀ value ∈ values, value = width) : values.foldl max 0 = width := by
  have bounded : ∀ (items : List Nat) (first : Nat), first ≤ width →
      (∀ value ∈ items, value = width) → items.foldl max first ≤ width := by
    intro items
    induction items with
    | nil => exact fun _ first_le _ => first_le
    | cons head tail ih =>
      intro first first_le equal
      have head_eq := equal head mem_cons_self
      exact ih (max first head) (by omega) (fun value listed =>
        equal value (mem_cons_of_mem _ listed))
  rcases exists_mem_of_ne_nil values nonempty with ⟨value, listed⟩
  have upper := bounded values 0 (Nat.zero_le _) same
  have lower := (le_foldl_max values 0).2 value listed
  have equal := same value listed
  omega

variable {payload : Bytes} {payloads : List Bytes} {group k : Nat}

theorem le_rowsWidth (listed : payload ∈ payloads) :
    4 + payload.length ≤ rowsWidth payloads := by
  rw [rowsWidth, if_neg (ne_nil_of_mem listed)]
  exact (le_foldl_max _ 0).2 _ (mem_map_of_mem listed)

theorem length_frame (payload : Bytes) (width : Nat) : (frame payload width).length = width := by
  rw [frame, length_take, length_append, length_replicate]
  omega

theorem unframe_frame {width : Nat} (short : payload.length < 2 ^ 32)
    (fits : 4 + payload.length ≤ width) : unframe (frame payload width) = some payload := by
  have header_length : (beBytes 4 payload.length).length = 4 := length_beBytes 4 _
  have header : (frame payload width).take 4 = beBytes 4 payload.length := by
    rw [frame, Nat.mod_eq_of_lt short, take_take, Nat.min_eq_left (by omega),
      append_assoc, take_left' header_length]
  have value : ofBe (beBytes 4 payload.length) = payload.length := ofBe_beBytes short
  rw [unframe, header, value, length_frame, if_neg (by omega), if_neg (by omega), frame,
    Nat.mod_eq_of_lt short, drop_take, append_assoc, drop_left' header_length,
    take_take, Nat.min_eq_left (by omega), take_left' rfl]

/-- The payloads of a group's sources. -/
def groupPayloads (payloads : List Bytes) (k group : Nat) : List Bytes :=
  (payloads.drop (group * k)).take k

def sourceRows (payloads : List Bytes) (k group : Nat) : List Bytes :=
  (groupPayloads payloads k group).map (fun payload =>
    frame payload (rowsWidth (groupPayloads payloads k group)))

/-- The erasure code for a shape: its index space is that of 16-bit numbers, parity rows are as
wide as the rows they are made from, and any `k` rows with different indices give the sources. -/
structure MdsCode (encoder : RowEncoder) (codec : RowCodec) (cfg : FecConfig) : Prop where
  shape : cfg.k + cfg.r < 2 ^ 16
  encodes : ∀ rows width, rows.length = cfg.k → (∀ row ∈ rows, row.length = width) →
    ∃ parity, encoder cfg.k (cfg.k + cfg.r) rows = some parity ∧
      ∀ i < cfg.r, ∃ row, parity (cfg.k + i) = some row ∧ row.length = width
  recovers : ∀ rows width parity held, rows.length = cfg.k → (∀ row ∈ rows, row.length = width) →
    encoder cfg.k (cfg.k + cfg.r) rows = some parity → held.length = cfg.k →
    (held.map Prod.fst).Nodup →
    (∀ item ∈ held, rows[item.1]? = some item.2 ∨
      ∃ i < cfg.r, item.1 = cfg.k + i ∧ parity (cfg.k + i) = some item.2) →
    codec cfg.k (cfg.k + cfg.r) held = some rows

theorem groupPayloads_getElem? (payloads : List Bytes) {idx : Nat} (inside : idx < k) :
    (groupPayloads payloads k group)[idx]? = payloads[group * k + idx]? := by
  rw [groupPayloads, List.getElem?_take, if_pos inside, List.getElem?_drop]

theorem length_groupPayloads
    (complete : group * k + k ≤ payloads.length) : (groupPayloads payloads k group).length = k := by
  rw [groupPayloads, length_take, length_drop]
  omega

/-- A complete group does not change when more is published. -/
theorem groupPayloads_append
    (complete : group * k + k ≤ payloads.length) (more : List Bytes) :
    groupPayloads (payloads ++ more) k group = groupPayloads payloads k group := by
  rw [groupPayloads, drop_append_of_le_length (by omega),
    take_append_of_le_length (by rw [length_drop]; omega)]
  rfl

theorem sourceRows_width (payloads : List Bytes) (k group : Nat) :
    ∀ row ∈ sourceRows payloads k group,
      row.length = rowsWidth (groupPayloads payloads k group) := by
  intro row listed
  rcases mem_map.mp listed with ⟨payload, _, same⟩
  rw [← same, length_frame]

/-- A parity item of a complete group. -/
def IsParity (encoder : RowEncoder) (cfg : FecConfig) (payloads : List Bytes) (item : ParityItem) :
    Prop :=
  item.group * cfg.k + cfg.k ≤ payloads.length ∧ item.index < cfg.r ∧
    ∃ parity, encoder cfg.k (cfg.k + cfg.r) (sourceRows payloads cfg.k item.group) = some parity ∧
      parity (cfg.k + item.index) = some item.payload

theorem IsParity.append {encoder : RowEncoder} {cfg : FecConfig}
    {item : ParityItem} (genuine : IsParity encoder cfg payloads item) (more : List Bytes) :
    IsParity encoder cfg (payloads ++ more) item := by
  rcases genuine with ⟨complete, index, parity, encoded, row⟩
  refine ⟨by rw [length_append]; omega, index, parity, ?_, row⟩
  rw [sourceRows, groupPayloads_append complete]
  exact encoded

section Publishing

variable {encoder : RowEncoder} {cfg : FecConfig} {payloads : List Bytes}

theorem emit_parity {enc : GroupEncoder} {items : List ParityItem}
    (emitted : enc.emit encoder group = .ok items) {item : ParityItem} (listed : item ∈ items) :
    item.group = group ∧ item.index < enc.cfg.r ∧
      ∃ parity, encoder enc.cfg.k (enc.cfg.k + enc.cfg.r)
          (enc.current.map (fun payload => frame payload (rowsWidth enc.current))) = some parity ∧
        parity (enc.cfg.k + item.index) = some item.payload := by
  unfold GroupEncoder.emit at emitted
  split at emitted
  · cases emitted
    cases listed
  · rcases Outcome.bind_eq_ok.mp emitted with ⟨n, shape, emitted⟩
    rw [(u16_eq_ok shape).2] at emitted
    split at emitted
    · cases emitted
      cases listed
    · next parity encoded =>
      cases emitted
      rcases mem_filterMap.mp listed with ⟨i, inside, made⟩
      rcases Option.map_eq_some_iff.mp made with ⟨row, read, same⟩
      rw [← same]
      exact ⟨rfl, mem_range.mp inside, parity, encoded, read⟩

/-- The producer after publishing the payloads. -/
structure Produces (encoder : RowEncoder) (cfg : FecConfig) (payloads : List Bytes)
    (producer : SessionProducer) (published : List Published) : Prop where
  next : producer.nextSeq = payloads.length
  enc : producer.fec =
    some ⟨cfg, payloads.drop (payloads.length / cfg.k * cfg.k), payloads.length⟩
  small : payloads.length < 2 ^ 64
  seqs : published.map Published.seq = List.range payloads.length
  parity : ∀ out ∈ published, ∀ item ∈ out.parity, IsParity encoder cfg payloads item

theorem produces_start (session retention : Nat) (cfg : FecConfig) :
    Produces encoder cfg [] (.new session ⟨retention, some cfg⟩) [] where
  next := rfl
  enc := by simp [SessionProducer.new, GroupEncoder.new]
  small := by decide
  seqs := rfl
  parity := nofun

/-- The items of the current group with one more, which completes the group or not. -/
theorem push_cases {enc enc' : GroupEncoder} {items : List ParityItem}
    (pushed : enc.push encoder payload = .ok (enc', items)) :
    enc.nextSeq + 1 < 2 ^ 64 ∧
      ((enc.current.length + 1 < max enc.cfg.k 1 ∧ items = [] ∧
          enc' = ⟨enc.cfg, enc.current ++ [payload], enc.nextSeq + 1⟩) ∨
        (max enc.cfg.k 1 ≤ enc.current.length + 1 ∧
          (⟨enc.cfg, enc.current ++ [payload], enc.nextSeq⟩ : GroupEncoder).emit encoder
            (groupOf enc.nextSeq enc.cfg.k) = .ok items ∧
          enc' = ⟨enc.cfg, [], enc.nextSeq + 1⟩)) := by
  rcases Outcome.bind_eq_ok.mp pushed with ⟨nextSeq, counted, pushed⟩
  rcases u64_eq_ok counted with ⟨small, same⟩
  refine ⟨small, ?_⟩
  dsimp only at pushed
  rw [length_append, length_singleton] at pushed
  split at pushed
  · next room =>
    cases pushed
    exact Or.inl ⟨room, rfl, by rw [same]⟩
  · next full =>
    rcases Outcome.bind_eq_ok.mp pushed with ⟨emitted, emits, pushed⟩
    cases pushed
    exact Or.inr ⟨Nat.le_of_not_lt full, emits, by rw [same]⟩

theorem div_succ_same {count : Nat}
    (room : count - count / k * k + 1 < k) : (count + 1) / k = count / k := by
  have lower := Nat.div_mul_le_self count k
  refine Nat.div_eq_of_lt_le ?_ ?_
  · omega
  · rw [Nat.succ_mul]
    omega

theorem div_succ_next {count : Nat} (positive : 1 ≤ k)
    (full : k ≤ count - count / k * k + 1) :
    (count + 1) / k = count / k + 1 ∧ count + 1 = count / k * k + k := by
  have upper : count < count / k * k + k := Nat.lt_div_mul_add positive
  have lower := Nat.div_mul_le_self count k
  have ends : count + 1 = count / k * k + k := by omega
  refine ⟨?_, ends⟩
  rw [ends, ← Nat.succ_mul, Nat.mul_div_cancel _ positive]

theorem produces_publish (positive : 1 ≤ cfg.k) {producer producer' : SessionProducer}
    {published : List Published} (produces : Produces encoder cfg payloads producer published)
    {out : Published}
    (publishes : producer.publish encoder payload = .ok (producer', out)) :
    Produces encoder cfg (payloads ++ [payload]) producer' (published ++ [out]) := by
  have width : max cfg.k 1 = cfg.k := Nat.max_eq_left positive
  rcases Outcome.bind_eq_ok.mp publishes with ⟨nextSeq, counted, publishes⟩
  rw [produces.enc] at publishes
  rcases Outcome.bind_eq_ok.mp publishes with ⟨⟨enc, items⟩, pushed, publishes⟩
  cases publishes
  rcases push_cases pushed with ⟨small, pushes⟩
  rw [length_drop, width] at pushes
  have count : nextSeq = payloads.length + 1 := by
    rw [(u64_eq_ok counted).2, produces.next]
  have length : (payloads ++ [payload]).length = payloads.length + 1 := by
    rw [length_append, length_singleton]
  have below := Nat.div_mul_le_self payloads.length cfg.k
  have seqs : (published ++ [(⟨producer.nextSeq, items⟩ : Published)]).map Published.seq =
      List.range (payloads ++ [payload]).length := by
    rw [length, range_succ, map_append, produces.seqs, produces.next]
    rfl
  have earlier : ∀ out ∈ published, ∀ item ∈ out.parity,
      IsParity encoder cfg (payloads ++ [payload]) item := fun out listed item inside =>
    (produces.parity out listed item inside).append [payload]
  rcases pushes with ⟨room, none, after⟩ | ⟨full, emitted, after⟩
  · refine ⟨count.trans length.symm, ?_, length ▸ small, seqs, ?_⟩
    · rw [after, length, div_succ_same room, drop_append_of_le_length below]
    · intro out listed item inside
      rcases mem_append.mp listed with before | last
      · exact earlier out before item inside
      · rw [mem_singleton.mp last, none] at inside
        cases inside
  · rcases div_succ_next positive full with ⟨next, ends⟩
    refine ⟨count.trans length.symm, ?_, length ▸ small, seqs, ?_⟩
    · have empty : (payloads ++ [payload]).drop ((payloads.length / cfg.k + 1) * cfg.k) = [] := by
        rw [drop_eq_nil_iff, length, Nat.succ_mul]
        omega
      rw [after, length, next, empty]
    · intro out listed item inside
      rcases mem_append.mp listed with before | last
      · exact earlier out before item inside
      · rw [mem_singleton.mp last] at inside
        rcases emit_parity emitted inside with ⟨group, index, parity, encoded, row⟩
        have group_eq : item.group = payloads.length / cfg.k := by
          rw [group, groupOf, width]
        have rows : payloads.drop (payloads.length / cfg.k * cfg.k) ++ [payload] =
            groupPayloads (payloads ++ [payload]) cfg.k item.group := by
          rw [group_eq, groupPayloads, drop_append_of_le_length below, take_of_length_le]
          rw [length_append, length_drop, length_singleton]
          omega
        refine ⟨?_, index, parity, ?_, row⟩
        · rw [group_eq, length]
          omega
        · rw [sourceRows, ← rows]
          exact encoded

theorem emit_ok (shape : cfg.k + cfg.r < 2 ^ 16) {enc : GroupEncoder} (same : enc.cfg = cfg)
    (group : Nat) : ∃ items, enc.emit encoder group = .ok items := by
  have fits : (u16 (cfg.k + cfg.r) : Checked Nat) = .ok (cfg.k + cfg.r) := if_pos shape
  unfold GroupEncoder.emit
  rw [same]
  split
  · exact ⟨_, rfl⟩
  · rw [fits, Outcome.ok_bind]
    split
    · exact ⟨_, rfl⟩
    · exact ⟨_, rfl⟩

theorem push_ok (shape : cfg.k + cfg.r < 2 ^ 16) {enc : GroupEncoder} (same : enc.cfg = cfg)
    (countable : enc.nextSeq + 1 < 2 ^ 64) (payload : Bytes) :
    ∃ pushed, enc.push encoder payload = .ok pushed := by
  unfold GroupEncoder.push
  rw [u64_ok countable, Outcome.ok_bind]
  dsimp only
  split
  · exact ⟨_, rfl⟩
  · rcases @emit_ok encoder cfg shape ⟨enc.cfg, enc.current ++ [payload], enc.nextSeq⟩ same
      (groupOf enc.nextSeq enc.cfg.k) with ⟨items, emitted⟩
    rw [emitted]
    exact ⟨_, rfl⟩

theorem publish_ok (shape : cfg.k + cfg.r < 2 ^ 16) {producer : SessionProducer}
    {published : List Published} (produces : Produces encoder cfg payloads producer published)
    (countable : payloads.length + 1 < 2 ^ 64) (payload : Bytes) :
    ∃ done, producer.publish encoder payload = .ok done := by
  rcases @push_ok encoder cfg shape ⟨cfg, payloads.drop (payloads.length / cfg.k * cfg.k),
    payloads.length⟩ rfl countable payload with ⟨pushed, pushes⟩
  unfold SessionProducer.publish
  dsimp only
  rw [produces.next, u64_ok countable, Outcome.ok_bind, produces.enc]
  dsimp only
  rw [pushes]
  exact ⟨_, rfl⟩

theorem produces_publishAll (positive : 1 ≤ cfg.k) (shape : cfg.k + cfg.r < 2 ^ 16)
    (session retention : Nat) (countable : payloads.length < 2 ^ 64) :
    ∃ producer published,
      (SessionProducer.new session ⟨retention, some cfg⟩).publishAll encoder payloads =
        .ok (producer, published) ∧ Produces encoder cfg payloads producer published := by
  have run : ∀ (rest done : List Bytes) (producer : SessionProducer) (published : List Published),
      Produces encoder cfg done producer published → (done ++ rest).length < 2 ^ 64 →
      ∃ producer' published', rest.foldlM (fun done payload => do
          let out ← done.1.publish encoder payload
          pure (out.1, done.2 ++ [out.2])) (producer, published) =
            (.ok (producer', published') : Checked _) ∧
        Produces encoder cfg (done ++ rest) producer' published' := by
    intro rest
    induction rest with
    | nil =>
      intro done producer published produces _
      rw [append_nil]
      exact ⟨producer, published, rfl, produces⟩
    | cons payload rest ih =>
      intro done producer published produces countable
      have one : done.length + 1 < 2 ^ 64 := by
        rw [length_append, length_cons] at countable
        omega
      rcases publish_ok shape produces one payload with ⟨⟨next, out⟩, publishes⟩
      rw [← singleton_append, ← append_assoc] at countable
      rcases ih (done ++ [payload]) next (published ++ [out])
        (produces_publish positive produces publishes) countable with
        ⟨producer', published', folded, produces'⟩
      refine ⟨producer', published', ?_, ?_⟩
      · rw [foldlM_cons, publishes]
        exact folded
      · rw [append_assoc] at produces'
        exact produces'
  exact run payloads [] _ [] (produces_start session retention cfg) countable

end Publishing

end NdnExt.Stream
