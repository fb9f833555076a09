import NdnExt.Stream.AnyK

/-! Where the arithmetic of repair groups stays in its integers. -/

namespace NdnExt.Stream

open NdnExt.Lib List GroupDecoder

/-! ### The encoder -/

section Encoder

variable (encoder : RowEncoder)

def pushFrom (enc : GroupEncoder) (payloads : List Bytes) : Checked GroupEncoder :=
  payloads.foldlM (fun enc payload => do
    let (enc, _) ← enc.push encoder payload
    pure enc) enc

variable {encoder} {enc : GroupEncoder}

theorem emit_ne_panic (group : Nat) :
    enc.emit encoder group ≠ .panic ↔ enc.cfg.r = 0 ∨ enc.cfg.k + enc.cfg.r < 2 ^ 16 := by
  unfold GroupEncoder.emit u16
  split
  · next none' => exact iff_of_true (by rintro ⟨⟩) (.inl none')
  · next some' =>
    rw [or_iff_right some']
    split
    · next fits =>
      refine iff_of_true ?_ fits
      rw [Outcome.ok_bind]
      split <;> rintro ⟨⟩
    · next overflows => exact iff_of_false (fun returns => returns rfl) overflows

/-- What one push needs. -/
theorem push_ne_panic (payload : Bytes) : enc.push encoder payload ≠ .panic ↔
    enc.nextSeq + 1 < 2 ^ 64 ∧ (max enc.cfg.k 1 ≤ enc.current.length + 1 →
      enc.cfg.r = 0 ∨ enc.cfg.k + enc.cfg.r < 2 ^ 16) := by
  unfold GroupEncoder.push u64
  split
  · next small =>
    rw [and_iff_right small, Outcome.ok_bind]
    dsimp only
    rw [length_append, length_singleton]
    split
    · next room => exact iff_of_true (by rintro ⟨⟩) (fun full => absurd full (Nat.not_le.mpr room))
    · next full =>
      rw [← @emit_ne_panic encoder ⟨enc.cfg, enc.current ++ [payload], enc.nextSeq⟩
        (groupOf enc.nextSeq enc.cfg.k), imp_iff_right (Nat.le_of_not_lt full)]
      refine not_congr ⟨fun stops => ?_, fun stops => by rw [stops]; rfl⟩
      rcases Outcome.bind_eq_panic.mp stops with stops | ⟨items, _, ⟨⟩⟩
      exact stops
  · next overflows => exact iff_of_false (fun returns => returns rfl) (fun both => overflows both.1)

/-- What a run of pushes needs: the shape counts once a group is complete. -/
theorem pushFrom_ne_panic {payloads : List Bytes} (room : enc.current.length < max enc.cfg.k 1) :
    pushFrom encoder enc payloads ≠ .panic ↔
      (payloads.length = 0 ∨ enc.nextSeq + payloads.length < 2 ^ 64) ∧
        (max enc.cfg.k 1 ≤ enc.current.length + payloads.length →
          enc.cfg.r = 0 ∨ enc.cfg.k + enc.cfg.r < 2 ^ 16) := by
  induction payloads generalizing enc with
  | nil =>
    refine iff_of_true (by rintro ⟨⟩) ⟨.inl rfl, fun full => ?_⟩
    exact absurd full (Nat.not_le.mpr room)
  | cons payload rest ih =>
    have one := @push_ne_panic encoder enc payload
    rw [pushFrom, foldlM_cons, length_cons]
    cases pushed : enc.push encoder payload with
    | err error => cases error
    | panic =>
      rw [pushed] at one
      refine iff_of_false (fun returns => returns rfl) ?_
      rintro ⟨small, shape⟩
      exact one.mpr ⟨by omega, fun full => shape (by omega)⟩ rfl
    | ok result =>
      rcases result with ⟨next, items⟩
      rw [pushed] at one
      rcases one.mp (by rintro ⟨⟩) with ⟨small, shape⟩
      change pushFrom encoder next rest ≠ .panic ↔ _
      rcases push_cases pushed with ⟨-, ⟨more, -, rfl⟩ | ⟨full, -, rfl⟩⟩
      · rw [ih (by rw [length_append]; exact more)]
        dsimp only
        rw [length_append, length_singleton]
        omega
      · rw [ih (Nat.lt_of_lt_of_le one_pos (le_max_right _ _))]
        dsimp only
        rw [length_nil]
        omega

end Encoder

/-! ### The decoder -/

/-- A row is taken, fails to unframe, or its number does not fit. -/
theorem takeRow_cases {k group idx : Nat} {rows : List Bytes} (inside : idx < rows.length)
    (state : GroupState × List (Nat × Bytes)) :
    takeRow k group rows state idx = .ok state ∨
      (group * k + idx < 2 ^ 64 ∧ ∃ payload, takeRow k group rows state idx =
        .ok ({ state.1 with sources := state.1.sources.insert idx payload },
          state.2 ++ [(group * k + idx, payload)])) ∨ 2 ^ 64 ≤ group * k + idx := by
  unfold takeRow
  rw [List.getElem?_eq_getElem inside]
  dsimp only
  split
  · exact .inl rfl
  · rcases Nat.lt_or_ge (group * k + idx) (2 ^ 64) with small | large
    · rw [u64_ok (by omega), Outcome.ok_bind, u64_ok small]
      exact .inr (.inl ⟨small, _, rfl⟩)
    · exact .inr (.inr large)

/-- Where their numbers fit, the missing sources are taken, and those held stay. -/
theorem takeRows_ok {k group : Nat} {rows : List Bytes} {wanted : List Nat}
    (inside : ∀ idx ∈ wanted, idx < rows.length)
    (small : ∀ idx ∈ wanted, group * k + idx < 2 ^ 64) (state : GroupState × List (Nat × Bytes)) :
    ∃ after, wanted.foldlM (takeRow k group rows) state = .ok after ∧
      (∀ idx ∈ state.1.sources, idx ∈ after.1.sources) ∧
        ∀ item ∈ after.2, item ∈ state.2 ∨ ∃ idx ∈ wanted, item.1 = group * k + idx := by
  induction wanted generalizing state with
  | nil => exact ⟨state, rfl, fun _ mem => mem, fun _ mem => .inl mem⟩
  | cons idx rest ih =>
    have step : ∃ next, takeRow k group rows state idx = .ok next ∧
        (∀ other ∈ state.1.sources, other ∈ next.1.sources) ∧
          ∀ item ∈ next.2, item ∈ state.2 ∨ item.1 = group * k + idx := by
      rcases takeRow_cases (inside idx mem_cons_self) state with
        same | ⟨-, payload, taken⟩ | large
      · exact ⟨state, same, fun _ mem => mem, fun _ mem => .inl mem⟩
      · refine ⟨_, taken, fun other mem => AList.mem_insert _ |>.mpr (.inr mem), fun item mem => ?_⟩
        rcases mem_append.mp mem with old | new
        · exact .inl old
        · rw [mem_singleton.mp new]
          exact .inr rfl
      · exact absurd (small idx mem_cons_self) (Nat.not_lt.mpr large)
    rcases step with ⟨next, taken, kept, added⟩
    rcases ih (fun other mem => inside other (mem_cons_of_mem _ mem))
      (fun other mem => small other (mem_cons_of_mem _ mem)) next with
      ⟨after, run, kept', added'⟩
    refine ⟨after, ?_, fun other mem => kept' other (kept other mem), fun item mem => ?_⟩
    · rw [foldlM_cons, taken, Outcome.ok_bind, run]
    · rcases added' item mem with before | ⟨other, listed, number⟩
      · exact (added item before).imp_right fun number => ⟨idx, mem_cons_self, number⟩
      · exact .inr ⟨other, mem_cons_of_mem _ listed, number⟩

/-- The group is to be recovered: it lacks sources, and has the items and the widths for it. -/
structure Attempts (k : Nat) (state : GroupState) : Prop where
  unrecovered : state.recovered = false
  lacking : state.sources.keys.length < max k 1
  parity : state.parities.keys ≠ []
  enough : max k 1 ≤ state.sources.keys.length + state.parities.keys.length
  even : ∀ row ∈ state.parities.pairs,
    row.2.length = (state.parities.pairs.map (fun row => row.2.length)).foldl max 0
  framed : ∀ row ∈ state.sources.pairs,
    4 + row.2.length ≤ (state.parities.pairs.map (fun row => row.2.length)).foldl max 0

/-- A recovery stays in its integers: of the shape, and of the numbers of what is missing. -/
def Recoverable (cfg : FecConfig) (group : Nat) (state : GroupState) : Prop :=
  Attempts cfg.k state → cfg.k + cfg.r < 2 ^ 16 ∧
    ∀ idx < cfg.k, idx ∉ state.sources → group * cfg.k + idx < 2 ^ 64

/-- What recovers gives a row for each source. -/
def GivesRows (codec : RowCodec) : Prop :=
  ∀ k n held rows, codec k n held = some rows → k ≤ rows.length

section Decoder

variable {codec : RowCodec} {decoder : GroupDecoder} {group : Nat} {state : GroupState}

/-- What a recovery does: no source is lost, and what is returned was missing. -/
structure Answers (decoder : GroupDecoder) (group : Nat) (state : GroupState)
    (after : GroupDecoder) (answer : List (Nat × Bytes)) : Prop where
  cfg : after.cfg = decoder.cfg
  others : ∀ other ≠ group, after.groups.lookup other = decoder.groups.lookup other
  kept : ∃ next, after.groups.lookup group = some next ∧ ∀ idx ∈ state.sources, idx ∈ next.sources
  missing : ∀ item ∈ answer, ∃ idx < decoder.cfg.k, idx ∉ state.sources ∧
    item.1 = group * decoder.cfg.k + idx

theorem tryRecover_ok (gives : GivesRows codec) (found : decoder.groups.lookup group = some state)
    (fits : Recoverable decoder.cfg group state) : ∃ after answer,
      decoder.tryRecover codec group = .ok (after, answer) ∧
        Answers decoder group state after answer := by
  have idle : Answers decoder group state decoder [] :=
    ⟨rfl, fun _ _ => rfl, ⟨state, found, fun _ mem => mem⟩, by simp⟩
  unfold tryRecover
  rw [found]
  dsimp only
  split
  · exact ⟨_, _, rfl, idle⟩
  split
  · exact ⟨_, _, rfl, idle⟩
  rename_i waits uneven
  simp only [not_or, not_exists, not_and, not_not, ge_iff_le, Nat.not_le, Nat.not_lt] at waits uneven
  rcases fits ⟨by simpa using waits.1, waits.2.1, waits.2.2.1, waits.2.2.2, uneven.1, uneven.2⟩ with
    ⟨shape, small⟩
  rw [u16, if_pos shape, Outcome.ok_bind]
  split
  · exact ⟨_, _, rfl, idle⟩
  next rows recovered =>
    have wanted : ∀ idx ∈ (List.range decoder.cfg.k).filter (fun idx => idx ∉ state.sources),
        idx < decoder.cfg.k ∧ idx ∉ state.sources := by
      intro idx mem
      rw [mem_filter, mem_range, decide_eq_true_iff] at mem
      exact mem
    rcases takeRows_ok
      (fun idx mem => (wanted idx mem).1.trans_le (gives _ _ _ _ recovered))
      (fun idx mem => small idx (wanted idx mem).1 (wanted idx mem).2) (state, []) with
      ⟨taken, run, kept, added⟩
    rw [run, Outcome.ok_bind]
    refine ⟨_, _, rfl, rfl, fun other apart => ?_, ⟨_, AList.lookup_insert _, kept⟩,
      fun item mem => ?_⟩
    · exact AList.lookup_insert_ne apart
    · rcases added item mem with nothing | ⟨idx, listed, number⟩
      · cases nothing
      · exact ⟨idx, (wanted idx listed).1, (wanted idx listed).2, number⟩

theorem mem_orInsert {rows : HashMap Nat Bytes} {key other : Nat} {value : Bytes} :
    other ∈ orInsert rows key value ↔ other = key ∨ other ∈ rows := by
  unfold orInsert
  split
  · next present => exact ⟨.inr, fun either => either.elim (fun same => same ▸ present) id⟩
  · exact AList.mem_insert rows

end Decoder

/-! ### Runs of the decoder -/

namespace Offer

def seqs : Offer → List Nat
  | source seq _ => [seq]
  | parity _ => []

/-- Parity beyond the shape is left out. -/
def Taken (r : Nat) : Offer → Prop
  | source _ _ => True
  | parity item => item.index < r

def put (k : Nat) (state : GroupState) : Offer → GroupState
  | source seq payload =>
    { state with sources := orInsert state.sources (seq % max k 1) payload }
  | parity item =>
    { state with parities := orInsert state.parities item.index item.payload }

variable {k : Nat} {state : GroupState} {item : Offer}

theorem mem_put {idx : Nat} (mem : idx ∈ state.sources) : idx ∈ (item.put k state).sources := by
  cases item with
  | source seq payload => exact mem_orInsert.mpr (.inr mem)
  | parity item => exact mem

theorem own_put {seq : Nat} (mem : seq ∈ item.seqs) :
    (item.row k).1 = groupOf seq k ∧ seq % max k 1 ∈ (item.put k state).sources := by
  cases item with
  | source own payload =>
    cases mem_singleton.mp mem
    exact ⟨rfl, mem_orInsert.mpr (.inl rfl)⟩
  | parity item => cases mem

end Offer

inductive DecoderCall where
  | offer (item : Offer)
  | evict (seq : Nat)

/-- A decoder, the sources that it was offered, and the groups below which it dropped some. -/
structure Offered where
  decoder : GroupDecoder
  sources : List Nat
  floor : Nat

namespace Offered

def start (cfg : FecConfig) : Offered := ⟨.new cfg, [], 0⟩

variable (codec : RowCodec)

def step (run : Offered) : DecoderCall → Checked (Offered × List (Nat × Bytes))
  | .offer item => do
    let (decoder, answer) ← run.decoder.offer codec item
    pure (⟨decoder, run.sources ++ item.seqs, run.floor⟩, answer)
  | .evict seq =>
    pure (⟨run.decoder.evictBelow seq, run.sources,
      max run.floor (groupOf seq run.decoder.cfg.k)⟩, [])

/-- The item belongs to no group that was dropped, and what it recovers stays in its integers. -/
def Fits (run : Offered) : DecoderCall → Prop
  | .offer item => item.Taken run.decoder.cfg.r →
    run.floor ≤ (item.row run.decoder.cfg.k).1 ∧
      Recoverable run.decoder.cfg (item.row run.decoder.cfg.k).1
        (item.put run.decoder.cfg.k (run.decoder.groupState (item.row run.decoder.cfg.k).1))
  | .evict _ => True

/-- What is returned for an item is of its group, and of no source offered so far. -/
def Right (k : Nat) (offered : List Nat) (answer : List (Nat × Bytes)) : DecoderCall → Prop
  | .offer item => ∀ found ∈ answer, groupOf found.1 k = (item.row k).1 ∧ found.1 ∉ offered
  | .evict _ => answer = []

def FitsThroughout : Offered → List DecoderCall → Prop
  | _, [] => True
  | run, call :: rest => run.Fits call ∧
    ∀ next answer, run.step codec call = .ok (next, answer) → FitsThroughout next rest

/-- No call panics, and every answer is right. -/
def SoundThroughout : Offered → List DecoderCall → Prop
  | _, [] => True
  | run, call :: rest => ∃ next answer, run.step codec call = .ok (next, answer) ∧
    Right run.decoder.cfg.k next.sources answer call ∧ SoundThroughout next rest

/-- The sources of the groups that were not dropped are held. -/
def Holds (run : Offered) : Prop :=
  ∀ seq ∈ run.sources, run.floor ≤ groupOf seq run.decoder.cfg.k →
    ∃ state, run.decoder.groups.lookup (groupOf seq run.decoder.cfg.k) = some state ∧
      seq % max run.decoder.cfg.k 1 ∈ state.sources

variable {codec} {run : Offered}

theorem offer_eq {item : Offer} (taken : item.Taken run.decoder.cfg.r) :
    run.decoder.offer codec item = (run.decoder.setGroup (item.row run.decoder.cfg.k).1
      (item.put run.decoder.cfg.k (run.decoder.groupState
        (item.row run.decoder.cfg.k).1))).tryRecover codec (item.row run.decoder.cfg.k).1 := by
  cases item with
  | source seq payload => rfl
  | parity item => exact if_neg (Nat.not_le.mpr taken)

/-- With the item in its group, the sources of the group that were offered are held. -/
theorem put_holds (holds : run.Holds) {item : Offer}
    (above : run.floor ≤ (item.row run.decoder.cfg.k).1) {seq : Nat}
    (mem : seq ∈ run.sources ++ item.seqs)
    (same : groupOf seq run.decoder.cfg.k = (item.row run.decoder.cfg.k).1) :
    seq % max run.decoder.cfg.k 1 ∈ (item.put run.decoder.cfg.k
      (run.decoder.groupState (item.row run.decoder.cfg.k).1)).sources := by
  rcases mem_append.mp mem with before | own
  · rcases holds seq before (by rw [same]; exact above) with ⟨state, found, held⟩
    rw [same] at found
    apply Offer.mem_put
    rw [groupState, found]
    exact held
  · exact (Offer.own_put own).2

theorem step_taken (gives : GivesRows codec) (holds : run.Holds) {item : Offer}
    (taken : item.Taken run.decoder.cfg.r) (fits : run.Fits (.offer item)) : ∃ next answer,
      run.step codec (.offer item) = .ok (next, answer) ∧
        Right run.decoder.cfg.k next.sources answer (.offer item) ∧ next.Holds := by
  rcases fits taken with ⟨above, recoverable⟩
  have held := @put_holds run holds item above
  have offered := @offer_eq codec run item taken
  generalize item.put run.decoder.cfg.k (run.decoder.groupState (item.row run.decoder.cfg.k).1) =
    placed at recoverable held offered
  rcases @tryRecover_ok codec (run.decoder.setGroup (item.row run.decoder.cfg.k).1 placed) _ placed
    gives (AList.lookup_insert _) recoverable with ⟨after, answer, recovered, answers⟩
  refine ⟨⟨after, run.sources ++ item.seqs, run.floor⟩, answer, ?_, ?_, ?_⟩
  · rw [step, offered, recovered]
    rfl
  · intro found mem
    rcases answers.missing found mem with ⟨idx, inside, absent, number⟩
    change idx < run.decoder.cfg.k at inside
    change found.1 = (item.row run.decoder.cfg.k).1 * run.decoder.cfg.k + idx at number
    rcases seq_group inside (item.row run.decoder.cfg.k).1 with ⟨group, place⟩
    rw [← number] at group place
    refine ⟨group, fun offered => absent ?_⟩
    have there := held offered group
    rw [Nat.max_eq_left (by omega), place] at there
    exact there
  · intro seq mem floor
    change run.floor ≤ groupOf seq after.cfg.k at floor
    change ∃ state, after.groups.lookup (groupOf seq after.cfg.k) = some state ∧
      seq % max after.cfg.k 1 ∈ state.sources
    rw [answers.cfg] at floor ⊢
    change run.floor ≤ groupOf seq run.decoder.cfg.k at floor
    change ∃ state, after.groups.lookup (groupOf seq run.decoder.cfg.k) = some state ∧
      seq % max run.decoder.cfg.k 1 ∈ state.sources
    by_cases same : groupOf seq run.decoder.cfg.k = (item.row run.decoder.cfg.k).1
    · rcases answers.kept with ⟨next, found, kept⟩
      rw [same]
      exact ⟨next, found, kept _ (held mem same)⟩
    · rcases mem_append.mp mem with before | own
      · rcases holds seq before floor with ⟨state, found, kept⟩
        refine ⟨state, ?_, kept⟩
        rw [answers.others _ same]
        exact (AList.lookup_insert_ne same).trans found
      · exact absurd (@Offer.own_put _ placed _ _ own).1.symm same

theorem step_ok (gives : GivesRows codec) (holds : run.Holds) {call : DecoderCall}
    (fits : run.Fits call) : ∃ next answer, run.step codec call = .ok (next, answer) ∧
      Right run.decoder.cfg.k next.sources answer call ∧ next.Holds := by
  cases call with
  | offer item =>
    by_cases taken : item.Taken run.decoder.cfg.r
    · exact step_taken gives holds taken fits
    · cases item with
      | source seq payload => exact absurd trivial taken
      | parity item =>
        refine ⟨run, [], ?_, by rintro found ⟨⟩, holds⟩
        have ignored : run.decoder.addParity codec item = .ok (run.decoder, []) :=
          if_pos (Nat.le_of_not_lt taken)
        rw [step, offer, ignored]
        simp [Offer.seqs]
  | evict seq =>
    refine ⟨_, [], rfl, rfl, ?_⟩
    intro other mem above
    rcases holds other mem ((le_max_left _ _).trans above) with ⟨state, found, held⟩
    refine ⟨state, ?_, held⟩
    change (run.decoder.groups.retain (fun group _ =>
      groupOf seq run.decoder.cfg.k ≤ group)).lookup (groupOf other run.decoder.cfg.k) = some state
    rw [HashMap.lookup_retain, found]
    exact if_pos (decide_eq_true ((le_max_right _ _).trans above))

/-- Runs whose calls fit. -/
theorem sound_of_fits (gives : GivesRows codec) {calls : List DecoderCall} (holds : run.Holds)
    (fits : FitsThroughout codec run calls) : SoundThroughout codec run calls := by
  induction calls generalizing run with
  | nil => trivial
  | cons call rest ih =>
    rcases step_ok gives holds fits.1 with ⟨next, answer, taken, right, holds⟩
    exact ⟨next, answer, taken, right, ih holds (fits.2 next answer taken)⟩

end Offered

/-- The encoder's arithmetic stays in its integers exactly where the items can be counted and the
shape of a group that gets complete can; the decoder's does where each of its calls fits, and
what the decoder then returns is of the item's group and none of the sources offered. -/
theorem fec_within_bounds (encoder : RowEncoder) (codec : RowCodec) (gives : GivesRows codec)
    (cfg : FecConfig) :
    (∀ firstSeq payloads, pushFrom encoder (.new firstSeq cfg) payloads ≠ .panic ↔
      (payloads.length = 0 ∨ firstSeq + payloads.length < 2 ^ 64) ∧
        (max cfg.k 1 ≤ payloads.length → cfg.r = 0 ∨ cfg.k + cfg.r < 2 ^ 16)) ∧
    ∀ calls, Offered.FitsThroughout codec (.start cfg) calls →
      Offered.SoundThroughout codec (.start cfg) calls := by
  constructor
  · intro firstSeq payloads
    have pushes := @pushFrom_ne_panic encoder (.new firstSeq cfg) payloads
      (Nat.lt_of_lt_of_le one_pos (le_max_right _ _))
    change _ ↔ _ ∧ (_ ≤ 0 + _ → _) at pushes
    rw [Nat.zero_add] at pushes
    exact pushes
  · exact fun calls => Offered.sound_of_fits gives (by rintro seq ⟨⟩)

namespace Bounds

/-- The code on empty payloads, whose rows and parity rows are all the same. -/
def emptyRows : RowCodec := fun k _ held =>
  if held.length < k then none else some (.replicate k (frame [] 4))

def emptyParity : RowEncoder := fun _ _ _ => some fun _ => some (frame [] 4)

theorem emptyRows_gives : GivesRows emptyRows := by
  intro k n held rows given
  unfold emptyRows at given
  split at given
  · cases given
  · cases given
    rw [length_replicate]

/-- The first of two sources, and a parity item. -/
def oneLost : List DecoderCall := [.offer (.source 6 []), .offer (.parity ⟨3, 0, frame [] 4⟩)]

theorem oneLost_recovered : Offered.SoundThroughout emptyRows (.start ⟨2, 1⟩) oneLost := by
  apply (fec_within_bounds emptyParity emptyRows emptyRows_gives ⟨2, 1⟩).2 oneLost
  have small : ∀ idx < 2, 3 * 2 + idx < 2 ^ 64 := by omega
  refine ⟨fun _ => ⟨Nat.zero_le _, fun _ => ⟨by decide, fun idx inside _ => small idx inside⟩⟩, ?_⟩
  rintro next answer ⟨⟩
  refine ⟨fun _ => ⟨Nat.zero_le _, fun _ => ⟨by decide, fun idx inside _ => small idx inside⟩⟩, ?_⟩
  exact fun _ _ _ => trivial

/-- A shape beyond 16 bits, a first number that is the last one, and a group beyond 64 bits. -/
theorem fec_overflows :
    pushFrom emptyParity (.new 0 ⟨1, 65535⟩) [[]] = .panic ∧
      pushFrom emptyParity (.new (2 ^ 64 - 1) ⟨2, 1⟩) [[]] = .panic ∧
        ¬Offered.SoundThroughout emptyRows (.start ⟨2, 2⟩)
          [.offer (.parity ⟨2 ^ 63, 0, frame [] 4⟩), .offer (.parity ⟨2 ^ 63, 1, frame [] 4⟩)] := by
  refine ⟨rfl, rfl, ?_⟩
  rintro ⟨next, answer, first, -, next', answer', second, -⟩
  cases first
  cases second

end Bounds
end NdnExt.Stream
