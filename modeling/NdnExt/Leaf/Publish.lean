import NdnExt.Lib.BigEndian
import NdnExt.Lib.Run
import NdnExt.Packet.Name

/-! The publications of leaves that share one scope key. -/

namespace NdnExt.Leaf

open NdnExt.Lib NdnExt.Lib.Run List

abbrev Bytes := List UInt8

def nonceLen : Nat := 12

/-- The cipher: the tag and the ciphertext of a plaintext, by key, nonce and associated data. -/
structure Cipher where
  sealInPlace : Bytes → Bytes → Bytes → Bytes → Bytes × Bytes
  encodeToTlv : Name → Bytes

structure Publication where
  name : Name
  payload : Bytes
  deriving DecidableEq

structure SealCtx where
  key : Bytes
  publisherId : Bytes

structure Publisher where
  topic : Name
  seq : UInt64
  sealCtx : Option SealCtx

def sequenceNum (seq : UInt64) : NameComponent := ⟨58, minimalSlice seq.toNat⟩

def appendSequenceNum (topic : Name) (seq : UInt64) : Name :=
  topic.appendComponent (sequenceNum seq)

/-- The nonce, the tag and the ciphertext. -/
def sealed (cipher : Cipher) (key nonce aad plaintext : Bytes) : Bytes :=
  let (tag, buf) := cipher.sealInPlace key nonce aad plaintext
  nonce ++ tag ++ buf

namespace Publisher

def new (topic : Name) (key : Bytes) (publisherId : UInt32) : Publisher :=
  ⟨topic, 0, some ⟨key, beBytes 4 publisherId.toNat⟩⟩

def startingAt (p : Publisher) (seq : UInt64) : Publisher := { p with seq := seq }

/-- The next publication of a value, by its frame. -/
def build (cipher : Cipher) (p : Publisher) (frame : Bytes) : Publication :=
  let name := appendSequenceNum p.topic p.seq
  { name := name
    payload := match p.sealCtx with
      | some ctx => sealed cipher ctx.key (ctx.publisherId ++ beBytes 8 p.seq.toNat)
          (cipher.encodeToTlv name) frame
      | none => frame }

def advance (p : Publisher) : Publisher := { p with seq := p.seq + 1 }

end Publisher

/-- The nonce that a publication carries. -/
def Publication.nonce (publication : Publication) : Bytes := publication.payload.take nonceLen

/-! ### Leaves -/

/-- A publication that a sink has seen, of a leaf at a sequence number. -/
structure Seen (ι : Type) where
  leaf : ι
  seq : UInt64
  topic : Name
  plaintext : Bytes
  publication : Publication

/-- The leaves: their publishers, what their storage holds for each topic, and what sinks saw. -/
structure Fleet (ι : Type) where
  publishers : List (ι × Publisher)
  storage : ι → Name → UInt64
  seen : List (Seen ι)

inductive LeafAction (ι : Type) where
  /-- A new publisher, started where the storage of the leaf says. -/
  | start (leaf : ι) (topic : Name)
  /-- `delivered` is the sink's answer; a sink can have seen what it fails to deliver. -/
  | publish (p : Nat) (frame : Bytes) (seen delivered : Bool)
  | build (p : Nat) (frame : Bytes) (seen : Bool)
  | advance (p : Nat)

namespace Fleet

variable {ι : Type} [DecidableEq ι] (cipher : Cipher) (key : Bytes) (publisherId : ι → UInt32)

def start : Fleet ι := ⟨[], fun _ _ => 0, []⟩

/-- A publisher's sequence moves on, and the leaf stores it. -/
def advanced (fleet : Fleet ι) (p : Nat) (leaf : ι) (publisher : Publisher) : Fleet ι :=
  let next := publisher.advance
  { fleet with
    publishers := fleet.publishers.set p (leaf, next)
    storage := Function.update fleet.storage leaf
      (Function.update (fleet.storage leaf) next.topic next.seq) }

def saw (fleet : Fleet ι) (leaf : ι) (publisher : Publisher) (frame : Bytes) : Bool → Fleet ι
  | true => { fleet with seen := fleet.seen ++
      [⟨leaf, publisher.seq, publisher.topic, frame, publisher.build cipher frame⟩] }
  | false => fleet

def step (fleet : Fleet ι) : LeafAction ι → Fleet ι
  | .start leaf topic => { fleet with publishers := fleet.publishers ++
      [(leaf, (Publisher.new topic key (publisherId leaf)).startingAt
        (fleet.storage leaf topic))] }
  | .publish p frame seen delivered =>
    match fleet.publishers[p]? with
    | none => fleet
    | some (leaf, publisher) =>
      let fleet := fleet.saw cipher leaf publisher frame seen
      if delivered then fleet.advanced p leaf publisher else fleet
  | .build p frame seen =>
    match fleet.publishers[p]? with
    | none => fleet
    | some (leaf, publisher) => fleet.saw cipher leaf publisher frame seen
  | .advance p =>
    match fleet.publishers[p]? with
    | none => fleet
    | some (leaf, publisher) => fleet.advanced p leaf publisher

/-- No two publications that sinks saw, of different names or plaintexts, carry one nonce. -/
def NeverRepeats (fleet : Fleet ι) : Prop :=
  ∀ first ∈ fleet.seen, ∀ second ∈ fleet.seen,
    first.publication.nonce = second.publication.nonce →
      first.publication.name = second.publication.name ∧ first.plaintext = second.plaintext

/-- Under a publisher's next sequence number, sinks saw nothing of its leaf but this value in its
topic. -/
def Unused (fleet : Fleet ι) (p : Nat) (frame : Bytes) : Prop :=
  match fleet.publishers[p]? with
  | none => True
  | some (leaf, publisher) => ∀ earlier ∈ fleet.seen, earlier.leaf = leaf →
      earlier.seq = publisher.seq → earlier.topic = publisher.topic ∧ earlier.plaintext = frame

/-- What a sink sees is sent under a sequence number that its leaf has not used for anything else. -/
def Careful (fleet : Fleet ι) : LeafAction ι → Prop
  | .publish p frame true _ => fleet.Unused p frame
  | .build p frame true => fleet.Unused p frame
  | _ => True

instance (fleet : Fleet ι) (p : Nat) (frame : Bytes) : Decidable (fleet.Unused p frame) := by
  unfold Unused
  split <;> infer_instance

instance (fleet : Fleet ι) (action : LeafAction ι) : Decidable (fleet.Careful action) := by
  unfold Careful
  split <;> infer_instance

/-! ### Nonces -/

omit [DecidableEq ι] in
theorem build_nonce (leaf : ι) (topic : Name) (seq : UInt64) (frame : Bytes) :
    (((Publisher.new topic key (publisherId leaf)).startingAt seq).build cipher frame).nonce =
      beBytes 4 (publisherId leaf).toNat ++ beBytes 8 seq.toNat := by
  unfold Publication.nonce Publisher.build sealed
  dsimp only [Publisher.new, Publisher.startingAt]
  rw [append_assoc]
  exact take_left' (by rw [length_append, length_beBytes, length_beBytes]; rfl)

variable {cipher key publisherId}

omit [DecidableEq ι] in
/-- Equal nonces are of one leaf and one sequence number. -/
theorem nonce_inj (distinct : Function.Injective publisherId) {leaf leaf' : ι} {seq seq' : UInt64}
    (same : beBytes 4 (publisherId leaf).toNat ++ beBytes 8 seq.toNat =
      beBytes 4 (publisherId leaf').toNat ++ beBytes 8 seq'.toNat) : leaf = leaf' ∧ seq = seq' := by
  have parts := append_inj same (by rw [length_beBytes, length_beBytes])
  have ids : (publisherId leaf).toNat = (publisherId leaf').toNat := by
    rw [← @ofBe_beBytes 4 _ (publisherId leaf).toNat_lt, parts.1,
      ofBe_beBytes (publisherId leaf').toNat_lt]
  have seqs : seq.toNat = seq'.toNat := by
    rw [← @ofBe_beBytes 8 _ seq.toNat_lt, parts.2, ofBe_beBytes seq'.toNat_lt]
  exact ⟨distinct (UInt32.toNat_inj.mp ids), UInt64.toNat_inj.mp seqs⟩

theorem appendSequenceNum_inj {topic topic' : Name} {seq seq' : UInt64}
    (same : appendSequenceNum topic seq = appendSequenceNum topic' seq') : topic = topic' := by
  have components := congrArg Name.components same
  have topics := (append_inj' components rfl).1
  exact Name.components_injective topics

/-! ### Runs -/

/-- The publishers are those of their leaves, and what sinks saw is what they built. -/
structure Sound (cipher : Cipher) (key : Bytes) (publisherId : ι → UInt32) (fleet : Fleet ι) :
    Prop where
  publishers : ∀ entry ∈ fleet.publishers, entry.2 =
    (Publisher.new entry.2.topic key (publisherId entry.1)).startingAt entry.2.seq
  seen : ∀ s ∈ fleet.seen, s.publication =
    ((Publisher.new s.topic key (publisherId s.leaf)).startingAt s.seq).build cipher s.plaintext

variable {publisher : Publisher}

section

variable {fleet : Fleet ι} (sound : fleet.Sound cipher key publisherId)
include sound

omit [DecidableEq ι] in
theorem saw_sound {leaf : ι}
    (among : (leaf, publisher) ∈ fleet.publishers) (frame : Bytes)
    (seen : Bool) : (fleet.saw cipher leaf publisher frame seen).Sound cipher key publisherId := by
  cases seen with
  | false => exact sound
  | true =>
    refine ⟨sound.publishers, ?_⟩
    intro s found
    rcases mem_append.mp found with before | new
    · exact sound.seen s before
    · rw [mem_singleton.mp new]
      exact congrArg (fun p => Publisher.build cipher p frame) (sound.publishers _ among)

theorem advanced_sound {leaf : ι}
    (p : Nat) (among : publisher =
      (Publisher.new publisher.topic key (publisherId leaf)).startingAt publisher.seq) :
    (fleet.advanced p leaf publisher).Sound cipher key publisherId := by
  refine ⟨?_, sound.seen⟩
  intro entry found
  rcases mem_or_eq_of_mem_set found with before | rfl
  · exact sound.publishers entry before
  · exact congrArg (fun q => { q with seq := publisher.seq + 1 }) among

theorem step_sound
    (action : LeafAction ι) :
    (fleet.step cipher key publisherId action).Sound cipher key publisherId := by
  cases action with
  | start leaf topic =>
    refine ⟨?_, sound.seen⟩
    intro entry found
    rcases mem_append.mp found with before | new
    · exact sound.publishers entry before
    · rw [mem_singleton.mp new]
      rfl
  | publish p frame seen delivered =>
    unfold step
    dsimp only
    split
    · exact sound
    · next leaf publisher stands =>
      have among := mem_of_getElem? stands
      have saw := saw_sound sound among frame seen
      split
      · exact advanced_sound saw p (sound.publishers _ among)
      · exact saw
  | build p frame seen =>
    unfold step
    dsimp only
    split
    · exact sound
    · next leaf publisher stands =>
      exact saw_sound sound (mem_of_getElem? stands) frame seen
  | advance p =>
    unfold step
    dsimp only
    split
    · exact sound
    · next leaf publisher stands =>
      exact advanced_sound sound p (sound.publishers _ (mem_of_getElem? stands))

end

theorem run_sound (actions : List (LeafAction ι)) :
    (actions.foldl (step cipher key publisherId) start).Sound cipher key publisherId := by
  induction actions using List.reverseRecOn with
  | nil => exact ⟨nofun, nofun⟩
  | append_singleton earlier action ih =>
    rw [foldl_append]
    exact step_sound ih action

omit [DecidableEq ι] in
/-- One more publication repeats no nonce exactly where its number is unused. -/
theorem neverRepeats_append (distinct : Function.Injective publisherId) {fleet : Fleet ι}
    (sound : fleet.Sound cipher key publisherId) {leaf : ι}
    (among : (leaf, publisher) ∈ fleet.publishers) (frame : Bytes) :
    (fleet.saw cipher leaf publisher frame true).NeverRepeats ↔
      fleet.NeverRepeats ∧ ∀ earlier ∈ fleet.seen, earlier.leaf = leaf →
        earlier.seq = publisher.seq →
          earlier.topic = publisher.topic ∧ earlier.plaintext = frame := by
  let new : Seen ι :=
    ⟨leaf, publisher.seq, publisher.topic, frame, publisher.build cipher frame⟩
  have built : new.publication =
      ((Publisher.new new.topic key (publisherId new.leaf)).startingAt new.seq).build cipher
        new.plaintext :=
    congrArg (fun p => Publisher.build cipher p frame) (sound.publishers _ among)
  have nonces : ∀ s ∈ fleet.seen, s.publication.nonce = new.publication.nonce ↔
      s.leaf = leaf ∧ s.seq = publisher.seq := by
    intro s found
    rw [sound.seen s found, built, build_nonce, build_nonce]
    constructor
    · exact nonce_inj distinct
    · rintro ⟨rfl, same⟩
      rw [same]
  have names : ∀ s ∈ fleet.seen, s.seq = publisher.seq →
      (s.publication.name = new.publication.name ↔ s.topic = publisher.topic) := by
    intro s found same
    rw [sound.seen s found, built]
    constructor
    · exact appendSequenceNum_inj
    · intro topic
      exact congrArg₂ appendSequenceNum topic same
  constructor
  · intro never
    refine ⟨fun first found second found' => never first (mem_append_left _ found) second
      (mem_append_left _ found'), ?_⟩
    intro earlier found same seq
    have both := never earlier (mem_append_left _ found) new
      (mem_append_right _ (mem_singleton_self _)) ((nonces earlier found).mpr ⟨same, seq⟩)
    exact ⟨(names earlier found seq).mp both.1, both.2⟩
  · rintro ⟨never, unused⟩
    have against : ∀ s ∈ fleet.seen, s.publication.nonce = new.publication.nonce →
        s.publication.name = new.publication.name ∧ s.plaintext = new.plaintext := by
      intro s found same
      rcases (nonces s found).mp same with ⟨leaf', seq⟩
      have both := unused s found leaf' seq
      exact ⟨(names s found seq).mpr both.1, both.2⟩
    intro first found second found' same
    rcases mem_append.mp found with before | last
    · rcases mem_append.mp found' with before' | last'
      · exact never first before second before' same
      · rw [mem_singleton.mp last'] at same ⊢
        exact against first before same
    · rw [mem_singleton.mp last] at same ⊢
      rcases mem_append.mp found' with before' | last'
      · have both := against second before' same.symm
        exact ⟨both.1.symm, both.2.symm⟩
      · rw [mem_singleton.mp last']
        exact ⟨rfl, rfl⟩

omit [DecidableEq ι] in
theorem neverRepeats_saw (distinct : Function.Injective publisherId) {fleet : Fleet ι}
    (sound : fleet.Sound cipher key publisherId) {leaf : ι} {p : Nat}
    (stands : fleet.publishers[p]? = some (leaf, publisher)) (frame : Bytes) (seen : Bool) :
    (fleet.saw cipher leaf publisher frame seen).NeverRepeats ↔
      fleet.NeverRepeats ∧ (seen = true → fleet.Unused p frame) := by
  have unused : fleet.Unused p frame ↔ ∀ earlier ∈ fleet.seen, earlier.leaf = leaf →
      earlier.seq = publisher.seq →
        earlier.topic = publisher.topic ∧ earlier.plaintext = frame := by
    unfold Unused
    rw [stands]
  cases seen with
  | false => exact (and_iff_left nofun).symm
  | true =>
    rw [unused, neverRepeats_append distinct sound (mem_of_getElem? stands)]
    simp only [forall_const]

omit [DecidableEq ι] in
theorem unused_of_absent {fleet : Fleet ι} {p : Nat} (absent : fleet.publishers[p]? = none)
    (frame : Bytes) : fleet.Unused p frame := by
  unfold Unused
  rw [absent]
  trivial

theorem step_neverRepeats (distinct : Function.Injective publisherId) {fleet : Fleet ι}
    (sound : fleet.Sound cipher key publisherId) (action : LeafAction ι) :
    (fleet.step cipher key publisherId action).NeverRepeats ↔
      fleet.NeverRepeats ∧ fleet.Careful action := by
  cases action with
  | start leaf topic => exact (and_iff_left trivial).symm
  | publish p frame seen delivered =>
    unfold step
    dsimp only
    split
    · next absent =>
      refine (and_iff_left ?_).symm
      cases seen with
      | false => trivial
      | true => exact unused_of_absent absent frame
    · next leaf publisher stands =>
      have both := neverRepeats_saw distinct sound stands frame seen
      have same : fleet.Careful (.publish p frame seen delivered) ↔
          (seen = true → fleet.Unused p frame) := by
        cases seen <;> simp [Careful]
      rw [same, ← both]
      split <;> rfl
  | build p frame seen =>
    unfold step
    dsimp only
    split
    · next absent =>
      refine (and_iff_left ?_).symm
      cases seen with
      | false => trivial
      | true => exact unused_of_absent absent frame
    · next leaf publisher stands =>
      have both := neverRepeats_saw distinct sound stands frame seen
      have same : fleet.Careful (.build p frame seen) ↔
          (seen = true → fleet.Unused p frame) := by
        cases seen <;> simp [Careful]
      rw [same, ← both]
  | advance p =>
    unfold step
    dsimp only
    refine Iff.trans ?_ (and_iff_left trivial).symm
    split <;> rfl

/-- Leaves with ids of their own repeat no nonce exactly where each publication that a sink sees is
sent under a number that its leaf has not used for another one. -/
theorem never_repeats_iff (cipher : Cipher) (key : Bytes) (publisherId : ι → UInt32)
    (distinct : Function.Injective publisherId) (actions : List (LeafAction ι)) :
    (actions.foldl (step cipher key publisherId) start).NeverRepeats ↔
      Throughout (step cipher key publisherId) start actions Careful := by
  induction actions using List.reverseRecOn with
  | nil => exact iff_of_true nofun (throughout_nil _ _)
  | append_singleton earlier action ih =>
    rw [List.foldl_append, throughout_append_singleton, ← ih]
    exact step_neverRepeats distinct (run_sound earlier) action

/-! ### One leaf -/

namespace Example

def plainCipher : Cipher := ⟨fun _ _ _ plaintext => (List.replicate 16 0, plaintext), fun _ => []⟩

def temperature : Name := ⟨[.generic [116]]⟩

def humidity : Name := ⟨[.generic [104]]⟩

/-- Each of two topics starts at the number that the storage holds for it. -/
def twoTopics : List (LeafAction Unit) :=
  [.start () temperature, .start () humidity, .publish 0 [21] true true,
    .publish 1 [40] true true]

theorem two_topics_repeat_a_nonce :
    ¬ (twoTopics.foldl (step plainCipher [1] fun _ => 5) start).NeverRepeats := by
  intro never
  have repeats : ∃ first second, (twoTopics.foldl (step plainCipher [1] fun _ => 5) start).seen =
      [first, second] ∧ first.publication.nonce = second.publication.nonce ∧
        first.plaintext ≠ second.plaintext := by
    refine ⟨_, _, rfl, ?_, ?_⟩ <;> decide +kernel
  rcases repeats with ⟨first, second, seen, nonces, different⟩
  have both := never first (by rw [seen]; exact List.mem_cons_self) second
    (by rw [seen]; exact List.mem_cons_of_mem _ (List.mem_singleton_self _)) nonces
  exact different both.2

/-- One topic, with a delivery that fails and is repeated, and a restart. -/
def oneTopic : List (LeafAction Unit) :=
  [.start () temperature, .publish 0 [21] true false, .publish 0 [21] true true,
    .start () temperature, .publish 1 [22] true true]

theorem one_topic_never_repeats :
    (oneTopic.foldl (step plainCipher [1] fun _ => 5) start).NeverRepeats :=
  (never_repeats_iff plainCipher [1] (fun _ => 5) (fun _ _ _ => rfl) oneTopic).mpr
    (by decide +kernel)

end Example

end Fleet

end NdnExt.Leaf
