import NdnExt.Leaf.Publish
import NdnExt.Packet.NdnTlv

/-! The scoped topics of a session, and what leaves seal for them. -/

namespace NdnExt.Leaf

open NdnExt.Lib

/-- A type of messages, whose frames are read back. -/
structure Frame (T : Type) where
  encode : T → Bytes
  decode : Bytes → Option T
  decode_encode : ∀ value, decode (encode value) = some value

/-- The cipher that leaves and sessions share. `openSealed` reads the nonce and the tag off a payload
and opens the rest by key and associated data. -/
structure Aead extends Cipher where
  openSealed : Bytes → Bytes → Bytes → Option Bytes
  open_sealed : ∀ (key aad key' nonce aad' plaintext : Bytes), nonce.length = nonceLen →
    openSealed key aad (sealed toCipher key' nonce aad' plaintext) =
      if key = key' ∧ aad = aad' then some plaintext else none
  encodeToTlv_injective : Function.Injective encodeToTlv

structure ScopedTopic where
  name : Name
  key : Bytes
  aad : Bytes

structure ScopedSubscription where
  key : Bytes
  aad : Bytes

section

variable (aead : Aead) {T : Type} (frame : Frame T)

def buildScopedTopic (name : Name) (key : Bytes) : ScopedTopic :=
  ⟨name, key, aead.encodeToTlv name⟩

/-- The topic `<session>/<sub>`. -/
def scopedTopic (session : Name) (sub key : Bytes) : ScopedTopic :=
  buildScopedTopic aead (session.appendComponent (.generic sub)) key

namespace ScopedTopic

/-- What is published for a value, under a random nonce. -/
def publish (topic : ScopedTopic) (nonce : Bytes) (value : T) : Publication :=
  ⟨topic.name, sealed aead.toCipher topic.key nonce topic.aad (frame.encode value)⟩

def subscribe (topic : ScopedTopic) : ScopedSubscription := ⟨topic.key, topic.aad⟩

end ScopedTopic

/-- The next value of those delivered, and what is left of them. -/
def recv (subscription : ScopedSubscription) : List Publication → Option T × List Publication
  | [] => (none, [])
  | publication :: rest =>
    match aead.openSealed subscription.key subscription.aad publication.payload with
    | none => recv subscription rest
    | some plaintext =>
      match frame.decode plaintext with
      | none => recv subscription rest
      | some value => (some value, rest)

/-- The publication of a leaf for a topic. -/
def leafPublication (topic : Name) (key : Bytes) (publisherId : UInt32) (seq : UInt64) (value : T) :
    Publication :=
  ((Publisher.new topic key publisherId).startingAt seq).build aead.toCipher (frame.encode value)

/-- A leaf's publication for the topic of a session is received there. -/
def OpensLeaf (session : Name) (sub key : Bytes) (publisherId : UInt32) (seq : UInt64) (value : T) :
    Prop :=
  let topic := scopedTopic aead session sub key
  (recv aead frame topic.subscribe
    [leafPublication aead frame topic.name key publisherId seq value]).1 = some value

/-- What was sealed for other topics or under other keys is passed over, whatever it is called. -/
structure Isolated (session : Name) (sub key : Bytes) : Prop where
  leaf : ∀ (delivered topic : Name) (key' : Bytes) (publisherId : UInt32) (seq : UInt64) (value : T)
    (rest : List Publication), topic ≠ (scopedTopic aead session sub key).name ∨ key' ≠ key →
      recv aead frame (scopedTopic aead session sub key).subscribe
          (⟨delivered, (leafPublication aead frame topic key' publisherId seq value).payload⟩ :: rest) =
        recv aead frame (scopedTopic aead session sub key).subscribe rest
  topics : ∀ (delivered session' : Name) (sub' key' nonce : Bytes) (value : T)
    (rest : List Publication), nonce.length = nonceLen →
      (scopedTopic aead session' sub' key').name ≠ (scopedTopic aead session sub key).name ∨
        key' ≠ key →
      recv aead frame (scopedTopic aead session sub key).subscribe (⟨delivered,
          ((scopedTopic aead session' sub' key').publish aead frame nonce value).payload⟩ :: rest) =
        recv aead frame (scopedTopic aead session sub key).subscribe rest

variable {aead frame}

theorem recv_foreign {subscription : ScopedSubscription} {publication : Publication}
    (foreign : aead.openSealed subscription.key subscription.aad publication.payload = none)
    (rest : List Publication) : recv aead frame subscription (publication :: rest) =
      recv aead frame subscription rest := by
  rw [recv, foreign]

theorem leaf_payload (topic : Name) (key : Bytes) (publisherId : UInt32) (seq : UInt64)
    (value : T) :
    (leafPublication aead frame topic key publisherId seq value).payload =
      sealed aead.toCipher key (beBytes 4 publisherId.toNat ++ beBytes 8 seq.toNat)
        (aead.encodeToTlv (appendSequenceNum topic seq)) (frame.encode value) := rfl

theorem leaf_nonce_length (publisherId : UInt32) (seq : UInt64) :
    (beBytes 4 publisherId.toNat ++ beBytes 8 seq.toNat).length = nonceLen := by
  rw [List.length_append, length_beBytes, length_beBytes]
  rfl

/-- A leaf binds a name that ends in a sequence number, a session one that ends in a text. -/
theorem sequenced_ne_scoped (topic session : Name) (sub : Bytes) (seq : UInt64) :
    session.appendComponent (.generic sub) ≠ appendSequenceNum topic seq := by
  intro same
  have typ := congrArg NameComponent.typ (Name.appendComponent_inj same).2
  revert typ
  change (8 : Nat) = 58 → False
  decide

theorem open_leaf (session : Name) (sub key : Bytes) (topic : Name) (key' : Bytes)
    (publisherId : UInt32) (seq : UInt64) (value : T) :
    aead.openSealed key (aead.encodeToTlv (session.appendComponent (.generic sub)))
      (leafPublication aead frame topic key' publisherId seq value).payload = none := by
  rw [leaf_payload, aead.open_sealed _ _ _ _ _ _ (leaf_nonce_length publisherId seq), if_neg]
  rintro ⟨_, bound⟩
  exact sequenced_ne_scoped topic session sub seq (aead.encodeToTlv_injective bound)

theorem isolated (session : Name) (sub key : Bytes) : Isolated aead frame session sub key where
  leaf := by
    intro delivered topic key' publisherId seq value rest _
    exact recv_foreign (open_leaf session sub key topic key' publisherId seq value) rest
  topics := by
    intro delivered session' sub' key' nonce value rest length other
    apply recv_foreign
    refine (aead.open_sealed _ _ _ _ _ _ length).trans (if_neg ?_)
    rintro ⟨keys, bound⟩
    rcases other with topics | keys'
    · exact topics (aead.encodeToTlv_injective bound).symm
    · exact keys' keys.symm

variable (aead frame)

/-- No session reads what a leaf seals for its topic, nor what was sealed for others. -/
theorem never_opens_leaf (session : Name) (sub key : Bytes) (publisherId : UInt32) (seq : UInt64)
    (value : T) : ¬OpensLeaf aead frame session sub key publisherId seq value ∧
      Isolated aead frame session sub key := by
  refine ⟨?_, isolated session sub key⟩
  intro opens
  have passed := @recv_foreign aead T frame (scopedTopic aead session sub key).subscribe
    (leafPublication aead frame (scopedTopic aead session sub key).name key publisherId seq value)
    (open_leaf session sub key _ key publisherId seq value) []
  unfold OpensLeaf at opens
  dsimp only at opens
  rw [passed] at opens
  cases opens

end

/-! ### One leaf and one session -/

/-- A cipher that writes out what it is given, each part after its length. -/
def openAead : Aead where
  sealInPlace key _ aad plaintext :=
    (List.replicate 16 0, List.replicate key.length 1 ++ [0] ++
      (key ++ (List.replicate aad.length 1 ++ [0] ++ (aad ++ plaintext))))
  encodeToTlv := NdnTlv.codec.encodeToTlv
  openSealed key aad payload := do
    let (keyLength, rest) ← NdnTlv.readUnary (payload.drop 28)
    let (aadLength, rest') ← NdnTlv.readUnary (rest.drop keyLength)
    if key = rest.take keyLength ∧ aad = rest'.take aadLength then some (rest'.drop aadLength)
    else none
  open_sealed := by
    intro key aad key' nonce aad' plaintext length
    have head : (nonce ++ List.replicate 16 0).length = 28 := by
      rw [List.length_append, length, List.length_replicate]
      rfl
    rw [sealed]
    dsimp only
    rw [List.drop_left' head, NdnTlv.readUnary_write, Option.bind_eq_bind, Option.bind_some]
    dsimp only
    rw [List.drop_left, NdnTlv.readUnary_write, Option.bind_some]
    dsimp only
    rw [List.take_left, List.take_left, List.drop_left]
  encodeToTlv_injective := by
    intro name name' same
    have decoded := NdnTlv.codec.decodeFromTlv_write name
    change NdnTlv.codec.decodeFromTlv (NdnTlv.codec.encodeToTlv name) = some name at decoded
    rw [same] at decoded
    exact (Option.some.inj (decoded.symm.trans (NdnTlv.codec.decodeFromTlv_write name')))

def bytesFrame : Frame Bytes := ⟨id, some, fun _ => rfl⟩

/-- The first reading of a leaf for the topic `/g/t` of a session `/g`, under a key that both have. -/
theorem first_reading_never_received :
    ¬OpensLeaf openAead bytesFrame ⟨[.generic [103]]⟩ [116] [1] 1 0 [21] := by
  unfold OpensLeaf
  decide +kernel

end NdnExt.Leaf
