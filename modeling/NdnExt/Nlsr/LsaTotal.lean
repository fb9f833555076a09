import NdnExt.Nlsr.LsaCodec
import NdnExt.Packet.NdnTlv

/-! Which inputs the LSA decoder stops the program on. -/

namespace NdnExt.Nlsr.Wire

open NdnExt.Lib Outcome

def outerType : LsaType → Nat
  | .adjacency => tlvAdjacencyLsa
  | .name => tlvNameLsa
  | .coordinate => tlvCoordinateLsa

variable (codec : NameCodec)

/-- The text that a header of an LSA carries as its expiration time. -/
def HeaderText (bytes : List UInt8) (text : String) : Prop :=
  ∃ header afterHeader router afterName seq afterSeq exp afterExp,
    codec.readTlv bytes = .ok (tlvLsa, header, afterHeader) ∧
    readName codec header = .ok (router, afterName) ∧
    codec.readTlv afterName = .ok (tlvSeqNo, seq, afterSeq) ∧
    codec.readTlv afterSeq = .ok (tlvExpirationTime, exp, afterExp) ∧
    fromUtf8 exp = some text

/-- The text that the decoder meets as the expiration time of the input. -/
def ExpirationText (lsaType : LsaType) (input : List UInt8) (text : String) : Prop :=
  ∃ outer rest, codec.readTlv input = .ok (outerType lsaType, outer, rest) ∧
    HeaderText codec outer text

variable {codec}

theorem readExpected_eq_ok {expected : Nat} {bytes value rest : List UInt8} :
    readExpected codec expected bytes = .ok (value, rest) ↔
      codec.readTlv bytes = .ok (expected, value, rest) := by
  unfold readExpected
  split
  · rename_i error failed
    rw [failed]
    exact iff_of_false nofun nofun
  · rename_i typ found after read
    rw [read]
    split
    · rename_i other
      refine iff_of_false nofun ?_
      intro same
      cases same
      exact other rfl
    · rename_i same
      rw [not_not] at same
      subst same
      constructor
      · intro equal
        cases equal
        rfl
      · intro equal
        cases equal
        rfl

theorem readExpected_ne_panic (expected : Nat) (bytes : List UInt8) :
    readExpected codec expected bytes ≠ .panic := by
  unfold readExpected
  split
  · nofun
  · split <;> nofun

theorem readName_ne_panic (bytes : List UInt8) : readName codec bytes ≠ .panic := by
  apply bind_ne_panic (readExpected_ne_panic _ _)
  intro inner
  apply bind_ne_panic (okOr_ne_panic _ _)
  nofun

theorem readDouble_ne_panic (data : List UInt8) : readDouble codec data ≠ .panic := by
  unfold readDouble
  split <;> nofun

theorem readItems_ne_panic {A : Type} {item : List UInt8 → Decoded codec A}
    (items : ∀ value, item value ≠ .panic) (expected : Nat) (bytes : List UInt8) :
    readItems codec expected item bytes ≠ .panic := by
  apply TlvCodec.forEachTlv_ne_panic
  · nofun
  · intro earlier typ value
    unfold pushItem
    split
    · nofun
    · apply bind_ne_panic (items value)
      nofun

theorem readAdjacent_ne_panic (bytes : List UInt8) : readAdjacent codec bytes ≠ .panic := by
  apply bind_ne_panic (readName_ne_panic _)
  intro name
  apply bind_ne_panic (readExpected_ne_panic _ _)
  intro uriBytes
  apply bind_ne_panic (okOr_ne_panic _ _)
  intro faceUri
  apply bind_ne_panic (readExpected_ne_panic _ _)
  intro costBytes
  apply bind_ne_panic (readDouble_ne_panic _)
  nofun

theorem readPrefixInfo_ne_panic (bytes : List UInt8) : readPrefixInfo codec bytes ≠ .panic := by
  apply bind_ne_panic (readName_ne_panic _)
  intro name
  apply bind_ne_panic (readExpected_ne_panic _ _)
  intro costBytes
  apply bind_ne_panic (readDouble_ne_panic _)
  nofun

theorem readRadius_ne_panic (outer : List UInt8) : readRadius codec outer ≠ .panic := by
  unfold readRadius
  split
  · nofun
  · apply bind_ne_panic (readExpected_ne_panic _ _)
    intro radiusBytes
    apply bind_ne_panic (readDouble_ne_panic _)
    nofun

/-- The header stops the program exactly where it carries a text that is not safe. -/
theorem readLsaHeader_eq_panic {bytes : List UInt8} :
    readLsaHeader codec bytes = .panic ↔ ∃ text, HeaderText codec bytes text ∧ ¬ SafeTime text := by
  constructor
  · intro stops
    rcases bind_eq_panic.mp stops with first | ⟨⟨header, afterHeader⟩, outer, later⟩
    · exact absurd first (readExpected_ne_panic _ _)
    rcases bind_eq_panic.mp later with second | ⟨⟨router, afterName⟩, named, later⟩
    · exact absurd second (readName_ne_panic _)
    rcases bind_eq_panic.mp later with third | ⟨⟨seq, afterSeq⟩, sequenced, later⟩
    · exact absurd third (readExpected_ne_panic _ _)
    rcases bind_eq_panic.mp later with fourth | ⟨⟨exp, afterExp⟩, expires, later⟩
    · exact absurd fourth (readExpected_ne_panic _ _)
    rcases bind_eq_panic.mp later with fifth | ⟨text, decoded, later⟩
    · exact absurd fifth (okOr_ne_panic _ _)
    rcases bind_eq_panic.mp later with unsafely | ⟨millis, -, last⟩
    · have valid : fromUtf8 exp = some text := by
        cases found : fromUtf8 exp with
        | none =>
          rw [found] at decoded
          cases decoded
        | some other =>
          rw [found] at decoded
          cases decoded
          rfl
      refine ⟨text, ⟨header, afterHeader, router, afterName, seq, afterSeq, exp, afterExp,
        readExpected_eq_ok.mp outer, named, readExpected_eq_ok.mp sequenced,
        readExpected_eq_ok.mp expires, valid⟩, ?_⟩
      intro safe
      exact parseExpirationTime_ne_panic.mpr safe unsafely
    · cases last
  · intro ⟨text, ⟨header, afterHeader, router, afterName, seq, afterSeq, exp, afterExp, outer,
      named, sequenced, expires, valid⟩, unsafely⟩
    have stops : (parseExpirationTime text : Decoded codec Nat) = .panic := by
      by_contra goes
      exact unsafely (parseExpirationTime_ne_panic.mp goes)
    unfold readLsaHeader
    rw [readExpected_eq_ok.mpr outer, ok_bind]
    dsimp only
    rw [named, ok_bind]
    rw [readExpected_eq_ok.mpr sequenced, ok_bind]
    rw [readExpected_eq_ok.mpr expires, ok_bind]
    rw [valid, okOr_some, ok_bind, stops, panic_bind]

/-- A decoder that reads the wrapper, then the header, and then fields that stop nothing. -/
theorem decode_eq_panic {A : Type} {expected : Nat} {input : List UInt8}
    {body : (Name × UInt64 × UInt64) × List UInt8 → Decoded codec A}
    (bodies : ∀ read, body read ≠ .panic) :
    (readExpected codec expected input >>= fun read => readLsaHeader codec read.1 >>= body) =
        .panic ↔
      ∃ outer rest, codec.readTlv input = .ok (expected, outer, rest) ∧
        ∃ text, HeaderText codec outer text ∧ ¬ SafeTime text := by
  rw [bind_eq_panic]
  constructor
  · rintro (first | ⟨⟨outer, rest⟩, read, later⟩)
    · exact absurd first (readExpected_ne_panic _ _)
    · rcases bind_eq_panic.mp later with header | ⟨found, -, last⟩
      · exact ⟨outer, rest, readExpected_eq_ok.mp read, readLsaHeader_eq_panic.mp header⟩
      · exact absurd last (bodies found)
  · intro ⟨outer, rest, read, unsafely⟩
    refine Or.inr ⟨(outer, rest), readExpected_eq_ok.mpr read, ?_⟩
    exact bind_eq_panic.mpr (Or.inl (readLsaHeader_eq_panic.mpr unsafely))

theorem map_eq_panic {E A B : Type} {outcome : Outcome E A} (wrap : A → B) :
    (outcome >>= fun value => (pure (wrap value) : Outcome E B)) = .panic ↔ outcome = .panic := by
  cases outcome <;> simp only [ok_bind, err_bind, panic_bind,
    pure_eq, reduceCtorEq]

theorem wireDecode_eq_panic {lsaType : LsaType} {input : List UInt8} :
    Lsa.wireDecode codec lsaType input = .panic ↔
      ∃ text, ExpirationText codec lsaType input text ∧ ¬ SafeTime text := by
  have stops : Lsa.wireDecode codec lsaType input = .panic ↔
      ∃ outer rest, codec.readTlv input = .ok (outerType lsaType, outer, rest) ∧
        ∃ text, HeaderText codec outer text ∧ ¬ SafeTime text := by
    cases lsaType with
    | adjacency =>
      refine (map_eq_panic Lsa.adjacency).trans (decode_eq_panic ?_)
      intro read
      refine bind_ne_panic (readItems_ne_panic readAdjacent_ne_panic _ _) ?_
      intro adjacencies last
      cases last
    | name =>
      refine (map_eq_panic Lsa.name).trans (decode_eq_panic ?_)
      intro read
      refine bind_ne_panic (readItems_ne_panic readPrefixInfo_ne_panic _ _) ?_
      intro prefixes last
      cases last
    | coordinate =>
      refine (map_eq_panic Lsa.coordinate).trans (decode_eq_panic ?_)
      intro read
      refine bind_ne_panic (readRadius_ne_panic _) ?_
      rintro ⟨radius, outer⟩
      refine bind_ne_panic (readItems_ne_panic readDouble_ne_panic _ _) ?_
      intro angles last
      cases last
  rw [stops]
  constructor
  · intro ⟨outer, rest, read, text, carried, unsafely⟩
    exact ⟨text, ⟨outer, rest, read, carried⟩, unsafely⟩
  · intro ⟨text, ⟨outer, rest, read, carried⟩, unsafely⟩
    exact ⟨outer, rest, read, text, carried, unsafely⟩

/-- Decoding returns exactly on the inputs whose expiration text, if they carry one, is safe. -/
theorem wireDecode_total_iff (codec : NameCodec) (lsaType : LsaType) (input : List UInt8) :
    Lsa.wireDecode codec lsaType input ≠ .panic ↔
      ∀ text, ExpirationText codec lsaType input text → SafeTime text := by
  rw [Ne, wireDecode_eq_panic]
  constructor
  · intro none text carried
    by_contra unsafely
    exact none ⟨text, carried, unsafely⟩
  · intro all ⟨text, carried, unsafely⟩
    exact unsafely (all text carried)

/-- A name LSA of the root with sequence 0, no prefixes and the given expiration text. -/
def datedLsa (codec : NameCodec) (text : String) : List UInt8 :=
  codec.writeTlv tlvNameLsa (codec.writeTlv tlvLsa (codec.encodeToTlv Name.root ++
    (writeNonnegInteger codec tlvSeqNo 0 ++ codec.writeTlv tlvExpirationTime (asBytes text))))

theorem readName_write (codec : NameCodec) (name : Name) (rest : List UInt8) :
    readName codec (codec.encodeToTlv name ++ rest) = .ok (name, rest) := by
  unfold readName NameCodec.encodeToTlv
  rw [readExpected_eq_ok.mpr (codec.read_write _ _ _), ok_bind]
  dsimp only
  rw [codec.decode_encodeValue, okOr_some, ok_bind]
  rfl

theorem datedLsa_text (codec : NameCodec) (text : String) :
    ExpirationText codec .name (datedLsa codec text) text := by
  have whole : ∀ typ value, codec.readTlv (codec.writeTlv typ value) = .ok (typ, value, []) := by
    intro typ value
    have read := codec.read_write typ value []
    rw [List.append_nil] at read
    exact read
  exact ⟨_, _, whole _ _, _, _, _, _, _, _, _, _, whole _ _, readName_write codec _ _,
    codec.read_write _ _ _, whole _ _, fromUtf8_asBytes text⟩

theorem datedLsa_panics {text : String} (unsafely : ¬ SafeTime text) :
    Lsa.wireDecode codec .name (datedLsa codec text) = .panic :=
  wireDecode_eq_panic.mpr ⟨text, datedLsa_text codec text, unsafely⟩

/-- The zeroth of March, a second before 1970, and a character of two bytes in place of the
first hyphen and of the digit after it. -/
theorem decode_panics :
    Lsa.wireDecode NdnTlv.codec .name (datedLsa NdnTlv.codec "1970-03-00 00:00:00") = .panic ∧
      Lsa.wireDecode NdnTlv.codec .name (datedLsa NdnTlv.codec "1969-12-31 23:59:59") = .panic ∧
      Lsa.wireDecode NdnTlv.codec .name (datedLsa NdnTlv.codec "1970é1-01 00:00:00") = .panic := by
  refine ⟨datedLsa_panics ?_, datedLsa_panics ?_, datedLsa_panics ?_⟩
  · rw [← @parseExpirationTime_ne_panic Unit, not_not]
    decide +kernel
  · rw [← @parseExpirationTime_ne_panic Unit, not_not]
    decide +kernel
  · rw [← @parseExpirationTime_ne_panic Unit, not_not]
    decide +kernel

end NdnExt.Nlsr.Wire
