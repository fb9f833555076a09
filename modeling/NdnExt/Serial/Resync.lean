import NdnExt.Serial.Reading

/-! Noise on the line, and the round trip of frames. -/

namespace NdnExt.Serial

open NdnExt.Lib NdnExt.Lib.Segments NdnExt.Lib.Stage List

theorem admitted_of_length_le {codec : CobsCodec} {segment : Bytes}
    (short : segment.length ≤ codec.maxFrameLen) : Admitted codec segment := by
  refine ⟨by omega, ?_⟩
  intro frame decodes
  have bound := length_cobsDecode decodes
  rw [length_nil, Nat.zero_add] at bound
  exact Nat.le_trans bound short

theorem resync_iff (codec : CobsCodec) (chunks : List Bytes)
    (short : ∀ segment ∈ (split 0 [] chunks.flatten).1, segment.length ≤ codec.maxFrameLen) :
    Survives codec chunks ↔ InTime codec 0 (arrivals [] chunks) :=
  survives_iff_inTime chunks (fun segment member => admitted_of_length_le (short segment member))

theorem resync_two_chunks :
    Survives CobsCodec.new [[0xFF, 0xFE, 0xFD, 0], [2, 0x42, 0]] :=
  (resync_iff CobsCodec.new [[0xFF, 0xFE, 0xFD, 0], [2, 0x42, 0]] (by decide)).mpr
    (by decide +kernel)

/-- Three bytes of noise and a frame in one chunk: the frame waits for a chunk that may not come. -/
theorem noise_delays_frame :
    (CobsCodec.new.read [[0xFF, 0xFE, 0xFD, 0, 2, 0x42, 0]]).delivered = [] ∧
      framesIn [] [0xFF, 0xFE, 0xFD, 0, 2, 0x42, 0] = [[0x42]] ∧
      (CobsCodec.new.read [[0xFF, 0xFE, 0xFD, 0], [2, 0x42, 0]]).delivered = [[0x42]] ∧
      ¬ Survives CobsCodec.new [[0xFF, 0xFE, 0xFD, 0, 2, 0x42, 0]] := by
  refine ⟨by decide +kernel, by decide +kernel, by decide +kernel, ?_⟩
  intro survives
  exact absurd (survives.delivered 1) (by decide +kernel)

theorem encodeAll_from (items : List Bytes) (dst : Bytes) :
    items.foldl (fun dst item => encode item dst) dst =
      dst ++ join 0 (items.map (encodedFrom [])) := by
  induction items generalizing dst with
  | nil => rw [map_nil, join_nil, append_nil, foldl_nil]
  | cons item rest ih =>
    rw [foldl_cons, ih, encode, cobsEncode_eq, map_cons, join_cons]
    simp

theorem encodeAll_eq (items : List Bytes) :
    encodeAll items = join 0 (items.map (encodedFrom [])) := by
  rw [encodeAll, encodeAll_from, nil_append]

theorem frameOf_encodedFrom (payload : Bytes) : frameOf
    (encodedFrom [] payload) = some payload := by
  rw [frameOf, if_neg (encodedFrom_ne_nil [] payload),
    cobsDecode_encodedFrom payload [] (by decide)]
  rfl

theorem admitted_encodedFrom {codec : CobsCodec} {payload : Bytes}
    (positive : 1 ≤ codec.maxFrameLen) (fits : payload.length ≤ codec.maxFrameLen) :
    Admitted codec (encodedFrom [] payload) := by
  have bound := @length_encodedFrom payload [] (by decide)
  rw [length_nil] at bound
  refine ⟨by omega, ?_⟩
  intro frame decodes
  rw [cobsDecode_encodedFrom payload [] (by decide)] at decodes
  cases decodes
  exact fits

/-- Frames are read back as they were written, whatever the chunks. -/
def RoundTrips (codec : CobsCodec) : Prop :=
  ∀ payloads : List Bytes, (∀ payload ∈ payloads, payload.length ≤ codec.maxFrameLen) →
    ∀ chunks : List Bytes, chunks.flatten = encodeAll payloads →
      ∃ rest, codec.read chunks = ⟨payloads, .ok rest⟩

theorem roundTrips_of_fits {codec : CobsCodec} (positive : 1 ≤ codec.maxFrameLen)
    (fits : codec.maxFrameLen * 2 < 2 ^ 64) : RoundTrips codec := by
  intro payloads short chunks whole
  rw [encodeAll_eq] at whole
  have clean : ∀ segment ∈ payloads.map (encodedFrom []), 0 ∉ segment := by
    intro segment member
    rcases mem_map.mp member with ⟨payload, _, rfl⟩
    exact zero_not_mem_encodedFrom payload not_mem_nil (by decide)
  have segments : (split 0 [] chunks.flatten).1 = payloads.map (encodedFrom []) := by
    rw [whole, split_join clean]
  have admitted : ∀ segment ∈ (split 0 [] chunks.flatten).1, Admitted codec segment := by
    rw [segments]
    intro segment member
    rcases mem_map.mp member with ⟨payload, inside, rfl⟩
    exact admitted_encodedFrom positive (short payload inside)
  have usable : ∀ segment ∈ (arrivals [] chunks).flatten, usable frameOf segment := by
    rw [← segments_flatten, segments]
    intro segment member
    rcases mem_map.mp member with ⟨payload, _, rfl⟩
    rw [Stage.usable, frameOf_encodedFrom]
    rfl
  rcases (survives_iff_inTime chunks admitted).mpr (inTime_of_usable fits usable) chunks.length
    with ⟨rest, read⟩
  refine ⟨rest, ?_⟩
  rw [take_length] at read
  have frames : framesIn [] chunks.flatten = payloads := by
    rw [framesIn, segments, filterMap_map]
    have each : (frameOf ∘ encodedFrom []) = some := funext frameOf_encodedFrom
    rw [each, filterMap_some]
  rw [read, frames]

/-- The delimiter of the empty frame is read, and the size test of the empty buffer overflows. -/
theorem read_overflow {codec : CobsCodec} (large : ¬ codec.maxFrameLen * 2 < 2 ^ 64) :
    codec.read [[1, 0]] = ⟨[[]], .panic⟩ := by
  have decoded : cobsDecode [1] [] = .ok [] := by decide +kernel
  have found : frameOf [1] = some [] := by decide +kernel
  have admitted : Admitted codec [1] := by
    refine ⟨by rw [length_singleton]; omega, ?_⟩
    intro frame decodes
    rw [decoded] at decodes
    cases decodes
    exact Nat.zero_le _
  have one : codec.drain ([1] ++ 0 :: []) = ([[]], .panic) := by
    rw [drain_frame [] (by decide) admitted found, codec.drain_of_clean not_mem_nil,
      if_neg large]
  rw [CobsCodec.read, foldl_cons, foldl_nil, @feed_running codec _ [] [1, 0] rfl]
  exact congrArg (fun turn => Reader.mk ([] ++ turn.1) turn.2) one

theorem encode_eq (payload dst : Bytes) :
    encode payload dst = dst ++ encodedFrom [] payload ++ [0] := by
  rw [encode, cobsEncode_eq]

theorem encode_injective (dst : Bytes) : Function.Injective
    (fun payload => encode payload dst) := by
  intro left right same
  have same : encode left dst = encode right dst := same
  rw [encode_eq, encode_eq] at same
  have encoded := append_cancel_left (append_cancel_right same)
  have decoded := congrArg frameOf encoded
  rw [frameOf_encodedFrom, frameOf_encodedFrom] at decoded
  exact Option.some.inj decoded

/-- The round trip, the bytes on the line and their uniqueness. -/
theorem cobs_roundTrip_iff (codec : CobsCodec) (positive : 1 ≤ codec.maxFrameLen) :
    (RoundTrips codec ∧
      (∀ payload dst, ∃ encoded, encode payload dst = dst ++ encoded ++ [0] ∧ 0 ∉ encoded ∧
        encoded.length ≤ payload.length + payload.length / 254 + 1) ∧
      ∀ dst, Function.Injective (fun payload => encode payload dst)) ↔
      codec.maxFrameLen * 2 < 2 ^ 64 := by
  constructor
  · intro ⟨roundTrips, _⟩
    by_contra large
    rcases roundTrips [[]] (by simp) [[1, 0]] (by decide) with ⟨rest, read⟩
    rw [read_overflow large] at read
    cases read
  · intro fits
    refine ⟨roundTrips_of_fits positive fits, ?_, encode_injective⟩
    intro payload dst
    have bound := @length_encodedFrom payload [] (by decide)
    rw [List.length_nil, Nat.zero_add] at bound
    exact ⟨encodedFrom [] payload, encode_eq payload dst,
      zero_not_mem_encodedFrom payload List.not_mem_nil (by decide), bound⟩

theorem cobs_roundTrip_default : RoundTrips CobsCodec.new :=
  ((cobs_roundTrip_iff CobsCodec.new (by decide)).mpr (by decide)).1

/-- A frame in two chunks, under the least limit whose double overflows. -/
theorem cobs_roundTrip_overflow :
    CobsCodec.read ⟨2 ^ 63⟩ [[2], [0x41, 0]] = ⟨[], .panic⟩ ∧ ¬ RoundTrips ⟨2 ^ 63⟩ := by
  have read : CobsCodec.read ⟨2 ^ 63⟩ [[2], [0x41, 0]] = ⟨[], .panic⟩ := by decide +kernel
  refine ⟨read, ?_⟩
  intro roundTrips
  rcases roundTrips [[0x41]] (by decide) [[2], [0x41, 0]] (by decide) with ⟨rest, whole⟩
  rw [read] at whole
  cases whole

end NdnExt.Serial
