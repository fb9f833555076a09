import NdnExt.Lib.Checked
import NdnExt.Lib.Segments
import NdnExt.Serial.Cobs

/-! The serial codec: COBS frames closed by zero bytes, read from chunks of any size. -/

namespace NdnExt.Serial

open NdnExt.Lib NdnExt.Lib.Segments

structure CobsCodec where
  maxFrameLen : Nat

def frameExceedsMax : String := "COBS frame exceeds max length"

def encode (item dst : Bytes) : Bytes := cobsEncode item dst ++ [0]

namespace CobsCodec

def new : CobsCodec := ⟨8800⟩

variable (codec : CobsCodec)

/-- Without a delimiter in the buffer: more bytes are needed, unless there are already too many. -/
def awaitDelimiter (buf : Bytes) : Outcome String (Option Bytes) × Bytes :=
  match (u64 (codec.maxFrameLen * 2) : Outcome String Nat) with
  | .ok limit => (.ok none, if buf.length > limit then [] else buf)
  | .err error => (.err error, buf)
  | .panic => (.panic, buf)

/-- The part of `decode` behind the split: what it returns for one segment. -/
def segmentResult (encoded : Bytes) : Outcome String (Option Bytes) :=
  if encoded = [] then .ok none
  else
    match cobsDecode encoded [] with
    | .ok decoded =>
      if decoded.length > codec.maxFrameLen then .err frameExceedsMax else .ok (some decoded)
    | .error _ => .ok none

def decode (buf : Bytes) : Outcome String (Option Bytes) × Bytes :=
  match buf.idxOf? 0 with
  | none => codec.awaitDelimiter buf
  | some delimPos => (codec.segmentResult (buf.take delimPos), (buf.drop delimPos).drop 1)

theorem decode_none {buf : Bytes} (clean : 0 ∉ buf) :
    codec.decode buf = codec.awaitDelimiter buf := by
  rw [decode, List.idxOf?_eq_none_iff.mpr clean]

theorem idxOf?_delimiter {segment : Bytes} (rest : Bytes) (clean : 0 ∉ segment) :
    (segment ++ 0 :: rest).idxOf? 0 = some segment.length := by
  rw [List.idxOf?_eq_some_iff]
  refine ⟨by simp, by simp, ?_⟩
  intro earlier before same
  rw [List.getElem_append_left before] at same
  exact clean (same ▸ List.getElem_mem before)

theorem decode_segment {segment : Bytes} (rest : Bytes) (clean : 0 ∉ segment) :
    codec.decode (segment ++ 0 :: rest) = (codec.segmentResult segment, rest) := by
  simp only [decode, idxOf?_delimiter rest clean, List.take_left, List.drop_left,
    List.drop_succ_cons, List.drop_zero]

theorem awaitDelimiter_not_frame {buf frame : Bytes} :
    (codec.awaitDelimiter buf).1 ≠ .ok (some frame) := by
  unfold awaitDelimiter
  split <;> nofun

theorem decode_shorter {buf frame rest : Bytes}
    (returned : codec.decode buf = (.ok (some frame), rest)) : rest.length < buf.length := by
  unfold decode at returned
  split at returned
  · exact absurd (congrArg Prod.fst returned) codec.awaitDelimiter_not_frame
  · next delimPos found =>
    have inside := (List.idxOf?_eq_some_iff.mp found).1
    have rest := congrArg Prod.snd returned
    dsimp only at rest
    rw [← rest]
    simp only [List.length_drop]
    omega

/-- One turn of the reader: frames until `decode` has none to give. -/
def drain (buf : Bytes) : List Bytes × Outcome String Bytes :=
  match _returned : codec.decode buf with
  | (.ok (some frame), rest) => (frame :: (drain rest).1, (drain rest).2)
  | (.ok none, rest) => ([], .ok rest)
  | (.err error, _) => ([], .err error)
  | (.panic, _) => ([], .panic)
termination_by buf.length
decreasing_by all_goals exact codec.decode_shorter _returned

theorem drain_of_decode {buf rest : Bytes} {outcome : Outcome String (Option Bytes)}
    (returned : codec.decode buf = (outcome, rest)) :
    codec.drain buf =
      match outcome with
      | .ok (some frame) => (frame :: (codec.drain rest).1, (codec.drain rest).2)
      | .ok none => ([], .ok rest)
      | .err error => ([], .err error)
      | .panic => ([], .panic) := by
  rw [drain]
  split
  all_goals
    next found =>
      rw [returned] at found
      cases found
      rfl

theorem drain_of_clean {buf : Bytes} (clean : 0 ∉ buf) :
    codec.drain buf =
      if codec.maxFrameLen * 2 < 2 ^ 64 then
        ([], .ok (if buf.length > codec.maxFrameLen * 2 then [] else buf))
      else ([], .panic) := by
  have decodes := codec.decode_none clean
  rw [awaitDelimiter, u64] at decodes
  split
  · next fits =>
    rw [if_pos fits] at decodes
    exact codec.drain_of_decode decodes
  · next large =>
    rw [if_neg large] at decodes
    exact codec.drain_of_decode decodes

end CobsCodec

/-- `FramedRead`: the frames handed on and the bytes that wait, or the failure that ended it. -/
structure Reader where
  delivered : List Bytes
  pending : Outcome String Bytes
  deriving DecidableEq

namespace Reader

def start : Reader := ⟨[], .ok []⟩

def feed (codec : CobsCodec) (reader : Reader) (chunk : Bytes) : Reader :=
  match reader.pending with
  | .ok buf => ⟨reader.delivered ++ (codec.drain (buf ++ chunk)).1, (codec.drain (buf ++ chunk)).2⟩
  | .err _ => reader
  | .panic => reader

end Reader

def CobsCodec.read (codec : CobsCodec) (chunks : List Bytes) : Reader :=
  chunks.foldl (Reader.feed codec) Reader.start

def encodeAll (items : List Bytes) : Bytes :=
  items.foldl (fun dst item => encode item dst) []

end NdnExt.Serial
