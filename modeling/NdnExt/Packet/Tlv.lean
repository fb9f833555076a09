import NdnExt.Lib.BigEndian
import NdnExt.Lib.Outcome
import NdnExt.Packet.Name

/-! The TLV reader and writer and the name codec that the routing codecs are written on. -/

namespace NdnExt

open NdnExt.Lib

def tlvName : Nat := 7

/-- `ndn_tlv`: a reader takes one TLV off the front of its input, a writer appends one. -/
structure TlvCodec where
  Error : Type
  writeTlv : Nat → List UInt8 → List UInt8
  readTlv : List UInt8 → Except Error (Nat × List UInt8 × List UInt8)
  read_write : ∀ typ value rest, readTlv (writeTlv typ value ++ rest) = .ok (typ, value, rest)
  read_shorter : ∀ {bytes typ value rest}, readTlv bytes = .ok (typ, value, rest) →
    rest.length < bytes.length

/-- With the codec of names: the value of a name TLV and the whole TLV. -/
structure NameCodec extends TlvCodec where
  encodeValue : Name → List UInt8
  decode : List UInt8 → Option Name
  decodeFromTlv : List UInt8 → Option Name
  decode_encodeValue : ∀ name, decode (encodeValue name) = some name
  decodeFromTlv_write : ∀ name, decodeFromTlv (writeTlv tlvName (encodeValue name)) = some name

/-- With the non-negative integers: one, two, four or eight bytes, big-endian. -/
structure PacketCodec extends NameCodec where
  decodeNni : List UInt8 → Option Nat
  decodeNni_width : ∀ bytes, bytes.length ∈ [1, 2, 4, 8] → decodeNni bytes = some (ofBe bytes)

def NameCodec.encodeToTlv (codec : NameCodec) (name : Name) : List UInt8 :=
  codec.writeTlv tlvName (codec.encodeValue name)

namespace TlvCodec

variable (codec : TlvCodec)

theorem writeTlv_ne_nil (typ : Nat) (value : List UInt8) : codec.writeTlv typ value ≠ [] := by
  intro empty
  have shorter := codec.read_shorter (codec.read_write typ value [])
  rw [empty] at shorter
  cases shorter

/-- A sequence of TLVs. -/
def writeAll (fields : List (Nat × List UInt8)) : List UInt8 :=
  fields.flatMap (fun field => codec.writeTlv field.1 field.2)

section Reading

variable {m : Type → Type} [Monad m] {S : Type}

/-- Reads TLVs to the end of the input, each of them with `field`. -/
def forEachTlv (malformed : codec.Error → m S) (field : S → Nat → List UInt8 → m S) (state : S)
    (bytes : List UInt8) : m S :=
  if bytes = [] then pure state
  else
    match read : codec.readTlv bytes with
    | .error error => malformed error
    | .ok (typ, value, rest) => do
      let state ← field state typ value
      forEachTlv malformed field state rest
termination_by bytes.length
decreasing_by exact codec.read_shorter read

variable {codec} {malformed : codec.Error → m S} {field : S → Nat → List UInt8 → m S}

theorem forEachTlv_nil (state : S) : codec.forEachTlv malformed field state [] = pure state := by
  rw [forEachTlv, if_pos rfl]

theorem forEachTlv_write (state : S) (typ : Nat) (value rest : List UInt8) :
    codec.forEachTlv malformed field state (codec.writeTlv typ value ++ rest) = (do
      let state ← field state typ value
      codec.forEachTlv malformed field state rest) := by
  rw [forEachTlv, if_neg (List.append_ne_nil_of_left_ne_nil (codec.writeTlv_ne_nil typ value) rest)]
  have read := codec.read_write typ value rest
  split
  · rename_i failed
    rw [read] at failed
    cases failed
  · rename_i found
    rw [read] at found
    cases found
    rfl

theorem forEachTlv_writeAll (state : S) (fields : List (Nat × List UInt8)) :
    codec.forEachTlv malformed field state (codec.writeAll fields) =
      fields.foldlM (fun state typed => field state typed.1 typed.2) state := by
  induction fields generalizing state with
  | nil => exact forEachTlv_nil state
  | cons typed rest ih =>
    rw [writeAll, List.flatMap_cons, forEachTlv_write, List.foldlM_cons]
    congr 1
    funext next
    exact ih next

/-- TLVs that `field` passes over can be left out. -/
theorem forEachTlv_filter [LawfulMonad m] {known : List Nat}
    (skips : ∀ state typ value, typ ∉ known → field state typ value = pure state) (state : S)
    (fields : List (Nat × List UInt8)) :
    codec.forEachTlv malformed field state (codec.writeAll fields) =
      codec.forEachTlv malformed field state
        (codec.writeAll (fields.filter (fun typed => typed.1 ∈ known))) := by
  rw [forEachTlv_writeAll, forEachTlv_writeAll]
  induction fields generalizing state with
  | nil => rfl
  | cons typed rest ih =>
    by_cases kept : typed.1 ∈ known
    · rw [List.filter_cons_of_pos (by simpa using kept), List.foldlM_cons, List.foldlM_cons]
      congr 1
      funext next
      exact ih next
    · rw [List.filter_cons_of_neg (by simpa using kept), List.foldlM_cons,
        skips state _ _ kept, pure_bind]
      exact ih state

end Reading

/-- Reading to the end stops the program only where reading one TLV does. -/
theorem forEachTlv_ne_panic {codec : TlvCodec} {E S : Type} {malformed : codec.Error → Outcome E S}
    {field : S → Nat → List UInt8 → Outcome E S} (errors : ∀ error, malformed error ≠ .panic)
    (fields : ∀ state typ value, field state typ value ≠ .panic) (state : S) (bytes : List UInt8) :
    codec.forEachTlv malformed field state bytes ≠ .panic := by
  induction length : bytes.length using Nat.strongRecOn generalizing bytes state with
  | ind size ih =>
    rw [forEachTlv]
    split
    · nofun
    · split
      · exact errors _
      · rename_i typ value rest read
        have shorter := codec.read_shorter read
        refine Outcome.bind_ne_panic (fields state typ value) ?_
        intro next
        exact ih rest.length (by omega) next rest rfl

end TlvCodec
end NdnExt
