import NdnExt.Packet.NdnTlv

/-! Thunks: the content that names a result which is not ready. -/

namespace NdnExt.Compute

open NdnExt.Lib

abbrev Bytes := List UInt8

def thunkType : Nat := 0xC910
def thunkNameType : Nat := 0xC911
def thunkEtaType : Nat := 0xC913

/-- A reader that also looks at the type of the next TLV. -/
structure ThunkCodec extends NameCodec where
  peekType : Bytes → Option Nat
  peek_write : ∀ typ value rest, peekType (writeTlv typ value ++ rest) = some typ

structure Thunk where
  thunkName : Name
  /-- In milliseconds. -/
  eta : UInt64

variable (codec : ThunkCodec)

namespace Thunk

def toContent (thunk : Thunk) : Bytes :=
  codec.writeTlv thunkType (codec.writeAll
    [(thunkNameType, codec.encodeToTlv thunk.thunkName),
      (thunkEtaType, beBytes 8 thunk.eta.toNat)])

def decodeNonneg (bytes : Bytes) : UInt64 :=
  (bytes.take 8).foldl (fun x b => x <<< 8 ||| b.toUInt64) 0

def field (state : Option Name × UInt64) (typ : Nat) (value : Bytes) :
    Option (Option Name × UInt64) :=
  if typ = thunkNameType then some (codec.decodeFromTlv value, state.2)
  else if typ = thunkEtaType then some (state.1, decodeNonneg value)
  else some state

def fromContent (content : Bytes) : Option Thunk :=
  match codec.readTlv content with
  | .error _ => none
  | .ok (typ, body, _) =>
    if typ ≠ thunkType then none
    else do
      let state ← codec.forEachTlv (fun _ => none) (field codec) (none, 0) body
      let thunkName ← state.1
      some ⟨thunkName, state.2⟩

def contentIsThunk (content : Bytes) : Bool := codec.peekType content = some thunkType

theorem fromContent_toContent (thunk : Thunk) :
    fromContent codec (thunk.toContent codec) = some thunk := by
  have read := codec.read_write thunkType (codec.writeAll
    [(thunkNameType, codec.encodeToTlv thunk.thunkName),
      (thunkEtaType, beBytes 8 thunk.eta.toNat)]) []
  rw [List.append_nil] at read
  have eta : decodeNonneg (beBytes 8 thunk.eta.toNat) = thunk.eta := by
    apply UInt64.toNat_inj.mp
    rw [decodeNonneg, List.take_of_length_le (by rw [length_beBytes]), foldl_shiftIn]
    change ofBe (beBytes 8 thunk.eta.toNat) % 2 ^ 64 = _
    rw [ofBe_beBytes (show thunk.eta.toNat < 256 ^ 8 from thunk.eta.toNat_lt),
      Nat.mod_eq_of_lt thunk.eta.toNat_lt]
  have name : codec.decodeFromTlv (codec.encodeToTlv thunk.thunkName) = some thunk.thunkName :=
    codec.decodeFromTlv_write thunk.thunkName
  rw [fromContent, toContent, read]
  dsimp only
  rw [if_neg (by decide), TlvCodec.forEachTlv_writeAll]
  simp [field, thunkNameType, thunkEtaType, eta, name]

theorem contentIsThunk_toContent (thunk : Thunk) :
    contentIsThunk codec (thunk.toContent codec) = true := by
  have peeked := codec.peek_write thunkType (codec.writeAll
    [(thunkNameType, codec.encodeToTlv thunk.thunkName),
      (thunkEtaType, beBytes 8 thunk.eta.toNat)]) []
  rw [List.append_nil] at peeked
  exact decide_eq_true peeked

end Thunk

/-- The NDN packet format. -/
def thunkCodec : ThunkCodec where
  toNameCodec := NdnTlv.codec
  peekType bytes := (NdnTlv.readVar bytes).map (·.1)
  peek_write := by
    intro typ value rest
    change (NdnTlv.readVar (NdnTlv.writeVar typ ++ _ ++ rest)).map (·.1) = some typ
    rw [List.append_assoc, NdnTlv.readVar_write]
    rfl

end NdnExt.Compute
