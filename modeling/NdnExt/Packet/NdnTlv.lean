import NdnExt.Packet.Tlv

/-! The NDN packet format as a codec: variable-size numbers, TLVs and names. -/

namespace NdnExt.NdnTlv

open NdnExt.Lib List

inductive TlvError where
  | incomplete
  deriving DecidableEq

def takeBe (width : Nat) (bytes : List UInt8) : Option (Nat × List UInt8) :=
  if width ≤ bytes.length then some (ofBe (bytes.take width), bytes.drop width) else none

/-- Numbers beyond 64 bits, which no packet holds, are written in unary after a non-minimal
number, so that reading inverts writing everywhere. -/
def writeVar (value : Nat) : List UInt8 :=
  if value < 253 then [UInt8.ofNat value]
  else if value < 2 ^ 16 then 253 :: beBytes 2 value
  else if value < 2 ^ 32 then 254 :: beBytes 4 value
  else if value < 2 ^ 64 then 255 :: beBytes 8 value
  else 253 :: 0 :: 0 :: (List.replicate value 1 ++ [0])

def readUnary : List UInt8 → Option (Nat × List UInt8)
  | [] => none
  | 0 :: rest => some (0, rest)
  | _ :: rest => (readUnary rest).map (fun read => (read.1 + 1, read.2))

def readVar : List UInt8 → Option (Nat × List UInt8)
  | [] => none
  | first :: rest =>
    if first = 253 then
      (takeBe 2 rest).bind fun read => if read.1 = 0 then readUnary read.2 else some read
    else if first = 254 then takeBe 4 rest
    else if first = 255 then takeBe 8 rest
    else some (first.toNat, rest)

def writeTlv (typ : Nat) (value : List UInt8) : List UInt8 :=
  writeVar typ ++ (writeVar value.length ++ value)

def readTlv (bytes : List UInt8) : Except TlvError (Nat × List UInt8 × List UInt8) :=
  match readVar bytes with
  | none => .error .incomplete
  | some (typ, rest) =>
    match readVar rest with
    | none => .error .incomplete
    | some (length, rest) =>
      if length ≤ rest.length then .ok (typ, rest.take length, rest.drop length)
      else .error .incomplete

theorem takeBe_write {width value : Nat} (fits : value < 256 ^ width) (rest : List UInt8) :
    takeBe width (beBytes width value ++ rest) = some (value, rest) := by
  have length := length_beBytes width value
  unfold takeBe
  rw [if_pos (by rw [length_append]; omega), take_left' length, drop_left' length,
    ofBe_beBytes fits]

variable {bytes rest : List UInt8}

theorem takeBe_shorter {width value : Nat}
    (read : takeBe width bytes = some (value, rest)) : rest.length ≤ bytes.length := by
  unfold takeBe at read
  split at read
  · cases read
    rw [length_drop]
    omega
  · cases read

theorem readUnary_write (value : Nat) (rest : List UInt8) :
    readUnary (List.replicate value 1 ++ [0] ++ rest) = some (value, rest) := by
  induction value with
  | zero => rfl
  | succ value ih =>
    change (readUnary (List.replicate value 1 ++ [0] ++ rest)).map _ = _
    rw [ih]
    rfl

theorem readUnary_shorter {value : Nat}
    (read : readUnary bytes = some (value, rest)) : rest.length < bytes.length := by
  induction bytes generalizing value with
  | nil => cases read
  | cons b later ih =>
    unfold readUnary at read
    split at read
    · cases read
    · rename_i same
      cases same
      cases read
      exact Nat.lt_succ_self _
    · rename_i same
      cases same
      rcases Option.map_eq_some_iff.mp read with ⟨⟨count, after⟩, found, same⟩
      cases same
      exact Nat.lt_succ_of_lt (ih found)

theorem readVar_write (value : Nat) (rest : List UInt8) :
    readVar (writeVar value ++ rest) = some (value, rest) := by
  unfold writeVar
  split
  · rename_i small
    have byte : (UInt8.ofNat value).toNat = value := by
      rw [UInt8.toNat_ofNat']
      omega
    have plain : ∀ mark : UInt8, 253 ≤ mark.toNat → UInt8.ofNat value ≠ mark := by
      intro mark large same
      rw [← same, byte] at large
      omega
    change readVar (UInt8.ofNat value :: rest) = _
    rw [readVar, if_neg (plain 253 (by decide)), if_neg (plain 254 (by decide)),
      if_neg (plain 255 (by decide)), byte]
  · split
    · rw [cons_append, readVar, if_pos rfl, takeBe_write (by omega), Option.bind_some,
        if_neg (by dsimp only; omega)]
    · split
      · rw [cons_append, readVar, if_neg (by decide), if_pos rfl]
        exact takeBe_write (by omega) rest
      · split
        · rw [cons_append, readVar, if_neg (by decide), if_neg (by decide), if_pos rfl]
          exact takeBe_write (by omega) rest
        · have escape := @takeBe_write 2 0 (by decide) (List.replicate value 1 ++ [0] ++ rest)
          change takeBe 2 (0 :: 0 :: (List.replicate value 1 ++ [0] ++ rest)) = _ at escape
          rw [cons_append, cons_append, cons_append, readVar, if_pos rfl, escape,
            Option.bind_some, if_pos rfl]
          exact readUnary_write value rest

theorem readVar_shorter {value : Nat}
    (read : readVar bytes = some (value, rest)) : rest.length < bytes.length := by
  cases bytes with
  | nil => cases read
  | cons first later =>
    rw [length_cons, Nat.lt_succ_iff]
    rw [readVar] at read
    split at read
    · rcases Option.bind_eq_some_iff.mp read with ⟨⟨low, after⟩, found, next⟩
      have shorter := takeBe_shorter found
      split at next
      · exact (readUnary_shorter next).le.trans shorter
      · cases next
        exact shorter
    · split at read
      · exact takeBe_shorter read
      · split at read
        · exact takeBe_shorter read
        · cases read
          exact Nat.le_refl _

theorem readTlv_write (typ : Nat) (value rest : List UInt8) :
    readTlv (writeTlv typ value ++ rest) = .ok (typ, value, rest) := by
  unfold readTlv writeTlv
  rw [append_assoc, readVar_write]
  dsimp only
  rw [append_assoc, readVar_write]
  dsimp only
  rw [if_pos (by rw [length_append]; omega), take_left, drop_left]

theorem readTlv_shorter {typ : Nat} {value : List UInt8}
    (read : readTlv bytes = .ok (typ, value, rest)) : rest.length < bytes.length := by
  unfold readTlv at read
  split at read
  · cases read
  · rename_i typed
    split at read
    · cases read
    · rename_i sized
      split at read
      · cases read
        have first := readVar_shorter typed
        have second := readVar_shorter sized
        rw [length_drop]
        omega
      · cases read

def readTyped (typ : Nat) (bytes : List UInt8) : Option (List UInt8 × List UInt8) :=
  match readTlv bytes with
  | .ok (found, value, rest) => if found = typ then some (value, rest) else none
  | .error _ => none

theorem readTyped_write (typ : Nat) (value rest : List UInt8) :
    readTyped typ (writeTlv typ value ++ rest) = some (value, rest) := by
  unfold readTyped
  rw [readTlv_write]
  exact if_pos rfl

theorem readTyped_write_last (typ : Nat) (value : List UInt8) :
    readTyped typ (writeTlv typ value) = some (value, []) := by
  have read := readTyped_write typ value []
  rw [append_nil] at read
  exact read

def tlvCodec : TlvCodec where
  Error := TlvError
  writeTlv := writeTlv
  readTlv := readTlv
  read_write := readTlv_write
  read_shorter := readTlv_shorter

def encodeName (name : Name) : List UInt8 :=
  tlvCodec.writeAll (name.components.map (fun component => (component.typ, component.value)))

def decodeName (bytes : List UInt8) : Option Name :=
  (tlvCodec.forEachTlv (fun _ => none)
    (fun components typ value => some (components ++ [⟨typ, value⟩])) [] bytes).map Name.mk

def decodeNameTlv (bytes : List UInt8) : Option Name :=
  match readTlv bytes with
  | .ok (typ, value, _) => if typ = tlvName then decodeName value else none
  | .error _ => none

theorem decode_encode (name : Name) : decodeName (encodeName name) = some name := by
  have reads : ∀ components earlier : List NameComponent,
      (components.map (fun component => (component.typ, component.value))).foldlM
        (fun read typed => some (read ++ [(⟨typed.1, typed.2⟩ : NameComponent)])) earlier =
          some (earlier ++ components) := by
    intro components
    induction components with
    | nil =>
      intro earlier
      rw [append_nil]
      rfl
    | cons component rest ih =>
      intro earlier
      rw [map_cons, foldlM_cons]
      change List.foldlM _ (earlier ++ [component]) _ = _
      rw [ih, append_assoc]
      rfl
  unfold decodeName encodeName
  rw [TlvCodec.forEachTlv_writeAll, reads]
  rfl

/-- A Data packet: its name and its content. -/
def encodeData (name : Name) (content : List UInt8) : List UInt8 :=
  writeTlv 6 (writeTlv tlvName (encodeName name) ++ writeTlv 21 content)

def decodeData (bytes : List UInt8) : Option (Name × Option (List UInt8)) := do
  let (fields, _) ← readTyped 6 bytes
  let (name, fields) ← readTyped tlvName fields
  let name ← decodeName name
  some (name, (readTyped 21 fields).map Prod.fst)

theorem decode_encodeData (name : Name) (content : List UInt8) :
    decodeData (encodeData name content) = some (name, some content) := by
  unfold decodeData encodeData
  simp only [Option.bind_eq_bind, readTyped_write, readTyped_write_last, Option.bind_some,
    decode_encode, Option.map_some]

theorem decodeTlv_write (name : Name) :
    decodeNameTlv (writeTlv tlvName (encodeName name)) = some name := by
  have read := readTlv_write tlvName (encodeName name) []
  rw [append_nil] at read
  unfold decodeNameTlv
  rw [read]
  dsimp only
  rw [if_pos rfl, decode_encode]

def codec : NameCodec where
  toTlvCodec := tlvCodec
  encodeValue := encodeName
  decode := decodeName
  decodeFromTlv := decodeNameTlv
  decode_encodeValue := decode_encode
  decodeFromTlv_write := decodeTlv_write

def decodeNni (bytes : List UInt8) : Option Nat :=
  if bytes.length ∈ [1, 2, 4, 8] then some (ofBe bytes) else none

def packetCodec : PacketCodec where
  toNameCodec := codec
  decodeNni := decodeNni
  decodeNni_width := fun _ width => if_pos width

end NdnExt.NdnTlv
