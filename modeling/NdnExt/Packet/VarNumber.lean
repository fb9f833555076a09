import NdnExt.Packet.NdnTlv

/-! Numbers of one, three, five or nine bytes. -/

namespace NdnExt

open NdnExt.Lib

/-- `ndn_tlv::read_varu64`: the number at the front of some bytes with its size, which the bytes
after it do not change; and the writer of such numbers. -/
structure VarNumbers where
  readVaru64 : List UInt8 → Option (Nat × Nat)
  writeVaru64 : Nat → List UInt8
  size_le : ∀ {bytes read}, readVaru64 bytes = some read → read.2 ≤ bytes.length
  append : ∀ {bytes read} more, readVaru64 bytes = some read →
    readVaru64 (bytes ++ more) = some read
  read_write : ∀ {value}, value < 2 ^ 64 →
    readVaru64 (writeVaru64 value) = some (value, (writeVaru64 value).length)

namespace NdnTlv

/-- A number of a fixed width after the byte that announces it. -/
def readWide (width : Nat) (bytes : List UInt8) : Option (Nat × Nat) :=
  (takeBe width bytes).map fun read => (read.1, width + 1)

/-- A byte below 253 is the number itself, another one tells the width. -/
def readVaru64 : List UInt8 → Option (Nat × Nat)
  | [] => none
  | first :: rest =>
    if first.toNat < 253 then some (first.toNat, 1)
    else readWide (2 ^ (first.toNat - 252)) rest

def writeVaru64 (value : Nat) : List UInt8 :=
  if value < 253 then [UInt8.ofNat value]
  else if value < 2 ^ 16 then 253 :: beBytes 2 value
  else if value < 2 ^ 32 then 254 :: beBytes 4 value
  else 255 :: beBytes 8 value

variable {bytes : List UInt8} {read : Nat × Nat}

theorem readWide_size {width : Nat}
    (found : readWide width bytes = some read) : read.2 ≤ bytes.length + 1 := by
  unfold readWide takeBe at found
  split at found
  · cases found
    dsimp only
    omega
  · cases found

theorem readWide_append {width : Nat} (more : List UInt8)
    (found : readWide width bytes = some read) : readWide width (bytes ++ more) = some read := by
  unfold readWide takeBe at found ⊢
  split at found
  · next fits =>
    rw [if_pos (by rw [List.length_append]; omega), List.take_append_of_le_length fits]
    exact found
  · cases found

theorem readWide_write {width value : Nat} (fits : value < 256 ^ width) :
    readWide width (beBytes width value) = some (value, width + 1) := by
  have read := takeBe_write fits []
  rw [List.append_nil] at read
  unfold readWide
  rw [read]
  rfl

theorem readVaru64_size
    (found : readVaru64 bytes = some read) : read.2 ≤ bytes.length := by
  cases bytes with
  | nil => cases found
  | cons first rest =>
    rw [readVaru64] at found
    split at found
    · cases found
      simp
    · exact readWide_size found

theorem readVaru64_append (more : List UInt8)
    (found : readVaru64 bytes = some read) : readVaru64 (bytes ++ more) = some read := by
  cases bytes with
  | nil => cases found
  | cons first rest =>
    rw [readVaru64] at found
    rw [List.cons_append, readVaru64]
    split at found
    · next narrow => rwa [if_pos narrow]
    · next wide =>
      rw [if_neg wide]
      exact readWide_append more found

theorem readVaru64_write {value : Nat} (fits : value < 2 ^ 64) :
    readVaru64 (writeVaru64 value) = some (value, (writeVaru64 value).length) := by
  unfold writeVaru64
  split
  · next small =>
    have byte : (UInt8.ofNat value).toNat = value := by
      rw [UInt8.toNat_ofNat']
      omega
    rw [readVaru64, byte, if_pos small]
    rfl
  · split
    · rw [readVaru64, if_neg (by decide), List.length_cons, length_beBytes]
      exact @readWide_write 2 value (by omega)
    · split
      · rw [readVaru64, if_neg (by decide), List.length_cons, length_beBytes]
        exact @readWide_write 4 value (by omega)
      · rw [readVaru64, if_neg (by decide), List.length_cons, length_beBytes]
        exact @readWide_write 8 value (by omega)

def varNumbers : VarNumbers where
  readVaru64 := readVaru64
  writeVaru64 := writeVaru64
  size_le := readVaru64_size
  append := readVaru64_append
  read_write := readVaru64_write

end NdnTlv
end NdnExt
