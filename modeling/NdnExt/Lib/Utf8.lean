import Mathlib.Algebra.Group.Nat.Defs
import Mathlib.Data.List.Basic

/-! Strings as their UTF-8 bytes. -/

namespace NdnExt.Lib

def asBytes (text : String) : List UInt8 := text.toByteArray.data.toList

def fromUtf8 (bytes : List UInt8) : Option String := String.fromUTF8? ⟨bytes.toArray⟩

/-- The bytes of the character that a byte begins; none for a byte that begins no character. -/
def charWidth (first : UInt8) : Nat :=
  if first < 0x80 then 1
  else if 0xC2 ≤ first ∧ first ≤ 0xDF then 2
  else if 0xE0 ≤ first ∧ first ≤ 0xEF then 3
  else if 0xF0 ≤ first ∧ first ≤ 0xF4 then 4
  else 0

/-- What the second byte of a character may be. -/
def secondBounds (first : UInt8) : UInt8 × UInt8 :=
  if first = 0xE0 then (0xA0, 0xBF)
  else if first = 0xED then (0x80, 0x9F)
  else if first = 0xF0 then (0x90, 0xBF)
  else if first = 0xF4 then (0x80, 0x8F)
  else (0x80, 0xBF)

/-- Takes the missing bytes of a character: its code, if they all follow, and how many there are. -/
def continueChar : Nat → UInt8 × UInt8 → Nat → List UInt8 → Option Nat × Nat
  | 0, _, code, _ => (some code, 0)
  | _ + 1, _, _, [] => (none, 0)
  | missing + 1, (low, high), code, b :: rest =>
    if low ≤ b ∧ b ≤ high then
      let (found, taken) := continueChar missing (0x80, 0xBF) (code * 64 + b.toNat % 64) rest
      (found, taken + 1)
    else (none, 0)

def lossyChar (first : UInt8) (rest : List UInt8) : Option Nat × Nat :=
  match charWidth first with
  | 0 => (none, 0)
  | 1 => (some first.toNat, 0)
  | width + 1 =>
    continueChar width (secondBounds first) (first.toNat % 2 ^ (6 - width)) rest

/-- The characters of a text, after the bytes that the last one has taken. -/
def lossyChars : Nat → List UInt8 → List Char
  | _, [] => []
  | taken + 1, _ :: rest => lossyChars taken rest
  | 0, first :: rest =>
    let (code, taken) := lossyChar first rest
    ((code.map Char.ofNat).getD (Char.ofNat 0xFFFD)) :: lossyChars taken rest

/-- Each ill-formed sequence becomes one replacement character. -/
def fromUtf8Lossy (bytes : List UInt8) : String := String.ofList (lossyChars 0 bytes)

/-- A euro sign, its first two bytes alone, and a byte that begins nothing. -/
example : lossyChars 0 [0xE2, 0x82, 0xAC, 0xE2, 0x82, 0x41, 0xFF] =
    [Char.ofNat 0x20AC, Char.ofNat 0xFFFD, 'A', Char.ofNat 0xFFFD] := by decide

/-- Whether a byte offset lies between two characters of a valid text. -/
def isCharBoundary (bytes : List UInt8) (offset : Nat) : Prop :=
  offset = bytes.length ∨ ∃ b ∈ bytes[offset]?, b < 128 ∨ 192 ≤ b

instance (bytes : List UInt8) (offset : Nat) : Decidable (isCharBoundary bytes offset) := by
  unfold isCharBoundary
  infer_instance

theorem fromUtf8_asBytes (text : String) : fromUtf8 (asBytes text) = some text := by
  have valid := text.isValidUTF8
  unfold fromUtf8 asBytes String.fromUTF8?
  rw [Array.toArray_toList, dif_pos valid]
  rfl

theorem asBytes_fromUtf8 {bytes : List UInt8} {text : String}
    (decoded : fromUtf8 bytes = some text) : asBytes text = bytes := by
  unfold fromUtf8 String.fromUTF8? at decoded
  split at decoded
  · cases decoded
    rfl
  · cases decoded

theorem asBytes_ofList (chars : List Char) :
    asBytes (String.ofList chars) = chars.flatMap String.utf8EncodeChar := by
  rw [asBytes, String.toByteArray_ofList, List.utf8Encode, List.data_toByteArray]

theorem utf8EncodeChar_ascii {b : UInt8} (ascii : b < 128) :
    String.utf8EncodeChar (Char.ofNat b.toNat) = [b] := by
  have all : ∀ n : Fin 128,
      String.utf8EncodeChar (Char.ofNat (UInt8.ofNat n).toNat) = [UInt8.ofNat n] := by decide
  have found := all ⟨b.toNat, UInt8.lt_iff_toNat_lt.mp ascii⟩
  rw [UInt8.ofNat_toNat] at found
  exact found

/-- ASCII bytes are valid UTF-8. -/
theorem fromUtf8_ascii {bytes : List UInt8} (ascii : ∀ b ∈ bytes, b < 128) :
    ∃ text, fromUtf8 bytes = some text ∧ asBytes text = bytes := by
  have encoded : (bytes.map (fun b => Char.ofNat b.toNat)).flatMap String.utf8EncodeChar = bytes := by
    induction bytes with
    | nil => rfl
    | cons b rest ih =>
      rw [List.map_cons, List.flatMap_cons, utf8EncodeChar_ascii (ascii b List.mem_cons_self),
        ih (fun later mem => ascii later (List.mem_cons_of_mem b mem))]
      rfl
  have valid : ByteArray.IsValidUTF8 ⟨bytes.toArray⟩ := by
    refine ⟨bytes.map (fun b => Char.ofNat b.toNat), ?_⟩
    rw [List.utf8Encode, encoded]
    apply ByteArray.ext
    rw [List.data_toByteArray]
  have decoded : fromUtf8 bytes = some (String.fromUTF8 ⟨bytes.toArray⟩ valid) := by
    unfold fromUtf8 String.fromUTF8?
    rw [dif_pos valid]
  exact ⟨_, decoded, asBytes_fromUtf8 decoded⟩

/-! ### Reading what is well-formed -/

theorem lossyChars_skip (taken rest : List UInt8) :
    lossyChars taken.length (taken ++ rest) = lossyChars 0 rest := by
  induction taken with
  | nil => rfl
  | cons b more ih => exact ih

theorem toNat_ofNat_byte {n : Nat} (small : n < 256) : (UInt8.ofNat n).toNat = n := by
  rw [UInt8.toNat_ofNat', Nat.mod_eq_of_lt small]

/-- The second byte of a character within the bounds that its first byte sets. -/
theorem secondBounds_admits {first : UInt8} {second : Nat} (low : 0x80 ≤ second)
    (high : second ≤ 0xBF) (overlong : first.toNat = 0xE0 → 0xA0 ≤ second)
    (surrogate : first.toNat = 0xED → second ≤ 0x9F)
    (overlong' : first.toNat = 0xF0 → 0x90 ≤ second) (beyond : first.toNat = 0xF4 → second ≤ 0x8F) :
    (secondBounds first).1.toNat ≤ second ∧ second ≤ (secondBounds first).2.toNat := by
  unfold secondBounds
  split
  · next is => exact ⟨overlong (by rw [is]; rfl), high⟩
  · split
    · next is => exact ⟨low, surrogate (by rw [is]; rfl)⟩
    · split
      · next is => exact ⟨overlong' (by rw [is]; rfl), high⟩
      · split
        · next is => exact ⟨low, beyond (by rw [is]; rfl)⟩
        · exact ⟨low, high⟩

/-- A byte that continues a character adds six bits to its code. -/
theorem continueChar_cons {missing code digit : Nat} {bounds : UInt8 × UInt8} (rest : List UInt8)
    (small : digit < 64) (low : bounds.1.toNat ≤ digit + 0x80)
    (high : digit + 0x80 ≤ bounds.2.toNat) :
    continueChar (missing + 1) bounds code (UInt8.ofNat (digit + 0x80) :: rest) =
      ((continueChar missing (0x80, 0xBF) (code * 64 + digit) rest).1,
        (continueChar missing (0x80, 0xBF) (code * 64 + digit) rest).2 + 1) := by
  have byte := @toNat_ofNat_byte (digit + 0x80) (by omega)
  have within : bounds.1 ≤ UInt8.ofNat (digit + 0x80) ∧ UInt8.ofNat (digit + 0x80) ≤ bounds.2 := by
    rw [UInt8.le_iff_toNat_le, UInt8.le_iff_toNat_le, byte]
    exact ⟨low, high⟩
  have bits : (digit + 0x80) % 64 = digit := by omega
  rw [continueChar, if_pos within, byte, bits]

theorem charWidth_eq {first : UInt8} {n : Nat} (is : first.toNat = n) : charWidth first =
    if n < 0x80 then 1 else if 0xC2 ≤ n ∧ n ≤ 0xDF then 2
    else if 0xE0 ≤ n ∧ n ≤ 0xEF then 3 else if 0xF0 ≤ n ∧ n ≤ 0xF4 then 4 else 0 := by
  unfold charWidth
  simp only [UInt8.lt_iff_toNat_lt, UInt8.le_iff_toNat_le, is]
  rfl

theorem lossyChar_wide {first : UInt8} {width : Nat} (rest : List UInt8)
    (wide : charWidth first = width + 2) : lossyChar first rest =
      continueChar (width + 1) (secondBounds first) (first.toNat % 2 ^ (5 - width)) rest := by
  have mask : 6 - (width + 1) = 5 - width := by omega
  unfold lossyChar
  rw [wide]
  change continueChar _ _ (first.toNat % 2 ^ (6 - (width + 1))) rest = _
  rw [mask]

theorem lossyChars_char {c : Char} {first : UInt8} {more : List UInt8} (rest : List UInt8)
    (read : lossyChar first (more ++ rest) = (some c.val.toNat, more.length)) :
    lossyChars 0 (first :: more ++ rest) = c :: lossyChars 0 rest := by
  rw [List.cons_append, lossyChars, read]
  dsimp only
  rw [Option.map_some, Option.getD_some, lossyChars_skip]
  exact congrArg (· :: _) (Char.ofNat_toNat c)

/-- What a character is written as is read as the character. -/
theorem lossyChars_utf8EncodeChar (c : Char) (rest : List UInt8) :
    lossyChars 0 (String.utf8EncodeChar c ++ rest) = c :: lossyChars 0 rest := by
  have valid : c.val.toNat < 0xD800 ∨ 0xDFFF < c.val.toNat ∧ c.val.toNat < 0x110000 := c.valid
  have last : c.val.toNat % 0x40 < 64 := by omega
  unfold String.utf8EncodeChar
  dsimp only
  split
  · have byte := @toNat_ofNat_byte c.val.toNat (by omega)
    apply lossyChars_char
    unfold lossyChar
    rw [charWidth_eq byte, if_pos (by omega), byte]
    rfl
  · split
    · have byte := @toNat_ofNat_byte (c.val.toNat / 64 % 0x20 + 0xc0) (by omega)
      apply lossyChars_char
      rw [@lossyChar_wide _ 0, byte]
      · have bounds := @secondBounds_admits (UInt8.ofNat (c.val.toNat / 64 % 0x20 + 0xc0))
          (c.val.toNat % 0x40 + 0x80) (by omega) (by omega) (by omega) (by omega) (by omega)
          (by omega)
        rw [List.cons_append, continueChar_cons _ last bounds.1 bounds.2, continueChar]
        exact Prod.ext (congrArg some (by omega)) rfl
      · rw [charWidth_eq byte, if_neg (by omega), if_pos (by omega)]
    · have middle : c.val.toNat / 64 % 0x40 < 64 := by omega
      split
      · have byte := @toNat_ofNat_byte (c.val.toNat / 4096 % 0x10 + 0xe0) (by omega)
        apply lossyChars_char
        rw [@lossyChar_wide _ 1, byte]
        · have bounds := @secondBounds_admits (UInt8.ofNat (c.val.toNat / 4096 % 0x10 + 0xe0))
            (c.val.toNat / 64 % 0x40 + 0x80) (by omega) (by omega) (by omega) (by omega) (by omega)
            (by omega)
          rw [List.cons_append, continueChar_cons _ middle bounds.1 bounds.2, List.cons_append,
            continueChar_cons _ last (Nat.le_add_left _ _) (by change _ ≤ 0xBF; omega),
            continueChar]
          exact Prod.ext (congrArg some (by omega)) rfl
        · rw [charWidth_eq byte, if_neg (by omega), if_neg (by omega), if_pos (by omega)]
      · have high : c.val.toNat / 4096 % 0x40 < 64 := by omega
        have byte := @toNat_ofNat_byte (c.val.toNat / 262144 % 0x8 + 0xf0) (by omega)
        apply lossyChars_char
        rw [@lossyChar_wide _ 2, byte]
        · have bounds := @secondBounds_admits (UInt8.ofNat (c.val.toNat / 262144 % 0x8 + 0xf0))
            (c.val.toNat / 4096 % 0x40 + 0x80) (by omega) (by omega) (by omega) (by omega)
            (by omega) (by omega)
          rw [List.cons_append, continueChar_cons _ high bounds.1 bounds.2, List.cons_append,
            continueChar_cons _ middle (Nat.le_add_left _ _) (by change _ ≤ 0xBF; omega),
            List.cons_append, continueChar_cons _ last (Nat.le_add_left _ _)
              (by change _ ≤ 0xBF; omega), continueChar]
          exact Prod.ext (congrArg some (by omega)) rfl
        · rw [charWidth_eq byte, if_neg (by omega), if_neg (by omega), if_neg (by omega),
            if_pos (by omega)]

theorem fromUtf8Lossy_asBytes (text : String) : fromUtf8Lossy (asBytes text) = text := by
  have read : ∀ chars : List Char, lossyChars 0 (chars.flatMap String.utf8EncodeChar) = chars := by
    intro chars
    induction chars with
    | nil => rfl
    | cons c more ih => rw [List.flatMap_cons, lossyChars_utf8EncodeChar, ih]
  rw [fromUtf8Lossy, ← String.ofList_toList (s := text), asBytes_ofList, read]

end NdnExt.Lib
