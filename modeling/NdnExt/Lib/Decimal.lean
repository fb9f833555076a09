import Mathlib.Data.List.Infix
import Mathlib.Tactic.NormNum.Basic
import Mathlib.Tactic.Positivity.Basic
/-! Integers as ASCII decimals: padded with zeros on output, with an optional sign on input. -/

namespace NdnExt.Lib

open List

def decimal (value : Nat) : List UInt8 :=
  (Nat.toDigits 10 value).map (fun digit => UInt8.ofNat digit.toNat)

/-- Rust's `{value:0width}`. -/
def padded (width value : Nat) : List UInt8 := (decimal value).leftpad width 48

/-- The same of a signed value: the sign takes one place of the width. -/
def paddedInt (width : Nat) (value : Int) : List UInt8 :=
  if value < 0 then 45 :: padded (width - 1) value.natAbs else padded width value.toNat

def digitValue (b : UInt8) : Option Nat :=
  if 48 ≤ b ∧ b ≤ 57 then some (b.toNat - 48) else none

def parseDigits (bytes : List UInt8) : Option Nat :=
  bytes.foldlM (fun acc b => (digitValue b).map (acc * 10 + ·)) 0

/-- Rust's `parse` for the integers between `least` and `greatest`. -/
def parseInt (signed : Bool) (least greatest : Int) (bytes : List UInt8) : Option Int :=
  match bytes with
  | [] => none
  | b :: rest =>
    if rest = [] ∧ (b = 43 ∨ b = 45) then none
    else
      let value : Option Int :=
        if b = 43 then (parseDigits rest).map Int.ofNat
        else if b = 45 ∧ signed then (parseDigits rest).map (fun value => - Int.ofNat value)
        else (parseDigits bytes).map Int.ofNat
      value.filter (fun value => least ≤ value ∧ value ≤ greatest)

theorem digitChar_toNat {digit : Nat} (small : digit < 10) :
    (Nat.digitChar digit).toNat = 48 + digit := by
  have all : ∀ n : Fin 10, (Nat.digitChar n).toNat = 48 + n := by decide
  exact all ⟨digit, small⟩

/-- The last digit comes off the end. -/
theorem decimal_eq (value : Nat) :
    decimal value =
      (if value < 10 then [] else decimal (value / 10)) ++ [UInt8.ofNat (48 + value % 10)] := by
  unfold decimal
  rw [Nat.toDigits_eq_if (by decide)]
  split
  · rw [map_singleton, digitChar_toNat (by omega), Nat.mod_eq_of_lt (by omega)]
    rfl
  · rw [map_append, map_singleton, digitChar_toNat (by omega)]

variable {value width : Nat}

theorem length_decimal_le (positive : 0 < width) (fits : value < 10 ^ width) :
    (decimal value).length ≤ width := by
  rw [decimal, length_map]
  exact (Nat.length_toDigits_le_iff (by decide) positive).mpr fits

theorem length_padded (positive : 0 < width) (fits : value < 10 ^ width) :
    (padded width value).length = width := by
  have short := length_decimal_le positive fits
  rw [padded, length_leftpad]
  omega

theorem digit_of_mem_decimal {value : Nat} {b : UInt8} (mem : b ∈ decimal value) :
    48 ≤ b ∧ b ≤ 57 := by
  induction value using Nat.strongRecOn with
  | ind value ih =>
    rw [decimal_eq, mem_append, mem_singleton] at mem
    rcases mem with earlier | last
    · split at earlier
      · cases earlier
      · exact ih (value / 10) (by omega) earlier
    · subst last
      have bounds : ∀ n : Fin 10, 48 ≤ UInt8.ofNat (48 + n) ∧ UInt8.ofNat (48 + n) ≤ 57 := by
        decide
      exact bounds ⟨value % 10, by omega⟩

theorem digit_of_mem_padded {b : UInt8} (mem : b ∈ padded width value) :
    48 ≤ b ∧ b ≤ 57 := by
  rw [padded, List.leftpad, mem_append] at mem
  rcases mem with zero | digit
  · rw [eq_of_mem_replicate zero]
    decide
  · exact digit_of_mem_decimal digit

theorem digitValue_ofNat {digit : Nat} (small : digit < 10) :
    digitValue (UInt8.ofNat (48 + digit)) = some digit := by
  have all : ∀ n : Fin 10, digitValue (UInt8.ofNat (48 + n)) = some n.val := by decide
  exact all ⟨digit, small⟩

theorem parseDigits_append (bytes : List UInt8) {digit : Nat} (small : digit < 10) :
    parseDigits (bytes ++ [UInt8.ofNat (48 + digit)]) =
      (parseDigits bytes).map (fun acc => acc * 10 + digit) := by
  rw [parseDigits, foldlM_append]
  simp only [foldlM_cons, foldlM_nil, digitValue_ofNat small]
  rw [← parseDigits]
  cases parseDigits bytes <;> rfl

theorem parseDigits_decimal (value : Nat) : parseDigits (decimal value) = some value := by
  induction value using Nat.strongRecOn with
  | ind value ih =>
    rw [decimal_eq, parseDigits_append _ (by omega)]
    split
    · rw [Nat.mod_eq_of_lt ‹_›]
      change some (0 * 10 + value) = some value
      rw [Nat.zero_mul, Nat.zero_add]
    · rw [ih (value / 10) (by omega)]
      change some (value / 10 * 10 + value % 10) = some value
      rw [Nat.div_add_mod']

theorem parseDigits_padded (width value : Nat) : parseDigits (padded width value) = some value := by
  have zeros : ∀ count, parseDigits (List.replicate count 48 ++ decimal value) = some value := by
    intro count
    induction count with
    | zero => exact parseDigits_decimal value
    | succ count ih => exact ih
  exact zeros _

theorem parseInt_padded {signed : Bool} {least greatest : Int}
    (lower : least ≤ value) (upper : (value : Int) ≤ greatest) (positive : 0 < width) :
    parseInt signed least greatest (padded width value) = some (value : Int) := by
  have digits := parseDigits_padded width value
  cases shape : padded width value with
  | nil =>
    have length := congrArg List.length shape
    rw [padded, length_leftpad, length_nil] at length
    omega
  | cons b rest =>
    rw [shape] at digits
    have bounds : 48 ≤ b ∧ b ≤ 57 :=
      digit_of_mem_padded (by rw [shape]; exact mem_cons_self)
    have unsigned : b ≠ 43 ∧ b ≠ 45 := by
      constructor
      · intro plus
        rw [plus] at bounds
        exact absurd bounds.1 (by decide)
      · intro minus
        rw [minus] at bounds
        exact absurd bounds.1 (by decide)
    unfold parseInt
    dsimp only
    rw [if_neg (fun both => both.2.elim unsigned.1 unsigned.2), if_neg unsigned.1,
      if_neg (fun both => unsigned.2 both.1), digits]
    change Option.filter _ (some (value : Int)) = some (value : Int)
    rw [Option.filter_some, if_pos (by simp only [lower, upper, and_self, decide_true])]

theorem parseDigits_lt {bytes : List UInt8} (parsed : parseDigits bytes = some value) :
    value < 10 ^ bytes.length := by
  induction bytes using List.reverseRecOn generalizing value with
  | nil =>
    cases parsed
    decide
  | append_singleton bytes b ih =>
    rw [parseDigits, foldlM_append] at parsed
    rcases Option.bind_eq_some_iff.mp parsed with ⟨high, earlier, last⟩
    simp only [foldlM_cons, foldlM_nil, Option.bind_eq_bind, Option.bind_eq_some_iff,
      Option.map_eq_some_iff, Option.pure_def, Option.some.injEq, exists_eq_right] at last
    rcases last with ⟨digit, found, rfl⟩
    have small : digit ≤ 9 := by
      unfold digitValue at found
      split at found
      · rename_i range
        have upper := UInt8.le_iff_toNat_le.mp range.2
        cases found
        change b.toNat - 48 ≤ 9
        change b.toNat ≤ 57 at upper
        omega
      · cases found
    have before := ih earlier
    rw [length_append, length_singleton, Nat.pow_succ]
    omega

/-- A parsed value has no more digits than its text has bytes. -/
theorem parseInt_bounds {signed : Bool} {least greatest value : Int} {bytes : List UInt8}
    (parsed : parseInt signed least greatest bytes = some value) :
    value < 10 ^ bytes.length ∧ - 10 ^ bytes.length < value ∧ (signed = false → 0 ≤ value) := by
  unfold parseInt at parsed
  split at parsed
  · cases parsed
  · rename_i b rest
    have wider : (10 : Int) ^ rest.length ≤ 10 ^ (b :: rest).length := by
      rw [length_cons, pow_succ]
      have positive : (0 : Int) < 10 ^ rest.length := by positivity
      omega
    split at parsed
    · cases parsed
    · rw [Option.filter_eq_some_iff] at parsed
      rcases parsed with ⟨found, -⟩
      split at found
      · rcases Option.map_eq_some_iff.mp found with ⟨digits, parsed, rfl⟩
        have small : (digits : Int) < 10 ^ rest.length := by exact_mod_cast parseDigits_lt parsed
        refine ⟨?_, ?_, ?_⟩
        all_goals intros
        all_goals simp only [Int.ofNat_eq_natCast]
        all_goals omega
      · split at found
        · rcases Option.map_eq_some_iff.mp found with ⟨digits, parsed, rfl⟩
          have small : (digits : Int) < 10 ^ rest.length := by exact_mod_cast parseDigits_lt parsed
          rename_i minus
          refine ⟨?_, ?_, fun unsigned => absurd minus.2 (by rw [unsigned]; decide)⟩
          all_goals simp only [Int.ofNat_eq_natCast]
          all_goals omega
        · rcases Option.map_eq_some_iff.mp found with ⟨digits, parsed, rfl⟩
          have small : (digits : Int) < 10 ^ (b :: rest).length := by
            exact_mod_cast parseDigits_lt parsed
          refine ⟨?_, ?_, ?_⟩
          all_goals intros
          all_goals simp only [Int.ofNat_eq_natCast]
          all_goals omega

end NdnExt.Lib
