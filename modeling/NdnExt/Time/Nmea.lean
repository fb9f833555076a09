import Mathlib.Algebra.Order.Floor.Ring
import Mathlib.Algebra.Order.Floor.Extended
import Mathlib.Data.Rat.Floor
import Mathlib.Tactic.Linarith
import Mathlib.Tactic.Positivity
import Mathlib.Tactic.Ring
import NdnExt.Lib.Calendar
import NdnExt.Lib.Decimal
import NdnExt.Lib.Utf8

/-! The time of a GNSS receiver's `RMC` sentence. -/

namespace NdnExt.Time.Nmea

open NdnExt.Lib List Option
open NdnExt.Lib.Calendar

/-! ### What the standard library does with texts -/

/-- The characters that Unicode calls white space. -/
def isWhitespace (c : Char) : Bool :=
  let code := c.toNat
  (9 ≤ code && code ≤ 13) || code == 0x20 || code == 0x85 || code == 0xA0 || code == 0x1680 ||
    (0x2000 ≤ code && code ≤ 0x200A) || code == 0x2028 || code == 0x2029 || code == 0x202F ||
    code == 0x205F || code == 0x3000

def trim (text : List Char) : List Char :=
  ((text.dropWhile isWhitespace).reverse.dropWhile isWhitespace).reverse

/-- The text before the first mark, and the text after it. -/
def splitOnce (mark : Char) : List Char → Option (List Char × List Char)
  | [] => none
  | c :: rest =>
    if c = mark then some ([], rest)
    else (splitOnce mark rest).map fun parts => (c :: parts.1, parts.2)

def utf8 (text : List Char) : List UInt8 := text.flatMap String.utf8EncodeChar

def digit (c : Char) : Option Nat :=
  if '0' ≤ c ∧ c ≤ '9' then some (c.toNat - 48) else none

def hexDigit (c : Char) : Option Nat :=
  if '0' ≤ c ∧ c ≤ '9' then some (c.toNat - 48)
  else if 'a' ≤ c ∧ c ≤ 'f' then some (c.toNat - 87)
  else if 'A' ≤ c ∧ c ≤ 'F' then some (c.toNat - 55)
  else none

/-- `u8::from_str_radix` in base 16. -/
def u8FromHex (text : List Char) : Option UInt8 :=
  let digits := if text.head? = some '+' then text.tail else text
  if digits = [] then none
  else ((digits.foldlM (fun acc c => (hexDigit c).map (acc * 16 + ·)) 0).filter
    (· ≤ 255)).map UInt8.ofNat

/-- The text up to a byte offset and from it on, unless the offset is inside a character. -/
def splitAtByte : Nat → List Char → Option (List Char × List Char)
  | 0, text => some ([], text)
  | _ + 1, [] => none
  | offset + 1, c :: rest =>
    if c.utf8Size ≤ offset + 1 then
      (splitAtByte (offset + 1 - c.utf8Size) rest).map fun parts => (c :: parts.1, parts.2)
    else none

/-- Rust's `text.get(start..stop)`. -/
def getBytes (start stop : Nat) (text : List Char) : Option (List Char) := do
  let (_, rest) ← splitAtByte start text
  let (part, _) ← splitAtByte (stop - start) rest
  return part

def parseI64 (text : List Char) : Option Int := parseInt true (-2 ^ 63) (2 ^ 63 - 1) (utf8 text)

def checkedI64 (value : Int) : Option Int :=
  if -2 ^ 63 ≤ value ∧ value < 2 ^ 63 then some value else none

/-! ### The parser -/

def xorOf (body : List Char) : UInt8 := (utf8 body).foldl (· ^^^ ·) 0

/-- What stands between the dollar sign and the checksum. -/
def bodyOf (sentence : List Char) : Option (List Char) :=
  match trim sentence with
  | '$' :: framed =>
    match splitOnce '*' framed with
    | none => some framed
    | some (body, checksum) =>
      (u8FromHex (trim checksum)).bind fun want => if xorOf body = want then some body else none
  | _ => none

/-- The time field and the date field of a valid fix. -/
def rmcFields (body : List Char) : Option (List Char × List Char) :=
  match body.splitOn ',' with
  | name :: time :: status :: _ :: _ :: _ :: _ :: _ :: _ :: date :: _ =>
    if ['R', 'M', 'C'] <:+ name ∧ status = ['A'] then some (time, date) else none
  | _ => none

/-- The integers in the first three pairs of bytes. -/
def threeParts (text : List Char) : Option (Int × Int × Int) := do
  if (utf8 text).length < 6 then none
  let first ← parseI64 (← getBytes 0 2 text)
  let second ← parseI64 (← getBytes 2 4 text)
  let third ← parseI64 (← getBytes 4 6 text)
  return (first, second, third)

def fracDigits : List Char → Int → Int → Int
  | [], ns, _ => ns
  | c :: rest, ns, scale =>
    match digit c with
    | some d => fracDigits rest (ns + d * scale) (scale / 10)
    | none => ns

def fracNs (time : List Char) : Int :=
  match splitOnce '.' time with
  | none => 0
  | some (_, frac) => fracDigits (frac.take 9) 0 100000000

def daysFromCivil (y m d : Int) : Int :=
  let y := if m ≤ 2 then y - 1 else y
  let era := (if 0 ≤ y then y else y - 399).tdiv 400
  let yoe := y - era * 400
  let mp := if 2 < m then m - 3 else m + 9
  let doy := (153 * mp + 2).tdiv 5 + d - 1
  let doe := yoe * 365 + yoe.tdiv 4 - yoe.tdiv 100 + doy
  era * 146097 + doe - 719468

/-- Pairs of bytes hold at most 99, so only the nanoseconds could leave the 64 bits. -/
def instantNs (time date : List Char) : Option Int := do
  let (hh, mm, ss) ← threeParts time
  let (dd, mo, yy) ← threeParts date
  if ¬ (1 ≤ mo ∧ mo ≤ 12) ∨ ¬ (1 ≤ dd ∧ dd ≤ 31) ∨ 23 < hh ∨ 59 < mm ∨ 60 < ss then none
  let secs := daysFromCivil (2000 + yy) mo dd * 86400 + hh * 3600 + mm * 60 + ss
  let ns ← checkedI64 (secs * 1000000000)
  checkedI64 (ns + fracNs time)

def parseRmcUnixNs (sentence : List Char) : Option Int := do
  let (time, date) ← rmcFields (← bodyOf sentence)
  instantNs time date

/-! ### What a sentence states -/

/-- The sentence frames this body: after a dollar sign and, where there is one, before a
checksum that is right. -/
def Frames (sentence body : List Char) : Prop :=
  '*' ∉ body ∧ (trim sentence = '$' :: body ∨
    ∃ checksum, trim sentence = '$' :: body ++ '*' :: checksum ∧
      u8FromHex (trim checksum) = some (xorOf body))

/-- A valid fix with this time field and, six fields after the status, this date field. -/
def Rmc (sentence time date : List Char) : Prop :=
  ∃ body talker : List Char, ∃ skipped rest : List (List Char), Frames sentence body ∧
    skipped.length = 6 ∧
    body.splitOn ',' = (talker ++ ['R', 'M', 'C']) :: time :: ['A'] :: (skipped ++ date :: rest)

def twoDigits (value : Nat) : List Char :=
  [Nat.digitChar (value / 10), Nat.digitChar (value % 10)]

/-- The decimal fraction whose digits a text begins with. -/
def fraction : List Char → ℚ
  | [] => 0
  | c :: rest =>
    match digit c with
    | some d => (d + fraction rest) / 10
    | none => 0

/-- What follows the first point. -/
def afterPoint (text : List Char) : List Char := (text.dropWhile (· ≠ '.')).tail

/-- The sentence states an instant, in seconds from 1970-01-01T00:00:00Z. -/
def States (sentence : List Char) (instant : ℚ) : Prop :=
  ∃ time date, Rmc sentence time date ∧ ∃ (hour minute second year month day : Nat)
    (more rest : List Char),
    time = twoDigits hour ++ twoDigits minute ++ twoDigits second ++ more ∧
    date = twoDigits day ++ twoDigits month ++ twoDigits year ++ rest ∧
    hour < 24 ∧ minute < 60 ∧ second ≤ 60 ∧ year < 100 ∧ IsDay (2000 + year) month day ∧
    instant = daysSince (2000 + year) month day * 86400 + hour * 3600 + minute * 60 + second +
      fraction (afterPoint more)

/-- Two characters taken for an integer: two digits, or a sign and a digit. -/
inductive Reads : List Char → Int → Prop
  | digits {value : Nat} : value < 100 → Reads (twoDigits value) value
  | plus {value : Nat} : value < 10 → Reads ['+', Nat.digitChar value] value
  | minus {value : Nat} : value < 10 → Reads ['-', Nat.digitChar value] (-value)

def IsSigned (part : List Char) : Prop := part.head? = some '+' ∨ part.head? = some '-'

/-- The ranges that the parser checks; it sets no lower bound to the time of the day. -/
def InRange (hh mm ss : Int) (mo dd : Nat) : Prop :=
  hh ≤ 23 ∧ mm ≤ 59 ∧ ss ≤ 60 ∧ 1 ≤ mo ∧ mo ≤ 12 ∧ 1 ≤ dd ∧ dd ≤ 31

/-- A valid fix with a signed part, or with a day that its month does not have, where each part
lies in the range of its kind. -/
def Misread (sentence : List Char) : Prop :=
  ∃ time date, Rmc sentence time date ∧ ∃ hour minute second day month year more rest : List Char,
    time = hour ++ minute ++ second ++ more ∧ date = day ++ month ++ year ++ rest ∧
    ∃ (hh mm ss yy : Int) (mo dd : Nat),
      (Reads hour hh ∧ Reads minute mm ∧ Reads second ss) ∧
      (Reads day dd ∧ Reads month mo ∧ Reads year yy) ∧ InRange hh mm ss mo dd ∧
      ((∃ part ∈ [hour, minute, second, day, month, year], IsSigned part) ∨
        ¬ IsDay (2000 + yy).toNat mo dd)

/-! ### Splitting -/

theorem splitOnce_append {mark : Char} {before : List Char} (absent : mark ∉ before)
    (after : List Char) : splitOnce mark (before ++ mark :: after) = some (before, after) := by
  induction before with
  | nil => exact if_pos rfl
  | cons c rest ih =>
    rw [mem_cons, not_or] at absent
    rw [cons_append, splitOnce, if_neg (Ne.symm absent.1), ih absent.2]
    rfl

variable {text sentence date time rest part : List Char} {value : Nat}

theorem splitOnce_eq_none {mark : Char} (absent : mark ∉ text) :
    splitOnce mark text = none := by
  induction text with
  | nil => rfl
  | cons c rest ih =>
    rw [mem_cons, not_or] at absent
    rw [splitOnce, if_neg (Ne.symm absent.1), ih absent.2]
    rfl

/-- A text without the mark, or the text up to the first mark and after it. -/
theorem splitOnce_cases (mark : Char) (text : List Char) : mark ∉ text ∨
    ∃ before after, mark ∉ before ∧ text = before ++ mark :: after := by
  by_cases mem : mark ∈ text
  · rcases eq_append_cons_of_mem mem with ⟨before, after, rfl, absent⟩
    exact .inr ⟨before, after, absent, rfl⟩
  · exact .inl mem

theorem bodyOf_eq_some {body : List Char} :
    bodyOf sentence = some body ↔ Frames sentence body := by
  unfold bodyOf Frames
  split
  next framed shape =>
    rw [shape]
    rcases splitOnce_cases '*' framed with plain | ⟨before, checksum, absent, rfl⟩
    · rw [splitOnce_eq_none plain]
      constructor
      · rintro ⟨⟩
        exact ⟨plain, .inl rfl⟩
      · rintro ⟨-, is | ⟨checksum, is, -⟩⟩
        · cases is
          rfl
        · cases is
          exact absurd (mem_append_right _ mem_cons_self) plain
    · rw [splitOnce_append absent]
      simp only [bind_eq_some_iff]
      constructor
      · rintro ⟨want, read, checked⟩
        split at checked
        next right =>
          cases checked
          exact ⟨absent, .inr ⟨checksum, rfl, by rw [read, right]⟩⟩
        next => cases checked
      · rintro ⟨unmarked, is | ⟨text, is, right⟩⟩
        · cases is
          exact absurd (mem_append_right _ mem_cons_self) unmarked
        · have parts := splitOnce_append unmarked text
          have same : before ++ '*' :: checksum = body ++ '*' :: text := (List.cons.inj is).2
          rw [← same, splitOnce_append absent] at parts
          cases parts
          exact ⟨_, right, if_pos rfl⟩
  next other =>
    refine ⟨fun impossible => (by cases impossible), ?_⟩
    rintro ⟨-, is | ⟨checksum, is, -⟩⟩
    · exact absurd is (other body)
    · exact absurd is (other _)

theorem rmcFields_eq_some {body : List Char} :
    rmcFields body = some (time, date) ↔ ∃ talker : List Char, ∃ skipped rest : List (List Char),
      skipped.length = 6 ∧ body.splitOn ',' =
        (talker ++ ['R', 'M', 'C']) :: time :: ['A'] :: (skipped ++ date :: rest) := by
  unfold rmcFields
  constructor
  · intro read
    split at read
    next name time' status f₁ f₂ f₃ f₄ f₅ f₆ date' rest shape =>
      split at read
      next valid =>
        cases read
        rcases valid with ⟨⟨talker, rfl⟩, rfl⟩
        exact ⟨talker, [f₁, f₂, f₃, f₄, f₅, f₆], rest, rfl, shape⟩
      next => cases read
    next => cases read
  · rintro ⟨talker, skipped, rest, six, shape⟩
    rcases skipped with _ | ⟨f₁, _ | ⟨f₂, _ | ⟨f₃, _ | ⟨f₄, _ | ⟨f₅, _ | ⟨f₆, _ | ⟨f₇, more⟩⟩⟩⟩⟩⟩⟩
    case cons.cons.cons.cons.cons.cons.nil =>
      rw [shape]
      exact if_pos ⟨⟨talker, rfl⟩, rfl⟩
    all_goals
      simp only [length_nil, length_cons] at six
      omega

theorem parse_fields {t : Int} : parseRmcUnixNs sentence = some t ↔
    ∃ time date, Rmc sentence time date ∧ instantNs time date = some t := by
  unfold parseRmcUnixNs
  simp only [bind_eq_bind, bind_eq_some_iff, bodyOf_eq_some, Prod.exists]
  constructor
  · rintro ⟨body, framed, time, date, fields, read⟩
    rcases rmcFields_eq_some.mp fields with ⟨talker, skipped, rest, six, shape⟩
    exact ⟨time, date, ⟨body, talker, skipped, rest, framed, six, shape⟩, read⟩
  · rintro ⟨time, date, ⟨body, talker, skipped, rest, framed, six, shape⟩, read⟩
    exact ⟨body, framed, time, date, rmcFields_eq_some.mpr ⟨talker, skipped, rest, six, shape⟩, read⟩

/-- A sentence has one time field and one date field. -/
theorem Rmc.unique {time' date' : List Char} (one : Rmc sentence time date)
    (other : Rmc sentence time' date') : time' = time ∧ date' = date := by
  rcases one with ⟨body, talker, skipped, rest, framed, six, shape⟩
  rcases other with ⟨body', talker', skipped', rest', framed', six', shape'⟩
  cases (bodyOf_eq_some.mpr framed).symm.trans (bodyOf_eq_some.mpr framed')
  have fields := rmcFields_eq_some.mpr ⟨talker, skipped, rest, six, shape⟩
  have fields' := rmcFields_eq_some.mpr ⟨talker', skipped', rest', six', shape'⟩
  cases fields.symm.trans fields'
  exact ⟨rfl, rfl⟩

/-! ### Reading the parts -/

theorem utf8_append (first rest : List Char) : utf8 (first ++ rest) = utf8 first ++ utf8 rest :=
  flatMap_append

theorem utf8_injective {one other : List Char} (same : utf8 one = utf8 other) : one = other := by
  rw [utf8, utf8, ← asBytes_ofList, ← asBytes_ofList] at same
  have decoded := congrArg fromUtf8 same
  rw [fromUtf8_asBytes, fromUtf8_asBytes, Option.some.injEq] at decoded
  exact String.ofList_injective decoded

theorem length_utf8_cons (c : Char) (text : List Char) :
    (utf8 (c :: text)).length = c.utf8Size + (utf8 text).length := by
  rw [utf8, flatMap_cons, length_append, String.length_utf8EncodeChar, utf8]

theorem splitAtByte_append (first rest : List Char) :
    splitAtByte (utf8 first).length (first ++ rest) = some (first, rest) := by
  induction first with
  | nil => rw [utf8, flatMap_nil, length_nil, splitAtByte, nil_append]
  | cons c more ih =>
    have wide := c.utf8Size_pos
    obtain ⟨offset, length⟩ : ∃ offset, (utf8 (c :: more)).length = offset + 1 :=
      ⟨_, (Nat.succ_pred (by rw [length_utf8_cons]; omega)).symm⟩
    rw [length_utf8_cons] at length
    have left : offset + 1 - c.utf8Size = (utf8 more).length := by omega
    rw [length_utf8_cons, length, cons_append, splitAtByte, if_pos (by omega), left, ih]
    rfl

theorem splitAtByte_eq_some {offset : Nat} {first : List Char} :
    splitAtByte offset text = some (first, rest) ↔
      text = first ++ rest ∧ (utf8 first).length = offset := by
  constructor
  · intro found
    fun_induction splitAtByte offset text generalizing first with
    | case1 text =>
      cases found
      exact ⟨rfl, rfl⟩
    | case2 => cases found
    | case3 offset c more fits ih =>
      rcases map_eq_some_iff.mp found with ⟨⟨part, after⟩, parts, equal⟩
      cases equal
      rcases ih parts with ⟨rfl, length⟩
      refine ⟨rfl, ?_⟩
      rw [length_utf8_cons, length]
      omega
    | case4 => cases found
  · rintro ⟨rfl, rfl⟩
    exact splitAtByte_append first rest

theorem getBytes_eq_some {start stop : Nat} :
    getBytes start stop text = some part ↔ ∃ before after : List Char,
      text = before ++ part ++ after ∧ (utf8 before).length = start ∧
        (utf8 part).length = stop - start := by
  unfold getBytes
  simp only [Option.bind_eq_bind, Option.bind_eq_some_iff, Prod.exists, splitAtByte_eq_some,
    Option.pure_def, Option.some.injEq]
  constructor
  · rintro ⟨before, later, ⟨rfl, start⟩, part, after, ⟨rfl, length⟩, rfl⟩
    exact ⟨before, after, (append_assoc _ _ _).symm, start, length⟩
  · rintro ⟨before, after, rfl, start, length⟩
    exact ⟨before, part ++ after, ⟨append_assoc _ _ _, start⟩, part, after, ⟨rfl, length⟩, rfl⟩

theorem digitValue_eq_some {b : UInt8} (read : digitValue b = some value) :
    value < 10 ∧ b = UInt8.ofNat (48 + value) := by
  have all : ∀ n : Fin 256, ∀ value ∈ digitValue (UInt8.ofNat n),
      value < 10 ∧ UInt8.ofNat n = UInt8.ofNat (48 + value) := by decide +kernel
  have found := all ⟨b.toNat, b.toNat_lt⟩ value
  rw [UInt8.ofNat_toNat] at found
  exact found read

theorem utf8_twoDigits (small : value < 100) : utf8 (twoDigits value) =
    [UInt8.ofNat (48 + value / 10), UInt8.ofNat (48 + value % 10)] := by
  have all : ∀ n : Fin 100, utf8 (twoDigits n) =
    [UInt8.ofNat (48 + n / 10), UInt8.ofNat (48 + n % 10)] := by decide
  exact all ⟨value, small⟩

theorem utf8_signed (sign : Char) (small : value < 10) :
    utf8 [sign, Nat.digitChar value] = utf8 [sign] ++ [UInt8.ofNat (48 + value)] := by
  have all : ∀ n : Fin 10, utf8 [Nat.digitChar n] = [UInt8.ofNat (48 + n)] := by decide
  rw [← singleton_append, utf8_append, all ⟨value, small⟩]

theorem Reads.length {value : Int} (read : Reads part value) :
    part.length = 2 ∧ (utf8 part).length = 2 := by
  cases read with
  | digits small =>
    rw [utf8_twoDigits small]
    exact ⟨rfl, rfl⟩
  | plus small =>
    rw [utf8_signed '+' small]
    exact ⟨rfl, rfl⟩
  | minus small =>
    rw [utf8_signed '-' small]
    exact ⟨rfl, rfl⟩

theorem Reads.parse {value : Int} (read : Reads part value) :
    parseI64 part = some value := by
  cases read with
  | @digits n small =>
    have all : ∀ n : Fin 100, parseI64 (twoDigits n) = some (n : Nat) := by decide
    exact all ⟨n, small⟩
  | @plus n small =>
    have all : ∀ n : Fin 10, parseI64 ['+', Nat.digitChar n] = some (n : Nat) := by decide
    exact all ⟨n, small⟩
  | @minus n small =>
    have all : ∀ n : Fin 10, parseI64 ['-', Nat.digitChar n] = some (-((n : Nat) : Int)) := by decide
    exact all ⟨n, small⟩

theorem parseDigits_one {b : UInt8} (read : parseDigits [b] = some value) :
    value < 10 ∧ b = UInt8.ofNat (48 + value) := by
  rw [parseDigits, foldlM_cons, bind_eq_bind, bind_eq_some_iff] at read
  rcases read with ⟨_, one, ⟨⟩⟩
  rcases map_eq_some_iff.mp one with ⟨d, read, rfl⟩
  rw [Nat.zero_mul, Nat.zero_add]
  exact digitValue_eq_some read

theorem parseDigits_two {b₁ b₂ : UInt8} (read : parseDigits [b₁, b₂] = some value) :
    value < 100 ∧ b₁ = UInt8.ofNat (48 + value / 10) ∧ b₂ = UInt8.ofNat (48 + value % 10) := by
  rw [parseDigits, foldlM_cons, bind_eq_bind, bind_eq_some_iff] at read
  rcases read with ⟨_, one, read⟩
  rw [foldlM_cons, bind_eq_bind, bind_eq_some_iff] at read
  rcases read with ⟨_, other, ⟨⟩⟩
  rcases map_eq_some_iff.mp one with ⟨tens, read, rfl⟩
  rcases map_eq_some_iff.mp other with ⟨units, read', rfl⟩
  rcases digitValue_eq_some read with ⟨small, rfl⟩
  rcases digitValue_eq_some read' with ⟨small', rfl⟩
  have high : ((0 * 10 + tens) * 10 + units) / 10 = tens := by omega
  have low : ((0 * 10 + tens) * 10 + units) % 10 = units := by omega
  rw [high, low]
  exact ⟨by omega, rfl, rfl⟩

/-- Two bytes are taken for an integer in three ways. -/
theorem parseI64_reads {value : Int} (two : (utf8 part).length = 2)
    (read : parseI64 part = some value) : Reads part value := by
  obtain ⟨b₁, b₂, bytes⟩ := length_eq_two.mp two
  unfold parseI64 at read
  rw [bytes, parseInt, if_neg (fun both => by cases both.1)] at read
  rw [filter_eq_some_iff] at read
  rcases read with ⟨found, -⟩
  split at found
  next plus =>
    rcases map_eq_some_iff.mp found with ⟨n, digits, rfl⟩
    rcases parseDigits_one digits with ⟨small, rfl⟩
    have written : part = ['+', Nat.digitChar n] :=
      utf8_injective (by rw [bytes, plus, utf8_signed '+' small]; rfl)
    rw [written]
    exact .plus small
  next =>
    split at found
    next minus =>
      rcases map_eq_some_iff.mp found with ⟨n, digits, rfl⟩
      rcases parseDigits_one digits with ⟨small, rfl⟩
      have written : part = ['-', Nat.digitChar n] :=
        utf8_injective (by rw [bytes, minus.1, utf8_signed '-' small]; rfl)
      rw [written]
      exact .minus small
    next =>
      rcases map_eq_some_iff.mp found with ⟨n, digits, rfl⟩
      rcases parseDigits_two digits with ⟨small, rfl, rfl⟩
      have written : part = twoDigits n :=
        utf8_injective (by rw [bytes, utf8_twoDigits small])
      rw [written]
      exact .digits small

/-- A text splits in one way at a byte offset. -/
theorem split_unique {first first' rest' : List Char} (same : first ++ rest = first' ++ rest')
    (length : (utf8 first).length = (utf8 first').length) : first = first' ∧ rest = rest' := by
  have one := splitAtByte_eq_some.mpr ⟨same, length.symm⟩
  have other := splitAtByte_eq_some.mpr ⟨(rfl : first ++ rest = first ++ rest), rfl⟩
  cases other.symm.trans one
  exact ⟨rfl, rfl⟩

/-- The first three parts of a text. -/
def Begins (text : List Char) (first second third : Int) : Prop :=
  ∃ one two three rest : List Char, text = one ++ two ++ three ++ rest ∧
    Reads one first ∧ Reads two second ∧ Reads three third

theorem threeParts_eq_some {first second third : Int} :
    threeParts text = some (first, second, third) ↔ Begins text first second third := by
  unfold threeParts
  constructor
  · intro read
    split at read
    next => cases read
    next long =>
      simp only [Option.pure_def, Option.bind_eq_bind, Option.bind_eq_some_iff,
        getBytes_eq_some] at read
      rcases read with ⟨one, ⟨before₁, after₁, shape₁, start₁, two₁⟩, v₁, read₁, two,
        ⟨before₂, after₂, shape₂, start₂, two₂⟩, v₂, read₂, three,
        ⟨before₃, after₃, shape₃, start₃, two₃⟩, v₃, read₃, equal⟩
      cases equal
      rw [append_assoc] at shape₁ shape₂ shape₃
      have none' : before₁ = [] := utf8_injective (length_eq_zero_iff.mp start₁)
      rw [none', nil_append] at shape₁
      rcases split_unique (shape₁.symm.trans shape₂) (two₁.trans start₂.symm) with ⟨rfl, rfl⟩
      rw [← append_assoc] at shape₂
      have four : (utf8 (one ++ two)).length = (utf8 before₃).length := by
        rw [utf8_append, length_append, two₁, two₂, start₃]
      rcases split_unique (shape₂.symm.trans shape₃) four with ⟨rfl, rfl⟩
      refine ⟨one, two, three, after₃, ?_, parseI64_reads two₁ read₁, parseI64_reads two₂ read₂,
        parseI64_reads two₃ read₃⟩
      rw [shape₃, append_assoc _ three]
  · rintro ⟨one, two, three, rest, rfl, read₁, read₂, read₃⟩
    have two₁ := read₁.length.2
    have two₂ := read₂.length.2
    have two₃ := read₃.length.2
    have get₁ : getBytes 0 2 (one ++ two ++ three ++ rest) = some one :=
      getBytes_eq_some.mpr ⟨[], two ++ three ++ rest, by simp, rfl, two₁⟩
    have get₂ : getBytes 2 4 (one ++ two ++ three ++ rest) = some two :=
      getBytes_eq_some.mpr ⟨one, three ++ rest, by simp, two₁, two₂⟩
    have get₃ : getBytes 4 6 (one ++ two ++ three ++ rest) = some three :=
      getBytes_eq_some.mpr ⟨one ++ two, rest, rfl,
        by rw [utf8_append, length_append, two₁, two₂], two₃⟩
    rw [if_neg (by simp only [utf8_append, length_append]; omega), get₁, get₂, get₃]
    simp only [Option.pure_def, Option.bind_eq_bind, Option.bind_some, read₁.parse, read₂.parse,
      read₃.parse]

/-! ### The fraction and the days -/

theorem digit_le {c : Char} {d : Nat} (read : digit c = some d) : d ≤ 9 := by
  unfold digit at read
  split at read
  next range =>
    cases read
    have upper : c.toNat ≤ 57 := range.2
    omega
  next => cases read

theorem fraction_bounds (text : List Char) : 0 ≤ fraction text ∧ fraction text < 1 := by
  induction text with
  | nil => exact ⟨le_refl 0, zero_lt_one⟩
  | cons c rest ih =>
    unfold fraction
    split
    next d read =>
      have small : (d : ℚ) ≤ 9 := by exact_mod_cast digit_le read
      have positive : (0 : ℚ) ≤ d := Nat.cast_nonneg d
      constructor
      · exact div_nonneg (add_nonneg positive ih.1) (by norm_num)
      · rw [div_lt_one (by norm_num)]
        linarith [ih.2]
    next => exact ⟨le_refl 0, zero_lt_one⟩

/-- The loop reads the fraction to as many places as it may. -/
theorem fracDigits_eq (text : List Char) (places : Nat) (ns : Int) :
    fracDigits (text.take places) ns (10 ^ places / 10) = ns + ⌊fraction text * 10 ^ places⌋ := by
  induction text generalizing places ns with
  | nil => rw [take_nil, fracDigits, fraction, zero_mul, Int.floor_zero, add_zero]
  | cons c rest ih =>
    cases places with
    | zero =>
      have none' : ⌊fraction (c :: rest) * 10 ^ 0⌋ = 0 := by
        rw [pow_zero, mul_one, Int.floor_eq_zero_iff]
        exact fraction_bounds (c :: rest)
      rw [none', take_zero, fracDigits, add_zero]
    | succ places =>
      have scale : (10 : Int) ^ (places + 1) / 10 = 10 ^ places := by
        rw [pow_succ]
        exact Int.mul_ediv_cancel _ (by decide)
      rw [take_succ_cons, fracDigits, scale]
      split
      next d read =>
        have value : fraction (c :: rest) = (d + fraction rest) / 10 := by
          rw [fraction]
          simp only [read]
        have whole : fraction (c :: rest) * 10 ^ (places + 1) =
            ((d * 10 ^ places : Int) : ℚ) + fraction rest * 10 ^ places := by
          rw [value, pow_succ]
          push_cast
          ring
        rw [ih, whole, Int.floor_intCast_add, add_assoc]
      next stop =>
        have value : fraction (c :: rest) = 0 := by
          rw [fraction]
          simp only [stop]
        rw [value, zero_mul, Int.floor_zero, add_zero]

theorem afterPoint_append {before : List Char} (absent : '.' ∉ before) (text : List Char) :
    afterPoint (before ++ text) = afterPoint text := by
  have plain : ∀ c ∈ before, decide (c ≠ '.') = true :=
    fun c mem => decide_eq_true (fun point => absent (by rw [← point]; exact mem))
  rw [afterPoint, dropWhile_append_of_pos plain, afterPoint]

theorem fracNs_eq (time : List Char) : fracNs time = ⌊fraction (afterPoint time) * 10 ^ 9⌋ := by
  rcases splitOnce_cases '.' time with absent | ⟨before, frac, absent, rfl⟩
  · have after := afterPoint_append absent []
    rw [append_nil] at after
    rw [fracNs, splitOnce_eq_none absent, after]
    change 0 = ⌊(0 : ℚ) * 10 ^ 9⌋
    rw [zero_mul, Int.floor_zero]
  · have loop := fracDigits_eq frac 9 0
    rw [zero_add] at loop
    rw [fracNs, splitOnce_append absent, afterPoint_append absent]
    exact loop

/-- The parts have no point in them. -/
theorem afterPoint_digits {first second third : Nat} (more : List Char) (small : first < 100)
    (small' : second < 100) (small'' : third < 100) :
    afterPoint (twoDigits first ++ twoDigits second ++ twoDigits third ++ more) =
      afterPoint more := by
  have plain : ∀ n : Fin 100, '.' ∉ twoDigits n := by decide
  rw [append_assoc, append_assoc, afterPoint_append (plain ⟨first, small⟩),
    afterPoint_append (plain ⟨second, small'⟩), afterPoint_append (plain ⟨third, small''⟩)]

/-- The era formula is the formula of the calendar. -/
theorem daysFromCivil_eq {y : Int} {m d : Nat} (late : 1 ≤ y) :
    daysFromCivil y m d = dayNumber y m d := by
  have counted : ∀ y' mp : Int, 0 ≤ y' → 0 ≤ mp →
      y'.tdiv 400 * 146097 + ((y' - y'.tdiv 400 * 400) * 365 + (y' - y'.tdiv 400 * 400).tdiv 4 -
        (y' - y'.tdiv 400 * 400).tdiv 100 + ((153 * mp + 2).tdiv 5 + d - 1)) - 719468 =
        365 * y' + y' / 4 - y' / 100 + y' / 400 + (153 * mp + 2) / 5 + d - 719469 := by
    intro y' mp after later
    have yoe : 0 ≤ y' - y' / 400 * 400 := by omega
    rw [Int.tdiv_eq_ediv_of_nonneg after, Int.tdiv_eq_ediv_of_nonneg yoe,
      Int.tdiv_eq_ediv_of_nonneg yoe, Int.tdiv_eq_ediv_of_nonneg (by omega)]
    omega
  unfold daysFromCivil dayNumber
  dsimp only
  by_cases early : m ≤ 2
  · have early' : (m : Int) ≤ 2 := by exact_mod_cast early
    have before : 0 ≤ y - 1 := by omega
    rw [if_pos early, if_pos early, if_pos early', if_neg (not_lt_of_ge early'), if_pos before]
    exact counted (y - 1) (m + 9) before (by omega)
  · have late' : 2 < (m : Int) := by exact_mod_cast Nat.lt_of_not_le early
    rw [if_neg early, if_neg early, if_neg (not_le_of_gt late'), if_pos late',
      if_pos (by omega : 0 ≤ y)]
    exact counted y (m - 3) (by omega) (by omega)

/-! ### What the parser returns -/

/-- The nanoseconds of an instant whose parts are in their ranges. -/
def nanoseconds (hh mm ss yy : Int) (mo dd : Nat) (time : List Char) : Int :=
  (dayNumber (2000 + yy) mo dd * 86400 + hh * 3600 + mm * 60 + ss) * 1000000000 + fracNs time

theorem fracNs_bounds (time : List Char) : 0 ≤ fracNs time ∧ fracNs time < 1000000000 := by
  have bounds := fraction_bounds (afterPoint time)
  rw [fracNs_eq]
  constructor
  · exact Int.floor_nonneg.mpr (mul_nonneg bounds.1 (by norm_num))
  · rw [Int.floor_lt]
    push_cast
    linarith [bounds.2]

theorem Reads.bounds {value : Int} (read : Reads part value) :
    -10 < value ∧ value < 100 := by
  cases read
  all_goals omega

/-- No instant of two-digit parts leaves the 64 bits. -/
theorem nanoseconds_fit {hh mm ss yy : Int} {mo dd : Nat}
    (parts : Begins time hh mm ss) (parts' : Begins date dd mo yy)
    (ranges : InRange hh mm ss mo dd) :
    (checkedI64 ((daysFromCivil (2000 + yy) mo dd * 86400 + hh * 3600 + mm * 60 + ss) *
      1000000000)).bind (fun ns => checkedI64 (ns + fracNs time)) =
      some (nanoseconds hh mm ss yy mo dd time) := by
  rcases parts with ⟨p, q, r, more, -, read₁, read₂, read₃⟩
  rcases parts' with ⟨u, v, w, rest, -, -, -, read₄⟩
  have bounds₁ := read₁.bounds
  have bounds₂ := read₂.bounds
  have bounds₃ := read₃.bounds
  have bounds₄ := read₄.bounds
  have part := fracNs_bounds time
  unfold InRange at ranges
  have days : 0 ≤ dayNumber (2000 + yy) mo dd ∧ dayNumber (2000 + yy) mo dd ≤ 50000 := by
    unfold dayNumber
    dsimp only
    split <;> omega
  rw [daysFromCivil_eq (by omega), checkedI64, if_pos (by omega), bind_some, checkedI64,
    if_pos (by omega)]
  rfl

theorem instantNs_eq_some {t : Int} :
    instantNs time date = some t ↔ ∃ hh mm ss yy : Int, ∃ mo dd : Nat,
      Begins time hh mm ss ∧ Begins date dd mo yy ∧ InRange hh mm ss mo dd ∧
      t = nanoseconds hh mm ss yy mo dd time := by
  unfold instantNs
  constructor
  · intro read
    simp only [bind_eq_bind, bind_eq_some_iff, Prod.exists, threeParts_eq_some] at read
    rcases read with ⟨hh, mm, ss, parts, dd, mo, yy, parts', read⟩
    split at read
    next => cases read
    next ranges =>
      lift mo to ℕ using by omega
      lift dd to ℕ using by omega
      have inRange : InRange hh mm ss mo dd := by
        unfold InRange
        omega
      have total := nanoseconds_fit parts parts' inRange
      rw [bind_eq_some_iff] at total
      simp only [bind_eq_some_iff] at read
      refine ⟨hh, mm, ss, yy, mo, dd, parts, parts', inRange, ?_⟩
      rcases total with ⟨ns, whole, total⟩
      rcases read with ⟨ns', whole', read⟩
      cases whole.symm.trans whole'
      exact Option.some.inj (read.symm.trans total)
  · rintro ⟨hh, mm, ss, yy, mo, dd, parts, parts', ranges, rfl⟩
    rw [threeParts_eq_some.mpr parts, threeParts_eq_some.mpr parts',
      ← nanoseconds_fit parts parts' ranges]
    unfold InRange at ranges
    simp only [bind_eq_bind, bind_some]
    rw [if_neg (by omega)]

/-- What the parser takes a sentence for. -/
theorem parse_eq_some {t : Int} : parseRmcUnixNs sentence = some t ↔
    ∃ time date, Rmc sentence time date ∧ ∃ hh mm ss yy : Int, ∃ mo dd : Nat,
      Begins time hh mm ss ∧ Begins date dd mo yy ∧ InRange hh mm ss mo dd ∧
      t = nanoseconds hh mm ss yy mo dd time := by
  rw [parse_fields]
  simp only [instantNs_eq_some]

/-- On a day of the calendar the parser's nanoseconds are those of the instant. -/
theorem nanoseconds_eq {hour minute second year month day : Nat} {more : List Char}
    (shape : time = twoDigits hour ++ twoDigits minute ++ twoDigits second ++ more)
    (day' : IsDay (2000 + year) month day)
    (small : hour < 100 ∧ minute < 100 ∧ second < 100) :
    nanoseconds hour minute second year month day time =
      ⌊((daysSince (2000 + year) month day * 86400 + hour * 3600 + minute * 60 + second : ℚ) +
        fraction (afterPoint more)) * 10 ^ 9⌋ := by
  have days := daysSince_eq (by omega : 1970 ≤ 2000 + year) day'.1 day'.2.1 day'.2.2.1
  have after := afterPoint_digits more small.1 small.2.1 small.2.2
  rw [← shape] at after
  have whole : ((daysSince (2000 + year) month day * 86400 + hour * 3600 + minute * 60 + second : ℚ) +
      fraction (afterPoint more)) * 10 ^ 9 =
      (((daysSince (2000 + year) month day * 86400 + hour * 3600 + minute * 60 + second) *
        1000000000 : Int) : ℚ) + fraction (afterPoint more) * 10 ^ 9 := by
    push_cast
    ring
  rw [whole, Int.floor_intCast_add, nanoseconds, fracNs_eq, after, days]
  push_cast
  rfl

theorem monthLength_le (year month : Nat) : monthLength year month ≤ 31 := by
  unfold monthLength
  split
  · split <;> omega
  · split <;> omega

/-- What a sentence states is what the parser returns. -/
theorem parse_of_states {instant : ℚ} (states : States sentence instant) :
    parseRmcUnixNs sentence = some ⌊instant * 10 ^ 9⌋ := by
  rcases states with ⟨time, date, fix, hour, minute, second, year, month, day, more, rest, shape,
    shape', hours, minutes, seconds, years, real, rfl⟩
  have days := real.2.2.2.trans (monthLength_le _ _)
  have months := real.2.1
  refine parse_eq_some.mpr ⟨time, date, fix, hour, minute, second, year, month, day,
    ⟨_, _, _, more, shape, .digits (by omega), .digits (by omega), .digits (by omega)⟩,
    ⟨_, _, _, rest, shape', .digits (by omega), .digits (by omega), .digits years⟩,
    ⟨by omega, by omega, by omega, real.1, months, real.2.2.1, days⟩, ?_⟩
  exact (nanoseconds_eq shape real ⟨by omega, by omega, by omega⟩).symm

theorem Reads.plain {value : Int} (read : Reads part value)
    (unsigned : ¬ IsSigned part) : ∃ n < 100, part = twoDigits n ∧ value = (n : Nat) := by
  cases read with
  | digits small => exact ⟨_, small, rfl, rfl⟩
  | plus => exact absurd (.inl rfl) unsigned
  | minus => exact absurd (.inr rfl) unsigned

theorem twoDigits_unsigned (small : value < 100) : ¬ IsSigned (twoDigits value) := by
  have all : ∀ n : Fin 100, (twoDigits n).head? ≠ some '+' ∧ (twoDigits n).head? ≠ some '-' := by
    decide
  have plain := all ⟨value, small⟩
  exact fun signed => signed.elim plain.1 plain.2

/-- A sentence that is not misread states what the parser returns. -/
theorem states_of_parse {t : Int} (read : parseRmcUnixNs sentence = some t)
    (plain : ¬ Misread sentence) : ∃ instant, States sentence instant ∧ t = ⌊instant * 10 ^ 9⌋ := by
  rcases parse_eq_some.mp read with ⟨time, date, fix, hh, mm, ss, yy, mo, dd,
    ⟨hour, minute, second, more, shape, read₁, read₂, read₃⟩,
    ⟨day, month, year, rest, shape', read₄, read₅, read₆⟩, ranges, rfl⟩
  have sound : ¬ ((∃ part ∈ [hour, minute, second, day, month, year], IsSigned part) ∨
      ¬ IsDay (2000 + yy).toNat mo dd) :=
    fun wrong => plain ⟨time, date, fix, hour, minute, second, day, month, year, more, rest, shape,
      shape', hh, mm, ss, yy, mo, dd, ⟨read₁, read₂, read₃⟩, ⟨read₄, read₅, read₆⟩, ranges, wrong⟩
  rw [not_or, not_not] at sound
  rcases sound with ⟨unsigned, real⟩
  simp only [mem_cons, not_mem_nil, or_false, exists_eq_or_imp, exists_eq_left,
    not_or] at unsigned
  rcases unsigned with ⟨plain₁, plain₂, plain₃, plain₄, plain₅, plain₆⟩
  rcases read₁.plain plain₁ with ⟨hour, small₁, rfl, rfl⟩
  rcases read₂.plain plain₂ with ⟨minute, small₂, rfl, rfl⟩
  rcases read₃.plain plain₃ with ⟨second, small₃, rfl, rfl⟩
  rcases read₄.plain plain₄ with ⟨day, small₄, rfl, same₄⟩
  rcases read₅.plain plain₅ with ⟨month, small₅, rfl, same₅⟩
  rcases read₆.plain plain₆ with ⟨year, small₆, rfl, rfl⟩
  cases Int.ofNat_inj.mp same₄
  cases Int.ofNat_inj.mp same₅
  have full : ((2000 : Int) + year).toNat = 2000 + year := by omega
  rw [full] at real
  unfold InRange at ranges
  exact ⟨_, ⟨time, date, fix, hour, minute, second, year, mo, dd, more, rest, shape, shape', by omega,
    by omega, by omega, small₆, real, rfl⟩, nanoseconds_eq shape real ⟨small₁, small₂, small₃⟩⟩

theorem parts_unique {one two three one' two' three' rest' : List Char}
    (same : one ++ two ++ three ++ rest = one' ++ two' ++ three' ++ rest')
    (first : one.length = one'.length) (second : two.length = two'.length)
    (third : three.length = three'.length) : one = one' ∧ two = two' ∧ three = three' := by
  rw [append_assoc, append_assoc, append_assoc, append_assoc] at same
  rcases append_inj same first with ⟨first, later⟩
  rcases append_inj later second with ⟨second, last⟩
  exact ⟨first, second, (append_inj last third).1⟩

theorem Reads.unique {value value' : Int} (one : Reads part value)
    (other : Reads part value') : value = value' :=
  Option.some.inj (one.parse.symm.trans other.parse)

/-- A misread sentence states nothing. -/
theorem Misread.unstated (wrong : Misread sentence) (instant : ℚ) :
    ¬ States sentence instant := by
  rintro ⟨time', date', fix', hour', minute', second', year', month', day', more', rest', shape₁,
    shape₂, hours, minutes, seconds, years, real, rfl⟩
  rcases wrong with ⟨time, date, fix, hour, minute, second, day, month, year, more, rest, shape,
    shape', hh, mm, ss, yy, mo, dd, ⟨read₁, read₂, read₃⟩, ⟨read₄, read₅, read₆⟩, ranges, wrong⟩
  rcases fix.unique fix' with ⟨rfl, rfl⟩
  rcases parts_unique (shape.symm.trans shape₁) read₁.length.1 read₂.length.1 read₃.length.1 with
    ⟨rfl, rfl, rfl⟩
  rcases parts_unique (shape'.symm.trans shape₂) read₄.length.1 read₅.length.1 read₆.length.1 with
    ⟨rfl, rfl, rfl⟩
  have days := real.2.2.2.trans (monthLength_le _ _)
  have months := real.2.1
  rcases wrong with ⟨part, mem, signed⟩ | unreal
  · simp only [mem_cons, not_mem_nil, or_false] at mem
    rcases mem with rfl | rfl | rfl | rfl | rfl | rfl
    all_goals exact twoDigits_unsigned (by omega) signed
  · cases read₆.unique (.digits years)
    cases Int.ofNat_inj.mp (read₅.unique (.digits (by omega)))
    cases Int.ofNat_inj.mp (read₄.unique (.digits (by omega)))
    have full : ((2000 : Int) + year').toNat = 2000 + year' := by omega
    rw [full] at unreal
    exact unreal real

theorem Misread.parsed (wrong : Misread sentence) :
    ∃ t, parseRmcUnixNs sentence = some t := by
  rcases wrong with ⟨time, date, fix, hour, minute, second, day, month, year, more, rest, shape,
    shape', hh, mm, ss, yy, mo, dd, ⟨read₁, read₂, read₃⟩, ⟨read₄, read₅, read₆⟩, ranges, -⟩
  exact ⟨_, parse_eq_some.mpr ⟨time, date, fix, hh, mm, ss, yy, mo, dd,
    ⟨hour, minute, second, more, shape, read₁, read₂, read₃⟩,
    ⟨day, month, year, rest, shape', read₄, read₅, read₆⟩, ranges, rfl⟩⟩

/-- The parser returns the instant that a sentence states, or nothing, except where it misreads
the sentence; and later instants do not become smaller values. -/
theorem parses_stated_instant (sentence : List Char) :
    ((∀ t, parseRmcUnixNs sentence = some t ↔
        ∃ instant, States sentence instant ∧ t = ⌊instant * 10 ^ 9⌋) ↔ ¬ Misread sentence) ∧
      ∀ later instant instant' t t', States sentence instant → States later instant' →
        instant ≤ instant' → parseRmcUnixNs sentence = some t → parseRmcUnixNs later = some t' →
        t ≤ t' := by
  constructor
  · constructor
    · intro exact' wrong
      rcases wrong.parsed with ⟨t, read⟩
      rcases (exact' t).mp read with ⟨instant, states, -⟩
      exact wrong.unstated instant states
    · intro plain t
      constructor
      · exact fun read => states_of_parse read plain
      · rintro ⟨instant, states, rfl⟩
        exact parse_of_states states
  · intro later instant instant' t t' states states' order read read'
    cases (parse_of_states states).symm.trans read
    cases (parse_of_states states').symm.trans read'
    exact Int.floor_le_floor (mul_le_mul_of_nonneg_right order (by norm_num))

namespace Example

/-- A fix without a position and without a checksum. -/
def fixAt (time date : List Char) : List Char :=
  ['$', 'G', 'P', 'R', 'M', 'C', ','] ++ time ++ [',', 'A', ',', ',', ',', ',', ',', ',', ','] ++ date

def evening : List Char :=
  fixAt ['2', '3', '5', '9', '5', '9', '.', '7', '5'] ['2', '8', '0', '2', '2', '4']

def leapDay : List Char := fixAt ['0', '0', '0', '0', '0', '0'] ['2', '9', '0', '2', '2', '4']

theorem rmc_fixAt (framed : trim (fixAt time date) = fixAt time date)
    (unmarked : '*' ∉ (fixAt time date).tail)
    (fields : (fixAt time date).tail.splitOn ',' =
      [['G', 'P', 'R', 'M', 'C'], time, ['A'], [], [], [], [], [], [], date]) :
    Rmc (fixAt time date) time date :=
  ⟨_, ['G', 'P'], [[], [], [], [], [], []], [], ⟨unmarked, .inl framed⟩, rfl, fields⟩

theorem evening_states : States evening
    (daysSince 2024 2 28 * 86400 + (23 : Nat) * 3600 + (59 : Nat) * 60 + (59 : Nat) +
      fraction (afterPoint ['.', '7', '5'])) :=
  ⟨_, _, rmc_fixAt (by decide) (by decide) (by decide), 23, 59, 59, 24, 2, 28, ['.', '7', '5'], [], rfl,
    rfl, by decide, by decide, by decide, by decide, by decide, rfl⟩

theorem leapDay_states : States leapDay
    (daysSince 2024 2 29 * 86400 + (0 : Nat) * 3600 + (0 : Nat) * 60 + (0 : Nat) +
      fraction (afterPoint [])) :=
  ⟨_, _, rmc_fixAt (by decide) (by decide) (by decide), 0, 0, 0, 24, 2, 29, [], [], rfl, rfl, by decide,
    by decide, by decide, by decide, by decide, rfl⟩

theorem evening_before_leapDay :
    ((∀ t, parseRmcUnixNs evening = some t ↔
        ∃ instant, States evening instant ∧ t = ⌊instant * 10 ^ 9⌋) ↔ ¬ Misread evening) ∧
      ∀ t t', parseRmcUnixNs evening = some t → parseRmcUnixNs leapDay = some t' → t ≤ t' := by
  have exact' := parses_stated_instant evening
  refine ⟨exact'.1, fun t t' => exact'.2 leapDay _ _ t t' evening_states leapDay_states ?_⟩
  have days : daysSince 2024 2 28 = 19781 := by decide
  have days' : daysSince 2024 2 29 = 19782 := by decide
  have quarters : fraction (afterPoint ['.', '7', '5']) < 1 := (fraction_bounds _).2
  have none' : fraction (afterPoint []) = 0 := rfl
  rw [days, days', none']
  push_cast
  linarith

/-- The 31st of February 2023, and five hours before a day began. -/
theorem misdated_parses :
    (parseRmcUnixNs (fixAt ['0', '0', '0', '0', '0', '0'] ['3', '1', '0', '2', '2', '3']) =
        some 1677801600000000000 ∧
      parseRmcUnixNs (fixAt ['-', '5', '0', '0', '0', '0'] ['0', '1', '0', '1', '2', '4']) =
        some 1704049200000000000) ∧
    ∀ sentence ∈ [fixAt ['0', '0', '0', '0', '0', '0'] ['3', '1', '0', '2', '2', '3'],
        fixAt ['-', '5', '0', '0', '0', '0'] ['0', '1', '0', '1', '2', '4']],
      ¬ ∀ t, parseRmcUnixNs sentence = some t ↔
        ∃ instant, States sentence instant ∧ t = ⌊instant * 10 ^ 9⌋ := by
  have wrong : Misread (fixAt ['0', '0', '0', '0', '0', '0'] ['3', '1', '0', '2', '2', '3']) :=
    ⟨_, _, rmc_fixAt (by decide) (by decide) (by decide), twoDigits 0, twoDigits 0, twoDigits 0,
      twoDigits 31, twoDigits 2, twoDigits 23, [], [], rfl, rfl, (0 : Nat), (0 : Nat), (0 : Nat),
      (23 : Nat), 2, 31, ⟨.digits (by decide), .digits (by decide), .digits (by decide)⟩,
      ⟨.digits (by decide), .digits (by decide), .digits (by decide)⟩,
      by unfold InRange; decide, .inr (by decide)⟩
  have wrong' : Misread (fixAt ['-', '5', '0', '0', '0', '0'] ['0', '1', '0', '1', '2', '4']) :=
    ⟨_, _, rmc_fixAt (by decide) (by decide) (by decide), ['-', Nat.digitChar 5], twoDigits 0,
      twoDigits 0, twoDigits 1, twoDigits 1, twoDigits 24, [], [], rfl, rfl, -((5 : Nat) : Int),
      (0 : Nat), (0 : Nat), (24 : Nat), 1, 1,
      ⟨.minus (by decide), .digits (by decide), .digits (by decide)⟩,
      ⟨.digits (by decide), .digits (by decide), .digits (by decide)⟩,
      by unfold InRange; decide, .inl ⟨_, List.mem_cons_self, .inr rfl⟩⟩
  refine ⟨⟨by decide, by decide⟩, ?_⟩
  intro sentence mem claimed
  have misread : Misread sentence := by
    rcases List.mem_cons.mp mem with rfl | mem
    · exact wrong
    · cases List.mem_singleton.mp mem
      exact wrong'
  rcases misread.parsed with ⟨t, read⟩
  rcases (claimed t).mp read with ⟨instant, states, -⟩
  exact misread.unstated instant states

end Example

end NdnExt.Time.Nmea
