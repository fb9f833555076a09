import NdnExt.Lib.Calendar
import NdnExt.Lib.Checked
import NdnExt.Lib.Decimal
import NdnExt.Lib.Utf8

/-! The expiration time of an LSA as the text `YYYY-MM-DD HH:MM:SS`. -/

namespace NdnExt.Nlsr

open NdnExt.Lib Outcome List Calendar

inductive LsaCodecError (E : Type) where
  | tlv (error : E)
  | wrongType (expected got : Nat)
  | missingField (field : String)
  | invalidUtf8
  | invalidDateTime
  | invalidDouble
  deriving DecidableEq

def daysToYmd (z : Int) : Int × Nat × Nat :=
  let z := z + 719468
  let era := if z ≥ 0 then z.tdiv 146097 else (z - 146096).tdiv 146097
  let doe := asU64 (z - era * 146097)
  let yoe := (doe - doe / 1460 + doe / 36524 - doe / 146096) / 365
  let y := (yoe : Int) + era * 400
  let doy := doe - (365 * yoe + yoe / 4 - yoe / 100)
  let mp := (5 * doy + 2) / 153
  let d := doy - (153 * mp + 2) / 5 + 1
  let m := if mp < 10 then mp + 3 else mp - 9
  let y := if m ≤ 2 then y + 1 else y
  (y, m, d)

def formatExpirationTime (ms : Nat) : List UInt8 :=
  let secs := ms / 1000
  let (year, month, day) := daysToYmd ((secs / 86400 : Nat) : Int)
  let t := secs % 86400
  let h := t / 3600
  let m := t % 3600 / 60
  let s := t % 60
  paddedInt 4 year ++ [45] ++ padded 2 month ++ [45] ++ padded 2 day ++ [32] ++
    padded 2 h ++ [58] ++ padded 2 m ++ [58] ++ padded 2 s

def dayNumberOf (ymd : Int × Nat × Nat) : Int := Calendar.dayNumber ymd.1 ymd.2.1 ymd.2.2

variable {E : Type}

/-- The year in which the March before the date lies. -/
def marchYear (y : Int) (m : Nat) : Outcome (LsaCodecError E) Int :=
  if m ≤ 2 then i64 (y - 1) else .ok y

def eraOf (y : Int) : Outcome (LsaCodecError E) Int :=
  if y ≥ 0 then .ok (y.tdiv 400)
  else do
    let low ← i64 (y - 399)
    pure (low.tdiv 400)

def marchMonth (m : Nat) : Outcome (LsaCodecError E) Nat :=
  if m > 2 then u64Sub m 3 else u64 (m + 9)

def ymdToDays (y : Int) (m d : Nat) : Outcome (LsaCodecError E) Int := do
  let y ← marchYear y m
  let era ← eraOf y
  let yoe := asU64 (← i64 (y - (← i64 (era * 400))))
  let mp ← marchMonth m
  let doy ← u64Sub (← u64 ((← u64 ((← u64 (153 * mp)) + 2)) / 5 + d)) 1
  let doe ← u64 ((← u64Sub (← u64 ((← u64 (yoe * 365)) + yoe / 4)) (yoe / 100)) + doy)
  i64 ((← i64 ((← i64 (era * 146097)) + doe)) - 719468)

/-- A slice of a text: its ends must be character boundaries. -/
def strSlice (bytes : List UInt8) (lo hi : Nat) : Outcome (LsaCodecError E) (List UInt8) :=
  if isCharBoundary bytes lo ∧ isCharBoundary bytes hi then .ok ((bytes.take hi).drop lo)
  else .panic

def parseField (parse : List UInt8 → Option Int) (bytes : List UInt8) (lo hi : Nat) :
    Outcome (LsaCodecError E) Int := do
  let field ← strSlice bytes lo hi
  .okOr (parse field) .invalidDateTime

def parseI32 : List UInt8 → Option Int := parseInt true (-2 ^ 31) (2 ^ 31 - 1)

def parseU32 : List UInt8 → Option Int := parseInt false 0 (2 ^ 32 - 1)

def parseI64 : List UInt8 → Option Int := parseInt true (-2 ^ 63) (2 ^ 63 - 1)

/-- The time since 1970 in milliseconds for parsed fields. -/
def unixMillis (year : Int) (month day : Nat) (h m sec : Int) :
    Outcome (LsaCodecError E) Nat := do
  let days ← ymdToDays year month day
  let hours ← i64 ((← i64 (days * 86400)) + (← i64 (h * 3600)))
  let unixSecs ← i64 ((← i64 (hours + (← i64 (m * 60)))) + sec)
  u64 (asU64 unixSecs * 1000)

def parseExpirationTime (s : String) : Outcome (LsaCodecError E) Nat :=
  if (asBytes s).length ≠ 19 then .err .invalidDateTime
  else do
    let year ← parseField parseI32 (asBytes s) 0 4
    let month ← parseField parseU32 (asBytes s) 5 7
    let day ← parseField parseU32 (asBytes s) 8 10
    let h ← parseField parseI64 (asBytes s) 11 13
    let m ← parseField parseI64 (asBytes s) 14 16
    let sec ← parseField parseI64 (asBytes s) 17 19
    unixMillis year month.toNat day.toNat h m sec

section Days

theorem marchYear_eq {y : Int} (m : Nat) (year : -2 ^ 31 ≤ y ∧ y < 2 ^ 31) :
    (marchYear y m : Outcome (LsaCodecError E) Int) = .ok (if m ≤ 2 then y - 1 else y) := by
  unfold marchYear
  split
  · exact i64_ok (by omega) (by omega)
  · rfl

/-- Truncated division with the correction for negative years is floor division. -/
theorem eraOf_eq {y : Int} (year : -2 ^ 32 ≤ y ∧ y < 2 ^ 32) :
    (eraOf y : Outcome (LsaCodecError E) Int) = .ok (y / 400) := by
  unfold eraOf
  split
  · rw [Int.tdiv_eq_ediv_of_nonneg ‹_›]
  · have negated : (y - 399).tdiv 400 = -((399 - y) / 400) := by
      rw [show y - 399 = -(399 - y) by omega, Int.neg_tdiv, Int.tdiv_eq_ediv_of_nonneg (by omega)]
    rw [i64_ok (by omega) (by omega), ok_bind, pure_eq, negated]
    congr 1
    omega

theorem marchMonth_eq {m : Nat} (month : m < 2 ^ 32) :
    (marchMonth m : Outcome (LsaCodecError E) Nat) = .ok (if m ≤ 2 then m + 9 else m - 3) := by
  unfold marchMonth
  split
  · rw [if_neg (by omega)]
    exact u64Sub_ok (by omega)
  · rw [if_pos (by omega)]
    exact u64_ok (by omega)

/-- `ymd_to_days` counts days, except that the zeroth of March stops it. -/
theorem ymdToDays_eq {y : Int} {m d : Nat} (year : -2 ^ 31 ≤ y ∧ y < 2 ^ 31) (month : m < 2 ^ 32)
    (day : d < 2 ^ 32) :
    (ymdToDays y m d : Outcome (LsaCodecError E) Int) =
      if m = 3 ∧ d = 0 then .panic else .ok (dayNumber y m d) := by
  obtain ⟨y', yearEq⟩ : ∃ y', y' = if m ≤ 2 then y - 1 else y := ⟨_, rfl⟩
  obtain ⟨mp, monthEq⟩ : ∃ mp, mp = if m ≤ 2 then m + 9 else m - 3 := ⟨_, rfl⟩
  have monthBound : mp < 2 ^ 32 ∧ (mp = 0 ↔ m = 3) := by
    rw [monthEq]
    split <;> omega
  have yoe : asU64 (y' - y' / 400 * 400) = (y' % 400).toNat := by
    rw [asU64_of_nonneg (by omega) (by omega)]
    congr 1
    omega
  obtain ⟨ofEra, yoeEq⟩ : ∃ ofEra, ofEra = (y' % 400).toNat := ⟨_, rfl⟩
  unfold ymdToDays
  rw [marchYear_eq m year, ok_bind, ← yearEq, eraOf_eq (by omega), ok_bind,
    i64_ok (by omega) (by omega), ok_bind, i64_ok (by omega) (by omega), ok_bind]
  rw [yoe, ← yoeEq, marchMonth_eq month, ok_bind, ← monthEq, u64_ok (by omega),
    ok_bind, u64_ok (by omega), ok_bind, u64_ok (by omega), ok_bind]
  by_cases zeroth : m = 3 ∧ d = 0
  · rw [if_pos zeroth, u64Sub, if_neg (by omega), panic_bind]
  · rw [if_neg zeroth, u64Sub_ok (by omega), ok_bind, u64_ok (by omega), ok_bind,
      u64_ok (by omega), ok_bind, u64Sub_ok (by omega), ok_bind,
      u64_ok (by omega), ok_bind, i64_ok (by omega) (by omega), ok_bind,
      i64_ok (by omega) (by omega), ok_bind, i64_ok (by omega) (by omega)]
    congr 1
    have months : (mp : Int) = if m ≤ 2 then (m : Int) + 9 else m - 3 := by
      rw [monthEq]
      split <;> omega
    unfold dayNumber
    rw [← yearEq, ← months]
    dsimp only
    omega

/-- `days_to_ymd` gives a date of the calendar on the same day. -/
theorem daysToYmd_spec (z : Nat) :
    dayNumberOf (daysToYmd z) = z ∧ 1 ≤ (daysToYmd z).2.1 ∧ (daysToYmd z).2.1 ≤ 12 ∧
      1 ≤ (daysToYmd z).2.2 ∧ (daysToYmd z).2.2 ≤ 31 := by
  obtain ⟨era, eraEq⟩ : ∃ era, era = ((z : Int) + 719468) / 146097 := ⟨_, rfl⟩
  obtain ⟨doe, doeEq⟩ : ∃ doe : Nat, doe = (((z : Int) + 719468) % 146097).toNat := ⟨_, rfl⟩
  have doeBound : doe < 146097 := by omega
  obtain ⟨yoe, yoeEq⟩ : ∃ yoe, yoe = (doe - doe / 1460 + doe / 36524 - doe / 146096) / 365 :=
    ⟨_, rfl⟩
  have inYear := year_of_era doeBound yoeEq
  obtain ⟨doy, doyEq⟩ : ∃ doy, doy = doe - (365 * yoe + yoe / 4 - yoe / 100) := ⟨_, rfl⟩
  obtain ⟨mp, mpEq⟩ : ∃ mp, mp = (5 * doy + 2) / 153 := ⟨_, rfl⟩
  have inMonth := month_of_year (by omega) mpEq
  obtain ⟨m, mEq⟩ : ∃ m, m = if mp < 10 then mp + 3 else mp - 9 := ⟨_, rfl⟩
  have ymd : daysToYmd z = (if m ≤ 2 then (yoe : Int) + era * 400 + 1 else yoe + era * 400, m,
      doy - (153 * mp + 2) / 5 + 1) := by
    have truncated : ((z : Int) + 719468).tdiv 146097 = era := by
      rw [eraEq, Int.tdiv_eq_ediv_of_nonneg (by omega)]
    have ofEra : asU64 ((z : Int) + 719468 - era * 146097) = doe := by
      rw [asU64_of_nonneg (by omega) (by omega), doeEq, eraEq]
      congr 1
      omega
    unfold daysToYmd
    dsimp only
    rw [if_pos (show (z : Int) + 719468 ≥ 0 by omega), truncated, ofEra, ← yoeEq, ← doyEq, ← mpEq,
      ← mEq]
  rw [ymd]
  refine ⟨?_, ?_, ?_, ?_, ?_⟩
  · have months : (mp : Int) = if m ≤ 2 then (m : Int) + 9 else m - 3 := by
      rw [mEq]
      split <;> split <;> omega
    have day : ((doy - (153 * mp + 2) / 5 + 1 : Nat) : Int) =
        doy - (153 * (mp : Int) + 2) / 5 + 1 := by omega
    have ofYear : (doe : Int) = 365 * yoe + (yoe : Int) / 4 - (yoe : Int) / 100 + doy := by omega
    have days := days_of_era era (show yoe < 400 by omega)
    have shifted : (if m ≤ 2 then (if m ≤ 2 then (yoe : Int) + era * 400 + 1 else yoe + era * 400) - 1
        else if m ≤ 2 then (yoe : Int) + era * 400 + 1 else yoe + era * 400) =
          yoe + era * 400 := by
      split
      · exact Int.add_sub_cancel _ _
      · rfl
    unfold dayNumberOf dayNumber
    dsimp only
    rw [day, ← months, shifted, days]
    clear days shifted months day inMonth inYear ymd
    omega
  · change 1 ≤ m
    rw [mEq]
    split <;> omega
  · change m ≤ 12
    rw [mEq]
    split <;> omega
  · change 1 ≤ doy - (153 * mp + 2) / 5 + 1
    omega
  · change doy - (153 * mp + 2) / 5 + 1 ≤ 31
    omega

/-- The seconds since 1970 that six fields stand for. -/
def unixSeconds (year : Int) (month day : Nat) (h m sec : Int) : Int :=
  Calendar.dayNumber year month day * 86400 + h * 3600 + m * 60 + sec

/-- Fields of the lengths in the text: only the zeroth of March and the times before 1970 stop
the conversion. -/
theorem unixMillis_eq {year : Int} {month day : Nat} {h m sec : Int}
    (years : -10000 < year ∧ year < 10000) (months : month < 100) (days : day < 100)
    (hours : -100 < h ∧ h < 100) (minutes : -100 < m ∧ m < 100) (seconds : -100 < sec ∧ sec < 100) :
    (unixMillis year month day h m sec : Outcome (LsaCodecError E) Nat) =
      if (month = 3 ∧ day = 0) ∨ unixSeconds year month day h m sec < 0 then .panic
      else .ok ((unixSeconds year month day h m sec).toNat * 1000) := by
  unfold unixMillis
  rw [ymdToDays_eq (by omega) (by omega) (by omega)]
  by_cases zeroth : month = 3 ∧ day = 0
  · rw [if_pos zeroth, if_pos (Or.inl zeroth), panic_bind]
  · have bounds : -4400000 < dayNumber year month day ∧
        dayNumber year month day < 4400000 := by
      unfold dayNumber
      split
      · dsimp only
        omega
      · dsimp only
        omega
    unfold unixSeconds
    generalize dayNumber year month day = number at bounds
    rw [if_neg zeroth, ok_bind, i64_ok (by omega) (by omega), ok_bind,
      i64_ok (by omega) (by omega), ok_bind, i64_ok (by omega) (by omega),
      ok_bind, i64_ok (by omega) (by omega), ok_bind,
      i64_ok (by omega) (by omega), ok_bind, i64_ok (by omega) (by omega), ok_bind]
    by_cases negative : number * 86400 + h * 3600 + m * 60 + sec < 0
    · have huge := asU64_of_neg (by omega) negative
      rw [if_pos (Or.inr negative), u64, if_neg (by omega)]
    · rw [if_neg (by simp only [zeroth, negative, or_self, not_false_eq_true]),
        asU64_of_nonneg (by omega) (by omega), u64_ok (by omega)]

end Days

section Text

theorem isCharBoundary_ascii {bytes : List UInt8} (ascii : ∀ b ∈ bytes, b < 128) {offset : Nat}
    (inside : offset ≤ bytes.length) : isCharBoundary bytes offset := by
  rcases Nat.eq_or_lt_of_le inside with last | before
  · exact Or.inl last
  · refine Or.inr ⟨bytes[offset], ?_, Or.inl (ascii _ (getElem_mem before))⟩
    rw [List.getElem?_eq_getElem before]
    rfl

/-- A field of ASCII text between what precedes it and what follows. -/
theorem parseField_ascii {bytes : List UInt8} {parse : List UInt8 → Option Int} {value : Int}
    (before field after : List UInt8) (ascii : ∀ b ∈ bytes, b < 128)
    (parts : bytes = before ++ (field ++ after)) (parsed : parse field = some value) {lo hi : Nat}
    (start : before.length = lo) (stop : lo + field.length = hi) :
    (parseField parse bytes lo hi : Outcome (LsaCodecError E) Int) = .ok value := by
  have inside : hi ≤ bytes.length := by
    rw [parts, length_append, length_append]
    omega
  have slice : (bytes.take hi).drop lo = field := by
    rw [parts, ← append_assoc, ← stop, ← start, ← length_append, take_left,
      drop_left]
  unfold parseField strSlice
  rw [if_pos ⟨isCharBoundary_ascii ascii (by omega), isCharBoundary_ascii ascii inside⟩, slice,
    ok_bind, parsed, okOr_some]

/-- The text of six fields is ASCII and decodes to them. -/
theorem parse_text {year month day h m s : Nat} (years : year < 10000) (months : month < 100)
    (days : day < 100) (hours : h < 100) (minutes : m < 100) (seconds : s < 100) :
    ∃ text, fromUtf8 (padded 4 year ++ [45] ++ padded 2 month ++ [45] ++ padded 2 day ++ [32] ++
        padded 2 h ++ [58] ++ padded 2 m ++ [58] ++ padded 2 s) = some text ∧
      parseExpirationTime text =
        (unixMillis year month day h m s : Outcome (LsaCodecError E) Nat) := by
  obtain ⟨bytes, parts⟩ : ∃ bytes, bytes = padded 4 year ++ [45] ++ padded 2 month ++ [45] ++
      padded 2 day ++ [32] ++ padded 2 h ++ [58] ++ padded 2 m ++ [58] ++ padded 2 s := ⟨_, rfl⟩
  have ascii : ∀ b ∈ bytes, b < 128 := by
    have digits : ∀ {width value : Nat} {b : UInt8}, b ∈ padded width value → b < 128 :=
      fun mem => UInt8.lt_of_le_of_lt (digit_of_mem_padded mem).2 (by decide)
    intro b mem
    rw [parts] at mem
    simp only [mem_append, mem_singleton] at mem
    rcases mem with ((((((((((mem | rfl) | mem) | rfl) | mem) | rfl) | mem) | rfl) | mem) | rfl) | mem)
    all_goals first | exact digits mem | decide
  have four : (padded 4 year).length = 4 := length_padded (by decide) (by omega)
  have two : ∀ {value : Nat}, value < 100 → (padded 2 value).length = 2 :=
    fun small => length_padded (by decide) (by omega)
  rcases fromUtf8_ascii ascii with ⟨text, decoded, same⟩
  rw [← parts]
  refine ⟨text, decoded, ?_⟩
  have length : bytes.length = 19 := by
    rw [parts]
    simp only [length_append, length_singleton, four, two months, two days, two hours,
      two minutes, two seconds]
  simp only [append_assoc] at parts
  have yearField : (parseField parseI32 bytes 0 4 : Outcome (LsaCodecError E) Int) = .ok year :=
    parseField_ascii [] (padded 4 year) _ ascii parts
      (parseInt_padded (by omega) (by omega) (by decide)) rfl (by rw [four])
  have monthField : (parseField parseU32 bytes 5 7 : Outcome (LsaCodecError E) Int) = .ok month :=
    parseField_ascii (padded 4 year ++ [45]) (padded 2 month) _ ascii
      (by rw [parts]; simp only [append_assoc]; rfl)
      (parseInt_padded (by omega) (by omega) (by decide))
      (by rw [length_append, four]; rfl) (by rw [two months])
  have dayField : (parseField parseU32 bytes 8 10 : Outcome (LsaCodecError E) Int) = .ok day :=
    parseField_ascii (padded 4 year ++ [45] ++ padded 2 month ++ [45]) (padded 2 day) _ ascii
      (by rw [parts]; simp only [append_assoc]; rfl)
      (parseInt_padded (by omega) (by omega) (by decide))
      (by simp only [length_append, four, two months]; rfl) (by rw [two days])
  have hourField : (parseField parseI64 bytes 11 13 : Outcome (LsaCodecError E) Int) = .ok h :=
    parseField_ascii (padded 4 year ++ [45] ++ padded 2 month ++ [45] ++ padded 2 day ++ [32])
      (padded 2 h) _ ascii (by rw [parts]; simp only [append_assoc]; rfl)
      (parseInt_padded (by omega) (by omega) (by decide))
      (by simp only [length_append, four, two months, two days]; rfl) (by rw [two hours])
  have minuteField : (parseField parseI64 bytes 14 16 : Outcome (LsaCodecError E) Int) = .ok m :=
    parseField_ascii (padded 4 year ++ [45] ++ padded 2 month ++ [45] ++ padded 2 day ++ [32] ++
        padded 2 h ++ [58]) (padded 2 m) _ ascii
      (by rw [parts]; simp only [append_assoc]; rfl)
      (parseInt_padded (by omega) (by omega) (by decide))
      (by simp only [length_append, four, two months, two days, two hours]; rfl)
      (by rw [two minutes])
  have secondField : (parseField parseI64 bytes 17 19 : Outcome (LsaCodecError E) Int) = .ok s :=
    parseField_ascii (padded 4 year ++ [45] ++ padded 2 month ++ [45] ++ padded 2 day ++ [32] ++
        padded 2 h ++ [58] ++ padded 2 m ++ [58]) (padded 2 s) [] ascii
      (by rw [parts]; simp only [append_assoc, append_nil])
      (parseInt_padded (by omega) (by omega) (by decide))
      (by simp only [length_append, four, two months, two days, two hours, two minutes]; rfl)
      (by rw [two seconds])
  unfold parseExpirationTime
  rw [same, if_neg (fun other => other length), yearField, ok_bind, monthField,
    ok_bind, dayField, ok_bind, hourField, ok_bind, minuteField,
    ok_bind, secondField, ok_bind]
  rfl

/-- Up to the end of 9999 an expiration time survives the text to the second. -/
theorem parse_format {ms : Nat} (early : ms < 253402300800000) :
    ∃ text, fromUtf8 (formatExpirationTime ms) = some text ∧
      parseExpirationTime text = (.ok (ms / 1000 * 1000) : Outcome (LsaCodecError E) Nat) := by
  obtain ⟨secs, seconds⟩ : ∃ secs, secs = ms / 1000 := ⟨_, rfl⟩
  rcases daysToYmd_spec (secs / 86400) with ⟨number, real, monthly, first, daily⟩
  obtain ⟨ymd, dated⟩ : ∃ ymd, ymd = daysToYmd ((secs / 86400 : Nat) : Int) := ⟨_, rfl⟩
  rcases ymd with ⟨year, month, day⟩
  rw [← dated] at number real monthly first daily
  unfold dayNumberOf at number
  dsimp only at number real monthly first daily
  have upper := year_le monthly real first (by rw [number]; omega)
  have lower := le_year monthly real daily (by rw [number]; omega)
  obtain ⟨years, yearEq⟩ : ∃ years : Nat, year = years := ⟨year.toNat, by omega⟩
  subst yearEq
  have written : formatExpirationTime ms = padded 4 years ++ [45] ++ padded 2 month ++ [45] ++
      padded 2 day ++ [32] ++ padded 2 (secs % 86400 / 3600) ++ [58] ++
      padded 2 (secs % 86400 % 3600 / 60) ++ [58] ++ padded 2 (secs % 86400 % 60) := by
    unfold formatExpirationTime
    dsimp only
    rw [← seconds, ← dated]
    rw [paddedInt, if_neg (by omega), Int.toNat_natCast]
  rcases @parse_text E years month day (secs % 86400 / 3600) (secs % 86400 % 3600 / 60)
    (secs % 86400 % 60) (by omega) (by omega) (by omega) (by omega) (by omega) (by omega) with
    ⟨text, decoded, parsed⟩
  refine ⟨text, by rw [written]; exact decoded, ?_⟩
  have total : unixSeconds years month day ((secs % 86400 / 3600 : Nat) : Int)
      ((secs % 86400 % 3600 / 60 : Nat) : Int) ((secs % 86400 % 60 : Nat) : Int) = secs := by
    rw [unixSeconds, number]
    omega
  rw [parsed, unixMillis_eq (by omega) (by omega) (by omega) (by omega) (by omega) (by omega),
    total, if_neg (by omega), Int.toNat_natCast, seconds]

end Text

section Safe

/-- The field lies between characters, and if it is a number, `next` holds of it. -/
def FieldThen (bytes : List UInt8) (parse : List UInt8 → Option Int) (lo hi : Nat)
    (next : Int → Prop) : Prop :=
  isCharBoundary bytes lo ∧ isCharBoundary bytes hi ∧
    ∀ value, parse ((bytes.take hi).drop lo) = some value → next value

/-- Every field up to the first that is no number lies between characters; six numbers are not
the zeroth of March and not before 1970. -/
def SafeTime (text : String) : Prop :=
  let bytes := asBytes text
  bytes.length = 19 →
    FieldThen bytes parseI32 0 4 fun year =>
    FieldThen bytes parseU32 5 7 fun month =>
    FieldThen bytes parseU32 8 10 fun day =>
    FieldThen bytes parseI64 11 13 fun h =>
    FieldThen bytes parseI64 14 16 fun m =>
    FieldThen bytes parseI64 17 19 fun sec =>
      ¬ (month = 3 ∧ day = 0) ∧ 0 ≤ unixSeconds year month.toNat day.toNat h m sec

theorem parseField_bind {A : Type} {bytes : List UInt8} {parse : List UInt8 → Option Int}
    {lo hi : Nat} {next : Int → Outcome (LsaCodecError E) A} {safe : Int → Prop}
    (nexts : ∀ value, parse ((bytes.take hi).drop lo) = some value →
      (next value ≠ .panic ↔ safe value)) :
    (parseField parse bytes lo hi >>= next) ≠ .panic ↔ FieldThen bytes parse lo hi safe := by
  unfold parseField strSlice FieldThen
  by_cases between : isCharBoundary bytes lo ∧ isCharBoundary bytes hi
  · rw [if_pos between, ok_bind]
    cases found : parse ((bytes.take hi).drop lo) with
    | none =>
      rw [okOr_none, err_bind]
      exact iff_of_true nofun ⟨between.1, between.2, nofun⟩
    | some value =>
      rw [okOr_some, ok_bind, nexts value found]
      constructor
      · intro safely
        refine ⟨between.1, between.2, ?_⟩
        intro other same
        cases same
        exact safely
      · intro all
        exact all.2.2 value rfl
  · rw [if_neg between, panic_bind, panic_bind]
    exact iff_of_false (fun other => other rfl) (fun all => between ⟨all.1, all.2.1⟩)

theorem length_field {bytes : List UInt8} (length : bytes.length = 19) {lo hi : Nat}
    (inside : hi ≤ 19) : ((bytes.take hi).drop lo).length = hi - lo := by
  rw [length_drop, length_take, length, Nat.min_eq_left inside]

/-- Parsing stops the program exactly on the texts that are not safe. -/
theorem parseExpirationTime_ne_panic {text : String} :
    (parseExpirationTime text : Outcome (LsaCodecError E) Nat) ≠ .panic ↔ SafeTime text := by
  unfold parseExpirationTime SafeTime
  by_cases length : (asBytes text).length = 19
  · have bound : ∀ {signed : Bool} {least greatest value : Int} {lo hi : Nat}, hi ≤ 19 →
        parseInt signed least greatest (((asBytes text).take hi).drop lo) = some value →
        value < 10 ^ (hi - lo) ∧ - 10 ^ (hi - lo) < value ∧ (signed = false → 0 ≤ value) := by
      intro signed least greatest value lo hi inside parsed
      have bounds := parseInt_bounds parsed
      rw [length_field length inside] at bounds
      exact bounds
    rw [if_neg (not_not.mpr length), imp_iff_right length]
    apply parseField_bind
    intro year yearText
    apply parseField_bind
    intro month monthText
    apply parseField_bind
    intro day dayText
    apply parseField_bind
    intro h hourText
    apply parseField_bind
    intro m minuteText
    apply parseField_bind
    intro sec secondText
    have years := bound (by decide) yearText
    have months := bound (by decide) monthText
    have days := bound (by decide) dayText
    have hours := bound (by decide) hourText
    have minutes := bound (by decide) minuteText
    have seconds := bound (by decide) secondText
    have positiveDay := days.2.2 rfl
    rw [unixMillis_eq (by omega) (by omega) (by omega) (by omega) (by omega) (by omega)]
    split
    · rename_i stops
      refine iff_of_false (fun other => other rfl) ?_
      omega
    · rename_i goes
      refine iff_of_true nofun ?_
      omega
  · rw [if_pos length]
    exact iff_of_true nofun (fun same => absurd same length)

end Safe

end NdnExt.Nlsr
