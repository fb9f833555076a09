import Mathlib.Data.List.Basic

/-! The COBS code: a payload as runs without zero, each behind the length of its run. -/

namespace NdnExt.Serial

open List

abbrev Bytes := List UInt8

/-- The buffer of `cobs_encode`, with the place of the code byte that is still to be written. -/
structure EncodeState where
  dst : Bytes
  codeIdx : Nat
  code : Nat

namespace EncodeState

def start (dst : Bytes) : EncodeState := ⟨dst ++ [0], dst.length, 1⟩

def patch (state : EncodeState) : Bytes := state.dst.set state.codeIdx (UInt8.ofNat state.code)

def close (state : EncodeState) : EncodeState := ⟨state.patch ++ [0], state.dst.length, 1⟩

def step (state : EncodeState) (byte : UInt8) : EncodeState :=
  if byte = 0 then state.close
  else if state.code + 1 = 0xFF then
    close { state with dst := state.dst ++ [byte], code := state.code + 1 }
  else { state with dst := state.dst ++ [byte], code := state.code + 1 }

end EncodeState

def cobsEncode (src dst : Bytes) : Bytes :=
  (src.foldl EncodeState.step (EncodeState.start dst)).patch

def unexpectedZero : String := "unexpected zero in COBS data"

def runExceedsInput : String := "COBS run exceeds input"

/-- `src` is what the loop of `cobs_decode` has not read yet. -/
def cobsDecode (src dst : Bytes) : Except String Bytes :=
  match src with
  | [] => .ok dst
  | code :: rest =>
    if code = 0 then .error unexpectedZero
    else if rest.length < code.toNat - 1 then .error runExceedsInput
    else
      cobsDecode (rest.drop (code.toNat - 1))
        (dst ++ rest.take (code.toNat - 1) ++
          if code < 0xFF ∧ rest.drop (code.toNat - 1) ≠ [] then [0] else [])
termination_by src.length
decreasing_by simp only [List.length_drop, List.length_cons]; omega

/-- What the encoder still appends with `run` read since the last code byte. -/
def encodedFrom (run : Bytes) : Bytes → Bytes
  | [] => UInt8.ofNat (run.length + 1) :: run
  | byte :: rest =>
    if byte = 0 then UInt8.ofNat (run.length + 1) :: run ++ encodedFrom [] rest
    else if run.length + 2 = 0xFF then
      UInt8.ofNat (run.length + 2) :: (run ++ [byte]) ++ encodedFrom [] rest
    else encodedFrom (run ++ [byte]) rest

/-- The state between two bytes: `run` is all that stands behind the code byte to be written. -/
def EncodeState.inRun (done run : Bytes) : EncodeState :=
  ⟨done ++ 0 :: run, done.length, run.length + 1⟩

theorem patch_inRun (done run : Bytes) :
    (EncodeState.inRun done run).patch = done ++ UInt8.ofNat (run.length + 1) :: run := by
  simp [EncodeState.inRun, EncodeState.patch]

theorem close_inRun (done run : Bytes) :
    (EncodeState.inRun done run).close =
      EncodeState.inRun (done ++ UInt8.ofNat (run.length + 1) :: run) [] := by
  rw [EncodeState.close, patch_inRun]
  simp [EncodeState.inRun]

theorem step_inRun (done run : Bytes) (byte : UInt8) :
    (EncodeState.inRun done run).step byte =
      if byte = 0 then (EncodeState.inRun done run).close
      else if run.length + 2 = 0xFF then (EncodeState.inRun done (run ++ [byte])).close
      else EncodeState.inRun done (run ++ [byte]) := by
  have grown : EncodeState.inRun done (run ++ [byte]) =
      ⟨(done ++ 0 :: run) ++ [byte], done.length, run.length + 2⟩ := by
    simp [EncodeState.inRun]
  rw [grown]
  rfl

theorem foldl_inRun (src done run : Bytes) :
    (src.foldl EncodeState.step (EncodeState.inRun done run)).patch =
      done ++ encodedFrom run src := by
  induction src generalizing done run with
  | nil => exact patch_inRun done run
  | cons byte rest ih =>
    rw [foldl_cons, step_inRun, encodedFrom]
    by_cases zero : byte = 0
    · rw [if_pos zero, if_pos zero, close_inRun, ih, append_assoc]
    · rw [if_neg zero, if_neg zero]
      by_cases full : run.length + 2 = 0xFF
      · have count : (run ++ [byte]).length + 1 = run.length + 2 := by simp
        rw [if_pos full, if_pos full, close_inRun, ih, append_assoc, count]
      · rw [if_neg full, if_neg full, ih]

theorem cobsEncode_eq (src dst : Bytes) : cobsEncode src dst = dst ++ encodedFrom [] src :=
  foldl_inRun src dst []

theorem code_toNat {count : Nat} (fits : count ≤ 0xFF) : (UInt8.ofNat count).toNat = count := by
  rw [UInt8.toNat_ofNat', Nat.mod_eq_of_lt (by omega)]

theorem code_ne_zero {count : Nat} (positive : 0 < count) (fits : count ≤ 0xFF) :
    UInt8.ofNat count ≠ 0 := by
  intro zero
  have value := congrArg UInt8.toNat zero
  rw [code_toNat fits] at value
  exact Nat.ne_of_gt positive value

theorem encodedFrom_ne_nil (run src : Bytes) : encodedFrom run src ≠ [] := by
  induction src generalizing run with
  | nil => exact cons_ne_nil _ _
  | cons byte rest ih =>
    unfold encodedFrom
    split
    · exact cons_ne_nil _ _
    · split
      · exact cons_ne_nil _ _
      · exact ih _

theorem zero_not_mem_encodedFrom (src : Bytes) {run : Bytes} (clean : 0 ∉ run)
    (fits : run.length ≤ 253) : 0 ∉ encodedFrom run src := by
  induction src generalizing run with
  | nil =>
    have code : UInt8.ofNat (run.length + 1) ≠ 0 := code_ne_zero (by omega) (by omega)
    exact not_mem_cons_of_ne_of_not_mem (Ne.symm code) clean
  | cons byte rest ih =>
    have code : UInt8.ofNat (run.length + 1) ≠ 0 := code_ne_zero (by omega) (by omega)
    have fresh : 0 ∉ encodedFrom [] rest := ih (by simp) (by simp)
    rw [encodedFrom]
    by_cases zero : byte = 0
    · rw [if_pos zero, cons_append, mem_cons, mem_append]
      simp only [fresh, clean, or_false, Ne.symm code, not_false_iff]
    · have grown : 0 ∉ run ++ [byte] := by simp [clean, Ne.symm zero]
      rw [if_neg zero]
      by_cases full : run.length + 2 = 0xFF
      · have code : UInt8.ofNat (run.length + 2) ≠ 0 := code_ne_zero (by omega) (by omega)
        rw [if_pos full, cons_append, mem_cons, mem_append]
        simp only [fresh, grown, or_false, Ne.symm code, not_false_iff]
      · rw [if_neg full]
        exact ih grown (by simp only [length_append, length_singleton]; omega)

theorem length_encodedFrom (src : Bytes) {run : Bytes} (fits : run.length ≤ 253) :
    (encodedFrom run src).length ≤
      run.length + src.length + (run.length + src.length) / 254 + 1 := by
  induction src generalizing run with
  | nil => simp only [encodedFrom, length_cons, length_nil]; omega
  | cons byte rest ih =>
    have fresh := @ih [] (by simp)
    simp only [length_nil, Nat.zero_add] at fresh
    rw [encodedFrom]
    by_cases zero : byte = 0
    · simp only [if_pos zero, cons_append, length_cons, length_append]
      omega
    · rw [if_neg zero]
      by_cases full : run.length + 2 = 0xFF
      · simp only [if_pos full, cons_append, length_cons, length_append,
          length_nil]
        omega
      · have grown := @ih (run ++ [byte])
          (by simp only [length_append, length_singleton]; omega)
        simp only [length_append, length_cons, length_nil] at grown
        rw [if_neg full, length_cons]
        omega

theorem cobsDecode_nil (dst : Bytes) : cobsDecode [] dst = .ok dst := by
  rw [cobsDecode]

/-- One group: a zero follows it unless it is full or the last one. -/
theorem cobsDecode_group (run rest dst : Bytes) (fits : run.length ≤ 254) :
    cobsDecode (UInt8.ofNat (run.length + 1) :: run ++ rest) dst =
      cobsDecode rest
        (dst ++ run ++ if run.length + 1 < 0xFF ∧ rest ≠ [] then [0] else []) := by
  have value : (UInt8.ofNat (run.length + 1)).toNat = run.length + 1 := code_toNat (by omega)
  have below : UInt8.ofNat (run.length + 1) < 0xFF ↔ run.length + 1 < 0xFF := by
    rw [UInt8.lt_iff_toNat_lt, value]
    exact Iff.rfl
  have runLen : UInt8.toNat (UInt8.ofNat (run.length + 1)) - 1 = run.length := by omega
  have long : ¬ (run ++ rest).length < run.length := by
    rw [length_append]
    omega
  rw [cons_append, cobsDecode, if_neg (code_ne_zero (by omega) (by omega)), runLen,
    if_neg long, take_left, drop_left]
  simp only [below]

theorem cobsDecode_encodedFrom (src : Bytes) {run : Bytes} (dst : Bytes)
    (fits : run.length ≤ 253) :
    cobsDecode (encodedFrom run src) dst = .ok (dst ++ run ++ src) := by
  induction src generalizing run dst with
  | nil =>
    have last := cobsDecode_group run [] dst (by omega)
    simpa [encodedFrom, cobsDecode_nil] using last
  | cons byte rest ih =>
    rw [encodedFrom]
    by_cases zero : byte = 0
    · rw [if_pos zero, cobsDecode_group run _ dst (by omega),
        if_pos ⟨by omega, encodedFrom_ne_nil _ _⟩, ih _ (by simp)]
      simp [zero]
    · rw [if_neg zero]
      by_cases full : run.length + 2 = 0xFF
      · have count : (run ++ [byte]).length + 1 = run.length + 2 := by simp
        have group := cobsDecode_group (run ++ [byte]) (encodedFrom [] rest) dst (by omega)
        rw [count] at group
        rw [if_pos full, group, if_neg (by omega), ih _ (by simp)]
        simp
      · rw [if_neg full, ih dst (by simp only [length_append, length_singleton]; omega)]
        simp

/-- The decoder gives back what the encoder was given. -/
theorem cobsDecode_cobsEncode (payload : Bytes) :
    cobsDecode (cobsEncode payload []) [] = .ok payload := by
  rw [cobsEncode_eq, nil_append, cobsDecode_encodedFrom payload [] (by simp)]
  rfl

theorem length_cobsDecode {src dst decoded : Bytes} (decodes : cobsDecode src dst = .ok decoded) :
    decoded.length ≤ dst.length + src.length := by
  induction src, dst using cobsDecode.induct with
  | case1 dst =>
    rw [cobsDecode_nil] at decodes
    cases decodes
    simp
  | case2 dst rest => simp [cobsDecode] at decodes
  | case3 dst code rest nonzero short => simp [cobsDecode, nonzero, short] at decodes
  | case4 dst code rest nonzero long ih =>
    rw [cobsDecode, if_neg nonzero, if_neg long] at decodes
    have bound := ih decodes
    simp only [dite_eq_ite] at bound
    have padding : (if code < 0xFF ∧ rest.drop (code.toNat - 1) ≠ [] then [(0 : UInt8)]
        else []).length ≤ 1 := by split <;> simp
    simp only [length_append, length_take, length_drop,
      length_cons] at bound ⊢
    omega

end NdnExt.Serial
