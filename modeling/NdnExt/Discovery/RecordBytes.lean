import NdnExt.Discovery.ServiceRecord

/-! Which received bytes the walks over service records and peer lists get through. -/

namespace NdnExt.Discovery

open NdnExt.Lib Outcome List Option

/-! ### Numbers and headers -/

/-- A number at the start of the bytes: its value and its length. -/
def numberOf : Bytes → Option (Nat × Nat)
  | [] => none
  | first :: more =>
    if first = 0xFD then if 2 ≤ more.length then some (ofBe (more.take 2), 3) else none
    else if first = 0xFE then if 4 ≤ more.length then some (ofBe (more.take 4), 5) else none
    else if first = 0xFF then if 8 ≤ more.length then some (ofBe (more.take 8), 9) else none
    else some (first.toNat, 1)

/-- A number of four or eight bytes is cut short. -/
def CutNumber (b : Bytes) : Prop :=
  (b.head? = some 0xFE ∧ b.length < 5) ∨ (b.head? = some 0xFF ∧ b.length < 9)

/-- Type, value length and header length of a TLV at the start of the bytes. -/
def headerOf (b : Bytes) : Option (Nat × Nat × Nat) := do
  let typ ← numberOf b
  let len ← numberOf (b.drop typ.2)
  some (typ.1 % 2 ^ 32, len.1, typ.2 + len.2)

def CutHeader (b : Bytes) : Prop :=
  CutNumber b ∨ ∃ typ ∈ numberOf b, CutNumber (b.drop typ.2)

instance (b : Bytes) : Decidable (CutNumber b) := by
  unfold CutNumber
  infer_instance

instance (b : Bytes) : Decidable (CutHeader b) := by
  unfold CutHeader
  infer_instance

variable {b : Bytes} {S : Type} {length : Nat} {w : Walker}

theorem numberOf_spec {value width : Nat} (number : numberOf b = some (value, width)) :
    0 < width ∧ width ≤ 9 ∧ width ≤ b.length ∧ value < 2 ^ 64 := by
  cases b with
  | nil => cases number
  | cons first more =>
    have bound : ∀ n, n ≤ 8 → ofBe (more.take n) < 2 ^ 64 := by
      intro n small
      have less := ofBe_lt (more.take n)
      have short : (more.take n).length ≤ 8 := by
        rw [length_take]
        omega
      exact less.trans_le (Nat.pow_le_pow_right (by decide) short)
    have one := first.toNat_lt
    simp only [numberOf] at number
    rw [length_cons]
    split at number
    · split at number
      · cases number
        exact ⟨by decide, by decide, by omega, bound 2 (by decide)⟩
      · cases number
    · split at number
      · split at number
        · cases number
          exact ⟨by decide, by decide, by omega, bound 4 (by decide)⟩
        · cases number
      · split at number
        · split at number
          · cases number
            exact ⟨by decide, by decide, by omega, bound 8 (by decide)⟩
          · cases number
        · cases number
          exact ⟨by decide, by decide, by omega, by omega⟩

theorem headerOf_spec {typ len width : Nat}
    (header : headerOf b = some (typ, len, width)) :
    0 < width ∧ width ≤ b.length ∧ len < 2 ^ 64 := by
  rcases bind_eq_some_iff.mp header with ⟨⟨t, tLen⟩, first, header⟩
  rcases bind_eq_some_iff.mp header with ⟨⟨l, lLen⟩, second, header⟩
  cases header
  rcases numberOf_spec first with ⟨positive, _, inside, _⟩
  rcases numberOf_spec second with ⟨_, _, inside', small⟩
  rw [length_drop] at inside'
  exact ⟨by dsimp only; omega, by dsimp only at inside' ⊢; omega, small⟩

theorem headerOf_typ (seven : b.head? = some 7) {header : Nat × Nat × Nat}
    (found : headerOf b = some header) : header.1 = 7 := by
  cases b with
  | nil => cases seven
  | cons first more =>
    rw [List.head?_cons, Option.some.injEq] at seven
    subst seven
    unfold headerOf at found
    rcases bind_eq_some_iff.mp found with ⟨typ, first, found⟩
    rcases bind_eq_some_iff.mp found with ⟨len, _, found⟩
    cases first
    cases found
    rfl

/-- A read of a number at the start of the bytes. -/
def readNumber (b : Bytes) : Read (Nat × Nat) :=
  if CutNumber b then .panic else .okOr (numberOf b) .malformed

def readHeader (b : Bytes) : Read (Nat × Nat × Nat) :=
  if CutHeader b then .panic else .okOr (headerOf b) .malformed

theorem ofBe_two (hi lo : UInt8) : ofBe [hi, lo] = hi.toNat * 256 + lo.toNat := by
  simp [ofBe]

theorem slice_drop {pos n : Nat} (more : Bytes) (first : UInt8)
    (here : b.drop pos = first :: more) :
    slice b (pos + 1) (pos + (n + 1)) = if n ≤ more.length then .ok (more.take n) else .panic := by
  have length : (b.drop pos).length = more.length + 1 := by rw [here, length_cons]
  have rest : b.drop (pos + 1) = more := by
    rw [← drop_drop, here, drop_succ_cons, drop_zero]
  rw [length_drop] at length
  unfold slice
  split
  · next inside =>
    rw [if_pos (by omega), drop_take, rest]
    congr 2
    omega
  · next outside => rw [if_neg (by omega)]

/-- A number is read from the bytes at its position. -/
theorem readVarnumber_eq (fits : b.length < 2 ^ 63) (pos : Nat) :
    readVarnumber b pos = readNumber (b.drop pos) := by
  unfold readVarnumber readNumber
  cases here : b.drop pos with
  | nil =>
    have beyond : b[pos]? = none :=
      List.getElem?_eq_none (drop_eq_nil_iff.mp here)
    rw [beyond]
    rfl
  | cons first more =>
    have length : (b.drop pos).length = more.length + 1 := by rw [here, length_cons]
    rw [length_drop] at length
    have at' : ∀ i, b[pos + i]? = (first :: more)[i]? := by
      intro i
      rw [← here, List.getElem?_drop]
    have zero := at' 0
    rw [Nat.add_zero] at zero
    rw [zero, List.getElem?_cons_zero]
    rw [u64_ok (by omega), u64_ok (by omega), u64_ok (by omega), u64_ok (by omega)]
    simp only [ok_bind]
    rw [slice_drop more first here, slice_drop more first here, at' 1, at' 2]
    by_cases fd : first = 0xFD
    · subst fd
      cases more with
      | nil => rfl
      | cons hi more =>
        cases more with
        | nil => rfl
        | cons lo more =>
          simp [CutNumber, numberOf, ofBe_two]
    · by_cases fe : first = 0xFE
      · subst fe
        by_cases enough : 4 ≤ more.length
        · have whole : ¬ CutNumber (0xFE :: more) := by
            rintro (⟨_, short⟩ | ⟨other, _⟩)
            · rw [length_cons] at short
              omega
            · exact absurd (Option.some.inj other) (by decide)
          rw [if_neg whole]
          simp [numberOf, enough]
        · have cut : CutNumber (0xFE :: more) :=
            .inl ⟨rfl, by rw [length_cons]; omega⟩
          rw [if_pos cut]
          simp [enough]
      · by_cases ff : first = 0xFF
        · subst ff
          by_cases enough : 8 ≤ more.length
          · have whole : ¬ CutNumber (0xFF :: more) := by
              rintro (⟨other, _⟩ | ⟨_, short⟩)
              · exact absurd (Option.some.inj other) (by decide)
              · rw [length_cons] at short
                omega
            rw [if_neg whole]
            simp [numberOf, enough]
          · have cut : CutNumber (0xFF :: more) :=
              .inr ⟨rfl, by rw [length_cons]; omega⟩
            rw [if_pos cut]
            simp [enough]
        · have whole : ¬ CutNumber (first :: more) := by
            simp [CutNumber, fe, ff]
          rw [if_neg whole]
          simp [numberOf, fd, fe, ff]

theorem numberOf_of_cut (cut : CutNumber b) : numberOf b = none := by
  cases b with
  | nil => rfl
  | cons first more =>
    rcases cut with ⟨head, short⟩ | ⟨head, short⟩ <;>
      (rw [List.head?_cons, Option.some.injEq] at head
       rw [length_cons] at short
       subst head)
    · have few : ¬ 4 ≤ more.length := by omega
      simp [numberOf, few]
    · have few : ¬ 8 ≤ more.length := by omega
      simp [numberOf, few]

theorem headerOf_of_cut (cut : CutHeader b) : headerOf b = none := by
  unfold headerOf
  rcases cut with cut | ⟨typ, first, cut⟩
  · rw [numberOf_of_cut cut]
    rfl
  · rw [first, bind_eq_bind, bind_some, numberOf_of_cut cut]
    rfl

/-- A header is read from the bytes at its position. -/
theorem readTlvHeader_eq (fits : b.length < 2 ^ 63) (pos : Nat) :
    readTlvHeader b pos = readHeader (b.drop pos) := by
  unfold readTlvHeader readHeader
  split
  · next beyond =>
    rw [drop_eq_nil_iff.mpr beyond]
    rfl
  · next inside =>
    rw [readVarnumber_eq fits]
    unfold readNumber
    by_cases cut : CutNumber (b.drop pos)
    · rw [if_pos cut, if_pos (show CutHeader (b.drop pos) from .inl cut)]
      rfl
    · rw [if_neg cut]
      cases first : numberOf (b.drop pos) with
      | none =>
        have whole : ¬ CutHeader (b.drop pos) := by
          rintro (cut' | ⟨_, found, _⟩)
          · exact cut cut'
          · rw [first] at found
            cases found
        rw [if_neg whole]
        unfold headerOf
        rw [first]
        rfl
      | some typ =>
        rcases numberOf_spec first with ⟨_, small, within, _⟩
        rw [length_drop] at within
        rw [okOr_some, ok_bind, u64_ok (by omega), ok_bind,
          readVarnumber_eq fits, ← drop_drop]
        unfold readNumber
        by_cases cut' : CutNumber ((b.drop pos).drop typ.2)
        · rw [if_pos cut', if_pos (show CutHeader (b.drop pos) from .inr ⟨typ, first, cut'⟩)]
          rfl
        · have whole : ¬ CutHeader (b.drop pos) := by
            rintro (here | ⟨_, found, there⟩)
            · exact cut here
            · rw [first] at found
              cases found
              exact cut' there
          rw [if_neg cut', if_neg whole]
          unfold headerOf
          rw [first, bind_eq_bind, bind_some]
          cases second : numberOf ((b.drop pos).drop typ.2) with
          | none => rfl
          | some len =>
            rcases numberOf_spec second with ⟨_, small', _, _⟩
            rw [okOr_some, ok_bind, u64_ok (by omega)]
            rfl

/-! ### Walks -/

open Tiling

abbrev tlvs (b : Bytes) : List (Nat × Bytes) := (split headerOf b).1

/-- What follows the last whole TLV. -/
abbrev afterTlvs (b : Bytes) : Bytes := (split headerOf b).2

section Walk

variable {S : Type} (w : Walker) (field : S → Nat → Bytes → Read S)

/-- What a walk over `length` bytes does with the bytes that begin with no whole TLV. -/
def ending (length : Nat) (rest : Bytes) (state : S) : Read S :=
  if rest = [] then .ok state
  else if CutHeader rest then .panic
  else
    match headerOf rest with
    | none => if w.breaks then .ok state else .err .malformed
    | some (_, len, width) =>
      if w.checks && length - rest.length + width + len < 2 ^ 64 then .err .malformed else .panic

theorem not_whole_of_none (absent : headerOf b = none) (typ len width : Nat) :
    ¬ Whole headerOf b typ len width := by
  rintro ⟨found, _⟩
  rw [absent] at found
  cases found

/-- What a walk over `length` bytes does with TLVs and the bytes after them. -/
def through (length : Nat) (state : S) (parts : List (Nat × Bytes) × Bytes) : Read S :=
  parts.1.foldlM (fun state tlv => field state tlv.1 tlv.2) state >>= ending w length parts.2

theorem walk_eq (fits : b.length < 2 ^ 63) {fuel pos : Nat}
    (enough : b.length - pos < fuel) (state : S) :
    walk w field b fuel pos state = through w field b.length state
    (split headerOf (b.drop pos)) := by
  induction fuel generalizing pos state with
  | zero => omega
  | succ fuel ih =>
    unfold walk
    split
    · next inside =>
      rw [readTlvHeader_eq fits]
      have length : (b.drop pos).length = b.length - pos := length_drop
      have nonempty : b.drop pos ≠ [] := by
        rw [Ne, ← length_eq_zero_iff]
        omega
      unfold readHeader
      by_cases cut : CutHeader (b.drop pos)
      · rw [if_pos cut, split_of_none (not_whole_of_none (headerOf_of_cut cut))]
        unfold through ending
        rw [foldlM_nil, pure_eq, ok_bind, if_neg nonempty, if_pos cut]
      · rw [if_neg cut]
        cases header : headerOf (b.drop pos) with
        | none =>
          rw [split_of_none (not_whole_of_none header)]
          unfold through ending
          rw [foldlM_nil, pure_eq, ok_bind, if_neg nonempty,
            if_neg cut, header]
          rfl
        | some found =>
          rcases found with ⟨typ, len, width⟩
          rcases headerOf_spec header with ⟨positive, within, _⟩
          rw [okOr_some]
          dsimp only
          rw [u64_ok (by omega), ok_bind]
          by_cases whole : width + len ≤ (b.drop pos).length
          · have value : slice b (pos + width) (pos + width + len) =
                .ok (((b.drop pos).drop width).take len) := by
              unfold slice
              rw [if_pos (by omega), drop_take, drop_drop]
              congr 2
              omega
            have checked : (w.checks && decide (pos + width + len > b.length)) = false := by
              rw [decide_eq_false (by omega), Bool.and_false]
            rw [u64_ok (by omega), ok_bind, checked, if_neg Bool.false_ne_true, value,
              ok_bind, split_of_whole ⟨header, positive, whole⟩]
            unfold through
            rw [foldlM_cons]
            cases field state typ (((b.drop pos).drop width).take len) with
            | ok next =>
              rw [ok_bind, ok_bind, ih (by omega), drop_drop]
              unfold through
              rw [Nat.add_assoc]
            | err why => rfl
            | panic => rfl
          · have none : ∀ typ len width, ¬ Whole headerOf (b.drop pos) typ len width := by
              rintro typ' len' width' ⟨found, _, inside'⟩
              rw [header, Option.some.injEq, Prod.mk.injEq, Prod.mk.injEq] at found
              rcases found with ⟨_, rfl, rfl⟩
              exact whole inside'
            rw [split_of_none none]
            unfold through ending
            rw [foldlM_nil, pure_eq, ok_bind, if_neg nonempty,
              if_neg cut, header]
            dsimp only
            rw [show b.length - (b.drop pos).length = pos by omega]
            unfold u64
            split
            · next small =>
              have beyond : slice b (pos + width) (pos + width + len) = .panic := by
                unfold slice
                rw [if_neg (by omega)]
              rw [ok_bind, decide_eq_true (by omega), beyond, panic_bind,
                decide_eq_true small]
            · next large =>
              rw [decide_eq_false large, Bool.and_false, if_neg Bool.false_ne_true]
              rfl
    · next beyond =>
      have empty : b.drop pos = [] := drop_eq_nil_iff.mpr (Nat.not_lt.mp beyond)
      rw [empty, split_of_none (not_whole_of_none rfl)]
      rfl

theorem walkAll_eq (fits : b.length < 2 ^ 63) (state : S) :
    walkAll w field b state = through w field b.length state (split headerOf b) := by
  unfold walkAll
  rw [walk_eq w field fits (by omega), drop_zero]

end Walk

/-- Bytes that begin with no whole TLV, and that a walk gets to the end on: no number is cut short,
and there is no header with a value beyond the end, or the walk checks for it. -/
def Harmless (w : Walker) (length : Nat) (rest : Bytes) : Prop :=
  ¬ CutHeader rest ∧ ∀ header ∈ headerOf rest,
    w.checks = true ∧ length - rest.length + header.2.2 + header.2.1 < 2 ^ 64

instance (w : Walker) (length : Nat) (rest : Bytes) : Decidable (Harmless w length rest) := by
  unfold Harmless
  infer_instance

theorem ending_panics {rest : Bytes} {state : S} :
    ending w length rest state = .panic ↔ ¬ Harmless w length rest := by
  unfold ending Harmless
  split
  · next empty =>
    subst empty
    refine iff_of_false nofun (not_not.mpr ⟨?_, nofun⟩)
    rintro ((⟨head, _⟩ | ⟨head, _⟩) | ⟨_, found, _⟩)
    · cases head
    · cases head
    · cases found
  · split
    · next cut => exact iff_of_true rfl (fun harmless => harmless.1 cut)
    · next whole =>
      cases header : headerOf rest with
      | none =>
        refine iff_of_false ?_ (not_not.mpr ⟨whole, nofun⟩)
        dsimp only
        split <;> nofun
      | some found =>
        rcases found with ⟨typ, len, width⟩
        dsimp only
        split
        · next bounded =>
          rw [Bool.and_eq_true, decide_eq_true_eq] at bounded
          refine iff_of_false nofun (not_not.mpr ⟨whole, ?_⟩)
          rintro _ ⟨⟩
          exact bounded
        · next unbounded =>
          refine iff_of_true rfl ?_
          rintro ⟨_, all⟩
          have bounded := all _ rfl
          exact unbounded (by simp only [bounded.1, bounded.2, decide_true, Bool.and_true])

theorem ending_ne_unfinished {rest : Bytes} {state : S} :
    ending w length rest state ≠ .err .unfinished := by
  unfold ending
  split
  · nofun
  · split
    · nofun
    · split
      · split <;> nofun
      · split <;> nofun

/-- A walk that does not go on without a header ends well at the end only. -/
theorem ending_ok (stays : w.breaks = false) {rest : Bytes}
    {state result : S} : ending w length rest state = .ok result ↔ rest = [] ∧ state = result := by
  unfold ending
  split
  · next empty => simp [empty]
  · next nonempty =>
    refine iff_of_false ?_ (fun both => nonempty both.1)
    split
    · nofun
    · split
      · rw [stays]
        nofun
      · split <;> nofun

theorem fold_ne_unfinished {field : S → Nat → Bytes → Read S}
    {fields : List (Nat × Bytes)} {state : S}
    (never : ∀ state, ∀ tlv ∈ fields, field state tlv.1 tlv.2 ≠ .err .unfinished) :
    fields.foldlM (fun state tlv => field state tlv.1 tlv.2) state ≠ .err .unfinished := by
  induction fields generalizing state with
  | nil => nofun
  | cons tlv more ih =>
    rw [foldlM_cons]
    cases read : field state tlv.1 tlv.2 with
    | ok next => exact ih fun state other among => never state other (mem_cons_of_mem _ among)
    | err why =>
      rintro ⟨⟩
      exact never state tlv mem_cons_self read
    | panic => nofun

theorem fold_keeps {S : Type} {field : S → Nat → Bytes → Read S} {holds : S → Prop}
    {fields : List (Nat × Bytes)}
    (keeps : ∀ state, ∀ tlv ∈ fields, holds state → ∀ next, field state tlv.1 tlv.2 = .ok next →
      holds next) {state result : S} (first : holds state)
    (read : fields.foldlM (fun state tlv => field state tlv.1 tlv.2) state = .ok result) :
    holds result := by
  induction fields generalizing state with
  | nil =>
    cases read
    exact first
  | cons tlv more ih =>
    rw [foldlM_cons] at read
    rcases bind_eq_ok.mp read with ⟨next, here, later⟩
    exact ih (fun state other among => keeps state other (mem_cons_of_mem _ among))
      (keeps state tlv mem_cons_self first next here) later

/-- A walk comes to its end where its fields do. -/
theorem through_ne_unfinished {field : S → Nat → Bytes → Read S} {state : S}
    {parts : List (Nat × Bytes) × Bytes}
    (never : ∀ state, ∀ tlv ∈ parts.1, field state tlv.1 tlv.2 ≠ .err .unfinished) :
    through w field length state parts ≠ .err .unfinished := by
  unfold through
  cases read : parts.1.foldlM (fun state tlv => field state tlv.1 tlv.2) state with
  | ok result => exact ending_ne_unfinished
  | err why =>
    rintro ⟨⟩
    exact fold_ne_unfinished never read
  | panic => nofun

/-! ### Names -/

section Names

variable (fromStr : List Char → Option Name)

def componentsOf (tlvs : List (Nat × Bytes)) : List NameComponent :=
  tlvs.map fun tlv => ⟨tlv.1, tlv.2⟩

/-- The value of a TLV at the start of the bytes, or what there is of it. -/
def valueOf (b : Bytes) (header : Nat × Nat × Nat) : Bytes := (b.drop header.2.2).take header.2.1

/-- A name field that the decoder gets through: its numbers are whole, the name is inside the
field, and the components are inside the name. -/
def NameWhole (b : Bytes) : Prop :=
  b.head? = some 7 → ¬ CutHeader b ∧ ∀ header ∈ headerOf b, header.2.2 + header.2.1 ≤ b.length ∧
    Harmless nameWalker (valueOf b header).length (afterTlvs (valueOf b header))

/-- A name field with a name in it. -/
def NameReads (b : Bytes) : Prop :=
  b.head? = some 7 ∧ ∃ header ∈ headerOf b, header.2.2 + header.2.1 ≤ b.length ∧
    afterTlvs (valueOf b header) = [] ∧
      (nameOfComponents fromStr (componentsOf (tlvs (valueOf b header)))).isSome = true

/-- A name whose TLV is inside the field, with its components inside the TLV. -/
def NameInside (b : Bytes) (name : Name) : Prop :=
  ∃ len width, Whole headerOf b 7 len width ∧
    ∃ components, Tiled headerOf ((b.drop width).take len) components [] ∧
      nameOfComponents fromStr (componentsOf components) = some name

instance (b : Bytes) : Decidable (NameWhole b) := by
  unfold NameWhole
  infer_instance

variable {fromStr}

theorem pushed (tlvs : List (Nat × Bytes)) (components : List NameComponent) :
    tlvs.foldlM (fun components tlv =>
      (.ok (components ++ [⟨tlv.1, tlv.2⟩]) : Read (List NameComponent))) components =
        .ok (components ++ componentsOf tlvs) := by
  induction tlvs generalizing components with
  | nil => rw [foldlM_nil, componentsOf, map_nil, append_nil, pure_eq]
  | cons tlv more ih =>
    rw [foldlM_cons, ok_bind, ih, componentsOf, componentsOf, map_cons,
      append_assoc, singleton_append]

theorem decodeName_eq (fits : b.length < 2 ^ 63) :
    decodeName fromStr b =
      if b.head? ≠ some 7 then .err .malformed
      else if CutHeader b then .panic
      else
        match headerOf b with
        | none => .err .malformed
        | some header =>
          if header.2.2 + header.2.1 ≤ b.length then
            ending nameWalker (valueOf b header).length (afterTlvs (valueOf b header))
                (componentsOf (tlvs (valueOf b header))) >>= fun components =>
              .okOr (nameOfComponents fromStr components) .malformed
          else .panic := by
  unfold decodeName
  split
  · rfl
  · rw [readTlvHeader_eq fits, drop_zero]
    unfold readHeader
    split
    · rfl
    · cases header : headerOf b with
      | none => rfl
      | some found =>
        rcases found with ⟨typ, len, width⟩
        rw [okOr_some, ok_bind]
        dsimp only
        split
        · next inside =>
          have value : slice b width (width + len) = .ok (valueOf b (typ, len, width)) := by
            unfold slice valueOf
            rw [if_pos ⟨by omega, inside⟩, drop_take, Nat.add_sub_cancel_left]
          have shorter : (valueOf b (typ, len, width)).length < 2 ^ 63 := by
            unfold valueOf
            rw [length_take, length_drop]
            omega
          rw [u64_ok (by omega), ok_bind, value, ok_bind, walkAll_eq _ _ shorter]
          unfold through
          rw [pushed, ok_bind, nil_append]
        · next outside =>
          unfold u64
          split
          · have beyond : slice b width (width + len) = .panic := by
              unfold slice
              rw [if_neg (fun inside => outside inside.2)]
            rw [ok_bind, beyond]
            rfl
          · rfl

theorem decodeName_panics {b : Bytes} (fits : b.length < 2 ^ 63) :
    decodeName fromStr b = .panic ↔ ¬ NameWhole b := by
  rw [decodeName_eq fits]
  unfold NameWhole
  split
  · next other => exact iff_of_false nofun (not_not.mpr fun name => absurd name other)
  · next name =>
    have name := not_not.mp name
    split
    · next cut => exact iff_of_true rfl (fun whole => (whole name).1 cut)
    · next whole =>
      cases header : headerOf b with
      | none => exact iff_of_false nofun (not_not.mpr fun _ => ⟨whole, nofun⟩)
      | some found =>
        dsimp only
        split
        · next inside =>
          rw [bind_eq_panic, ending_panics]
          constructor
          · rintro (harms | ⟨_, _, never⟩) all
            · exact harms ((all name).2 found rfl).2
            · exact okOr_ne_panic _ _ never
          · intro notAll
            refine .inl fun harmless => notAll fun _ => ⟨whole, ?_⟩
            rintro _ ⟨⟩
            exact ⟨inside, harmless⟩
        · next outside =>
          exact iff_of_true rfl fun all => outside ((all name).2 found rfl).1

theorem decodeName_ne_unfinished (fits : b.length < 2 ^ 63) :
    decodeName fromStr b ≠ .err .unfinished := by
  rw [decodeName_eq fits]
  split
  · nofun
  · split
    · nofun
    · split
      · nofun
      · split
        · intro unfinished
          cases last : ending nameWalker (valueOf b _).length (afterTlvs (valueOf b _))
            (componentsOf (tlvs (valueOf b _))) with
          | ok components =>
            rw [last, ok_bind] at unfinished
            cases found : nameOfComponents fromStr components with
            | none =>
              rw [found] at unfinished
              cases unfinished
            | some name =>
              rw [found] at unfinished
              cases unfinished
          | err why =>
            rw [last] at unfinished
            cases unfinished
            exact ending_ne_unfinished last
          | panic =>
            rw [last] at unfinished
            cases unfinished
        · nofun

theorem decodeName_ok (fits : b.length < 2 ^ 63) {name : Name}
    (decoded : decodeName fromStr b = .ok name) :
    NameReads fromStr b ∧ NameInside fromStr b name := by
  rw [decodeName_eq fits] at decoded
  split at decoded
  · cases decoded
  · next isName =>
    have isName := not_not.mp isName
    split at decoded
    · cases decoded
    · split at decoded
      · cases decoded
      · next header found =>
        split at decoded
        · next inside =>
          rcases bind_eq_ok.mp decoded with ⟨components, ended, named⟩
          rcases (ending_ok rfl).mp ended with ⟨last, rfl⟩
          have known : nameOfComponents fromStr
              (componentsOf (tlvs (valueOf b header))) = some name := by
            cases read : nameOfComponents fromStr
                (componentsOf (tlvs (valueOf b header))) with
            | none =>
              rw [read] at named
              cases named
            | some other =>
              rw [read] at named
              cases named
              rfl
          have seven := headerOf_typ isName found
          refine ⟨⟨isName, header, found, inside, last, by rw [known]; rfl⟩,
            header.2.1, header.2.2, ⟨?_, ?_, inside⟩, tlvs (valueOf b header), ?_, known⟩
          · rw [← seven]
            exact found
          · exact (headerOf_spec found).1
          · have tiled : Tiled headerOf (valueOf b header) _ _ := tiled_split _
            rw [show (split headerOf (valueOf b header)).2 = [] from last] at tiled
            exact tiled
        · cases decoded

theorem decodeName_of_reads (fits : b.length < 2 ^ 63) (reads : NameReads fromStr b) :
    ∃ name, decodeName fromStr b = .ok name := by
  rcases reads with ⟨seven, header, found, inside, last, named⟩
  rcases isSome_iff_exists.mp named with ⟨name, named⟩
  have whole : ¬ CutHeader b := by
    intro cut
    rw [headerOf_of_cut cut] at found
    cases found
  refine ⟨name, ?_⟩
  rw [decodeName_eq fits, if_neg (not_not.mpr seven), if_neg whole,
    show headerOf b = some header from found]
  dsimp only
  rw [if_pos inside, (ending_ok rfl).mpr ⟨last, rfl⟩, ok_bind, named]
  rfl

end Names

end NdnExt.Discovery
