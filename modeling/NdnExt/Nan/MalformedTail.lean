import NdnExt.Nan.DataPath

/-! What is read of a buffer whose attributes are followed by something else. -/

namespace NdnExt.Nan

open NdnExt.Lib

/-- A buffer as the attributes it begins with and what is left. -/
structure Split where
  attrs : List Attribute
  rest : Bytes

def Split.whole (split : Split) : Bytes := split.attrs.flatMap Attribute.encode

/-- The attributes are the longest sequence of complete ones that the buffer begins with. -/
structure Split.Of (split : Split) (buf : Bytes) : Prop where
  same : buf = split.whole ++ split.rest
  fits : ∀ attr ∈ split.attrs, attr.Fits
  longest : ∀ (attr : Attribute) (more : Bytes), attr.Fits → split.rest ≠ attr.encode ++ more

/-- The complete attributes are read, then one error if bytes are left, then nothing. -/
def StopsAtFirst (buf : Bytes) (split : Split) : Prop :=
  Attributes.items buf =
    split.attrs.map .ok ++ if split.rest = [] then [] else [.error .truncated]

/-- Nothing is done with what comes after the complete attributes. -/
def ActsOnWhole (buf : Bytes) (split : Split) : Prop :=
  (∀ which, Attributes.find buf which = split.attrs.find? (·.is which)) ∧
    (∀ (engine : NanEngine) (rx : RxFrame) (step : Step),
      engine.handleSdf rx buf step = engine.handleSdf rx split.whole step) ∧
    ∀ (engine : NanEngine) (rx : RxFrame) (subtype : UInt8) (step : Step),
      engine.handleNaf rx subtype buf step = engine.handleNaf rx subtype split.whole step

/-! ### The longest sequence -/

/-- An attribute whose body is not all there. -/
inductive Incomplete : Bytes → Prop where
  | header {b : UInt8} {tail : Bytes} (short : tail.length < 2) : Incomplete (b :: tail)
  | body {b : UInt8} {size tail : Bytes} (two : size.length = 2) (short : tail.length < ofLe size) :
      Incomplete (b :: (size ++ tail))

theorem Attribute.encode_of_size {b : UInt8} {size body : Bytes} (two : size.length = 2)
    (same : body.length = ofLe size) :
    (Attribute.mk b body).encode = b :: (size ++ body) ∧ (Attribute.mk b body).Fits := by
  have fits : ofLe size < 2 ^ 16 := by
    have bound := ofLe_lt size
    rw [two] at bound
    exact bound
  have written : putLe16 (UInt16.ofNat body.length) = size := by
    rw [putLe16, same, UInt16.toNat_ofNat_of_lt' fits, ← two]
    exact leBytes_ofLe size
  constructor
  · rw [Attribute.encode, written]
  · rw [Attribute.Fits, same]
    exact fits

/-- Bytes are none, a complete attribute and more, or begin with one that is not complete. -/
theorem attribute_cases (buf : Bytes) : buf = [] ∨
    (∃ (attr : Attribute) (more : Bytes), attr.Fits ∧ buf = attr.encode ++ more) ∨
      Incomplete buf := by
  cases buf with
  | nil => exact Or.inl rfl
  | cons b tail =>
    right
    rcases Nat.lt_or_ge tail.length 2 with short | enough
    · exact Or.inr (.header short)
    · have two : (tail.take 2).length = 2 := by
        rw [List.length_take]
        omega
      rcases Nat.lt_or_ge (tail.drop 2).length (ofLe (tail.take 2)) with short | all
      · right
        have incomplete := @Incomplete.body b _ _ two short
        rwa [List.take_append_drop] at incomplete
      · left
        have same : ((tail.drop 2).take (ofLe (tail.take 2))).length = ofLe (tail.take 2) := by
          rw [List.length_take]
          omega
        obtain ⟨written, fits⟩ := @Attribute.encode_of_size b _ _ two same
        refine ⟨_, (tail.drop 2).drop (ofLe (tail.take 2)), fits, ?_⟩
        rw [written, List.cons_append, List.append_assoc, List.take_append_drop,
          List.take_append_drop]

theorem Incomplete.not_encode {buf : Bytes} (incomplete : Incomplete buf) {attr : Attribute}
    {more : Bytes} (fits : attr.Fits) : buf ≠ attr.encode ++ more := by
  intro same
  have size : (putLe16 (UInt16.ofNat attr.body.length)).length = 2 := length_putLe16 _
  have value : ofLe (putLe16 (UInt16.ofNat attr.body.length)) = attr.body.length := by
    rw [putLe16, UInt16.toNat_ofNat_of_lt' fits]
    exact ofLe_leBytes fits
  rw [Attribute.encode, List.cons_append] at same
  cases incomplete with
  | header short =>
    obtain ⟨_, rfl⟩ := List.cons.inj same
    simp at short
    omega
  | body two short =>
    obtain ⟨_, whole⟩ := List.cons.inj same
    rw [List.append_assoc] at whole
    obtain ⟨rfl, rfl⟩ := List.append_inj whole (two.trans size.symm)
    rw [value, List.length_append] at short
    omega

namespace Split

theorem exists_of (buf : Bytes) : ∃ split : Split, split.Of buf := by
  induction length : buf.length using Nat.strongRecOn generalizing buf with
  | ind n ih =>
    rcases attribute_cases buf with rfl | ⟨attr, more, fits, rfl⟩ | incomplete
    · exact ⟨⟨[], []⟩, rfl, List.forall_mem_nil _, fun attr more _ impossible => by
        cases impossible⟩
    · have shorter : more.length < n := by
        rw [← length, Attribute.encode, List.length_append, List.length_cons]
        omega
      obtain ⟨split, of⟩ := ih more.length shorter more rfl
      refine ⟨⟨attr :: split.attrs, split.rest⟩, ?_, ?_, of.longest⟩
      · rw [whole, List.flatMap_cons, List.append_assoc, ← whole, ← of.same]
      · exact List.forall_mem_cons.mpr ⟨fits, of.fits⟩
    · exact ⟨⟨[], buf⟩, rfl, List.forall_mem_nil _, fun attr more fits =>
        incomplete.not_encode fits⟩

theorem Of.unique {buf : Bytes} {split other : Split} (of : split.Of buf) (of' : other.Of buf) :
    split = other := by
  obtain ⟨attrs, rest⟩ := split
  obtain ⟨attrs', rest'⟩ := other
  induction attrs generalizing buf attrs' with
  | nil =>
    cases attrs' with
    | nil =>
      have same := of.same.symm.trans of'.same
      simp only [whole, List.flatMap_nil, List.nil_append] at same
      rw [same]
    | cons attr later =>
      have same := of.same.symm.trans of'.same
      simp only [whole, List.flatMap_nil, List.nil_append, List.flatMap_cons,
        List.append_assoc] at same
      exact absurd same (of.longest attr _ (of'.fits attr List.mem_cons_self))
  | cons attr later ih =>
    have same := of.same.symm.trans of'.same
    cases attrs' with
    | nil =>
      simp only [whole, List.flatMap_nil, List.nil_append, List.flatMap_cons,
        List.append_assoc] at same
      exact absurd same.symm (of'.longest attr _ (of.fits attr List.mem_cons_self))
    | cons attr' later' =>
      simp only [whole, List.flatMap_cons, List.append_assoc] at same
      obtain ⟨fits, laterFit⟩ := List.forall_mem_cons.mp of.fits
      obtain ⟨fits', laterFit'⟩ := List.forall_mem_cons.mp of'.fits
      have read := Attributes.next_encode fits (later.flatMap Attribute.encode ++ rest)
      rw [same, Attributes.next_encode fits'] at read
      obtain ⟨⟨⟩, more⟩ := Prod.mk.inj read
      have equal := ih ⟨rfl, laterFit, of.longest⟩ later'
        ⟨more.symm, laterFit', of'.longest⟩
      cases equal
      rfl

end Split

/-! ### What is read -/

/-- Reading goes on after the header of an attribute that is not complete. -/
theorem items_incomplete {buf : Bytes} (incomplete : Incomplete buf) :
    ∃ tail, Attributes.items buf = .error .truncated :: Attributes.items tail ∧
      (tail = [] ↔ buf.length = 1 ∨ buf.length = 3) := by
  cases incomplete with
  | @header b tail short =>
    have next : Attributes.next (b :: tail) = (.error .truncated, tail) := by
      simp [Attributes.next, Reader.le16, Reader.take, short]
    refine ⟨tail, by rw [Attributes.items, next], ?_⟩
    rw [List.length_cons, ← List.length_eq_zero_iff]
    omega
  | @body b size tail two short =>
    have next : Attributes.next (b :: (size ++ tail)) = (.error .truncated, tail) := by
      have fits : ofLe size < 2 ^ 16 := by
        have bound := ofLe_lt size
        rw [two] at bound
        exact bound
      have length : (UInt16.ofNat (ofLe size)).toNat = ofLe size :=
        UInt16.toNat_ofNat_of_lt' fits
      have cut : Reader.take (ofLe size) tail = (.error .truncated, tail) := by
        simp [Reader.take, short]
      simp [Attributes.next, Reader.le16, Reader.take_append two, length, cut]
    refine ⟨tail, by rw [Attributes.items, next], ?_⟩
    rw [List.length_cons, List.length_append, two, ← List.length_eq_zero_iff]
    omega

theorem items_whole {attrs : List Attribute} (fits : ∀ attr ∈ attrs, attr.Fits) (rest : Bytes) :
    Attributes.items (attrs.flatMap Attribute.encode ++ rest) =
      attrs.map .ok ++ Attributes.items rest := by
  induction attrs with
  | nil => simp
  | cons attr later ih =>
    obtain ⟨fit, laterFit⟩ := List.forall_mem_cons.mp fits
    rw [List.flatMap_cons, List.append_assoc, Attributes.items_encode fit, ih laterFit,
      List.map_cons, List.cons_append]

section Reading

variable {buf : Bytes} {split : Split}

theorem Split.Of.incomplete (of : split.Of buf) (left : split.rest ≠ []) :
    Incomplete split.rest := by
  rcases attribute_cases split.rest with none' | ⟨attr, more, fits, same⟩ | incomplete
  · exact absurd none' left
  · exact absurd same (of.longest attr more fits)
  · exact incomplete

theorem stopsAtFirst_iff_left (of : split.Of buf) :
    StopsAtFirst buf split ↔ split.rest.length ∈ [0, 1, 3] := by
  have read : Attributes.items buf = split.attrs.map .ok ++ Attributes.items split.rest := by
    rw [of.same]
    exact items_whole of.fits split.rest
  unfold StopsAtFirst
  rw [read]
  by_cases none' : split.rest = []
  · rw [none']
    simp [Attributes.items]
  · obtain ⟨tail, items, ended⟩ := items_incomplete (of.incomplete none')
    have positive : split.rest.length ≠ 0 := fun zero => none' (List.length_eq_zero_iff.mp zero)
    rw [if_neg none', items]
    constructor
    · intro same
      have nothing : Attributes.items tail = [] := (List.cons.inj (List.append_cancel_left same)).2
      have tailNil : tail = [] := by
        cases tail with
        | nil => rfl
        | cons b more =>
          rw [Attributes.items] at nothing
          cases nothing
      rcases ended.mp tailNil with one | three
      · simp [one]
      · simp [three]
    · intro among
      have tailNil : tail = [] := by
        apply ended.mpr
        simpa [positive] using among
      rw [tailNil, Attributes.items]

/-- A reading that stops is used for the complete attributes alone. -/
theorem StopsAtFirst.acts (of : split.Of buf) (stops : StopsAtFirst buf split) :
    ActsOnWhole buf split := by
  have complete : Attributes.flatten split.whole = split.attrs := Attributes.flatten_flatMap of.fits
  have flat : Attributes.flatten buf = split.attrs := by
    rw [Attributes.flatten, stops, List.filterMap_append, List.filterMap_map]
    by_cases left : split.rest = []
    · rw [if_pos left, List.filterMap_nil, List.append_nil]
      exact List.filterMap_some
    · rw [if_neg left]
      change _ ++ [] = _
      rw [List.append_nil]
      exact List.filterMap_some
  have found (which : AttributeId) :
      Attributes.find buf which = Attributes.find split.whole which := by
    rw [Attributes.find, Attributes.find, flat, complete]
  refine ⟨?_, ?_, ?_⟩
  · intro which
    rw [Attributes.find, flat]
  · intro engine rx step
    unfold NanEngine.handleSdf NanEngine.descriptors
    rw [flat, complete]
  · intro engine rx subtype step
    unfold NanEngine.handleNaf
    rw [found]

end Reading

theorem stops_at_first_iff (buf : Bytes) : (∃! split : Split, split.Of buf) ∧
    ∀ split : Split, split.Of buf →
      (StopsAtFirst buf split ∧ ActsOnWhole buf split ↔ split.rest.length ∈ [0, 1, 3]) := by
  constructor
  · obtain ⟨split, of⟩ := Split.exists_of buf
    exact ⟨split, of, fun other of' => of'.unique of⟩
  · intro split of
    rw [← stopsAtFirst_iff_left of]
    exact ⟨And.left, fun stops => ⟨stops, stops.acts of⟩⟩

namespace Overlong

/-- A vendor's attribute that says it is longer than the buffer; its body reads as a Cluster. -/
def buf : Bytes := [0xdd, 0xff, 0xff, 0x01, 0x01, 0x00, 0x07]

def split : Split := ⟨[], buf⟩

theorem split_of : split.Of buf := by
  refine ⟨rfl, List.forall_mem_nil _, ?_⟩
  intro attr more fits
  have incomplete := @Incomplete.body 0xdd [0xff, 0xff] [0x01, 0x01, 0x00, 0x07] rfl (by decide)
  exact incomplete.not_encode fits

theorem inner_attribute_read : ¬∀ (buf : Bytes) (split : Split), split.Of buf →
    StopsAtFirst buf split ∧ ActsOnWhole buf split := by
  intro always
  have found := (always buf split split_of).2.1 .cluster
  have read : Attributes.find buf .cluster = some ⟨0x01, [0x07]⟩ := by decide +kernel
  rw [read] at found
  cases found

end Overlong

namespace Trailing

/-- A complete attribute and a byte. -/
def split : Split := ⟨[⟨0x0e, [1, 0, 0]⟩], [0xdd]⟩

theorem one_byte_stops : StopsAtFirst (split.whole ++ [0xdd]) split ∧
    ActsOnWhole (split.whole ++ [0xdd]) split := by
  refine ((stops_at_first_iff _).2 split ⟨rfl, ?_, ?_⟩).mpr (by decide)
  · intro attr among
    rw [List.mem_singleton.mp among]
    exact (by decide : 3 < 2 ^ 16)
  · intro attr more fits
    exact (Incomplete.header (by decide)).not_encode fits

end Trailing

end NdnExt.Nan
