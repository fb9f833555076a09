import NdnExt.Link.Messages

/-! The codecs of the link's messages invert, and tolerate the fields that may be ignored. -/

namespace NdnExt.Link.Messages

open NdnExt.Lib NdnExt.SplitTlv Outcome

/-! ### Fields that are not known -/

theorem not_mem_pair {t first second : Nat} (unrecognized : t ∉ [first, second]) :
    t ≠ first ∧ t ≠ second := by
  simpa using unrecognized

section Unknown

variable {S : Type} {field : S → Nat → Bytes → Bytes → Outcome String S} {known : List Nat}
  {padded : Nat → Bytes → Bytes → Prop} {spoiled : Nat → Bytes → Prop} {place : String}

theorem unknown_refuses (state : S) {t : Nat} (critical : skippable t = false) :
    ∃ error, unknown state t place = .err error := by
  unfold unknown
  rw [critical]
  exact ⟨_, rfl⟩

theorem unknown_ne_panic (state : S) (t : Nat) : unknown state t place ≠ .panic := by
  unfold unknown
  split <;> simp

/-- The rules of a message that leaves the types it does not know to `unknown`. -/
theorem rules_of_unknown
    (others : ∀ state typ wire value, typ ∉ known →
      field state typ wire value = unknown state typ place)
    (padded' : ∀ state typ wire value wire' value', padded typ value value' →
      field state typ wire' value' = field state typ wire value)
    (spoiled' : ∀ state typ wire value, spoiled typ value →
      ∃ error, field state typ wire value = .err error)
    (inBounds : ∀ state typ wire value, field state typ wire value ≠ .panic) :
    FieldRules known padded spoiled field where
  skips state typ wire value unrecognized skips :=
    (others state typ wire value unrecognized).trans (if_pos skips)
  refuses state typ wire value unrecognized critical := by
    rw [others state typ wire value unrecognized]
    exact unknown_refuses state critical
  padded := padded'
  spoiled := spoiled'
  inBounds := inBounds

/-- The rules of a message without messages in its fields. -/
theorem rules_of_flat
    (others : ∀ state typ wire value, typ ∉ known →
      field state typ wire value = unknown state typ place)
    (inBounds : ∀ state typ wire value, field state typ wire value ≠ .panic) :
    FieldRules known (fun _ _ _ => False) (fun _ _ => False) field := by
  apply rules_of_unknown others
  · intro _ _ _ _ _ _ impossible
    exact impossible.elim
  · intro _ _ _ _ impossible
    exact impossible.elim
  · exact inBounds

end Unknown

theorem mapErr_ne_panic {A : Type} {outcome : Outcome String A} (change : String → String)
    (returns : outcome ≠ .panic) : mapErr outcome change ≠ .panic := by
  cases outcome with
  | ok value => simp [mapErr]
  | err error => simp [mapErr]
  | panic => exact absurd rfl returns

section Codec

variable (codec : MessageCodec)

theorem decodeName_ne_panic (value : Bytes) (what : String) :
    decodeName codec value what ≠ .panic := by
  unfold decodeName
  split <;> simp

/-! ### What each message knows -/

def Membership.known : List Nat := [tlvData, membershipBinding]

/-- A membership with more fields that may be skipped. -/
abbrev Membership.Padded : Bytes → Bytes → Prop :=
  SplitTlv.Padded codec.toTlvNumbers Membership.known fun _ _ _ => False

abbrev Membership.Spoiled : Bytes → Prop :=
  SplitTlv.Spoiled codec.toTlvNumbers Membership.known fun _ _ => False

namespace LinkHello

def known : List Nat := [linkVersion, tlvData, membership, Messages.directPath]

abbrev Padded : Bytes → Bytes → Prop :=
  SplitTlv.Padded codec.toTlvNumbers known fun t value value' =>
    t = membership ∧ Membership.Padded codec value value'

abbrev Spoiled : Bytes → Prop :=
  SplitTlv.Spoiled codec.toTlvNumbers known fun t value =>
    t = membership ∧ Membership.Spoiled codec value

end LinkHello

namespace LinkVerdict

def known : List Nat := [Messages.enrollmentLink]

abbrev Padded : Bytes → Bytes → Prop :=
  SplitTlv.Padded codec.toTlvNumbers known fun _ _ _ => False

abbrev Spoiled : Bytes → Prop := SplitTlv.Spoiled codec.toTlvNumbers known fun _ _ => False

end LinkVerdict

namespace Reachability

def known : List Nat := [holdInterests, Messages.wakeToken]

abbrev Padded : Bytes → Bytes → Prop :=
  SplitTlv.Padded codec.toTlvNumbers known fun _ _ _ => False

abbrev Spoiled : Bytes → Prop := SplitTlv.Spoiled codec.toTlvNumbers known fun _ _ => False

end Reachability

namespace PresentDevice

def known : List Nat := [tlvName, keyDigest]

abbrev Padded : Bytes → Bytes → Prop :=
  SplitTlv.Padded codec.toTlvNumbers known fun _ _ _ => False

abbrev Spoiled : Bytes → Prop := SplitTlv.Spoiled codec.toTlvNumbers known fun _ _ => False

end PresentDevice

namespace Presence

def known : List Nat := [tlvName, presentDevice]

abbrev Padded : Bytes → Bytes → Prop :=
  SplitTlv.Padded codec.toTlvNumbers known fun t value value' =>
    t = presentDevice ∧ PresentDevice.Padded codec value value'

abbrev Spoiled : Bytes → Prop :=
  SplitTlv.Spoiled codec.toTlvNumbers known fun t value =>
    t = presentDevice ∧ PresentDevice.Spoiled codec value

end Presence

namespace Candidate

def known : List Nat := [candidateKind, udpAddress]

abbrev Padded : Bytes → Bytes → Prop :=
  SplitTlv.Padded codec.toTlvNumbers known fun _ _ _ => False

abbrev Spoiled : Bytes → Prop := SplitTlv.Spoiled codec.toTlvNumbers known fun _ _ => False

end Candidate

namespace Refusal

def known : List Nat := [refusalCode, refusalText]

abbrev Padded : Bytes → Bytes → Prop :=
  SplitTlv.Padded codec.toTlvNumbers known fun _ _ _ => False

abbrev Spoiled : Bytes → Prop := SplitTlv.Spoiled codec.toTlvNumbers known fun _ _ => False

end Refusal

namespace PunchMessage

def known : List Nat := [punchKey, candidate, punchRefusal, tlvData, membership]

abbrev Padded : Bytes → Bytes → Prop :=
  SplitTlv.Padded codec.toTlvNumbers known fun t value value' =>
    t = candidate ∧ Candidate.Padded codec value value' ∨
      t = punchRefusal ∧ Refusal.Padded codec value value' ∨
        t = membership ∧ Membership.Padded codec value value'

abbrev Spoiled : Bytes → Prop :=
  SplitTlv.Spoiled codec.toTlvNumbers known fun t value =>
    t = candidate ∧ Candidate.Spoiled codec value ∨
      t = punchRefusal ∧ Refusal.Spoiled codec value ∨
        t = membership ∧ Membership.Spoiled codec value

end PunchMessage

/-! ### How each message reads its fields -/

theorem Membership.rules :
    FieldRules Membership.known (fun _ _ _ => False) (fun _ _ => False) Membership.field := by
  apply rules_of_flat
  · intro state typ wire value unrecognized
    rcases not_mem_pair unrecognized with ⟨notFirst, notSecond⟩
    unfold Membership.field
    rw [if_neg notFirst, if_neg notSecond]
  · intro state typ wire value
    unfold Membership.field
    split
    · simp
    · split
      · split <;> simp
      · exact unknown_ne_panic state typ

theorem Membership.finish_ne_panic (state : Membership.Fields) :
    Membership.finish state ≠ .panic := by
  unfold Membership.finish
  split
  · simp
  · exact bind_ne_panic (okOr_ne_panic _ _) (by simp)

theorem Membership.decode_ne_panic (value : Bytes) : Membership.decode codec value ≠ .panic :=
  decodeFields_ne_panic Membership.rules Membership.finish_ne_panic value

variable {codec} in
theorem Membership.decode_padded {value value' : Bytes}
    (same : Membership.Padded codec value value') :
    Membership.decode codec value' = Membership.decode codec value :=
  decodeFields_padded Membership.rules same

variable {codec} in
theorem Membership.decode_spoiled {value : Bytes} (bad : Membership.Spoiled codec value) :
    ∃ error, Membership.decode codec value = .err error :=
  decodeFields_spoiled Membership.rules bad

theorem LinkHello.rules :
    FieldRules LinkHello.known
      (fun t value value' => t = membership ∧ Membership.Padded codec value value')
      (fun t value => t = membership ∧ Membership.Spoiled codec value) (LinkHello.field codec) := by
  apply rules_of_unknown
  · intro state typ wire value unrecognized
    simp only [LinkHello.known, List.mem_cons, List.not_mem_nil, or_false, not_or] at unrecognized
    rcases unrecognized with ⟨noVersion, noData, noMembership, noPath⟩
    unfold LinkHello.field
    rw [if_neg noVersion, if_neg noData, if_neg noMembership, if_neg noPath]
  · rintro state typ wire value wire' value' ⟨rfl, same⟩
    change (mapErr (Membership.decode codec value') _ >>= _) =
      (mapErr (Membership.decode codec value) _ >>= _)
    rw [Membership.decode_padded same]
  · rintro state typ wire value ⟨rfl, bad⟩
    rcases Membership.decode_spoiled bad with ⟨error, refused⟩
    change ∃ error, (mapErr (Membership.decode codec value) _ >>= _) = _
    rw [refused]
    exact ⟨_, rfl⟩
  · intro state typ wire value
    unfold LinkHello.field
    split
    · split <;> simp
    · split
      · simp
      · split
        · exact bind_ne_panic (mapErr_ne_panic _ (Membership.decode_ne_panic codec value)) (by simp)
        · split
          · exact bind_ne_panic (okOr_ne_panic _ _) (by simp)
          · exact unknown_ne_panic state typ

theorem LinkHello.finish_ne_panic (state : LinkHello.Fields) : LinkHello.finish state ≠ .panic := by
  unfold LinkHello.finish
  split
  · split <;> simp
  · simp

theorem LinkVerdict.namespaces_ne_panic (value : Bytes) :
    eachField (tlvSplitter codec.toTlvNumbers) (LinkVerdict.namespaceField codec) [] value ≠
      .panic := by
  apply eachField_ne_panic
  intro namespaces typ wire value
  unfold LinkVerdict.namespaceField
  split
  · simp
  · exact bind_ne_panic (decodeName_ne_panic codec value _) (by simp)

theorem LinkVerdict.rules :
    FieldRules LinkVerdict.known (fun _ _ _ => False) (fun _ _ => False)
      (LinkVerdict.field codec) := by
  apply rules_of_flat
  · intro verdict typ wire value unrecognized
    unfold LinkVerdict.field
    rw [if_neg (List.ne_of_not_mem_cons unrecognized)]
  · intro verdict typ wire value
    unfold LinkVerdict.field
    split
    · apply bind_ne_panic (LinkVerdict.namespaces_ne_panic codec value)
      intro namespaces
      split <;> simp
    · exact unknown_ne_panic verdict typ

theorem Reachability.rules :
    FieldRules Reachability.known (fun _ _ _ => False) (fun _ _ => False) Reachability.field := by
  apply rules_of_flat
  · intro r typ wire value unrecognized
    rcases not_mem_pair unrecognized with ⟨notFirst, notSecond⟩
    unfold Reachability.field
    rw [if_neg notFirst, if_neg notSecond]
  · intro r typ wire value
    unfold Reachability.field
    split
    · split <;> simp
    · split
      · split <;> simp
      · exact unknown_ne_panic r typ

theorem PresentDevice.rules :
    FieldRules PresentDevice.known (fun _ _ _ => False) (fun _ _ => False)
      (PresentDevice.field codec) := by
  apply rules_of_flat
  · intro state typ wire value unrecognized
    rcases not_mem_pair unrecognized with ⟨notFirst, notSecond⟩
    unfold PresentDevice.field
    rw [if_neg notFirst, if_neg notSecond]
  · intro state typ wire value
    unfold PresentDevice.field
    split
    · exact bind_ne_panic (decodeName_ne_panic codec value _) (by simp)
    · split
      · exact bind_ne_panic (okOr_ne_panic _ _) (by simp)
      · exact unknown_ne_panic state typ

theorem PresentDevice.finish_ne_panic (state : PresentDevice.Fields) :
    PresentDevice.finish state ≠ .panic := by
  unfold PresentDevice.finish
  split <;> simp

theorem Presence.rules :
    FieldRules Presence.known
      (fun t value value' => t = presentDevice ∧ PresentDevice.Padded codec value value')
      (fun t value => t = presentDevice ∧ PresentDevice.Spoiled codec value)
      (Presence.field codec) := by
  apply rules_of_unknown
  · intro state typ wire value unrecognized
    rcases not_mem_pair unrecognized with ⟨notFirst, notSecond⟩
    unfold Presence.field
    rw [if_neg notFirst, if_neg notSecond]
  · rintro state typ wire value wire' value' ⟨rfl, same⟩
    have decoded : PresentDevice.decode codec value' = PresentDevice.decode codec value :=
      decodeFields_padded (PresentDevice.rules codec) same
    change (PresentDevice.decode codec value' >>= _) = (PresentDevice.decode codec value >>= _)
    rw [decoded]
  · rintro state typ wire value ⟨rfl, bad⟩
    have refused : ∃ error, PresentDevice.decode codec value = .err error :=
      decodeFields_spoiled (PresentDevice.rules codec) bad
    rcases refused with ⟨error, refused⟩
    change ∃ error, (PresentDevice.decode codec value >>= _) = _
    rw [refused]
    exact ⟨error, rfl⟩
  · intro state typ wire value
    unfold Presence.field
    split
    · exact bind_ne_panic (decodeName_ne_panic codec value _) (by simp)
    · split
      · exact bind_ne_panic (decodeFields_ne_panic (PresentDevice.rules codec)
          PresentDevice.finish_ne_panic value) (by simp)
      · exact unknown_ne_panic state typ

theorem Presence.finish_ne_panic (state : Presence.Fields) : Presence.finish state ≠ .panic :=
  bind_ne_panic (okOr_ne_panic _ _) (by simp)

/-! ### Addresses -/

theorem index_ok {bytes : Bytes} {i : Nat} (within : i < bytes.length) :
    index bytes i = .ok bytes[i] := by
  unfold index
  rw [List.getElem?_eq_getElem within]
  rfl

theorem portOf_ok {p : Bytes} (two : p.length = 2) :
    portOf p = .ok (UInt16.ofNat (ofBe p)) := by
  rcases List.length_eq_two.mp two with ⟨high, low, rfl⟩
  rfl

theorem array_ok {n : Nat} {bytes : Bytes} (same : bytes.length = n) :
    array n bytes = some ⟨bytes.toArray, same⟩ :=
  dif_pos same

theorem array_toList {n : Nat} (v : Vector UInt8 n) : array n v.toList = some v := by
  rw [array_ok v.length_toList]
  rfl

/-- Four bytes of an address, or sixteen, and two of a port. -/
theorem decodeUdpAddress_short {value : Bytes} (six : value.length = 6) :
    decodeUdpAddress value = .ok (.new (.v4 ⟨#v[value[0], value[1], value[2], value[3]]⟩)
      (UInt16.ofNat (ofBe (value.drop 4)))) := by
  unfold decodeUdpAddress
  rw [if_pos six, index_ok (by omega), ok_bind, index_ok (by omega), ok_bind,
    index_ok (by omega), ok_bind, index_ok (by omega), ok_bind,
    slice_all (by omega), ok_bind, portOf_ok (by rw [List.length_drop]; omega)]
  rfl

theorem decodeUdpAddress_long {value : Bytes} (eighteen : value.length = 18) :
    ∃ front, array 16 (value.take 16) = some front ∧ decodeUdpAddress value =
      .ok (.new (.v6 ⟨front⟩) (UInt16.ofNat (ofBe (value.drop 16)))) := by
  have front := @array_ok 16 (value.take 16) (by rw [List.length_take]; omega)
  refine ⟨_, front, ?_⟩
  unfold decodeUdpAddress
  rw [if_neg (by omega), if_pos eighteen, slice_ok (Nat.zero_le _) (by omega), ok_bind,
    List.drop_zero, front, slice_all (by omega)]
  change portOf (value.drop 16) >>= _ = _
  rw [portOf_ok (by rw [List.length_drop]; omega)]
  rfl

theorem decodeUdpAddress_ne_panic (value : Bytes) : decodeUdpAddress value ≠ .panic := by
  by_cases six : value.length = 6
  · rw [decodeUdpAddress_short six]
    simp
  · by_cases eighteen : value.length = 18
    · rcases decodeUdpAddress_long eighteen with ⟨front, _, decoded⟩
      rw [decoded]
      simp
    · unfold decodeUdpAddress
      rw [if_neg six, if_neg eighteen]
      simp

theorem ofBe_port (port : UInt16) : UInt16.ofNat (ofBe (beBytes 2 port.toNat)) = port := by
  rw [ofBe_beBytes (show port.toNat < 256 ^ 2 from port.toNat_lt), UInt16.ofNat_toNat]

theorem front_four {octets : Vector UInt8 4} {value more : Bytes}
    (is : value = octets.toList ++ more) (six : value.length = 6) :
    #v[value[0], value[1], value[2], value[3]] = octets := by
  subst is
  apply Vector.ext
  intro i within
  have each : i = 0 ∨ i = 1 ∨ i = 2 ∨ i = 3 := by omega
  rcases each with rfl | rfl | rfl | rfl <;> simp

/-- An address is read as it is written: an IPv4 address in IPv6 as IPv4. -/
theorem decode_encodeUdpAddress (addr : SocketAddr) :
    decodeUdpAddress (encodeUdpAddress addr) = .ok addr.canonical := by
  unfold encodeUdpAddress SocketAddr.canonical
  cases addr.ip.toCanonical with
  | v4 ip =>
    have four : ip.octets.toList.length = 4 := ip.octets.length_toList
    have six : (ip.octets.toList ++ beBytes 2 addr.port.toNat).length = 6 := by
      rw [List.length_append, four, length_beBytes]
    change decodeUdpAddress (ip.octets.toList ++ beBytes 2 addr.port.toNat) = _
    rw [decodeUdpAddress_short six, front_four rfl six, List.drop_left' four, ofBe_port]
  | v6 ip =>
    have sixteen : ip.octets.toList.length = 16 := ip.octets.length_toList
    have eighteen : (ip.octets.toList ++ beBytes 2 addr.port.toNat).length = 18 := by
      rw [List.length_append, sixteen, length_beBytes]
    rcases decodeUdpAddress_long eighteen with ⟨front, found, decoded⟩
    rw [List.take_left' sixteen, array_toList] at found
    cases found
    change decodeUdpAddress (ip.octets.toList ++ beBytes 2 addr.port.toNat) = _
    rw [decoded, List.drop_left' sixteen, ofBe_port]

/-! ### How a punch reads its fields -/

theorem Candidate.rules :
    FieldRules Candidate.known (fun _ _ _ => False) (fun _ _ => False) Candidate.field := by
  apply rules_of_flat
  · intro state typ wire value unrecognized
    rcases not_mem_pair unrecognized with ⟨notFirst, notSecond⟩
    unfold Candidate.field
    rw [if_neg notFirst, if_neg notSecond]
  · intro state typ wire value
    unfold Candidate.field
    split
    · split <;> simp
    · split
      · exact bind_ne_panic (decodeUdpAddress_ne_panic value) (by simp)
      · exact unknown_ne_panic state typ

theorem Candidate.finish_ne_panic (state : Candidate.Fields) : Candidate.finish state ≠ .panic := by
  unfold Candidate.finish
  split <;> simp

theorem Candidate.decode_eq : Candidate.decode codec =
    decodeFields (tlvSplitter codec.toTlvNumbers) Candidate.field ⟨none, none⟩
      Candidate.finish := by
  funext cur
  rw [Candidate.decode, punchSplitter_eq]

theorem Refusal.rules :
    FieldRules Refusal.known (fun _ _ _ => False) (fun _ _ => False) Refusal.field := by
  apply rules_of_flat
  · intro state typ wire value unrecognized
    rcases not_mem_pair unrecognized with ⟨notFirst, notSecond⟩
    unfold Refusal.field
    rw [if_neg notFirst, if_neg notSecond]
  · intro state typ wire value
    unfold Refusal.field
    split
    · split <;> simp
    · split
      · simp
      · exact unknown_ne_panic state typ

theorem Refusal.finish_ne_panic (state : Refusal.Fields) : Refusal.finish state ≠ .panic :=
  bind_ne_panic (okOr_ne_panic _ _) (by simp)

theorem Refusal.decode_eq : Refusal.decode codec =
    decodeFields (tlvSplitter codec.toTlvNumbers) Refusal.field ⟨none, ""⟩ Refusal.finish := by
  funext cur
  rw [Refusal.decode, punchSplitter_eq]

theorem PunchMessage.rules :
    FieldRules PunchMessage.known
      (fun t value value' =>
        t = candidate ∧ Candidate.Padded codec value value' ∨
          t = punchRefusal ∧ Refusal.Padded codec value value' ∨
            t = membership ∧ Membership.Padded codec value value')
      (fun t value =>
        t = candidate ∧ Candidate.Spoiled codec value ∨
          t = punchRefusal ∧ Refusal.Spoiled codec value ∨
            t = membership ∧ Membership.Spoiled codec value)
      (PunchMessage.field codec) := by
  apply rules_of_unknown
  · intro state typ wire value unrecognized
    simp only [PunchMessage.known, List.mem_cons, List.not_mem_nil, or_false, not_or]
      at unrecognized
    rcases unrecognized with ⟨noKey, noCandidate, noRefusal, noData, noMembership⟩
    unfold PunchMessage.field
    rw [if_neg noKey, if_neg noCandidate, if_neg noRefusal, if_neg noData, if_neg noMembership]
  · rintro state typ wire value wire' value' (⟨rfl, same⟩ | ⟨rfl, same⟩ | ⟨rfl, same⟩)
    · change (Candidate.decode codec value' >>= _) = (Candidate.decode codec value >>= _)
      rw [Candidate.decode_eq, decodeFields_padded Candidate.rules same]
    · change (Refusal.decode codec value' >>= _) = (Refusal.decode codec value >>= _)
      rw [Refusal.decode_eq, decodeFields_padded Refusal.rules same]
    · change (Membership.decode codec value' >>= _) = (Membership.decode codec value >>= _)
      rw [Membership.decode_padded same]
  · rintro state typ wire value (⟨rfl, bad⟩ | ⟨rfl, bad⟩ | ⟨rfl, bad⟩)
    · change ∃ error, (Candidate.decode codec value >>= _) = _
      rw [Candidate.decode_eq]
      rcases decodeFields_spoiled Candidate.rules bad with ⟨error, refused⟩
      exact ⟨error, by rw [refused, err_bind]⟩
    · change ∃ error, (Refusal.decode codec value >>= _) = _
      rw [Refusal.decode_eq]
      rcases decodeFields_spoiled Refusal.rules bad with ⟨error, refused⟩
      exact ⟨error, by rw [refused, err_bind]⟩
    · change ∃ error, (Membership.decode codec value >>= _) = _
      rcases Membership.decode_spoiled bad with ⟨error, refused⟩
      exact ⟨error, by rw [refused, err_bind]⟩
  · intro state typ wire value
    unfold PunchMessage.field
    split
    · simp
    · split
      · rw [Candidate.decode_eq]
        exact bind_ne_panic (decodeFields_ne_panic Candidate.rules Candidate.finish_ne_panic value)
          (by simp)
      · split
        · rw [Refusal.decode_eq]
          exact bind_ne_panic (decodeFields_ne_panic Refusal.rules Refusal.finish_ne_panic value)
            (by simp)
        · split
          · simp
          · split
            · exact bind_ne_panic (Membership.decode_ne_panic codec value) (by simp)
            · exact unknown_ne_panic state typ

theorem PunchMessage.finish_ne_panic (state : PunchMessage.Fields) :
    PunchMessage.finish state ≠ .panic :=
  bind_ne_panic (okOr_ne_panic _ _) (by simp)

theorem PunchMessage.decode_eq : PunchMessage.decode codec =
    decodeFields (tlvSplitter codec.toTlvNumbers) (PunchMessage.field codec)
      ⟨none, [], none, [], []⟩ PunchMessage.finish := by
  funext cur
  rw [PunchMessage.decode, punchSplitter_eq]

/-! ### What is written is read -/

/-- The bytes are one Data TLV. -/
def IsData (wire : Bytes) : Prop := ∃ value, IsTlv codec.toTlvNumbers tlvData wire value

/-- A chain, and a binding. -/
structure Membership.WellFormed (m : Membership) : Prop where
  certificates : m.certificates ≠ []
  data : ∀ wire ∈ m.certificates, IsData codec wire
  binding : m.binding ≠ []

structure LinkHello.Fits (hello : LinkHello) : Prop where
  data : ∀ wire ∈ hello.certificates, IsData codec wire
  memberships : ∀ m ∈ hello.memberships, m.WellFormed codec
  small : (hello.encode codec).length < 2 ^ 64

structure LinkVerdict.Fits (verdict : LinkVerdict) : Prop where
  nonempty : verdict.enrollmentLink ≠ some []
  small : (verdict.encode codec).length < 2 ^ 64

structure Reachability.Fits (r : Reachability) : Prop where
  token : ∀ token, r.wakeToken = some token → 1 ≤ token.length ∧ token.length ≤ wakeTokenMax
  small : (r.encode codec).length < 2 ^ 64

structure Presence.Fits (p : Presence) : Prop where
  small : (p.encode codec).length < 2 ^ 64

structure PunchMessage.Fits (m : PunchMessage) : Prop where
  candidates : m.candidates.length ≤ candidatesMax
  data : ∀ wire ∈ m.certificates, IsData codec wire
  memberships : ∀ other ∈ m.memberships, other.WellFormed codec
  small : (m.encode codec).length < 2 ^ 64

/-- Its candidates as their addresses are written. -/
def PunchMessage.canonical (m : PunchMessage) : PunchMessage :=
  { m with candidates := m.candidates.map fun c => { c with addr := c.addr.canonical } }

variable {codec}

theorem Membership.decode_value {m : Membership} (wellFormed : m.WellFormed codec)
    (small : (m.write codec).length < 2 ^ 64) :
    Membership.decode codec (m.value codec) = .ok m := by
  have inside := @length_le_writeTlv codec.toTlvNumbers membership (m.value codec)
  have binding : IsTlv codec.toTlvNumbers membershipBinding
      (writeTlv codec.toTlvNumbers membershipBinding m.binding) m.binding := by
    apply isTlv_writeTlv (by decide)
    unfold Membership.write at small
    unfold Membership.value at small inside
    rw [List.length_append] at inside
    omega
  have stored : m.binding.isEmpty = false := by simpa using wellFormed.binding
  have chain : m.certificates.isEmpty = false := by simpa using wellFormed.certificates
  unfold Membership.decode decodeFields Membership.value
  rw [@eachField_pushed codec.toTlvNumbers tlvData _ Membership.field _ _ m.certificates id id
    Membership.Fields.certificates (fun state list => { state with certificates := list })
    (fun _ _ => rfl) (fun _ _ _ => rfl) (fun _ => rfl)]
  · rw [eachField_last binding, Membership.field, if_neg (by decide), if_pos rfl, stored]
    rw [List.map_id, List.nil_append, if_neg Bool.false_ne_true, ok_bind, Membership.finish,
      chain]
    rfl
  · intro wire among
    rcases wellFormed.data wire among with ⟨value, tlv⟩
    exact ⟨value, tlv, fun state => if_pos rfl⟩

theorem Membership.isTlv_write {m : Membership} (small : (m.write codec).length < 2 ^ 64) :
    IsTlv codec.toTlvNumbers membership (m.write codec) (m.value codec) :=
  isTlv_writeTlv (by decide) small

theorem decodeName_encodeName (name : Name) (what : String) :
    decodeName codec (codec.encodeName name) what = .ok name := by
  unfold decodeName
  rw [codec.decode_encodeName]

theorem isTlv_encodeToTlv {name : Name} (small : (encodeToTlv codec name).length < 2 ^ 64) :
    IsTlv codec.toTlvNumbers tlvName (encodeToTlv codec name) (codec.encodeName name) :=
  isTlv_writeTlv (by decide) small

theorem LinkHello.decode_value {hello : LinkHello} (fits : hello.Fits codec) :
    LinkHello.decode codec (hello.value codec) = .ok hello := by
  have small : (hello.value codec).length < 2 ^ 64 :=
    Nat.lt_of_le_of_lt (length_le_writeTlv linkHello _) fits.small
  unfold LinkHello.value at small
  simp only [List.length_append] at small
  have version : IsTlv codec.toTlvNumbers linkVersion
      (writeTlv codec.toTlvNumbers linkVersion [linkProtocolVersion]) [linkProtocolVersion] :=
    isTlv_writeTlv (by decide) (by omega)
  unfold LinkHello.decode decodeFields LinkHello.value
  rw [eachField_tlv version, LinkHello.field, if_pos rfl]
  rw [ok_bind, @eachField_pushed codec.toTlvNumbers tlvData _ (LinkHello.field codec) _ _
    hello.certificates id id LinkHello.Fields.certificates
    (fun state list => { state with certificates := list })
    (fun _ _ => rfl) (fun _ _ _ => rfl) (fun _ => rfl)]
  · rw [@eachField_pushed codec.toTlvNumbers membership _ (LinkHello.field codec) _ _
      hello.memberships (Membership.write codec) id LinkHello.Fields.memberships
      (fun state list => { state with memberships := list })
      (fun _ _ => rfl) (fun _ _ _ => rfl) (fun _ => rfl)]
    · rw [List.map_id, List.map_id, List.nil_append, List.nil_append]
      cases path : hello.directPath with
      | none =>
        rw [Option.elim_none, eachField_nil, ok_bind, LinkHello.finish]
        dsimp only
        rw [if_pos rfl, ← path]
      | some session =>
        have tlv : IsTlv codec.toTlvNumbers Messages.directPath
            (writeTlv codec.toTlvNumbers Messages.directPath session.toList) session.toList := by
          rw [path, Option.elim_some] at small
          exact isTlv_writeTlv (by decide) (by omega)
        rw [Option.elim_some, eachField_last tlv]
        change (okOr (array 8 session.toList) _ >>= _) >>= _ = _
        rw [array_toList, okOr_some, ok_bind, ok_bind, LinkHello.finish]
        dsimp only
        rw [if_pos rfl, ← path]
    · intro m among
      have shorter := length_le_flatMap (Membership.write codec) among
      refine ⟨_, Membership.isTlv_write (by omega), ?_⟩
      intro state
      change mapErr (Membership.decode codec (m.value codec)) _ >>= _ = _
      rw [Membership.decode_value (fits.memberships m among) (by omega)]
      rfl
  · intro wire among
    rcases fits.data wire among with ⟨value, tlv⟩
    exact ⟨value, tlv, fun state => rfl⟩

theorem LinkVerdict.namespaces_read {namespaces : List Name}
    (small : (namespaces.flatMap (encodeToTlv codec)).length < 2 ^ 64) :
    eachField (tlvSplitter codec.toTlvNumbers) (LinkVerdict.namespaceField codec) []
      (namespaces.flatMap (encodeToTlv codec)) = .ok namespaces := by
  rw [← List.append_nil (namespaces.flatMap (encodeToTlv codec)),
    @eachField_pushed codec.toTlvNumbers tlvName _ (LinkVerdict.namespaceField codec) _ _
      namespaces (encodeToTlv codec) id id (fun _ list => list)
      (fun _ _ => rfl) (fun _ _ _ => rfl) (fun _ => rfl)]
  · rw [eachField_nil, List.map_id]
    rfl
  · intro name among
    have shorter := length_le_flatMap (encodeToTlv codec) among
    refine ⟨_, isTlv_encodeToTlv (by omega), ?_⟩
    intro state
    rw [LinkVerdict.namespaceField, if_neg (not_not_intro rfl), decodeName_encodeName]
    rfl

theorem LinkVerdict.decode_value {verdict : LinkVerdict} (fits : verdict.Fits codec) :
    LinkVerdict.decode codec (verdict.value codec) = .ok verdict := by
  have small : (verdict.value codec).length < 2 ^ 64 :=
    Nat.lt_of_le_of_lt (length_le_writeTlv linkVerdict _) fits.small
  rcases verdict with ⟨enrollment⟩
  unfold LinkVerdict.decode decodeFields
  cases enrollment with
  | none =>
    change eachField _ _ _ [] >>= _ = _
    rw [eachField_nil]
    rfl
  | some namespaces =>
    have nonempty : namespaces.isEmpty = false := by
      cases namespaces with
      | nil => exact absurd rfl fits.nonempty
      | cons ns more => rfl
    change (writeTlv _ _ _).length < _ at small
    have shorter := @length_le_writeTlv codec.toTlvNumbers Messages.enrollmentLink
      (namespaces.flatMap (encodeToTlv codec))
    change eachField _ _ _ (writeTlv _ _ _) >>= _ = _
    rw [eachField_last (isTlv_writeTlv (by decide) small)]
    change (eachField _ (LinkVerdict.namespaceField codec) [] _ >>= _) >>= _ = _
    rw [LinkVerdict.namespaces_read (by omega), ok_bind, nonempty,
      if_neg Bool.false_ne_true]
    rfl

theorem Reachability.decode_value {r : Reachability} (fits : r.Fits codec) :
    Reachability.decode codec (r.value codec) = .ok r := by
  have small : (r.value codec).length < 2 ^ 64 :=
    Nat.lt_of_le_of_lt (length_le_writeTlv reachability _) fits.small
  rcases r with ⟨hold, token⟩
  unfold Reachability.value at small
  rw [List.length_append] at small
  unfold Reachability.decode decodeFields Reachability.value
  have held : eachField (tlvSplitter codec.toTlvNumbers) Reachability.field ⟨false, none⟩
      ((if hold then writeTlv codec.toTlvNumbers holdInterests [] else []) ++
        token.elim [] fun token => writeTlv codec.toTlvNumbers Messages.wakeToken token) =
      eachField (tlvSplitter codec.toTlvNumbers) Reachability.field ⟨hold, none⟩
        (token.elim [] fun token => writeTlv codec.toTlvNumbers Messages.wakeToken token) := by
    cases hold with
    | false => rfl
    | true =>
      rw [if_pos rfl] at small
      rw [if_pos rfl, eachField_tlv (isTlv_writeTlv (by decide) (by omega))]
      rfl
  rw [held]
  cases token with
  | none =>
    rw [Option.elim_none, eachField_nil]
    rfl
  | some token =>
    rw [Option.elim_some] at small
    rw [Option.elim_some, eachField_last (isTlv_writeTlv (by decide) (by omega)),
      Reachability.field, if_neg (by decide), if_pos rfl, if_pos (fits.token token rfl)]
    rfl

theorem PresentDevice.decode_value {d : PresentDevice}
    (small : (d.write codec).length < 2 ^ 64) :
    PresentDevice.decode codec (d.value codec) = .ok d := by
  have inside := @length_le_writeTlv codec.toTlvNumbers presentDevice (d.value codec)
  unfold PresentDevice.write at small
  unfold PresentDevice.value at small inside
  rw [List.length_append] at inside
  unfold PresentDevice.decode decodeFields PresentDevice.value
  rw [eachField_tlv (isTlv_encodeToTlv (by omega)), PresentDevice.field, if_pos rfl,
    decodeName_encodeName, ok_bind, ok_bind,
    eachField_last (isTlv_writeTlv (by decide) (by omega)), PresentDevice.field,
    if_neg (by decide), if_pos rfl, array_toList]
  rfl

theorem Presence.decode_value {p : Presence} (fits : p.Fits codec) :
    Presence.decode codec (p.value codec) = .ok p := by
  have small : (p.value codec).length < 2 ^ 64 :=
    Nat.lt_of_le_of_lt (length_le_writeTlv presence _) fits.small
  unfold Presence.value at small
  rw [List.length_append] at small
  unfold Presence.decode decodeFields Presence.value
  rw [eachField_tlv (isTlv_encodeToTlv (by omega)), Presence.field, if_pos rfl,
    decodeName_encodeName, ok_bind, ok_bind,
    ← List.append_nil (p.devices.flatMap (PresentDevice.write codec)),
    @eachField_pushed codec.toTlvNumbers presentDevice _ (Presence.field codec) _ _
      p.devices (PresentDevice.write codec) id Presence.Fields.devices
      (fun state list => { state with devices := list })
      (fun _ _ => rfl) (fun _ _ _ => rfl) (fun _ => rfl)]
  · rw [eachField_nil, List.map_id]
    rfl
  · intro d among
    have shorter := length_le_flatMap (PresentDevice.write codec) among
    have short : (d.write codec).length < 2 ^ 64 := by omega
    refine ⟨d.value codec, isTlv_writeTlv (by decide) short, ?_⟩
    intro state
    rw [Presence.field, if_neg (by decide), if_pos rfl, PresentDevice.decode_value short]
    rfl

theorem fromCode_code (kind : CandidateKind) : CandidateKind.fromCode kind.code = some kind := by
  cases kind <;> rfl

theorem Candidate.decode_value {c : Candidate} (small : (c.write codec).length < 2 ^ 64) :
    Candidate.decode codec (c.value codec) = .ok (some { c with addr := c.addr.canonical }) := by
  have inside := @length_le_writeTlv codec.toTlvNumbers candidate (c.value codec)
  unfold Candidate.write at small
  unfold Candidate.value at small inside
  rw [List.length_append] at inside
  rw [Candidate.decode_eq]
  unfold decodeFields Candidate.value
  rw [eachField_tlv (isTlv_writeTlv (by decide) (by omega))]
  change (eachField _ Candidate.field (⟨some c.kind.code, none⟩ : Candidate.Fields) _ >>= _) = _
  rw [eachField_last (isTlv_writeTlv (by decide) (by omega))]
  change (decodeUdpAddress (encodeUdpAddress c.addr) >>= _) >>= _ = _
  rw [decode_encodeUdpAddress, ok_bind, ok_bind, Candidate.finish]
  dsimp only
  rw [fromCode_code]
  rfl

theorem nni_eq (n : UInt64) : nni n = beBytes (minimalWidth n.toNat) n.toNat := by
  unfold nni minimalWidth
  split
  · rfl
  · split
    · rfl
    · split <;> rfl

theorem foldl_nni (n : UInt64) :
    (nni n).foldl (fun (n : UInt64) b => n <<< 8 ||| b.toUInt64) 0 = n := by
  apply UInt64.toNat_inj.mp
  rw [foldl_shiftIn, nni_eq]
  change ofBe _ % 2 ^ 64 = _
  rw [ofBe_beBytes (minimalWidth_fits n.toNat_lt), Nat.mod_eq_of_lt n.toNat_lt]

theorem Refusal.decode_value {refusal : UInt64 × String}
    (small : (writeTlv codec.toTlvNumbers punchRefusal (Refusal.value codec refusal)).length <
      2 ^ 64) :
    Refusal.decode codec (Refusal.value codec refusal) = .ok refusal := by
  have inside := @length_le_writeTlv codec.toTlvNumbers punchRefusal (Refusal.value codec refusal)
  unfold Refusal.value at small inside
  rw [List.length_append] at inside
  have width : (nni refusal.1).length ∈ [1, 2, 4, 8] := by
    rw [nni_eq, length_beBytes]
    exact minimalWidth_mem _
  rw [Refusal.decode_eq]
  unfold decodeFields Refusal.value
  rw [eachField_tlv (isTlv_writeTlv (by decide) (by omega)), Refusal.field, if_pos rfl,
    if_neg (not_not_intro width), foldl_nni, ok_bind,
    eachField_last (isTlv_writeTlv (by decide) (by omega)), Refusal.field, if_neg (by decide),
    if_pos rfl, fromUtf8Lossy_asBytes]
  rfl

/-- Up to the most there may be, candidates are kept. -/
theorem pushed_candidates {candidates : List Candidate} {state : PunchMessage.Fields}
    (room : state.candidates.length + candidates.length ≤ candidatesMax) :
    candidates.foldl (fun state c => PunchMessage.pushCandidate state (some c)) state =
      { state with candidates := state.candidates ++ candidates } := by
  induction candidates generalizing state with
  | nil =>
    rw [List.append_nil]
    rfl
  | cons c more ih =>
    rw [List.length_cons] at room
    have pushed : PunchMessage.pushCandidate state (some c) =
        { state with candidates := state.candidates ++ [c] } := if_pos (by omega)
    rw [List.foldl_cons, pushed, ih]
    · dsimp only
      rw [List.append_assoc]
      rfl
    · rw [List.length_append, List.length_singleton]
      omega

theorem PunchMessage.decode_encode {m : PunchMessage} (fits : m.Fits codec) :
    PunchMessage.decode codec (m.encode codec) = .ok m.canonical := by
  have small := fits.small
  have all : m.candidates.take candidatesMax = m.candidates :=
    List.take_of_length_le fits.candidates
  unfold PunchMessage.encode at small
  rw [all] at small
  simp only [List.length_append] at small
  rw [PunchMessage.decode_eq]
  unfold decodeFields PunchMessage.encode
  rw [all, eachField_tlv (isTlv_writeTlv (by decide) (by omega)), PunchMessage.field, if_pos rfl,
    ok_bind, @eachField_items codec.toTlvNumbers candidate _ (PunchMessage.field codec) _
      m.candidates (Candidate.write codec) fun state c =>
        PunchMessage.pushCandidate state (some { c with addr := c.addr.canonical })]
  · have kept : m.candidates.foldl (fun state c => PunchMessage.pushCandidate state
          (some { c with addr := c.addr.canonical })) ⟨some m.key, [], none, [], []⟩ =
        ⟨some m.key, m.canonical.candidates, none, [], []⟩ := by
      have pushed := @pushed_candidates m.canonical.candidates ⟨some m.key, [], none, [], []⟩
      unfold PunchMessage.canonical at pushed ⊢
      rw [List.foldl_map, List.length_map, List.length_nil, Nat.zero_add] at pushed
      exact pushed fits.candidates
    have refused : ∀ rest, eachField (tlvSplitter codec.toTlvNumbers) (PunchMessage.field codec)
          ⟨some m.key, m.canonical.candidates, none, [], []⟩
          (m.refusal.elim [] (fun refusal =>
            writeTlv codec.toTlvNumbers punchRefusal (Refusal.value codec refusal)) ++ rest) =
        eachField (tlvSplitter codec.toTlvNumbers) (PunchMessage.field codec)
          ⟨some m.key, m.canonical.candidates, m.refusal, [], []⟩ rest := by
      intro rest
      cases refusal : m.refusal with
      | none => rfl
      | some refusal =>
        rw [refusal, Option.elim_some] at small
        rw [Option.elim_some, eachField_tlv (isTlv_writeTlv (by decide) (by omega))]
        change (Refusal.decode codec (Refusal.value codec _) >>= _) >>= _ = _
        rw [Refusal.decode_value (by omega)]
        rfl
    rw [kept, refused, @eachField_pushed codec.toTlvNumbers tlvData _ (PunchMessage.field codec) _ _
      m.certificates id id PunchMessage.Fields.certificates
      (fun state list => { state with certificates := list })
      (fun _ _ => rfl) (fun _ _ _ => rfl) (fun _ => rfl)]
    · rw [← List.append_nil (m.memberships.flatMap (Membership.write codec)),
        @eachField_pushed codec.toTlvNumbers membership _ (PunchMessage.field codec) _ _
        m.memberships (Membership.write codec) id PunchMessage.Fields.memberships
        (fun state list => { state with memberships := list })
        (fun _ _ => rfl) (fun _ _ _ => rfl) (fun _ => rfl)]
      · rw [eachField_nil, List.map_id, List.map_id]
        rfl
      · intro other among
        have shorter := length_le_flatMap (Membership.write codec) among
        refine ⟨_, Membership.isTlv_write (by omega), ?_⟩
        intro state
        change Membership.decode codec (other.value codec) >>= _ = _
        rw [Membership.decode_value (fits.memberships other among) (by omega)]
        rfl
    · intro wire among
      rcases fits.data wire among with ⟨value, tlv⟩
      exact ⟨value, tlv, fun state => rfl⟩
  · intro c among
    have shorter := length_le_flatMap (Candidate.write codec) among
    have short : (c.write codec).length < 2 ^ 64 := by omega
    refine ⟨c.value codec, isTlv_writeTlv (by decide) short, ?_⟩
    intro state
    change Candidate.decode codec (c.value codec) >>= _ = _
    rw [Candidate.decode_value short]
    rfl

/-! ### All messages -/

variable (codec)

/-- What the codecs of the messages of a link and of a punch promise, and that each message of a
link is a TLV of its type. -/
structure LinkMessages : Prop where
  helloLaws : CodecLaws (LinkHello.Fits codec) id (LinkHello.value codec) (LinkHello.decode codec)
    (LinkHello.Padded codec) (LinkHello.Spoiled codec)
  verdictLaws : CodecLaws (LinkVerdict.Fits codec) id (LinkVerdict.value codec)
    (LinkVerdict.decode codec) (LinkVerdict.Padded codec) (LinkVerdict.Spoiled codec)
  reachabilityLaws : CodecLaws (Reachability.Fits codec) id (Reachability.value codec)
    (Reachability.decode codec) (Reachability.Padded codec) (Reachability.Spoiled codec)
  presenceLaws : CodecLaws (Presence.Fits codec) id (Presence.value codec) (Presence.decode codec)
    (Presence.Padded codec) (Presence.Spoiled codec)
  punchLaws : CodecLaws (PunchMessage.Fits codec) PunchMessage.canonical (PunchMessage.encode codec)
    (PunchMessage.decode codec) (PunchMessage.Padded codec) (PunchMessage.Spoiled codec)
  helloTlv : ∀ hello : LinkHello, hello.Fits codec →
    IsTlv codec.toTlvNumbers linkHello (hello.encode codec) (hello.value codec)
  verdictTlv : ∀ verdict : LinkVerdict, verdict.Fits codec →
    IsTlv codec.toTlvNumbers linkVerdict (verdict.encode codec) (verdict.value codec)
  reachabilityTlv : ∀ r : Reachability, r.Fits codec →
    IsTlv codec.toTlvNumbers reachability (r.encode codec) (r.value codec)
  presenceTlv : ∀ p : Presence, p.Fits codec →
    IsTlv codec.toTlvNumbers presence (p.encode codec) (p.value codec)

theorem link_messages_invert : LinkMessages codec where
  helloLaws := codecLaws_of_rules (LinkHello.rules codec) LinkHello.finish_ne_panic
    fun _ => LinkHello.decode_value
  verdictLaws := codecLaws_of_rules (LinkVerdict.rules codec) (by simp)
    fun _ => LinkVerdict.decode_value
  reachabilityLaws := codecLaws_of_rules Reachability.rules (by simp)
    fun _ => Reachability.decode_value
  presenceLaws := codecLaws_of_rules (Presence.rules codec) Presence.finish_ne_panic
    fun _ => Presence.decode_value
  punchLaws := by
    have inverts : ∀ m : PunchMessage, m.Fits codec →
        PunchMessage.decode codec (m.encode codec) = .ok m.canonical :=
      fun _ => PunchMessage.decode_encode
    rw [PunchMessage.decode_eq] at inverts ⊢
    exact codecLaws_of_rules (PunchMessage.rules codec) PunchMessage.finish_ne_panic inverts
  helloTlv _ fits := isTlv_writeTlv (by decide) fits.small
  verdictTlv _ fits := isTlv_writeTlv (by decide) fits.small
  reachabilityTlv _ fits := isTlv_writeTlv (by decide) fits.small
  presenceTlv _ fits := isTlv_writeTlv (by decide) fits.small

end Codec

/-! ### Messages that are not read as they are written -/

namespace Example

/-- The messages over the packet format of NDN. -/
def codec : MessageCodec where
  toTlvNumbers := NdnTlv.tlvNumbers
  encodeName := NdnTlv.encodeName
  decodeName value :=
    match NdnTlv.decodeName value with
    | some name => .ok name
    | none => .error "not a name"
  decode_encodeName name := by rw [NdnTlv.decode_encode]

/-- A hello with a membership that has no certificate. -/
def bare : LinkHello := ⟨[], [⟨[], [1]⟩], none⟩

/-- A Data without anything in it. -/
def emptyData : Bytes := [6, 0]

/-- A punch from a link-local address of one interface. -/
def linkLocal : PunchMessage :=
  ⟨[7], [⟨.host, .v6 ⟨Vector.replicate 16 2⟩ 9000 0 3⟩], none, [], []⟩

theorem emptyData_isTlv : IsTlv codec.toTlvNumbers tlvData emptyData [] :=
  ⟨2, by decide, rfl⟩

/-- A membership without a certificate is written and not read, a Data is one more certificate
although its type is below 32, and the scope of an address is lost. -/
theorem not_as_written :
    LinkHello.decode codec (bare.value codec) =
        .err "a membership without a certificate in the link hello" ∧
      LinkHello.decode codec ((⟨[], [], none⟩ : LinkHello).value codec ++ emptyData) =
          .ok ⟨[emptyData], [], none⟩ ∧
        PunchMessage.decode codec (linkLocal.encode codec) ≠ .ok linkLocal := by
  refine ⟨?_, ?_, ?_⟩
  · have refused : Membership.decode codec ((⟨[], [1]⟩ : Membership).value codec) =
        .err "a membership without a certificate" := by
      have tlv : IsTlv codec.toTlvNumbers membershipBinding
          (writeTlv codec.toTlvNumbers membershipBinding [1]) [1] :=
        isTlv_writeTlv (by decide) (by decide +kernel)
      change eachField _ _ _ (writeTlv codec.toTlvNumbers membershipBinding [1]) >>= _ = _
      rw [eachField_last tlv]
      rfl
    have version : IsTlv codec.toTlvNumbers linkVersion
        (writeTlv codec.toTlvNumbers linkVersion [linkProtocolVersion]) [linkProtocolVersion] :=
      isTlv_writeTlv (by decide) (by decide +kernel)
    have tlv : IsTlv codec.toTlvNumbers membership ((⟨[], [1]⟩ : Membership).write codec)
        ((⟨[], [1]⟩ : Membership).value codec) :=
      Membership.isTlv_write (by decide +kernel)
    change eachField _ _ _ (writeTlv codec.toTlvNumbers linkVersion [linkProtocolVersion] ++
      (⟨[], [1]⟩ : Membership).write codec) >>= _ = _
    rw [eachField_tlv version]
    change eachField _ _ (⟨some 1, [], [], none⟩ : LinkHello.Fields) _ >>= _ = _
    rw [eachField_last tlv]
    change (mapErr (Membership.decode codec _) _ >>= _) >>= _ = _
    rw [refused]
    rfl
  · have fits : (⟨[emptyData], [], none⟩ : LinkHello).Fits codec := by
      refine ⟨?_, ?_, by decide +kernel⟩
      · intro wire among
        rw [List.mem_singleton.mp among]
        exact ⟨[], emptyData_isTlv⟩
      · intro m among
        cases among
    exact LinkHello.decode_value fits
  · have fits : linkLocal.Fits codec := by
      refine ⟨by decide, ?_, ?_, by decide +kernel⟩
      · intro wire among
        cases among
      · intro m among
        cases among
    rw [PunchMessage.decode_encode fits]
    intro same
    have candidates := congrArg PunchMessage.candidates (Outcome.ok.inj same)
    exact absurd candidates (by decide)

end Example

end NdnExt.Link.Messages
