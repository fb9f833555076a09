import NdnExt.Nlsr.LsaTotal

/-! LSAs survive the wire, with the expiration time rounded down to the second. -/

namespace NdnExt.Nlsr.Wire

open NdnExt.Lib Outcome CoordinateLsa

def wholeSecond (ms : UInt64) : UInt64 := UInt64.ofNat (ms.toNat / 1000 * 1000)

def Lsa.wholeSecond : Lsa → Lsa
  | adjacency lsa => adjacency { lsa with expirationMs := Wire.wholeSecond lsa.expirationMs }
  | name lsa => name { lsa with expirationMs := Wire.wholeSecond lsa.expirationMs }
  | coordinate lsa => coordinate { lsa with expirationMs := Wire.wholeSecond lsa.expirationMs }

def Lsa.lsaType : Lsa → LsaType
  | adjacency _ => .adjacency
  | name _ => .name
  | coordinate _ => .coordinate

def Lsa.expirationMs : Lsa → UInt64
  | adjacency lsa => lsa.expirationMs
  | name lsa => lsa.expirationMs
  | coordinate lsa => lsa.expirationMs

/-- The first millisecond of the year 10000. -/
def year10000 : Nat := 253402300800000

variable {codec : NameCodec}

section Integers

theorem readNonneg_toNat (data : List UInt8) :
    (readNonnegInteger data).toNat = ofBe data % 2 ^ 64 := foldl_shiftIn data 0

theorem readNonneg_write {v : UInt64} {width : Nat} (fits : v.toNat < 256 ^ width) :
    readNonnegInteger (beBytes width v.toNat) = v := by
  apply UInt64.toNat_inj.mp
  rw [readNonneg_toNat, ofBe_beBytes fits, Nat.mod_eq_of_lt v.toNat_lt]

theorem readDouble_write (v : UInt64) : readDouble codec (beBytes 8 v.toNat) = .ok v := by
  rw [readDouble, if_pos (length_beBytes 8 _),
    ofBe_beBytes (show v.toNat < 256 ^ 8 from v.toNat_lt), UInt64.ofNat_toNat]

end Integers

section Fields

theorem readExpected_write (typ : Nat) (value rest : List UInt8) :
    readExpected codec typ (codec.writeTlv typ value ++ rest) = .ok (value, rest) :=
  readExpected_eq_ok.mpr (codec.read_write typ value rest)

theorem readExpected_write_last (typ : Nat) (value : List UInt8) :
    readExpected codec typ (codec.writeTlv typ value) = .ok (value, []) := by
  have read := @readExpected_write codec typ value []
  rw [List.append_nil] at read
  exact read

theorem readLsaHeader_text (originRouter : Name) (seqNo : UInt64) {expBytes : List UInt8}
    {text : String} (decoded : fromUtf8 expBytes = some text) (rest : List UInt8) :
    readLsaHeader codec (codec.writeTlv tlvLsa (codec.encodeToTlv originRouter ++
        (writeNonnegInteger codec tlvSeqNo seqNo ++
          codec.writeTlv tlvExpirationTime expBytes)) ++ rest) =
      parseExpirationTime text >>= fun ms =>
        pure ((originRouter, seqNo, UInt64.ofNat ms), rest) := by
  unfold readLsaHeader
  rw [readExpected_write, ok_bind]
  dsimp only
  rw [readName_write, ok_bind]
  rw [writeNonnegInteger, minimalSlice_eq, readExpected_write, ok_bind]
  rw [readExpected_write_last, ok_bind]
  rw [decoded, okOr_some, ok_bind,
    readNonneg_write (minimalWidth_fits seqNo.toNat_lt)]

theorem readLsaHeader_write (originRouter : Name) (seqNo : UInt64) {expirationMs : UInt64}
    (early : expirationMs.toNat < year10000) (rest : List UInt8) :
    readLsaHeader codec (writeLsaHeader codec originRouter seqNo expirationMs ++ rest) =
      .ok ((originRouter, seqNo, wholeSecond expirationMs), rest) := by
  rcases @parse_format codec.Error _ early with ⟨text, decoded, parsed⟩
  unfold writeLsaHeader
  rw [readLsaHeader_text _ _ decoded, parsed, ok_bind]
  rfl

/-- Items written one after another are read back in order. -/
theorem readItems_write {A : Type} {expected : Nat} {item : List UInt8 → Decoded codec A}
    {write : A → List UInt8} (reads : ∀ value, item (write value) = .ok value) (items : List A) :
    readItems codec expected item
      (codec.writeAll (items.map (fun value => (expected, write value)))) = .ok items := by
  have from' : ∀ earlier, (items.map (fun value => (expected, write value))).foldlM
      (fun read typed => pushItem codec expected item read typed.1 typed.2) earlier =
        (.ok (earlier ++ items) : Decoded codec (List A)) := by
    induction items with
    | nil =>
      intro earlier
      rw [List.append_nil]
      rfl
    | cons value rest ih =>
      intro earlier
      have step : pushItem codec expected item earlier expected (write value) =
          .ok (earlier ++ [value]) := by
        unfold pushItem
        rw [if_neg (not_not.mpr rfl), reads, ok_bind]
        rfl
      rw [List.map_cons, List.foldlM_cons, step, ok_bind, ih, List.append_assoc]
      rfl
  unfold readItems
  rw [TlvCodec.forEachTlv_writeAll]
  exact from' []

theorem readAdjacent_write (adj : Adjacent) :
    readAdjacent codec (adj.write codec) = .ok adj := by
  unfold readAdjacent Adjacent.write writeDouble
  rw [readName_write, ok_bind]
  dsimp only
  rw [readExpected_write, ok_bind]
  rw [fromUtf8_asBytes, okOr_some, ok_bind, readExpected_write_last,
    ok_bind]
  rw [readDouble_write, ok_bind]
  rfl

theorem readPrefixInfo_write (p : PrefixInfo) :
    readPrefixInfo codec (p.write codec) = .ok p := by
  unfold readPrefixInfo PrefixInfo.write writeDouble
  rw [readName_write, ok_bind]
  dsimp only
  rw [readExpected_write_last, ok_bind]
  rw [readDouble_write, ok_bind]
  rfl

end Fields

section RoundTrip

theorem adjacency_wire {lsa : AdjacencyLsa} (early : lsa.expirationMs.toNat < year10000) :
    AdjacencyLsa.wireDecode codec (lsa.wireEncode codec) =
      .ok { lsa with expirationMs := wholeSecond lsa.expirationMs } := by
  unfold AdjacencyLsa.wireDecode AdjacencyLsa.wireEncode
  rw [readExpected_write_last, ok_bind]
  dsimp only
  rw [readLsaHeader_write _ _ early, ok_bind]
  rw [readItems_write readAdjacent_write, ok_bind]
  rfl

theorem name_wire {lsa : NameLsa} (early : lsa.expirationMs.toNat < year10000) :
    NameLsa.wireDecode codec (lsa.wireEncode codec) =
      .ok { lsa with expirationMs := wholeSecond lsa.expirationMs } := by
  unfold NameLsa.wireDecode NameLsa.wireEncode
  rw [readExpected_write_last, ok_bind]
  dsimp only
  rw [readLsaHeader_write _ _ early, ok_bind]
  rw [readItems_write readPrefixInfo_write, ok_bind]
  rfl

theorem coordinate_wire {lsa : CoordinateLsa} (early : lsa.expirationMs.toNat < year10000) :
    wireDecode codec (lsa.wireEncode codec) =
      .ok { lsa with expirationMs := wholeSecond lsa.expirationMs } := by
  have some' : codec.writeTlv tlvHyperbolicRadius (beBytes 8 lsa.radius.toNat) ++
      codec.writeAll (lsa.angles.map (fun angle => (tlvHyperbolicAngle, beBytes 8 angle.toNat))) ≠
        [] :=
    List.append_ne_nil_of_left_ne_nil (codec.writeTlv_ne_nil _ _) _
  unfold wireDecode wireEncode writeDouble
  rw [readExpected_write_last, ok_bind]
  dsimp only
  rw [readLsaHeader_write _ _ early, ok_bind]
  rw [readRadius, if_neg some', readExpected_write, ok_bind]
  dsimp only
  rw [readDouble_write, ok_bind, pure_eq, ok_bind]
  rw [readItems_write readDouble_write, ok_bind]
  rfl

theorem format_wholeSecond (ms : UInt64) :
    formatExpirationTime (wholeSecond ms).toNat = formatExpirationTime ms.toNat := by
  have small : ms.toNat / 1000 * 1000 < 2 ^ 64 := by
    have bound := ms.toNat_lt
    omega
  have secs : (wholeSecond ms).toNat / 1000 = ms.toNat / 1000 := by
    rw [wholeSecond, UInt64.toNat_ofNat', Nat.mod_eq_of_lt small]
    omega
  unfold formatExpirationTime
  rw [secs]

theorem wireEncode_wholeSecond (lsa : Lsa) :
    lsa.wholeSecond.wireEncode codec = lsa.wireEncode codec := by
  have header : ∀ router seqNo ms, writeLsaHeader codec router seqNo (wholeSecond ms) =
      writeLsaHeader codec router seqNo ms := by
    intro router seqNo ms
    rw [writeLsaHeader, format_wholeSecond, ← writeLsaHeader]
  cases lsa with
  | adjacency lsa =>
    change AdjacencyLsa.wireEncode codec _ = AdjacencyLsa.wireEncode codec _
    unfold AdjacencyLsa.wireEncode
    rw [header]
  | name lsa =>
    change NameLsa.wireEncode codec _ = NameLsa.wireEncode codec _
    unfold NameLsa.wireEncode
    rw [header]
  | coordinate lsa =>
    change wireEncode codec _ = wireEncode codec _
    unfold wireEncode
    rw [header]

theorem wireDecode_wireEncode {lsa : Lsa} (early : lsa.expirationMs.toNat < year10000) :
    Lsa.wireDecode codec lsa.lsaType (lsa.wireEncode codec) = .ok lsa.wholeSecond := by
  cases lsa with
  | adjacency lsa =>
    change (AdjacencyLsa.wireDecode codec (lsa.wireEncode codec) >>= _) = _
    rw [adjacency_wire early]
    rfl
  | name lsa =>
    change (NameLsa.wireDecode codec (lsa.wireEncode codec) >>= _) = _
    rw [name_wire early]
    rfl
  | coordinate lsa =>
    change (wireDecode codec (lsa.wireEncode codec) >>= _) = _
    rw [coordinate_wire early]
    rfl

/-- `ymd_to_days` inverts `days_to_ymd` up to 9999-12-31. -/
theorem ymdToDays_daysToYmd {E : Type} {z : Nat} (early : z ≤ 2932896) :
    (ymdToDays (daysToYmd z).1 (daysToYmd z).2.1 (daysToYmd z).2.2 :
      Outcome (LsaCodecError E) Int) = .ok z := by
  rcases daysToYmd_spec z with ⟨number, real, monthly, first, daily⟩
  unfold dayNumberOf at number
  have upper := Calendar.year_le monthly real first (by rw [number]; omega)
  have lower := Calendar.le_year monthly real daily (by rw [number]; omega)
  rw [ymdToDays_eq (by omega) (by omega) (by omega), if_neg (by omega), number]

/-- An LSA survives the wire up to the second of its expiration time, and encodes to the same
bytes again. -/
theorem lsa_round_trip (codec : NameCodec) {lsa : Lsa}
    (early : lsa.expirationMs.toNat < year10000) :
    Lsa.wireDecode codec lsa.lsaType (lsa.wireEncode codec) = .ok lsa.wholeSecond ∧
      lsa.wholeSecond.wireEncode codec = lsa.wireEncode codec ∧
      ∀ z : Nat, z ≤ 2932896 →
        (ymdToDays (daysToYmd z).1 (daysToYmd z).2.1 (daysToYmd z).2.2 : Decoded codec Int) =
          .ok z :=
  ⟨wireDecode_wireEncode early, wireEncode_wholeSecond lsa, fun _ => ymdToDays_daysToYmd⟩

/-- An adjacency LSA of the last millisecond of 9999, with a NaN for a cost. -/
def lastLsa : Lsa :=
  .adjacency ⟨Name.single 1, 0xFFFFFFFFFFFFFFFF, 253402300799999,
    [⟨Name.single 2, "udp4://10.0.0.2:6363", 0x7FF8000000000001⟩]⟩

theorem lsa_round_trip_last :
    Lsa.wireDecode NdnTlv.codec .adjacency (lastLsa.wireEncode NdnTlv.codec) =
        .ok lastLsa.wholeSecond ∧
      wholeSecond 253402300799999 = 253402300799000 :=
  ⟨(@lsa_round_trip NdnTlv.codec lastLsa (by decide)).1, by decide +kernel⟩

end RoundTrip

end NdnExt.Nlsr.Wire
