import NdnExt.Discovery.RecordBytes

/-! The received bytes that service discovery gets through. -/

namespace NdnExt.Discovery

open NdnExt.Lib NdnExt.Lib.Tiling Outcome RecordFields

/-! ### Inbound packets -/

/-- A packet whose outer fields were read: an Interest, or Data with its content. -/
inductive Inbound where
  | interest (name : Name)
  | data (name : Name) (content : Option ByteSlice)

/-- The slice of the components of a name that a range takes. -/
def componentSlice (name : Name) (start stop : Nat) : Read (List NameComponent) :=
  if start ≤ stop ∧ stop ≤ name.components.length then
    .ok ((name.components.take stop).drop start)
  else .panic

/-- The hash and the node that the name of a body carries. -/
def bodyKeyOf (root name : Name) : Read (Option (Bytes × List NameComponent)) :=
  let rootLen := root.components.length
  if name.components.length < rootLen + 4 then .ok none
  else do
    let hash ← .checked name.components[rootLen + 1]?
    let last ← u64Sub name.components.length 1
    let node ← componentSlice name (rootLen + 2) last
    .ok (some (hash.value, node))

section Inbound

variable (fromStr : List Char → Option Name) (root peersPrefix : Name)
  (accepts : Name → Option Bytes → Bool)

/-- What the handlers take from a packet before they look at the state; `true` where they took
the packet. -/
def onInbound : Inbound → Read Bool
  | .interest name =>
    if hasPrefix name (sdServiceInfoUnder root) then do
      let _ ← bodyKeyOf root name
      .ok true
    else if hasPrefix name (sdServicesUnder root) then .ok true
    else if hasPrefix name peersPrefix then do
      let _ ← componentSlice name peersPrefix.components.length name.components.length
      .ok true
    else .ok false
  | .data name content =>
    if hasPrefix name (sdServiceInfoUnder root) then
      if !accepts name (content.map Subtype.val) then .ok true
      else do
        let _ ← bodyKeyOf root name
        .ok true
    else if !hasPrefix name (sdServicesUnder root) then .ok false
    else
      match content with
      | none => .ok true
      | some content =>
        match ServiceRecord.decode fromStr content.val with
        | .ok _ => .ok true
        | .err .malformed => .ok true
        | .err .unfinished => .err .unfinished
        | .panic => .panic

/-! ### Which bytes have a whole walk -/

def isNameField (typ : Nat) : Bool := typ = tAnnouncedPrefix || typ = tSdNodeName

/-- A field that has the value its type calls for. -/
def FieldReads (typ : Nat) (value : Bytes) : Prop :=
  if isNameField typ then NameReads fromStr value
  else if typ = tFreshnessMs ∨ typ = tVersion then (readNni value).isSome = true
  else typ = tSdCapabilities → value ≠ []

/-- Up to the first field that does not read, each name field is whole, and where there is no such
field the bytes after the last one are harmless. -/
def FieldsWhole (length : Nat) (rest : Bytes) : List (Nat × Bytes) → Prop
  | [] => Harmless recordWalker length rest
  | tlv :: more => (isNameField tlv.1 = true → NameWhole tlv.2) ∧
      (FieldReads fromStr tlv.1 tlv.2 → FieldsWhole length rest more)

def RecordWhole (b : Bytes) : Prop := FieldsWhole fromStr b.length (afterTlvs b) (tlvs b)

def PeersWhole (b : Bytes) : Prop :=
  (∀ tlv ∈ tlvs b, tlv.1 = tPeerEntry → NameWhole tlv.2) ∧
    Harmless peersWalker b.length (afterTlvs b)

/-- The fields of a record are inside the bytes and reach to their end, and its names are inside
their fields. -/
def RecordInside (b : Bytes) (record : ServiceRecord) : Prop :=
  ∃ fields, Tiled headerOf b fields [] ∧
    (∃ value, (tAnnouncedPrefix, value) ∈ fields ∧
      NameInside fromStr value record.announcedPrefix) ∧
    ∃ value, (tSdNodeName, value) ∈ fields ∧ NameInside fromStr value record.nodeName

def PeersInside (b : Bytes) (names : List Name) : Prop :=
  ∃ entries rest, Tiled headerOf b entries rest ∧ ∀ name ∈ names, ∃ value,
    (tPeerEntry, value) ∈ entries ∧ NameInside fromStr value name

/-- A decoder comes to its end without a panic. -/
def Ends {A : Type} (read : Read A) : Prop := read ≠ .panic ∧ read ≠ .err .unfinished

structure NeverCrashes (b : Bytes) : Prop where
  record : Ends (ServiceRecord.decode fromStr b)
  recordInside : ∀ record, ServiceRecord.decode fromStr b = .ok record →
    RecordInside fromStr b record
  peers : Ends (decodePeerList fromStr b)
  peersInside : ∀ names, decodePeerList fromStr b = .ok names → PeersInside fromStr b names

variable {fromStr root peersPrefix accepts}

/-! ### Fields -/

theorem field_panics {fields : RecordFields} {typ : Nat} {value : Bytes}
    (fits : value.length < 2 ^ 63) :
    fields.field fromStr typ value = .panic ↔ isNameField typ = true ∧ ¬ NameWhole value := by
  unfold field isNameField
  have name : ∀ next : Name → RecordFields,
      (decodeNameRaw fromStr value >>= fun name => (.ok (next name) : Read RecordFields)) =
        .panic ↔ ¬ NameWhole value := by
    intro next
    rw [bind_eq_panic, decodeNameRaw, decodeName_panics fits]
    simp
  have other : ∀ {A : Type} (found : Option A) (next : A → RecordFields),
      (okOr found Stopped.malformed >>= fun x => (.ok (next x) : Read RecordFields)) ≠
        .panic := by
    intro A found next
    cases found <;> nofun
  split
  · next first =>
    subst first
    rw [name]
    simp
  · split
    · next second =>
      subst second
      rw [name]
      simp
    · next notFirst notSecond =>
      have unnamed : (decide (typ = tAnnouncedPrefix) || decide (typ = tSdNodeName)) = false := by
        simp [notFirst, notSecond]
      rw [unnamed]
      refine iff_of_false ?_ (fun both => Bool.false_ne_true both.1)
      split
      · exact other _ _
      · split
        · exact other _ _
        · split
          · exact other _ _
          · nofun

theorem okOr_ok {A B : Type} {found : Option A} {next : A → B} :
    (∃ result, (okOr found Stopped.malformed >>= fun x => (.ok (next x) : Read B)) =
      .ok result) ↔ found.isSome = true := by
  cases found with
  | none => exact iff_of_false (fun ⟨_, read⟩ => nomatch read) Bool.false_ne_true
  | some x => exact iff_of_true ⟨_, rfl⟩ rfl

theorem field_ok {fields : RecordFields} {typ : Nat} {value : Bytes}
    (fits : value.length < 2 ^ 63) :
    (∃ next, fields.field fromStr typ value = .ok next) ↔ FieldReads fromStr typ value := by
  have name : ∀ next : Name → RecordFields,
      (∃ result, (decodeNameRaw fromStr value >>= fun name => (.ok (next name) : Read RecordFields)) =
        .ok result) ↔ NameReads fromStr value := by
    intro next
    constructor
    · rintro ⟨result, read⟩
      rcases bind_eq_ok.mp read with ⟨name, decoded, _⟩
      exact (decodeName_ok fits decoded).1
    · intro reads
      rcases decodeName_of_reads fits reads with ⟨name, decoded⟩
      exact ⟨next name, by rw [decodeNameRaw, decoded]; rfl⟩
  unfold field FieldReads isNameField
  split
  · next first =>
    rw [name, decide_eq_true first, Bool.true_or, if_pos rfl]
  · next notFirst =>
    rw [decide_eq_false notFirst, Bool.false_or]
    split
    · next second => rw [name, decide_eq_true second, if_pos rfl]
    · next notSecond =>
      rw [decide_eq_false notSecond, if_neg Bool.false_ne_true]
      split
      · next freshness => rw [okOr_ok, if_pos (.inl freshness)]
      · next notFreshness =>
        split
        · next capabilities =>
          have notVersion : typ ≠ tVersion := by
            rw [capabilities]
            decide
          rw [okOr_ok, if_neg (not_or.mpr ⟨notFreshness, notVersion⟩)]
          cases value with
          | nil => exact iff_of_false Bool.false_ne_true (fun all => all capabilities rfl)
          | cons _ _ => exact iff_of_true rfl (fun _ => nofun)
        · next notCapabilities =>
          split
          · next version => rw [okOr_ok, if_pos (.inr version)]
          · next notVersion =>
            rw [if_neg (not_or.mpr ⟨notFreshness, notVersion⟩)]
            exact iff_of_true ⟨_, rfl⟩ (fun given => absurd given notCapabilities)

variable {fields : RecordFields} {b : Bytes}

theorem field_ne_unfinished {typ : Nat} {value : Bytes}
    (fits : value.length < 2 ^ 63) : fields.field fromStr typ value ≠ .err .unfinished := by
  have name : ∀ next : Name → RecordFields,
      (decodeNameRaw fromStr value >>= fun name => (.ok (next name) : Read RecordFields)) ≠
        .err .unfinished := by
    intro next unfinished
    cases decoded : decodeNameRaw fromStr value with
    | ok name =>
      rw [decoded] at unfinished
      cases unfinished
    | err why =>
      rw [decoded] at unfinished
      cases unfinished
      exact decodeName_ne_unfinished fits decoded
    | panic =>
      rw [decoded] at unfinished
      cases unfinished
  have other : ∀ {A : Type} (found : Option A) (next : A → RecordFields),
      (okOr found Stopped.malformed >>= fun x => (.ok (next x) : Read RecordFields)) ≠
        .err .unfinished := by
    intro A found next
    cases found <;> nofun
  unfold field
  split
  · exact name _
  · split
    · exact name _
    · split
      · exact other _ _
      · split
        · exact other _ _
        · split
          · exact other _ _
          · nofun

/-! ### Records -/

/-- A walk over fields panics where they are not whole. -/
theorem through_panics {length : Nat} {rest : Bytes} {fields : List (Nat × Bytes)}
    (fit : ∀ tlv ∈ fields, tlv.2.length < 2 ^ 63) (state : RecordFields) :
    through recordWalker (field fromStr) length state (fields, rest) = .panic ↔
      ¬ FieldsWhole fromStr length rest fields := by
  induction fields generalizing state with
  | nil =>
    unfold through FieldsWhole
    rw [List.foldlM_nil, pure_eq, ok_bind, ending_panics]
  | cons tlv more ih =>
    have fits := fit tlv List.mem_cons_self
    have panics := @field_panics fromStr state tlv.1 tlv.2 fits
    have ok := @field_ok fromStr state tlv.1 tlv.2 fits
    have later := ih fun other among => fit other (List.mem_cons_of_mem _ among)
    unfold through at later ⊢
    rw [List.foldlM_cons]
    cases read : state.field fromStr tlv.1 tlv.2 with
    | ok next =>
      have whole : isNameField tlv.1 = true → NameWhole tlv.2 := by
        intro named
        by_contra harmed
        rw [read] at panics
        exact nomatch panics.mpr ⟨named, harmed⟩
      have reads := ok.mp ⟨next, read⟩
      rw [ok_bind, later next]
      exact ⟨fun notMore all => notMore (all.2 reads),
        fun notAll more => notAll ⟨whole, fun _ => more⟩⟩
    | err why =>
      refine iff_of_false nofun (not_not.mpr ⟨?_, ?_⟩)
      · intro named
        by_contra harmed
        rw [read] at panics
        exact nomatch panics.mpr ⟨named, harmed⟩
      · intro reads
        rcases ok.mpr reads with ⟨_, read'⟩
        rw [read] at read'
        cases read'
    | panic =>
      rcases panics.mp read with ⟨named, harmed⟩
      exact iff_of_true rfl fun all => harmed (all.1 named)

theorem tlvs_fit (fits : b.length < 2 ^ 63) :
    ∀ tlv ∈ tlvs b, tlv.2.length < 2 ^ 63 := by
  have tiled : Tiled headerOf b _ _ := tiled_split b
  intro tlv among
  exact (tiled.length_le tlv among).trans_lt fits

theorem finish_ne_panic (fields : RecordFields) : fields.finish ≠ .panic := by
  unfold finish
  cases fields.announcedPrefix with
  | none => nofun
  | some _ => cases fields.nodeName <;> nofun

theorem finish_ne_unfinished (fields : RecordFields) : fields.finish ≠ .err .unfinished := by
  unfold finish
  cases fields.announcedPrefix with
  | none => nofun
  | some _ => cases fields.nodeName <;> nofun

theorem decode_panics {b : Bytes} (fits : b.length < 2 ^ 63) :
    ServiceRecord.decode fromStr b = .panic ↔ ¬ RecordWhole fromStr b := by
  unfold ServiceRecord.decode RecordWhole
  rw [walkAll_eq _ _ fits, Outcome.bind_eq_panic, ← @through_panics fromStr b.length (afterTlvs b)
    (tlvs b) (tlvs_fit fits) ⟨none, none, 0, 0, 0⟩]
  constructor
  · rintro (panics | ⟨_, _, panics⟩)
    · exact panics
    · exact absurd panics (finish_ne_panic _)
  · exact .inl

theorem decode_ne_unfinished {b : Bytes} (fits : b.length < 2 ^ 63) :
    ServiceRecord.decode fromStr b ≠ .err .unfinished := by
  unfold ServiceRecord.decode
  rw [walkAll_eq _ _ fits]
  cases read : through recordWalker (field fromStr) b.length
      (⟨none, none, 0, 0, 0⟩ : RecordFields) (split headerOf b) with
  | ok fields => exact finish_ne_unfinished fields
  | err why =>
    rintro ⟨⟩
    refine through_ne_unfinished ?_ read
    exact fun _ tlv among => field_ne_unfinished (tlvs_fit fits tlv among)
  | panic => nofun

/-- The names that were read so far are inside their fields. -/
structure NamesInside (fromStr : List Char → Option Name) (all : List (Nat × Bytes))
    (fields : RecordFields) : Prop where
  announced : ∀ name, fields.announcedPrefix = some name →
    ∃ value, (tAnnouncedPrefix, value) ∈ all ∧ NameInside fromStr value name
  node : ∀ name, fields.nodeName = some name →
    ∃ value, (tSdNodeName, value) ∈ all ∧ NameInside fromStr value name

theorem NamesInside.field {all : List (Nat × Bytes)} {next : RecordFields}
    (inside : NamesInside fromStr all fields) {tlv : Nat × Bytes} (among : tlv ∈ all)
    (fits : tlv.2.length < 2 ^ 63) (read : fields.field fromStr tlv.1 tlv.2 = .ok next) :
    NamesInside fromStr all next := by
  unfold RecordFields.field at read
  split at read
  · next first =>
    rcases bind_eq_ok.mp read with ⟨name, decoded, same⟩
    cases same
    refine ⟨?_, inside.node⟩
    rintro _ ⟨⟩
    exact ⟨tlv.2, first ▸ among, (decodeName_ok fits decoded).2⟩
  · split at read
    · next second =>
      rcases bind_eq_ok.mp read with ⟨name, decoded, same⟩
      cases same
      refine ⟨inside.announced, ?_⟩
      rintro _ ⟨⟩
      exact ⟨tlv.2, second ▸ among, (decodeName_ok fits decoded).2⟩
    · split at read
      · rcases bind_eq_ok.mp read with ⟨_, _, same⟩
        cases same
        exact ⟨inside.announced, inside.node⟩
      · split at read
        · rcases bind_eq_ok.mp read with ⟨_, _, same⟩
          cases same
          exact ⟨inside.announced, inside.node⟩
        · split at read
          · rcases bind_eq_ok.mp read with ⟨_, _, same⟩
            cases same
            exact ⟨inside.announced, inside.node⟩
          · cases read
            exact inside

theorem finish_ok {record : ServiceRecord}
    (finished : fields.finish = .ok record) :
    fields.announcedPrefix = some record.announcedPrefix ∧
      fields.nodeName = some record.nodeName := by
  unfold finish at finished
  cases announced : fields.announcedPrefix with
  | none =>
    rw [announced] at finished
    cases finished
  | some _ =>
    cases node : fields.nodeName with
    | none =>
      rw [announced, node] at finished
      cases finished
    | some _ =>
      rw [announced, node] at finished
      cases finished
      exact ⟨rfl, rfl⟩

theorem decode_inside (fits : b.length < 2 ^ 63) {record : ServiceRecord}
    (decoded : ServiceRecord.decode fromStr b = .ok record) : RecordInside fromStr b record := by
  unfold ServiceRecord.decode at decoded
  rw [walkAll_eq _ _ fits] at decoded
  rcases bind_eq_ok.mp decoded with ⟨fields, walked, finished⟩
  rcases bind_eq_ok.mp walked with ⟨read, folded, ended⟩
  rcases (ending_ok rfl).mp ended with ⟨last, rfl⟩
  have inside : NamesInside fromStr (tlvs b) read := by
    have first : NamesInside fromStr (tlvs b) ⟨none, none, 0, 0, 0⟩ :=
      ⟨by rintro _ ⟨⟩, by rintro _ ⟨⟩⟩
    refine fold_keeps ?_ first folded
    intro state tlv among before next here
    exact before.field among (tlvs_fit fits tlv among) here
  rcases finish_ok finished with ⟨announced, node⟩
  have tiled : Tiled headerOf b _ _ := tiled_split b
  rw [last] at tiled
  exact ⟨tlvs b, tiled, inside.announced _ announced, inside.node _ node⟩

/-! ### Peer lists -/

theorem peerField_panics {peers : List Name} {typ : Nat} {value : Bytes}
    (fits : value.length < 2 ^ 63) :
    peerField fromStr peers typ value = .panic ↔ typ = tPeerEntry ∧ ¬ NameWhole value := by
  unfold peerField
  split
  · next entry =>
    rw [← @decodeName_panics fromStr value fits]
    unfold decodeNameTlv
    cases decodeName fromStr value with
    | ok _ => exact iff_of_false nofun (fun both => nomatch both.2)
    | err why => cases why <;> exact iff_of_false nofun (fun both => nomatch both.2)
    | panic => exact iff_of_true rfl ⟨entry, rfl⟩
  · next other => exact iff_of_false nofun (fun both => other both.1)

theorem peerField_ne_err {peers : List Name} {typ : Nat} {value : Bytes}
    (fits : value.length < 2 ^ 63) (why : Stopped) :
    peerField fromStr peers typ value ≠ .err why := by
  unfold peerField
  split
  · cases decoded : decodeNameTlv fromStr value with
    | ok _ => nofun
    | err why =>
      cases why with
      | malformed => nofun
      | unfinished => exact absurd decoded (decodeName_ne_unfinished fits)
    | panic => nofun
  · nofun

theorem decodePeerList_panics (fits : b.length < 2 ^ 63) :
    decodePeerList fromStr b = .panic ↔ ¬ PeersWhole b := by
  have entries : ∀ entries : List (Nat × Bytes), (∀ tlv ∈ entries, tlv.2.length < 2 ^ 63) →
      ∀ peers : List Name,
        through peersWalker (peerField fromStr) b.length peers (entries, afterTlvs b) = .panic ↔
          ¬ ((∀ tlv ∈ entries, tlv.1 = tPeerEntry → NameWhole tlv.2) ∧
            Harmless peersWalker b.length (afterTlvs b)) := by
    intro entries
    induction entries with
    | nil =>
      intro _ peers
      unfold through
      rw [List.foldlM_nil, pure_eq, ok_bind, ending_panics]
      simp
    | cons tlv more ih =>
      intro fit peers
      have fits := fit tlv List.mem_cons_self
      have panics := @peerField_panics fromStr peers tlv.1 tlv.2 fits
      have later := ih fun other among => fit other (List.mem_cons_of_mem _ among)
      unfold through at later ⊢
      rw [List.foldlM_cons, List.forall_mem_cons, and_assoc]
      cases read : peerField fromStr peers tlv.1 tlv.2 with
      | ok next =>
        have whole : tlv.1 = tPeerEntry → NameWhole tlv.2 := by
          intro entry
          by_contra harmed
          rw [read] at panics
          exact nomatch panics.mpr ⟨entry, harmed⟩
        rw [ok_bind, later next]
        exact ⟨fun notMore all => notMore all.2, fun notAll more => notAll ⟨whole, more⟩⟩
      | err why => exact absurd read (peerField_ne_err fits why)
      | panic =>
        rcases panics.mp read with ⟨entry, harmed⟩
        exact iff_of_true rfl fun all => harmed (all.1 entry)
  unfold decodePeerList
  rw [walkAll_eq _ _ fits]
  exact entries (tlvs b) (tlvs_fit fits) []

theorem decodePeerList_ne_unfinished (fits : b.length < 2 ^ 63) :
    decodePeerList fromStr b ≠ .err .unfinished := by
  unfold decodePeerList
  rw [walkAll_eq _ _ fits]
  refine through_ne_unfinished ?_
  exact fun _ tlv among => peerField_ne_err (tlvs_fit fits tlv among) _

theorem decodePeerList_inside (fits : b.length < 2 ^ 63) {names : List Name}
    (decoded : decodePeerList fromStr b = .ok names) : PeersInside fromStr b names := by
  unfold decodePeerList at decoded
  rw [walkAll_eq _ _ fits] at decoded
  rcases bind_eq_ok.mp decoded with ⟨read, folded, ended⟩
  have same : read = names := by
    unfold ending at ended
    split at ended
    · cases ended
      rfl
    · split at ended
      · cases ended
      · split at ended
        · cases ended
          rfl
        · split at ended <;> cases ended
  subst same
  have tiled : Tiled headerOf b _ _ := tiled_split b
  refine ⟨tlvs b, afterTlvs b, tiled, ?_⟩
  have first : ∀ name ∈ ([] : List Name), ∃ value,
      (tPeerEntry, value) ∈ tlvs b ∧ NameInside fromStr value name :=
    fun _ among => nomatch among
  refine @fold_keeps _ _ (fun names => ∀ name ∈ names, ∃ value,
    (tPeerEntry, value) ∈ tlvs b ∧ NameInside fromStr value name) _ ?_ _ _ first folded
  intro state tlv among before next here
  unfold peerField at here
  split at here
  · next entry =>
    cases decoded : decodeNameTlv fromStr tlv.2 with
    | ok name =>
      rw [decoded] at here
      cases here
      intro other listed
      rcases List.mem_append.mp listed with earlier | new
      · exact before other earlier
      · rw [List.mem_singleton] at new
        subst new
        exact ⟨tlv.2, entry ▸ among, (decodeName_ok (tlvs_fit fits tlv among) decoded).2⟩
    | err why =>
      rw [decoded] at here
      cases why with
      | malformed =>
        cases here
        exact before
      | unfinished => cases here
    | panic =>
      rw [decoded] at here
      cases here
  · cases here
    exact before

/-! ### Every byte sequence and every packet -/

theorem bodyKeyOf_ends (root name : Name) : Ends (bodyKeyOf root name) := by
  unfold bodyKeyOf
  dsimp only
  split
  · exact ⟨nofun, nofun⟩
  · next long =>
    have inside : root.components.length + 1 < name.components.length := by omega
    rw [List.getElem?_eq_getElem inside, u64Sub_ok (by omega)]
    unfold componentSlice checked
    rw [ok_bind, ok_bind, if_pos (by omega)]
    exact ⟨nofun, nofun⟩

theorem componentSlice_ends {name front : Name} (prefixed : hasPrefix name front = true) :
    Ends (componentSlice name front.components.length name.components.length) := by
  have shorter := (hasPrefix_iff.mp prefixed).length_le
  unfold componentSlice
  rw [if_pos ⟨shorter, le_rfl⟩]
  exact ⟨nofun, nofun⟩

theorem Ends.then_ok {A B : Type} {read : Read A} (ends : Ends read) (result : B) :
    Ends (read >>= fun _ => (.ok result : Read B)) := by
  cases read with
  | ok _ => exact ⟨nofun, nofun⟩
  | err why =>
    cases why with
    | malformed => exact ⟨nofun, nofun⟩
    | unfinished => exact absurd rfl ends.2
  | panic => exact absurd rfl ends.1

/-- Every packet is taken to its end, up to the content of a record. -/
theorem onInbound_ends_iff (packet : Inbound) :
    Ends (onInbound fromStr root peersPrefix accepts packet) ↔
      ∀ name content, packet = .data name (some content) →
        hasPrefix name (sdServiceInfoUnder root) = false →
        hasPrefix name (sdServicesUnder root) = true → RecordWhole fromStr content.val := by
  cases packet with
  | interest name =>
    refine iff_of_true ?_ nofun
    unfold onInbound
    dsimp only
    split
    · exact (bodyKeyOf_ends root name).then_ok true
    · split
      · exact ⟨nofun, nofun⟩
      · split
        · next peers => exact (componentSlice_ends peers).then_ok true
        · exact ⟨nofun, nofun⟩
  | data name content =>
    unfold onInbound
    dsimp only
    split
    · next body =>
      constructor
      · rintro _ _ _ ⟨⟩ notBody
        rw [body] at notBody
        cases notBody
      · intro _
        split
        · exact ⟨nofun, nofun⟩
        · exact (bodyKeyOf_ends root name).then_ok true
    · next notBody =>
      split
      · next other =>
        rw [Bool.not_eq_true'] at other
        refine iff_of_true ⟨nofun, nofun⟩ ?_
        rintro _ _ ⟨⟩ _ services
        rw [other] at services
        cases services
      · next services =>
        rw [Bool.not_eq_true', Bool.not_eq_false] at services
        rw [Bool.not_eq_true] at notBody
        cases content with
        | none => exact iff_of_true ⟨nofun, nofun⟩ nofun
        | some content =>
          dsimp only
          have panics := @decode_panics fromStr content.val content.property
          have ends := @decode_ne_unfinished fromStr content.val content.property
          cases decoded : ServiceRecord.decode fromStr content.val with
          | ok record =>
            rw [decoded] at panics
            refine iff_of_true ⟨nofun, nofun⟩ ?_
            rintro _ _ ⟨⟩ _ _
            by_contra harmed
            exact nomatch panics.mpr harmed
          | err why =>
            cases why with
            | malformed =>
              rw [decoded] at panics
              refine iff_of_true ⟨nofun, nofun⟩ ?_
              rintro _ _ ⟨⟩ _ _
              by_contra harmed
              exact nomatch panics.mpr harmed
            | unfinished => exact absurd decoded ends
          | panic =>
            refine iff_of_false (fun both => both.1 rfl) ?_
            intro all
            exact panics.mp decoded (all name content rfl notBody services)

theorem neverCrashes_iff (b : ByteSlice) :
    NeverCrashes fromStr b.val ↔ RecordWhole fromStr b.val ∧ PeersWhole b.val := by
  rcases b with ⟨b, fits⟩
  constructor
  · intro never
    constructor
    · by_contra harmed
      exact never.record.1 ((decode_panics fits).mpr harmed)
    · by_contra harmed
      exact never.peers.1 ((decodePeerList_panics fits).mpr harmed)
  · rintro ⟨record, peers⟩
    refine ⟨⟨?_, decode_ne_unfinished fits⟩, fun _ => decode_inside fits,
      ⟨?_, decodePeerList_ne_unfinished fits⟩, fun _ => decodePeerList_inside fits⟩
    · exact fun panics => (decode_panics fits).mp panics record
    · exact fun panics => (decodePeerList_panics fits).mp panics peers

variable (fromStr root peersPrefix accepts)

/-- The decoders get through bytes whose walks are whole, and `onInbound` through a packet unless
it brings a record that is not. -/
theorem never_crash_iff (b : ByteSlice) (packet : Inbound) :
    (NeverCrashes fromStr b.val ↔ RecordWhole fromStr b.val ∧ PeersWhole b.val) ∧
    (Ends (onInbound fromStr root peersPrefix accepts packet) ↔
      ∀ name content, packet = .data name (some content) →
        hasPrefix name (sdServiceInfoUnder root) = false →
        hasPrefix name (sdServicesUnder root) = true → RecordWhole fromStr content.val) :=
  ⟨neverCrashes_iff b, onInbound_ends_iff packet⟩

/-- One byte is enough: it tells of a number of four bytes that are not there. -/
theorem one_byte_crashes :
    ¬ NeverCrashes (fun _ => some .root) [0xFE] ∧
      ¬ Ends (onInbound (fun _ => some .root) .root .root (fun _ _ => true)
        (.data (sdServicesUnder .root) (some ⟨[0xFE], by decide⟩))) := by
  constructor
  · intro never
    exact never.record.1 (by decide +kernel)
  · intro ends
    exact ends.1 (by decide +kernel)

end Inbound

end NdnExt.Discovery
