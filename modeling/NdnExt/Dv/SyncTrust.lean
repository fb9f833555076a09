import NdnExt.Dv.PfxSync
import NdnExt.Dv.Sync
import NdnExt.Packet.NdnTlv

/-! What a trust policy keeps out of Advertisement Sync and Prefix Sync. -/

namespace NdnExt.Dv

open NdnExt.Lib List

/-- The packets that carry state vectors. -/
structure SyncPackets where
  Data : Type
  SvsLocalError : Type
  appParameters : List UInt8 → Option (Option (List UInt8))
  decodeData : List UInt8 → Option Data
  content : Data → Option (List UInt8)
  decodeSvsData : List UInt8 → Except SvsLocalError (List SvsEntry)

/-- `DvSyncError` and `DvPfxSyncError`. -/
inductive SyncError (E : Type) where
  | interestDecode
  | missingAppParam
  | dataDecode
  | svs (error : E)

variable {S : Type} (api : SvsLocal S)

namespace SvsLocal

def advances (svs : S) (entry : SvsEntry) : Bool :=
  decide (entry.name ≠ api.router svs) &&
    match api.neighbor svs entry.name with
    | none => true
    | some known => decide (toLex known < toLex (entry.boot, entry.seq))

/-- What `apply_entry` returns for each entry in turn. -/
def advancesOf (svs : S) : List SvsEntry → List NeighborAdvance
  | [] => []
  | entry :: rest =>
    (if api.advances svs entry then [⟨entry.name, entry.boot, entry.seq⟩] else []) ++
      advancesOf (api.applyEntry svs entry) rest

end SvsLocal

/-- The sync state of a router: Advertisement Sync, Prefix Sync, the queues to the fetcher, and
whether the next tick relays a Prefix Sync Interest. -/
structure SyncNode (S : Type) where
  adv : DvSync S
  advQueue : List NeighborAdvance
  pfx : PfxReceiver S
  pfxChanged : Bool

inductive SyncNodeEvent where
  | advInterest (interest : List UInt8) (incomingFace : Nat) (kind : SyncKind) (now : Nat)
  | pfxInterest (appParam : Option (List UInt8))
  | startAdvFetch
  | markAdvFetched (adv : NeighborAdvance)
  | forgetNeighbor (neighbor : Name)
  | queueUnfetched
  | startPfxFetch
  | markPfxFetched (adv : NeighborAdvance)
  | readvertise
  | tick

section Receiving

variable (packets : SyncPackets) (trust : packets.Data → Bool)

/-- `process_sync_interest` from the bytes of the Interest. -/
def DvSync.processInterest (sync : DvSync S) (interest : List UInt8) (incomingFace : Nat)
    (kind : SyncKind) (now : Nat) :
    DvSync S × Except (SyncError packets.SvsLocalError) SyncReceipt :=
  match packets.appParameters interest with
  | none => (sync, .error .interestDecode)
  | some none => (sync, .error .missingAppParam)
  | some (some appParam) =>
    match packets.decodeData appParam with
    | none => (sync, .error .dataDecode)
    | some data =>
      if !trust data then (sync, .ok ⟨[], []⟩)
      else
        match packets.decodeSvsData ((packets.content data).getD []) with
        | .error error => (sync, .error (.svs error))
        | .ok entries =>
          let (sync, receipt) := sync.processSyncInterest api entries incomingFace kind now
          (sync, .ok receipt)

/-- The trust policy is not asked. -/
def PfxReceiver.processSyncAppParam (receiver : PfxReceiver S) (appParam : List UInt8) :
    PfxReceiver S × Except (SyncError packets.SvsLocalError) (List NeighborAdvance) :=
  match packets.decodeData appParam with
  | none => (receiver, .error .dataDecode)
  | some data =>
    match packets.decodeSvsData ((packets.content data).getD []) with
    | .error error => (receiver, .error (.svs error))
    | .ok entries =>
      (receiver.processEntries api entries, .ok (api.advancesOf receiver.svs entries))

def PfxReceiver.startFetch (receiver : PfxReceiver S) : PfxReceiver S :=
  match receiver.channel with
  | [] => receiver
  | queued :: rest =>
    let (fetches, adv) := receiver.fetches.start api receiver.svs queued.name
    { receiver with
      fetches := fetches, channel := rest, fetcher := (adv.map Fetcher.fetching).getD .idle }

namespace SyncNode

/-- `on_inbound`: a Sync Interest of the neighbours. -/
def onInbound (node : SyncNode S) (interest : List UInt8) (incomingFace : Nat) (kind : SyncKind)
    (now : Nat) : SyncNode S :=
  match node.adv.processInterest api packets trust interest incomingFace kind now with
  | (adv, .ok receipt) => { node with adv := adv, advQueue := node.advQueue ++ receipt.fetches }
  | (adv, .error _) => { node with adv := adv }

/-- `producer_loop`: a Prefix Sync Interest. -/
def serveSync (node : SyncNode S) : Option (List UInt8) → SyncNode S
  | none => node
  | some appParam =>
    match node.pfx.processSyncAppParam api packets appParam with
    | (pfx, .ok advances) =>
      { node with
        pfx := pfx.queueUnfetched api, pfxChanged := node.pfxChanged || !advances.isEmpty }
    | (pfx, .error _) => { node with pfx := pfx }

def startAdvFetch (node : SyncNode S) : SyncNode S :=
  match node.advQueue with
  | [] => node
  | queued :: rest => { node with adv := (node.adv.startFetch api queued.name).1, advQueue := rest }

def step (node : SyncNode S) : SyncNodeEvent → SyncNode S
  | .advInterest interest incomingFace kind now =>
    node.onInbound api packets trust interest incomingFace kind now
  | .pfxInterest appParam => node.serveSync api packets appParam
  | .startAdvFetch => node.startAdvFetch api
  | .markAdvFetched adv => { node with adv := node.adv.markFetched adv }
  | .forgetNeighbor neighbor => { node with adv := node.adv.forgetNeighbor neighbor }
  | .queueUnfetched => { node with pfx := node.pfx.queueUnfetched api }
  | .startPfxFetch => { node with pfx := node.pfx.startFetch api }
  | .markPfxFetched adv =>
    { node with pfx := { node.pfx with fetches := node.pfx.fetches.markApplied adv } }
  | .readvertise => { node with pfxChanged := true }
  | .tick => { node with pfxChanged := false }

end SyncNode

/-- The inner Data of a Sync Interest. -/
def SyncNodeEvent.innerData : SyncNodeEvent → Option packets.Data
  | .advInterest interest _ _ _ => (packets.appParameters interest).join.bind packets.decodeData
  | .pfxInterest appParam => appParam.bind packets.decodeData
  | _ => none

/-- The event is a Sync Interest whose inner Data the policy rejects. -/
def SyncNodeEvent.rejected (event : SyncNodeEvent) : Bool :=
  (event.innerData packets).any (fun data => !trust data)

/-- A rejected Sync Interest leaves the state as it was. -/
def SyncNode.Unaffected (node : SyncNode S) (event : SyncNodeEvent) : Prop :=
  event.rejected packets trust → node.step api packets trust event = node

/-- Nothing in the state vector is newer than what is known, and every known version is applied
or being fetched. -/
def PfxReceiver.UpToDate (receiver : PfxReceiver S) (entries : List SvsEntry) : Prop :=
  (∀ entry ∈ entries, api.advances receiver.svs entry = false) ∧
    ∀ router ∈ api.neighbors receiver.svs,
      receiver.fetches.applied.lookup router.name = some router.version ∨
        router.name ∈ receiver.fetches.queued

/-- A rejected Prefix Sync Interest whose state vector is read tells nothing new. -/
def SyncNode.NothingNew (node : SyncNode S) : SyncNodeEvent → Prop
  | .pfxInterest appParam => ∀ data entries, appParam.bind packets.decodeData = some data →
      trust data = false → packets.decodeSvsData ((packets.content data).getD []) = .ok entries →
        node.pfx.UpToDate api entries
  | _ => True

end Receiving

variable {api}

section StateVector

theorem router_foldl (entries : List SvsEntry) (svs : S) :
    api.router (entries.foldl api.applyEntry svs) = api.router svs := by
  induction entries generalizing svs with
  | nil => rfl
  | cons entry rest ih => rw [foldl_cons, ih, api.router_applyEntry]

theorem not_advances {svs : S} {entry : SvsEntry} :
    api.advances svs entry = false ↔
      entry.name = api.router svs ∨ ∃ known, api.neighbor svs entry.name = some known ∧
        toLex (entry.boot, entry.seq) ≤ toLex known := by
  unfold SvsLocal.advances
  rw [Bool.and_eq_false_iff, decide_eq_false_iff_not, not_not]
  apply or_congr_right
  cases api.neighbor svs entry.name with
  | none =>
    constructor
    · nofun
    · rintro ⟨known, absent, -⟩
      cases absent
  | some known =>
    rw [decide_eq_false_iff_not, not_lt]
    constructor
    · intro old
      exact ⟨known, rfl, old⟩
    · intro ⟨known', same, old⟩
      cases same
      exact old

theorem told_le_newer (known : Option Version) (told : Version) :
    toLex told ≤ toLex (newer known told) := by
  cases known with
  | none => exact le_rfl
  | some known =>
    simp only [newer]
    split
    · exact le_rfl
    · exact not_lt.mp ‹_›

/-- After all entries no version known is older than one they tell. -/
theorem told_of_foldl {svs : S} {entries : List SvsEntry} {entry : SvsEntry}
    (member : entry ∈ entries) (foreign : entry.name ≠ api.router svs) :
    ∃ known, api.neighbor (entries.foldl api.applyEntry svs) entry.name = some known ∧
      toLex (entry.boot, entry.seq) ≤ toLex known := by
  rcases append_of_mem member with ⟨before, after, rfl⟩
  have told := api.neighbor_applyEntry (before.foldl api.applyEntry svs) entry entry.name
    (by rw [router_foldl]; exact foreign)
  rw [if_pos rfl] at told
  rcases api.neighbor_grows after _ told with ⟨known, found, later⟩
  refine ⟨known, ?_, (told_le_newer _ _).trans later⟩
  rw [foldl_append, foldl_cons]
  exact found

/-- The state vector stays as it is under exactly the entries that tell nothing newer. -/
theorem foldl_applyEntry_iff
    (settled : ∀ (svs : S) entry, api.advances svs entry = false → api.applyEntry svs entry = svs)
    {svs : S} {entries : List SvsEntry} :
    entries.foldl api.applyEntry svs = svs ↔
      ∀ entry ∈ entries, api.advances svs entry = false := by
  constructor
  · intro same entry member
    rw [not_advances]
    by_cases own : entry.name = api.router svs
    · exact Or.inl own
    · have told := told_of_foldl member own
      rw [same] at told
      exact Or.inr told
  · intro old
    induction entries with
    | nil => rfl
    | cons entry rest ih =>
      rw [foldl_cons, settled svs entry (old entry mem_cons_self)]
      exact ih (fun later member => old later (mem_cons_of_mem _ member))

theorem advancesOf_eq_nil
    (settled : ∀ (svs : S) entry, api.advances svs entry = false → api.applyEntry svs entry = svs)
    {svs : S} {entries : List SvsEntry} (old : ∀ entry ∈ entries, api.advances svs entry = false) :
    api.advancesOf svs entries = [] := by
  induction entries with
  | nil => rfl
  | cons entry rest ih =>
    have first := old entry mem_cons_self
    rw [SvsLocal.advancesOf, settled svs entry first, if_neg (by rw [first]; decide)]
    exact ih (fun later member => old later (mem_cons_of_mem _ member))

end StateVector

section Queues

/-- Queueing changes nothing exactly when every listed version is applied or being fetched. -/
theorem queueEach_iff {tracker : FetchTracker} {routers : List NeighborAdvance} :
    tracker.queueEach routers = (tracker, []) ↔
      ∀ router ∈ routers, tracker.applied.lookup router.name = some router.version ∨
        router.name ∈ tracker.queued := by
  constructor
  · intro same router member
    by_contra open'
    rw [not_or] at open'
    have queued := (FetchTracker.queued_queueEach tracker routers).2 router member open'.1
    rw [same] at queued
    exact open'.2 queued
  · intro settled
    induction routers with
    | nil => rfl
    | cons router rest ih =>
      have first : tracker.queueState router.name router.version = (tracker, none) := by
        unfold FetchTracker.queueState
        rw [if_neg]
        intro ⟨unapplied, unqueued⟩
        exact (settled router mem_cons_self).elim unapplied unqueued
      unfold FetchTracker.queueEach
      rw [first]
      dsimp only
      rw [ih (fun later member => settled later (mem_cons_of_mem _ member))]
      rfl

end Queues

section Receipts

variable {packets : SyncPackets} {trust : packets.Data → Bool}

/-- A rejected Sync Interest of the neighbours yields an empty receipt. -/
theorem processInterest_rejected {sync : DvSync S} {interest : List UInt8} {incomingFace : Nat}
    {kind : SyncKind} {now : Nat} {data : packets.Data}
    (carries : (packets.appParameters interest).join.bind packets.decodeData = some data)
    (rejects : trust data = false) :
    sync.processInterest api packets trust interest incomingFace kind now =
      (sync, .ok ⟨[], []⟩) := by
  unfold DvSync.processInterest
  rcases Option.bind_eq_some_iff.mp carries with ⟨appParam, found, decoded⟩
  rw [Option.join_eq_some_iff.mp found]
  dsimp only
  rw [decoded]
  dsimp only
  rw [rejects]
  rfl

theorem serveSync_ok {node : SyncNode S} {appParam : List UInt8} {data : packets.Data}
    {entries : List SvsEntry} (decoded : packets.decodeData appParam = some data)
    (read : packets.decodeSvsData ((packets.content data).getD []) = .ok entries) :
    node.serveSync api packets (some appParam) =
      { node with
        pfx := (node.pfx.processEntries api entries).queueUnfetched api
        pfxChanged := node.pfxChanged || !(api.advancesOf node.pfx.svs entries).isEmpty } := by
  unfold SyncNode.serveSync PfxReceiver.processSyncAppParam
  dsimp only
  rw [decoded]
  dsimp only
  rw [read]

theorem serveSync_eq_self
    (settled : ∀ (svs : S) entry, api.advances svs entry = false → api.applyEntry svs entry = svs)
    {node : SyncNode S} {appParam : List UInt8} {data : packets.Data}
    (decoded : packets.decodeData appParam = some data) :
    node.serveSync api packets (some appParam) = node ↔
      ∀ entries, packets.decodeSvsData ((packets.content data).getD []) = .ok entries →
        node.pfx.UpToDate api entries := by
  cases read : packets.decodeSvsData ((packets.content data).getD []) with
  | error error =>
    unfold SyncNode.serveSync PfxReceiver.processSyncAppParam
    dsimp only
    rw [decoded]
    dsimp only
    rw [read]
    exact iff_of_true rfl (by nofun)
  | ok entries =>
    rw [serveSync_ok decoded read]
    constructor
    · intro same other found
      cases found
      have vector : entries.foldl api.applyEntry node.pfx.svs = node.pfx.svs :=
        congrArg (fun node => node.pfx.svs) same
      have fetches : (node.pfx.fetches.queueAll api
          (entries.foldl api.applyEntry node.pfx.svs)).1 = node.pfx.fetches :=
        congrArg (fun node => node.pfx.fetches) same
      have channel : node.pfx.channel ++ (node.pfx.fetches.queueAll api
          (entries.foldl api.applyEntry node.pfx.svs)).2 = node.pfx.channel :=
        congrArg (fun node => node.pfx.channel) same
      rw [vector] at fetches channel
      exact ⟨(foldl_applyEntry_iff settled).mp vector,
        queueEach_iff.mp (Prod.ext fetches (append_right_eq_self.mp channel))⟩
    · intro upToDate
      rcases upToDate entries rfl with ⟨old, settled'⟩
      have vector : node.pfx.processEntries api entries = node.pfx := by
        unfold PfxReceiver.processEntries
        rw [(foldl_applyEntry_iff settled).mpr old]
      have queue : node.pfx.queueUnfetched api = node.pfx := by
        unfold PfxReceiver.queueUnfetched FetchTracker.queueAll
        rw [queueEach_iff.mpr settled']
        dsimp only
        rw [append_nil]
      rw [vector, queue, advancesOf_eq_nil settled old, isEmpty_nil, Bool.not_true,
        Bool.or_false]

theorem unaffected_iff
    (settled : ∀ (svs : S) entry, api.advances svs entry = false → api.applyEntry svs entry = svs)
    (node : SyncNode S) (event : SyncNodeEvent) :
    node.Unaffected api packets trust event ↔ node.NothingNew api packets trust event := by
  have carries : event.rejected packets trust ↔
      ∃ data, event.innerData packets = some data ∧ trust data = false := by
    unfold SyncNodeEvent.rejected
    rw [Option.any_eq_true]
    simp only [Bool.not_eq_true']
  unfold SyncNode.Unaffected
  rw [carries]
  cases event with
  | advInterest interest incomingFace kind now =>
    apply iff_of_true _ trivial
    intro ⟨data, found, rejects⟩
    change node.onInbound api packets trust interest incomingFace kind now = node
    unfold SyncNode.onInbound
    rw [processInterest_rejected found rejects]
    dsimp only
    rw [append_nil]
  | pfxInterest appParam =>
    cases appParam with
    | none => exact iff_of_true (fun _ => rfl) (by nofun)
    | some appParam =>
      constructor
      · intro same data entries decoded rejects read
        exact (serveSync_eq_self settled decoded).mp (same ⟨data, decoded, rejects⟩) entries read
      · intro nothing ⟨data, decoded, rejects⟩
        apply (serveSync_eq_self settled decoded).mpr
        intro entries read
        exact nothing data entries decoded rejects read
  | startAdvFetch => exact iff_of_true (by nofun) trivial
  | markAdvFetched adv => exact iff_of_true (by nofun) trivial
  | forgetNeighbor neighbor => exact iff_of_true (by nofun) trivial
  | queueUnfetched => exact iff_of_true (by nofun) trivial
  | startPfxFetch => exact iff_of_true (by nofun) trivial
  | markPfxFetched adv => exact iff_of_true (by nofun) trivial
  | readvertise => exact iff_of_true (by nofun) trivial
  | tick => exact iff_of_true (by nofun) trivial

/-- Inputs that leave the state as it was can be left out of a run. -/
theorem foldl_filter {node : SyncNode S} {events : List SyncNodeEvent}
    (unaffected : Run.Throughout (SyncNode.step api packets trust) node events
      (SyncNode.Unaffected api packets trust)) :
    events.foldl (SyncNode.step api packets trust) node =
      (events.filter (fun event => !event.rejected packets trust)).foldl
        (SyncNode.step api packets trust) node := by
  induction events generalizing node with
  | nil => rfl
  | cons event rest ih =>
    rw [Run.throughout_cons] at unaffected
    rw [foldl_cons, ih unaffected.2]
    cases rejects : event.rejected packets trust with
    | true =>
      rw [filter_cons_of_neg (by rw [rejects]; decide), unaffected.1 rejects]
    | false =>
      rw [filter_cons_of_pos (by rw [rejects]; decide), foldl_cons]

/-- In every run the rejected Sync Interests have no effect exactly when those of Prefix Sync tell
nothing new, and two such runs that differ only in them reach the same state. -/
theorem rejected_without_effect (packets : SyncPackets) (trust : packets.Data → Bool)
    (settled : ∀ (svs : S) entry, api.advances svs entry = false → api.applyEntry svs entry = svs)
    (node : SyncNode S) (events : List SyncNodeEvent) :
    (Run.Throughout (SyncNode.step api packets trust) node events
        (SyncNode.Unaffected api packets trust) ↔
      Run.Throughout (SyncNode.step api packets trust) node events
        (SyncNode.NothingNew api packets trust)) ∧
    ∀ others, Run.Throughout (SyncNode.step api packets trust) node events
        (SyncNode.NothingNew api packets trust) →
      Run.Throughout (SyncNode.step api packets trust) node others
        (SyncNode.NothingNew api packets trust) →
      events.filter (fun event => !event.rejected packets trust) =
        others.filter (fun event => !event.rejected packets trust) →
      events.foldl (SyncNode.step api packets trust) node =
        others.foldl (SyncNode.step api packets trust) node := by
  have throughout : ∀ events, Run.Throughout (SyncNode.step api packets trust) node events
      (SyncNode.Unaffected api packets trust) ↔
        Run.Throughout (SyncNode.step api packets trust) node events
          (SyncNode.NothingNew api packets trust) := fun events =>
    Run.throughout_iff (fun _ => True) (fun node event _ => unaffected_iff settled node event)
      (fun _ _ _ _ => trivial) trivial events
  refine ⟨throughout events, ?_⟩
  intro others nothing nothing' same
  rw [foldl_filter ((throughout events).mpr nothing), same,
    ← foldl_filter ((throughout others).mpr nothing')]

end Receipts

section Forged

/-- A state vector that old entries leave alone. -/
def quietVector : SvsLocal StateVector where
  router := stateVector.router
  neighbor := stateVector.neighbor
  neighbors := stateVector.neighbors
  applyEntry svs entry :=
    if stateVector.advances svs entry then stateVector.applyEntry svs entry else svs
  router_applyEntry svs entry := by
    split
    · exact stateVector.router_applyEntry svs entry
    · rfl
  neighbor_router := stateVector.neighbor_router
  neighbor_applyEntry svs entry name foreign := by
    split
    · exact stateVector.neighbor_applyEntry svs entry name foreign
    · rename_i old
      by_cases same : name = entry.name
      · subst same
        rw [if_pos rfl]
        rcases not_advances.mp (Bool.not_eq_true _ ▸ old) with own | ⟨known, found, older⟩
        · exact absurd own foreign
        · rw [found, newer, if_neg (not_lt.mpr older)]
      · rw [if_neg same]
  mem_neighbors := stateVector.mem_neighbors

theorem quietVector_settled (svs : StateVector) (entry : SvsEntry)
    (old : quietVector.advances svs entry = false) : quietVector.applyEntry svs entry = svs :=
  if_neg (by rw [show stateVector.advances svs entry = false from old]; decide)

/-- An entry of a state vector: the name, the boot time and the sequence number. -/
def writeSvsEntry (entry : SvsEntry) : List UInt8 :=
  NdnTlv.writeTlv tlvName (NdnTlv.encodeName entry.name) ++
    NdnTlv.writeTlv 210 (NdnTlv.writeTlv 212 (minimalSlice entry.boot) ++
      NdnTlv.writeTlv 214 (minimalSlice entry.seq))

def readSvsEntry (value : List UInt8) : Option SvsEntry := do
  let (name, value) ← NdnTlv.readTyped tlvName value
  let name ← NdnTlv.decodeName name
  let (versions, _) ← NdnTlv.readTyped 210 value
  let (boot, versions) ← NdnTlv.readTyped 212 versions
  let (seq, _) ← NdnTlv.readTyped 214 versions
  let boot ← NdnTlv.decodeNni boot
  let seq ← NdnTlv.decodeNni seq
  some ⟨name, boot, seq⟩

def readSvs (content : List UInt8) : Option (List SvsEntry) := do
  let (entries, _) ← NdnTlv.readTyped 201 content
  NdnTlv.tlvCodec.forEachTlv (fun _ => none)
    (fun read typ value =>
      if typ = 202 then (readSvsEntry value).map (fun entry => read ++ [entry]) else some read)
    [] entries

/-- The application parameters of an Interest. -/
def readAppParameters (bytes : List UInt8) : Option (Option (List UInt8)) := do
  let (fields, _) ← NdnTlv.readTyped 5 bytes
  NdnTlv.tlvCodec.forEachTlv (fun _ => none)
    (fun found typ value => if typ = 36 then some (some value) else some found) none fields

def ndnSync : SyncPackets where
  Data := Name × Option (List UInt8)
  SvsLocalError := Unit
  appParameters := readAppParameters
  decodeData := NdnTlv.decodeData
  content := Prod.snd
  decodeSvsData := fun content =>
    match readSvs content with
    | none => .error ()
    | some entries => .ok entries

/-- Router `/2` claims to have booted last at 9. -/
def forgedEntry : SvsEntry := ⟨Name.single 2, 9, 9⟩

def forgedVector : List UInt8 :=
  NdnTlv.writeTlv 201 (NdnTlv.tlvCodec.writeAll [(202, writeSvsEntry forgedEntry)])

def forgedData : List UInt8 := NdnTlv.encodeData (Name.single 2) forgedVector

theorem readSvs_forged : readSvs forgedVector = some [forgedEntry] := by
  have entry : readSvsEntry (writeSvsEntry forgedEntry) = some forgedEntry := by
    unfold readSvsEntry writeSvsEntry
    simp only [Option.bind_eq_bind, NdnTlv.readTyped_write, NdnTlv.readTyped_write_last,
      Option.bind_some, NdnTlv.decode_encode]
    decide
  unfold readSvs forgedVector
  rw [NdnTlv.readTyped_write_last]
  change NdnTlv.tlvCodec.forEachTlv _ _ _ _ = _
  rw [TlvCodec.forEachTlv_writeAll]
  change Option.bind (Option.map _ (readSvsEntry _)) _ = _
  rw [entry]
  rfl

theorem decodeData_forged :
    ndnSync.decodeData forgedData = some (Name.single 2, some forgedVector) :=
  NdnTlv.decode_encodeData _ _

theorem decodeSvsData_forged :
    ndnSync.decodeSvsData ((ndnSync.content (Name.single 2, some forgedVector)).getD []) =
      .ok [forgedEntry] := by
  change (match readSvs forgedVector with
    | none => _
    | some entries => _) = _
  rw [readSvs_forged]
  rfl

/-- Under a policy that trusts nobody. -/
theorem rejected_forged :
    (SyncNodeEvent.pfxInterest (some forgedData)).rejected ndnSync (fun _ => false) = true := by
  change ((ndnSync.decodeData forgedData).any _) = true
  rw [decodeData_forged]
  rfl

/-- Router `/1`, which knows no other router. -/
def lonelyNode : SyncNode StateVector where
  adv := ⟨Name.single 1, StateVector.new (Name.single 1), FetchTracker.default, ∅⟩
  advQueue := []
  pfx := ⟨StateVector.new (Name.single 1), FetchTracker.default, ⟨Name.single 1, ∅, ∅⟩, [], .idle⟩
  pfxChanged := false

/-- A policy that trusts nobody does not keep a forged Prefix Sync Interest from advancing the
version of router `/2`, queueing a fetch of it and having it relayed. -/
theorem forged_pfx_interest :
    (SyncNodeEvent.pfxInterest (some forgedData)).rejected ndnSync (fun _ => false) = true ∧
      quietVector.neighbor (lonelyNode.step quietVector ndnSync (fun _ => false)
        (.pfxInterest (some forgedData))).pfx.svs (Name.single 2) = some (9, 9) ∧
      (lonelyNode.step quietVector ndnSync (fun _ => false)
        (.pfxInterest (some forgedData))).pfx.channel = [⟨Name.single 2, 9, 9⟩] ∧
      (lonelyNode.step quietVector ndnSync (fun _ => false)
        (.pfxInterest (some forgedData))).pfxChanged = true := by
  have serves : lonelyNode.step quietVector ndnSync (fun _ => false)
      (.pfxInterest (some forgedData)) = _ :=
    serveSync_ok decodeData_forged decodeSvsData_forged
  rw [serves]
  exact ⟨rejected_forged, by decide, by decide, by decide⟩

/-- The same router after it has fetched what the forged entry tells. -/
def fetchedNode : SyncNode StateVector :=
  { lonelyNode with
    pfx := { lonelyNode.pfx with
      svs := lonelyNode.pfx.svs.applyEntry forgedEntry
      fetches := FetchTracker.default.markApplied ⟨Name.single 2, 9, 9⟩ } }

theorem rejected_without_effect_fetched :
    [SyncNodeEvent.pfxInterest (some forgedData)].foldl
      (SyncNode.step quietVector ndnSync (fun _ => false)) fetchedNode = fetchedNode := by
  have upToDate : fetchedNode.pfx.UpToDate quietVector [forgedEntry] := by
    constructor
    · decide
    · decide
  have nothing : Run.Throughout (SyncNode.step quietVector ndnSync (fun _ => false)) fetchedNode
      [.pfxInterest (some forgedData)] (SyncNode.NothingNew quietVector ndnSync (fun _ => false)) := by
    rw [Run.throughout_cons]
    refine ⟨?_, Run.throughout_nil _ _⟩
    intro data entries decoded rejects read
    cases decodeData_forged.symm.trans decoded
    cases decodeSvsData_forged.symm.trans read
    exact upToDate
  apply (rejected_without_effect ndnSync (fun _ => false) quietVector_settled fetchedNode
    [.pfxInterest (some forgedData)]).2 [] nothing (Run.throughout_nil _ _)
  rw [List.filter_cons_of_neg (by rw [rejected_forged]; decide)]

end Forged

end NdnExt.Dv
