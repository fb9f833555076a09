import NdnExt.Nlsr.LsaName
import NdnExt.Nlsr.LsaRoundTrip
import NdnExt.Nlsr.OwnLsa

/-! How LSAs enter the LSDB: local builds, sync updates with or without the LSA inline, and LSA
Data. -/

namespace NdnExt.Nlsr

open NdnExt.Lib

/-- The LSA as the LSDB holds it; `value` is the number that an `f64` pattern stands for. -/
def lsaOfWire (value : UInt64 → ℚ) : Wire.Lsa → Lsa
  | .adjacency lsa => .adjacency ⟨lsa.originRouter, lsa.seqNo.toNat, lsa.expirationMs.toNat,
      lsa.adjacencies.map (fun adj => ⟨adj.name, adj.faceUri, value adj.linkCost⟩)⟩
  | .name lsa => .name ⟨lsa.originRouter, lsa.seqNo.toNat, lsa.expirationMs.toNat,
      lsa.prefixes.map (fun p => ⟨p.name, value p.cost⟩)⟩
  | .coordinate lsa => .coordinate ⟨lsa.originRouter, lsa.seqNo.toNat, lsa.expirationMs.toNat,
      value lsa.radius, lsa.angles.map value⟩

/-- A router: its configuration and the codecs it was built with. -/
structure NlsrSync where
  config : NlsrConfig
  naming : LsaNaming
  codec : NameCodec
  typed : TypedComponents
  value : UInt64 → ℚ

/-- `built` records the last LSA built locally of each type. A task whose decoder panics runs
no more. -/
structure SyncState where
  lsdb : Lsdb
  clock : Clock
  fetchQueue : List (Name × LsaType × Nat)
  invalidCounter : Nat
  syncRunning : Bool
  ioRunning : Bool
  built : LsaType → Option Lsa

/-- The builders draw increasing sequence numbers: `gap` is how far the next one is ahead. -/
inductive SyncEvent where
  | buildName (prefixes : List Name) (gap : Nat)
  | buildAdj (adjacencies : List Adjacent) (gap : Nat)
  | syncUpdate (name : Name) (mapping : Option (List UInt8))
  | lsaData (name : Name) (content : Option (List UInt8))
  | pass (clock : Clock)

namespace NlsrSync

variable (sync : NlsrSync)

def start (clock : Clock) : SyncState where
  lsdb := Lsdb.new sync.config.ownRouter
  clock := clock
  fetchQueue := []
  invalidCounter := 0
  syncRunning := true
  ioRunning := true
  built := fun _ => none

def nextSeqNo (state : SyncState) (lsaType : LsaType) (gap : Nat) : Nat :=
  match state.built lsaType with
  | none => gap
  | some lsa => lsa.seqNo + 1 + gap

def recordBuilt (state : SyncState) (lsa : Lsa) (result : Lsdb × List LsdbEvent × InstallResult) :
    SyncState :=
  { state with
    lsdb := result.1
    built := Function.update state.built lsa.lsaType (some lsa) }

/-- The update arm of `NlsrSync::run`. -/
def processUpdate (state : SyncState) (name : Name) (mapping : Option (List UInt8)) : SyncState :=
  match mapping with
  | some lsaBytes =>
    match sync.naming.parseUpdateName sync.typed name with
    | none => state
    | some (_, lsaType, _) =>
      match Wire.Lsa.wireDecode sync.codec lsaType lsaBytes with
      | .ok lsa =>
        let (lsdb, _, result) := state.lsdb.install state.clock (lsaOfWire sync.value lsa)
        { state with
          lsdb := lsdb
          invalidCounter := state.invalidCounter + if result = .invalid then 1 else 0 }
      | .err _ => state
      | .panic => { state with syncRunning := false }
  | none =>
    match sync.naming.parseUpdateName sync.typed name with
    | none => state
    | some (originRouter, lsaType, seqNo) =>
      if originRouter = sync.config.ownRouter then state
      else { state with fetchQueue := state.fetchQueue ++ [(originRouter, lsaType, seqNo)] }

/-- What `install_lsa_from_data` reads off the name of the Data. -/
def dataName (name : Name) : Option (Name × LsaType × Nat) :=
  let base := LsaNaming.stripVersion sync.typed name.components
  if base.length < sync.naming.lsaPrefix.components.length + 3 then none
  else sync.naming.parseBase sync.typed base

def installLsaFromData (state : SyncState) (name : Name) (content : Option (List UInt8)) :
    SyncState :=
  match sync.dataName name with
  | none => state
  | some (_, lsaType, _) =>
    match content with
    | none => state
    | some content =>
      match Wire.Lsa.wireDecode sync.codec lsaType content with
      | .ok lsa => { state with lsdb := (state.lsdb.install state.clock (lsaOfWire sync.value lsa)).1 }
      | .err _ => state
      | .panic => { state with ioRunning := false }

def step (state : SyncState) : SyncEvent → SyncState
  | .buildName prefixes gap =>
    let seqNo := nextSeqNo state .name gap
    recordBuilt state (state.lsdb.ownNameLsa state.clock prefixes seqNo sync.config.refreshMs)
      (state.lsdb.buildOwnNameLsa state.clock prefixes seqNo sync.config.refreshMs)
  | .buildAdj adjacencies gap =>
    let seqNo := nextSeqNo state .adjacency gap
    recordBuilt state (state.lsdb.ownAdjLsa state.clock adjacencies seqNo sync.config.refreshMs)
      (state.lsdb.buildOwnAdjLsa state.clock adjacencies seqNo sync.config.refreshMs)
  | .syncUpdate name mapping =>
    if state.syncRunning then sync.processUpdate state name mapping else state
  | .lsaData name content =>
    if state.ioRunning then sync.installLsaFromData state name content else state
  | .pass clock => { state with clock := clock }

/-- The result of the build, if the event is one. -/
def buildResult (state : SyncState) : SyncEvent → Option InstallResult
  | .buildName prefixes gap =>
    some (state.lsdb.buildOwnNameLsa state.clock prefixes (nextSeqNo state .name gap)
      sync.config.refreshMs).2.2
  | .buildAdj adjacencies gap =>
    some (state.lsdb.buildOwnAdjLsa state.clock adjacencies (nextSeqNo state .adjacency gap)
      sync.config.refreshMs).2.2
  | _ => none

/-- The LSA that a task of the router receives with the event. -/
def received (state : SyncState) : SyncEvent → Option Lsa
  | .syncUpdate name (some lsaBytes) =>
    if state.syncRunning then
      match sync.naming.parseUpdateName sync.typed name with
      | none => none
      | some (_, lsaType, _) =>
        match Wire.Lsa.wireDecode sync.codec lsaType lsaBytes with
        | .ok lsa => some (lsaOfWire sync.value lsa)
        | _ => none
    else none
  | .lsaData name (some content) =>
    if state.ioRunning then
      match sync.dataName name with
      | none => none
      | some (_, lsaType, _) =>
        match Wire.Lsa.wireDecode sync.codec lsaType content with
        | .ok lsa => some (lsaOfWire sync.value lsa)
        | _ => none
    else none
  | _ => none

/-- The own-router LSA of every type is the last one built locally. -/
def OwnIsLast (state : SyncState) : Prop :=
  ∀ lsaType, state.lsdb.lookup sync.config.ownRouter lsaType = state.built lsaType

/-- The step leaves the own LSAs as built, and a local build is not refused. -/
def OriginatesAlone (state : SyncState) (event : SyncEvent) : Prop :=
  sync.OwnIsLast (sync.step state event) ∧
    ∀ result, sync.buildResult state event = some result → result = .newer

/-- No LSA received with the event names the own router and is alive and newer than the one
stored. -/
def NoForeignOwn (state : SyncState) (event : SyncEvent) : Prop :=
  ∀ lsa, sync.received state event = some lsa → lsa.originRouter = sync.config.ownRouter →
    ¬ state.lsdb.Accepts state.clock lsa

variable {sync}

section Steps

/-- The LSA carried, if any, is installed, and what was built locally stays. -/
def Receives (before after : SyncState) (carried : Option Lsa) : Prop :=
  after.built = before.built ∧
    after.lsdb =
      match carried with
      | some lsa => (before.lsdb.install before.clock lsa).1
      | none => before.lsdb

variable {state : SyncState}

theorem processUpdate_receives (running : state.syncRunning = true)
    (name : Name) (mapping : Option (List UInt8)) :
    Receives state (sync.processUpdate state name mapping)
      (sync.received state (.syncUpdate name mapping)) := by
  cases mapping with
  | none =>
    rw [processUpdate]
    split
    · exact ⟨rfl, rfl⟩
    · split <;> exact ⟨rfl, rfl⟩
  | some lsaBytes =>
    rw [processUpdate, received, if_pos running]
    cases sync.naming.parseUpdateName sync.typed name with
    | none => exact ⟨rfl, rfl⟩
    | some parsed =>
      dsimp only
      cases Wire.Lsa.wireDecode sync.codec parsed.2.1 lsaBytes with
      | ok lsa => exact ⟨rfl, rfl⟩
      | err error => exact ⟨rfl, rfl⟩
      | panic => exact ⟨rfl, rfl⟩

theorem installLsaFromData_receives (running : state.ioRunning = true)
    (name : Name) (content : Option (List UInt8)) :
    Receives state (sync.installLsaFromData state name content)
      (sync.received state (.lsaData name content)) := by
  cases content with
  | none =>
    rw [installLsaFromData]
    split <;> exact ⟨rfl, rfl⟩
  | some content =>
    rw [installLsaFromData, received, if_pos running]
    cases sync.dataName name with
    | none => exact ⟨rfl, rfl⟩
    | some parsed =>
      dsimp only
      cases Wire.Lsa.wireDecode sync.codec parsed.2.1 content with
      | ok lsa => exact ⟨rfl, rfl⟩
      | err error => exact ⟨rfl, rfl⟩
      | panic => exact ⟨rfl, rfl⟩

theorem step_receives {state : SyncState} {event : SyncEvent}
    (built : sync.buildResult state event = none) :
    Receives state (sync.step state event) (sync.received state event) := by
  cases event with
  | buildName prefixes gap => cases built
  | buildAdj adjacencies gap => cases built
  | pass clock => exact ⟨rfl, rfl⟩
  | syncUpdate name mapping =>
    by_cases running : state.syncRunning = true
    · rw [step, if_pos running]
      exact processUpdate_receives running name mapping
    · rw [step, if_neg running]
      cases mapping with
      | none => exact ⟨rfl, rfl⟩
      | some lsaBytes =>
        rw [received, if_neg running]
        exact ⟨rfl, rfl⟩
  | lsaData name content =>
    by_cases running : state.ioRunning = true
    · rw [step, if_pos running]
      exact installLsaFromData_receives running name content
    · rw [step, if_neg running]
      cases content with
      | none => exact ⟨rfl, rfl⟩
      | some content =>
        rw [received, if_neg running]
        exact ⟨rfl, rfl⟩

theorem processUpdate_clock (state : SyncState) (name : Name) (mapping : Option (List UInt8)) :
    (sync.processUpdate state name mapping).clock = state.clock := by
  unfold processUpdate
  split
  · split
    · rfl
    · split <;> rfl
  · split
    · rfl
    · split <;> rfl

theorem received_inline (running : state.syncRunning = true) {name : Name}
    {parsed : Name × LsaType × Nat} {lsaBytes : List UInt8} {lsa : Wire.Lsa}
    (named : sync.naming.parseUpdateName sync.typed name = some parsed)
    (decoded : Wire.Lsa.wireDecode sync.codec parsed.2.1 lsaBytes = .ok lsa) :
    sync.received state (.syncUpdate name (some lsaBytes)) = some (lsaOfWire sync.value lsa) := by
  rw [received, if_pos running, named]
  dsimp only
  rw [decoded]

theorem lookup_install (lsdb : Lsdb) (clock : Clock) (lsa : Lsa) (router : Name)
    (lsaType : LsaType) :
    (lsdb.install clock lsa).1.lookup router lsaType =
      if (⟨router, lsaType⟩ : LsaKey) = lsa.key ∧ lsdb.Accepts clock lsa then some lsa
      else lsdb.lookup router lsaType := by
  unfold Lsdb.lookup
  rw [Lsdb.store_install]
  split
  · rfl
  · rfl

/-- What an own LSA built now meets in its slot has a lower sequence number. -/
theorem build_accepted (last : sync.OwnIsLast state) {lsa : Lsa}
    (own : lsa.originRouter = sync.config.ownRouter)
    (alive : lsa.expirationMs = state.clock.systemMs + sync.config.refreshMs) {gap : Nat}
    (drawn : lsa.seqNo = nextSeqNo state lsa.lsaType gap) : state.lsdb.Accepts state.clock lsa := by
  have positive := sync.config.refreshMs_pos
  refine ⟨by omega, ?_⟩
  intro stored found
  have key : lsa.key = ⟨sync.config.ownRouter, lsa.lsaType⟩ := by
    rw [← own]
    rfl
  have before := last lsa.lsaType
  rw [Lsdb.lookup, ← key, found] at before
  rw [drawn, nextSeqNo, ← before]
  dsimp only [Option.map_some]
  omega

/-- A local build with the invariant: the built LSA takes its slot. -/
theorem build_originates (last : sync.OwnIsLast state) (lsa : Lsa)
    (own : lsa.originRouter = sync.config.ownRouter)
    (alive : lsa.expirationMs = state.clock.systemMs + sync.config.refreshMs) {gap : Nat}
    (drawn : lsa.seqNo = nextSeqNo state lsa.lsaType gap) :
    sync.OwnIsLast (recordBuilt state lsa (state.lsdb.install state.clock lsa)) ∧
      (state.lsdb.install state.clock lsa).2.2 = .newer := by
  have accepted := build_accepted last own alive drawn
  constructor
  · intro lsaType
    change (state.lsdb.install state.clock lsa).1.lookup _ lsaType =
      Function.update state.built lsa.lsaType (some lsa) lsaType
    rw [lookup_install]
    by_cases same : lsaType = lsa.lsaType
    · subst same
      rw [Function.update_self, if_pos ⟨by rw [← own]; rfl, accepted⟩]
    · rw [Function.update_of_ne same, if_neg ?_]
      · exact last lsaType
      · rintro ⟨key, -⟩
        exact same (congrArg LsaKey.lsaType key)
  · rw [Lsdb.install_accepted accepted]

/-- A received LSA leaves the own slots alone unless it names the own router and is accepted. -/
theorem receive_own_iff (last : sync.OwnIsLast state) (lsa : Lsa) :
    (∀ lsaType, (state.lsdb.install state.clock lsa).1.lookup sync.config.ownRouter lsaType =
        state.built lsaType) ↔
      (lsa.originRouter = sync.config.ownRouter → ¬ state.lsdb.Accepts state.clock lsa) := by
  constructor
  · intro kept own accepted
    have taken := kept lsa.lsaType
    have key : (⟨sync.config.ownRouter, lsa.lsaType⟩ : LsaKey) = lsa.key := by
      rw [← own]
      rfl
    rw [lookup_install, if_pos ⟨key, accepted⟩, ← last lsa.lsaType, Lsdb.lookup, key] at taken
    rcases Option.map_eq_some_iff.mp taken.symm with ⟨entry, stored, same⟩
    have older := accepted.2 entry stored
    rw [same] at older
    exact Nat.lt_irrefl _ older
  · intro harmless lsaType
    rw [lookup_install, if_neg ?_]
    · exact last lsaType
    · intro ⟨key, accepted⟩
      exact harmless (congrArg LsaKey.originRouter key).symm accepted

/-- A local build keeps the own LSAs as built, and receives nothing. -/
theorem originatesAlone_of_build {event : SyncEvent} {result : InstallResult}
    (holds : sync.OwnIsLast state ∧ state.lsdb.ownRouter = sync.config.ownRouter)
    (built : sync.buildResult state event = some result) :
    sync.OriginatesAlone state event ∧ sync.received state event = none := by
  cases event with
  | buildName prefixes gap =>
    have originates := build_originates holds.1
      (state.lsdb.ownNameLsa state.clock prefixes (nextSeqNo state .name gap)
        sync.config.refreshMs) holds.2 rfl rfl
    refine ⟨⟨originates.1, ?_⟩, rfl⟩
    intro result found
    cases found
    exact originates.2
  | buildAdj adjacencies gap =>
    have originates := build_originates holds.1
      (state.lsdb.ownAdjLsa state.clock adjacencies (nextSeqNo state .adjacency gap)
        sync.config.refreshMs) holds.2 rfl rfl
    refine ⟨⟨originates.1, ?_⟩, rfl⟩
    intro result found
    cases found
    exact originates.2
  | syncUpdate name mapping => cases built
  | lsaData name content => cases built
  | pass clock => cases built

theorem originatesAlone_iff (event : SyncEvent)
    (holds : sync.OwnIsLast state ∧ state.lsdb.ownRouter = sync.config.ownRouter) :
    sync.OriginatesAlone state event ↔ sync.NoForeignOwn state event := by
  cases built : sync.buildResult state event with
  | some result =>
    have alone := originatesAlone_of_build holds built
    refine iff_of_true alone.1 ?_
    intro lsa carried
    rw [alone.2] at carried
    cases carried
  | none =>
    have receives := step_receives built
    have noBuild : ∀ result, sync.buildResult state event = some result → result = .newer := by
      intro result found
      rw [built] at found
      cases found
    unfold OriginatesAlone NoForeignOwn
    rw [and_iff_left noBuild]
    unfold OwnIsLast
    rw [receives.1, receives.2]
    cases carried : sync.received state event with
    | none =>
      refine iff_of_true holds.1 ?_
      intro lsa found
      cases found
    | some lsa =>
      refine (receive_own_iff holds.1 lsa).trans ?_
      constructor
      · intro harmless other same
        cases same
        exact harmless
      · intro all
        exact all lsa rfl

theorem ownRouter_step (state : SyncState) (event : SyncEvent) :
    (sync.step state event).lsdb.ownRouter = state.lsdb.ownRouter := by
  cases built : sync.buildResult state event with
  | some result =>
    cases event with
    | buildName prefixes gap => exact Lsdb.ownRouter_install _ _ _
    | buildAdj adjacencies gap => exact Lsdb.ownRouter_install _ _ _
    | syncUpdate name mapping => cases built
    | lsaData name content => cases built
    | pass clock => cases built
  | none =>
    rw [(step_receives built).2]
    split
    · exact Lsdb.ownRouter_install _ _ _
    · rfl

end Steps

/-- In every run the own LSAs are those built locally and no build is refused as long as no LSA
received names the own router and is newer than the one stored, and no longer. -/
theorem originates_alone (sync : NlsrSync) (clock : Clock) (events : List SyncEvent) :
    Run.Throughout sync.step (sync.start clock) events sync.OriginatesAlone ↔
      Run.Throughout sync.step (sync.start clock) events sync.NoForeignOwn := by
  apply Run.throughout_iff (fun state =>
    sync.OwnIsLast state ∧ state.lsdb.ownRouter = sync.config.ownRouter)
  · intro state event holds
    exact originatesAlone_iff event holds
  · intro state event holds alone
    exact ⟨alone.1, (ownRouter_step state event).trans holds.2⟩
  · exact ⟨fun lsaType => rfl, rfl⟩

/-- Router `/1` of network `/` with the LSA prefix `/9`. -/
def routerOne : NlsrSync where
  config := ⟨Name.single 1, 3600, by decide⟩
  naming := ⟨Name.root, Name.single 9⟩
  codec := NdnTlv.codec
  typed := TypedComponents.ndn
  value := fun _ => 0

/-- A name LSA of router `/1` from an earlier life of it. -/
def replayed : Wire.Lsa := .name ⟨Name.single 1, 5, 9000000, []⟩

/-- The router built its own LSA with sequence number 1. -/
def afterBuild : SyncState := routerOne.step (routerOne.start ⟨1000, 0⟩) (.buildName [] 1)

/-- Then the replayed one comes inline. -/
def replay : SyncEvent :=
  .syncUpdate (routerOne.naming.publishedName (Name.single 1) .name 5)
    (some (replayed.wireEncode NdnTlv.codec))

/-- The LSA of the earlier life takes the slot, and the next local build is refused. -/
theorem replayed_own_lsa :
    (routerOne.step afterBuild replay).lsdb.lookup (Name.single 1) .name =
        some (.name ⟨Name.single 1, 5, 9000000, []⟩) ∧
      (routerOne.step afterBuild replay).built .name =
        some (.name ⟨Name.single 1, 1, 3601000, []⟩) ∧
      routerOne.buildResult (routerOne.step afterBuild replay) (.buildName [] 0) =
        some .stale := by
  have carried : routerOne.received afterBuild replay =
      some (lsaOfWire routerOne.value replayed.wholeSecond) :=
    received_inline rfl (show _ = some (Name.single 1, .name, 5) by decide)
      (@Wire.wireDecode_wireEncode NdnTlv.codec replayed (by decide))
  have receives := @step_receives routerOne afterBuild replay rfl
  rw [carried] at receives
  have held : lsaOfWire routerOne.value replayed.wholeSecond =
      .name ⟨Name.single 1, 5, 9000000, []⟩ := by decide +kernel
  rw [held] at receives
  refine ⟨?_, ?_, ?_⟩
  · rw [receives.2]
    decide +kernel
  · rw [receives.1]
    decide +kernel
  · have clock : (routerOne.step afterBuild replay).clock = ⟨1000, 0⟩ := by
      rw [replay, step, if_pos (show afterBuild.syncRunning = true from rfl), processUpdate_clock]
      rfl
    rw [buildResult, nextSeqNo, receives.1, receives.2, clock]
    decide +kernel

end NlsrSync

end NdnExt.Nlsr
