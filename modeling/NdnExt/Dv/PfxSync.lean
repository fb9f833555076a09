import NdnExt.Dv.Fetches
import NdnExt.Dv.Prefix
import NdnExt.Lib.Run

/-! Prefix Sync between a router that announces prefixes and a receiver that fetches its
snapshots. -/

namespace NdnExt.Dv

open NdnExt.Lib PrefixTable FetchTracker

/-- The announcing router. `waiting` says that the table changed since the last `advance_seq`;
`serving` are the sequence numbers read for a response whose snapshot is not taken yet;
`produced` is every Data served so far, which caches may replay. -/
structure PfxOrigin where
  table : PrefixTable
  boot : Nat
  seq : Nat
  waiting : Bool
  serving : List Nat
  produced : List (Nat × PrefixOpList)

structure PfxReceiver (S : Type) where
  svs : S
  fetches : FetchTracker
  table : PrefixTable
  channel : List NeighborAdvance
  fetcher : Fetcher

structure PfxState (S : Type) where
  origin : PfxOrigin
  receiver : PfxReceiver S

inductive PfxEvent where
  | announceLocal (prefixName : Name) (cost : Nat)
  | withdrawLocal (prefixName : Name)
  | advanceSeq
  | readSeq (requested : Version)
  | takeSnapshot (seq : Nat)
  | processEntries (entries : List SvsEntry)
  | queueUnfetched
  | startFetch
  | fetchFailed
  | applyOpList (ops : PrefixOpList)
  | markFetched

namespace PfxOrigin

def changed (origin : PfxOrigin) (result : PrefixTable × Option PrefixOpList) : PfxOrigin :=
  { origin with table := result.1, waiting := origin.waiting || result.2.isSome }

/-- The Data of the fetched version: what the origin produced under it, or, under a boot before
its current one, anything it may have produced then. Other routers are not modelled, but their
Data carries their own name. -/
def Offers (origin : PfxOrigin) (adv : NeighborAdvance) (ops : PrefixOpList) : Prop :=
  ops.exitRouter = adv.name ∧
    (adv.name = origin.table.selfRouter → adv.boot < origin.boot ∨
      (adv.boot = origin.boot ∧ (adv.seq, ops) ∈ origin.produced))

instance (origin : PfxOrigin) (adv : NeighborAdvance) (ops : PrefixOpList) :
    Decidable (origin.Offers adv ops) :=
  inferInstanceAs (Decidable (ops.exitRouter = adv.name ∧
    (adv.name = origin.table.selfRouter → adv.boot < origin.boot ∨
      (adv.boot = origin.boot ∧ (adv.seq, ops) ∈ origin.produced))))

end PfxOrigin

variable {S : Type} (api : SvsLocal S)

namespace PfxReceiver

def processEntries (receiver : PfxReceiver S) (entries : List SvsEntry) : PfxReceiver S :=
  { receiver with svs := entries.foldl api.applyEntry receiver.svs }

def queueUnfetched (receiver : PfxReceiver S) : PfxReceiver S :=
  let (fetches, queued) := receiver.fetches.queueAll api receiver.svs
  { receiver with fetches := fetches, channel := receiver.channel ++ queued }

end PfxReceiver

def pfxStep (state : PfxState S) : PfxEvent → Option (PfxState S)
  | .announceLocal prefixName cost =>
    if cost < 2 ^ 32 then
      some { state with
        origin := state.origin.changed (state.origin.table.announceLocal prefixName cost) }
    else none
  | .withdrawLocal prefixName =>
    some { state with
      origin := state.origin.changed (state.origin.table.withdrawLocal prefixName) }
  | .advanceSeq =>
    some { state with origin := { state.origin with seq := state.origin.seq + 1, waiting := false } }
  | .readSeq requested =>
    if requested = (state.origin.boot, state.origin.seq) then
      some { state with
        origin := { state.origin with serving := state.origin.seq :: state.origin.serving } }
    else some state
  | .takeSnapshot seq =>
    if seq ∈ state.origin.serving then
      some { state with
        origin := { state.origin with
          serving := state.origin.serving.erase seq
          produced := (seq, state.origin.table.snap) :: state.origin.produced } }
    else none
  | .processEntries entries =>
    some { state with receiver := state.receiver.processEntries api entries }
  | .queueUnfetched => some { state with receiver := state.receiver.queueUnfetched api }
  | .startFetch =>
    match state.receiver.fetcher, state.receiver.channel with
    | .idle, queued :: rest =>
      let (fetches, adv) := state.receiver.fetches.start api state.receiver.svs queued.name
      some { state with
        receiver := { state.receiver with
          fetches := fetches, channel := rest
          fetcher := (adv.map Fetcher.fetching).getD .idle } }
    | _, _ => none
  | .fetchFailed =>
    match state.receiver.fetcher with
    | .fetching _ => some { state with receiver := { state.receiver with fetcher := .idle } }
    | _ => none
  | .applyOpList ops =>
    match state.receiver.fetcher with
    | .fetching adv =>
      if state.origin.Offers adv ops then
        some { state with
          receiver := { state.receiver with
            table := (state.receiver.table.applyOpList ops).1, fetcher := .applied adv } }
      else none
    | _ => none
  | .markFetched =>
    match state.receiver.fetcher with
    | .applied adv =>
      some { state with
        receiver := { state.receiver with
          fetches := state.receiver.fetches.markApplied adv, fetcher := .idle } }
    | _ => none

/-- A freshly started origin and a receiver that may hold any stale row and know any versions. -/
def PfxState.init (router : Name) (boot seq : Nat) (svs : S)
    (stale : HashMap Name (HashMap Name Nat)) : PfxState S where
  origin := ⟨PrefixTable.new router, boot, seq, false, [], []⟩
  receiver := ⟨svs, FetchTracker.default, ⟨api.router svs, ∅, stale⟩, [], .idle⟩

/-! What the origin has produced. -/

structure PfxOrigin.Honest (origin : PfxOrigin) : Prop where
  small : PrefixTable.SmallCosts origin.table
  serving : ∀ seq ∈ origin.serving, seq ≤ origin.seq
  produced : ∀ seq ops, (seq, ops) ∈ origin.produced →
    ops.exitRouter = origin.table.selfRouter ∧ seq ≤ origin.seq ∧
      (seq = origin.seq → origin.waiting = false → ops = origin.table.snap)

theorem withdraw_unchanged {table : PrefixTable} {prefixName : Name}
    (none : (table.withdrawLocal prefixName).2 = none) :
    (table.withdrawLocal prefixName).1 = table := by
  unfold withdrawLocal at none ⊢
  split at none
  · rfl
  · cases none

theorem announce_unchanged {table : PrefixTable} {prefixName : Name} {cost : Nat}
    (none : (table.announceLocal prefixName cost).2 = none) :
    (table.announceLocal prefixName cost).1 = table := by
  unfold announceLocal at none ⊢
  split at none
  · rw [if_pos ‹_›]
  · cases none

section

variable {origin : PfxOrigin} (honest : origin.Honest)
include honest

/-- A change puts the table ahead of everything produced until the next `advance_seq`. -/
theorem PfxOrigin.Honest.changed
    {result : PrefixTable × Option PrefixOpList}
    (router : result.1.selfRouter = origin.table.selfRouter)
    (small : PrefixTable.SmallCosts result.1)
    (unchanged : result.2 = none → result.1 = origin.table) :
    (origin.changed result).Honest := by
  refine ⟨small, honest.serving, ?_⟩
  intro seq ops member
  rcases honest.produced seq ops member with ⟨exit, old, current⟩
  refine ⟨exit.trans router.symm, old, ?_⟩
  intro newest idle
  simp only [PfxOrigin.changed, Bool.or_eq_false_iff, Option.isSome_eq_false_iff,
    Option.isNone_iff_eq_none] at idle ⊢
  rw [unchanged idle.2]
  exact current newest idle.1

theorem PfxOrigin.Honest.advance :
    ({ origin with seq := origin.seq + 1, waiting := false } : PfxOrigin).Honest := by
  refine ⟨honest.small, ?_, ?_⟩
  · intro seq member
    exact (honest.serving seq member).trans (Nat.le_succ _)
  · intro seq ops member
    rcases honest.produced seq ops member with ⟨exit, old, -⟩
    refine ⟨exit, old.trans (Nat.le_succ _), ?_⟩
    intro newest
    simp only at newest
    omega

theorem PfxOrigin.Honest.read :
    ({ origin with serving := origin.seq :: origin.serving } : PfxOrigin).Honest := by
  refine ⟨honest.small, ?_, honest.produced⟩
  intro seq member
  rcases List.mem_cons.mp member with same | member
  · exact same.le
  · exact honest.serving seq member

theorem PfxOrigin.Honest.snapshot {seq : Nat}
    (serving : seq ∈ origin.serving) :
    ({ origin with
        serving := origin.serving.erase seq
        produced := (seq, origin.table.snap) :: origin.produced } : PfxOrigin).Honest := by
  refine ⟨honest.small, ?_, ?_⟩
  · intro other member
    exact honest.serving other (List.mem_of_mem_erase member)
  · intro other ops member
    rcases List.mem_cons.mp member with same | member
    · cases same
      exact ⟨rfl, honest.serving seq serving, fun _ _ => rfl⟩
    · exact honest.produced other ops member

end

/-- The receiver's row of `router` is what applying `ops` leaves. -/
def PfxReceiver.RowIs (receiver : PfxReceiver S) (router : Name) (ops : PrefixOpList) : Prop :=
  ∃ old, ∀ prefixName,
    receiver.table.announced router prefixName = (applyOps ops old).1.lookup prefixName

/-- What every run keeps. A fetch under way is newer than what is applied, so its Data can only
disturb a row that is not the current one. -/
structure Follows (state : PfxState S) : Prop where
  honest : state.origin.Honest
  foreign : state.origin.table.selfRouter ≠ state.receiver.table.selfRouter
  tokens : FetchTracker.Tokens state.receiver.fetches state.receiver.channel
  known : ∀ name version, state.receiver.fetches.applied.lookup name = some version →
    ∃ newest, api.neighbor state.receiver.svs name = some newest ∧ toLex version ≤ toLex newest
  flight : ∀ adv, state.receiver.fetcher.pending = some adv →
    (∃ newest, api.neighbor state.receiver.svs adv.name = some newest ∧
      toLex adv.version ≤ toLex newest) ∧
    ∀ version, state.receiver.fetches.applied.lookup adv.name = some version →
      toLex version < toLex adv.version
  unmarked : ∀ adv, state.receiver.fetcher = .applied adv →
    adv.name = state.origin.table.selfRouter →
      adv.boot < state.origin.boot ∨ ∃ ops, adv.boot = state.origin.boot ∧
        (adv.seq, ops) ∈ state.origin.produced ∧
          state.receiver.RowIs state.origin.table.selfRouter ops
  marked : ∀ seq,
    state.receiver.fetches.applied.lookup state.origin.table.selfRouter =
      some (state.origin.boot, seq) →
    (∃ adv, state.receiver.fetcher = .applied adv ∧ adv.name = state.origin.table.selfRouter) ∨
      ∃ ops, (seq, ops) ∈ state.origin.produced ∧
        state.receiver.RowIs state.origin.table.selfRouter ops

theorem follows_init {router : Name} (boot seq : Nat) {svs : S}
    (foreign : router ≠ api.router svs) (stale : HashMap Name (HashMap Name Nat)) :
    Follows api (PfxState.init api router boot seq svs stale) := by
  constructor
  · refine ⟨?_, ?_, ?_⟩
    · intro prefixName cost found
      simp [PfxState.init, new] at found
    · intro seq member
      cases member
    · intro seq ops member
      cases member
  · exact foreign
  · refine ⟨List.nodup_nil, ?_⟩
    intro name
    simp [PfxState.init, FetchTracker.default]
  · intro name version found
    simp [PfxState.init, FetchTracker.default] at found
  · intro adv found
    cases found
  · intro adv found
    cases found
  · intro seq found
    simp [PfxState.init, FetchTracker.default] at found

variable {api} {state : PfxState S}

section

variable (follows : Follows api state)
include follows

/-- Steps of the origin leave the receiver alone and only add Data. -/
theorem Follows.origin {origin : PfxOrigin}
    (honest : origin.Honest) (router : origin.table.selfRouter = state.origin.table.selfRouter)
    (boot : origin.boot = state.origin.boot)
    (produced : ∀ item ∈ state.origin.produced, item ∈ origin.produced) :
    Follows api { state with origin := origin } := by
  constructor
  · exact honest
  · exact router ▸ follows.foreign
  · exact follows.tokens
  · exact follows.known
  · exact follows.flight
  · intro adv applied same
    rcases follows.unmarked adv applied (same.trans router) with older | ⟨ops, current, member, row⟩
    · exact Or.inl (boot ▸ older)
    · exact Or.inr ⟨ops, current.trans boot.symm, produced _ member, router ▸ row⟩
  · intro seq found
    have before : state.receiver.fetches.applied.lookup state.origin.table.selfRouter =
        some (state.origin.boot, seq) := by
      rw [← router, ← boot]
      exact found
    rcases follows.marked seq before with ⟨adv, applied, same⟩ | ⟨ops, member, row⟩
    · exact Or.inl ⟨adv, applied, same.trans router.symm⟩
    · exact Or.inr ⟨ops, produced _ member, router ▸ row⟩

theorem Follows.processEntries (entries : List SvsEntry) :
    Follows api { state with receiver := state.receiver.processEntries api entries } := by
  have grows : ∀ name version, (∃ newest, api.neighbor state.receiver.svs name = some newest ∧
        toLex version ≤ toLex newest) →
      ∃ newest, api.neighbor (entries.foldl api.applyEntry state.receiver.svs) name = some newest ∧
        toLex version ≤ toLex newest := by
    intro name version before
    rcases before with ⟨newest, found, above⟩
    rcases api.neighbor_grows entries state.receiver.svs found with ⟨later, found', above'⟩
    exact ⟨later, found', above.trans above'⟩
  constructor
  · exact follows.honest
  · exact follows.foreign
  · exact follows.tokens
  · intro name version found
    exact grows name version (follows.known name version found)
  · intro adv pending
    rcases follows.flight adv pending with ⟨below, newer⟩
    exact ⟨grows adv.name adv.version below, newer⟩
  · exact follows.unmarked
  · exact follows.marked

theorem Follows.queueUnfetched :
    Follows api { state with receiver := state.receiver.queueUnfetched api } := by
  have applied : (state.receiver.queueUnfetched api).fetches.applied =
      state.receiver.fetches.applied := applied_queueEach _ _
  constructor
  · exact follows.honest
  · exact follows.foreign
  · exact follows.tokens.queueEach _
  · simp only [applied]
    exact follows.known
  · simp only [applied]
    exact follows.flight
  · exact follows.unmarked
  · simp only [applied]
    exact follows.marked

theorem Follows.startFetch {queued : NeighborAdvance}
    {rest : List NeighborAdvance} (channel : state.receiver.channel = queued :: rest)
    (idle : state.receiver.fetcher = .idle) :
    Follows api { state with
      receiver := { state.receiver with
        fetches := (state.receiver.fetches.start api state.receiver.svs queued.name).1
        channel := rest
        fetcher := ((state.receiver.fetches.start api state.receiver.svs queued.name).2.map
          Fetcher.fetching).getD .idle } } := by
  have applied : (state.receiver.fetches.start api state.receiver.svs queued.name).1.applied =
      state.receiver.fetches.applied := applied_start api _ _ _
  have notApplied : ∀ adv,
      ((state.receiver.fetches.start api state.receiver.svs queued.name).2.map
        Fetcher.fetching).getD .idle ≠ .applied adv := by
    intro adv
    cases (state.receiver.fetches.start api state.receiver.svs queued.name).2 <;> simp
  have tokens := follows.tokens
  rw [channel] at tokens
  constructor
  · exact follows.honest
  · exact follows.foreign
  · exact tokens.start api
  · simp only [applied]
    exact follows.known
  · intro adv pending
    have started : (state.receiver.fetches.start api state.receiver.svs queued.name).2 =
        some adv := by
      cases found : (state.receiver.fetches.start api state.receiver.svs queued.name).2 with
      | none =>
        rw [found] at pending
        cases pending
      | some other =>
        rw [found] at pending
        exact pending
    rcases start_newest api started with ⟨same, newest, fresh⟩
    rw [← same] at newest fresh
    refine ⟨⟨adv.version, newest, le_rfl⟩, ?_⟩
    intro version found
    simp only [applied] at found
    -- what is applied is known, and it is not the newest version
    rcases follows.known adv.name version found with ⟨newest', found', below⟩
    rw [newest] at found'
    cases found'
    apply lt_of_le_of_ne below
    intro equal
    rw [found] at fresh
    exact fresh (congrArg some (toLex.injective equal))
  · intro adv pending
    exact absurd pending (notApplied adv)
  · intro seq found
    simp only [applied] at found
    rcases follows.marked seq found with ⟨adv, pending, -⟩ | current
    · rw [idle] at pending
      cases pending
    · exact Or.inr current

theorem Follows.fail {adv : NeighborAdvance}
    (fetching : state.receiver.fetcher = .fetching adv) :
    Follows api { state with receiver := { state.receiver with fetcher := .idle } } := by
  constructor
  · exact follows.honest
  · exact follows.foreign
  · exact follows.tokens
  · exact follows.known
  · intro adv pending
    cases pending
  · intro adv pending
    cases pending
  · intro seq found
    rcases follows.marked seq found with ⟨adv, pending, -⟩ | current
    · rw [fetching] at pending
      cases pending
    · exact Or.inr current

theorem Follows.apply {adv : NeighborAdvance}
    (fetching : state.receiver.fetcher = .fetching adv) {ops : PrefixOpList}
    (offers : state.origin.Offers adv ops) :
    Follows api { state with
      receiver := { state.receiver with
        table := (state.receiver.table.applyOpList ops).1, fetcher := .applied adv } } := by
  have rows := announced_applyOpList state.receiver.table ops
    state.origin.table.selfRouter
  constructor
  · exact follows.honest
  · rw [selfRouter_applyOpList]
    exact follows.foreign
  · exact follows.tokens
  · exact follows.known
  · intro adv' pending
    cases pending
    exact follows.flight adv (by rw [fetching]; rfl)
  · intro adv' applied same
    cases applied
    rcases offers.2 same with older | ⟨current, member⟩
    · exact Or.inl older
    · refine Or.inr ⟨ops, current, member,
        state.receiver.table.row state.origin.table.selfRouter, ?_⟩
      intro prefixName
      rw [rows, if_pos ⟨same.symm.trans offers.1.symm, follows.foreign⟩]
  · intro seq found
    by_cases same : adv.name = state.origin.table.selfRouter
    · exact Or.inl ⟨adv, rfl, same⟩
    · rcases follows.marked seq found with ⟨other, pending, -⟩ | ⟨ops', member, old, row⟩
      · rw [fetching] at pending
        cases pending
      · refine Or.inr ⟨ops', member, old, ?_⟩
        intro prefixName
        rw [rows, if_neg]
        · exact row prefixName
        · intro both
          exact same (offers.1.symm.trans both.1.symm)

theorem Follows.mark {adv : NeighborAdvance}
    (applied : state.receiver.fetcher = .applied adv) :
    Follows api { state with
      receiver := { state.receiver with
        fetches := state.receiver.fetches.markApplied adv, fetcher := .idle } } := by
  constructor
  · exact follows.honest
  · exact follows.foreign
  · exact ⟨follows.tokens.once, follows.tokens.queued⟩
  · intro name version found
    simp only [markApplied, HashMap.lookup_insert_eq] at found
    split at found
    · cases found
      subst name
      exact (follows.flight adv (by rw [applied]; rfl)).1
    · exact follows.known name version found
  · intro adv' pending
    cases pending
  · intro adv' pending
    cases pending
  · intro seq found
    right
    simp only [markApplied, HashMap.lookup_insert_eq] at found
    split at found
    · rename_i same
      have version : adv.boot = state.origin.boot ∧ adv.seq = seq := by
        simpa [NeighborAdvance.version] using found
      rcases follows.unmarked adv applied same.symm with older | ⟨ops, -, member, row⟩
      · omega
      · exact ⟨ops, version.2 ▸ member, row⟩
    · rcases follows.marked seq found with ⟨other, pending, same⟩ | current
      · rw [applied] at pending
        cases pending
        exact absurd same.symm ‹_›
      · exact current

end

theorem Follows.step (follows : Follows api state) {event : PfxEvent} {next : PfxState S}
    (taken : pfxStep api state event = some next) : Follows api next := by
  cases event with
  | announceLocal prefixName cost =>
    simp only [pfxStep] at taken
    split at taken
    · cases taken
      apply follows.origin
      · exact follows.honest.changed (selfRouter_announceLocal _ _ _)
          (follows.honest.small.announceLocal prefixName ‹_›) announce_unchanged
      · exact selfRouter_announceLocal _ _ _
      · rfl
      · exact fun _ member => member
    · cases taken
  | withdrawLocal prefixName =>
    cases taken
    apply follows.origin
    · exact follows.honest.changed (selfRouter_withdrawLocal _ _)
        (follows.honest.small.withdrawLocal prefixName) withdraw_unchanged
    · exact selfRouter_withdrawLocal _ _
    · rfl
    · exact fun _ member => member
  | advanceSeq =>
    cases taken
    exact follows.origin follows.honest.advance rfl rfl (fun _ member => member)
  | readSeq requested =>
    simp only [pfxStep] at taken
    split at taken
    · cases taken
      exact follows.origin follows.honest.read rfl rfl (fun _ member => member)
    · cases taken
      exact follows
  | takeSnapshot seq =>
    simp only [pfxStep] at taken
    split at taken
    · cases taken
      exact follows.origin (follows.honest.snapshot ‹_›) rfl rfl
        (fun _ member => List.mem_cons_of_mem _ member)
    · cases taken
  | processEntries entries =>
    cases taken
    exact follows.processEntries entries
  | queueUnfetched =>
    cases taken
    exact follows.queueUnfetched
  | startFetch =>
    simp only [pfxStep] at taken
    split at taken
    · rename_i queued rest idle channel
      cases taken
      exact follows.startFetch channel idle
    · cases taken
  | fetchFailed =>
    simp only [pfxStep] at taken
    split at taken
    · rename_i adv fetching
      cases taken
      exact follows.fail fetching
    · cases taken
  | applyOpList ops =>
    simp only [pfxStep] at taken
    split at taken
    · rename_i adv fetching
      split at taken
      · cases taken
        exact follows.apply fetching ‹_›
      · cases taken
    · cases taken
  | markFetched =>
    simp only [pfxStep] at taken
    split at taken
    · rename_i adv applied
      cases taken
      exact follows.mark applied
    · cases taken

/-- A version that is known and not applied is queued by the next Sync Interest. -/
theorem Follows.queues (follows : Follows api state) {router : Name} {newest : Version}
    (known : api.neighbor state.receiver.svs router = some newest)
    (unapplied : state.receiver.fetches.applied.lookup router ≠ some newest)
    (entries : List SvsEntry) :
    router ∈ (((state.receiver.processEntries api entries).queueUnfetched api).channel.map
      NeighborAdvance.name) := by
  have processed := follows.processEntries entries
  have queued := processed.queueUnfetched.tokens.queued router
  rcases api.neighbor_grows entries state.receiver.svs known with ⟨later, found, above⟩
  apply queued.mp
  have listed := (queued_queueEach state.receiver.fetches
    (api.neighbors (entries.foldl api.applyEntry state.receiver.svs))).2
      ⟨router, later.1, later.2⟩ ((api.mem_neighbors _ _).mpr found)
  apply listed
  intro applied
  rcases follows.known router _ applied with ⟨newest', found', below⟩
  rw [known] at found'
  cases found'
  rw [applied] at unapplied
  exact unapplied (congrArg some (toLex.injective (le_antisymm below above)))

/-- An applied current version means an equal table, unless a change still waits. -/
theorem Follows.agrees (follows : Follows api state)
    (current : state.receiver.fetches.applied.lookup state.origin.table.selfRouter =
      some (state.origin.boot, state.origin.seq))
    (idle : state.origin.waiting = false) (prefixName : Name) :
    state.receiver.table.announced state.origin.table.selfRouter prefixName =
      state.origin.table.localPrefixes.lookup prefixName := by
  rcases follows.marked state.origin.seq current with ⟨adv, pending, same⟩ | ⟨ops, member, old, row⟩
  · -- a newer fetch could only have brought a version the origin has not reached
    have newer := (follows.flight adv (by rw [pending]; rfl)).2 _ (same ▸ current)
    rcases follows.unmarked adv pending same with older | ⟨ops, boot, member, -⟩
    · rcases Prod.Lex.toLex_lt_toLex.mp newer with less | ⟨equal, -⟩
      · exact absurd (lt_trans older less) (lt_irrefl _)
      · have same' : state.origin.boot = adv.boot := equal
        omega
    · have old := (follows.honest.produced _ _ member).2.1
      rcases Prod.Lex.toLex_lt_toLex.mp newer with less | ⟨-, less⟩
      · exact absurd (boot ▸ less) (lt_irrefl _)
      · exact absurd less (not_lt.mpr old)
  · rw [row, (follows.honest.produced _ _ member).2.2 rfl idle]
    exact lookup_applyOps_snap follows.honest.small old prefixName

variable (api) in
/-- In every run a router is queued at most once, a known version that is not applied is queued by
the next Sync Interest, and an applied current version means the origin's own table. -/
theorem prefix_sync_agrees {router : Name} (boot seq : Nat) {svs : S}
    (foreign : router ≠ api.router svs) (stale : HashMap Name (HashMap Name Nat))
    (reaches : System.Reachable (pfxStep api) (PfxState.init api router boot seq svs stale) state) :
    (state.receiver.channel.map NeighborAdvance.name).Nodup ∧
    (∀ name newest, api.neighbor state.receiver.svs name = some newest →
      state.receiver.fetches.applied.lookup name ≠ some newest → ∀ entries,
        name ∈ ((state.receiver.processEntries api entries).queueUnfetched api).channel.map
          NeighborAdvance.name) ∧
    (state.receiver.fetches.applied.lookup state.origin.table.selfRouter =
        some (state.origin.boot, state.origin.seq) → state.origin.waiting = false →
      ∀ prefixName, state.receiver.table.announced state.origin.table.selfRouter prefixName =
        state.origin.table.localPrefixes.lookup prefixName) := by
  have follows : Follows api state := by
    apply reaches.invariant (Follows api) (follows_init api boot seq foreign stale)
    intro before event after holds _ taken
    exact holds.step taken
  refine ⟨follows.tokens.once, ?_, follows.agrees⟩
  intro name newest known unapplied entries
  exact follows.queues known unapplied entries

/-- Router `r` announces `p`; the receiver holds a stale row for `r` and fetches the snapshot. -/
def snapshotFetched : List PfxEvent :=
  [.announceLocal (Name.single 112) 5, .advanceSeq, .processEntries [⟨Name.single 114, 1, 1⟩],
    .queueUnfetched, .startFetch, .readSeq (1, 1), .takeSnapshot 1,
    .applyOpList ⟨Name.single 114, true, [⟨Name.single 112, 5⟩], []⟩, .markFetched]

theorem prefix_sync_agrees_snapshot :
    ∃ state, System.runAllowed (pfxStep stateVector) (fun _ _ => True)
        (PfxState.init stateVector (Name.single 114) 1 0 (StateVector.new (Name.single 97))
          (AList.singleton (Name.single 114) (AList.singleton (Name.single 113) 9)))
        snapshotFetched = some state ∧
      state.receiver.table.announced (Name.single 114) (Name.single 113) = none ∧
      state.receiver.table.announced (Name.single 114) (Name.single 112) = some 5 := by
  have outcome : ∃ state ∈ System.runAllowed (pfxStep stateVector) (fun _ _ => True)
      (PfxState.init stateVector (Name.single 114) 1 0 (StateVector.new (Name.single 97))
        (AList.singleton (Name.single 114) (AList.singleton (Name.single 113) 9)))
      snapshotFetched,
        state.origin.table.selfRouter = Name.single 114 ∧
        state.receiver.fetches.applied.lookup state.origin.table.selfRouter =
          some (state.origin.boot, state.origin.seq) ∧
        state.origin.waiting = false ∧
        state.origin.table.localPrefixes.lookup (Name.single 113) = none ∧
        state.origin.table.localPrefixes.lookup (Name.single 112) = some 5 := by decide
  rcases outcome with ⟨state, run, router, current, idle, absent, present⟩
  have agrees := (prefix_sync_agrees stateVector 1 0 (by decide) _
    (System.reaches_runAllowed System.Reaches.start run)).2.2 current idle
  rw [router] at agrees
  exact ⟨state, run, (agrees _).trans absent, (agrees _).trans present⟩

end NdnExt.Dv
