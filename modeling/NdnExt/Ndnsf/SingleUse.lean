import NdnExt.Lib.Run
import NdnExt.Ndnsf.Names
import NdnExt.Ndnsf.Tokens

/-! Every token is redeemed once at most, by whom it was issued to and in time. -/

namespace NdnExt.Ndnsf

open NdnExt.Lib NdnExt.Lib.System PendingProviderTokens List HashMap ProviderEngine

/-- The calls that reach the token table; `issue` is what `on_request` and `issue_token` do. -/
inductive TokenOp where
  | issue (requester service : Name) (userToken : String) (drawn : ProviderToken)
  | consume (sel : SelectionMessage) (requester : Name)
  | consumeCompact (sel : SelectionMessage) (requester node service : Name)
  | cleanup

/-- A call at a clock reading. -/
structure TokenCall where
  nowSecs : Nat
  op : TokenOp

/-- Without the assignment payload. -/
def coordOf (answer : Outcome FlowError (PendingCoordination × Bytes)) :
    Outcome FlowError PendingCoordination := do
  return (← answer).1

variable (wire : Wire)

/-- The answer of a redemption, and the engine after the call. -/
def ProviderEngine.call (engine : ProviderEngine) (input : TokenCall) :
    Option (Outcome FlowError PendingCoordination) × ProviderEngine :=
  match input.op with
  | .issue requester service userToken drawn =>
    (none, engine.issueToken input.nowSecs requester service userToken drawn)
  | .consume sel requester =>
    let result := engine.consumeSelection input.nowSecs sel requester
    (some result.1, result.2)
  | .consumeCompact sel requester node service =>
    let result := engine.consumeSelectionCompact wire input.nowSecs sel requester node service
    (some (coordOf result.1), result.2)
  | .cleanup => (none, (engine.cleanupExpired input.nowSecs).2)

def TokenOp.requester : TokenOp → Option Name
  | issue _ _ _ _ => none
  | consume _ requester => some requester
  | consumeCompact _ requester _ _ => some requester
  | cleanup => none

/-- The call carries the token itself, or the proof hash of it for this provider and service. -/
def Presents (op : TokenOp) (token : ProviderToken) : Prop :=
  match op with
  | .issue _ _ _ _ => False
  | .consume sel _ => token = ⟨sel.providerToken⟩
  | .consumeCompact sel requester node service =>
    ∃ entry, sel.providerEntries.find? (fun entry => entry.providerName = node) = some entry ∧
      entry.providerTokenHash ≠ "" ∧
      selectionTokenProofHash wire requester node service token.wire = entry.providerTokenHash
  | .cleanup => False

structure Issue where
  token : ProviderToken
  coord : PendingCoordination
  createdAtSecs : Nat

structure Redemption where
  token : ProviderToken
  requester : Name
  atSecs : Nat
  coord : PendingCoordination

/-- The engine with the history of what it issued and redeemed. -/
structure Ledger where
  engine : ProviderEngine
  clock : Nat
  issued : List Issue
  redeemed : List Redemption

/-- The token that a call removed. -/
def spent (before after : ProviderEngine) : Option ProviderToken :=
  before.tokens.entries.keys.find? (fun token => (after.tokens.entries.lookup token).isNone)

def issuedBy (input : TokenCall) : List Issue :=
  match input.op with
  | .issue requester service userToken drawn =>
    [⟨drawn, ⟨requester, service, userToken⟩, input.nowSecs⟩]
  | _ => []

def redeemedBy (engine : ProviderEngine) (input : TokenCall) : List Redemption :=
  match (engine.call wire input).1, spent engine (engine.call wire input).2,
      input.op.requester with
  | some (.ok coord), some token, some requester => [⟨token, requester, input.nowSecs, coord⟩]
  | _, _, _ => []

def Ledger.next (ledger : Ledger) (input : TokenCall) : Ledger where
  engine := (ledger.engine.call wire input).2
  clock := input.nowSecs
  issued := ledger.issued ++ issuedBy input
  redeemed := ledger.redeemed ++ redeemedBy wire ledger.engine input

def Ledger.step (ledger : Ledger) (input : TokenCall) : Option Ledger :=
  some (ledger.next wire input)

def Ledger.start (ttlSecs : Nat) : Ledger := ⟨.new ttlSecs, 0, [], []⟩

/-- The clock does not go back. -/
def Clocked (ledger : Ledger) (input : TokenCall) : Prop := ledger.clock ≤ input.nowSecs

/-- Moreover a token is only issued where the table has room, and it is a new one. -/
def Proper (ledger : Ledger) (input : TokenCall) : Prop :=
  Clocked ledger input ∧
    match input.op with
    | .issue _ _ _ drawn => ledger.engine.tokens.entries.keys.length < maxPendingTokens ∧
        drawn ∉ ledger.issued.map Issue.token
    | _ => True

variable {wire}

theorem consume_call (engine : ProviderEngine) (nowSecs : Nat) (sel : SelectionMessage)
    (requester : Name) :
    Redeems engine.tokens nowSecs requester (Presents wire (.consume sel requester))
      (engine.consumeSelection nowSecs sel requester).1
      (engine.consumeSelection nowSecs sel requester).2.tokens :=
  (consume_redeems engine.tokens nowSecs ⟨sel.providerToken⟩ requester).rejected

theorem coordOf_pair (answer : Outcome FlowError PendingCoordination) (payload : Bytes) :
    coordOf (do return (← answer, payload)) = answer := by
  cases answer <;> rfl

theorem consumeCompact_call (engine : ProviderEngine) (nowSecs : Nat) (sel : SelectionMessage)
    (requester node service : Name) :
    Redeems engine.tokens nowSecs requester
      (Presents wire (.consumeCompact sel requester node service))
      (coordOf (engine.consumeSelectionCompact wire nowSecs sel requester node service).1)
      (engine.consumeSelectionCompact wire nowSecs sel requester node service).2.tokens := by
  unfold consumeSelectionCompact
  cases selected : sel.providerEntries.find? (fun entry => entry.providerName = node) with
  | none =>
    refine Redeems.none ?_
    intro token coord created _ _ ⟨entry, found, _⟩
    rw [selected] at found
    cases found
  | some entry =>
    dsimp only
    split
    · next empty =>
      refine Redeems.none ?_
      intro token coord created _ _ ⟨other, found, nonempty, _⟩
      rw [selected] at found
      cases found
      exact nonempty empty
    · next nonempty =>
      have redeems := (consumeWhere_redeems engine.tokens nowSecs requester (fun token =>
        selectionTokenProofHash wire requester node service token =
          entry.providerTokenHash)).rejected
      rw [coordOf_pair]
      refine redeems.congr ?_
      intro token
      rw [decide_eq_true_iff]
      constructor
      · intro proof
        exact ⟨entry, selected, nonempty, proof⟩
      · intro ⟨other, found, _, proof⟩
        rw [selected] at found
        cases found
        exact proof

variable {input : TokenCall} {token : ProviderToken} {engine : ProviderEngine}
  {coord : PendingCoordination} {ledger : Ledger} {nowSecs : Nat}

/-- Both ways of redeeming a token, as one. -/
theorem attempt (wire : Wire) (engine : ProviderEngine) {requester : Name}
    (attempts : input.op.requester = some requester) :
    ∃ answer, (engine.call wire input).1 = some answer ∧
      Redeems engine.tokens input.nowSecs requester (Presents wire input.op) answer
        (engine.call wire input).2.tokens := by
  rcases input with ⟨nowSecs, op⟩
  cases op with
  | issue | cleanup => cases attempts
  | consume sel own =>
    cases attempts
    exact ⟨_, rfl, consume_call engine nowSecs sel requester⟩
  | consumeCompact sel own node service =>
    cases attempts
    exact ⟨_, rfl, consumeCompact_call engine nowSecs sel requester node service⟩

theorem issuedBy_attempt {requester : Name}
    (attempts : input.op.requester = some requester) : issuedBy input = [] := by
  rcases input with ⟨nowSecs, op⟩
  cases op with
  | issue => cases attempts
  | consume | consumeCompact | cleanup => rfl

theorem spent_erase {before after : ProviderEngine}
    {entry : PendingCoordination × Nat}
    (found : before.tokens.entries.lookup token = some entry)
    (erased : after.tokens.entries = before.tokens.entries.erase token) :
    spent before after = some token := by
  have gone : ∀ key, key ∈ before.tokens.entries.keys →
      ((after.tokens.entries.lookup key).isNone ↔ key = token) := by
    intro key listed
    rw [erased, lookup_erase_eq]
    have present := AList.lookup_isSome.mpr (AList.mem_keys.mpr listed)
    split
    · simp_all
    · next other => simp [other, Option.isSome_iff_ne_none.mp present]
  unfold spent
  cases first : before.tokens.entries.keys.find?
      (fun key => (after.tokens.entries.lookup key).isNone) with
  | none =>
    have listed : token ∈ before.tokens.entries.keys :=
      AList.mem_keys.mp (mem_iff_lookup.mpr ⟨entry, found⟩)
    exact absurd ((gone token listed).mpr rfl) (List.find?_eq_none.mp first token listed)
  | some key =>
    have missing := List.find?_some first
    exact congrArg some ((gone key (mem_of_find?_eq_some first)).mp missing)

theorem redeemedBy_failed
    (failed : ∀ coord, (engine.call wire input).1 ≠ some (.ok coord)) :
    redeemedBy wire engine input = [] := by
  unfold redeemedBy
  split
  · next answered _ _ => exact absurd answered (failed _)
  · rfl

theorem redeemedBy_ok
    {requester : Name}
    (answered : (engine.call wire input).1 = some (.ok coord))
    (removed : spent engine (engine.call wire input).2 = some token)
    (attempts : input.op.requester = some requester) :
    redeemedBy wire engine input = [⟨token, requester, input.nowSecs, coord⟩] := by
  rw [redeemedBy, answered, removed, attempts]

/-- What holds of every ledger. -/
structure Sound (ttlSecs : Nat) (ledger : Ledger) : Prop where
  ttl : ledger.engine.tokens.ttlSecs = ttlSecs
  capped : ledger.engine.tokens.entries.keys.length ≤ maxPendingTokens
  pending : ∀ token coord created,
    ledger.engine.tokens.entries.lookup token = some (coord, created) →
    ⟨token, coord, created⟩ ∈ ledger.issued ∧ token ∉ ledger.redeemed.map Redemption.token ∧
      created ≤ ledger.clock
  waiting : ∀ issue ∈ ledger.issued, issue.token ∉ ledger.redeemed.map Redemption.token →
    ledger.clock < issue.createdAtSecs + ttlSecs →
    ledger.engine.tokens.entries.lookup issue.token = some (issue.coord, issue.createdAtSecs)
  fresh : (ledger.issued.map Issue.token).Nodup
  once : (ledger.redeemed.map Redemption.token).Nodup
  honest : ∀ redemption ∈ ledger.redeemed, ∃ issue ∈ ledger.issued,
    issue.token = redemption.token ∧ issue.coord = redemption.coord ∧
      issue.coord.requester = redemption.requester ∧ issue.createdAtSecs ≤ redemption.atSecs ∧
      redemption.atSecs < issue.createdAtSecs + ttlSecs

variable {ttlSecs : Nat}

theorem sound_start : Sound ttlSecs (Ledger.start ttlSecs) where
  ttl := rfl
  capped := Nat.zero_le _
  pending := nofun
  waiting := nofun
  fresh := nodup_nil
  once := nodup_nil
  honest := nofun

/-- A call that only drops tokens that have expired. -/
theorem Sound.drop (sound : Sound ttlSecs ledger) {table : PendingProviderTokens}
    (clocked : ledger.clock ≤ nowSecs) (ttl : table.ttlSecs = ttlSecs)
    (shrinks : table.entries.keys.length ≤ ledger.engine.tokens.entries.keys.length)
    (known : ∀ token entry, table.entries.lookup token = some entry →
      ledger.engine.tokens.entries.lookup token = some entry)
    (kept : ∀ token entry, ledger.engine.tokens.entries.lookup token = some entry →
      nowSecs < entry.2 + ttlSecs → table.entries.lookup token = some entry) :
    Sound ttlSecs ⟨⟨table⟩, nowSecs, ledger.issued, ledger.redeemed⟩ where
  ttl := ttl
  capped := shrinks.trans sound.capped
  pending := by
    intro token coord created found
    rcases sound.pending token coord created (known _ _ found) with ⟨listed, unspent, early⟩
    exact ⟨listed, unspent, early.trans clocked⟩
  waiting := by
    intro issue listed unredeemed time
    have early : ledger.clock < issue.createdAtSecs + ttlSecs := Nat.lt_of_le_of_lt clocked time
    exact kept _ _ (sound.waiting issue listed unredeemed early) time
  fresh := sound.fresh
  once := sound.once
  honest := sound.honest

theorem Sound.redeem (sound : Sound ttlSecs ledger)
    (clocked : ledger.clock ≤ nowSecs)
    {created : Nat}
    (found : ledger.engine.tokens.entries.lookup token = some (coord, created))
    (time : nowSecs < created + ttlSecs) :
    Sound ttlSecs ⟨⟨{ ledger.engine.tokens with entries := ledger.engine.tokens.entries.erase token }⟩,
      nowSecs, ledger.issued, ledger.redeemed ++ [⟨token, coord.requester, nowSecs, coord⟩]⟩ where
  ttl := sound.ttl
  capped := (keys_erase_length _ _).trans sound.capped
  pending := by
    intro other coord' created' found'
    rcases lookup_erase_eq_some.mp found' with ⟨different, found'⟩
    rcases sound.pending other coord' created' found' with ⟨listed, unspent, early⟩
    refine ⟨listed, ?_, early.trans clocked⟩
    rw [map_append, mem_append, not_or]
    exact ⟨unspent, fun last => different (mem_singleton.mp last)⟩
  waiting := by
    intro issue listed unredeemed time'
    rw [map_append, mem_append, not_or] at unredeemed
    have different : issue.token ≠ token := fun same =>
      unredeemed.2 (mem_singleton.mpr same)
    have early : ledger.clock < issue.createdAtSecs + ttlSecs := Nat.lt_of_le_of_lt clocked time'
    exact lookup_erase_eq_some.mpr
      ⟨different, sound.waiting issue listed unredeemed.1 early⟩
  fresh := sound.fresh
  once := by
    rw [map_append]
    refine nodup_append'.mpr ⟨sound.once, nodup_singleton _, ?_⟩
    exact disjoint_singleton.mpr (sound.pending token coord created found).2.1
  honest := by
    intro redemption listed
    rcases mem_append.mp listed with earlier | last
    · exact sound.honest redemption earlier
    · cases mem_singleton.mp last
      rcases sound.pending token coord created found with ⟨issued, _, early⟩
      exact ⟨_, issued, rfl, rfl, rfl, early.trans clocked, time⟩

theorem Sound.issue (sound : Sound ttlSecs ledger)
    (clocked : ledger.clock ≤ nowSecs) (coord : PendingCoordination)
    (room : ledger.engine.tokens.entries.keys.length < maxPendingTokens)
    (new : token ∉ ledger.issued.map Issue.token) :
    Sound ttlSecs ⟨⟨{ ledger.engine.tokens with
        entries := ledger.engine.tokens.entries.insert token (coord, nowSecs) }⟩,
      nowSecs, ledger.issued ++ [⟨token, coord, nowSecs⟩], ledger.redeemed⟩ where
  ttl := sound.ttl
  capped := by
    rw [AList.keys_insert, length_cons]
    exact (Nat.succ_le_succ length_erase_le).trans room
  pending := by
    intro other coord' created' found
    rw [lookup_insert_eq] at found
    split at found
    · next same =>
      cases found
      rw [same]
      refine ⟨mem_append_right _ (mem_singleton.mpr rfl), ?_, Nat.le_refl _⟩
      intro redeemed
      rcases mem_map.mp redeemed with ⟨redemption, listed, same'⟩
      rcases sound.honest redemption listed with ⟨issue, issued, same'', _⟩
      exact new (mem_map.mpr ⟨issue, issued, same''.trans same'⟩)
    · rcases sound.pending other coord' created' found with ⟨listed, unspent, early⟩
      exact ⟨mem_append_left _ listed, unspent, early.trans clocked⟩
  waiting := by
    intro issue listed unredeemed time
    rw [lookup_insert_eq]
    rcases mem_append.mp listed with earlier | last
    · have different : issue.token ≠ token := fun same =>
        new (mem_map.mpr ⟨issue, earlier, same⟩)
      rw [if_neg different]
      exact sound.waiting issue earlier unredeemed (Nat.lt_of_le_of_lt clocked time)
    · cases mem_singleton.mp last
      exact if_pos rfl
  fresh := by
    rw [map_append]
    refine nodup_append'.mpr ⟨sound.fresh, nodup_singleton _, ?_⟩
    exact disjoint_singleton.mpr new
  once := sound.once
  honest := by
    intro redemption listed
    rcases sound.honest redemption listed with ⟨issue, issued, rest⟩
    exact ⟨issue, mem_append_left _ issued, rest⟩

theorem ProviderEngine.issueToken_room
    (room : engine.tokens.entries.keys.length < maxPendingTokens) (nowSecs : Nat)
    (requester service : Name) (userToken : String) (drawn : ProviderToken) :
    engine.issueToken nowSecs requester service userToken drawn =
      ⟨{ engine.tokens with entries :=
          engine.tokens.entries.insert drawn (⟨requester, service, userToken⟩, nowSecs) }⟩ := by
  have unshed : engine.tokens.shed = engine.tokens.entries := if_neg (Nat.not_le_of_lt room)
  rw [issueToken, PendingProviderTokens.issue, unshed]

theorem ProviderEngine.cleaned (engine : ProviderEngine) (nowSecs : Nat) (token : ProviderToken) :
    (engine.cleanupExpired nowSecs).2.tokens.entries.lookup token =
      (engine.tokens.entries.lookup token).filter
        (fun entry => nowSecs - entry.2 < engine.tokens.ttlSecs) :=
  lookup_retain _ _ _

theorem ProviderEngine.cleaned_length (engine : ProviderEngine) (nowSecs : Nat) :
    (engine.cleanupExpired nowSecs).2.tokens.entries.keys.length ≤
      engine.tokens.entries.keys.length :=
  (List.Sublist.map _ filter_sublist).length_le

theorem sound_attempt (sound : Sound ttlSecs ledger)
    (clocked : ledger.clock ≤ input.nowSecs) {requester : Name}
    (attempts : input.op.requester = some requester) : Sound ttlSecs (ledger.next wire input) := by
  rcases attempt wire ledger.engine attempts with ⟨answer, answered, redeems⟩
  have next : ledger.next wire input = ⟨(ledger.engine.call wire input).2, input.nowSecs,
      ledger.issued, ledger.redeemed ++ redeemedBy wire ledger.engine input⟩ := by
    rw [Ledger.next, issuedBy_attempt attempts, append_nil]
  rw [next]
  generalize same : (ledger.engine.call wire input).2 = engine at redeems
  rcases engine with ⟨table⟩
  cases redeems with
  | none =>
    rw [redeemedBy_failed (by rw [answered]; nofun), append_nil]
    exact sound.drop clocked sound.ttl (Nat.le_refl _) (fun _ _ found => found)
      (fun _ _ found _ => found)
  | @expired token coord created _ _ found _ late =>
    rw [redeemedBy_failed (by rw [answered]; nofun), append_nil]
    refine sound.drop clocked sound.ttl ?_ ?_ ?_
    · exact keys_erase_length _ _
    · exact fun _ _ found => (lookup_erase_eq_some.mp found).2
    · intro other entry found' time
      refine lookup_erase_eq_some.mpr ⟨?_, found'⟩
      rintro rfl
      rw [found] at found'
      cases found'
      have early := (sound.pending _ coord created found).2.2
      rw [sound.ttl] at late
      omega
  | @redeemed token coord created _ found own time =>
    have erased : (ledger.engine.call wire input).2.tokens.entries =
        ledger.engine.tokens.entries.erase token := by
      rw [same]
    rw [redeemedBy_ok answered (spent_erase found erased) attempts, ← own]
    rw [sound.ttl] at time
    exact sound.redeem clocked found (by omega)

theorem sound_next (sound : Sound ttlSecs ledger)
    (proper : Proper ledger input) : Sound ttlSecs (ledger.next wire input) := by
  rcases proper with ⟨clocked, proper⟩
  cases attempts : input.op.requester with
  | some requester => exact sound_attempt sound clocked attempts
  | none =>
    rcases input with ⟨nowSecs, op⟩
    cases op with
    | consume | consumeCompact => cases attempts
    | issue requester service userToken drawn =>
      rcases proper with ⟨room, new⟩
      have next : ledger.next wire ⟨nowSecs, .issue requester service userToken drawn⟩ =
          ⟨ledger.engine.issueToken nowSecs requester service userToken drawn, nowSecs,
            ledger.issued ++ [⟨drawn, ⟨requester, service, userToken⟩, nowSecs⟩],
            ledger.redeemed⟩ := by
        simp only [Ledger.next, call, issuedBy, redeemedBy, append_nil]
      rw [next, issueToken_room room]
      exact sound.issue clocked _ room new
    | cleanup =>
      have next : ledger.next wire ⟨nowSecs, .cleanup⟩ =
          ⟨(ledger.engine.cleanupExpired nowSecs).2, nowSecs, ledger.issued,
            ledger.redeemed⟩ := by
        simp only [Ledger.next, call, issuedBy, redeemedBy, append_nil]
      rw [next]
      refine sound.drop clocked sound.ttl ?_ ?_ ?_
      · exact ledger.engine.cleaned_length nowSecs
      · intro token entry found
        exact (Option.filter_eq_some_iff.mp
          ((ledger.engine.cleaned nowSecs token).symm.trans found)).1
      · intro token entry found time
        refine (ledger.engine.cleaned nowSecs token).trans ?_
        rw [found, Option.filter_some, sound.ttl]
        have early := (sound.pending token entry.1 entry.2 found).2.2
        have young : nowSecs - entry.2 < ttlSecs := by
          have clocked : ledger.clock ≤ nowSecs := clocked
          omega
        rw [if_pos (decide_eq_true young)]

theorem presents_unique (injective : ∀ requester provider service,
      Function.Injective (selectionTokenProofHash wire requester provider service))
    {op : TokenOp} {other : ProviderToken} (presented : Presents wire op token)
    (presented' : Presents wire op other) : token = other := by
  cases op with
  | issue | cleanup => cases presented
  | consume sel requester => exact presented.trans presented'.symm
  | consumeCompact sel requester node service =>
    rcases presented with ⟨entry, found, _, proof⟩
    rcases presented' with ⟨entry', found', _, proof'⟩
    rw [found] at found'
    cases found'
    have same := injective requester node service (proof.trans proof'.symm)
    exact congrArg ProviderToken.mk same

variable (wire)

/-- What a call does to the pending tokens. -/
structure Lawful (ledger : Ledger) (input : TokenCall) : Prop where
  kept : ∀ token entry, ledger.engine.tokens.entries.lookup token = some entry →
    ¬ (Presents wire input.op token ∧ input.op.requester = some entry.1.requester) →
    (input.op = .cleanup → input.nowSecs < entry.2 + ledger.engine.tokens.ttlSecs) →
    (ledger.next wire input).engine.tokens.entries.lookup token = some entry
  redeems : ∀ token coord created,
    ledger.engine.tokens.entries.lookup token = some (coord, created) →
    Presents wire input.op token → input.op.requester = some coord.requester →
    input.nowSecs < created + ledger.engine.tokens.ttlSecs →
    (ledger.engine.call wire input).1 = some (.ok coord)
  recorded : ∀ coord, (ledger.engine.call wire input).1 = some (.ok coord) →
    ∃ token created, ledger.engine.tokens.entries.lookup token = some (coord, created) ∧
      Presents wire input.op token ∧ input.op.requester = some coord.requester ∧
      (ledger.next wire input).redeemed =
        ledger.redeemed ++ [⟨token, coord.requester, input.nowSecs, coord⟩]

variable {wire}

/-- A redemption that takes a token away leaves the ones that were not presented. -/
theorem kept_erase {removed : ProviderToken} {created : Nat}
    (found : ledger.engine.tokens.entries.lookup removed = some (coord, created))
    (presented : Presents wire input.op removed)
    (own : input.op.requester = some coord.requester)
    {entry : PendingCoordination × Nat}
    (held : ledger.engine.tokens.entries.lookup token = some entry)
    (unpresented : ¬ (Presents wire input.op token ∧
      input.op.requester = some entry.1.requester)) :
    (ledger.engine.tokens.entries.erase removed).lookup token = some entry := by
  refine lookup_erase_eq_some.mpr ⟨?_, held⟩
  intro same
  rw [same] at held unpresented
  rw [found] at held
  cases held
  exact unpresented ⟨presented, own⟩

section

variable (injective : ∀ requester provider service, Function.Injective (selectionTokenProofHash
  wire requester provider service))
include injective

theorem lawful_attempt
    (sound : Sound ttlSecs ledger)
    (clocked : ledger.clock ≤ input.nowSecs) {requester : Name}
    (attempts : input.op.requester = some requester) : Lawful wire ledger input := by
  rcases attempt wire ledger.engine attempts with ⟨answer, answered, redeems⟩
  have next : (ledger.next wire input).engine = (ledger.engine.call wire input).2 := rfl
  have recorded : (ledger.next wire input).redeemed =
      ledger.redeemed ++ redeemedBy wire ledger.engine input := rfl
  generalize same : (ledger.engine.call wire input).2 = engine at redeems next
  rcases engine with ⟨table⟩
  cases redeems with
  | none absent =>
    constructor
    · intro token entry held _ _
      rw [next]
      exact held
    · intro token coord created held presented own _
      rw [attempts] at own
      exact absurd presented (absent token coord created held (Option.some.inj own).symm)
    · intro coord ok
      rw [answered] at ok
      cases ok
  | @expired removed coord created _ presented found own late =>
    rw [← own] at attempts
    constructor
    · intro token entry held unpresented _
      rw [next]
      exact kept_erase found presented attempts held unpresented
    · intro token coord' created' held presented' _ time
      rw [presents_unique injective presented' presented, found] at held
      cases held
      have early := (sound.pending removed coord created found).2.2
      omega
    · intro coord' ok
      rw [answered] at ok
      cases ok
  | @redeemed removed coord created presented found own _ =>
    rw [← own] at attempts
    have erased : (ledger.engine.call wire input).2.tokens.entries =
        ledger.engine.tokens.entries.erase removed := by
      rw [same]
    constructor
    · intro token entry held unpresented _
      rw [next]
      exact kept_erase found presented attempts held unpresented
    · intro token coord' created' held presented' _ _
      rw [presents_unique injective presented' presented, found] at held
      cases held
      exact answered
    · intro coord' ok
      rw [answered] at ok
      cases ok
      refine ⟨removed, created, found, presented, attempts, ?_⟩
      rw [recorded, redeemedBy_ok answered (spent_erase found erased) attempts]

theorem lawful_proper
    (sound : Sound ttlSecs ledger)
    (proper : Proper ledger input) : Lawful wire ledger input := by
  rcases proper with ⟨clocked, proper⟩
  cases attempts : input.op.requester with
  | some requester => exact lawful_attempt injective sound clocked attempts
  | none =>
    rcases input with ⟨nowSecs, op⟩
    refine ⟨?_, ?_, ?_⟩
    · intro token entry held _ young
      cases op with
      | consume | consumeCompact => cases attempts
      | issue requester service userToken drawn =>
        rcases proper with ⟨room, new⟩
        have issued := (sound.pending token entry.1 entry.2 held).1
        have different : token ≠ drawn := fun same =>
          new (mem_map.mpr ⟨_, issued, same⟩)
        have next : (ledger.next wire
            ⟨nowSecs, .issue requester service userToken drawn⟩).engine =
              ledger.engine.issueToken nowSecs requester service userToken drawn := rfl
        rw [next, issueToken_room room]
        exact (AList.lookup_insert_ne different).trans held
      | cleanup =>
        have early := (sound.pending token entry.1 entry.2 held).2.2
        have clocked : ledger.clock ≤ nowSecs := clocked
        have young : nowSecs < entry.2 + ledger.engine.tokens.ttlSecs := young rfl
        refine (ledger.engine.cleaned nowSecs token).trans ?_
        rw [held, Option.filter_some, if_pos (decide_eq_true (by omega))]
    · intro token coord created _ _ own
      rw [attempts] at own
      cases own
    · intro coord ok
      cases op with
      | consume | consumeCompact => cases attempts
      | issue | cleanup => cases ok

end

theorem shed_length {table : PendingProviderTokens}
    (capped : table.entries.keys.length ≤ maxPendingTokens) :
    table.shed.keys.length < maxPendingTokens := by
  have positive : 0 < maxPendingTokens := by decide
  unfold shed
  split
  · next full =>
    cases first : table.entries.keys.head? with
    | none =>
      rw [List.head?_eq_none_iff.mp first] at full
      exact absurd full (Nat.not_le_of_lt positive)
    | some victim =>
      have listed : victim ∈ table.entries.keys := mem_of_head? first
      have erased := length_erase_of_mem listed
      rw [← AList.keys_erase] at erased
      dsimp only
      omega
  · next room => exact Nat.lt_of_not_ge room

theorem Ledger.capped_next (input : TokenCall)
    (capped : ledger.engine.tokens.entries.keys.length ≤ maxPendingTokens) :
    (ledger.next wire input).engine.tokens.entries.keys.length ≤ maxPendingTokens := by
  have next : (ledger.next wire input).engine = (ledger.engine.call wire input).2 := rfl
  rw [next]
  cases attempts : input.op.requester with
  | some requester =>
    rcases attempt wire ledger.engine attempts with ⟨answer, _, redeems⟩
    refine Nat.le_trans ?_ capped
    exact redeems.shrinks
  | none =>
    rcases input with ⟨nowSecs, op⟩
    cases op with
    | consume | consumeCompact => cases attempts
    | issue requester service userToken drawn =>
      have room := shed_length capped
      have inserted : (ledger.engine.issueToken nowSecs requester service userToken
          drawn).tokens.entries.keys = drawn :: ledger.engine.tokens.shed.keys.erase drawn :=
        AList.keys_insert _
      have shorter := @List.length_erase_le _ _ drawn ledger.engine.tokens.shed.keys
      simp only [call, inserted, length_cons]
      omega
    | cleanup => exact (ledger.engine.cleaned_length nowSecs).trans capped

/-- Tokens are single use and bound to whom they were issued; the cap holds even where a full
table sheds tokens. -/
theorem tokens_singleUse (wire : Wire) (ttlSecs : Nat)
    (injective : ∀ requester provider service,
      Function.Injective (selectionTokenProofHash wire requester provider service)) :
    (∀ ledger, Reaches (Ledger.step wire) Proper (Ledger.start ttlSecs) ledger →
      Sound ttlSecs ledger ∧ ∀ input, Proper ledger input → Lawful wire ledger input) ∧
    ∀ ledger, Reachable (Ledger.step wire) (Ledger.start ttlSecs) ledger →
      ledger.engine.tokens.entries.keys.length ≤ maxPendingTokens := by
  constructor
  · intro ledger reaches
    have sound : Sound ttlSecs ledger := by
      refine reaches.invariant (Sound ttlSecs) sound_start ?_
      intro ledger input next sound proper taken
      cases taken
      exact sound_next sound proper
    exact ⟨sound, fun input proper => lawful_proper injective sound proper⟩
  · intro ledger reaches
    refine reaches.invariant (fun ledger =>
      ledger.engine.tokens.entries.keys.length ≤ maxPendingTokens) (Nat.zero_le _) ?_
    intro ledger input next capped _ taken
    cases taken
    exact ledger.capped_next input capped

def issueToAlice : TokenCall where
  nowSecs := 100
  op := .issue (plain ["muas", "alice"]) (plain ["svc", "weather"]) "u1" ⟨"deadbeef"⟩

def aliceSelects : TokenCall where
  nowSecs := 120
  op := .consumeCompact ⟨"", "r1", [⟨plain ["met", "stationA"], pinnedDigest, []⟩], 1⟩
    (plain ["muas", "alice"]) (plain ["met", "stationA"]) (plain ["svc", "weather"])

theorem tokens_singleUse_deadbeef :
    (((Ledger.start 60).next pinnedWire issueToAlice).engine.call pinnedWire aliceSelects).1 =
      some (.ok ⟨plain ["muas", "alice"], plain ["svc", "weather"], "u1"⟩) := by
  have clear : ([] : List ProviderToken).length < maxPendingTokens := by decide
  have proper : Proper (Ledger.start 60) issueToAlice :=
    ⟨Nat.zero_le _, clear, List.not_mem_nil⟩
  have issued : Reaches (Ledger.step pinnedWire) Proper (Ledger.start 60)
      ((Ledger.start 60).next pinnedWire issueToAlice) := Reaches.start.step proper rfl
  have later : (100 : Nat) ≤ 120 := by decide
  have lawful := ((tokens_singleUse pinnedWire 60 pinnedWire_injective).1 _ issued).2 aliceSelects
    ⟨later, trivial⟩
  have hash : selectionTokenProofHash pinnedWire (plain ["muas", "alice"])
      (plain ["met", "stationA"]) (plain ["svc", "weather"]) "deadbeef" = pinnedDigest := by
    decide +kernel
  have presented : Presents pinnedWire aliceSelects.op ⟨"deadbeef"⟩ :=
    ⟨⟨plain ["met", "stationA"], pinnedDigest, []⟩, by decide +kernel, by decide, hash⟩
  exact lawful.redeems ⟨"deadbeef"⟩ _ 100 (by decide +kernel) presented rfl (by decide)

end NdnExt.Ndnsf
