import Mathlib.Data.List.Dedup
import Mathlib.Data.List.Perm.Subperm
import NdnExt.Lib.Run
import NdnExt.Rpc.Carriers

/-! The two carriers dispatch the same requests while none of them is replayed. -/

namespace NdnExt.Rpc

open NdnExt.Lib.Run NdnExt.Service RpcCarrier List Interest

/-- A request that comes again comes while fewer than 256 other nonces have come since. -/
def RepeatsWithin (interests : List Interest) : Prop :=
  ∀ earlier interest middle later, interests = earlier ++ interest :: middle ++ interest :: later →
    interest.nonce ≠ none → (middle.filterMap Interest.nonce).dedup.length < 256

section

variable (guard : ReplayGuard 256) (serve : Serve) (validate : Interest → InterestValidationOutcome)

/-- What was dispatched by each carrier. -/
def dispatches (interests : List Interest) : List Dispatched :=
  [(RpcCarrier.run guard (serve.withValidator validate) interests).dispatched,
    FaceRpcCarrier.run (serve.withValidator validate) interests]

structure SameDispatch (interests : List Interest) : Prop where
  same : (RpcCarrier.run guard (serve.withValidator validate) interests).dispatched.map Prod.snd =
    (FaceRpcCarrier.run (serve.withValidator validate) interests).map Prod.snd
  authentic : ∀ dispatched ∈ dispatches guard serve validate interests, ∀ entry ∈ dispatched,
    entry.1 ∈ interests ∧ validate entry.1 = .valid ∧
      ∃ sig ∈ entry.1.sigInfo, ∃ requester ∈ sig.keyLocatorName,
        entry.2.requester = some requester
  once : ∀ dispatched ∈ dispatches guard serve validate interests, ∀ interest,
    interest.nonce ≠ none → (dispatched.map Prod.fst).count interest ≤ 1

/-- No request comes while the guard of a carrier remembers its nonce. -/
def NotReplayed (state : RpcCarrier.State guard) (interest : Interest) : Prop :=
  requested serve validate interest ≠ none → ¬Remembered guard state.replay interest

end

variable {guard : ReplayGuard 256} {serve : Serve} {validate : Interest → InterestValidationOutcome}

/-! ### What the guard remembers -/

/-- The guard stays as it is or takes one new nonce. -/
theorem recent_step (state : RpcCarrier.State guard) (interest : Interest) :
    guard.recent (step guard (serve.withValidator validate) state interest).replay =
        guard.recent state.replay ∨
      ∃ n, interest.nonce = some n ∧ n ∉ guard.recent state.replay ∧
        guard.recent (step guard (serve.withValidator validate) state interest).replay =
          (n :: guard.recent state.replay).take 256 := by
  rcases @rpc_step guard serve validate state interest with ⟨same, _⟩ | ⟨sig, signed, after, _⟩
  · rw [same]
    exact Or.inl rfl
  · rw [after]
    cases carried : sig.nonce with
    | none => exact Or.inl (guard.check_without carried).2
    | some n =>
      by_cases seen : n ∈ guard.recent state.replay
      · exact Or.inl (guard.check_seen carried seen).2
      · refine Or.inr ⟨n, ?_, seen, (guard.check_new carried seen).2⟩
        rw [nonce, signed]
        exact carried

theorem length_le_dedup {front all : List Bytes} (distinct : front.Nodup)
    (among : ∀ m ∈ front, m ∈ all) : front.length ≤ all.dedup.length := by
  have inside : front ⊆ all.dedup := fun m found => mem_dedup.mpr (among m found)
  exact (subperm_of_subset distinct inside).length_le

/-- A nonce that has just been taken is remembered until 256 others have come. -/
theorem remembered_run {state : RpcCarrier.State guard} {n : Bytes} {older : List Bytes}
    (latest : guard.recent state.replay = n :: older) {middle : List Interest}
    (few : (middle.filterMap nonce).dedup.length < 256) :
    ∃ newer older', guard.recent (middle.foldl
        (step guard (serve.withValidator validate)) state).replay = newer ++ n :: older' ∧
      newer.Nodup ∧ ∀ m ∈ newer, m ∈ middle.filterMap nonce := by
  induction middle using List.reverseRecOn with
  | nil => exact ⟨[], older, latest, nodup_nil, forall_mem_nil _⟩
  | append_singleton middle interest ih =>
    have longer : ∀ m ∈ middle.filterMap nonce,
        m ∈ (middle ++ [interest]).filterMap nonce := by
      intro m found
      rw [filterMap_append]
      exact mem_append_left _ found
    have fewer : (middle.filterMap nonce).dedup.length < 256 := by
      have bound := length_le_dedup (nodup_dedup (middle.filterMap nonce))
        (fun m found => longer m (mem_dedup.mp found))
      omega
    rcases ih fewer with ⟨newer, older', before, distinct, among⟩
    rw [foldl_append, foldl_cons, foldl_nil]
    rcases @recent_step guard serve validate (middle.foldl
      (step guard (serve.withValidator validate)) state) interest with
        same | ⟨m, carried, unseen, after⟩
    · exact ⟨newer, older', same.trans before, distinct, fun k found => longer k (among k found)⟩
    · rw [before] at unseen after
      have distinct' : (m :: newer).Nodup :=
        nodup_cons.mpr ⟨fun found => unseen (mem_append_left _ found), distinct⟩
      have among' : ∀ k ∈ m :: newer, k ∈ (middle ++ [interest]).filterMap nonce := by
        refine forall_mem_cons.mpr ⟨?_, fun k found => longer k (among k found)⟩
        exact mem_filterMap.mpr
          ⟨interest, mem_append_right _ (mem_singleton_self _), carried⟩
      have short : (m :: newer).length < 256 := by
        have bound := length_le_dedup distinct' among'
        omega
      refine ⟨m :: newer, older'.take (255 - (m :: newer).length), ?_, distinct', among'⟩
      have room : 256 - (m :: newer).length = 255 - (m :: newer).length + 1 := by omega
      rw [after, ← cons_append, take_append, take_of_length_le short.le, room,
        take_succ_cons]

/-! ### Runs -/

/-- Each Interest adds what it requests to what was dispatched, unless it is replayed. -/
theorem rpc_dispatched (state : RpcCarrier.State guard) (interest : Interest) :
    (step guard (serve.withValidator validate) state interest).dispatched =
        state.dispatched ++ ((requested serve validate interest).map (interest, ·)).toList ∧
          NotReplayed guard serve validate state interest ∨
      (step guard (serve.withValidator validate) state interest).dispatched =
        state.dispatched ∧ ¬NotReplayed guard serve validate state interest := by
  rcases @rpc_step guard serve validate state interest with
    ⟨same, nothing⟩ | ⟨sig, signed, _, after⟩
  · rw [same, nothing]
    exact Or.inl ⟨(append_nil _).symm, fun asked => absurd nothing asked⟩
  · rw [after]
    by_cases seen : Remembered guard state.replay interest
    · rw [if_pos ((replay_iff signed).mpr seen), NotReplayed]
      cases requested serve validate interest with
      | none => exact Or.inl ⟨(append_nil _).symm, fun asked => absurd rfl asked⟩
      | some invocation => exact Or.inr ⟨rfl, fun fresh => fresh (Option.some_ne_none _) seen⟩
    · rw [if_neg (mt (replay_iff signed).mp seen)]
      exact Or.inl ⟨rfl, fun _ => seen⟩

theorem run_append (interests : List Interest) (interest : Interest) :
    run guard (serve.withValidator validate) (interests ++ [interest]) =
        step guard (serve.withValidator validate)
          (run guard (serve.withValidator validate) interests) interest ∧
      FaceRpcCarrier.run (serve.withValidator validate) (interests ++ [interest]) =
        FaceRpcCarrier.run (serve.withValidator validate) interests ++
          ((requested serve validate interest).map (interest, ·)).toList := by
  rw [run, FaceRpcCarrier.run, foldl_append, foldl_append]
  exact ⟨rfl, face_step _ interest⟩

variable (guard serve validate) in
/-- The face carrier leaves nothing out. -/
theorem rpc_length_le (interests : List Interest) :
    (run guard (serve.withValidator validate) interests).dispatched.length ≤
      (FaceRpcCarrier.run (serve.withValidator validate) interests).length := by
  induction interests using List.reverseRecOn with
  | nil => exact Nat.le_refl _
  | append_singleton interests interest ih =>
    rcases @run_append guard serve validate interests interest with ⟨rpc, face⟩
    rw [rpc, face, length_append]
    rcases @rpc_dispatched guard serve validate (run guard _ interests) interest with
      ⟨added, _⟩ | ⟨kept, _⟩
    · rw [added, length_append]
      omega
    · rw [kept]
      omega

variable {interests : List Interest} {interest : Interest}

theorem dispatched_eq_of_not_replayed
    (fresh : Throughout (step guard (serve.withValidator validate))
      (start guard) interests (NotReplayed guard serve validate)) :
    (run guard (serve.withValidator validate) interests).dispatched =
      FaceRpcCarrier.run (serve.withValidator validate) interests := by
  induction interests using List.reverseRecOn with
  | nil => rfl
  | append_singleton interests interest ih =>
    rcases throughout_append_singleton.mp fresh with ⟨before, now⟩
    rcases @run_append guard serve validate interests interest with ⟨rpc, face⟩
    rw [rpc, face, ← ih before]
    rcases @rpc_dispatched guard serve validate (run guard _ interests) interest with
      ⟨added, _⟩ | ⟨_, replayed⟩
    · exact added
    · exact absurd now replayed

theorem not_replayed_of_same
    (same : (run guard (serve.withValidator validate) interests).dispatched.length =
      (FaceRpcCarrier.run (serve.withValidator validate) interests).length) :
    Throughout (step guard (serve.withValidator validate)) (start guard)
      interests (NotReplayed guard serve validate) := by
  induction interests using List.reverseRecOn with
  | nil => exact throughout_nil _ _
  | append_singleton interests interest ih =>
    rcases @run_append guard serve validate interests interest with ⟨rpc, face⟩
    have shorter := rpc_length_le guard serve validate interests
    rw [rpc, face, length_append] at same
    rcases @rpc_dispatched guard serve validate (run guard _ interests) interest with
      ⟨added, now⟩ | ⟨kept, replayed⟩
    · rw [added, length_append] at same
      exact throughout_append_singleton.mpr ⟨ih (by omega), now⟩
    · rw [kept] at same
      rw [NotReplayed, Classical.not_imp] at replayed
      rcases Option.ne_none_iff_exists'.mp replayed.1 with ⟨invocation, asked⟩
      rw [asked, Option.map_some, Option.toList_some, length_singleton] at same
      omega

/-- Whatever is dispatched was requested by an Interest that came. -/
theorem dispatched_requested {dispatched : Dispatched}
    (run : dispatched ∈ dispatches guard serve validate interests) {entry : Interest × Invocation}
    (found : entry ∈ dispatched) :
    entry.1 ∈ interests ∧ requested serve validate entry.1 = some entry.2 := by
  have both : (∀ entry ∈ (RpcCarrier.run guard (serve.withValidator validate) interests).dispatched,
        entry.1 ∈ interests ∧ requested serve validate entry.1 = some entry.2) ∧
      ∀ entry ∈ FaceRpcCarrier.run (serve.withValidator validate) interests,
        entry.1 ∈ interests ∧ requested serve validate entry.1 = some entry.2 := by
    clear run found
    induction interests using List.reverseRecOn with
    | nil => exact ⟨forall_mem_nil _, forall_mem_nil _⟩
    | append_singleton interests interest ih =>
      have new : ∀ entry ∈ ((requested serve validate interest).map (interest, ·)).toList,
          entry.1 ∈ interests ++ [interest] ∧
            requested serve validate entry.1 = some entry.2 := by
        intro entry added
        rcases Option.map_eq_some_iff.mp (Option.mem_toList.mp added) with ⟨invocation, asked, rfl⟩
        exact ⟨mem_append_right _ (mem_singleton_self _), asked⟩
      have old : ∀ list : Dispatched, (∀ entry ∈ list, entry.1 ∈ interests ∧
          requested serve validate entry.1 = some entry.2) →
            ∀ entry ∈ list, entry.1 ∈ interests ++ [interest] ∧
              requested serve validate entry.1 = some entry.2 := by
        intro list all entry among
        exact ⟨mem_append_left _ (all entry among).1, (all entry among).2⟩
      rcases @run_append guard serve validate interests interest with ⟨rpc, face⟩
      rw [rpc, face, forall_mem_append]
      refine ⟨?_, old _ ih.2, new⟩
      rcases @rpc_dispatched guard serve validate (RpcCarrier.run guard _ interests) interest with
        ⟨added, _⟩ | ⟨kept, _⟩
      · rw [added, forall_mem_append]
        exact ⟨old _ ih.1, new⟩
      · rw [kept]
        exact old _ ih.1
  rcases mem_cons.mp run with rfl | face
  · exact both.1 entry found
  · rw [mem_singleton.mp face] at found
    exact both.2 entry found

/-! ### Each request once -/

/-- A request that is dispatched leaves its nonce with the guard. -/
theorem latest_step {state : RpcCarrier.State guard} {n : Bytes}
    (asked : requested serve validate interest ≠ none) (carried : interest.nonce = some n)
    (fresh : NotReplayed guard serve validate state interest) :
    guard.recent (step guard (serve.withValidator validate) state interest).replay =
      n :: (guard.recent state.replay).take 255 := by
  rcases @rpc_step guard serve validate state interest with
    ⟨_, nothing⟩ | ⟨sig, signed, after, _⟩
  · exact absurd nothing asked
  · have nonce : sig.nonce = some n := by
      rw [← carried, nonce, signed]
      rfl
    have unseen : n ∉ guard.recent state.replay := fun seen => fresh asked ⟨n, carried, seen⟩
    rw [after, (guard.check_new nonce unseen).2]
    rfl

theorem RepeatsWithin.append
    (within : RepeatsWithin (interests ++ [interest])) : RepeatsWithin interests := by
  intro earlier again middle later same
  exact within earlier again middle (later ++ [interest]) (by rw [same]; simp)

/-- Between two requests that are the same, the guard has not forgotten their nonce. -/
theorem remembered_again
    (within : RepeatsWithin (interests ++ [interest])) (signed : interest.nonce ≠ none)
    (fresh : Throughout (step guard (serve.withValidator validate))
      (start guard) interests (NotReplayed guard serve validate))
    (came : interest ∈ interests) (asked : requested serve validate interest ≠ none) :
    Remembered guard (run guard (serve.withValidator validate) interests).replay
      interest := by
  rcases append_of_mem came with ⟨earlier, middle, rfl⟩
  rcases Option.ne_none_iff_exists'.mp signed with ⟨n, carried⟩
  have latest := latest_step asked carried (fresh earlier interest middle rfl)
  rcases remembered_run latest (within earlier interest middle [] rfl signed) with
    ⟨newer, older, now, _⟩
  refine ⟨n, carried, ?_⟩
  rw [run, foldl_append, foldl_cons, now]
  exact mem_append_right _ mem_cons_self

theorem dispatched_once (within : RepeatsWithin interests)
    (fresh : Throughout (step guard (serve.withValidator validate))
      (start guard) interests (NotReplayed guard serve validate))
    (signed : interest.nonce ≠ none) :
    ((run guard (serve.withValidator validate) interests).dispatched.map
      Prod.fst).count interest ≤ 1 := by
  induction interests using List.reverseRecOn with
  | nil => exact Nat.zero_le 1
  | append_singleton interests last ih =>
    rcases throughout_append_singleton.mp fresh with ⟨before, now⟩
    have earlier := ih within.append before
    rcases @run_append guard serve validate interests last with ⟨rpc, _⟩
    rw [rpc]
    rcases @rpc_dispatched guard serve validate (run guard _ interests) last with
      ⟨added, _⟩ | ⟨_, replayed⟩
    · rw [added, map_append, count_append]
      cases asked : requested serve validate last with
      | none => exact earlier
      | some invocation =>
        by_cases same : last = interest
        · subst same
          have first : ((run guard (serve.withValidator validate)
              interests).dispatched.map Prod.fst).count last = 0 := by
            apply count_eq_zero_of_not_mem
            intro found
            rcases mem_map.mp found with ⟨entry, among, same⟩
            have came := (dispatched_requested mem_cons_self among).1
            rw [same] at came
            have requests : requested serve validate last ≠ none := by
              rw [asked]
              exact Option.some_ne_none _
            exact now requests (remembered_again within signed before came requests)
          rw [first, Nat.zero_add]
          exact count_le_length
        · have other : List.count interest [last] = 0 :=
            count_eq_zero_of_not_mem fun found => same (mem_singleton.mp found).symm
          change _ + List.count interest [last] ≤ 1
          rw [other]
          exact earlier
    · exact absurd now replayed

variable (guard serve validate) in
theorem same_dispatch_iff (interests : List Interest) (within : RepeatsWithin interests) :
    SameDispatch guard serve validate interests ↔
      Throughout (RpcCarrier.step guard (serve.withValidator validate)) (RpcCarrier.start guard)
        interests (NotReplayed guard serve validate) := by
  constructor
  · intro both
    apply not_replayed_of_same
    have lengths := congrArg List.length both.same
    rwa [List.length_map, List.length_map] at lengths
  · intro fresh
    have lists := dispatched_eq_of_not_replayed fresh
    refine ⟨by rw [lists], ?_, ?_⟩
    · intro dispatched run entry found
      rcases dispatched_requested run found with ⟨came, asked⟩
      rcases requested_signed asked with ⟨valid, _, sig, requester, _, signed, locator, same⟩
      exact ⟨came, valid, sig, signed, requester, locator, same⟩
    · intro dispatched run interest signed
      have one := dispatched_once within fresh signed
      rcases List.mem_cons.mp run with rfl | face
      · exact one
      · rw [List.mem_singleton.mp face, ← lists]
        exact one

/-! ### A captured request -/

/-- Keeps the last nonces in a list. -/
def lastNonces : ReplayGuard 256 where
  State := List Bytes
  start := []
  check state sig :=
    match sig.nonce with
    | none => (state, .fresh)
    | some n => if n ∈ state then (state, .replay) else ((n :: state).take 256, .fresh)
  recent state := state
  recent_start := rfl
  check_seen := by
    intro state sig n carried seen
    rw [carried]
    dsimp only
    rw [if_pos seen]
    exact ⟨rfl, rfl⟩
  check_new := by
    intro state sig n carried unseen
    rw [carried]
    dsimp only
    rw [if_neg unseen]
    exact ⟨rfl, rfl⟩
  check_without := by
    intro state sig carried
    rw [carried]
    exact ⟨rfl, rfl⟩

/-- A service `/s` that answers every invocation with no bytes. -/
def silentServe : Serve where
  serviceLen := 1
  dispatch _ := .ok []
  validator := none
  sign _ _ := .ok []
  decodeData _ := .error "none"

/-- `/s/a`, with an envelope of no entries. -/
def signedRequest (nonce : Bytes) : Interest where
  name := ⟨[.generic [115], .generic [97]]⟩
  appParameters := some [0, 0, 0, 0]
  sigInfo := some ⟨some nonce, some ⟨[.generic [107]]⟩⟩
  signature := []

theorem repeatsWithin_of_length (short : interests.length ≤ 256) :
    RepeatsWithin interests := by
  rintro earlier interest middle later rfl _
  have shorter := (dedup_sublist (middle.filterMap nonce)).length_le
  have fewer := length_filterMap_le nonce middle
  simp only [length_append, length_cons] at short
  omega

theorem same_dispatch_two : RepeatsWithin [signedRequest [1], signedRequest [2]] ∧
    SameDispatch lastNonces silentServe (fun _ => .valid)
    [signedRequest [1], signedRequest [2]] := by
  have within : RepeatsWithin [signedRequest [1], signedRequest [2]] :=
    repeatsWithin_of_length (by decide)
  refine ⟨within, (same_dispatch_iff lastNonces silentServe (fun _ => .valid) _ within).mpr ?_⟩
  exact not_replayed_of_same (by decide)

theorem captured_request_dispatched_again : RepeatsWithin [signedRequest [1], signedRequest [1]] ∧
    ¬SameDispatch lastNonces silentServe (fun _ => .valid)
      [signedRequest [1], signedRequest [1]] := by
  refine ⟨repeatsWithin_of_length (by decide), ?_⟩
  intro both
  have lengths := congrArg List.length both.same
  revert lengths
  decide

end NdnExt.Rpc
