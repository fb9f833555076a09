import Mathlib.Data.List.Perm.Basic
import NdnExt.Nan.Network
import NdnExt.Nan.PairWindows

/-! Two engines agree on every path once nothing is on its way or due. -/

namespace NdnExt.Nan

open NdnExt.Lib NdnExt.Lib.Keyed NdnExt.Lib.Run NanEngine Pair

/-! ### Steps -/

section

variable {cfg : Bool → NanConfig} {pair pair' : Pair} {z : Bool} {now : Usec}

/-- Two pairs that differ in nothing of the paths. -/
theorem PairSound.same (sound : PairSound cfg pair)
    (config : ∀ w, (pair'.engine w).cfg = (pair.engine w).cfg)
    (ndps : ∀ w, (pair'.engine w).ndps = (pair.engine w).ndps) (next : pair'.next = pair.next)
    (flight : ∀ w b, b ∈ pair'.flight w ↔ b ∈ pair.flight w) : PairSound cfg pair' := by
  have paths : ∀ w, (pair'.engine w).path = (pair.engine w).path := by
    intro w
    funext k
    rw [path, ndps]
    rfl
  have carried : ∀ w subtype ndpId, Carried cfg w subtype ndpId (pair'.flight w) ↔
      Carried cfg w subtype ndpId (pair.flight w) := by
    intro w subtype ndpId
    simp only [Carried, flight]
  refine ⟨?_, ?_, ?_, ?_, ?_, ?_⟩
  · intro w
    exact (config w).trans (sound.config w)
  · intro w
    rw [ndps]
    exact sound.distinct w
  · intro w b found m said
    rw [next]
    exact sound.messages w b ((flight w b).mp found) m said
  · intro w k s found role
    rw [next]
    exact sound.held w k s (paths w ▸ found) role
  · intro w k s found role
    rw [next]
    exact sound.asked w k s (paths w ▸ found) role
  · intro x ndpId
    refine (sound.views x ndpId).congr ?_ ?_ (carried _ _ _) (carried _ _ _) (carried _ _ _)
    · exact congrFun (paths x) _
    · exact congrFun (paths !x) _

/-- One side in the middle of a poll: what it is, and what it has still to hear. -/
def Pair.hearing (pair : Pair) (z : Bool) (engine : NanEngine) (left : List Bytes) : Pair :=
  { pair with
    engine := Function.update pair.engine z engine
    flight := Function.update pair.flight z left }

theorem PairSound.receives (sound : PairSound cfg pair) (nmis : (cfg z).nmi ≠ (cfg !z).nmi)
    (ndis : (cfg z).ndi ≠ (cfg !z).ndi) {inbound : List RxFrame}
    (inFlight : (inbound.map RxFrame.bytes).Subperm (pair.flight z))
    (open' : ∀ rx ∈ inbound, ∀ m, pathMessage rx.bytes = some m →
      m.subtype = .dataPathRequest → m.dest = some (cfg z).nmi →
        (cfg z).ndpAutoAccept = true → pair.asking cfg (!z) m.ndpe.ndpId ≠ none) :
    PairSound cfg (pair.hearing z ((pair.engine z).receive now inbound).1
      ((pair.flight z).diff (inbound.map RxFrame.bytes))) := by
  have opposite : (!z) ≠ z := by simp
  have split : (inbound.map RxFrame.bytes ++
      (pair.flight z).diff (inbound.map RxFrame.bytes)).Perm (pair.flight z) :=
    List.subperm_append_diff_self_of_count_le fun b _ => inFlight.count_le b
  have received := @NanEngine.receive_induction
    (fun inbound' state => (∀ rx ∈ inbound', rx ∈ inbound) ∧
      PairSound cfg (pair.hearing z state.1 (inbound'.map RxFrame.bytes ++
        (pair.flight z).diff (inbound.map RxFrame.bytes))))
    (pair.engine z) now inbound ⟨fun _ mem => mem, ?_⟩ ?_
  · exact received.2
  · refine sound.same ?_ ?_ ?_ ?_
    · intro w
      by_cases here : w = z
      · subst here
        simp [hearing, started]
      · simp [hearing, here]
    · intro w
      by_cases here : w = z
      · subst here
        simp [hearing, started]
      · simp [hearing, here]
    · funext w
      by_cases here : w = z
      · subst here
        simp [next, hearing, started]
      · simp [next, hearing, here]
    · intro w b
      by_cases here : w = z
      · subst here
        simpa [hearing] using split.mem_iff
      · simp [hearing, here]
  · rintro rx rest state ⟨known, so⟩
    refine ⟨fun rx' mem => known rx' (List.mem_cons_of_mem rx mem), ?_⟩
    refine @PairSound.hears _ _ _ z rx so ⟨⟨state.2, ?_⟩, ?_, ?_, ?_⟩ nmis ndis ?_
    · simp [hearing]
    · simp [hearing]
    · simp [hearing, opposite]
    · simp [hearing, opposite]
    · intro m said kind dest accepts
      have still := open' rx (known rx List.mem_cons_self) m said kind dest accepts
      simpa [asking, hearing, opposite] using still

theorem handleRx_nextNdpId (state : NanEngine × Step) (rx : RxFrame) :
    (handleRx state rx).1.nextNdpId = state.1.nextNdpId := by
  rcases state with ⟨engine, step⟩
  rw [handleRx]
  split
  · rfl
  · split
    · rfl
    · split
      · exact (engine.handleBeacon_samePaths rx step).nextNdpId
      · exact (engine.handleSdf_samePaths ..).nextNdpId
      · rcases engine.handleNaf_only rx _ _ step with ⟨ndps, events, same, _⟩
        rw [same]
      · rfl

theorem receive_nextNdpId (engine : NanEngine) (now : Usec) (inbound : List RxFrame) :
    (engine.receive now inbound).1.nextNdpId = engine.nextNdpId := by
  refine @NanEngine.receive_induction (fun _ state => state.1.nextNdpId = engine.nextNdpId)
    engine now inbound rfl ?_
  intro rx rest state same
  rw [handleRx_nextNdpId, same]

theorem PairSound.polls (sha256 : Bytes → Vector UInt8 32) (sound : PairSound cfg pair)
    (nmis : (cfg z).nmi ≠ (cfg !z).nmi) (ndis : (cfg z).ndi ≠ (cfg !z).ndi)
    {inbound : List RxFrame} (inFlight : pair.InFlight (.poll z now inbound))
    (together : pair.KeepsTogether cfg (.poll z now inbound)) :
    PairSound cfg (pair.step sha256 (.poll z now inbound)) ∧
      (pair.step sha256 (.poll z now inbound)).next z = pair.next z := by
  have opposite : (!z) ≠ z := by simp
  have received := @PairSound.receives _ _ z now sound nmis ndis inbound inFlight together.1
  have next := receive_nextNdpId (pair.engine z) now inbound
  have silent : ((pair.engine z).receive now inbound).2.tx = [] :=
    ((pair.engine z).receive_keeps now inbound).tx
  have given := together.2
  rw [Pair.step, poll]
  generalize (pair.engine z).receive now inbound = heard at received silent given next
  rcases heard with ⟨engine, step⟩
  dsimp only at received silent given next ⊢
  by_cases window : engine.inDw now = true
  · have distinct : Distinct NdpSession.key engine.ndps := by
      have all := received.distinct z
      simpa [Pair.hearing] using all
    have config : engine.cfg = cfg z := by
      have all := received.config z
      simpa [Pair.hearing] using all
    have transmitted := engine.transmit_transmitted now step distinct
    rcases transmitted.said with ⟨sent, tx, said⟩
    rw [silent, List.nil_append] at tx
    rw [if_pos window]
    refine ⟨@PairSound.transmits _ _ _ z now sent received
      ⟨?_, ?_, ?_, ?_, ?_, ?_, ?_, ?_⟩ ?_, ?_⟩
    · simpa [Pair.hearing] using transmitted.cfg
    · simpa [Pair.hearing] using transmitted.nextNdpId
    · simpa using transmitted.distinct
    · simpa [Pair.hearing, config] using transmitted.paths
    · simpa [Pair.hearing, config] using said
    · simp [Pair.hearing, opposite]
    · simp [Pair.hearing, Pair.afterPoll]
    · simp [Pair.hearing, Pair.afterPoll, opposite, tx, Function.comp_def]
    · intro ndpId t asking up accepts
      have held : engine.path ⟨(cfg !z).nmi, ndpId, .initiator⟩ = some t := by
        simpa [Pair.asking, Pair.hearing] using asking
      have key : t.key = ⟨(cfg !z).nmi, ndpId, .initiator⟩ := key_entry held
      rw [NdpSession.key, PathKey.mk.injEq] at key
      have none := given window t (mem_of_entry held) up key.1 accepts
      rw [key.2.1] at none
      simpa [Pair.answering, Pair.hearing, opposite] using none
    · simpa [Pair.next] using transmitted.nextNdpId.trans next
  · rw [if_neg window]
    refine ⟨received.same ?_ ?_ ?_ ?_, by simpa [Pair.next] using next⟩
    · exact fun _ => rfl
    · exact fun _ => rfl
    · rfl
    · intro w b
      by_cases here : w = z
      · subst here
        simp [Pair.hearing, Pair.afterPoll]
      · simp [Pair.hearing, Pair.afterPoll, here, silent]

/-- A frame is lost that neither side depends on. -/
theorem PairSound.loses (sha256 : Bytes → Vector UInt8 32) (sound : PairSound cfg pair)
    {bytes : Bytes} (together : pair.KeepsTogether cfg (.lose z bytes)) :
    PairSound cfg (pair.step sha256 (.lose z bytes)) := by
  have fewer : ∀ w, ∀ b ∈ (pair.lose z bytes).flight w, b ∈ pair.flight w := by
    intro w b found
    by_cases here : w = z
    · subst here
      have left : b ∈ (pair.flight w).erase bytes := by simpa [lose] using found
      exact List.mem_of_mem_erase left
    · simpa [lose, here] using found
  have confirmed : ∀ w ndpId,
      Carried cfg w .dataPathConfirm ndpId ((pair.lose z bytes).flight w) ↔
        Carried cfg w .dataPathConfirm ndpId (pair.flight w) := by
    intro w ndpId
    constructor
    · rintro ⟨b, found, said⟩
      exact ⟨b, fewer w b found, said⟩
    · rintro ⟨b, found, m, said, kind, about⟩
      refine ⟨b, ?_, m, said, kind, about⟩
      by_cases here : w = z
      · subst here
        have other : b ≠ bytes := by
          rintro rfl
          exact together.1 m said kind
        simpa [lose] using (List.mem_erase_of_ne other).mpr found
      · simpa [lose, here] using found
  change PairSound cfg (pair.lose z bytes)
  refine ⟨sound.config, sound.distinct, fun w b found => sound.messages w b (fewer w b found),
    sound.held, sound.asked, ?_⟩
  intro x ndpId
  have lost := (sound.views x ndpId).lose ((pair.lose z bytes).view cfg x ndpId).request
    ((pair.lose z bytes).view cfg x ndpId).response ?_ ?_
  · exact lost.congr rfl rfl Iff.rfl Iff.rfl (confirmed _ _)
  · rintro ⟨b, found, said⟩
    exact ⟨b, fewer x b found, said⟩
  · intro accepts
    exact together.2 x ndpId accepts

theorem nextId_toNat {n : UInt8} (room : n.toNat < 255) : (nextId n).toNat = n.toNat + 1 := by
  have plus : (n + 1).toNat = n.toNat + 1 := by
    rw [UInt8.toNat_add]
    exact Nat.mod_eq_of_lt (by simp; omega)
  change (if n + 1 ≤ 1 then 1 else n + 1 : UInt8).toNat = n.toNat + 1
  split
  · next least =>
    rw [UInt8.le_iff_toNat_le, plus] at least
    have one : (1 : UInt8).toNat = 1 := rfl
    omega
  · exact plus

theorem Fair.mono {next next' : Bool → UInt8} (le : ∀ w, next w ≤ next' w) {bytes : Bytes}
    {m : PathMessage} (fair : Fair cfg next z bytes m) : Fair cfg next' z bytes m := by
  refine ⟨fair.comes, fair.source, fair.kind, ?_, ?_, fair.confirm⟩
  · intro kind
    rcases fair.request kind with ⟨type, ndi, iid, given⟩
    exact ⟨type, ndi, iid, UInt8.lt_of_lt_of_le given (le _)⟩
  · intro kind
    rcases fair.response kind with ⟨ndi, given, answer⟩
    exact ⟨ndi, UInt8.lt_of_lt_of_le given (le _), answer⟩

/-- A request opens a path under an id that nothing has been said of. -/
theorem PairSound.requests (sound : PairSound cfg pair) {peer : Mac} {called : NanEngine}
    (new : ∀ ndpId, (pair.engine z).path ⟨peer, ndpId, .initiator⟩ = none)
    (config : called.cfg = (pair.engine z).cfg)
    (added : Updated NdpSession.key (pair.engine z).ndps called.ndps
      ((pair.engine z).initiatorFor peer).key (some ((pair.engine z).initiatorFor peer)))
    (next : called.nextNdpId = nextId (pair.next z)) (room : (pair.next z).toNat < 255)
    (terminated : List (Bool × UInt8)) :
    PairSound cfg { pair with
      engine := Function.update pair.engine z called, terminated := terminated } := by
  have opposite : (!z) ≠ z := by simp
  have above : pair.next z < called.nextNdpId := by
    rw [UInt8.lt_iff_toNat_lt, next, nextId_toNat room]
    exact Nat.lt_succ_self _
  let pair' : Pair := { pair with
    engine := Function.update pair.engine z called, terminated := terminated }
  have le : ∀ w, pair.next w ≤ pair'.next w := by
    intro w
    by_cases here : w = z
    · subst here
      rw [show pair'.next w = called.nextNdpId by simp [pair', Pair.next]]
      exact UInt8.le_of_lt above
    · rw [show pair'.next w = pair.next w by simp [pair', Pair.next, here]]
      exact UInt8.le_refl _
  have path : ∀ k, (pair'.engine z).path k =
      if k = ((pair.engine z).initiatorFor peer).key then some ((pair.engine z).initiatorFor peer)
      else (pair.engine z).path k := by
    intro k
    rw [show pair'.engine z = called by simp [pair']]
    exact added.lookup k
  have otherEngine : pair'.engine (!z) = pair.engine !z := by simp [pair', opposite]
  have paths : ∀ w k s, (pair'.engine w).path k = some s → (pair.engine w).path k = some s ∨
      w = z ∧ s = (pair.engine z).initiatorFor peer := by
    intro w k s found
    by_cases here : w = z
    · subst here
      rw [path] at found
      split at found
      · exact Or.inr ⟨rfl, (Option.some.inj found).symm⟩
      · exact Or.inl found
    · rw [Bool.eq_not.mpr here, otherEngine] at found
      rw [Bool.eq_not.mpr here]
      exact Or.inl found
  change PairSound cfg pair'
  refine ⟨?_, ?_, ?_, ?_, ?_, ?_⟩
  · intro w
    by_cases here : w = z
    · subst here
      rw [show pair'.engine w = called by simp [pair']]
      exact config.trans (sound.config w)
    · rw [Bool.eq_not.mpr here, otherEngine]
      exact sound.config _
  · intro w
    by_cases here : w = z
    · subst here
      rw [show pair'.engine w = called by simp [pair']]
      exact added.distinct
    · rw [Bool.eq_not.mpr here, otherEngine]
      exact sound.distinct _
  · intro w bytes found m said
    exact (sound.messages w bytes found m said).mono le
  · intro w k s found role
    rcases paths w k s found with before | ⟨_, rfl⟩
    · have known := sound.held w k s before role
      exact ⟨known.peer, known.peerNdi, known.peerIid, known.answers,
        UInt8.lt_of_lt_of_le known.ndpId (le _)⟩
    · cases role
  · intro w k s found role
    rcases paths w k s found with before | ⟨rfl, rfl⟩
    · have known := sound.asked w k s before role
      exact ⟨known.1, UInt8.lt_of_lt_of_le known.2 (le _)⟩
    · refine ⟨Or.inl ⟨rfl, Or.inr rfl⟩, ?_⟩
      rw [show pair'.next w = called.nextNdpId by simp [pair', Pair.next]]
      exact above
  · intro x ndpId
    by_cases here : x = z
    · subst here
      have answering : (pair'.view cfg x ndpId).answering = (pair.view cfg x ndpId).answering := by
        simp only [Pair.view, Pair.answering, otherEngine]
      by_cases fresh : peer = (cfg !x).nmi ∧ ndpId = pair.next x
      · rcases fresh with ⟨rfl, rfl⟩
        refine PathView.sound_fresh _ ?_ ?_ ?_ ?_
        · rw [answering]
          by_contra held
          rcases Option.ne_none_iff_exists'.mp held with ⟨s, is⟩
          have key : s.key = ⟨(cfg x).nmi, pair.next x, .responder⟩ := key_entry is
          rw [NdpSession.key, PathKey.mk.injEq] at key
          have known := (sound.held (!x) _ s is key.2.2).ndpId
          rw [key.2.1, Bool.not_not] at known
          exact UInt8.lt_irrefl _ known
        · intro t asking
          have is : (pair'.engine x).path ⟨(cfg !x).nmi, pair.next x, .initiator⟩ = some t := asking
          have key : (⟨(cfg !x).nmi, pair.next x, .initiator⟩ : PathKey) =
            ((pair.engine x).initiatorFor (cfg !x).nmi).key := rfl
          rw [path, if_pos key, Option.some.injEq] at is
          rw [← is]
          rfl
        · rintro ⟨bytes, found, m, said, kind, _, about⟩
          have given := ((sound.messages x bytes found m said).response kind).2.1
          rw [about] at given
          exact UInt8.lt_irrefl _ given
        · intro sent
          rcases (sound.views x (pair.next x)).confirming sent with ⟨t, asking, _⟩
          have none : (pair.view cfg x (pair.next x)).asking = none := new _
          rw [none] at asking
          cases asking
      · refine (sound.views x ndpId).congr ?_ answering Iff.rfl Iff.rfl Iff.rfl
        change (pair'.engine x).path _ = _
        rw [path, if_neg]
        · rfl
        · intro same
          have both : (cfg !x).nmi = peer ∧ ndpId = pair.next x ∧ NdpRole.initiator = .initiator := by
            rwa [NdpSession.key, PathKey.mk.injEq] at same
          exact fresh ⟨both.1.symm, both.2.1⟩
    · have other : x = !z := Bool.eq_not.mpr here
      subst other
      refine (sound.views (!z) ndpId).congr ?_ ?_ Iff.rfl Iff.rfl Iff.rfl
      · simp only [Pair.view, Pair.asking, otherEngine]
      · change pair'.answering cfg (!z) ndpId = pair.answering cfg (!z) ndpId
        rw [Pair.answering_other, Pair.answering_other, path, if_neg]
        intro same
        have role : NdpRole.responder = .initiator := congrArg PathKey.role same
        cases role

/-- A call that terminates no path. -/
theorem PairSound.calls (sha256 : Bytes → Vector UInt8 32) (sound : PairSound cfg pair)
    {call : Call} (together : pair.KeepsTogether cfg (.call z call))
    (room : (∃ peer, call = .requestNdp peer) → (pair.next z).toNat < 255) :
    PairSound cfg (pair.step sha256 (.call z call)) := by
  have config := called_cfg sha256 (pair.engine z) call
  rw [Pair.step]
  rcases called_paths sha256 (sound.distinct z) call with
    ⟨_, ndps, next⟩ | ⟨peer, new, added, next⟩ | ⟨s, held, _, _⟩
  · refine sound.same ?_ ?_ ?_ ?_
    · intro w
      by_cases here : w = z
      · subst here
        simpa using config
      · simp [here]
    · intro w
      by_cases here : w = z
      · subst here
        simpa using ndps
      · simp [here]
    · funext w
      by_cases here : w = z
      · subst here
        simpa [Pair.next] using next
      · simp [Pair.next, here]
    · exact fun _ _ => Iff.rfl
  · exact sound.requests new config added next (room ⟨peer, rfl⟩) _
  · have found : (pair.engine z).ndps.find? (fun s' => s'.peer == s.peer && s'.ndpId == s.ndpId) =
        none := together
    have differs := List.find?_eq_none.mp found s (mem_of_entry held)
    simp at differs

end

/-! ### Runs -/

/-- The requests of `z` in a run. -/
def requests (z : Bool) (actions : List PairAction) : Nat :=
  actions.countP fun
    | .call w (.requestNdp _) => w == z
    | _ => false

section

variable {sha256 : Bytes → Vector UInt8 32} {cfg : Bool → NanConfig} {pair : Pair}

theorem pairSound_start (cfg : Bool → NanConfig) (rendezvous : Bool → Rendezvous) :
    PairSound cfg (.start cfg rendezvous) := by
  refine ⟨fun _ => rfl, fun _ => List.nodup_nil, fun _ _ => nofun, fun _ _ _ => nofun,
    fun _ _ _ => nofun, ?_⟩
  intro x ndpId
  refine PathView.sound_fresh _ rfl (fun _ => nofun) ?_ ?_
  · rintro ⟨_, found, _⟩
    cases found
  · rintro ⟨_, found, _⟩
    cases found

theorem requests_append (z : Bool) (earlier later : List PairAction) :
    requests z (earlier ++ later) = requests z earlier + requests z later :=
  List.countP_append ..

/-- After a run that keeps the two together. -/
structure Settling (cfg : Bool → NanConfig) (actions : List PairAction) (pair : Pair) : Prop where
  sound : PairSound cfg pair
  terminated : pair.terminated = []
  next : ∀ z, (pair.next z).toNat ≤ requests z actions + 1

theorem Settling.step (nmis : ∀ z, (cfg z).nmi ≠ (cfg !z).nmi)
    (ndis : ∀ z, (cfg z).ndi ≠ (cfg !z).ndi)
    {earlier : List PairAction} (settling : Settling cfg earlier pair) {action : PairAction}
    (few : ∀ z, requests z (earlier ++ [action]) < 255) (inFlight : pair.InFlight action)
    (together : pair.KeepsTogether cfg action) :
    Settling cfg (earlier ++ [action]) (pair.step sha256 action) := by
  have more : ∀ z, requests z earlier ≤ requests z (earlier ++ [action]) := by
    intro z
    rw [requests_append]
    exact Nat.le_add_right _ _
  have still : ∀ (pair' : Pair) (z : Bool), pair'.next z = pair.next z →
      (pair'.next z).toNat ≤ requests z (earlier ++ [action]) + 1 := by
    intro pair' z same
    rw [same]
    exact Nat.le_trans (settling.next z) (Nat.add_le_add_right (more z) 1)
  cases action with
  | lose w bytes =>
    exact ⟨settling.sound.loses sha256 together, settling.terminated, fun z => still _ z rfl⟩
  | poll w now inbound =>
    have polled := settling.sound.polls sha256 (nmis w) (ndis w) inFlight together
    refine ⟨polled.1, settling.terminated, ?_⟩
    intro z
    apply still
    by_cases here : z = w
    · rw [here]
      exact polled.2
    · simp [Pair.step, Pair.next, here]
  | call w call =>
    have asked : ∀ peer, call = .requestNdp peer →
        requests w (earlier ++ [.call w call]) = requests w earlier + 1 := by
      rintro peer rfl
      rw [requests_append]
      simp [requests]
    have room : (∃ peer, call = .requestNdp peer) → (pair.next w).toNat < 255 := by
      rintro ⟨peer, request⟩
      have known := settling.next w
      have bound := few w
      rw [asked peer request] at bound
      omega
    refine ⟨settling.sound.calls sha256 together room, ?_, ?_⟩
    · have none : (pair.engine w).terminates call = none := together
      rw [Pair.step, none, settling.terminated]
      rfl
    · intro z
      by_cases here : z = w
      · subst here
        have known := settling.next z
        rcases called_paths sha256 (settling.sound.distinct z) call with
          ⟨_, _, next⟩ | ⟨peer, _, _, next⟩ | ⟨s, _, _, next⟩
        · exact still _ z (by simpa [Pair.step, Pair.next] using next)
        · have after : (pair.step sha256 (.call z (.requestNdp peer))).next z =
              nextId (pair.next z) := by
            simpa [Pair.step, Pair.next] using next
          rw [after, nextId_toNat (room ⟨peer, rfl⟩), asked peer rfl]
          exact Nat.add_le_add_right known 1
        · exact still _ z (by simpa [Pair.step, Pair.next] using next)
      · exact still _ z (by simp [Pair.step, Pair.next, here])

theorem settling_run (rendezvous : Bool → Rendezvous) (nmis : ∀ z, (cfg z).nmi ≠ (cfg !z).nmi)
    (ndis : ∀ z, (cfg z).ndi ≠ (cfg !z).ndi) (actions : List PairAction)
    (few : ∀ z, requests z actions < 255)
    (inFlight : Throughout (step sha256) (.start cfg rendezvous) actions Pair.InFlight)
    (together : Throughout (step sha256) (.start cfg rendezvous) actions
      (Pair.KeepsTogether cfg)) :
    Settling cfg actions (run sha256 (.start cfg rendezvous) actions) := by
  induction actions using List.reverseRecOn with
  | nil => exact ⟨pairSound_start cfg rendezvous, rfl, fun _ => Nat.le_refl _⟩
  | append_singleton earlier action ih =>
    rw [throughout_append_singleton] at inFlight together
    have fewer : ∀ z, requests z earlier < 255 := by
      intro z
      have bound := few z
      rw [requests_append] at bound
      omega
    have settling := ih fewer inFlight.1 together.1
    have now := @Settling.step sha256 _ _ nmis ndis earlier settling action few inFlight.2
      together.2
    rwa [run, List.foldl_append]

/-- Where nothing is on its way or due, what the two know of each other is an agreement. -/
theorem PairSound.agrees (sound : PairSound cfg pair) (none : pair.terminated = [])
    (quiet : pair.Quiet) : pair.Agrees cfg := by
  have silent : ∀ z subtype ndpId, ¬ Carried cfg z subtype ndpId (pair.flight z) := by
    rintro z subtype ndpId ⟨bytes, found, _⟩
    rw [quiet.flight] at found
    cases found
  have unconfirmed : ∀ x ndpId s, pair.answering cfg x ndpId = some s →
      s.state ≠ .awaitingConfirm := by
    intro x ndpId s held waits
    have view := sound.views x ndpId
    have role : s.role = .responder := congrArg PathKey.role (key_entry held)
    have idle := (quiet.idle _ s (mem_of_entry held)).1
    have accepts : (cfg !x).ndpAutoAccept = true := by
      rcases (sound.held _ _ s held role).answers.pending with due | ⟨_, accept⟩
      · rw [idle] at due
        cases due
      · exact accept
    rcases view.awaited accepts s held waits with ⟨t, asking, open' | ⟨_, due | sent⟩⟩
    · have exhausted := (quiet.idle _ t (mem_of_entry asking)).2 open'
      rcases view.hopeful accepts s t held waits asking exhausted with sent | due | sent
      · exact silent _ _ _ sent
      · rw [idle] at due
        cases due
      · exact silent _ _ _ sent
    · rw [(quiet.idle _ t (mem_of_entry asking)).1] at due
      cases due
    · exact silent _ _ _ sent
  refine ⟨?_, ?_, ?_⟩
  · intro x ndpId
    have view := sound.views x ndpId
    constructor
    · rintro ⟨t, asking, established⟩
      rcases view.established t asking established with ⟨_, held⟩
      rcases Option.ne_none_iff_exists'.mp held with ⟨s, is⟩
      have role : s.role = .responder := congrArg PathKey.role (key_entry is)
      rcases (sound.held _ _ s is role).answers.state with waits | ⟨settled, _⟩
      · exact absurd waits (unconfirmed x ndpId s is)
      · exact ⟨s, is, settled⟩
    · rintro ⟨s, held, established⟩
      exact view.confirmed s held established
  · intro x ndpId found
    rw [none] at found
    cases found
  · intro z s mem waits
    have held : (pair.engine z).path s.key = some s := entry_of_mem (sound.distinct z) mem
    cases role : s.role with
    | initiator =>
      rcases (sound.asked z _ s held role).1 with ⟨open', _⟩ | ⟨established, _⟩
      · rw [waits] at open'
        cases open'
      · rw [waits] at established
        cases established
    | responder =>
      have peer := (sound.held z _ s held role).peer
      have key : s.key = ⟨(cfg !z).nmi, s.ndpId, .responder⟩ := by
        rw [NdpSession.key, peer, role]
      rw [key] at held
      refine unconfirmed (!z) s.ndpId s ?_ waits
      rw [answering_other]
      exact held

/-- In a run that keeps the two together, they agree on every path once nothing is on its way or
due. -/
theorem paths_settle (sha256 : Bytes → Vector UInt8 32) (cfg : Bool → NanConfig)
    (rendezvous : Bool → Rendezvous) (nmis : (cfg false).nmi ≠ (cfg true).nmi)
    (ndis : (cfg false).ndi ≠ (cfg true).ndi) (actions : List PairAction)
    (few : ∀ z, requests z actions < 255)
    (inFlight : Throughout (Pair.step sha256) (.start cfg rendezvous) actions Pair.InFlight)
    (together : Throughout (Pair.step sha256) (.start cfg rendezvous) actions
      (Pair.KeepsTogether cfg))
    (quiet : (Pair.run sha256 (.start cfg rendezvous) actions).Quiet) :
    (Pair.run sha256 (.start cfg rendezvous) actions).Agrees cfg := by
  have nmis' : ∀ z, (cfg z).nmi ≠ (cfg !z).nmi := by
    intro z
    cases z
    · exact nmis
    · exact nmis.symm
  have ndis' : ∀ z, (cfg z).ndi ≠ (cfg !z).ndi := by
    intro z
    cases z
    · exact ndis
    · exact ndis.symm
  have settling := settling_run rendezvous nmis' ndis' actions few inFlight together
  exact settling.sound.agrees settling.terminated quiet

end

/-! ### Two engines -/

namespace Pair

/-- Polls in turn that hear all there is on its way. -/
def deliveries (sha256 : Bytes → Vector UInt8 32) (pair : Pair) : List (Bool × Usec) →
    List PairAction
  | [] => []
  | (z, now) :: rest =>
    let poll := .poll z now ((pair.flight z).map fun bytes => ⟨bytes, none, now⟩)
    poll :: deliveries sha256 (pair.step sha256 poll) rest

theorem inFlight_deliveries (sha256 : Bytes → Vector UInt8 32) (pair : Pair)
    (schedule : List (Bool × Usec)) :
    Throughout (step sha256) pair (pair.deliveries sha256 schedule) InFlight := by
  induction schedule generalizing pair with
  | nil => exact throughout_nil pair _
  | cons turn schedule ih =>
    rw [deliveries, throughout_cons]
    refine ⟨?_, ih _⟩
    have same : ((pair.flight turn.1).map fun bytes => (⟨bytes, none, turn.2⟩ : RxFrame)).map
        RxFrame.bytes = pair.flight turn.1 := by
      rw [List.map_map]
      exact List.map_id _
    rw [InFlight, same]

end Pair

instance (t : NdpSession) : Decidable (Exhausted t) :=
  inferInstanceAs (Decidable (_ ∧ _ ∧ _))

instance (o : Option PathMessage) (holds : PathMessage → Prop) [DecidablePred holds] :
    Decidable (∀ m, o = some m → holds m) :=
  inferInstanceAs (Decidable (∀ m ∈ o, holds m))

instance (cfg : Bool → NanConfig) (pair : Pair) (z : Bool) (now : Usec)
    (inbound : List RxFrame) : Decidable (pair.KeepsTogether cfg (.poll z now inbound)) :=
  @instDecidableAnd _ _ inferInstance inferInstance

def twoPair : Pair := .start twoEngines fun _ => alwaysOn 1000

def handshake : List PairAction :=
  let request := .call false (.requestNdp #v[2, 0, 0, 0, 0, 1])
  request :: (twoPair.step (fun _ => .replicate 32 0) request).deliveries
    (fun _ => .replicate 32 0) [(false, 0), (true, 1), (false, 2), (true, 3)]

theorem paths_settle_two :
    (twoPair.run (fun _ => .replicate 32 0) handshake).Agrees twoEngines ∧
      (((twoPair.run (fun _ => .replicate 32 0) handshake).asking twoEngines false 1).map
        NdpSession.state) = some .established := by
  refine ⟨paths_settle _ twoEngines _ (by decide) (by decide) handshake (by decide +kernel)
    ?_ ?_ ⟨by decide +kernel, by decide +kernel⟩, by decide +kernel⟩
  · rw [handshake, throughout_cons]
    exact ⟨trivial, Pair.inFlight_deliveries _ _ _⟩
  · rw [handshake]
    simp only [Pair.deliveries, throughout_cons]
    refine ⟨?_, ?_, ?_, ?_, ?_, throughout_nil _ _⟩
    · rw [Pair.KeepsTogether]
      decide +kernel
    · decide +kernel
    · decide +kernel
    · decide +kernel
    · decide +kernel

/-- A path is set up, and its initiator terminates it. -/
def parting : List PairAction :=
  let settled := twoPair.run (fun _ => .replicate 32 0) handshake
  let terminate := .call false (.terminateNdp #v[2, 0, 0, 0, 0, 1] 1)
  handshake ++ terminate :: (settled.step (fun _ => .replicate 32 0) terminate).deliveries
    (fun _ => .replicate 32 0) [(false, 4), (true, 5)]

/-- The side that terminates a path keeps it. -/
theorem terminated_path_is_kept :
    ¬ ∀ actions : List PairAction, (∀ z, requests z actions < 255) →
      Throughout (Pair.step fun _ => .replicate 32 0) twoPair actions Pair.InFlight →
        (twoPair.run (fun _ => .replicate 32 0) actions).Quiet →
          (twoPair.run (fun _ => .replicate 32 0) actions).Agrees twoEngines := by
  intro always
  have inFlight : Throughout (Pair.step fun _ => .replicate 32 0) twoPair parting
      Pair.InFlight := by
    rw [parting, throughout_append, throughout_cons]
    refine ⟨?_, trivial, Pair.inFlight_deliveries _ _ _⟩
    rw [handshake, throughout_cons]
    exact ⟨trivial, Pair.inFlight_deliveries _ _ _⟩
  have agrees := always parting (by decide +kernel) inFlight
    ⟨by decide +kernel, by decide +kernel⟩
  have kept : ∃ t, (twoPair.run (fun _ => .replicate 32 0) parting).asking twoEngines false 1 =
      some t ∧ t.state = .established := by
    refine Option.map_eq_some_iff.mp (?_ : Option.map NdpSession.state _ = some .established)
    decide +kernel
  have gone : (twoPair.run (fun _ => .replicate 32 0) parting).answering twoEngines false 1 =
      none := by
    decide +kernel
  rcases (agrees.established false 1).mp kept with ⟨s, held, _⟩
  rw [gone] at held
  cases held

end NdnExt.Nan
