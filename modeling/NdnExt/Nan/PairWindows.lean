import NdnExt.Nan.PairSound

/-! What two engines know of each other's paths stays so as they send. -/

namespace NdnExt.Nan

open NdnExt.Lib NdnExt.Lib.Keyed NdnExt.Lib.Run NanEngine

/-! ### What a window says -/

section

variable {config : NanConfig} {now : Usec} {s armed kept : NdpSession} {sub : NafSubtype}
  {m : PathMessage}

theorem ndpTurn_unsent (turn : (ndpTurn config now s).kept = some kept) :
    kept = s ∨ ∃ armed sub, rearm now s = some armed ∧ armed.pendingTx = some sub := by
  rw [ndpTurn] at turn
  cases rearmed : rearm now s with
  | none => simp [rearmed, NanEngine.NdpTurn.kept] at turn
  | some armed =>
    cases pending : armed.pendingTx with
    | some sub => exact Or.inr ⟨armed, sub, rfl, pending⟩
    | none =>
      left
      simp only [rearmed, pending, NanEngine.NdpTurn.kept, Bool.false_eq_true, if_false,
        Option.some.injEq] at turn
      rcases rearm_eq rearmed with ⟨same, unarmed | ⟨_, _, request⟩⟩
      · rw [← turn, same, unarmed]
      · rw [pending] at request
        cases request

theorem sends_of_pending (config : NanConfig) (rearmed : rearm now s = some armed)
    (pending : armed.pendingTx = some sub)
    (kind : sub = .dataPathRequest ∨ sub = .dataPathResponse ∨ sub = .dataPathConfirm) :
    ∃ m, NanEngine.Sends config now s m ∧ m.subtype = sub := by
  have due : ∃ ndpe, ndpeFor config armed sub = some ndpe := by
    rcases kind with rfl | rfl | rfl
    · exact ⟨_, rfl⟩
    · rw [ndpeFor]
      split
      · exact ⟨_, rfl⟩
      · exact ⟨_, rfl⟩
    · exact ⟨_, rfl⟩
  rcases due with ⟨ndpe, due⟩
  exact ⟨_, ⟨armed, sub, ndpe, rearmed, pending, due, rfl⟩, rfl⟩

theorem rearm_pending (pending : s.pendingTx = some sub) : rearm now s = some s := by
  simp [rearm, pending]

theorem rearm_given_up (given : rearm now s = none) :
    s.role = .initiator ∧ s.state = .awaitingResponse ∧ s.pendingTx = none := by
  rw [rearm] at given
  split at given
  · next due => exact ⟨due.2.1, due.2.2.1, due.1⟩
  · cases given

/-- A message is about its session. -/
theorem sends_about (sends : NanEngine.Sends config now s m) :
    m.dest = some s.peer ∧ m.source = config.nmi ∧ m.ndpe.ndpId = s.ndpId := by
  rcases sends with ⟨armed, sub, ndpe, rearmed, _, due, rfl⟩
  refine ⟨rfl, rfl, ?_⟩
  have same : armed.ndpId = s.ndpId := by rw [(rearm_eq rearmed).1]
  unfold ndpeFor at due
  split at due
  · cases due
    exact same
  · split at due
    · cases due
      exact same
    · cases due
      exact same
  · cases due
    exact same
  · cases due
    exact same
  · cases due

theorem Asks.pending (asks : Asks s) {sub : NafSubtype} (due : s.pendingTx = some sub) :
    sub = .dataPathRequest ∧ s.state = .awaitingResponse ∨
      sub = .dataPathConfirm ∧ s.state = .established := by
  rcases asks with ⟨waits, idle | idle⟩ | ⟨established, idle | idle⟩ <;> rw [idle] at due <;>
    cases due
  · exact Or.inl ⟨rfl, waits⟩
  · exact Or.inr ⟨rfl, established⟩

/-- What a side that asked sends. -/
theorem sends_asked (sends : NanEngine.Sends config now s m) (asks : Asks s) :
    m.subtype = .dataPathRequest ∧ s.state = .awaitingResponse ∨
      m.subtype = .dataPathConfirm ∧ s.state = .established ∧
        s.pendingTx = some .dataPathConfirm := by
  rcases sends with ⟨armed, sub, ndpe, rearmed, pending, _, rfl⟩
  rcases rearm_eq rearmed with ⟨_, kept | ⟨_, waits, request⟩⟩
  · rw [kept] at pending
    rcases asks.pending pending with ⟨rfl, waits⟩ | ⟨rfl, established⟩
    · exact Or.inl ⟨rfl, waits⟩
    · exact Or.inr ⟨rfl, established, pending⟩
  · rw [request, Option.some.injEq] at pending
    exact Or.inl ⟨pending.symm, waits⟩

/-- What a side that was asked sends. -/
theorem sends_answered (sends : NanEngine.Sends config now s m) {accepts : Bool}
    (answers : Answers accepts s) (role : s.role = .responder) :
    m.subtype = .dataPathResponse ∧ s.pendingTx = some .dataPathResponse := by
  rcases sends with ⟨armed, sub, ndpe, rearmed, pending, _, rfl⟩
  rcases rearm_eq rearmed with ⟨_, kept | ⟨asker, _, _⟩⟩
  · rw [kept] at pending
    rcases answers.pending with some | ⟨none, _⟩
    · rw [some, Option.some.injEq] at pending
      exact ⟨pending.symm, some⟩
    · rw [none] at pending
      cases pending
  · rw [role] at asker
    cases asker

end

/-- One side's transmit window. -/
structure SendsFrames (cfg : Bool → NanConfig) (pair : Pair) (z : Bool) (now : Usec)
    (sent : List Bytes) (pair' : Pair) : Prop where
  config : (pair'.engine z).cfg = (pair.engine z).cfg
  next : (pair'.engine z).nextNdpId = (pair.engine z).nextNdpId
  distinct : Distinct NdpSession.key (pair'.engine z).ndps
  paths : ∀ k, (pair'.engine z).path k =
    ((pair.engine z).path k).bind fun s => (NanEngine.ndpTurn (cfg z) now s).kept
  said : NanEngine.Says (cfg z) now (pair.engine z).ndps sent
  otherEngine : pair'.engine (!z) = pair.engine !z
  flight : pair'.flight z = pair.flight z
  otherFlight : pair'.flight (!z) = pair.flight (!z) ++ sent

section

variable {cfg : Bool → NanConfig} {pair pair' : Pair} {z : Bool} {now : Usec}
  {sent : List Bytes} {ndpId : UInt8}

theorem Asks.kept {t t' : NdpSession} (asks : Asks t)
    (turn : (ndpTurn (cfg z) now t).kept = some t') : Asks t' := by
  rw [ndpTurn_kept turn]
  rcases asks with ⟨waits, _⟩ | ⟨established, _⟩
  · exact Or.inl ⟨waits, Or.inl rfl⟩
  · exact Or.inr ⟨established, Or.inl rfl⟩

theorem HeldFor.kept {next : Bool → UInt8} {s s' : NdpSession} (known : HeldFor cfg next z s)
    (turn : (ndpTurn (cfg z) now s).kept = some s') : HeldFor cfg next z s' := by
  have accepts : (cfg z).ndpAutoAccept = true := by
    rcases known.answers.pending with due | ⟨_, accept⟩
    · by_contra rejects
      rw [Bool.not_eq_true] at rejects
      rw [ndpTurn_rejects now due rejects] at turn
      cases turn
    · exact accept
  rw [ndpTurn_kept turn]
  exact ⟨known.peer, known.peerNdi, known.peerIid,
    ⟨known.answers.state, Or.inr ⟨rfl, accepts⟩⟩, known.ndpId⟩

/-- What is sent of a path is sent by the session of this side. -/
theorem PairSound.sent_by (sound : PairSound cfg pair)
    (said : NanEngine.Says (cfg z) now (pair.engine z).ndps sent) {subtype : NafSubtype}
    (carried : Carried cfg (!z) subtype ndpId sent) :
    ∃ s m, (pair.engine z).path ⟨(cfg !z).nmi, ndpId, s.role⟩ = some s ∧
      NanEngine.Sends (cfg z) now s m ∧ m.subtype = subtype := by
  rcases carried with ⟨bytes, found, m, message, subtype', dest, about⟩
  rcases said.only bytes found m message with ⟨_, s, mem, sends⟩
  have held : (pair.engine z).path s.key = some s := entry_of_mem (sound.distinct z) mem
  rcases sends_about sends with ⟨dest', _, about'⟩
  have peer : s.peer = (cfg !z).nmi := Option.some.inj (dest'.symm.trans dest)
  rw [NdpSession.key, peer, ← about', about] at held
  exact ⟨s, m, held, sends, subtype'⟩

/-- What is sent of a path that this side asked for. -/
theorem PairSound.sent_asked (sound : PairSound cfg pair)
    (said : NanEngine.Says (cfg z) now (pair.engine z).ndps sent) {subtype : NafSubtype}
    (kind : subtype = .dataPathRequest ∨ subtype = .dataPathConfirm)
    (carried : Carried cfg (!z) subtype ndpId sent) :
    ∃ t, pair.asking cfg z ndpId = some t ∧ Asks t ∧
      ∃ m, NanEngine.Sends (cfg z) now t m ∧ m.subtype = subtype := by
  rcases sound.sent_by said carried with ⟨s, m, held, sends, rfl⟩
  cases role : s.role with
  | initiator =>
    have asks := (sound.asked z _ s held role).1
    rw [role] at held
    exact ⟨s, held, asks, m, sends, rfl⟩
  | responder =>
    have answers := (sound.held z _ s held role).answers
    rw [(sends_answered sends answers role).1] at kind
    exact absurd kind (by decide)

/-- What is sent of a path that this side was asked for. -/
theorem PairSound.sent_answered (sound : PairSound cfg pair)
    (said : NanEngine.Says (cfg z) now (pair.engine z).ndps sent)
    (carried : Carried cfg (!z) .dataPathResponse ndpId sent) :
    ∃ s, pair.answering cfg (!z) ndpId = some s ∧ s.pendingTx = some .dataPathResponse := by
  rcases sound.sent_by said carried with ⟨s, m, held, sends, subtype⟩
  cases role : s.role with
  | initiator =>
    rcases sends_asked sends (sound.asked z _ s held role).1 with ⟨kind, _⟩ | ⟨kind, _⟩ <;>
      rw [subtype] at kind <;> cases kind
  | responder =>
    have answers := (sound.held z _ s held role).answers
    rw [role] at held
    rw [Pair.answering_other]
    exact ⟨s, held, (sends_answered sends answers role).2⟩

/-- A session that sends has its message among what is sent. -/
theorem carried_of_sends (said : NanEngine.Says (cfg z) now (pair.engine z).ndps sent)
    {k : PathKey} {s : NdpSession} (held : (pair.engine z).path k = some s)
    (peer : k.peer = (cfg !z).nmi) {m : PathMessage} (sends : NanEngine.Sends (cfg z) now s m) :
    Carried cfg (!z) m.subtype k.ndpId sent := by
  rcases said.all s (mem_of_entry held) m sends with ⟨bytes, found, message⟩
  rcases sends_about sends with ⟨dest, _, about⟩
  have key : s.key = k := key_entry held
  refine ⟨bytes, found, m, message, rfl, ?_, ?_⟩
  · rw [dest, ← peer, ← key]
    rfl
  · rw [about, ← key]
    rfl

theorem SendsFrames.view_asker (sends : SendsFrames cfg pair z now sent pair') (ndpId : UInt8) :
    pair'.view cfg z ndpId = { pair.view cfg z ndpId with
      asking := pair'.asking cfg z ndpId
      request := Carried cfg (!z) .dataPathRequest ndpId (pair.flight (!z) ++ sent)
      confirm := Carried cfg (!z) .dataPathConfirm ndpId (pair.flight (!z) ++ sent) } := by
  simp only [Pair.view, Pair.answering, sends.otherEngine, sends.flight, sends.otherFlight]

theorem SendsFrames.view_answerer (sends : SendsFrames cfg pair z now sent pair')
    (ndpId : UInt8) : pair'.view cfg (!z) ndpId = { pair.view cfg (!z) ndpId with
      answering := pair'.answering cfg (!z) ndpId
      response := Carried cfg (!z) .dataPathResponse ndpId (pair.flight (!z) ++ sent) } := by
  simp only [Pair.view, Pair.asking, Bool.not_not, sends.otherEngine, sends.flight,
    sends.otherFlight]

/-- The window on a path that this side asked for. -/
theorem PairSound.asks (sound : PairSound cfg pair) (sends : SendsFrames cfg pair z now sent pair')
    (given : ∀ t, pair.asking cfg z ndpId = some t → rearm now t = none →
      (cfg !z).ndpAutoAccept = true → pair.answering cfg z ndpId = none) :
    (pair'.view cfg z ndpId).Sound (cfg !z).ndpAutoAccept := by
  have view := sound.views z ndpId
  have after : pair'.asking cfg z ndpId = (pair.asking cfg z ndpId).bind fun s =>
      (ndpTurn (cfg z) now s).kept := sends.paths _
  have unsent : ∀ subtype : NafSubtype, ¬ Carried cfg (!z) subtype ndpId sent →
      (Carried cfg (!z) subtype ndpId (pair.flight (!z) ++ sent) ↔
        Carried cfg (!z) subtype ndpId (pair.flight !z)) := by
    intro subtype none
    rw [carried_append]
    exact or_iff_left none
  rw [sends.view_asker, after]
  cases held : pair.asking cfg z ndpId with
  | none =>
    have silent : ∀ subtype : NafSubtype,
        subtype = .dataPathRequest ∨ subtype = .dataPathConfirm →
          ¬ Carried cfg (!z) subtype ndpId sent := by
      intro subtype kind carried
      rcases sound.sent_asked sends.said kind carried with ⟨t, asking, _⟩
      rw [held] at asking
      cases asking
    exact view.congr held.symm rfl (unsent _ (silent _ (Or.inl rfl))) Iff.rfl
      (unsent _ (silent _ (Or.inr rfl)))
  | some t =>
    have role : t.role = .initiator := congrArg PathKey.role (key_entry held)
    have asks := (sound.asked z _ t held role).1
    have sentConfirm : Carried cfg (!z) .dataPathConfirm ndpId sent →
        t.state = .established ∧ t.pendingTx = some .dataPathConfirm := by
      intro carried
      rcases sound.sent_asked sends.said (Or.inr rfl) carried with ⟨t', asking, asks', m, out, kind⟩
      rw [held, Option.some.injEq] at asking
      subst asking
      rcases sends_asked out asks' with ⟨request, _⟩ | ⟨_, established⟩
      · rw [kind] at request
        cases request
      · exact established
    rw [Option.bind_some]
    cases turn : (ndpTurn (cfg z) now t).kept with
    | none =>
      have given' : rearm now t = none := by
        rcases ndpTurn_ends turn with given' | ⟨pending, _⟩
        · exact given'
        · rcases asks.pending pending with ⟨impossible, _⟩ | ⟨impossible, _⟩ <;> cases impossible
      rcases rearm_given_up given' with ⟨_, waits, idle⟩
      have ended := view.ended held waits (given t held given')
        (Carried cfg (!z) .dataPathRequest ndpId (pair.flight (!z) ++ sent))
        (pair.view cfg z ndpId).response
      refine ended.congr rfl rfl Iff.rfl Iff.rfl (unsent _ ?_)
      intro carried
      rw [idle] at sentConfirm
      cases (sentConfirm carried).2
    | some t' =>
      have same := ndpTurn_kept turn
      have state : t'.state = t.state := by rw [same]
      refine view.askerTurn held state ?_ ?_ ?_ ?_ ?_
      · intro exhausted
        rcases ndpTurn_unsent turn with unmoved | ⟨armed, sub, rearmed, pending⟩
        · rw [unmoved] at exhausted
          exact Or.inl exhausted
        · right
          have kind : sub = .dataPathRequest := by
            have waits := state.symm.trans exhausted.1
            rcases (rearm_eq rearmed).2 with kept | ⟨_, _, request⟩
            · rw [kept] at pending
              rcases asks.pending pending with ⟨request, _⟩ | ⟨_, established⟩
              · exact request
              · rw [established] at waits
                cases waits
            · rw [request, Option.some.injEq] at pending
              exact pending.symm
          rcases sends_of_pending (cfg z) rearmed pending (Or.inl kind) with ⟨m, out, is⟩
          have carried := carried_of_sends sends.said held rfl out
          rw [is, kind] at carried
          exact carried_append.mpr (Or.inr carried)
      · intro pending
        rcases sends_of_pending (cfg z) (rearm_pending pending) pending
          (Or.inr (Or.inr rfl)) with ⟨m, out, is⟩
        have carried := carried_of_sends sends.said held rfl out
        rw [is] at carried
        exact carried_append.mpr (Or.inr carried)
      · exact fun earlier => carried_append.mpr (Or.inl earlier)
      · exact fun earlier => carried_append.mpr (Or.inl earlier)
      · intro carried
        rcases carried_append.mp carried with earlier | now'
        · exact Or.inl earlier
        · exact Or.inr (sentConfirm now').1

/-- The window on a path that this side was asked for. -/
theorem PairSound.answers (sound : PairSound cfg pair)
    (sends : SendsFrames cfg pair z now sent pair') (ndpId : UInt8) :
    (pair'.view cfg (!z) ndpId).Sound (cfg z).ndpAutoAccept := by
  have view := sound.views (!z) ndpId
  rw [Bool.not_not] at view
  have after : pair'.answering cfg (!z) ndpId = (pair.answering cfg (!z) ndpId).bind fun s =>
      (ndpTurn (cfg z) now s).kept := by
    rw [Pair.answering_other, Pair.answering_other]
    exact sends.paths _
  rw [sends.view_answerer, after]
  cases held : pair.answering cfg (!z) ndpId with
  | none =>
    refine view.congr rfl held.symm Iff.rfl ?_ Iff.rfl
    rw [carried_append]
    apply or_iff_left
    intro carried
    rcases sound.sent_answered sends.said carried with ⟨s, answering, _⟩
    rw [held] at answering
    cases answering
  | some s =>
    have path : (pair.engine z).path ⟨(cfg !z).nmi, ndpId, .responder⟩ = some s := by
      rw [← Pair.answering_other]
      exact held
    have role : s.role = .responder := congrArg PathKey.role (key_entry path)
    rw [Option.bind_some]
    cases turn : (ndpTurn (cfg z) now s).kept with
    | none =>
      have accept : (cfg z).ndpAutoAccept = false := by
        rcases ndpTurn_ends turn with given | ⟨_, accept⟩
        · have asker := (rearm_given_up given).1
          rw [role] at asker
          cases asker
        · exact accept
      rw [accept] at view ⊢
      exact view.rejects _
    | some s' =>
      have same := ndpTurn_kept turn
      refine view.answererTurn held (by rw [same]) ?_ ?_
      · intro pending
        rcases sends_of_pending (cfg z) (rearm_pending pending) pending
          (Or.inr (Or.inl rfl)) with ⟨m, out, is⟩
        have carried := carried_of_sends sends.said path rfl out
        rw [is] at carried
        exact carried_append.mpr (Or.inr carried)
      · intro earlier
        exact carried_append.mpr (Or.inl earlier)

/-- What is sent is fair. -/
theorem PairSound.sent_fair (sound : PairSound cfg pair)
    (said : NanEngine.Says (cfg z) now (pair.engine z).ndps sent) {bytes : Bytes}
    (found : bytes ∈ sent) {m : PathMessage} (message : pathMessage bytes = some m) :
    Fair cfg pair.next (!z) bytes m := by
  rcases said.only bytes found m message with ⟨comes, s, mem, sends⟩
  have held : (pair.engine z).path s.key = some s := entry_of_mem (sound.distinct z) mem
  rcases sends_about sends with ⟨_, source, about⟩
  have due := sends
  rcases due with ⟨armed, sub, ndpe, rearmed, _, due, rfl⟩
  have same := (rearm_eq rearmed).1
  cases role : s.role with
  | initiator =>
    rcases sound.asked z _ s held role with ⟨asks, known⟩
    rcases sends_asked sends asks with ⟨kind, _⟩ | ⟨kind, _⟩
    · have sub' : sub = .dataPathRequest := kind
      subst sub'
      cases due
      refine ⟨by rwa [Bool.not_not], by rw [Bool.not_not], Or.inl rfl, ?_, nofun, nofun⟩
      intro _
      rw [Bool.not_not]
      refine ⟨rfl, rfl, rfl, ?_⟩
      rw [about]
      exact known
    · have sub' : sub = .dataPathConfirm := kind
      subst sub'
      cases due
      refine ⟨by rwa [Bool.not_not], by rw [Bool.not_not], Or.inr (Or.inr rfl), nofun, nofun, ?_⟩
      intro _
      rw [Bool.not_not]
      rfl
  | responder =>
    have known := sound.held z _ s held role
    have sub' : sub = .dataPathResponse := (sends_answered sends known.answers role).1
    subst sub'
    have peerNdi : armed.peerNdi = some (cfg !z).ndi := by
      rw [same]
      exact known.peerNdi
    refine ⟨by rwa [Bool.not_not], by rw [Bool.not_not], Or.inr (Or.inl rfl), nofun, ?_, nofun⟩
    intro _
    rw [Bool.not_not, about]
    rw [ndpeFor, peerNdi] at due
    refine ⟨?_, known.ndpId, ?_⟩
    · split at due
      · cases due
        rfl
      · cases due
        rfl
    · split at due
      · next accept =>
        cases due
        rw [if_pos accept]
        exact ⟨rfl, rfl, rfl⟩
      · next reject =>
        cases due
        rw [if_neg reject]

/-- After a window the two sides still know of each other what they must. -/
theorem PairSound.transmits (sound : PairSound cfg pair)
    (sends : SendsFrames cfg pair z now sent pair')
    (given : ∀ ndpId t, pair.asking cfg z ndpId = some t → rearm now t = none →
      (cfg !z).ndpAutoAccept = true → pair.answering cfg z ndpId = none) :
    PairSound cfg pair' := by
  have engines : ∀ w, w = z ∨ w = !z := by
    intro w
    by_cases here : w = z
    · exact Or.inl here
    · exact Or.inr (Bool.eq_not.mpr here)
  have nexts : pair'.next = pair.next := by
    funext w
    rcases engines w with rfl | rfl
    · exact sends.next
    · rw [Pair.next, Pair.next, sends.otherEngine]
  have paths : ∀ w k s, (pair'.engine w).path k = some s → (pair.engine w).path k = some s ∨
      w = z ∧ ∃ s', (pair.engine z).path k = some s' ∧
        (ndpTurn (cfg z) now s').kept = some s := by
    intro w k s found
    rcases engines w with rfl | rfl
    · rw [sends.paths] at found
      exact Or.inr ⟨rfl, Option.bind_eq_some_iff.mp found⟩
    · rw [sends.otherEngine] at found
      exact Or.inl found
  have roleOf : ∀ k s s', (pair.engine z).path k = some s' → (pair'.engine z).path k = some s →
      s'.role = s.role := by
    intro k s s' before after
    have same : s'.key = s.key := (key_entry before).trans (key_entry after).symm
    exact congrArg PathKey.role same
  refine ⟨?_, ?_, ?_, ?_, ?_, ?_⟩
  · intro w
    rcases engines w with rfl | rfl
    · exact sends.config.trans (sound.config w)
    · rw [sends.otherEngine]
      exact sound.config _
  · intro w
    rcases engines w with rfl | rfl
    · exact sends.distinct
    · rw [sends.otherEngine]
      exact sound.distinct _
  · intro w bytes found m said
    rw [nexts]
    rcases engines w with rfl | rfl
    · rw [sends.flight] at found
      exact sound.messages w bytes found m said
    · rw [sends.otherFlight] at found
      rcases List.mem_append.mp found with earlier | new
      · exact sound.messages _ bytes earlier m said
      · exact sound.sent_fair sends.said new said
  · intro w k s found role
    rw [nexts]
    rcases paths w k s found with before | ⟨rfl, s', before, turn⟩
    · exact sound.held w k s before role
    · exact (sound.held w k s' before ((roleOf k s s' before found).trans role)).kept turn
  · intro w k s found role
    rw [nexts]
    rcases paths w k s found with before | ⟨rfl, s', before, turn⟩
    · exact sound.asked w k s before role
    · have known := sound.asked w k s' before ((roleOf k s s' before found).trans role)
      refine ⟨known.1.kept turn, ?_⟩
      rw [ndpTurn_kept turn]
      exact known.2
  · intro x ndpId
    rcases engines x with rfl | rfl
    · exact sound.asks sends (given ndpId)
    · rw [Bool.not_not]
      exact sound.answers sends ndpId

end

end NdnExt.Nan
