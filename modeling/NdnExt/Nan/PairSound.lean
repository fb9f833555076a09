import NdnExt.Nan.PathPair

/-! What two engines know of each other's paths, and that it stays so as they hear each other. -/

namespace NdnExt.Nan

open NdnExt.Lib NdnExt.Lib.Keyed NdnExt.Lib.Run NanEngine Pair NdpSession

/-- A message on its way to `z` is about its sender, and about an id that was given out. -/
structure Fair (cfg : Bool → NanConfig) (next : Bool → UInt8) (z : Bool) (bytes : Bytes)
    (m : PathMessage) : Prop where
  comes : ComesFrom (cfg !z).nmi bytes
  source : m.source = (cfg !z).nmi
  kind : m.subtype = .dataPathRequest ∨ m.subtype = .dataPathResponse ∨
    m.subtype = .dataPathConfirm
  request : m.subtype = .dataPathRequest → m.ndpe.ndpType = .request ∧
    m.ndpe.initiatorNdi = (cfg !z).ndi ∧ m.ndpe.ipv6Iid = some (eui64Iid (cfg !z).ndi) ∧
    m.ndpe.ndpId < next !z
  response : m.subtype = .dataPathResponse → m.ndpe.initiatorNdi = (cfg z).ndi ∧
    m.ndpe.ndpId < next z ∧
    if (cfg !z).ndpAutoAccept then m.ndpe.status = .accepted ∧
      m.ndpe.responderNdi = some (cfg !z).ndi ∧ m.ndpe.ipv6Iid = some (eui64Iid (cfg !z).ndi)
    else m.ndpe.status = .rejected
  confirm : m.subtype = .dataPathConfirm → m.ndpe.initiatorNdi = (cfg !z).ndi

/-- A session of `z` on the side that was asked. -/
structure HeldFor (cfg : Bool → NanConfig) (next : Bool → UInt8) (z : Bool) (s : NdpSession) :
    Prop where
  peer : s.peer = (cfg !z).nmi
  peerNdi : s.peerNdi = some (cfg !z).ndi
  peerIid : s.peerIid = some (eui64Iid (cfg !z).ndi)
  answers : Answers (cfg z).ndpAutoAccept s
  ndpId : s.ndpId < next !z

def Pair.next (pair : Pair) (z : Bool) : UInt8 := (pair.engine z).nextNdpId

structure PairSound (cfg : Bool → NanConfig) (pair : Pair) : Prop where
  config : ∀ z, (pair.engine z).cfg = cfg z
  distinct : ∀ z, Distinct NdpSession.key (pair.engine z).ndps
  messages : ∀ z, ∀ bytes ∈ pair.flight z, ∀ m, pathMessage bytes = some m →
    Fair cfg pair.next z bytes m
  held : ∀ z k s, (pair.engine z).path k = some s → s.role = .responder →
    HeldFor cfg pair.next z s
  asked : ∀ z k s, (pair.engine z).path k = some s → s.role = .initiator →
    Asks s ∧ s.ndpId < pair.next z
  views : ∀ x ndpId, (pair.view cfg x ndpId).Sound (cfg !x).ndpAutoAccept

section

variable {cfg : Bool → NanConfig} {z : Bool} {subtype : NafSubtype} {ndpId : UInt8}
  {bytes : Bytes} {frames more : List Bytes}

theorem carried_append : Carried cfg z subtype ndpId (frames ++ more) ↔
    Carried cfg z subtype ndpId frames ∨ Carried cfg z subtype ndpId more := by
  constructor
  · rintro ⟨bytes, found, said⟩
    rcases List.mem_append.mp found with left | right
    · exact Or.inl ⟨bytes, left, said⟩
    · exact Or.inr ⟨bytes, right, said⟩
  · rintro (⟨bytes, found, said⟩ | ⟨bytes, found, said⟩)
    · exact ⟨bytes, List.mem_append_left _ found, said⟩
    · exact ⟨bytes, List.mem_append_right _ found, said⟩

/-- A frame is taken out that says no such thing. -/
theorem carried_rest (split : ∀ b, b ∈ frames ↔ b = bytes ∨ b ∈ more)
    (other : ∀ m, pathMessage bytes = some m → m.dest = some (cfg z).nmi →
      m.subtype = subtype → m.ndpe.ndpId ≠ ndpId) :
    Carried cfg z subtype ndpId more ↔ Carried cfg z subtype ndpId frames := by
  constructor
  · rintro ⟨b, found, said⟩
    exact ⟨b, (split b).mpr (Or.inr found), said⟩
  · rintro ⟨b, found, m, said, kind, dest, about⟩
    rcases (split b).mp found with rfl | rest
    · exact absurd about (other m said dest kind)
    · exact ⟨b, rest, m, said, kind, dest, about⟩

theorem carried_of_rest (split : ∀ b, b ∈ frames ↔ b = bytes ∨ b ∈ more)
    (rest : Carried cfg z subtype ndpId more) : Carried cfg z subtype ndpId frames := by
  rcases rest with ⟨b, found, said⟩
  exact ⟨b, (split b).mpr (Or.inr found), said⟩

end

/-- One side hears a frame that was on its way to it. -/
structure HearsFrame (pair : Pair) (z : Bool) (rx : RxFrame) (pair' : Pair) : Prop where
  engine : ∃ step, pair'.engine z = (NanEngine.handleRx (pair.engine z, step) rx).1
  split : ∀ b, b ∈ pair.flight z ↔ b = rx.bytes ∨ b ∈ pair'.flight z
  otherEngine : pair'.engine (!z) = pair.engine !z
  otherFlight : pair'.flight (!z) = pair.flight !z

section

variable {cfg : Bool → NanConfig} {pair pair' : Pair} {z : Bool} {rx : RxFrame}

theorem HearsFrame.view_asker (hears : HearsFrame pair z rx pair') (ndpId : UInt8) :
    pair'.view cfg z ndpId = { pair.view cfg z ndpId with
      asking := pair'.asking cfg z ndpId
      response := Carried cfg z .dataPathResponse ndpId (pair'.flight z) } := by
  simp only [view, answering, hears.otherEngine, hears.otherFlight]

theorem HearsFrame.view_answerer (hears : HearsFrame pair z rx pair') (ndpId : UInt8) :
    pair'.view cfg (!z) ndpId = { pair.view cfg (!z) ndpId with
      answering := pair'.answering cfg (!z) ndpId
      request := Carried cfg z .dataPathRequest ndpId (pair'.flight z)
      confirm := Carried cfg z .dataPathConfirm ndpId (pair'.flight z) } := by
  simp only [view, asking, Bool.not_not, hears.otherEngine, hears.otherFlight]

/-- The view of a path of which nothing was heard. -/
theorem HearsFrame.view_same (hears : HearsFrame pair z rx pair') (x : Bool) (ndpId : UInt8)
    (asking : x = z → pair'.asking cfg z ndpId = pair.asking cfg z ndpId)
    (answering : x = !z → pair'.answering cfg (!z) ndpId = pair.answering cfg (!z) ndpId)
    (other : ∀ m, pathMessage rx.bytes = some m → m.dest = some (cfg z).nmi →
      m.ndpe.ndpId = ndpId → (m.subtype = .dataPathResponse → x ≠ z) ∧
        (m.subtype ≠ .dataPathResponse → x = z))
    {accepts : Bool} (sound : (pair.view cfg x ndpId).Sound accepts) :
    (pair'.view cfg x ndpId).Sound accepts := by
  by_cases here : x = z
  · subst here
    rw [hears.view_asker ndpId]
    refine sound.congr (asking rfl) rfl Iff.rfl ?_ Iff.rfl
    apply carried_rest hears.split
    intro m said dest kind same
    exact (other m said dest same).1 kind rfl
  · have opposite : x = !z := Bool.eq_not.mpr here
    subst opposite
    rw [hears.view_answerer ndpId]
    have gone : ∀ subtype : NafSubtype, subtype ≠ .dataPathResponse →
        (Carried cfg z subtype ndpId (pair'.flight z) ↔
          Carried cfg z subtype ndpId (pair.flight z)) := by
      intro subtype differs
      apply carried_rest hears.split
      intro m said dest kind same
      exact here ((other m said dest same).2 (kind ▸ differs))
    refine sound.congr rfl (answering rfl) ?_ Iff.rfl ?_
    · simpa [view] using gone .dataPathRequest (by decide)
    · simpa [view] using gone .dataPathConfirm (by decide)

/-- What holds of the two sides after a frame, given what the frame did to one path of the one. -/
theorem PairSound.updated (sound : PairSound cfg pair) (hears : HearsFrame pair z rx pair')
    (config : (pair'.engine z).cfg = (pair.engine z).cfg)
    (next : (pair'.engine z).nextNdpId = (pair.engine z).nextNdpId) {k : PathKey}
    {value : Option NdpSession}
    (updated : Updated key (pair.engine z).ndps (pair'.engine z).ndps k value)
    (held : ∀ s, value = some s → s.role = .responder → HeldFor cfg pair.next z s)
    (asked : ∀ s, value = some s → s.role = .initiator → Asks s ∧ s.ndpId < pair.next z)
    (views : ∀ x ndpId, (pair'.view cfg x ndpId).Sound (cfg !x).ndpAutoAccept) :
    PairSound cfg pair' := by
  have engines : ∀ w, w = z ∨ pair'.engine w = pair.engine w := by
    intro w
    by_cases here : w = z
    · exact Or.inl here
    · rw [Bool.eq_not.mpr here]
      exact Or.inr hears.otherEngine
  have nexts : pair'.next = pair.next := by
    funext w
    rcases engines w with rfl | same
    · exact next
    · rw [Pair.next, Pair.next, same]
  have flights : ∀ w, ∀ b ∈ pair'.flight w, b ∈ pair.flight w := by
    intro w b found
    by_cases here : w = z
    · subst here
      exact (hears.split b).mpr (Or.inr found)
    · rw [Bool.eq_not.mpr here] at found ⊢
      rwa [hears.otherFlight] at found
  have paths : ∀ w k' s, (pair'.engine w).path k' = some s →
      (w = z ∧ value = some s) ∨ (pair.engine w).path k' = some s := by
    intro w k' s found
    rcases engines w with rfl | same
    · rw [path, updated.lookup] at found
      split at found
      · exact Or.inl ⟨rfl, found⟩
      · exact Or.inr found
    · rw [same] at found
      exact Or.inr found
  refine ⟨?_, ?_, ?_, ?_, ?_, views⟩
  · intro w
    rcases engines w with rfl | same
    · exact config.trans (sound.config w)
    · rw [same]
      exact sound.config w
  · intro w
    rcases engines w with rfl | same
    · exact updated.distinct
    · rw [same]
      exact sound.distinct w
  · intro w b found m said
    rw [nexts]
    exact sound.messages w b (flights w b found) m said
  · intro w k' s found role
    rw [nexts]
    rcases paths w k' s found with ⟨rfl, is⟩ | before
    · exact held s is role
    · exact sound.held w k' s before role
  · intro w k' s found role
    rw [nexts]
    rcases paths w k' s found with ⟨rfl, is⟩ | before
    · exact asked s is role
    · exact sound.asked w k' s before role

/-- A frame that says nothing of a path to this side. -/
theorem PairSound.unheard (sound : PairSound cfg pair) (hears : HearsFrame pair z rx pair')
    (config : (pair'.engine z).cfg = (pair.engine z).cfg)
    (next : (pair'.engine z).nextNdpId = (pair.engine z).nextNdpId)
    (ndps : (pair'.engine z).ndps = (pair.engine z).ndps)
    (silent : ∀ m, pathMessage rx.bytes = some m → m.dest ≠ some (cfg z).nmi) :
    PairSound cfg pair' := by
  have same : Updated key (pair.engine z).ndps (pair'.engine z).ndps
      ⟨(cfg z).nmi, 0, .initiator⟩
      (entry key (pair.engine z).ndps ⟨(cfg z).nmi, 0, .initiator⟩) := by
    rw [ndps]
    exact Updated.refl (sound.distinct z) _
  have paths : ∀ k, (pair'.engine z).path k = (pair.engine z).path k := by
    intro k
    rw [path, ndps]
    rfl
  refine sound.updated hears config next same ?_ ?_ ?_
  · intro s is role
    exact sound.held z _ s is role
  · intro s is role
    exact sound.asked z _ s is role
  · intro x ndpId
    refine hears.view_same x ndpId ?_ ?_ ?_ (sound.views x ndpId)
    · intro _
      exact paths _
    · intro _
      rw [answering, answering, Bool.not_not]
      exact paths _
    · intro m said dest
      exact absurd dest (silent m said)

/-! ### What a message does -/

theorem Pair.answering_other (cfg : Bool → NanConfig) (pair : Pair) (z : Bool) (ndpId : UInt8) :
    pair.answering cfg (!z) ndpId = (pair.engine z).path ⟨(cfg !z).nmi, ndpId, .responder⟩ := by
  rw [answering, Bool.not_not]

variable {m : PathMessage}

/-- What is on its way of another kind than the one that was heard. -/
theorem HearsFrame.unsaid (hears : HearsFrame pair z rx pair')
    (said : pathMessage rx.bytes = some m) {subtype : NafSubtype} (other : m.subtype ≠ subtype)
    (ndpId : UInt8) : Carried cfg z subtype ndpId (pair'.flight z) ↔
      Carried cfg z subtype ndpId (pair.flight z) := by
  apply carried_rest hears.split
  intro m' said' _ kind
  rw [said, Option.some.injEq] at said'
  exact absurd (said' ▸ kind) other

/-- A path of which a message was heard, and the others. -/
theorem HearsFrame.views (hears : HearsFrame pair z rx pair')
    (said : pathMessage rx.bytes = some m) (sound : PairSound cfg pair) {role : NdpRole}
    {value : Option NdpSession}
    (updated : Updated key (pair.engine z).ndps (pair'.engine z).ndps
      ⟨(cfg !z).nmi, m.ndpe.ndpId, role⟩ value)
    (kind : m.subtype = .dataPathResponse ↔ role = .initiator)
    (view : (pair'.view cfg (if role = .initiator then z else !z) m.ndpe.ndpId).Sound
      (cfg !(if role = .initiator then z else !z)).ndpAutoAccept) (x : Bool) (ndpId : UInt8) :
    (pair'.view cfg x ndpId).Sound (cfg !x).ndpAutoAccept := by
  by_cases concerned : x = (if role = .initiator then z else !z) ∧ ndpId = m.ndpe.ndpId
  · rw [concerned.1, concerned.2]
    exact view
  · refine hears.view_same x ndpId ?_ ?_ ?_ (sound.views x ndpId)
    · intro here
      rw [asking, path, updated.lookup, if_neg]
      · rfl
      · intro same
        rw [PathKey.mk.injEq] at same
        exact concerned ⟨by rw [if_pos same.2.2.symm, here], same.2.1⟩
    · intro opposite
      rw [answering_other, path, updated.lookup, if_neg, answering_other]
      · rfl
      · intro same
        rw [PathKey.mk.injEq] at same
        exact concerned ⟨by rw [if_neg (by rw [← same.2.2]; decide), opposite], same.2.1⟩
    · intro m' said' _ same
      rw [said, Option.some.injEq] at said'
      subst said'
      constructor
      · intro response here
        exact concerned ⟨by rw [if_pos (kind.mp response), here], same.symm⟩
      · intro other
        by_contra opposite
        exact concerned ⟨by rw [if_neg (fun asker => other (kind.mpr asker)),
          Bool.eq_not.mpr opposite], same.symm⟩

section

variable (sound : PairSound cfg pair) (hears : HearsFrame pair z rx pair')
  (said : pathMessage rx.bytes = some m) (config : (pair'.engine z).cfg = (pair.engine z).cfg)
  (next : (pair'.engine z).nextNdpId = (pair.engine z).nextNdpId)
include sound hears said config next

/-- A request opens a session on the side that is asked, or has it answer again. -/
theorem PairSound.hearsRequest (kind : m.subtype = .dataPathRequest)
    (fair : Fair cfg pair.next z rx.bytes m)
    (updated : Updated key (pair.engine z).ndps (pair'.engine z).ndps
      ⟨(cfg !z).nmi, m.ndpe.ndpId, .responder⟩
      (reaction m (pair.answering cfg (!z) m.ndpe.ndpId)).1)
    (open' : (cfg z).ndpAutoAccept = true → pair.asking cfg (!z) m.ndpe.ndpId ≠ none) :
    PairSound cfg pair' := by
  rcases fair.request kind with ⟨type, ndi, iid, given⟩
  have role : ∀ s, pair.answering cfg (!z) m.ndpe.ndpId = some s → s.role = .responder := by
    intro s is
    rw [Pair.answering_other] at is
    exact congrArg PathKey.role (key_entry is)
  have after : pair'.answering cfg (!z) m.ndpe.ndpId =
      (reaction m (pair.answering cfg (!z) m.ndpe.ndpId)).1 := by
    rw [Pair.answering_other, path, updated.lookup, if_pos rfl]
  have responder : ∀ s, (reaction m (pair.answering cfg (!z) m.ndpe.ndpId)).1 = some s →
      s.role = .responder ∧ HeldFor cfg pair.next z s := by
    intro s is
    cases held : pair.answering cfg (!z) m.ndpe.ndpId with
    | none =>
      rw [held] at is
      simp only [reaction, kind, type, ne_eq, not_true_eq_false, if_false,
        Option.some.injEq] at is
      subst is
      refine ⟨rfl, fair.source, ?_, iid, ⟨Or.inl rfl, Or.inl rfl⟩, given⟩
      rw [← ndi]
      rfl
    | some s' =>
      have path : (pair.engine z).path ⟨(cfg !z).nmi, m.ndpe.ndpId, .responder⟩ = some s' := by
        rw [← Pair.answering_other]
        exact held
      have known := sound.held z _ s' path (role s' held)
      rw [held] at is
      simp only [reaction, kind] at is
      split at is
      · cases is
        exact ⟨role s' held, known.peer, known.peerNdi, known.peerIid,
          ⟨known.answers.state, Or.inl rfl⟩, known.ndpId⟩
      · rw [Option.some.injEq] at is
        exact is ▸ ⟨role s' held, known⟩
  refine sound.updated hears config next updated (fun s is _ => (responder s is).2) ?_ ?_
  · intro s is asks
    rw [(responder s is).1] at asks
    cases asks
  · refine hears.views said sound updated (iff_of_false (by rw [kind]; decide) (by decide)) ?_
    rw [if_neg (by decide), Bool.not_not]
    have view := sound.views (!z) m.ndpe.ndpId
    rw [Bool.not_not] at view
    have confirm : Carried cfg z .dataPathConfirm m.ndpe.ndpId (pair'.flight z) ↔
        (pair.view cfg (!z) m.ndpe.ndpId).confirm := by
      simpa [Pair.view] using hears.unsaid said (by rw [kind]; decide) m.ndpe.ndpId
    rw [hears.view_answerer, after]
    cases held : pair.answering cfg (!z) m.ndpe.ndpId with
    | none =>
      have reacts : reaction m none = (some (responderFor m.source m.ndpe), []) := by
        simp [reaction, kind, type]
      rw [reacts]
      have asks : ∀ t, pair.asking cfg (!z) m.ndpe.ndpId = some t → Asks t := by
        intro t is
        exact (sound.asked (!z) _ t is (congrArg PathKey.role (key_entry is))).1
      exact (view.asked held open' asks rfl rfl _).congr rfl rfl Iff.rfl Iff.rfl confirm
    | some s =>
      by_cases waits : s.state = .awaitingConfirm
      · have reacts : reaction m (some s) =
            (some { s with pendingTx := some .dataPathResponse }, []) := by
          simp [reaction, kind, type, role s held, waits]
        rw [reacts]
        exact (view.askedAgain held _).congr rfl rfl Iff.rfl Iff.rfl confirm
      · have reacts : reaction m (some s) = (some s, []) := by
          simp [reaction, kind, waits]
        rw [reacts]
        have lost := view.lose
          (Carried cfg z .dataPathRequest m.ndpe.ndpId (pair'.flight z)) _
          (fun sent => sent) (fun _ s' t held' waits' =>
            absurd waits' ((Option.some.inj (held.symm.trans held')) ▸ waits))
        exact lost.congr rfl held.symm Iff.rfl Iff.rfl confirm

/-- A response settles the path on the side that asked for it. -/
theorem PairSound.hearsResponse (dest : m.dest = some (cfg z).nmi)
    (kind : m.subtype = .dataPathResponse) (fair : Fair cfg pair.next z rx.bytes m)
    (updated : Updated key (pair.engine z).ndps (pair'.engine z).ndps
      ⟨(cfg !z).nmi, m.ndpe.ndpId, .initiator⟩
      (reaction m (pair.asking cfg z m.ndpe.ndpId)).1) :
    PairSound cfg pair' := by
  rcases fair.response kind with ⟨_, given, answer⟩
  have there : (pair.view cfg z m.ndpe.ndpId).response :=
    ⟨rx.bytes, (hears.split _).mpr (Or.inl rfl), m, said, kind, dest, rfl⟩
  have after : pair'.asking cfg z m.ndpe.ndpId =
      (reaction m (pair.asking cfg z m.ndpe.ndpId)).1 := by
    rw [asking, path, updated.lookup, if_pos rfl]
  have view := sound.views z m.ndpe.ndpId
  have initiator : ∀ t, pair.asking cfg z m.ndpe.ndpId = some t →
      t.role = .initiator ∧ Asks t ∧ t.ndpId < pair.next z := by
    intro t is
    have role : t.role = .initiator := congrArg PathKey.role (key_entry is)
    exact ⟨role, sound.asked z _ t is role⟩
  -- What the message makes of the session, and of what the two know of the path.
  have settles : (∀ t, (reaction m (pair.asking cfg z m.ndpe.ndpId)).1 = some t →
        t.role = .initiator ∧ Asks t ∧ t.ndpId < pair.next z) ∧
      (pair'.view cfg z m.ndpe.ndpId).Sound (cfg !z).ndpAutoAccept := by
    rw [hears.view_asker, after]
    cases held : pair.asking cfg z m.ndpe.ndpId with
    | none =>
      have reacts : reaction m none = (none, []) := by simp [reaction, kind]
      rw [reacts]
      refine ⟨(by intro t impossible; cases impossible), ?_⟩
      have lost := view.lose (pair.view cfg z m.ndpe.ndpId).request _
        (carried_of_rest hears.split)
        (fun _ s t _ _ asking => absurd (held.symm.trans asking) (Option.some_ne_none t).symm)
      exact lost.congr held.symm rfl Iff.rfl Iff.rfl Iff.rfl
    | some t =>
      rcases initiator t held with ⟨role, asks, known⟩
      by_cases waits : t.state = .awaitingResponse
      · cases accept : (cfg !z).ndpAutoAccept with
        | true =>
          rw [accept, if_pos rfl] at answer
          rw [accept] at view
          have reacts : reaction m (some t) =
              (some { t with
                  peerNdi := some (cfg !z).ndi
                  peerIid := some (eui64Iid (cfg !z).ndi)
                  state := .established
                  pendingTx := some .dataPathConfirm },
                [.ndpEstablished m.source t.ndpId t.role (cfg !z).ndi
                  (eui64Iid (cfg !z).ndi)]) := by
            simp [reaction, kind, role, waits, answer.1, answer.2.1, answer.2.2]
          rw [reacts]
          refine ⟨?_, view.accepted there held rfl rfl _⟩
          intro t' same
          cases same
          exact ⟨role, Or.inr ⟨rfl, Or.inr rfl⟩, known⟩
        | false =>
          rw [accept, if_neg (by decide)] at answer
          rw [accept] at view
          have reacts : reaction m (some t) =
              (none, [.ndpFailed m.source t.ndpId (.rejected m.ndpe.reasonCode)]) := by
            simp [reaction, kind, role, waits, answer]
          rw [reacts]
          exact ⟨(by intro t' impossible; cases impossible),
            view.ended held waits (by intro impossible; cases impossible) _ _⟩
      · have reacts : reaction m (some t) = (some t, []) := by
          simp [reaction, kind, waits]
        rw [reacts]
        refine ⟨?_, ?_⟩
        · intro t' same
          cases same
          exact ⟨role, asks, known⟩
        · have lost := view.lose (pair.view cfg z m.ndpe.ndpId).request _
            (carried_of_rest hears.split) (fun _ s t' _ _ asking exhausted =>
              absurd exhausted.1 ((Option.some.inj (held.symm.trans asking)) ▸ waits))
          exact lost.congr held.symm rfl Iff.rfl Iff.rfl Iff.rfl
  refine sound.updated hears config next updated ?_ (fun t is _ => (settles.1 t is).2)
    (hears.views said sound updated (iff_of_true kind rfl) settles.2)
  intro s is answers
  rw [(settles.1 s is).1] at answers
  cases answers

/-- A confirm settles it on the side that was asked. -/
theorem PairSound.hearsConfirm (dest : m.dest = some (cfg z).nmi)
    (kind : m.subtype = .dataPathConfirm)
    (updated : Updated key (pair.engine z).ndps (pair'.engine z).ndps
      ⟨(cfg !z).nmi, m.ndpe.ndpId, .responder⟩
      (reaction m (pair.answering cfg (!z) m.ndpe.ndpId)).1) :
    PairSound cfg pair' := by
  have view := sound.views (!z) m.ndpe.ndpId
  rw [Bool.not_not] at view
  have there : (pair.view cfg (!z) m.ndpe.ndpId).confirm := by
    have sent : Carried cfg z .dataPathConfirm m.ndpe.ndpId (pair.flight z) :=
      ⟨rx.bytes, (hears.split _).mpr (Or.inl rfl), m, said, kind, dest, rfl⟩
    simpa [Pair.view] using sent
  have fewer : Carried cfg z .dataPathConfirm m.ndpe.ndpId (pair'.flight z) →
      (pair.view cfg (!z) m.ndpe.ndpId).confirm := fun _ => there
  have request : Carried cfg z .dataPathRequest m.ndpe.ndpId (pair'.flight z) ↔
      (pair.view cfg (!z) m.ndpe.ndpId).request := by
    simpa [Pair.view] using hears.unsaid said (by rw [kind]; decide) m.ndpe.ndpId
  have after : pair'.answering cfg (!z) m.ndpe.ndpId =
      (reaction m (pair.answering cfg (!z) m.ndpe.ndpId)).1 := by
    rw [Pair.answering_other, path, updated.lookup, if_pos rfl]
  have settles : (∀ s, (reaction m (pair.answering cfg (!z) m.ndpe.ndpId)).1 = some s →
        s.role = .responder ∧ HeldFor cfg pair.next z s) ∧
      (pair'.view cfg (!z) m.ndpe.ndpId).Sound (cfg z).ndpAutoAccept := by
    rw [hears.view_answerer, after]
    cases held : pair.answering cfg (!z) m.ndpe.ndpId with
    | none =>
      have reacts : reaction m none = (none, []) := by simp [reaction, kind]
      rw [reacts]
      refine ⟨(by intro s impossible; cases impossible), ?_⟩
      have still := view.confirmsNothing
        (fun s is => absurd (held.symm.trans is) (Option.some_ne_none s).symm) fewer
      exact still.congr rfl held.symm request Iff.rfl Iff.rfl
    | some s =>
      have path : (pair.engine z).path ⟨(cfg !z).nmi, m.ndpe.ndpId, .responder⟩ = some s := by
        rw [← Pair.answering_other]
        exact held
      have role : s.role = .responder := congrArg PathKey.role (key_entry path)
      have known := sound.held z _ s path role
      by_cases waits : s.state = .awaitingConfirm
      · have reacts : reaction m (some s) =
            (some { s with state := .established },
              [.ndpEstablished m.source s.ndpId s.role (cfg !z).ndi
                (eui64Iid (cfg !z).ndi)]) := by
          simp [reaction, kind, role, waits, known.peerNdi, known.peerIid]
        rw [reacts]
        rcases view.confirming there with ⟨t, asking, established⟩
        refine ⟨?_, (view.confirms there rfl fewer).congr rfl rfl request Iff.rfl Iff.rfl⟩
        intro s' same
        cases same
        exact ⟨role, known.peer, known.peerNdi, known.peerIid,
          ⟨Or.inr ⟨rfl, (view.established t asking established).1⟩, known.answers.pending⟩,
          known.ndpId⟩
      · have reacts : reaction m (some s) = (some s, []) := by
          simp [reaction, kind, waits]
        rw [reacts]
        refine ⟨?_, ?_⟩
        · intro s' same
          cases same
          exact ⟨role, known⟩
        · have still := view.confirmsNothing (fun s' is =>
            (Option.some.inj (held.symm.trans is)) ▸ waits) fewer
          exact still.congr rfl held.symm request Iff.rfl Iff.rfl
  refine sound.updated hears config next updated (fun s is _ => (settles.1 s is).2) ?_
    (hears.views said sound updated (iff_of_false (by rw [kind]; decide) (by decide)) ?_)
  · intro s is asks
    rw [(settles.1 s is).1] at asks
    cases asks
  · rw [if_neg (by decide), Bool.not_not]
    exact settles.2

end

/-- Hearing a frame, where a request is only heard while the other side holds it open. -/
theorem PairSound.hears (sound : PairSound cfg pair) (hears : HearsFrame pair z rx pair')
    (nmis : (cfg z).nmi ≠ (cfg !z).nmi) (ndis : (cfg z).ndi ≠ (cfg !z).ndi)
    (open' : ∀ m, pathMessage rx.bytes = some m → m.subtype = .dataPathRequest →
      m.dest = some (cfg z).nmi → (cfg z).ndpAutoAccept = true →
        pair.asking cfg (!z) m.ndpe.ndpId ≠ none) : PairSound cfg pair' := by
  rcases hears.engine with ⟨step, heard⟩
  cases said : pathMessage rx.bytes with
  | none =>
    have same := handleRx_silent said (pair.engine z, step)
    have config : (pair'.engine z).cfg = (pair.engine z).cfg := by
      rw [heard]
      exact same.cfg
    have next : (pair'.engine z).nextNdpId = (pair.engine z).nextNdpId := by
      rw [heard]
      exact same.nextNdpId
    have ndps : (pair'.engine z).ndps = (pair.engine z).ndps := by
      rw [heard]
      exact same.ndps
    refine sound.unheard hears config next ndps ?_
    intro m said'
    rw [said] at said'
    cases said'
  | some m =>
    have fair := sound.messages z rx.bytes ((hears.split _).mpr (Or.inl rfl)) m said
    have config := sound.config z
    rw [handleRx_message said fair.comes, config] at heard
    by_cases dest : m.dest = some (cfg z).nmi
    · rw [if_pos ⟨nmis.symm, dest⟩] at heard
      have foreign : m.ndpe.initiatorNdi = (cfg !z).ndi →
          m.ndpe.initiatorNdi ≠ (pair.engine z).cfg.ndi := by
        intro theirs
        rw [theirs, config]
        exact ndis.symm
      have reacts := onPath_reacts step (sound.distinct z)
        (fun kind => foreign (fair.request kind).2.1)
      rw [← show (pair'.engine z, ((pair.engine z).onPath m step).2) =
        (pair.engine z).onPath m step by rw [heard]] at reacts
      rcases reacts.engine with ⟨ndps, engine⟩
      have config' : (pair'.engine z).cfg = (pair.engine z).cfg := by
        rw [show pair'.engine z = _ from engine]
      have next : (pair'.engine z).nextNdpId = (pair.engine z).nextNdpId := by
        rw [show pair'.engine z = _ from engine]
      have updated := reacts.paths
      rcases fair.kind with kind | kind | kind
      · have key : (pair.engine z).keyOf m = ⟨(cfg !z).nmi, m.ndpe.ndpId, .responder⟩ := by
          rw [keyOf, if_neg (foreign (fair.request kind).2.1), fair.source]
        rw [key, ← answering_other] at updated
        exact sound.hearsRequest hears said config' next kind fair updated (open' m said kind dest)
      · have key : (pair.engine z).keyOf m = ⟨(cfg !z).nmi, m.ndpe.ndpId, .initiator⟩ := by
          rw [keyOf, config, if_pos (fair.response kind).1, fair.source]
        rw [key] at updated
        exact sound.hearsResponse hears said config' next dest kind fair updated
      · have key : (pair.engine z).keyOf m = ⟨(cfg !z).nmi, m.ndpe.ndpId, .responder⟩ := by
          rw [keyOf, if_neg (foreign (fair.confirm kind)), fair.source]
        rw [key, ← answering_other] at updated
        exact sound.hearsConfirm hears said config' next dest kind updated
    · rw [if_neg (fun both => dest both.2)] at heard
      refine sound.unheard hears (by rw [heard]) (by rw [heard]) (by rw [heard]) ?_
      intro m' said'
      rw [said, Option.some.injEq] at said'
      exact said' ▸ dest

end

end NdnExt.Nan
