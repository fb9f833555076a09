import NdnExt.Nan.Windows

/-! One data path seen from both of its sides: the sessions that hold it and the messages about it
that are in flight. -/

namespace NdnExt.Nan

open NdnExt.Lib NdnExt.Lib.Keyed

/-- The initiator's session, the responder's, and the messages on their way. -/
structure PathView where
  asking : Option NdpSession
  answering : Option NdpSession
  request : Prop
  response : Prop
  confirm : Prop

/-- What a session of an initiator can be where none is terminated. -/
def Asks (t : NdpSession) : Prop :=
  t.state = .awaitingResponse ∧ (t.pendingTx = none ∨ t.pendingTx = some .dataPathRequest) ∨
    t.state = .established ∧ (t.pendingTx = none ∨ t.pendingTx = some .dataPathConfirm)

/-- What a session of a responder can be where none is terminated. -/
structure Answers (accepts : Bool) (s : NdpSession) : Prop where
  state : s.state = .awaitingConfirm ∨ s.state = .established ∧ accepts = true
  pending : s.pendingTx = some .dataPathResponse ∨ s.pendingTx = none ∧ accepts = true

/-- A request whose attempts are used up. -/
def Exhausted (t : NdpSession) : Prop :=
  t.state = .awaitingResponse ∧ t.pendingTx = none ∧ ndpMaxAttempts ≤ t.attempts

namespace PathView

/-- While a responder waits for its confirm, a request without further attempts still has a message
on its way or due. -/
def Hopeful (v : PathView) : Prop :=
  ∀ s t, v.answering = some s → s.state = .awaitingConfirm → v.asking = some t → Exhausted t →
    v.request ∨ s.pendingTx = some .dataPathResponse ∨ v.response

/-- What the two sides know of each other. -/
structure Sound (accepts : Bool) (v : PathView) : Prop where
  awaited : accepts = true → ∀ s, v.answering = some s → s.state = .awaitingConfirm →
    ∃ t, v.asking = some t ∧ (t.state = .awaitingResponse ∨
      t.state = .established ∧ (t.pendingTx = some .dataPathConfirm ∨ v.confirm))
  confirmed : ∀ s, v.answering = some s → s.state = .established →
    ∃ t, v.asking = some t ∧ t.state = .established
  established : ∀ t, v.asking = some t → t.state = .established →
    accepts = true ∧ v.answering ≠ none
  responded : accepts = true → v.response → ∀ t, v.asking = some t → v.answering ≠ none
  confirming : v.confirm → ∃ t, v.asking = some t ∧ t.state = .established
  hopeful : accepts = true → v.Hopeful

variable {accepts : Bool} {v v' : PathView}

theorem Sound.congr (sound : Sound accepts v) (asking : v'.asking = v.asking)
    (answering : v'.answering = v.answering) (request : v'.request ↔ v.request)
    (response : v'.response ↔ v.response) (confirm : v'.confirm ↔ v.confirm) :
    Sound accepts v' := by
  have same : v' = v := by
    rcases v with ⟨_, _, _, _, _⟩
    rcases v' with ⟨_, _, _, _, _⟩
    simp_all
  rw [same]
  exact sound

theorem sound_fresh (accepts : Bool) {v : PathView} (answering : v.answering = none)
    (asking : ∀ t, v.asking = some t → t.state = .awaitingResponse) (response : ¬ v.response)
    (confirm : ¬ v.confirm) : Sound accepts v := by
  refine ⟨?_, ?_, ?_, fun _ sent => absurd sent response, fun sent => absurd sent confirm, ?_⟩
  · intro _ s held
    rw [answering] at held
    cases held
  · intro s held
    rw [answering] at held
    cases held
  · intro t held state
    rw [asking t held] at state
    cases state
  · intro _ s t held
    rw [answering] at held
    cases held

/-- A request or a response is gone, where hope is left. -/
theorem Sound.lose (sound : Sound accepts v) (request response : Prop)
    (fewer : response → v.response)
    (hopeful : accepts = true → Hopeful { v with request := request, response := response }) :
    Sound accepts { v with request := request, response := response } :=
  ⟨sound.awaited, sound.confirmed, sound.established,
    fun accept sent => sound.responded accept (fewer sent), sound.confirming, hopeful⟩

/-- The initiator hears that its request is accepted. -/
theorem Sound.accepted (sound : Sound true v) (there : v.response) {t t' : NdpSession}
    (asking : v.asking = some t) (state' : t'.state = .established)
    (due : t'.pendingTx = some .dataPathConfirm)
    (response : Prop) : Sound true { v with asking := some t', response := response } := by
  have held := sound.responded rfl there t asking
  refine ⟨?_, ?_, ?_, ?_, ?_, ?_⟩
  · intro _ s _ _
    exact ⟨t', rfl, Or.inr ⟨state', Or.inl due⟩⟩
  · intro s _ _
    exact ⟨t', rfl, state'⟩
  · intro _ _ _
    exact ⟨rfl, held⟩
  · intro _ _ _ _
    exact held
  · intro _
    exact ⟨t', rfl, state'⟩
  · intro _ s t'' _ _ asking' exhausted
    cases asking'
    rw [exhausted.1] at state'
    cases state'

/-- An initiator without a path yet has no path. -/
theorem Sound.ended {accepts : Bool} {v : PathView} (sound : Sound accepts v) {t : NdpSession}
    (asking : v.asking = some t) (state : t.state = .awaitingResponse)
    (unheld : accepts = true → v.answering = none) (request response : Prop) :
    Sound accepts { v with asking := none, request := request, response := response } := by
  have notEstablished : ¬ ∃ t, v.asking = some t ∧ t.state = .established := by
    rintro ⟨t', asking', state'⟩
    rw [asking, Option.some.injEq] at asking'
    rw [← asking', state] at state'
    cases state'
  refine ⟨?_, ?_, nofun, nofun, ?_, ?_⟩
  · intro accept s held
    rw [unheld accept] at held
    cases held
  · intro s held established
    exact absurd (sound.confirmed s held established) notEstablished
  · intro sent
    exact absurd (sound.confirming sent) notEstablished
  · intro _ s t _ _ asking'
    cases asking'

section

variable (sound : Sound accepts v)
include sound

/-- The responder hears a request that is still open, for the first time. -/
theorem Sound.asked (answering : v.answering = none)
    (asking : accepts = true → v.asking ≠ none) (asks : ∀ t, v.asking = some t → Asks t)
    {s : NdpSession} (state : s.state = .awaitingConfirm)
    (due : s.pendingTx = some .dataPathResponse)
    (request : Prop) : Sound accepts { v with answering := some s, request := request } := by
  refine ⟨?_, ?_, ?_, ?_, sound.confirming, ?_⟩
  · intro accept s' held _
    rcases Option.ne_none_iff_exists'.mp (asking accept) with ⟨t, is⟩
    refine ⟨t, is, Or.inl ?_⟩
    rcases asks t is with ⟨waits, _⟩ | ⟨established, _⟩
    · exact waits
    · exact absurd answering (sound.established t is established).2
  · intro s' held established
    cases held
    rw [state] at established
    cases established
  · intro t is established
    exact ⟨(sound.established t is established).1, nofun⟩
  · intro _ _ _ _
    nofun
  · intro _ s' t held _ _ _
    cases held
    exact Or.inr (Or.inl due)

/-- It hears it again. -/
theorem Sound.askedAgain {s : NdpSession}
    (answering : v.answering = some s) (request : Prop) :
    Sound accepts { v with
      answering := some { s with pendingTx := some .dataPathResponse }
      request := request } := by
  refine ⟨?_, ?_, ?_, ?_, sound.confirming, ?_⟩
  · intro accept s' held waits
    cases held
    exact sound.awaited accept s answering waits
  · intro s' held established
    cases held
    exact sound.confirmed s answering established
  · intro t is established
    exact ⟨(sound.established t is established).1, nofun⟩
  · intro _ _ _ _
    nofun
  · intro _ s' t held _ _ _
    cases held
    exact Or.inr (Or.inl rfl)

/-- The responder hears the confirm. -/
theorem Sound.confirms (there : v.confirm) {s' : NdpSession}
    (state : s'.state = .established) {confirm : Prop}
    (fewer : confirm → v.confirm) :
    Sound accepts { v with answering := some s', confirm := confirm } := by
  have asked := sound.confirming there
  refine ⟨?_, ?_, ?_, ?_, fun sent => sound.confirming (fewer sent), ?_⟩
  · intro _ s'' held waits
    cases held
    rw [state] at waits
    cases waits
  · intro _ _ _
    exact asked
  · intro t is established
    exact ⟨(sound.established t is established).1, nofun⟩
  · intro _ _ _ _
    nofun
  · intro _ s'' t held waits
    cases held
    rw [state] at waits
    cases waits

/-- A confirm that comes when none is awaited. -/
theorem Sound.confirmsNothing
    (idle : ∀ s, v.answering = some s → s.state ≠ .awaitingConfirm) {confirm : Prop}
    (fewer : confirm → v.confirm) : Sound accepts { v with confirm := confirm } := by
  refine ⟨?_, sound.confirmed, sound.established, sound.responded,
    fun sent => sound.confirming (fewer sent), sound.hopeful⟩
  intro _ s held waits
  exact absurd waits (idle s held)

/-- The initiator's turn in a window, where it goes on. -/
theorem Sound.askerTurn {t t' : NdpSession} {request confirm : Prop}
    (asking : v.asking = some t) (same : t'.state = t.state)
    (sentRequest : Exhausted t' → Exhausted t ∨ request)
    (sentConfirm : t.pendingTx = some .dataPathConfirm → confirm)
    (requested : v.request → request) (confirmed : v.confirm → confirm)
    (only : confirm → v.confirm ∨ t.state = .established) :
    Sound accepts { v with asking := some t', request := request, confirm := confirm } := by
  refine ⟨?_, ?_, ?_, ?_, ?_, ?_⟩
  · intro accept s held waits
    rcases sound.awaited accept s held waits with ⟨t'', asking', state⟩
    rw [asking, Option.some.injEq] at asking'
    subst asking'
    refine ⟨t', rfl, ?_⟩
    rw [same]
    rcases state with waiting | ⟨established, due | sent⟩
    · exact Or.inl waiting
    · exact Or.inr ⟨established, Or.inr (sentConfirm due)⟩
    · exact Or.inr ⟨established, Or.inr (confirmed sent)⟩
  · intro s held established
    rcases sound.confirmed s held established with ⟨t'', asking', state⟩
    rw [asking, Option.some.injEq] at asking'
    subst asking'
    exact ⟨t', rfl, same.trans state⟩
  · intro t'' asking' established
    cases asking'
    exact sound.established t asking (same ▸ established)
  · intro accept sent t'' _
    exact sound.responded accept sent t asking
  · intro sent
    refine ⟨t', rfl, ?_⟩
    rw [same]
    rcases only sent with earlier | now
    · rcases sound.confirming earlier with ⟨t'', asking', state⟩
      rw [asking, Option.some.injEq] at asking'
      rw [asking', state]
    · exact now
  · intro accept s t'' held waits asking' exhausted
    cases asking'
    rcases sentRequest exhausted with before | sent
    · rcases sound.hopeful accept s t held waits asking before with sent | due | back
      · exact Or.inl (requested sent)
      · exact Or.inr (Or.inl due)
      · exact Or.inr (Or.inr back)
    · exact Or.inl sent

/-- The responder's turn in a window, where it goes on. -/
theorem Sound.answererTurn {s s' : NdpSession} {response : Prop}
    (answering : v.answering = some s) (same : s'.state = s.state)
    (sent : s.pendingTx = some .dataPathResponse → response) (responded : v.response → response) :
    Sound accepts { v with answering := some s', response := response } := by
  refine ⟨?_, ?_, ?_, ?_, sound.confirming, ?_⟩
  · intro accept s'' held waits
    cases held
    exact sound.awaited accept s answering (same ▸ waits)
  · intro s'' held established
    cases held
    exact sound.confirmed s answering (same ▸ established)
  · intro t asking established
    exact ⟨(sound.established t asking established).1, nofun⟩
  · intro _ _ _ _
    nofun
  · intro accept s'' t held waits asking exhausted
    cases held
    rcases sound.hopeful accept s t answering (same ▸ waits) asking exhausted with out | due | back
    · exact Or.inl out
    · exact Or.inr (Or.inr (sent due))
    · exact Or.inr (Or.inr (responded back))

end

/-- It ends with a rejection. -/
theorem Sound.rejects {v : PathView} (sound : Sound false v) (response : Prop) :
    Sound false { v with answering := none, response := response } := by
  refine ⟨nofun, nofun, ?_, nofun, sound.confirming, nofun⟩
  intro t asking established
  exact absurd (sound.established t asking established).1 (by decide)

end PathView

end NdnExt.Nan
