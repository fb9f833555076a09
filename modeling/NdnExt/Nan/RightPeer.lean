import NdnExt.Nan.Network

/-! An established data path names the right peer, however its frames travel. -/

namespace NdnExt.Nan

open NdnExt.Lib NdnExt.Lib.Keyed NdnExt.Lib.Run NanEngine

variable {ι : Type}

/-- The message went out from an engine. -/
def Spoke (history : List (Occurrence ι)) (sender : ι) (m : PathMessage) : Prop :=
  ∃ now bytes, .sent sender now bytes ∈ history ∧ pathMessage bytes = some m

/-- An engine asked another for a path of the id. -/
def Asked (cfg : ι → NanConfig) (history : List (Occurrence ι)) (i j : ι) (ndpId : UInt8) : Prop :=
  ∃ m, Spoke history i m ∧ m.subtype = .dataPathRequest ∧ m.dest = some (cfg j).nmi ∧
    m.ndpe.ndpId = ndpId

/-- An engine accepted what another asked of it. -/
def Accepts (cfg : ι → NanConfig) (history : List (Occurrence ι)) (i j : ι) (ndpId : UInt8) :
    Prop :=
  Asked cfg history i j ndpId ∧ ∃ m, Spoke history j m ∧ m.subtype = .dataPathResponse ∧
    m.ndpe.status = .accepted ∧ m.dest = some (cfg i).nmi ∧ m.ndpe.ndpId = ndpId

/-- An engine reported a path that it had asked for. -/
def Initiated (history : List (Occurrence ι)) (i : ι) (peer : Mac) (ndpId : UInt8) : Prop :=
  ∃ ndi iid, .surfaced i (.ndpEstablished peer ndpId .initiator ndi iid) ∈ history

/-- What a report of an established path says is so, given what came before it. -/
structure Proper (cfg : ι → NanConfig) (before : List (Occurrence ι)) (i : ι) (peer : Mac)
    (ndpId : UInt8) (role : NdpRole) (ndi : Mac) (iid : Vector UInt8 8) (j : ι) : Prop where
  peer : (cfg j).nmi = peer
  ndi : ndi = (cfg j).ndi
  iid : iid = eui64Iid (cfg j).ndi
  responder : role = .responder → Initiated before j (cfg i).nmi ndpId
  initiator : role = .initiator → Accepts cfg before i j ndpId

/-- Every report of an established path is proper and names the identity of its peer, and no engine
holds a path twice. -/
structure RightPeer (cfg : ι → NanConfig) (net : Network ι) : Prop where
  proper : ∀ before i peer ndpId role ndi iid after,
    net.history = before ++ .surfaced i (.ndpEstablished peer ndpId role ndi iid) :: after →
      ∃ j, Proper cfg before i peer ndpId role ndi iid j ∧
        (ndi, iid) = (net.engine j).localNdpIdentity
  distinct : ∀ i, Distinct NdpSession.key (net.engine i).ndps

/-! ### What is said and held -/

/-- The messages of an engine are about itself and about what happened. -/
structure Honest (cfg : ι → NanConfig) (history : List (Occurrence ι)) (j : ι) (m : PathMessage) :
    Prop where
  source : m.source = (cfg j).nmi
  request : m.subtype = .dataPathRequest →
    m.ndpe.initiatorNdi = (cfg j).ndi ∧ m.ndpe.ipv6Iid = some (eui64Iid (cfg j).ndi)
  accept : m.subtype = .dataPathResponse → m.ndpe.status = .accepted →
    m.ndpe.responderNdi = some (cfg j).ndi ∧ m.ndpe.ipv6Iid = some (eui64Iid (cfg j).ndi) ∧
      ∃ i, m.dest = some (cfg i).nmi ∧ Asked cfg history i j m.ndpe.ndpId
  confirm : m.subtype = .dataPathConfirm →
    ∃ peer, m.dest = some peer ∧ Initiated history j peer m.ndpe.ndpId

/-- A session's peer is who it says, and a confirm is only due for what was reported. -/
structure Justified (cfg : ι → NanConfig) (history : List (Occurrence ι)) (i : ι)
    (s : NdpSession) : Prop where
  responder : s.role = .responder → ∃ j, s.peer = (cfg j).nmi ∧ s.peerNdi = some (cfg j).ndi ∧
    s.peerIid = some (eui64Iid (cfg j).ndi) ∧ Asked cfg history j i s.ndpId
  response : s.pendingTx = some .dataPathResponse → s.role = .responder
  confirm : s.pendingTx = some .dataPathConfirm → Initiated history i s.peer s.ndpId

section

variable {cfg : ι → NanConfig} {history more : List (Occurrence ι)} {i j : ι} {m : PathMessage}
  {ndpId : UInt8} {peer : Mac} {s : NdpSession}

theorem Spoke.append (spoke : Spoke history j m) (more : List (Occurrence ι)) :
    Spoke (history ++ more) j m := by
  rcases spoke with ⟨now, bytes, found, said⟩
  exact ⟨now, bytes, List.mem_append_left more found, said⟩

theorem Asked.append (asked : Asked cfg history i j ndpId) (more : List (Occurrence ι)) :
    Asked cfg (history ++ more) i j ndpId := by
  rcases asked with ⟨m, spoke, about⟩
  exact ⟨m, spoke.append more, about⟩

theorem Initiated.append (initiated : Initiated history i peer ndpId)
    (more : List (Occurrence ι)) : Initiated (history ++ more) i peer ndpId := by
  rcases initiated with ⟨ndi, iid, found⟩
  exact ⟨ndi, iid, List.mem_append_left more found⟩

theorem Honest.append (honest : Honest cfg history j m) (more : List (Occurrence ι)) :
    Honest cfg (history ++ more) j m := by
  refine ⟨honest.source, honest.request, ?_, ?_⟩
  · intro kind status
    rcases honest.accept kind status with ⟨ndi, iid, i, dest, asked⟩
    exact ⟨ndi, iid, i, dest, asked.append more⟩
  · intro kind
    rcases honest.confirm kind with ⟨peer, dest, initiated⟩
    exact ⟨peer, dest, initiated.append more⟩

theorem Justified.append (justified : Justified cfg history i s) (more : List (Occurrence ι)) :
    Justified cfg (history ++ more) i s := by
  refine ⟨?_, justified.response, fun due => (justified.confirm due).append more⟩
  intro role
  rcases justified.responder role with ⟨j, peer, ndi, iid, asked⟩
  exact ⟨j, peer, ndi, iid, asked.append more⟩

end

/-- An engine all of whose paths are justified. -/
structure SoundEngine (cfg : ι → NanConfig) (history : List (Occurrence ι)) (i : ι)
    (engine : NanEngine) : Prop where
  config : engine.cfg = cfg i
  distinct : Distinct NdpSession.key engine.ndps
  justified : ∀ k s, engine.path k = some s → Justified cfg history i s

structure SoundHistory (cfg : ι → NanConfig) (history : List (Occurrence ι)) : Prop where
  honest : ∀ j now bytes m, .sent j now bytes ∈ history → pathMessage bytes = some m →
    ComesFrom (cfg j).nmi bytes ∧ Honest cfg history j m
  proper : ∀ before i peer ndpId role ndi iid after,
    history = before ++ .surfaced i (.ndpEstablished peer ndpId role ndi iid) :: after →
      ∃ j, Proper cfg before i peer ndpId role ndi iid j

section

variable {cfg : ι → NanConfig} {history : List (Occurrence ι)} {i j : ι}

variable {engine : NanEngine} {s : NdpSession} {held : Option NdpSession} {m : PathMessage}

theorem SoundEngine.append (sound : SoundEngine cfg history i engine)
    (more : List (Occurrence ι)) : SoundEngine cfg (history ++ more) i engine :=
  ⟨sound.config, sound.distinct, fun k s held => (sound.justified k s held).append more⟩

/-- One more occurrence, be it a report or a frame. -/
theorem SoundHistory.snoc (sound : SoundHistory cfg history) {last : Occurrence ι}
    (honest : ∀ j now bytes m, last = .sent j now bytes → pathMessage bytes = some m →
      ComesFrom (cfg j).nmi bytes ∧ Honest cfg history j m)
    (proper : ∀ i peer ndpId role ndi iid,
      last = .surfaced i (.ndpEstablished peer ndpId role ndi iid) →
        ∃ j, Proper cfg history i peer ndpId role ndi iid j) :
    SoundHistory cfg (history ++ [last]) := by
  constructor
  · intro j now bytes m found said
    rcases List.mem_append.mp found with earlier | new
    · rcases sound.honest j now bytes m earlier said with ⟨comes, honest⟩
      exact ⟨comes, honest.append [last]⟩
    · rcases honest j now bytes m (List.mem_singleton.mp new).symm said with ⟨comes, honest⟩
      exact ⟨comes, honest.append [last]⟩
  · intro before i peer ndpId role ndi iid after split
    rcases List.eq_nil_or_concat after with rfl | ⟨init, tail, rfl⟩
    · rcases List.append_inj' split rfl with ⟨rfl, same⟩
      rw [List.cons.injEq] at same
      exact proper i peer ndpId role ndi iid same.1
    · rw [List.concat_eq_append, ← List.cons_append, ← List.append_assoc] at split
      rcases List.append_inj' split rfl with ⟨earlier, _⟩
      exact sound.proper before i peer ndpId role ndi iid init earlier

theorem SoundHistory.silent (sound : SoundHistory cfg history) (i : ι) {events : List NanEvent}
    (quiet : ∀ event ∈ events, ∀ peer ndpId role ndi iid,
      event ≠ .ndpEstablished peer ndpId role ndi iid) :
    SoundHistory cfg (history ++ events.map (.surfaced i)) := by
  induction events generalizing history with
  | nil => simpa using sound
  | cons event events ih =>
    rw [List.forall_mem_cons] at quiet
    have first : SoundHistory cfg (history ++ [.surfaced i event]) := by
      apply sound.snoc
      · intro j now bytes m same
        cases same
      · intro i' peer ndpId role ndi iid same
        rw [Occurrence.surfaced.injEq] at same
        exact absurd same.2 (quiet.1 peer ndpId role ndi iid)
    have rest := ih first quiet.2
    rwa [List.append_assoc] at rest

theorem SoundHistory.reported (sound : SoundHistory cfg history) {event : NanEvent}
    (proper : ∀ peer ndpId role ndi iid, event = .ndpEstablished peer ndpId role ndi iid →
      ∃ j, Proper cfg history i peer ndpId role ndi iid j) :
    SoundHistory cfg (history ++ [event].map (.surfaced i)) := by
  apply sound.snoc
  · intro j now bytes m same
    cases same
  · intro i' peer ndpId role ndi iid same
    rw [Occurrence.surfaced.injEq] at same
    rcases same with ⟨rfl, rfl⟩
    exact proper peer ndpId role ndi iid rfl

theorem Justified.of_confirmed (justified : Justified cfg history i s)
    (state : NdpState) : Justified cfg history i { s with state := state } :=
  ⟨justified.responder, justified.response, justified.confirm⟩

def NanEvent.establishes : NanEvent → Bool
  | .ndpEstablished .. => true
  | _ => false

/-- What is left of the session a message is about is justified, and its report is proper. -/
def ReactsSoundly (cfg : ι → NanConfig) (history : List (Occurrence ι)) (i : ι)
    (reaction : Option NdpSession × List NanEvent) : Prop :=
  SoundHistory cfg (history ++ reaction.2.map (.surfaced i)) ∧
    ∀ s, reaction.1 = some s → Justified cfg (history ++ reaction.2.map (.surfaced i)) i s

section

variable (sound : SoundHistory cfg history)
include sound

theorem ReactsSoundly.still {result : Option NdpSession × List NanEvent}
    (reacts : result = (held, [])) (justified : ∀ s, held = some s → Justified cfg history i s) :
    ReactsSoundly cfg history i result := by
  rw [reacts, ReactsSoundly, List.map_nil, List.append_nil]
  exact ⟨sound, justified⟩

theorem ReactsSoundly.unheld {result : Option NdpSession × List NanEvent}
    (reacts : result = (none, [])) : ReactsSoundly cfg history i result := by
  apply ReactsSoundly.still sound reacts
  intro s same
  cases same

theorem ReactsSoundly.failed {result : Option NdpSession × List NanEvent} {event : NanEvent}
    (reacts : result = (none, [event])) (quiet : event.establishes = false) :
    ReactsSoundly cfg history i result := by
  rw [reacts]
  refine ⟨sound.reported ?_, ?_⟩
  · intro peer ndpId role ndi iid same
    rw [same] at quiet
    cases quiet
  · intro s same
    cases same

variable (honest : Honest cfg history j m) (dest : m.dest = some (cfg i).nmi)
  (justified : ∀ s, held = some s → Justified cfg history i s)
include honest dest justified

theorem request_sound (kind : m.subtype = .dataPathRequest) (spoke : Spoke history j m) :
    ReactsSoundly cfg history i (reaction m held) := by
  cases held with
  | none =>
    by_cases type : m.ndpe.ndpType = .request
    · have reacts : reaction m none = (some (responderFor m.source m.ndpe), []) := by
        simp [reaction, kind, type]
      apply ReactsSoundly.still sound reacts
      intro s same
      cases same
      refine ⟨?_, fun _ => rfl, by intro impossible; cases impossible⟩
      intro _
      have identity := honest.request kind
      refine ⟨j, honest.source, ?_, identity.2, m, spoke, kind, dest, rfl⟩
      rw [← identity.1]
      rfl
    · exact ReactsSoundly.unheld sound (by simp [reaction, kind, type])
  | some s =>
    have known := justified s rfl
    by_cases waits : m.ndpe.ndpType = .request ∧ s.role = .responder ∧
        s.state = .awaitingConfirm
    · have reacts : reaction m (some s) =
          (some { s with pendingTx := some .dataPathResponse }, []) := by
        simp [reaction, kind, waits]
      apply ReactsSoundly.still sound reacts
      intro s' same
      cases same
      exact ⟨known.responder, fun _ => waits.2.1, by intro impossible; cases impossible⟩
    · refine ReactsSoundly.still sound ?_ justified
      simp only [reaction, kind]
      exact if_neg waits

variable (nmis : Function.Injective fun i => (cfg i).nmi)
  (about : ∀ s, held = some s → s.peer = m.source ∧ s.ndpId = m.ndpe.ndpId)
include nmis about

theorem response_sound (kind : m.subtype = .dataPathResponse) (spoke : Spoke history j m) :
    ReactsSoundly cfg history i (reaction m held) := by
  cases held with
  | none =>
    exact ReactsSoundly.unheld sound (by simp [reaction, kind])
  | some s =>
    by_cases other : s.role ≠ .initiator ∨ s.state ≠ .awaitingResponse
    · exact ReactsSoundly.still sound (by simp [reaction, kind, other]) justified
    · cases status : m.ndpe.status with
      | rejected =>
        have reacts : reaction m (some s) =
            (none, [.ndpFailed m.source s.ndpId (.rejected m.ndpe.reasonCode)]) := by
          simp [reaction, kind, other, status]
        exact ReactsSoundly.failed sound reacts rfl
      | continuing =>
        exact ReactsSoundly.still sound (by simp [reaction, kind, other, status]) justified
      | accepted =>
        rcases honest.accept kind status with ⟨ndi, iid, i', dest', asked⟩
        rw [dest, Option.some.injEq] at dest'
        cases nmis dest'
        rcases about s rfl with ⟨peer, ndpId⟩
        have role : s.role = .initiator := by
          by_contra differs
          exact other (Or.inl differs)
        have accepts : Accepts cfg history i j s.ndpId :=
          ⟨ndpId ▸ asked, m, spoke, kind, status, dest, ndpId.symm⟩
        have reacts : reaction m (some s) =
            (some { s with
                peerNdi := some (cfg j).ndi
                peerIid := some (eui64Iid (cfg j).ndi)
                state := .established
                pendingTx := some .dataPathConfirm },
              [.ndpEstablished m.source s.ndpId s.role (cfg j).ndi (eui64Iid (cfg j).ndi)]) := by
          simp [reaction, kind, other, status, ndi, iid]
        rw [reacts]
        refine ⟨sound.reported ?_, ?_⟩
        · intro peer' ndpId' role' ndi' iid' same
          cases same
          refine ⟨j, honest.source.symm, rfl, rfl, ?_, fun _ => accepts⟩
          intro responder
          rw [role] at responder
          cases responder
        · intro s' same
          cases same
          have asks : ¬ s.role = .responder := by
            rw [role]
            intro impossible
            cases impossible
          refine ⟨fun responder => absurd responder asks,
            (by intro impossible; cases impossible), ?_⟩
          intro _
          refine ⟨(cfg j).ndi, eui64Iid (cfg j).ndi, List.mem_append_right _ ?_⟩
          rw [role, peer]
          exact List.mem_singleton_self _

theorem confirm_sound (kind : m.subtype = .dataPathConfirm) :
    ReactsSoundly cfg history i (reaction m held) := by
  cases held with
  | none =>
    exact ReactsSoundly.unheld sound (by simp [reaction, kind])
  | some s =>
    by_cases other : s.role ≠ .responder ∨ s.state ≠ .awaitingConfirm
    · exact ReactsSoundly.still sound (by simp [reaction, kind, other]) justified
    · have known := justified s rfl
      have role : s.role = .responder := by
        by_contra differs
        exact other (Or.inl differs)
      rcases known.responder role with ⟨j', peer, ndi, iid, _⟩
      rcases about s rfl with ⟨source, ndpId⟩
      rw [source, honest.source] at peer
      cases nmis peer
      have reacts : reaction m (some s) =
          (some { s with state := .established },
            [.ndpEstablished m.source s.ndpId s.role (cfg j).ndi (eui64Iid (cfg j).ndi)]) := by
        simp [reaction, kind, other, ndi, iid]
      rw [reacts]
      refine ⟨sound.reported ?_, ?_⟩
      · intro peer' ndpId' role' ndi' iid' same
        cases same
        refine ⟨j, honest.source.symm, rfl, rfl, ?_, ?_⟩
        · intro _
          rcases honest.confirm kind with ⟨peer, dest', initiated⟩
          rw [dest, Option.some.injEq] at dest'
          rw [dest', ndpId]
          exact initiated
        · intro initiator
          rw [role] at initiator
          cases initiator
      · intro s' same
        cases same
        exact (known.append _).of_confirmed .established

/-- What a message from another engine does, whatever it is. -/
theorem reaction_sound (spoke : Spoke history j m) :
    ReactsSoundly cfg history i (reaction m held) := by
  cases kind : m.subtype with
  | dataPathRequest => exact request_sound sound honest dest justified kind spoke
  | dataPathResponse => exact response_sound sound honest dest justified nmis about kind spoke
  | dataPathConfirm => exact confirm_sound sound honest dest justified nmis about kind
  | dataPathTermination =>
    cases held with
    | none => exact ReactsSoundly.unheld sound (by simp [reaction, kind])
    | some s =>
      have reacts : reaction m (some s) = (none, [.ndpTerminated m.source s.ndpId]) := by
        simp [reaction, kind]
      exact ReactsSoundly.failed sound reacts rfl
  | rangingRequest | rangingResponse | rangingTermination | rangingReport
  | dataPathKeyInstallment | scheduleRequest | scheduleResponse | scheduleConfirm
  | scheduleUpdateNotification =>
    exact ReactsSoundly.still sound (by cases held <;> simp [reaction, kind]) justified

end

/-! ### Polls -/

/-- In the course of a poll: the engine and the history with what the poll has surfaced. -/
structure SoundSoFar (cfg : ι → NanConfig) (history : List (Occurrence ι)) (i : ι)
    (state : NanEngine × Step) : Prop where
  engine : SoundEngine cfg (history ++ state.2.events.map (.surfaced i)) i state.1
  history : SoundHistory cfg (history ++ state.2.events.map (.surfaced i))

theorem SoundSoFar.samePaths {before after : NanEngine × Step}
    (sound : SoundSoFar cfg history i before) (same : NanEngine.SamePaths before after) :
    SoundSoFar cfg history i after := by
  rcases same.events with ⟨more, events, quiet⟩
  have path : ∀ k, after.1.path k = before.1.path k := by
    intro k
    rw [path, same.ndps]
    rfl
  constructor
  · rw [events, List.map_append, ← List.append_assoc]
    refine ⟨same.cfg.trans sound.engine.config, ?_, ?_⟩
    · rw [same.ndps]
      exact sound.engine.distinct
    · intro k s held
      rw [path] at held
      exact (sound.engine.justified k s held).append _
  · rw [events, List.map_append, ← List.append_assoc]
    apply sound.history.silent
    intro event found peer ndpId role ndi iid established
    have about := quiet event found
    rw [established] at about
    cases about

theorem SoundSoFar.onPath (nmis : Function.Injective fun i => (cfg i).nmi)
    (ndis : Function.Injective fun i => (cfg i).ndi) {step : Step}
    (sound : SoundSoFar cfg history i (engine, step))
    (spoke : Spoke history j m) (honest : Honest cfg history j m)
    (foreign : (cfg j).nmi ≠ engine.cfg.nmi) (dest : m.dest = some engine.cfg.nmi) :
    SoundSoFar cfg history i (engine.onPath m step) := by
  have config : engine.cfg = cfg i := sound.engine.config
  have asks : m.subtype = .dataPathRequest → m.ndpe.initiatorNdi ≠ engine.cfg.ndi := by
    intro kind same
    rw [(honest.request kind).1, config] at same
    rw [ndis same, config] at foreign
    exact foreign rfl
  have reacts := onPath_reacts step sound.engine.distinct asks
  have about : ∀ s, engine.path (engine.keyOf m) = some s →
      s.peer = m.source ∧ s.ndpId = m.ndpe.ndpId := by
    intro s held
    have key : s.key = engine.keyOf m := key_entry held
    rw [NdpSession.key, keyOf, PathKey.mk.injEq] at key
    exact ⟨key.1, key.2.1⟩
  rw [config] at dest
  have reaction := reaction_sound sound.history (honest.append _) dest
    (sound.engine.justified (engine.keyOf m)) nmis about (spoke.append _)
  rcases reacts.engine with ⟨ndps, after⟩
  have events : (engine.onPath m step).2.events =
      step.events ++ (Nan.reaction m (engine.path (engine.keyOf m))).2 := by rw [reacts.step]
  constructor
  · rw [events, List.map_append, ← List.append_assoc]
    refine ⟨by rw [after]; exact config, reacts.paths.distinct, ?_⟩
    intro k s held
    have lookup := reacts.paths.lookup k
    rw [path, lookup] at held
    split at held
    · exact reaction.2 s held
    · exact (sound.engine.justified k s held).append _
  · rw [events, List.map_append, ← List.append_assoc]
    exact reaction.1

theorem SoundSoFar.handleRx (nmis : Function.Injective fun i => (cfg i).nmi)
    (ndis : Function.Injective fun i => (cfg i).ndi) (sound : SoundHistory cfg history)
    {state : NanEngine × Step} (soFar : SoundSoFar cfg history i state) {rx : RxFrame}
    (heard : ∃ j sentAt, .sent j sentAt rx.bytes ∈ history) :
    SoundSoFar cfg history i (handleRx state rx) := by
  rcases heard with ⟨j, sentAt, found⟩
  cases said : pathMessage rx.bytes with
  | none => exact soFar.samePaths (handleRx_silent said state)
  | some m =>
    rcases sound.honest j sentAt rx.bytes m found said with ⟨comes, honest⟩
    rcases state with ⟨engine, step⟩
    rw [handleRx_message said comes]
    split
    · next both => exact soFar.onPath nmis ndis ⟨sentAt, rx.bytes, found, said⟩ honest both.1 both.2
    · exact soFar

/-- What a session sends is honest. -/
theorem sends_honest {now : Usec}
    (sends : NanEngine.Sends (cfg i) now s m) (justified : Justified cfg history i s) :
    Honest cfg history i m := by
  rcases sends with ⟨armed, sub, ndpe, rearmed, pending, due, rfl⟩
  rcases rearm_eq rearmed with ⟨same, armedAs⟩
  have pendingOf : sub ≠ .dataPathRequest → s.pendingTx = some sub := by
    intro other
    rcases armedAs with kept | ⟨_, _, request⟩
    · rw [← kept, pending]
    · rw [request, Option.some.injEq] at pending
      exact absurd pending.symm other
  have ndpId : armed.ndpId = s.ndpId := by rw [same]
  refine ⟨rfl, ?_, ?_, ?_⟩
  · rintro rfl
    cases due
    exact ⟨rfl, rfl⟩
  · rintro rfl status
    rcases justified.responder (justified.response (pendingOf (by decide)))
      with ⟨j, peer, _, _, asked⟩
    cases accepts : (cfg i).ndpAutoAccept with
    | true =>
      simp only [ndpeFor, accepts, if_true, Option.some.injEq] at due
      subst due
      refine ⟨rfl, rfl, j, by rw [peer], ?_⟩
      rw [ndpId]
      exact asked
    | false =>
      simp only [ndpeFor, accepts] at due
      cases due
      cases status
  · rintro rfl
    cases due
    refine ⟨s.peer, rfl, ?_⟩
    rw [ndpId]
    exact justified.confirm (pendingOf (by decide))

theorem Justified.kept {config : NanConfig} {now : Usec} {kept : NdpSession}
    (justified : Justified cfg history i s)
    (turn : (ndpTurn config now s).kept = some kept) : Justified cfg history i kept := by
  rw [ndpTurn_kept turn]
  exact ⟨justified.responder, nofun, nofun⟩

/-- The frames of a window are honest, and so the history with them. -/
theorem SoundHistory.sentAll (sound : SoundHistory cfg history) (now : Usec)
    {frames : List TxFrame}
    (honest : ∀ frame ∈ frames, ∀ m, pathMessage frame.bytes = some m →
      ComesFrom (cfg i).nmi frame.bytes ∧ Honest cfg history i m) :
    SoundHistory cfg (history ++ frames.map fun frame => .sent i now frame.bytes) := by
  induction frames generalizing history with
  | nil => simpa using sound
  | cons frame frames ih =>
    rw [List.forall_mem_cons] at honest
    have first : SoundHistory cfg (history ++ [.sent i now frame.bytes]) := by
      apply sound.snoc
      · intro j now' bytes m same
        cases same
        exact honest.1 m
      · intro i' peer ndpId role ndi iid same
        cases same
    have rest := ih first fun frame found m said =>
      ⟨(honest.2 frame found m said).1, (honest.2 frame found m said).2.append _⟩
    rwa [List.append_assoc] at rest

theorem SoundSoFar.transmitted {now : Usec} {before after : NanEngine × Step}
    (sound : SoundSoFar cfg history i before) (sent : NanEngine.Transmitted now before after)
    (none : before.2.tx = []) :
    SoundEngine cfg (history ++ Network.occurrences i now after.2) i after.1 ∧
      SoundHistory cfg (history ++ Network.occurrences i now after.2) := by
  rcases sent.events with ⟨more, events, failures⟩
  rcases sent.said with ⟨frames, tx, said⟩
  rw [none, List.nil_append] at tx
  rw [sound.engine.config] at said
  have occurrences : history ++ Network.occurrences i now after.2 =
      history ++ before.2.events.map (.surfaced i) ++ more.map (.surfaced i) ++
        (frames.map TxFrame.mk).map fun frame => .sent i now frame.bytes := by
    rw [Network.occurrences, events, tx]
    simp
  rw [occurrences]
  constructor
  · refine ⟨sent.cfg.trans sound.engine.config, sent.distinct, ?_⟩
    intro k s held
    rw [sent.paths] at held
    rcases Option.bind_eq_some_iff.mp held with ⟨s', held', turn⟩
    exact (((sound.engine.justified k s' held').kept turn).append _).append _
  · apply SoundHistory.sentAll
    · apply sound.history.silent
      intro event found peer ndpId role ndi iid established
      rcases failures event found with ⟨_, _, failed⟩
      rw [established] at failed
      cases failed
    · intro frame found m message
      rcases List.mem_map.mp found with ⟨bytes, found', rfl⟩
      rcases said.only bytes found' m message with ⟨comes, s, mem, sends⟩
      have held := entry_of_mem sound.engine.distinct mem
      exact ⟨comes, (sends_honest sends (sound.engine.justified _ s held)).append _⟩

theorem SoundSoFar.receive (nmis : Function.Injective fun i => (cfg i).nmi)
    (ndis : Function.Injective fun i => (cfg i).ndi) (sound : SoundHistory cfg history)
    (soundEngine : SoundEngine cfg history i engine) (now : Usec)
    {inbound : List RxFrame}
    (heard : ∀ rx ∈ inbound, ∃ j sentAt, .sent j sentAt rx.bytes ∈ history) :
    SoundSoFar cfg history i (engine.receive now inbound) ∧
      (engine.receive now inbound).2.tx = [] := by
  refine ⟨?_, (engine.receive_keeps now inbound).tx⟩
  have received := @NanEngine.receive_induction
    (fun rest state => (∀ rx ∈ rest, ∃ j sentAt, .sent j sentAt rx.bytes ∈ history) ∧
      SoundSoFar cfg history i state) engine now inbound ?_ ?_
  · exact received.2
  · refine ⟨heard, ?_, ?_⟩
    · have same := soundEngine.append ([] : List (Occurrence ι))
      exact ⟨same.config, same.distinct, same.justified⟩
    · have quiet : history ++ (engine.started now).2.events.map (.surfaced i) = history :=
        List.append_nil _
      rwa [quiet]
  · intro rx rest state both
    rcases both with ⟨heard, soFar⟩
    rw [List.forall_mem_cons] at heard
    exact ⟨heard.2, soFar.handleRx nmis ndis sound heard.1⟩

theorem sound_poll (nmis : Function.Injective fun i => (cfg i).nmi)
    (ndis : Function.Injective fun i => (cfg i).ndi) (sound : SoundHistory cfg history)
    (soundEngine : SoundEngine cfg history i engine) (now : Usec)
    {inbound : List RxFrame}
    (heard : ∀ rx ∈ inbound, ∃ j sentAt, .sent j sentAt rx.bytes ∈ history) :
    SoundEngine cfg (history ++ Network.occurrences i now (engine.poll now inbound).2) i
        (engine.poll now inbound).1 ∧
      SoundHistory cfg (history ++ Network.occurrences i now (engine.poll now inbound).2) := by
  rcases SoundSoFar.receive nmis ndis sound soundEngine now heard with ⟨soFar, none⟩
  rw [poll]
  generalize engine.receive now inbound = state at soFar none
  rcases state with ⟨engine, step⟩
  dsimp only at soFar none ⊢
  split
  · exact soFar.transmitted (transmit_transmitted now step soFar.engine.distinct) none
  · have quiet : Network.occurrences i now { step with
        wakeAtUsec := engine.nextDwStartUsec now } = step.events.map (.surfaced i) := by
      rw [Network.occurrences, none]
      simp
    rw [quiet]
    exact ⟨soFar.engine, soFar.history⟩

theorem SoundEngine.called (sound : SoundEngine cfg history i engine)
    (sha256 : Bytes → Vector UInt8 32) (call : Call) :
    SoundEngine cfg history i (engine.called sha256 call) := by
  have config := (engine.called_cfg sha256 call).trans sound.config
  cases called_paths sha256 sound.distinct call with
  | same _ ndps _ =>
    refine ⟨config, by rw [ndps]; exact sound.distinct, ?_⟩
    intro k s held
    rw [path, ndps] at held
    exact sound.justified k s held
  | requested peer new added _ =>
    refine ⟨config, added.distinct, ?_⟩
    intro k s held
    rw [path, added.lookup] at held
    split at held
    · cases held
      refine ⟨?_, ?_, ?_⟩ <;> intro impossible <;> cases impossible
    · exact sound.justified k s held
  | terminated s' held' ended _ =>
    refine ⟨config, ended.distinct, ?_⟩
    intro k s held
    rw [path, ended.lookup] at held
    split at held
    · cases held
      refine ⟨(sound.justified _ s' held').responder, ?_, ?_⟩ <;> intro impossible <;>
        cases impossible
    · exact sound.justified k s held

end

/-! ### Runs -/

section

variable {cfg : ι → NanConfig} [DecidableEq ι] {net : Network ι}

structure SoundNetwork (cfg : ι → NanConfig) (net : Network ι) : Prop where
  engine : ∀ i, SoundEngine cfg net.history i (net.engine i)
  history : SoundHistory cfg net.history

omit [DecidableEq ι] in
theorem sound_start (cfg : ι → NanConfig) (rendezvous : ι → Rendezvous) :
    SoundNetwork cfg (Network.start cfg rendezvous) := by
  refine ⟨fun i => ⟨rfl, List.nodup_nil, fun k s held => by cases held⟩,
    fun j now bytes m found => absurd found List.not_mem_nil, ?_⟩
  intro before i peer ndpId role ndi iid after split
  cases before <;> cases split

theorem SoundNetwork.step (sound : SoundNetwork cfg net)
    (nmis : Function.Injective fun i => (cfg i).nmi)
    (ndis : Function.Injective fun i => (cfg i).ndi) (sha256 : Bytes → Vector UInt8 32)
    {action : NetworkAction ι} (heard : net.Heard action) :
    SoundNetwork cfg (net.step sha256 action) := by
  cases action with
  | call i call =>
    refine ⟨?_, sound.history⟩
    intro j
    by_cases same : j = i
    · subst same
      simp only [Network.step, Function.update_self]
      exact (sound.engine j).called sha256 call
    · simp only [Network.step, Function.update_of_ne same]
      exact sound.engine j
  | poll i now inbound =>
    have polled := sound_poll nmis ndis sound.history (sound.engine i) now heard
    refine ⟨?_, polled.2⟩
    intro j
    by_cases same : j = i
    · subst same
      simp only [Network.step, Function.update_self]
      exact polled.1
    · simp only [Network.step, Function.update_of_ne same]
      exact (sound.engine j).append _

/-- In every run in which only what was sent is heard. -/
theorem established_names_right_peer (cfg : ι → NanConfig) (rendezvous : ι → Rendezvous)
    (sha256 : Bytes → Vector UInt8 32) (nmis : Function.Injective fun i => (cfg i).nmi)
    (ndis : Function.Injective fun i => (cfg i).ndi) (actions : List (NetworkAction ι))
    (heard : Throughout (Network.step sha256) (.start cfg rendezvous) actions Network.Heard) :
    RightPeer cfg ((Network.start cfg rendezvous).run sha256 actions) := by
  have sound : SoundNetwork cfg ((Network.start cfg rendezvous).run sha256 actions) := by
    have start := sound_start cfg rendezvous
    generalize Network.start cfg rendezvous = net at start heard
    induction actions generalizing net with
    | nil => exact start
    | cons action actions ih =>
      rw [throughout_cons] at heard
      exact ih _ (start.step nmis ndis sha256 heard.1) heard.2
  refine ⟨?_, fun i => (sound.engine i).distinct⟩
  intro before i peer ndpId role ndi iid after split
  rcases sound.history.proper before i peer ndpId role ndi iid after split with ⟨j, proper⟩
  refine ⟨j, proper, ?_⟩
  rw [NanEngine.localNdpIdentity, (sound.engine j).config, proper.ndi, proper.iid]

end

/-! ### A request and its answer -/

def twoNetwork : Network Bool := .start twoEngines fun _ => alwaysOn 1000

def twoRequest : NetworkAction Bool := .call false (.requestNdp (twoEngines true).nmi)

def twoRun : List (NetworkAction Bool) :=
  twoRequest :: (twoNetwork.step (fun _ => .replicate 32 0) twoRequest).repeatedly
    (fun _ => .replicate 32 0) [(false, 0), (true, 1), (false, 2), (true, 3)]

theorem established_names_right_peer_two :
    RightPeer twoEngines (twoNetwork.run (fun _ => .replicate 32 0) twoRun) ∧
      (twoNetwork.run (fun _ => .replicate 32 0) twoRun).history.countP (fun
        | .surfaced _ (.ndpEstablished ..) => true
        | _ => false) = 2 := by
  refine ⟨established_names_right_peer twoEngines (fun _ => alwaysOn 1000) _ ?_ ?_ twoRun ?_,
    by decide +kernel⟩
  · intro first second
    cases first <;> cases second <;> decide
  · intro first second
    cases first <;> cases second <;> decide
  · rw [twoRun, throughout_cons]
    exact ⟨trivial, Network.heard_repeatedly _ _ _⟩

end NdnExt.Nan
