import NdnExt.Nan.Transcript

/-! What an engine surfaces of the frames of one peer, whatever else it hears and does. -/

namespace NdnExt.Nan

open NdnExt.Lib NdnExt.Lib.FirstHeard NdnExt.Lib.Run NanEngine

/-- The services and infos of `peer` that were surfaced. -/
def discoveries (peer : Mac) (events : List NanEvent) : List (ServiceId × Bytes) :=
  events.filterMap fun
    | .discovered service from' ssi _ => if from' = peer then some (service, ssi) else none
    | _ => none

/-- The follow-ups of `peer` that were surfaced. -/
def followupsOf (peer : Mac) (events : List NanEvent) : List Bytes :=
  events.filterMap fun
    | .followup from' ssi _ => if from' = peer then some ssi else none
    | _ => none

theorem discoveries_append (peer : Mac) (left right : List NanEvent) :
    discoveries peer (left ++ right) = discoveries peer left ++ discoveries peer right :=
  List.filterMap_append

theorem followupsOf_append (peer : Mac) (left right : List NanEvent) :
    followupsOf peer (left ++ right) = followupsOf peer left ++ followupsOf peer right :=
  List.filterMap_append

theorem silent_of_aboutNdp (peer : Mac) {events : List NanEvent}
    (about : ∀ event ∈ events, event.aboutNdp = true) :
    discoveries peer events = [] ∧ followupsOf peer events = [] := by
  constructor
  · rw [discoveries, List.filterMap_eq_nil_iff]
    intro event found
    have path := about event found
    cases event <;> first | rfl | cases path
  · rw [followupsOf, List.filterMap_eq_nil_iff]
    intro event found
    have path := about event found
    cases event <;> first | rfl | cases path

/-- What an engine has made of a peer: `known` and `told` are what it surfaced, and it takes for
surfaced exactly what it did surface. -/
structure Hears (peer own : Mac) (services : List ServiceId) (known : List (ServiceId × Bytes))
    (told : List Bytes) (engine : NanEngine) (events : List NanEvent) : Prop where
  nmi : engine.cfg.nmi = own
  subscribed : ∀ sid ∈ services, engine.hasFunctionFor sid = true
  discoveries : discoveries peer events = known
  followups : followupsOf peer events = told
  discovered : ∀ sid, (peer, sid) ∈ engine.discovered ↔ sid ∈ known.map Prod.fst

variable {prior : List NanEvent}

namespace Hears

variable {peer own : Mac} {services : List ServiceId} {known : List (ServiceId × Bytes)}
  {told : List Bytes} {engine engine' : NanEngine} {events : List NanEvent}

/-- Steps that surface nothing of the peer. -/
theorem quiet {more : List NanEvent} (hears : Hears peer own services known told engine events)
    (cfg : engine'.cfg = engine.cfg) (functions : engine.functions ⊆ engine'.functions)
    (discovered : engine'.discovered = engine.discovered)
    (silent : Nan.discoveries peer more = [] ∧ followupsOf peer more = []) :
    Hears peer own services known told engine' (events ++ more) := by
  refine ⟨cfg ▸ hears.nmi, ?_, ?_, ?_, ?_⟩
  · intro sid mem
    have has := hears.subscribed sid mem
    rw [hasFunctionFor, List.any_eq_true] at has ⊢
    rcases has with ⟨f, registered, same⟩
    exact ⟨f, functions registered, same⟩
  · rw [discoveries_append, silent.1, List.append_nil, hears.discoveries]
  · rw [followupsOf_append, silent.2, List.append_nil, hears.followups]
  · rw [discovered]
    exact hears.discovered

section

variable {step : Step} (hears : Hears peer own services known told engine (prior ++ step.events))
include hears

theorem ofOnlyNdp {after : NanEngine × Step}
    (only : NanEngine.OnlyNdp (engine, step) after) :
    Hears peer own services known told after.1 (prior ++ after.2.events) := by
  rcases only with ⟨ndps, more, rfl, about⟩
  rw [← List.append_assoc]
  exact hears.quiet rfl (List.Subset.refl _) rfl (silent_of_aboutNdp peer about)

theorem descriptor_other {rx : RxFrame}
    (stranger : rxAddr2 rx.bytes ≠ peer) (sda : ServiceDescriptor) :
    Hears peer own services known told (handleDescriptor rx (engine, step) sda).1
      (prior ++ (handleDescriptor rx (engine, step) sda).2.events) := by
  rcases engine.notePeer_eq (rxAddr2 rx.bytes) sda.instanceId with ⟨peers, noted⟩
  have same : Hears peer own services known told { engine with peers := peers }
      (prior ++ step.events) :=
    ⟨hears.nmi, hears.subscribed, hears.discoveries, hears.followups, hears.discovered⟩
  have advertised : Hears peer own services known told
      { engine with
        peers := peers
        discovered := engine.discovered ++ [(rxAddr2 rx.bytes, sda.serviceId)] }
      (prior ++ (step.events ++
        [.discovered sda.serviceId (rxAddr2 rx.bytes) sda.serviceInfo rx.rssiDbm])) := by
    refine ⟨hears.nmi, hears.subscribed, ?_, ?_, ?_⟩
    · rw [← List.append_assoc, discoveries_append, hears.discoveries]
      simp [Nan.discoveries, stranger]
    · rw [← List.append_assoc, followupsOf_append, hears.followups]
      simp [Nan.followupsOf]
    · intro sid
      rw [← hears.discovered sid]
      simp [Ne.symm stranger]
  rw [handleDescriptor]
  rw [noted]
  cases sda.control.controlType with
  | publish =>
    dsimp only
    split
    · split
      · exact same
      · exact advertised
    · exact hears
  | subscribe =>
    dsimp only
    split
    · split
      · exact same
      · exact advertised
    · exact hears
  | followUp =>
    dsimp only
    split
    · rw [← List.append_assoc]
      refine hears.quiet rfl (List.Subset.refl _) rfl ⟨rfl, ?_⟩
      simp [Nan.followupsOf, stranger]
    · exact hears

/-- The one Discovered for a service comes with its first announcement. -/
theorem announcement (rx : RxFrame)
    (sda : ServiceDescriptor) (peers : List (Mac × UInt8)) :
    let state := if (peer, sda.serviceId) ∈ engine.discovered then
        ({ engine with peers := peers }, step)
      else
        ({ engine with
            peers := peers
            discovered := engine.discovered ++ [(peer, sda.serviceId)] },
          { step with
            events := step.events ++
              [.discovered sda.serviceId peer sda.serviceInfo rx.rssiDbm] })
    Hears peer own services (hear known (sda.serviceId, sda.serviceInfo)) told state.1
      (prior ++ state.2.events) := by
  intro state
  by_cases already : (peer, sda.serviceId) ∈ engine.discovered
  · have kept := (hears.discovered sda.serviceId).mp already
    simp only [state, if_pos already]
    rw [hear_of_known kept]
    exact ⟨hears.nmi, hears.subscribed, hears.discoveries, hears.followups, hears.discovered⟩
  · have new : sda.serviceId ∉ known.map Prod.fst := fun kept =>
      already ((hears.discovered sda.serviceId).mpr kept)
    simp only [state, if_neg already]
    refine ⟨hears.nmi, hears.subscribed, ?_, ?_, ?_⟩
    · rw [← List.append_assoc, discoveries_append, hears.discoveries, hear_of_new new]
      simp [Nan.discoveries]
    · rw [← List.append_assoc, followupsOf_append, hears.followups]
      simp [Nan.followupsOf]
    · intro sid
      rw [List.mem_append, hears.discovered sid, mem_keys_hear]
      simp

/-- One descriptor of the peer's: an announcement, or a follow-up that is for this engine or not. -/
theorem descriptor {rx : RxFrame} {sda : ServiceDescriptor}
    (source : rxAddr2 rx.bytes = peer) (mem : sda.serviceId ∈ services) :
    Hears peer own services ((Nan.announcement sda).toList.foldl hear known)
      (told ++ if rxAddr1 rx.bytes = some own then (followupInfo sda).toList else [])
      (handleDescriptor rx (engine, step) sda).1
      (prior ++ (handleDescriptor rx (engine, step) sda).2.events) := by
  have has := hears.subscribed _ mem
  rcases engine.notePeer_eq peer sda.instanceId with ⟨peers, noted⟩
  have announced := hears.announcement rx sda peers
  rw [handleDescriptor]
  rw [source, noted, has, hears.nmi]
  cases kind : sda.control.controlType with
  | publish =>
    simp only [Nan.announcement, followupInfo, kind, if_true]
    simpa using announced
  | subscribe =>
    simp only [Nan.announcement, followupInfo, kind, if_true]
    simpa using announced
  | followUp =>
    simp only [Nan.announcement, followupInfo, kind, if_true, and_true]
    by_cases mine : rxAddr1 rx.bytes = some own
    · simp only [if_pos mine]
      refine ⟨hears.nmi, hears.subscribed, ?_, ?_, hears.discovered⟩
      · rw [← List.append_assoc, discoveries_append, hears.discoveries]
        simp [Nan.discoveries]
      · rw [← List.append_assoc, followupsOf_append, hears.followups]
        simp [Nan.followupsOf]
    · simp only [if_neg mine]
      simpa using hears

theorem sdf_other {rx : RxFrame}
    (stranger : rxAddr2 rx.bytes ≠ peer) (sdas : List ServiceDescriptor) :
    Hears peer own services known told
      (sdas.foldl (handleDescriptor rx) (engine, step)).1
      (prior ++ (sdas.foldl (handleDescriptor rx) (engine, step)).2.events) := by
  induction sdas generalizing engine step with
  | nil => exact hears
  | cons sda sdas ih => exact ih (hears.descriptor_other stranger sda)

theorem sdf {rx : RxFrame} {sdas : List ServiceDescriptor}
    (source : rxAddr2 rx.bytes = peer) (mem : ∀ sda ∈ sdas, sda.serviceId ∈ services) :
    Hears peer own services ((sdas.filterMap Nan.announcement).foldl hear known)
      (told ++ if rxAddr1 rx.bytes = some own then sdas.filterMap followupInfo else [])
      (sdas.foldl (handleDescriptor rx) (engine, step)).1
      (prior ++ (sdas.foldl (handleDescriptor rx) (engine, step)).2.events) := by
  induction sdas generalizing engine step known told with
  | nil => simpa using hears
  | cons sda sdas ih =>
    rw [List.forall_mem_cons] at mem
    have first := hears.descriptor source mem.1
    have all := ih first mem.2
    have split : ∀ {α : Type} (f : ServiceDescriptor → Option α),
        (sda :: sdas).filterMap f = (f sda).toList ++ sdas.filterMap f := by
      intro α f
      cases value : f sda <;> simp [value]
    rw [split, split, List.foldl_append]
    rw [List.append_assoc] at all
    by_cases mine : rxAddr1 rx.bytes = some own
    · simp only [if_pos mine] at all ⊢
      exact all
    · simp only [if_neg mine] at all ⊢
      exact all

theorem rx_other {rx : RxFrame}
    (stranger : rxAddr2 rx.bytes ≠ peer) :
    Hears peer own services known told (handleRx (engine, step) rx).1
      (prior ++ (handleRx (engine, step) rx).2.events) := by
  rw [handleRx]
  split
  · exact hears
  · split
    · exact hears
    · split
      · rcases engine.handleBeacon_eq rx with ⟨_, _, _, _, _, same, _⟩
        rw [same]
        exact ⟨hears.nmi, hears.subscribed, hears.discoveries, hears.followups, hears.discovered⟩
      · exact hears.sdf_other stranger _
      · exact hears.ofOnlyNdp (engine.handleNaf_only ..)
      · exact hears

/-- A frame of the peer is heard as what it announces and what it tells this engine. -/
theorem rx {rx : RxFrame}
    (distinct : own ≠ peer) (source : ComesFrom peer rx.bytes)
    (mem : ∀ sda ∈ spoken rx.bytes, sda.serviceId ∈ services) :
    Hears peer own services ((announced rx.bytes).foldl hear known)
      (told ++ Nan.told own rx.bytes) (handleRx (engine, step) rx).1
      (prior ++ (handleRx (engine, step) rx).2.events) := by
  rcases source with ⟨source, frame, classified, header⟩
  have other : ¬ frame.header.addr2 = engine.cfg.nmi := by
    rw [header, hears.nmi]
    exact distinct.symm
  have unspoken : spoken rx.bytes = [] →
      Hears peer own services ((announced rx.bytes).foldl hear known)
        (told ++ Nan.told own rx.bytes) engine (prior ++ step.events) := by
    intro silent
    simpa [announced, Nan.told, silent] using hears
  rw [handleRx, classified]
  dsimp only
  rw [if_neg other]
  rcases frame with ⟨header', kind, attributes⟩
  cases kind with
  | beacon =>
    have silent : spoken rx.bytes = [] := by rw [spoken, classified]
    have hears := unspoken silent
    rcases engine.handleBeacon_eq rx with ⟨_, _, _, _, _, same, _⟩
    rw [same]
    exact ⟨hears.nmi, hears.subscribed, hears.discoveries, hears.followups, hears.discovered⟩
  | action =>
    have carried : spoken rx.bytes = descriptors attributes := by
      rw [spoken, classified]
    rw [announced, Nan.told, carried]
    rw [carried] at mem
    exact hears.sdf source mem
  | naf subtype =>
    have silent : spoken rx.bytes = [] := by rw [spoken, classified]
    exact (unspoken silent).ofOnlyNdp (engine.handleNaf_only ..)
  | other =>
    have silent : spoken rx.bytes = [] := by rw [spoken, classified]
    exact unspoken silent

end

end Hears

/-- The frames of `peer` among those handed in. -/
def framesOf (peer : Mac) (inbound : List RxFrame) : List Bytes :=
  (inbound.filter fun rx => rxAddr2 rx.bytes == peer).map RxFrame.bytes

/-- The listener takes what comes from the peer, and it knows the services that are spoken of. -/
def Understood (peer : Mac) (services : List ServiceId) (frames : List Bytes) : Prop :=
  ∀ bytes ∈ frames, ComesFrom peer bytes ∧ ∀ sda ∈ spoken bytes, sda.serviceId ∈ services

namespace Hears

variable {peer own : Mac} {services : List ServiceId} {known : List (ServiceId × Bytes)}
  {told : List Bytes} {engine : NanEngine}

theorem foldl_rx {inbound : List RxFrame} {step : Step}
    (hears : Hears peer own services known told engine (prior ++ step.events))
    (distinct : own ≠ peer) (understood : Understood peer services (framesOf peer inbound)) :
    Hears peer own services (((framesOf peer inbound).flatMap announced).foldl hear known)
      (told ++ (framesOf peer inbound).flatMap (Nan.told own))
      (inbound.foldl handleRx (engine, step)).1
      (prior ++ (inbound.foldl handleRx (engine, step)).2.events) := by
  induction inbound generalizing engine step known told with
  | nil => simpa [framesOf] using hears
  | cons rx inbound ih =>
    rw [List.foldl_cons]
    by_cases source : rxAddr2 rx.bytes = peer
    · have split : framesOf peer (rx :: inbound) = rx.bytes :: framesOf peer inbound := by
        simp [framesOf, source]
      rw [split] at understood ⊢
      rw [Understood, List.forall_mem_cons] at understood
      rw [List.flatMap_cons, List.flatMap_cons, List.foldl_append, ← List.append_assoc]
      exact ih (hears.rx distinct understood.1.1 understood.1.2) understood.2
    · have split : framesOf peer (rx :: inbound) = framesOf peer inbound := by
        simp [framesOf, source]
      rw [split] at understood ⊢
      exact ih (hears.rx_other source) understood

end Hears

/-! ### Runs of the listener -/

def Action.inbound : Action → List RxFrame
  | .call _ => []
  | .poll _ inbound => inbound

namespace Transcript

variable {peer own : Mac} {services : List ServiceId} {known : List (ServiceId × Bytes)}
  {told : List Bytes}

variable {t : Transcript}

theorem hears_call (sha256 : Bytes → Vector UInt8 32)
    (hears : Hears peer own services known told t.engine t.events) (call : Call) :
    Hears peer own services known told (t.call sha256 call).engine
      (t.call sha256 call).events := by
  have quiet := @Hears.quiet _ _ _ _ _ _ (t.call sha256 call).engine _ [] hears
  rw [List.append_nil] at quiet
  have events : (t.call sha256 call).events = t.events := by cases call <;> rfl
  rw [events]
  cases call with
  | publish name ssi => exact quiet rfl (List.subset_append_left _ _) rfl ⟨rfl, rfl⟩
  | subscribe name active => exact quiet rfl (List.subset_append_left _ _) rfl ⟨rfl, rfl⟩
  | broadcastFollowup ssi => exact quiet rfl (List.Subset.refl _) rfl ⟨rfl, rfl⟩
  | requestNdp peer =>
    simp only [Transcript.call, requestNdp] at quiet ⊢
    split
    · exact hears
    · exact ⟨hears.nmi, hears.subscribed, hears.discoveries, hears.followups, hears.discovered⟩
  | terminateNdp peer ndpId =>
    simp only [Transcript.call, terminateNdp] at quiet ⊢
    split
    · exact ⟨hears.nmi, hears.subscribed, hears.discoveries, hears.followups, hears.discovered⟩
    · exact hears

theorem hears_poll {now : Usec} {inbound : List RxFrame}
    (hears : Hears peer own services known told t.engine t.events) (distinct : own ≠ peer)
    (understood : Understood peer services (framesOf peer inbound)) :
    Hears peer own services (((framesOf peer inbound).flatMap announced).foldl hear known)
      (told ++ (framesOf peer inbound).flatMap (Nan.told own)) (t.poll now inbound).engine
      (t.poll now inbound).events := by
  have started : ∀ step : Step, step.events = [] →
      let state := inbound.foldl NanEngine.handleRx ({ (if t.engine.baseInitialized then t.engine
        else { t.engine with baseTimeUsec := now, baseInitialized := true }) with
          channelSet := true }, step)
      Hears peer own services (((framesOf peer inbound).flatMap announced).foldl hear known)
        (told ++ (framesOf peer inbound).flatMap (Nan.told own)) state.1
        (t.events ++ state.2.events) := by
    intro step silent
    refine Hears.foldl_rx ?_ distinct understood
    rw [silent, List.append_nil]
    split <;>
      exact ⟨hears.nmi, hears.subscribed, hears.discoveries, hears.followups, hears.discovered⟩
  have received : Hears peer own services
      (((framesOf peer inbound).flatMap announced).foldl hear known)
      (told ++ (framesOf peer inbound).flatMap (Nan.told own)) (t.engine.receive now inbound).1
      (t.events ++ (t.engine.receive now inbound).2.events) := started _ rfl
  rw [Transcript.poll, NanEngine.poll]
  generalize t.engine.receive now inbound = state at received ⊢
  rcases state with ⟨engine, step⟩
  dsimp only at received ⊢
  split
  · rcases engine.transmit_eq now step with ⟨ndps, seq, burst, queue, paths, more, run, _, _, _, about⟩
    rw [run]
    rw [← List.append_assoc]
    exact received.quiet rfl (List.Subset.refl _) rfl (silent_of_aboutNdp peer about)
  · exact received

theorem hears_run (sha256 : Bytes → Vector UInt8 32) {actions : List Action}
    (hears : Hears peer own services known told t.engine t.events) (distinct : own ≠ peer)
    (understood : Understood peer services (framesOf peer (actions.flatMap Action.inbound))) :
    Hears peer own services
      (((framesOf peer (actions.flatMap Action.inbound)).flatMap announced).foldl hear known)
      (told ++ (framesOf peer (actions.flatMap Action.inbound)).flatMap (Nan.told own))
      (t.run sha256 actions).engine (t.run sha256 actions).events := by
  induction actions generalizing t known told with
  | nil =>
    rw [Transcript.run]
    simpa [framesOf] using hears
  | cons action actions ih =>
    have split : framesOf peer ((action :: actions).flatMap Action.inbound) =
        framesOf peer action.inbound ++ framesOf peer (actions.flatMap Action.inbound) := by
      simp [framesOf]
    rw [split] at understood ⊢
    have first : Understood peer services (framesOf peer action.inbound) := fun bytes found =>
      understood bytes (List.mem_append_left _ found)
    have later : Understood peer services
        (framesOf peer (actions.flatMap Action.inbound)) := fun bytes found =>
      understood bytes (List.mem_append_right _ found)
    rw [List.flatMap_append, List.flatMap_append, List.foldl_append, ← List.append_assoc]
    rw [Transcript.run, List.foldl_cons]
    refine ih ?_ later
    cases action with
    | call call => simpa [framesOf, Action.inbound, Transcript.step] using hears_call sha256 hears call
    | poll now inbound => exact hears_poll hears distinct first

end Transcript

end NdnExt.Nan
