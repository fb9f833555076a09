import NdnExt.Nan.Listening
import NdnExt.Nan.Speaking

/-! What a peer hears of an engine that publishes, subscribes and tells. -/

namespace NdnExt.Nan

open NdnExt.Lib NdnExt.Lib.FirstHeard NdnExt.Lib.Run

/-- The run of a peer that subscribes to what `speaker` serves, has not heard of it before, and is
handed all of its frames, in order and among whatever else it is handed. -/
structure Listens (speaker : Transcript) (listener : NanEngine) (actions : List Action) : Prop where
  distinct : listener.cfg.nmi ≠ speaker.engine.cfg.nmi
  new : ∀ sid, (speaker.engine.cfg.nmi, sid) ∉ listener.discovered
  subscribed : ∀ sid ∈ servicesOf speaker.engine.functions, listener.hasFunctionFor sid = true
  handed : framesOf speaker.engine.cfg.nmi (actions.flatMap Action.inbound) = speaker.tx

/-- All frames are taken, every function is on the air, and whoever listens surfaces each service
once, with the info it was first advertised with, and the follow-ups that were queued for it. -/
structure PeerHears (sha256 : Bytes → Vector UInt8 32) (speaker : Transcript) : Prop where
  accepted : ∀ bytes ∈ speaker.tx, accepted bytes = true
  onAir : OnAir speaker.tx speaker.engine.functions
  discovered : ∀ listener actions, Listens speaker listener actions →
    discoveries speaker.engine.cfg.nmi
        ((Transcript.start listener).run sha256 actions).events =
      heard (infosOf speaker.engine.functions)
  toldAll : ∀ listener actions, Listens speaker listener actions →
    followupsOf speaker.engine.cfg.nmi
        ((Transcript.start listener).run sha256 actions).events =
      queuedFor listener.cfg.nmi speaker.queued

/-- A function whose service is advertised with no other info is discovered with its own. -/
theorem PeerHears.own_info {sha256 : Bytes → Vector UInt8 32} {speaker : Transcript}
    (hears : PeerHears sha256 speaker) {f : Function} (registered : f ∈ speaker.engine.functions)
    (advertised : f.controlType.isSome)
    (agree : ∀ ssi, (f.serviceId, ssi) ∈ infosOf speaker.engine.functions → ssi = f.ssi)
    {listener : NanEngine} {actions : List Action} (listens : Listens speaker listener actions) :
    (f.serviceId, f.ssi) ∈ discoveries speaker.engine.cfg.nmi
      ((Transcript.start listener).run sha256 actions).events := by
  rw [hears.discovered listener actions listens]
  rcases Option.isSome_iff_exists.mp advertised with ⟨controlType, is⟩
  have spoken : (f.serviceId, f.ssi) ∈ infosOf speaker.engine.functions :=
    List.mem_filterMap.mpr ⟨f, registered, by rw [is]; rfl⟩
  exact mem_heard_of_agree spoken agree

/-- What a listener surfaces of frames that say something it understands. -/
theorem Listens.hears {speaker : Transcript} {listener : NanEngine} {actions : List Action}
    (listens : Listens speaker listener actions) (sha256 : Bytes → Vector UInt8 32)
    {infos : List (ServiceId × Bytes)} {tells : Mac → List Bytes}
    (said : Said speaker.engine.cfg.nmi (servicesOf speaker.engine.functions) infos tells
      speaker.tx) :
    discoveries speaker.engine.cfg.nmi
        ((Transcript.start listener).run sha256 actions).events = heard infos ∧
      followupsOf speaker.engine.cfg.nmi
        ((Transcript.start listener).run sha256 actions).events = tells listener.cfg.nmi := by
  have unaware : Hears speaker.engine.cfg.nmi listener.cfg.nmi
      (servicesOf speaker.engine.functions) [] [] (Transcript.start listener).engine
      (Transcript.start listener).events :=
    ⟨rfl, listens.subscribed, rfl, rfl, fun sid => iff_of_false (listens.new sid) nofun⟩
  have understood : Understood speaker.engine.cfg.nmi (servicesOf speaker.engine.functions)
      (framesOf speaker.engine.cfg.nmi (actions.flatMap Action.inbound)) := by
    rw [listens.handed]
    exact fun bytes found => ⟨said.source bytes found, said.services bytes found⟩
  have hears := Transcript.hears_run sha256 unaware listens.distinct understood
  rw [listens.handed] at hears
  constructor
  · rw [hears.discoveries, said.announced, heard]
  · rw [hears.followups, said.told, List.nil_append]

/-- After a transmit window of a run in which every window fits its frames. -/
theorem peer_hears_what_is_published (sha256 : Bytes → Vector UInt8 32) (cfg : NanConfig)
    (rendezvous : Rendezvous) (actions : List Action) (now : Usec) (inbound : List RxFrame)
    (fits : Throughout (Transcript.step sha256) (.start (.withRendezvous cfg rendezvous))
      (actions ++ [.poll now inbound]) Transcript.FitsWindow)
    (window : ((Transcript.start (.withRendezvous cfg rendezvous)).run sha256 actions).InWindow
      now inbound) :
    PeerHears sha256 ((Transcript.start (.withRendezvous cfg rendezvous)).run sha256
      (actions ++ [.poll now inbound])) := by
  have last := fits actions (.poll now inbound) [] rfl
  have earlier : Throughout (Transcript.step sha256) (.start (.withRendezvous cfg rendezvous))
      actions Transcript.FitsWindow := by
    intro before input after same
    exact fits before input (after ++ [.poll now inbound]) (by rw [same]; simp)
  have speaks := (Transcript.speaks_start cfg rendezvous).run sha256 earlier
  rw [Transcript.run, List.foldl_append]
  rw [Transcript.run] at speaks window
  generalize actions.foldl (Transcript.step sha256) _ = t at last speaks window ⊢
  have polled := speaks.poll last
  have sent := polled.2 window
  rw [List.foldl_cons, List.foldl_nil]
  change PeerHears sha256 (t.poll now inbound)
  have speaks := polled.1
  generalize t.poll now inbound = t at speaks sent ⊢
  rcases speaks.said with ⟨infos, tells, said⟩
  rcases speaks.known with ⟨before, _, known, burst⟩
  rcases burst sent.1 with ⟨rfl, onAir⟩
  refine ⟨said.accepted, onAir, ?_, ?_⟩
  · intro listener actions listens
    rw [(listens.hears sha256 said).1, ← said.announced, known]
  · intro listener actions listens
    have told := speaks.told listener.cfg.nmi
    rw [sent.2] at told
    rw [(listens.hears sha256 said).2, ← said.told, ← told]
    exact (List.append_nil _).symm

/-! ### The service `org.ndn.test` -/

def testName : Bytes := [111, 114, 103, 46, 110, 100, 110, 46, 116, 101, 115, 116]

def testDigest (_ : Bytes) : Vector UInt8 32 :=
  #v[0x8b, 0x2d, 0xbb, 0xaf, 0x56, 0xce, 0xd1, 0x91, 0x45, 0x12, 0x9d, 0x4a, 0x5b, 0x3a, 0xfe, 0x07,
    0xc9, 0x8e, 0xcb, 0x61, 0xa4, 0x2a, 0x0d, 0x55, 0x60, 0xf8, 0xdc, 0xa2, 0x04, 0x16, 0xdb, 0xb3]

/-- An engine that wakes all the time. -/
def testEngine (last : UInt8) : NanEngine :=
  .withRendezvous (.new #v[2, 0, 0, 0, 0, last] 6 128) (alwaysOn 1000)

def deliver (now : Usec) (frames : List Bytes) : Action :=
  .poll now (frames.map fun bytes => ⟨bytes, none, now⟩)

/-- A peer that publishes the service itself. -/
def testPeer : Transcript :=
  (Transcript.start (testEngine 2)).run testDigest [.call (.publish testName [7]), .poll 0 []]

/-- It publishes, hears the peer, and tells it something. -/
def testTold : List Action :=
  [.call (.publish testName [1, 2, 3]), deliver 0 testPeer.tx, .call (.broadcastFollowup [9, 9])]

theorem peer_hears_test_service :
    PeerHears testDigest ((Transcript.start (testEngine 1)).run testDigest
        (testTold ++ [.poll 2000 []])) ∧
      ((Transcript.start (testEngine 1)).run testDigest (testTold ++ [.poll 2000 []])).queued =
        [(#v[2, 0, 0, 0, 0, 2], [9, 9])] := by
  refine ⟨peer_hears_what_is_published testDigest (.new #v[2, 0, 0, 0, 0, 1] 6 128)
    (alwaysOn 1000) testTold 2000 [] ?_ (by decide +kernel), by decide +kernel⟩
  rw [testTold, List.cons_append, throughout_cons, List.cons_append, throughout_cons,
    List.cons_append, throughout_cons, List.nil_append, throughout_cons]
  refine ⟨trivial, fun _ => ⟨?_, ?_, ?_⟩, trivial, fun _ => ⟨?_, ?_, ?_⟩, throughout_nil _ _⟩ <;>
    decide +kernel

/-- It publishes with an info of 256 bytes. -/
def testLong : Transcript :=
  (Transcript.start (testEngine 1)).run testDigest
    [.call (.publish testName (List.replicate 256 0)), .poll 0 []]

/-- An info of 256 bytes is sent under the length 0, and the peer discovers the service with an
empty info. -/
theorem long_info_is_lost : ¬ PeerHears testDigest testLong := by
  intro hears
  have listens : Listens testLong ((testEngine 2).subscribe testDigest testName true).1
      [deliver 0 testLong.tx] := by
    have subscribed : (servicesOf testLong.engine.functions).all
        ((testEngine 2).subscribe testDigest testName true).1.hasFunctionFor = true := by
      decide +kernel
    exact ⟨by decide +kernel, nofun, List.all_eq_true.mp subscribed, by decide +kernel⟩
  have discovered := hears.discovered _ _ listens
  revert discovered
  decide +kernel

end NdnExt.Nan
