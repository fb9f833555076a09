import NdnExt.Nan.Transcript

/-! What an engine has said in the course of a run. -/

namespace NdnExt.Nan

open NdnExt.Lib NdnExt.Lib.FirstHeard NdnExt.Lib.Run

/-- What a sequence of frames of one engine amounts to. -/
structure Said (nmi : Mac) (services : List ServiceId) (infos : List (ServiceId × Bytes))
    (tells : Mac → List Bytes) (frames : List Bytes) : Prop where
  accepted : ∀ bytes ∈ frames, accepted bytes = true
  source : ∀ bytes ∈ frames, ComesFrom nmi bytes
  services : ∀ bytes ∈ frames, ∀ sda ∈ spoken bytes, sda.serviceId ∈ services
  announced : frames.flatMap announced = infos
  told : ∀ dest, frames.flatMap (told dest) = tells dest

namespace Said

variable {nmi : Mac} {services : List ServiceId} {infos more : List (ServiceId × Bytes)}
  {tells tells' : Mac → List Bytes} {frames frames' : List Bytes}

theorem nil : Said nmi services [] (fun _ => []) [] :=
  ⟨nofun, nofun, nofun, rfl, fun _ => rfl⟩

theorem append (left : Said nmi services infos tells frames)
    (right : Said nmi services more tells' frames') :
    Said nmi services (infos ++ more) (fun dest => tells dest ++ tells' dest)
      (frames ++ frames') := by
  constructor
  · intro bytes found
    exact (List.mem_append.mp found).elim (left.accepted bytes) (right.accepted bytes)
  · intro bytes found
    exact (List.mem_append.mp found).elim (left.source bytes) (right.source bytes)
  · intro bytes found
    exact (List.mem_append.mp found).elim (left.services bytes) (right.services bytes)
  · rw [List.flatMap_append, left.announced, right.announced]
  · intro dest
    rw [List.flatMap_append, left.told, right.told]

theorem mono {services' : List ServiceId} (said : Said nmi services infos tells frames)
    (grown : services ⊆ services') : Said nmi services' infos tells frames :=
  { said with services := fun bytes found sda spoken => grown (said.services bytes found sda spoken) }

/-- A frame that carries no descriptor. -/
theorem silent {bytes : Bytes} (accepts : Nan.accepted bytes = true) (source : ComesFrom nmi bytes)
    (silent : spoken bytes = []) : Said nmi services [] (fun _ => []) [bytes] := by
  refine ⟨?_, ?_, ?_, ?_, ?_⟩
  · simpa using accepts
  · simpa using source
  · simp [silent]
  · simp [Nan.announced, silent]
  · simp [Nan.told, silent]

end Said

variable {engine : NanEngine} {now : Usec}

namespace NanEngine

theorem descriptorsOf_services {functions : List Function} {sda : ServiceDescriptor}
    (found : sda ∈ descriptorsOf functions) : sda.serviceId ∈ servicesOf functions := by
  rcases List.mem_filterMap.mp found with ⟨f, mem, described⟩
  rcases Option.map_eq_some_iff.mp described with ⟨controlType, _, rfl⟩
  rw [(f.descriptor_fields controlType).1]
  exact List.mem_map_of_mem mem

theorem said_beaconFrame (few : engine.functions.length ≤ maxFunctions)
    (now : Usec) (services : List ServiceId) :
    Said engine.cfg.nmi services [] (fun _ => []) [engine.beaconFrame now] :=
  Said.silent (engine.accepted_beaconFrame few now)
    (comesFrom_beacon _ rfl ((engine.beaconAttributes_short_iff _).mpr few))
    (engine.spoken_beaconFrame few now)

theorem said_discoveryFrame
    (short : ∀ f ∈ engine.functions, f.ssi.length < 256) :
    Said engine.cfg.nmi (servicesOf engine.functions) (infosOf engine.functions) (fun _ => [])
      [engine.discoveryFrame] := by
  have spoken : spoken engine.discoveryFrame = descriptorsOf engine.functions :=
    engine.spoken_discoveryFrame short
  have source : ComesFrom engine.cfg.nmi engine.discoveryFrame := comesFrom_sdf _ _ rfl
  refine ⟨?_, ?_, ?_, ?_, ?_⟩
  · simpa using engine.accepted_discoveryFrame short
  · simpa using source
  · intro bytes found sda carried
    rw [List.mem_singleton.mp found, spoken] at carried
    exact descriptorsOf_services carried
  · rw [List.flatMap_singleton, announced, spoken, announcements_descriptorsOf]
  · intro dest
    rw [List.flatMap_singleton, told, spoken, followups_descriptorsOf, ite_self]

theorem infosOf_of_silent {functions : List Function} (silent : descriptorsOf functions = []) :
    infosOf functions = [] := by
  rw [← announcements_descriptorsOf, silent]
  rfl

/-- A burst announces every function, and tells nobody anything. -/
theorem said_burst {frames : List Bytes}
    (burst : engine.IsBurst now frames) (few : engine.functions.length ≤ maxFunctions)
    (short : ∀ f ∈ engine.functions, f.ssi.length < 256) :
    Said engine.cfg.nmi (servicesOf engine.functions) (infosOf engine.functions) (fun _ => [])
        frames ∧
      OnAir frames engine.functions := by
  rcases burst with ⟨first, second, cfg, functions, cfg', functions', rfl⟩
  have few' : first.functions.length ≤ maxFunctions := functions ▸ few
  have beacon := said_beaconFrame few' now (servicesOf engine.functions)
  have listed :
      listedIds .serviceIdList (first.beaconFrame now) = idsOfKind .publish engine.functions ∧
      listedIds .subscribeServiceIdList (first.beaconFrame now) =
        idsOfKind .subscribe engine.functions := by
    rw [first.listedIds_publish few', first.listedIds_subscribe few', ← functions]
    exact ⟨rfl, rfl⟩
  rw [cfg] at beacon
  by_cases talks : engine.advertises = true
  · have short' : ∀ f ∈ second.functions, f.ssi.length < 256 := functions' ▸ short
    have sdf := said_discoveryFrame short'
    have spoken : spoken second.discoveryFrame = descriptorsOf second.functions :=
      second.spoken_discoveryFrame short'
    rw [cfg', functions'] at sdf
    rw [functions'] at spoken
    rw [if_pos talks]
    exact ⟨beacon.append sdf, ⟨_, List.mem_cons_self, listed⟩,
      fun _ => ⟨_, List.mem_cons_of_mem _ (List.mem_singleton_self _), spoken⟩⟩
  · have silent : descriptorsOf engine.functions = [] := by
      by_contra speaks
      exact talks (engine.advertises_iff.mpr speaks)
    rw [if_neg talks, infosOf_of_silent silent]
    exact ⟨beacon, ⟨_, List.mem_cons_self, listed⟩, fun speaks => absurd silent speaks⟩

theorem said_followup {fu : Followup} {services : List ServiceId} (short : fu.ssi.length < 256)
    (mem : fu.serviceId ∈ services) (nmi clusterId : Mac) (seq : UInt16) :
    Said nmi services [] (fun dest => queuedFor dest [fu.entry])
      [fu.frame nmi clusterId seq] := by
  have spoken := Followup.spoken_frame short nmi clusterId seq
  have fields := fu.descriptor_fields
  have source : ComesFrom nmi (fu.frame nmi clusterId seq) := comesFrom_sdf _ _ rfl
  refine ⟨?_, ?_, ?_, ?_, ?_⟩
  · simpa using Followup.accepted_frame short nmi clusterId seq
  · simpa using source
  · intro bytes found sda carried
    rw [List.mem_singleton.mp found, spoken, List.mem_singleton] at carried
    rw [carried, fields.1]
    exact mem
  · simp [announced, spoken, announcement, fields]
  · intro dest
    have address : rxAddr1 (fu.frame nmi clusterId seq) = some fu.dest := rxAddr1_sdf _ _
    by_cases same : fu.dest = dest
    · simp [told, address, same, spoken, followupInfo, fields, fu.descriptor_serviceInfo, queuedFor,
        Followup.entry]
    · simp [told, address, same, queuedFor, Followup.entry]

theorem said_queue {queue : List Followup} {frames : List Bytes} {nmi clusterId : Mac}
    {services : List ServiceId} (sent : SendsQueue nmi clusterId queue frames)
    (short : ∀ fu ∈ queue, fu.ssi.length < 256) (mem : ∀ fu ∈ queue, fu.serviceId ∈ services) :
    Said nmi services [] (fun dest => queuedFor dest (queue.map Followup.entry)) frames := by
  induction sent with
  | nil => exact Said.nil
  | cons first _ ih =>
    rw [List.forall_mem_cons] at short mem
    rcases first with ⟨seq, rfl⟩
    have head := said_followup short.1 mem.1 nmi clusterId seq
    have both := head.append (ih short.2 mem.2)
    have split : ∀ (fu : Followup) (queue : List Followup) (dest : Mac),
        queuedFor dest ((fu :: queue).map Followup.entry) =
          queuedFor dest [fu.entry] ++ queuedFor dest (queue.map Followup.entry) := by
      intro fu queue dest
      rw [List.map_cons, queuedFor, queuedFor, queuedFor, ← List.filterMap_append]
      rfl
    simp only [split]
    exact both

theorem said_paths {paths : List Bytes} {nmi : Mac} (services : List ServiceId)
    (sent : ∀ bytes ∈ paths, IsNdpFrame nmi bytes) : Said nmi services [] (fun _ => []) paths := by
  induction paths with
  | nil => exact Said.nil
  | cons bytes paths ih =>
    rw [List.forall_mem_cons] at sent
    rcases sent.1 with ⟨ndpe, subtype, dst, clusterId, seq, coherent, fits, rfl⟩
    exact (Said.silent (Ndpe.accepted_frame coherent fits ..) (comesFrom_naf _ _ rfl)
      (ndpe.spoken_frame ..)).append (ih sent.2)

end NanEngine

/-! ### Runs -/

namespace Transcript

/-- What has been on the air accounts for everything that was asked for. -/
structure Speaks (t : Transcript) : Prop where
  said : ∃ infos tells, Said t.engine.cfg.nmi (servicesOf t.engine.functions) infos tells t.tx
  /-- As far as the announcements go, only some of the functions may be known. -/
  known : ∃ before : List Function, before <+: t.engine.functions ∧
    heard (t.tx.flatMap announced) = heard (infosOf before) ∧
    (t.engine.lastBurstDw ≠ none → before = t.engine.functions ∧ OnAir t.tx t.engine.functions)
  told : ∀ dest, t.tx.flatMap (Nan.told dest) ++
    queuedFor dest (t.engine.followups.map Followup.entry) = queuedFor dest t.queued
  queue : ∀ fu ∈ t.engine.followups, fu.serviceId ∈ servicesOf t.engine.functions
  peers : t.engine.peers ≠ [] → t.engine.functions ≠ []

theorem speaks_start (cfg : NanConfig) (rendezvous : Rendezvous) :
    (start (.withRendezvous cfg rendezvous)).Speaks :=
  ⟨⟨[], fun _ => [], Said.nil⟩, ⟨[], List.prefix_rfl, rfl, fun burst => absurd rfl burst⟩,
    fun _ => rfl, nofun, fun some => absurd rfl some⟩

theorem queuedFor_append (dest : Mac) (left right : List (Mac × Bytes)) :
    queuedFor dest (left ++ right) = queuedFor dest left ++ queuedFor dest right :=
  List.filterMap_append

variable {t : Transcript}

theorem Speaks.addFunction (speaks : t.Speaks) (serviceId : ServiceId)
    (kind : FunctionKind) (ssi : Bytes) (active : Bool) :
    Speaks { t with engine := (t.engine.addFunction serviceId kind ssi active).1 } := by
  have grown : servicesOf t.engine.functions ⊆
      servicesOf (t.engine.addFunction serviceId kind ssi active).1.functions := by
    simp [servicesOf, NanEngine.addFunction]
  rcases speaks.said with ⟨infos, tells, said⟩
  rcases speaks.known with ⟨before, known, heard, _⟩
  refine ⟨⟨infos, tells, said.mono grown⟩, ⟨before, ?_, heard, fun burst => absurd rfl burst⟩,
    speaks.told, ?_, ?_⟩
  · exact known.trans (List.prefix_append _ _)
  · intro fu found
    exact grown (speaks.queue fu found)
  · intro _
    simp [NanEngine.addFunction]

theorem Speaks.broadcastFollowup (speaks : t.Speaks) (ssi : Bytes) :
    Speaks { t with
      engine := (t.engine.broadcastFollowup ssi).1
      queued := t.queued ++ t.engine.peers.map fun peer => (peer.1, ssi) } := by
  refine ⟨speaks.said, speaks.known, ?_, ?_, speaks.peers⟩
  · intro dest
    have entries : (t.engine.peers.map (t.engine.followupTo ssi)).map Followup.entry =
        t.engine.peers.map fun peer => (peer.1, ssi) := by
      rw [List.map_map]
      rfl
    dsimp only [NanEngine.broadcastFollowup]
    rw [List.map_append, queuedFor_append, queuedFor_append, entries, ← speaks.told dest,
      List.append_assoc]
  · intro fu found
    rcases List.mem_append.mp found with earlier | new
    · exact speaks.queue fu earlier
    · rcases List.mem_map.mp new with ⟨peer, mem, rfl⟩
      have registered := speaks.peers (List.ne_nil_of_mem mem)
      rcases List.exists_cons_of_ne_nil registered with ⟨f, fs, functions⟩
      change (t.engine.followupTo ssi peer).serviceId ∈ servicesOf t.engine.functions
      simp [NanEngine.followupTo, servicesOf, functions]

/-- Calls about data paths leave alone what is spoken here. -/
theorem Speaks.ofSame {t' : Transcript} (speaks : t.Speaks)
    (engine : ∃ ndps nextNdpId nextDialogToken, t'.engine =
      { t.engine with
        ndps := ndps
        nextNdpId := nextNdpId
        nextDialogToken := nextDialogToken })
    (tx : t'.tx = t.tx) (queued : t'.queued = t.queued) : t'.Speaks := by
  rcases t with ⟨before, _, _, _⟩
  rcases t' with ⟨_, _, _, _⟩
  dsimp only at engine tx queued
  rcases engine with ⟨ndps, nextNdpId, nextDialogToken, rfl⟩
  subst tx queued
  exact ⟨speaks.said, speaks.known, speaks.told, speaks.queue, speaks.peers⟩

theorem Speaks.call (speaks : t.Speaks) (sha256 : Bytes → Vector UInt8 32)
    (call : Call) : (t.call sha256 call).Speaks := by
  cases call with
  | publish name ssi => exact speaks.addFunction _ _ _ _
  | subscribe name active => exact speaks.addFunction _ _ _ _
  | broadcastFollowup ssi => exact speaks.broadcastFollowup ssi
  | requestNdp peer =>
    refine speaks.ofSame ?_ rfl rfl
    simp only [Transcript.call, NanEngine.requestNdp]
    split
    · exact ⟨_, _, _, rfl⟩
    · exact ⟨_, _, _, rfl⟩
  | terminateNdp peer ndpId =>
    refine speaks.ofSame ?_ rfl rfl
    simp only [Transcript.call, NanEngine.terminateNdp]
    split
    · exact ⟨_, _, _, rfl⟩
    · exact ⟨_, _, _, rfl⟩

theorem Speaks.keeps (speaks : t.Speaks) {step : Step}
    (keeps : NanEngine.Keeps (t.engine, Step.default) (engine, step)) (events : List NanEvent) :
    Speaks { t with engine := engine, events := events } := by
  have cfg : engine.cfg = t.engine.cfg := keeps.cfg
  have functions : engine.functions = t.engine.functions := keeps.functions
  have followups : engine.followups = t.engine.followups := keeps.followups
  rcases speaks.known with ⟨before, known, heard, burst⟩
  refine ⟨?_, ⟨before, ?_, heard, ?_⟩, ?_, ?_, ?_⟩
  · rw [cfg, functions]
    exact speaks.said
  · rw [functions]
    exact known
  · intro made
    rw [functions]
    rcases keeps.burst with same | none
    · exact burst (same ▸ made)
    · exact absurd none made
  · rw [followups]
    exact speaks.told
  · rw [followups, functions]
    exact speaks.queue
  · intro some
    rw [functions]
    exact (keeps.peers some).elim speaks.peers id

/-- Nothing goes out of a poll outside the windows. -/
theorem poll_asleep {inbound : List RxFrame}
    (asleep : ¬ t.InWindow now inbound) :
    ∃ events, t.poll now inbound =
      { t with engine := (t.engine.receive now inbound).1, events := events } := by
  have tx : (t.engine.receive now inbound).2.tx = [] :=
    (t.engine.receive_keeps now inbound).tx
  refine ⟨t.events ++ (t.engine.receive now inbound).2.events, ?_⟩
  rw [InWindow] at asleep
  rw [poll, NanEngine.poll]
  dsimp only
  rw [if_neg asleep]
  rw [tx, List.map_nil, List.append_nil]

theorem poll_awake {inbound : List RxFrame}
    (awake : t.InWindow now inbound) :
    ∃ ndps seq, ∃ burst queue paths : List Bytes, ∃ events, t.poll now inbound =
        { t with
          engine := { (t.engine.receive now inbound).1 with
            ndps := ndps
            seq := seq
            lastBurstDw := some ((t.engine.receive now inbound).1.dwIndex now)
            followups := [] }
          tx := t.tx ++ (burst ++ queue ++ paths)
          events := events } ∧
      (((t.engine.receive now inbound).1.lastBurstDw =
          some ((t.engine.receive now inbound).1.dwIndex now) ∧ burst = []) ∨
        (t.engine.receive now inbound).1.IsBurst now burst) ∧
      NanEngine.SendsQueue (t.engine.receive now inbound).1.cfg.nmi
        (t.engine.receive now inbound).1.clusterId (t.engine.receive now inbound).1.followups
        queue ∧
      ∀ bytes ∈ paths, NanEngine.IsNdpFrame (t.engine.receive now inbound).1.cfg.nmi bytes := by
  have tx : (t.engine.receive now inbound).2.tx = [] :=
    (t.engine.receive_keeps now inbound).tx
  rw [InWindow] at awake
  rcases (t.engine.receive now inbound).1.transmit_eq now (t.engine.receive now inbound).2
    with ⟨ndps, seq, burst, queue, paths, events, run, burst', queue', paths', _⟩
  refine ⟨ndps, seq, burst, queue, paths,
    t.events ++ ((t.engine.receive now inbound).2.events ++ events), ?_, burst', queue', paths'⟩
  rw [poll, NanEngine.poll]
  dsimp only
  rw [if_pos awake, run, tx]
  rw [List.nil_append, List.map_map]
  simp only [Function.comp_def, List.map_id']

/-- After a transmit window, everything registered is on the air and nothing waits. -/
theorem Speaks.poll (speaks : t.Speaks) {inbound : List RxFrame}
    (fits : t.InWindow now inbound → Fits t.engine) :
    (t.poll now inbound).Speaks ∧
      (t.InWindow now inbound → (t.poll now inbound).engine.lastBurstDw ≠ none ∧
        (t.poll now inbound).engine.followups = []) := by
  by_cases awake : t.InWindow now inbound
  · rcases poll_awake awake with ⟨ndps, seq, burst, queue, paths, events, run, burst', queue', paths'⟩
    have heardAll := t.engine.receive_keeps now inbound
    have fits := fits awake
    generalize t.engine.receive now inbound = state at heardAll run burst' queue' paths'
    rcases state with ⟨engine, first⟩
    have received := speaks.keeps heardAll t.events
    have functions : engine.functions = t.engine.functions := heardAll.functions
    have followups : engine.followups = t.engine.followups := heardAll.followups
    have short : ∀ f ∈ engine.functions, f.ssi.length < 256 := by
      rw [functions]
      intro f mem
      exact Nat.lt_succ_of_le (fits.infos f mem)
    have shortQueue : ∀ fu ∈ engine.followups, fu.ssi.length < 256 := by
      rw [followups]
      intro fu mem
      exact Nat.lt_succ_of_le (fits.followups fu mem)
    have few : engine.functions.length ≤ NanEngine.maxFunctions := functions ▸ fits.functions
    have saidQueue := NanEngine.said_queue queue' shortQueue received.queue
    have saidPaths := NanEngine.said_paths (servicesOf engine.functions) paths'
    have saidRest := saidQueue.append saidPaths
    rcases received.said with ⟨infos, tells, said⟩
    rcases received.known with ⟨before, known, heard', made⟩
    have told := received.told
    -- what the window says: a burst or nothing, then the queue, then the data paths
    have window : ∃ infos, Said engine.cfg.nmi (servicesOf engine.functions) infos
          (fun dest => queuedFor dest (engine.followups.map Followup.entry))
          (burst ++ queue ++ paths) ∧
        heard (t.tx.flatMap announced ++ infos) = heard (infosOf engine.functions) ∧
        OnAir (t.tx ++ (burst ++ queue ++ paths)) engine.functions := by
      rcases burst' with ⟨done, rfl⟩ | isBurst
      · rcases made (by rw [done]; exact Option.some_ne_none _) with ⟨rfl, onAir⟩
        refine ⟨[], ?_, ?_, ?_⟩
        · simpa using saidRest
        · simpa using heard'
        · refine ⟨?_, ?_⟩
          · rcases onAir.listed with ⟨beacon, mem, listed⟩
            exact ⟨beacon, List.mem_append_left _ mem, listed⟩
          · intro speaks
            rcases onAir.described speaks with ⟨sdf, mem, described⟩
            exact ⟨sdf, List.mem_append_left _ mem, described⟩
      · rcases NanEngine.said_burst isBurst few short with ⟨saidBurst, onAir⟩
        refine ⟨infosOf engine.functions, ?_, ?_, ?_⟩
        · have all := saidBurst.append saidRest
          simpa [List.append_assoc] using all
        · exact heard_append_of_prefix heard' (known.filterMap _)
        · refine ⟨?_, ?_⟩
          · rcases onAir.listed with ⟨beacon, mem, listed⟩
            exact ⟨beacon, by simp [mem], listed⟩
          · intro speaks
            rcases onAir.described speaks with ⟨sdf, mem, described⟩
            exact ⟨sdf, by simp [mem], described⟩
    rcases window with ⟨more, saidWindow, heardWindow, onAir⟩
    rw [run]
    refine ⟨⟨⟨_, _, said.append saidWindow⟩,
      ⟨engine.functions, List.prefix_rfl, ?_, fun _ => ⟨rfl, onAir⟩⟩, ?_, nofun,
      received.peers⟩, fun _ => ⟨Option.some_ne_none _, rfl⟩⟩
    · rw [List.flatMap_append, saidWindow.announced]
      exact heardWindow
    · intro dest
      rw [List.flatMap_append, saidWindow.told, told dest]
      exact List.append_nil _
  · rcases poll_asleep awake with ⟨events, run⟩
    rw [run]
    exact ⟨speaks.keeps (t.engine.receive_keeps now inbound) events, fun awake' => absurd awake' awake⟩

theorem Speaks.run (speaks : t.Speaks) (sha256 : Bytes → Vector UInt8 32)
    {actions : List Action} (fits : Throughout (step sha256) t actions FitsWindow) :
    (t.run sha256 actions).Speaks := by
  induction actions generalizing t with
  | nil => exact speaks
  | cons action actions ih =>
    rw [throughout_cons] at fits
    cases action with
    | call call => exact ih (speaks.call sha256 call) fits.2
    | poll now inbound => exact ih (speaks.poll fits.1).1 fits.2

end Transcript

end NdnExt.Nan
