import Mathlib.Data.List.MinMax
import Mathlib.Data.List.Nodup
import NdnExt.Compute.Thunk

/-! Long-running jobs of a compute service: invocations, polls and completions in any order. -/

namespace NdnExt.Compute

open List

inductive ComputeError where
  | notFound
  | handlerFailed (msg : String)
  | badRequest (msg : String)
  | unauthorized (msg : String)
  deriving DecidableEq

def ComputeError.display : ComputeError → String
  | .notFound => "no RPC handler for this name"
  | .handlerFailed e => "RPC handler failed: " ++ e
  | .badRequest e => "bad RPC request: " ++ e
  | .unauthorized e => "unauthorized RPC request: " ++ e

inductive Determinism where
  | transparent
  | opaqueCall
  deriving DecidableEq

/-- In milliseconds. -/
def defaultTransparentFreshness : Nat := 4000

def thunkKeyword : NameComponent := .generic [116, 104, 117, 110, 107]

/-- A registered job, with the codecs of its arguments and of its results. -/
structure Job where
  namePrefix : Name
  determinism : Determinism
  estimate : UInt64
  Args : Type
  Out : Type
  fromComponents : List NameComponent → Except ComputeError Args
  encode : Out → Bytes
  decode : Bytes → Except ComputeError Out
  decode_encode : ∀ out, decode (encode out) = .ok out

structure Data where
  name : Name
  content : Bytes
  freshness : Option Nat

inductive JobState where
  | pending
  | done (bytes : Bytes)
  | failed (msg : String)

/-- A background computation, and its result once it has completed. -/
structure Task where
  key : Name
  job : Job
  args : job.Args
  result : Option (Except ComputeError job.Out)

/-- What completing a task puts into the store. -/
def Task.state (task : Task) : JobState :=
  match task.result with
  | none => .pending
  | some (.ok out) => .done (task.job.encode out)
  | some (.error e) => .failed e.display

inductive Handler where
  | invoke (job : Job)
  | poll (job : Job)

/-- `ndn_store`: the entry of the longest registered prefix of a name. -/
structure NameTrie where
  lpm : List (Name × Handler) → Name → Option Handler
  longest : ∀ {entries name front handler}, (front, handler) ∈ entries →
    front.components <+: name.components →
    (∀ other ∈ entries, other.1.components <+: name.components →
      other = (front, handler) ∨ other.1.components.length < front.components.length) →
    lpm entries name = some handler
  among : ∀ {entries name handler}, lpm entries name = some handler →
    ∃ front, (front, handler) ∈ entries ∧ front.components <+: name.components

namespace Job

def thunkRoot (job : Job) : Name := job.namePrefix.appendComponent thunkKeyword

/-- Carries every component after the prefix, with a nonce too. -/
def thunkName (job : Job) (comps : List NameComponent) : Name :=
  ⟨job.thunkRoot.components ++ comps⟩

/-- The name of an invocation. -/
def invocation (job : Job) (comps : List NameComponent) : Name :=
  ⟨job.namePrefix.components ++ comps⟩

def resultFreshness (job : Job) : Option Nat :=
  match job.determinism with
  | .transparent => some defaultTransparentFreshness
  | .opaqueCall => none

end Job

/-- The components after the prefix, less the trailing nonce of an opaque call. -/
def argComponents (comps : List NameComponent) (prefixLen : Nat) :
    Determinism → Except ComputeError (List NameComponent)
  | .transparent =>
    if comps.length < prefixLen then .error (.badRequest "name shorter than function prefix")
    else .ok (comps.drop prefixLen)
  | .opaqueCall =>
    if comps.length < prefixLen then .error (.badRequest "name shorter than function prefix")
    else if comps.length = 0 ∨ comps.length - 1 < prefixLen then
      .error (.badRequest "opaque call missing trailing nonce component")
    else .ok ((comps.take (comps.length - 1)).drop prefixLen)

/-- The arguments of an invocation. -/
def Job.argsOf (job : Job) (name : Name) : Except ComputeError job.Args :=
  match argComponents name.components job.namePrefix.components.length job.determinism with
  | .error e => .error e
  | .ok argComps => job.fromComponents argComps

/-! ### The service -/

structure Service where
  store : Name → Option JobState
  /-- The computations started, in order. -/
  tasks : List Task

section Handlers

variable (codec : ThunkCodec)

def thunkData (name thunkName : Name) (eta : UInt64) : Data :=
  ⟨name, (Thunk.mk thunkName eta).toContent codec, none⟩

/-- Starts the job on first sight of its arguments, and returns a thunk. -/
def invokeHandle (job : Job) (service : Service) (name : Name) :
    Service × Except ComputeError Data :=
  match job.argsOf name with
  | .error e => (service, .error e)
  | .ok args =>
    let thunkName := job.thunkName (name.components.drop job.namePrefix.components.length)
    let service :=
      if (service.store thunkName).isSome then service
      else
        { store := Function.update service.store thunkName (some .pending)
          tasks := service.tasks ++ [⟨thunkName, job, args, none⟩] }
    (service, .ok (thunkData codec name thunkName job.estimate))

def pollHandle (job : Job) (service : Service) (name : Name) : Except ComputeError Data :=
  match service.store name with
  | some (.done bytes) => .ok ⟨name, bytes, job.resultFreshness⟩
  | some (.failed e) => .error (.handlerFailed e)
  | some .pending => .ok (thunkData codec name name job.estimate)
  | none => .error .notFound

end Handlers

/-- The registered jobs: no prefix is a prefix of another. -/
structure Jobs where
  list : List Job
  free : ∀ i ∈ list, ∀ j ∈ list, i.namePrefix.components <+: j.namePrefix.components → i = j

def Jobs.entries (jobs : Jobs) : List (Name × Handler) :=
  jobs.list.flatMap fun job => [(job.thunkRoot, .poll job), (job.namePrefix, .invoke job)]

structure World where
  service : Service
  /-- The Interests handled, with their answers. -/
  log : List (Name × Option (Except ComputeError Data))

inductive Event where
  | interest (name : Name)
  /-- The n-th task completes, with a result of its job. -/
  | complete (n : Nat) (result : (job : Job) → Except ComputeError job.Out)

namespace World

variable (codec : ThunkCodec) (trie : NameTrie) (jobs : Jobs)

def start : World := ⟨⟨fun _ => none, []⟩, []⟩

def handle (world : World) (name : Name) : Service × Option (Except ComputeError Data) :=
  match trie.lpm jobs.entries name with
  | none => (world.service, none)
  | some (.invoke job) =>
    let (service, answer) := invokeHandle codec job world.service name
    (service, some answer)
  | some (.poll job) => (world.service, some (pollHandle codec job world.service name))

def step (world : World) : Event → World
  | .interest name =>
    let (service, answer) := world.handle codec trie jobs name
    ⟨service, world.log ++ [(name, answer)]⟩
  | .complete n result =>
    match world.service.tasks[n]? with
    | none => world
    | some task =>
      if task.result.isSome then world
      else
        let done : Task := { task with result := some (result task.job) }
        { world with service := {
            store := Function.update world.service.store task.key (some done.state)
            tasks := world.service.tasks.set n done } }

def run (events : List Event) : World := events.foldl (step codec trie jobs) start

end World

/-- An invocation of a registered job, by the components after the prefix, that do not begin with
the component of the poll names. -/
structure Call (jobs : Jobs) (job : Job) (comps : List NameComponent) (args : job.Args) : Prop where
  registered : job ∈ jobs.list
  head : comps.head? ≠ some thunkKeyword
  args : job.argsOf (job.invocation comps) = .ok args

section

/-! ### Routing -/

variable {codec : ThunkCodec} {trie : NameTrie} {jobs : Jobs}

theorem Jobs.mem_entries {entry : Name × Handler} : entry ∈ jobs.entries ↔
    ∃ job ∈ jobs.list, entry = (job.thunkRoot, .poll job) ∨ entry =
    (job.namePrefix, .invoke job) := by
  simp [Jobs.entries]

theorem Jobs.same_of_prefixes {i j : Job} (member : i ∈ jobs.list) (member' : j ∈ jobs.list)
    {name : List NameComponent} (front : i.namePrefix.components <+: name)
    (front' : j.namePrefix.components <+: name) : i = j := by
  rcases prefix_or_prefix_of_prefix front front' with first | second
  · exact jobs.free i member j member' first
  · exact (jobs.free j member' i member second).symm

theorem Job.prefix_thunkRoot (job : Job) :
    job.namePrefix.components <+: job.thunkRoot.components := prefix_append _ _

variable {comps comps' : List NameComponent} {job : Job} {task : Task}

theorem lpm_invocation {args : job.Args}
    (call : Call jobs job comps args) :
    trie.lpm jobs.entries (job.invocation comps) = some (.invoke job) := by
  apply trie.longest (Jobs.mem_entries.mpr ⟨job, call.registered, Or.inr rfl⟩)
    (prefix_append _ _)
  intro other among front
  rcases Jobs.mem_entries.mp among with ⟨j, member, rfl | rfl⟩
  · have same : j = job := jobs.same_of_prefixes member call.registered
      (j.prefix_thunkRoot.trans front) (prefix_append _ _)
    subst same
    have first : [thunkKeyword] <+: comps := (prefix_append_right_inj _).mp front
    rcases first with ⟨rest, split⟩
    exact absurd (by rw [← split]; rfl) call.head
  · rw [jobs.same_of_prefixes member call.registered front (prefix_append _ _)]
    exact Or.inl rfl

theorem lpm_poll (registered : job ∈ jobs.list) (comps : List NameComponent) :
    trie.lpm jobs.entries (job.thunkName comps) = some (.poll job) := by
  apply trie.longest (Jobs.mem_entries.mpr ⟨job, registered, Or.inl rfl⟩) (prefix_append _ _)
  have here : job.namePrefix.components <+: (job.thunkName comps).components :=
    job.prefix_thunkRoot.trans (prefix_append _ _)
  intro other among front
  rcases Jobs.mem_entries.mp among with ⟨j, member, rfl | rfl⟩
  · rw [jobs.same_of_prefixes member registered (j.prefix_thunkRoot.trans front) here]
    exact Or.inl rfl
  · rw [jobs.same_of_prefixes member registered front here]
    refine Or.inr ?_
    change job.namePrefix.components.length < (job.namePrefix.components ++ [thunkKeyword]).length
    rw [length_append, length_singleton]
    omega

/-- Jobs share no poll name. -/
theorem thunkName_inj {i j : Job} (member : i ∈ jobs.list) (member' : j ∈ jobs.list)
    (same : i.thunkName comps = j.thunkName comps') :
    i = j ∧ comps = comps' := by
  have one : i = j := by
    apply jobs.same_of_prefixes member member'
      (i.prefix_thunkRoot.trans (prefix_append _ comps))
    change j.namePrefix.components <+: (i.thunkName comps).components
    rw [same]
    exact j.prefix_thunkRoot.trans (prefix_append _ _)
  subst one
  exact ⟨rfl, append_cancel_left (congrArg Name.components same)⟩

theorem thunkName_of_invocation (job : Job) (comps : List NameComponent) :
    job.thunkName ((job.invocation comps).components.drop job.namePrefix.components.length) =
      job.thunkName comps := by
  rw [Job.invocation, drop_left]

/-! ### One event -/

/-- A job's computation for a call that the service has not seen. -/
def Service.started (service : Service) (key : Name) (job : Job) (args : job.Args) : Service :=
  { store := Function.update service.store key (some .pending)
    tasks := service.tasks ++ [⟨key, job, args, none⟩] }

/-- An Interest that is no call leaves the service as it is; a call gets its thunk. -/
theorem handle_cases (world : World) (name : Name) :
    ((world.handle codec trie jobs name).1 = world.service ∧
        ∀ job comps args, Call jobs job comps args → name ≠ job.invocation comps) ∨
      ∃ job comps, ∃ args : job.Args, Call jobs job comps args ∧ name = job.invocation comps ∧
        (world.handle codec trie jobs name).2 =
          some (.ok (thunkData codec name (job.thunkName comps) job.estimate)) ∧
        (world.handle codec trie jobs name).1 =
          if (world.service.store (job.thunkName comps)).isSome then world.service
          else world.service.started (job.thunkName comps) job args := by
  unfold World.handle
  cases routed : trie.lpm jobs.entries name with
  | none =>
    refine Or.inl ⟨rfl, ?_⟩
    rintro job comps args call rfl
    rw [lpm_invocation call] at routed
    cases routed
  | some handler =>
    cases handler with
    | poll job =>
      refine Or.inl ⟨rfl, ?_⟩
      rintro job' comps args call rfl
      rw [lpm_invocation call] at routed
      cases routed
    | invoke job =>
      rcases trie.among routed with ⟨front, entry, ahead⟩
      rcases Jobs.mem_entries.mp entry with ⟨j, registered, same | same⟩
      · cases same
      · cases same
        rcases ahead with ⟨comps, split⟩
        have named : name = job.invocation comps := Name.components_injective split.symm
        have head : comps.head? ≠ some thunkKeyword := by
          intro first
          cases comps with
          | nil => cases first
          | cons head rest =>
            rw [List.head?_cons, Option.some.injEq] at first
            have poll : name = job.thunkName rest := by
              rw [named, first]
              apply Name.components_injective
              change job.namePrefix.components ++ thunkKeyword :: rest =
                job.namePrefix.components ++ [thunkKeyword] ++ rest
              rw [append_assoc]
              rfl
            rw [poll, lpm_poll registered rest] at routed
            cases routed
        cases accepts : job.argsOf name with
        | error e =>
          refine Or.inl ⟨?_, ?_⟩
          · dsimp only
            rw [invokeHandle, accepts]
          · rintro job' comps' args call rfl
            rw [lpm_invocation call] at routed
            cases routed
            rw [call.args] at accepts
            cases accepts
        | ok args =>
          have handled : invokeHandle codec job world.service name =
              (if (world.service.store (job.thunkName comps)).isSome then world.service
                else world.service.started (job.thunkName comps) job args,
              .ok (thunkData codec name (job.thunkName comps) job.estimate)) := by
            rw [invokeHandle, accepts]
            rw [named, thunkName_of_invocation]
            rfl
          refine Or.inr ⟨job, comps, args, ⟨registered, head, by rw [← named, accepts]⟩, named,
            ?_, ?_⟩
          · dsimp only
            rw [handled]
          · dsimp only
            rw [handled]

theorem Job.invocation_inj
    (same : job.invocation comps = job.invocation comps') : comps = comps' :=
  append_cancel_left (congrArg Name.components same)

theorem call_inj {i j : Job} {args : i.Args} {args' : j.Args}
    (call : Call jobs i comps args) (call' : Call jobs j comps' args')
    (same : i.invocation comps = j.invocation comps') : i = j ∧ comps = comps' := by
  have one : i = j := jobs.same_of_prefixes call.registered call'.registered
    (prefix_append _ comps) (by
      change j.namePrefix.components <+: (i.invocation comps).components
      rw [same]
      exact prefix_append _ _)
  subst one
  exact ⟨rfl, Job.invocation_inj same⟩

/-- The store says of each task how far it is, and each call was started once. -/
structure Sound (codec : ThunkCodec) (jobs : Jobs) (world : World) : Prop where
  nodup : (world.service.tasks.map Task.key).Nodup
  holds : ∀ task ∈ world.service.tasks, world.service.store task.key = some task.state
  absent : ∀ name, name ∉ world.service.tasks.map Task.key → world.service.store name = none
  calls : ∀ task ∈ world.service.tasks, ∃ comps, Call jobs task.job comps task.args ∧
    task.key = task.job.thunkName comps ∧ task.job.invocation comps ∈ world.log.map (·.1)
  started : ∀ job comps args, Call jobs job comps args →
    job.invocation comps ∈ world.log.map (·.1) →
      ∃ result, ⟨job.thunkName comps, job, args, result⟩ ∈ world.service.tasks
  thunks : ∀ job comps args, Call jobs job comps args → ∀ answer,
    (job.invocation comps, answer) ∈ world.log → answer =
      some (.ok (thunkData codec (job.invocation comps) (job.thunkName comps) job.estimate))

variable {world : World}

theorem start_sound : Sound codec jobs .start where
  nodup := nodup_nil
  holds := forall_mem_nil _
  absent := fun _ _ => rfl
  calls := forall_mem_nil _
  started := by
    intro job comps args _ impossible
    cases impossible
  thunks := by
    intro job comps args _ answer impossible
    cases impossible

/-- The task of a call. -/
theorem Sound.task_of_key (sound : Sound codec jobs world)
    {args : job.Args} (call : Call jobs job comps args)
    (found : task ∈ world.service.tasks) (key : task.key = job.thunkName comps) :
    ∃ result, task = ⟨job.thunkName comps, job, args, result⟩ := by
  rcases sound.calls task found with ⟨comps', call', key', _⟩
  rcases task with ⟨taskKey, taskJob, taskArgs, result⟩
  rcases thunkName_inj call.registered call'.registered (key.symm.trans key') with ⟨same, same'⟩
  subst same same' key
  have equal := call.args.symm.trans call'.args
  cases equal
  exact ⟨result, rfl⟩

theorem interest_sound (sound : Sound codec jobs world) (name : Name) :
    Sound codec jobs (world.step codec trie jobs (.interest name)) := by
  have after : world.step codec trie jobs (.interest name) =
      ⟨(world.handle codec trie jobs name).1,
        world.log ++ [(name, (world.handle codec trie jobs name).2)]⟩ := rfl
  have names : ∀ other : Name,
      other ∈ (world.log ++ [(name, (world.handle codec trie jobs name).2)]).map (·.1) ↔
        other ∈ world.log.map (·.1) ∨ other = name := by
    intro other
    rw [map_append, mem_append, map_singleton, mem_singleton]
  rw [after]
  rcases handle_cases world name with ⟨same, uncalled⟩ | ⟨job, comps, args, call, rfl, answer, next⟩
  · rw [same]
    refine ⟨sound.nodup, sound.holds, sound.absent, ?_, ?_, ?_⟩
    · intro task found
      rcases sound.calls task found with ⟨comps, call, key, logged⟩
      exact ⟨comps, call, key, (names _).mpr (Or.inl logged)⟩
    · intro job comps args call logged
      exact sound.started job comps args call
        (((names _).mp logged).resolve_right (Ne.symm (uncalled job comps args call)))
    · intro job comps args call answer logged
      rcases mem_append.mp logged with old | new
      · exact sound.thunks job comps args call answer old
      · have named := congrArg Prod.fst (mem_singleton.mp new)
        exact absurd named.symm (uncalled job comps args call)
  · have thunks : ∀ job' comps' args', Call jobs job' comps' args' → ∀ answer',
        (job'.invocation comps', answer') ∈ world.log ++
          [(job.invocation comps, (world.handle codec trie jobs (job.invocation comps)).2)] →
        answer' = some (.ok (thunkData codec (job'.invocation comps') (job'.thunkName comps')
          job'.estimate)) := by
      intro job' comps' args' call' answer' logged
      rcases mem_append.mp logged with old | new
      · exact sound.thunks job' comps' args' call' answer' old
      · have pair := mem_singleton.mp new
        have named := congrArg Prod.fst pair
        rcases call_inj call' call named with ⟨same, same'⟩
        subst same same'
        exact (congrArg Prod.snd pair).trans answer
    rw [next]
    by_cases seen : (world.service.store (job.thunkName comps)).isSome
    · rw [if_pos seen]
      refine ⟨sound.nodup, sound.holds, sound.absent, ?_, ?_, thunks⟩
      · intro task found
        rcases sound.calls task found with ⟨comps', call', key, logged⟩
        exact ⟨comps', call', key, (names _).mpr (Or.inl logged)⟩
      · intro job' comps' args' call' logged
        rcases (names _).mp logged with old | now
        · exact sound.started job' comps' args' call' old
        · rcases call_inj call' call now with ⟨same, same'⟩
          subst same same'
          have keyed : job'.thunkName comps' ∈ world.service.tasks.map Task.key := by
            by_contra absent
            rw [sound.absent _ absent] at seen
            cases seen
          rcases mem_map.mp keyed with ⟨task, found, key⟩
          rcases sound.task_of_key call' found key with ⟨result, rfl⟩
          exact ⟨result, found⟩
    · rw [if_neg seen]
      have fresh : job.thunkName comps ∉ world.service.tasks.map Task.key := by
        intro keyed
        rcases mem_map.mp keyed with ⟨task, found, key⟩
        rw [← key, sound.holds task found] at seen
        exact seen rfl
      refine ⟨?_, ?_, ?_, ?_, ?_, thunks⟩
      · change (List.map Task.key (world.service.tasks ++ [_])).Nodup
        rw [map_append, map_singleton]
        exact nodup_append.mpr ⟨sound.nodup, nodup_singleton _, by
          intro key found other only
          rw [mem_singleton.mp only]
          rintro rfl
          exact fresh found⟩
      · intro task found
        change Function.update world.service.store (job.thunkName comps) (some .pending) task.key = _
        rcases mem_append.mp found with old | new
        · have other : task.key ≠ job.thunkName comps := by
            intro key
            rw [← key] at fresh
            exact fresh (mem_map_of_mem old)
          rw [Function.update_of_ne other]
          exact sound.holds task old
        · rw [mem_singleton.mp new, Function.update_self]
          rfl
      · intro name absent
        change name ∉ List.map Task.key (world.service.tasks ++ [_]) at absent
        rw [map_append, mem_append, not_or, map_singleton, mem_singleton]
          at absent
        change Function.update world.service.store (job.thunkName comps) (some .pending) name = none
        rw [Function.update_of_ne absent.2]
        exact sound.absent name absent.1
      · intro task found
        rcases mem_append.mp found with old | new
        · rcases sound.calls task old with ⟨comps', call', key, logged⟩
          exact ⟨comps', call', key, (names _).mpr (Or.inl logged)⟩
        · rw [mem_singleton.mp new]
          exact ⟨comps, call, rfl, (names _).mpr (Or.inr rfl)⟩
      · intro job' comps' args' call' logged
        rcases (names _).mp logged with old | now
        · rcases sound.started job' comps' args' call' old with ⟨result, found⟩
          exact ⟨result, mem_append_left _ found⟩
        · rcases call_inj call' call now with ⟨same, same'⟩
          subst same same'
          have equal := call'.args.symm.trans call.args
          cases equal
          exact ⟨none, mem_append_right _ (mem_singleton_self _)⟩

theorem mem_set_keyed {tasks : List Task} (nodup : (tasks.map Task.key).Nodup) {n : Nat}
    {done : Task} (found : tasks[n]? = some task) (same : done.key = task.key) {other : Task} :
    other ∈ tasks.set n done ↔ other = done ∨ other ∈ tasks ∧ other.key ≠ task.key := by
  have inside : n < tasks.length := (List.getElem?_eq_some_iff.mp found).1
  constructor
  · intro member
    rcases mem_iff_getElem?.mp member with ⟨i, at'⟩
    by_cases here : n = i
    · subst here
      rw [List.getElem?_set_self inside] at at'
      exact Or.inl (Option.some.inj at').symm
    · rw [List.getElem?_set_ne here] at at'
      refine Or.inr ⟨mem_of_getElem? at', ?_⟩
      intro key
      apply here
      apply (List.getElem?_inj (by rwa [length_map]) nodup).mp
      rw [List.getElem?_map, List.getElem?_map, found, at', Option.map_some, Option.map_some, key]
  · rintro (rfl | ⟨member, differs⟩)
    · exact mem_set inside other
    · rcases mem_iff_getElem?.mp member with ⟨i, at'⟩
      have elsewhere : n ≠ i := by
        rintro rfl
        rw [found] at at'
        exact differs (congrArg Task.key (Option.some.inj at')).symm
      exact mem_iff_getElem?.mpr ⟨i, by rw [List.getElem?_set_ne elsewhere, at']⟩

/-- A completion fills in the result of one task that had none. -/
theorem complete_cases (codec : ThunkCodec) (trie : NameTrie) (jobs : Jobs) (world : World)
    (n : Nat)
    (result : (job : Job) → Except ComputeError job.Out) :
    world.step codec trie jobs (.complete n result) = world ∨
      ∃ task done : Task, world.service.tasks[n]? = some task ∧ task.result = none ∧
        done = { task with result := some (result task.job) } ∧
        world.step codec trie jobs (.complete n result) = { world with service :=
          ⟨Function.update world.service.store task.key (some done.state),
            world.service.tasks.set n done⟩ } := by
  rw [World.step]
  cases found : world.service.tasks[n]? with
  | none => exact Or.inl rfl
  | some task =>
    dsimp only
    by_cases ended : task.result.isSome
    · rw [if_pos ended]
      exact Or.inl rfl
    · rw [if_neg ended]
      exact Or.inr ⟨task, _, rfl, by simpa using ended, rfl, rfl⟩

theorem complete_sound (sound : Sound codec jobs world) (n : Nat)
    (result : (job : Job) → Except ComputeError job.Out) :
    Sound codec jobs (world.step codec trie jobs (.complete n result)) := by
  rcases complete_cases codec trie jobs world n result with
    same | ⟨task, done, found, _, filled, after⟩
  · rw [same]
    exact sound
  · have key : done.key = task.key := by rw [filled]
    have keys : (world.service.tasks.set n done).map Task.key = world.service.tasks.map Task.key := by
      apply ext_getElem?
      intro i
      rw [List.getElem?_map, List.getElem?_map, List.getElem?_set]
      split
      · subst i
        rw [found, if_pos (List.getElem?_eq_some_iff.mp found).1, Option.map_some, Option.map_some, key]
      · rfl
    have member : ∀ other : Task, other ∈ world.service.tasks.set n done ↔
        other = done ∨ other ∈ world.service.tasks ∧ other.key ≠ task.key :=
      fun _ => mem_set_keyed sound.nodup found key
    rw [after]
    refine ⟨?_, ?_, ?_, ?_, ?_, sound.thunks⟩
    · rw [keys]
      exact sound.nodup
    · intro other among
      dsimp only
      rcases (member other).mp among with rfl | ⟨old, differs⟩
      · rw [key, Function.update_self]
      · rw [Function.update_of_ne differs]
        exact sound.holds other old
    · intro name absent
      dsimp only at absent ⊢
      rw [keys] at absent
      have differs : name ≠ task.key := by
        rintro rfl
        exact absent (mem_map_of_mem (mem_of_getElem? found))
      rw [Function.update_of_ne differs]
      exact sound.absent name absent
    · intro other among
      rcases (member other).mp among with rfl | ⟨old, _⟩
      · rw [filled]
        exact sound.calls task (mem_of_getElem? found)
      · exact sound.calls other old
    · intro job comps args call logged
      rcases sound.started job comps args call logged with ⟨before, there⟩
      by_cases same : job.thunkName comps = task.key
      · rcases sound.task_of_key call (mem_of_getElem? found) same.symm with ⟨_, rfl⟩
        exact ⟨_, (member _).mpr (Or.inl filled.symm)⟩
      · exact ⟨before, (member _).mpr (Or.inr ⟨there, same⟩)⟩

theorem run_sound (events : List Event) : Sound codec jobs (World.run codec trie jobs events) := by
  induction events using List.reverseRecOn with
  | nil => exact start_sound
  | append_singleton events event ih =>
    rw [World.run, foldl_append, foldl_cons, foldl_nil]
    cases event with
    | interest name => exact interest_sound ih name
    | complete n result => exact complete_sound ih n result

/-- A task that has completed stays as it is. -/
theorem step_keeps (sound : Sound codec jobs world) {task : Task}
    (found : task ∈ world.service.tasks)
    (ended : task.result.isSome) (event : Event) :
    task ∈ (world.step codec trie jobs event).service.tasks := by
  cases event with
  | interest name =>
    change task ∈ (world.handle codec trie jobs name).1.tasks
    rcases handle_cases world name with ⟨same, _⟩ | ⟨job, comps, args, _, _, _, next⟩
    · rw [same]
      exact found
    · rw [next]
      split
      · exact found
      · exact mem_append_left _ found
  | complete n result =>
    rcases complete_cases codec trie jobs world n result with
      same | ⟨other, done, at', unfinished, filled, after⟩
    · rw [same]
      exact found
    · rw [after]
      refine (mem_set_keyed sound.nodup at' (by rw [filled])).mpr (Or.inr ⟨found, ?_⟩)
      intro key
      have same := inj_on_of_nodup_map sound.nodup found (mem_of_getElem? at') key
      rw [same, unfinished] at ended
      cases ended

theorem run_keeps {events : List Event} {time : Nat}
    (found : task ∈ (World.run codec trie jobs (events.take time)).service.tasks)
    (ended : task.result.isSome) : task ∈ (World.run codec trie jobs events).service.tasks := by
  have later : ∀ more : List Event,
      task ∈ (World.run codec trie jobs (events.take time ++ more)).service.tasks := by
    intro more
    induction more using List.reverseRecOn with
    | nil =>
      rw [append_nil]
      exact found
    | append_singleton more event ih =>
      have kept : task ∈ ((World.run codec trie jobs (events.take time ++ more)).step codec trie
          jobs event).service.tasks := step_keeps (run_sound _) ih ended event
      rwa [World.run, ← append_assoc, foldl_append, foldl_cons, foldl_nil]
  have whole := later (events.drop time)
  rwa [take_append_drop] at whole

/-! ### Answers -/

theorem Sound.invoked (sound : Sound codec jobs world)
    {args : job.Args} (call : Call jobs job comps args) :
    (world.handle codec trie jobs (job.invocation comps)).2 =
      some (.ok (thunkData codec (job.invocation comps) (job.thunkName comps) job.estimate)) := by
  have kept : Sound codec jobs (world.step codec trie jobs (.interest (job.invocation comps))) :=
    interest_sound sound _
  exact kept.thunks job comps args call _ (mem_append_right _ (mem_singleton_self _))

theorem Sound.polled (sound : Sound codec jobs world)
    (found : task ∈ world.service.tasks) :
    (world.handle codec trie jobs task.key).2 = some
      (match task.result with
      | none => .ok (thunkData codec task.key task.key task.job.estimate)
      | some (.ok out) => .ok ⟨task.key, task.job.encode out, task.job.resultFreshness⟩
      | some (.error e) => .error (.handlerFailed e.display)) := by
  rcases sound.calls task found with ⟨comps, call, key, _⟩
  have routed : trie.lpm jobs.entries task.key = some (.poll task.job) := by
    rw [key]
    exact lpm_poll call.registered comps
  rw [World.handle, routed]
  change some (pollHandle codec task.job world.service task.key) = _
  rw [pollHandle, sound.holds task found, Task.state]
  cases task.result with
  | none => rfl
  | some result => cases result <;> rfl

end

end NdnExt.Compute
