import NdnExt.Compute.Jobs

/-! What a job owes its callers: one run, and its result to each client. -/

namespace NdnExt.Compute

/-! ### A client -/

inductive ClientError where
  | app
  | noContent
  | decode (error : ComputeError)
  | jobTimeout

/-- What fetching a name gives: the content of the Data, or a failure. -/
abbrev Fetched := Except Unit (Option Bytes)

/-- An Interest that no Data answers times out. -/
def fetched : Option (Except ComputeError Data) → Fetched
  | some (.ok data) => .ok (some data.content)
  | _ => .error ()

/-- The polls of `run_job`, each with what the network answers at that time and whether the deadline
is past; none while the client still waits. -/
def pollJob (codec : ThunkCodec) (job : Job) (thunkName : Name) :
    List ((Name → Fetched) × Bool) → Option (Except ClientError job.Out)
  | [] => none
  | (network, overdue) :: rest =>
    match network thunkName with
    | .error _ => some (.error .app)
    | .ok none => some (.error .noContent)
    | .ok (some content) =>
      if Thunk.contentIsThunk codec content then
        if overdue then some (.error .jobTimeout) else pollJob codec job thunkName rest
      else
        match job.decode content with
        | .error e => some (.error (.decode e))
        | .ok out => some (.ok out)

def runJob (codec : ThunkCodec) (job : Job) (invoked : Fetched)
    (polls : List ((Name → Fetched) × Bool)) : Option (Except ClientError job.Out) :=
  match invoked with
  | .error _ => some (.error .app)
  | .ok none => some (.error .noContent)
  | .ok (some content) =>
    match Thunk.fromContent codec content with
    | none =>
      some (.error (.decode (.handlerFailed "job invocation did not return a thunk")))
    | some thunk => pollJob codec job thunk.thunkName polls

section

variable (codec : ThunkCodec) (trie : NameTrie) (jobs : Jobs)

/-- What a client fetches at a time of a run. -/
def networkAt (events : List Event) (time : Nat) (name : Name) : Fetched :=
  fetched ((World.run codec trie jobs (events.take time)).handle codec trie jobs name).2

structure RunsOnce (events : List Event) : Prop where
  started : ∀ job comps args, Call jobs job comps args →
    job.invocation comps ∈ (World.run codec trie jobs events).log.map (·.1) →
      ((World.run codec trie jobs events).service.tasks.map Task.key).count (job.thunkName comps) =
          1 ∧
        ∃ result, ⟨job.thunkName comps, job, args, result⟩ ∈
          (World.run codec trie jobs events).service.tasks
  unstarted : ∀ job comps args, Call jobs job comps args →
    job.invocation comps ∉ (World.run codec trie jobs events).log.map (·.1) →
      job.thunkName comps ∉ (World.run codec trie jobs events).service.tasks.map Task.key
  thunks : ∀ job comps args, Call jobs job comps args → ∀ answer,
    (job.invocation comps, answer) ∈ (World.run codec trie jobs events).log →
      ∃ content, answer = some (.ok ⟨job.invocation comps, content, none⟩) ∧
        (Thunk.fromContent codec content).map Thunk.thunkName = some (job.thunkName comps)
  distinct : ∀ job comps args job' comps' args', Call jobs job comps args →
    Call jobs job' comps' args' → job.thunkName comps = job'.thunkName comps' →
      job = job' ∧ comps = comps'
  polled : ∀ task ∈ (World.run codec trie jobs events).service.tasks,
    ((World.run codec trie jobs events).handle codec trie jobs task.key).2 = some
      (match task.result with
      | none => .ok (thunkData codec task.key task.key task.job.estimate)
      | some (.ok out) => .ok ⟨task.key, task.job.encode out, task.job.resultFreshness⟩
      | some (.error e) => .error (.handlerFailed e.display))
  /-- A client that polls while the job is pending, and then once it has completed. -/
  client : ∀ job comps args, Call jobs job comps args → ∀ (invoked : Nat)
    (waits : List Nat) (time : Nat) (out : job.Out) (overdue : Bool)
    (more : List ((Name → Fetched) × Bool)), (∀ wait ∈ waits, ⟨job.thunkName comps, job, args, none⟩ ∈
      (World.run codec trie jobs (events.take wait)).service.tasks) →
    ⟨job.thunkName comps, job, args, some (.ok out)⟩ ∈
      (World.run codec trie jobs (events.take time)).service.tasks →
    runJob codec job (networkAt codec trie jobs events invoked (job.invocation comps))
      ((waits.map fun wait => (networkAt codec trie jobs events wait, false)) ++
        (networkAt codec trie jobs events time, overdue) :: more) = some (.ok out)

variable {codec trie jobs}

/-! ### What a client sees -/

variable {job : Job} {comps : List NameComponent}

theorem pollJob_wait {name : Name} {network : Name → Fetched} {thunk : Thunk}
    (answer : network name = .ok (some (thunk.toContent codec)))
    (rest : List ((Name → Fetched) × Bool)) :
    pollJob codec job name ((network, false) :: rest) = pollJob codec job name rest := by
  rw [pollJob, answer]
  dsimp only
  rw [if_pos (Thunk.contentIsThunk_toContent codec thunk), if_neg (by decide)]

variable {events : List Event}

theorem networkAt_invoked {args : job.Args}
    (call : Call jobs job comps args) (time : Nat) :
    networkAt codec trie jobs events time (job.invocation comps) =
      .ok (some ((Thunk.mk (job.thunkName comps) job.estimate).toContent codec)) := by
  rw [networkAt, (run_sound (events.take time)).invoked call]
  rfl

theorem networkAt_pending {key : Name} {args : job.Args} {time : Nat}
    (pending : ⟨key, job, args, none⟩ ∈
      (World.run codec trie jobs (events.take time)).service.tasks) :
    networkAt codec trie jobs events time key =
      .ok (some ((Thunk.mk key job.estimate).toContent codec)) := by
  rw [networkAt, (run_sound (events.take time)).polled pending]
  rfl

theorem networkAt_done {key : Name} {args : job.Args} {out : job.Out} {time : Nat}
    (finished : ⟨key, job, args, some (.ok out)⟩ ∈
      (World.run codec trie jobs (events.take time)).service.tasks) :
    networkAt codec trie jobs events time key = .ok (some (job.encode out)) := by
  rw [networkAt, (run_sound (events.take time)).polled finished]
  rfl

theorem runJob_invoked {args : job.Args}
    (call : Call jobs job comps args) (time : Nat) (polls : List ((Name → Fetched) × Bool)) :
    runJob codec job (networkAt codec trie jobs events time (job.invocation comps)) polls =
      pollJob codec job (job.thunkName comps) polls := by
  rw [networkAt_invoked call, runJob, Thunk.fromContent_toContent]

/-- A result whose bytes begin like a thunk is taken for one. -/
theorem RunsOnce.results_plain (once : RunsOnce codec trie jobs events) {task : Task}
    (found : task ∈ (World.run codec trie jobs events).service.tasks) {out : task.job.Out}
    (done : task.result = some (.ok out)) :
    Thunk.contentIsThunk codec (task.job.encode out) = false := by
  rcases (run_sound events).calls task found with ⟨comps, call, key, _⟩
  rcases task with ⟨taskKey, job, args, result⟩
  dsimp only at key done call out ⊢
  subst key done
  have finished : ⟨job.thunkName comps, job, args, some (.ok out)⟩ ∈
      (World.run codec trie jobs (events.take events.length)).service.tasks := by
    rw [List.take_length]
    exact found
  have fetched := once.client job comps args call 0 [] events.length out true []
    (List.forall_mem_nil _) finished
  rw [runJob_invoked call, List.map_nil, List.nil_append, pollJob, networkAt_done finished] at fetched
  dsimp only at fetched
  by_contra thunkLike
  rw [Bool.not_eq_false] at thunkLike
  rw [if_pos thunkLike, if_pos rfl] at fetched
  cases fetched

section

variable (plain : ∀ task ∈ (World.run codec trie jobs events).service.tasks, ∀ out, task.result =
  some (.ok out) → Thunk.contentIsThunk codec (task.job.encode out) = false)
include plain

theorem client_gets_result {args : job.Args} (call : Call jobs job comps args)
    (invoked : Nat) {waits : List Nat}
    (pending : ∀ wait ∈ waits, ⟨job.thunkName comps, job, args, none⟩ ∈
      (World.run codec trie jobs (events.take wait)).service.tasks)
    {time : Nat} {out : job.Out} (finished : ⟨job.thunkName comps, job, args, some (.ok out)⟩ ∈
      (World.run codec trie jobs (events.take time)).service.tasks)
    (overdue : Bool) (more : List ((Name → Fetched) × Bool)) :
    runJob codec job (networkAt codec trie jobs events invoked (job.invocation comps))
      ((waits.map fun wait => (networkAt codec trie jobs events wait, false)) ++
        (networkAt codec trie jobs events time, overdue) :: more) = some (.ok out) := by
  rw [runJob_invoked call]
  induction waits with
  | nil =>
    have bytes := plain _ (run_keeps finished rfl) out rfl
    rw [List.map_nil, List.nil_append, pollJob, networkAt_done finished]
    dsimp only
    rw [if_neg (by rw [bytes]; decide), job.decode_encode]
  | cons wait rest ih =>
    rw [List.forall_mem_cons] at pending
    rw [List.map_cons, List.cons_append, pollJob_wait (networkAt_pending pending.1)]
    exact ih pending.2

theorem runs_once_of_plain :
    RunsOnce codec trie jobs events where
  started := by
    intro job comps args call logged
    rcases (run_sound events).started job comps args call logged with ⟨result, found⟩
    exact ⟨List.count_eq_one_of_mem (run_sound events).nodup (List.mem_map_of_mem found),
      result, found⟩
  unstarted := by
    intro job comps args call unlogged keyed
    rcases List.mem_map.mp keyed with ⟨task, found, key⟩
    rcases (run_sound events).calls task found with ⟨comps', call', key', logged⟩
    rcases thunkName_inj call.registered call'.registered (key.symm.trans key') with ⟨same, same'⟩
    rw [← same, ← same'] at logged
    exact unlogged logged
  thunks := by
    intro job comps args call answer logged
    refine ⟨_, (run_sound events).thunks job comps args call answer logged, ?_⟩
    rw [Thunk.fromContent_toContent]
    rfl
  distinct := by
    intro job comps args job' comps' args' call call' same
    exact thunkName_inj call.registered call'.registered same
  polled := fun task found => (run_sound events).polled found
  client := by
    intro job comps args call invoked waits time out overdue more pending finished
    exact client_gets_result plain call invoked pending finished overdue more

end

variable (codec trie jobs events)

/-- The one thing that goes wrong: a result that begins with the type of a thunk. -/
theorem runs_once_iff : RunsOnce codec trie jobs events ↔
    ∀ task ∈ (World.run codec trie jobs events).service.tasks, ∀ out,
      task.result = some (.ok out) → Thunk.contentIsThunk codec (task.job.encode out) = false :=
  ⟨fun once _ found _ done => once.results_plain found done, runs_once_of_plain⟩

end

/-! ### A result that looks like a thunk -/

def depth (entry : Name × Handler) : Nat := entry.1.components.length

def longestPrefix : NameTrie where
  lpm entries name :=
    ((entries.filter fun entry => entry.1.components.isPrefixOf name.components).argmax depth).map
      (·.2)
  longest := by
    intro entries name front handler entry ahead longest
    have member : (front, handler) ∈
        entries.filter fun entry => entry.1.components.isPrefixOf name.components :=
      List.mem_filter.mpr ⟨entry, List.isPrefixOf_iff_prefix.mpr ahead⟩
    cases best : (entries.filter fun entry =>
        entry.1.components.isPrefixOf name.components).argmax depth with
    | none =>
      rw [List.argmax_eq_none.mp best] at member
      cases member
    | some other =>
      have among := List.mem_filter.mp (List.argmax_mem best)
      have deepest : ¬depth other < depth (front, handler) :=
        List.not_lt_of_mem_argmax member best
      rcases longest other among.1 (List.isPrefixOf_iff_prefix.mp among.2) with rfl | shorter
      · rfl
      · exact absurd shorter deepest
  among := by
    intro entries name handler found
    rcases Option.map_eq_some_iff.mp found with ⟨⟨front, other⟩, best, rfl⟩
    have among := List.mem_filter.mp (List.argmax_mem best)
    exact ⟨front, among.1, List.isPrefixOf_iff_prefix.mp among.2⟩

/-- A job `/job` that takes no arguments and returns bytes. -/
def bytesJob : Job where
  namePrefix := ⟨[.generic [106, 111, 98]]⟩
  determinism := .transparent
  estimate := 0
  Args := Unit
  Out := Bytes
  fromComponents _ := .ok ()
  encode out := out
  decode bytes := .ok bytes
  decode_encode _ := rfl

def bytesJobs : Jobs where
  list := [bytesJob]
  free := by
    intro i member j member' _
    rw [List.mem_singleton.mp member, List.mem_singleton.mp member']

/-- The job is invoked and returns an empty TLV of the type 0xC910. -/
def thunkLikeRun : List Event :=
  [.interest bytesJob.namePrefix, .complete 0 fun job => job.decode [253, 201, 16, 0]]

theorem thunk_like_result_times_out :
    ¬RunsOnce thunkCodec longestPrefix bytesJobs thunkLikeRun := by
  intro once
  have found : (⟨bytesJob.thunkRoot, bytesJob, (), some (.ok [253, 201, 16, 0])⟩ : Task) ∈
      (World.run thunkCodec longestPrefix bytesJobs thunkLikeRun).service.tasks := by
    have whole : (World.run thunkCodec longestPrefix bytesJobs thunkLikeRun).service.tasks =
        [⟨bytesJob.thunkRoot, bytesJob, (), some (.ok [253, 201, 16, 0])⟩] := by
      with_unfolding_all rfl
    rw [whole]
    exact List.mem_singleton_self _
  have plain := once.results_plain found rfl
  revert plain
  decide

end NdnExt.Compute
