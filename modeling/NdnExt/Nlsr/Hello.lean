import NdnExt.Nlsr.OwnLsa

/-! The hello tasks of the neighbours and the own AdjacencyLsa they install. -/

namespace NdnExt.Nlsr

open NdnExt.Lib HashMap

inductive NeighborState where
  | active
  | inactive
  deriving DecidableEq

structure HelloNeighborConfig where
  name : Name
  faceUri : String
  linkCost : ℚ

structure HelloConfig where
  ownRouter : Name
  neighbors : List HelloNeighborConfig
  lsaRefreshMs : Nat

structure NeighborEntry where
  state : NeighborState
  faceUri : String
  linkCost : ℚ
  deriving DecidableEq

/-- Where a task is inside a transition. -/
inductive HelloTask where
  | updated
  | collected (adjacencies : List Adjacent)
  | allocated (adjacencies : List Adjacent) (seq : Nat)
  deriving DecidableEq

/-- The task has yet to allocate its sequence number. -/
def HelloTask.pending : HelloTask → Bool
  | .allocated _ _ => false
  | _ => true

def setState (states : HashMap Name NeighborEntry) (neighbor : Name) (state : NeighborState) :
    HashMap Name NeighborEntry :=
  states.mapValues (fun name entry => if name = neighbor then { entry with state := state } else entry)

def activeAdjacents (states : HashMap Name NeighborEntry) : List Adjacent :=
  (states.pairs.filter (fun item => item.2.state = .active)).map (fun item =>
    { name := item.1, faceUri := item.2.faceUri, linkCost := item.2.linkCost })

/-- `tasks` has the neighbours whose task is inside a transition; `transitioned` records, for
the statements only, that there was one. -/
structure Hello where
  states : HashMap Name NeighborEntry
  lsdb : Lsdb
  adjSeq : Nat
  tasks : HashMap Name HelloTask
  transitioned : Bool

inductive HelloEvent where
  | helloData (neighbor : Name)
  | helloFailure (neighbor : Name)
  | collect (neighbor : Name)
  | fetchAdd (neighbor : Name)
  | install (neighbor : Name) (clock : Clock)

namespace Hello

def new (config : HelloConfig) (lsdb : Lsdb) : Hello where
  states := HashMap.ofPairs (config.neighbors.map (fun n =>
    (n.name, { state := .inactive, faceUri := n.faceUri, linkCost := n.linkCost })))
  lsdb := lsdb
  adjSeq := 1
  tasks := ∅
  transitioned := false

/-- The state update under the lock. The task goes on to a transition if the old state calls
for one. -/
def mark (hello : Hello) (neighbor : Name) (state : NeighborState)
    (transition : NeighborState → Bool) : Hello :=
  match hello.states.lookup neighbor with
  | none => hello
  | some entry =>
    if transition entry.state then
      { hello with
        states := setState hello.states neighbor state
        tasks := hello.tasks.insert neighbor .updated
        transitioned := true }
    else { hello with states := setState hello.states neighbor state }

def onHelloData (hello : Hello) (neighbor : Name) : Hello :=
  hello.mark neighbor .active (· ≠ .active)

def onHelloFailure (hello : Hello) (neighbor : Name) : Hello :=
  hello.mark neighbor .inactive (· = .active)

/-- The tasks of different neighbours interleave; one task takes its steps in order. -/
def step (config : HelloConfig) (hello : Hello) : HelloEvent → Option Hello
  | .helloData neighbor =>
    match hello.tasks.lookup neighbor with
    | none => some (hello.onHelloData neighbor)
    | some _ => none
  | .helloFailure neighbor =>
    match hello.tasks.lookup neighbor with
    | none => some (hello.onHelloFailure neighbor)
    | some _ => none
  | .collect neighbor =>
    match hello.tasks.lookup neighbor with
    | some .updated =>
      some { hello with
        tasks := hello.tasks.insert neighbor (.collected (activeAdjacents hello.states)) }
    | _ => none
  | .fetchAdd neighbor =>
    match hello.tasks.lookup neighbor with
    | some (.collected adjacencies) =>
      some { hello with
        tasks := hello.tasks.insert neighbor (.allocated adjacencies hello.adjSeq)
        adjSeq := nextSeq hello.adjSeq }
    | _ => none
  | .install neighbor clock =>
    match hello.tasks.lookup neighbor with
    | some (.allocated adjacencies seq) =>
      some { hello with
        lsdb := (hello.lsdb.buildOwnAdjLsa clock adjacencies seq config.lsaRefreshMs).1
        tasks := hello.tasks.erase neighbor }
    | _ => none

/-- The own AdjacencyLsa of the LSDB. -/
def ownAdj (hello : Hello) : Option Lsa := hello.lsdb.lookup hello.lsdb.ownRouter .adjacency

/-- The own AdjacencyLsa lists exactly the active neighbours. -/
def ListsActive (hello : Hello) : Prop :=
  ∃ lsa, hello.ownAdj = some (.adjacency lsa) ∧ lsa.adjacencies = activeAdjacents hello.states

/-- No task is inside a transition. -/
def Quiet (hello : Hello) : Prop := hello.tasks.keys = []

instance (hello : Hello) : Decidable hello.Quiet :=
  inferInstanceAs (Decidable (hello.tasks.keys = []))

variable {hello : Hello} {neighbor : Name}

theorem Quiet.lookup (quiet : hello.Quiet) (neighbor : Name) :
    hello.tasks.lookup neighbor = none := by
  rw [AList.lookup_eq_none, AList.mem_keys, quiet]
  exact List.not_mem_nil

def OtherPending (hello : Hello) (neighbor : Name) : Prop :=
  ∃ item ∈ hello.tasks.pairs, item.1 ≠ neighbor ∧ item.2.pending = true

instance (hello : Hello) (neighbor : Name) : Decidable (hello.OtherPending neighbor) :=
  inferInstanceAs (Decidable (∃ item ∈ hello.tasks.pairs, _))

/-- The number is allocated for a list that still is the active neighbours, unless another task
is to allocate a later one. -/
def FreshAllocation (hello : Hello) : HelloEvent → Prop
  | .fetchAdd neighbor =>
    hello.adjSeq + 1 < 2 ^ 64 ∧
      (hello.tasks.lookup neighbor = some (.collected (activeAdjacents hello.states)) ∨
        hello.OtherPending neighbor)
  | _ => True

instance (hello : Hello) (event : HelloEvent) : Decidable (hello.FreshAllocation event) :=
  match event with
  | .fetchAdd neighbor => inferInstanceAs (Decidable (hello.adjSeq + 1 < 2 ^ 64 ∧
      (hello.tasks.lookup neighbor = some (.collected (activeAdjacents hello.states)) ∨
        hello.OtherPending neighbor)))
  | .helloData _ => isTrue trivial
  | .helloFailure _ => isTrue trivial
  | .collect _ => isTrue trivial
  | .install _ _ => isTrue trivial

/-- The list with the newest sequence number, installed already or not. -/
def Newest (hello : Hello) (adjacencies : List Adjacent) : Prop :=
  ∃ seq, seq + 1 = hello.adjSeq ∧
    ((∃ neighbor, hello.tasks.lookup neighbor = some (.allocated adjacencies seq)) ∨
      ∃ lsa, hello.ownAdj = some (.adjacency lsa) ∧ lsa.seqNo = seq ∧
        lsa.adjacencies = adjacencies)

structure Invariant (hello : Hello) : Prop where
  stored : ∀ lsa, hello.ownAdj = some lsa → lsa.seqNo < hello.adjSeq
  allocated : ∀ neighbor adjacencies seq,
    hello.tasks.lookup neighbor = some (.allocated adjacencies seq) →
      seq < hello.adjSeq ∧ ∀ lsa, hello.ownAdj = some lsa → lsa.seqNo ≠ seq
  distinct : ∀ left right leftList rightList seq,
    hello.tasks.lookup left = some (.allocated leftList seq) →
      hello.tasks.lookup right = some (.allocated rightList seq) → left = right
  newest : (∀ neighbor task, hello.tasks.lookup neighbor = some task → task.pending = false) →
    hello.transitioned = true → hello.Newest (activeAdjacents hello.states)

theorem setState_same {states : HashMap Name NeighborEntry}
    {entry : NeighborEntry} (found : states.lookup neighbor = some entry) :
    setState states neighbor entry.state = states := by
  apply AList.ext
  conv_rhs => rw [← List.map_id states.entries]
  apply List.map_congr_left
  intro ⟨name, stored⟩ member
  by_cases same : name = neighbor
  · subst same
    have held : states.lookup name = some stored :=
      mem_pairs.mp (List.mem_map.mpr ⟨_, member, rfl⟩)
    rw [found] at held
    cases held
    simp
  · simp [same]

/-- A state update either changes nothing, or starts a transition. -/
theorem mark_cases (hello : Hello) (neighbor : Name) (state : NeighborState)
    (transition : NeighborState → Bool) (exact' : ∀ old, transition old = true ↔ old ≠ state) :
    hello.mark neighbor state transition = hello ∨
      hello.mark neighbor state transition =
        { hello with
          states := setState hello.states neighbor state
          tasks := hello.tasks.insert neighbor .updated
          transitioned := true } := by
  unfold mark
  cases found : hello.states.lookup neighbor with
  | none => exact Or.inl rfl
  | some entry =>
    by_cases moves : transition entry.state = true
    · exact Or.inr (if_pos moves)
    · left
      have same : entry.state = state := by
        by_contra other
        exact moves ((exact' _).mpr other)
      have kept := setState_same found
      rw [same] at kept
      exact (if_neg moves).trans (by rw [kept])

/-- A task that has yet to allocate leaves everything but its own phase alone. -/
theorem Invariant.pend {next : Hello} (invariant : hello.Invariant)
    {task : HelloTask} (pending : task.pending = true)
    (tasks : next.tasks = hello.tasks.insert neighbor task)
    (lsdb : next.lsdb = hello.lsdb) (adjSeq : next.adjSeq = hello.adjSeq) :
    next.Invariant := by
  have sameOwn : next.ownAdj = hello.ownAdj := by
    unfold ownAdj
    rw [lsdb]
  have before : ∀ other adjacencies seq,
      next.tasks.lookup other = some (.allocated adjacencies seq) →
        hello.tasks.lookup other = some (.allocated adjacencies seq) := by
    intro other adjacencies seq found
    rw [tasks, lookup_insert_eq] at found
    by_cases same : other = neighbor
    · rw [if_pos same] at found
      cases found
      cases pending
    · rw [if_neg same] at found
      exact found
  constructor
  · rw [sameOwn, adjSeq]
    exact invariant.stored
  · intro other adjacencies seq found
    rw [sameOwn, adjSeq]
    exact invariant.allocated other adjacencies seq (before other adjacencies seq found)
  · intro left right leftList rightList seq leftFound rightFound
    exact invariant.distinct left right leftList rightList seq (before _ _ _ leftFound)
      (before _ _ _ rightFound)
  · intro settled
    have own := settled neighbor task (by rw [tasks]; exact AList.lookup_insert _)
    rw [pending] at own
    cases own

theorem Invariant.fetchAdd (invariant : hello.Invariant)
    {adjacencies : List Adjacent}
    (task : hello.tasks.lookup neighbor = some (.collected adjacencies))
    (fresh : hello.FreshAllocation (.fetchAdd neighbor)) :
    Invariant { hello with
      tasks := hello.tasks.insert neighbor (.allocated adjacencies hello.adjSeq)
      adjSeq := nextSeq hello.adjSeq } := by
  have next := nextSeq_of_lt fresh.1
  have lookup : ∀ other, (hello.tasks.insert neighbor
      (.allocated adjacencies hello.adjSeq)).lookup other =
        if other = neighbor then some (.allocated adjacencies hello.adjSeq)
        else hello.tasks.lookup other := fun other => lookup_insert_eq _ _ _ _
  constructor
  · intro lsa held
    have older := invariant.stored lsa held
    simp only [next]
    omega
  · intro other otherList seq found
    simp only [lookup] at found
    by_cases same : other = neighbor
    · rw [if_pos same] at found
      cases found
      constructor
      · simp only [next]
        omega
      · intro lsa held
        exact Nat.ne_of_lt (invariant.stored lsa held)
    · rw [if_neg same] at found
      have before := invariant.allocated other otherList seq found
      constructor
      · simp only [next]
        omega
      · exact before.2
  · intro left right leftList rightList seq leftFound rightFound
    simp only [lookup] at leftFound rightFound
    by_cases leftSame : left = neighbor
    · by_cases rightSame : right = neighbor
      · exact leftSame.trans rightSame.symm
      · rw [if_pos leftSame] at leftFound
        rw [if_neg rightSame] at rightFound
        cases leftFound
        have older := (invariant.allocated right rightList _ rightFound).1
        omega
    · by_cases rightSame : right = neighbor
      · rw [if_neg leftSame] at leftFound
        rw [if_pos rightSame] at rightFound
        cases rightFound
        have older := (invariant.allocated left leftList _ leftFound).1
        omega
      · rw [if_neg leftSame] at leftFound
        rw [if_neg rightSame] at rightFound
        exact invariant.distinct left right leftList rightList seq leftFound rightFound
  · intro settled _
    refine ⟨hello.adjSeq, next.symm, Or.inl ⟨neighbor, ?_⟩⟩
    rcases fresh.2 with current | ⟨item, member, other, pending⟩
    · rw [task] at current
      cases current
      exact AList.lookup_insert _
    · have unsettled := settled item.1 item.2
        ((lookup item.1).trans ((if_neg other).trans (mem_pairs.mp member)))
      rw [pending] at unsettled
      cases unsettled

section Install

variable {hello : Hello} {config : HelloConfig} {clock : Clock} {adjacencies : List Adjacent}
  {seq : Nat}

/-- The own adjacency LSA built now is taken unless a later one is stored. -/
theorem accepts_ownAdjLsa (refreshes : 0 < config.lsaRefreshMs) :
    hello.lsdb.Accepts clock (hello.lsdb.ownAdjLsa clock adjacencies seq config.lsaRefreshMs) ↔
      ∀ old, hello.ownAdj = some old → old.seqNo < seq := by
  constructor
  · intro accepted old held
    rcases Option.map_eq_some_iff.mp held with ⟨entry, found, same⟩
    rw [← same]
    exact accepted.2 entry found
  · intro newer
    constructor
    · change clock.systemMs < clock.systemMs + config.lsaRefreshMs
      omega
    · intro entry found
      exact newer entry.lsa (Option.map_eq_some_iff.mpr ⟨entry, found, rfl⟩)

theorem ownAdj_build (tasks : HashMap Name HelloTask) :
    ({ hello with
        lsdb := (hello.lsdb.buildOwnAdjLsa clock adjacencies seq config.lsaRefreshMs).1
        tasks := tasks } : Hello).ownAdj =
      if hello.lsdb.Accepts clock (hello.lsdb.ownAdjLsa clock adjacencies seq config.lsaRefreshMs)
      then some (hello.lsdb.ownAdjLsa clock adjacencies seq config.lsaRefreshMs)
      else hello.ownAdj := by
  let lsa := hello.lsdb.ownAdjLsa clock adjacencies seq config.lsaRefreshMs
  have router : (hello.lsdb.install clock lsa).1.ownRouter = hello.lsdb.ownRouter :=
    Lsdb.ownRouter_install _ _ _
  change (hello.lsdb.install clock lsa).1.lookup (hello.lsdb.install clock lsa).1.ownRouter
    .adjacency = if hello.lsdb.Accepts clock lsa then some lsa else hello.ownAdj
  rw [router, Lsdb.lookup, Lsdb.store_install]
  by_cases accepted : hello.lsdb.Accepts clock lsa
  · rw [if_pos accepted, if_pos ⟨rfl, accepted⟩]
    rfl
  · rw [if_neg accepted, if_neg (fun both => accepted both.2)]
    rfl

/-- The newest LSA is the one installed now, or the task that builds it still waits, or it was
installed before and the one built now is refused. -/
theorem Invariant.newest_install (invariant : hello.Invariant) (refreshes : 0 < config.lsaRefreshMs)
    (task : hello.tasks.lookup neighbor = some (.allocated adjacencies seq))
    (settled : ∀ other task', (hello.tasks.erase neighbor).lookup other = some task' →
      task'.pending = false)
    (moved : hello.transitioned = true) :
    ({ hello with
        lsdb := (hello.lsdb.buildOwnAdjLsa clock adjacencies seq config.lsaRefreshMs).1
        tasks := hello.tasks.erase neighbor } : Hello).Newest (activeAdjacents hello.states) := by
  have allocated := invariant.allocated neighbor adjacencies seq task
  have stored := @ownAdj_build hello config clock adjacencies seq (hello.tasks.erase neighbor)
  have settledBefore : ∀ other task', hello.tasks.lookup other = some task' →
      task'.pending = false := by
    intro other task' found
    by_cases same : other = neighbor
    · subst same
      rw [task] at found
      cases found
      rfl
    · exact settled other task' (lookup_erase_eq_some.mpr ⟨same, found⟩)
  rcases invariant.newest settledBefore moved with ⟨newest, follows, waiting | installed⟩
  · rcases waiting with ⟨other, found⟩
    by_cases same : other = neighbor
    · subst same
      rw [task] at found
      cases found
      have newer : ∀ old, hello.ownAdj = some old → old.seqNo < seq := by
        intro old held
        have older := invariant.stored old held
        have other := allocated.2 old held
        omega
      rw [if_pos ((accepts_ownAdjLsa refreshes).mpr newer)] at stored
      exact ⟨seq, follows, Or.inr ⟨_, stored, rfl, rfl⟩⟩
    · exact ⟨newest, follows, Or.inl ⟨other, lookup_erase_eq_some.mpr ⟨same, found⟩⟩⟩
  · rcases installed with ⟨held, isOwn, number, lists⟩
    refine ⟨newest, follows, Or.inr ⟨held, ?_, number, lists⟩⟩
    rw [stored, if_neg, isOwn]
    intro accepted
    have newer : held.seqNo < seq := (accepts_ownAdjLsa refreshes).mp accepted _ isOwn
    omega

/-- The LSDB takes the LSA if its number is beyond the stored one, which the newest is. -/
theorem Invariant.install (invariant : hello.Invariant) (config : HelloConfig)
    (refreshes : 0 < config.lsaRefreshMs)
    (task : hello.tasks.lookup neighbor = some (.allocated adjacencies seq)) (clock : Clock) :
    Invariant { hello with
      lsdb := (hello.lsdb.buildOwnAdjLsa clock adjacencies seq config.lsaRefreshMs).1
      tasks := hello.tasks.erase neighbor } := by
  have stored := @ownAdj_build hello config clock adjacencies seq (hello.tasks.erase neighbor)
  have allocated := invariant.allocated neighbor adjacencies seq task
  constructor
  · intro held
    rw [stored]
    split
    · intro same
      cases same
      exact allocated.1
    · exact invariant.stored held
  · intro other otherList otherSeq found
    rcases lookup_erase_eq_some.mp found with ⟨different, earlier⟩
    refine ⟨(invariant.allocated other otherList otherSeq earlier).1, ?_⟩
    intro held
    rw [stored]
    split
    · intro own same
      cases own
      apply different
      have equal : seq = otherSeq := same
      subst equal
      exact invariant.distinct other neighbor _ _ seq earlier task
    · exact (invariant.allocated other otherList otherSeq earlier).2 held
  · intro left right leftList rightList otherSeq leftFound rightFound
    exact invariant.distinct left right leftList rightList otherSeq
      (lookup_erase_eq_some.mp leftFound).2 (lookup_erase_eq_some.mp rightFound).2
  · intro settled moved
    exact invariant.newest_install refreshes task settled moved

end Install

theorem Invariant.step {hello next : Hello} (invariant : hello.Invariant) (config : HelloConfig)
    (refreshes : 0 < config.lsaRefreshMs) (event : HelloEvent)
    (fresh : hello.FreshAllocation event) (taken : hello.step config event = some next) :
    next.Invariant := by
  have marked : ∀ neighbor state transition,
      (∀ old, transition old = true ↔ old ≠ state) →
        (hello.mark neighbor state transition).Invariant := by
    intro neighbor state transition exact'
    rcases hello.mark_cases neighbor state transition exact' with same | moved
    · rw [same]
      exact invariant
    · rw [moved]
      exact invariant.pend rfl rfl rfl rfl
  cases event with
  | helloData neighbor =>
    simp only [Hello.step] at taken
    split at taken
    · cases taken
      exact marked neighbor .active _ (fun old => by cases old <;> decide)
    · cases taken
  | helloFailure neighbor =>
    simp only [Hello.step] at taken
    split at taken
    · cases taken
      exact marked neighbor .inactive _ (fun old => by cases old <;> decide)
    · cases taken
  | collect neighbor =>
    simp only [Hello.step] at taken
    split at taken
    · cases taken
      exact invariant.pend rfl rfl rfl rfl
    · cases taken
  | fetchAdd neighbor =>
    simp only [Hello.step] at taken
    split at taken
    · rename_i adjacencies task
      cases taken
      exact invariant.fetchAdd task fresh
    · cases taken
  | install neighbor clock =>
    simp only [Hello.step] at taken
    split at taken
    · rename_i adjacencies seq task
      cases taken
      exact invariant.install config refreshes task clock
    · cases taken

theorem invariant_new (config : HelloConfig) :
    (new config (Lsdb.new config.ownRouter)).Invariant := by
  constructor
  · intro lsa held
    cases held
  · intro neighbor adjacencies seq found
    cases found
  · intro left right leftList rightList seq found
    cases found
  · intro settled moved
    cases moved

/-- Whenever no task is inside a transition and there was one, the own AdjacencyLsa lists the
active neighbours, provided no number was allocated for an outdated list. -/
theorem adj_lsa_lists_active (config : HelloConfig) (refreshes : 0 < config.lsaRefreshMs)
    {hello : Hello}
    (reaches : System.Reaches (step config) FreshAllocation
      (new config (Lsdb.new config.ownRouter)) hello)
    (quiet : hello.Quiet) (moved : hello.transitioned = true) : hello.ListsActive := by
  have invariant := reaches.invariant Invariant (invariant_new config)
    (fun state event next holds fresh taken =>
      Invariant.step holds config refreshes event fresh taken)
  have settled : ∀ neighbor task, hello.tasks.lookup neighbor = some task →
      task.pending = false := by
    intro neighbor task found
    rw [quiet.lookup neighbor] at found
    cases found
  rcases invariant.newest settled moved with ⟨seq, -, waiting | ⟨lsa, held, -, lists⟩⟩
  · rcases waiting with ⟨neighbor, found⟩
    rw [quiet.lookup neighbor] at found
    cases found
  · exact ⟨lsa, held, lists⟩

def twoNeighbors : HelloConfig where
  ownRouter := Name.single 1
  neighbors := [⟨Name.single 2, "udp4://10.0.0.2:6363", 10⟩,
    ⟨Name.single 3, "udp4://10.0.0.3:6363", 10⟩]
  lsaRefreshMs := 1800000

def helloStart : Hello := new twoNeighbors (Lsdb.new twoNeighbors.ownRouter)

/-- Both neighbours come up at once; the one that collects first allocates last. -/
def overlapping : List HelloEvent :=
  [.helloData (Name.single 2), .helloData (Name.single 3), .collect (Name.single 2),
   .collect (Name.single 3), .fetchAdd (Name.single 3), .fetchAdd (Name.single 2),
   .install (Name.single 2) ⟨0, 0⟩, .install (Name.single 3) ⟨0, 0⟩]

theorem adj_lsa_lists_active_overlapping :
    ∃ hello, System.runAllowed (step twoNeighbors) FreshAllocation helloStart overlapping =
        some hello ∧ hello.ListsActive := by
  have outcome : ∃ hello ∈ System.runAllowed (step twoNeighbors) FreshAllocation helloStart
      overlapping, hello.Quiet ∧ hello.transitioned = true := by decide
  rcases outcome with ⟨hello, run, quiet, moved⟩
  refine ⟨hello, run, ?_⟩
  exact adj_lsa_lists_active twoNeighbors (by decide)
    (System.reaches_runAllowed System.Reaches.start run) quiet moved

/-- The first neighbour's list is collected before the second one comes up, and numbered
after the second one's list is installed. -/
def outdated : List HelloEvent :=
  [.helloData (Name.single 2), .collect (Name.single 2), .helloData (Name.single 3),
   .collect (Name.single 3), .fetchAdd (Name.single 3), .install (Name.single 3) ⟨0, 0⟩,
   .fetchAdd (Name.single 2), .install (Name.single 2) ⟨0, 0⟩]

theorem transition_lost :
    ¬ ∀ hello, System.Reachable (step twoNeighbors) helloStart hello → hello.Quiet →
      hello.transitioned = true → hello.ListsActive := by
  have outcome : ∃ hello ∈ System.runAllowed (step twoNeighbors) (fun _ _ => True) helloStart
      outdated, hello.Quiet ∧ hello.transitioned = true ∧
        hello.ownAdj = some (.adjacency ⟨Name.single 1, 2, 1800000,
          [⟨Name.single 2, "udp4://10.0.0.2:6363", 10⟩]⟩) ∧
        (activeAdjacents hello.states).length = 2 := by decide
  rcases outcome with ⟨hello, run, quiet, moved, stored, active⟩
  intro all
  rcases all hello (System.reaches_runAllowed System.Reaches.start run) quiet moved with
    ⟨lsa, held, lists⟩
  rw [stored] at held
  cases held
  rw [← lists] at active
  revert active
  decide

end Hello
end NdnExt.Nlsr
