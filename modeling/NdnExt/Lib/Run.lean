import Mathlib.Data.List.Basic
import Mathlib.Data.List.Induction
/-! Runs of a step function over a list of inputs. -/

namespace NdnExt.Lib.Run

variable {S I : Type} (step : S → I → S)

/-- `holds` of every step of the run: of the state before it and of its input. -/
def Throughout (start : S) (inputs : List I) (holds : S → I → Prop) : Prop :=
  ∀ earlier input later, inputs = earlier ++ input :: later →
    holds (earlier.foldl step start) input

variable {step}

theorem throughout_nil (start : S) (holds : S → I → Prop) : Throughout step start [] holds := by
  intro earlier input later same
  cases earlier <;> cases same

theorem throughout_cons {start : S} {input : I} {rest : List I} {holds : S → I → Prop} :
    Throughout step start (input :: rest) holds ↔
      holds start input ∧ Throughout step (step start input) rest holds := by
  constructor
  · intro all
    refine ⟨all [] input rest rfl, ?_⟩
    intro earlier next later same
    exact all (input :: earlier) next later (by rw [same]; rfl)
  · intro both earlier next later same
    cases earlier with
    | nil =>
      cases same
      exact both.1
    | cons head tail =>
      cases same
      exact both.2 tail next later rfl

instance decidableThroughout {holds : S → I → Prop} [∀ state input, Decidable (holds state input)] :
    (start : S) → (inputs : List I) → Decidable (Throughout step start inputs holds)
  | start, [] => .isTrue (throughout_nil start holds)
  | start, input :: rest =>
    have : Decidable (Throughout step (step start input) rest holds) :=
      decidableThroughout (step start input) rest
    decidable_of_decidable_of_iff (@throughout_cons S I step start input rest holds).symm

theorem throughout_append {start : S} {inputs more : List I} {holds : S → I → Prop} :
    Throughout step start (inputs ++ more) holds ↔
      Throughout step start inputs holds ∧ Throughout step
    (inputs.foldl step start) more holds := by
  induction inputs generalizing start with
  | nil => simp [throughout_nil]
  | cons input rest ih =>
    rw [List.cons_append, throughout_cons, throughout_cons, ih, List.foldl_cons, and_assoc]

theorem throughout_append_singleton {start : S} {inputs : List I} {input : I}
    {holds : S → I → Prop} :
    Throughout step start (inputs ++ [input]) holds ↔
      Throughout step start inputs holds ∧ holds (inputs.foldl step start) input := by
  rw [throughout_append, throughout_cons]
  exact and_congr_right fun _ => and_iff_left (throughout_nil _ _)

/-- What every step of a run keeps holds after it. -/
theorem foldl_of_throughout {invariant : S → Prop} {holds : S → I → Prop}
    (keeps : ∀ state input, invariant state → holds state input → invariant (step state input))
    {start : S} (begins : invariant start) {inputs : List I}
    (all : Throughout step start inputs holds) : invariant (inputs.foldl step start) := by
  induction inputs generalizing start with
  | nil => exact begins
  | cons input rest ih =>
    rcases throughout_cons.mp all with ⟨now, later⟩
    exact ih (keeps start input begins now) later

/-- A condition on the inputs alone. -/
theorem throughout_inputs {start : S} {inputs : List I} {holds : I → Prop} :
    Throughout step start inputs (fun _ input => holds input) ↔ ∀ input ∈ inputs, holds input := by
  induction inputs generalizing start with
  | nil => exact iff_of_true (throughout_nil start _) (by simp)
  | cons input rest ih => rw [throughout_cons, ih, List.forall_mem_cons]

/-- Where an invariant makes the two equivalent at each step and follows from the first one,
they are equivalent throughout. -/
theorem throughout_iff (invariant : S → Prop) {result condition : S → I → Prop}
    (exact' : ∀ state input, invariant state → (result state input ↔ condition state input))
    (keeps : ∀ state input, invariant state → result state input → invariant (step state input))
    {start : S} (holds : invariant start) (inputs : List I) :
    Throughout step start inputs result ↔ Throughout step start inputs condition := by
  induction inputs generalizing start with
  | nil => exact iff_of_true (throughout_nil start _) (throughout_nil start _)
  | cons input rest ih =>
    rw [throughout_cons, throughout_cons, exact' start input holds]
    apply and_congr_right
    intro now
    exact ih (keeps start input holds ((exact' start input holds).mpr now))

section Latest

variable {I A : Type}

/-- What is read in the last input that has something to read. -/
def latest (read : I → Option A) (inputs : List I) : Option A := inputs.reverse.findSome? read

@[simp] theorem latest_append_singleton (read : I → Option A) (inputs : List I) (input : I) :
    latest read (inputs ++ [input]) = (read input).or (latest read inputs) := by
  unfold latest
  rw [List.reverse_append, List.reverse_singleton, List.singleton_append, List.findSome?_cons]
  cases read input <;> rfl

theorem latest_eq_none {read : I → Option A} {inputs : List I} :
    latest read inputs = none ↔ ∀ input ∈ inputs, read input = none := by
  unfold latest
  simp only [List.findSome?_eq_none_iff, List.mem_reverse]

/-- Where the last input of a kind is read, and nothing but inputs of that kind, it is what is
read last. -/
theorem latest_of_kind {read : I → Option A} {kind : I → Bool}
    (only : ∀ input a, read input = some a → kind input = true) {inputs : List I} {last : I}
    (found : latest (Option.guard kind) inputs = some last) {a : A} (reads : read last = some a) :
    latest read inputs = some a := by
  induction inputs using List.reverseRecOn with
  | nil => cases found
  | append_singleton inputs input ih =>
    rw [latest_append_singleton] at found ⊢
    by_cases isKind : kind input = true
    · rw [Option.guard_eq_some_iff.mpr ⟨rfl, isKind⟩, Option.some_or] at found
      cases found
      rw [reads, Option.some_or]
    · have unread : read input = none :=
        Option.eq_none_iff_forall_ne_some.mpr fun b some => isKind (only input b some)
      rw [Option.guard_eq_none_iff.mpr (by simpa using isKind), Option.none_or] at found
      rw [unread, Option.none_or]
      exact ih found

theorem kind_of_latest {kind : I → Bool} {inputs : List I} {last : I}
    (found : latest (Option.guard kind) inputs = some last) : kind last = true := by
  rcases List.exists_of_findSome?_eq_some found with ⟨input, _, guarded⟩
  have both := Option.guard_eq_some_iff.mp guarded
  rw [← both.1]
  exact both.2

theorem latest_guard_append {kind : I → Bool} (inputs : List I) (input : I) :
    latest (Option.guard kind) (inputs ++ [input]) =
      if kind input then some input else latest (Option.guard kind) inputs := by
  rw [latest_append_singleton, Option.guard]
  split <;> rfl

end Latest

end NdnExt.Lib.Run

/-! ### Systems with guarded steps: an event that is not enabled has no next state -/

namespace NdnExt.Lib.System

variable {S E : Type}

/-- The states that runs whose steps are all allowed can be in. -/
inductive Reaches (step : S → E → Option S) (allowed : S → E → Prop) (start : S) : S → Prop
  | start : Reaches step allowed start start
  | step {state next : S} {event : E} : Reaches step allowed start state → allowed state event →
      step state event = some next → Reaches step allowed start next

/-- The states that any run can be in. -/
abbrev Reachable (step : S → E → Option S) (start : S) : S → Prop :=
  Reaches step (fun _ _ => True) start

variable {step : S → E → Option S} {allowed : S → E → Prop} {start : S}

theorem Reaches.invariant {state : S} (reaches : Reaches step allowed start state) (P : S → Prop)
    (initial : P start)
    (keeps : ∀ state event next, P state → allowed state event → step state event = some next →
      P next) : P state := by
  induction reaches with
  | start => exact initial
  | step _ allows taken ih => exact keeps _ _ _ ih allows taken

/-- A run of the given events, none of which may be disallowed or disabled. -/
def runAllowed (step : S → E → Option S) (allowed : S → E → Prop)
    [∀ state event, Decidable (allowed state event)] (start : S) (events : List E) : Option S :=
  events.foldlM (fun state event => if allowed state event then step state event else none) start

theorem reaches_runAllowed [∀ state event, Decidable (allowed state event)] {events : List E}
    {state middle : S} (reaches : Reaches step allowed start middle)
    (run : runAllowed step allowed middle events = some state) :
    Reaches step allowed start state := by
  induction events generalizing middle with
  | nil =>
    cases run
    exact reaches
  | cons event rest ih =>
    simp only [runAllowed, List.foldlM_cons, Option.bind_eq_bind, Option.bind_eq_some_iff] at run
    rcases run with ⟨next, taken, run⟩
    split at taken
    · exact ih (reaches.step ‹_› taken) run
    · cases taken

end NdnExt.Lib.System
