/-! Results of code that can return an error and can also panic. -/

namespace NdnExt.Lib

inductive Outcome (E A : Type) where
  | ok (value : A)
  | err (error : E)
  | panic
  deriving DecidableEq

namespace Outcome

variable {E A B : Type}

def bind (outcome : Outcome E A) (next : A → Outcome E B) : Outcome E B :=
  match outcome with
  | ok value => next value
  | err error => err error
  | panic => panic

instance : Monad (Outcome E) where
  pure := ok
  bind := bind

/-- The value of an `Option`, with `error` for a missing one. -/
def okOr (found : Option A) (error : E) : Outcome E A :=
  match found with
  | some value => ok value
  | none => err error

/-- Arithmetic that stops the program where the result does not exist. -/
def checked (found : Option A) : Outcome E A :=
  match found with
  | some value => ok value
  | none => panic

@[simp] theorem pure_eq (value : A) : (pure value : Outcome E A) = ok value := rfl

@[simp] theorem ok_bind (value : A) (next : A → Outcome E B) : (ok value >>= next) = next value :=
  rfl

@[simp] theorem err_bind (error : E) (next : A → Outcome E B) : (err error >>= next) = err error :=
  rfl

@[simp] theorem panic_bind (next : A → Outcome E B) : ((panic : Outcome E A) >>= next) = panic :=
  rfl

@[simp] theorem okOr_some (value : A) (error : E) : okOr (some value) error = ok value := rfl

@[simp] theorem okOr_none (error : E) : (okOr none error : Outcome E A) = err error := rfl

theorem okOr_ne_panic (found : Option A) (error : E) : okOr found error ≠ panic := by
  cases found <;> nofun

theorem bind_eq_panic {outcome : Outcome E A} {next : A → Outcome E B} :
    (outcome >>= next) = panic ↔ outcome = panic ∨ ∃ value, outcome = ok value ∧
      next value = panic := by
  cases outcome with
  | ok value => simp only [ok_bind, ok.injEq, exists_eq_left', reduceCtorEq, false_or]
  | err error => simp only [err_bind, reduceCtorEq, false_and, exists_false, or_self]
  | panic => simp only [panic_bind, true_or]

theorem bind_eq_ok {outcome : Outcome E A} {next : A → Outcome E B} {result : B} :
    (outcome >>= next) = ok result ↔ ∃ value, outcome = ok value ∧ next value = ok result := by
  cases outcome with
  | ok value => simp only [ok_bind, ok.injEq, exists_eq_left']
  | err error => simp only [err_bind, reduceCtorEq, false_and, exists_false]
  | panic => simp only [panic_bind, reduceCtorEq, false_and, exists_false]

theorem bind_ne_panic {outcome : Outcome E A} {next : A → Outcome E B}
    (returns : outcome ≠ panic) (goesOn : ∀ value, next value ≠ panic) :
    (outcome >>= next) ≠ panic := by
  intro stops
  rcases bind_eq_panic.mp stops with first | ⟨value, _, later⟩
  · exact returns first
  · exact goesOn value later

theorem okOr_eq_ok {found : Option A} {error : E} {value : A} :
    okOr found error = ok value ↔ found = some value := by
  cases found with
  | none => simp only [okOr_none, reduceCtorEq]
  | some other => simp only [okOr_some, ok.injEq, Option.some.injEq]

end Outcome
end NdnExt.Lib
