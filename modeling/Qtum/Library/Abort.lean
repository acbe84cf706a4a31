import Mathlib.Data.List.Basic

/-! How a C++ function can end without returning a value: by an operation
whose behaviour the language leaves undefined, by a failed `assert`, by an
exception that leaves the function, or by never ending. A modelled function returns
`Except Abort α`: `.ok` is a normal return and `.error` one of these. The
lemmas, for any type of errors, are the inversion rules for `bind` that
proofs peel computations apart with, and `failureOf`, through which `decide`
evaluates a run on a fixed input. -/

/-- The ways a function ends other than by returning. -/
inductive Abort
  /-- Dereferencing a null pointer. -/
  | nullDereference
  /-- `front()`, `back()` or `pop_back()` on an empty container. -/
  | emptyAccess
  /-- An index past the end of a sequence read with `operator[]`. -/
  | outOfRange
  /-- A failed `assert`, which stops the process. -/
  | assertion
  /-- A signed integer operation whose result the type cannot hold. -/
  | overflow
  /-- An exception that propagates out of the function. -/
  | exception
  /-- Reading a variable that was never assigned. -/
  | uninitializedRead
  /-- A loop whose state repeats without meeting its exit condition. -/
  | nonTermination
  deriving DecidableEq, Repr

namespace Abort

variable {ε α β : Type}

theorem bind_ok {first : Except ε α} {next : α → Except ε β} {result : β}
    (ok : (first >>= next) = .ok result) : ∃ value, first = .ok value ∧ next value = .ok result := by
  cases first with
  | error failure => cases ok
  | ok value => exact ⟨value,rfl,ok⟩

theorem bind_error {first : Except ε α} {next : α → Except ε β} {failure : ε}
    (failed : first = .error failure) : (first >>= next) = .error failure := by
  rw [failed]
  rfl

/-- A chain of binds fails where its first computation fails, or where it
returns and the rest fails. -/
theorem bind_eq_error {first : Except ε α} {next : α → Except ε β} {failure : ε}
    (failed : (first >>= next) = .error failure) :
    first = .error failure ∨ ∃ value, first = .ok value ∧ next value = .error failure := by
  cases first with
  | error other =>
    cases failed
    exact .inl rfl
  | ok value => exact .inr ⟨value,rfl,failed⟩

/-- The rule for a failure that no step of a chain of binds ends in. -/
theorem bind_ne_error {first : Except ε α} {next : α → Except ε β} {failure : ε}
    (first_ne : first ≠ .error failure) (next_ne : ∀ value, first = .ok value → next value ≠ .error failure) :
    (first >>= next) ≠ .error failure := by
  intro failed
  rcases bind_eq_error failed with failedFirst | ⟨value,returned,failedNext⟩
  · exact first_ne failedFirst
  · exact next_ne value returned failedNext

@[simp] theorem ok_bind (value : α) (next : α → Except ε β) :
    ((Except.ok value : Except ε α) >>= next) = next value := rfl

@[simp] theorem error_bind (failure : ε) (next : α → Except ε β) :
    ((Except.error failure : Except ε α) >>= next) = .error failure := rfl

/-- The failure a computation ends in, or none where it returns: a decidable
view of a result whose values have no decidable equality. -/
def failureOf : Except ε α → Option ε
  | .ok _ => none
  | .error failure => some failure

theorem eq_error_of_failureOf {x : Except ε α} {failure : ε} (failed : failureOf x = some failure) :
    x = .error failure := by
  cases x with
  | ok value => cases failed
  | error other => cases failed; rfl

/-- A loop `for (i = start; i < start + n; i++)` whose every iteration
returns: it returns the values of the iterations in order. -/
theorem mapM_range'_ok {f : Nat → Except ε β} : ∀ {values : List β} {start : Nat},
    (∀ i (inside : i < values.length), f (start + i) = .ok values[i]) →
      (List.range' start values.length).mapM f = .ok values
  | [], _, _ => rfl
  | value :: values, start, each => by
    have first : f start = .ok value := each 0 (by simp)
    have rest : (List.range' (start + 1) values.length).mapM f = .ok values :=
      mapM_range'_ok fun i inside => by
        have later := each (i + 1) (by simpa using inside)
        rw [List.getElem_cons_succ] at later
        rwa [Nat.add_assoc,Nat.add_comm 1]
    rw [List.length_cons,List.range'_succ,List.mapM_cons,first,ok_bind,rest]
    rfl

theorem mapM_range_ok {f : Nat → Except ε β} {values : List β}
    (each : ∀ i (inside : i < values.length), f i = .ok values[i]) :
    (List.range values.length).mapM f = .ok values := by
  rw [List.range_eq_range']
  exact mapM_range'_ok fun i inside => by simpa using each i inside

end Abort
