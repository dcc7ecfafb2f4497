import Mathlib.Data.List.Basic

/-!
# Runs of a state machine

A machine takes one event after the other. `AllSteps` says that a relation between the state
and the next event holds at every step of a run. The rules below carry an invariant along the
steps that meet a condition.
-/

namespace Rvzr.Lib

section Runs

variable {σ ε : Type*} (step : σ → ε → σ)

/-- The state after a sequence of events. -/
def run (s : σ) (es : List ε) : σ := es.foldl step s

/-- `ok` holds of every event of the run and the state it meets. -/
def AllSteps (ok : σ → ε → Prop) : σ → List ε → Prop
  | _, [] => True
  | s, e :: es => ok s e ∧ AllSteps ok (step s e) es

@[simp] theorem run_nil (s : σ) : run step s [] = s := rfl

@[simp] theorem run_cons (s : σ) (e : ε) (es : List ε) :
    run step s (e :: es) = run step (step s e) es := rfl

variable {step} {ok : σ → ε → Prop} {inv : σ → Prop}

/-- An invariant that every step keeps holds at the end of every run. -/
theorem run_inv (hstep : ∀ s e, inv s → inv (step s e)) {s : σ} (hs : inv s) (es : List ε) :
    inv (run step s es) := by
  induction es generalizing s with
  | nil => exact hs
  | cons e es ih => exact ih (hstep s e hs)

/-- An invariant that every good step keeps holds at the end of a run of good steps. -/
theorem AllSteps.run_inv (hstep : ∀ s e, inv s → ok s e → inv (step s e)) {s : σ} {es : List ε}
    (h : AllSteps step ok s es) (hs : inv s) : inv (run step s es) := by
  induction es generalizing s with
  | nil => exact hs
  | cons e es ih => exact ih h.2 (hstep s e hs h.1)

/-- What the invariant and the condition give for one step holds at every step. -/
theorem AllSteps.imp {good : σ → ε → Prop} (hstep : ∀ s e, inv s → ok s e → inv (step s e))
    (hgood : ∀ s e, inv s → ok s e → good s e) {s : σ} {es : List ε} (h : AllSteps step ok s es)
    (hs : inv s) : AllSteps step good s es := by
  induction es generalizing s with
  | nil => exact trivial
  | cons e es ih => exact ⟨hgood s e hs h.1, ih h.2 (hstep s e hs h.1)⟩

end Runs

end Rvzr.Lib
