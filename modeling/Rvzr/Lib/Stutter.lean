import Mathlib.Logic.Function.Iterate

/-!
# Stuttering simulations

Two deterministic machines, a concrete one that takes steps of its own between the steps of an
abstract one. A relation between their states is a ranked simulation when every good concrete step
either is matched by an abstract step or leaves the abstract state alone and lowers a rank. Then the
concrete run stays on the abstract run (`Ranked.run`) and reaches all of it (`Ranked.reach`).
-/

namespace Rvzr.Lib

section Stutter

variable {C A : Type*}

/-- The relation is kept by every good step; `rank` excludes infinite stuttering. -/
def Ranked (cstep : C → C) (astep : A → A) (good : C → Prop) (R : C → A → Prop)
    (rank : C → Nat) : Prop :=
  ∀ c a, R c a → good c →
    R (cstep c) (astep a) ∨ (R (cstep c) a ∧ rank (cstep c) < rank c)

namespace Ranked

variable {cstep : C → C} {astep : A → A} {good : C → Prop} {R : C → A → Prop} {rank : C → Nat}

/-- After any number of good steps the concrete machine is somewhere on the abstract run, and not
ahead of it. -/
theorem run (h : Ranked cstep astep good R rank) {c : C} {a : A} (hr : R c a) (n : Nat)
    (hgood : ∀ k, k < n → good (cstep^[k] c)) : ∃ m ≤ n, R (cstep^[n] c) (astep^[m] a) := by
  induction n with
  | zero => exact ⟨0, Nat.le_refl 0, hr⟩
  | succ n ih =>
    obtain ⟨m, hle, hm⟩ := ih fun k hk => hgood k (by omega)
    rw [Function.iterate_succ_apply']
    cases h _ _ hm (hgood n (by omega)) with
    | inl hmatch =>
      refine ⟨m + 1, Nat.succ_le_succ hle, ?_⟩
      rw [Function.iterate_succ_apply']
      exact hmatch
    | inr hstutter => exact ⟨m, Nat.le_succ_of_le hle, hstutter.1⟩

/-- The next abstract state is reached; the induction is on the rank. -/
theorem next (h : Ranked cstep astep good R rank) {c : C} {a : A} (hr : R c a)
    (hgood : ∀ k, good (cstep^[k] c)) : ∃ n, R (cstep^[n] c) (astep a) := by
  induction hk : rank c using Nat.strongRecOn generalizing c with
  | ind k ih =>
    cases h c a hr (hgood 0) with
    | inl hmatch => exact ⟨1, hmatch⟩
    | inr hstutter =>
      have hgood' : ∀ k, good (cstep^[k] (cstep c)) := fun k => by
        rw [← Function.iterate_succ_apply]
        exact hgood (k + 1)
      cases ih _ (hk ▸ hstutter.2) hstutter.1 hgood' rfl with
      | intro n hn =>
        refine ⟨n + 1, ?_⟩
        rw [Function.iterate_succ_apply]
        exact hn

/-- The concrete machine reaches every state of the abstract run. -/
theorem reach (h : Ranked cstep astep good R rank) {c : C} {a : A} (hr : R c a)
    (hgood : ∀ k, good (cstep^[k] c)) (m : Nat) : ∃ n, R (cstep^[n] c) (astep^[m] a) := by
  induction m with
  | zero => exact ⟨0, hr⟩
  | succ m ih =>
    cases ih with
    | intro n hn =>
      have hgood' : ∀ k, good (cstep^[k] (cstep^[n] c)) := fun k => by
        rw [← Function.iterate_add_apply]
        exact hgood (k + n)
      cases h.next hn hgood' with
      | intro k hk =>
        refine ⟨k + n, ?_⟩
        rw [Function.iterate_add_apply, Function.iterate_succ_apply']
        exact hk

end Ranked

end Stutter

end Rvzr.Lib
