import Mathlib.Data.List.Basic

/-!
# Computations whose answer does not depend on their state

`Answers P x a`: from every state satisfying `P` the computation `x` succeeds, answers `a`
and leaves a state satisfying `P`. This is the rule a cache needs: the state may change, the
answers may not. The rules below compose it along `bind`, `foldlM` and `mapM`.
-/

namespace Rvzr.Lib

variable {σ α β γ : Type} {P : σ → Prop}

/-- `x` answers `a` from every state in `P` and stays in `P`. -/
def Answers (P : σ → Prop) (x : StateT σ Option α) (a : α) : Prop :=
  ∀ s, P s → ∃ s', P s' ∧ x.run s = some (a, s')

theorem Answers.pure (a : α) : Answers P (Pure.pure a) a := by
  intro s hs
  exact ⟨s, hs, rfl⟩

theorem Answers.lift (a : α) : Answers P (StateT.lift (some a)) a := by
  intro s hs
  exact ⟨s, hs, rfl⟩

theorem Answers.bind {x : StateT σ Option α} {f : α → StateT σ Option β} {a : α} {b : β}
    (hx : Answers P x a) (hf : Answers P (f a) b) : Answers P (x >>= f) b := by
  intro s hs
  obtain ⟨s', hs', hrun⟩ := hx s hs
  obtain ⟨s'', hs'', hrun'⟩ := hf s' hs'
  refine ⟨s'', hs'', ?_⟩
  rw [StateT.run_bind, hrun]
  exact hrun'

/-- A loop answers the pure loop when every iteration answers its pure step. -/
theorem Answers.foldlM {step : β → α → StateT σ Option β} {pureStep : γ → α → γ}
    (rep : γ → β) {inv : γ → Prop} {xs : List α} {g : γ}
    (hg : inv g) (hstep : ∀ g x, x ∈ xs → inv g → inv (pureStep g x) ∧
      Answers P (step (rep g) x) (rep (pureStep g x))) :
    inv (xs.foldl pureStep g) ∧ Answers P (xs.foldlM step (rep g)) (rep (xs.foldl pureStep g)) := by
  induction xs generalizing g with
  | nil => exact ⟨hg, Answers.pure _⟩
  | cons x xs ih =>
    obtain ⟨hinv, hans⟩ := hstep g x (by simp) hg
    obtain ⟨hinv', hans'⟩ := ih hinv fun g y hy => hstep g y (List.mem_cons_of_mem _ hy)
    refine ⟨hinv', ?_⟩
    rw [List.foldlM_cons]
    exact hans.bind hans'

/-- `mapM` answers the pure map. -/
theorem Answers.mapM {f : α → StateT σ Option β} {g : α → β} {xs : List α}
    (h : ∀ x ∈ xs, Answers P (f x) (g x)) : Answers P (xs.mapM f) (xs.map g) := by
  induction xs with
  | nil => exact Answers.pure _
  | cons x xs ih =>
    rw [List.mapM_cons, List.map_cons]
    refine (h x (by simp)).bind ?_
    exact (ih fun y hy => h y (List.mem_cons_of_mem _ hy)).bind (Answers.pure _)

/-- `mapM` of a partial function that is defined on the whole list. -/
theorem mapM_option_spec {f : α → Option β} :
    ∀ {xs : List α}, (∀ x ∈ xs, ∃ y, f x = some y) →
      ∃ ys, xs.mapM f = some ys ∧ ∀ y, y ∈ ys ↔ ∃ x ∈ xs, f x = some y
  | [], _ => ⟨[], rfl, by simp⟩
  | x :: xs, h => by
    obtain ⟨y, hy⟩ := h x (by simp)
    obtain ⟨ys, hys, hmem⟩ := mapM_option_spec fun x' hx' => h x' (List.mem_cons_of_mem _ hx')
    refine ⟨y :: ys, by rw [List.mapM_cons, hy, hys]; rfl, ?_⟩
    intro z
    rw [List.mem_cons, hmem]
    constructor
    · rintro (rfl | ⟨x', hx', hz⟩)
      · exact ⟨x, by simp, hy⟩
      · exact ⟨x', List.mem_cons_of_mem _ hx', hz⟩
    · rintro ⟨x', hx', hz⟩
      rcases List.mem_cons.mp hx' with rfl | hx'
      · exact Or.inl (Option.some.inj (hz.symm.trans hy))
      · exact Or.inr ⟨x', hx', hz⟩

/-- `mapM` over the images of a list on which the function is known. -/
theorem mapM_map_some {f : β → Option γ} {g : α → β} {h : α → γ} {xs : List α}
    (hf : ∀ x ∈ xs, f (g x) = some (h x)) : (xs.map g).mapM f = some (xs.map h) := by
  induction xs with
  | nil => rfl
  | cons x xs ih =>
    rw [List.map_cons, List.mapM_cons, hf x (by simp),
      ih fun y hy => hf y (List.mem_cons_of_mem _ hy)]
    rfl

/-- Every value of a successful `mapM` comes from an element. -/
theorem mapM_option_mem {f : α → Option β} {xs : List α} {ys : List β} (h : xs.mapM f = some ys)
    {y : β} (hy : y ∈ ys) : ∃ x ∈ xs, f x = some y := by
  induction xs generalizing ys with
  | nil =>
    rw [List.mapM_nil] at h
    have hnil : [] = ys := Option.some.inj h
    exact absurd hy (by simp [← hnil])
  | cons x xs ih =>
    rw [List.mapM_cons] at h
    obtain ⟨y₀, hy₀, h⟩ := Option.bind_eq_some_iff.mp h
    obtain ⟨ys₀, hys₀, h⟩ := Option.bind_eq_some_iff.mp h
    have hcons : y₀ :: ys₀ = ys := Option.some.inj h
    rw [← hcons] at hy
    rcases List.mem_cons.mp hy with rfl | hy
    · exact ⟨x, by simp, hy₀⟩
    · obtain ⟨x', hx', hfx⟩ := ih hys₀ hy
      exact ⟨x', List.mem_cons_of_mem _ hx', hfx⟩

theorem mapM_option_getElem? {f : α → Option β} {xs : List α} {ys : List β}
    (h : xs.mapM f = some ys) (i : Nat) : ys[i]? = xs[i]?.bind f := by
  induction xs generalizing ys i with
  | nil =>
    rw [List.mapM_nil] at h
    have hnil : [] = ys := Option.some.inj h
    simp [← hnil]
  | cons x xs ih =>
    rw [List.mapM_cons] at h
    rcases Option.bind_eq_some_iff.mp h with ⟨y, hy, h⟩
    rcases Option.bind_eq_some_iff.mp h with ⟨ys', hys', h⟩
    have hcons : y :: ys' = ys := Option.some.inj h
    rw [← hcons]
    cases i with
    | zero => simp [hy]
    | succ i => simpa using ih hys' i

/-- A successful `mapM` succeeds on every element. -/
theorem mapM_option_defined {f : α → Option β} {xs : List α} {ys : List β}
    (h : xs.mapM f = some ys) {x : α} (hx : x ∈ xs) : ∃ y, f x = some y := by
  induction xs generalizing ys with
  | nil => exact absurd hx List.not_mem_nil
  | cons x' xs ih =>
    rw [List.mapM_cons] at h
    obtain ⟨y₀, hy₀, h⟩ := Option.bind_eq_some_iff.mp h
    obtain ⟨ys₀, hys₀, -⟩ := Option.bind_eq_some_iff.mp h
    rcases List.mem_cons.mp hx with rfl | hx
    · exact ⟨y₀, hy₀⟩
    · exact ih hys₀ hx

/-- The two parts of a sequence that succeeds. -/
theorem run_bind_some {x : StateT σ Option α} {f : α → StateT σ Option β} {s s' : σ} {b : β}
    (h : (x >>= f).run s = some (b, s')) :
    ∃ a s₁, x.run s = some (a, s₁) ∧ (f a).run s₁ = some (b, s') := by
  rw [StateT.run_bind] at h
  obtain ⟨⟨a, s₁⟩, hx, hf⟩ := Option.bind_eq_some_iff.mp h
  exact ⟨a, s₁, hx, hf⟩

theorem run_lift_some {x : Option α} {s s' : σ} {a : α}
    (h : (StateT.lift x : StateT σ Option α).run s = some (a, s')) : x = some a ∧ s = s' := by
  cases x with
  | none => exact absurd h (by simp [StateT.run, StateT.lift])
  | some a' =>
    have he : (a', s) = (a, s') := Option.some.inj h
    exact ⟨congrArg some (Prod.mk.inj he).1, (Prod.mk.inj he).2⟩

theorem mapM_stateT_mem {f : α → StateT σ Option β} {xs : List α} {ys : List β} {s s' : σ}
    (h : (xs.mapM f).run s = some (ys, s')) {y : β} (hy : y ∈ ys) :
    ∃ x ∈ xs, ∃ t t', (f x).run t = some (y, t') := by
  induction xs generalizing ys s s' with
  | nil =>
    rw [List.mapM_nil] at h
    obtain ⟨hnil, -⟩ := Prod.mk.inj (Option.some.inj h)
    exact absurd hy (by simp [← hnil])
  | cons x xs ih =>
    rw [List.mapM_cons] at h
    obtain ⟨y₀, s₁, hy₀, h⟩ := run_bind_some h
    obtain ⟨ys₀, s₂, hys₀, h⟩ := run_bind_some h
    obtain ⟨hcons, -⟩ := Prod.mk.inj (Option.some.inj h)
    rw [← hcons] at hy
    rcases List.mem_cons.mp hy with rfl | hy
    · exact ⟨x, by simp, s, s₁, hy₀⟩
    · obtain ⟨x', hx', hrun⟩ := ih hys₀ hy
      exact ⟨x', List.mem_cons_of_mem _ hx', hrun⟩

end Rvzr.Lib
