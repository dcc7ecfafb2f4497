import Mathlib.Data.List.Basic

/-!
# Pre- and postconditions of programs with a state and exceptions

`Triple P x Q E`: from every state in `P` the program `x` returns in `Q` or raises in `E`. An
exception keeps the state in which it was raised. The rules follow the constructs of the
programs.
-/

namespace Rvzr.Lib

variable {ε σ α β : Type} {P : σ → Prop} {E : ε → σ → Prop}

/-- From a state in `P` the program returns in `Q` or raises in `E`. -/
def Triple (P : σ → Prop) (x : EStateM ε σ α) (Q : α → σ → Prop) (E : ε → σ → Prop) : Prop :=
  ∀ s, P s → match x s with
    | .ok a s' => Q a s'
    | .error e s' => E e s'

theorem Triple.pure {Q : α → σ → Prop} {a : α} (h : ∀ s, P s → Q a s) :
    Triple P (Pure.pure a) Q E := h

theorem Triple.throw {Q : α → σ → Prop} {e : ε} (h : ∀ s, P s → E e s) :
    Triple P (MonadExcept.throw e) Q E := h

theorem Triple.modify {Q : Unit → σ → Prop} {f : σ → σ} (h : ∀ s, P s → Q () (f s)) :
    Triple P (modify f) Q E := h

theorem Triple.bind {R : α → σ → Prop} {Q : β → σ → Prop} {x : EStateM ε σ α}
    {f : α → EStateM ε σ β} (hx : Triple P x R E) (hf : ∀ a, Triple (R a) (f a) Q E) :
    Triple P (x >>= f) Q E := by
  intro s hs
  have hxs := hx s hs
  show match EStateM.bind x f s with
    | .ok b s' => Q b s'
    | .error e s' => E e s'
  unfold EStateM.bind
  cases hrun : x s with
  | ok a s' =>
    rw [hrun] at hxs
    exact hf a s' hxs
  | error e s' =>
    rw [hrun] at hxs
    exact hxs

/-- A triple from every single state of the precondition. -/
theorem Triple.each {Q : α → σ → Prop} {x : EStateM ε σ α}
    (h : ∀ s₀, P s₀ → Triple (fun s => s = s₀) x Q E) : Triple P x Q E :=
  fun s hs => h s hs s rfl

/-- A triple holds from every single state of its precondition. -/
theorem Triple.start {Q : α → σ → Prop} {x : EStateM ε σ α} {s : σ} (h : Triple P x Q E)
    (hs : P s) : Triple (fun t => t = s) x Q E := by
  intro t ht
  rw [ht]
  exact h s hs

/-- A part whose outcome is known is executed. -/
theorem Triple.step {Q : β → σ → Prop} {x : EStateM ε σ α} {f : α → EStateM ε σ β} {s s' : σ}
    {a : α} (hx : x s = .ok a s') (hf : Triple (fun t => t = s') (f a) Q E) :
    Triple (fun t => t = s) (x >>= f) Q E := by
  intro t ht
  rw [ht]
  show match EStateM.bind x f s with
    | .ok b s' => Q b s'
    | .error e s' => E e s'
  unfold EStateM.bind
  rw [hx]
  exact hf s' rfl

theorem Triple.raise {Q : β → σ → Prop} {x : EStateM ε σ α} {f : α → EStateM ε σ β} {s s' : σ}
    {e : ε} (hx : x s = .error e s') (he : E e s') : Triple (fun t => t = s) (x >>= f) Q E := by
  intro t ht
  rw [ht]
  show match EStateM.bind x f s with
    | .ok b s' => Q b s'
    | .error e s' => E e s'
  unfold EStateM.bind
  rw [hx]
  exact he

/-- The outcome of a program from one state. -/
theorem Triple.result {Q : α → σ → Prop} {x : EStateM ε σ α} {s s' : σ} {a : α}
    (hx : x s = .ok a s') (h : Q a s') : Triple (fun t => t = s) x Q E := by
  intro t ht
  rw [ht, hx]
  exact h

/-- The state that a program reads is the state in which it goes on. -/
theorem Triple.get_bind {Q : β → σ → Prop} {f : σ → EStateM ε σ β}
    (h : ∀ s₀, P s₀ → Triple (fun s => s = s₀) (f s₀) Q E) : Triple P (get >>= f) Q E :=
  fun s hs => h s hs s rfl

theorem Triple.ite {Q : α → σ → Prop} {c : Prop} [Decidable c] {x y : EStateM ε σ α}
    (hx : c → Triple P x Q E) (hy : ¬ c → Triple P y Q E) :
    Triple P (if c then x else y) Q E := by
  by_cases hc : c
  · rw [if_pos hc]
    exact hx hc
  · rw [if_neg hc]
    exact hy hc

/-- A loop over a list keeps what every round keeps. -/
theorem Triple.forM {f : α → EStateM ε σ PUnit} {l : List α}
    (h : ∀ a ∈ l, Triple P (f a) (fun _ => P) E) : Triple P (l.forM f) (fun _ => P) E := by
  induction l with
  | nil => exact Triple.pure fun s hs => hs
  | cons a l ih =>
    show Triple P (f a >>= fun _ => l.forM f) (fun _ => P) E
    apply Triple.bind (h a List.mem_cons_self)
    intro _
    exact ih fun b hb => h b (List.mem_cons_of_mem _ hb)

/-- A fold keeps what every round keeps. -/
theorem Triple.foldlM {I : β → σ → Prop} {f : β → α → EStateM ε σ β} {l : List α} {b : β}
    (h : ∀ b, ∀ a ∈ l, Triple (I b) (f b a) I E) : Triple (I b) (l.foldlM f b) I E := by
  induction l generalizing b with
  | nil => exact Triple.pure fun s hs => hs
  | cons a l ih =>
    rw [List.foldlM_cons]
    refine Triple.bind (h b a List.mem_cons_self) ?_
    intro b'
    exact ih fun b a ha => h b a (List.mem_cons_of_mem _ ha)

/-- A part of the precondition that is not about the state. -/
theorem Triple.of_pure {p : Prop} {Q : α → σ → Prop} {x : EStateM ε σ α}
    (h : p → Triple P x Q E) : Triple (fun s => p ∧ P s) x Q E :=
  fun s hs => h hs.1 s hs.2

theorem Triple.conseq {P' : σ → Prop} {Q Q' : α → σ → Prop} {E' : ε → σ → Prop}
    {x : EStateM ε σ α} (h : Triple P' x Q' E') (hP : ∀ s, P s → P' s)
    (hQ : ∀ a s, Q' a s → Q a s) (hE : ∀ e s, E' e s → E e s) : Triple P x Q E := by
  intro s hs
  have hxs := h s (hP s hs)
  cases hrun : x s with
  | ok a s' =>
    rw [hrun] at hxs
    exact hQ a s' hxs
  | error e s' =>
    rw [hrun] at hxs
    exact hE e s' hxs

/-- A handler takes over in the state in which the exception was raised. -/
theorem Triple.tryCatch {Q : α → σ → Prop} {F : ε → σ → Prop} {x : EStateM ε σ α}
    {handler : ε → EStateM ε σ α} (hx : Triple P x Q F)
    (hh : ∀ e, Triple (F e) (handler e) Q E) :
    Triple P (MonadExcept.tryCatch x handler) Q E := by
  intro s hs
  have hxs := hx s hs
  show match EStateM.tryCatch x handler s with
    | .ok b s' => Q b s'
    | .error e s' => E e s'
  unfold EStateM.tryCatch
  cases hrun : x s with
  | ok a s' =>
    rw [hrun] at hxs
    exact hxs
  | error e s' =>
    rw [hrun] at hxs
    exact hh e s' hxs

/-- What holds of a returned value and the state it was returned in. -/
theorem Triple.ok {Q : α → σ → Prop} {x : EStateM ε σ α} {s s' : σ} {a : α}
    (h : Triple P x Q E) (hs : P s) (hrun : x s = .ok a s') : Q a s' := by
  have hxs := h s hs
  rw [hrun] at hxs
  exact hxs

/-- A sequence goes on where its first part returned. -/
theorem bind_run {x : EStateM ε σ α} {f : α → EStateM ε σ β} {s s' : σ} {a : α}
    (hx : x s = .ok a s') : (x >>= f) s = f a s' := by
  show EStateM.bind x f s = f a s'
  unfold EStateM.bind
  rw [hx]

/-- A sequence raises what its first part raises. -/
theorem bind_run_error {x : EStateM ε σ α} {f : α → EStateM ε σ β} {s s' : σ} {e : ε}
    (hx : x s = .error e s') : (x >>= f) s = .error e s' := by
  show EStateM.bind x f s = .error e s'
  unfold EStateM.bind
  rw [hx]

/-- A loop goes on where its first round returned. -/
theorem forM_cons_run {f : α → EStateM ε σ PUnit} {a : α} {l : List α} {s s' : σ}
    (ha : f a s = .ok () s') : (a :: l).forM f s = l.forM f s' :=
  bind_run ha

/-- A loop whose rounds leave the state alone. -/
theorem forM_run {f : α → EStateM ε σ PUnit} {l : List α} {s : σ}
    (h : ∀ a ∈ l, f a s = .ok () s) : l.forM f s = .ok () s := by
  induction l with
  | nil => rfl
  | cons a l ih =>
    refine (bind_run (h a List.mem_cons_self)).trans ?_
    exact ih fun b hb => h b (List.mem_cons_of_mem _ hb)

theorem get_run (s : σ) : (get : EStateM ε σ σ) s = .ok s s := rfl

/-- The two parts of a sequence that returns. -/
theorem bind_ok {x : EStateM ε σ α} {f : α → EStateM ε σ β} {s s' : σ} {b : β}
    (h : (x >>= f) s = .ok b s') : ∃ a s₁, x s = .ok a s₁ ∧ f a s₁ = .ok b s' := by
  have hbind : EStateM.bind x f s = .ok b s' := h
  unfold EStateM.bind at hbind
  cases hx : x s with
  | ok a s₁ =>
    rw [hx] at hbind
    exact ⟨a, s₁, rfl, hbind⟩
  | error e s₁ =>
    rw [hx] at hbind
    exact absurd hbind (by simp)

end Rvzr.Lib
