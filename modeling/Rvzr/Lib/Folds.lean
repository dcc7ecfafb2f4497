import Mathlib.Data.List.Basic

/-!
# Folds that can fail

Rules for computations in `Except ε` that returned, and for folds over a list: an invariant of the
elements that have been taken and the state holds of the whole list when the fold returns.
-/

namespace Rvzr.Lib

section Folds

variable {ε α β : Type}

theorem except_bind_ok {x : Except ε α} {f : α → Except ε β} {b : β} (h : x >>= f = .ok b) :
    ∃ a, x = .ok a ∧ f a = .ok b := by
  cases x with
  | error e => exact nomatch h
  | ok a => exact ⟨a, rfl, h⟩

/-- A check that raises an error has passed. -/
theorem except_check_ok {c : Prop} [Decidable c] {e : ε} {f : α → Except ε β} {y : Except ε β}
    {b : β} (h : (if c then throw e >>= f else y) = .ok b) : ¬ c ∧ y = .ok b := by
  by_cases hc : c
  · rw [if_pos hc] at h
    exact nomatch h
  · rw [if_neg hc] at h
    exact ⟨hc, h⟩

variable {f : β → α → Except ε β} {l : List α} {b b' : β}

/-- The invariant is about the elements taken so far, from `pre` on. -/
theorem foldlM_from {I : List α → β → Prop} {pre : List α} (hb : I pre b)
    (hstep : ∀ q a c c', q ++ [a] <+: pre ++ l → I q c → f c a = .ok c' → I (q ++ [a]) c')
    (h : l.foldlM f b = .ok b') : I (pre ++ l) b' := by
  induction l generalizing b pre with
  | nil =>
    rw [List.foldlM_nil] at h
    rw [List.append_nil, ← Except.ok.inj h]
    exact hb
  | cons a l ih =>
    rw [List.foldlM_cons] at h
    have happend : pre ++ [a] ++ l = pre ++ a :: l := by
      rw [List.append_assoc]
      rfl
    cases except_bind_ok h with
    | intro c hc =>
      have hnext := hstep pre a b c ⟨l, happend⟩ hb hc.1
      rw [← happend] at hstep ⊢
      exact ih hnext hstep hc.2

theorem foldlM_prefix {I : List α → β → Prop} (hb : I [] b)
    (hstep : ∀ q a c c', q ++ [a] <+: l → I q c → f c a = .ok c' → I (q ++ [a]) c')
    (h : l.foldlM f b = .ok b') : I l b' := foldlM_from hb hstep h

/-- `P` holds of what a computation returns, and `R` of the exception that it raises. -/
def Ends (P : β → Prop) (R : ε → Prop) : Except ε β → Prop
  | .ok b => P b
  | .error e => R e

/-- A fold keeps its invariant until it ends, or a step has raised the exception. -/
theorem foldlM_ends_from {I : List α → β → Prop} {R : α → ε → Prop} {pre : List α} (hb : I pre b)
    (hstep : ∀ q a c, q ++ [a] <+: pre ++ l → I q c → Ends (I (q ++ [a])) (R a) (f c a)) :
    Ends (I (pre ++ l)) (fun e => ∃ a ∈ l, R a e) (l.foldlM f b) := by
  induction l generalizing b pre with
  | nil =>
    rw [List.foldlM_nil, List.append_nil]
    exact hb
  | cons a l ih =>
    have happend : pre ++ [a] ++ l = pre ++ a :: l := by
      rw [List.append_assoc]
      rfl
    have hnext := hstep pre a b ⟨l, happend⟩ hb
    rw [List.foldlM_cons]
    cases hfa : f b a with
    | error e =>
      rw [hfa] at hnext
      exact ⟨a, List.mem_cons_self, hnext⟩
    | ok c =>
      rw [hfa] at hnext
      rw [← happend] at hstep ⊢
      have hrest := ih hnext hstep
      show Ends _ _ (l.foldlM f c)
      cases hl : l.foldlM f c with
      | ok b' =>
        rw [hl] at hrest
        exact hrest
      | error e =>
        rw [hl] at hrest
        obtain ⟨x, hx, hr⟩ := hrest
        exact ⟨x, List.mem_cons_of_mem a hx, hr⟩

theorem foldlM_ends {I : List α → β → Prop} {R : α → ε → Prop} (hb : I [] b)
    (hstep : ∀ q a c, q ++ [a] <+: l → I q c → Ends (I (q ++ [a])) (R a) (f c a)) :
    Ends (I l) (fun e => ∃ a ∈ l, R a e) (l.foldlM f b) := foldlM_ends_from hb hstep

/-- What the step says of each element, when it does not depend on the state. -/
theorem foldlM_forall {P : α → Prop} (hstep : ∀ a c c', f c a = .ok c' → P a)
    (h : l.foldlM f b = .ok b') : ∀ a ∈ l, P a := by
  refine foldlM_prefix (I := fun l _ => ∀ a ∈ l, P a) (by simp) ?_ h
  intro q a c c' _ hq hc x hx
  cases List.mem_append.1 hx with
  | inl hx => exact hq x hx
  | inr hx =>
    rw [List.mem_singleton.1 hx]
    exact hstep a c c' hc

/-- A list of results, element by element. -/
theorem mapM_ok {g : α → Except ε β} {l : List α} {r : List β} (h : l.mapM g = .ok r) :
    List.Forall₂ (fun a b => g a = .ok b) l r := by
  induction l generalizing r with
  | nil =>
    rw [List.mapM_nil] at h
    rw [← Except.ok.inj h]
    exact .nil
  | cons a l ih =>
    rw [List.mapM_cons] at h
    cases except_bind_ok h with
    | intro b hb =>
      cases except_bind_ok hb.2 with
      | intro bs hbs =>
        rw [← Except.ok.inj hbs.2]
        exact .cons hb.1 (ih hbs.1)

end Folds

/-- The elements of a mapped list, one by one. -/
theorem mapM_some {α β : Type} {f : α → Option β} {l : List α} {l' : List β}
    (h : l.mapM f = some l') :
    l'.length = l.length ∧
      ∀ (i : Nat) (a : α), l[i]? = some a → ∃ b, l'[i]? = some b ∧ f a = some b := by
  induction l generalizing l' with
  | nil =>
    rw [List.mapM_nil] at h
    cases h
    exact ⟨rfl, by simp⟩
  | cons a l ih =>
    rw [List.mapM_cons] at h
    obtain ⟨b, hb, h⟩ := Option.bind_eq_some_iff.mp h
    obtain ⟨bs, hbs, h⟩ := Option.bind_eq_some_iff.mp h
    cases h
    obtain ⟨hlen, hrest⟩ := ih hbs
    refine ⟨by rw [List.length_cons, List.length_cons, hlen], ?_⟩
    intro i x hx
    cases i with
    | zero =>
      cases hx
      exact ⟨b, rfl, hb⟩
    | succ i => exact hrest i x hx

/-- An invariant of a fold that can fail. -/
theorem foldlM_some_inv {α β : Type} {f : β → α → Option β} {I : β → Prop} {l : List α} {b b' : β}
    (hstep : ∀ b a b', I b → f b a = some b' → I b') (hb : I b) (h : l.foldlM f b = some b') :
    I b' := by
  induction l generalizing b with
  | nil =>
    cases h
    exact hb
  | cons a l ih =>
    rw [List.foldlM_cons] at h
    obtain ⟨c, hc, h⟩ := Option.bind_eq_some_iff.mp h
    exact ih (hstep b a c hb hc) h

/-- A fold over the elements with their numbers. -/
theorem foldl_zipIdx_inv {α β : Type} {f : β → α × Nat → β} {l : List α} {b : β}
    {I : Nat → β → Prop} (hb : I 0 b)
    (hstep : ∀ n b, (h : n < l.length) → I n b → I (n + 1) (f b (l[n], n))) :
    I l.length (l.zipIdx.foldl f b) := by
  have hprefix : ∀ n ≤ l.length, I n ((l.zipIdx.take n).foldl f b) := by
    intro n hn
    induction n with
    | zero => exact hb
    | succ n ih =>
      have hlt : n < l.zipIdx.length := by rwa [List.length_zipIdx]
      rw [List.take_succ_eq_append_getElem hlt, List.foldl_append, List.getElem_zipIdx]
      simpa using hstep n _ hn (ih (Nat.le_of_succ_le hn))
  have hall := hprefix l.length (Nat.le_refl _)
  rwa [List.take_of_length_le (by simp)] at hall

section Idempotent

variable {α β : Type} {f : β → α → β} (hcomm : ∀ b a a', f (f b a) a' = f (f b a') a)
include hcomm

theorem foldl_step_comm (l : List α) (b : β) (a : α) : f (l.foldl f b) a = l.foldl f (f b a) := by
  induction l generalizing b with
  | nil => rfl
  | cons a' l ih => rw [List.foldl_cons, ih, List.foldl_cons, hcomm]

variable (hidem : ∀ b a, f (f b a) a = f b a)
include hidem

/-- Elements that are folded in already are absorbed. -/
theorem foldl_absorbs {l l' : List α} (hsub : ∀ a ∈ l', a ∈ l) (b : β) :
    l'.foldl f (l.foldl f b) = l.foldl f b := by
  have hone : ∀ a ∈ l, ∀ b, f (l.foldl f b) a = l.foldl f b := by
    intro a ha b
    obtain ⟨s, t, rfl⟩ := List.append_of_mem ha
    rw [List.foldl_append, List.foldl_cons, foldl_step_comm hcomm, hidem]
  induction l' with
  | nil => rfl
  | cons a l' ih =>
    rw [List.foldl_cons, hone a (hsub a List.mem_cons_self)]
    exact ih fun a' ha' => hsub a' (List.mem_cons_of_mem _ ha')

/-- A fold that neither sees the order nor counts depends on the members of the list only. -/
theorem foldl_of_mem_iff {l l' : List α} (h : ∀ a, a ∈ l ↔ a ∈ l') (b : β) :
    l.foldl f b = l'.foldl f b := by
  have hswap : l'.foldl f (l.foldl f b) = l.foldl f (l'.foldl f b) := by
    rw [← List.foldl_append, ← List.foldl_append]
    exact List.perm_append_comm.foldl_eq' (fun a _ a' _ b => hcomm b a a') b
  rw [← foldl_absorbs hcomm hidem (fun a ha => (h a).mpr ha), hswap,
    foldl_absorbs hcomm hidem fun a ha => (h a).mp ha]

end Idempotent

section Counting

variable {α : Type}

/-- At most one element of a list without duplicates satisfies a predicate. -/
theorem countP_le_one {xs : List α} (hxs : xs.Nodup) (P : α → Bool) :
    xs.countP P ≤ 1 ↔ ∀ x ∈ xs, ∀ y ∈ xs, P x = true → P y = true → x = y := by
  have hfilter := hxs.filter P
  rw [List.countP_eq_length_filter]
  constructor
  · intro hlen x hx y hy hPx hPy
    have hx' := List.mem_filter.2 ⟨hx, hPx⟩
    have hy' := List.mem_filter.2 ⟨hy, hPy⟩
    obtain ⟨i, hi, rfl⟩ := List.getElem_of_mem hx'
    obtain ⟨j, hj, rfl⟩ := List.getElem_of_mem hy'
    obtain rfl : i = j := by omega
    rfl
  · intro hall
    by_contra hlen
    have h0 : 0 < (xs.filter P).length := by omega
    have h1 : 1 < (xs.filter P).length := by omega
    obtain ⟨hx, hPx⟩ := List.mem_filter.1 (List.getElem_mem h0)
    obtain ⟨hy, hPy⟩ := List.mem_filter.1 (List.getElem_mem h1)
    have heq := hall _ hx _ hy hPx hPy
    exact absurd ((List.getElem_inj hfilter).1 heq) (by decide)

end Counting

end Rvzr.Lib
