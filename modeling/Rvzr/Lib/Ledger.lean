import Rvzr.Lib.Hoare
import Mathlib.Logic.Function.Basic

/-!
# A ledger of allocated blocks

A program with pointer variables and a memory allocator. A block has an identity of its own, so a
pointer to a freed block stays recognisable when its address is given out again. Freeing or
accessing a block that is not allocated is a fault, which no handler catches.

`Owned` says that every variable that is not null points to a block allocated for it. The
transformers `freed` and `given` are what the operations do to a ledger that is `Owned`.
-/

namespace Rvzr.Lib

/-- How a program stops: with an error of its own, or with a fault. -/
inductive Stop (ε : Type) where
  | error (e : ε)
  | fault
  deriving DecidableEq, Repr

/-- `owner` is the variable the block was allocated for. -/
structure Block (V : Type) where
  owner : V
  addr : Nat
  size : Nat
  deriving DecidableEq, Repr

/-- A position in a block. -/
structure Ptr where
  block : Nat
  off : Nat
  deriving DecidableEq, Repr

/-- `next` is the identity of the next allocation; `rest` is the rest of the program's state. -/
structure Ledger (V σ : Type) where
  blocks : Nat → Option (Block V)
  vars : V → Option Nat
  next : Nat
  rest : σ

namespace Ledger

variable {V σ ε : Type}

/-- `n` bytes from `p` on are allocated. -/
def Live (s : Ledger V σ) (p : Ptr) (n : Nat) : Prop :=
  ∃ b, s.blocks p.block = some b ∧ p.off + n ≤ b.size

def live (s : Ledger V σ) (p : Ptr) (n : Nat) : Bool :=
  match s.blocks p.block with
  | none => false
  | some b => p.off + n ≤ b.size

theorem live_iff (s : Ledger V σ) (p : Ptr) (n : Nat) : s.live p n = true ↔ s.Live p n := by
  unfold live Live
  cases s.blocks p.block with
  | none => simp
  | some b => simp

/-! ### The operations -/

variable [DecidableEq V]

def freed (s : Ledger V σ) (x : V) : Ledger V σ := { s with
  blocks := match s.vars x with
    | none => s.blocks
    | some i => Function.update s.blocks i none
  vars := Function.update s.vars x none }

def given (s : Ledger V σ) (x : V) (addr size : Nat) : Ledger V σ := { s with
  blocks := Function.update s.blocks s.next (some { owner := x, addr := addr, size := size })
  vars := Function.update s.vars x (some s.next)
  next := s.next + 1 }

def refused (s : Ledger V σ) : Ledger V σ := { s with next := s.next + 1 }

/-- Free the block of a variable and set the variable to null, unless it is null already. -/
def free (x : V) : EStateM (Stop ε) (Ledger V σ) Unit := do
  let s ← get
  match s.vars x with
  | none => pure ()
  | some i =>
    match s.blocks i with
    | none => throw .fault
    | some _ => set (s.freed x)

/-- Allocate a block for a variable; `grant` has the allocator's answers. -/
def allocate (grant : Nat → Option Nat) (x : V) (size : Nat) :
    EStateM (Stop ε) (Ledger V σ) Bool := do
  let s ← get
  match grant s.next with
  | none =>
    set s.refused
    return false
  | some addr =>
    set (s.given x addr size)
    return true

/-- Access `n` bytes from a pointer on. -/
def touchAt (p : Option Ptr) (n : Nat) : EStateM (Stop ε) (Ledger V σ) Unit := do
  let s ← get
  if n = 0 then pure ()
  else
    match p with
    | none => throw .fault
    | some p => if s.live p n then pure () else throw .fault

/-- Access `n` bytes of the block of a variable, from an offset on. -/
def touch (x : V) (off n : Nat) : EStateM (Stop ε) (Ledger V σ) Unit := do
  let s ← get
  touchAt ((s.vars x).map fun i => { block := i, off := off }) n

/-- Change the rest of the state. -/
def modifyRest (f : σ → σ) : EStateM (Stop ε) (Ledger V σ) Unit :=
  modify fun s => { s with rest := f s.rest }

/-! ### Ownership -/

/-- Every variable has a block of its own, and the next block is not there yet. -/
structure Owned (s : Ledger V σ) : Prop where
  fresh : ∀ i, s.next ≤ i → s.blocks i = none
  owned : ∀ x i, s.vars x = some i → ∃ b, s.blocks i = some b ∧ b.owner = x

/-- If the variable is not null, its block has a property. -/
def Holds (s : Ledger V σ) (x : V) (P : Block V → Prop) : Prop :=
  ∀ i b, s.vars x = some i → s.blocks i = some b → P b

omit [DecidableEq V] in
theorem Owned.block {s : Ledger V σ} (h : s.Owned) {x : V} (hx : s.vars x ≠ none) :
    ∃ i b, s.vars x = some i ∧ s.blocks i = some b := by
  cases hv : s.vars x with
  | none => exact absurd hv hx
  | some i =>
    cases h.owned x i hv with
    | intro b hb => exact ⟨i, b, rfl, hb.1⟩

omit [DecidableEq V] in
/-- Two variables that are not null have different blocks. -/
theorem Owned.ne {s : Ledger V σ} (h : s.Owned) {x y : V} {i j : Nat} (hxy : x ≠ y)
    (hi : s.vars x = some i) (hj : s.vars y = some j) : i ≠ j := by
  intro heq
  cases h.owned x i hi with
  | intro b hb =>
    cases h.owned y j hj with
    | intro b' hb' =>
      rw [heq, hb'.1] at hb
      have hown : b' = b := Option.some.inj hb.1
      exact hxy (by rw [← hb.2, ← hb'.2, hown])

omit [DecidableEq V] in
theorem Owned.lt_next {s : Ledger V σ} (h : s.Owned) {x : V} {i : Nat} (hi : s.vars x = some i) :
    i < s.next := by
  cases h.owned x i hi with
  | intro b hb =>
    by_cases hlt : i < s.next
    · exact hlt
    · have hnone := h.fresh i (by omega)
      rw [hnone] at hb
      cases hb.1

@[simp] theorem freed_vars_self (s : Ledger V σ) (x : V) : (s.freed x).vars x = none := by
  simp [freed]

@[simp] theorem freed_vars_other (s : Ledger V σ) {x y : V} (h : y ≠ x) :
    (s.freed x).vars y = s.vars y := by
  simp [freed, h]

@[simp] theorem given_vars_self (s : Ledger V σ) (x : V) (addr size : Nat) :
    (s.given x addr size).vars x = some s.next := by
  simp [given]

@[simp] theorem given_vars_other (s : Ledger V σ) {x y : V} (h : y ≠ x) (addr size : Nat) :
    (s.given x addr size).vars y = s.vars y := by
  simp [given, h]

@[simp] theorem freed_rest (s : Ledger V σ) (x : V) : (s.freed x).rest = s.rest := rfl

@[simp] theorem given_rest (s : Ledger V σ) (x : V) (addr size : Nat) :
    (s.given x addr size).rest = s.rest := rfl

omit [DecidableEq V] in
@[simp] theorem refused_vars (s : Ledger V σ) : s.refused.vars = s.vars := rfl

/-- The block of another variable is left alone. -/
theorem Owned.freed_blocks {s : Ledger V σ} (h : s.Owned) {x y : V} (hyx : y ≠ x) {i : Nat}
    (hi : s.vars y = some i) : (s.freed x).blocks i = s.blocks i := by
  unfold freed
  cases hx : s.vars x with
  | none => rfl
  | some j => simp [Function.update_of_ne (h.ne hyx hi hx)]

theorem Owned.given_blocks {s : Ledger V σ} (h : s.Owned) {x y : V} {i : Nat}
    (hi : s.vars y = some i) (addr size : Nat) :
    (s.given x addr size).blocks i = s.blocks i := by
  have hlt := h.lt_next hi
  exact Function.update_of_ne (by omega) _ _

theorem given_block (s : Ledger V σ) (x : V) (addr size : Nat) :
    (s.given x addr size).blocks s.next = some { owner := x, addr := addr, size := size } :=
  Function.update_self _ _ _

theorem Owned.freed {s : Ledger V σ} (h : s.Owned) (x : V) : (s.freed x).Owned := by
  constructor
  · intro i hi
    have hnone := h.fresh i hi
    unfold Ledger.freed
    cases hx : s.vars x with
    | none => exact hnone
    | some j =>
      by_cases hij : i = j
      · simp [hij]
      · simp [Function.update_of_ne hij, hnone]
  · intro y i hi
    by_cases hyx : y = x
    · rw [hyx, freed_vars_self] at hi
      cases hi
    · rw [freed_vars_other _ hyx] at hi
      rw [h.freed_blocks hyx hi]
      exact h.owned y i hi

theorem Owned.given {s : Ledger V σ} (h : s.Owned) (x : V) (addr size : Nat) :
    (s.given x addr size).Owned := by
  constructor
  · intro i hi
    have hlt : s.next + 1 ≤ i := hi
    have hne : i ≠ s.next := by omega
    exact (Function.update_of_ne hne _ _).trans (h.fresh i (by omega))
  · intro y i hi
    by_cases hyx : y = x
    · rw [hyx, given_vars_self] at hi
      cases hi
      exact ⟨_, given_block s x addr size, hyx.symm⟩
    · rw [given_vars_other _ hyx] at hi
      rw [h.given_blocks hi]
      exact h.owned y i hi

omit [DecidableEq V] in
theorem Owned.refused {s : Ledger V σ} (h : s.Owned) : s.refused.Owned :=
  ⟨fun i hi => h.fresh i (Nat.le_of_succ_le hi), h.owned⟩

theorem Holds.freed {s : Ledger V σ} (h : s.Owned) {x y : V} {P : Block V → Prop}
    (hy : s.Holds y P) : (s.freed x).Holds y P := by
  intro i b hi hb
  by_cases hyx : y = x
  · rw [hyx, freed_vars_self] at hi
    cases hi
  · rw [freed_vars_other _ hyx] at hi
    rw [h.freed_blocks hyx hi] at hb
    exact hy i b hi hb

theorem Holds.given {s : Ledger V σ} (h : s.Owned) {x y : V} {P : Block V → Prop}
    (hy : s.Holds y P) (hyx : y ≠ x) (addr size : Nat) : (s.given x addr size).Holds y P := by
  intro i b hi hb
  rw [given_vars_other _ hyx] at hi
  rw [h.given_blocks hi] at hb
  exact hy i b hi hb

theorem holds_given (s : Ledger V σ) {x : V} {addr size : Nat} {P : Block V → Prop}
    (hP : P { owner := x, addr := addr, size := size }) : (s.given x addr size).Holds x P := by
  intro i b hi hb
  rw [given_vars_self] at hi
  cases hi
  rw [given_block] at hb
  cases hb
  exact hP

/-- Apart from some variables, the pointers and their blocks are the same. -/
def Keeps (l : List V) (s t : Ledger V σ) : Prop :=
  ∀ x, x ∉ l → t.vars x = s.vars x ∧ ∀ i, s.vars x = some i → t.blocks i = s.blocks i

omit [DecidableEq V] in
theorem Keeps.refl (l : List V) (s : Ledger V σ) : Keeps l s s :=
  fun _ _ => ⟨rfl, fun _ _ => rfl⟩

omit [DecidableEq V] in
theorem Keeps.trans {l : List V} {s t u : Ledger V σ} (h : Keeps l s t) (h' : Keeps l t u) :
    Keeps l s u := by
  intro x hx
  refine ⟨(h' x hx).1.trans (h x hx).1, ?_⟩
  intro i hi
  have hi' : t.vars x = some i := (h x hx).1.trans hi
  exact ((h' x hx).2 i hi').trans ((h x hx).2 i hi)

omit [DecidableEq V] in
theorem Keeps.weaken {l l' : List V} {s t : Ledger V σ} (h : Keeps l s t) (hsub : l ⊆ l') :
    Keeps l' s t := fun x hx => h x fun hmem => hx (hsub hmem)

omit [DecidableEq V] in
theorem Keeps.rest {l : List V} {s t : Ledger V σ} (h : Keeps l s t) (r : σ) :
    Keeps l s { t with rest := r } := h

theorem Owned.keeps_freed {s : Ledger V σ} (h : s.Owned) {l : List V} {x : V} (hx : x ∈ l) :
    Keeps l s (s.freed x) := by
  intro y hy
  have hne : y ≠ x := fun heq => hy (heq ▸ hx)
  exact ⟨freed_vars_other s hne, fun i hi => h.freed_blocks hne hi⟩

theorem Owned.keeps_given {s : Ledger V σ} (h : s.Owned) {l : List V} {x : V} (hx : x ∈ l)
    (addr size : Nat) : Keeps l s (s.given x addr size) := by
  intro y hy
  have hne : y ≠ x := fun heq => hy (heq ▸ hx)
  exact ⟨given_vars_other s hne addr size, fun i hi => h.given_blocks hi addr size⟩

omit [DecidableEq V] in
theorem keeps_refused (l : List V) (s : Ledger V σ) : Keeps l s s.refused :=
  fun _ _ => ⟨rfl, fun _ _ => rfl⟩

/-! ### Running the operations -/

omit [DecidableEq V] in
theorem get_apply (s : Ledger V σ) :
    (get : EStateM (Stop ε) (Ledger V σ) (Ledger V σ)) s = .ok s s := rfl

theorem free_run {s : Ledger V σ} (h : s.Owned) (x : V) :
    free (ε := ε) x s = .ok () (s.freed x) := by
  unfold free
  simp only [bind, EStateM.bind, get_apply]
  cases hx : s.vars x with
  | none =>
    have hsame : s.freed x = s := by
      have hvars : Function.update s.vars x none = s.vars := by
        rw [← hx]
        exact Function.update_eq_self x s.vars
      unfold freed
      rw [hx, hvars]
    rw [hsame]
    rfl
  | some i =>
    cases h.owned x i hx with
    | intro b hb =>
      simp only [hb.1]
      rfl

omit [DecidableEq V] in
theorem modifyRest_run (f : σ → σ) (s : Ledger V σ) :
    modifyRest (ε := ε) f s = .ok () { s with rest := f s.rest } := rfl

omit [DecidableEq V] in
theorem touchAt_run {s : Ledger V σ} {p : Ptr} {n : Nat} (h : n ≠ 0 → s.Live p n) :
    touchAt (ε := ε) (some p) n s = .ok () s := by
  unfold touchAt
  simp only [bind, EStateM.bind, get_apply]
  by_cases hn : n = 0
  · rw [if_pos hn]
    rfl
  · rw [if_neg hn]
    simp only [(live_iff s p n).2 (h hn), if_true]
    rfl

omit [DecidableEq V] in
theorem touch_run {s : Ledger V σ} {x : V} {i off n : Nat} (hx : s.vars x = some i)
    (h : n ≠ 0 → s.Live { block := i, off := off } n) :
    touch (ε := ε) x off n s = .ok () s := by
  have hrun := touchAt_run (ε := ε) (s := s) (p := { block := i, off := off }) h
  unfold touch
  simp only [bind, EStateM.bind, get_apply, hx, Option.map_some]
  exact hrun

omit [DecidableEq V] in
/-- An access to a block of a known size. -/
theorem Owned.touch {s : Ledger V σ} (h : s.Owned) {x : V} {off n m : Nat} (hx : s.vars x ≠ none)
    (hsize : s.Holds x fun b => m ≤ b.size) (hle : off + n ≤ m) :
    Ledger.touch (ε := ε) x off n s = .ok () s := by
  cases h.block hx with
  | intro i hi =>
    cases hi with
    | intro b hb =>
      exact touch_run hb.1 fun _ => ⟨b, hb.2, Nat.le_trans hle (hsize i b hb.1 hb.2)⟩

variable {E : Stop ε → Ledger V σ → Prop} {β : Type}

theorem allocate_none {grant : Nat → Option Nat} {x : V} {size : Nat} {s : Ledger V σ}
    (h : grant s.next = none) : allocate (ε := ε) grant x size s = .ok false s.refused := by
  unfold allocate
  simp only [bind, EStateM.bind, get_apply, h]
  rfl

theorem allocate_some {grant : Nat → Option Nat} {x : V} {size addr : Nat} {s : Ledger V σ}
    (h : grant s.next = some addr) :
    allocate (ε := ε) grant x size s = .ok true (s.given x addr size) := by
  unfold allocate
  simp only [bind, EStateM.bind, get_apply, h]
  rfl

/-- An allocation and what follows it. -/
theorem triple_allocate {Q : β → Ledger V σ → Prop} {grant : Nat → Option Nat} {x : V} {size : Nat}
    {s : Ledger V σ} {f : Bool → EStateM (Stop ε) (Ledger V σ) β}
    (hsome : ∀ addr, grant s.next = some addr →
      Triple (fun t => t = s.given x addr size) (f true) Q E)
    (hnone : Triple (fun t => t = s.refused) (f false) Q E) :
    Triple (fun t => t = s) (allocate grant x size >>= f) Q E := by
  cases hg : grant s.next with
  | none => exact Triple.step (allocate_none hg) hnone
  | some addr => exact Triple.step (allocate_some hg) (hsome addr hg)

end Ledger

end Rvzr.Lib
