import Rvzr.Km.SandboxCapacity

/-!
The part of `allocate_sandbox` that works on the tables beside the sandbox: it leaves the areas and
the pointers to them alone, and accesses only what is allocated.
-/

namespace Rvzr.Km.SandboxManager

open Rvzr.Lib

variable {k : Kernel} {s₀ s t : Manager} {n : Nat}

/-! ### What is left alone -/

/-- The variables of the areas and of `sandbox`. -/
def core : List Var := .sandbox :: .code :: mapping

/-- The areas and the pointers to them are those of `s₀`. -/
structure Beside (k : Kernel) (s₀ s : Manager) : Prop where
  base : Base k s
  core : ∀ x ∈ core, s.vars x = s₀.vars x ∧ ∀ i, s₀.vars x = some i → s.blocks i = s₀.blocks i
  aligned : s.rest.vaddrAligned = s₀.rest.vaddrAligned
  sandbox : s.rest.sandbox = s₀.rest.sandbox
  n : s.rest.oldNActors = s₀.rest.oldNActors

theorem Beside.refl (h : Base k s) : Beside k s s :=
  ⟨h, fun _ _ => ⟨rfl, fun _ _ => rfl⟩, rfl, rfl, rfl⟩

theorem Beside.ready (h : Beside k s₀ s) {m : Nat} (hr : Ready k s₀ m) : Ready k s m := by
  have hblock : ∀ x ∈ SandboxManager.core, ∀ i b, s₀.vars x = some i → s₀.blocks i = some b →
      s.vars x = some i ∧ s.blocks i = some b := by
    intro x hx i b hi hb
    exact ⟨(h.core x hx).1.trans hi, ((h.core x hx).2 i hi).trans hb⟩
  refine ⟨?_, ?_, ?_⟩
  · cases hr.area with
    | intro u ha => cases ha with
      | intro b ha => cases ha with
        | intro off ha =>
          have hub := hblock .vaddrUnaligned (by simp [SandboxManager.core, mapping]) u b ha.1 ha.2.1
          refine ⟨u, b, off, hub.1, hub.2, ha.2.2.1, ?_⟩
          rw [h.aligned, h.sandbox]
          exact ha.2.2.2
  · cases hr.pages with
    | intro i hp => cases hp with
      | intro b hp =>
        exact ⟨i, b, hblock .pages (by simp [SandboxManager.core, mapping]) i b hp.1 hp.2⟩
  · cases hr.code with
    | intro c hc => cases hc with
      | intro b hc =>
        have hcb := hblock .code (by simp [SandboxManager.core]) c b hc.1 hc.2.1
        refine ⟨c, b, hcb.1, hcb.2, hc.2.2.1, ?_⟩
        rw [h.sandbox]
        exact hc.2.2.2

theorem Beside.inv (h : Beside k s₀ s) (hi : Inv k s₀) : Inv k s := by
  refine ⟨h.base, ?_, ?_, ?_⟩
  · rw [(h.core .sandbox (by simp [SandboxManager.core])).1]
    exact hi.sandbox
  · rw [(h.core .pageArray (by simp [SandboxManager.core, mapping])).1,
      (h.core .pages (by simp [SandboxManager.core, mapping])).1]
    exact hi.paired
  · rw [(h.core .vaddrUnaligned (by simp [SandboxManager.core, mapping])).1,
      (h.core .code (by simp [SandboxManager.core])).1, h.n]
    exact fun hu hc => h.ready (hi.ready hu hc)

theorem Beside.freed (h : Beside k s₀ s) {x : Var} (hx : x ∉ SandboxManager.core) :
    Beside k s₀ (s.freed x) := by
  refine ⟨h.base.freed x, ?_, h.aligned, h.sandbox, h.n⟩
  intro y hy
  have hne : y ≠ x := fun heq => hx (heq ▸ hy)
  refine ⟨(Ledger.freed_vars_other s hne).trans (h.core y hy).1, ?_⟩
  intro i hi
  have hi' : s.vars y = some i := (h.core y hy).1.trans hi
  exact (h.base.owned.freed_blocks hne hi').trans ((h.core y hy).2 i hi)

theorem Beside.given (h : Beside k s₀ s) {x : Var} (hx : x ∉ SandboxManager.core) (addr : Nat)
    {size : Nat} (hmin : minSize k s.rest x ≤ size) : Beside k s₀ (s.given x addr size) := by
  have hpages : x ≠ .pages := fun heq => hx (by simp [heq, SandboxManager.core, mapping])
  refine ⟨h.base.given addr hmin fun heq => absurd heq hpages, ?_, h.aligned, h.sandbox, h.n⟩
  intro y hy
  have hne : y ≠ x := fun heq => hx (heq ▸ hy)
  refine ⟨(Ledger.given_vars_other s hne addr size).trans (h.core y hy).1, ?_⟩
  intro i hi
  have hi' : s.vars y = some i := (h.core y hy).1.trans hi
  exact (h.base.owned.given_blocks hi' addr size).trans ((h.core y hy).2 i hi)

theorem Beside.refused (h : Beside k s₀ s) : Beside k s₀ s.refused :=
  ⟨h.base.refused, h.core, h.aligned, h.sandbox, h.n⟩

/-! ### Walks of the page tables -/

theorem walk_run {p : Ptr} (h : s.Live p pageSize) : walk k (some p) s = .ok true s := by
  unfold walk
  refine (bind_run (get_run s)).trans ?_
  simp only [(Ledger.live_iff s p pageSize).2 h, if_true]
  rfl

theorem getPte_run {p : Ptr} (h : s.Live p pageSize) : getPte k (some p) s = .ok () s := by
  unfold getPte
  exact (bind_run (walk_run h)).trans rfl

/-- The walks over an area that is allocated. -/
theorem toPhys_run {p : Ptr} {size : Nat} (h : s.Live p size) :
    toPhys k (some p) size s = .ok () s := by
  unfold toPhys
  apply forM_run
  intro i hi
  have hlt : i < size / pageSize := List.mem_range.1 hi
  have hlive : s.Live { p with off := p.off + i * pageSize } pageSize := by
    cases h with
    | intro b hb =>
      refine ⟨b, hb.1, ?_⟩
      have hle : (i + 1) * pageSize ≤ size / pageSize * pageSize := Nat.mul_le_mul_right _ hlt
      have hdiv : size / pageSize * pageSize ≤ size := Nat.div_mul_le_self _ _
      have hsucc : (i + 1) * pageSize = i * pageSize + pageSize := Nat.succ_mul _ _
      have := hb.2
      show p.off + i * pageSize + pageSize ≤ b.size
      omega
  exact (bind_run (walk_run hlive)).trans rfl

/-- A part of the areas of `n` actors that the pointers of `sandbox` lead to. -/
theorem Ready.live_util (h : Ready k s n) (off m : Nat) (hoff : off + m ≤ sizeofUtil k) :
    ∃ p, s.rest.sandbox.util = some p ∧ s.Live { p with off := p.off + off } m := by
  cases h.area with
  | intro u h => cases h with
    | intro b h => cases h with
      | intro o h =>
        refine ⟨⟨u, o⟩, h.2.2.2.2.1, b, h.2.1, ?_⟩
        have := h.2.2.1
        show o + off + m ≤ b.size
        omega

theorem Ready.live_data (h : Ready k s n) (off m : Nat) (hoff : off + m ≤ n * sizeofActorData) :
    ∃ p, s.rest.sandbox.data = some p ∧ s.Live { p with off := p.off + off } m := by
  cases h.area with
  | intro u h => cases h with
    | intro b h => cases h with
      | intro o h =>
        refine ⟨⟨u, o + sizeofUtil k⟩, h.2.2.2.2.2, b, h.2.1, ?_⟩
        have := h.2.2.1
        show o + sizeofUtil k + off + m ≤ b.size
        omega

theorem Ready.live_code (h : Ready k s n) (off m : Nat) (hoff : off + m ≤ n * sizeofActorCode) :
    ∃ p, s.rest.sandbox.code = some p ∧ s.Live { p with off := p.off + off } m := by
  cases h.code with
  | intro c h => cases h with
    | intro b h =>
      refine ⟨⟨c, 0⟩, h.2.2.2, b, h.2.1, ?_⟩
      have := h.2.2.1
      show 0 + off + m ≤ b.size
      omega

/-- The part of one actor is within the parts of all. -/
theorem actor_part {actor : Nat} (size : Nat) (h : actor < n) : actor * size + size ≤ n * size := by
  have hle : (actor + 1) * size ≤ n * size := Nat.mul_le_mul_right _ h
  rwa [Nat.succ_mul] at hle

/-! ### The entries of the host -/

theorem cachePages_run {p : Ptr} {x : Var} {first m size : Nat} (h : Base k s)
    (hlive : s.Live p (m * pageSize)) (hx : s.vars x ≠ none)
    (hsize : s.Holds x fun b => size ≤ b.size) (hle : (first + m) * 8 ≤ size) :
    cachePages k (some p) x first m s = .ok () s := by
  unfold cachePages
  apply forM_run
  intro i hi
  have hlt : i < m := List.mem_range.1 hi
  have hpage : s.Live { p with off := p.off + i * pageSize } pageSize := by
    cases hlive with
    | intro b hb =>
      have hpart := actor_part pageSize hlt
      have := hb.2
      exact ⟨b, hb.1, by show p.off + i * pageSize + pageSize ≤ b.size; omega⟩
  refine (bind_run (getPte_run hpage)).trans ?_
  exact h.owned.touch hx hsize (by omega)

/-- The arrays of entries are there, with room for `n` actors. -/
structure Cached (k : Kernel) (n : Nat) (s : Manager) : Prop where
  base : Base k s
  ready : Ready k s n
  data : s.vars .dataPteps ≠ none
  code : s.vars .codePteps ≠ none
  count : n ≤ s.rest.ptepsOldNActors

/-- The loops of `cache_host_pteps`. -/
theorem cacheLoops_run (h : Cached k n s) :
    (do
      (List.range (nUtilPages k)).forM fun i =>
        getPte k (advance s.rest.sandbox.util (i * pageSize))
      (List.range n).forM fun actor => do
        cachePages k (advance s.rest.sandbox.data (actor * sizeofActorData)) .dataPteps
          (actor * 4) 4
        cachePages k (advance s.rest.sandbox.code (actor * sizeofActorCode)) .codePteps
          (actor * 3) 3 : ManagerM Unit) s = .ok () s := by
  refine (bind_run (forM_run ?_)).trans (forM_run ?_)
  · intro i hi
    have hlt : i < nUtilPages k := List.mem_range.1 hi
    have hoff : i * pageSize + pageSize ≤ sizeofUtil k := by
      have hpart := actor_part pageSize hlt
      have hdiv : nUtilPages k * pageSize ≤ sizeofUtil k := Nat.div_mul_le_self _ _
      omega
    cases h.ready.live_util _ _ hoff with
    | intro p hp =>
      rw [hp.1]
      exact getPte_run hp.2
  · intro actor hactor
    have hlt : actor < n := List.mem_range.1 hactor
    have hcount := h.count
    cases h.ready.live_data _ _ (actor_part sizeofActorData hlt) with
    | intro p hp =>
      cases h.ready.live_code _ _ (actor_part sizeofActorCode hlt) with
      | intro q hq =>
        rw [hp.1, hq.1]
        refine (bind_run (cachePages_run h.base hp.2 h.data (h.base.sized _) ?_)).trans ?_
        · show (actor * 4 + 4) * 8 ≤ s.rest.ptepsOldNActors * 4 * 8
          omega
        · refine cachePages_run h.base hq.2 h.code (h.base.sized _) ?_
          show (actor * 3 + 3) * 8 ≤ s.rest.ptepsOldNActors * 3 * 8
          omega

/-- The state in which the loops of `cache_host_pteps` run, as it was before the counter is set. -/
structure Tabled (k : Kernel) (s₀ : Manager) (n : Nat) (s : Manager) : Prop where
  beside : Beside k s₀ { s with rest := { s.rest with ptepsOldNActors := n } }
  data : s.vars .dataPteps ≠ none
  code : s.vars .codePteps ≠ none
  tables : ∀ x ∈ guestTables, s.vars x = s₀.vars x
  guests : s.rest.guestOldNActors = s₀.rest.guestOldNActors

/-- What a call needs to know after `cache_host_pteps`. -/
structure AfterPteps (k : Kernel) (s₀ s : Manager) : Prop where
  beside : Beside k s₀ s
  tables : ∀ x ∈ guestTables, s.vars x = s₀.vars x
  guests : s.rest.guestOldNActors = s₀.rest.guestOldNActors

theorem cacheTail_triple {E : Stop Int → Manager → Prop} (hr : Ready k s₀ n)
    (h : Tabled k s₀ n s) :
    Triple (fun t => t = s) (do
      Ledger.modifyRest fun r => { r with ptepsOldNActors := n }
      let sandbox := (← get).rest.sandbox
      (List.range (nUtilPages k)).forM fun i => getPte k (advance sandbox.util (i * pageSize))
      (List.range n).forM fun actor => do
        cachePages k (advance sandbox.data (actor * sizeofActorData)) .dataPteps (actor * 4) 4
        cachePages k (advance sandbox.code (actor * sizeofActorCode)) .codePteps (actor * 3) 3)
      (fun _ => AfterPteps k s₀) E := by
  apply Triple.step (Ledger.modifyRest_run _ _)
  apply Triple.step (get_run _)
  have hcached : Cached k n { s with rest := { s.rest with ptepsOldNActors := n } } :=
    ⟨h.beside.base, h.beside.ready hr, h.data, h.code, Nat.le_refl n⟩
  apply Triple.result (cacheLoops_run hcached)
  exact ⟨h.beside, h.tables, h.guests⟩

/-- The counter may change if there is no array that would be too small for it. -/
theorem base_pteps (h : Base k s)
    (hfit : s.vars .dataPteps ≠ none ∨ s.vars .codePteps ≠ none → n ≤ s.rest.ptepsOldNActors) :
    Base k { s with rest := { s.rest with ptepsOldNActors := n } } := by
  refine h.rest (fun _ => rfl) h.notStale ?_
  intro x hx
  cases x with
  | dataPteps =>
    have hle := hfit (.inl hx)
    show n * 4 * 8 ≤ s.rest.ptepsOldNActors * 4 * 8
    omega
  | codePteps =>
    have hle := hfit (.inr hx)
    show n * 3 * 8 ≤ s.rest.ptepsOldNActors * 3 * 8
    omega
  | _ => exact Nat.le_refl _

/-- Neither the arrays of entries nor the tables of the guests are part of the areas. -/
theorem not_core_pteps : Var.dataPteps ∉ core ∧ Var.codePteps ∉ core := by decide

theorem cacheHostPteps_triple (hi : Inv k s) (hr : Ready k s n)
    (hgrow : s.vars .dataPteps = none ∨ s.vars .codePteps = none → s.rest.ptepsOldNActors < n) :
    Triple (fun t => t = s) (checkErr (cacheHostPteps k n)) (fun _ => AfterPteps k s)
      (Fails k) := by
  apply checkErr_triple
  unfold cacheHostPteps
  apply Triple.step (get_run s)
  rw [if_neg hi.sandbox]
  apply Triple.step (get_run s)
  have hself := Beside.refl hi.base
  have hdata := not_core_pteps.1
  have hcode := not_core_pteps.2
  apply Triple.ite
  · intro hlt
    have h₁ := hself.freed hdata
    have h₂ := h₁.freed hcode
    apply Triple.step (Ledger.free_run hi.base.owned _)
    apply Triple.step (Ledger.free_run h₁.base.owned _)
    generalize hs₂ : (s.freed .dataPteps).freed .codePteps = s₂ at h₂ ⊢
    have hnodata : s₂.vars .dataPteps = none := by simp [← hs₂]
    have hnocode : s₂.vars .codePteps = none := by simp [← hs₂]
    have hguests : s₂.rest = s.rest := by rw [← hs₂]; rfl
    have htables : ∀ x ∈ guestTables, s₂.vars x = s.vars x := by
      intro x hx
      have hx₁ : x ≠ .dataPteps := fun heq => by simp [heq, guestTables] at hx
      have hx₂ : x ≠ .codePteps := fun heq => by simp [heq, guestTables] at hx
      rw [← hs₂, Ledger.freed_vars_other _ hx₂, Ledger.freed_vars_other _ hx₁]
    clear hs₂ h₁
    have hcount : s₂.rest.ptepsOldNActors < n := by
      rw [hguests]
      exact hlt
    apply checkedAlloc_triple
    · intro a₁
      have hmin : s₂.rest.ptepsOldNActors * 4 * 8 ≤ 4 * n * 8 := by omega
      have h₃ := h₂.given hdata a₁ hmin
      apply checkedAlloc_triple
      · intro a₂
        apply cacheTail_triple hr
        -- with the counter set first, the same two blocks are large enough
        have hset : Beside k s { s₂ with rest := { s₂.rest with ptepsOldNActors := n } } :=
          ⟨base_pteps h₂.base (by simp [hnodata, hnocode]), h₂.core, h₂.aligned, h₂.sandbox, h₂.n⟩
        have hdmin : n * 4 * 8 ≤ 4 * n * 8 := by omega
        have hcmin : n * 3 * 8 ≤ 3 * n * 8 := by omega
        refine ⟨(hset.given hdata a₁ hdmin).given hcode a₂ hcmin, ?_, ?_, ?_, ?_⟩
        · simp
        · simp
        · intro x hx
          have hx₁ : x ≠ .dataPteps := fun heq => by simp [heq, guestTables] at hx
          have hx₂ : x ≠ .codePteps := fun heq => by simp [heq, guestTables] at hx
          rw [Ledger.given_vars_other _ hx₂, Ledger.given_vars_other _ hx₁]
          exact htables x hx
        · rw [Ledger.given_rest, Ledger.given_rest, hguests]
      · exact h₃.refused.inv hi
    · exact h₂.refused.inv hi
  · intro hle
    have hne : ¬ (s.vars .dataPteps = none ∨ s.vars .codePteps = none) := fun h => hle (hgrow h)
    apply cacheTail_triple hr
    exact ⟨⟨base_pteps hi.base fun _ => Nat.le_of_not_lt hle, hself.core, rfl, rfl, rfl⟩,
      fun h => hne (.inl h), fun h => hne (.inr h), fun _ _ => rfl, rfl⟩

/-! ### The tables of the guests -/

/-- The counter of `allocate_guest_page_tables` is `n`, and the variables of `xs` have memory. -/
structure Filled (k : Kernel) (s₀ : Manager) (n : Nat) (xs : List Var) (s : Manager) : Prop where
  beside : Beside k s₀ s
  count : s.rest.guestOldNActors = n
  filled : ∀ x ∈ xs, s.vars x ≠ none

section

variable {xs : List Var}

theorem Filled.free {x : Var} (hx : x ∉ core) (hxs : x ∉ xs) :
    Triple (Filled k s₀ n xs) (Ledger.free x) (fun _ => Filled k s₀ n xs) (Fails k) := by
  apply Triple.each
  intro s h
  apply Triple.result (Ledger.free_run h.beside.base.owned x)
  refine ⟨h.beside.freed hx, h.count, ?_⟩
  intro y hy
  have hne : y ≠ x := fun heq => hxs (heq ▸ hy)
  rw [Ledger.freed_vars_other s hne]
  exact h.filled y hy

theorem Filled.subset (h : Filled k s₀ n xs s) {ys : List Var} (hsub : ys ⊆ xs) :
    Filled k s₀ n ys s := ⟨h.beside, h.count, fun x hx => h.filled x (hsub hx)⟩

/-- A checked allocation, for a table whose size depends on the number of actors. -/
theorem Filled.alloc (hi : Inv k s₀) {x : Var} {size : Nat} (hx : x ∉ core)
    (hmin : ∀ s, Filled k s₀ n xs s → minSize k s.rest x ≤ size) :
    Triple (Filled k s₀ n xs) (checkedAlloc k x size) (fun _ => Filled k s₀ n (x :: xs))
      (Fails k) := by
  apply Triple.each
  intro s h
  rw [← bind_pure (checkedAlloc k x size)]
  apply checkedAlloc_triple
  · intro addr
    apply Triple.pure
    intro t ht
    rw [ht]
    refine ⟨h.beside.given hx addr (hmin s h), h.count, ?_⟩
    intro y hy
    by_cases hyx : y = x
    · rw [hyx, Ledger.given_vars_self]
      simp
    · rw [Ledger.given_vars_other s hyx]
      exact h.filled y (by simpa [hyx] using hy)
  · exact h.beside.refused.inv hi

/-- An access to one of the tables. -/
theorem Filled.touch {E : Stop Int → Manager → Prop} {x : Var} {off m : Nat} (hx : x ∈ xs)
    (hle : ∀ s, Filled k s₀ n xs s → off + m ≤ minSize k s.rest x) :
    Triple (Filled k s₀ n xs) (Ledger.touch x off m) (fun _ => Filled k s₀ n xs) E := by
  apply Triple.each
  intro s h
  apply Triple.result (h.beside.base.owned.touch (h.filled x hx) (h.beside.base.sized x) (hle s h))
  exact h

/-- A change of the variables that no size depends on. -/
theorem Filled.rest {E : Stop Int → Manager → Prop} {f : Statics → Statics}
    (hf : ∀ r, (f r).numPages = r.numPages ∧ (f r).oldXSize = r.oldXSize ∧
      (f r).ptepsOldNActors = r.ptepsOldNActors ∧ (f r).guestOldNActors = r.guestOldNActors ∧
      (f r).staleUse = r.staleUse ∧ (f r).vaddrAligned = r.vaddrAligned ∧
      (f r).sandbox = r.sandbox ∧ (f r).oldNActors = r.oldNActors) :
    Triple (Filled k s₀ n xs) (Ledger.modifyRest f) (fun _ => Filled k s₀ n xs) E := by
  intro s h
  cases hf s.rest with
  | intro hnum hf => cases hf with
    | intro hx hf => cases hf with
      | intro hp hf => cases hf with
        | intro hg hf => cases hf with
          | intro hstale hf =>
            have hbase : Base k { s with rest := f s.rest } := by
              refine h.beside.base.rest (fun _ => hnum) ?_ ?_
              · rw [hstale]
                exact h.beside.base.notStale
              · intro x _
                apply Nat.le_of_eq
                cases x <;> simp only [minSize, hx, hp, hg]
            refine ⟨⟨hbase, h.beside.core, ?_, ?_, ?_⟩, ?_, h.filled⟩
            · exact hf.1.trans h.beside.aligned
            · exact hf.2.1.trans h.beside.sandbox
            · exact hf.2.2.trans h.beside.n
            · exact hg.trans h.count

end

/-- The tables are given up before the counter would make them too small. -/
theorem Beside.guestsFreed {Q : Unit → Manager → Prop} {E : Stop Int → Manager → Prop}
    {f : Unit → ManagerM Unit} (h : Beside k s₀ s) {r : Statics}
    (hr : r = { s.rest with guestOldNActors := n })
    (hf : ∀ t, Beside k s₀ t → t.rest = r → Triple (fun u => u = t) (f ()) Q E) :
    Triple (fun u => u = { s with rest := r }) (do
      Ledger.free .allocatedPageTables
      Ledger.free .allocatedExtendedPageTables
      Ledger.free .allocatedGuestGdts
      Ledger.free .guestMemoryTranslations
      let u ← Ledger.free .vmlaunchPage
      f u) Q E := by
  have hmem : ∀ x ∈ guestTables, x ∉ SandboxManager.core := by decide
  have h₁ := h.freed (hmem .allocatedPageTables (by decide))
  have h₂ := h₁.freed (hmem .allocatedExtendedPageTables (by decide))
  have h₃ := h₂.freed (hmem .allocatedGuestGdts (by decide))
  have h₄ := h₃.freed (hmem .guestMemoryTranslations (by decide))
  have h₅ := h₄.freed (hmem .vmlaunchPage (by decide))
  have owned : ∀ {t : Manager}, t.Owned → Ledger.Owned { t with rest := r } :=
    fun ho => ⟨ho.fresh, ho.owned⟩
  apply Triple.step (Ledger.free_run (owned h.base.owned) _)
  apply Triple.step (Ledger.free_run (owned h₁.base.owned) _)
  apply Triple.step (Ledger.free_run (owned h₂.base.owned) _)
  apply Triple.step (Ledger.free_run (owned h₃.base.owned) _)
  apply Triple.step (Ledger.free_run (owned h₄.base.owned) _)
  refine hf { ((((s.freed .allocatedPageTables).freed .allocatedExtendedPageTables).freed
    .allocatedGuestGdts).freed .guestMemoryTranslations).freed .vmlaunchPage with rest := r } ?_ rfl
  subst hr
  refine ⟨h₅.base.rest (fun _ => rfl) h₅.base.notStale ?_, h₅.core, h₅.aligned, h₅.sandbox, h₅.n⟩
  intro x hx
  cases x with
  | allocatedPageTables => exact absurd (by simp) hx
  | allocatedExtendedPageTables => exact absurd (by simp) hx
  | allocatedGuestGdts => exact absurd (by simp) hx
  | guestMemoryTranslations => exact absurd (by simp) hx
  | _ => exact Nat.le_refl _

theorem allocateGuestPageTables_triple (hi : Inv k s)
    (hgrow : (∃ x ∈ guestTables, s.vars x = none) → s.rest.guestOldNActors < n) :
    Triple (fun t => t = s) (checkErr (allocateGuestPageTables k n))
      (fun _ t => ∃ m, n ≤ m ∧ Filled k s m guestTables t) (Fails k) := by
  have hself := Beside.refl hi.base
  apply checkErr_triple
  unfold allocateGuestPageTables
  apply Triple.ite
  · intro _
    apply Triple.raise rfl
    exact hi
  · intro _
    apply Triple.step (get_run s)
    apply Triple.ite
    · intro hle
      have hfilled : Filled k s s.rest.guestOldNActors guestTables s := by
        refine ⟨hself, rfl, ?_⟩
        intro x hx hnone
        have hlt := hgrow ⟨x, hx, hnone⟩
        omega
      have hmul : ∀ m (t : Manager), Filled k s s.rest.guestOldNActors guestTables t →
          0 + n * m ≤ t.rest.guestOldNActors * m := by
        intro m t ht
        have hmul := Nat.mul_le_mul_right m hle
        rw [ht.count]
        omega
      refine (Triple.start (P := Filled k s s.rest.guestOldNActors guestTables) ?_ hfilled).conseq
        (fun _ h => h) (fun _ t h => ⟨_, hle, h⟩) (fun _ _ h => h)
      apply Triple.bind (Filled.touch (by decide) (hmul _))
      intro _
      apply Triple.bind (Filled.touch (by decide) (hmul _))
      intro _
      apply Triple.bind (Filled.touch (by decide) (hmul _))
      intro _
      exact Filled.touch (by decide) (hmul _)
    · intro _
      apply Triple.step (Ledger.modifyRest_run _ _)
      apply hself.guestsFreed rfl
      intro t ht hrest
      have hfilled : Filled k s n [] t := by
        refine ⟨ht, ?_, by simp⟩
        rw [hrest]
      have hmul : ∀ xs m (u : Manager), Filled k s n xs u →
          u.rest.guestOldNActors * m ≤ n * m := by
        intro xs m u hu
        rw [hu.count]
      have hzero : ∀ xs m (u : Manager), Filled k s n xs u →
          0 + n * m ≤ u.rest.guestOldNActors * m := by
        intro xs m u hu
        rw [hu.count]
        omega
      refine (Triple.start (P := Filled k s n []) ?_ hfilled)
      apply Triple.bind (Filled.alloc hi (by decide) (hmul _ _))
      intro _
      apply Triple.bind (Filled.touch (by decide) (hzero _ _))
      intro _
      apply Triple.bind (Filled.alloc hi (by decide) (hmul _ _))
      intro _
      apply Triple.bind (Filled.touch (by decide) (hzero _ _))
      intro _
      apply Triple.bind (Filled.alloc hi (by decide) (hmul _ _))
      intro _
      apply Triple.bind (Filled.alloc hi (by decide) (hmul _ _))
      intro _
      apply Triple.bind (Filled.alloc hi (by decide) fun _ _ => Nat.le_refl _)
      intro _
      apply Triple.bind (Filled.touch (by decide) fun _ _ => (by decide : 0 + 3 ≤ pageSize))
      intro _
      apply Triple.bind (Filled.alloc hi (by decide) fun _ _ => Nat.zero_le _)
      intro _
      apply Triple.bind (Filled.alloc hi (by decide) fun _ _ => Nat.zero_le _)
      intro _
      refine Triple.conseq (Filled.rest ?_) (fun _ h => h) ?_ (fun _ _ h => h)
      · exact fun r => ⟨rfl, rfl, rfl, rfl, rfl, rfl, rfl, rfl⟩
      intro _ u hu
      exact ⟨n, Nat.le_refl n, hu.beside, hu.count, fun x hx => hu.filled x (by
        revert x
        decide)⟩

/-! ### Mapping the sandbox into the guests -/

section

variable {tc : TestCase} {m : Nat} {xs : List Var}

/-- The part of one actor in one of the tables. -/
theorem Filled.part (h : Filled k s₀ n xs s) (actor size : Nat) (hactor : actor < n) :
    actor * size + size ≤ s.rest.guestOldNActors * size := by
  rw [h.count]
  exact actor_part size hactor

theorem Filled.entry (h : Filled k s₀ n xs s) {x : Var} {off len : Nat} (hx : x ∈ xs)
    (hle : off + len ≤ minSize k s.rest x) : Ledger.touch (ε := Int) x off len s = .ok () s :=
  h.beside.base.owned.touch (h.filled x hx) (h.beside.base.sized x) hle

theorem Filled.entryOf (h : Filled k s₀ n xs s) {x : Var} {actor size len : Nat} (hx : x ∈ xs)
    (hle : actor * size + len ≤ minSize k s.rest x) :
    ∃ p, entryOf x actor size s = .ok (some p) s ∧ s.Live p len := by
  cases h.beside.base.owned.block (h.filled x hx) with
  | intro i hi => cases hi with
    | intro b hb =>
      refine ⟨⟨i, actor * size⟩, ?_, b, hb.2, ?_⟩
      · unfold SandboxManager.entryOf
        refine (bind_run (get_run s)).trans ?_
        rw [hb.1]
        rfl
      · exact Nat.le_trans hle (h.beside.base.sized x i b hb.1 hb.2)

/-- The walks over a part of an area that a pointer of `sandbox` leads to. -/
theorem toPhys_part {o : Option Ptr} {off m : Nat}
    (h : ∃ p, o = some p ∧ s.Live { p with off := p.off + off } m) :
    toPhys k (advance o off) m s = .ok () s := by
  cases h with
  | intro p hp =>
    rw [hp.1]
    exact toPhys_run hp.2

theorem Ready.toPhys_util (h : Ready k s n) {m : Nat} (hm : 0 + m ≤ sizeofUtil k) :
    toPhys k s.rest.sandbox.util m s = .ok () s := by
  cases h.live_util 0 m hm with
  | intro p hp =>
    rw [hp.1]
    exact toPhys_run hp.2

/-- A round ends with an error if the entry is taken. -/
theorem collides_triple {P : Manager → Prop} (hP : ∀ s, P s → Inv k s) (actor : Nat) :
    Triple P (if k.collides actor then throw (.error (-eio)) else pure () : ManagerM Unit)
      (fun _ => P) (Fails k) := by
  apply Triple.ite
  · intro _
    exact Triple.throw hP
  · intro _
    exact Triple.pure fun _ h => h

/-- The areas hold the part of actor 0. -/
theorem Ready.first (h : Ready k s n) (hn : 0 < n) :
    (∃ p, s.rest.sandbox.data = some p ∧ s.Live p sizeofActorData) ∧
      ∃ p, s.rest.sandbox.code = some p ∧ s.Live p sizeofActorCode := by
  have hpart : ∀ size, 0 + size ≤ n * size := fun size => by
    have hle := Nat.le_mul_of_pos_left size hn
    omega
  exact ⟨h.live_data 0 _ (hpart _), h.live_code 0 _ (hpart _)⟩

theorem setGuestPageTable_triple (hi : Inv k s₀) (hr : Ready k s₀ tc.nActors)
    (hle : tc.nActors ≤ m) {actor : Nat} (hlt : actor < tc.nActors) :
    Triple (Filled k s₀ m guestTables) (setGuestPageTable k actor)
      (fun _ => Filled k s₀ m guestTables) (Fails k) := by
  apply Triple.each
  intro t h
  have hend := (collides_triple (fun _ h => Beside.inv (Filled.beside h) hi) actor).start h
  unfold setGuestPageTable
  have hltm : actor < m := by omega
  apply Triple.step (h.entry (by decide) (h.part _ _ hltm))
  apply Triple.step (h.entry (by decide) (h.part _ _ hltm))
  apply Triple.ite
  · intro _
    have hfirst := (h.beside.ready hr).first (by omega)
    cases hfirst.1 with
    | intro p hp =>
      cases hfirst.2 with
      | intro q hq =>
        apply Triple.step (get_run t)
        rw [hp.1]
        apply Triple.step (toPhys_run hp.2)
        apply Triple.step (get_run t)
        rw [hq.1]
        apply Triple.step (toPhys_run hq.2)
        exact hend
  · intro _
    exact hend

theorem setGuestPageTables_triple (hi : Inv k s₀) (hr : Ready k s₀ tc.nActors)
    (hle : tc.nActors ≤ m) :
    Triple (Filled k s₀ m guestTables) (setGuestPageTables k tc)
      (fun _ => Filled k s₀ m guestTables) (Fails k) := by
  have htail : Triple (Filled k s₀ m guestTables) (do
      Ledger.modifyRest fun r => { r with guestPtOldNActors := tc.nActors }
      ((List.range tc.nActors).filter tc.isGuest).forM (setGuestPageTable k)
      Ledger.modifyRest fun r => { r with guestPtIsSet := true })
      (fun _ => Filled k s₀ m guestTables) (Fails k) := by
    apply Triple.bind
    · apply Filled.rest
      exact fun r => ⟨rfl, rfl, rfl, rfl, rfl, rfl, rfl, rfl⟩
    intro _
    apply Triple.bind (Triple.forM fun actor hactor => setGuestPageTable_triple hi hr hle
      (List.mem_range.1 (List.mem_of_mem_filter hactor)))
    intro _
    apply Filled.rest
    exact fun r => ⟨rfl, rfl, rfl, rfl, rfl, rfl, rfl, rfl⟩
  unfold setGuestPageTables
  apply Triple.get_bind
  intro t h
  apply Triple.ite
  · intro _
    refine Triple.start (P := Filled k s₀ m guestTables) ?_ h
    apply Triple.bind (Filled.free (by decide) (by decide))
    intro _
    apply Triple.bind (Filled.free (by decide) (by decide))
    intro _
    apply Triple.bind (Filled.alloc hi (by decide) fun _ _ => Nat.zero_le _)
    intro _
    apply Triple.bind (Filled.alloc hi (by decide) fun _ _ => Nat.zero_le _)
    intro _
    exact htail.conseq (fun u hu => hu.subset (by decide)) (fun _ _ h => h) (fun _ _ h => h)
  · intro _
    exact htail.start h

theorem setExtendedPageTable_triple (hi : Inv k s₀) (hr : Ready k s₀ tc.nActors)
    (hle : tc.nActors ≤ m) {actor : Nat} (hlt : actor < tc.nActors) :
    Triple (Filled k s₀ m guestTables) (setExtendedPageTable k actor)
      (fun _ => Filled k s₀ m guestTables) (Fails k) := by
  apply Triple.each
  intro t h
  have hready := h.beside.ready hr
  have hltm : actor < m := by omega
  have hutil : 0 + nUtilPages k * pageSize ≤ sizeofUtil k := by
    have hdiv : nUtilPages k * pageSize ≤ sizeofUtil k := Nat.div_mul_le_self _ _
    omega
  have hend := (collides_triple (fun _ h => Beside.inv (Filled.beside h) hi) actor).start h
  have hstart : 0 * 0 + pageSize ≤ pageSize := by omega
  unfold setExtendedPageTable
  cases h.entryOf (x := .allocatedExtendedPageTables) (by decide) (h.part _ _ hltm) with
  | intro ept hept =>
    cases h.entryOf (x := .allocatedGuestGdts) (by decide) (h.part _ _ hltm) with
    | intro gdt hgdt =>
      cases h.entryOf (x := .vmlaunchPage) (by decide) hstart with
      | intro page hpage =>
        cases h.entryOf (x := .allocatedPageTables) (by decide) (h.part _ _ hltm) with
        | intro pt hpt =>
          apply Triple.step hept.1
          apply Triple.step (toPhys_run hept.2)
          apply Triple.step (h.entry (by decide) (h.part _ _ hltm))
          apply Triple.step (h.entry (by decide) (h.part _ _ hltm))
          apply Triple.step (get_run t)
          apply Triple.step (hready.toPhys_util hutil)
          apply Triple.step (toPhys_part (hready.live_data _ _ (actor_part sizeofActorData hlt)))
          apply Triple.step (toPhys_part (hready.live_code _ _ (actor_part sizeofActorCode hlt)))
          apply Triple.step hgdt.1
          apply Triple.step (toPhys_run hgdt.2)
          apply Triple.step hpage.1
          apply Triple.step (toPhys_run hpage.2)
          apply Triple.step hpt.1
          apply Triple.step (toPhys_run hpt.2)
          exact hend

theorem setExtendedPageTables_triple (hi : Inv k s₀) (hr : Ready k s₀ tc.nActors)
    (hle : tc.nActors ≤ m) :
    Triple (Filled k s₀ m guestTables) (setExtendedPageTables k tc)
      (fun _ => Filled k s₀ m guestTables) (Fails k) := by
  unfold setExtendedPageTables
  apply Triple.get_bind
  intro t h
  rw [if_neg (h.beside.inv hi).sandbox]
  apply Triple.step (get_run t)
  apply Triple.ite
  · intro _
    apply Triple.raise rfl
    exact h.beside.inv hi
  · intro _
    refine Triple.start (P := Filled k s₀ m guestTables) ?_ h
    apply Triple.bind (Triple.forM fun actor hactor => setExtendedPageTable_triple hi hr hle
      (List.mem_range.1 (List.mem_of_mem_filter hactor)))
    intro _
    apply Filled.rest
    exact fun r => ⟨rfl, rfl, rfl, rfl, rfl, rfl, rfl, rfl⟩

theorem updateEptp_triple (hi : Inv k s₀) (hle : n ≤ m) :
    Triple (Filled k s₀ m guestTables) (updateEptp k n) (fun _ => Filled k s₀ m guestTables)
      (Fails k) := by
  unfold updateEptp
  apply Triple.get_bind
  intro t h
  apply Triple.ite
  · intro _
    apply Triple.raise rfl
    exact h.beside.inv hi
  · intro _
    apply Triple.step (Ledger.free_run h.beside.base.owned _)
    have hfree : Triple (Filled k s₀ m guestTables) (Ledger.free .eptPtr)
        (fun _ => Filled k s₀ m guestTables) (Fails k) := Filled.free (by decide) (by decide)
    have h₁ : Filled k s₀ m guestTables (t.freed .eptPtr) :=
      hfree.ok h (Ledger.free_run h.beside.base.owned _)
    apply checkedAlloc_triple
    · intro addr
      have hne : ∀ x ∈ guestTables, x ≠ .eptPtr := by decide
      have h₂ : Filled k s₀ m guestTables ((t.freed .eptPtr).given .eptPtr addr (8 * n)) := by
        refine ⟨h₁.beside.given (by decide) addr (Nat.zero_le _), h₁.count, ?_⟩
        intro x hx
        rw [Ledger.given_vars_other _ (hne x hx)]
        exact h₁.filled x hx
      have hsize : Ledger.Holds ((t.freed .eptPtr).given .eptPtr addr (8 * n)) .eptPtr
          fun b => 8 * n ≤ b.size := Ledger.holds_given _ (Nat.le_refl _)
      have hvar : ((t.freed .eptPtr).given .eptPtr addr (8 * n)).vars .eptPtr ≠ none := by simp
      generalize (t.freed .eptPtr).given .eptPtr addr (8 * n) = u at h₂ hsize hvar ⊢
      refine Triple.result (a := ()) (forM_run ?_) h₂
      intro actor hactor
      have hlt : actor < n := List.mem_range.1 hactor
      cases h₂.entryOf (x := .allocatedExtendedPageTables) (by decide)
          (h₂.part actor sizeofActorEpt (by omega)) with
      | intro p hp =>
        refine (bind_run hp.1).trans ?_
        refine (bind_run (toPhys_run hp.2)).trans ?_
        exact h₂.beside.base.owned.touch hvar hsize (by omega)
    · exact h₁.beside.refused.inv hi

theorem mapSandboxToGuestMemory_triple (hi : Inv k s₀) (hr : Ready k s₀ tc.nActors)
    (hle : tc.nActors ≤ m) :
    Triple (Filled k s₀ m guestTables) (checkErr (mapSandboxToGuestMemory k tc))
      (fun _ => Filled k s₀ m guestTables) (Fails k) := by
  apply checkErr_triple
  unfold mapSandboxToGuestMemory
  apply Triple.get_bind
  intro t h
  rw [if_neg (h.filled .allocatedPageTables (by decide))]
  apply Triple.step (get_run t)
  rw [if_neg (h.filled .allocatedExtendedPageTables (by decide))]
  apply Triple.step (get_run t)
  rw [if_neg (h.filled .allocatedGuestGdts (by decide))]
  refine Triple.start (P := Filled k s₀ m guestTables) ?_ h
  apply Triple.bind (checkErr_triple (setGuestPageTables_triple hi hr hle))
  intro _
  apply Triple.bind (checkErr_triple (setExtendedPageTables_triple hi hr hle))
  intro _
  exact checkErr_triple (updateEptp_triple hi hle)

end

end Rvzr.Km.SandboxManager
