import Rvzr.Km.SandboxManager

/-!
The room that `allocate_sandbox` is to leave for the actors of a test case, the invariant between its
calls, and what its first part does: the two areas and the pointers of `sandbox`.
-/

namespace Rvzr.Km.SandboxManager

open Rvzr.Lib

variable (k : Kernel)

/-! ### What a call is to leave -/

/-- Room for `n` actors: the two areas are allocated, are large enough, and the pointers of
`sandbox` point into them. -/
structure Ready (s : Manager) (n : Nat) : Prop where
  area : ∃ u b off, s.vars .vaddrUnaligned = some u ∧ s.blocks u = some b ∧
    off + sizeofUtil k + n * sizeofActorData ≤ b.size ∧
    s.rest.vaddrAligned = some ⟨u, off⟩ ∧ s.rest.sandbox.util = some ⟨u, off⟩ ∧
    s.rest.sandbox.data = some ⟨u, off + sizeofUtil k⟩
  pages : ∃ i b, s.vars .pages = some i ∧ s.blocks i = some b
  code : ∃ c b, s.vars .code = some c ∧ s.blocks c = some b ∧ n * sizeofActorCode ≤ b.size ∧
    s.rest.sandbox.code = some ⟨c, 0⟩

/-- The outcome of a call is as it is to be. -/
def Sound (tc : TestCase) : EStateM.Result (Stop Int) Manager Unit → Prop
  | .ok _ s => Ready k s tc.nActors ∧ s.rest.staleUse = false
  | .error (.error _) s => s.rest.staleUse = false
  | .error .fault _ => False

/-- The tables that the guests of a test case use. -/
def guestTables : List Var :=
  [.allocatedPageTables, .allocatedExtendedPageTables, .allocatedGuestGdts,
    .guestMemoryTranslations, .vmlaunchPage]

/-- Whatever an earlier failure has left without memory, the test case asks for more actors than the
function that allocates it has last served. -/
structure Grows (s : Manager) (tc : TestCase) : Prop where
  memory : s.vars .vaddrUnaligned = none ∨ s.vars .code = none →
    s.rest.oldNActors < tc.nActors
  pteps : s.vars .dataPteps = none ∨ s.vars .codePteps = none →
    s.rest.ptepsOldNActors < tc.nActors
  guests : tc.includesVmActors = true → (∃ x ∈ guestTables, s.vars x = none) →
    s.rest.guestOldNActors < tc.nActors

/-! ### The invariant -/

/-- The size that the program takes for granted of a block. -/
def minSize (r : Statics) : Var → Nat
  | .code => r.oldXSize * pageSize
  | .sandbox => 24
  | .dataPteps => r.ptepsOldNActors * 4 * 8
  | .codePteps => r.ptepsOldNActors * 3 * 8
  | .allocatedPageTables => r.guestOldNActors * sizeofActorPageTable
  | .allocatedExtendedPageTables => r.guestOldNActors * sizeofActorEpt
  | .allocatedGuestGdts => r.guestOldNActors * sizeofActorGdt
  | .guestMemoryTranslations => r.guestOldNActors * sizeofTranslations k
  | .vmlaunchPage => pageSize
  | _ => 0

structure Base (s : Manager) : Prop where
  owned : s.Owned
  sized : ∀ x, s.Holds x fun b => minSize k s.rest x ≤ b.size
  order : s.Holds .pages fun b => b.size = 2 ^ getOrder (s.rest.numPages * pageSize) * pageSize
  notStale : s.rest.staleUse = false

/-- The invariant between calls. -/
structure Inv (s : Manager) : Prop where
  base : Base k s
  sandbox : s.vars .sandbox ≠ none
  paired : s.vars .pageArray = none ↔ s.vars .pages = none
  ready : s.vars .vaddrUnaligned ≠ none → s.vars .code ≠ none → Ready k s s.rest.oldNActors

/-- An error is one between calls; there is no fault. -/
def Fails : Stop Int → Manager → Prop
  | .error _, s => Inv k s
  | .fault, _ => False

variable {k} {s : Manager}

theorem Base.freed (h : Base k s) (x : Var) : Base k (s.freed x) :=
  ⟨h.owned.freed x, fun y => (h.sized y).freed h.owned, h.order.freed h.owned, h.notStale⟩

theorem Base.refused (h : Base k s) : Base k s.refused :=
  ⟨h.owned.refused, h.sized, h.order, h.notStale⟩

theorem Base.given (h : Base k s) {x : Var} (addr : Nat) {size : Nat}
    (hmin : minSize k s.rest x ≤ size)
    (hpages : x = .pages → size = 2 ^ getOrder (s.rest.numPages * pageSize) * pageSize) :
    Base k (s.given x addr size) := by
  refine ⟨h.owned.given x addr size, ?_, ?_, h.notStale⟩
  · intro y
    by_cases hyx : y = x
    · rw [hyx]
      exact Ledger.holds_given s hmin
    · exact (h.sized y).given h.owned hyx addr size
  · by_cases hpx : Var.pages = x
    · rw [← hpx]
      exact Ledger.holds_given s (hpages hpx.symm)
    · exact h.order.given h.owned hpx addr size

/-- Changing the other variables is harmless if no block becomes too small for them. -/
theorem Base.rest (h : Base k s) {r : Statics}
    (hnum : s.vars .pages ≠ none → r.numPages = s.rest.numPages)
    (hstale : r.staleUse = false)
    (hmin : ∀ x, s.vars x ≠ none → minSize k r x ≤ minSize k s.rest x) :
    Base k { s with rest := r } := by
  have hsome : ∀ x i, s.vars x = some i → s.vars x ≠ none := by
    intro x i hi hnone
    rw [hnone] at hi
    cases hi
  refine ⟨⟨h.owned.fresh, h.owned.owned⟩, ?_, ?_, hstale⟩
  · intro x i b hi hb
    exact Nat.le_trans (hmin x (hsome x i hi)) (h.sized x i b hi hb)
  · intro i b hi hb
    show b.size = 2 ^ getOrder (r.numPages * pageSize) * pageSize
    rw [hnum (hsome .pages i hi)]
    exact h.order i b hi hb

theorem Ready.mono {n m : Nat} (h : Ready k s n) (hle : m ≤ n) : Ready k s m := by
  have hd : m * sizeofActorData ≤ n * sizeofActorData := Nat.mul_le_mul_right _ hle
  have hc : m * sizeofActorCode ≤ n * sizeofActorCode := Nat.mul_le_mul_right _ hle
  refine ⟨?_, h.pages, ?_⟩
  · cases h.area with
    | intro u h => cases h with
      | intro b h => cases h with
        | intro off h =>
          exact ⟨u, b, off, h.1, h.2.1, by have := h.2.2.1; omega, h.2.2.2⟩
  · cases h.code with
    | intro c h => cases h with
      | intro b h => exact ⟨c, b, h.1, h.2.1, by have := h.2.2.1; omega, h.2.2.2⟩

/-! ### New memory -/

/-- The state after the mapping is gone, and after `safe_free_util_data`. -/
def unmapped (s : Manager) : Manager :=
  { s.freed .vaddrUnaligned with rest := { s.rest with vaddrAligned := none } }

def freedUtil (s : Manager) : Manager :=
  if s.vars .pageArray = none then unmapped s else ((unmapped s).freed .pages).freed .pageArray

theorem unmapped_vars (s : Manager) {x : Var} (hx : x ≠ .vaddrUnaligned) :
    (unmapped s).vars x = s.vars x := Ledger.freed_vars_other s hx

theorem base_unmapped (h : Base k s) : Base k (unmapped s) :=
  (h.freed .vaddrUnaligned).rest (fun _ => rfl) h.notStale fun x _ => by
    cases x <;> exact Nat.le_refl _

theorem base_freedUtil (h : Base k s) : Base k (freedUtil s) := by
  have hbase := base_unmapped h
  unfold freedUtil
  split
  · exact hbase
  · exact (hbase.freed .pages).freed .pageArray

theorem freedUtil_rest (s : Manager) :
    (freedUtil s).rest = { s.rest with vaddrAligned := none } := by
  unfold freedUtil
  split
  · rfl
  · rfl

theorem freedUtil_none (hpair : s.vars .pageArray = none ↔ s.vars .pages = none) {x : Var}
    (hx : x ∈ [Var.vaddrUnaligned, .pageArray, .pages]) : (freedUtil s).vars x = none := by
  have hcases : x = .vaddrUnaligned ∨ x = .pageArray ∨ x = .pages := by simpa using hx
  unfold freedUtil
  split
  · rename_i harray
    cases hcases with
    | inl h => rw [h]; simp [unmapped]
    | inr h =>
      cases h with
      | inl h => rw [h, unmapped_vars s (by simp), harray]
      | inr h => rw [h, unmapped_vars s (by simp), hpair.1 harray]
  · cases hcases with
    | inl h => rw [h]; simp [unmapped]
    | inr h =>
      cases h with
      | inl h => rw [h]; simp
      | inr h => rw [h]; simp

theorem safeFreeUtilData_run (h : Base k s)
    (hpair : s.vars .pageArray = none ↔ s.vars .pages = none) :
    safeFreeUtilData s = .ok () (freedUtil s) := by
  have hbase := base_unmapped h
  have harray' := unmapped_vars s (x := Var.pageArray) (by simp)
  have hpages' := unmapped_vars s (x := Var.pages) (by simp)
  unfold safeFreeUtilData
  refine (bind_run (Ledger.free_run h.owned _)).trans ?_
  refine (bind_run (Ledger.modifyRest_run _ _)).trans ?_
  refine (bind_run (get_run (unmapped s))).trans ?_
  cases harray : s.vars .pageArray with
  | none =>
    rw [harray] at harray'
    rw [freedUtil, if_pos harray]
    simp only [harray']
    rfl
  | some array =>
    rw [harray] at harray'
    have hpages : (unmapped s).vars .pages ≠ none := fun hnone => by
      rw [hpages'] at hnone
      rw [hpair.2 hnone] at harray
      cases harray
    cases hbase.owned.owned .pageArray array harray' with
    | intro b hb =>
      cases hbase.owned.block hpages with
      | intro g hg =>
        cases hg with
        | intro pb hpb =>
          have hsize := hbase.order g pb hpb.1 hpb.2
          have hne : s.vars .pageArray ≠ none := by simp [harray]
          rw [freedUtil, if_neg hne]
          simp only [harray', hb.1, hpb.1, Option.bind_some, hpb.2]
          rw [if_pos hsize]
          refine (bind_run (Ledger.free_run hbase.owned _)).trans ?_
          exact Ledger.free_run (hbase.freed .pages).owned _

theorem keeps_freedUtil (h : Base k s) :
    Ledger.Keeps [.vaddrUnaligned, .pageArray, .pages] s (freedUtil s) := by
  have hbase := base_unmapped h
  have hstart : Ledger.Keeps [.vaddrUnaligned, .pageArray, .pages] s (unmapped s) :=
    h.owned.keeps_freed (by simp)
  unfold freedUtil
  split
  · exact hstart
  · apply (hstart.trans (hbase.owned.keeps_freed (x := .pages) (by simp))).trans
    exact (hbase.freed .pages).owned.keeps_freed (by simp)

/-- Offsets in the mapping: the aligned address is at most a page away. -/
theorem alignOffset_le (page : Nat) : alignOffset (page * pageSize) ≤ 0x1000 := by
  unfold alignOffset pageSize
  omega

/-- The variables that `allocate_util_and_data` is about. -/
def mapping : List Var := [.vaddrUnaligned, .pageArray, .pages]

/-- What `allocate_util_and_data` leaves alone, whether it fails or not. -/
structure DataStage (k : Kernel) (s₀ : Manager) (n : Nat) (s : Manager) : Prop where
  base : Base k s
  keeps : Ledger.Keeps mapping s₀ s
  rest : ∃ p, s.rest = { s₀.rest with
    vaddrAligned := p
    numPages := pagesOf (sizeofUtil k + n * sizeofActorData + 0x1000) }

/-- The mapping has room for the utility area and the data of `n` actors. -/
def Mapped (k : Kernel) (n : Nat) (s : Manager) : Prop :=
  ∃ u b off, s.vars .vaddrUnaligned = some u ∧ s.blocks u = some b ∧
    off + sizeofUtil k + n * sizeofActorData ≤ b.size ∧ s.rest.vaddrAligned = some ⟨u, off⟩

section

variable {s₀ : Manager} {n : Nat}

theorem DataStage.freed (h : DataStage k s₀ n s) {x : Var} (hx : x ∈ mapping) :
    DataStage k s₀ n (s.freed x) :=
  ⟨h.base.freed x, h.keeps.trans (h.base.owned.keeps_freed hx), h.rest⟩

theorem DataStage.refused (h : DataStage k s₀ n s) : DataStage k s₀ n s.refused :=
  ⟨h.base.refused, h.keeps.trans (Ledger.keeps_refused mapping s), h.rest⟩

theorem getOrder_pagesOf (size : Nat) : getOrder (pagesOf size * pageSize) = getOrder size := by
  unfold getOrder
  have hpages : pagesOf (pagesOf size * pageSize) = pagesOf size := by
    unfold pagesOf pageSize
    omega
  rw [hpages]

theorem DataStage.given (h : DataStage k s₀ n s) {x : Var} (hx : x ∈ mapping) (addr : Nat)
    {size : Nat} (hsize : x = .pages →
      size = 2 ^ getOrder (sizeofUtil k + n * sizeofActorData + 0x1000) * pageSize) :
    DataStage k s₀ n (s.given x addr size) := by
  have hnum : s.rest.numPages = pagesOf (sizeofUtil k + n * sizeofActorData + 0x1000) := by
    cases h.rest with
    | intro p hp => rw [hp]
  have hmin : minSize k s.rest x ≤ size := by
    cases x with
    | vaddrUnaligned => exact Nat.zero_le _
    | pageArray => exact Nat.zero_le _
    | pages => exact Nat.zero_le _
    | _ => exact absurd hx (by simp [mapping])
  refine ⟨h.base.given addr hmin ?_, h.keeps.trans (h.base.owned.keeps_given hx addr size), h.rest⟩
  intro hpages
  rw [hsize hpages, hnum, getOrder_pagesOf]

/-- The state after `safe_free_util_data`, with the new number of pages. -/
theorem dataStage_freedUtil (h : Base k s)
    (hpair : s.vars .pageArray = none ↔ s.vars .pages = none) (n : Nat) :
    DataStage k s n { freedUtil s with rest := { (freedUtil s).rest with
      numPages := pagesOf (sizeofUtil k + n * sizeofActorData + 0x1000) } } := by
  have hnone : (freedUtil s).vars .pages = none := freedUtil_none hpair (by simp)
  refine ⟨?_, (keeps_freedUtil h).rest _, none, ?_⟩
  · apply (base_freedUtil h).rest
    · intro hne
      exact absurd hnone hne
    · exact (base_freedUtil h).notStale
    · intro x _
      cases x <;> exact Nat.le_refl _
  · rw [freedUtil_rest]

/-- The aligned address leaves enough of a new mapping. -/
theorem mapped_of_vmap {addr : Nat} (hgrant : vmap k s.next = some addr) :
    let t := s.given .vaddrUnaligned addr
      (pagesOf (sizeofUtil k + n * sizeofActorData + 0x1000) * pageSize)
    Mapped k n { t with rest := { t.rest with
      vaddrAligned := (t.vars .vaddrUnaligned).bind fun i => (t.blocks i).map fun b =>
        { block := i, off := alignOffset b.addr } } } := by
  intro t
  have hpage : ∃ page, page * pageSize = addr := by
    unfold vmap at hgrant
    cases hp : k.vmapPage s.next with
    | none => simp [hp] at hgrant
    | some page => exact ⟨page, by simpa [hp] using hgrant⟩
  have hvar : t.vars .vaddrUnaligned = some s.next := Ledger.given_vars_self s _ _ _
  have hblock := Ledger.given_block s .vaddrUnaligned addr
    (pagesOf (sizeofUtil k + n * sizeofActorData + 0x1000) * pageSize)
  refine ⟨s.next, _, alignOffset addr, hvar, hblock, ?_, ?_⟩
  · have hoff : alignOffset addr ≤ 0x1000 := by
      cases hpage with
      | intro page hpage =>
        rw [← hpage]
        exact alignOffset_le page
    show _ ≤ pagesOf (sizeofUtil k + n * sizeofActorData + 0x1000) * pageSize
    unfold pagesOf pageSize
    omega
  · show ((t.vars .vaddrUnaligned).bind fun i => (t.blocks i).map fun b =>
      Ptr.mk i (alignOffset b.addr)) = _
    rw [hvar, Option.bind_some, show t.blocks s.next = _ from hblock]
    rfl

theorem allocateUtilAndData_triple (h : Base k s)
    (hpair : s.vars .pageArray = none ↔ s.vars .pages = none) (n : Nat) :
    Triple (fun t => t = s) (allocateUtilAndData k n)
      (fun _ t => DataStage k s n t ∧ Mapped k n t ∧
        t.vars .pageArray ≠ none ∧ t.vars .pages ≠ none)
      (fun e t => (∃ c, e = .error c) ∧ DataStage k s n t ∧ t.vars .vaddrUnaligned = none ∧
        t.vars .pageArray = none ∧ t.vars .pages = none) := by
  have hnone : ∀ x ∈ mapping, (freedUtil s).vars x = none := fun x hx => freedUtil_none hpair hx
  unfold allocateUtilAndData
  apply Triple.step (safeFreeUtilData_run h hpair)
  apply Triple.step (Ledger.modifyRest_run _ _)
  have hstage := dataStage_freedUtil h hpair n
  -- the rest of the program starts with the three pointers null
  generalize hs₁ : Ledger.mk (freedUtil s).blocks (freedUtil s).vars _ _ = s₁ at hstage ⊢
  have hnone₁ : ∀ x ∈ mapping, s₁.vars x = none := by
    rw [← hs₁]
    exact hnone
  clear hs₁ hnone
  apply Ledger.triple_allocate
  · intro a₁ _
    have h₂ := hstage.given (x := Var.pages) (by simp [mapping]) a₁ fun _ => rfl
    generalize hs₂ : s₁.given .pages a₁ _ = s₂ at h₂ ⊢
    have hpages₂ : s₂.vars .pages ≠ none := by simp [← hs₂]
    have hun₂ : s₂.vars .vaddrUnaligned = none := by
      rw [← hs₂, Ledger.given_vars_other _ (by simp)]
      exact hnone₁ _ (by simp [mapping])
    have harr₂ : s₂.vars .pageArray = none := by
      rw [← hs₂, Ledger.given_vars_other _ (by simp)]
      exact hnone₁ _ (by simp [mapping])
    clear hs₂
    apply Ledger.triple_allocate
    · intro a₂ _
      have h₃ : DataStage k s n (s₂.given .pageArray a₂
          (pagesOf (sizeofUtil k + n * sizeofActorData + 0x1000) * 8)) :=
        h₂.given (by simp [mapping]) a₂ (by simp)
      generalize hs₃ : s₂.given .pageArray a₂ _ = s₃ at h₃ ⊢
      have hholds : s₃.Holds .pageArray fun b =>
          pagesOf (sizeofUtil k + n * sizeofActorData + 0x1000) * 8 ≤ b.size := by
        rw [← hs₃]
        exact Ledger.holds_given s₂ (Nat.le_refl _)
      have harr₃ : s₃.vars .pageArray ≠ none := by simp [← hs₃]
      have hpages₃ : s₃.vars .pages ≠ none := by
        rw [← hs₃, Ledger.given_vars_other _ (by simp)]
        exact hpages₂
      have hun₃ : s₃.vars .vaddrUnaligned = none := by
        rw [← hs₃, Ledger.given_vars_other _ (by simp)]
        exact hun₂
      clear hs₃
      apply Triple.step (h₃.base.owned.touch harr₃ hholds (by omega))
      apply Ledger.triple_allocate
      · intro a₃ hgrant
        have h₄ : DataStage k s n (s₃.given .vaddrUnaligned a₃
            (pagesOf (sizeofUtil k + n * sizeofActorData + 0x1000) * pageSize)) :=
          h₃.given (by simp [mapping]) a₃ (by simp)
        apply Triple.modify
        intro t ht
        rw [ht]
        have hmapped := mapped_of_vmap (s := s₃) (n := n) hgrant
        refine ⟨⟨?_, h₄.keeps.rest _, ?_⟩, hmapped, ?_, ?_⟩
        · exact h₄.base.rest (fun _ => rfl) h₄.base.notStale fun x _ => by
            cases x <;> exact Nat.le_refl _
        · cases h₄.rest with
          | intro p hp => exact ⟨_, by rw [hp]⟩
        · simpa using harr₃
        · simpa using hpages₃
      · apply Triple.step (Ledger.free_run h₃.refused.base.owned _)
        apply Triple.step (Ledger.free_run (h₃.refused.freed (by simp [mapping])).base.owned _)
        apply Triple.throw
        intro t ht
        rw [ht]
        refine ⟨⟨_, rfl⟩, (h₃.refused.freed (by simp [mapping])).freed (by simp [mapping]), ?_, ?_, ?_⟩
        · simpa using hun₃
        · simp
        · simp
    · apply Triple.step (Ledger.free_run h₂.refused.base.owned _)
      apply Triple.throw
      intro t ht
      rw [ht]
      refine ⟨⟨_, rfl⟩, h₂.refused.freed (by simp [mapping]), ?_, ?_, ?_⟩
      · simpa using hun₂
      · simpa using harr₂
      · simp
  · apply Triple.throw
    intro t ht
    rw [ht]
    exact ⟨⟨_, rfl⟩, hstage.refused, hnone₁ _ (by simp [mapping]), hnone₁ _ (by simp [mapping]),
      hnone₁ _ (by simp [mapping])⟩

/-! ### The code area -/

/-- What `allocate_code` leaves alone, whether it fails or not. -/
structure CodeStage (k : Kernel) (s₀ s : Manager) : Prop where
  base : Base k s
  keeps : Ledger.Keeps [.code] s₀ s
  rest : ∃ x e, s.rest = { s₀.rest with oldXSize := x, loadedTestCaseEntry := e }

/-- The code area has room for `n` actors. -/
def Loaded (n : Nat) (s : Manager) : Prop :=
  ∃ c b, s.vars .code = some c ∧ s.blocks c = some b ∧ n * sizeofActorCode ≤ b.size

theorem safeFreeCode_run (h : Base k s) : ∃ t, safeFreeCode s = .ok () t ∧ CodeStage k s t ∧
    t.vars .code = none := by
  unfold safeFreeCode
  cases hcode : s.vars .code with
  | none =>
    refine ⟨s, ?_, ⟨h, Ledger.Keeps.refl _ s, _, _, rfl⟩, hcode⟩
    refine (bind_run (get_run s)).trans ?_
    rw [hcode]
    rfl
  | some c =>
    have hne : s.vars .code ≠ none := by simp [hcode]
    refine ⟨{ s.freed .code with rest := { s.rest with loadedTestCaseEntry := none } }, ?_,
      ⟨?_, (h.owned.keeps_freed (by simp)).rest _, _, _, rfl⟩, by simp⟩
    · refine (bind_run (get_run s)).trans ?_
      rw [hcode]
      refine (bind_run (h.owned.touch hne (h.sized .code) (by simp [minSize]))).trans ?_
      refine (bind_run (Ledger.free_run h.owned _)).trans ?_
      exact Ledger.modifyRest_run _ _
    · exact (h.freed .code).rest (fun _ => rfl) h.notStale fun x _ => by
        cases x <;> exact Nat.le_refl _

/-- A checked allocation and what follows it. -/
theorem checkedAlloc_triple {Q : Unit → Manager → Prop} {E : Stop Int → Manager → Prop} {x : Var}
    {size : Nat} {f : Unit → ManagerM Unit}
    (hsome : ∀ addr, Triple (fun t => t = s.given x addr size) (f ()) Q E)
    (hnone : E (.error (-enomem)) s.refused) :
    Triple (fun t => t = s) (checkedAlloc k x size >>= f) Q E := by
  cases hg : k.grant s.next with
  | none =>
    have hrun : checkedAlloc k x size s = .error (.error (-enomem)) s.refused := by
      unfold checkedAlloc
      refine (bind_run (Ledger.allocate_none hg)).trans ?_
      rfl
    exact Triple.raise hrun hnone
  | some addr =>
    have hrun : checkedAlloc k x size s = .ok () (s.given x addr size) := by
      unfold checkedAlloc
      refine (bind_run (Ledger.allocate_some hg)).trans ?_
      rfl
    exact Triple.step hrun (hsome addr)

theorem resetCodeArea_run {n : Nat} (h : Loaded n s) (hn : 0 < n) :
    resetCodeArea n s = .ok () s := by
  cases h with
  | intro c h => cases h with
    | intro b h =>
      have hsize := h.2.2
      unfold resetCodeArea
      refine (bind_run (Ledger.touch_run h.1 fun _ => ⟨b, h.2.1, ?_⟩)).trans ?_
      · show 0 + sizeofActorCode * n ≤ b.size
        rw [Nat.mul_comm]
        omega
      · refine Ledger.touch_run h.1 fun _ => ⟨b, h.2.1, ?_⟩
        have hcode : sizeofActorCode ≤ n * sizeofActorCode := Nat.le_mul_of_pos_left _ hn
        show 0 + 1 ≤ b.size
        unfold sizeofActorCode pageSize at *
        omega

/-- The area of a vector of pages is no larger than its size rounded up. -/
theorem pagesOf_mul {n : Nat} : pagesOf (n * sizeofActorCode) * pageSize = n * sizeofActorCode := by
  unfold pagesOf sizeofActorCode pageSize
  omega

theorem allocateCode_triple (h : Base k s) {n : Nat} (hn : 0 < n) :
    Triple (fun t => t = s) (allocateCode k n)
      (fun _ t => CodeStage k s t ∧ Loaded n t)
      (fun e t => (∃ c, e = .error c) ∧ CodeStage k s t ∧ t.vars .code = none) := by
  unfold allocateCode
  cases safeFreeCode_run h with
  | intro s₁ hs₁ =>
    apply Triple.step hs₁.1
    have h₁ := hs₁.2.1
    have hnone := hs₁.2.2
    apply checkedAlloc_triple
    · intro addr
      -- until `old_x_size` is set, it may be larger than the new area
      have hbase : Base k { s₁ with rest := { s₁.rest with
          oldXSize := pagesOf (n * sizeofActorCode) } } := by
        refine h₁.base.rest (fun _ => rfl) h₁.base.notStale ?_
        intro x hx
        cases x with
        | code => exact absurd hnone hx
        | _ => exact Nat.le_refl _
      have hmin : minSize k { s₁.rest with oldXSize := pagesOf (n * sizeofActorCode) } .code ≤
          n * sizeofActorCode := Nat.le_of_eq pagesOf_mul
      have hgiven := hbase.given (x := .code) addr hmin (by simp)
      have hloaded : Loaded n (s₁.given .code addr (n * sizeofActorCode)) :=
        ⟨_, _, Ledger.given_vars_self s₁ _ _ _, Ledger.given_block s₁ _ _ _, Nat.le_refl _⟩
      apply Triple.step (resetCodeArea_run hloaded hn)
      apply Triple.step (Ledger.modifyRest_run _ _)
      have hcode : (s₁.given .code addr (n * sizeofActorCode)).vars .code ≠ none := by simp
      have hsize := Nat.le_of_eq (Nat.zero_add (pagesOf (n * sizeofActorCode) * pageSize))
      apply Triple.result (hgiven.owned.touch hcode (hgiven.sized .code) hsize)
      refine ⟨⟨hgiven, ?_, ?_⟩, hloaded⟩
      · exact (h₁.keeps.trans (h₁.base.owned.keeps_given (by simp) addr _)).rest _
      · cases h₁.rest with
        | intro x h => cases h with
          | intro e h =>
            refine ⟨pagesOf (n * sizeofActorCode), e, ?_⟩
            show { s₁.rest with oldXSize := pagesOf (n * sizeofActorCode) } = _
            rw [h]
    · exact ⟨⟨_, rfl⟩, ⟨h₁.base.refused, h₁.keeps.trans (Ledger.keeps_refused _ _), h₁.rest⟩,
        hnone⟩

/-! ### The pointers of the sandbox -/

/-- The counters of the functions are the same. -/
structure SameCounts (s t : Manager) : Prop where
  n : t.rest.oldNActors = s.rest.oldNActors
  pteps : t.rest.ptepsOldNActors = s.rest.ptepsOldNActors
  guests : t.rest.guestOldNActors = s.rest.guestOldNActors

theorem SameCounts.trans {t u : Manager} (h : SameCounts s t) (h' : SameCounts t u) :
    SameCounts s u :=
  ⟨h'.n.trans h.n, h'.pteps.trans h.pteps, h'.guests.trans h.guests⟩

theorem DataStage.counts (h : DataStage k s₀ n s) : SameCounts s₀ s := by
  cases h.rest with
  | intro p hp => constructor <;> rw [hp]

theorem CodeStage.counts (h : CodeStage k s₀ s) : SameCounts s₀ s := by
  cases h.rest with
  | intro x h => cases h with
    | intro e h => constructor <;> rw [h]

/-- A variable outside the list is null in both states or in none. -/
theorem keeps_ne_none {l : List Var} {t : Manager} {x : Var} (h : Ledger.Keeps l s t) (hx : x ∉ l) :
    t.vars x ≠ none ↔ s.vars x ≠ none := by
  rw [(h x hx).1]

/-- The mapping survives what leaves its pointers alone. -/
theorem Mapped.keeps {l : List Var} {t : Manager} (hm : Mapped k n s) (h : Ledger.Keeps l s t)
    (hx : Var.vaddrUnaligned ∉ l) (haligned : t.rest.vaddrAligned = s.rest.vaddrAligned) :
    Mapped k n t := by
  cases hm with
  | intro u hm => cases hm with
    | intro b hm => cases hm with
      | intro off hm =>
        refine ⟨u, b, off, (h _ hx).1.trans hm.1, ((h _ hx).2 u hm.1).trans hm.2.1, hm.2.2.1, ?_⟩
        exact haligned.trans hm.2.2.2

theorem Loaded.keeps {l : List Var} {t : Manager} (hl : Loaded n s) (h : Ledger.Keeps l s t)
    (hx : Var.code ∉ l) : Loaded n t := by
  cases hl with
  | intro c hl => cases hl with
    | intro b hl =>
      exact ⟨c, b, (h _ hx).1.trans hl.1, ((h _ hx).2 c hl.1).trans hl.2.1, hl.2.2⟩

/-- The state after `init_sandbox_pointers`, if there is memory for `sandbox`. -/
def pointed (k : Kernel) (s : Manager) : Manager :=
  let code := (s.vars .code).map fun i => { block := i, off := 0 }
  { s with rest := { s.rest with
    sandbox := {
      data := s.rest.vaddrAligned.map fun p => { p with off := p.off + sizeofUtil k }
      code := code
      util := s.rest.vaddrAligned }
    loadedTestCaseEntry := code } }

theorem base_pointed (h : Base k s) : Base k (pointed k s) :=
  h.rest (fun _ => rfl) h.notStale fun x _ => by cases x <;> exact Nat.le_refl _

theorem ready_pointed (h : Base k s) (hm : Mapped k n s) (hl : Loaded n s)
    (hpages : s.vars .pages ≠ none) : Ready k (pointed k s) n := by
  refine ⟨?_, ?_, ?_⟩
  · cases hm with
    | intro u hm => cases hm with
      | intro b hm => cases hm with
        | intro off hm =>
          refine ⟨u, b, off, hm.1, hm.2.1, hm.2.2.1, hm.2.2.2, hm.2.2.2, ?_⟩
          show s.rest.vaddrAligned.map _ = _
          rw [hm.2.2.2]
          rfl
  · exact h.owned.block hpages
  · cases hl with
    | intro c hl => cases hl with
      | intro b hl =>
        refine ⟨c, b, hl.1, hl.2.1, hl.2.2, ?_⟩
        show (s.vars .code).map _ = _
        rw [hl.1]
        rfl

theorem initSandboxPointers_run (h : Base k s) (hs : s.vars .sandbox ≠ none) :
    initSandboxPointers k s = .ok () (pointed k s) := by
  unfold initSandboxPointers
  refine (bind_run (get_run s)).trans ?_
  rw [if_neg hs]
  refine (bind_run (h.owned.touch hs (h.sized .sandbox) (by simp [minSize]))).trans ?_
  rfl

/-! ### The first part of a call -/

theorem checkErr_any {P : Manager → Prop} {Q : Unit → Manager → Prop}
    {E : Stop Int → Manager → Prop} {x : ManagerM Unit}
    (hE : ∀ c s, E (.error c) s → E (.error (-eio)) s) (h : Triple P x Q E) :
    Triple P (checkErr x) Q E := by
  unfold checkErr
  apply Triple.tryCatch h
  intro e
  cases e with
  | error c => exact Triple.throw (hE c)
  | fault => exact Triple.throw fun s hs => hs

theorem checkErr_triple {P : Manager → Prop} {Q : Unit → Manager → Prop} {x : ManagerM Unit}
    (h : Triple P x Q (Fails k)) : Triple P (checkErr x) Q (Fails k) :=
  checkErr_any (fun _ _ hs => hs) h

/-- The areas are new, everything else is as it was in `s₀`. -/
structure Areas (k : Kernel) (s₀ : Manager) (n : Nat) (s : Manager) : Prop where
  base : Base k s
  keeps : Ledger.Keeps (.code :: mapping) s₀ s
  counts : SameCounts s₀ s
  mapped : Mapped k n s
  array : s.vars .pageArray ≠ none
  pages : s.vars .pages ≠ none

/-- Room for `n` actors, with the tables as they were in `s₀`. -/
structure Served (k : Kernel) (s₀ : Manager) (n : Nat) (s : Manager) : Prop where
  inv : Inv k s
  ready : Ready k s n
  keeps : Ledger.Keeps (.code :: mapping) s₀ s
  counts : SameCounts s₀ s

theorem DataStage.areas {t : Manager} (h : DataStage k s n t) (hm : Mapped k n t)
    (harray : t.vars .pageArray ≠ none) (hpages : t.vars .pages ≠ none) : Areas k s n t :=
  ⟨h.base, h.keeps.weaken (List.subset_cons_self _ _), h.counts, hm, harray, hpages⟩

/-- A new code area leaves the mapping alone. -/
theorem Areas.code {t : Manager} (h : Areas k s₀ n s) (ht : CodeStage k s t) : Areas k s₀ n t := by
  have hvars : ∀ x, x ≠ .code → (t.vars x ≠ none ↔ s.vars x ≠ none) := fun x hx =>
    keeps_ne_none ht.keeps (by simpa using hx)
  have haligned : t.rest.vaddrAligned = s.rest.vaddrAligned := by
    cases ht.rest with
    | intro x h => cases h with
      | intro e h => rw [h]
  exact ⟨ht.base, h.keeps.trans (ht.keeps.weaken (by simp)), h.counts.trans ht.counts,
    h.mapped.keeps ht.keeps (by simp) haligned, (hvars _ (by simp)).2 h.array,
    (hvars _ (by simp)).2 h.pages⟩

theorem areas_triple (h : Inv k s) : Triple (fun t => t = s) (checkErr (allocateUtilAndData k n))
    (fun _ => Areas k s n) (Fails k) := by
  apply checkErr_triple
  apply (allocateUtilAndData_triple h.base h.paired n).conseq (fun _ h => h)
  · intro _ t ht
    exact ht.1.areas ht.2.1 ht.2.2.1 ht.2.2.2
  · intro e t ht
    cases ht.1 with
    | intro c hc =>
      rw [hc]
      refine ⟨ht.2.1.base, ?_, ?_, ?_⟩
      · exact (keeps_ne_none ht.2.1.keeps (by simp [mapping])).2 h.sandbox
      · rw [ht.2.2.2.1, ht.2.2.2.2]
      · intro hne
        exact absurd ht.2.2.1 hne

/-- A call that stops between the areas leaves no code area. -/
theorem Areas.fails {t : Manager} (h : Areas k s₀ n s) (hs : s₀.vars .sandbox ≠ none)
    (ht : CodeStage k s t) (hnone : t.vars .code = none) : Inv k t := by
  have hvars : ∀ x, x ≠ .code → (t.vars x ≠ none ↔ s.vars x ≠ none) := fun x hx =>
    keeps_ne_none ht.keeps (by simpa using hx)
  refine ⟨ht.base, ?_, ?_, ?_⟩
  · rw [hvars _ (by simp), keeps_ne_none h.keeps (by simp [mapping])]
    exact hs
  · have harray := (hvars .pageArray (by simp)).2 h.array
    have hpages := (hvars .pages (by simp)).2 h.pages
    simp [harray, hpages]
  · intro _ hne
    exact absurd hnone hne

theorem code_triple (h : Areas k s₀ n s) (hs : s₀.vars .sandbox ≠ none) (hn : 0 < n) :
    Triple (fun t => t = s) (checkErr (allocateCode k n))
      (fun _ t => Areas k s₀ n t ∧ Loaded n t) (Fails k) := by
  apply checkErr_triple
  apply (allocateCode_triple h.base hn).conseq (fun _ h => h)
  · intro _ t ht
    exact ⟨h.code ht.1, ht.2⟩
  · intro e t ht
    cases ht.1 with
    | intro c hc =>
      rw [hc]
      exact h.fails hs ht.2.1 ht.2.2

theorem pointers_triple (h : Areas k s₀ n s) (hl : Loaded n s) (hs : s₀.vars .sandbox ≠ none)
    (hn : s₀.rest.oldNActors < n) :
    Triple (fun t => t = s) (checkErr (initSandboxPointers k)) (fun _ => Served k s₀ n)
      (Fails k) := by
  have hs₁ : s.vars .sandbox ≠ none := (keeps_ne_none h.keeps (by simp [mapping])).2 hs
  apply checkErr_triple
  apply Triple.result (initSandboxPointers_run h.base hs₁)
  have hready := ready_pointed h.base h.mapped hl h.pages
  refine ⟨⟨base_pointed h.base, hs₁, ?_, ?_⟩, hready, h.keeps, h.counts.n, h.counts.pteps,
    h.counts.guests⟩
  · show s.vars .pageArray = none ↔ s.vars .pages = none
    simp [h.array, h.pages]
  · intro _ _
    have hold : (pointed k s).rest.oldNActors < n := by
      rw [show (pointed k s).rest.oldNActors = s₀.rest.oldNActors from h.counts.n]
      exact hn
    exact hready.mono (Nat.le_of_lt hold)

end

end Rvzr.Km.SandboxManager
