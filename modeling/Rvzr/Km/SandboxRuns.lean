import Rvzr.Km.SandboxTables
import Rvzr.Lib.Runs

/-!
A sequence of calls of `allocate_sandbox`, after the module is loaded. The kernel may refuse any of
the allocations.
-/

namespace Rvzr.Km.SandboxManager

open Rvzr.Lib

variable {k : Kernel} {s₀ s : Manager} {n : Nat}

/-! ### A call -/

/-- The guests' part of a call. -/
theorem guests_triple {tc : TestCase} (hi : Inv k s) (hr : Ready k s tc.nActors)
    (hgrow : (∃ x ∈ guestTables, s.vars x = none) → s.rest.guestOldNActors < tc.nActors) :
    Triple (fun t => t = s) (do
      checkErr (allocateGuestPageTables k tc.nActors)
      checkErr (mapSandboxToGuestMemory k tc)) (fun _ => Beside k s) (Fails k) := by
  apply Triple.bind (allocateGuestPageTables_triple hi hgrow)
  intro _ t ht
  cases ht with
  | intro m hm =>
    exact (mapSandboxToGuestMemory_triple hi hr hm.1).conseq (fun _ h => h)
      (fun _ _ h => h.beside) (fun _ _ h => h) t hm.2

/-- The call has served `n` actors. -/
theorem done_triple (hi : Inv k s) (hr : Ready k s n) :
    Triple (fun t => t = s) (Ledger.modifyRest fun r => { r with oldNActors := n })
      (fun _ t => Inv k t ∧ Ready k t n) (Fails k) := by
  apply Triple.result (Ledger.modifyRest_run _ _)
  have hbase : Base k { s with rest := { s.rest with oldNActors := n } } :=
    hi.base.rest (fun _ => rfl) hi.base.notStale fun x _ => by cases x <;> exact Nat.le_refl _
  have hready : Ready k { s with rest := { s.rest with oldNActors := n } } n :=
    ⟨hr.area, hr.pages, hr.code⟩
  exact ⟨⟨hbase, hi.sandbox, hi.paired, fun _ _ => hready⟩, hready⟩

/-- A call when there is room for its actors. -/
theorem served_triple {tc : TestCase} (h : Served k s₀ tc.nActors s) (hgrows : Grows s₀ tc) :
    Triple (fun t => t = s) (do
      Ledger.touchAt (← get).rest.vaddrAligned (sizeofUtil k + tc.nActors * sizeofActorData)
      checkErr (cacheHostPteps k tc.nActors)
      if tc.includesVmActors then
        checkErr (allocateGuestPageTables k tc.nActors)
        checkErr (mapSandboxToGuestMemory k tc)
      Ledger.modifyRest fun r => { r with oldNActors := tc.nActors })
      (fun _ t => Inv k t ∧ Ready k t tc.nActors) (Fails k) := by
  have hvars : ∀ x, x ∉ Var.code :: mapping → s.vars x = s₀.vars x := fun x hx => (h.keeps x hx).1
  have hpteps : s.vars .dataPteps = none ∨ s.vars .codePteps = none →
      s.rest.ptepsOldNActors < tc.nActors := by
    rw [hvars .dataPteps (by decide), hvars .codePteps (by decide), h.counts.pteps]
    exact hgrows.pteps
  have htouch : Ledger.touchAt (ε := Int) s.rest.vaddrAligned
      (sizeofUtil k + tc.nActors * sizeofActorData) s = .ok () s := by
    cases h.ready.area with
    | intro u ha => cases ha with
      | intro b ha => cases ha with
        | intro off ha =>
          rw [ha.2.2.2.1]
          refine Ledger.touchAt_run fun _ => ⟨b, ha.2.1, ?_⟩
          have := ha.2.2.1
          show off + (sizeofUtil k + tc.nActors * sizeofActorData) ≤ b.size
          omega
  apply Triple.step (get_run s)
  apply Triple.step htouch
  apply Triple.bind (cacheHostPteps_triple h.inv h.ready hpteps)
  intro _
  apply Triple.each
  intro t ht
  have hinv := ht.beside.inv h.inv
  have hready := ht.beside.ready h.ready
  apply Triple.ite
  · intro hvm
    have hguests : (∃ x ∈ guestTables, t.vars x = none) → t.rest.guestOldNActors < tc.nActors := by
      intro hnone
      rw [ht.guests, h.counts.guests]
      apply hgrows.guests hvm
      cases hnone with
      | intro x hx =>
        have hmem : ∀ x ∈ guestTables, x ∉ Var.code :: mapping := by decide
        exact ⟨x, hx.1, by rw [← hvars x (hmem x hx.1), ← ht.tables x hx.1, hx.2]⟩
    rw [← bind_assoc]
    apply Triple.bind (guests_triple hinv hready hguests)
    intro _
    apply Triple.each
    intro u hu
    exact done_triple (hu.inv hinv) (hu.ready hready)
  · intro _
    exact done_triple hinv hready

/-- A call that is to allocate more than what was refused keeps the invariant. -/
theorem allocateSandbox_triple {tc : TestCase} (hi : Inv k s) (hgrows : Grows s tc) :
    Triple (fun t => t = s) (allocateSandbox k tc)
      (fun _ t => Inv k t ∧ Ready k t tc.nActors) (Fails k) := by
  unfold allocateSandbox
  apply Triple.step (get_run s)
  apply Triple.ite
  · intro hlt
    apply Triple.bind (areas_triple hi)
    intro _
    apply Triple.each
    intro t ht
    apply Triple.bind (code_triple ht hi.sandbox (by omega))
    intro _
    apply Triple.each
    intro u hu
    apply Triple.bind (pointers_triple hu.1 hu.2 hi.sandbox hlt)
    intro _
    apply Triple.each
    intro v hv
    exact served_triple hv hgrows
  · intro hle
    have hmem : ¬ (s.vars .vaddrUnaligned = none ∨ s.vars .code = none) :=
      fun h => hle (hgrows.memory h)
    have hready := hi.ready (fun h => hmem (.inl h)) fun h => hmem (.inr h)
    exact served_triple ⟨hi, hready.mono (Nat.le_of_not_lt hle), Ledger.Keeps.refl _ _, rfl, rfl, rfl⟩
      hgrows

/-! ### Loading the module -/

theorem base_unloaded : Base k unloaded := by
  refine ⟨⟨fun _ _ => rfl, ?_⟩, ?_, ?_, rfl⟩
  · intro x i hi
    cases hi
  · intro x i b hi
    cases hi
  · intro i b hi
    cases hi

/-- The first areas, with the counters at their initial values. -/
theorem initPointers_triple {E : Stop Int → Manager → Prop} (h : Areas k unloaded 1 s)
    (hl : Loaded 1 s) (hE : ∀ c t, E (.error c) t) :
    Triple (fun t => t = s) (initSandboxPointers k)
      (fun _ t => Inv k t ∧ t.rest.ptepsOldNActors = 1) E := by
  have hnone : s.vars .sandbox = none := (h.keeps .sandbox (by decide)).1
  unfold initSandboxPointers
  apply Triple.step (get_run s)
  rw [if_pos hnone]
  apply checkedAlloc_triple
  · intro addr
    have hkeeps : Ledger.Keeps [.sandbox] s (s.given .sandbox addr 24) :=
      h.base.owned.keeps_given (by simp) addr 24
    have hbase : Base k (s.given .sandbox addr 24) := h.base.given addr (Nat.le_refl _) (by simp)
    have hs : (s.given .sandbox addr 24).vars .sandbox ≠ none := by simp
    have harray := (keeps_ne_none hkeeps (x := .pageArray) (by decide)).2 h.array
    have hpages := (keeps_ne_none hkeeps (x := .pages) (by decide)).2 h.pages
    have hready := ready_pointed hbase (h.mapped.keeps hkeeps (by decide) rfl)
      (hl.keeps hkeeps (by decide)) hpages
    apply Triple.step (hbase.owned.touch hs (hbase.sized .sandbox) (Nat.le_refl _))
    apply Triple.modify
    intro t ht
    rw [ht]
    refine ⟨⟨base_pointed hbase, hs, ?_, ?_⟩, h.counts.pteps⟩
    · exact ⟨fun h => absurd h harray, fun h => absurd h hpages⟩
    · intro _ _
      have hone : (pointed k (s.given .sandbox addr 24)).rest.oldNActors = 1 := h.counts.n
      exact hready.mono (Nat.le_of_eq hone)
  · exact hE _ _

/-- A module that was loaded starts with the invariant. -/
theorem inv_init (h : initSandboxManager k unloaded = .ok () s) : Inv k s := by
  have htriple : Triple (fun t => t = unloaded) (initSandboxManager k) (fun _ => Inv k)
      (fun _ _ => True) := by
    unfold initSandboxManager
    apply Triple.bind (checkErr_any (fun _ _ _ => trivial) ((allocateUtilAndData_triple base_unloaded
      Iff.rfl 1).conseq (fun _ h => h) (fun _ _ h => h.1.areas h.2.1 h.2.2.1 h.2.2.2)
      fun _ _ _ => trivial))
    intro _
    apply Triple.each
    intro t ht
    apply Triple.bind (checkErr_any (fun _ _ _ => trivial) ((allocateCode_triple ht.base
      Nat.one_pos).conseq (fun _ h => h) (fun _ _ h => And.intro (ht.code h.1) h.2)
      fun _ _ _ => trivial))
    intro _
    apply Triple.each
    intro u hu
    apply Triple.bind (checkErr_any (fun _ _ _ => trivial)
      (initPointers_triple hu.1 hu.2 fun _ _ => trivial))
    intro _
    apply Triple.each
    intro v hv
    have hself := Beside.refl hv.1.base
    have hdmin : v.rest.ptepsOldNActors * 4 * 8 ≤ 4 * 8 := by omega
    have hcmin : v.rest.ptepsOldNActors * 3 * 8 ≤ 3 * 8 := by omega
    apply checkedAlloc_triple
    · intro a₁
      have h₁ := hself.given not_core_pteps.1 a₁ hdmin
      rw [← bind_pure (checkedAlloc k .codePteps (3 * 8))]
      apply checkedAlloc_triple
      · intro a₂
        exact Triple.pure fun w hw => hw ▸ (h₁.given not_core_pteps.2 a₂ hcmin).inv hv.1
      · trivial
    · trivial
  exact htriple.ok rfl h

/-! ### Runs -/

/-- A call, with what the kernel answers while it lasts; whether an allocation is refused is decided
by its number. -/
structure Call where
  present : Ptr → Bool
  collides : Nat → Bool
  tc : TestCase

def Kernel.during (k : Kernel) (c : Call) : Kernel :=
  { k with present := c.present, collides := c.collides }

/-- The outcome of a call. -/
def outcome (k : Kernel) (s : Manager) (c : Call) : EStateM.Result (Stop Int) Manager Unit :=
  allocateSandbox (k.during c) c.tc s

def stateOf : EStateM.Result (Stop Int) Manager Unit → Manager
  | .ok _ s => s
  | .error _ s => s

/-- The state after a call, whether it failed or not. -/
def call (k : Kernel) (s : Manager) (c : Call) : Manager := stateOf (outcome k s c)

theorem Ready.sameSize {k' : Kernel} (h : Ready k s n) (hk : k'.l1dSizeKb = k.l1dSizeKb) :
    Ready k' s n := by
  have hutil : sizeofUtil k' = sizeofUtil k := by
    unfold sizeofUtil
    rw [hk]
  refine ⟨?_, h.pages, h.code⟩
  rw [hutil]
  exact h.area

theorem Inv.sameSize (k' : Kernel) (h : Inv k s) (hk : k'.l1dSizeKb = k.l1dSizeKb) : Inv k' s := by
  have hmin : ∀ r x, minSize k' r x = minSize k r x := by
    intro r x
    cases x <;> simp [minSize, sizeofTranslations, nUtilPages, sizeofUtil, hk]
  refine ⟨⟨h.base.owned, ?_, h.base.order, h.base.notStale⟩, h.sandbox, h.paired, ?_⟩
  · intro x i b hi hb
    rw [hmin]
    exact h.base.sized x i b hi hb
  · exact fun hu hc => (h.ready hu hc).sameSize hk

/-- One call. -/
theorem call_step {c : Call} (hi : Inv k s) (hgrows : Grows s c.tc) :
    Inv k (call k s c) ∧ Sound k c.tc (outcome k s c) := by
  have htriple := allocateSandbox_triple (hi.sameSize (k.during c) rfl) hgrows s rfl
  unfold call
  unfold outcome
  cases hrun : allocateSandbox (k.during c) c.tc s with
  | ok a t =>
    rw [hrun] at htriple
    have hinv := htriple.1.sameSize k rfl
    exact ⟨hinv, htriple.2.sameSize rfl, hinv.base.notStale⟩
  | error e t =>
    rw [hrun] at htriple
    cases e with
    | error c =>
      have hinv := Inv.sameSize k htriple rfl
      exact ⟨hinv, hinv.base.notStale⟩
    | fault => exact absurd htriple id

/-- In every run in which a call after a refused allocation asks for more actors than were served
before, every call that returns 0 leaves room for its actors, and no call uses or frees a stale
pointer. -/
theorem sandbox_capacity (hinit : initSandboxManager k unloaded = .ok () s) (calls : List Call)
    (h : AllSteps (call k) (fun s c => Grows s c.tc) s calls) :
    AllSteps (call k) (fun s c => Sound k c.tc (outcome k s c)) s calls :=
  h.imp (fun _ _ hi hg => (call_step hi hg).1) (fun _ _ hi hg => (call_step hi hg).2) (inv_init hinit)

/-! ### Two runs -/

/-- A kernel that refuses the eleventh allocation, and finds the entry of any page. -/
def refusesCode : Kernel where
  l1dSizeKb := 32
  grant i := if i = 10 then none else some ((i + 1) * 0x1000000)
  vmapPage i := some ((i + 1) * 0x1000)
  present _ := true
  collides _ := false
  enableHpaGpaCollisions := false

/-- A call for `n` actors without virtual machines. -/
def plainCall (n : Nat) : Call where
  present _ := true
  collides _ := false
  tc := { nActors := n, includesVmActors := false, isGuest := fun _ => false }

def isOk : EStateM.Result (Stop Int) Manager Unit → Bool
  | .ok _ _ => true
  | .error _ _ => false

theorem eq_ok {r : EStateM.Result (Stop Int) Manager Unit} (h : isOk r = true) :
    r = .ok () (stateOf r) := by
  cases r with
  | ok u s => rfl
  | error e s => cases h

/-- The state after the module is loaded with this kernel. -/
def loaded : Manager := stateOf (initSandboxManager refusesCode unloaded)

theorem init_loaded : initSandboxManager refusesCode unloaded = .ok () loaded :=
  eq_ok (by decide +kernel)

/-- The code area for three actors is refused; a call for three actors follows. -/
theorem sandbox_capacity_retry :
    AllSteps (call refusesCode)
      (fun s c => Sound refusesCode c.tc (outcome refusesCode s c)) loaded
      [plainCall 3, plainCall 3] :=
  sandbox_capacity init_loaded _
    ⟨⟨by decide +kernel, by decide +kernel, fun h => absurd h (by decide)⟩,
      ⟨by decide +kernel, by decide +kernel, fun h => absurd h (by decide)⟩, trivial⟩

/-- When a call for one actor follows instead, it returns 0 without a code area. -/
theorem sandbox_capacity_lost :
    ¬ ∀ (k : Kernel) (s : Manager) (calls : List Call),
      initSandboxManager k unloaded = .ok () s →
        AllSteps (call k) (fun s c => Sound k c.tc (outcome k s c)) s calls := by
  intro h
  have hsteps := h refusesCode loaded [plainCall 3, plainCall 1] init_loaded
  have hsound : Sound refusesCode (plainCall 1).tc
      (outcome refusesCode (call refusesCode loaded (plainCall 3)) (plainCall 1)) := hsteps.2.1
  have hrun : outcome refusesCode (call refusesCode loaded (plainCall 3)) (plainCall 1) =
      .ok () (call refusesCode (call refusesCode loaded (plainCall 3)) (plainCall 1)) :=
    eq_ok (by decide +kernel)
  rw [hrun] at hsound
  have hnone : (call refusesCode (call refusesCode loaded (plainCall 3)) (plainCall 1)).vars .code =
      none := by decide +kernel
  cases hsound.1.code with
  | intro c hc =>
    cases hc with
    | intro b hb =>
      rw [hnone] at hb
      cases hb.1

end Rvzr.Km.SandboxManager
