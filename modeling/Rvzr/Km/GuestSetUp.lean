import Rvzr.Km.ActorFeatures
import Rvzr.Km.GuestTranslation

/-!
# The memory and the contents of the guests' tables

`allocate_guest_page_tables`, `set_guest_page_tables` and `update_eptp` stand in two models: that of
the sandbox manager has the blocks that they allocate and access, that of the guest page tables what
they write. A call of `allocate_sandbox` that succeeds in the one is a set-up in the other, so that
its guests reach their own pages.
-/

namespace Rvzr.Km.SandboxManager

open Rvzr.Lib

variable {k : Kernel} {tc : TestCase}

/-! ### What a call that succeeds has checked -/

section Checked

variable {C : Prop}

/-- If the program returns, the condition holds. -/
abbrev Checks (C : Prop) (x : ManagerM Unit) : Prop :=
  Triple (fun _ => True) x (fun _ _ => C) fun _ _ => True

theorem triple_any {α : Type} (x : ManagerM α) :
    Triple (fun _ => True) x (fun _ _ => True) fun _ _ => True :=
  fun s _ => by cases x s <;> trivial

theorem checks_of {x : ManagerM Unit} (h : C) : Checks C x := by
  intro s _
  cases x s
  · exact h
  · trivial

/-- The condition is checked after a part, or in it. -/
theorem checks_bind {α : Type} {x : ManagerM α} {f : α → ManagerM Unit}
    (h : ∀ a, Checks C (f a)) : Checks C (x >>= f) := Triple.bind (triple_any x) h

theorem checks_then {x y : ManagerM Unit} (h : Checks C x) : Checks C (x >>= fun _ => y) := by
  refine Triple.bind h fun _ => ?_
  intro s hc
  cases y s
  · exact hc
  · trivial

theorem checks_throwIf {c : Prop} [Decidable c] {e : Stop Int} {x : ManagerM Unit}
    (hx : ¬ c → Checks C x) : Checks C (if c then throw e else x) :=
  Triple.ite (fun _ => Triple.throw fun _ _ => trivial) hx

theorem checks_checkErr {x : ManagerM Unit} (h : Checks C x) : Checks C (checkErr x) :=
  checkErr_any (fun _ _ _ => trivial) h

theorem checks_forM {l : List Nat} {f : Nat → ManagerM Unit} {P : Nat → Prop}
    (h : ∀ a ∈ l, Checks (P a) (f a)) : Checks (∀ a ∈ l, P a) (l.forM f) := by
  induction l with
  | nil => exact Triple.pure fun _ _ _ ha => absurd ha List.not_mem_nil
  | cons a l ih =>
    change Checks _ (f a >>= fun _ => l.forM f)
    have hhead : Checks (P a) (f a) := h a List.mem_cons_self
    have htail := ih fun b hb => h b (List.mem_cons_of_mem a hb)
    refine Triple.bind hhead fun _ s hs => ?_
    have hrest := htail s trivial
    revert hrest
    cases l.forM f s with
    | ok _ t => exact fun hl => List.forall_mem_cons.mpr ⟨hs, hl⟩
    | error _ t => exact fun _ => trivial

end Checked

theorem allocateGuestPageTables_checks (n : Nat) :
    Checks (n < 64) (allocateGuestPageTables k n) := by
  unfold allocateGuestPageTables
  exact checks_throwIf fun hn => checks_of (not_not.mp hn)

theorem setExtendedPageTable_checks (actor : Nat) :
    Checks (k.collides actor = false) (setExtendedPageTable k actor) := by
  unfold setExtendedPageTable
  iterate 14 refine checks_bind fun _ => ?_
  exact checks_throwIf fun h => checks_of (Bool.eq_false_iff.mpr h)

theorem setExtendedPageTables_checks (tc : TestCase) :
    Checks (∀ a ∈ (List.range tc.nActors).filter tc.isGuest, k.collides a = false)
      (setExtendedPageTables k tc) := by
  unfold setExtendedPageTables
  refine checks_bind fun _ => checks_throwIf fun _ => ?_
  refine checks_bind fun _ => checks_throwIf fun _ => ?_
  exact checks_then (checks_forM fun a _ => setExtendedPageTable_checks a)

theorem mapSandboxToGuestMemory_checks (tc : TestCase) :
    Checks (∀ a ∈ (List.range tc.nActors).filter tc.isGuest, k.collides a = false)
      (mapSandboxToGuestMemory k tc) := by
  unfold mapSandboxToGuestMemory
  refine checks_bind fun _ => checks_throwIf fun _ => ?_
  refine checks_bind fun _ => checks_throwIf fun _ => ?_
  refine checks_bind fun _ => checks_throwIf fun _ => checks_bind fun _ => ?_
  exact checks_then (checks_checkErr (setExtendedPageTables_checks tc))

/-- A call that succeeds for virtual machines has found few actors and no taken entry. -/
theorem allocateSandbox_checks (hvm : tc.includesVmActors = true) :
    Checks (tc.nActors < 64 ∧ ∀ a ∈ (List.range tc.nActors).filter tc.isGuest,
      k.collides a = false) (allocateSandbox k tc) := by
  have hfew : Checks (tc.nActors < 64) (checkErr (allocateGuestPageTables k tc.nActors)) :=
    checks_checkErr (allocateGuestPageTables_checks tc.nActors)
  have hfree := checks_checkErr (mapSandboxToGuestMemory_checks (k := k) tc)
  have htables : Checks (tc.nActors < 64 ∧ ∀ a ∈ (List.range tc.nActors).filter tc.isGuest,
      k.collides a = false) (do
        checkErr (allocateGuestPageTables k tc.nActors)
        checkErr (mapSandboxToGuestMemory k tc)
        Ledger.modifyRest fun r => { r with oldNActors := tc.nActors }) := by
    refine Triple.bind hfew fun _ => ?_
    intro s hn
    have hall := checks_then (y := Ledger.modifyRest fun r => { r with oldNActors := tc.nActors })
      hfree s trivial
    revert hall
    cases (checkErr (mapSandboxToGuestMemory k tc) >>= fun _ =>
      Ledger.modifyRest fun r => { r with oldNActors := tc.nActors }) s with
    | ok _ t => exact fun hall => ⟨hn, hall⟩
    | error _ t => exact fun _ => trivial
  unfold allocateSandbox
  refine checks_bind fun s => ?_
  apply Triple.ite
  · intro _
    iterate 6 refine checks_bind fun _ => ?_
    rw [if_pos hvm]
    exact htables
  · intro _
    iterate 3 refine checks_bind fun _ => ?_
    rw [if_pos hvm]
    exact htables

/-! ### The contents -/

/-- A machine whose allocator has granted what was asked for, and the kernel of the ledger. -/
structure Describes (cfg : GuestTables.Config) (k : Kernel) (tc : TestCase) : Prop where
  nActors : cfg.nActors = tc.nActors
  isGuest : cfg.isGuest = tc.isGuest
  nUtilPages : cfg.nUtilPages = nUtilPages k
  collisions : cfg.enableHpaGpaCollisions = k.enableHpaGpaCollisions
  granted : ∀ x, cfg.granted x = true
  collides : ∀ a, cfg.Guest a → (k.collides a = false ↔
    ((GuestTables.GuestPage.extended cfg.nUtilPages).map fun p =>
      GuestTables.ptIndex (GuestTables.gpaOf cfg p)).Nodup)

/-- If `allocate_sandbox` succeeds for a test case with guests, the guests' tables are set up. -/
theorem allocateSandbox_setUpGuests {cfg : GuestTables.Config} (hok : cfg.Ok)
    (hcfg : Describes cfg k tc) (hvm : tc.includesVmActors = true) {s t : Manager}
    (hrun : allocateSandbox k tc s = .ok () t) (st : GuestTables.State) :
    ∃ st', GuestTables.setUpGuests cfg st = .ok st' := by
  obtain ⟨hfew, hfree⟩ := (allocateSandbox_checks hvm).ok trivial hrun
  obtain ⟨s₁, hs₁⟩ : ∃ s', GuestTables.allocateGuestPageTables cfg st = .ok s' :=
    GuestTables.allocateGuestPageTables_ok_iff.mpr
      ⟨by rw [hcfg.nActors]; exact hfew, fun x _ => hcfg.granted x⟩
  have hmap := GuestTables.mapSandboxToGuestMemory_ok_iff hok
    (GuestTables.allocateGuestPageTables_ok hs₁).1
  obtain ⟨s₂, hs₂⟩ := hmap.mpr ⟨fun x _ => hcfg.granted x, fun a ha => (hcfg.collides a ha).mp <|
    hfree a (List.mem_filter.mpr ⟨List.mem_range.mpr (hcfg.nActors ▸ ha.1), hcfg.isGuest ▸ ha.2⟩)⟩
  rw [GuestTables.setUpGuests, GuestTables.checkErr_ok_iff.mpr hs₁]
  exact ⟨s₂, GuestTables.checkErr_ok_iff.mpr hs₂⟩

end Rvzr.Km.SandboxManager
