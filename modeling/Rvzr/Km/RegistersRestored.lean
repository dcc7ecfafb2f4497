import Rvzr.Km.SpecialRegisters

/-!
# What an experiment leaves in the special registers

A register that was zero before the experiment is not put back. This is how the settings of the two
features stay: a machine on which their registers are zero keeps the bits of the first experiment
that sets them, and every later experiment puts these back.
-/

namespace Rvzr.Km.SpecialRegisters

open Rvzr.Lib

variable {cpu : Cpu}

/-! ### The fields have different registers -/

theorem ssbp_msrId_mem (cpu : Cpu) : (getSsbpPatchMsrCtrls cpu).msrId ∈
    [0, msrIa32SpecCtrl, msrAmd64VirtSpecCtrl, msrAmd64LsCfg] := by
  unfold getSsbpPatchMsrCtrls
  split_ifs <;> simp

theorem prefetcher_msrId_mem (cpu : Cpu) : (getPrefetcherMsrCtrls cpu).msrId ∈
    [msrMiscFeatureControl, 0xc0000108, msrAmd64DcCfg] := by
  unfold getPrefetcherMsrCtrls
  cases cpu.vendor
  · dsimp only
    split <;> simp
  · dsimp only
    split <;> simp

/-- The field of a register. -/
def slotOf : Reg → Slot
  | .cr0 => .cr0
  | .cr4 => .cr4
  | .gdtrBase => .gdtrBase
  | .gdtrLimit => .gdtrLimit
  | .msr id =>
    if id = msrEfer then .efer
    else if id = msrLstar then .lstar
    else if id = msrFsBase then .fsBase
    else if id = msrGsBase then .gsBase
    else if id = msrSyscfg then .syscfg
    else if id ∈ [msrMiscFeatureControl, 0xc0000108, msrAmd64DcCfg] then .prefetcherCtrl
    else .specCtrl

theorem slotOf_reg (cpu : Cpu) (slot : Slot) : slotOf (slot.reg cpu) = slot := by
  cases slot
  case specCtrl =>
    have hmem := ssbp_msrId_mem cpu
    simp only [List.mem_cons, List.not_mem_nil, or_false] at hmem
    rw [Slot.reg]
    rcases hmem with h | h | h | h <;> rw [h] <;> decide
  case prefetcherCtrl =>
    have hmem := prefetcher_msrId_mem cpu
    simp only [List.mem_cons, List.not_mem_nil, or_false] at hmem
    rw [Slot.reg]
    rcases hmem with h | h | h <;> rw [h] <;> decide
  all_goals rfl

theorem reg_injective (cpu : Cpu) : Function.Injective (Slot.reg cpu) :=
  Function.LeftInverse.injective (slotOf_reg cpu)

theorem reg_ne_hsavePa (cpu : Cpu) (slot : Slot) : slot.reg cpu ≠ .msr msrVmHsavePa := by
  cases slot
  case specCtrl =>
    have hmem := ssbp_msrId_mem cpu
    simp only [List.mem_cons, List.not_mem_nil, or_false] at hmem
    rw [Slot.reg]
    rcases hmem with h | h | h | h <;> rw [h] <;> decide
  case prefetcherCtrl =>
    have hmem := prefetcher_msrId_mem cpu
    simp only [List.mem_cons, List.not_mem_nil, or_false] at hmem
    rw [Slot.reg]
    rcases hmem with h | h | h <;> rw [h] <;> decide
  all_goals simp [Slot.reg, msrEfer, msrLstar, msrFsBase, msrGsBase, msrSyscfg, msrVmHsavePa]

/-! ### Saving -/

/-- The fields in `done` have been saved, and the machine has changed only in their registers. -/
structure Tracked (cpu : Cpu) (m₀ : Machine) (done : List Slot) (s : State) : Prop where
  saved : ∀ slot ∈ done, s.saved slot = m₀ (slot.reg cpu)
  unsaved : ∀ slot, slot ∉ done → s.saved slot = 0
  frame : ∀ r, (∀ slot ∈ done, slot.reg cpu ≠ r) → s.machine r = m₀ r

variable {m₀ : Machine} {done : List Slot} {s : State}

theorem Tracked.reg_eq (h : Tracked cpu m₀ done s) {slot : Slot} (hslot : slot ∉ done) :
    s.machine (slot.reg cpu) = m₀ (slot.reg cpu) :=
  h.frame _ fun _ ht heq => hslot (reg_injective cpu heq ▸ ht)

theorem Tracked.save (h : Tracked cpu m₀ done s) {slot : Slot} (hslot : slot ∉ done) :
    Tracked cpu m₀ (done ++ [slot]) (save cpu s slot) where
  saved t ht := by
    by_cases hts : t = slot
    · subst hts
      exact (Function.update_self ..).trans (h.reg_eq hslot)
    · have hmem := (List.mem_append.mp ht).resolve_right fun hmem => hts (List.mem_singleton.mp hmem)
      exact (Function.update_of_ne hts ..).trans (h.saved t hmem)
  unsaved t ht := by
    rw [List.mem_append, List.mem_singleton, not_or] at ht
    exact (Function.update_of_ne ht.2 ..).trans (h.unsaved t ht.1)
  frame r hr := h.frame r fun t ht => hr t (List.mem_append_left _ ht)

/-- The registers of the saved fields may change. -/
theorem Tracked.change (h : Tracked cpu m₀ done s) {m : Machine}
    (hm : ∀ r, (∀ slot ∈ done, slot.reg cpu ≠ r) → m r = s.machine r) :
    Tracked cpu m₀ done { s with machine := m } :=
  ⟨h.saved, h.unsaved, fun r hr => (hm r hr).trans (h.frame r hr)⟩

theorem Tracked.saveAll (h : Tracked cpu m₀ done s) {l : List Slot} (hl : l.Nodup)
    (hnew : ∀ slot ∈ l, slot ∉ done) :
    Tracked cpu m₀ (done ++ l) (l.foldl (SpecialRegisters.save cpu) s) := by
  induction l generalizing done s with
  | nil => rwa [List.append_nil]
  | cons slot l ih =>
    rw [List.nodup_cons] at hl
    have hstep := h.save (hnew slot List.mem_cons_self)
    have hrest := ih hstep hl.2 fun t ht => by
      rw [List.mem_append, List.mem_singleton, not_or]
      exact ⟨hnew t (List.mem_cons_of_mem _ ht), fun heq => hl.1 (heq ▸ ht)⟩
    rwa [List.append_assoc] at hrest

theorem storeOrigMsrState_tracked (cpu : Cpu) (hzero : ∀ slot, s.saved slot = 0) :
    Tracked cpu s.machine (origSlots cpu) (storeOrigMsrState cpu s) := by
  have hnone : Tracked cpu s.machine [] s := ⟨by simp, fun slot _ => hzero slot, fun _ _ => rfl⟩
  have hnodup : (origSlots cpu).Nodup := by
    unfold origSlots
    split <;> decide
  exact hnone.saveAll hnodup fun _ _ => List.not_mem_nil

theorem wrmsr_other (m : Machine) {id : Nat} {r : Reg} (hr : .msr id ≠ r) (value : UInt64) :
    wrmsr cpu m id value r = m r := by
  unfold wrmsr
  split
  · rfl
  · rw [Function.update_of_ne hr.symm]

theorem setFeature_tracked (h : Tracked cpu m₀ done s) {slot : Slot} (hslot : slot ∉ done)
    {ctrls : MsrCtrls} (hreg : slot.reg cpu = .msr ctrls.msrId) (enable : Bool) :
    Tracked cpu m₀ (done ++ [slot]) (setFeature cpu s slot ctrls enable).1 := by
  unfold setFeature
  split
  · exact h.save hslot
  · refine (h.save hslot).change fun r hr => ?_
    have hne := hr slot (List.mem_append_right _ (List.mem_singleton_self _))
    rw [hreg] at hne
    exact wrmsr_other _ hne _

theorem setMsrsForVmActors_other (opts : Options) (m : Machine) {r : Reg} (h0 : .cr0 ≠ r)
    (h4 : .cr4 ≠ r) (he : .msr msrEfer ≠ r) : (setMsrsForVmActors cpu opts m).1 r = m r := by
  unfold setMsrsForVmActors
  split
  · cases cpu.vendor
    · dsimp only [setMsrsForVmx]
      rw [Function.update_of_ne h4.symm, Function.update_of_ne h0.symm]
    · dsimp only [setMsrsForSvm]
      split_ifs
      · rfl
      · exact wrmsr_other _ he _
      · rfl
  · rfl

/-- The control registers, `lstar` and `efer` may change. -/
theorem setControlRegisters_other (opts : Options) (m : Machine) {r : Reg} (h0 : .cr0 ≠ r)
    (h4 : .cr4 ≠ r) (hl : .msr msrLstar ≠ r) (he : .msr msrEfer ≠ r) :
    (setControlRegisters cpu opts m).1 r = m r := by
  unfold setControlRegisters
  refine (setMsrsForVmActors_other opts _ h0 h4 he).trans ?_
  split
  · rw [setMsrsForUserActors, wrmsr_other _ hl, Function.update_of_ne h4.symm,
      Function.update_of_ne h4.symm, Function.update_of_ne h0.symm]
  · rw [Function.update_of_ne h4.symm, Function.update_of_ne h0.symm]

/-- The fields that `set_special_registers` saves. -/
def savedSlots (cpu : Cpu) : List Slot :=
  origSlots cpu ++ if cpu.vmbuild then [] else [.specCtrl, .prefetcherCtrl]

theorem setFeatures_tracked (h : Tracked cpu m₀ (origSlots cpu) s) (opts : Options) :
    ∃ done, Tracked cpu m₀ done (setFeatures cpu opts s).1 ∧ origSlots cpu ⊆ done ∧
      done ⊆ savedSlots cpu ∧ ((setFeatures cpu opts s).2 = 0 → savedSlots cpu ⊆ done) := by
  have hssbp : Slot.specCtrl ∉ origSlots cpu := by
    unfold origSlots
    split <;> decide
  have hprefetcher : Slot.prefetcherCtrl ∉ origSlots cpu ++ [.specCtrl] := by
    unfold origSlots
    split <;> decide
  unfold setFeatures savedSlots
  cases cpu.vmbuild
  · have h1 := setFeature_tracked h hssbp rfl opts.enableSsbpPatch
    have h2 := setFeature_tracked h1 hprefetcher rfl !opts.enablePrefetchers
    rw [if_neg Bool.false_ne_true, if_neg Bool.false_ne_true]
    dsimp only
    split
    · rename_i herr
      refine ⟨_, h1, List.subset_append_left .., ?_, fun h0 => absurd h0 herr⟩
      exact List.append_subset.mpr ⟨List.subset_append_left .., by simp⟩
    · refine ⟨_, h2, ?_, ?_, fun _ => ?_⟩
      · exact fun _ hslot => List.mem_append_left _ (List.mem_append_left _ hslot)
      · rw [List.append_assoc]
        exact fun _ => id
      · rw [List.append_assoc]
        exact fun _ => id
  · rw [if_pos rfl, if_pos rfl, List.append_nil]
    exact ⟨_, h, fun _ => id, fun _ => id, fun _ _ => id⟩

theorem setSpecialRegisters_tracked (cpu : Cpu) (hzero : ∀ slot, s.saved slot = 0) (opts : Options) :
    ∃ done, Tracked cpu s.machine done (setSpecialRegisters cpu opts s).1 ∧
      origSlots cpu ⊆ done ∧ done ⊆ savedSlots cpu ∧
      ((setSpecialRegisters cpu opts s).2 = 0 → savedSlots cpu ⊆ done) := by
  obtain ⟨done, htracked, horig, hsub, hall⟩ :=
    setFeatures_tracked (storeOrigMsrState_tracked cpu hzero) opts
  unfold setSpecialRegisters
  dsimp only
  split
  · exact ⟨done, htracked, horig, hsub, hall⟩
  · rename_i hok
    refine ⟨done, ?_, horig, hsub, fun _ => hall (not_not.mp hok)⟩
    have hmem : ∀ slot ∈ [Slot.cr0, .cr4, .lstar, .efer], slot ∈ done := fun slot hslot =>
      horig (List.mem_append_left _ (List.mem_of_mem_take (i := 4) hslot))
    refine htracked.change fun r hr => ?_
    exact setControlRegisters_other opts _ (hr .cr0 (hmem _ (by decide)))
      (hr .cr4 (hmem _ (by decide))) (hr .lstar (hmem _ (by decide)))
      (hr .efer (hmem _ (by decide)))

/-! ### Restoring -/

theorem savedSlots_subset (cpu : Cpu) : savedSlots cpu ⊆ restoredSlots cpu := by
  unfold savedSlots origSlots restoredSlots
  cases cpu.vmbuild <;> cases cpu.vendor <;> decide

/-- The field that guards a field is saved with it. -/
theorem guard_mem_iff (horig : origSlots cpu ⊆ done) (slot : Slot) :
    slot.guard ∈ done ↔ slot ∈ done := by
  cases slot
  case gdtrLimit =>
    exact iff_of_true (horig (List.mem_append_left _ (by decide)))
      (horig (List.mem_append_left _ (by decide)))
  all_goals exact Iff.rfl

/-- The test case changes only registers that are saved, and `VM_HSAVE_PA`. -/
def Experiment.Confined (cpu : Cpu) (e : Experiment) : Prop :=
  ∀ m r, r ≠ .msr msrVmHsavePa → (∀ slot ∈ savedSlots cpu, slot.reg cpu ≠ r) → e.body m r = m r

/-- A register that is not put back: its value before the experiment is zero, or the base of the GDT
for its limit; or it cannot be written. -/
def Unrestored (cpu : Cpu) (m : Machine) (slot : Slot) : Prop :=
  m (slot.guard.reg cpu) = 0 ∨ (slot.reg cpu).ignored cpu = true

/-- The state when the registers are restored, with the fields that have been saved. -/
structure AtCleanup (cpu : Cpu) (m₀ : Machine) (done : List Slot) (s : State) : Prop where
  saved : ∀ slot ∈ done, s.saved slot = m₀ (slot.reg cpu)
  unsaved : ∀ slot, slot ∉ done → s.saved slot = 0
  guards : ∀ slot : Slot, slot.guard ∈ done ↔ slot ∈ done
  subset : done ⊆ savedSlots cpu
  unchanged : ∀ slot, slot ∉ done → s.machine (slot.reg cpu) = m₀ (slot.reg cpu)
  frame : ∀ r, r ≠ .msr msrVmHsavePa → (∀ slot ∈ savedSlots cpu, slot.reg cpu ≠ r) →
    s.machine r = m₀ r

theorem atCleanup_saved (hzero : ∀ slot, s.saved slot = 0) {e : Experiment}
    (hbody : e.Confined cpu) : ∃ done, AtCleanup cpu s.machine done (atCleanup cpu s e) := by
  unfold atCleanup
  split
  · obtain ⟨done, htracked, horig, hsub, hall⟩ :=
      setSpecialRegisters_tracked cpu hzero e.opts
    have hframe : ∀ r, (∀ slot ∈ savedSlots cpu, slot.reg cpu ≠ r) →
        (setSpecialRegisters cpu e.opts s).1.machine r = s.machine r := fun r hr =>
      htracked.frame r fun slot hslot => hr slot (hsub hslot)
    refine ⟨done, htracked.saved, htracked.unsaved, guard_mem_iff horig, hsub, ?_, ?_⟩
    · intro slot hslot
      dsimp only
      split
      · rename_i hok
        have hother : ∀ t ∈ savedSlots cpu, t.reg cpu ≠ slot.reg cpu := fun t ht heq =>
          hslot (hall hok (reg_injective cpu heq ▸ ht))
        rw [hbody _ _ (reg_ne_hsavePa cpu slot) hother]
        exact htracked.reg_eq hslot
      · exact htracked.reg_eq hslot
    · intro r hhsave hr
      dsimp only
      split
      · rw [hbody _ r hhsave hr]
        exact hframe r hr
      · exact hframe r hr
  · exact ⟨[], by simp, fun slot _ => hzero slot, by simp, by simp, fun _ _ => rfl,
      fun _ _ _ => rfl⟩

theorem stopVmOperation_other (e : Experiment) (m : Machine) {r : Reg}
    (hr : r ≠ .msr msrVmHsavePa) : stopVmOperation cpu e m r = m r := by
  unfold stopVmOperation
  split
  · cases cpu.vendor
    · rfl
    · exact wrmsr_other m hr.symm _
  · rfl

theorem runExperiment_put_back (hzero : ∀ slot, s.saved slot = 0) {e : Experiment}
    (hbody : e.Confined cpu) {slot : Slot} (hslot : slot ∈ savedSlots cpu)
    (hback : ¬ Unrestored cpu s.machine slot) :
    (runExperiment cpu s e).machine (slot.reg cpu) = s.machine (slot.reg cpu) := by
  obtain ⟨done, h⟩ := atCleanup_saved hzero hbody
  obtain ⟨hguard, hwritable⟩ := not_or.mp hback
  unfold runExperiment recoverOrigState restoreSpecialRegisters
  dsimp only
  by_cases hdone : slot ∈ done
  · rw [putBack_slot (reg_injective cpu) (savedSlots_subset cpu hslot), h.saved slot hdone]
    rw [h.saved _ ((h.guards slot).mpr hdone), Bool.and_eq_true, bne_iff_ne, Bool.not_eq_true']
    exact ⟨hguard, Bool.eq_false_iff.mpr hwritable⟩
  · have hnot : ∀ t ∈ restoredSlots cpu, t.reg cpu = slot.reg cpu →
        ((atCleanup cpu s e).saved t.guard != 0 && !(t.reg cpu).ignored cpu) = false := by
      intro t _ heq
      rw [reg_injective cpu heq, h.unsaved _ fun hmem => hdone ((h.guards slot).mp hmem)]
      rfl
    rw [putBack_other hnot, stopVmOperation_other e _ (reg_ne_hsavePa cpu slot)]
    exact h.unchanged slot hdone

theorem runExperiment_unrestored (hzero : ∀ slot, s.saved slot = 0) {e : Experiment}
    (hbody : e.Confined cpu) {r : Reg} (hhsave : r ≠ .msr msrVmHsavePa)
    (hr : ∀ slot ∈ savedSlots cpu, slot.reg cpu = r → Unrestored cpu s.machine slot) :
    (runExperiment cpu s e).machine r = (atCleanup cpu s e).machine r := by
  obtain ⟨done, h⟩ := atCleanup_saved hzero hbody
  refine Eq.trans (putBack_other fun slot _ heq => ?_) (stopVmOperation_other e _ hhsave)
  rw [Bool.and_eq_false_iff, bne_eq_false_iff_eq, Bool.not_eq_false']
  by_cases hdone : slot.guard ∈ done
  · rw [h.saved _ hdone]
    exact hr slot (h.subset ((h.guards slot).mp hdone)) heq
  · exact .inl (h.unsaved _ hdone)

/-- An experiment restores the registers (but for `VM_HSAVE_PA`) exactly if it does not change those
that are not put back. -/
theorem registers_restored_iff (hzero : ∀ slot, s.saved slot = 0) {e : Experiment}
    (hbody : e.Confined cpu) :
    (∀ r, r ≠ .msr msrVmHsavePa → (runExperiment cpu s e).machine r = s.machine r) ↔
      ∀ slot ∈ savedSlots cpu, Unrestored cpu s.machine slot →
        (atCleanup cpu s e).machine (slot.reg cpu) = s.machine (slot.reg cpu) := by
  have hunrestored : ∀ slot, Unrestored cpu s.machine slot →
      (runExperiment cpu s e).machine (slot.reg cpu) =
        (atCleanup cpu s e).machine (slot.reg cpu) := fun slot hslot =>
    runExperiment_unrestored hzero hbody (reg_ne_hsavePa cpu slot) fun t _ heq =>
      reg_injective cpu heq ▸ hslot
  constructor
  · intro heq slot _ hslot
    rw [← hunrestored slot hslot, heq _ (reg_ne_hsavePa cpu slot)]
  · intro hall r hhsave
    by_cases hr : ∃ slot ∈ savedSlots cpu, slot.reg cpu = r
    · obtain ⟨slot, hslot, rfl⟩ := hr
      by_cases hun : Unrestored cpu s.machine slot
      · rw [hunrestored slot hun]
        exact hall slot hslot hun
      · exact runExperiment_put_back hzero hbody hslot hun
    · obtain ⟨done, h⟩ := atCleanup_saved hzero hbody
      rw [runExperiment_unrestored hzero hbody hhsave fun slot hslot heq =>
        absurd ⟨slot, hslot, heq⟩ hr]
      exact h.frame r hhsave fun slot hslot heq => hr ⟨slot, hslot, heq⟩

/-- A machine on which the prefetchers are on. -/
def sampleCpu : Cpu where
  vendor := .intel
  family := 6
  model := 0x8e
  hasMsrSpecCtrl := true
  hasVirtSsbd := false
  hasLsCfgSsbd := false
  vmbuild := false
  faultHandler := 0xffffffffc0000000
  ignores _ := false

def sampleState : State where
  machine r := if r = .msr msrIa32SpecCtrl ∨ r = .msr msrMiscFeatureControl then 0 else 0x80050033
  saved _ := 0

/-- An experiment with the default settings. -/
def sampleExperiment : Experiment where
  tablesSet := true
  opts :=
    { enableSsbpPatch := true
      enablePrefetchers := false
      includesUserActors := false
      includesVmActors := false }
  body := id
  origHostSsaHpa := 0

/-- The prefetchers stay off. -/
theorem registers_restored_iff_sample : ¬ ∀ r, r ≠ .msr msrVmHsavePa →
    (runExperiment sampleCpu sampleState sampleExperiment).machine r = sampleState.machine r := by
  intro heq
  have hleft := (registers_restored_iff (fun _ => rfl) fun _ _ _ _ => rfl).mp heq .prefetcherCtrl
    (by decide) (.inl rfl)
  revert hleft
  decide +kernel

/-! ### Runs -/

/-- The registers of the features can be written, and there is one for the patch. -/
structure Cpu.Supported (cpu : Cpu) : Prop where
  known : (getSsbpPatchMsrCtrls cpu).err = 0
  writable : ∀ slot : Slot, (slot.reg cpu).ignored cpu = false

/-- In long mode these registers are not zero. -/
def Booted (m : Machine) : Prop :=
  m .cr0 ≠ 0 ∧ m .cr4 ≠ 0 ∧ m (.msr msrEfer) ≠ 0 ∧ m (.msr msrLstar) ≠ 0

/-- The test case changes only registers that are put back, and `VM_HSAVE_PA`. -/
def Tidy (cpu : Cpu) (s : State) (e : Experiment) : Prop :=
  ∀ m r, r ≠ .msr msrVmHsavePa →
    (∀ slot ∈ savedSlots cpu, slot.reg cpu = r → Unrestored cpu s.machine slot) → e.body m r = m r

/-- The experiment sets the bits of the patch; it switches the prefetchers off. -/
def Experiment.setsSsbp (cpu : Cpu) (e : Experiment) : Bool :=
  e.tablesSet && !cpu.vmbuild && e.opts.enableSsbpPatch

def Experiment.setsPrefetcher (cpu : Cpu) (e : Experiment) : Bool :=
  e.tablesSet && !cpu.vmbuild && !e.opts.enablePrefetchers

/-- The registers after some experiments. -/
def afterExperiments (cpu : Cpu) (m : Machine) (es : List Experiment) : Machine := fun r =>
  if r = Slot.specCtrl.reg cpu ∧ m r = 0 ∧ es.any (·.setsSsbp cpu) then
    (getSsbpPatchMsrCtrls cpu).msrMask
  else if r = Slot.prefetcherCtrl.reg cpu ∧ m r = 0 ∧ es.any (·.setsPrefetcher cpu) then
    (getPrefetcherMsrCtrls cpu).msrMask
  else m r

theorem setFeature_ok {slot : Slot} {ctrls : MsrCtrls} (herr : ctrls.err = 0)
    (hreg : slot.reg cpu = .msr ctrls.msrId) (hwrite : (slot.reg cpu).ignored cpu = false)
    (s : State) (enable : Bool) :
    (setFeature cpu s slot ctrls enable).2 = 0 ∧
      (setFeature cpu s slot ctrls enable).1.machine =
        Function.update s.machine (slot.reg cpu)
          (masked (s.machine (slot.reg cpu)) ctrls.msrMask enable) := by
  rw [hreg] at hwrite ⊢
  have hno : ¬ cpu.ignores ctrls.msrId = true := Bool.eq_false_iff.mp hwrite
  unfold setFeature applyMsrMask wrmsr
  simp only [herr, ne_eq, not_true_eq_false, if_false, if_neg hno, Function.update_self, save,
    and_self]

theorem storeOrigMsrState_machine (cpu : Cpu) (s : State) :
    (storeOrigMsrState cpu s).machine = s.machine := by
  unfold storeOrigMsrState
  induction origSlots cpu generalizing s with
  | nil => rfl
  | cons slot l ih => exact ih (save cpu s slot)

/-- The values of the two registers of the features. -/
theorem setFeatures_machine (h : cpu.Supported) (hbuild : cpu.vmbuild = false) (opts : Options)
    (s : State) : (setFeatures cpu opts s).1.machine =
      Function.update
        (Function.update s.machine (Slot.specCtrl.reg cpu)
          (masked (s.machine (Slot.specCtrl.reg cpu)) (getSsbpPatchMsrCtrls cpu).msrMask
            opts.enableSsbpPatch))
        (Slot.prefetcherCtrl.reg cpu)
        (masked (s.machine (Slot.prefetcherCtrl.reg cpu)) (getPrefetcherMsrCtrls cpu).msrMask
          !opts.enablePrefetchers) := by
  have hprefetcher : (getPrefetcherMsrCtrls cpu).err = 0 := by
    unfold getPrefetcherMsrCtrls
    cases cpu.vendor <;> dsimp only <;> split <;> rfl
  have hno : ¬ cpu.vmbuild = true := Bool.eq_false_iff.mp hbuild
  have hne : Slot.prefetcherCtrl.reg cpu ≠ Slot.specCtrl.reg cpu := fun heq =>
    absurd (reg_injective cpu heq) (by decide)
  obtain ⟨hok, hmachine⟩ := setFeature_ok h.known rfl (h.writable .specCtrl) s opts.enableSsbpPatch
  have hsecond := (setFeature_ok hprefetcher rfl (h.writable .prefetcherCtrl)
    (setFeature cpu s .specCtrl (getSsbpPatchMsrCtrls cpu) opts.enableSsbpPatch).1
    !opts.enablePrefetchers).2
  unfold setFeatures
  rw [if_neg hno]
  dsimp only
  rw [if_neg (not_not.mpr hok), hsecond, hmachine, Function.update_of_ne hne]

/-- The registers that are not always put back are those of the features. -/
theorem setSpecialRegisters_machine (opts : Options) (s : State) {r : Reg}
    (hr : ∀ slot ∈ [Slot.cr0, .cr4, .lstar, .efer], slot.reg cpu ≠ r) :
    (setSpecialRegisters cpu opts s).1.machine r =
      (setFeatures cpu opts (storeOrigMsrState cpu s)).1.machine r := by
  unfold setSpecialRegisters
  dsimp only
  split
  · rfl
  · exact setControlRegisters_other opts _ (hr .cr0 (by decide)) (hr .cr4 (by decide))
      (hr .lstar (by decide)) (hr .efer (by decide))

theorem masked_zero (mask : UInt64) (enable : Bool) :
    masked 0 mask enable = if enable then mask else 0 := by
  cases enable
  · exact UInt64.zero_and
  · exact UInt64.zero_or

/-- What the set-up leaves in a register that is not put back. -/
theorem setSpecialRegisters_unrestored (h : cpu.Supported) (hbooted : Booted s.machine)
    (opts : Options) {r : Reg}
    (hr : ∀ slot ∈ savedSlots cpu, slot.reg cpu = r → Unrestored cpu s.machine slot) :
    (setSpecialRegisters cpu opts s).1.machine r =
      afterExperiments cpu s.machine [⟨true, opts, id, 0⟩] r := by
  have hzero : ∀ slot ∈ savedSlots cpu, slot.reg cpu = r → s.machine (slot.guard.reg cpu) = 0 :=
    fun slot hslot heq => (hr slot hslot heq).resolve_right (by rw [h.writable]; decide)
  have hcontrol : ∀ slot ∈ [Slot.cr0, .cr4, .lstar, .efer], slot.reg cpu ≠ r := by
    intro slot hslot heq
    have hmem : slot ∈ savedSlots cpu := List.mem_append_left _ (List.mem_append_left _
      (List.mem_of_mem_take (i := 4) hslot))
    have h0 := hzero slot hmem heq
    obtain ⟨hcr0, hcr4, hefer, hlstar⟩ := hbooted
    simp only [List.mem_cons, List.not_mem_nil, or_false] at hslot
    rcases hslot with rfl | rfl | rfl | rfl
    · exact hcr0 h0
    · exact hcr4 h0
    · exact hlstar h0
    · exact hefer h0
  rw [setSpecialRegisters_machine opts s hcontrol]
  have hne : Slot.prefetcherCtrl.reg cpu ≠ Slot.specCtrl.reg cpu := fun heq =>
    absurd (reg_injective cpu heq) (by decide)
  cases hbuild : cpu.vmbuild
  · have hssbp : Slot.specCtrl ∈ savedSlots cpu := by simp [savedSlots, hbuild]
    have hprefetcher : Slot.prefetcherCtrl ∈ savedSlots cpu := by simp [savedSlots, hbuild]
    rw [setFeatures_machine h hbuild, storeOrigMsrState_machine]
    by_cases hr2 : r = Slot.prefetcherCtrl.reg cpu
    · have h0 : s.machine (Slot.prefetcherCtrl.reg cpu) = 0 := hzero _ hprefetcher hr2.symm
      rw [hr2, Function.update_self, h0, masked_zero]
      simp [afterExperiments, Experiment.setsPrefetcher, hne, h0, hbuild]
    · rw [Function.update_of_ne hr2]
      by_cases hr1 : r = Slot.specCtrl.reg cpu
      · have h0 : s.machine (Slot.specCtrl.reg cpu) = 0 := hzero _ hssbp hr1.symm
        rw [hr1, Function.update_self, h0, masked_zero]
        simp [afterExperiments, Experiment.setsSsbp, hne.symm, h0, hbuild]
      · rw [Function.update_of_ne hr1]
        simp [afterExperiments, hr1, hr2]
  · rw [setFeatures, if_pos hbuild, storeOrigMsrState_machine]
    simp [afterExperiments, Experiment.setsSsbp, Experiment.setsPrefetcher, hbuild]

theorem Tidy.confined {e : Experiment} (h : Tidy cpu s e) : e.Confined cpu :=
  fun m r hhsave hr => h m r hhsave fun slot hslot heq => absurd heq (hr slot hslot)

/-- What one experiment leaves. -/
theorem runExperiment_machine (h : cpu.Supported) (hbooted : Booted s.machine)
    (hzero : ∀ slot, s.saved slot = 0) {e : Experiment} (he : Tidy cpu s e) {r : Reg}
    (hhsave : r ≠ .msr msrVmHsavePa) :
    (runExperiment cpu s e).machine r = afterExperiments cpu s.machine [e] r := by
  by_cases hback : ∃ slot ∈ savedSlots cpu, slot.reg cpu = r ∧ ¬ Unrestored cpu s.machine slot
  · obtain ⟨slot, hslot, rfl, hslot'⟩ := hback
    have hguard := (not_or.mp hslot').1
    rw [runExperiment_put_back hzero he.confined hslot hslot']
    have hssbp : ¬ (slot.reg cpu = Slot.specCtrl.reg cpu ∧ s.machine (slot.reg cpu) = 0 ∧
        [e].any (·.setsSsbp cpu) = true) := by
      rintro ⟨heq, h0, -⟩
      rw [reg_injective cpu heq] at hguard h0
      exact hguard h0
    have hprefetcher : ¬ (slot.reg cpu = Slot.prefetcherCtrl.reg cpu ∧
        s.machine (slot.reg cpu) = 0 ∧ [e].any (·.setsPrefetcher cpu) = true) := by
      rintro ⟨heq, h0, -⟩
      rw [reg_injective cpu heq] at hguard h0
      exact hguard h0
    rw [afterExperiments, if_neg hssbp, if_neg hprefetcher]
  · have hr : ∀ slot ∈ savedSlots cpu, slot.reg cpu = r → Unrestored cpu s.machine slot :=
      fun slot hslot heq => not_not.mp fun hun => hback ⟨slot, hslot, heq, hun⟩
    rw [runExperiment_unrestored hzero he.confined hhsave hr, atCleanup]
    cases hset : e.tablesSet
    · rw [if_neg Bool.false_ne_true]
      simp [afterExperiments, Experiment.setsSsbp, Experiment.setsPrefetcher, hset]
    · have hleft := setSpecialRegisters_unrestored h hbooted e.opts hr
      rw [if_pos rfl]
      dsimp only
      have hbody : (if (setSpecialRegisters cpu e.opts s).2 = 0 then
          e.body (setSpecialRegisters cpu e.opts s).1.machine
          else (setSpecialRegisters cpu e.opts s).1.machine) r =
          (setSpecialRegisters cpu e.opts s).1.machine r := by
        split
        · exact he _ r hhsave hr
        · rfl
      rw [hbody, hleft]
      simp [afterExperiments, Experiment.setsSsbp, Experiment.setsPrefetcher, hset]

theorem mask_ne_zero (h : cpu.Supported) :
    (getSsbpPatchMsrCtrls cpu).msrMask ≠ 0 ∧ (getPrefetcherMsrCtrls cpu).msrMask ≠ 0 := by
  constructor
  · have hknown := h.known
    revert hknown
    unfold getSsbpPatchMsrCtrls
    split_ifs <;> simp <;> decide
  · unfold getPrefetcherMsrCtrls
    cases cpu.vendor <;> dsimp only <;> split <;> decide

/-- The bits of a feature are set once: then the register is not zero. -/
theorem afterExperiments_cons (h : cpu.Supported) (m : Machine) (e : Experiment)
    (es : List Experiment) :
    afterExperiments cpu (afterExperiments cpu m [e]) es = afterExperiments cpu m (e :: es) := by
  obtain ⟨hssbp, hprefetcher⟩ := mask_ne_zero h
  have hne : Slot.prefetcherCtrl.reg cpu ≠ Slot.specCtrl.reg cpu := fun heq =>
    absurd (reg_injective cpu heq) (by decide)
  funext r
  unfold afterExperiments
  by_cases hr1 : r = Slot.specCtrl.reg cpu
  · rw [hr1]
    by_cases h0 : m (Slot.specCtrl.reg cpu) = 0 <;> cases he : e.setsSsbp cpu <;>
      simp [h0, he, hne.symm, hssbp]
  · by_cases hr2 : r = Slot.prefetcherCtrl.reg cpu
    · rw [hr2]
      by_cases h0 : m (Slot.prefetcherCtrl.reg cpu) = 0 <;> cases he : e.setsPrefetcher cpu <;>
        simp [h0, he, hne, hprefetcher]
    · simp [hr1, hr2]

theorem afterExperiments_congr {m m' : Machine} {r : Reg} (h : m r = m' r)
    (es : List Experiment) : afterExperiments cpu m es r = afterExperiments cpu m' es r := by
  simp only [afterExperiments, h]

/-- The control registers are as before after an experiment. -/
theorem booted_runExperiment (h : cpu.Supported) (hbooted : Booted s.machine)
    (hzero : ∀ slot, s.saved slot = 0) {e : Experiment} (he : Tidy cpu s e) :
    Booted (runExperiment cpu s e).machine := by
  have hother : ∀ slot ∈ [Slot.cr0, .cr4, .efer, .lstar],
      (runExperiment cpu s e).machine (slot.reg cpu) = s.machine (slot.reg cpu) := by
    intro slot hslot
    rw [runExperiment_machine h hbooted hzero he (reg_ne_hsavePa cpu slot)]
    have h1 : slot.reg cpu ≠ Slot.specCtrl.reg cpu := fun heq => by
      rw [reg_injective cpu heq] at hslot
      exact absurd hslot (by decide)
    have h2 : slot.reg cpu ≠ Slot.prefetcherCtrl.reg cpu := fun heq => by
      rw [reg_injective cpu heq] at hslot
      exact absurd hslot (by decide)
    rw [afterExperiments, if_neg fun hc => h1 hc.1, if_neg fun hc => h2 hc.1]
  obtain ⟨hcr0, hcr4, hefer, hlstar⟩ := hbooted
  exact ⟨fun h0 => hcr0 ((hother .cr0 (by decide)).symm.trans h0),
    fun h0 => hcr4 ((hother .cr4 (by decide)).symm.trans h0),
    fun h0 => hefer ((hother .efer (by decide)).symm.trans h0),
    fun h0 => hlstar ((hother .lstar (by decide)).symm.trans h0)⟩

/-- After any number of experiments the registers (but for `VM_HSAVE_PA`) are as before, except that
the registers of the two features keep the bits that an experiment has set in them if they were
zero. -/
theorem experiments_leave (h : cpu.Supported) (hbooted : Booted s.machine)
    (hzero : ∀ slot, s.saved slot = 0) {es : List Experiment}
    (hes : AllSteps (runExperiment cpu) (Tidy cpu) s es) {r : Reg}
    (hhsave : r ≠ .msr msrVmHsavePa) :
    (run (runExperiment cpu) s es).machine r = afterExperiments cpu s.machine es r := by
  induction es generalizing s with
  | nil => simp [afterExperiments]
  | cons e es ih =>
    have hstep := runExperiment_machine h hbooted hzero hes.1 hhsave
    have hbooted' := booted_runExperiment h hbooted hzero hes.1
    rw [run_cons, ih hbooted' (fun _ => rfl) hes.2, afterExperiments_congr hstep,
      afterExperiments_cons h]

theorem experiments_leave_sample :
    (run (runExperiment sampleCpu) sampleState [sampleExperiment, sampleExperiment]).machine
      (.msr msrMiscFeatureControl) = 0b1111 := by
  have hsupported : sampleCpu.Supported := ⟨rfl, fun slot => by cases slot <;> rfl⟩
  have hbooted : Booted sampleState.machine := by
    unfold Booted
    decide +kernel
  have hes : AllSteps (runExperiment sampleCpu) (Tidy sampleCpu) sampleState
      [sampleExperiment, sampleExperiment] := ⟨fun _ _ _ _ => rfl, fun _ _ _ _ => rfl, trivial⟩
  rw [experiments_leave hsupported hbooted (fun _ => rfl) hes (by decide)]
  decide +kernel

end Rvzr.Km.SpecialRegisters
