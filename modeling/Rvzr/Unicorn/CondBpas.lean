import Rvzr.Unicorn.Sequential

/-!
`X86CondBpasSpeculator` against the two speculators that it combines. Its two methods call `super`
with the class whose own method should run, so each call skips just that method: stores are never
noted and branches never mispredicted. The combined speculator is the sequential one, and it covers
the other two only where these are sequential as well.
-/

namespace Rvzr.Unicorn

open Rvzr.Lib

namespace Setup

variable (m : Setup)

/-! ### What should be covered -/

/-- Every checkpoint that a speculator opens outside speculation is opened by the combined
speculator as well, at the same instruction and after the same sequential past. -/
def Covers (c : SpeculatorCls) (em : Emulator) (targets : SwitchKey → Nat) (lstar : Nat) : Prop :=
  ∀ k, (m.under c m.lim.maxNesting).Opens ((m.under c m.lim.maxNesting).run em targets lstar k) →
    ∃ j, (m.under .x86CondBpasSpeculator m.lim.maxNesting).Opens
        ((m.under .x86CondBpasSpeculator m.lim.maxNesting).run em targets lstar j) ∧
      ((m.under .x86CondBpasSpeculator m.lim.maxNesting).run em targets lstar j).1
        = ((m.under c m.lim.maxNesting).run em targets lstar k).1 ∧
      archLog ((m.under .x86CondBpasSpeculator m.lim.maxNesting).run em targets lstar j).2.log
        = archLog ((m.under c m.lim.maxNesting).run em targets lstar k).2.log

/-- The run ends with this contract trace. -/
def HasTrace (em : Emulator) (targets : SwitchKey → Nat) (lstar : Nat) (t : List CTraceEntry) :
    Prop :=
  ∃ k, (m.run em targets lstar k).1 = .returned ∧ (m.run em targets lstar k).2.trace = t

def EqualTraces (em em' : Emulator) (targets : SwitchKey → Nat) (lstar : Nat) : Prop :=
  ∀ t t', m.HasTrace em targets lstar t → m.HasTrace em' targets lstar t' → t = t'

/-- The combined speculator opens what the two others open, and what it does not tell apart they do
not tell apart with a nesting of 1. -/
structure Combines (em em' : Emulator) (targets : SwitchKey → Nat) (lstar : Nat) : Prop where
  branches : m.Covers .x86CondSpeculator em targets lstar
  stores : m.Covers .storeBpasSpeculator em targets lstar
  branches' : m.Covers .x86CondSpeculator em' targets lstar
  stores' : m.Covers .storeBpasSpeculator em' targets lstar
  traces : (m.under .x86CondBpasSpeculator m.lim.maxNesting).EqualTraces em em' targets lstar →
    (m.under .x86CondSpeculator 1).EqualTraces em em' targets lstar ∧
      (m.under .storeBpasSpeculator 1).EqualTraces em em' targets lstar

/-! ### Where the sequential run meets a mechanism -/

/-- An instruction is dispatched at which `P` holds. -/
def Dispatches (P : Nat → Nat → State → Prop) (y : Mode × State) : Prop :=
  ∃ pc size inst, y.1 = .emu pc ∧ m.AtInstruction pc size inst y.2 ∧
    inst.isMacroPlaceholder = false ∧ P pc size y.2

/-- The decoder takes the instruction for a conditional jump. -/
def branchAt (pc size : Nat) (s : State) : Prop :=
  size ≤ 15 ∧ (decode (s.mem.read pc size) (s.reg .eflags) (s.reg .rcx)).1 ≠ 0

/-- The instruction comes after a store. -/
def storeBefore (_pc _size : Nat) (s : State) : Prop := ∃ w, noted s.log = some (some w)

/-- The sequential run dispatches neither a conditional jump nor an instruction after a store. -/
def NoSource (em : Emulator) (targets : SwitchKey → Nat) (lstar : Nat) : Prop :=
  ∀ k, ¬m.Dispatches branchAt
      ((m.under .seqSpeculator m.lim.maxNesting).run em targets lstar k) ∧
    ¬m.Dispatches storeBefore
      ((m.under .seqSpeculator m.lim.maxNesting).run em targets lstar k)

variable {m} {c : SpeculatorCls} {n : Nat}

/-! ### Openings -/

theorem opens_cases {x : Mode × State} (h : m.Opens x) :
    ∃ pc size inst, x.1 = .emu pc ∧ m.AtInstruction pc size inst x.2 ∧
      inst.isMacroPlaceholder = false ∧ (m.OpensCond pc size x.2 ∨ m.OpensBpas x.2) := by
  obtain ⟨pc, size, inst, hpc, hat, hplace, -, hlt⟩ := h
  refine ⟨pc, size, inst, hpc, hat, hplace, ?_⟩
  rcases (m.hookAt_cases pc size inst x.2).2 with ⟨hv, -⟩ | ⟨ho, -⟩ | ⟨ho, -⟩
  · have hcp : (m.hookAt pc size inst x.2).st.checkpoints = x.2.checkpoints :=
      congrArg View.checkpoints hv
    rw [hcp] at hlt
    exact absurd hlt (Nat.lt_irrefl _)
  · exact .inl ho
  · exact .inr ho

/-- The combined speculator never opens a checkpoint. -/
theorem condBpas_not_opens (m : Setup) (n : Nat) (em : Emulator) (targets : SwitchKey → Nat)
    (lstar k : Nat) : ¬(m.under .x86CondBpasSpeculator n).Opens
      ((m.under .x86CondBpasSpeculator n).run em targets lstar k) := by
  have hmem : (m.under .x86CondBpasSpeculator n).lim.cls.memAccessOwner ≠ .storeBpasSpeculator :=
    fun h => absurd (memOwner_condBpas.symm.trans h) (by decide)
  have hprev : ((m.under .x86CondBpasSpeculator n).run em targets lstar k).2.previousStore
      = none := by
    induction k with
    | zero => rfl
    | succ k ih =>
        rw [run, Function.iterate_succ_apply']
        exact step_previousStore hmem ih
  intro h
  obtain ⟨pc, size, inst, -, -, -, hopens⟩ := opens_cases h
  cases hopens with
  | inl h => exact absurd (owner_condBpas.symm.trans h.1) (by decide)
  | inr h => exact h.2.2 hprev

theorem maxNestingReached_under {s t : State} (hn : 1 ≤ n) (hq : Quiet t)
    (h : s.checkpoints = t.checkpoints) : maxNestingReached (m.under c n).lim s = false := by
  have hlim : (m.under c n).lim.maxNesting = n := rfl
  simp only [maxNestingReached, h, hq.checkpoints, hlim, List.length_nil, decide_eq_false_iff_not]
  omega

/-- At a state that follows the sequential run, branch misprediction opens a checkpoint exactly at
a conditional jump. -/
theorem opens_cond_iff {x y : Mode × State} (h : Follows .x86CondSpeculator x y) (hq : Quiet y.2)
    (hn : 1 ≤ n) : (m.under .x86CondSpeculator n).Opens x ↔ m.Dispatches branchAt y := by
  have hnone : ∀ l, notedBy .x86CondSpeculator l = some none := fun _ => rfl
  have hxy : x = y := by
    cases h with
    | inr h => simp [hnone] at h
    | inl h =>
        obtain ⟨hmode, p, hs, hp⟩ := h
        rw [hnone, Option.some.injEq] at hp
        have hpnone : p = none := Option.map_eq_none_iff.mp hp.symm
        refine Prod.ext hmode ?_
        rw [hs, hpnone, State.withPending, ← hq.previousStore]
  subst hxy
  constructor
  · intro ho
    obtain ⟨pc, size, inst, hpc, hat, hplace, hopens⟩ := opens_cases ho
    cases hopens with
    | inl h => exact ⟨pc, size, inst, hpc, ⟨hat.1, hat.2, hat.3, hat.4⟩, hplace, h.2.2⟩
    | inr h => exact absurd (owner_cond.symm.trans h.1) (by decide)
  · intro hd
    obtain ⟨pc, size, inst, hpc, hat, hplace, hbranch⟩ := hd
    exact ⟨pc, size, inst, hpc, ⟨hat.1, hat.2, hat.3, hat.4⟩, hplace, hq.inSpeculation,
      hookAt_opensCond ⟨owner_cond, maxNestingReached_under hn hq rfl, hbranch⟩⟩

/-- The store bypass opens a checkpoint exactly after a store. -/
theorem opens_bpas_iff {x y : Mode × State} (h : Follows .storeBpasSpeculator x y) (hq : Quiet y.2)
    (hn : 1 ≤ n) : (m.under .storeBpasSpeculator n).Opens x ↔ m.Dispatches storeBefore y := by
  obtain ⟨mode, s⟩ := x
  obtain ⟨mode', t⟩ := y
  cases h with
  | inr h =>
      have hmode : mode = .crashed := h.1
      have hnoted : noted t.log = none := h.2
      subst hmode
      constructor
      · rintro ⟨pc, size, inst, hpc, -⟩
        exact absurd hpc (by simp)
      · rintro ⟨pc, size, inst, -, -, -, w, hw⟩
        exact absurd (hnoted.symm.trans hw) (by simp)
  | inl h =>
      obtain ⟨hmode, p, hs, hnoted⟩ := h
      have hmode : mode = mode' := hmode
      have hs : s = t.withPending p := hs
      have hlog : noted t.log = some (p.map PendingStore.key) := hnoted
      subst hmode hs
      constructor
      · intro ho
        obtain ⟨pc, size, inst, hpc, hat, hplace, hopens⟩ := opens_cases ho
        cases hopens with
        | inl h => exact absurd (owner_bpas.symm.trans h.1) (by decide)
        | inr h =>
            obtain ⟨q, hq⟩ := Option.ne_none_iff_exists'.mp h.2.2
            have hq : p = some q := hq
            exact ⟨pc, size, inst, hpc, ⟨hat.1, hat.2, hat.3, hat.4⟩, hplace, q.key,
              hlog.trans (by rw [hq]; rfl)⟩
      · intro hd
        obtain ⟨pc, size, inst, hpc, hat, hplace, w, hw⟩ := hd
        have hne : p ≠ none := by
          rintro rfl
          exact absurd (hlog.symm.trans hw) (by simp)
        exact ⟨pc, size, inst, hpc, ⟨hat.1, hat.2, hat.3, hat.4⟩, hplace, hq.inSpeculation,
          hookAt_opensBpas ⟨owner_bpas, maxNestingReached_under hn hq rfl, hne⟩⟩

/-! ### Whole runs -/

section Runs

variable {em : Emulator} {targets : SwitchKey → Nat} {lstar : Nat}

/-- A mechanism that opens exactly where `P` holds in the sequential run opens somewhere if and
only if the sequential run gets to such an instruction: up to the first opening it is followed. -/
theorem opens_run_iff {P : Nat → Nat → State → Prop} (hn : 1 ≤ n) (b : Nat)
    (hP : ∀ x y, Follows c x y → Quiet y.2 → ((m.under c n).Opens x ↔ m.Dispatches P y)) :
    (∀ k, ¬(m.under c n).Opens ((m.under c n).run em targets lstar k)) ↔
      ∀ k, ¬m.Dispatches P ((m.under .seqSpeculator b).run em targets lstar k) := by
  have hiff : ∀ k, (∀ j < k, ¬(m.under c n).Opens ((m.under c n).run em targets lstar j)) →
      ((m.under c n).Opens ((m.under c n).run em targets lstar k) ↔
        m.Dispatches P ((m.under .seqSpeculator b).run em targets lstar k)) := fun k hno =>
    hP _ _ (follows_run m b hn em targets lstar k hno) (quiet_run m b em targets lstar k)
  constructor
  · intro hno k hd
    exact hno k ((hiff k fun j _ => hno j).mpr hd)
  · intro hd k
    induction k using Nat.strong_induction_on with
    | _ k ih => exact fun ho => hd k ((hiff k ih).mp ho)

/-- A run that opens nothing has the trace of the sequential run. -/
theorem hasTrace_seq (hn : 1 ≤ n) (b : Nat)
    (hno : ∀ k, ¬(m.under c n).Opens ((m.under c n).run em targets lstar k)) {t : List CTraceEntry}
    (h : (m.under c n).HasTrace em targets lstar t) :
    (m.under .seqSpeculator b).HasTrace em targets lstar t := by
  obtain ⟨k, hmode, htrace⟩ := h
  cases follows_run m b hn em targets lstar k fun j _ => hno j with
  | inr hf => exact absurd (hmode.symm.trans hf.1) (by simp)
  | inl hf =>
      obtain ⟨hsame, p, hs, -⟩ := hf
      refine ⟨k, hsame.symm.trans hmode, ?_⟩
      rw [← htrace, hs]
      rfl

/-- The trace of a sequential run is also that of the combined speculator. -/
theorem hasTrace_condBpas (hn : 1 ≤ n) (b : Nat) {t : List CTraceEntry}
    (h : (m.under .seqSpeculator b).HasTrace em targets lstar t) :
    (m.under .x86CondBpasSpeculator n).HasTrace em targets lstar t := by
  obtain ⟨k, hmode, htrace⟩ := h
  cases follows_run m b hn em targets lstar k
      fun j _ => condBpas_not_opens m n em targets lstar j with
  | inr hf => exact absurd hf.2 (by simp [notedBy, memOwner_condBpas])
  | inl hf =>
      obtain ⟨hsame, p, hs, -⟩ := hf
      refine ⟨k, hsame.trans hmode, ?_⟩
      rw [← htrace, hs]
      rfl

/-- Since the combined speculator opens nothing, the others are covered only if they open nothing
either. -/
theorem covers_iff : m.Covers c em targets lstar ↔ ∀ k, ¬(m.under c m.lim.maxNesting).Opens
    ((m.under c m.lim.maxNesting).run em targets lstar k) := by
  constructor
  · intro h k ho
    obtain ⟨j, hj, -⟩ := h k ho
    exact condBpas_not_opens m _ em targets lstar j hj
  · intro h k ho
    exact absurd ho (h k)

theorem covers_both_iff (hn : 1 ≤ m.lim.maxNesting) :
    (m.Covers .x86CondSpeculator em targets lstar ∧
      m.Covers .storeBpasSpeculator em targets lstar) ↔ m.NoSource em targets lstar := by
  rw [covers_iff, covers_iff,
    opens_run_iff hn m.lim.maxNesting fun x y h hq => opens_cond_iff h hq hn,
    opens_run_iff hn m.lim.maxNesting fun x y h hq => opens_bpas_iff h hq hn]
  exact forall_and.symm

end Runs

/-- **Combined speculation.** With a nesting limit of at least 1, the combined speculator covers
branch misprediction and store bypass on two inputs exactly if the sequential run of neither input
dispatches a conditional jump or an instruction after a store. -/
theorem combines_iff (m : Setup) (hn : 1 ≤ m.lim.maxNesting) (em em' : Emulator)
    (targets : SwitchKey → Nat) (lstar : Nat) :
    m.Combines em em' targets lstar ↔
      m.NoSource em targets lstar ∧ m.NoSource em' targets lstar := by
  constructor
  · intro h
    exact ⟨(covers_both_iff hn).mp ⟨h.branches, h.stores⟩,
      (covers_both_iff hn).mp ⟨h.branches', h.stores'⟩⟩
  · rintro ⟨h, h'⟩
    have hcov := (covers_both_iff hn).mpr h
    have hcov' := (covers_both_iff hn).mpr h'
    refine ⟨hcov.1, hcov.2, hcov'.1, hcov'.2, fun heq => ⟨?_, ?_⟩⟩
    · -- a nesting of 1 opens nothing either
      have hno : ∀ em, m.NoSource em targets lstar → ∀ k, ¬(m.under .x86CondSpeculator 1).Opens
          ((m.under .x86CondSpeculator 1).run em targets lstar k) := fun em hs =>
        (opens_run_iff (Nat.le_refl 1) m.lim.maxNesting
          fun x y hf hq => opens_cond_iff hf hq (Nat.le_refl 1)).mpr fun k => (hs k).1
      intro t t' ht ht'
      have hseq := hasTrace_seq (Nat.le_refl 1) m.lim.maxNesting (hno em h) ht
      have hseq' := hasTrace_seq (Nat.le_refl 1) m.lim.maxNesting (hno em' h') ht'
      exact heq t t' (hasTrace_condBpas hn _ hseq) (hasTrace_condBpas hn _ hseq')
    · have hno : ∀ em, m.NoSource em targets lstar → ∀ k, ¬(m.under .storeBpasSpeculator 1).Opens
          ((m.under .storeBpasSpeculator 1).run em targets lstar k) := fun em hs =>
        (opens_run_iff (Nat.le_refl 1) m.lim.maxNesting
          fun x y hf hq => opens_bpas_iff hf hq (Nat.le_refl 1)).mpr fun k => (hs k).2
      intro t t' ht ht'
      have hseq := hasTrace_seq (Nat.le_refl 1) m.lim.maxNesting (hno em h) ht
      have hseq' := hasTrace_seq (Nat.le_refl 1) m.lim.maxNesting (hno em' h') ht'
      exact heq t t' (hasTrace_condBpas hn _ hseq) (hasTrace_condBpas hn _ hseq')

/-! ### A load behind a branch -/

/-- A macro, a conditional jump over the next instruction (if the memory holds its code), and a
load from the address in `RBX`. -/
def loadUc : Uc where
  fetch _ _ := .ok 2
  exec em pc :=
    if pc = 2 ∧ em.mem 2 = 0x74 then
      ⟨[], .done em.reg (if flagZF (em.reg .eflags) then 6 else 4)⟩
    else ⟨if pc = 4 then [.read (em.reg .rbx) 8] else [], .done em.reg (pc + 2)⟩

/-- Traced from the first instruction on, with a nesting of 1. -/
def guardedLoad : Setup where
  uc := loadUc
  lim := ⟨.x86CondBpasSpeculator, 1, 8⟩
  dataStart := 65536
  codeStart := 0
  nActors := 1
  exitAddr := 6
  faultHandlerAddr := 6
  instruction _ offset :=
    some ⟨if offset = 0 then "macro" else if offset = 2 then "je" else "mov", false,
      .measurementStart⟩
  functionTable := []
  macroTable := [⟨0, 0, 0⟩]
  privilegeLevel _ := some .kernel
  isAmd := false
  handledFaults _ := false
  softFault _ _ := none

/-- With `ZF` set the jump is taken; the two inputs differ in `RBX` only. -/
def guardedStart (code : UInt8) (rbx : Nat) : Emulator :=
  ⟨fun a => if a = 2 then code else if a = 3 then 2 else 0,
    fun r => if r = .eflags then 66 else if r = .rbx then rbx else 0⟩

theorem hasTrace_unique {em : Emulator} {targets : SwitchKey → Nat} {lstar : Nat}
    {t t' : List CTraceEntry} (h : m.HasTrace em targets lstar t)
    (h' : m.HasTrace em targets lstar t') : t = t' := by
  obtain ⟨k, hk, rfl⟩ := h
  obtain ⟨j, hj, rfl⟩ := h'
  cases Nat.le_total k j with
  | inl hkj => rw [run_returned hk j hkj]
  | inr hjk => rw [run_returned hj k hjk]

/-- The load is reached on the mispredicted path only. The combined speculator opens no checkpoint at
the jump, and its traces do not tell the two inputs apart; those of branch misprediction do. -/
theorem guardedLoad_not_combines :
    ¬guardedLoad.Covers .x86CondSpeculator (guardedStart 0x74 7) (fun _ => 0) 0 ∧
    ¬((guardedLoad.under .x86CondBpasSpeculator 1).EqualTraces (guardedStart 0x74 7)
          (guardedStart 0x74 9) (fun _ => 0) 0 →
        (guardedLoad.under .x86CondSpeculator 1).EqualTraces (guardedStart 0x74 7)
          (guardedStart 0x74 9) (fun _ => 0) 0) := by
  constructor
  · intro h
    have hat : (guardedLoad.under .x86CondSpeculator 1).AtInstruction 2 2
        ⟨"je", false, .measurementStart⟩ ((guardedLoad.under .x86CondSpeculator 1).run
          (guardedStart 0x74 7) (fun _ => 0) 0 2).2 :=
      ⟨by decide +kernel, rfl, by decide +kernel, by decide +kernel⟩
    exact covers_iff.mp h 2 ⟨2, 2, _, by decide +kernel, hat, rfl, by decide +kernel,
      by decide +kernel⟩
  · intro h
    have hfst : (guardedLoad.under .x86CondBpasSpeculator 1).HasTrace
        (guardedStart 0x74 7) (fun _ => 0) 0 [.pc 2] := ⟨4, by decide +kernel, by decide +kernel⟩
    have hsnd : (guardedLoad.under .x86CondBpasSpeculator 1).HasTrace
        (guardedStart 0x74 9) (fun _ => 0) 0 [.pc 2] := ⟨4, by decide +kernel, by decide +kernel⟩
    have heq := h fun t t' ht ht' => by
      rw [hasTrace_unique ht hfst, hasTrace_unique ht' hsnd]
    have hsplit := heq [.pc 2, .pc 4, .mem 7] [.pc 2, .pc 4, .mem 9]
      ⟨6, by decide +kernel, by decide +kernel⟩ ⟨6, by decide +kernel, by decide +kernel⟩
    exact absurd hsplit (by decide)

/-- Without the jump the three speculators agree. -/
theorem guardedLoad_combines :
    guardedLoad.Combines (guardedStart 0x90 7) (guardedStart 0x90 9) (fun _ => 0) 0 := by
  have hnone : ∀ rbx ∈ [7, 9], guardedLoad.NoSource (guardedStart 0x90 rbx) (fun _ => 0) 0 := by
    intro rbx hrbx k
    have hearly : ∀ rbx ∈ [7, 9], ∀ k < 6,
        (match (guardedLoad.under .seqSpeculator 1).run (guardedStart 0x90 rbx) (fun _ => 0) 0 k with
        | (.emu pc, s) => decide ((decode (s.mem.read pc 2) (s.reg .eflags) (s.reg .rcx)).1 = 0) &&
            decide (noted s.log = some none)
        | _ => true) = true := by decide +kernel
    have hend : ∀ rbx ∈ [7, 9], ((guardedLoad.under .seqSpeculator 1).run (guardedStart 0x90 rbx)
        (fun _ => 0) 0 5).1 = .returned := by decide +kernel
    -- after five steps the run is over
    have hcheck : ∃ j < 6, (guardedLoad.under .seqSpeculator 1).run (guardedStart 0x90 rbx)
        (fun _ => 0) 0 k = (guardedLoad.under .seqSpeculator 1).run (guardedStart 0x90 rbx)
          (fun _ => 0) 0 j := by
      by_cases hk : k < 6
      · exact ⟨k, hk, rfl⟩
      · exact ⟨5, by decide, run_returned (hend rbx hrbx) k (by omega)⟩
    obtain ⟨j, hj, hjk⟩ := hcheck
    have hlim : guardedLoad.lim.maxNesting = 1 := rfl
    have hnow := hearly rbx hrbx j hj
    rw [hlim, hjk]
    revert hnow
    generalize (guardedLoad.under .seqSpeculator 1).run (guardedStart 0x90 rbx) (fun _ => 0) 0 j = y
    obtain ⟨mode, s⟩ := y
    intro hnow
    constructor
    · rintro ⟨pc, size, inst, hpc, hat, -, -, hdec⟩
      have hmode : mode = .emu pc := hpc
      have hsize : size = 2 := (Except.ok.inj hat.fetch).symm
      subst hmode hsize
      simp only [Bool.and_eq_true, decide_eq_true_eq] at hnow
      exact hdec hnow.1
    · rintro ⟨pc, size, inst, hpc, -, -, w, hw⟩
      have hmode : mode = .emu pc := hpc
      subst hmode
      simp only [Bool.and_eq_true, decide_eq_true_eq] at hnow
      exact absurd (hnow.2.symm.trans hw) (by simp)
  exact (combines_iff guardedLoad (by decide) _ _ _ _).mpr
    ⟨hnone 7 (by decide), hnone 9 (by decide)⟩

end Setup

end Rvzr.Unicorn
