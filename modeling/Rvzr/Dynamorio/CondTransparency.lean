import Rvzr.Dynamorio.StoreUndo

/-!
Whether COND speculation is transparent: the instructions dispatched outside of speculation and the
final registers and memory are those of the program without instrumentation. It is, for the runs in
which every step is `StepOk`.

The proof is a ranked simulation. While a window is open, the program without instrumentation has
already executed the branch that opened it: its registers are in the oldest checkpoint, its memory
is what undoing the store log leads back to. The rank bounds how much speculation is left.
-/

namespace Rvzr.Dynamorio

open Rvzr.Lib Speculator

namespace Host

variable {E : Type} (h : Host E) (lim : Limits)

/-! ### Transparency -/

/-- COND speculation makes no difference to the program outside of speculation. -/
structure Transparent (a : App E) : Prop where
  /-- What is executed outside of speculation is what the program by itself executes. -/
  follows : ∀ n, ∃ m, outside (h.traced lim a n).world.calls = (h.native a m).executed
  /-- Nothing is left out. -/
  covers : ∀ m, ∃ n, (h.native a m).executed <+: outside (h.traced lim a n).world.calls
  /-- The function ends with the registers and the memory of the program by itself. -/
  ends : ∀ n, (h.traced lim a n).status = .finished → ∃ m, (h.native a m).finished = true ∧
    outside (h.traced lim a n).world.calls = (h.native a m).executed ∧
    (h.traced lim a n).app = (h.native a m).app
  /-- It ends if the program by itself does. -/
  exits : ∀ m, (h.native a m).finished = true → ∃ n, (h.traced lim a n).status = .finished

/-- Where the handler takes a conditional branch to go, and where it does not. -/
def resolvedPc (p : Process) (i : Instr) (mc : Mcontext) : Nat :=
  if p.jccTaken i mc.xflags then i.branchTarget else i.nextPc

def otherPc (p : Process) (i : Instr) (mc : Mcontext) : Nat :=
  if p.jccTaken i mc.xflags then i.nextPc else i.branchTarget

/-- The branch as the handler resolves it. -/
def resolved (t : Traced E) : App E := { t.app with
  mc := { SpeculatorCond.countDown (t.instr h) t.world.mc with
    pc := resolvedPc (t.process h) (t.instr h) t.world.mc } }

/-- An instruction is about to be dispatched. -/
def Dispatches (t : Traced E) : Prop :=
  t.status = .running .fetch ∧ t.world.mc.pc ≠ h.exitPc ∧ h.fetches t.app = true

/-- A conditional branch at which a window can be opened. -/
def Opens (t : Traced E) : Prop :=
  (t.instr h).isCbr = true ∧ t.world.spec.skipSpeculation lim = false

/-- The instruction at hand has logged only words that can be written. -/
def LoggedWritable (t : Traced E) : Prop :=
  ∀ e ∈ t.world.spec.storeLog.uncommitted, e.Writable (t.process h)

/-- The steps at which the backend keeps the program as it is. -/
structure StepOk (t : Traced E) : Prop where
  /-- The branch goes where the flags say, and counts down as the handler does. -/
  branch : h.Dispatches t → h.Opens lim t → t.world.spec.inSpeculation = false →
    h.exec t.app = some (h.resolved t)
  /-- No branch goes to address 0. -/
  target : h.Dispatches t → h.Opens lim t →
    resolvedPc (t.process h) (t.instr h) t.world.mc ≠ 0
  /-- Speculation gets to an address without instruction only after an instruction that logged
  nothing, and with no value to poison registers with. -/
  fetch : t.status = .running .fetch → t.world.spec.inSpeculation = true →
    t.world.mc.pc ≠ h.exitPc → h.fetches t.app = false →
    t.world.spec.storeLog.uncommitted = [] ∧ lim.poisonValue = none
  /-- When an access is rejected at an unreadable word, the words before it can be written. -/
  access : t.status = .running .access → t.world.spec.inSpeculation = true → ∀ pre post,
    writeWords ((t.process h).memSize (t.instr h))
      ((t.process h).memRefs (t.instr h) t.world.mc) = pre ++ post →
    (∀ v ∈ pre, Readable (t.process h) v) → StopsAt (t.process h) post →
    ∀ v ∈ pre, Process.covers (t.process h).writable v.1 v.2 = true
  /-- An instruction executed in speculation changes nothing but the machine context and the words
  that it has logged. -/
  execute : t.status = .running .execute → t.world.spec.inSpeculation = true →
    ∀ a, h.exec t.app = some a → a.env = t.env ∧ h.LoggedWritable t ∧
      ∀ x, (∀ e ∈ t.world.spec.storeLog.uncommitted, ¬ e.Covers x) → a.mem x = t.world.mem x
  /-- A load that is skipped with a poisoned register has logged only words that can be written. -/
  poison : t.status = .running .execute → t.world.spec.inSpeculation = true →
    h.exec t.app = none → lim.poisonValue ≠ none → poisonedReg (t.instr h) ≠ none →
    h.LoggedWritable t

/-! ### The simulation relation -/

/-- How much speculation a window of `k` instructions can hold. -/
def explore : Nat → Nat
  | 0 => 1
  | k + 1 => 2 * explore k + 1

theorem explore_pos (k : Nat) : 0 < explore k := by
  cases k with
  | zero => decide
  | succ k => simp [explore]

/-- The windows to come back to, except the outermost one. -/
def waiting (cps : List Checkpoint) : Nat :=
  (cps.dropLast.map fun cp => explore (lim.maxSpecWindow - cp.specWindow)).sum

def pending (s : Speculator) : Nat :=
  explore (lim.maxSpecWindow - s.specWindow) + waiting lim s.checkpoints

def insideRank : Phase → Nat
  | .fetch => 0 | .access => 2 | .execute => 1

def quietRank : Phase → Nat
  | .fetch => 3 | .access => 2 | .execute => 1

def rank (t : Traced E) : Nat :=
  match t.status with
  | .running phase =>
    if t.world.spec.inSpeculation then 4 * pending lim t.world.spec + insideRank phase
    else quietRank phase
  | _ => 0

/-- Outside of speculation. -/
structure Quiet (phase : Phase) (t : Traced E) (n : Native E) : Prop where
  spec : t.world.spec = { enabled := true }
  app : t.app = n.app
  executed : outside t.world.calls =
    n.executed ++ (if phase = .fetch then [] else [t.world.mc.pc])
  dispatched : phase ≠ .fetch → t.world.mc.pc ≠ h.exitPc ∧ h.fetches t.app = true

/-- In speculation. -/
structure Window (w : World) (n : Native E) : Prop where
  nested : Nested lim w.spec
  inSpeculation : w.spec.inSpeculation = true
  enabled : w.spec.enabled = true
  executed : outside w.calls = n.executed
  checkpoints : ∀ cp ∈ w.spec.checkpoints,
    cp.rollbackPc ≠ 0 ∧ cp.specWindow < lim.maxSpecWindow
  oldest : ∃ cps cp, w.spec.checkpoints = cps ++ [cp] ∧
    { cp.mc with pc := cp.rollbackPc } = n.app.mc ∧ cp.specWindow = 0
  undo : StoreLog.undo w.mem w.spec.storeLog.entries = n.app.mem

/-- Which words of the store log are known to be writable, and what is known of the others. -/
def LogOk (p : Process) (w : World) : Phase → Prop
  | .fetch => ∀ e ∈ w.spec.storeLog.entries, e.Writable p
  | .access => (∀ e ∈ w.spec.storeLog.entries, e.Writable p) ∧
      w.spec.storeLog.uncommitted = []
  | .execute => (∀ e ∈ w.spec.storeLog.committed, e.Writable p) ∧
      ∀ e ∈ w.spec.storeLog.uncommitted, e.Saved w.mem

structure Inside (phase : Phase) (t : Traced E) (n : Native E) : Prop where
  window : Window lim t.world n
  specWindow : t.world.spec.specWindow < lim.maxSpecWindow
  env : t.env = n.app.env
  log : LogOk (t.process h) t.world phase

inductive Related : Traced E → Native E → Prop where
  | quiet {t n} (phase : Phase) : t.status = .running phase → n.finished = false →
      Quiet h phase t n → Related t n
  | inside {t n} (phase : Phase) : t.status = .running phase → n.finished = false →
      Inside h lim phase t n → Related t n
  | finished {t n} : t.status = .finished → n.finished = true → t.app = n.app →
      outside t.world.calls = n.executed → Related t n

variable {h lim} {t : Traced E} {n : Native E} {w : World} {p : Process}

/-! ### Coming back -/

theorem eq_of_not_inSpeculation {s : Speculator} (hn : Nested lim s)
    (hin : s.inSpeculation = false) :
    s = { enabled := s.enabled, specWindow := s.specWindow } := by
  have hzero : s.nesting = 0 := by
    have := hn.inSpeculation_iff
    rw [hin] at this
    simpa using this
  have hcps : s.checkpoints = [] := by
    apply List.length_eq_zero_iff.1
    rw [← hn.nesting_eq, hzero]
  have hes : s.storeLog.entries = [] := by
    apply List.eq_nil_iff_forall_not_mem.2
    intro e he
    have := hn.levels_range e he
    omega
  have hlog : s.storeLog = {} := by
    have hb : s.storeLog.lastCommitted ≤ s.storeLog.entries.length := hn.bounded
    cases hl : s.storeLog with
    | mk entries lastCommitted =>
      rw [hl] at hes hb
      simp only at hes hb
      rw [hes] at hb
      have hlast : lastCommitted = 0 := by simpa using hb
      rw [hes, hlast]
  cases s with
  | mk enabled inSpeculation checkpoints storeLog nesting specWindow =>
    simp only at hin hcps hlog hzero
    rw [hin, hcps, hlog, hzero]

theorem waiting_cons (cp : Checkpoint) {cps : List Checkpoint} (hne : cps ≠ []) :
    waiting lim (cp :: cps) =
      explore (lim.maxSpecWindow - cp.specWindow) + waiting lim cps := by
  simp [waiting, List.dropLast_cons_of_ne_nil hne]

/-- A rollback ends the innermost window. -/
theorem Window.rollback (hw : Window lim w n) (hwr : ∀ e ∈ w.spec.storeLog.entries,
    e.Writable (t.process h)) (henv : t.env = n.app.env) (hrun : n.finished = false) :
    ∃ pc w', Speculator.rollback (t.process h) w = .ok (w', pc) ∧ pc ≠ 0 ∧
      Related h lim (t.redirect w' pc) n ∧
      rank lim (t.redirect w' pc) < 4 * (1 + waiting lim w.spec.checkpoints) := by
  cases rollback_writable hw.nested hw.inSpeculation hwr with
  | intro cp hr =>
    cases hr with
    | intro w' hr =>
      have hback := hr.2
      have hcp : cp ∈ w.spec.checkpoints := by
        rw [hback.checkpoints]
        exact List.mem_cons_self
      have hexec : outside w'.calls = n.executed := hback.outside.trans hw.executed
      refine ⟨cp.rollbackPc, w', hr.1, (hw.checkpoints cp hcp).1, ?_⟩
      cases hw.oldest with
      | intro cps hold =>
        cases hold with
        | intro last hold =>
          have hstack : cp :: w'.spec.checkpoints = cps ++ [last] := by
            rw [← hback.checkpoints, hold.1]
          cases hin : w'.spec.inSpeculation with
          | false =>
            -- the outermost window: its checkpoint is the oldest one
            have hspec := eq_of_not_inSpeculation hback.nested hin
            have hnil : w'.spec.checkpoints = [] := by rw [hspec]
            have hes : w'.spec.storeLog.entries = [] := by rw [hspec]
            have hlast : cp = last := by
              rw [hnil] at hstack
              cases cps with
              | nil => simpa using hstack
              | cons c cs => simp at hstack
            have hundo := hback.undo
            rw [hes, hw.undo, StoreLog.undo_nil] at hundo
            constructor
            · apply Related.quiet .fetch rfl hrun
              refine ⟨?_, ?_, ?_, fun hne => absurd rfl hne⟩
              · show w'.spec = _
                rw [hspec, hback.enabled, hw.enabled, hback.specWindow, hlast, hold.2.2]
              · have hmc : { w'.mc with pc := cp.rollbackPc } = n.app.mc := by
                  rw [hback.mc, ← hold.2.1, hlast]
                show App.mk t.env { w'.mc with pc := cp.rollbackPc } w'.mem = n.app
                rw [hmc, henv, hundo]
              · show outside w'.calls = n.executed ++ []
                rw [List.append_nil, hexec]
            · have hrank : rank lim (t.redirect w' cp.rollbackPc) = 3 := by
                simp [rank, Traced.redirect, hin, quietRank]
              omega
          | true =>
            have hne : w'.spec.checkpoints ≠ [] := by
              have hpos := hback.nested.inSpeculation_iff.1 hin
              intro hnil
              have := hback.nested.nesting_eq
              rw [hnil, List.length_nil] at this
              omega
            cases cps with
            | nil => simp [hne] at hstack
            | cons c cs =>
              have hrest : w'.spec.checkpoints = cs ++ [last] := (List.cons.inj hstack).2
              constructor
              · apply Related.inside .fetch rfl hrun
                refine ⟨⟨hback.nested, hin, hback.enabled.trans hw.enabled, hexec, ?_,
                  ⟨cs, last, hrest, hold.2⟩, hback.undo.trans hw.undo⟩, ?_, henv, ?_⟩
                · intro c' hc'
                  apply hw.checkpoints
                  rw [hback.checkpoints]
                  exact List.mem_cons_of_mem _ hc'
                · show w'.spec.specWindow < lim.maxSpecWindow
                  rw [hback.specWindow]
                  exact (hw.checkpoints cp hcp).2
                · intro e he
                  exact hwr e (hback.entries he)
              · have hrank : rank lim (t.redirect w' cp.rollbackPc) =
                    4 * waiting lim w.spec.checkpoints := by
                  rw [hback.checkpoints, waiting_cons cp hne, ← hback.specWindow]
                  simp [rank, Traced.redirect, hin, pending, insideRank]
                omega

/-! ### The handlers in speculation -/

/-- The world at the start of an instruction: the last one has committed. -/
def committedAt (w : World) (specWindow : Nat) : World := { w with
  spec := { w.spec with
    storeLog := w.spec.storeLog.updateCommitted
    specWindow := specWindow } }

theorem Window.committedAt (hw : Window lim w n) (k : Nat) : Window lim (committedAt w k) n :=
  { hw with nested := hw.nested.updateCommitted.specWindow k }

theorem handleInstructionABC_inside (i : Instr) (hin : w.spec.inSpeculation = true) :
    (∃ k, handleInstructionABC lim p i w = Speculator.rollback p (Host.committedAt w k)) ∨
    (incr32 w.spec.specWindow < lim.maxSpecWindow ∧ handleInstructionABC lim p i w =
      .ok (Host.committedAt w (incr32 w.spec.specWindow), 0)) := by
  unfold handleInstructionABC
  dsimp only
  generalize incr32 w.spec.specWindow = k
  rw [if_neg (by simp [hin])]
  by_cases hbar : isSpeculationBarrier i.opcode = true
  · rw [if_pos hbar]
    exact .inl ⟨w.spec.specWindow, rfl⟩
  · rw [if_neg hbar]
    by_cases hmax : lim.maxSpecWindow ≤ k
    · rw [if_pos hmax]
      exact .inl ⟨k, rfl⟩
    · rw [if_neg hmax]
      by_cases hjump : p.isIllegalJump w.mem w.mc i = true
      · rw [if_pos hjump]
        exact .inl ⟨k, rfl⟩
      · rw [if_neg hjump]
        exact .inr ⟨by omega, rfl⟩

theorem mispredict_eq (i : Instr) (w : World) :
    SpeculatorCond.mispredict lim p i w =
      if i.isCbr = true ∧ w.spec.skipSpeculation lim = false then
        (checkpoint { w with mc := SpeculatorCond.countDown i w.mc } (resolvedPc p i w.mc),
          otherPc p i w.mc)
      else (w, 0) := by
  unfold SpeculatorCond.mispredict
  cases hskip : w.spec.skipSpeculation lim with
  | true => simp
  | false =>
    cases hcbr : i.isCbr with
    | false => simp
    | true =>
      simp only [Bool.false_eq_true, Bool.not_true, if_false, and_self, if_true]
      unfold resolvedPc otherPc
      split
      · rfl
      · rfl

/-- A window opened in speculation. -/
theorem Window.checkpoint (hw : Window lim w n) (hskip : w.spec.skipSpeculation lim = false)
    (hsw : w.spec.specWindow < lim.maxSpecWindow) (mc : Mcontext) {pc : Nat} (hpc : pc ≠ 0) :
    Window lim (Speculator.checkpoint { w with mc := mc } pc) n := by
  refine ⟨Nested.checkpoint (w := { w with mc := mc }) hw.nested hskip pc, rfl, hw.enabled, ?_,
    ?_, ?_, hw.undo⟩
  · show outside (w.calls ++ [.checkpoint pc]) = n.executed
    rw [← hw.executed]
    simp [outside]
  · intro cp hcp
    cases List.mem_cons.1 hcp with
    | inl heq =>
      rw [heq]
      exact ⟨hpc, hsw⟩
    | inr hmem => exact hw.checkpoints cp hmem
  · cases hw.oldest with
    | intro cps hold =>
      cases hold with
      | intro cp hold => exact ⟨_ :: cps, cp, congrArg (List.cons _) hold.1, hold.2⟩

theorem rank_inside (phase : Phase) (hs : t.status = .running phase)
    (hin : t.world.spec.inSpeculation = true) :
    rank lim t = 4 * pending lim t.world.spec + insideRank phase := by
  simp [rank, hs, hin]

/-- A handler that leaves the process in speculation, whether it redirects it or not. -/
theorem related_resume (hw : Window lim w n) (hsw : w.spec.specWindow < lim.maxSpecWindow)
    (hwr : ∀ e ∈ w.spec.storeLog.entries, e.Writable (t.process h))
    (hcommitted : w.spec.storeLog.uncommitted = []) (henv : t.env = n.app.env)
    (hrun : n.finished = false) (pc : Nat) {next : Phase} (hnext : next ≠ .fetch) :
    Related h lim (t.resume next (.ok (w, pc))) n ∧
      rank lim (t.resume next (.ok (w, pc))) ≤ 4 * pending lim w.spec + 2 := by
  by_cases hpc : pc ≠ 0
  · have heq : t.resume next (.ok (w, pc)) = t.redirect w pc := if_pos hpc
    rw [heq]
    constructor
    · exact .inside .fetch rfl hrun ⟨{ hw with }, hsw, henv, hwr⟩
    · rw [rank_inside .fetch rfl hw.inSpeculation]
      exact Nat.le_add_right _ _
  · have heq : t.resume next (.ok (w, pc)) = { t with
        world := { w with mc := { w.mc with pc := t.world.mc.pc } }
        status := .running next } := if_neg hpc
    rw [heq]
    constructor
    · refine .inside next rfl hrun ⟨{ hw with }, hsw, henv, ?_⟩
      cases next with
      | fetch => exact absurd rfl hnext
      | access => exact ⟨hwr, hcommitted⟩
      | execute =>
        refine ⟨fun e he => hwr e (List.mem_of_mem_drop he), fun e he => ?_⟩
        have hnone : e ∈ ([] : List StoreLogEntry) := hcommitted ▸ he
        cases hnone
    · rw [rank_inside next rfl hw.inSpeculation]
      cases next with
      | fetch => exact absurd rfl hnext
      | access => exact Nat.le_refl _
      | execute => exact Nat.le_succ _

theorem resume_redirect (w : World) {pc : Nat} (hpc : pc ≠ 0) (next : Phase) :
    t.resume next (.ok (w, pc)) = t.redirect w pc := if_pos hpc

theorem resume_next (w : World) (next : Phase) : t.resume next (.ok (w, 0)) = { t with
    world := { w with mc := { w.mc with pc := t.world.mc.pc } }
    status := .running next } := rfl

theorem explore_succ {k m : Nat} (hk : k < m) : explore (m - k) = 2 * explore (m - (k + 1)) + 1 := by
  rw [show m - k = (m - (k + 1)) + 1 by omega]
  rfl

/-- The COND handler: the superclass rolls back, or the branch is looked at. -/
theorem handleInstruction_rollback (i : Instr) {w' w₁ : World} {pc : Nat}
    (habc : handleInstructionABC lim p i w = Speculator.rollback p w₁)
    (hr : Speculator.rollback p w₁ = .ok (w', pc)) (hpc : pc ≠ 0) :
    SpeculatorCond.handleInstruction lim p i w = .ok (w', pc) := by
  unfold SpeculatorCond.handleInstruction
  rw [habc, hr]
  exact congrArg Except.ok (if_pos hpc)

theorem handleInstruction_continue (i : Instr) {w₁ : World}
    (habc : handleInstructionABC lim p i w = .ok (w₁, 0)) :
    SpeculatorCond.handleInstruction lim p i w = .ok (SpeculatorCond.mispredict lim p i w₁) := by
  unfold SpeculatorCond.handleInstruction
  rw [habc]
  rfl

/-! ### The steps in speculation -/

theorem Window.executing (hw : Window lim w n) (pc : Nat) :
    Window lim { w with calls := w.calls ++ [.instruction pc w.spec.nesting] } n := by
  refine { hw with executed := ?_ }
  have hpos : w.spec.nesting ≠ 0 := by
    have := hw.nested.inSpeculation_iff.1 hw.inSpeculation
    omega
  rw [← hw.executed]
  simp [outside, hpos]

theorem inside_dispatch (hi : Inside h lim .fetch t n) (hs : t.status = .running .fetch)
    (hrun : n.finished = false)
    (htarget : h.Opens lim t → resolvedPc (t.process h) (t.instr h) t.world.mc ≠ 0)
    {next : Phase} (hnext : next ≠ .fetch) :
    Related h lim (t.resume next (instructionDispatch lim (t.process h) t.world)) n ∧
      rank lim (t.resume next (instructionDispatch lim (t.process h) t.world)) < rank lim t := by
  have hw := hi.window.executing t.world.mc.pc
  have hsw := hi.specWindow
  have hrank : rank lim t = 4 * pending lim t.world.spec :=
    rank_inside .fetch hs hi.window.inSpeculation
  have hstack : t.world.spec.checkpoints ≠ [] := by
    cases hi.window.oldest with
    | intro cps hold =>
      cases hold with
      | intro cp hold =>
        rw [hold.1]
        simp
  rw [hrank]
  unfold instructionDispatch
  cases handleInstructionABC_inside (p := t.process h) ((t.process h).decode t.world.mc.pc)
      hw.inSpeculation with
  | inl hroll =>
    cases hroll with
    | intro k habc =>
      cases (hw.committedAt k).rollback (t := t) hi.log hi.env hrun with
      | intro pc hr =>
        cases hr with
        | intro w' hr =>
          rw [handleInstruction_rollback _ habc hr.1 hr.2.1, resume_redirect _ hr.2.1]
          refine ⟨hr.2.2.1, Nat.lt_of_lt_of_le hr.2.2.2 ?_⟩
          have := explore_pos (lim.maxSpecWindow - t.world.spec.specWindow)
          show 4 * (1 + waiting lim t.world.spec.checkpoints) ≤ _
          unfold pending
          omega
  | inr hcont =>
    have hincr : incr32 t.world.spec.specWindow = t.world.spec.specWindow + 1 :=
      incr32_of_lt hsw lim.maxSpecWindow_lt
    have hlt := hcont.1
    rw [handleInstruction_continue _ hcont.2, mispredict_eq]
    simp only [hincr] at hlt ⊢
    have hexplore := explore_succ hsw
    split
    · rename_i hopens
      have hskip : t.world.spec.skipSpeculation lim = false := by
        have hnew := hopens.2
        simp only [skipSpeculation, Host.committedAt, Bool.or_eq_false_iff,
          decide_eq_false_iff_not] at hnew ⊢
        exact ⟨⟨hnew.1.1, of_decide_eq_false hnew.1.2⟩, by omega⟩
      have hopen := (hw.committedAt (t.world.spec.specWindow + 1)).checkpoint hopens.2 hlt
        (SpeculatorCond.countDown (t.instr h) t.world.mc) (htarget ⟨hopens.1, hskip⟩)
      have hres := related_resume (t := t) hopen hlt hi.log
        (StoreLog.uncommitted_updateCommitted _) hi.env hrun
        (otherPc (t.process h) (t.instr h) t.world.mc) hnext
      refine ⟨hres.1, Nat.lt_of_le_of_lt hres.2 ?_⟩
      show 4 * (explore (lim.maxSpecWindow - (t.world.spec.specWindow + 1)) +
        waiting lim (_ :: t.world.spec.checkpoints)) + 2 < _
      rw [waiting_cons _ hstack]
      unfold pending
      dsimp only [Host.committedAt]
      omega
    · have hres := related_resume (t := t) (hw.committedAt (t.world.spec.specWindow + 1)) hlt
        hi.log (StoreLog.uncommitted_updateCommitted _) hi.env hrun 0 hnext
      refine ⟨hres.1, Nat.lt_of_le_of_lt hres.2 ?_⟩
      show 4 * (explore (lim.maxSpecWindow - (t.world.spec.specWindow + 1)) +
        waiting lim t.world.spec.checkpoints) + 2 < _
      unfold pending
      have := explore_pos (lim.maxSpecWindow - (t.world.spec.specWindow + 1))
      omega

theorem Nested.logged (hn : Nested lim w.spec) (hin : w.spec.inSpeculation = true)
    (calls : List Call) (ws : List (Nat × Nat)) : Nested lim (logged w calls ws).spec := by
  induction ws generalizing w with
  | nil => exact hn
  | cons v ws ih =>
    have hone : Nested lim (logged w calls [v]).spec :=
      hn.pushBack hin (e := ⟨v.1, Mem.ofLe (w.mem.read v.1 v.2), v.2, w.spec.nesting⟩) rfl
    have hrest := ih hone hin
    rw [logged_append] at hrest
    exact hrest

/-- Logging words of the memory as it is changes nothing about where the log leads back to. -/
theorem Window.logged (hw : Window lim w n) {calls : List Call}
    (hcalls : outside calls = outside w.calls) (ws : List (Nat × Nat)) :
    Window lim (logged w calls ws) n := by
  refine ⟨Nested.logged hw.nested hw.inSpeculation calls ws, hw.inSpeculation, hw.enabled,
    hcalls.trans hw.executed, hw.checkpoints, hw.oldest, ?_⟩
  show StoreLog.undo w.mem (StoreLog.entriesOf w.mem w.spec.nesting ws ++
    w.spec.storeLog.entries) = n.app.mem
  rw [StoreLog.undo_append, StoreLog.undo_saved (fun e he => (StoreLog.mem_entriesOf he).2.2)
    (fun x _ => rfl), hw.undo]

theorem lastCommitted_of_uncommitted {l : StoreLog} (hb : l.Bounded) (hl : l.uncommitted = []) :
    l.lastCommitted = l.entries.length := by
  have hlen := congrArg List.length hl
  have hle : l.lastCommitted ≤ l.entries.length := hb
  simp only [StoreLog.uncommitted, StoreLog.size, List.length_take, List.length_nil] at hlen
  omega

theorem inside_access (hi : Inside h lim .access t n) (hs : t.status = .running .access)
    (hrun : n.finished = false) (hok : h.StepOk lim t) :
    Related h lim (h.step lim t) n ∧ rank lim (h.step lim t) < rank lim t := by
  have hw := hi.window
  have hrank : rank lim t = 4 * pending lim t.world.spec + 2 :=
    rank_inside .access hs hw.inSpeculation
  have hstep : h.step lim t =
      t.resume .execute (memAccessDispatch (t.process h) t.world) := by
    simp only [step, hs]
  rw [hrank, hstep]
  cases accessLoop_spec (p := t.process h) ((t.process h).memSize (t.instr h)) hw.inSpeculation
      ((t.process h).memRefs (t.instr h) t.world.mc) with
  | intro pre hl =>
    cases hl with
    | intro post hl =>
      cases hl with
      | intro calls hl =>
        have hlogged := hw.logged hl.2.2.1 pre
        have hlast := lastCommitted_of_uncommitted hw.nested.bounded hi.log.2
        cases hl.2.2.2 with
        | inl hall =>
          have heq : memAccessDispatch (t.process h) t.world = .ok (logged t.world calls pre, 0) :=
            hall.2
          rw [heq, resume_next]
          constructor
          · refine .inside .execute rfl hrun ⟨{ hlogged with }, hi.specWindow, hi.env, ?_, ?_⟩
            · intro e he
              apply hi.log.1
              simpa [logged, StoreLog.committed, StoreLog.size, hlast] using he
            · intro e he
              have hfresh : e ∈ StoreLog.entriesOf t.world.mem t.world.spec.nesting pre := by
                simpa [logged, StoreLog.uncommitted, StoreLog.size, hlast] using he
              exact (StoreLog.mem_entriesOf hfresh).2.2
          · simp [rank, hw.inSpeculation, insideRank, pending, logged]
        | inr hstop =>
          have hwr : ∀ e ∈ (logged t.world calls pre).spec.storeLog.entries,
              e.Writable (t.process h) := by
            intro e he
            cases List.mem_append.1 he with
            | inl hnew =>
              exact hok.access hs hw.inSpeculation pre post hl.1 hl.2.1 hstop.1 (e.addr, e.size)
                (StoreLog.mem_entriesOf hnew).1
            | inr hold => exact hi.log.1 e hold
          cases hlogged.rollback hwr hi.env hrun with
          | intro pc hr =>
            cases hr with
            | intro w' hr =>
              have heq : memAccessDispatch (t.process h) t.world = .ok (w', pc) :=
                hstop.2.trans hr.1
              rw [heq, resume_redirect _ hr.2.1]
              refine ⟨hr.2.2.1, Nat.lt_of_lt_of_le hr.2.2.2 ?_⟩
              have := explore_pos (lim.maxSpecWindow - t.world.spec.specWindow)
              show 4 * (1 + waiting lim t.world.spec.checkpoints) ≤ _
              unfold pending
              omega

/-- The instruction's own entries are the memory as it is; without them the log leads back to the
same memory, whatever has been written to their words. -/
theorem Window.undo_committed (hw : Window lim w n)
    (hsaved : ∀ e ∈ w.spec.storeLog.uncommitted, e.Saved w.mem) :
    StoreLog.undo w.mem w.spec.storeLog.committed = n.app.mem := by
  have hundo := hw.undo
  rw [← StoreLog.uncommitted_append_committed, StoreLog.undo_append,
    StoreLog.undo_saved hsaved fun x _ => rfl] at hundo
  exact hundo

theorem Window.executed_in (hw : Window lim w n)
    (hsaved : ∀ e ∈ w.spec.storeLog.uncommitted, e.Saved w.mem) {mem : Mem} (mc : Mcontext)
    (hsame : ∀ x, (∀ e ∈ w.spec.storeLog.uncommitted, ¬ e.Covers x) → mem x = w.mem x) :
    Window lim { w with mc := mc, mem := mem } n := by
  refine { hw with undo := ?_ }
  show StoreLog.undo mem w.spec.storeLog.entries = n.app.mem
  rw [← StoreLog.uncommitted_append_committed, StoreLog.undo_append,
    StoreLog.undo_saved hsaved hsame]
  exact hw.undo_committed hsaved

theorem writable_of_parts {l : StoreLog} (hcom : ∀ e ∈ l.committed, e.Writable p)
    (hunc : ∀ e ∈ l.uncommitted, e.Writable p) : ∀ e ∈ l.entries, e.Writable p := by
  intro e he
  rw [← StoreLog.uncommitted_append_committed] at he
  cases List.mem_append.1 he with
  | inl hnew => exact hunc e hnew
  | inr hold => exact hcom e hold

/-- An exception in speculation that rolls back. -/
theorem inside_exception (hw : Window lim t.world n)
    (hcom : ∀ e ∈ t.world.spec.storeLog.committed, e.Writable (t.process h))
    (hsaved : ∀ e ∈ t.world.spec.storeLog.uncommitted, e.Saved t.world.mem)
    (henv : t.env = n.app.env) (hrun : n.finished = false)
    (hpoison : lim.poisonValue = none ∨ poisonedReg (t.instr h) = none) :
    Related h lim (h.handleException lim t) n ∧
      rank lim (h.handleException lim t) < 4 * pending lim t.world.spec := by
  have hflush : Window lim { t.world with spec := { t.world.spec with
      storeLog := t.world.spec.storeLog.flushUncommitted } } n := by
    refine { hw with nested := hw.nested.flushUncommitted, undo := ?_ }
    show StoreLog.undo t.world.mem t.world.spec.storeLog.flushUncommitted.entries = n.app.mem
    rw [StoreLog.flushUncommitted_entries hw.nested.bounded]
    exact hw.undo_committed hsaved
  have hwr : ∀ e ∈ t.world.spec.storeLog.flushUncommitted.entries, e.Writable (t.process h) := by
    rw [StoreLog.flushUncommitted_entries hw.nested.bounded]
    exact hcom
  cases hflush.rollback hwr henv hrun with
  | intro pc hr =>
    cases hr with
    | intro w' hr =>
      have heq : Speculator.handleException lim (t.process h) t.world =
          .ok ({ w' with mc := { w'.mc with pc := pc } }, true) := by
        unfold Speculator.handleException
        rw [if_neg (by simp [hw.inSpeculation])]
        cases hpoison with
        | inl hnone =>
          rw [hnone]
          dsimp only
          rw [hr.1]
          rfl
        | inr hnone =>
          have hreg : poisonedReg ((t.process h).decode t.world.mc.pc) = none := hnone
          rw [hreg]
          cases lim.poisonValue with
          | none =>
            dsimp only
            rw [hr.1]
            rfl
          | some v =>
            dsimp only
            rw [hr.1]
            rfl
      have hredirect : h.handleException lim t = t.redirect w' pc := by
        unfold handleException
        rw [heq]
        rfl
      rw [hredirect]
      refine ⟨hr.2.2.1, Nat.lt_of_lt_of_le hr.2.2.2 ?_⟩
      have := explore_pos (lim.maxSpecWindow - t.world.spec.specWindow)
      show 4 * (1 + waiting lim t.world.spec.checkpoints) ≤ _
      unfold pending
      omega

theorem handleException_poison {v : Nat} {r : Reg} (hin : t.world.spec.inSpeculation = true)
    (hv : lim.poisonValue = some v) (hr : poisonedReg (t.instr h) = some r) :
    h.handleException lim t = { t with
      world := { t.world with
        mc := { setPoison r v t.world.mc with pc := (t.instr h).nextPc } }
      status := .running .fetch } := by
  have hreg : poisonedReg ((t.process h).decode t.world.mc.pc) = some r := hr
  have heq : Speculator.handleException lim (t.process h) t.world =
      .ok ({ t.world with
        mc := { setPoison r v t.world.mc with pc := (t.instr h).nextPc } }, true) := by
    unfold Speculator.handleException
    rw [if_neg (by simp [hin]), hv, hreg]
    rfl
  unfold Host.handleException
  rw [heq]

theorem inside_execute (hi : Inside h lim .execute t n) (hs : t.status = .running .execute)
    (hrun : n.finished = false) (hok : h.StepOk lim t) :
    Related h lim (h.step lim t) n ∧ rank lim (h.step lim t) < rank lim t := by
  have hw := hi.window
  have hin := hw.inSpeculation
  have hrank : rank lim t = 4 * pending lim t.world.spec + 1 := rank_inside .execute hs hin
  rw [hrank]
  cases hx : h.exec t.app with
  | some a =>
    have hstep : h.step lim t = { t.withApp a with status := .running .fetch } := by
      simp only [step, hs, hx]
    have hexec := hok.execute hs hin a hx
    have hproc : (t.withApp a).process h = t.process h := congrArg h.process hexec.1
    rw [hstep]
    constructor
    · refine .inside .fetch rfl hrun ⟨hw.executed_in hi.log.2 a.mc hexec.2.2, hi.specWindow,
        hexec.1.trans hi.env, ?_⟩
      show ∀ e ∈ t.world.spec.storeLog.entries, e.Writable ((t.withApp a).process h)
      rw [hproc]
      exact writable_of_parts hi.log.1 hexec.2.1
    · simp [rank, hin, insideRank, Traced.withApp]
  | none =>
    have hstep : h.step lim t = h.handleException lim t := by
      simp only [step, hs, hx]
    rw [hstep]
    cases hv : lim.poisonValue with
    | none =>
      have hres := inside_exception hw hi.log.1 hi.log.2 hi.env hrun (.inl hv)
      exact ⟨hres.1, Nat.lt_succ_of_lt hres.2⟩
    | some v =>
      cases hr : poisonedReg (t.instr h) with
      | none =>
        have hres := inside_exception hw hi.log.1 hi.log.2 hi.env hrun (.inr hr)
        exact ⟨hres.1, Nat.lt_succ_of_lt hres.2⟩
      | some r =>
        -- the load is skipped: its entries stay in the log
        have hnew := hok.poison hs hin hx (by simp [hv]) (by simp [hr])
        rw [handleException_poison hin hv hr]
        constructor
        · exact .inside .fetch rfl hrun ⟨{ hw with }, hi.specWindow, hi.env,
            writable_of_parts hi.log.1 hnew⟩
        · simp [rank, hin, insideRank]

theorem inside_fetch (hi : Inside h lim .fetch t n) (hs : t.status = .running .fetch)
    (hrun : n.finished = false) (hok : h.StepOk lim t) :
    Related h lim (h.step lim t) n ∧ rank lim (h.step lim t) < rank lim t := by
  have hw := hi.window
  have hin := hw.inSpeculation
  have hrank : rank lim t = 4 * pending lim t.world.spec := rank_inside .fetch hs hin
  by_cases hexit : t.world.mc.pc = h.exitPc
  · have hstep : h.step lim t = h.exitCallback t := by
      simp only [step, hs]
      rw [if_pos hexit]
    cases hw.rollback (t := t) hi.log hi.env hrun with
    | intro pc hr =>
      cases hr with
      | intro w' hr =>
        have hback : h.exitCallback t = t.redirect w' pc := by
          unfold exitCallback
          rw [if_pos hin, hr.1]
        rw [hstep, hback, hrank]
        refine ⟨hr.2.2.1, Nat.lt_of_lt_of_le hr.2.2.2 ?_⟩
        have := explore_pos (lim.maxSpecWindow - t.world.spec.specWindow)
        unfold pending
        omega
  · cases hf : h.fetches t.app with
    | true =>
      have hstep : h.step lim t = t.resume
          (if (t.instr h).readsMemory || (t.instr h).writesMemory then .access else .execute)
          (instructionDispatch lim (t.process h) t.world) := by
        simp only [step, hs]
        rw [if_neg hexit, if_neg (by simp [hf])]
      rw [hstep]
      apply inside_dispatch hi hs hrun (hok.target ⟨hs, hexit, hf⟩)
      split
      · simp
      · simp
    | false =>
      have hfault := hok.fetch hs hin hexit hf
      have hstep : h.step lim t = h.handleException lim t := by
        simp only [step, hs]
        rw [if_neg hexit, if_pos (by simp [hf]), fetchException, if_neg (by simp [hfault.2])]
      rw [hstep, hrank]
      apply inside_exception hw _ _ hi.env hrun (.inl hfault.2)
      · exact fun e he => hi.log e (List.mem_of_mem_drop he)
      · intro e he
        rw [hfault.1] at he
        cases he

/-! ### The steps outside of speculation -/

theorem nativeStep_exec (hrun : n.finished = false) (happ : t.app = n.app)
    (hexit : t.world.mc.pc ≠ h.exitPc) (hf : h.fetches t.app = true) :
    h.nativeStep n = { n with
      app := (h.exec t.app).getD (h.deliver t.app)
      executed := n.executed ++ [t.world.mc.pc] } := by
  have hpc : n.app.mc.pc = t.world.mc.pc := by rw [← happ]; rfl
  unfold nativeStep
  rw [if_neg (by simp [hrun]), if_neg (by rw [hpc]; exact hexit),
    if_neg (by rw [← happ]; simp [hf]), hpc, happ]

/-- The window opened by a branch outside of speculation. -/
theorem window_opened (hspec : w.spec = { enabled := true }) {m : Native E} (mc : Mcontext)
    {pc : Nat} (hpc : pc ≠ 0) (hskip : w.spec.skipSpeculation lim = false)
    (hcalls : outside w.calls = m.executed) (hmc : { mc with pc := pc } = m.app.mc)
    (hmem : w.mem = m.app.mem) :
    Window lim (Speculator.checkpoint { w with mc := mc } pc) m := by
  have hnested : Nested lim w.spec := by
    rw [hspec]
    exact nested_init true
  have hsw : w.spec.specWindow = 0 := by rw [hspec]
  have hcps : w.spec.checkpoints = [] := by rw [hspec]
  have hes : w.spec.storeLog.entries = [] := by rw [hspec]
  have hlt : w.spec.specWindow < lim.maxSpecWindow := by
    simp only [skipSpeculation, Bool.or_eq_false_iff, decide_eq_false_iff_not] at hskip
    omega
  refine ⟨Nested.checkpoint (w := { w with mc := mc }) hnested hskip pc, rfl, ?_, ?_, ?_, ?_, ?_⟩
  · show w.spec.enabled = true
    rw [hspec]
  · rw [← hcalls]
    simp [outside, Speculator.checkpoint]
  · intro cp hcp
    have heq : cp = { rollbackPc := pc, specWindow := w.spec.specWindow, mc := mc } := by
      simpa [Speculator.checkpoint, hcps] using hcp
    rw [heq]
    exact ⟨hpc, hlt⟩
  · refine ⟨[], { rollbackPc := pc, specWindow := w.spec.specWindow, mc := mc }, ?_, hmc, hsw⟩
    simp [Speculator.checkpoint, hcps]
  · show StoreLog.undo w.mem w.spec.storeLog.entries = m.app.mem
    rw [hes, StoreLog.undo_nil, hmem]

theorem handleInstructionABC_quiet (i : Instr) (hspec : w.spec = { enabled := true }) :
    handleInstructionABC lim p i w = .ok (w, 0) := by
  cases w with
  | mk mc mem spec calls =>
    simp only at hspec
    subst hspec
    rfl

theorem quiet_dispatch (hq : Quiet h .fetch t n) (hrun : n.finished = false)
    (hok : h.StepOk lim t) (hd : h.Dispatches t) {next : Phase} (hnext : next ≠ .fetch) :
    Related h lim (t.resume next (instructionDispatch lim (t.process h) t.world))
      (h.nativeStep n) ∨
    (Related h lim (t.resume next (instructionDispatch lim (t.process h) t.world)) n ∧
      rank lim (t.resume next (instructionDispatch lim (t.process h) t.world)) < rank lim t) := by
  have hout : t.world.spec.inSpeculation = false := by rw [hq.spec]
  have hexecuted : outside (t.world.calls ++
      [.instruction t.world.mc.pc t.world.spec.nesting]) = n.executed ++ [t.world.mc.pc] := by
    have hcalls := hq.executed
    rw [if_pos rfl, List.append_nil] at hcalls
    rw [← hcalls, hq.spec]
    simp [outside]
  have hdispatch : instructionDispatch lim (t.process h) t.world =
      .ok (SpeculatorCond.mispredict lim (t.process h) (t.instr h) { t.world with
        calls := t.world.calls ++ [.instruction t.world.mc.pc t.world.spec.nesting] }) :=
    handleInstruction_continue _ (handleInstructionABC_quiet _ hq.spec)
  rw [hdispatch, mispredict_eq]
  split
  · rename_i hopens
    left
    have hopens' : h.Opens lim t := hopens
    have hstep := nativeStep_exec hrun hq.app hd.2.1 hd.2.2
    rw [hok.branch hd hopens' hout, Option.getD_some] at hstep
    have hw : Window lim (Speculator.checkpoint { t.world with
          mc := SpeculatorCond.countDown (t.instr h) t.world.mc
          calls := t.world.calls ++ [.instruction t.world.mc.pc t.world.spec.nesting] }
        (resolvedPc (t.process h) (t.instr h) t.world.mc)) (h.nativeStep n) := by
      rw [hstep]
      exact window_opened
        (w := { t.world with
          calls := t.world.calls ++ [.instruction t.world.mc.pc t.world.spec.nesting] })
        hq.spec _ (hok.target hd hopens') hopens.2 hexecuted rfl rfl
    have hsw : t.world.spec.specWindow < lim.maxSpecWindow := by
      have hskip := hopens'.2
      simp only [skipSpeculation, Bool.or_eq_false_iff, decide_eq_false_iff_not] at hskip
      omega
    have hlog : t.world.spec.storeLog = {} := by rw [hq.spec]
    refine (related_resume (t := t) hw hsw ?_ ?_ ?_ ?_ _ hnext).1
    · show ∀ e ∈ t.world.spec.storeLog.entries, _
      rw [hlog]
      simp
    · show t.world.spec.storeLog.uncommitted = []
      rw [hlog]
      rfl
    · rw [hstep]
      rfl
    · rw [hstep]
      exact hrun
  · right
    rw [resume_next]
    constructor
    · refine .quiet next rfl hrun ⟨hq.spec, hq.app, ?_, fun _ => hd.2⟩
      show outside (t.world.calls ++ [.instruction t.world.mc.pc t.world.spec.nesting]) = _
      rw [hexecuted, if_neg hnext]
    · cases next with
      | fetch => exact absurd rfl hnext
      | access => simp [rank, hout, hd.1, quietRank]
      | execute => simp [rank, hout, hd.1, quietRank]

theorem accessLoop_quiet (size : Nat) (hout : w.spec.inSpeculation = false)
    (refs : List (Nat × Bool)) :
    ∃ calls, accessLoop p size w refs = .ok ({ w with calls := calls }, 0) ∧
      outside calls = outside w.calls := by
  induction refs generalizing w with
  | nil => exact ⟨w.calls, rfl, rfl⟩
  | cons ref refs ih =>
    cases ref with
    | mk addr isWrite =>
      have hskip : handleMemAccess p isWrite addr size
          { w with calls := w.calls ++ [.memAccess isWrite addr size] } =
          ({ w with calls := w.calls ++ [.memAccess isWrite addr size] }, true) := by
        simp [handleMemAccess, hout]
      simp only [accessLoop, hskip, if_true]
      cases ih (w := { w with calls := w.calls ++ [.memAccess isWrite addr size] }) hout with
      | intro calls hc =>
        refine ⟨calls, hc.1, hc.2.trans ?_⟩
        simp [outside]

theorem handleException_quiet (hout : t.world.spec.inSpeculation = false) :
    h.handleException lim t =
      { t.withApp (h.deliver t.app) with status := .running .fetch } := by
  have heq : Speculator.handleException lim (t.process h) t.world = .ok (t.world, false) := by
    unfold Speculator.handleException
    rw [if_pos (by simp [hout])]
  unfold Host.handleException
  rw [heq]

theorem quiet_at (hspec : t.world.spec = { enabled := true }) {m : Native E}
    (hcalls : outside t.world.calls = m.executed) (a : App E) :
    Quiet h .fetch { t.withApp a with status := .running .fetch } { m with app := a } :=
  ⟨hspec, rfl, by rw [if_pos rfl, List.append_nil]; exact hcalls, fun hne => absurd rfl hne⟩

/-- Every step either belongs to one step of the program by itself or uses up speculation. -/
theorem ranked (h : Host E) (lim : Limits) :
    Ranked (h.step lim) h.nativeStep (h.StepOk lim) (Related h lim) (rank lim) := by
  intro t n hr hok
  cases hr with
  | finished hs hfin happ hexec =>
    left
    have hstep : h.step lim t = t := by simp only [step, hs]
    have hnative : h.nativeStep n = n := if_pos hfin
    rw [hstep, hnative]
    exact .finished hs hfin happ hexec
  | inside phase hs hrun hi =>
    right
    cases phase with
    | fetch => exact inside_fetch hi hs hrun hok
    | access => exact inside_access hi hs hrun hok
    | execute => exact inside_execute hi hs hrun hok
  | quiet phase hs hrun hq =>
    have hout : t.world.spec.inSpeculation = false := by rw [hq.spec]
    have hpc : n.app.mc.pc = t.world.mc.pc := by rw [← hq.app]; rfl
    cases phase with
    | fetch =>
      have hcalls := hq.executed
      rw [if_pos rfl, List.append_nil] at hcalls
      by_cases hexit : t.world.mc.pc = h.exitPc
      · left
        have hstep : h.step lim t = h.exitCallback t := by
          simp only [step, hs]
          rw [if_pos hexit]
        have hnative : h.nativeStep n = { n with finished := true } := by
          unfold nativeStep
          rw [if_neg (by simp [hrun]), if_pos (by rw [hpc]; exact hexit)]
        rw [hstep, hnative, exitCallback, if_neg (by simp [hout])]
        exact .finished rfl rfl hq.app hcalls
      · cases hf : h.fetches t.app with
        | false =>
          left
          have hexc : h.step lim t = h.fetchException lim t := by
            simp only [step, hs]
            rw [if_neg hexit, if_pos (by simp [hf])]
          have hnative : h.nativeStep n = { n with app := h.deliver t.app } := by
            unfold nativeStep
            rw [if_neg (by simp [hrun]), if_neg (by rw [hpc]; exact hexit),
              if_pos (by rw [← hq.app]; simp [hf]), hq.app]
          rw [hexc, fetchException, if_neg (by simp [hout]), handleException_quiet hout, hnative]
          exact .quiet .fetch rfl hrun (quiet_at hq.spec hcalls _)
        | true =>
          have hstep : h.step lim t = t.resume
              (if (t.instr h).readsMemory || (t.instr h).writesMemory then .access else .execute)
              (instructionDispatch lim (t.process h) t.world) := by
            simp only [step, hs]
            rw [if_neg hexit, if_neg (by simp [hf])]
          rw [hstep]
          apply quiet_dispatch hq hrun hok ⟨hs, hexit, hf⟩
          split
          · simp
          · simp
    | access =>
      right
      have hstep : h.step lim t =
          t.resume .execute (memAccessDispatch (t.process h) t.world) := by
        simp only [step, hs]
      cases accessLoop_quiet (p := t.process h) ((t.process h).memSize (t.instr h)) hout
          ((t.process h).memRefs (t.instr h) t.world.mc) with
      | intro calls hc =>
        have hloop : memAccessDispatch (t.process h) t.world =
            .ok ({ t.world with calls := calls }, 0) := hc.1
        rw [hstep, hloop, resume_next]
        constructor
        · exact .quiet .execute rfl hrun
            ⟨hq.spec, hq.app, hc.2.trans hq.executed, fun _ => hq.dispatched (by simp)⟩
        · simp [rank, hs, hout, quietRank]
    | execute =>
      left
      have hd := hq.dispatched (by simp)
      have hcalls : outside t.world.calls = n.executed ++ [t.world.mc.pc] := hq.executed
      let after : Native E := { n with executed := n.executed ++ [t.world.mc.pc] }
      rw [nativeStep_exec hrun hq.app hd.1 hd.2]
      cases hx : h.exec t.app with
      | some a =>
        have hstep : h.step lim t = { t.withApp a with status := .running .fetch } := by
          simp only [step, hs, hx]
        rw [hstep]
        exact .quiet .fetch rfl hrun (quiet_at (m := after) hq.spec hcalls _)
      | none =>
        have hstep : h.step lim t = h.handleException lim t := by
          simp only [step, hs, hx]
        rw [hstep, handleException_quiet hout]
        exact .quiet .fetch rfl hrun (quiet_at (m := after) hq.spec hcalls _)

theorem related_start (h : Host E) (lim : Limits) (a : App E) :
    Related h lim (start a) { app := a } :=
  .quiet .fetch rfl rfl ⟨rfl, rfl, rfl, fun hne => absurd rfl hne⟩

theorem Related.finished_iff (hr : Related h lim t n) :
    t.status = .finished ↔ n.finished = true := by
  cases hr with
  | quiet phase hs hrun hq => simp [hs, hrun]
  | inside phase hs hrun hi => simp [hs, hrun]
  | finished hs hfin happ hexec => simp [hs, hfin]

/-- Between the dispatch of an instruction outside of speculation and its execution, the program by
itself is about to execute it. -/
theorem Related.outside_eq (hr : Related h lim t n) :
    outside t.world.calls = n.executed ∨ outside t.world.calls = (h.nativeStep n).executed := by
  cases hr with
  | finished hs hfin happ hexec => exact .inl hexec
  | inside phase hs hrun hi => exact .inl hi.window.executed
  | quiet phase hs hrun hq =>
    by_cases hfetch : phase = .fetch
    · left
      rw [hq.executed, if_pos hfetch, List.append_nil]
    · right
      have hd := hq.dispatched hfetch
      rw [nativeStep_exec hrun hq.app hd.1 hd.2, hq.executed, if_neg hfetch]

theorem executed_prefix (n : Native E) : n.executed <+: (h.nativeStep n).executed := by
  unfold nativeStep
  split
  · exact List.prefix_refl _
  · split
    · exact List.prefix_refl _
    · split
      · exact List.prefix_refl _
      · exact List.prefix_append _ _

/-- When every step is `StepOk`, COND speculation is transparent. -/
theorem transparent_of_stepOk (h : Host E) (lim : Limits) (a : App E)
    (hok : ∀ n, h.StepOk lim (h.traced lim a n)) : h.Transparent lim a := by
  have hrun : ∀ n, ∃ m, Related h lim (h.traced lim a n) (h.native a m) := fun n =>
    ((ranked h lim).run (related_start h lim a) n fun k _ => hok k).imp fun _ hm => hm.2
  have hreach : ∀ m, ∃ n, Related h lim (h.traced lim a n) (h.native a m) :=
    (ranked h lim).reach (related_start h lim a) hok
  have hfinished : ∀ n, (h.traced lim a n).status = .finished → ∃ m,
      (h.native a m).finished = true ∧
      outside (h.traced lim a n).world.calls = (h.native a m).executed ∧
      (h.traced lim a n).app = (h.native a m).app := by
    intro n hs
    cases hrun n with
    | intro m hr =>
      refine ⟨m, hr.finished_iff.1 hs, ?_⟩
      cases hr with
      | quiet phase hs' => simp [hs] at hs'
      | inside phase hs' => simp [hs] at hs'
      | finished _ _ happ hexec => exact ⟨hexec, happ⟩
  refine ⟨?_, ?_, hfinished, ?_⟩
  · intro n
    cases hrun n with
    | intro m hr =>
      cases hr.outside_eq with
      | inl heq => exact ⟨m, heq⟩
      | inr heq =>
        refine ⟨m + 1, ?_⟩
        unfold native at heq ⊢
        rw [heq, Function.iterate_succ_apply']
  · intro m
    cases hreach m with
    | intro n hr =>
      refine ⟨n, ?_⟩
      cases hr.outside_eq with
      | inl heq =>
        simp only [heq]
        exact List.prefix_rfl
      | inr heq =>
        rw [heq]
        exact executed_prefix _
  · intro m hfin
    cases hreach m with
    | intro n hr => exact ⟨n, hr.finished_iff.2 hfin⟩

/-! ### A program with one branch -/

/-- `mov [0x100], rcx`. -/
def storeRcx : Instr := { opcode := .movSt, nextPc := 0x14, writesMemory := true }

/-- A process with the instruction `i` at address 0x10 and a store behind it. The flag that `i`
tests is the carry flag; a `LOOP` tests none. -/
def branchProcess (i : Instr) : Process where
  decode := fun pc =>
    if pc = 0x10 then i else if pc = 0x12 then storeRcx
    else { opcode := .other 0, nextPc := pc + 1 }
  jccTaken := fun i flags => !i.isCtiLoop && flags % 2 == 1
  regGetValue := fun _ _ => 0
  computeAddress := fun _ _ => 0
  memRefs := fun i _ => if i.writesMemory then [(0x100, true)] else []
  memSize := fun i => if i.writesMemory then 8 else 0
  readable := fun _ => true
  writable := fun _ => true
  executable := fun _ => true

def branchTaken (i : Instr) (mc : Mcontext) : Bool :=
  if i.isCtiLoop then sub64 (mc.gpr .rcx) 1 != 0 else mc.xflags % 2 == 1

/-- The processor on it. -/
def branchHost (i : Instr) (exitPc : Nat) : Host Unit where
  process := fun _ => branchProcess i
  fetches := fun _ => true
  exec := fun a =>
    let i := (branchProcess i).decode a.mc.pc
    some { a with
      mc := { SpeculatorCond.countDown i a.mc with
        pc := if i.isCbr && branchTaken i a.mc then i.branchTarget else i.nextPc }
      mem := if i.writesMemory then a.mem.write 0x100 (le64 (a.mc.gpr .rcx)) else a.mem }
  deliver := id
  exitPc := exitPc

def jb : Instr := { opcode := .other 1, nextPc := 0x12, isCbr := true, branchTarget := 0x20 }

def loop : Instr :=
  { opcode := .other 2, nextPc := 0x12, isCbr := true, isCtiLoop := true, branchTarget := 0x10 }

def smallLimits : Limits := ⟨1, 4, none, by decide, by decide⟩

/-- At address 0x10 with the given `RCX` and flags. -/
def branchStart (rcx flags : Nat) : App Unit where
  env := ()
  mc := { pc := 0x10, gpr := fun g => if g = .rcx then rcx else 0, xflags := flags,
          simd := fun _ => 0 }
  mem := fun _ => 0

/-- The store is executed in speculation with its word in the log. -/
def StoreLogged (t : Traced Unit) : Prop :=
  t.status = .running .execute → t.world.spec.inSpeculation = true → t.world.mc.pc = 0x12 →
    ∃ e ∈ t.world.spec.storeLog.uncommitted, e.addr = 0x100 ∧ e.size = 8

instance (t : Traced Unit) : Decidable (StoreLogged t) := by
  unfold StoreLogged
  infer_instance

theorem stepOk_jb (exitPc : Nat) {t : Traced Unit} (hlog : StoreLogged t) :
    (branchHost jb exitPc).StepOk smallLimits t := by
  have hwr : (branchHost jb exitPc).LoggedWritable t := fun e _ => by
    simp [StoreLogEntry.Writable, Traced.process, branchHost, branchProcess, Process.covers]
  have hbranch : (t.instr (branchHost jb exitPc)).isCbr = true → t.world.mc.pc = 0x10 := by
    intro hcbr
    by_cases hpc : t.world.mc.pc = 0x10
    · exact hpc
    · by_cases hstore : t.world.mc.pc = 0x12
      · simp [Traced.instr, Traced.process, branchHost, branchProcess, hstore, storeRcx] at hcbr
      · simp [Traced.instr, Traced.process, branchHost, branchProcess, hpc, hstore] at hcbr
  refine ⟨?_, ?_, ?_, ?_, ?_, fun _ _ _ _ _ => hwr⟩
  · intro _ hopens _
    have hpc := hbranch hopens.1
    simp [branchHost, resolved, resolvedPc, Traced.app, Traced.instr, Traced.process, hpc, jb,
      branchTaken, branchProcess, SpeculatorCond.countDown]
  · intro _ hopens
    have hdec : t.instr (branchHost jb exitPc) = jb := if_pos (hbranch hopens.1)
    rw [hdec]
    unfold resolvedPc
    split
    · decide
    · decide
  · intro _ _ _ hf
    cases hf
  · intro _ _ pre post _ _ _ v _
    simp [Traced.process, branchHost, branchProcess, Process.covers]
  · intro hs hin a ha
    have hmem : a.mem = if ((branchProcess jb).decode t.world.mc.pc).writesMemory then
        t.world.mem.write 0x100 (le64 (t.world.mc.gpr .rcx)) else t.world.mem := by
      cases ha
      rfl
    refine ⟨rfl, hwr, fun x hx => ?_⟩
    by_cases hpc : t.world.mc.pc = 0x12
    · -- the store changes the word that its log entry covers, and no other
      obtain ⟨e, he, haddr, hsize⟩ := hlog hs hin hpc
      have hout := hx e he
      unfold StoreLogEntry.Covers at hout
      rw [hmem, hpc]
      exact write_other _ (by rw [length_le64]; omega)
    · have hplain : ((branchProcess jb).decode t.world.mc.pc).writesMemory = false := by
        by_cases hjb : t.world.mc.pc = 0x10
        · simp [branchProcess, hjb, jb]
        · simp [branchProcess, hjb, hpc]
      rw [hmem, hplain]
      rfl

/-- With the carry flag set the branch is taken, and the store is on the wrong path. -/
theorem storeLogged_jb (n : Nat) :
    StoreLogged ((branchHost jb 0x20).traced smallLimits (branchStart 5 1) n) := by
  have hfirst : ∀ k < 10,
      StoreLogged ((branchHost jb 0x20).traced smallLimits (branchStart 5 1) k) := by
    decide +kernel
  have hend : ((branchHost jb 0x20).traced smallLimits (branchStart 5 1) 10).status = .finished := by
    decide +kernel
  have hfixed : ∀ k, (branchHost jb 0x20).traced smallLimits (branchStart 5 1) (k + 10) =
      (branchHost jb 0x20).traced smallLimits (branchStart 5 1) 10 := by
    intro k
    unfold traced
    rw [Function.iterate_add_apply]
    refine Function.iterate_fixed ?_ k
    unfold traced at hend
    generalize ((branchHost jb 0x20).step smallLimits)^[10] (start (branchStart 5 1)) = t at hend
    simp [step, hend]
  by_cases hn : n < 10
  · exact hfirst n hn
  · intro hs
    rw [← Nat.sub_add_cancel (Nat.le_of_not_lt hn), hfixed, hend] at hs
    cases hs

theorem transparent_of_stepOk_jb :
    let t := (branchHost jb 0x20).traced smallLimits (branchStart 5 1)
    (branchHost jb 0x20).Transparent smallLimits (branchStart 5 1) ∧
      -- the store is executed in speculation, and undone
      (t 4).world.spec.inSpeculation = true ∧ (t 4).world.mem.word64 0x100 = 5 ∧
      (t 10).status = .finished ∧ (t 10).world.mem.word64 0x100 = 0 ∧
      outside (t 10).world.calls = [0x10] := by
  refine ⟨?_, by decide +kernel, by decide +kernel, by decide +kernel, by decide +kernel,
    by decide +kernel⟩
  exact transparent_of_stepOk (branchHost jb 0x20) smallLimits (branchStart 5 1)
    fun n => stepOk_jb 0x20 (storeLogged_jb n)

/-- A `LOOP` to itself with two rounds to go: the handler takes it as not taken, and the function
ends after one round. -/
theorem loop_not_transparent :
    ¬ (branchHost loop 0x12).Transparent smallLimits (branchStart 2 0) := by
  intro htrans
  cases htrans.ends 8 (by decide +kernel) with
  | intro m hm =>
    have hone : outside ((branchHost loop 0x12).traced smallLimits (branchStart 2 0) 8).world.calls =
        [0x10] := by decide +kernel
    have hthree : ((branchHost loop 0x12).native (branchStart 2 0) 3).finished = true := by
      decide +kernel
    have hfixed : ∀ k, (branchHost loop 0x12).native (branchStart 2 0) (k + 3) =
        (branchHost loop 0x12).native (branchStart 2 0) 3 := by
      intro k
      unfold native
      rw [Function.iterate_add_apply]
      have hstop : (branchHost loop 0x12).nativeStep
          ((branchHost loop 0x12).nativeStep^[3] { app := branchStart 2 0 }) =
          (branchHost loop 0x12).nativeStep^[3] { app := branchStart 2 0 } := if_pos hthree
      exact Function.iterate_fixed hstop k
    have hlist := hm.2.1
    rw [hone] at hlist
    match m with
    | 0 => exact absurd hm.1 (by decide +kernel)
    | 1 => exact absurd hm.1 (by decide +kernel)
    | 2 => exact absurd hm.1 (by decide +kernel)
    | k + 3 =>
      rw [hfixed] at hlist
      exact absurd hlist (by decide +kernel)

end Host

end Rvzr.Dynamorio
