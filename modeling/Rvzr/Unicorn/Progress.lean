import Rvzr.Unicorn.StepConditions

/-!
How much speculation is left. A step in speculation counts an instruction against the window, goes
forward in the section of the actor, or gives up a level; beyond the window a conditional jump opens
a level that is rolled back at once, so that the run goes on behind it. `rank` bounds the number of
such steps.
-/

namespace Rvzr.Unicorn

open Rvzr.Lib

namespace Setup

variable (m : Setup)

/-! ### The rank -/

/-- The distance to the end of an actor's section. -/
def toEnd (actor pc : Nat) : Nat := codeSizePerActor - (pc - m.sectionStart actor)

/-- What is left in a window with room for `k` more instructions. Each of them may open a level that
restarts with the same room. -/
def explore : Nat → Nat
  | 0 => 0
  | k + 1 => 2 * (explore k + codeSizePerActor) + 2

/-- What is left at an address of an actor after `window` instructions. -/
def room (window actor pc : Nat) : Nat :=
  explore (m.lim.maxSpecWindow - window) + m.toEnd actor pc

/-- What is left after a rollback to a checkpoint. -/
def restart (c : Checkpoint) : Nat :=
  4 * m.room c.specWindow (m.codeAddrToActorId c.nextInstr) c.nextInstr + 2

/-- What is left on the open levels; the outermost one restarts outside speculation. -/
def waiting (cps : List Checkpoint) : Nat := (cps.dropLast.map m.restart).sum

/-- A pending store may be bypassed. -/
def bypass (s : State) : Nat := if s.previousStore = none then 0 else 2

def rank : Mode × State → Nat
  | (.loop pc, s) =>
    if s.inSpeculation then
      4 * m.room s.speculationWindow (m.codeAddrToActorId pc) pc + m.waiting s.checkpoints + 4
    else 1
  | (.emu pc, s) =>
    if s.inSpeculation then
      4 * m.room s.speculationWindow s.currentActor pc + m.waiting s.checkpoints + bypass s + 3
    else if s.previousStore = none then 0
    else 4 * (explore (m.lim.maxSpecWindow - s.speculationWindow) + codeSizePerActor) + 6
  | (.returned, _) => 0
  | (.crashed, _) => 0

variable {m} {pc : Nat} {s s' : State}

theorem explore_le (k : Nat) : explore k ≤ explore (k + 1) := by
  show explore k ≤ 2 * (explore k + codeSizePerActor) + 2
  omega

/-- One more instruction is counted. -/
theorem explore_count_le (n w : Nat) : explore (n - (w + 1)) ≤ explore (n - w) := by
  by_cases hlt : w < n
  · rw [show n - w = n - (w + 1) + 1 by omega]
    exact explore_le _
  · rw [show n - (w + 1) = n - w by omega]

/-- In the window an instruction uses up its part. -/
theorem explore_count {n w : Nat} (h : w + 1 ≤ n) :
    explore (n - w) = 2 * (explore (n - (w + 1)) + codeSizePerActor) + 2 := by
  rw [show n - w = n - (w + 1) + 1 by omega]
  rfl

theorem room_le (m : Setup) (w actor pc : Nat) :
    m.room w actor pc ≤ explore (m.lim.maxSpecWindow - w) + codeSizePerActor :=
  Nat.add_le_add_left (Nat.sub_le _ _) _

theorem bypass_le (s : State) : bypass s ≤ 2 := by
  unfold bypass
  split
  · exact Nat.zero_le 2
  · exact Nat.le_refl 2

theorem toEnd_lt {actor pc' : Nat} (hle : m.sectionStart actor ≤ pc)
    (hlt : pc < m.sectionStart actor + codeSizePerActor) (hpc : pc < pc') :
    m.toEnd actor pc' < m.toEnd actor pc := by
  unfold toEnd
  omega

theorem waiting_cons (m : Setup) (c : Checkpoint) {cps : List Checkpoint} (hne : cps ≠ []) :
    m.waiting (c :: cps) = m.restart c + m.waiting cps := by
  unfold waiting
  rw [List.dropLast_cons_of_ne_nil hne, List.map_cons, List.sum_cons]

theorem restart_mk (m : Setup) (context : UcReg → Nat) (next flags w : Nat) :
    m.restart ⟨context, next, flags, w⟩ = 4 * (explore (m.lim.maxSpecWindow - w) +
      m.toEnd (m.codeAddrToActorId next) next) + 2 := rfl

/-- An address at which the emulator goes on in speculation. -/
theorem rank_emu_le (m : Setup) (pc : Nat) (hs : s.inSpeculation = true) :
    m.rank (.emu pc, s) ≤
      4 * (explore (m.lim.maxSpecWindow - s.speculationWindow) + codeSizePerActor) +
        m.waiting s.checkpoints + 5 := by
  have hroom := m.room_le s.speculationWindow s.currentActor pc
  have hbypass := bypass_le s
  simp only [rank, hs, if_true]
  omega

/-! ### Giving up a level -/

theorem rank_rollbackStep (m : Setup) (s : State) :
    m.rank (rollbackStep s) ≤ m.waiting s.checkpoints + 2 := by
  unfold rollbackStep Unicorn.rollback
  cases s.checkpoints with
  | nil => exact Nat.zero_le _
  | cons c cs =>
      by_cases hspec : (s.inSpeculation && !cs.isEmpty) = true
      · have hne : cs ≠ [] := by
          rintro rfl
          simp at hspec
        simp only [rank, hspec, if_true]
        rw [m.waiting_cons c hne, restart]
        omega
      · simp only [rank, hspec]
        exact Nat.le_add_left 1 (m.waiting (c :: cs) + 1)

theorem rank_afterStop (m : Setup) (hs : s.inSpeculation = true) :
    m.rank (afterStop s) ≤ m.waiting s.checkpoints + 2 := by
  unfold afterStop
  rw [if_pos hs]
  exact m.rank_rollbackStep s

theorem rank_afterFault (m : Setup) (errno : Nat) (hs : s.inSpeculation = true) :
    m.rank (m.afterFault errno s) ≤ m.waiting s.checkpoints + 2 := by
  unfold afterFault
  cases s.previousContext with
  | none => exact Nat.zero_le _
  | some context =>
      have hview := m.view_patchContext context s
      have hspec : (m.patchContext context s).inSpeculation = true :=
        (congrArg View.inSpeculation hview).trans hs
      have hcps : (m.patchContext context s).checkpoints = s.checkpoints :=
        congrArg View.checkpoints hview
      simp only [handleFault, hspec, if_true]
      rw [← hcps]
      exact m.rank_rollbackStep _

/-! ### Executing an instruction -/

/-- The two states have the same levels open. -/
structure SameLevels (s s' : State) : Prop where
  checkpoints : s'.checkpoints = s.checkpoints
  inSpeculation : s'.inSpeculation = s.inSpeculation
  speculationWindow : s'.speculationWindow = s.speculationWindow

theorem sameLevels_of_view {e : Event} (h : s'.view = s.view ∨ s'.view = s.view.record e) :
    SameLevels s s' := by
  cases h with
  | inl h =>
      exact ⟨congrArg View.checkpoints h, congrArg View.inSpeculation h,
        congrArg View.speculationWindow h⟩
  | inr h =>
      exact ⟨congrArg View.checkpoints h, congrArg View.inSpeculation h,
        congrArg View.speculationWindow h⟩

theorem performAll_levels {inst : Inst} {as : List Access}
    (h : as.foldlM (m.performAccess inst) s = some s') : SameLevels s s' := by
  induction as generalizing s with
  | nil => exact Option.some.inj h ▸ ⟨rfl, rfl, rfl⟩
  | cons a as ih =>
      rw [List.foldlM_cons] at h
      obtain ⟨s₁, hs₁, h⟩ := Option.bind_eq_some_iff.mp h
      have h₁ := sameLevels_of_view (performAccess_view hs₁)
      have h₂ := ih h
      exact ⟨h₂.checkpoints.trans h₁.checkpoints, h₂.inSpeculation.trans h₁.inSpeculation,
        h₂.speculationWindow.trans h₁.speculationWindow⟩

theorem rank_afterExec (m : Setup) (inst : Inst) (o : Outcome) (hs : s.inSpeculation = true) :
    m.rank (m.afterExec inst s o) ≤
      4 * (explore (m.lim.maxSpecWindow - s.speculationWindow) + codeSizePerActor) +
        m.waiting s.checkpoints + 5 := by
  unfold afterExec
  split
  · exact m.rank_emu_le _ hs
  · have hle := m.rank_afterFault (s := s) ‹Nat› hs
    omega
  · split
    · exact Nat.zero_le _
    · rename_i hd
      have hsame := sameLevels_of_view (memAccessDispatch_view hd)
      have hle := m.rank_afterFault ‹Nat› (hsame.inSpeculation.trans hs)
      rw [hsame.checkpoints] at hle
      omega

theorem rank_execute (m : Setup) (pc : Nat) (inst : Inst) (hs : s.inSpeculation = true) :
    m.rank (m.execute pc inst s) ≤
      4 * (explore (m.lim.maxSpecWindow - s.speculationWindow) + codeSizePerActor) +
        m.waiting s.checkpoints + 5 := by
  unfold execute
  split
  · exact Nat.zero_le _
  · rename_i hfold
    have hsame := performAll_levels hfold
    have hle := m.rank_afterExec inst (m.uc.exec s.emulator pc).outcome
      (hsame.inSpeculation.trans hs)
    rw [hsame.checkpoints, hsame.speculationWindow] at hle
    exact hle

/-- After the hook of an instruction in speculation: a stop gives up a level. -/
theorem rank_afterHook (m : Setup) (pc : Nat) (inst : Inst) {h : Hook} {r : Interpreted}
    (hr : r.Keeps h) (hs : h.st.inSpeculation = true) (s₀ : State) :
    m.rank (m.afterHook pc inst r s₀) ≤ m.waiting h.st.checkpoints + 2 +
      (if h.stop then 0
       else 4 * (explore (m.lim.maxSpecWindow - h.st.speculationWindow) + codeSizePerActor) + 3) := by
  cases r with
  | crash => exact Nat.zero_le _
  | fault errno h' =>
      have hspec : h'.st.inSpeculation = true := (congrArg View.inSpeculation hr.view).trans hs
      have hcps : h'.st.checkpoints = h.st.checkpoints := congrArg View.checkpoints hr.view
      have hle := m.rank_afterFault errno hspec
      rw [hcps] at hle
      exact Nat.le_trans hle (Nat.le_add_right _ _)
  | ok h' =>
      have hspec : h'.st.inSpeculation = true := (congrArg View.inSpeculation hr.view).trans hs
      have hcps : h'.st.checkpoints = h.st.checkpoints := congrArg View.checkpoints hr.view
      have hwin : h'.st.speculationWindow = h.st.speculationWindow :=
        congrArg View.speculationWindow hr.view
      have hgo : ∀ x, m.rank x ≤
          4 * (explore (m.lim.maxSpecWindow - h'.st.speculationWindow) + codeSizePerActor) +
            m.waiting h'.st.checkpoints + 5 →
          m.rank x ≤ m.waiting h.st.checkpoints + 2 +
            (4 * (explore (m.lim.maxSpecWindow - h.st.speculationWindow) + codeSizePerActor) + 3) := by
        intro x hx
        rw [hcps, hwin] at hx
        omega
      simp only [afterHook]
      rw [hr.stop]
      cases h.stop with
      | true =>
          rw [← hcps]
          exact m.rank_afterStop hspec
      | false =>
          simp only [Bool.false_eq_true, if_false]
          split
          · rename_i pc' _
            refine hgo _ ?_
            split
            · exact m.rank_emu_le pc' hspec
            · exact m.rank_emu_le (s := h'.st.record (.execute pc inst)) pc' hspec
          · exact hgo _ (m.rank_execute pc inst hspec)

/-! ### One step -/

/-- The stop request of a hook that goes on in speculation. -/
theorem window_of_go {inst : Inst} (hs : s.inSpeculation = true)
    (hgo : stopRequested m.lim inst s.view = false) :
    s.speculationWindow + 1 ≤ m.lim.maxSpecWindow := by
  have hnot : ¬m.lim.maxSpecWindow < s.speculationWindow + 1 := by
    intro hlt
    simp [stopRequested, State.view, hs, hlt] at hgo
  omega

/-- A placeholder in speculation goes forward. -/
theorem rank_placeholder {size : Nat} {inst : Inst} (hsec : m.InSection)
    (hat : m.AtInstruction pc size inst s) (hplace : inst.isMacroPlaceholder = true)
    (hs : s.inSpeculation = true)
    (hok : ExecOk m pc inst { s with previousContext := some s.reg } (m.uc.exec s.emulator pc)) :
    m.rank (m.execute pc inst { s with previousContext := some s.reg }) < m.rank (.emu pc, s) := by
  obtain ⟨hno, hforward⟩ := hok.placeholder hplace
  obtain ⟨hle, hlt, -⟩ := bounds_of_found hsec hat
  have hfold := performAll_placeholder (m := m)
    (s := { s with previousContext := some s.reg }.record (.execute pc inst)) hplace hno
  have hrank : m.rank (.emu pc, s) = 4 * m.room s.speculationWindow s.currentActor pc +
      m.waiting s.checkpoints + bypass s + 3 := by
    simp only [rank, hs, if_true]
  have hfault : ∀ errno, m.rank (m.afterFault errno
      ({ s with previousContext := some s.reg }.record (.execute pc inst))) < m.rank (.emu pc, s) := by
    intro errno
    have hdrop := m.rank_afterFault errno
      (s := { s with previousContext := some s.reg }.record (.execute pc inst)) hs
    have hsame : m.rank (m.afterFault errno
        ({ s with previousContext := some s.reg }.record (.execute pc inst)))
          ≤ m.waiting s.checkpoints + 2 := hdrop
    omega
  unfold execute
  rw [show ({ s with previousContext := some s.reg } : State).emulator = s.emulator from rfl, hfold]
  simp only
  cases hout : (m.uc.exec s.emulator pc).outcome with
  | done reg pc' =>
      have hpc' := toEnd_lt hle hlt (hforward reg pc' hout)
      have hnext : m.rank (m.afterExec inst
          ({ s with previousContext := some s.reg }.record (.execute pc inst)) (.done reg pc'))
          = 4 * m.room s.speculationWindow s.currentActor pc' + m.waiting s.checkpoints +
            bypass s + 3 := by
        show (if s.inSpeculation = true then _ else _) = _
        rw [if_pos hs]
        rfl
      rw [hnext, hrank]
      unfold room
      omega
  | fault errno attempt =>
      cases attempt with
      | none => exact hfault errno
      | some a =>
          simp only [afterExec, memAccessDispatch, hplace, if_true]
          exact hfault errno

/-- An instruction in speculation. Beyond the window the hook stops, and the level that it may have
opened restarts behind a conditional jump, or without the store that was bypassed. -/
theorem rank_hook_inside {size : Nat} {inst : Inst} (hsec : m.InSection)
    (hat : m.AtInstruction pc size inst s) (hs : s.inSpeculation = true) (hne : s.checkpoints ≠ [])
    (hpend : m.PendingOk s) (hbranch : m.OpensCond pc size s → m.BranchOk pc size inst s) :
    m.rank (m.afterHook pc inst (m.interpretInstruction pc inst (m.hookAt pc size inst s))
      { s with previousContext := some s.reg }) < m.rank (.emu pc, s) := by
  obtain ⟨hle, hlt, -⟩ := bounds_of_found hsec hat
  obtain ⟨hstop, hcases⟩ := m.hookAt_cases pc size inst s
  have hcount := explore_count_le m.lim.maxSpecWindow s.speculationWindow
  have hrank : m.rank (.emu pc, s) = 4 * m.room s.speculationWindow s.currentActor pc +
      m.waiting s.checkpoints + bypass s + 3 := by
    simp only [rank, hs, if_true]
  -- the hook counts the instruction, whatever it opens
  have hwin : (m.hookAt pc size inst s).st.speculationWindow = s.speculationWindow + 1 ∧
      (m.hookAt pc size inst s).st.inSpeculation = true := by
    rcases hcases with ⟨hv, -⟩ | ⟨-, ⟨c, ms, -, hv⟩, -⟩ | ⟨-, ⟨c, ms, -, hv⟩, -⟩
    · refine ⟨(congrArg View.speculationWindow hv).trans ?_,
        (congrArg View.inSpeculation hv).trans hs⟩
      simp [View.dispatch, State.view, hs]
    · refine ⟨(congrArg View.speculationWindow hv).trans ?_, congrArg View.inSpeculation hv⟩
      simp [View.dispatch, View.opened, State.view, hs]
    · refine ⟨(congrArg View.speculationWindow hv).trans ?_, congrArg View.inSpeculation hv⟩
      simp [View.dispatch, View.opened, State.view, hs]
  obtain ⟨hwin, hspec⟩ := hwin
  -- a level opened here restarts with less than the run has now
  have hlevels : m.waiting (m.hookAt pc size inst s).st.checkpoints + 2 < m.rank (.emu pc, s) ∧
      m.waiting (m.hookAt pc size inst s).st.checkpoints ≤ m.waiting s.checkpoints +
        4 * (explore (m.lim.maxSpecWindow - (s.speculationWindow + 1)) + codeSizePerActor) + 2 := by
    by_cases hcond : m.OpensCond pc size s
    · have hcp := (hookAt_cond inst hcond).checkpoints
      have hok := hbranch hcond
      have hnext := toEnd_lt hle hlt (lt_branchNext hcond hok)
      have hroom := m.room_le (s.speculationWindow + 1) s.currentActor
        (branchNext pc size (decodeAt s pc size))
      rw [hcp, m.waiting_cons _ hne, hrank, restart_mk, hwin, hok.inside]
      unfold room at hroom ⊢
      exact ⟨by omega, by omega⟩
    · by_cases hbpas : m.OpensBpas s
      · have hcp := (hookAt_bpas pc size inst hbpas hpend).checkpoints
        have hroom := m.room_le (s.speculationWindow + 1) s.currentActor pc
        have htwo : bypass s = 2 := if_neg hbpas.2.2
        rw [hcp, m.waiting_cons _ hne, hrank, htwo, restart_mk, hwin, home_of_found hsec hat]
        unfold room at hroom ⊢
        exact ⟨by omega, by omega⟩
      · obtain ⟨p, hhook⟩ := hookAt_same inst hcond hbpas
        have hcp : (m.hookAt pc size inst s).st.checkpoints = s.checkpoints := by
          rw [hhook]
          exact (m.countedAt_alike pc inst s).1.checkpoints
        rw [hcp, hrank]
        exact ⟨by omega, by omega⟩
  have hafter := m.rank_afterHook pc inst (interpretInstruction_keeps (m := m) pc inst _) hspec
    { s with previousContext := some s.reg }
  rw [hstop, hwin] at hafter
  cases hgo : stopRequested m.lim inst s.view with
  | true =>
      rw [hgo, if_pos rfl] at hafter
      omega
  | false =>
      have huse := explore_count (window_of_go hs hgo)
      rw [hgo, if_neg Bool.false_ne_true] at hafter
      rw [hrank]
      unfold room
      omega

/-- **One emulator step in speculation** lowers the rank. -/
theorem rank_emu_inside (hsec : m.InSection) (hs : s.inSpeculation = true)
    (hne : s.checkpoints ≠ []) (hpend : m.PendingOk s) (hok : m.StepOk (.emu pc, s)) :
    m.rank (m.emuStep pc s) < m.rank (.emu pc, s) := by
  have hrank : m.waiting s.checkpoints + 2 < m.rank (.emu pc, s) := by
    simp only [rank, hs, if_true]
    omega
  rcases m.emuStep_cases pc s with hstop | ⟨-, errno, -, heq⟩ |
    ⟨hend, ⟨size, hfetch⟩, hexit, hno⟩ | ⟨size, inst, hat⟩
  · rw [emuStep_stop hstop]
    exact Nat.lt_of_le_of_lt (m.rank_afterStop hs) hrank
  · rw [heq]
    exact Nat.lt_of_le_of_lt (m.rank_afterFault errno hs) hrank
  · exact absurd hno (hok.found pc size rfl hs hend hfetch hexit)
  · rw [emuStep_at hat]
    cases hplace : inst.isMacroPlaceholder with
    | true =>
        have hhanded : m.handedOn pc size inst s = some { s with previousContext := some s.reg } := by
          unfold handedOn
          rw [hplace]
          rfl
        exact rank_placeholder hsec hat hplace hs (hok.exec pc size inst _ rfl hat hhanded)
    | false => exact rank_hook_inside hsec hat hs hne hpend (hok.branch pc size inst rfl hat hplace)

/-- The loop lowers the rank after a rollback, in speculation and outside. -/
theorem rank_loopStep (m : Setup) (pc : Nat) (hp : s.previousStore = none) :
    m.rank (m.loopStep pc s) < m.rank (.loop pc, s) := by
  have hroll : ∀ u : State, u.inSpeculation = true → u.inSpeculation = s.inSpeculation →
      u.checkpoints = s.checkpoints → m.rank (rollbackStep u) < m.rank (.loop pc, s) := by
    intro u hu hspec hcps
    have hle := m.rank_rollbackStep u
    have hrank : m.rank (.loop pc, s) = 4 * m.room s.speculationWindow (m.codeAddrToActorId pc) pc +
        m.waiting s.checkpoints + 4 := by
      simp only [rank, ← hspec, hu, if_true]
    rw [hcps] at hle
    omega
  have hover : ∀ u : State, m.rank (.returned, u) < m.rank (.loop pc, s) := by
    intro u
    simp only [rank]
    split
    · omega
    · exact Nat.one_pos
  have hemu : m.rank (.emu pc, { s with currentActor := m.codeAddrToActorId pc }.record
      (.resume { s with currentActor := m.codeAddrToActorId pc }.macroState))
        < m.rank (.loop pc, s) := by
    by_cases hs : s.inSpeculation = true
    · simp [rank, State.record, bypass, hs, hp]
    · simp [rank, State.record, hs, hp]
  unfold loopStep
  simp only
  split
  · split
    · rename_i hspec
      exact hroll _ hspec rfl rfl
    · exact hover _
  · split
    · rename_i hand
      exact hroll _ hand.2.2 rfl rfl
    · exact hemu

/-- A store bypass outside speculation lowers the rank. -/
theorem rank_bpas_outside {size : Nat} {inst : Inst} (hs : s.inSpeculation = false)
    (hcps : s.checkpoints = []) (hpend : m.PendingOk s) (hbpas : m.OpensBpas s) :
    m.rank (m.afterHook pc inst (m.interpretInstruction pc inst (m.hookAt pc size inst s))
      { s with previousContext := some s.reg }) < m.rank (.emu pc, s) := by
  have hopened := hookAt_bpas pc size inst hbpas hpend
  have hwin : (m.hookAt pc size inst s).st.speculationWindow = s.speculationWindow := by
    obtain ⟨-, ⟨hv, -⟩ | ⟨-, ⟨c, ms, -, hv⟩, -⟩ | ⟨-, ⟨c, ms, -, hv⟩, -⟩⟩ :=
      m.hookAt_cases pc size inst s
    · refine (congrArg View.speculationWindow hv).trans ?_
      simp [View.dispatch, State.view, hs]
    · refine (congrArg View.speculationWindow hv).trans ?_
      simp [View.dispatch, View.opened, State.view, hs]
    · refine (congrArg View.speculationWindow hv).trans ?_
      simp [View.dispatch, View.opened, State.view, hs]
  have hafter := m.rank_afterHook pc inst (interpretInstruction_keeps (m := m) pc inst _)
    hopened.inSpeculation { s with previousContext := some s.reg }
  have hzero : m.waiting (m.hookAt pc size inst s).st.checkpoints = 0 := by
    rw [hopened.checkpoints, hcps]
    rfl
  rw [hzero, hwin] at hafter
  have hle : (if (m.hookAt pc size inst s).stop = true then 0
      else 4 * (explore (m.lim.maxSpecWindow - s.speculationWindow) + codeSizePerActor) + 3)
        ≤ 4 * (explore (m.lim.maxSpecWindow - s.speculationWindow) + codeSizePerActor) + 3 := by
    split
    · exact Nat.zero_le _
    · exact Nat.le_refl _
  have hrank : m.rank (.emu pc, s)
      = 4 * (explore (m.lim.maxSpecWindow - s.speculationWindow) + codeSizePerActor) + 6 := by
    simp only [rank, hs, Bool.false_eq_true, if_false, if_neg hbpas.2.2]
  omega

end Setup

end Rvzr.Unicorn
