import Rvzr.Unicorn.Levels

/-!
The speculation window. `dispatchedPaths` reads off the log, for every open level, the instructions
that were dispatched on the speculative path that leads to where this level stands; a rollback
continues with the path of its resumption point. The window counter bounds the length of these
paths as long as no branch opens a checkpoint after the window has expired.
-/

namespace Rvzr.Unicorn

open Rvzr.Lib

/-- The dispatched instructions on the path of each open level, innermost level and newest
instruction first. A checkpoint that excludes the current instruction resumes before it. -/
def dispatchedPaths : List Event → List (List Nat)
  | [] => []
  | .dispatch pc _ :: l =>
    match dispatchedPaths l with
    | [] => []
    | p :: ps => (pc :: p) :: ps
  | .checkpoint included _ :: l =>
    match dispatchedPaths l with
    | [] => [[]]
    | p :: ps => p :: (if included then p else p.tail) :: ps
  | .rollback :: l => (dispatchedPaths l).tail
  | .execute _ _ :: l => dispatchedPaths l
  | .access _ :: l => dispatchedPaths l
  | .resume _ :: l => dispatchedPaths l

/-- At no time of the run is a speculative path longer than the window and one. -/
def WithinWindow (W : Nat) (log : List Event) : Prop :=
  ∀ l, l <:+ log → ∀ p ∈ dispatchedPaths l, p.length ≤ W + 1

theorem withinWindow_cons {W : Nat} {e : Event} {l : List Event} :
    WithinWindow W (e :: l) ↔
      (∀ p ∈ dispatchedPaths (e :: l), p.length ≤ W + 1) ∧ WithinWindow W l := by
  constructor
  · intro h
    exact ⟨h _ List.suffix_rfl, fun l' hl' => h l' (hl'.trans (List.suffix_cons e l))⟩
  · rintro ⟨hp, hl⟩ l' hl'
    cases List.suffix_cons_iff.mp hl' with
    | inl heq => exact heq ▸ hp
    | inr hsub => exact hl l' hsub

/-- The paths of the open levels against the windows at which they go on: the current window for
the innermost level, and the saved window of the level inside for the others. -/
def Frames (W : Nat) : Nat → List (List Nat) → List Checkpoint → Prop
  | _, [], [] => True
  | w, p :: ps, c :: cs => p.length ≤ W ∧ p.length ≤ w ∧ Frames W c.specWindow ps cs
  | _, _, _ => False

theorem frames_length {W w : Nat} {ps : List (List Nat)} {cs : List Checkpoint}
    (h : Frames W w ps cs) : ∀ p ∈ ps, p.length ≤ W + 1 := by
  induction ps generalizing w cs with
  | nil => simp
  | cons p ps ih =>
      cases cs with
      | nil => exact absurd h (by simp [Frames])
      | cons c cs =>
          intro q hq
          cases List.mem_cons.mp hq with
          | inl heq =>
              subst q
              exact Nat.le_succ_of_le h.1
          | inr hq => exact ih h.2.2 q hq

/-- Between steps: every level may go on. -/
structure WindowInv (W : Nat) (v : View) : Prop where
  within : WithinWindow W v.log
  spec : v.inSpeculation = !v.checkpoints.isEmpty
  frames : Frames W v.speculationWindow (dispatchedPaths v.log) v.checkpoints

/-- At a rollback: every level but the innermost may go on. -/
structure WindowRoll (W : Nat) (v : View) : Prop where
  within : WithinWindow W v.log
  spec : v.inSpeculation = !v.checkpoints.isEmpty
  frames : ∀ c cs, v.checkpoints = c :: cs →
    Frames W c.specWindow (dispatchedPaths v.log).tail cs

theorem WindowInv.toRoll {W : Nat} {v : View} (h : WindowInv W v) : WindowRoll W v := by
  refine ⟨h.within, h.spec, fun c cs hcs => ?_⟩
  have hf := h.frames
  rw [hcs] at hf
  cases hp : dispatchedPaths v.log with
  | nil => simp [hp, Frames] at hf
  | cons p ps =>
      rw [hp] at hf
      exact hf.2.2

/-- An event that changes no path. -/
theorem WindowInv.record {W : Nat} {v : View} {e : Event} (h : WindowInv W v)
    (he : dispatchedPaths (e :: v.log) = dispatchedPaths v.log) : WindowInv W (v.record e) := by
  refine ⟨?_, h.spec, ?_⟩
  · refine withinWindow_cons.mpr ⟨?_, h.within⟩
    rw [he]
    exact frames_length h.frames
  · show Frames W v.speculationWindow (dispatchedPaths (e :: v.log)) v.checkpoints
    rw [he]
    exact h.frames

theorem windowInv_rollback {W : Nat} {v v' : View} (h : WindowRoll W v)
    (hr : v.rollback = some v') : WindowInv W v' := by
  unfold View.rollback at hr
  cases hcs : v.checkpoints with
  | nil => simp [hcs] at hr
  | cons c cs =>
      simp only [hcs, Option.some.injEq] at hr
      subst v'
      have hf := h.frames c cs hcs
      refine ⟨withinWindow_cons.mpr ⟨frames_length hf, h.within⟩, ?_, hf⟩
      show (v.inSpeculation && !cs.isEmpty) = !cs.isEmpty
      simp [h.spec, hcs]

namespace Setup

variable (m : Setup)

/-- The instruction at hand is a conditional branch that opens a checkpoint although the window of
the running speculation ends with it. -/
def ExpiredBranch (c : Mode × State) : Prop :=
  ∃ pc size inst, c.1 = .emu pc ∧ m.AtInstruction pc size inst c.2 ∧
    inst.isMacroPlaceholder = false ∧ c.2.inSpeculation = true ∧
    m.lim.maxSpecWindow < c.2.speculationWindow + 1 ∧ m.OpensCond pc size c.2

variable {m}

/-- An invariant view is either outside speculation, with nothing open, or inside. -/
theorem windowInv_cases {W : Nat} {v : View} (h : WindowInv W v) :
    (v.checkpoints = [] ∧ v.inSpeculation = false ∧ dispatchedPaths v.log = []) ∨
    ∃ c cs p ps, v.checkpoints = c :: cs ∧ v.inSpeculation = true ∧
      dispatchedPaths v.log = p :: ps ∧ p.length ≤ W ∧ p.length ≤ v.speculationWindow ∧
      Frames W c.specWindow ps cs := by
  have hf := h.frames
  have hs := h.spec
  cases hcs : v.checkpoints with
  | nil =>
      cases hp : dispatchedPaths v.log with
      | nil => exact .inl ⟨rfl, by simpa [hcs] using hs, rfl⟩
      | cons p ps => simp [hcs, hp, Frames] at hf
  | cons c cs =>
      cases hp : dispatchedPaths v.log with
      | nil => simp [hcs, hp, Frames] at hf
      | cons p ps =>
          rw [hcs, hp] at hf
          exact .inr ⟨c, cs, p, ps, rfl, by simpa [hcs] using hs, rfl, hf.1, hf.2.1, hf.2.2⟩

/-- Without a checkpoint in the hook. -/
theorem window_hook_plain {W : Nat} {v : View} (h : WindowInv W v) (pc : Nat) (inst : Inst) :
    WindowRoll W (v.dispatch pc inst) ∧
    (v.inSpeculation = false → WindowInv W (v.dispatch pc inst)) ∧
    (v.speculationWindow + 1 ≤ W → WindowInv W (v.dispatch pc inst)) := by
  cases windowInv_cases h with
  | inl hout =>
      obtain ⟨hcs, hspec, hp⟩ := hout
      have hp' : dispatchedPaths (v.dispatch pc inst).log = [] := by
        simp [View.dispatch, dispatchedPaths, hp]
      have hinv : WindowInv W (v.dispatch pc inst) := by
        refine ⟨withinWindow_cons.mpr ⟨?_, h.within⟩, h.spec, ?_⟩
        · intro q hq
          have : q ∈ dispatchedPaths (v.dispatch pc inst).log := hq
          simp [hp'] at this
        · rw [hp']
          show Frames W _ [] v.checkpoints
          simp [hcs, Frames]
      exact ⟨hinv.toRoll, fun _ => hinv, fun _ => hinv⟩
  | inr hin =>
      obtain ⟨c, cs, p, ps, hcs, hspec, hp, hW, hw, hf⟩ := hin
      have hp' : dispatchedPaths (v.dispatch pc inst).log = (pc :: p) :: ps := by
        simp [View.dispatch, dispatchedPaths, hp]
      have hwithin : WithinWindow W (v.dispatch pc inst).log := by
        refine withinWindow_cons.mpr ⟨?_, h.within⟩
        intro q hq
        have hq' : q ∈ (pc :: p) :: ps := hp' ▸ hq
        cases List.mem_cons.mp hq' with
        | inl heq =>
            subst q
            exact Nat.succ_le_succ hW
        | inr hq => exact frames_length hf q hq
      refine ⟨⟨hwithin, h.spec, ?_⟩, fun hn => absurd hspec (by simp [hn]), fun hlt => ?_⟩
      · intro c' cs' hcs'
        have heq : c :: cs = c' :: cs' := hcs.symm.trans hcs'
        simp only [List.cons.injEq] at heq
        rw [hp', ← heq.1, ← heq.2]
        exact hf
      · refine ⟨hwithin, h.spec, ?_⟩
        rw [hp']
        show Frames W (if v.inSpeculation then v.speculationWindow + 1 else v.speculationWindow)
          ((pc :: p) :: ps) v.checkpoints
        rw [hcs, if_pos hspec]
        exact ⟨by simp only [List.length_cons]; omega, by simp only [List.length_cons]; omega, hf⟩

theorem withinWindow_opened {W : Nat} {v : View} (h : WithinWindow W v.log) (pc : Nat) (inst : Inst)
    (c : Checkpoint) (included : Bool) (ms : MacroState)
    (hp : ∀ p ∈ dispatchedPaths (v.opened pc inst c included ms).log, p.length ≤ W + 1) :
    WithinWindow W (v.opened pc inst c included ms).log := by
  cases included with
  | false => exact withinWindow_cons.mpr ⟨hp, h⟩
  | true =>
      have hexec : WithinWindow W (.execute pc inst :: v.log) :=
        withinWindow_cons.mpr ⟨h v.log List.suffix_rfl, h⟩
      exact withinWindow_cons.mpr ⟨hp, hexec⟩

/-- With a checkpoint: the level outside must be able to go on from the resumption point. -/
theorem window_hook_opened {W : Nat} {v : View} (h : WindowInv W v) (pc : Nat) (inst : Inst)
    {c : Checkpoint} (hc : c.specWindow = (v.dispatch pc inst).speculationWindow) (included : Bool)
    (ms : MacroState) (hincl : included = true → v.inSpeculation = true → v.speculationWindow + 1 ≤ W) :
    WindowRoll W ((v.dispatch pc inst).opened pc inst c included ms) ∧
    ((v.inSpeculation = true → v.speculationWindow + 1 ≤ W) →
      WindowInv W ((v.dispatch pc inst).opened pc inst c included ms)) := by
  have hwithin := (window_hook_plain h pc inst).1.within
  cases windowInv_cases h with
  | inl hout =>
      obtain ⟨hcs, hspec, hp⟩ := hout
      have hp' : dispatchedPaths ((v.dispatch pc inst).opened pc inst c included ms).log = [[]] := by
        cases included <;> simp [View.opened, View.dispatch, dispatchedPaths, hp]
      have hinv : WindowInv W ((v.dispatch pc inst).opened pc inst c included ms) := by
        refine ⟨withinWindow_opened hwithin pc inst c included ms ?_, rfl, ?_⟩
        · intro q hq
          rw [hp', List.mem_singleton] at hq
          simp [hq]
        · rw [hp']
          show Frames W _ [[]] (c :: v.checkpoints)
          rw [hcs]
          exact ⟨Nat.zero_le _, Nat.zero_le _, trivial⟩
      exact ⟨hinv.toRoll, fun _ => hinv⟩
  | inr hin =>
      obtain ⟨c₀, cs, p, ps, hcs, hspec, hp, hW, hw, hf⟩ := hin
      have hcw : c.specWindow = v.speculationWindow + 1 := by
        rw [hc]
        exact if_pos hspec
      -- the resumption point of the level outside
      obtain ⟨q, hq, hqW, hqw⟩ : ∃ q, dispatchedPaths
          ((v.dispatch pc inst).opened pc inst c included ms).log = (pc :: p) :: q :: ps ∧
          q.length ≤ W ∧ q.length ≤ c.specWindow := by
        cases included with
        | false =>
            exact ⟨p, by simp [View.opened, View.dispatch, dispatchedPaths, hp], hW, by omega⟩
        | true =>
            have := hincl rfl hspec
            refine ⟨pc :: p, by simp [View.opened, View.dispatch, dispatchedPaths, hp], ?_, ?_⟩ <;>
              simp only [List.length_cons] <;> omega
      have hframes : Frames W c.specWindow (q :: ps) v.checkpoints := by
        rw [hcs]
        exact ⟨hqW, hqw, hf⟩
      have hwithin' : WithinWindow W ((v.dispatch pc inst).opened pc inst c included ms).log := by
        apply withinWindow_opened hwithin
        intro x hx
        rw [hq] at hx
        cases List.mem_cons.mp hx with
        | inl heq =>
            subst x
            exact Nat.succ_le_succ hW
        | inr hx => exact frames_length hframes x hx
      refine ⟨⟨hwithin', rfl, ?_⟩, fun hlt => ⟨hwithin', rfl, ?_⟩⟩
      · intro c' cs' hcs'
        have heq : c :: v.checkpoints = c' :: cs' := hcs'
        simp only [List.cons.injEq] at heq
        rw [hq, ← heq.1, ← heq.2]
        exact hframes
      · have hlt := hlt hspec
        rw [hq]
        show Frames W (v.dispatch pc inst).speculationWindow _ (c :: v.checkpoints)
        rw [← hc]
        exact ⟨by simp only [List.length_cons]; omega, by simp only [List.length_cons]; omega,
          hframes⟩

theorem notExpired_of_stop {lim : Limits} {inst : Inst} {v : View}
    (h : stopRequested lim inst v = false) (hs : v.inSpeculation = true) :
    v.speculationWindow + 1 ≤ lim.maxSpecWindow := by
  simp only [stopRequested, hs, Bool.true_and, Bool.or_eq_false_iff, decide_eq_false_iff_not] at h
  omega

/-- The window is kept by every step that does not open a checkpoint at an expired branch. -/
theorem window_preserved (m : Setup) :
    m.Preserved (fun c => ¬m.ExpiredBranch c) (WindowInv m.lim.maxSpecWindow)
      (WindowRoll m.lim.maxSpecWindow) where
  toR _ h := h.toRoll
  access _ _ h := h.record rfl
  resume _ _ h := h.record rfl
  rollback _ _ h hr := windowInv_rollback h hr
  placeholder _ _ _ _ h := h.record rfl
  hook s pc size inst h hok hat hplace := by
    obtain ⟨hstop, hcases⟩ := m.hookAt_cases pc size inst s
    rw [hstop]
    have hplain := window_hook_plain h pc inst
    rcases hcases with ⟨hv, hi⟩ | ⟨hopens, ⟨c, ms, hc, hv⟩, hi, -⟩ | ⟨-, ⟨c, ms, hc, hv⟩, hi⟩
    · -- no checkpoint
      have hspec : (m.hookAt pc size inst s).st.inSpeculation = s.inSpeculation :=
        congrArg View.inSpeculation hv
      rw [hv, hi, hspec]
      refine ⟨hplain.1, hplain.2.1, fun hst => ?_⟩
      cases hs : s.inSpeculation with
      | false => exact (hplain.2.1 hs).record rfl
      | true => exact (hplain.2.2 (notExpired_of_stop hst hs)).record rfl
    · -- a branch opens a checkpoint that includes it
      have hlive : s.view.inSpeculation = true →
          s.view.speculationWindow + 1 ≤ m.lim.maxSpecWindow := by
        intro hs
        by_contra hlt
        exact hok ⟨pc, size, inst, rfl, hat, hplace, hs, by
          show m.lim.maxSpecWindow < s.view.speculationWindow + 1
          omega, hopens⟩
      have hspec : (m.hookAt pc size inst s).st.inSpeculation = true :=
        congrArg View.inSpeculation hv
      have hopened := window_hook_opened h pc inst hc true ms fun _ => hlive
      rw [hv, hi, hspec]
      exact ⟨hopened.1, fun hn => by simp at hn, fun _ => hopened.2 hlive⟩
    · -- a bypassed store opens a checkpoint before the instruction
      have hspec : (m.hookAt pc size inst s).st.inSpeculation = true :=
        congrArg View.inSpeculation hv
      have hopened := window_hook_opened h pc inst hc false ms fun hn => by simp at hn
      rw [hv, hi, hspec]
      exact ⟨hopened.1, fun hn => by simp at hn, fun hst =>
        (hopened.2 fun hs => notExpired_of_stop hst hs).record rfl⟩

/-- **The window bounds every speculative path.** In a run in which no conditional branch opens a
checkpoint after the window has expired, at most `W + 1` instructions are dispatched on any
speculative path. Store bypass never opens such a checkpoint. -/
theorem run_withinWindow (m : Setup) (em : Emulator) (targets : SwitchKey → Nat) (lstar n : Nat)
    (hok : ∀ k < n, ¬m.ExpiredBranch (m.run em targets lstar k)) :
    WithinWindow m.lim.maxSpecWindow (m.run em targets lstar n).2.log := by
  have hstart : WindowInv m.lim.maxSpecWindow (m.start em targets lstar).2.view := by
    refine ⟨fun l hl => ?_, rfl, trivial⟩
    rw [List.suffix_nil.mp hl]
    simp [dispatchedPaths]
  exact ((window_preserved m).roll_of_holds ((window_preserved m).holds_run hstart n hok)).within

/-! ### A chain of branches at the edge of the window -/

/-- `je +2` at every even address. -/
def branchMem : Mem := fun a => if a % 2 = 0 then 0x74 else 2

/-- Conditional jumps that are not taken, of two bytes each. -/
def branchUc : Uc where
  fetch _ _ := .ok 2
  exec em pc := ⟨[], .done em.reg (pc + 2)⟩

/-- A test case of jumps only, traced with nesting 2. -/
def branchChain (W : Nat) : Setup where
  uc := branchUc
  lim := ⟨.x86CondSpeculator, 2, W⟩
  dataStart := 65536
  codeStart := 0
  nActors := 1
  exitAddr := 256
  faultHandlerAddr := 256
  instruction _ _ := some ⟨"je", false, .unknown⟩
  functionTable := []
  macroTable := []
  privilegeLevel _ := some .kernel
  isAmd := false
  handledFaults _ := false
  softFault _ _ := none

def branchStart : Emulator := ⟨branchMem, fun _ => 2⟩

/-- With an empty window and nesting 2 the mispredicted path goes on through every further branch:
each opens a checkpoint in the hook that requested the stop, and is rolled back only to its own
successor. After five steps two instructions are on the path. -/
theorem branchChain_not_withinWindow :
    ¬WithinWindow (branchChain 0).lim.maxSpecWindow
      ((branchChain 0).run branchStart (fun _ => 0) 256 5).2.log := by
  intro h
  have hpath : [6, 4] ∈ dispatchedPaths ((branchChain 0).run branchStart (fun _ => 0) 256 5).2.log := by
    decide +kernel
  exact absurd (h _ List.suffix_rfl _ hpath) (by decide)

/-- The same test case within a window of 8. -/
theorem branchChain_withinWindow :
    (∀ k < 6, ¬(branchChain 8).ExpiredBranch ((branchChain 8).run branchStart (fun _ => 0) 256 k)) ∧
      WithinWindow 8 ((branchChain 8).run branchStart (fun _ => 0) 256 6).2.log := by
  have hlive : ∀ k < 6,
      ((branchChain 8).run branchStart (fun _ => 0) 256 k).2.speculationWindow < 8 := by
    decide +kernel
  have hok : ∀ k < 6,
      ¬(branchChain 8).ExpiredBranch ((branchChain 8).run branchStart (fun _ => 0) 256 k) := by
    rintro k hk ⟨pc, size, inst, -, -, -, -, hlt, -⟩
    have := hlive k hk
    have hW : (branchChain 8).lim.maxSpecWindow = 8 := rfl
    omega
  exact ⟨hok, run_withinWindow (branchChain 8) branchStart (fun _ => 0) 256 6 hok⟩

end Setup

end Rvzr.Unicorn
