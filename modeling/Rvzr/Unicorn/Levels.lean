import Mathlib.Logic.Function.Iterate
import Rvzr.Unicorn.StateMachine

/-!
The part of a state that speculation is about: the open checkpoints, the window and the log. A
predicate on this part is carried along a run by `Preserved`, which asks for one fact about each
of the places where the part changes: an access, a rollback and the hook of an instruction.
-/

namespace Rvzr.Unicorn

open Rvzr.Lib

/-! ### Method resolution -/

theorem owner_seq : SpeculatorCls.instructionOwner .seqSpeculator = .unicornSpeculator := by decide

theorem owner_cond : SpeculatorCls.instructionOwner .x86CondSpeculator = .x86CondSpeculator := by
  decide

theorem owner_bpas : SpeculatorCls.instructionOwner .storeBpasSpeculator = .storeBpasSpeculator := by
  decide

theorem owner_condBpas :
    SpeculatorCls.instructionOwner .x86CondBpasSpeculator = .storeBpasSpeculator := by decide

theorem memOwner_seq : SpeculatorCls.memAccessOwner .seqSpeculator = .unicornSpeculator := by decide

theorem memOwner_condBpas :
    SpeculatorCls.memAccessOwner .x86CondBpasSpeculator = .unicornSpeculator := by decide

/-! ### What happens outside speculation -/

/-- The number of open levels. -/
def depth : List Event → Nat
  | [] => 0
  | .checkpoint _ _ :: l => depth l + 1
  | .rollback :: l => depth l - 1
  | _ :: l => depth l

/-- An instruction that took effect, or a memory access. -/
inductive ArchEvent where
  | instruction (pc : Nat)
  | access (a : Access)
  deriving Repr, DecidableEq

def Event.arch : Event → Option ArchEvent
  | .execute pc _ => some (.instruction pc)
  | .access a => some (.access a)
  | _ => none

/-- The instructions and accesses outside speculation, newest first. -/
def archLog : List Event → List ArchEvent
  | [] => []
  | e :: l => if depth l = 0 then e.arch.toList ++ archLog l else archLog l

/-! ### Views -/

/-- What the speculator has open, and what has happened so far. -/
structure View where
  checkpoints : List Checkpoint
  inSpeculation : Bool
  speculationWindow : Nat
  log : List Event

def State.view (s : State) : View := ⟨s.checkpoints, s.inSpeculation, s.speculationWindow, s.log⟩

namespace View

def record (v : View) (e : Event) : View := { v with log := e :: v.log }

/-- The instruction is passed to the service modules; in speculation it is counted. -/
def dispatch (v : View) (pc : Nat) (inst : Inst) : View :=
  { v with
    speculationWindow := if v.inSpeculation then v.speculationWindow + 1 else v.speculationWindow
    log := .dispatch pc inst :: v.log }

/-- A checkpoint is opened in the hook of an instruction. -/
def opened (v : View) (pc : Nat) (inst : Inst) (c : Checkpoint) (included : Bool)
    (ms : MacroState) : View :=
  { v with
    checkpoints := c :: v.checkpoints
    inSpeculation := true
    log := .checkpoint included ms :: if included then .execute pc inst :: v.log else v.log }

def rollback (v : View) : Option View :=
  match v.checkpoints with
  | [] => none
  | c :: cs => some ⟨cs, v.inSpeculation && !cs.isEmpty, c.specWindow, .rollback :: v.log⟩

end View

@[simp] theorem view_record (s : State) (e : Event) : (s.record e).view = s.view.record e := rfl

@[simp] theorem view_setReg (s : State) (r : UcReg) (v : Nat) : (s.setReg r v).view = s.view := rfl

@[simp] theorem view_addToTrace (s : State) (e : CTraceEntry) : (s.addToTrace e).view = s.view := by
  unfold State.addToTrace
  split <;> rfl

@[simp] theorem inSpeculation_addToTrace (s : State) (e : CTraceEntry) :
    (s.addToTrace e).inSpeculation = s.inSpeculation := by
  unfold State.addToTrace
  split <;> rfl

theorem rollback_view {s s' : State} {pc : Nat} (h : rollback s = some (pc, s')) :
    s.view.rollback = some s'.view := by
  unfold rollback at h
  unfold View.rollback State.view
  cases hc : s.checkpoints with
  | nil => simp [hc] at h
  | cons c cs =>
      simp only [hc, Option.some.injEq, Prod.mk.injEq] at h
      obtain ⟨-, rfl⟩ := h
      rfl

namespace Setup

variable {m : Setup}

/-! ### Where the view does not change -/

/-- A hook with the same speculator, the same memory and the same requests to the emulator, up to
a new jump. -/
structure SameHook (h h' : Hook) : Prop where
  view : h'.st.view = h.st.view
  stop : h'.stop = h.stop
  included : h'.included = h.included
  jump : h.jump.isSome → h'.jump.isSome
  mem : h'.st.mem = h.st.mem
  storeLogs : h'.st.storeLogs = h.st.storeLogs
  previousStore : h'.st.previousStore = h.st.previousStore
  previousContext : h'.st.previousContext = h.st.previousContext
  hadArchFault : h'.st.hadArchFault = h.st.hadArchFault

theorem view_patchContext (context : UcReg → Nat) (s : State) :
    (m.patchContext context s).view = s.view :=
  view_addToTrace { s with reg := context } _

/-- The interpreter leaves the view alone. -/
def Interpreted.Keeps (h : Hook) : Interpreted → Prop
  | .ok h' => SameHook h h'
  | .fault _ h' => SameHook h h'
  | .crash => True

theorem SameHook.refl (h : Hook) : SameHook h h := ⟨rfl, rfl, rfl, id, rfl, rfl, rfl, rfl, rfl⟩

theorem switchTo_keeps (target sid : Nat) (h : Hook) : (m.switchTo target sid h).Keeps h := by
  unfold switchTo
  split
  · trivial
  · exact ⟨rfl, rfl, rfl, fun _ => rfl, rfl, rfl, rfl, rfl, rfl⟩

theorem setTarget_keeps (key : SwitchKey) (sid fid : Nat) (h : Hook) :
    (m.setTarget key sid fid h).Keeps h := by
  unfold setTarget
  split
  · exact .refl h
  · exact ⟨rfl, rfl, rfl, id, rfl, rfl, rfl, rfl, rfl⟩

theorem clobberRax_keeps {h : Hook} {r : Interpreted} (hr : r.Keeps h) :
    (m.clobberRax r).Keeps h := by
  cases r with
  | ok h' =>
      unfold clobberRax
      by_cases ha : m.isAmd = true
      · simp only [ha, if_true]
        exact ⟨hr.view, hr.stop, hr.included, hr.jump, hr.mem, hr.storeLogs, hr.previousStore,
          hr.previousContext, hr.hadArchFault⟩
      · simp only [ha]
        exact hr
  | fault e h' => exact hr
  | crash => trivial

theorem macroCallback_keeps (name : MacroName) (sid fid : Nat) (h : Hook) :
    (m.macroCallback name sid fid h).Keeps h := by
  cases name with
  | measurementStart | measurementEnd =>
      simp only [macroCallback]
      split
      · exact .refl h
      · exact ⟨rfl, rfl, rfl, id, rfl, rfl, rfl, rfl, rfl⟩
  | switch =>
      simp only [macroCallback]
      split
      · exact .refl h
      · exact switchTo_keeps _ _ h
  | switchK2u | switchU2k => exact switchTo_keeps _ _ h
  | switchG2h => exact clobberRax_keeps (switchTo_keeps _ _ h)
  | switchH2g =>
      apply clobberRax_keeps
      have hk := switchTo_keeps (m := m) (h.st.currTargets .h2g) sid
        { h with st := h.st.setReg .eflags 2 }
      cases hr : m.switchTo (h.st.currTargets .h2g) sid { h with st := h.st.setReg .eflags 2 } with
      | ok h' =>
          rw [hr] at hk
          exact ⟨hk.view, hk.stop, hk.included, hk.jump, hk.mem, hk.storeLogs, hk.previousStore,
            hk.previousContext, hk.hadArchFault⟩
      | fault e h' =>
          rw [hr] at hk
          exact ⟨hk.view, hk.stop, hk.included, hk.jump, hk.mem, hk.storeLogs, hk.previousStore,
            hk.previousContext, hk.hadArchFault⟩
      | crash => trivial
  | setK2uTarget | setH2gTarget | setG2hTarget => exact setTarget_keeps _ _ _ h
  | setU2kTarget =>
      simp only [macroCallback]
      split
      · exact .refl h
      · split
        · exact .refl h
        · exact ⟨rfl, rfl, rfl, id, rfl, rfl, rfl, rfl, rfl⟩
  | landingK2u | landingU2k => exact ⟨rfl, rfl, rfl, id, rfl, rfl, rfl, rfl, rfl⟩
  | landingH2g | landingG2h | setDataPermissions | faultHandler | unknown => exact .refl h

theorem interpretInstruction_keeps (pc : Nat) (inst : Inst) (h : Hook) :
    (m.interpretInstruction pc inst h).Keeps h := by
  have hmac : (if inst.name = "macro" then m.interpretMacro pc inst h else .ok h).Keeps h := by
    split
    · unfold interpretMacro
      split
      · exact .refl h
      · exact macroCallback_keeps _ _ _ h
    · exact .refl h
  unfold interpretInstruction
  revert hmac
  generalize (if inst.name = "macro" then m.interpretMacro pc inst h else .ok h) = r
  intro hmac
  cases r with
  | ok h' =>
      simp only
      split
      · exact hmac
      · exact hmac
  | fault e h' => exact hmac
  | crash => trivial

theorem bpasMemAccess_view {s s' : State} {a : Access} (h : bpasMemAccess s a = some s') :
    s'.view = s.view := by
  unfold bpasMemAccess at h
  cases a with
  | write address bytes =>
      simp only at h
      split at h
      · simp only [Option.some.injEq] at h
        subst s'
        rfl
      · split at h
        · simp only [Option.some.injEq] at h
          rw [h]
        · simp at h
  | read | unmapped =>
      simp only [Option.some.injEq] at h
      rw [h]

theorem handleMemAccess_view {lim : Limits} {s s' : State} {a : Access}
    (h : handleMemAccess lim s a = some s') : s'.view = s.view := by
  have hlog : (logStore s a).view = s.view := by
    cases a <;> rfl
  unfold handleMemAccess speculateMemAccess at h
  split at h
  · rw [bpasMemAccess_view h, hlog]
  · simp only [Option.some.injEq] at h
    rw [← h, hlog]

theorem memAccessDispatch_view {inst : Inst} {s s' : State} {a : Access}
    (h : m.memAccessDispatch inst s a = some s') :
    s'.view = s.view ∨ s'.view = s.view.record (.access a) := by
  unfold memAccessDispatch at h
  split at h
  · simp only [Option.some.injEq] at h
    exact .inl (by rw [h])
  · obtain ⟨s₁, hs₁, rfl⟩ := Option.map_eq_some_iff.mp h
    right
    rw [view_addToTrace, view_record, handleMemAccess_view hs₁]

theorem performAccess_view {inst : Inst} {s s' : State} {a : Access}
    (h : m.performAccess inst s a = some s') :
    s'.view = s.view ∨ s'.view = s.view.record (.access a) := by
  obtain ⟨s₁, hs₁, rfl⟩ := Option.map_eq_some_iff.mp h
  have hview := memAccessDispatch_view hs₁
  cases a <;> exact hview

/-! ### The hook of an instruction -/

/-- The hook that an instruction reaches in a step. -/
def hookAt (m : Setup) (pc size : Nat) (inst : Inst) (s : State) : Hook :=
  m.instructionHook pc size inst { s with previousContext := some s.reg }

/-- The hook before the speculator acts. -/
def countedAt (m : Setup) (pc : Nat) (inst : Inst) (s : State) : Hook :=
  countInstruction m.lim inst
    ⟨({ s with previousContext := some s.reg }.record (.dispatch pc inst)).addToTrace (.pc pc),
      false, none, false⟩

theorem hookAt_eq (m : Setup) (pc size : Nat) (inst : Inst) (s : State) :
    m.hookAt pc size inst s = speculateInstruction m.lim pc size inst (m.countedAt pc inst s) := rfl

/-- The speculator asks for a stop: a barrier, or the end of the window. -/
def stopRequested (lim : Limits) (inst : Inst) (v : View) : Bool :=
  v.inSpeculation && (inst.isBarrier || decide (lim.maxSpecWindow < v.speculationWindow + 1))

theorem addToTrace_rest (s : State) (e : CTraceEntry) : (s.addToTrace e).mem = s.mem ∧
    (s.addToTrace e).reg = s.reg ∧ (s.addToTrace e).previousStore = s.previousStore := by
  unfold State.addToTrace
  split
  · exact ⟨rfl, rfl, rfl⟩
  · exact ⟨rfl, rfl, rfl⟩

theorem countInstruction_spec (lim : Limits) (inst : Inst) (h : Hook) :
    (countInstruction lim inst h).st.view =
      { h.st.view with speculationWindow := if h.st.view.inSpeculation then
          h.st.view.speculationWindow + 1 else h.st.view.speculationWindow } ∧
    (countInstruction lim inst h).stop = (h.stop || stopRequested lim inst h.st.view) ∧
    (countInstruction lim inst h).included = h.included ∧
    (countInstruction lim inst h).jump = h.jump ∧
    (countInstruction lim inst h).st.mem = h.st.mem ∧
    (countInstruction lim inst h).st.reg = h.st.reg ∧
    (countInstruction lim inst h).st.previousStore = h.st.previousStore := by
  unfold countInstruction stopRequested State.view
  dsimp only
  cases hs : h.st.inSpeculation with
  | true =>
    rw [if_pos rfl, if_pos rfl, Bool.true_and, Bool.or_assoc]
    exact ⟨rfl, rfl, rfl, rfl, rfl, rfl, rfl⟩
  | false =>
    rw [if_neg Bool.false_ne_true, if_neg Bool.false_ne_true, Bool.false_and, Bool.or_false, hs]
    exact ⟨rfl, rfl, rfl, rfl, rfl, rfl, rfl⟩

/-- Up to the trace and the window, `countedAt` changes nothing but the view. -/
theorem countedAt_spec (m : Setup) (pc : Nat) (inst : Inst) (s : State) :
    (m.countedAt pc inst s).st.view = s.view.dispatch pc inst ∧
    (m.countedAt pc inst s).stop = stopRequested m.lim inst s.view ∧
    (m.countedAt pc inst s).included = false ∧ (m.countedAt pc inst s).jump = none ∧
    (m.countedAt pc inst s).st.mem = s.mem ∧ (m.countedAt pc inst s).st.reg = s.reg ∧
    (m.countedAt pc inst s).st.previousStore = s.previousStore := by
  obtain ⟨hview, hstop, hincluded, hjump, hmem, hreg, hprev⟩ := countInstruction_spec m.lim inst
    ⟨({ s with previousContext := some s.reg }.record (.dispatch pc inst)).addToTrace (.pc pc),
      false, none, false⟩
  obtain ⟨hmem', hreg', hprev'⟩ := addToTrace_rest
    ({ s with previousContext := some s.reg }.record (.dispatch pc inst)) (.pc pc)
  rw [view_addToTrace] at hview hstop
  rw [Bool.false_or] at hstop
  exact ⟨hview, hstop, hincluded, hjump, hmem.trans hmem', hreg.trans hreg', hprev.trans hprev'⟩

/-- The branch misprediction opens a checkpoint at this instruction. -/
def OpensCond (m : Setup) (pc size : Nat) (s : State) : Prop :=
  m.lim.cls.instructionOwner = .x86CondSpeculator ∧ maxNestingReached m.lim s = false ∧ size ≤ 15 ∧
    (decode (s.mem.read pc size) (s.reg .eflags) (s.reg .rcx)).1 ≠ 0

/-- The store bypass opens a checkpoint at this instruction. -/
def OpensBpas (m : Setup) (s : State) : Prop :=
  m.lim.cls.instructionOwner = .storeBpasSpeculator ∧ maxNestingReached m.lim s = false ∧
    s.previousStore ≠ none

theorem condInstruction_cases (lim : Limits) (pc size : Nat) (inst : Inst) (h : Hook) :
    condInstruction lim pc size inst h = h ∨
    (maxNestingReached lim h.st = false ∧ size ≤ 15 ∧
      (decode (h.st.mem.read pc size) (h.st.reg .eflags) (h.st.reg .rcx)).1 ≠ 0 ∧
      (condInstruction lim pc size inst h).stop = h.stop ∧
      (∃ c ms, c.specWindow = h.st.view.speculationWindow ∧
        (condInstruction lim pc size inst h).st.view = h.st.view.opened pc inst c true ms) ∧
      (condInstruction lim pc size inst h).included = true ∧
      (condInstruction lim pc size inst h).jump.isSome) := by
  unfold condInstruction
  split
  · exact .inl rfl
  · rename_i hmax
    split
    · exact .inl rfl
    · rename_i hsize
      simp only
      split
      · exact .inl rfl
      · rename_i hdec
        refine .inr ⟨by simpa using hmax, by omega, hdec, rfl, ?_, rfl, rfl⟩
        by_cases hl : (decode (h.st.mem.read pc size) (h.st.reg .eflags) (h.st.reg .rcx)).2.2 = true
        · simp only [hl, if_true]
          exact ⟨_, _, rfl, rfl⟩
        · simp only [hl]
          exact ⟨_, _, rfl, rfl⟩

theorem bpasInstruction_cases (lim : Limits) (pc : Nat) (inst : Inst) (h : Hook) :
    ((bpasInstruction lim pc inst h).stop = h.stop ∧
      (bpasInstruction lim pc inst h).st.view = h.st.view ∧
      (bpasInstruction lim pc inst h).included = h.included) ∨
    (maxNestingReached lim h.st = false ∧ h.st.previousStore ≠ none ∧
      (bpasInstruction lim pc inst h).stop = h.stop ∧
      (∃ c ms, c.specWindow = h.st.view.speculationWindow ∧
        (bpasInstruction lim pc inst h).st.view = h.st.view.opened pc inst c false ms) ∧
      (bpasInstruction lim pc inst h).included = false) := by
  unfold bpasInstruction
  split
  · exact .inl ⟨rfl, rfl, rfl⟩
  · rename_i hmax
    split
    · exact .inl ⟨rfl, rfl, rfl⟩
    · rename_i p hp
      exact .inr ⟨by simpa using hmax, by simp [hp], rfl, ⟨_, _, rfl, rfl⟩, rfl⟩

/-- What the hook does to the view: it counts the instruction and opens at most one checkpoint. -/
theorem hookAt_cases (m : Setup) (pc size : Nat) (inst : Inst) (s : State) :
    (m.hookAt pc size inst s).stop = stopRequested m.lim inst s.view ∧
    (((m.hookAt pc size inst s).st.view = s.view.dispatch pc inst ∧
        (m.hookAt pc size inst s).included = false) ∨
      (m.OpensCond pc size s ∧ (∃ c ms, c.specWindow = (s.view.dispatch pc inst).speculationWindow ∧
        (m.hookAt pc size inst s).st.view = (s.view.dispatch pc inst).opened pc inst c true ms) ∧
        (m.hookAt pc size inst s).included = true ∧ (m.hookAt pc size inst s).jump.isSome) ∨
      (m.OpensBpas s ∧ (∃ c ms, c.specWindow = (s.view.dispatch pc inst).speculationWindow ∧
        (m.hookAt pc size inst s).st.view = (s.view.dispatch pc inst).opened pc inst c false ms) ∧
        (m.hookAt pc size inst s).included = false)) := by
  obtain ⟨hview, hstop, hincl, -, hmem, hreg, hpend⟩ := m.countedAt_spec pc inst s
  have hcp : (m.countedAt pc inst s).st.checkpoints = s.checkpoints :=
    congrArg View.checkpoints hview
  have hmax : maxNestingReached m.lim (m.countedAt pc inst s).st = maxNestingReached m.lim s := by
    rw [maxNestingReached, maxNestingReached, hcp]
  rw [hookAt_eq]
  generalize m.countedAt pc inst s = h at hview hstop hincl hmem hreg hpend hmax
  unfold speculateInstruction
  split
  · rename_i howner
    cases condInstruction_cases m.lim pc size inst h with
    | inl hno =>
        rw [hno]
        exact ⟨hstop, .inl ⟨hview, hincl⟩⟩
    | inr hopen =>
        obtain ⟨hn, hsize, hdec, hst, ⟨c, ms, hc, hv⟩, hi, hj⟩ := hopen
        rw [hmem, hreg] at hdec
        rw [hview] at hc hv
        exact ⟨hst.trans hstop, .inr (.inl ⟨⟨howner, hmax ▸ hn, hsize, hdec⟩, ⟨c, ms, hc, hv⟩, hi, hj⟩)⟩
  · rename_i howner
    cases bpasInstruction_cases m.lim pc inst h with
    | inl hno =>
        exact ⟨hno.1.trans hstop, .inl ⟨hno.2.1.trans hview, hno.2.2.trans hincl⟩⟩
    | inr hopen =>
        obtain ⟨hn, hp, hst, ⟨c, ms, hc, hv⟩, hi⟩ := hopen
        rw [hview] at hc hv
        exact ⟨hst.trans hstop, .inr (.inr ⟨⟨howner, hmax ▸ hn, hpend ▸ hp⟩, ⟨c, ms, hc, hv⟩, hi⟩)⟩
  · exact ⟨hstop, .inl ⟨hview, hincl⟩⟩

/-- The effects of an instruction are in a checkpoint only if the hook makes the emulator jump. -/
theorem included_jump (m : Setup) (pc size : Nat) (inst : Inst) (s : State)
    (h : (m.hookAt pc size inst s).included) : (m.hookAt pc size inst s).jump.isSome := by
  obtain ⟨-, ⟨-, hi⟩ | ⟨-, -, -, hj⟩ | ⟨-, -, hi⟩⟩ := m.hookAt_cases pc size inst s
  · simp [hi] at h
  · exact hj
  · simp [hi] at h

/-! ### The rule for invariants -/

/-- The emulator is at an instruction that the model knows. -/
structure AtInstruction (m : Setup) (pc size : Nat) (inst : Inst) (s : State) : Prop where
  notEnd : pc ≠ m.codeEnd
  fetch : m.uc.fetch s.mem pc = .ok size
  notExit : m.isExitAddr s pc = false
  found : m.instructionAt s.currentActor pc = some inst

/-- `I` holds between the steps of a run whose configurations meet `ok`; `R` holds where a run ends
and where it rolls back. -/
structure Preserved (m : Setup) (ok : Mode × State → Prop) (I R : View → Prop) : Prop where
  toR : ∀ v, I v → R v
  access : ∀ v a, I v → I (v.record (.access a))
  resume : ∀ v ms, I v → I (v.record (.resume ms))
  rollback : ∀ v v', R v → v.rollback = some v' → I v'
  placeholder : ∀ v pc inst, inst.isMacroPlaceholder = true → I v → I (v.record (.execute pc inst))
  hook : ∀ s pc size inst, I s.view → ok (.emu pc, s) → m.AtInstruction pc size inst s →
    inst.isMacroPlaceholder = false →
    R (m.hookAt pc size inst s).st.view ∧
    ((m.hookAt pc size inst s).st.inSpeculation = false → I (m.hookAt pc size inst s).st.view) ∧
    ((m.hookAt pc size inst s).stop = false →
      I (if (m.hookAt pc size inst s).included then (m.hookAt pc size inst s).st.view
        else (m.hookAt pc size inst s).st.view.record (.execute pc inst)))

/-- What holds of a configuration: `I` while the run goes on, `R` when it is over. -/
def Holds (I R : View → Prop) : Mode × State → Prop
  | (.loop _, s) => I s.view
  | (.emu _, s) => I s.view
  | (.returned, s) => R s.view
  | (.crashed, s) => R s.view

namespace Preserved

variable {ok : Mode × State → Prop} {I R : View → Prop}

theorem holds_rollbackStep (hp : Preserved m ok I R) {s : State} (h : R s.view) :
    Holds I R (rollbackStep s) := by
  unfold rollbackStep
  cases hr : Unicorn.rollback s with
  | none => exact h
  | some r => exact hp.rollback _ _ h (rollback_view hr)

theorem holds_afterStop (hp : Preserved m ok I R) {s : State} (h : R s.view) :
    Holds I R (afterStop s) := by
  unfold afterStop
  split
  · exact hp.holds_rollbackStep h
  · exact h

theorem holds_handleFault (hp : Preserved m ok I R) {s : State} (errno : Nat) (h : R s.view)
    (hI : s.inSpeculation = false → I s.view) : Holds I R (m.handleFault errno s) := by
  unfold handleFault
  split
  · exact hp.holds_rollbackStep h
  · rename_i hs
    split
    · exact h
    · split
      · split
        · exact hI (by simpa using hs)
        · exact h
      · exact h

theorem holds_afterFault (hp : Preserved m ok I R) {s : State} (errno : Nat) (h : R s.view)
    (hI : s.inSpeculation = false → I s.view) : Holds I R (m.afterFault errno s) := by
  unfold afterFault
  cases s.previousContext with
  | none => exact h
  | some context =>
      simp only
      apply hp.holds_handleFault
      · rw [view_patchContext]
        exact h
      · intro hs
        rw [view_patchContext]
        exact hI (by simpa [patchContext] using hs)

theorem access_of_view (hp : Preserved m ok I R) {v v' : View} {a : Access}
    (h : v' = v ∨ v' = v.record (.access a)) (hI : I v) : I v' := by
  cases h with
  | inl h => exact h ▸ hI
  | inr h => exact h ▸ hp.access v a hI

theorem performAll (hp : Preserved m ok I R) (inst : Inst) {as : List Access} {s s' : State}
    (h : as.foldlM (m.performAccess inst) s = some s') (hI : I s.view) : I s'.view := by
  induction as generalizing s with
  | nil =>
      have hs : s = s' := Option.some.inj h
      exact hs ▸ hI
  | cons a as ih =>
      rw [List.foldlM_cons] at h
      obtain ⟨s₁, hs₁, h⟩ := Option.bind_eq_some_iff.mp h
      exact ih h (hp.access_of_view (performAccess_view hs₁) hI)

theorem holds_afterExec (hp : Preserved m ok I R) {s : State} (inst : Inst) (o : Outcome)
    (hI : I s.view) : Holds I R (m.afterExec inst s o) := by
  unfold afterExec
  split
  · exact hI
  · exact hp.holds_afterFault _ (hp.toR _ hI) fun _ => hI
  · split
    · exact hp.toR _ hI
    · rename_i hd
      have hI' := hp.access_of_view (memAccessDispatch_view hd) hI
      exact hp.holds_afterFault _ (hp.toR _ hI') fun _ => hI'

theorem holds_execute (hp : Preserved m ok I R) {s : State} {pc : Nat} {inst : Inst} (h : R s.view)
    (hI : I (s.view.record (.execute pc inst))) : Holds I R (m.execute pc inst s) := by
  unfold execute
  split
  · exact h
  · rename_i hs
    exact hp.holds_afterExec inst _ (hp.performAll inst hs hI)

theorem holds_afterHook (hp : Preserved m ok I R) {s : State} {pc : Nat} {inst : Inst} {h : Hook}
    {r : Interpreted} (hr : r.Keeps h) (hs : R s.view) (hR : R h.st.view)
    (hI : h.st.inSpeculation = false → I h.st.view)
    (hjump : h.included → h.jump.isSome)
    (hgo : h.stop = false →
      I (if h.included then h.st.view else h.st.view.record (.execute pc inst))) :
    Holds I R (m.afterHook pc inst r s) := by
  cases r with
  | crash => exact hs
  | fault errno h' =>
      have hv : h'.st.view = h.st.view := hr.view
      have hspec : h'.st.inSpeculation = h.st.inSpeculation := congrArg View.inSpeculation hv
      exact hp.holds_afterFault errno (hv ▸ hR) fun hn => by rw [hv]; exact hI (hspec ▸ hn)
  | ok h' =>
      have hv := hr.view
      have hstop := hr.stop
      have hincl := hr.included
      simp only [afterHook]
      split
      · exact hp.holds_afterStop (hv ▸ hR)
      · rename_i hst
        have hgo' := hgo (by rw [← hstop]; simpa using hst)
        rw [← hincl] at hgo'
        split
        · show I (if h'.included then h'.st else h'.st.record (.execute pc inst)).view
          by_cases hi : h'.included = true
          · rw [if_pos hi] at hgo' ⊢
            rwa [hv]
          · rw [if_neg hi] at hgo' ⊢
            rwa [view_record, hv]
        · rename_i hj
          have hi : ¬h'.included = true := by
            intro hi
            have hsome := hr.jump (hjump (hincl ▸ hi))
            simp [hj] at hsome
          rw [if_neg hi, ← hv] at hgo'
          exact hp.holds_execute (hv ▸ hR) hgo'

theorem holds_emuStep (hp : Preserved m ok I R) {s : State} {pc : Nat} (hI : I s.view)
    (hok : ok (.emu pc, s)) : Holds I R (m.emuStep pc s) := by
  have hR := hp.toR _ hI
  unfold emuStep
  split
  · exact hp.holds_afterStop hR
  · rename_i hend
    split
    · exact hp.holds_afterFault _ hR fun _ => hI
    · rename_i size hfetch
      split
      · exact hp.holds_afterStop hR
      · rename_i hexit
        split
        · exact hR
        · rename_i inst hinst
          simp only
          split
          · rename_i hplace
            exact hp.holds_execute hR (hp.placeholder _ pc inst hplace hI)
          · rename_i hplace
            have hat : m.AtInstruction pc size inst s := ⟨hend, hfetch, by simpa using hexit, hinst⟩
            have hhook := hp.hook s pc size inst hI hok hat (by simpa using hplace)
            exact hp.holds_afterHook (interpretInstruction_keeps pc inst _) hR hhook.1 hhook.2.1
              (m.included_jump pc size inst s) hhook.2.2

theorem holds_loopStep (hp : Preserved m ok I R) {s : State} {pc : Nat} (hI₀ : I s.view) :
    Holds I R (m.loopStep pc s) := by
  have hI := hp.resume s.view
    { s with currentActor := m.codeAddrToActorId pc }.macroState hI₀
  have hR := hp.toR _ hI
  unfold loopStep
  simp only
  split
  · split
    · exact hp.holds_rollbackStep hR
    · exact hR
  · split
    · exact hp.holds_rollbackStep hR
    · exact hI

/-- One step. -/
theorem holds_step (hp : Preserved m ok I R) {c : Mode × State} (h : Holds I R c) (hok : ok c) :
    Holds I R (m.step c) := by
  obtain ⟨mode, s⟩ := c
  cases mode with
  | loop pc => exact hp.holds_loopStep h
  | emu pc => exact hp.holds_emuStep h hok
  | returned => exact h
  | crashed => exact h

/-- A whole run. -/
theorem holds_run (hp : Preserved m ok I R) {em : Emulator} {targets : SwitchKey → Nat}
    {lstar : Nat} (hstart : I (m.start em targets lstar).2.view) (n : Nat)
    (hok : ∀ k < n, ok (m.run em targets lstar k)) : Holds I R (m.run em targets lstar n) := by
  induction n with
  | zero => exact hstart
  | succ n ih =>
      rw [run, Function.iterate_succ_apply']
      exact hp.holds_step (ih fun k hk => hok k (by omega)) (hok n (by omega))

/-- What holds where a run ends holds everywhere. -/
theorem roll_of_holds (hp : Preserved m ok I R) {c : Mode × State} (h : Holds I R c) :
    R c.2.view := by
  obtain ⟨mode, s⟩ := c
  cases mode with
  | loop pc => exact hp.toR _ h
  | emu pc => exact hp.toR _ h
  | returned => exact h
  | crashed => exact h

end Preserved

/-! ### Pending stores

Only the store bypass notes stores; without it none is ever pending. -/

theorem checkpoint_previousStore (pc : Nat) (inst : Inst) (next : Nat) (included : Bool) (h : Hook) :
    (checkpoint pc inst next included h).st.previousStore = h.st.previousStore := by
  cases included <;> rfl

theorem condInstruction_previousStore (lim : Limits) (pc size : Nat) (inst : Inst) (h : Hook) :
    (condInstruction lim pc size inst h).st.previousStore = h.st.previousStore := by
  unfold condInstruction
  split
  · rfl
  · split
    · rfl
    · simp only
      split
      · rfl
      · rw [checkpoint_previousStore]
        split <;> rfl

theorem bpasInstruction_previousStore (lim : Limits) (pc : Nat) (inst : Inst) (h : Hook) :
    (bpasInstruction lim pc inst h).st.previousStore = none := by
  unfold bpasInstruction
  split
  · rfl
  · split
    · assumption
    · rfl

theorem addToTrace_previousStore (s : State) (e : CTraceEntry) :
    (s.addToTrace e).previousStore = s.previousStore := by
  unfold State.addToTrace
  split <;> rfl

theorem hookAt_previousStore (pc size : Nat) (inst : Inst) {s : State}
    (h : s.previousStore = none) : (m.hookAt pc size inst s).st.previousStore = none := by
  have hc := (m.countedAt_spec pc inst s).2.2.2.2.2.2
  rw [hookAt_eq]
  unfold speculateInstruction
  split
  · rw [condInstruction_previousStore, hc, h]
  · exact bpasInstruction_previousStore _ _ _ _
  · rw [hc, h]

section NoPending

variable (hm : m.lim.cls.memAccessOwner ≠ .storeBpasSpeculator)

include hm

theorem handleMemAccess_eq (s : State) (a : Access) :
    handleMemAccess m.lim s a = some (logStore s a) := by
  unfold handleMemAccess speculateMemAccess
  split
  · rename_i h
    exact absurd h hm
  · rfl

theorem memAccessDispatch_previousStore {inst : Inst} {s s' : State} {a : Access}
    (h : m.memAccessDispatch inst s a = some s') : s'.previousStore = s.previousStore := by
  unfold memAccessDispatch at h
  split at h
  · exact (Option.some.inj h) ▸ rfl
  · rw [handleMemAccess_eq hm, Option.map_some, Option.some.injEq] at h
    rw [← h, addToTrace_previousStore]
    cases a <;> rfl

theorem performAll_previousStore {inst : Inst} {as : List Access} {s s' : State}
    (h : as.foldlM (m.performAccess inst) s = some s') : s'.previousStore = s.previousStore := by
  induction as generalizing s with
  | nil => exact (Option.some.inj h) ▸ rfl
  | cons a as ih =>
      rw [List.foldlM_cons] at h
      obtain ⟨s₁, hs₁, h⟩ := Option.bind_eq_some_iff.mp h
      obtain ⟨s₂, hs₂, rfl⟩ := Option.map_eq_some_iff.mp hs₁
      rw [ih h, ← memAccessDispatch_previousStore hm hs₂]
      cases a <;> rfl

end NoPending

end Setup

end Rvzr.Unicorn
