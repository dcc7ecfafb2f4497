import Rvzr.Unicorn.Sequential

/-!
What a rollback restores. The store logs of the open levels undo the memory back to where the
outermost level was opened; its checkpoint has the registers. The macro state is in no checkpoint:
the current actor is recomputed from the restart address, and the rest comes back only if nothing
in speculation changes it.
-/

namespace Rvzr.Unicorn

open Rvzr.Lib

/-! ### Snapshots in the log -/

/-- The macro states that the open levels were opened in, innermost first. -/
def snapshots : List Event → List MacroState
  | [] => []
  | .checkpoint _ ms :: l => ms :: snapshots l
  | .rollback :: l => (snapshots l).tail
  | _ :: l => snapshots l

/-- After every rollback the run goes on in the macro state of the checkpoint. -/
def Restored : List Event → Prop
  | [] => True
  | e :: l =>
    (∀ l', l = .rollback :: l' → ∃ ms, e = .resume ms ∧ (snapshots l').head? = some ms) ∧ Restored l

/-- No rollback is waiting for the run to go on. -/
def Settled (l : List Event) : Prop := Restored l ∧ ∀ l', l ≠ .rollback :: l'

theorem Settled.restored_cons {l : List Event} (h : Settled l) (e : Event) : Restored (e :: l) :=
  ⟨fun l' hl => absurd hl (h.2 l'), h.1⟩

theorem Settled.cons {l : List Event} (h : Settled l) {e : Event} (he : e ≠ .rollback) :
    Settled (e :: l) :=
  ⟨h.restored_cons e, fun _ hl => he (List.cons.inj hl).1⟩

theorem depth_eq (l : List Event) : depth l = (snapshots l).length := by
  induction l with
  | nil => rfl
  | cons e l ih =>
      cases e with
      | checkpoint included ms => simp [depth, snapshots, ih]
      | rollback => simp [depth, snapshots, ih]
      | _ => exact ih

theorem archLog_cons_out (e : Event) {l : List Event} (h : snapshots l = []) :
    archLog (e :: l) = e.arch.toList ++ archLog l := by
  rw [archLog, if_pos]
  rw [depth_eq, h]
  rfl

theorem archLog_cons_in (e : Event) {l : List Event} (h : snapshots l ≠ []) :
    archLog (e :: l) = archLog l := by
  rw [archLog, if_neg]
  rw [depth_eq]
  exact fun hl => h (List.eq_nil_of_length_eq_zero hl)

/-! ### Undoing the open levels -/

/-- The memory with all store logs undone, the innermost first. -/
def undoAll (mem : Mem) (logs : List (List (Nat × List UInt8))) : Mem := logs.foldl undo mem

@[simp] theorem undoAll_cons (mem : Mem) (l : List (Nat × List UInt8))
    (ls : List (List (Nat × List UInt8))) : undoAll mem (l :: ls) = undoAll (undo mem l) ls := rfl

/-- A logged store of at most eight bytes is undone by its entry. -/
theorem undoAll_store (mem : Mem) {address : Nat} {bytes : List UInt8} (h : bytes.length ≤ 8)
    {logs : List (List (Nat × List UInt8))} (hne : logs ≠ []) :
    undoAll (mem.write address bytes)
        (logs.modifyHead fun l => (address, mem.read address 8) :: l) = undoAll mem logs := by
  cases logs with
  | nil => exact absurd rfl hne
  | cons l ls =>
      show undoAll (undo ((mem.write address bytes).write address (mem.read address 8)) l) ls = _
      rw [write_undo mem h]
      rfl

/-- So is a store that is logged but not performed. -/
theorem undoAll_attempt (mem : Mem) (address : Nat) (logs : List (List (Nat × List UInt8))) :
    undoAll mem (logs.modifyHead fun l => (address, mem.read address 8) :: l)
      = undoAll mem logs := by
  cases logs with
  | nil => rfl
  | cons l ls =>
      show undoAll (undo (mem.write address (mem.read address 8)) l) ls = _
      rw [write_read_same]
      rfl

/-! ### What speculation may change outside -/

/-- The fields of a state that no instruction outside speculation depends on, once the context
before the instruction is known. -/
structure Shadow where
  previousContext : Option (UcReg → Nat)
  trace : List CTraceEntry
  speculationWindow : Nat
  previousStore : Option PendingStore
  log : List Event

def State.shadow (s : State) : Shadow :=
  ⟨s.previousContext, s.trace, s.speculationWindow, s.previousStore, s.log⟩

def State.withShadow (t : State) (g : Shadow) : State :=
  { t with
    previousContext := g.previousContext
    trace := g.trace
    speculationWindow := g.speculationWindow
    previousStore := g.previousStore
    log := g.log }

/-- The two states agree up to their shadows. -/
structure Alike (s t : State) : Prop where
  mem : s.mem = t.mem
  reg : s.reg = t.reg
  currentActor : s.currentActor = t.currentActor
  hadArchFault : s.hadArchFault = t.hadArchFault
  enableTracing : s.enableTracing = t.enableTracing
  checkpoints : s.checkpoints = t.checkpoints
  storeLogs : s.storeLogs = t.storeLogs
  inSpeculation : s.inSpeculation = t.inSpeculation
  currTargets : s.currTargets = t.currTargets
  pseudoLstar : s.pseudoLstar = t.pseudoLstar

theorem Alike.eq {s t : State} (h : Alike s t) : s = t.withShadow s.shadow := by
  unfold State.withShadow State.shadow
  rw [← h.mem, ← h.reg, ← h.currentActor, ← h.hadArchFault, ← h.enableTracing, ← h.checkpoints,
    ← h.storeLogs, ← h.inSpeculation, ← h.currTargets, ← h.pseudoLstar]

theorem alike_withShadow (t : State) (g : Shadow) : Alike (t.withShadow g) t :=
  ⟨rfl, rfl, rfl, rfl, rfl, rfl, rfl, rfl, rfl, rfl⟩

theorem Alike.symm {s t : State} (h : Alike s t) : Alike t s :=
  ⟨h.mem.symm, h.reg.symm, h.currentActor.symm, h.hadArchFault.symm, h.enableTracing.symm,
    h.checkpoints.symm, h.storeLogs.symm, h.inSpeculation.symm, h.currTargets.symm,
    h.pseudoLstar.symm⟩

theorem Alike.trans {s t u : State} (h : Alike s t) (h' : Alike t u) : Alike s u :=
  ⟨h.mem.trans h'.mem, h.reg.trans h'.reg, h.currentActor.trans h'.currentActor,
    h.hadArchFault.trans h'.hadArchFault, h.enableTracing.trans h'.enableTracing,
    h.checkpoints.trans h'.checkpoints, h.storeLogs.trans h'.storeLogs,
    h.inSpeculation.trans h'.inSpeculation, h.currTargets.trans h'.currTargets,
    h.pseudoLstar.trans h'.pseudoLstar⟩

theorem alike_addToTrace (t : State) (e : CTraceEntry) : Alike (t.addToTrace e) t := by
  unfold State.addToTrace
  split <;> exact ⟨rfl, rfl, rfl, rfl, rfl, rfl, rfl, rfl, rfl, rfl⟩

/-- The two states agree on what a rollback looks at, and on what it leaves alone. -/
structure SameCore (s s' : State) : Prop where
  mem : s'.mem = s.mem
  hadArchFault : s'.hadArchFault = s.hadArchFault
  enableTracing : s'.enableTracing = s.enableTracing
  checkpoints : s'.checkpoints = s.checkpoints
  storeLogs : s'.storeLogs = s.storeLogs
  inSpeculation : s'.inSpeculation = s.inSpeculation
  currTargets : s'.currTargets = s.currTargets
  pseudoLstar : s'.pseudoLstar = s.pseudoLstar
  log : s'.log = s.log
  context : s.previousContext ≠ none → s'.previousContext ≠ none

theorem SameCore.trans {s s' s'' : State} (h : SameCore s s') (h' : SameCore s' s'') :
    SameCore s s'' :=
  ⟨h'.mem.trans h.mem, h'.hadArchFault.trans h.hadArchFault,
    h'.enableTracing.trans h.enableTracing, h'.checkpoints.trans h.checkpoints,
    h'.storeLogs.trans h.storeLogs, h'.inSpeculation.trans h.inSpeculation,
    h'.currTargets.trans h.currTargets, h'.pseudoLstar.trans h.pseudoLstar, h'.log.trans h.log,
    fun hc => h'.context (h.context hc)⟩

theorem sameCore_addToTrace (s : State) (e : CTraceEntry) : SameCore s (s.addToTrace e) := by
  unfold State.addToTrace
  split <;> exact ⟨rfl, rfl, rfl, rfl, rfl, rfl, rfl, rfl, rfl, id⟩

def Access.isWrite : Access → Bool
  | .write _ _ => true
  | _ => false

/-- The access that a fault leaves undone. -/
def Outcome.attempted : Outcome → List Access
  | .fault _ (some a) => [a]
  | _ => []

namespace Setup

variable (m : Setup)

/-- A pending store has been performed and can be bypassed; only the store bypass has one. -/
structure PendingOk (s : State) : Prop where
  fits : ∀ p, s.previousStore = some p → p.oldValue.length = p.newValue.length ∧
    s.mem.read p.address p.newValue.length = p.newValue
  owner : m.lim.cls.memAccessOwner ≠ .storeBpasSpeculator → s.previousStore = none

variable {m} in
theorem PendingOk.congr {s s' : State} (h : m.PendingOk s) (hm : s'.mem = s.mem)
    (hp : s'.previousStore = s.previousStore) : m.PendingOk s' := by
  refine ⟨fun p hs => ?_, fun ho => hp.trans (h.owner ho)⟩
  rw [hm]
  exact h.fits p (hp.symm.trans hs)

theorem pendingOk_of_none {s : State} (h : s.previousStore = none) : m.PendingOk s :=
  ⟨fun _ hp => absurd (h.symm.trans hp) (by simp), fun _ => h⟩

/-- The macro state that a rollback to a checkpoint should lead to, when the sequential run is at
`t`. -/
def snapshotOf (t : State) (c : Checkpoint) : MacroState :=
  { t.macroState with actor := m.codeAddrToActorId c.nextInstr }

/-- A state of the sequential run. -/
structure Base (t : State) : Prop where
  checkpoints : t.checkpoints = []
  storeLogs : t.storeLogs = []
  inSpeculation : t.inSpeculation = false
  flat : snapshots t.log = []

/-- Outside speculation a run agrees with the sequential one up to the shadow. -/
structure Outside (s t : State) : Prop where
  alike : Alike s t
  base : Base t
  flat : snapshots s.log = []
  arch : archLog s.log = archLog t.log
  settled : Settled s.log
  pending : m.PendingOk s

/-- In speculation, the sequential run waits at `pc` in the state `t`, to which the outermost
checkpoint and the store logs lead back. -/
structure Inside (pc : Nat) (s t : State) : Prop where
  base : Base t
  home : m.codeAddrToActorId pc = t.currentActor
  hadArchFault : s.hadArchFault = t.hadArchFault
  enableTracing : s.enableTracing = t.enableTracing
  currTargets : s.currTargets = t.currTargets
  pseudoLstar : s.pseudoLstar = t.pseudoLstar
  inSpeculation : s.inSpeculation = true
  bottom : ∃ cs c, s.checkpoints = cs ++ [c] ∧ c.nextInstr = pc ∧
    (fun r => if r = .eflags then c.flags else c.context r) = t.reg
  logs : s.storeLogs.length = s.checkpoints.length
  mem : undoAll s.mem s.storeLogs = t.mem
  levels : snapshots s.log = s.checkpoints.map (m.snapshotOf t)
  arch : archLog s.log = archLog t.log
  context : s.previousContext ≠ none

/-- The state after a rollback to `pc` has the macro state of the checkpoint, but for the actor that
the loop is about to recompute. -/
def RolledBack (pc : Nat) (s : State) : Prop :=
  ∃ l, s.log = .rollback :: l ∧ Settled l ∧
    (snapshots l).head? = some { s.macroState with actor := m.codeAddrToActorId pc }

/-- The last level has been rolled back. -/
structure Resumed (pc : Nat) (s t : State) : Prop where
  alike : Alike { s with currentActor := t.currentActor } t
  base : Base t
  home : m.codeAddrToActorId pc = t.currentActor
  flat : snapshots s.log = []
  arch : archLog s.log = archLog t.log
  rolled : m.RolledBack pc s
  previousStore : s.previousStore = none

/-- A configuration of a run against one of the sequential run. -/
inductive Sim : Mode × State → Mode × State → Prop
  | outside {mode s t} : m.Outside s t → Sim (mode, s) (mode, t)
  | resumed {pc s t} : m.Resumed pc s t → Sim (.loop pc, s) (.emu pc, t)
  | unwound {pc pc' s t} : m.Inside pc s t → m.RolledBack pc' s → s.previousStore = none →
      Sim (.loop pc', s) (.emu pc, t)
  | inside {pc pc' s t} : m.Inside pc s t → Settled s.log → m.PendingOk s →
      Sim (.emu pc', s) (.emu pc, t)

variable {m} {pc : Nat} {s s' t : State}

theorem Inside.congr (h : m.Inside pc s t) (hc : SameCore s s') : m.Inside pc s' t := by
  have hbottom := h.bottom
  have hlogs := h.logs
  have hmem := h.mem
  have hlevels := h.levels
  rw [← hc.checkpoints] at hbottom hlogs hlevels
  rw [← hc.storeLogs] at hlogs hmem
  rw [← hc.mem] at hmem
  rw [← hc.log] at hlevels
  exact ⟨h.base, h.home, hc.hadArchFault.trans h.hadArchFault,
    hc.enableTracing.trans h.enableTracing, hc.currTargets.trans h.currTargets,
    hc.pseudoLstar.trans h.pseudoLstar, hc.inSpeculation.trans h.inSpeculation, hbottom, hlogs,
    hmem, hlevels, (congrArg archLog hc.log).trans h.arch, hc.context h.context⟩

theorem Inside.snapshots_ne (h : m.Inside pc s t) : snapshots s.log ≠ [] := by
  obtain ⟨cs, c, hcs, -⟩ := h.bottom
  rw [h.levels, hcs]
  simp

/-- A flat event in speculation. -/
theorem Inside.record (h : m.Inside pc s t) {e : Event} (he : e.flat) :
    m.Inside pc (s.record e) t := by
  have hlevels : snapshots (e :: s.log) = snapshots s.log := by
    cases e with
    | checkpoint included ms => simp [Event.flat] at he
    | rollback => simp [Event.flat] at he
    | _ => rfl
  exact ⟨h.base, h.home, h.hadArchFault, h.enableTracing, h.currTargets, h.pseudoLstar,
    h.inSpeculation, h.bottom, h.logs, h.mem, hlevels.trans h.levels,
    (archLog_cons_in e h.snapshots_ne).trans h.arch, h.context⟩

theorem Outside.record (h : m.Outside s t) (e : Event) (he : e.flat) :
    m.Outside (s.record e) (t.record e) := by
  have hsnap : ∀ l, snapshots l = [] → snapshots (e :: l) = [] := by
    intro l hl
    cases e with
    | checkpoint included ms => simp [Event.flat] at he
    | rollback => simp [Event.flat] at he
    | _ => exact hl
  have hne : e ≠ .rollback := by
    rintro rfl
    simp [Event.flat] at he
  have ha := h.alike
  refine ⟨⟨ha.mem, ha.reg, ha.currentActor, ha.hadArchFault, ha.enableTracing, ha.checkpoints,
    ha.storeLogs, ha.inSpeculation, ha.currTargets, ha.pseudoLstar⟩,
    ⟨h.base.checkpoints, h.base.storeLogs, h.base.inSpeculation, hsnap _ h.base.flat⟩,
    hsnap _ h.flat, ?_, h.settled.cons hne, ⟨h.pending.fits, h.pending.owner⟩⟩
  show archLog (e :: s.log) = archLog (e :: t.log)
  rw [archLog_cons_out e h.flat, archLog_cons_out e h.base.flat, h.arch]

/-! ### Rolling back -/

/-- The innermost level is rolled back. -/
theorem sim_rollbackStep (h : m.Inside pc s t) (hs : Settled s.log) :
    Sim m (rollbackStep s) (.emu pc, t) := by
  obtain ⟨cs, c, hcs, hnext, hreg⟩ := h.bottom
  have hlogs := h.logs
  have hmem := h.mem
  have hlevels := h.levels
  rw [hcs] at hlogs hlevels
  have hrest : Restored (.rollback :: s.log) := hs.restored_cons .rollback
  have harch : archLog (.rollback :: s.log) = archLog t.log :=
    (archLog_cons_in .rollback h.snapshots_ne).trans h.arch
  cases hsl : s.storeLogs with
  | nil => simp [hsl] at hlogs
  | cons l ls =>
      rw [hsl] at hmem hlogs
      rw [undoAll_cons] at hmem
      cases cs with
      | nil =>
          -- the outermost level: the sequential run is at its restart address
          have hls : ls = [] := by
            cases ls with
            | nil => rfl
            | cons x xs => simp at hlogs
          subst hls
          have hroll : rollbackStep s = (.loop c.nextInstr, { s with
              reg := fun r => if r = .eflags then c.flags else c.context r
              mem := undo s.mem l
              checkpoints := []
              storeLogs := []
              inSpeculation := s.inSpeculation && !([] : List Checkpoint).isEmpty
              speculationWindow := c.specWindow
              previousStore := none
              log := .rollback :: s.log }) := by
            unfold rollbackStep Unicorn.rollback
            rw [hcs, hsl]
            rfl
          rw [hroll, hnext]
          have hsnap : snapshots s.log = [m.snapshotOf t c] := hlevels
          refine .resumed ⟨⟨hmem, hreg, rfl, h.hadArchFault, h.enableTracing,
            h.base.checkpoints.symm, h.base.storeLogs.symm, ?_, h.currTargets, h.pseudoLstar⟩,
            h.base, h.home, ?_, harch, ⟨s.log, rfl, hs, ?_⟩, rfl⟩
          · rw [h.base.inSpeculation]
            exact Bool.and_false _
          · show (snapshots s.log).tail = []
            rw [hsnap]
            rfl
          · rw [hsnap, ← hnext, List.head?_cons]
            unfold snapshotOf State.macroState
            rw [← h.enableTracing, ← h.currTargets, ← h.pseudoLstar]
      | cons c' cs =>
          have hroll : rollbackStep s = (.loop c'.nextInstr, { s with
              reg := fun r => if r = .eflags then c'.flags else c'.context r
              mem := undo s.mem l
              checkpoints := cs ++ [c]
              storeLogs := ls
              inSpeculation := s.inSpeculation && !(cs ++ [c]).isEmpty
              speculationWindow := c'.specWindow
              previousStore := none
              log := .rollback :: s.log }) := by
            unfold rollbackStep Unicorn.rollback
            rw [hcs, hsl]
            rfl
          rw [hroll]
          have hsnap : snapshots s.log = m.snapshotOf t c' :: (cs ++ [c]).map (m.snapshotOf t) :=
            hlevels
          refine .unwound ⟨h.base, h.home, h.hadArchFault, h.enableTracing, h.currTargets,
            h.pseudoLstar, ?_, ⟨cs, c, rfl, hnext, hreg⟩, ?_, hmem, ?_, harch, h.context⟩
            ⟨s.log, rfl, hs, ?_⟩ rfl
          · show (s.inSpeculation && !(cs ++ [c]).isEmpty) = true
            simp [h.inSpeculation]
          · have hl : ls.length + 1 = (cs ++ [c]).length + 1 := by simpa using hlogs
            exact Nat.succ.inj hl
          · show (snapshots s.log).tail = _
            rw [hsnap]
            rfl
          · rw [hsnap, List.head?_cons]
            unfold snapshotOf State.macroState
            rw [← h.enableTracing, ← h.currTargets, ← h.pseudoLstar]

theorem sim_afterStop (h : m.Inside pc s t) (hs : Settled s.log) :
    Sim m (afterStop s) (.emu pc, t) := by
  unfold afterStop
  rw [if_pos h.inSpeculation]
  exact sim_rollbackStep h hs

theorem sim_afterFault (errno : Nat) (h : m.Inside pc s t) (hs : Settled s.log) :
    Sim m (m.afterFault errno s) (.emu pc, t) := by
  obtain ⟨context, hcontext⟩ := Option.ne_none_iff_exists'.mp h.context
  unfold afterFault
  rw [hcontext]
  have hreg : SameCore s { s with reg := context } :=
    ⟨rfl, rfl, rfl, rfl, rfl, rfl, rfl, rfl, rfl, id⟩
  have hcore : SameCore s (m.patchContext context s) := hreg.trans (sameCore_addToTrace _ _)
  have h' := h.congr hcore
  simp only [handleFault, h'.inSpeculation, if_true]
  apply sim_rollbackStep h'
  rw [hcore.log]
  exact hs

/-- A loop iteration in speculation, and one that ends it. -/
theorem sim_loop_unwound {pc' : Nat} (h : m.Inside pc s t) (hr : m.RolledBack pc' s)
    (hp : s.previousStore = none) : Sim m (m.loopStep pc' s) (.emu pc, t) := by
  obtain ⟨l, hl, hset, hhead⟩ := hr
  have hcore : m.Inside pc { s with currentActor := m.codeAddrToActorId pc' } t :=
    h.congr ⟨rfl, rfl, rfl, rfl, rfl, rfl, rfl, rfl, rfl, id⟩
  have hrec := hcore.record
    (e := .resume { s with currentActor := m.codeAddrToActorId pc' }.macroState) rfl
  have hsettled : Settled (.resume { s with currentActor := m.codeAddrToActorId pc' }.macroState ::
      s.log) := by
    rw [hl]
    refine ⟨⟨?_, hset.restored_cons .rollback⟩, fun l' hl' => by cases hl'⟩
    rintro l' hl'
    obtain ⟨-, rfl⟩ := List.cons.inj hl'
    exact ⟨_, rfl, hhead⟩
  unfold loopStep
  simp only
  split
  · rw [if_pos hrec.inSpeculation]
    exact sim_rollbackStep hrec hsettled
  · split
    · exact sim_rollbackStep hrec hsettled
    · exact .inside hrec hsettled (m.pendingOk_of_none hp)

/-! ### Executing an instruction in speculation -/

/-- What the speculator makes of an access: a log entry, and a store to keep in mind. -/
theorem handleMemAccess_cases {a : Access} (h : handleMemAccess m.lim s a = some s') :
    ∃ p, s' = (logStore s a).withPending p ∧
      (m.lim.cls.memAccessOwner ≠ .storeBpasSpeculator → p = s.previousStore) ∧
      (a.isWrite = false → p = s.previousStore) ∧
      (∀ address bytes, a = .write address bytes → s.previousStore = none →
        m.lim.cls.memAccessOwner = .storeBpasSpeculator →
          p = some ⟨address, s.mem.read address bytes.length, bytes⟩) := by
  by_cases howner : m.lim.cls.memAccessOwner = .storeBpasSpeculator
  · have hbpas : bpasMemAccess (logStore s a) a = some s' := by
      unfold handleMemAccess speculateMemAccess at h
      rwa [howner] at h
    cases a with
    | read address size =>
        have hs : s = s' := Option.some.inj hbpas
        exact ⟨s.previousStore, hs.symm, fun _ => rfl, fun _ => rfl, fun _ _ ha => by cases ha⟩
    | unmapped address size =>
        have hs : s = s' := Option.some.inj hbpas
        exact ⟨s.previousStore, hs.symm, fun _ => rfl, fun _ => rfl, fun _ _ ha => by cases ha⟩
    | write address bytes =>
        cases hp : s.previousStore with
        | none =>
            have hlog : (logStore s (.write address bytes)).previousStore = none := hp
            simp only [bpasMemAccess, hlog, Option.some.injEq] at hbpas
            refine ⟨_, hbpas.symm, fun hno => absurd howner hno, fun hw => (by cases hw), ?_⟩
            intro address' bytes' ha _ _
            cases ha
            rfl
        | some q =>
            have hlog : (logStore s (.write address bytes)).previousStore = some q := hp
            simp only [bpasMemAccess, hlog] at hbpas
            split at hbpas
            · refine ⟨some q, ?_, fun _ => rfl, fun _ => rfl, fun _ _ _ hnone => by cases hnone⟩
              rw [← Option.some.inj hbpas, State.withPending, ← hlog]
            · cases hbpas
  · rw [handleMemAccess_eq howner] at h
    have hs : logStore s a = s' := Option.some.inj h
    have hprev : (logStore s a).previousStore = s.previousStore := by
      cases a <;> rfl
    exact ⟨s.previousStore, by rw [State.withPending, ← hprev, hs], fun _ => rfl, fun _ => rfl,
      fun _ _ _ _ hyes => absurd hyes howner⟩

/-- What a dispatched access does to the state. -/
structure Dispatched (m : Setup) (a : Access) (s s' : State) : Prop where
  alike : Alike s' (logStore s a)
  log : s'.log = .access a :: s.log
  previousContext : s'.previousContext = s.previousContext
  owner : m.lim.cls.memAccessOwner ≠ .storeBpasSpeculator → s'.previousStore = s.previousStore
  other : a.isWrite = false → s'.previousStore = s.previousStore
  store : ∀ address bytes, a = .write address bytes → s.previousStore = none →
    m.lim.cls.memAccessOwner = .storeBpasSpeculator →
      s'.previousStore = some ⟨address, s.mem.read address bytes.length, bytes⟩

theorem memAccessDispatch_cases {inst : Inst} (hplace : inst.isMacroPlaceholder = false)
    {a : Access} (hd : m.memAccessDispatch inst s a = some s') : Dispatched m a s s' := by
  unfold memAccessDispatch at hd
  rw [hplace] at hd
  simp only [Bool.false_eq_true, if_false] at hd
  obtain ⟨s₁, hs₁, rfl⟩ := Option.map_eq_some_iff.mp hd
  obtain ⟨p, rfl, howner, hother, hstore⟩ := handleMemAccess_cases hs₁
  have hprev : ((((logStore s a).withPending p).record (.access a)).addToTrace
      (.mem a.address)).previousStore = p := addToTrace_previousStore _ _
  rw [← hprev] at howner hother hstore
  have hctx : (logStore s a).previousContext = s.previousContext := by
    cases a <;> rfl
  have hlog : (logStore s a).log = s.log := by
    cases a <;> rfl
  refine ⟨(alike_addToTrace _ _).trans ⟨rfl, rfl, rfl, rfl, rfl, rfl, rfl, rfl, rfl, rfl⟩, ?_, ?_,
    howner, hother, hstore⟩
  · rw [addToTrace_log]
    exact congrArg _ hlog
  · rw [← hctx]
    unfold State.addToTrace
    split <;> rfl

theorem logStore_log (s : State) (a : Access) : (logStore s a).log = s.log := by
  cases a <;> rfl

theorem logStore_mem (s : State) (a : Access) : (logStore s a).mem = s.mem := by
  cases a <;> rfl

/-- A logged access that is not performed changes nothing that a rollback would show. -/
theorem Inside.logStore (h : m.Inside pc s t) (a : Access) : m.Inside pc (logStore s a) t := by
  cases a with
  | read address size => exact h
  | unmapped address size => exact h
  | write address bytes =>
      refine ⟨h.base, h.home, h.hadArchFault, h.enableTracing, h.currTargets, h.pseudoLstar,
        h.inSpeculation, h.bottom, ?_, ?_, h.levels, h.arch, h.context⟩
      · show (s.storeLogs.modifyHead _).length = _
        rw [List.length_modifyHead]
        exact h.logs
      · exact (undoAll_attempt s.mem address s.storeLogs).trans h.mem

theorem Dispatched.core {a : Access} (hd : Dispatched m a s s') :
    SameCore ((Unicorn.logStore s a).record (.access a)) s' := by
  have ha := hd.alike
  refine ⟨ha.mem, ha.hadArchFault, ha.enableTracing, ha.checkpoints, ha.storeLogs,
    ha.inSpeculation, ha.currTargets, ha.pseudoLstar, ?_, fun hc => ?_⟩
  · rw [hd.log, State.record, logStore_log]
  · rw [hd.previousContext]
    cases a <;> exact hc

theorem Inside.dispatched {a : Access} (h : m.Inside pc s t) (hd : Dispatched m a s s') :
    m.Inside pc s' t :=
  ((h.logStore a).record (e := .access a) rfl).congr hd.core

theorem Dispatched.settled {a : Access} (hs : Settled s.log) (hd : Dispatched m a s s') :
    Settled s'.log := by
  rw [hd.log]
  exact hs.cons (by simp)

/-- A store of at most eight bytes is logged before it is performed. -/
theorem Inside.stored {address : Nat} {bytes : List UInt8} (h : m.Inside pc s t)
    (hd : Dispatched m (.write address bytes) s s') (hb : bytes.length ≤ 8) :
    m.Inside pc { s' with mem := s'.mem.write address bytes } t := by
  have h' := h.dispatched hd
  refine ⟨h'.base, h'.home, h'.hadArchFault, h'.enableTracing, h'.currTargets, h'.pseudoLstar,
    h'.inSpeculation, h'.bottom, h'.logs, ?_, h'.levels, h'.arch, h'.context⟩
  have hlogs : s'.storeLogs
      = s.storeLogs.modifyHead fun l => (address, s.mem.read address 8) :: l := hd.alike.storeLogs
  have hmem : s'.mem = s.mem := hd.alike.mem
  have hne : s.storeLogs ≠ [] := by
    intro hnil
    have hl := h.logs
    obtain ⟨cs, c, hcs, -⟩ := h.bottom
    simp [hnil, hcs] at hl
  show undoAll (s'.mem.write address bytes) s'.storeLogs = t.mem
  rw [hlogs, hmem, undoAll_store s.mem hb hne]
  exact h.mem

/-- An access whose hook succeeds is dispatched and then performed. -/
theorem performAccess_cases {inst : Inst} (hplace : inst.isMacroPlaceholder = false) {a : Access}
    (hp : m.performAccess inst s a = some s') :
    (a.isWrite = false ∧ Dispatched m a s s') ∨
    ∃ address bytes s₁, a = .write address bytes ∧ Dispatched m a s s₁ ∧
      s' = { s₁ with mem := s₁.mem.write address bytes } := by
  obtain ⟨s₁, hs₁, rfl⟩ := Option.map_eq_some_iff.mp hp
  have hd := memAccessDispatch_cases hplace hs₁
  cases a with
  | read address size => exact .inl ⟨rfl, hd⟩
  | unmapped address size => exact .inl ⟨rfl, hd⟩
  | write address bytes => exact .inr ⟨address, bytes, s₁, rfl, hd, rfl⟩

/-- Under the store bypass an access is refused only if a store is pending already. -/
theorem memAccessDispatch_defined (inst : Inst) (a : Access)
    (hnone : m.lim.cls.memAccessOwner = .storeBpasSpeculator → a.isWrite = true →
      s.previousStore = none) : ∃ s', m.memAccessDispatch inst s a = some s' := by
  unfold memAccessDispatch
  cases inst.isMacroPlaceholder with
  | true => exact ⟨s, rfl⟩
  | false =>
      have hhandle : ∃ s', handleMemAccess m.lim s a = some s' := by
        by_cases ho : m.lim.cls.memAccessOwner = .storeBpasSpeculator
        · unfold handleMemAccess speculateMemAccess
          rw [ho]
          cases a with
          | read address size => exact ⟨_, rfl⟩
          | unmapped address size => exact ⟨_, rfl⟩
          | write address bytes =>
              have hp : (logStore s (.write address bytes)).previousStore = none := hnone ho rfl
              simp only [bpasMemAccess, hp]
              exact ⟨_, rfl⟩
        · exact ⟨_, handleMemAccess_eq ho s a⟩
      obtain ⟨s', hs'⟩ := hhandle
      rw [hs']
      exact ⟨_, rfl⟩

theorem performAccess_defined (inst : Inst) (a : Access)
    (hnone : m.lim.cls.memAccessOwner = .storeBpasSpeculator → a.isWrite = true →
      s.previousStore = none) : ∃ s', m.performAccess inst s a = some s' := by
  obtain ⟨s₁, hs₁⟩ := memAccessDispatch_defined inst a hnone
  unfold performAccess
  rw [hs₁]
  exact ⟨_, rfl⟩

/-- The pending store is kept in mind as it is performed. -/
theorem pending_performAccess {inst : Inst} (hplace : inst.isMacroPlaceholder = false) {a : Access}
    (hp : m.performAccess inst s a = some s') (hok : m.PendingOk s)
    (hnone : m.lim.cls.memAccessOwner = .storeBpasSpeculator → a.isWrite = true →
      s.previousStore = none) : m.PendingOk s' := by
  rcases performAccess_cases hplace hp with ⟨hw, hd⟩ | ⟨address, bytes, s₁, rfl, hd, rfl⟩
  · have hprev := hd.other hw
    have hmem : s'.mem = s.mem := hd.alike.mem.trans (logStore_mem s a)
    refine ⟨fun p hp => ?_, fun ho => hprev.trans (hok.owner ho)⟩
    rw [hmem]
    exact hok.fits p (hprev.symm.trans hp)
  · refine ⟨fun p hp => ?_, fun ho => (hd.owner ho).trans (hok.owner ho)⟩
    have hp : s₁.previousStore = some p := hp
    by_cases ho : m.lim.cls.memAccessOwner = .storeBpasSpeculator
    · rw [hd.store address bytes rfl (hnone ho rfl) ho, Option.some.injEq] at hp
      subst hp
      exact ⟨by simp [Mem.read], read_write_same s₁.mem address bytes⟩
    · exact absurd ((hd.owner ho).trans (hok.owner ho)) (by rw [hp]; simp)

/-- After the first access of an instruction there is at most the one store left. -/
theorem single_rest {inst : Inst} (hplace : inst.isMacroPlaceholder = false) {a : Access}
    {as : List Access} (hp : m.performAccess inst s a = some s')
    (hone : (a :: as).countP Access.isWrite ≤ 1 ∧
      (0 < (a :: as).countP Access.isWrite → s.previousStore = none)) :
    as.countP Access.isWrite ≤ 1 ∧ (0 < as.countP Access.isWrite → s'.previousStore = none) := by
  obtain ⟨hle, hnone⟩ := hone
  rcases performAccess_cases hplace hp with ⟨hw, hd⟩ | ⟨address, bytes, s₁, rfl, -, -⟩
  · rw [List.countP_cons_of_neg (by simp [hw])] at hle hnone
    exact ⟨hle, fun hpos => (hd.other hw).trans (hnone hpos)⟩
  · rw [List.countP_cons_of_pos rfl] at hle
    exact ⟨by omega, fun hpos => by omega⟩

/-- With at most one store, performed or attempted, no access of an instruction is refused, and the
attempted one is not either. -/
theorem performAll_single {inst : Inst} (hplace : inst.isMacroPlaceholder = false)
    (as bs : List Access) (hone : m.lim.cls.memAccessOwner = .storeBpasSpeculator →
      (as ++ bs).countP Access.isWrite ≤ 1 ∧
        (0 < (as ++ bs).countP Access.isWrite → s.previousStore = none)) :
    ∃ s', as.foldlM (m.performAccess inst) s = some s' ∧
      (m.lim.cls.memAccessOwner = .storeBpasSpeculator →
        bs.countP Access.isWrite ≤ 1 ∧
          (0 < bs.countP Access.isWrite → s'.previousStore = none)) := by
  induction as generalizing s with
  | nil => exact ⟨s, rfl, hone⟩
  | cons a as ih =>
      obtain ⟨s₁, hs₁⟩ := performAccess_defined inst a fun ho hw =>
        (hone ho).2 (by rw [List.cons_append, List.countP_cons_of_pos hw]; omega)
      rw [List.foldlM_cons, hs₁]
      exact ih fun ho => single_rest hplace hs₁ (hone ho)

theorem pending_performAll {inst : Inst} (hplace : inst.isMacroPlaceholder = false)
    {as : List Access} (hp : as.foldlM (m.performAccess inst) s = some s') (hok : m.PendingOk s)
    (hone : m.lim.cls.memAccessOwner = .storeBpasSpeculator →
      as.countP Access.isWrite ≤ 1 ∧ (0 < as.countP Access.isWrite → s.previousStore = none)) :
    m.PendingOk s' := by
  induction as generalizing s with
  | nil => exact Option.some.inj hp ▸ hok
  | cons a as ih =>
      rw [List.foldlM_cons] at hp
      obtain ⟨s₁, hs₁, hp⟩ := Option.bind_eq_some_iff.mp hp
      have hok₁ := pending_performAccess hplace hs₁ hok fun ho hw =>
        (hone ho).2 (by rw [List.countP_cons_of_pos hw]; omega)
      exact ih hp hok₁ fun ho => single_rest hplace hs₁ (hone ho)

theorem inside_performAll {inst : Inst} (hplace : inst.isMacroPlaceholder = false)
    {as : List Access} (hp : as.foldlM (m.performAccess inst) s = some s')
    (hsmall : ∀ address bytes, .write address bytes ∈ as → bytes.length ≤ 8)
    (h : m.Inside pc s t) (hs : Settled s.log) : m.Inside pc s' t ∧ Settled s'.log := by
  induction as generalizing s with
  | nil => exact Option.some.inj hp ▸ ⟨h, hs⟩
  | cons a as ih =>
      rw [List.foldlM_cons] at hp
      obtain ⟨s₁, hs₁, hp⟩ := Option.bind_eq_some_iff.mp hp
      have hrest : ∀ address bytes, .write address bytes ∈ as → bytes.length ≤ 8 :=
        fun address bytes hm => hsmall address bytes (List.mem_cons_of_mem _ hm)
      rcases performAccess_cases hplace hs₁ with ⟨-, hd⟩ | ⟨address, bytes, s₂, rfl, hd, rfl⟩
      · exact ih hp hrest (h.dispatched hd) (hd.settled hs)
      · have hs₂ : Settled s₂.log := hd.settled hs
        exact ih hp hrest (h.stored hd (hsmall address bytes List.mem_cons_self)) hs₂

/-- Without stores, the accesses of a placeholder do nothing. -/
theorem performAll_placeholder {inst : Inst} (hplace : inst.isMacroPlaceholder = true)
    {as : List Access} (hno : ∀ a ∈ as, a.isWrite = false) :
    as.foldlM (m.performAccess inst) s = some s := by
  induction as with
  | nil => rfl
  | cons a as ih =>
      have hone : m.performAccess inst s a = some s := by
        unfold performAccess memAccessDispatch
        rw [hplace]
        cases a with
        | write address bytes => exact absurd (hno _ List.mem_cons_self) (by simp [Access.isWrite])
        | _ => rfl
      rw [List.foldlM_cons, hone]
      exact ih fun a ha => hno a (List.mem_cons_of_mem _ ha)

/-- What is asked of the instruction at `pc` that the emulator executes: a placeholder does not
store and goes forward, in speculation a store has at most eight bytes, and under the store bypass
there is at most one store, performed or attempted, and, outside speculation, no fault. -/
structure ExecOk (m : Setup) (pc : Nat) (inst : Inst) (s : State) (e : Exec) : Prop where
  placeholder : inst.isMacroPlaceholder = true →
    (∀ a ∈ e.accesses, a.isWrite = false) ∧ ∀ reg pc', e.outcome = .done reg pc' → pc < pc'
  small : s.inSpeculation = true → ∀ address bytes, .write address bytes ∈ e.accesses →
    bytes.length ≤ 8
  single : m.lim.cls.memAccessOwner = .storeBpasSpeculator →
    (e.accesses ++ e.outcome.attempted).countP Access.isWrite ≤ 1
  noFault : m.lim.cls.memAccessOwner = .storeBpasSpeculator → s.inSpeculation = false →
    ∃ reg pc', e.outcome = .done reg pc'

theorem ExecOk.performed {pc : Nat} {inst : Inst} {e : Exec} (h : ExecOk m pc inst s e)
    (ho : m.lim.cls.memAccessOwner = .storeBpasSpeculator) :
    e.accesses.countP Access.isWrite ≤ 1 := by
  have hle := h.single ho
  rw [List.countP_append] at hle
  omega

/-- The emulator executes an instruction in speculation. -/
theorem sim_execute_inside {pc' : Nat} {inst : Inst} (h : m.Inside pc s t) (hs : Settled s.log)
    (hpend : m.PendingOk s) (hnone : inst.isMacroPlaceholder = false → s.previousStore = none)
    (hok : ExecOk m pc' inst s (m.uc.exec s.emulator pc')) :
    Sim m (m.execute pc' inst s) (.emu pc, t) := by
  have hrec := h.record (e := .execute pc' inst) rfl
  have hset : Settled (s.record (.execute pc' inst)).log := hs.cons (by simp)
  have hpend' : m.PendingOk (s.record (.execute pc' inst)) := ⟨hpend.fits, hpend.owner⟩
  unfold execute
  cases hplace : inst.isMacroPlaceholder with
  | true =>
      rw [performAll_placeholder hplace (hok.placeholder hplace).1]
      simp only
      unfold afterExec
      split
      · exact .inside (hrec.congr ⟨rfl, rfl, rfl, rfl, rfl, rfl, rfl, rfl, rfl, id⟩) hset
          ⟨hpend'.fits, hpend'.owner⟩
      · exact sim_afterFault _ hrec hset
      · unfold memAccessDispatch
        rw [hplace]
        exact sim_afterFault _ hrec hset
  | false =>
      obtain ⟨s', hfold, hrest⟩ := performAll_single (s := s.record (.execute pc' inst)) hplace _ _
        fun ho => ⟨hok.single ho, fun _ => hnone hplace⟩
      rw [hfold]
      obtain ⟨hin, hset'⟩ := inside_performAll hplace hfold (hok.small h.inSpeculation) hrec hset
      have hpend'' := pending_performAll hplace hfold hpend' fun ho =>
        ⟨hok.performed ho, fun _ => hnone hplace⟩
      simp only
      cases hout : (m.uc.exec s.emulator pc').outcome with
      | done reg next =>
          exact .inside (hin.congr ⟨rfl, rfl, rfl, rfl, rfl, rfl, rfl, rfl, rfl, id⟩) hset'
            ⟨hpend''.fits, hpend''.owner⟩
      | fault errno attempt =>
          cases attempt with
          | none => exact sim_afterFault _ hin hset'
          | some a =>
              rw [hout] at hrest
              obtain ⟨s₁, hs₁⟩ := memAccessDispatch_defined inst a fun ho hw =>
                (hrest ho).2 (by
                  rw [Outcome.attempted, List.countP_cons_of_pos hw]
                  omega)
              have hd := memAccessDispatch_cases hplace hs₁
              simp only [afterExec, hs₁]
              exact sim_afterFault _ (hin.dispatched hd) (hd.settled hset')

/-! ### Macros in speculation -/

/-- The instruction is a macro that gives a switch target or the pseudo-LSTAR a new value. -/
def SetsTarget (m : Setup) (pc : Nat) (inst : Inst) (s : State) : Prop :=
  inst.name = "macro" ∧ ∃ sid fid a,
    m.macroArgs s.currentActor (pc - m.sectionStart s.currentActor) = some (sid, fid) ∧
    m.functionAddr sid fid = some a ∧
    match inst.macroName with
    | .setK2uTarget => s.currTargets .k2u ≠ a
    | .setH2gTarget => s.currTargets .h2g ≠ a
    | .setG2hTarget => s.currTargets .g2h ≠ a
    | .setU2kTarget => m.privilegeLevel s.currentActor = some .kernel ∧ s.pseudoLstar ≠ a
    | _ => False

/-- The macro goes to a function of the actor `sid`. -/
def Enters (m : Setup) (sid fid : Nat) : MacroName → Prop
  | .switch => m.functionAddr sid fid ≠ none
  | .switchK2u | .switchU2k | .switchH2g | .switchG2h => True
  | _ => False

/-- The instruction is a switch macro to an actor that does not exist. -/
def EntersNoActor (m : Setup) (pc : Nat) (inst : Inst) (s : State) : Prop :=
  inst.name = "macro" ∧ ∃ sid fid,
    m.macroArgs s.currentActor (pc - m.sectionStart s.currentActor) = some (sid, fid) ∧
    m.privilegeLevel sid = none ∧ m.Enters sid fid inst.macroName

theorem switchTo_ne_crash {target sid : Nat} {h : Hook} (hsid : m.privilegeLevel sid ≠ none) :
    m.switchTo target sid h ≠ .crash := by
  obtain ⟨pl, hpl⟩ := Option.ne_none_iff_exists'.mp hsid
  unfold switchTo
  rw [hpl]
  exact nofun

theorem setTarget_ne_crash (key : SwitchKey) (sid fid : Nat) (h : Hook) :
    m.setTarget key sid fid h ≠ .crash := by
  unfold setTarget
  split
  · exact nofun
  · exact nofun

theorem clobberRax_ne_crash {r : Interpreted} (hr : r ≠ .crash) : m.clobberRax r ≠ .crash := by
  cases r with
  | ok h => exact nofun
  | fault errno h => exact nofun
  | crash => exact absurd rfl hr

theorem macroCallback_ne_crash {pc sid fid : Nat} {inst : Inst} {h : Hook}
    (hname : inst.name = "macro")
    (hargs : m.macroArgs h.st.currentActor (pc - m.sectionStart h.st.currentActor)
      = some (sid, fid))
    (hno : ¬m.EntersNoActor pc inst h.st) : m.macroCallback inst.macroName sid fid h ≠ .crash := by
  have hpl : m.Enters sid fid inst.macroName → m.privilegeLevel sid ≠ none :=
    fun henters hnone => hno ⟨hname, sid, fid, hargs, hnone, henters⟩
  revert hpl
  cases inst.macroName with
  | switch =>
      intro hpl
      simp only [macroCallback]
      cases hf : m.functionAddr sid fid with
      | none =>
          intro hcrash
          cases hcrash
      | some a =>
          have henters : m.Enters sid fid .switch := by
            unfold Enters
            rw [hf]
            exact Option.some_ne_none a
          exact switchTo_ne_crash (hpl henters)
  | switchK2u | switchU2k =>
      intro hpl
      exact switchTo_ne_crash (hpl trivial)
  | switchH2g | switchG2h =>
      intro hpl
      exact clobberRax_ne_crash (switchTo_ne_crash (hpl trivial))
  | setK2uTarget | setH2gTarget | setG2hTarget =>
      intro _
      exact setTarget_ne_crash _ _ _ _
  | setU2kTarget =>
      intro _
      simp only [macroCallback]
      split
      · intro hcrash
        cases hcrash
      · split
        · intro hcrash
          cases hcrash
        · intro hcrash
          cases hcrash
  | measurementStart | measurementEnd | landingK2u | landingU2k =>
      intro _ hcrash
      simp [macroCallback] at hcrash
  | landingH2g | landingG2h | setDataPermissions | faultHandler | unknown =>
      intro _ hcrash
      simp [macroCallback] at hcrash

/-- The interpreter ends with an exception only at a switch to an actor that does not exist. -/
theorem interpretInstruction_ne_crash {pc : Nat} {inst : Inst} {h : Hook}
    (hno : ¬m.EntersNoActor pc inst h.st) : m.interpretInstruction pc inst h ≠ .crash := by
  have hmac : (if inst.name = "macro" then m.interpretMacro pc inst h else .ok h) ≠ .crash := by
    split
    · rename_i hname
      unfold interpretMacro
      cases hargs : m.macroArgs h.st.currentActor (pc - m.sectionStart h.st.currentActor) with
      | none => exact nofun
      | some args => exact macroCallback_ne_crash hname hargs hno
    · exact nofun
  unfold interpretInstruction
  revert hmac
  generalize (if inst.name = "macro" then m.interpretMacro pc inst h else .ok h) = r
  intro hmac
  cases r with
  | ok h' =>
      simp only
      split
      · exact nofun
      · exact nofun
  | fault errno h' => exact nofun
  | crash => exact absurd rfl hmac

/-- The interpreter leaves the tracing flag, the switch targets and the pseudo-LSTAR alone. -/
def Interpreted.KeepsTargets (h : Hook) : Interpreted → Prop
  | .ok h' | .fault _ h' => h'.st.enableTracing = h.st.enableTracing ∧
      h'.st.currTargets = h.st.currTargets ∧ h'.st.pseudoLstar = h.st.pseudoLstar
  | .crash => True

theorem switchTo_keepsTargets (target sid : Nat) (h : Hook) :
    (m.switchTo target sid h).KeepsTargets h := by
  unfold switchTo
  split
  · trivial
  · exact ⟨rfl, rfl, rfl⟩

theorem clobberRax_keepsTargets {h : Hook} {r : Interpreted} (hr : r.KeepsTargets h) :
    (m.clobberRax r).KeepsTargets h := by
  cases r with
  | ok h' =>
      unfold clobberRax
      by_cases ha : m.isAmd = true
      · simp only [ha, if_true]
        exact hr
      · simp only [ha]
        exact hr
  | fault e h' => exact hr
  | crash => trivial

theorem setTarget_keepsTargets {key : SwitchKey} {sid fid : Nat} {h : Hook}
    (hno : ∀ a, m.functionAddr sid fid = some a → h.st.currTargets key = a) :
    (m.setTarget key sid fid h).KeepsTargets h := by
  unfold setTarget
  cases hf : m.functionAddr sid fid with
  | none => exact ⟨rfl, rfl, rfl⟩
  | some a =>
      refine ⟨rfl, ?_, rfl⟩
      funext k
      show (if k = key then a else h.st.currTargets k) = h.st.currTargets k
      split
      · rename_i hk
        rw [hk, hno a hf]
      · rfl

/-- In speculation, a macro that does not set a target changes only what a rollback restores. -/
theorem macroCallback_keepsTargets {pc sid fid : Nat} {inst : Inst} {h : Hook}
    (hname : inst.name = "macro")
    (hargs : m.macroArgs h.st.currentActor (pc - m.sectionStart h.st.currentActor)
      = some (sid, fid))
    (hspec : h.st.inSpeculation = true) (hno : ¬m.SetsTarget pc inst h.st) :
    (m.macroCallback inst.macroName sid fid h).KeepsTargets h := by
  have hset : ∀ a, m.functionAddr sid fid = some a → ¬(match inst.macroName with
      | .setK2uTarget => h.st.currTargets .k2u ≠ a
      | .setH2gTarget => h.st.currTargets .h2g ≠ a
      | .setG2hTarget => h.st.currTargets .g2h ≠ a
      | .setU2kTarget => m.privilegeLevel h.st.currentActor = some .kernel ∧ h.st.pseudoLstar ≠ a
      | _ => False) :=
    fun a ha hmatch => hno ⟨hname, sid, fid, a, hargs, ha, hmatch⟩
  revert hset
  cases inst.macroName with
  | measurementStart | measurementEnd =>
      intro _
      simp only [macroCallback, hspec, if_true]
      exact ⟨rfl, rfl, rfl⟩
  | switch =>
      intro _
      simp only [macroCallback]
      split
      · exact ⟨rfl, rfl, rfl⟩
      · exact switchTo_keepsTargets _ _ h
  | switchK2u | switchU2k =>
      intro _
      exact switchTo_keepsTargets _ _ h
  | switchG2h =>
      intro _
      exact clobberRax_keepsTargets (switchTo_keepsTargets _ _ h)
  | switchH2g =>
      intro _
      apply clobberRax_keepsTargets
      exact switchTo_keepsTargets (h.st.currTargets .h2g) sid
        { h with st := h.st.setReg .eflags 2 }
  | setK2uTarget | setH2gTarget | setG2hTarget =>
      intro hset
      exact setTarget_keepsTargets fun a ha => not_not.mp (hset a ha)
  | setU2kTarget =>
      intro hset
      simp only [macroCallback]
      split
      · exact ⟨rfl, rfl, rfl⟩
      · rename_i hpl
        cases hf : m.functionAddr sid fid with
        | none => exact ⟨rfl, rfl, rfl⟩
        | some a =>
            refine ⟨rfl, rfl, ?_⟩
            by_contra hne
            exact hset a hf ⟨not_not.mp hpl, fun heq => hne heq.symm⟩
  | landingK2u | landingU2k =>
      intro _
      exact ⟨rfl, rfl, rfl⟩
  | landingH2g | landingG2h | setDataPermissions | faultHandler | unknown =>
      intro _
      exact ⟨rfl, rfl, rfl⟩

theorem interpretInstruction_keepsTargets {pc : Nat} {inst : Inst} {h : Hook}
    (hspec : h.st.inSpeculation = true) (hno : ¬m.SetsTarget pc inst h.st) :
    (m.interpretInstruction pc inst h).KeepsTargets h := by
  have hmac : (if inst.name = "macro" then m.interpretMacro pc inst h else .ok h).KeepsTargets h := by
    split
    · rename_i hname
      unfold interpretMacro
      cases hargs : m.macroArgs h.st.currentActor (pc - m.sectionStart h.st.currentActor) with
      | none => exact ⟨rfl, rfl, rfl⟩
      | some args => exact macroCallback_keepsTargets hname hargs hspec hno
    · exact ⟨rfl, rfl, rfl⟩
  unfold interpretInstruction
  revert hmac
  generalize (if inst.name = "macro" then m.interpretMacro pc inst h else .ok h) = r
  intro hmac
  cases r with
  | ok h' =>
      simp only
      split
      · exact hmac
      · exact hmac
  | fault e h' => exact hmac
  | crash => trivial

/-! ### The hook -/

/-- The registers after a conditional jump. -/
def branchReg (reg : UcReg → Nat) (isLoop : Bool) : UcReg → Nat :=
  if isLoop then fun q => if q = .rcx then decrement (reg .rcx) else reg q else reg

/-- Where a decoded conditional jump goes. -/
def branchNext (pc size : Nat) (d : Int × Bool × Bool) : Nat :=
  if d.2.1 then jumpTarget pc size d.1 else pc + size

/-- The decoder's view of the instruction at `pc`. -/
def decodeAt (s : State) (pc size : Nat) : Int × Bool × Bool :=
  decode (s.mem.read pc size) (s.reg .eflags) (s.reg .rcx)

theorem countedAt_alike (m : Setup) (pc : Nat) (inst : Inst) (s : State) :
    Alike (m.countedAt pc inst s).st s ∧
    (m.countedAt pc inst s).st.log = .dispatch pc inst :: s.log ∧
    (m.countedAt pc inst s).st.previousContext = some s.reg := by
  have hpre : Alike ({ s with previousContext := some s.reg }.record (.dispatch pc inst)) s :=
    ⟨rfl, rfl, rfl, rfl, rfl, rfl, rfl, rfl, rfl, rfl⟩
  have hpost := (alike_addToTrace _ (.pc pc)).trans hpre
  have hlog := addToTrace_log ({ s with previousContext := some s.reg }.record (.dispatch pc inst))
    (.pc pc)
  have hctx : (({ s with previousContext := some s.reg }.record (.dispatch pc inst)).addToTrace
      (.pc pc)).previousContext = some s.reg := by
    unfold State.addToTrace
    split <;> rfl
  unfold countedAt countInstruction
  split
  · exact ⟨⟨hpost.mem, hpost.reg, hpost.currentActor, hpost.hadArchFault, hpost.enableTracing,
      hpost.checkpoints, hpost.storeLogs, hpost.inSpeculation, hpost.currTargets,
      hpost.pseudoLstar⟩, hlog, hctx⟩
  · exact ⟨hpost, hlog, hctx⟩

/-- A hook that opened a level: the registers and the address of the checkpoint, and the events
before it. What the new store log undoes is the memory before the hook. -/
structure Opened (s s' : State) (reg : UcReg → Nat) (next : Nat) (past : List Event) : Prop where
  checkpoints :
    s'.checkpoints = ⟨reg, next, reg .eflags, s'.speculationWindow⟩ :: s.checkpoints
  storeLogs : ∃ l, s'.storeLogs = l :: s.storeLogs ∧ undo s'.mem l = s.mem
  inSpeculation : s'.inSpeculation = true
  log : ∃ included, s'.log = .checkpoint included s.macroState :: past
  hadArchFault : s'.hadArchFault = s.hadArchFault
  enableTracing : s'.enableTracing = s.enableTracing
  currTargets : s'.currTargets = s.currTargets
  pseudoLstar : s'.pseudoLstar = s.pseudoLstar
  currentActor : s'.currentActor = s.currentActor
  context : s'.previousContext ≠ none

theorem macroState_congr {s s' : State} (h : Alike s' s) : s'.macroState = s.macroState := by
  unfold State.macroState
  rw [h.currentActor, h.enableTracing, h.currTargets, h.pseudoLstar]

theorem hookAt_cond {pc size : Nat} (inst : Inst) (h : m.OpensCond pc size s) :
    Opened s (m.hookAt pc size inst s).st (branchReg s.reg (decodeAt s pc size).2.2)
      (branchNext pc size (decodeAt s pc size)) (.execute pc inst :: .dispatch pc inst :: s.log) := by
  obtain ⟨howner, hn, hsize, hdec⟩ := h
  obtain ⟨ha, hlog, hctx⟩ := m.countedAt_alike pc inst s
  have hn' := (m.maxNestingReached_countedAt pc inst s).trans hn
  rw [hookAt_eq]
  unfold speculateInstruction
  rw [howner]
  generalize m.countedAt pc inst s = h at ha hlog hctx hn'
  have hcode : decode (h.st.mem.read pc size) (h.st.reg .eflags) (h.st.reg .rcx)
      = decodeAt s pc size := by
    rw [ha.mem, ha.reg]
    rfl
  have hdec' : ¬(decodeAt s pc size).1 = 0 := hdec
  simp only [condInstruction, hn', Bool.false_eq_true, if_false, if_neg (Nat.not_lt.mpr hsize),
    hcode, if_neg hdec']
  have hreg : ∀ b : Bool, (if b then h.st.setReg .rcx (decrement (h.st.reg .rcx)) else h.st).reg
      = branchReg s.reg b := by
    intro b
    rw [← ha.reg]
    cases b <;> rfl
  have hsame : ∀ b : Bool, ∃ reg,
      (if b then h.st.setReg .rcx (decrement (h.st.reg .rcx)) else h.st)
        = { h.st with reg := reg } := by
    intro b
    cases b <;> exact ⟨_, rfl⟩
  obtain ⟨reg, hst⟩ := hsame (decodeAt s pc size).2.2
  have hreg' := hreg (decodeAt s pc size).2.2
  rw [hst] at hreg' ⊢
  have hreg'' : reg = branchReg s.reg (decodeAt s pc size).2.2 := hreg'
  subst hreg''
  refine ⟨?_, ⟨[], ?_, ha.mem⟩, rfl, ⟨true, ?_⟩, ha.hadArchFault,
    ha.enableTracing, ha.currTargets, ha.pseudoLstar, ha.currentActor, ?_⟩
  · rw [← ha.checkpoints]
    rfl
  · rw [← ha.storeLogs]
    rfl
  · rw [← macroState_congr ha, ← hlog]
    rfl
  · show h.st.previousContext ≠ none
    rw [hctx]
    exact Option.some_ne_none _

theorem hookAt_bpas (pc size : Nat) (inst : Inst) (h : m.OpensBpas s) (hok : m.PendingOk s) :
    Opened s (m.hookAt pc size inst s).st s.reg pc (.dispatch pc inst :: s.log) := by
  obtain ⟨howner, hn, hp⟩ := h
  obtain ⟨ha, hlog, hctx⟩ := m.countedAt_alike pc inst s
  have hprev := (m.countedAt_spec pc inst s).2.2.2.2.2.2
  have hn' := (m.maxNestingReached_countedAt pc inst s).trans hn
  obtain ⟨q, hq⟩ := Option.ne_none_iff_exists'.mp hp
  obtain ⟨hlen, hfits⟩ := hok.fits q hq
  rw [hookAt_eq]
  unfold speculateInstruction
  rw [howner]
  generalize m.countedAt pc inst s = h at ha hlog hctx hn' hprev
  simp only [bpasInstruction, hn', Bool.false_eq_true, if_false, hprev, hq]
  refine ⟨?_, ⟨[(q.address, q.newValue)], ?_, ?_⟩, rfl, ⟨false, ?_⟩,
    ha.hadArchFault, ha.enableTracing, ha.currTargets, ha.pseudoLstar, ha.currentActor, ?_⟩
  · rw [← ha.checkpoints, ← ha.reg]
    rfl
  · rw [← ha.storeLogs]
    rfl
  · show (h.st.mem.write q.address q.oldValue).write q.address q.newValue = s.mem
    have hback := @write_undo s.mem q.address q.newValue.length q.oldValue (Nat.le_of_eq hlen)
    rw [hfits] at hback
    rw [ha.mem]
    exact hback
  · rw [← macroState_congr ha, ← hlog]
    rfl
  · show h.st.previousContext ≠ none
    rw [hctx]
    exact Option.some_ne_none _

/-- A hook that opens nothing. -/
theorem hookAt_same {pc size : Nat} (inst : Inst) (hcond : ¬m.OpensCond pc size s)
    (hbpas : ¬m.OpensBpas s) :
    ∃ p, m.hookAt pc size inst s
      = { m.countedAt pc inst s with st := (m.countedAt pc inst s).st.withPending p } := by
  obtain ⟨-, -, -, -, hmem, hreg, hprev⟩ := m.countedAt_spec pc inst s
  have hn' := m.maxNestingReached_countedAt pc inst s
  rw [hookAt_eq]
  generalize m.countedAt pc inst s = h at hmem hreg hprev hn'
  unfold speculateInstruction
  split
  · rename_i howner
    rcases condInstruction_cases m.lim pc size inst h with heq | ⟨hn, hsize, hdec, -⟩
    · exact ⟨h.st.previousStore, heq⟩
    · rw [hmem, hreg] at hdec
      exact absurd ⟨howner, hn'.symm.trans hn, hsize, hdec⟩ hcond
  · rename_i howner
    unfold bpasInstruction
    split
    · exact ⟨none, rfl⟩
    · rename_i hmax
      cases hq : h.st.previousStore with
      | none =>
          have hself : h.st.withPending none = h.st := by rw [State.withPending, ← hq]
          refine ⟨none, ?_⟩
          rw [hself]
      | some q =>
          refine absurd ⟨howner, hn'.symm.trans (by simpa using hmax), ?_⟩ hbpas
          rw [← hprev, hq]
          simp
  · exact ⟨h.st.previousStore, rfl⟩

/-- After the hook no store is pending. -/
theorem hookAt_pending (pc size : Nat) (inst : Inst) (hok : m.PendingOk s) :
    (m.hookAt pc size inst s).st.previousStore = none := by
  by_cases ho : m.lim.cls.memAccessOwner = .storeBpasSpeculator
  · rw [hookAt_eq]
    unfold speculateInstruction
    rw [owner_of_memOwner ho]
    exact bpasInstruction_previousStore _ _ _ _
  · exact hookAt_previousStore pc size inst (hok.owner ho)

end Setup

end Rvzr.Unicorn
