import Rvzr.Lib.Stutter
import Rvzr.Unicorn.Progress

/-!
Speculation against the sequential run. A run outside speculation goes in step with the sequential
one; a run in speculation keeps it waiting at the restart address of the outermost checkpoint, and
lowers the rank. The simulation needs that nothing in speculation sets a switch target, which is
what no checkpoint saves.
-/

namespace Rvzr.Unicorn

open Rvzr.Lib

namespace Setup

variable {m : Setup} {pc : Nat} {s s' t t' : State}

/-! ### Opening a level -/

theorem setsTarget_congr {inst : Inst} (ha : s'.currentActor = s.currentActor)
    (ht : s'.currTargets = s.currTargets) (hl : s'.pseudoLstar = s.pseudoLstar) :
    m.SetsTarget pc inst s' ↔ m.SetsTarget pc inst s := by
  unfold SetsTarget
  rw [ha, ht, hl]

theorem entersNoActor_congr {inst : Inst} (ha : s'.currentActor = s.currentActor) :
    m.EntersNoActor pc inst s' ↔ m.EntersNoActor pc inst s := by
  unfold EntersNoActor
  rw [ha]

/-- A further level in speculation. -/
theorem Inside.opened {reg : UcReg → Nat} {next : Nat} {past : List Event} (h : m.Inside pc s t)
    (ho : Opened s s' reg next past) (hsnap : snapshots past = snapshots s.log)
    (harch : archLog past = archLog t.log) (hhome : m.codeAddrToActorId next = s.currentActor) :
    m.Inside pc s' t := by
  have hcp := ho.checkpoints
  obtain ⟨l, hl, hundo⟩ := ho.storeLogs
  obtain ⟨included, hlog⟩ := ho.log
  obtain ⟨cs, c, hcs, hnext, hreg⟩ := h.bottom
  have hsnap' : snapshots past ≠ [] := hsnap ▸ h.snapshots_ne
  refine ⟨h.base, h.home, ho.hadArchFault.trans h.hadArchFault,
    ho.enableTracing.trans h.enableTracing, ho.currTargets.trans h.currTargets,
    ho.pseudoLstar.trans h.pseudoLstar, ho.inSpeculation,
    ⟨_ :: cs, c, by rw [hcp, hcs]; rfl, hnext, hreg⟩, ?_, ?_, ?_, ?_, ho.context⟩
  · rw [hl, hcp, List.length_cons, List.length_cons, h.logs]
  · rw [hl, undoAll_cons, hundo]
    exact h.mem
  · rw [hlog, hcp, List.map_cons, ← h.levels, ← hsnap]
    show s.macroState :: snapshots past = _
    unfold snapshotOf State.macroState
    rw [hhome, h.enableTracing, h.currTargets, h.pseudoLstar]
  · rw [hlog, archLog_cons_in _ hsnap', harch]

/-- The first level: the sequential run waits where the checkpoint restarts. -/
theorem Outside.opened {reg : UcReg → Nat} {next : Nat} {past : List Event} (h : m.Outside s t)
    (ho : Opened s s' reg next past) (hsnap : snapshots past = []) (hb : Base t')
    (ha : Alike { s with reg := reg } t') (harch : archLog past = archLog t'.log)
    (hhome : m.codeAddrToActorId next = s.currentActor) : m.Inside next s' t' := by
  have hcp := ho.checkpoints
  obtain ⟨l, hl, hundo⟩ := ho.storeLogs
  obtain ⟨included, hlog⟩ := ho.log
  rw [h.alike.checkpoints, h.base.checkpoints] at hcp
  rw [h.alike.storeLogs, h.base.storeLogs] at hl
  refine ⟨hb, hhome.trans ha.currentActor, ho.hadArchFault.trans ha.hadArchFault,
    ho.enableTracing.trans ha.enableTracing, ho.currTargets.trans ha.currTargets,
    ho.pseudoLstar.trans ha.pseudoLstar, ho.inSpeculation, ⟨[], _, hcp, rfl, ?_⟩, ?_, ?_, ?_, ?_,
    ho.context⟩
  · have hreg : reg = t'.reg := ha.reg
    rw [← hreg]
    funext r
    show (if r = .eflags then reg .eflags else reg r) = reg r
    split
    · rename_i hr
      rw [hr]
    · rfl
  · rw [hl, hcp]
    rfl
  · rw [hl]
    exact hundo.trans ha.mem
  · rw [hlog, hcp]
    show s.macroState :: snapshots past = [m.snapshotOf t' _]
    have hmac : s.macroState = t'.macroState := @macroState_congr t' { s with reg := reg } ha
    rw [hsnap, hmac]
    unfold snapshotOf
    rw [hhome]
    show [t'.macroState] = [{ t'.macroState with actor := s.currentActor }]
    rw [show s.currentActor = t'.currentActor from ha.currentActor]
    rfl
  · rw [hlog, archLog_cons_out _ hsnap]
    exact harch

/-! ### A step in speculation -/

/-- What the interpreter leaves alone is what a rollback needs. -/
theorem keeps_core {h h' : Hook} (hk : SameHook h h')
    (ht : h'.st.enableTracing = h.st.enableTracing ∧ h'.st.currTargets = h.st.currTargets ∧
      h'.st.pseudoLstar = h.st.pseudoLstar) : SameCore h.st h'.st :=
  ⟨hk.mem, hk.hadArchFault, ht.1, congrArg View.checkpoints hk.view, hk.storeLogs,
    congrArg View.inSpeculation hk.view, ht.2.1, ht.2.2, congrArg View.log hk.view,
    fun hc hn => hc (hk.previousContext.symm.trans hn)⟩

/-- After a hook in speculation: a stop rolls back, anything else stays in speculation. -/
theorem sim_afterHook_inside {pc' : Nat} {inst : Inst} {h : Hook} {r : Interpreted}
    (hin : m.Inside pc h.st t) (hs : Settled h.st.log) (hprev : h.st.previousStore = none)
    (hr : r.Keeps h) (ht : r.KeepsTargets h) (hcrash : r ≠ .crash) (s₀ : State)
    (hok : ∀ h', r = .ok h' → h'.stop = false → h'.jump = none →
      ExecOk m pc' inst h'.st (m.uc.exec h'.st.emulator pc')) :
    Sim m (m.afterHook pc' inst r s₀) (.emu pc, t) := by
  cases r with
  | crash => exact absurd rfl hcrash
  | fault errno h' =>
      have hcore := keeps_core hr ht
      exact sim_afterFault errno (hin.congr hcore) (hcore.log ▸ hs)
  | ok h' =>
      have hcore := keeps_core hr ht
      have hin' := hin.congr hcore
      have hs' : Settled h'.st.log := hcore.log ▸ hs
      have hprev' : h'.st.previousStore = none := hr.previousStore.trans hprev
      simp only [afterHook]
      split
      · exact sim_afterStop hin' hs'
      · rename_i hstop
        cases hj : h'.jump with
        | some pc'' =>
            show Sim m (.emu pc'', if h'.included then h'.st else h'.st.record (.execute pc' inst))
              (.emu pc, t)
            split
            · exact .inside hin' hs' (m.pendingOk_of_none hprev')
            · have hset : Settled (h'.st.record (.execute pc' inst)).log := hs'.cons (by simp)
              exact .inside (hin'.record (e := .execute pc' inst) rfl) hset
                (m.pendingOk_of_none hprev')
        | none =>
            exact sim_execute_inside hin' hs' (m.pendingOk_of_none hprev') (fun _ => hprev')
              (hok h' rfl (by simpa using hstop) hj)

/-- The hook in speculation: it counts the instruction and opens at most one more level. -/
theorem inside_hookAt {pc' size : Nat} (inst : Inst) (h : m.Inside pc s t) (hs : Settled s.log)
    (hpend : m.PendingOk s) (hhome : m.codeAddrToActorId pc' = s.currentActor)
    (hbranch : m.OpensCond pc' size s → m.BranchOk pc' size inst s) :
    m.Inside pc (m.hookAt pc' size inst s).st t ∧ Settled (m.hookAt pc' size inst s).st.log ∧
      (m.hookAt pc' size inst s).st.currentActor = s.currentActor ∧
      (m.hookAt pc' size inst s).st.currTargets = s.currTargets ∧
      (m.hookAt pc' size inst s).st.pseudoLstar = s.pseudoLstar := by
  have hd : Settled (.dispatch pc' inst :: s.log) := hs.cons (by simp)
  have harch : archLog (.dispatch pc' inst :: s.log) = archLog t.log :=
    (archLog_cons_in _ h.snapshots_ne).trans h.arch
  by_cases hcond : m.OpensCond pc' size s
  · have ho := hookAt_cond inst hcond
    have hset : Settled (m.hookAt pc' size inst s).st.log := by
      obtain ⟨included, hlog⟩ := ho.log
      rw [hlog]
      exact (hd.cons (e := .execute pc' inst) (by simp)).cons (by simp)
    have harch' : archLog (.execute pc' inst :: .dispatch pc' inst :: s.log) = archLog t.log :=
      (archLog_cons_in (l := .dispatch pc' inst :: s.log) _ h.snapshots_ne).trans harch
    exact ⟨h.opened ho rfl harch' (hbranch hcond).inside, hset, ho.currentActor, ho.currTargets,
      ho.pseudoLstar⟩
  · by_cases hbpas : m.OpensBpas s
    · have ho := hookAt_bpas pc' size inst hbpas hpend
      have hset : Settled (m.hookAt pc' size inst s).st.log := by
        obtain ⟨included, hlog⟩ := ho.log
        rw [hlog]
        exact hd.cons (by simp)
      exact ⟨h.opened ho rfl harch hhome, hset, ho.currentActor, ho.currTargets, ho.pseudoLstar⟩
    · obtain ⟨p, hhook⟩ := hookAt_same inst hcond hbpas
      obtain ⟨ha, hlog, hctx⟩ := m.countedAt_alike pc' inst s
      rw [hhook]
      have hcore : SameCore (s.record (.dispatch pc' inst))
          ((m.countedAt pc' inst s).st.withPending p) :=
        ⟨ha.mem, ha.hadArchFault, ha.enableTracing, ha.checkpoints, ha.storeLogs,
          ha.inSpeculation, ha.currTargets, ha.pseudoLstar, hlog,
          fun _ hn => nomatch hctx.symm.trans hn⟩
      exact ⟨(h.record (e := .dispatch pc' inst) rfl).congr hcore, hlog ▸ hd, ha.currentActor,
        ha.currTargets, ha.pseudoLstar⟩

/-- **One emulator step in speculation.** The sequential run does not move. -/
theorem sim_emu_inside {pc' : Nat} (hsec : m.InSection) (h : m.Inside pc s t) (hs : Settled s.log)
    (hpend : m.PendingOk s) (hok : m.StepOk (.emu pc', s)) (hkeep : m.TargetsKept (.emu pc', s)) :
    Sim m (m.emuStep pc' s) (.emu pc, t) := by
  rcases m.emuStep_cases pc' s with hstop | ⟨-, errno, -, heq⟩ |
    ⟨hend, ⟨size, hfetch⟩, hexit, hno⟩ | ⟨size, inst, hat⟩
  · rw [emuStep_stop hstop]
    exact sim_afterStop h hs
  · rw [heq]
    exact sim_afterFault errno h hs
  · exact absurd hno (hok.found pc' size rfl h.inSpeculation hend hfetch hexit)
  · rw [emuStep_at hat]
    have hexec := hok.exec pc' size inst
    cases hplace : inst.isMacroPlaceholder with
    | true =>
        rw [if_pos rfl]
        have hcore : SameCore s { s with previousContext := some s.reg } :=
          ⟨rfl, rfl, rfl, rfl, rfl, rfl, rfl, rfl, rfl, fun _ => nofun⟩
        have hhanded : m.handedOn pc' size inst s = some { s with previousContext := some s.reg } := by
          unfold handedOn
          rw [hplace]
          rfl
        exact sim_execute_inside (h.congr hcore) hs ⟨hpend.fits, hpend.owner⟩
          (fun hno => absurd (hplace.symm.trans hno) (by simp)) (hexec _ rfl hat hhanded)
    | false =>
        rw [if_neg (by simp)]
        obtain ⟨hin, hset, hactor, htargets, hlstar⟩ := inside_hookAt inst h hs hpend
          (home_of_found hsec hat) (hok.branch pc' size inst rfl hat hplace)
        have hno : ¬m.SetsTarget pc' inst (m.hookAt pc' size inst s).st := fun hsets =>
          hkeep pc' size inst rfl hat hplace hin.inSpeculation
            ((setsTarget_congr hactor htargets hlstar).mp hsets)
        have hactors : ¬m.EntersNoActor pc' inst (m.hookAt pc' size inst s).st := fun henters =>
          hok.actor pc' size inst rfl hat hplace hin.inSpeculation
            ((entersNoActor_congr hactor).mp henters)
        refine sim_afterHook_inside hin hset (hookAt_pending pc' size inst hpend)
          (interpretInstruction_keeps pc' inst _)
          (interpretInstruction_keepsTargets hin.inSpeculation hno)
          (interpretInstruction_ne_crash hactors) _ ?_
        intro h' hr hstop hjump
        apply hexec h'.st rfl hat
        unfold handedOn
        rw [hplace, hr]
        simp [hstop, hjump]

/-! ### A step outside speculation

The two runs execute the same instruction. Only `previousContext` matters of the shadow, and the hook
has set it in both. -/

section Outside

variable {b : Nat}

/-- A pair of states after a common event. -/
theorem Outside.after (h : m.Outside s t) {e : Event} (he : e.flat) (ha : Alike s' t')
    (hcp : t'.checkpoints = t.checkpoints) (hsl : t'.storeLogs = t.storeLogs)
    (hsp : t'.inSpeculation = t.inSpeculation) (hlog : s'.log = e :: s.log)
    (hlog' : t'.log = e :: t.log) (hp : m.PendingOk s') : m.Outside s' t' := by
  have hrec := h.record e he
  refine ⟨ha, ⟨hcp.trans h.base.checkpoints, hsl.trans h.base.storeLogs,
    hsp.trans h.base.inSpeculation, ?_⟩, ?_, ?_, ?_, hp⟩
  · rw [hlog']
    exact hrec.base.flat
  · rw [hlog]
    exact hrec.flat
  · rw [hlog, hlog']
    exact hrec.arch
  · rw [hlog]
    exact hrec.settled

/-- The two states change alike, and nothing is logged. -/
theorem Outside.same (h : m.Outside s t) (ha : Alike s' t') (hcp : t'.checkpoints = t.checkpoints)
    (hsl : t'.storeLogs = t.storeLogs) (hsp : t'.inSpeculation = t.inSpeculation)
    (hlog : s'.log = s.log) (hlog' : t'.log = t.log) (hp : m.PendingOk s') : m.Outside s' t' :=
  ⟨ha, ⟨hcp.trans h.base.checkpoints, hsl.trans h.base.storeLogs, hsp.trans h.base.inSpeculation,
    (congrArg snapshots hlog').trans h.base.flat⟩, (congrArg snapshots hlog).trans h.flat,
    (congrArg archLog hlog).trans (h.arch.trans (congrArg archLog hlog').symm),
    hlog ▸ h.settled, hp⟩

theorem sim_afterStop_outside (h : m.Outside s t) : Sim m (afterStop s) (afterStop t) := by
  have hspec := h.alike.inSpeculation.trans h.base.inSpeculation
  unfold afterStop
  rw [hspec, h.base.inSpeculation]
  exact .outside h

theorem sim_handleFault_outside (errno : Nat) (h : m.Outside s t) :
    Sim m (m.handleFault errno s) (m.handleFault errno t) := by
  have ha := h.alike
  have hs : ¬s.inSpeculation = true := by simp [ha.inSpeculation, h.base.inSpeculation]
  have ht : ¬t.inSpeculation = true := by simp [h.base.inSpeculation]
  have hfault : m.Outside { s with hadArchFault := true } { t with hadArchFault := true } :=
    h.same ⟨ha.mem, ha.reg, ha.currentActor, rfl, ha.enableTracing, ha.checkpoints, ha.storeLogs,
      ha.inSpeculation, ha.currTargets, ha.pseudoLstar⟩ rfl rfl rfl rfl rfl
      (h.pending.congr rfl rfl)
  unfold handleFault
  rw [if_neg hs, if_neg ht, ha.hadArchFault]
  split
  · exact .outside h
  · split
    · split
      · exact .outside hfault
      · exact .outside hfault
    · exact .outside hfault

theorem sim_afterFault_outside (errno : Nat) (h : m.Outside s t)
    (hctx : s.previousContext = t.previousContext) :
    Sim m (m.afterFault errno s) (m.afterFault errno t) := by
  unfold afterFault
  rw [hctx]
  cases t.previousContext with
  | none => exact .outside h
  | some context =>
      have hreg : Alike { s with reg := context } { t with reg := context } := by
        have hst := h.alike
        exact ⟨hst.mem, rfl, hst.currentActor, hst.hadArchFault, hst.enableTracing,
          hst.checkpoints, hst.storeLogs, hst.inSpeculation, hst.currTargets, hst.pseudoLstar⟩
      have hs := alike_addToTrace { s with reg := context }
        (.mem (getDataAddr m.dataStart .rspInit 0))
      have ht := alike_addToTrace { t with reg := context }
        (.mem (getDataAddr m.dataStart .rspInit 0))
      apply sim_handleFault_outside
      exact h.same ((hs.trans hreg).trans ht.symm) ht.checkpoints ht.storeLogs ht.inSpeculation
        (addToTrace_log _ _) (addToTrace_log _ _)
        (h.pending.congr hs.mem (addToTrace_previousStore _ _))

theorem logStore_alike (h : m.Outside s t) (a : Access) : Alike (logStore s a) (logStore t a) := by
  have ha := h.alike
  cases a with
  | read address size => exact ha
  | unmapped address size => exact ha
  | write address bytes =>
      refine ⟨ha.mem, ha.reg, ha.currentActor, ha.hadArchFault, ha.enableTracing, ha.checkpoints,
        ?_, ha.inSpeculation, ha.currTargets, ha.pseudoLstar⟩
      show s.storeLogs.modifyHead _ = t.storeLogs.modifyHead _
      rw [ha.storeLogs, h.base.storeLogs]
      rfl

/-- Outside speculation no store is logged. -/
theorem logStore_base (h : Base t) (a : Access) : logStore t a = t := by
  cases a with
  | read address size => rfl
  | unmapped address size => rfl
  | write address bytes =>
      have hlogs : t.storeLogs.modifyHead (fun l => (address, t.mem.read address 8) :: l)
          = t.storeLogs := by
        rw [h.storeLogs]
        rfl
      show { t with storeLogs := t.storeLogs.modifyHead _ } = t
      rw [hlogs]

theorem Outside.dispatched {a : Access} (h : m.Outside s t) (hd : Dispatched m a s s')
    (hd' : Dispatched (m.under .seqSpeculator b) a t t') (hp : m.PendingOk s') :
    m.Outside s' t' := by
  have ht := hd'.alike
  rw [logStore_base h.base] at ht
  exact h.after (e := .access a) rfl ((hd.alike.trans (logStore_alike h a)).trans hd'.alike.symm)
    ht.checkpoints ht.storeLogs ht.inSpeculation hd.log hd'.log hp

/-- One access in both runs. -/
theorem outside_performAccess {inst : Inst} (hplace : inst.isMacroPlaceholder = false) (a : Access)
    (h : m.Outside s t) (hctx : s.previousContext = t.previousContext)
    (hnone : m.lim.cls.memAccessOwner = .storeBpasSpeculator → a.isWrite = true →
      s.previousStore = none) :
    ∃ s' t', m.performAccess inst s a = some s' ∧
      (m.under .seqSpeculator b).performAccess inst t a = some t' ∧
      m.Outside s' t' ∧ s'.previousContext = t'.previousContext := by
  obtain ⟨s', hs'⟩ := performAccess_defined inst a hnone
  obtain ⟨t', ht'⟩ := performAccess_defined (m := m.under .seqSpeculator b) (s := t) inst a
    fun ho => absurd ho seq_memAccessOwner
  have hpend := pending_performAccess hplace hs' h.pending hnone
  refine ⟨s', t', hs', ht', ?_⟩
  rcases performAccess_cases hplace hs' with ⟨hw, hd⟩ | ⟨address, bytes, s₁, rfl, hd, rfl⟩
  · rcases performAccess_cases hplace ht' with ⟨-, hd'⟩ | ⟨address, bytes, t₁, rfl, -, -⟩
    · exact ⟨h.dispatched hd hd' hpend,
        hd.previousContext.trans (hctx.trans hd'.previousContext.symm)⟩
    · exact nomatch hw
  · rcases performAccess_cases hplace ht' with ⟨hw, -⟩ | ⟨address', bytes', t₁, heq, hd', rfl⟩
    · exact nomatch hw
    · cases heq
      have ht := hd'.alike
      rw [logStore_base h.base] at ht
      have ha := (hd.alike.trans (logStore_alike h _)).trans hd'.alike.symm
      refine ⟨h.after (e := .access (.write address bytes)) rfl
        ⟨congrArg (fun mem : Mem => mem.write address bytes) ha.mem, ha.reg, ha.currentActor,
          ha.hadArchFault, ha.enableTracing, ha.checkpoints, ha.storeLogs, ha.inSpeculation,
          ha.currTargets, ha.pseudoLstar⟩
        ht.checkpoints ht.storeLogs ht.inSpeculation hd.log hd'.log hpend, ?_⟩
      exact hd.previousContext.trans (hctx.trans hd'.previousContext.symm)

/-- The accesses of an instruction in both runs. -/
theorem outside_performAll {inst : Inst} (hplace : inst.isMacroPlaceholder = false)
    (as : List Access) (h : m.Outside s t) (hctx : s.previousContext = t.previousContext)
    (hone : m.lim.cls.memAccessOwner = .storeBpasSpeculator →
      as.countP Access.isWrite ≤ 1 ∧ (0 < as.countP Access.isWrite → s.previousStore = none)) :
    ∃ s' t', as.foldlM (m.performAccess inst) s = some s' ∧
      as.foldlM ((m.under .seqSpeculator b).performAccess inst) t = some t' ∧
      m.Outside s' t' ∧ s'.previousContext = t'.previousContext := by
  induction as generalizing s t with
  | nil => exact ⟨s, t, rfl, rfl, h, hctx⟩
  | cons a as ih =>
      obtain ⟨s₁, t₁, hs₁, ht₁, h₁, hctx₁⟩ := outside_performAccess (b := b) hplace a h hctx
        fun ho hw => (hone ho).2 (by rw [List.countP_cons_of_pos hw]; omega)
      rw [List.foldlM_cons, List.foldlM_cons, hs₁, ht₁]
      exact ih h₁ hctx₁ fun ho => single_rest hplace hs₁ (hone ho)

theorem sim_execute_outside {inst : Inst} (h : m.Outside s t)
    (hctx : s.previousContext = t.previousContext)
    (hnone : inst.isMacroPlaceholder = false → s.previousStore = none)
    (hok : ExecOk m pc inst s (m.uc.exec s.emulator pc)) :
    Sim m (m.execute pc inst s) ((m.under .seqSpeculator b).execute pc inst t) := by
  have hem : t.emulator = s.emulator := by
    unfold State.emulator
    rw [h.alike.mem, h.alike.reg]
  have hrec := h.record (.execute pc inst) rfl
  have hall : ∃ s' t', (m.uc.exec s.emulator pc).accesses.foldlM (m.performAccess inst)
        (s.record (.execute pc inst)) = some s' ∧
      (m.uc.exec s.emulator pc).accesses.foldlM ((m.under .seqSpeculator b).performAccess inst)
        (t.record (.execute pc inst)) = some t' ∧
      m.Outside s' t' ∧ s'.previousContext = t'.previousContext := by
    cases hplace : inst.isMacroPlaceholder with
    | true =>
        exact ⟨_, _, performAll_placeholder hplace (hok.placeholder hplace).1,
          performAll_placeholder hplace (hok.placeholder hplace).1, hrec, hctx⟩
    | false =>
        exact outside_performAll hplace _ hrec hctx fun ho =>
          ⟨hok.performed ho, fun _ => hnone hplace⟩
  obtain ⟨s', t', hs', ht', hout, hctx'⟩ := hall
  have huc : (m.under .seqSpeculator b).uc = m.uc := rfl
  unfold execute
  rw [huc, hem, hs', ht']
  simp only
  have ha := hout.alike
  cases ho : (m.uc.exec s.emulator pc).outcome with
  | done reg pc' =>
      exact .outside (hout.same ⟨ha.mem, rfl, ha.currentActor, ha.hadArchFault, ha.enableTracing,
        ha.checkpoints, ha.storeLogs, ha.inSpeculation, ha.currTargets, ha.pseudoLstar⟩ rfl rfl rfl
        rfl rfl (hout.pending.congr rfl rfl))
  | fault errno attempt =>
      have howner : m.lim.cls.memAccessOwner ≠ .storeBpasSpeculator := by
        intro hb
        obtain ⟨reg, pc', hdone⟩ := hok.noFault hb
          (h.alike.inSpeculation.trans h.base.inSpeculation)
        exact nomatch ho.symm.trans hdone
      cases attempt with
      | none => exact sim_afterFault_outside errno hout hctx'
      | some a =>
          cases hplace : inst.isMacroPlaceholder with
          | true =>
              simp only [afterExec, memAccessDispatch, hplace, if_true]
              exact sim_afterFault_outside errno hout hctx'
          | false =>
              obtain ⟨s₁, hs₁⟩ := memAccessDispatch_defined (m := m) (s := s') inst a
                fun hb => absurd hb howner
              obtain ⟨t₁, ht₁⟩ := memAccessDispatch_defined (m := m.under .seqSpeculator b) (s := t')
                inst a fun hb => absurd hb seq_memAccessOwner
              have hd := memAccessDispatch_cases hplace hs₁
              have hd' := memAccessDispatch_cases hplace ht₁
              simp only [afterExec, hs₁, ht₁]
              have hpend := m.pendingOk_of_none
                ((hd.owner howner).trans (hout.pending.owner howner))
              exact sim_afterFault_outside errno (hout.dispatched hd hd' hpend)
                (hd.previousContext.trans (hctx'.trans hd'.previousContext.symm))

theorem hook_ext {h h' : Hook} (hst : h.st = h'.st) (hstop : h.stop = h'.stop)
    (hjump : h.jump = h'.jump) (hincl : h.included = h'.included) : h = h' := by
  cases h
  cases h'
  simp only at hst hstop hjump hincl
  subst hst hstop hjump hincl
  rfl

/-- A hook with another shadow. -/
def hookWithShadow (g : Shadow) (h : Hook) : Hook := { h with st := h.st.withShadow g }

def Interpreted.withShadow (g : Shadow) : Interpreted → Interpreted
  | .ok h => .ok (hookWithShadow g h)
  | .fault errno h => .fault errno (hookWithShadow g h)
  | .crash => .crash

variable (g : Shadow)

theorem switchTo_shadow (target sid : Nat) (h : Hook) :
    m.switchTo target sid (hookWithShadow g h) = (m.switchTo target sid h).withShadow g := by
  unfold switchTo
  split
  · rfl
  · rfl

theorem setTarget_shadow (key : SwitchKey) (sid fid : Nat) (h : Hook) :
    m.setTarget key sid fid (hookWithShadow g h) = (m.setTarget key sid fid h).withShadow g := by
  unfold setTarget
  split
  · rfl
  · rfl

theorem clobberRax_shadow (r : Interpreted) :
    m.clobberRax (r.withShadow g) = (m.clobberRax r).withShadow g := by
  cases r with
  | ok h =>
      unfold clobberRax Interpreted.withShadow
      cases m.isAmd <;> rfl
  | fault errno h => rfl
  | crash => rfl

theorem macroCallback_shadow (name : MacroName) (sid fid : Nat) (h : Hook) :
    m.macroCallback name sid fid (hookWithShadow g h)
      = (m.macroCallback name sid fid h).withShadow g := by
  cases name with
  | measurementStart | measurementEnd =>
      have hspec : (hookWithShadow g h).st.inSpeculation = h.st.inSpeculation := rfl
      simp only [macroCallback, hspec]
      cases h.st.inSpeculation <;> rfl
  | switch =>
      simp only [macroCallback]
      cases m.functionAddr sid fid with
      | none => rfl
      | some a => exact switchTo_shadow g a sid h
  | switchK2u | switchU2k => exact switchTo_shadow g _ sid h
  | switchG2h =>
      simp only [macroCallback]
      rw [← clobberRax_shadow, ← switchTo_shadow]
      rfl
  | switchH2g =>
      simp only [macroCallback]
      rw [← clobberRax_shadow, ← switchTo_shadow]
      rfl
  | setK2uTarget | setH2gTarget | setG2hTarget => exact setTarget_shadow g _ sid fid h
  | setU2kTarget =>
      have hactor : (hookWithShadow g h).st.currentActor = h.st.currentActor := rfl
      simp only [macroCallback, hactor]
      split
      · rfl
      · cases m.functionAddr sid fid <;> rfl
  | landingK2u | landingU2k => rfl
  | landingH2g | landingG2h | setDataPermissions | faultHandler | unknown => rfl

/-- The interpreter does not look at the shadow. -/
theorem interpretInstruction_shadow (pc : Nat) (inst : Inst) (h : Hook) :
    m.interpretInstruction pc inst (hookWithShadow g h)
      = (m.interpretInstruction pc inst h).withShadow g := by
  have hmac : (if inst.name = "macro" then m.interpretMacro pc inst (hookWithShadow g h)
        else .ok (hookWithShadow g h))
      = (if inst.name = "macro" then m.interpretMacro pc inst h else .ok h).withShadow g := by
    split
    · have hactor : (hookWithShadow g h).st.currentActor = h.st.currentActor := rfl
      unfold interpretMacro
      rw [hactor]
      cases m.macroArgs h.st.currentActor (pc - m.sectionStart h.st.currentActor) with
      | none => rfl
      | some args => exact macroCallback_shadow g inst.macroName args.1 args.2 h
    · rfl
  unfold interpretInstruction
  simp only [hmac]
  cases (if inst.name = "macro" then m.interpretMacro pc inst h else .ok h) with
  | ok h' =>
      have hactor : (hookWithShadow g h').st.currentActor = h'.st.currentActor := rfl
      simp only [Interpreted.withShadow, hactor]
      cases m.softFault h'.st.currentActor pc <;> rfl
  | fault errno h' => rfl
  | crash => rfl

/-- After the hook of an instruction that opens nothing. -/
theorem sim_afterHook_outside {inst : Inst} {h₀ : Hook} {r : Interpreted} (hr : r.Keeps h₀)
    (hout : m.Outside (h₀.st.withShadow g) h₀.st) (hctx : g.previousContext = h₀.st.previousContext)
    (hprev : g.previousStore = none) (hincl : h₀.included = false) (hst : m.Outside s t)
    (hok : ∀ h', r = .ok h' → h'.stop = false → h'.jump = none →
      ExecOk m pc inst (h'.st.withShadow g) (m.uc.exec (h'.st.withShadow g).emulator pc)) :
    Sim m (m.afterHook pc inst (r.withShadow g) s)
      ((m.under .seqSpeculator b).afterHook pc inst r t) := by
  have hkeep : ∀ h', SameHook h₀ h' → m.Outside (h'.st.withShadow g) h'.st := fun h' hk =>
    hout.same (alike_withShadow _ g) (congrArg View.checkpoints hk.view) hk.storeLogs
      (congrArg View.inSpeculation hk.view) rfl (congrArg View.log hk.view)
      (m.pendingOk_of_none hprev)
  cases r with
  | crash => exact .outside hst
  | fault errno h' =>
      exact sim_afterFault_outside errno (hkeep h' hr) (hctx.trans hr.previousContext.symm)
  | ok h' =>
      have hout' := hkeep h' hr
      have hincl' : h'.included = false := hr.included.trans hincl
      simp only [Interpreted.withShadow, hookWithShadow, afterHook]
      cases hstop : h'.stop with
      | true => exact sim_afterStop_outside hout'
      | false =>
          cases hj : h'.jump with
          | some pc' =>
              simp only [hincl', Bool.false_eq_true, if_false]
              exact .outside (hout'.record (.execute pc inst) rfl)
          | none =>
              exact sim_execute_outside hout' (hctx.trans hr.previousContext.symm)
                (fun _ => hprev) (hok h' rfl hstop hj)

/-- An instruction outside speculation at which nothing is opened. -/
theorem sim_hook_same {size : Nat} {inst : Inst} (h : m.Outside s t)
    (hplace : inst.isMacroPlaceholder = false) (hcond : ¬m.OpensCond pc size s)
    (hbpas : ¬m.OpensBpas s)
    (hok : ∀ s', m.handedOn pc size inst s = some s' →
      ExecOk m pc inst s' (m.uc.exec s'.emulator pc)) :
    Sim m (m.afterHook pc inst (m.interpretInstruction pc inst (m.hookAt pc size inst s))
        { s with previousContext := some s.reg })
      ((m.under .seqSpeculator b).afterHook pc inst (m.interpretInstruction pc inst
        ((m.under .seqSpeculator b).hookAt pc size inst t))
        { t with previousContext := some t.reg }) := by
  have hspec : s.inSpeculation = false := h.alike.inSpeculation.trans h.base.inSpeculation
  obtain ⟨p, hhook⟩ := hookAt_same inst hcond hbpas
  have hprev := hookAt_pending pc size inst h.pending
  obtain ⟨ha, hlog, hctx⟩ := m.countedAt_alike pc inst s
  obtain ⟨ha', hlog', hctx'⟩ := m.countedAt_alike pc inst t
  obtain ⟨-, hstop, hincl, hjump, -⟩ := m.countedAt_spec pc inst s
  obtain ⟨-, hstop', hincl', hjump', -⟩ := m.countedAt_spec pc inst t
  have hseq : (m.under .seqSpeculator b).hookAt pc size inst t = m.countedAt pc inst t := by
    rw [hookAt_seq, countedAt_under pc inst h.base.inSpeculation]
  have hpend : Alike (m.hookAt pc size inst s).st s := by
    rw [hhook]
    exact ⟨ha.mem, ha.reg, ha.currentActor, ha.hadArchFault, ha.enableTracing, ha.checkpoints,
      ha.storeLogs, ha.inSpeculation, ha.currTargets, ha.pseudoLstar⟩
  have halike := (hpend.trans h.alike).trans ha'.symm
  have hnoStop : ∀ u : State, u.inSpeculation = false → stopRequested m.lim inst u.view = false := by
    intro u hu
    simp [stopRequested, State.view, hu]
  -- the hook in the run is that of the sequential run under another shadow
  have hshadow : m.hookAt pc size inst s
      = hookWithShadow (m.hookAt pc size inst s).st.shadow (m.countedAt pc inst t) := by
    apply hook_ext
    · exact halike.eq
    · rw [hhook]
      exact (hstop.trans (hnoStop s hspec)).trans (hstop'.trans (hnoStop t h.base.inSpeculation)).symm
    · rw [hhook]
      exact hjump.trans hjump'.symm
    · rw [hhook]
      exact hincl.trans hincl'.symm
  have hout : m.Outside (m.hookAt pc size inst s).st (m.countedAt pc inst t).st := by
    refine h.after (e := .dispatch pc inst) rfl halike ha'.checkpoints ha'.storeLogs
      ha'.inSpeculation ?_ hlog' (m.pendingOk_of_none hprev)
    rw [hhook]
    exact hlog
  have hctxs : (m.hookAt pc size inst s).st.shadow.previousContext
      = (m.countedAt pc inst t).st.previousContext := by
    have hs : (m.hookAt pc size inst s).st.previousContext = some s.reg := by
      rw [hhook]
      exact hctx
    exact hs.trans ((congrArg some h.alike.reg).trans hctx'.symm)
  have hstart : m.Outside { s with previousContext := some s.reg }
      { t with previousContext := some t.reg } := by
    have hst := h.alike
    exact h.same ⟨hst.mem, hst.reg, hst.currentActor, hst.hadArchFault, hst.enableTracing,
      hst.checkpoints, hst.storeLogs, hst.inSpeculation, hst.currTargets, hst.pseudoLstar⟩ rfl rfl
      rfl rfl rfl (h.pending.congr rfl rfl)
  have hinterpret : m.interpretInstruction pc inst (m.hookAt pc size inst s)
      = (m.interpretInstruction pc inst (m.countedAt pc inst t)).withShadow
        (m.hookAt pc size inst s).st.shadow := by
    rw [← interpretInstruction_shadow, ← hshadow]
  rw [hseq, hinterpret]
  refine sim_afterHook_outside _ (interpretInstruction_keeps pc inst _) ?_ hctxs hprev hincl' hstart
    ?_
  · rw [← halike.eq]
    exact hout
  · intro h' hr hst hj
    apply hok
    unfold handedOn
    rw [hplace, hinterpret, hr]
    simp [Interpreted.withShadow, hookWithShadow, hst, hj]

/-- The two emulators are at the same instruction. -/
theorem at_seq {size : Nat} {inst : Inst} (h : Alike s t) (hat : m.AtInstruction pc size inst s) :
    (m.under .seqSpeculator b).AtInstruction pc size inst t := by
  refine ⟨hat.notEnd, ?_, ?_, ?_⟩
  · rw [← h.mem]
    exact hat.fetch
  · rw [← hat.notExit]
    unfold isExitAddr
    rw [h.currentActor]
    rfl
  · rw [← h.currentActor]
    exact hat.found

/-- A conditional jump: the sequential run takes it and waits at its target. -/
theorem sim_hook_cond {size : Nat} {inst : Inst} (huc : JumpsAsDecoded m.uc)
    (hsec : m.InSection) (h : m.Outside s t) (hat : m.AtInstruction pc size inst s)
    (hcond : m.OpensCond pc size s) (hok : m.BranchOk pc size inst s) :
    Sim m (m.afterHook pc inst (m.interpretInstruction pc inst (m.hookAt pc size inst s))
        { s with previousContext := some s.reg })
      ((m.under .seqSpeculator b).afterHook pc inst (m.interpretInstruction pc inst
        ((m.under .seqSpeculator b).hookAt pc size inst t))
        { t with previousContext := some t.reg }) := by
  have hspec : s.inSpeculation = false := h.alike.inSpeculation.trans h.base.inSpeculation
  have hseq : (m.under .seqSpeculator b).hookAt pc size inst t = m.countedAt pc inst t := by
    rw [hookAt_seq, countedAt_under pc inst h.base.inSpeculation]
  obtain ⟨ha', hlog', -⟩ := m.countedAt_alike pc inst t
  obtain ⟨-, hstop', -, hjump', -⟩ := m.countedAt_spec pc inst t
  have hopened := hookAt_cond inst hcond
  have hplain : ∀ h' : Hook, h'.st.currentActor = s.currentActor →
      m.interpretInstruction pc inst h' = .ok h' := by
    intro h' hactor
    unfold interpretInstruction
    simp only [if_neg hok.plain.1, hactor, hok.plain.2]
  -- the run goes on at the wrong successor
  have hrun : ∃ pc', m.afterHook pc inst (m.interpretInstruction pc inst (m.hookAt pc size inst s))
      { s with previousContext := some s.reg } = (.emu pc', (m.hookAt pc size inst s).st) := by
    rw [hplain _ hopened.currentActor]
    obtain ⟨hstop, hcases⟩ := m.hookAt_cases pc size inst s
    have hgo : (m.hookAt pc size inst s).stop = false := by
      rw [hstop]
      simp [stopRequested, State.view, hspec]
    rcases hcases with ⟨hv, -⟩ | ⟨-, -, hincl, hjump⟩ | ⟨ho, -⟩
    · have hlt : s.checkpoints.length < (m.hookAt pc size inst s).st.checkpoints.length :=
        hookAt_opensCond hcond
      have hcp : (m.hookAt pc size inst s).st.checkpoints = s.checkpoints :=
        congrArg View.checkpoints hv
      rw [hcp] at hlt
      exact absurd hlt (Nat.lt_irrefl _)
    · obtain ⟨pc', hpc'⟩ := Option.isSome_iff_exists.mp hjump
      refine ⟨pc', ?_⟩
      simp only [afterHook, hgo, hpc', hincl, Bool.false_eq_true, if_false, if_true]
    · exact absurd (hcond.1.symm.trans ho.1) (by decide)
  -- the sequential run executes the jump
  have hdecode : decodeAt t pc size = decodeAt s pc size := by
    unfold decodeAt
    rw [h.alike.mem, h.alike.reg]
  have hexec : m.uc.exec (m.countedAt pc inst t).st.emulator pc
      = ⟨[], .done (branchReg s.reg (decodeAt s pc size).2.2)
        (branchNext pc size (decodeAt s pc size))⟩ := by
    have hem : (m.countedAt pc inst t).st.emulator = s.emulator := by
      unfold State.emulator
      rw [ha'.mem, ha'.reg, h.alike.mem, h.alike.reg]
    rw [hem]
    exact huc s.emulator pc size hat.fetch hcond.2.2.1 hcond.2.2.2 hok.forward (hok.lt hsec hat)
  have hseqRun : (m.under .seqSpeculator b).afterHook pc inst (m.interpretInstruction pc inst
      ((m.under .seqSpeculator b).hookAt pc size inst t)) { t with previousContext := some t.reg }
      = (.emu (branchNext pc size (decodeAt s pc size)),
          { (m.countedAt pc inst t).st.record (.execute pc inst) with
            reg := branchReg s.reg (decodeAt s pc size).2.2 }) := by
    rw [hseq, hplain _ (ha'.currentActor.trans h.alike.currentActor.symm)]
    have hgo : (m.countedAt pc inst t).stop = false := by
      rw [hstop']
      simp [stopRequested, State.view, h.base.inSpeculation]
    simp only [afterHook, hgo, hjump', Bool.false_eq_true, if_false]
    unfold execute
    rw [show (m.under .seqSpeculator b).uc = m.uc from rfl, hexec]
    rfl
  obtain ⟨pc', hpc'⟩ := hrun
  rw [hpc', hseqRun]
  have hboth := (h.record (.dispatch pc inst) rfl).record (.execute pc inst) rfl
  have ha := h.alike
  have hin : m.Inside (branchNext pc size (decodeAt s pc size)) (m.hookAt pc size inst s).st
      { (m.countedAt pc inst t).st.record (.execute pc inst) with
        reg := branchReg s.reg (decodeAt s pc size).2.2 } := by
    refine h.opened hopened hboth.flat ⟨ha'.checkpoints.trans h.base.checkpoints,
      ha'.storeLogs.trans h.base.storeLogs, ha'.inSpeculation.trans h.base.inSpeculation, ?_⟩ ?_ ?_
      hok.inside
    · show snapshots (.execute pc inst :: (m.countedAt pc inst t).st.log) = []
      rw [hlog']
      exact hboth.base.flat
    · have hst := h.alike.trans ha'.symm
      exact ⟨hst.mem, rfl, hst.currentActor, hst.hadArchFault, hst.enableTracing,
        hst.checkpoints, hst.storeLogs, hst.inSpeculation, hst.currTargets, hst.pseudoLstar⟩
    · show _ = archLog (.execute pc inst :: (m.countedAt pc inst t).st.log)
      rw [hlog']
      exact hboth.arch
  have hset : Settled (m.hookAt pc size inst s).st.log := by
    obtain ⟨included, hlog⟩ := hopened.log
    rw [hlog]
    exact hboth.settled.cons (by simp)
  exact .inside hin hset (m.pendingOk_of_none (hookAt_pending pc size inst h.pending))

/-- A store bypass: the sequential run waits where it is. -/
theorem sim_hook_bpas {size : Nat} {inst : Inst} (hsec : m.InSection) (h : m.Outside s t)
    (hat : m.AtInstruction pc size inst s) (hplace : inst.isMacroPlaceholder = false)
    (hbpas : m.OpensBpas s) (hok : m.StepOk (.emu pc, s)) (hkeep : m.TargetsKept (.emu pc, s)) :
    Sim m (m.afterHook pc inst (m.interpretInstruction pc inst (m.hookAt pc size inst s))
        { s with previousContext := some s.reg }) (.emu pc, t) := by
  have hopened := hookAt_bpas pc size inst hbpas h.pending
  have hd : Settled (.dispatch pc inst :: s.log) := h.settled.cons (by simp)
  have ha := h.alike
  have hin : m.Inside pc (m.hookAt pc size inst s).st t := by
    refine h.opened hopened h.flat h.base ha ?_ (home_of_found hsec hat)
    rw [archLog_cons_out _ h.flat]
    exact h.arch
  have hset : Settled (m.hookAt pc size inst s).st.log := by
    obtain ⟨included, hlog⟩ := hopened.log
    rw [hlog]
    exact hd.cons (by simp)
  have hno : ¬m.SetsTarget pc inst (m.hookAt pc size inst s).st := fun hsets =>
    hkeep pc size inst rfl hat hplace hin.inSpeculation
      ((setsTarget_congr hopened.currentActor hopened.currTargets hopened.pseudoLstar).mp hsets)
  have hactor : ¬m.EntersNoActor pc inst (m.hookAt pc size inst s).st := fun henters =>
    hok.actor pc size inst rfl hat hplace hin.inSpeculation
      ((entersNoActor_congr hopened.currentActor).mp henters)
  refine sim_afterHook_inside hin hset (hookAt_pending pc size inst h.pending)
    (interpretInstruction_keeps pc inst _)
    (interpretInstruction_keepsTargets hin.inSpeculation hno)
    (interpretInstruction_ne_crash hactor) _ ?_
  intro h' hr hstop hjump
  apply hok.exec pc size inst h'.st rfl hat
  unfold handedOn
  rw [hplace, hr]
  simp [hstop, hjump]

theorem alike_context (h : m.Outside s t) :
    m.Outside { s with previousContext := some s.reg } { t with previousContext := some t.reg } := by
  have ha := h.alike
  exact h.same ⟨ha.mem, ha.reg, ha.currentActor, ha.hadArchFault, ha.enableTracing, ha.checkpoints,
    ha.storeLogs, ha.inSpeculation, ha.currTargets, ha.pseudoLstar⟩ rfl rfl rfl rfl rfl
    (h.pending.congr rfl rfl)

/-- **One emulator step outside speculation.** The sequential run takes it as well, unless a store
bypass opens the first level. -/
theorem sim_emu_outside (huc : JumpsAsDecoded m.uc) (hsec : m.InSection) (h : m.Outside s t)
    (hok : m.StepOk (.emu pc, s)) (hkeep : m.TargetsKept (.emu pc, s)) :
    Sim m (m.emuStep pc s) ((m.under .seqSpeculator b).emuStep pc t) ∨
      (Sim m (m.emuStep pc s) (.emu pc, t) ∧ m.rank (m.emuStep pc s) < m.rank (.emu pc, s)) := by
  have hspec : s.inSpeculation = false := h.alike.inSpeculation.trans h.base.inSpeculation
  have hexitEq : (m.under .seqSpeculator b).isExitAddr t pc = m.isExitAddr s pc := by
    unfold isExitAddr
    rw [h.alike.currentActor]
    rfl
  rcases m.emuStep_cases pc s with hstop | ⟨hend, errno, herr, -⟩ |
    ⟨hend, ⟨size, hfetch⟩, hexit, hno⟩ | ⟨size, inst, hat⟩
  · left
    have hstop' : pc = (m.under .seqSpeculator b).codeEnd ∨ ∃ size,
        (m.under .seqSpeculator b).uc.fetch t.mem pc = .ok size ∧
          (m.under .seqSpeculator b).isExitAddr t pc = true := by
      rw [hexitEq, ← h.alike.mem]
      exact hstop
    rw [emuStep_stop hstop, emuStep_stop hstop']
    exact sim_afterStop_outside h
  · -- the condition rules out a failing fetch here
    rcases hok.fetched pc (.inr rfl) hspec with heq | ⟨size, hfetch⟩
    · exact absurd heq hend
    · exact nomatch herr.symm.trans hfetch
  · left
    have hfetch' : (m.under .seqSpeculator b).uc.fetch t.mem pc = .ok size := h.alike.mem ▸ hfetch
    have hno' : (m.under .seqSpeculator b).instructionAt t.currentActor pc = none :=
      h.alike.currentActor ▸ hno
    rw [emuStep_unknown hend hfetch hexit hno,
      emuStep_unknown (m := m.under .seqSpeculator b) hend hfetch' (hexitEq.trans hexit) hno']
    exact .outside h
  · rw [emuStep_at hat, emuStep_at (at_seq (b := b) h.alike hat)]
    cases hplace : inst.isMacroPlaceholder with
    | true =>
        left
        rw [if_pos rfl, if_pos rfl]
        have hhanded : m.handedOn pc size inst s = some { s with previousContext := some s.reg } := by
          unfold handedOn
          rw [hplace]
          rfl
        exact sim_execute_outside (alike_context h) (congrArg some h.alike.reg)
          (fun hno => absurd (hplace.symm.trans hno) (by simp))
          (hok.exec pc size inst _ rfl hat hhanded)
    | false =>
        rw [if_neg (by simp), if_neg (by simp)]
        by_cases hcond : m.OpensCond pc size s
        · exact .inl (sim_hook_cond huc hsec h hat hcond
            (hok.branch pc size inst rfl hat hplace hcond))
        · by_cases hbpas : m.OpensBpas s
          · exact .inr ⟨sim_hook_bpas hsec h hat hplace hbpas hok hkeep,
              rank_bpas_outside hspec (h.alike.checkpoints.trans h.base.checkpoints) h.pending hbpas⟩
          · exact .inl (sim_hook_same h hplace hcond hbpas
              fun s' hs' => hok.exec pc size inst s' rfl hat hs')

/-- What the loop does with a state outside speculation, in both runs. -/
theorem sim_loop_decide (pc : Nat) (h : m.Outside s t) :
    Sim m
      (if pc ≠ m.codeStart ∧ m.isExitAddr s pc then
        if s.inSpeculation then rollbackStep s else (.returned, s)
      else if pc ≠ m.codeStart ∧ pc = m.faultHandlerAddr ∧ s.inSpeculation then rollbackStep s
      else (.emu pc, s))
      (if pc ≠ m.codeStart ∧ m.isExitAddr t pc then
        if t.inSpeculation then rollbackStep t else (.returned, t)
      else if pc ≠ m.codeStart ∧ pc = m.faultHandlerAddr ∧ t.inSpeculation then rollbackStep t
      else (.emu pc, t)) := by
  have hs : ¬s.inSpeculation = true := by simp [h.alike.inSpeculation, h.base.inSpeculation]
  have ht : ¬t.inSpeculation = true := by simp [h.base.inSpeculation]
  have hexit : m.isExitAddr s pc = m.isExitAddr t pc := by
    unfold isExitAddr
    rw [h.alike.currentActor]
  rw [hexit]
  by_cases hend : pc ≠ m.codeStart ∧ m.isExitAddr t pc = true
  · rw [if_pos hend, if_pos hend, if_neg hs, if_neg ht]
    exact .outside h
  · rw [if_neg hend, if_neg hend, if_neg (fun hand => hs hand.2.2),
      if_neg (fun hand => ht hand.2.2)]
    exact .outside h

/-- One iteration of the loop outside speculation. -/
theorem sim_loop_outside (h : m.Outside s t) :
    Sim m (m.loopStep pc s) ((m.under .seqSpeculator b).loopStep pc t) := by
  have ha := h.alike
  have hactor : m.Outside { s with currentActor := m.codeAddrToActorId pc }
      { t with currentActor := m.codeAddrToActorId pc } :=
    h.same ⟨ha.mem, ha.reg, rfl, ha.hadArchFault, ha.enableTracing, ha.checkpoints, ha.storeLogs,
      ha.inSpeculation, ha.currTargets, ha.pseudoLstar⟩ rfl rfl rfl rfl rfl
      (h.pending.congr rfl rfl)
  have hrec := hactor.record (.resume { t with currentActor := m.codeAddrToActorId pc }.macroState)
    rfl
  have hms := macroState_congr hactor.alike
  have hdecide := sim_loop_decide pc hrec
  rw [← hms] at hdecide
  unfold loopStep
  simp only
  rw [hms] at hdecide ⊢
  exact hdecide

/-- The loop after the last level is rolled back. -/
theorem sim_loop_resumed (h : m.Resumed pc s t) (hok : m.StepOk (.loop pc, s)) :
    Sim m (m.loopStep pc s) ((m.under .seqSpeculator b).emuStep pc t) ∨
      (Sim m (m.loopStep pc s) (.emu pc, t) ∧ m.rank (m.loopStep pc s) < m.rank (.loop pc, s)) := by
  have ha := h.alike
  obtain ⟨l, hl, hset, hhead⟩ := h.rolled
  have hsettled : Settled (.resume { s with currentActor := m.codeAddrToActorId pc }.macroState ::
      s.log) := by
    rw [hl]
    refine ⟨⟨?_, hset.restored_cons .rollback⟩, fun l' hl' => by cases hl'⟩
    intro l' hl'
    obtain ⟨-, rfl⟩ := List.cons.inj hl'
    exact ⟨_, rfl, hhead⟩
  have hout : m.Outside ({ s with currentActor := m.codeAddrToActorId pc }.record
      (.resume { s with currentActor := m.codeAddrToActorId pc }.macroState)) t := by
    refine ⟨⟨ha.mem, ha.reg, h.home, ha.hadArchFault, ha.enableTracing, ha.checkpoints,
      ha.storeLogs, ha.inSpeculation, ha.currTargets, ha.pseudoLstar⟩, h.base, h.flat, ?_, hsettled,
      m.pendingOk_of_none h.previousStore⟩
    exact (archLog_cons_out _ h.flat).trans h.arch
  have hspec : s.inSpeculation = false := ha.inSpeculation.trans h.base.inSpeculation
  have hmem : s.mem = t.mem := ha.mem
  have hu : ¬({ s with currentActor := m.codeAddrToActorId pc }.record
      (.resume { s with currentActor := m.codeAddrToActorId pc }.macroState)).inSpeculation
        = true := by
    simp [State.record, hspec]
  have hrank := m.rank_loopStep pc h.previousStore
  revert hrank
  unfold loopStep
  simp only
  generalize { s with currentActor := m.codeAddrToActorId pc }.record
    (.resume { s with currentActor := m.codeAddrToActorId pc }.macroState) = u at hout hu
  intro hrank
  by_cases hexit : pc ≠ m.codeStart ∧ m.isExitAddr u pc = true
  · left
    rw [if_pos hexit, if_neg hu]
    have hexit' : (m.under .seqSpeculator b).isExitAddr t pc = true := by
      rw [← hexit.2]
      unfold isExitAddr
      rw [hout.alike.currentActor]
      rfl
    have hstop : pc = (m.under .seqSpeculator b).codeEnd ∨ ∃ size,
        (m.under .seqSpeculator b).uc.fetch t.mem pc = .ok size ∧
          (m.under .seqSpeculator b).isExitAddr t pc = true := by
      rcases hok.fetched pc (.inl rfl) hspec with hend | ⟨size, hfetch⟩
      · exact .inl hend
      · exact .inr ⟨size, hmem ▸ hfetch, hexit'⟩
    rw [emuStep_stop hstop]
    unfold afterStop
    rw [if_neg (by simp [h.base.inSpeculation])]
    exact .outside hout
  · right
    rw [if_neg hexit, if_neg (fun hand => hu hand.2.2)] at hrank ⊢
    exact ⟨.outside hout, hrank⟩

end Outside

/-! ### Whole runs -/

/-- **One step.** The sequential run takes it as well, or it waits while less speculation is left. -/
theorem sim_ranked (m : Setup) (huc : JumpsAsDecoded m.uc) (hsec : m.InSection) (b : Nat) :
    Ranked m.step (m.under .seqSpeculator b).step (fun x => m.StepOk x ∧ m.TargetsKept x) (Sim m)
      m.rank := by
  rintro x y h ⟨hok, hkeep⟩
  cases h with
  | @outside mode s t hout =>
      cases mode with
      | loop pc => exact .inl (sim_loop_outside hout)
      | emu pc => exact sim_emu_outside huc hsec hout hok hkeep
      | returned => exact .inl (.outside hout)
      | crashed => exact .inl (.outside hout)
  | resumed hres => exact sim_loop_resumed hres hok
  | unwound hin hroll hprev =>
      exact .inr ⟨sim_loop_unwound hin hroll hprev, m.rank_loopStep _ hprev⟩
  | inside hin hset hpend =>
      refine .inr ⟨sim_emu_inside hsec hin hset hpend hok hkeep,
        rank_emu_inside hsec hin.inSpeculation ?_ hpend hok⟩
      obtain ⟨cs, c, hcs, -⟩ := hin.bottom
      rw [hcs]
      exact List.append_ne_nil_of_right_ne_nil cs (List.cons_ne_nil c [])

theorem sim_start (m : Setup) (b : Nat) (em : Emulator) (targets : SwitchKey → Nat)
    (lstar : Nat) : Sim m (m.start em targets lstar)
      ((m.under .seqSpeculator b).start em targets lstar) := by
  have hout : m.Outside (m.start em targets lstar).2 (m.start em targets lstar).2 :=
    ⟨⟨rfl, rfl, rfl, rfl, rfl, rfl, rfl, rfl, rfl, rfl⟩, ⟨rfl, rfl, rfl, rfl⟩, rfl, rfl,
      ⟨trivial, fun _ hl => nomatch hl⟩, m.pendingOk_of_none rfl⟩
  exact .outside hout

/-- **A whole run** is matched by a part of the sequential run. -/
theorem sim_run (m : Setup) (huc : JumpsAsDecoded m.uc) (hsec : m.InSection) (em : Emulator)
    (targets : SwitchKey → Nat) (lstar b : Nat)
    (hok : ∀ k, m.StepOk (m.run em targets lstar k) ∧ m.TargetsKept (m.run em targets lstar k))
    (n : Nat) : ∃ j ≤ n, Sim m (m.run em targets lstar n)
      ((m.under .seqSpeculator b).run em targets lstar j) :=
  (sim_ranked m huc hsec b).run (sim_start m b em targets lstar) n fun k _ => hok k

/-- It reaches all of the sequential run. -/
theorem sim_reach (m : Setup) (huc : JumpsAsDecoded m.uc) (hsec : m.InSection) (em : Emulator)
    (targets : SwitchKey → Nat) (lstar b : Nat)
    (hok : ∀ k, m.StepOk (m.run em targets lstar k) ∧ m.TargetsKept (m.run em targets lstar k))
    (j : Nat) : ∃ n, Sim m (m.run em targets lstar n)
      ((m.under .seqSpeculator b).run em targets lstar j) :=
  (sim_ranked m huc hsec b).reach (sim_start m b em targets lstar) hok j

theorem RolledBack.restored (h : m.RolledBack pc s) : Restored s.log := by
  obtain ⟨l, hl, hset, -⟩ := h
  rw [hl]
  exact hset.restored_cons .rollback

theorem Sim.restored {x y : Mode × State} (h : Sim m x y) : Restored x.2.log := by
  cases h with
  | outside hout => exact hout.settled.1
  | resumed hres => exact hres.rolled.restored
  | unwound hin hroll hprev => exact hroll.restored
  | inside hin hset hpend => exact hset.1

theorem Sim.arch {x y : Mode × State} (h : Sim m x y) : archLog x.2.log = archLog y.2.log := by
  cases h with
  | outside hout => exact hout.arch
  | resumed hres => exact hres.arch
  | unwound hin hroll hprev => exact hin.arch
  | inside hin hset hpend => exact hin.arch

/-- The two runs return together, in the same registers and memory. -/
theorem Sim.returned {x y : Mode × State} (h : Sim m x y) (hr : x.1 = .returned ∨ y.1 = .returned) :
    x.1 = .returned ∧ y.1 = .returned ∧ x.2.mem = y.2.mem ∧ x.2.reg = y.2.reg := by
  cases h with
  | outside hout =>
      have hmode := hr.elim id id
      exact ⟨hmode, hmode, hout.alike.mem, hout.alike.reg⟩
  | resumed hres => exact hr.elim nofun nofun
  | unwound hin hroll hprev => exact hr.elim nofun nofun
  | inside hin hset hpend => exact hr.elim nofun nofun

/-- **Rollback and macros.** In a run of branch misprediction of which no step sets a switch target
in speculation, every rollback leads back to the macro state of its checkpoint, and the
instructions and accesses outside speculation are those of the sequential run, to its end. -/
theorem cond_restores (m : Setup) (huc : JumpsAsDecoded m.uc) (hsec : m.InSection) (nesting : Nat)
    (em : Emulator) (targets : SwitchKey → Nat) (lstar : Nat)
    (hok : ∀ k, (m.under .x86CondSpeculator nesting).StepOk
      ((m.under .x86CondSpeculator nesting).run em targets lstar k))
    (hkeep : ∀ k, (m.under .x86CondSpeculator nesting).TargetsKept
      ((m.under .x86CondSpeculator nesting).run em targets lstar k)) :
    (∀ n, Restored ((m.under .x86CondSpeculator nesting).run em targets lstar n).2.log) ∧
    (∀ n, ∃ j ≤ n, archLog ((m.under .x86CondSpeculator nesting).run em targets lstar n).2.log
        = archLog ((m.under .seqSpeculator nesting).run em targets lstar j).2.log ∧
      (((m.under .x86CondSpeculator nesting).run em targets lstar n).1 = .returned →
        ((m.under .seqSpeculator nesting).run em targets lstar j).1 = .returned)) ∧
    ∀ j, ∃ n, archLog ((m.under .x86CondSpeculator nesting).run em targets lstar n).2.log
        = archLog ((m.under .seqSpeculator nesting).run em targets lstar j).2.log ∧
      (((m.under .seqSpeculator nesting).run em targets lstar j).1 = .returned →
        ((m.under .x86CondSpeculator nesting).run em targets lstar n).1 = .returned) := by
  have hrun := sim_run (m.under .x86CondSpeculator nesting) huc hsec em targets lstar nesting
    fun k => ⟨hok k, hkeep k⟩
  have hreach := sim_reach (m.under .x86CondSpeculator nesting) huc hsec em targets lstar nesting
    fun k => ⟨hok k, hkeep k⟩
  refine ⟨fun n => ?_, fun n => ?_, fun j => ?_⟩
  · obtain ⟨j, -, hsim⟩ := hrun n
    exact hsim.restored
  · obtain ⟨j, hj, hsim⟩ := hrun n
    exact ⟨j, hj, hsim.arch, fun hr => (hsim.returned (.inl hr)).2.1⟩
  · obtain ⟨n, hsim⟩ := hreach j
    exact ⟨n, hsim.arch, fun hr => (hsim.returned (.inr hr)).1⟩

/-- **Transparency.** In a run of any of the speculators of which no step sets a switch target in
speculation, the instructions and accesses outside speculation are those of the sequential run, to
its end: one run returns when the other does, in the same registers, flags and memory. -/
theorem speculation_transparent (m : Setup) (huc : JumpsAsDecoded m.uc) (hsec : m.InSection)
    (c : SpeculatorCls) (nesting : Nat) (em : Emulator) (targets : SwitchKey → Nat) (lstar : Nat)
    (hok : ∀ k, (m.under c nesting).StepOk ((m.under c nesting).run em targets lstar k))
    (hkeep : ∀ k, (m.under c nesting).TargetsKept
      ((m.under c nesting).run em targets lstar k)) :
    (∀ n, ∃ j ≤ n, archLog ((m.under c nesting).run em targets lstar n).2.log
        = archLog ((m.under .seqSpeculator nesting).run em targets lstar j).2.log ∧
      (((m.under c nesting).run em targets lstar n).1 = .returned →
        ((m.under .seqSpeculator nesting).run em targets lstar j).1 = .returned ∧
        ((m.under c nesting).run em targets lstar n).2.mem
          = ((m.under .seqSpeculator nesting).run em targets lstar j).2.mem ∧
        ((m.under c nesting).run em targets lstar n).2.reg
          = ((m.under .seqSpeculator nesting).run em targets lstar j).2.reg)) ∧
    ∀ j, ∃ n, archLog ((m.under c nesting).run em targets lstar n).2.log
        = archLog ((m.under .seqSpeculator nesting).run em targets lstar j).2.log ∧
      (((m.under .seqSpeculator nesting).run em targets lstar j).1 = .returned →
        ((m.under c nesting).run em targets lstar n).1 = .returned ∧
        ((m.under c nesting).run em targets lstar n).2.mem
          = ((m.under .seqSpeculator nesting).run em targets lstar j).2.mem ∧
        ((m.under c nesting).run em targets lstar n).2.reg
          = ((m.under .seqSpeculator nesting).run em targets lstar j).2.reg) := by
  refine ⟨fun n => ?_, fun j => ?_⟩
  · obtain ⟨j, hj, hsim⟩ := sim_run (m.under c nesting) huc hsec em targets lstar nesting
      (fun k => ⟨hok k, hkeep k⟩) n
    exact ⟨j, hj, hsim.arch, fun hr => (hsim.returned (.inl hr)).2⟩
  · obtain ⟨n, hsim⟩ := sim_reach (m.under c nesting) huc hsec em targets lstar nesting
      (fun k => ⟨hok k, hkeep k⟩) j
    have hend := fun hr => hsim.returned (.inr hr)
    exact ⟨n, hsim.arch, fun hr => ⟨(hend hr).1, (hend hr).2.2⟩⟩

/-! ### A target set on the wrong path -/

/-- The code of `nop` and of `mov [rax], cl`. -/
def nopCode : List UInt8 := [0x66, 0x90]
def storeCode : List UInt8 := [0x88, 0x08]

/-- An emulator of `nop`, `mov [rax], cl` and the conditional jumps of two bytes; it refuses any
other code. -/
def decodeUc : Uc where
  fetch mem pc :=
    if mem.read pc 2 = nopCode ∨ mem.read pc 2 = storeCode ∨ (decode (mem.read pc 2) 0 0).1 ≠ 0 then
      .ok 2
    else .error 10
  exec em pc :=
    if em.mem.read pc 2 = storeCode then
      ⟨[.write (em.reg .rax) [UInt8.ofNat (em.reg .rcx)]], .done em.reg (pc + 2)⟩
    else if (decode (em.mem.read pc 2) (em.reg .eflags) (em.reg .rcx)).1 = 0 then
      ⟨[], .done em.reg (pc + 2)⟩
    else
      ⟨[], .done (branchReg em.reg (decode (em.mem.read pc 2) (em.reg .eflags) (em.reg .rcx)).2.2)
        (branchNext pc 2 (decode (em.mem.read pc 2) (em.reg .eflags) (em.reg .rcx)))⟩

theorem decodeUc_size {mem : Mem} {pc size : Nat} (h : decodeUc.fetch mem pc = .ok size) :
    size = 2 := by
  unfold decodeUc at h
  simp only at h
  split at h
  · exact (Except.ok.inj h).symm
  · exact nomatch h

theorem decodeUc_jumps : JumpsAsDecoded decodeUc := by
  intro em pc size hfetch _ hdec _ _
  obtain rfl := decodeUc_size hfetch
  have hstore : em.mem.read pc 2 ≠ storeCode := by
    intro hcode
    rw [hcode] at hdec
    exact hdec rfl
  unfold decodeUc
  simp only [if_neg hstore, if_neg hdec]

/-- It stores at most one byte, and does not fault. -/
theorem decodeUc_exec (em : Emulator) (pc : Nat) :
    (∃ b, (decodeUc.exec em pc).accesses = [.write (em.reg .rax) [b]] ∨
      (decodeUc.exec em pc).accesses = []) ∧
    ∃ reg pc', (decodeUc.exec em pc).outcome = .done reg pc' := by
  unfold decodeUc
  simp only
  split
  · exact ⟨⟨_, .inl rfl⟩, _, _, rfl⟩
  · split
    · exact ⟨⟨0, .inr rfl⟩, _, _, rfl⟩
    · exact ⟨⟨0, .inr rfl⟩, _, _, rfl⟩

/-- The instructions of the test case: `set_k2u_target` to function 0, a jump over a store and
another `set_k2u_target`, and `switch_k2u`; functions 0 and 1 are the last two. -/
def wrongPathInsts : List Inst :=
  [⟨"macro", false, .setK2uTarget⟩, ⟨"je", false, .unknown⟩, ⟨"mov", false, .unknown⟩,
    ⟨"macro", false, .setK2uTarget⟩, ⟨"macro", false, .switchK2u⟩, ⟨"nop", false, .unknown⟩,
    ⟨"nop", false, .unknown⟩, ⟨"nop", false, .unknown⟩]

/-- The test case, of which the macro on the wrong path sets the target to the function `fid`. It
ends at 16. -/
def targetOnWrongPath (fid : Nat) : Setup where
  uc := decodeUc
  lim := ⟨.x86CondSpeculator, 1, 8⟩
  dataStart := 65536
  codeStart := 0
  nActors := 1
  exitAddr := 16
  faultHandlerAddr := 16
  instruction actor offset :=
    if actor = 0 ∧ offset % 2 = 0 then wrongPathInsts[offset / 2]? else none
  functionTable := [⟨0, 12, 0⟩, ⟨0, 14, 1⟩]
  macroTable := [⟨0, 0, 0⟩, ⟨0, 6, fid * 2 ^ 16⟩, ⟨0, 8, 0⟩]
  privilegeLevel _ := some .kernel
  isAmd := false
  handledFaults _ := false
  softFault _ _ := none

/-- The jump at 2 is taken: `ZF` is set. The store on the wrong path would write 5 to 4096. -/
def wrongPathStart : Emulator where
  mem a := ([0x66, 0x90, 0x74, 4, 0x88, 0x08, 0x66, 0x90, 0x66, 0x90, 0x66, 0x90, 0x66, 0x90,
    0x66, 0x90, 0x66, 0x90] : List UInt8)[a]?.getD 0
  reg
    | .eflags => 66
    | .rax => 4096
    | .rcx => 5
    | _ => 0

/-- The target set on the wrong path stays set, so that `switch_k2u` goes to function 1 instead of
function 0: the macro state after the rollback is not that of the checkpoint. -/
theorem targetOnWrongPath_not_restored :
    ¬Restored (((targetOnWrongPath 1).under .x86CondSpeculator 1).run wrongPathStart
      (fun _ => 0) 16 9).2.log := by
  intro h
  have hlog : (((targetOnWrongPath 1).under .x86CondSpeculator 1).run wrongPathStart
      (fun _ => 0) 16 9).2.log = .resume ⟨0, false, [0, 0, 14, 0], 16⟩ :: .rollback ::
        (((targetOnWrongPath 1).under .x86CondSpeculator 1).run wrongPathStart
          (fun _ => 0) 16 9).2.log.drop 2 := by decide +kernel
  rw [hlog] at h
  obtain ⟨ms, hms, hhead⟩ := h.1 _ rfl
  cases hms
  exact absurd hhead (by decide +kernel)

/-- The sequential run never gets from `switch_k2u` to function 1 directly. -/
theorem targetOnWrongPath_not_transparent :
    ¬∃ j, archLog (((targetOnWrongPath 1).under .x86CondSpeculator 1).run wrongPathStart
        (fun _ => 0) 16 12).2.log
      = archLog (((targetOnWrongPath 1).under .seqSpeculator 1).run wrongPathStart
        (fun _ => 0) 16 j).2.log := by
  intro h
  obtain ⟨j, hj⟩ := h
  have hdiff : ∀ j < 8, archLog (((targetOnWrongPath 1).under .x86CondSpeculator 1).run
      wrongPathStart (fun _ => 0) 16 12).2.log
        ≠ archLog (((targetOnWrongPath 1).under .seqSpeculator 1).run wrongPathStart
          (fun _ => 0) 16 j).2.log := by decide +kernel
  have hend : (((targetOnWrongPath 1).under .seqSpeculator 1).run wrongPathStart
      (fun _ => 0) 16 7).1 = .returned := by decide +kernel
  by_cases hlt : j < 8
  · exact hdiff j hlt hj
  · rw [run_returned hend j (by omega)] at hj
    exact hdiff 7 (by decide) hj

/-- What is to be known of a configuration of the run over the test case. -/
def wrongPathCheck : Mode × State → Bool
  | (.loop pc, s) => decide (decodeUc.fetch s.mem pc = .ok 2)
  | (.emu pc, s) =>
    decide (decodeUc.fetch s.mem pc = .ok 2) && decide (s.currentActor = 0) &&
      decide (pc % 2 = 0) && decide (pc ≤ 16) && decide (pc = 2 ∨ (decodeAt s pc 2).1 = 0) &&
      decide (pc = 2 → branchNext 2 2 (decodeAt s 2 2) = 8 ∧ (jumps (s.mem.read 2 2) 0 0).1 = [4]) &&
      decide (pc = 6 → s.currTargets .k2u = 12) &&
      decide (pc = 0 → (((targetOnWrongPath 0).under .x86CondSpeculator 1).hookAt 0 2
        ⟨"macro", false, .setK2uTarget⟩ s).st.inSpeculation = false)
  | _ => true

theorem targetOnWrongPath_check (k : Nat) :
    wrongPathCheck (((targetOnWrongPath 0).under .x86CondSpeculator 1).run wrongPathStart
      (fun _ => 0) 16 k) = true := by
  have hall : ∀ k < 15, wrongPathCheck (((targetOnWrongPath 0).under .x86CondSpeculator 1).run
      wrongPathStart (fun _ => 0) 16 k) = true := by decide +kernel
  have hend : (((targetOnWrongPath 0).under .x86CondSpeculator 1).run wrongPathStart
      (fun _ => 0) 16 14).1 = .returned := by decide +kernel
  by_cases hlt : k < 15
  · exact hall k hlt
  · rw [run_returned hend k (by omega)]
    exact hall 14 (by decide)

/-- When the wrong path sets the target that is set already, every step can be undone. -/
theorem targetOnWrongPath_ok (k : Nat) :
    ((targetOnWrongPath 0).under .x86CondSpeculator 1).StepOk
        (((targetOnWrongPath 0).under .x86CondSpeculator 1).run wrongPathStart (fun _ => 0) 16 k) ∧
      ((targetOnWrongPath 0).under .x86CondSpeculator 1).TargetsKept
        (((targetOnWrongPath 0).under .x86CondSpeculator 1).run wrongPathStart (fun _ => 0) 16 k) := by
  have hcheck := targetOnWrongPath_check k
  revert hcheck
  generalize ((targetOnWrongPath 0).under .x86CondSpeculator 1).run wrongPathStart
    (fun _ => 0) 16 k = x
  obtain ⟨mode, s⟩ := x
  intro hcheck
  have hfacts : ∀ pc, mode = .emu pc → decodeUc.fetch s.mem pc = .ok 2 ∧ s.currentActor = 0 ∧
      pc % 2 = 0 ∧ pc ≤ 16 ∧ (pc = 2 ∨ (decodeAt s pc 2).1 = 0) ∧
      (pc = 2 → branchNext 2 2 (decodeAt s 2 2) = 8 ∧ (jumps (s.mem.read 2 2) 0 0).1 = [4]) ∧
      (pc = 6 → s.currTargets .k2u = 12) ∧
      (pc = 0 → (((targetOnWrongPath 0).under .x86CondSpeculator 1).hookAt 0 2
        ⟨"macro", false, .setK2uTarget⟩ s).st.inSpeculation = false) := by
    rintro pc rfl
    simpa only [wrongPathCheck, Bool.and_eq_true, decide_eq_true_eq, and_assoc] using hcheck
  have hinst : ∀ pc size inst, mode = .emu pc →
      ((targetOnWrongPath 0).under .x86CondSpeculator 1).AtInstruction pc size inst s →
      size = 2 ∧ wrongPathInsts[pc / 2]? = some inst := by
    intro pc size inst hpc hat
    obtain ⟨-, hactor, heven, -⟩ := hfacts pc hpc
    refine ⟨decodeUc_size hat.fetch, ?_⟩
    have hfound := hat.found
    rw [hactor] at hfound
    have hif : (if 0 = 0 ∧ pc % 2 = 0 then wrongPathInsts[pc / 2]? else none) = some inst := hfound
    rwa [if_pos ⟨rfl, heven⟩] at hif
  refine ⟨⟨?_, ?_, ?_, ?_, ?_⟩, ?_⟩
  · rintro pc (rfl | rfl) -
    · exact .inr ⟨2, of_decide_eq_true hcheck⟩
    · exact .inr ⟨2, (hfacts pc rfl).1⟩
  · -- the instructions reach up to the exit
    intro pc size hpc _ _ _ hexit hnone
    obtain ⟨-, hactor, heven, hle, -⟩ := hfacts pc hpc
    rw [hactor] at hnone
    have hif : (if 0 = 0 ∧ pc % 2 = 0 then wrongPathInsts[pc / 2]? else none) = none := hnone
    rw [if_pos ⟨rfl, heven⟩, List.getElem?_eq_none_iff] at hif
    have hlen : 8 ≤ pc / 2 := hif
    obtain rfl : pc = 16 := by omega
    exact nomatch hexit
  · -- every actor is the kernel
    rintro pc size inst - - - - ⟨-, sid, fid, -, hno, -⟩
    exact nomatch hno
  · -- the only conditional jump is at 2
    intro pc size inst hpc hat _ hopens
    obtain ⟨rfl, hget⟩ := hinst pc size inst hpc hat
    obtain ⟨-, hactor, -, -, hjump, hat2, -⟩ := hfacts pc hpc
    rcases hjump with rfl | hzero
    · obtain ⟨hnext, hcode⟩ := hat2 rfl
      obtain rfl := Option.some.inj hget
      refine ⟨?_, ?_, by decide, rfl⟩
      · show 0 < signedLe (jumps (s.mem.read 2 2) 0 0).1
        rw [hcode]
        decide
      · show Setup.codeAddrToActorId _ (branchNext 2 2 (decodeAt s 2 2)) = s.currentActor
        rw [hnext, hactor]
        rfl
    · exact absurd hzero hopens.2.2.2
  · intro pc size inst s' hpc hat _
    obtain ⟨⟨b, hstore⟩, hdone⟩ := decodeUc_exec s'.emulator pc
    refine ⟨fun hplace => ?_, fun _ address bytes ha => ?_, fun ho => absurd ho (by decide),
      fun _ _ => hdone⟩
    · obtain ⟨-, hget⟩ := hinst pc size inst hpc hat
      have hall : ∀ i ∈ wrongPathInsts, i.isMacroPlaceholder = false := by decide
      exact absurd ((hall inst (List.mem_of_getElem? hget)).symm.trans hplace) (by simp)
    · have hone : Access.write address bytes ∈ (decodeUc.exec s'.emulator pc).accesses := ha
      rcases hstore with hstore | hstore
      · rw [hstore] at hone
        cases List.mem_singleton.mp hone
        exact Nat.succ_le_succ (Nat.zero_le 7)
      · rw [hstore] at hone
        exact nomatch hone
  · -- of the macros, that at 0 is not in speculation and that at 6 sets what is set
    rintro pc size inst hpc hat - hspec ⟨hname, sid, fid, a, hargs, ha, hmatch⟩
    obtain ⟨rfl, hget⟩ := hinst pc size inst hpc hat
    obtain ⟨-, hactor, heven, hle, -, -, htarget, hstart⟩ := hfacts pc hpc
    have hargs : (targetOnWrongPath 0).macroArgs 0 pc = some (sid, fid) := by
      rw [← hargs]
      show _ = (targetOnWrongPath 0).macroArgs s.currentActor (pc - _)
      rw [hactor]
      rfl
    have ha : (targetOnWrongPath 0).functionAddr sid fid = some a := ha
    obtain ⟨entry, hfind, -⟩ := Option.map_eq_some_iff.mp hargs
    have hfound := List.find?_some hfind
    have hoffset : entry.offset = pc := (of_decide_eq_true hfound).2
    have hentry : entry ∈ (targetOnWrongPath 0).macroTable := List.mem_of_find?_eq_some hfind
    subst hoffset
    rcases List.mem_cons.mp hentry with rfl | hentry
    · cases hget
      exact absurd ((hstart rfl).symm.trans hspec) (by simp)
    rcases List.mem_cons.mp hentry with rfl | hentry
    · cases hget
      cases hargs
      cases ha
      exact hmatch (htarget rfl)
    · obtain rfl := List.mem_singleton.mp hentry
      cases hget
      exact hmatch

theorem targetOnWrongPath_inSection (fid : Nat) : (targetOnWrongPath fid).InSection := by
  intro actor offset inst h
  have hif : (if actor = 0 ∧ offset % 2 = 0 then wrongPathInsts[offset / 2]? else none)
      = some inst := h
  split at hif
  · rename_i hactor
    obtain ⟨hlt, -⟩ := List.getElem?_eq_some_iff.mp hif
    have hlen : offset / 2 < 8 := hlt
    rw [hactor.1]
    show offset < 3 * pageSize ∧ 0 + 0 * (3 * pageSize) + 3 * pageSize ≤ 2 ^ 64
    unfold pageSize
    exact ⟨by omega, by omega⟩
  · exact nomatch hif

/-- The runs over this test case agree to the end. -/
theorem targetOnWrongPath_restored :
    (∀ n, Restored (((targetOnWrongPath 0).under .x86CondSpeculator 1).run wrongPathStart
      (fun _ => 0) 16 n).2.log) ∧
    ∃ n, archLog (((targetOnWrongPath 0).under .x86CondSpeculator 1).run wrongPathStart
        (fun _ => 0) 16 n).2.log = [14, 12, 8, 2, 0].map .instruction ∧
      (((targetOnWrongPath 0).under .x86CondSpeculator 1).run wrongPathStart
        (fun _ => 0) 16 n).1 = .returned := by
  obtain ⟨hrestored, -, hreach⟩ := cond_restores (targetOnWrongPath 0) decodeUc_jumps
    (targetOnWrongPath_inSection 0) 1 wrongPathStart (fun _ => 0) 16
    (fun k => (targetOnWrongPath_ok k).1) fun k => (targetOnWrongPath_ok k).2
  have hend : archLog (((targetOnWrongPath 0).under .seqSpeculator 1).run wrongPathStart
        (fun _ => 0) 16 7).2.log = [14, 12, 8, 2, 0].map .instruction ∧
      (((targetOnWrongPath 0).under .seqSpeculator 1).run wrongPathStart
        (fun _ => 0) 16 7).1 = .returned := by decide +kernel
  obtain ⟨n, harch, hreturned⟩ := hreach 7
  exact ⟨hrestored, n, harch.trans hend.1, hreturned hend.2⟩

/-- The store on the wrong path is performed and undone. -/
theorem targetOnWrongPath_transparent :
    (((targetOnWrongPath 0).under .x86CondSpeculator 1).run wrongPathStart
      (fun _ => 0) 16 4).2.mem 4096 = 5 ∧
    ∃ n, archLog (((targetOnWrongPath 0).under .x86CondSpeculator 1).run wrongPathStart
        (fun _ => 0) 16 n).2.log = [14, 12, 8, 2, 0].map .instruction ∧
      (((targetOnWrongPath 0).under .x86CondSpeculator 1).run wrongPathStart
        (fun _ => 0) 16 n).1 = .returned ∧
      (((targetOnWrongPath 0).under .x86CondSpeculator 1).run wrongPathStart
        (fun _ => 0) 16 n).2.mem 4096 = 0 ∧
      (((targetOnWrongPath 0).under .x86CondSpeculator 1).run wrongPathStart
        (fun _ => 0) 16 n).2.reg .eflags = 66 := by
  obtain ⟨-, hreach⟩ := speculation_transparent (targetOnWrongPath 0) decodeUc_jumps
    (targetOnWrongPath_inSection 0) .x86CondSpeculator 1 wrongPathStart (fun _ => 0) 16
    (fun k => (targetOnWrongPath_ok k).1) fun k => (targetOnWrongPath_ok k).2
  have hend : archLog (((targetOnWrongPath 0).under .seqSpeculator 1).run wrongPathStart
        (fun _ => 0) 16 7).2.log = [14, 12, 8, 2, 0].map .instruction ∧
      (((targetOnWrongPath 0).under .seqSpeculator 1).run wrongPathStart
        (fun _ => 0) 16 7).1 = .returned ∧
      (((targetOnWrongPath 0).under .seqSpeculator 1).run wrongPathStart
        (fun _ => 0) 16 7).2.mem 4096 = 0 ∧
      (((targetOnWrongPath 0).under .seqSpeculator 1).run wrongPathStart
        (fun _ => 0) 16 7).2.reg .eflags = 66 := by decide +kernel
  obtain ⟨n, harch, hreturned⟩ := hreach 7
  obtain ⟨hmode, hmem, hreg⟩ := hreturned hend.2.1
  refine ⟨by decide +kernel, n, harch.trans hend.1, hmode, ?_, ?_⟩
  · rw [hmem]
    exact hend.2.2.1
  · rw [hreg]
    exact hend.2.2.2


end Setup

end Rvzr.Unicorn
