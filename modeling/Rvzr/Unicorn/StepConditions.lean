import Rvzr.Unicorn.Rollback

/-!
What is asked of the steps of a run with speculation: that a rollback can undo them, and that none
of them ends the run in speculation. Each condition is on the configuration before the step.
-/

namespace Rvzr.Unicorn

open Rvzr.Lib

namespace Setup

variable (m : Setup)

/-! ### The conditions -/

/-- The state in which the emulator executes the instruction at hand, if the hooks let it. -/
def handedOn (pc size : Nat) (inst : Inst) (s : State) : Option State :=
  if inst.isMacroPlaceholder then some { s with previousContext := some s.reg }
  else
    match m.interpretInstruction pc inst (m.hookAt pc size inst s) with
    | .ok h =>
      if h.stop then none
      else
        match h.jump with
        | some _ => none
        | none => some h.st
    | _ => none

/-- A conditional jump at which a checkpoint is opened: it goes forward, the restart address is in
the section of the actor, and the interpreter has nothing to do with it. -/
structure BranchOk (pc size : Nat) (inst : Inst) (s : State) : Prop where
  forward : 0 < signedLe (jumps (s.mem.read pc size) 0 0).1
  inside : m.codeAddrToActorId (branchNext pc size (decodeAt s pc size)) = s.currentActor
  plain : inst.name ≠ "macro" ∧ m.softFault s.currentActor pc = none

/-- A step of which a rollback can undo all but the switch targets, and which does not end the run
in speculation: the instruction is one of the current actor, and the actor of a macro exists. -/
structure StepOk (x : Mode × State) : Prop where
  fetched : ∀ pc, x.1 = .loop pc ∨ x.1 = .emu pc → x.2.inSpeculation = false →
    pc = m.codeEnd ∨ ∃ size, m.uc.fetch x.2.mem pc = .ok size
  found : ∀ pc size, x.1 = .emu pc → x.2.inSpeculation = true → pc ≠ m.codeEnd →
    m.uc.fetch x.2.mem pc = .ok size → m.isExitAddr x.2 pc = false →
      m.instructionAt x.2.currentActor pc ≠ none
  actor : ∀ pc size inst, x.1 = .emu pc → m.AtInstruction pc size inst x.2 →
    inst.isMacroPlaceholder = false → (m.hookAt pc size inst x.2).st.inSpeculation = true →
      ¬m.EntersNoActor pc inst x.2
  branch : ∀ pc size inst, x.1 = .emu pc → m.AtInstruction pc size inst x.2 →
    inst.isMacroPlaceholder = false → m.OpensCond pc size x.2 → m.BranchOk pc size inst x.2
  exec : ∀ pc size inst s', x.1 = .emu pc → m.AtInstruction pc size inst x.2 →
    m.handedOn pc size inst x.2 = some s' → ExecOk m pc inst s' (m.uc.exec s'.emulator pc)

/-- A step that sets no switch target in speculation. -/
def TargetsKept (x : Mode × State) : Prop :=
  ∀ pc size inst, x.1 = .emu pc → m.AtInstruction pc size inst x.2 →
    inst.isMacroPlaceholder = false → (m.hookAt pc size inst x.2).st.inSpeculation = true →
      ¬m.SetsTarget pc inst x.2

/-- The instructions of an actor lie in its section, which ends below 2^64. -/
def InSection : Prop :=
  ∀ actor offset inst, m.instruction actor offset = some inst →
    offset < codeSizePerActor ∧ m.sectionStart actor + codeSizePerActor ≤ 2 ^ 64

/-- The emulator executes a conditional jump that goes forward to an address below 2^64 as `decode`
reads it. -/
def JumpsAsDecoded (uc : Uc) : Prop :=
  ∀ em pc size, uc.fetch em.mem pc = .ok size → size ≤ 15 →
    (decode (em.mem.read pc size) (em.reg .eflags) (em.reg .rcx)).1 ≠ 0 →
    0 < signedLe (jumps (em.mem.read pc size) 0 0).1 →
    branchNext pc size (decode (em.mem.read pc size) (em.reg .eflags) (em.reg .rcx)) < 2 ^ 64 →
      uc.exec em pc = ⟨[], .done
        (branchReg em.reg (decode (em.mem.read pc size) (em.reg .eflags) (em.reg .rcx)).2.2)
        (branchNext pc size (decode (em.mem.read pc size) (em.reg .eflags) (em.reg .rcx)))⟩

variable {m} {pc : Nat} {s : State}

/-! ### Where an instruction is -/

/-- The displacement of a jump depends on its bytes only. -/
theorem jumps_displacement (code : List UInt8) (f r : Nat) :
    (jumps code f r).1 = (jumps code 0 0).1 := by
  unfold jumps
  split
  · rfl
  · split_ifs
    · rfl
    · rfl
    · rfl
    · rfl
    · rfl
    · split
      · rfl
      · split_ifs
        · rfl
        · rfl
    · rfl

/-- A jump with a positive displacement is read as one that goes forward. -/
theorem decode_pos {code : List UInt8} (f r : Nat) (h : 0 < signedLe (jumps code 0 0).1) :
    0 < (decode code f r).1 := by
  rw [← jumps_displacement code f r] at h
  unfold decode
  split
  · rename_i b _ _ hj
    rw [hj] at h
    have hb : b.toNat ≠ 0 := by
      intro hz
      simp [signedLe, Mem.ofLe, hz] at h
    exact Int.natCast_pos.mpr (Nat.pos_of_ne_zero hb)
  · rename_i target _ _ _ hj
    rw [hj] at h
    exact h

/-- An instruction that the model finds is in the section of the current actor. -/
theorem bounds_of_found {size : Nat} {inst : Inst} (hsec : m.InSection)
    (hat : m.AtInstruction pc size inst s) : m.sectionStart s.currentActor ≤ pc ∧
      pc < m.sectionStart s.currentActor + codeSizePerActor ∧
      m.sectionStart s.currentActor + codeSizePerActor ≤ 2 ^ 64 := by
  have hfound := hat.found
  unfold instructionAt at hfound
  split at hfound
  · rename_i hle
    obtain ⟨hlt, hend⟩ := hsec _ _ _ hfound
    exact ⟨hle, by omega, hend⟩
  · exact nomatch hfound

theorem codeAddrToActorId_eq {actor : Nat} (hle : m.sectionStart actor ≤ pc)
    (hlt : pc < m.sectionStart actor + codeSizePerActor) : m.codeAddrToActorId pc = actor := by
  unfold sectionStart at hle hlt
  unfold codeAddrToActorId
  have hpc : pc - m.codeStart = (pc - (m.codeStart + actor * codeSizePerActor))
      + codeSizePerActor * actor := by
    rw [Nat.mul_comm codeSizePerActor]
    omega
  rw [hpc, Nat.add_mul_div_left _ _ (by decide), Nat.div_eq_of_lt (by omega), Nat.zero_add]

/-- The section of an instruction that the model finds is that of the current actor. -/
theorem home_of_found {size : Nat} {inst : Inst} (hsec : m.InSection)
    (hat : m.AtInstruction pc size inst s) : m.codeAddrToActorId pc = s.currentActor := by
  obtain ⟨hle, hlt, -⟩ := bounds_of_found hsec hat
  exact codeAddrToActorId_eq hle hlt

/-- An address of an actor's section is below its end. -/
theorem lt_sectionEnd (m : Setup) (pc : Nat) :
    pc < m.sectionStart (m.codeAddrToActorId pc) + codeSizePerActor := by
  have hmod := Nat.div_add_mod (pc - m.codeStart) codeSizePerActor
  have hlt := Nat.mod_lt (pc - m.codeStart) (show 0 < codeSizePerActor by decide)
  unfold sectionStart codeAddrToActorId
  rw [Nat.mul_comm] at hmod
  omega

/-- The restart address of a conditional jump is an address. -/
theorem BranchOk.lt {size : Nat} {inst : Inst} (hsec : m.InSection)
    (hat : m.AtInstruction pc size inst s) (h : m.BranchOk pc size inst s) :
    branchNext pc size (decodeAt s pc size) < 2 ^ 64 := by
  have hlt := m.lt_sectionEnd (branchNext pc size (decodeAt s pc size))
  rw [h.inside] at hlt
  exact Nat.lt_of_lt_of_le hlt (bounds_of_found hsec hat).2.2

/-- A conditional jump restarts behind itself. -/
theorem lt_branchNext {size : Nat} {inst : Inst} (hopens : m.OpensCond pc size s)
    (h : m.BranchOk pc size inst s) : pc < branchNext pc size (decodeAt s pc size) := by
  have hsize : 0 < size := by
    refine Nat.pos_of_ne_zero fun hz => hopens.2.2.2 ?_
    rw [hz]
    rfl
  have hpos : 0 < (decodeAt s pc size).1 := decode_pos _ _ h.forward
  unfold branchNext jumpTarget
  split
  · omega
  · omega

/-! ### Where a step goes -/

theorem emuStep_stop (h : pc = m.codeEnd ∨
    ∃ size, m.uc.fetch s.mem pc = .ok size ∧ m.isExitAddr s pc = true) :
    m.emuStep pc s = afterStop s := by
  unfold emuStep
  by_cases hend : pc = m.codeEnd
  · exact if_pos hend
  · rw [if_neg hend]
    cases h with
    | inl h => exact absurd h hend
    | inr h =>
        obtain ⟨size, hfetch, hexit⟩ := h
        rw [hfetch]
        exact if_pos hexit

theorem emuStep_unknown {size : Nat} (hend : pc ≠ m.codeEnd)
    (hfetch : m.uc.fetch s.mem pc = .ok size) (hexit : m.isExitAddr s pc = false)
    (hinst : m.instructionAt s.currentActor pc = none) :
    m.emuStep pc s = (.crashed, s) := by
  unfold emuStep
  rw [if_neg hend, hfetch]
  simp only [hexit, hinst, Bool.false_eq_true, if_false]

theorem emuStep_at {size : Nat} {inst : Inst} (hat : m.AtInstruction pc size inst s) :
    m.emuStep pc s =
      if inst.isMacroPlaceholder then m.execute pc inst { s with previousContext := some s.reg }
      else m.afterHook pc inst (m.interpretInstruction pc inst (m.hookAt pc size inst s))
        { s with previousContext := some s.reg } := by
  unfold emuStep
  rw [if_neg hat.notEnd, hat.fetch]
  simp only [hat.notExit, hat.found, Bool.false_eq_true, if_false]
  rfl

/-- Where an emulator step goes. -/
theorem emuStep_cases (m : Setup) (pc : Nat) (s : State) :
    (pc = m.codeEnd ∨ ∃ size, m.uc.fetch s.mem pc = .ok size ∧ m.isExitAddr s pc = true) ∨
    (pc ≠ m.codeEnd ∧ ∃ errno, m.uc.fetch s.mem pc = .error errno ∧
      m.emuStep pc s = m.afterFault errno s) ∨
    (pc ≠ m.codeEnd ∧ (∃ size, m.uc.fetch s.mem pc = .ok size) ∧ m.isExitAddr s pc = false ∧
      m.instructionAt s.currentActor pc = none) ∨
    ∃ size inst, m.AtInstruction pc size inst s := by
  by_cases hend : pc = m.codeEnd
  · exact .inl (.inl hend)
  · cases hfetch : m.uc.fetch s.mem pc with
    | error errno =>
        refine .inr (.inl ⟨hend, errno, rfl, ?_⟩)
        unfold emuStep
        rw [if_neg hend, hfetch]
    | ok size =>
        cases hexit : m.isExitAddr s pc with
        | true => exact .inl (.inr ⟨size, rfl, rfl⟩)
        | false =>
            cases hinst : m.instructionAt s.currentActor pc with
            | none => exact .inr (.inr (.inl ⟨hend, ⟨size, rfl⟩, rfl, rfl⟩))
            | some inst => exact .inr (.inr (.inr ⟨size, inst, hend, hfetch, hexit, hinst⟩))

end Setup

end Rvzr.Unicorn
