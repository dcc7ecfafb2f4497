import Rvzr.TestCase.Binary
import Rvzr.Unicorn.Speculators

/-!
`UnicornModel._run_state_machine` (model_unicorn/model.py) with the dispatcher, the CT tracer and
the macro interpreter (model_unicorn/interpreter.py), as a step function.

One step is either one iteration of the `while` loop up to `emu_start` (`Mode.loop`) or one
instruction of the emulator with its hooks (`Mode.emu`), followed by what the loop does when that
instruction stops the emulator.
-/

namespace Rvzr.Unicorn

open Rvzr.Lib Rvzr.TestCase

/-! ### The test case -/

/-- The fields of a `SymbolTableEntry` that the macro interpreter reads. -/
structure Symbol where
  sid : Nat
  offset : Nat
  arg : Nat
  deriving Repr, DecidableEq

/-- Everything that stays fixed in a run: the emulator, the limits and the loaded test case.
`instruction` is `instruction_map`, by actor and offset in the actor's section. `softFault` is the
verdict of the guest and user-space interpreters on an instruction of an actor. -/
structure Setup where
  uc : Uc
  lim : Limits
  dataStart : Nat
  codeStart : Nat
  nActors : Nat
  exitAddr : Nat
  faultHandlerAddr : Nat
  instruction : Nat → Nat → Option Inst
  functionTable : List Symbol
  macroTable : List Symbol
  privilegeLevel : Nat → Option ActorPL
  isAmd : Bool
  handledFaults : Nat → Bool
  softFault : Nat → Nat → Option Nat

/-- `code_size_per_actor`. -/
def codeSizePerActor : Nat := 3 * pageSize

namespace Setup

variable (m : Setup)

def codeEnd : Nat := m.codeStart + m.nActors * codeSizePerActor

/-- `get_code_addr(CodeArea.MAIN, _)`. -/
def sectionStart (actor : Nat) : Nat := m.codeStart + actor * codeSizePerActor

/-- `code_addr_to_actor_id`. -/
def codeAddrToActorId (pc : Nat) : Nat := (pc - m.codeStart) / codeSizePerActor

/-- The lookup of `update_context`: `instruction_map[aid][address - section_start]`. -/
def instructionAt (actor pc : Nat) : Option Inst :=
  if m.sectionStart actor ≤ pc then m.instruction actor (pc - m.sectionStart actor) else none

/-- `is_exit_addr`; the main actor has the number 0. -/
def isExitAddr (s : State) (pc : Nat) : Bool :=
  pc = m.exitAddr || (s.currentActor = 0 && m.exitAddr < pc)

/-! ### Macros -/

/-- What the interpreter makes of an instruction: it may raise a fault in the hook, and it ends
with a Python exception when a macro names an actor that does not exist. -/
inductive Interpreted where
  | ok (h : Hook)
  | fault (errno : Nat) (h : Hook)
  | crash

/-- `UC_ERR_NOMEM`, `UC_ERR_EXCEPTION`. -/
def criticalError : Nat := 1
def errException : Nat := 21

/-- `_get_macro_args`. -/
def macroArgs (sid offset : Nat) : Option (Nat × Nat) :=
  (m.macroTable.find? fun s => s.sid = sid ∧ s.offset = offset).map fun s =>
    (s.arg % 2 ^ 16, s.arg / 2 ^ 16 % 2 ^ 16)

/-- The address of a function in a section (`_find_function_by_id`). -/
def functionAddr (sid fid : Nat) : Option Nat :=
  m.functionTable[fid]?.map fun f => m.sectionStart sid + f.offset

/-- The end of every switch macro: the program counter, the data base and the stack pointer of the
new actor, and the actor itself. -/
def switchTo (target sid : Nat) (h : Hook) : Interpreted :=
  match m.privilegeLevel sid with
  | none => .crash
  | some _ => .ok { h with
      st := { (h.st.setReg .r14 (getDataAddr m.dataStart .main sid)).setReg .rsp
          (getDataAddr m.dataStart .rspInit sid) with currentActor := sid }
      jump := some target }

/-- `set_*_target` for an entry of `_curr_targets`. -/
def setTarget (key : SwitchKey) (sid fid : Nat) (h : Hook) : Interpreted :=
  match m.functionAddr sid fid with
  | none => .fault criticalError h
  | some a => .ok { h with st := { h.st with
      currTargets := fun k => if k = key then a else h.st.currTargets k } }

/-- AMD clobbers `RAX` at a switch to or from a guest. -/
def clobberRax : Interpreted → Interpreted
  | .ok h => .ok (if m.isAmd then { h with st := h.st.setReg .rax 0 } else h)
  | r => r

/-- The macro callbacks. -/
def macroCallback (name : MacroName) (sid fid : Nat) (h : Hook) : Interpreted :=
  match name with
  | .measurementStart =>
    .ok (if h.st.inSpeculation then h else { h with st := { h.st with enableTracing := true } })
  | .measurementEnd =>
    .ok (if h.st.inSpeculation then h else { h with st := { h.st with enableTracing := false } })
  | .switch =>
    match m.functionAddr sid fid with
    | none => .fault criticalError h
    | some a => m.switchTo a sid h
  | .switchK2u => m.switchTo (h.st.currTargets .k2u) sid h
  | .switchU2k => m.switchTo h.st.pseudoLstar sid h
  | .switchH2g =>
    m.clobberRax (m.switchTo (h.st.currTargets .h2g) sid
      { h with st := h.st.setReg .eflags 2 })
  | .switchG2h => m.clobberRax (m.switchTo (h.st.currTargets .g2h) sid h)
  | .setK2uTarget => m.setTarget .k2u sid fid h
  | .setH2gTarget => m.setTarget .h2g sid fid h
  | .setG2hTarget => m.setTarget .g2h sid fid h
  | .setU2kTarget =>
    if m.privilegeLevel h.st.currentActor ≠ some .kernel then .fault errException h
    else
      match m.functionAddr sid fid with
      | none => .fault criticalError h
      | some a => .ok { h with st := { h.st with pseudoLstar := a } }
  | .landingK2u | .landingU2k => .ok { h with st := h.st.setReg .rcx 0 }
  | .landingH2g | .landingG2h | .setDataPermissions | .faultHandler => .ok h
  | .unknown => .fault criticalError h

/-- `_interpret_macro`. -/
def interpretMacro (pc : Nat) (inst : Inst) (h : Hook) : Interpreted :=
  match m.macroArgs h.st.currentActor (pc - m.sectionStart h.st.currentActor) with
  | none => .fault criticalError h
  | some (sid, fid) => m.macroCallback inst.macroName sid fid h

/-- `interpret_instruction`. -/
def interpretInstruction (pc : Nat) (inst : Inst) (h : Hook) : Interpreted :=
  let r := if inst.name = "macro" then m.interpretMacro pc inst h else .ok h
  match r with
  | .ok h =>
    match m.softFault h.st.currentActor pc with
    | none => .ok h
    | some errno => .fault errno h
  | r => r

/-! ### Dispatch -/

/-- `instruction_dispatch` up to the interpreter: the tracer, then the speculator. -/
def instructionHook (pc size : Nat) (inst : Inst) (s : State) : Hook :=
  handleInstruction m.lim pc size inst
    ⟨(s.record (.dispatch pc inst)).addToTrace (.pc pc), false, none, false⟩

/-- `mem_access_dispatch`: the speculator, then the tracer. Permission faults are part of the
emulator's outcome. -/
def memAccessDispatch (inst : Inst) (s : State) (a : Access) : Option State :=
  if inst.isMacroPlaceholder then some s
  else (handleMemAccess m.lim s a).map fun s => (s.record (.access a)).addToTrace (.mem a.address)

/-- One access: its hook, then its effect on memory. -/
def performAccess (inst : Inst) (s : State) (a : Access) : Option State :=
  (m.memAccessDispatch inst s a).map fun s =>
    match a with
    | .write address bytes => { s with mem := s.mem.write address bytes }
    | _ => s

/-! ### The state machine -/

inductive Mode where
  | loop (pc : Nat)
  | emu (pc : Nat)
  | returned
  | crashed
  deriving Repr, DecidableEq

/-- Roll back and go round the loop. -/
def rollbackStep (s : State) : Mode × State :=
  match rollback s with
  | none => (.crashed, s)
  | some (pc, s) => (.loop pc, s)

/-- After the emulator stopped without a fault, and after a fault that is not continued. -/
def afterStop (s : State) : Mode × State :=
  if s.inSpeculation then rollbackStep s else (.returned, s)

/-- `_patch_context_after_fault`, and the access that the fault itself makes. -/
def patchContext (context : UcReg → Nat) (s : State) : State :=
  { s with reg := context }.addToTrace (.mem (getDataAddr m.dataStart .rspInit 0))

/-- `_handle_fault` and what the loop does with its result; these speculators have no mechanism
for faults. -/
def handleFault (errno : Nat) (s : State) : Mode × State :=
  if s.inSpeculation then rollbackStep s
  else if s.hadArchFault then (.crashed, s)
  else if m.handledFaults errno then
    if m.faultHandlerAddr ≠ 0 ∧ m.faultHandlerAddr ≠ m.exitAddr then
      (.loop m.faultHandlerAddr, { s with hadArchFault := true })
    else (.returned, { s with hadArchFault := true })
  else (.crashed, { s with hadArchFault := true })

/-- After a fault. -/
def afterFault (errno : Nat) (s : State) : Mode × State :=
  match s.previousContext with
  | none => (.crashed, s)
  | some context => m.handleFault errno (m.patchContext context s)

/-- After the accesses of an instruction. -/
def afterExec (inst : Inst) (s : State) : Outcome → Mode × State
  | .done reg pc => (.emu pc, { s with reg := reg })
  | .fault errno none => m.afterFault errno s
  | .fault errno (some a) =>
    match m.memAccessDispatch inst s a with
    | none => (.crashed, s)
    | some s => m.afterFault errno s

/-- The emulator executes the instruction. -/
def execute (pc : Nat) (inst : Inst) (s : State) : Mode × State :=
  match (m.uc.exec s.emulator pc).accesses.foldlM (m.performAccess inst)
      (s.record (.execute pc inst)) with
  | none => (.crashed, s)
  | some s' => m.afterExec inst s' (m.uc.exec s.emulator pc).outcome

/-- After the hooks of an instruction: a stop, a jump, or the instruction itself. -/
def afterHook (pc : Nat) (inst : Inst) : Interpreted → State → Mode × State
  | .crash, s => (.crashed, s)
  | .fault errno h, _ => m.afterFault errno h.st
  | .ok h, _ =>
    if h.stop then afterStop h.st
    else
      match h.jump with
      | some pc' => (.emu pc', if h.included then h.st else h.st.record (.execute pc inst))
      | none => m.execute pc inst h.st

/-- One instruction in the emulator. -/
def emuStep (pc : Nat) (s : State) : Mode × State :=
  if pc = m.codeEnd then afterStop s
  else
    match m.uc.fetch s.mem pc with
    | .error errno => m.afterFault errno s
    | .ok size =>
      if m.isExitAddr s pc then afterStop s
      else
        match m.instructionAt s.currentActor pc with
        | none => (.crashed, s)
        | some inst =>
          let s := { s with previousContext := some s.reg }
          if inst.isMacroPlaceholder then m.execute pc inst s
          else
            m.afterHook pc inst (m.interpretInstruction pc inst (m.instructionHook pc size inst s)) s

/-- One iteration of the loop, up to `emu_start`. -/
def loopStep (pc : Nat) (s : State) : Mode × State :=
  let s := { s with currentActor := m.codeAddrToActorId pc }
  let s := s.record (.resume s.macroState)
  if pc ≠ m.codeStart ∧ m.isExitAddr s pc then
    if s.inSpeculation then rollbackStep s else (.returned, s)
  else if pc ≠ m.codeStart ∧ pc = m.faultHandlerAddr ∧ s.inSpeculation then rollbackStep s
  else (.emu pc, s)

def step : Mode × State → Mode × State
  | (.loop pc, s) => m.loopStep pc s
  | (.emu pc, s) => m.emuStep pc s
  | (.returned, s) => (.returned, s)
  | (.crashed, s) => (.crashed, s)

/-- The state in which `_run_state_machine` is entered: the input is loaded, the speculator, the
tracer and the execution state are reset. -/
def start (em : Emulator) (targets : SwitchKey → Nat) (lstar : Nat) : Mode × State :=
  (.loop m.codeStart,
    { mem := em.mem
      reg := em.reg
      currentActor := 0
      hadArchFault := false
      previousContext := none
      trace := []
      enableTracing := false
      checkpoints := []
      storeLogs := []
      inSpeculation := false
      speculationWindow := 0
      previousStore := none
      currTargets := targets
      pseudoLstar := lstar
      log := [] })

/-- The configuration after a number of steps. -/
def run (em : Emulator) (targets : SwitchKey → Nat) (lstar n : Nat) : Mode × State :=
  m.step^[n] (m.start em targets lstar)

end Setup

end Rvzr.Unicorn
