import Rvzr.Lib.Bytes
import Rvzr.Lib.Machine
import Rvzr.Lib.Runs

/-!
The speculators of the DynamoRIO backend (model_dynamorio/backend/speculator_abc.cpp,
speculators/cond.cpp, include/types/store_log.hpp).

DynamoRIO and the traced process are a parameter (`Process`): what the decoder says about an
instruction, which addresses can be read, written and executed. A handler gets the machine context
and the memory as they are when it is called, and ends the whole tracing process when it calls
`dr_abort`.
-/

namespace Rvzr.Dynamorio

open Rvzr.Lib

/-! ### Registers, operands, instructions -/

inductive Gpr where
  | rax | rcx | rdx | rbx | rsp | rbp | rsi | rdi
  | r8 | r9 | r10 | r11 | r12 | r13 | r14 | r15
  deriving Repr, DecidableEq

/-- The parts of a general register that have a name of their own. -/
inductive Part where
  | low8 | high8 | low16 | low32 | full
  deriving Repr, DecidableEq

/-- `reg_id_t`. The names without a class of their own here are `other`. -/
inductive Reg where
  | null
  | gpr (g : Gpr) (part : Part)
  | xmm (n : Nat)
  | ymm (n : Nat)
  | zmm (n : Nat)
  | other (n : Nat)
  deriving Repr, DecidableEq

/-- `opnd_t`: a register, a memory reference with base and index, a memory reference by address,
or neither of them. -/
inductive Opnd where
  | reg (r : Reg)
  | baseDisp (base index : Reg) (scale : Nat) (disp : Int)
  | absAddr (addr : Nat)
  | other
  deriving Repr, DecidableEq

/-- The opcodes that the backend names. -/
inductive Opcode where
  | lfence | mfence | sfence
  | invd | invept | invlpg | invvpid | lgdt | lidt | lldt | ltr | wbinvd | wrmsr
  | cpuid | iret | rsm | serialize
  | xbegin | xabort | xend | xtest
  | xsave32 | xsave64 | xsavec32 | xsavec64 | xsaves32 | xsaves64 | xsaveopt32 | xsaveopt64
  | xrstor32 | xrstor64 | xrstors32 | xrstors64
  | hlt | syscall
  | movLd | movSt | movImm | movPriv | movd | movq | movs | movsx | movzx | movsxd | movbe | lea
  | other (n : Nat)
  deriving Repr, DecidableEq

/-- What the decoder answers about the instruction at an address. `branchTarget` is
`instr_get_branch_target_pc`, `target` is `instr_get_target`. -/
structure Instr where
  opcode : Opcode
  nextPc : Nat
  isCbr : Bool := false
  isCtiLoop : Bool := false
  isMbr : Bool := false
  isReturn : Bool := false
  readsMemory : Bool := false
  writesMemory : Bool := false
  branchTarget : Nat := 0
  target : Opnd := .other
  dsts : List Opnd := []
  deriving Repr, DecidableEq

/-- `dr_mcontext_t`. A vector register is one number of 512 bits. -/
structure Mcontext where
  pc : Nat
  gpr : Gpr → Nat
  xflags : Nat
  simd : Nat → Nat

def Mcontext.setGpr (mc : Mcontext) (g : Gpr) (v : Nat) : Mcontext :=
  { mc with gpr := fun g' => if g' = g then v else mc.gpr g' }

/-- DynamoRIO and the traced process. `memRefs` lists what `instr_compute_address_ex` enumerates:
address and whether the reference is a write; `memSize` is `instr_memory_reference_size`. -/
structure Process where
  decode : Nat → Instr
  jccTaken : Instr → Nat → Bool
  regGetValue : Reg → Mcontext → Nat
  computeAddress : Opnd → Mcontext → Nat
  memRefs : Instr → Mcontext → List (Nat × Bool)
  memSize : Instr → Nat
  readable : Nat → Bool
  writable : Nat → Bool
  executable : Nat → Bool

namespace Process

variable (p : Process)

/-- Every byte of a range has a property. -/
def covers (q : Nat → Bool) (addr size : Nat) : Bool := (List.range size).all fun i => q (addr + i)

/-- `dr_safe_read`. -/
def safeRead (mem : Mem) (addr size : Nat) : Option Nat :=
  if covers p.readable addr size then some (Mem.ofLe (mem.read addr size)) else none

/-- `dr_safe_write`. -/
def safeWrite (mem : Mem) (addr size val : Nat) : Option Mem :=
  if covers p.writable addr size then some (mem.write addr (leBytes size val)) else none

/-- `is_illegal_jump` (util.cpp). -/
def isIllegalJump (mem : Mem) (mc : Mcontext) (i : Instr) : Bool :=
  let loaded (addr : Nat) : Bool :=
    match p.safeRead mem addr 8 with
    | none => true
    | some v => !p.executable v
  if !i.isMbr then false
  else if i.isReturn then loaded (mc.gpr .rsp)
  else
    match i.target with
    | .reg r => !p.executable (p.regGetValue r mc)
    | .other => false
    | target => loaded (p.computeAddress target mc)

end Process

/-! ### The store log -/

structure StoreLogEntry where
  addr : Nat
  val : Nat
  size : Nat
  nestingLevel : Nat
  deriving Repr, DecidableEq

/-- `StoreLog`; the newest entry is the head. -/
structure StoreLog where
  entries : List StoreLogEntry := []
  lastCommitted : Nat := 0
  deriving Repr, DecidableEq

namespace StoreLog

variable (l : StoreLog)

abbrev size : Nat := l.entries.length

def popBack : StoreLog where
  entries := l.entries.tail
  lastCommitted := if l.size = l.lastCommitted then l.lastCommitted - 1 else l.lastCommitted

def pushBack (e : StoreLogEntry) : StoreLog := { l with entries := e :: l.entries }

def updateCommitted : StoreLog := { l with lastCommitted := l.size }

def hasUncommitted : Bool := l.lastCommitted < l.size

/-- The loop of `flush_uncommitted` over the entries that are left. -/
def flushLoop (lastCommitted : Nat) : List StoreLogEntry → StoreLog
  | [] => { entries := [], lastCommitted := lastCommitted }
  | e :: es =>
    let l : StoreLog := { entries := e :: es, lastCommitted := lastCommitted }
    if l.hasUncommitted then flushLoop l.popBack.lastCommitted es else l

def flushUncommitted : StoreLog := flushLoop l.lastCommitted l.entries

end StoreLog

/-! ### The speculator -/

structure Checkpoint where
  rollbackPc : Nat
  specWindow : Nat
  mc : Mcontext

/-- The fields of `SpeculatorABC`; the newest checkpoint is the head. -/
structure Speculator where
  enabled : Bool := false
  inSpeculation : Bool := false
  checkpoints : List Checkpoint := []
  storeLog : StoreLog := {}
  nesting : Nat := 0
  specWindow : Nat := 0

/-- The constructor's arguments; `max_nesting` and `max_spec_window` are stored as
`unsigned int`. -/
structure Limits where
  maxNesting : Nat
  maxSpecWindow : Nat
  poisonValue : Option Nat
  maxNesting_lt : maxNesting < 2 ^ 32
  maxSpecWindow_lt : maxSpecWindow < 2 ^ 32

/-- The calls of `dr_abort` in the speculator. -/
inductive Abort where
  | noCheckpoints
  | rollbackStore
  | leftovers
  deriving Repr, DecidableEq

/-- What the dispatcher and the speculator tell the logger, the taint tracker and the tracer. -/
inductive Call where
  | instruction (pc nesting : Nat)
  | memAccess (isWrite : Bool) (addr size : Nat)
  | checkpoint (pc : Nat)
  | rollback (nesting pc : Nat)
  deriving Repr, DecidableEq

/-- What a handler works on; `calls` grows at its end and is read by no handler. -/
structure World where
  mc : Mcontext
  mem : Mem
  spec : Speculator
  calls : List Call := []

/-- `unsigned int` arithmetic. -/
def incr32 (n : Nat) : Nat := (n + 1) % 2 ^ 32
def decr32 (n : Nat) : Nat := (n + (2 ^ 32 - 1)) % 2 ^ 32

/-- `serializing_opcodes`. -/
def serializingOpcodes : List Opcode :=
  [.lfence, .mfence, .sfence, .invd, .invept, .invlpg, .invvpid, .lgdt, .lidt, .lldt, .ltr,
    .wbinvd, .wrmsr, .cpuid, .iret, .rsm, .serialize, .xbegin, .xabort, .xend, .xtest, .xsave32,
    .xsave64, .xsavec32, .xsavec64, .xsaves32, .xsaves64, .xsaveopt32, .xsaveopt64, .xrstor32,
    .xrstor64, .xrstors32, .xrstors64, .hlt, .syscall]

def isSpeculationBarrier (op : Opcode) : Bool := op ∈ serializingOpcodes

namespace Speculator

variable (lim : Limits) (p : Process)

/-- `skip_speculation`. -/
def skipSpeculation (s : Speculator) : Bool :=
  !s.enabled || lim.maxNesting ≤ s.nesting || lim.maxSpecWindow ≤ s.specWindow

/-- `SpeculatorABC::checkpoint`. -/
def checkpoint (w : World) (pc : Nat) : World := { w with
  spec := { w.spec with
    checkpoints := { rollbackPc := pc, specWindow := w.spec.specWindow, mc := w.mc } ::
      w.spec.checkpoints
    inSpeculation := true
    nesting := incr32 w.spec.nesting }
  calls := w.calls ++ [.checkpoint pc] }

/-- The loop of `rollback` that undoes the stores of the innermost window. -/
def undoStores (nesting : Nat) (mem : Mem) (lastCommitted : Nat) :
    List StoreLogEntry → Except Abort (Mem × StoreLog)
  | [] => .ok (mem, { entries := [], lastCommitted := lastCommitted })
  | store :: es =>
    let l : StoreLog := { entries := store :: es, lastCommitted := lastCommitted }
    if store.nestingLevel < nesting then .ok (mem, l)
    else
      match p.safeWrite mem store.addr store.size store.val with
      | none => .error .rollbackStore
      | some mem => undoStores nesting mem l.popBack.lastCommitted es

/-- `SpeculatorABC::rollback`: the world after it and the address to go on at. -/
def rollback (w : World) : Except Abort (World × Nat) :=
  match w.spec.checkpoints with
  | [] => .error .noCheckpoints
  | cp :: cps => do
    let (mem, log) ← undoStores p w.spec.nesting w.mem w.spec.storeLog.lastCommitted
      w.spec.storeLog.entries
    let nesting := decr32 w.spec.nesting
    if nesting = 0 ∧ ¬ (cps = [] ∧ log.entries = []) then throw .leftovers
    let spec := { w.spec with
      checkpoints := cps
      specWindow := cp.specWindow
      storeLog := log
      nesting := nesting
      inSpeculation := if nesting = 0 then false else w.spec.inSpeculation }
    let calls := w.calls ++ [.rollback nesting cp.rollbackPc]
    return ({ mc := cp.mc, mem := mem, spec := spec, calls := calls }, cp.rollbackPc)

/-- `SpeculatorABC::handle_instruction`, for the instruction at `w.mc.pc`; 0 stands for no
redirection. -/
def handleInstructionABC (i : Instr) (w : World) : Except Abort (World × Nat) :=
  let w := { w with spec := { w.spec with storeLog := w.spec.storeLog.updateCommitted } }
  if !w.spec.inSpeculation then .ok (w, 0)
  else if isSpeculationBarrier i.opcode then rollback p w
  else
    let w := { w with spec := { w.spec with specWindow := incr32 w.spec.specWindow } }
    if lim.maxSpecWindow ≤ w.spec.specWindow then rollback p w
    else if p.isIllegalJump w.mem w.mc i then rollback p w
    else .ok (w, 0)

/-- The words of a store, 64 bits at a time. -/
def storeWords (addr size : Nat) : List (Nat × Nat) :=
  (List.range ((size + 7) / 8)).map fun k => (add64 addr (8 * k), min 8 (size - 8 * k))

/-- The loop of `handle_mem_access`: it stops at the first word that cannot be read. -/
def logWords (mem : Mem) (nesting : Nat) : StoreLog → List (Nat × Nat) → StoreLog × Bool
  | log, [] => (log, true)
  | log, (addr, size) :: ws =>
    match p.safeRead mem addr size with
    | none => (log, false)
    | some val =>
      logWords mem nesting
        (log.pushBack { addr := addr, val := val, size := size, nestingLevel := nesting }) ws

/-- `SpeculatorABC::handle_mem_access`. -/
def handleMemAccess (isWrite : Bool) (addr size : Nat) (w : World) : World × Bool :=
  if !w.spec.inSpeculation || !isWrite then (w, true)
  else
    let r := logWords p w.mem w.spec.nesting w.spec.storeLog (storeWords addr size)
    ({ w with spec := { w.spec with storeLog := r.1 } }, r.2)

/-- `reg_to_pointer_sized`. -/
def toPointerSized : Reg → Reg
  | .gpr g _ => .gpr g .full
  | r => r

/-- `is_supported_reg`. -/
def isSupportedReg : Reg → Bool
  | .gpr _ _ | .xmm _ | .ymm _ | .zmm _ => true
  | .null | .other _ => false

/-- The 64-bit value `n` times over. -/
def repeated (v : Nat) : Nat → Nat
  | 0 => 0
  | n + 1 => v + 2 ^ 64 * repeated v n

/-- `reg_set_value_ex` with the poison buffer, for a supported register. -/
def setPoison (r : Reg) (v : Nat) (mc : Mcontext) : Mcontext :=
  let low (n words : Nat) : Mcontext := { mc with
    simd := fun k => if k = n
      then mc.simd k / 2 ^ (64 * words) * 2 ^ (64 * words) + repeated v words else mc.simd k }
  match r with
  | .gpr g _ => mc.setGpr g v
  | .xmm n => low n 2
  | .ymm n => low n 4
  | .zmm n => low n 8
  | .null | .other _ => mc

/-- The register that `handle_exception` poisons, if it does not roll back: the first destination
of a load. -/
def poisonedReg (i : Instr) : Option Reg :=
  if !i.readsMemory then none
  else
    match i.dsts with
    | .reg r :: _ => if isSupportedReg (toPointerSized r) then some (toPointerSized r) else none
    | _ => none

/-- `SpeculatorABC::handle_exception`: whether execution was redirected. -/
def handleException (w : World) : Except Abort (World × Bool) :=
  if !w.spec.inSpeculation then .ok (w, false)
  else
    match lim.poisonValue, poisonedReg (p.decode w.mc.pc) with
    | some v, some r =>
      .ok ({ w with mc := { setPoison r v w.mc with pc := (p.decode w.mc.pc).nextPc } }, true)
    | _, _ => do
      let (w, newPc) ← rollback p
        { w with spec := { w.spec with storeLog := w.spec.storeLog.flushUncommitted } }
      return ({ w with mc := { w.mc with pc := newPc } }, true)

end Speculator

namespace SpeculatorCond

open Speculator

variable (lim : Limits) (p : Process)

/-- The register effect of `LOOP`. -/
def countDown (i : Instr) (mc : Mcontext) : Mcontext :=
  if i.isCtiLoop then mc.setGpr .rcx (sub64 (mc.gpr .rcx) 1) else mc

/-- The part of `SpeculatorCond::handle_instruction` after the superclass' handler: at a branch,
checkpoint the correct path and go on at the opposite one. -/
def mispredict (i : Instr) (w : World) : World × Nat :=
  if w.spec.skipSpeculation lim then (w, 0)
  else if !i.isCbr then (w, 0)
  else
    -- the branch is resolved from the flags, before `LOOP` counts down
    let willJump := p.jccTaken i w.mc.xflags
    let w := { w with mc := countDown i w.mc }
    if willJump then (checkpoint w i.branchTarget, i.nextPc)
    else (checkpoint w i.nextPc, i.branchTarget)

/-- `SpeculatorCond::handle_instruction`. -/
def handleInstruction (i : Instr) (w : World) : Except Abort (World × Nat) := do
  let r ← handleInstructionABC lim p i w
  return if r.2 ≠ 0 then r else mispredict lim p i r.1

end SpeculatorCond

end Rvzr.Dynamorio
