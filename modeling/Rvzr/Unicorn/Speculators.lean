import Rvzr.Unicorn.LoadInput

/-!
The speculators of the Unicorn model (model_unicorn/speculator_abc.py, speculators_basic.py):
checkpoints, store logs, the per-instruction and per-access hooks, and which of the hooks each
speculator class ends up with.

The emulator itself is a parameter (`Uc`): it fetches and executes one instruction and reports the
memory accesses of that instruction in order. The state carries a log of what happened; no
function of the model reads it.
-/

namespace Rvzr.Unicorn

open Rvzr.Lib

/-! ### The emulator -/

/-- A memory access as the hooks see it: a load, a store with the bytes it writes, or an access to
unmapped memory. -/
inductive Access where
  | read (address size : Nat)
  | write (address : Nat) (bytes : List UInt8)
  | unmapped (address size : Nat)
  deriving Repr, DecidableEq

def Access.address : Access → Nat
  | .read address _ => address
  | .write address _ => address
  | .unmapped address _ => address

/-- How the execution of one instruction ends: at a next instruction, or with an error number and
the access that was attempted but not performed. -/
inductive Outcome where
  | done (reg : UcReg → Nat) (pc : Nat)
  | fault (errno : Nat) (attempt : Option Access)

/-- The execution of one instruction: the accesses it performs, then its outcome. -/
structure Exec where
  accesses : List Access
  outcome : Outcome

/-- The Unicorn engine. `fetch` is the size that the code hook gets, or the error number of the
fetch; `exec` is one instruction, from the emulator's state before it. -/
structure Uc where
  fetch : Mem → Nat → Except Nat Nat
  exec : Emulator → Nat → Exec

/-! ### Instructions -/

inductive MacroName where
  | measurementStart | measurementEnd | switch | faultHandler
  | switchK2u | switchU2k | setK2uTarget | setU2kTarget
  | switchH2g | switchG2h | setH2gTarget | setG2hTarget
  | landingK2u | landingU2k | landingH2g | landingG2h | setDataPermissions
  | unknown
  deriving Repr, DecidableEq

/-- The part of an `Instruction` that the model reads; `macroName` is the first operand of an
instruction named `macro`. -/
structure Inst where
  name : String
  isMacroPlaceholder : Bool
  macroName : MacroName
  deriving Repr, DecidableEq

/-- `X86UnicornTargetDesc.barriers`. -/
def barriers : List String := ["mfence", "lfence"]

def Inst.isBarrier (inst : Inst) : Bool := inst.name ∈ barriers

/-! ### State -/

inductive CTraceEntry where
  | pc (value : Nat)
  | mem (value : Nat)
  deriving Repr, DecidableEq

/-- The keys of `_curr_targets`. -/
inductive SwitchKey where
  | h2g | g2h | k2u | u2k
  deriving Repr, DecidableEq

/-- The state outside the emulator that macros change: the current actor, the tracing flag, the
switch targets and the pseudo-LSTAR. -/
structure MacroState where
  actor : Nat
  tracing : Bool
  targets : List Nat
  lstar : Nat
  deriving Repr, DecidableEq

/-- What happens in a run: an instruction is passed to the service modules, an instruction takes
effect, memory is accessed, a checkpoint is taken (`included`: with the effects of the current
instruction), a checkpoint is rolled back, the loop goes round. -/
inductive Event where
  | dispatch (pc : Nat) (inst : Inst)
  | execute (pc : Nat) (inst : Inst)
  | access (a : Access)
  | checkpoint (included : Bool) (at_ : MacroState)
  | rollback
  | resume (at_ : MacroState)
  deriving Repr, DecidableEq

/-- `_Checkpoint`. -/
structure Checkpoint where
  context : UcReg → Nat
  nextInstr : Nat
  flags : Nat
  specWindow : Nat

/-- `StoreBpasSpeculator._previous_store`, with the values as bytes. -/
structure PendingStore where
  address : Nat
  oldValue : List UInt8
  newValue : List UInt8
  deriving Repr, DecidableEq

/-- The emulator, the execution state, the tracer, the speculator and the macro interpreter. The
newest store of a log, checkpoint, log and event come first. -/
structure State where
  mem : Mem
  reg : UcReg → Nat
  currentActor : Nat
  hadArchFault : Bool
  previousContext : Option (UcReg → Nat)
  trace : List CTraceEntry
  enableTracing : Bool
  checkpoints : List Checkpoint
  storeLogs : List (List (Nat × List UInt8))
  inSpeculation : Bool
  speculationWindow : Nat
  previousStore : Option PendingStore
  currTargets : SwitchKey → Nat
  pseudoLstar : Nat
  log : List Event

namespace State

def emulator (s : State) : Emulator := ⟨s.mem, s.reg⟩

def setReg (s : State) (r : UcReg) (v : Nat) : State :=
  { s with reg := fun q => if q = r then v else s.reg q }

def macroState (s : State) : MacroState :=
  ⟨s.currentActor, s.enableTracing, [.h2g, .g2h, .k2u, .u2k].map s.currTargets, s.pseudoLstar⟩

def record (s : State) (e : Event) : State := { s with log := e :: s.log }

/-- The tracer's `_add_pc_to_trace` and `_add_mem_address_to_trace`. -/
def addToTrace (s : State) (e : CTraceEntry) : State :=
  if s.enableTracing then { s with trace := s.trace ++ [e] } else s

end State

/-! ### Class hierarchy -/

inductive SpeculatorCls where
  | unicornSpeculator | seqSpeculator | x86CondSpeculator | storeBpasSpeculator
  | x86CondBpasSpeculator
  deriving Repr, DecidableEq

namespace SpeculatorCls

def bases : SpeculatorCls → List SpeculatorCls
  | .unicornSpeculator => []
  | .x86CondBpasSpeculator => [.x86CondSpeculator, .storeBpasSpeculator]
  | _ => [.unicornSpeculator]

/-- The next class of a linearisation: the first head that is in no tail. -/
def mergeHead (ls : List (List SpeculatorCls)) : Option SpeculatorCls :=
  ls.findSome? fun l =>
    match l with
    | [] => none
    | c :: _ => if ls.all fun l' => c ∉ l'.tail then some c else none

def merge : Nat → List (List SpeculatorCls) → List SpeculatorCls
  | 0, _ => []
  | n + 1, ls =>
    match mergeHead ls with
    | none => []
    | some c => c :: merge n (ls.map fun l => if l.head? = some c then l.tail else l)

/-- Python's method resolution order, for a hierarchy of the given depth. -/
def mroOfDepth : Nat → SpeculatorCls → List SpeculatorCls
  | 0, c => [c]
  | n + 1, c => c :: merge 5 ((bases c).map (mroOfDepth n) ++ [bases c])

def mro (c : SpeculatorCls) : List SpeculatorCls := mroOfDepth 2 c

/-- The classes that `super(after, self)` looks at, for an object of class `c`. -/
def superOf (c after : SpeculatorCls) : List SpeculatorCls :=
  ((mro c).dropWhile fun c' => c' ≠ after).tail

/-- The classes with their own `_speculate_instruction`. -/
def definesSpeculateInstruction : SpeculatorCls → Bool
  | .seqSpeculator => false
  | _ => true

/-- The classes with their own `_speculate_mem_access`. -/
def definesSpeculateMemAccess : SpeculatorCls → Bool
  | .seqSpeculator | .x86CondSpeculator => false
  | _ => true

def resolve (defines : SpeculatorCls → Bool) (cs : List SpeculatorCls) : SpeculatorCls :=
  (cs.find? defines).getD .unicornSpeculator

/-- The class whose `_speculate_instruction` runs in the end: that of `X86CondBpasSpeculator` only
calls `super(X86CondSpeculator, self)`. -/
def instructionOwner (c : SpeculatorCls) : SpeculatorCls :=
  match resolve definesSpeculateInstruction (mro c) with
  | .x86CondBpasSpeculator => resolve definesSpeculateInstruction (superOf c .x86CondSpeculator)
  | owner => owner

/-- The class whose `_speculate_mem_access` runs in the end: that of `X86CondBpasSpeculator` only
calls `super(StoreBpasSpeculator, self)`. -/
def memAccessOwner (c : SpeculatorCls) : SpeculatorCls :=
  match resolve definesSpeculateMemAccess (mro c) with
  | .x86CondBpasSpeculator => resolve definesSpeculateMemAccess (superOf c .storeBpasSpeculator)
  | owner => owner

end SpeculatorCls

/-! ### Conditional jumps -/

def flagCF (f : Nat) : Bool := f.testBit 0
def flagPF (f : Nat) : Bool := f.testBit 2
def flagZF (f : Nat) : Bool := f.testBit 6
def flagSF (f : Nat) : Bool := f.testBit 7
def flagOF (f : Nat) : Bool := f.testBit 11

/-- The conditions of the opcodes `0x70`..`0x7F` and `0x0F 0x80`..`0x0F 0x8F`, by the low half of
the opcode. -/
def jumpCondition (f : Nat) : Nat → Bool
  | 0x0 => flagOF f
  | 0x1 => !flagOF f
  | 0x2 => flagCF f
  | 0x3 => !flagCF f
  | 0x4 => flagZF f
  | 0x5 => !flagZF f
  | 0x6 => flagCF f || flagZF f
  | 0x7 => !flagCF f && !flagZF f
  | 0x8 => flagSF f
  | 0x9 => !flagSF f
  | 0xA => flagPF f
  | 0xB => !flagPF f
  | 0xC => flagSF f != flagOF f
  | 0xD => flagSF f == flagOF f
  | 0xE => flagZF f || flagSF f != flagOF f
  | _ => !flagZF f && flagSF f == flagOF f

/-- The table `jumps`: the bytes of the displacement, whether the jump is taken, whether it is a
`LOOP`. -/
def jumps (code : List UInt8) (f r : Nat) : List UInt8 × Bool × Bool :=
  match code with
  | [] => ([0], false, false)
  | op :: rest =>
    if op.toNat / 16 = 0x7 then (rest, jumpCondition f (op.toNat % 16), false)
    else if op = 0xE0 then (rest, r != 1 && !flagZF f, true)
    else if op = 0xE1 then (rest, r != 1 && flagZF f, true)
    else if op = 0xE2 then (rest, r != 1, true)
    else if op = 0xE3 then (rest, r == 0, false)
    else if op = 0x0F then
      match rest with
      | [] => ([0], false, false)
      | op' :: rest' =>
        if op'.toNat / 16 = 0x8 then (rest', jumpCondition f (op'.toNat % 16), false)
        else ([0], false, false)
    else ([0], false, false)

/-- `int.from_bytes(_, byteorder='little', signed=True)`. -/
def signedLe (bs : List UInt8) : Int :=
  if 2 * Mem.ofLe bs < 2 ^ (8 * bs.length) then Mem.ofLe bs
  else (Mem.ofLe bs : Int) - 2 ^ (8 * bs.length)

/-- `X86CondSpeculator.decode`; a displacement of one byte is read as unsigned. -/
def decode (code : List UInt8) (f r : Nat) : Int × Bool × Bool :=
  match jumps code f r with
  | ([b], willJump, isLoop) => (b.toNat, willJump, isLoop)
  | (target, willJump, isLoop) => (signedLe target, willJump, isLoop)

/-! ### Hooks -/

/-- The limits that a run has: `CONF.model_max_spec_window` and the argument `nesting`. -/
structure Limits where
  cls : SpeculatorCls
  maxNesting : Nat
  maxSpecWindow : Nat

/-- The state inside an instruction hook: `stop` after `emu_stop`, `jump` after a write to the
program counter, `included` once the effects of the instruction are part of a checkpoint. -/
structure Hook where
  st : State
  stop : Bool
  jump : Option Nat
  included : Bool

/-- `_checkpoint`, called in the hook of the instruction at `pc`. -/
def checkpoint (pc : Nat) (inst : Inst) (next : Nat) (included : Bool) (h : Hook) : Hook :=
  let s := if included then h.st.record (.execute pc inst) else h.st
  { h with
    st := { s with
      checkpoints := ⟨s.reg, next, s.reg .eflags, s.speculationWindow⟩ :: s.checkpoints
      storeLogs := [] :: s.storeLogs
      inSpeculation := true
      log := .checkpoint included s.macroState :: s.log }
    included := included }

/-- `_max_nesting_reached`. -/
def maxNestingReached (lim : Limits) (s : State) : Bool := lim.maxNesting ≤ s.checkpoints.length

/-- A jump target as an address. -/
def jumpTarget (pc size : Nat) (target : Int) : Nat := ((pc + size : Int) + target).toNat

/-- `rcx - 1` as Unicorn stores it. -/
def decrement (rcx : Nat) : Nat := (rcx + 2 ^ 64 - 1) % 2 ^ 64

/-- `X86CondSpeculator._speculate_instruction`. -/
def condInstruction (lim : Limits) (pc size : Nat) (inst : Inst) (h : Hook) : Hook :=
  if maxNestingReached lim h.st then h
  else if 15 < size then h
  else
    let code := h.st.mem.read pc size
    let rcx := h.st.reg .rcx
    let (target, willJump, isLoop) := decode code (h.st.reg .eflags) rcx
    if target = 0 then h
    else
      let st := if isLoop then h.st.setReg .rcx (decrement rcx) else h.st
      let next := if willJump then jumpTarget pc size target else pc + size
      let h := checkpoint pc inst next true { h with st := st }
      { h with jump := some (if willJump then pc + size else jumpTarget pc size target) }

/-- `StoreBpasSpeculator._speculate_instruction`. -/
def bpasInstruction (lim : Limits) (pc : Nat) (inst : Inst) (h : Hook) : Hook :=
  if maxNestingReached lim h.st then { h with st := { h.st with previousStore := none } }
  else
    match h.st.previousStore with
    | none => h
    | some p =>
      let h := checkpoint pc inst pc false h
      { h with st := { h.st with
          mem := h.st.mem.write p.address p.oldValue
          storeLogs := h.st.storeLogs.modifyHead fun l => (p.address, p.newValue) :: l
          previousStore := none } }

/-- `_speculate_instruction`. -/
def speculateInstruction (lim : Limits) (pc size : Nat) (inst : Inst) (h : Hook) : Hook :=
  match lim.cls.instructionOwner with
  | .x86CondSpeculator => condInstruction lim pc size inst h
  | .storeBpasSpeculator => bpasInstruction lim pc inst h
  | _ => h

/-- The first half of `handle_instruction`: in speculation, count the instruction and request a
stop at a barrier or at the end of the window. -/
def countInstruction (lim : Limits) (inst : Inst) (h : Hook) : Hook :=
  if h.st.inSpeculation then
    { h with
      st := { h.st with speculationWindow := h.st.speculationWindow + 1 }
      stop := h.stop || inst.isBarrier ||
        decide (lim.maxSpecWindow < h.st.speculationWindow + 1) }
  else h

/-- `handle_instruction`: also after a request to stop, the speculator acts. -/
def handleInstruction (lim : Limits) (pc size : Nat) (inst : Inst) (h : Hook) : Hook :=
  speculateInstruction lim pc size inst (countInstruction lim inst h)

/-- `StoreBpasSpeculator._speculate_mem_access`; `none` is a `NotImplementedError`. -/
def bpasMemAccess (s : State) : Access → Option State
  | .write address bytes =>
    match s.previousStore with
    | none =>
      some { s with previousStore := some ⟨address, s.mem.read address bytes.length, bytes⟩ }
    | some p =>
      -- a duplicate call repeats a part of the store
      if p.address ≤ address ∧ address + bytes.length ≤ p.address + p.newValue.length ∧
          (p.newValue[address - p.address]?.map UInt8.toNat) = some (Mem.ofLe bytes) then some s
      else none
  | _ => some s

/-- `_speculate_mem_access`. -/
def speculateMemAccess (lim : Limits) (s : State) (a : Access) : Option State :=
  match lim.cls.memAccessOwner with
  | .storeBpasSpeculator => bpasMemAccess s a
  | _ => some s

/-- The store log entry of an access: eight bytes from its address on. -/
def logStore (s : State) : Access → State
  | .write address _ =>
    { s with storeLogs := s.storeLogs.modifyHead fun l => (address, s.mem.read address 8) :: l }
  | _ => s

/-- `handle_mem_access`. -/
def handleMemAccess (lim : Limits) (s : State) (a : Access) : Option State :=
  speculateMemAccess lim (logStore s a) a

/-- The memory with a store log undone, the newest entry first. -/
def undo (m : Mem) (l : List (Nat × List UInt8)) : Mem := l.foldl (fun m e => m.write e.1 e.2) m

/-- `rollback`: the address to restart at and the restored state; `none` when there is no
checkpoint. `StoreBpasSpeculator` cancels a pending store first; the others never have one. -/
def rollback (s : State) : Option (Nat × State) :=
  match s.checkpoints with
  | [] => none
  | c :: cs =>
    some (c.nextInstr, { s with
      reg := fun r => if r = .eflags then c.flags else c.context r
      mem := undo s.mem (s.storeLogs.headD [])
      checkpoints := cs
      storeLogs := s.storeLogs.tail
      inSpeculation := s.inSpeculation && !cs.isEmpty
      speculationWindow := c.specWindow
      previousStore := none
      log := .rollback :: s.log })

end Rvzr.Unicorn
