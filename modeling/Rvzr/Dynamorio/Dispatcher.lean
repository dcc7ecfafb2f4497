import Rvzr.Dynamorio.Speculator
import Rvzr.Lib.Stutter

/-!
The dispatcher of the DynamoRIO backend (model_dynamorio/backend/dispatcher.cpp) at work on a
traced program, with the COND speculator, and the same program without instrumentation.

The program, the operating system and DynamoRIO are a parameter (`Host`). Between an instruction
and the next one the backend takes up to three steps: `dispatch_callback` up to the instruction
dispatch, its memory access dispatch, and the execution of the instruction or its exception.
-/

namespace Rvzr.Dynamorio

open Rvzr.Lib

/-! ### The traced process -/

/-- The state of the traced process. `env` is whatever is neither in the machine context nor in the
memory: the other registers, page permissions, the kernel. -/
structure App (E : Type) where
  env : E
  mc : Mcontext
  mem : Mem

/-- `fetches` says whether DynamoRIO can build a block at the current address; `exec` executes the
instruction there, and is `none` when it raises an exception; `deliver` lets the program handle
the exception. The function under test is left when execution gets to `exitPc`. -/
structure Host (E : Type) where
  process : E → Process
  fetches : App E → Bool
  exec : App E → Option (App E)
  deliver : App E → App E
  exitPc : Nat

variable {E : Type}

namespace Host

variable (h : Host E)

/-! ### Without instrumentation -/

/-- The program by itself; `executed` lists the addresses of its instructions. -/
structure Native (E : Type) where
  app : App E
  executed : List Nat := []
  finished : Bool := false

def nativeStep (n : Native E) : Native E :=
  if n.finished then n
  else if n.app.mc.pc = h.exitPc then { n with finished := true }
  else if !h.fetches n.app then { n with app := h.deliver n.app }
  else { n with
    app := (h.exec n.app).getD (h.deliver n.app)
    executed := n.executed ++ [n.app.mc.pc] }

def native (a : App E) (n : Nat) : Native E := h.nativeStep^[n] { app := a }

/-! ### Under the dispatcher -/

/-- What comes next at the current instruction. -/
inductive Phase where
  | fetch | access | execute
  deriving Repr, DecidableEq

/-- `undecodable` is the `dr_abort` of the decoder. -/
inductive Status where
  | running (phase : Phase)
  | finished
  | aborted (a : Abort)
  | undecodable
  deriving Repr, DecidableEq

structure Traced (E : Type) where
  env : E
  world : World
  status : Status := .running .fetch

def Traced.app (t : Traced E) : App E := { env := t.env, mc := t.world.mc, mem := t.world.mem }

def Traced.withApp (t : Traced E) (a : App E) : Traced E :=
  { t with env := a.env, world := { t.world with mc := a.mc, mem := a.mem } }

def Traced.process (t : Traced E) : Process := h.process t.env

/-- The instruction at the current address. -/
def Traced.instr (t : Traced E) : Instr := (t.process h).decode t.world.mc.pc

/-- Continue at `pc`: `dr_redirect_execution`. -/
def Traced.redirect (t : Traced E) (w : World) (pc : Nat) : Traced E :=
  { t with world := { w with mc := { w.mc with pc := pc } }, status := .running .fetch }

/-- What a dispatch function's answer leads to: the process ends, goes on at another address, or
gets to the next phase of the same instruction, with the registers that the handlers left. -/
def Traced.resume (t : Traced E) (next : Phase) : Except Abort (World × Nat) → Traced E
  | .error a => { t with status := .aborted a }
  | .ok (w, pc) =>
    if pc ≠ 0 then t.redirect w pc
    else { t with
      world := { w with mc := { w.mc with pc := t.world.mc.pc } }
      status := .running next }

variable (lim : Limits)

/-- `instruction_dispatch`. -/
def instructionDispatch (p : Process) (w : World) : Except Abort (World × Nat) :=
  SpeculatorCond.handleInstruction lim p (p.decode w.mc.pc)
    { w with calls := w.calls ++ [.instruction w.mc.pc w.spec.nesting] }

/-- The loop of `mem_access_dispatch` over the memory references. -/
def accessLoop (p : Process) (size : Nat) (w : World) :
    List (Nat × Bool) → Except Abort (World × Nat)
  | [] => .ok (w, 0)
  | (addr, isWrite) :: refs =>
    let r := Speculator.handleMemAccess p isWrite addr size
      { w with calls := w.calls ++ [.memAccess isWrite addr size] }
    if r.2 then accessLoop p size r.1 refs else Speculator.rollback p r.1

/-- `mem_access_dispatch`. -/
def memAccessDispatch (p : Process) (w : World) : Except Abort (World × Nat) :=
  let i := p.decode w.mc.pc
  accessLoop p (p.memSize i) w (p.memRefs i w.mc)

/-- `exit_callback`. -/
def exitCallback (t : Traced E) : Traced E :=
  if t.world.spec.inSpeculation then
    match Speculator.rollback (t.process h) t.world with
    | .error a => { t with status := .aborted a }
    | .ok (w, pc) => t.redirect w pc
  else { t with
    world := { t.world with spec := { t.world.spec with enabled := false } }
    status := .finished }

/-- `Dispatcher::handle_exception`, and the program's own handling of the exception. -/
def handleException (t : Traced E) : Traced E :=
  match Speculator.handleException lim (t.process h) t.world with
  | .error a => { t with status := .aborted a }
  | .ok (w, true) => { t with world := w, status := .running .fetch }
  | .ok (_, false) => { t.withApp (h.deliver t.app) with status := .running .fetch }

/-- There is no instruction at the current address. `handle_exception` decodes it nevertheless when
it has a value to poison registers with. -/
def fetchException (t : Traced E) : Traced E :=
  if t.world.spec.inSpeculation ∧ lim.poisonValue ≠ none then { t with status := .undecodable }
  else h.handleException lim t

/-- One step of the traced process. -/
def step (t : Traced E) : Traced E :=
  match t.status with
  | .running .fetch =>
    if t.world.mc.pc = h.exitPc then h.exitCallback t
    else if !h.fetches t.app then h.fetchException lim t
    else
      let i := t.instr h
      t.resume (if i.readsMemory || i.writesMemory then .access else .execute)
        (instructionDispatch lim (t.process h) t.world)
  | .running .access => t.resume .execute (memAccessDispatch (t.process h) t.world)
  | .running .execute =>
    match h.exec t.app with
    | some a => { t.withApp a with status := .running .fetch }
    | none => h.handleException lim t
  | .finished | .aborted _ | .undecodable => t

/-- The traced process when the function under test is entered, after `Dispatcher::start`. -/
def start (a : App E) : Traced E :=
  { env := a.env, world := { mc := a.mc, mem := a.mem, spec := { enabled := true } } }

def traced (a : App E) (n : Nat) : Traced E := (h.step lim)^[n] (start a)

/-- The addresses of the instructions dispatched while not in speculation. -/
def outside (calls : List Call) : List Nat :=
  calls.filterMap fun
    | .instruction pc nesting => if nesting = 0 then some pc else none
    | _ => none

end Host

end Rvzr.Dynamorio
