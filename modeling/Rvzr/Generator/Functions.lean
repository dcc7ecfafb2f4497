import Rvzr.Lib.Lines

/-!
# Generated functions

The generator plans a graph of basic blocks, gives every block the branches to its planned
successors, fills the blocks with instructions without branches and prints them one after the
other. Random choices are read from tables with one raw number for every call.
-/

namespace Rvzr.Generator

open Rvzr.Lib

/-! ## Instruction set and configuration -/

structure InstructionSpec where
  name : Text
  category : Text
  isControlFlow : Bool
  hasLabel : Bool
  hasMemOperand : Bool
  hasWrite : Bool
deriving DecidableEq

inductive Arch where
  | x86_64
  | arm64
deriving DecidableEq

/-- The instructions that the filters of the instruction set left. The lists of loads and stores are
those of an `avg_mem_accesses` other than 0; with 0 the source leaves them empty, and the generator
does not draw from them either (`pickSpec`). -/
structure InstructionSet where
  arch : Arch
  instructions : List InstructionSpec

namespace InstructionSet

variable (isa : InstructionSet)

/-- `get_unconditional_jump_spec`. -/
def unconditionalJump : InstructionSpec :=
  match isa.arch with
  | .x86_64 => ⟨"jmp".toList, "BASE-UNCOND_BR".toList, true, true, false, false⟩
  | .arm64 => ⟨"b".toList, "general-uncond_branch".toList, true, true, false, false⟩

def controlFlowSpecs : List InstructionSpec := isa.instructions.filter fun i => i.isControlFlow

def nonControlFlowSpecs : List InstructionSpec :=
  isa.instructions.filter fun i => !i.isControlFlow

def nonMemoryAccessSpecs : List InstructionSpec :=
  isa.nonControlFlowSpecs.filter fun i => !i.hasMemOperand

def loadInstructions : List InstructionSpec :=
  isa.nonControlFlowSpecs.filter fun i => i.hasMemOperand && !i.hasWrite

def storeInstructions : List InstructionSpec :=
  isa.nonControlFlowSpecs.filter fun i => i.hasMemOperand && i.hasWrite

def condBranches : List InstructionSpec :=
  isa.controlFlowSpecs.filter fun i => lowerText i.name != lowerText isa.unconditionalJump.name

/-- A branch that is not of a category of unconditional ones. -/
def hasConditionalBranch : Bool :=
  isa.instructions.any fun i =>
    i.isControlFlow && !(["BASE-UNCOND_BR".toList, "general-uncond_branch".toList].contains
      i.category)

end InstructionSet

structure Config where
  minSuccessorsPerBb : Nat
  maxSuccessorsPerBb : Nat
  minBbPerFunction : Nat
  maxBbPerFunction : Nat
  programSize : Nat
  avgMemAccesses : Nat

/-! ## Random choices -/

/-- Raw numbers and coin tosses for the calls of `random`, by the place of the call and the number
of its block or instruction. -/
structure Choices where
  nodeCount : Nat
  successorCount : Nat → Nat
  target : Nat → Nat → Nat
  condBranch : Nat → Nat
  block : Nat → Nat
  memoryAccess : Nat → Bool
  store : Nat → Bool
  spec : Nat → Nat

/-- `random.randint(low, high)`. -/
def randint (raw low high : Nat) : Option Nat :=
  if low ≤ high then some (low + raw % (high - low + 1)) else none

/-- `random.choice(options)`. -/
def choice {α : Type} (raw : Nat) (options : List α) : Option α := options[raw % options.length]?

/-! ## Functions -/

/-- An instruction; the label is set for branches only. -/
structure Instruction where
  spec : InstructionSpec
  label : Option Text
deriving DecidableEq

/-- A basic block of the function that is built: one of its nodes or its exit. -/
inductive BlockRef where
  | node (i : Nat)
  | exit
deriving DecidableEq

structure BasicBlock where
  name : Text
  successors : List BlockRef
  instructions : List Instruction
  terminators : List Instruction
deriving DecidableEq

/-- The exit block is kept apart from the others. -/
structure Function where
  name : Text
  blocks : List BasicBlock
  exitBb : BasicBlock
deriving DecidableEq

def tcExitLabel : Text := ".test_case_exit".toList

/-- `name.removeprefix(".function_")`. -/
def functionId (name : Text) : Text :=
  if ".function_".toList.isPrefixOf name then name.drop ".function_".length else name

def exitName (name : Text) : Text := ".exit_".toList ++ functionId name

def nodeName (name : Text) (i : Nat) : Text :=
  ".bb_".toList ++ functionId name ++ ".".toList ++ strNat i

/-- The name of the block behind a reference. -/
def Function.nameOf (f : Function) : BlockRef → Text
  | .node i => (f.blocks[i]?.map BasicBlock.name).getD []
  | .exit => f.exitBb.name

/-! ## The graph of basic blocks -/

section Empty

variable (isa : InstructionSet) (conf : Config) (rand : Choices)

/-- At most two successors, and one only without conditional branches. -/
def successorBound (bound : Nat) : Nat :=
  if isa.hasConditionalBranch then (if bound < 2 then bound else 2) else 1

def nodeCount : Option Nat :=
  if conf.minBbPerFunction = conf.maxBbPerFunction then some conf.minBbPerFunction
  else randint rand.nodeCount conf.minBbPerFunction conf.maxBbPerFunction

/-- Random targets, each removed from the options once it is taken. -/
def pickTargets (raw : Nat → Nat) : Nat → List BlockRef → Option (List BlockRef)
  | 0, _ => some []
  | times + 1, options => do
    let target ← choice (raw times) options
    let targets ← pickTargets raw times (options.erase target)
    some (target :: targets)

/-- The successors of a block that is not the last one. -/
def pickSuccessors (n i : Nat) : Option (List BlockRef) := do
  let count ← randint (rand.successorCount i) (successorBound isa conf.minSuccessorsPerBb)
    (successorBound isa conf.maxSuccessorsPerBb)
  -- the number is adjusted to the position when close to the end
  let count := if count + i > n then n - i else count
  let options := (List.range' (i + 2) (n - (i + 2))).map BlockRef.node ++ [.exit]
  let targets ← pickTargets (rand.target i) (count - 1) options
  some (.node (i + 1) :: targets)

def planBlock (name : Text) (n i : Nat) : Option BasicBlock :=
  if i + 1 = n then some ⟨nodeName name i, [.exit], [], []⟩
  else (pickSuccessors isa conf rand n i).map fun successors =>
    ⟨nodeName name i, successors, [], []⟩

def jumpTo (label : Text) : Instruction := ⟨isa.unconditionalJump, some label⟩

/-- A function whose blocks have successors but no instructions; the minimum must not be above the
maximum. -/
def generateEmpty (name : Text) : Option Function := do
  if successorBound isa conf.minSuccessorsPerBb ≤ successorBound isa conf.maxSuccessorsPerBb then
    let n ← nodeCount conf rand
    let blocks ← (List.range n).mapM (planBlock isa conf rand name n)
    some ⟨name, blocks, ⟨exitName name, [], [], [jumpTo isa tcExitLabel]⟩⟩
  else none

end Empty

/-! ## Branches and instructions -/

section Fill

variable (isa : InstructionSet) (conf : Config) (rand : Choices)

/-- The branches of a block to its successors. The last block falls through to the exit. -/
def terminatorsOf (f : Function) (i : Nat) (bb : BasicBlock) : Option (List Instruction) :=
  match bb.successors with
  | [] => some []
  | [.exit] => some []
  | [destination] => some [jumpTo isa (f.nameOf destination)]
  | [first, second] => do
    let spec ← choice (rand.condBranch i) isa.condBranches
    if spec.hasLabel then
      some [⟨spec, some (f.nameOf first)⟩, jumpTo isa (f.nameOf second)]
    else none
  | _ => none

def addTerminatorsInBlock (f : Function) (bb : BasicBlock × Nat) : Option BasicBlock :=
  if bb.1.terminators = [] then
    (terminatorsOf isa rand f bb.2 bb.1).map fun ts => { bb.1 with terminators := ts }
  else none

def addTerminatorsInFunction (f : Function) : Option Function :=
  (f.blocks.zipIdx.mapM (addTerminatorsInBlock isa rand f)).map fun blocks =>
    { f with blocks := blocks }

/-- A random instruction without a branch. -/
def pickSpec (k : Nat) : Option InstructionSpec :=
  if conf.avgMemAccesses ≠ 0 ∧ rand.memoryAccess k = true then
    if isa.storeInstructions ≠ [] ∧ rand.store k = true then
      choice (rand.spec k) isa.storeInstructions
    else choice (rand.spec k) isa.loadInstructions
  else choice (rand.spec k) isa.nonMemoryAccessSpecs

/-- One instruction at the end of a random block. -/
def addInstruction (f : Function) (k : Nat) : Option Function := do
  let i ← choice (rand.block k) (List.range f.blocks.length)
  let spec ← pickSpec isa conf rand k
  some
    { f with
      blocks := f.blocks.modify i fun bb =>
        { bb with instructions := bb.instructions ++ [⟨spec, none⟩] } }

def addInstructionsInFunction (f : Function) : Option Function :=
  if f.blocks.all fun bb => bb.instructions.isEmpty then
    (List.range conf.programSize).foldlM (addInstruction isa conf rand) f
  else none

def fillFunction (f : Function) : Option Function :=
  (addTerminatorsInFunction isa rand f).bind (addInstructionsInFunction isa conf rand)

/-- The main function of a generated test case. -/
def generateMain : Option Function :=
  (generateEmpty isa conf rand ".function_0".toList).bind (fillFunction isa conf rand)

end Fill

/-! ## Printing -/

inductive Line where
  | label (name : Text)
  | instruction (inst : Instruction)
deriving DecidableEq

def printBasicBlock (bb : BasicBlock) : List Line :=
  .label (lowerText bb.name) :: (bb.instructions ++ bb.terminators).map .instruction

/-- The blocks in their order and the exit block last. -/
def printFunction (f : Function) : List Line :=
  .label f.name :: f.blocks.flatMap printBasicBlock ++ printBasicBlock f.exitBb

end Rvzr.Generator
