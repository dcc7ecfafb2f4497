import Rvzr.Lib.Hoare

/-!
# Input passes of the minimizer

The passes try smaller inputs and ask the fuzzer whether the violation is still there. Inputs are
objects that several lists may share, so the state keeps the objects and the lists hold their
numbers. The state also keeps a record of every fuzzing round; a violation is identified by the
round that returned it.
-/

namespace Rvzr.Postprocessing

open Rvzr.Lib

/-- The regions of an actor's data that the passes work on. -/
inductive Region where
  | main
  | faulty
  | gpr
  | simd
deriving DecidableEq

/-- The data of one actor, as 64-bit words. -/
structure ActorInput where
  main : List Nat
  faulty : List Nat
  gpr : List Nat
  simd : List Nat
deriving DecidableEq

def ActorInput.region (a : ActorInput) : Region → List Nat
  | .main => a.main
  | .faulty => a.faulty
  | .gpr => a.gpr
  | .simd => a.simd

def ActorInput.setRegion (a : ActorInput) (words : List Nat) : Region → ActorInput
  | .main => { a with main := words }
  | .faulty => { a with faulty := words }
  | .gpr => { a with gpr := words }
  | .simd => { a with simd := words }

/-- An input has the data of every actor. -/
abbrev InputData := List ActorInput

/-- The number of an input object. -/
abbrev Ref := Nat

/-- A violation: the round that returned it, the boosted inputs of that round and the ids of the
inputs whose traces differ. -/
structure Violation where
  round : Nat
  inputSequence : List Ref
  measurements : List Nat
deriving DecidableEq

/-- One call of `fuzzing_round`: what it ran on and what it returned. -/
structure RoundRecord where
  inputs : List InputData
  inputsPerClass : Nat
  ignoreList : List Nat
  violation : Option Violation
deriving DecidableEq

structure State where
  objects : List InputData
  inputsPerClass : Nat
  rounds : List RoundRecord
deriving DecidableEq

/-- The data behind a list of inputs. -/
def State.contents (s : State) (inputs : List Ref) : List InputData :=
  inputs.map fun r => s.objects.getD r []

/-- A list or an array was read outside its range. -/
inductive Error where
  | indexError
deriving DecidableEq

abbrev M := EStateM Error State

/-- A violation as the fuzzer finds it: the inputs that boosting added and the violating ids. -/
structure Outcome where
  boosted : List InputData
  measurements : List Nat

/-- What the passes rely on: how each fuzzing round ends, from its number, the boosting setting,
the data of its inputs and its ignore list; and two settings. -/
structure Env where
  outcome : Nat → Nat → List InputData → List Nat → Option Outcome
  minimizerRetries : Nat
  nActors : Nat

/-- An empty violation counts as none. -/
def found (violation : Option Violation) : Option Violation :=
  violation.filter fun v => !v.measurements.isEmpty

variable (env : Env)

/-- The violation that a round on `inputs` returns: its sequence starts with the given inputs;
without boosting it is the given list. -/
def State.roundViolation (s : State) (inputs : List Ref) (o : Outcome) : Violation :=
  { round := s.rounds.length
    inputSequence :=
      if s.inputsPerClass = 1 then inputs
      else inputs ++ List.range' s.objects.length o.boosted.length
    measurements := o.measurements }

def fuzzingRound (inputs : List Ref) (ignoreList : List Nat) : M (Option Violation) := fun s =>
  let data := s.contents inputs
  let record := RoundRecord.mk data s.inputsPerClass ignoreList
  match env.outcome s.rounds.length s.inputsPerClass data ignoreList with
  | none => .ok none { s with rounds := s.rounds ++ [record none] }
  | some o =>
    let violation := s.roundViolation inputs o
    .ok (some violation)
      { s with
        objects := if s.inputsPerClass = 1 then s.objects else s.objects ++ o.boosted
        rounds := s.rounds ++ [record (some violation)] }

def setInputsPerClass (n : Nat) : M Unit := modify fun s => { s with inputsPerClass := n }

/-- Several rounds on the same inputs, up to the first violation. -/
def checkForViolation (inputs : List Ref) (ignoreList : List Nat) : Nat → M Bool
  | 0 => pure false
  | retries + 1 => do
    let violation ← fuzzingRound env inputs ignoreList
    if violation.isSome then pure true else checkForViolation inputs ignoreList retries

/-! ## Input sequence minimization -/

/-- The first loop of the pass; the fuel is the number of inputs. -/
def halveInputs : Nat → List Ref → Violation → M Violation
  | 0, _, violation => pure violation
  | fuel + 1, nonboostedInputs, violation =>
    if nonboostedInputs.length > 5 then do
      let newInputs := nonboostedInputs.take (nonboostedInputs.length / 2)
      let newViolation ← fuzzingRound env newInputs []
      match found newViolation with
      | none => pure violation
      | some v => halveInputs fuel newInputs v
    else pure violation

/-- The inner loop of the second part: one input after the other is left out. -/
def removeInputs : List Nat → List Ref → Violation → M (List Ref × Violation)
  | [], inputs, violation => pure (inputs, violation)
  | inputId :: ids, inputs, violation => do
    let newInputs := inputs.take inputId ++ inputs.drop (inputId + 1)
    let newViolation ← fuzzingRound env newInputs []
    match found newViolation with
    | none => removeInputs ids inputs violation
    | some v => removeInputs ids newInputs v

/-- The iterations of the second part, until nothing could be left out. -/
def reduceSequence : Nat → List Ref → Violation → M Violation
  | 0, _, violation => pure violation
  | iterations + 1, inputs, violation => do
    let (newInputs, newViolation) ←
      removeInputs env (List.range' 1 inputs.length).reverse inputs violation
    if newInputs.length = inputs.length then pure newViolation
    else reduceSequence iterations newInputs newViolation

def inputSequenceMinimizationPass (orgInputs : List Ref) (orgViolation : Violation) :
    M (List Ref) := do
  let boosted ← halveInputs env orgInputs.length orgInputs orgViolation
  let s ← get
  -- boosting is off while the boosted inputs are reduced
  setInputsPerClass 1
  let violation ← reduceSequence env 10 boosted.inputSequence boosted
  setInputsPerClass s.inputsPerClass
  pure violation.inputSequence

/-! ## Differential minimization -/

/-- What the pass works on: the inputs, the two violating ones and the ids to ignore. -/
structure PassContext where
  inputs : List Ref
  violatingIds : Nat × Nat
  localIgnoreList : List Nat

/-- The words of one region of an input. -/
def readRegion (data : InputData) (actorId : Nat) (region : Region) : List Nat :=
  match data[actorId]? with
  | none => []
  | some actor => actor.region region

/-- The new value of one word of an input object; it is changed in place. -/
def writeWord (ref : Ref) (actorId : Nat) (region : Region) (addr value : Nat) : M Unit :=
  modify fun s =>
    { s with
      objects := s.objects.modify ref fun data => data.modify actorId fun actor =>
        actor.setRegion ((actor.region region).set addr value) region }

section Blocks

variable (ctx : PassContext) (actorId : Nat) (region : Region)

/-- The two violating inputs of a block and copies of them from before the block. -/
structure BlockInputs where
  inputA : Ref
  inputB : Ref
  orgInputA : InputData
  orgInputB : InputData

variable (b : BlockInputs)

def restoreAddr (addr : Nat) : M Unit := do
  writeWord b.inputA actorId region addr ((readRegion b.orgInputA actorId region).getD addr 0)
  writeWord b.inputB actorId region addr ((readRegion b.orgInputB actorId region).getD addr 0)

def zeroAddr (addr : Nat) : M Unit := do
  writeWord b.inputA actorId region addr 0
  writeWord b.inputB actorId region addr 0

/-- The largest power of two up to `2 ^ k` that divides the address. -/
def alignedExponent (addr : Nat) : Nat → Nat
  | 0 => 0
  | k + 1 => if addr % 2 ^ (k + 1) ≠ 0 then alignedExponent addr k else k + 1

/-- Blocks of decreasing size, as powers of two, are set to zero and restored. -/
def zeroOutFrom (addr : Nat) : Nat → M Nat
  | 0 => pure 1
  | k + 1 => do
    (List.range (2 ^ (k + 1))).forM fun i => zeroAddr actorId region b (addr + i)
    let reproduced ← checkForViolation env ctx.inputs ctx.localIgnoreList env.minimizerRetries
    if reproduced then pure (2 ^ (k + 1))
    else do
      (List.range (2 ^ (k + 1))).forM fun i => restoreAddr actorId region b (addr + i)
      zeroOutFrom addr k

def maxBlockSize : Nat := 64

def zeroOutBlock (regionSize addr : Nat) : M Nat :=
  let blockSize := min (maxBlockSize - addr % maxBlockSize) (regionSize - addr)
  zeroOutFrom env ctx actorId region b addr (alignedExponent addr (Nat.log2 blockSize))

/-- The object of one of the violating inputs. -/
def violatingInput (id : Nat) : M Ref :=
  match ctx.inputs[id]? with
  | none => throw .indexError
  | some ref => pure ref

def blockInputs : M BlockInputs := do
  let inputA ← violatingInput ctx ctx.violatingIds.1
  let inputB ← violatingInput ctx ctx.violatingIds.2
  let s ← get
  pure ⟨inputA, inputB, s.objects.getD inputA [], s.objects.getD inputB []⟩

/-- One block: it is set to zero, or its first word is, or that word is copied from the first
input to the second. The size of the block that is done is returned. -/
def processBlock (blockStart regionSize : Nat) : M Nat := do
  let b ← blockInputs ctx
  let blockSize ← zeroOutBlock env ctx actorId region b regionSize blockStart
  if blockSize > 1 then pure blockSize
  else do
    zeroAddr actorId region b blockStart
    let zeroed ← checkForViolation env ctx.inputs ctx.localIgnoreList env.minimizerRetries
    if zeroed then pure 1
    else do
      restoreAddr actorId region b blockStart
      let s ← get
      let word ref := (readRegion (s.objects.getD ref []) actorId region).getD blockStart 0
      if word b.inputA = word b.inputB then pure 1
      else do
        let orgWord := (readRegion b.orgInputA actorId region).getD blockStart 0
        writeWord b.inputA actorId region blockStart orgWord
        writeWord b.inputB actorId region blockStart orgWord
        let copied ← checkForViolation env ctx.inputs ctx.localIgnoreList env.minimizerRetries
        if copied then pure 1
        else do
          restoreAddr actorId region b blockStart
          pure 1

/-- The blocks of a region one after the other; every block is at least one word long, so the
size of the region is fuel enough. -/
def processRegion (regionSize : Nat) : Nat → Nat → M Unit
  | 0, _ => pure ()
  | fuel + 1, i =>
    if i < regionSize then do
      let processed ← processBlock env ctx actorId region i regionSize
      processRegion regionSize fuel (i + processed)
    else pure ()

end Blocks

def regions : List Region := [.main, .faulty, .gpr, .simd]

def processActor (ctx : PassContext) (actorId : Nat) : M Unit :=
  regions.forM fun region => do
    let inputA ← violatingInput ctx ctx.violatingIds.1
    let s ← get
    match (s.objects.getD inputA [])[actorId]? with
    | none => throw .indexError
    | some actor =>
      let regionSize := (actor.region region).length
      processRegion env ctx actorId region regionSize regionSize 0

def setPassContext (orgViolation : Violation) : M PassContext :=
  match orgViolation.measurements with
  | a :: b :: _ =>
    pure
      { inputs := orgViolation.inputSequence
        violatingIds := (a, b)
        localIgnoreList := (List.range orgViolation.inputSequence.length).filter fun i =>
          !([a, b].contains i) }
  | _ => throw .indexError

def differentialInputMinimizerPass (orgViolation : Violation) : M (List Ref) := do
  let ctx ← setPassContext orgViolation
  let s ← get
  -- the pass works on boosted inputs
  setInputsPerClass 1
  (List.range env.nActors).forM fun actorId => processActor env ctx actorId
  setInputsPerClass s.inputsPerClass
  pure ctx.inputs

end Rvzr.Postprocessing
