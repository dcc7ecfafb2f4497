import Rvzr.Analyser.FilterViolations
import Rvzr.Lib.Hoare
import Mathlib.Data.Finset.Card

/-!
# A fuzzing round

The round manager of `rvzr/fuzzer.py` with the parts of the data generator and of the executor
that decide what it computes. The model, the hardware and the analyser answer as they like: their
answers may depend on everything that happened before, which is the list `log`. The log and
`sampleSize` are read by no function of the round.

Statistics, log output and bug reports are left out.
-/

namespace Rvzr.Fuzzer

open Rvzr.Lib Rvzr.Analyser

/-- `RoundStage`. -/
inductive RoundStage where
  | fast | nesting | taintMistake | priming | noise | archMismatch | primingLarge
  deriving DecidableEq, Repr

inductive RoundError where
  | ioError
  | assertionError
  | indexError
  | valueError
  | analyserError
  deriving DecidableEq, Repr

/-- The part of `CONF` that a round reads. -/
structure Conf where
  executorSampleSizes : List Nat
  modelMinNesting : Nat
  modelMaxNesting : Nat
  enableFastPathModel : Bool
  enablePriming : Bool
  inputsPerClass : Nat
  tscMode : Bool

/-- `_RoundState`. -/
structure RoundState where
  executorNReps : Int
  maxNesting : Nat
  modelNesting : Nat
  enableFastContractTracing : Bool
  enablePriming : Bool
  updateIgnoreList : Bool
  reuseBoosts : Bool
  reuseCtraces : Bool
  extendHtraces : Bool
  isInitial : Bool

/-- How a test of the priming check ended. -/
inductive PrimingResult where
  | tracingError
  | reproduced
  | notReproduced
  deriving DecidableEq, Repr

/-- What happened in a round, with the answers that were received. -/
inductive Event (ι θ τ : Type) where
  | stage (stage : RoundStage)
  | tainted (inputs : List ι) (nesting : Nat) (taints : List θ)
  | boosted (inputs : List ι)
  | traced (inputs : List ι) (nesting : Nat) (ctraces : List CTrace)
  | extending (sampleSize : Nat) (ignoreList : Finset Nat) (htraces : List HTrace)
  | measured (inputs : List ι) (htraces : List HTrace)
  | analysed (ctraces : List CTrace) (htraces : List HTrace) (inputs : List ι)
      (ignoreList : Finset Nat) (sampleSize : Nat) (violations : List (Violation ι τ))
  | ignored (ids : List Nat)
  | primed (violation : Violation ι τ) (current other : TraceBundle ι) (result : PrimingResult)
  | primingKept (violation : Violation ι τ)
  | archChecked (inputs : List ι) (mismatch : Bool)

/-- `DataGenerator`: its state, and the random inputs and copies it makes. -/
structure DataGenerator (ι θ : Type) where
  state : Nat
  nActors : ι → Nat
  generateOne : Nat → Nat → ι × Nat
  copyTainted : θ → ι → ι → ι

/-- The analyser. Violations are about the inputs it was given, and an input without a usable
trace is in none of them. -/
structure AnalyserOf (ι τ κ : Type) where
  filterViolations : List CTrace → List HTrace → τ → List ι → StateT κ Option (List (Violation ι τ))
  htracesAreEquivalent : HTrace → HTrace → StateT κ Option Bool
  inputSequence_eq : ∀ {cs hs code inputs st vs st'},
    (filterViolations cs hs code inputs).run st = some (vs, st') →
      ∀ v ∈ vs, v.inputSequence = inputs
  measured : ∀ {cs hs code inputs st vs st'},
    (filterViolations cs hs code inputs).run st = some (vs, st') →
      ∀ v ∈ vs, ∀ m ∈ v.measurements, ∃ h, hs[m.inputId]? = some h ∧ h.isEmpty = false ∧
        h.isCorruptedOrIgnored = false

/-- The components of the fuzzer. -/
structure Env (ι θ τ κ : Type) where
  conf : Conf
  testCase : τ
  isSpeculative : Bool
  dataGen : DataGenerator ι θ
  traceTestCase : List (Event ι θ τ) → List ι → Nat → List CTrace
  traceTestCaseWithTaints : List (Event ι θ τ) → List ι → Nat → List CTrace × List θ
  readTrace : List (Event ι θ τ) → List ι → Int → Option (Nat → Nat → RawHTraceSample)
  archReadTrace : List (Event ι θ τ) → List ι → Option (Nat → Nat → RawHTraceSample)
  archTraceTestCase : List (Event ι θ τ) → List ι → Nat → List CTrace
  analyser : AnalyserOf ι τ κ

/-- `_RoundManager`, with the ignore list of the executor and the state of the analyser. -/
structure RoundManager (ι θ τ κ : Type) where
  conf : RoundState
  orgInputs : List ι
  boostedInputs : List ι
  htraces : List HTrace
  referenceHtraces : List HTrace
  ctraces : List CTrace
  nonBoostedCtraces : List CTrace
  violations : List (Violation ι τ)
  archViolations : List (Violation ι τ)
  ignoreList : Finset Nat
  analyserState : κ
  sampleSize : Nat
  log : List (Event ι θ τ)

abbrev RoundM (ι θ τ κ : Type) := EStateM RoundError (RoundManager ι θ τ κ)

variable {ι θ τ κ : Type}

/-- A value that must be there. -/
def require {α : Type} (e : RoundError) : Option α → RoundM ι θ τ κ α
  | some a => pure a
  | none => throw e

def pyAssert (cond : Prop) [Decidable cond] : RoundM ι θ τ κ Unit :=
  if cond then pure () else throw .assertionError

theorem require_triple {α : Type} {e : RoundError} {o : Option α} {P : RoundManager ι θ τ κ → Prop}
    {E : RoundError → RoundManager ι θ τ κ → Prop} (hE : ∀ s, P s → E e s) :
    Triple P (require e o) (fun a s => o = some a ∧ P s) E := by
  cases o with
  | none => exact Triple.throw hE
  | some a => exact Triple.pure fun s hs => ⟨rfl, hs⟩

theorem pyAssert_triple {c : Prop} [Decidable c] {P : RoundManager ι θ τ κ → Prop}
    {E : RoundError → RoundManager ι θ τ κ → Prop} (hE : ∀ s, P s → E .assertionError s) :
    Triple P (pyAssert c) (fun _ s => c ∧ P s) E :=
  Triple.ite (fun hc => Triple.pure fun _ hs => ⟨hc, hs⟩) fun _ => Triple.throw hE

/-- Record what happened. -/
def RoundManager.note (s : RoundManager ι θ τ κ) (e : Event ι θ τ) : RoundManager ι θ τ κ :=
  { s with log := s.log ++ [e] }

section Generator

variable (gen : DataGenerator ι θ)

/-- One pass over the inputs: a new input for each, with the tainted values of the old one. -/
def boostOnce (nActors : Nat) : List ι → List θ → Nat → List ι × Nat
  | input :: inputs, taint :: taints, state =>
    match gen.generateOne state nActors with
    | (new, state) =>
      match boostOnce nActors inputs taints state with
      | (rest, state) => (gen.copyTainted taint input new :: rest, state)
  | _, _, state => ([], state)

def boostPasses (nActors : Nat) (inputs : List ι) (taints : List θ) : Nat → Nat → List ι
  | 0, _ => []
  | passes + 1, state =>
    match boostOnce gen nActors inputs taints state with
    | (new, state) => new ++ boostPasses nActors inputs taints passes state

/-- `DataGenerator.generate_boosted`; the boosting state starts from the state of the generator
in every call. -/
def generateBoosted (inputs : List ι) (taints : List θ) (inputsPerClass : Nat) :
    Option (List ι) :=
  match inputs with
  | [] => some []
  | first :: _ =>
    if inputs.length = taints.length then
      some (inputs ++
        boostPasses gen (gen.nActors first) inputs taints (inputsPerClass - 1) gen.state)
    else none

end Generator

section Executor

/-- `HTrace.empty_trace`. -/
def emptyTrace : HTrace := ⟨[]⟩

/-- `HTrace.invalid_trace`: one sample of zeros. -/
def invalidTrace : HTrace := ⟨[⟨0, 0, 0, 0, 0, 0⟩]⟩

/-- `HTrace.merge`. -/
def merge (new old : HTrace) : HTrace := ⟨new.raw ++ old.raw⟩

/-- `raw['trace'] &= self._TSC_MASK` in the mode that needs it. -/
def maskSample (tscMode : Bool) (r : RawHTraceSample) : RawHTraceSample :=
  if tscMode then { r with trace := r.trace &&& 0x0FFFFFFFFFFFFFF0 } else r

/-- `_raw_readings_to_traces` for readings of `nReps` repetitions. -/
def rawReadingsToTraces (tscMode : Bool) (ignoreList : Finset Nat) (nInputs nReps : Nat)
    (readings : Nat → Nat → RawHTraceSample) : List HTrace :=
  (List.range nInputs).map fun i =>
    if i ∈ ignoreList then invalidTrace
    else ⟨(List.range nReps).map fun rep => maskSample tscMode (readings i rep)⟩

/-- `Executor.trace_test_case`. The reader answers `none` when it raises an `IOError`; a negative
number of repetitions is no shape of an array. -/
def executorTraceTestCase (env : Env ι θ τ κ) (inputs : List ι) (nReps : Int) :
    RoundM ι θ τ κ (List HTrace) := do
  let s ← get
  if inputs.length = 0 then pure []
  else if inputs.length ≤ s.ignoreList.card then
    pure (List.replicate inputs.length emptyTrace)
  else if nReps < 0 then throw .valueError
  else
    match env.readTrace s.log inputs nReps with
    | none => throw .ioError
    | some readings =>
      pure (rawReadingsToTraces env.conf.tscMode s.ignoreList inputs.length nReps.toNat readings)

/-- The executor changes nothing that the round sees. -/
theorem executorTraceTestCase_frame (env : Env ι θ τ κ) (inputs : List ι) (nReps : Int)
    {P : RoundManager ι θ τ κ → Prop} :
    Triple P (executorTraceTestCase env inputs nReps) (fun _ => P) (fun _ => P) := by
  refine Triple.get_bind fun s hs => ?_
  refine Triple.ite (fun _ => Triple.pure fun t ht => ht ▸ hs) fun _ => ?_
  refine Triple.ite (fun _ => Triple.pure fun t ht => ht ▸ hs) fun _ => ?_
  refine Triple.ite (fun _ => Triple.throw fun t ht => ht ▸ hs) fun _ => ?_
  cases env.readTrace s.log inputs nReps with
  | none => exact Triple.throw fun t ht => ht ▸ hs
  | some readings => exact Triple.pure fun t ht => ht ▸ hs

/-- What the executor returns after these events. -/
def tracesAfter (env : Env ι θ τ κ) (ignoreList : Finset Nat) (log : List (Event ι θ τ))
    (inputs : List ι) (nReps : Int) : Option (List HTrace) :=
  if inputs.length = 0 then some []
  else if inputs.length ≤ ignoreList.card then some (List.replicate inputs.length emptyTrace)
  else if nReps < 0 then none
  else (env.readTrace log inputs nReps).map
    (rawReadingsToTraces env.conf.tscMode ignoreList inputs.length nReps.toNat)

theorem executorTraceTestCase_answer (env : Env ι θ τ κ) (inputs : List ι) (nReps : Int)
    {s₀ : RoundManager ι θ τ κ} :
    Triple (fun s => s = s₀) (executorTraceTestCase env inputs nReps)
      (fun traces s => s = s₀ ∧ tracesAfter env s₀.ignoreList s₀.log inputs nReps = some traces)
      (fun _ s => s = s₀) := by
  refine Triple.get_bind fun s hs => ?_
  subst hs
  refine Triple.ite (fun h => ?_) fun h => ?_
  · exact Triple.pure fun t ht => ⟨ht, by rw [tracesAfter, if_pos h]⟩
  refine Triple.ite (fun h₁ => ?_) fun h₁ => ?_
  · exact Triple.pure fun t ht => ⟨ht, by rw [tracesAfter, if_neg h, if_pos h₁]⟩
  refine Triple.ite (fun _ => Triple.throw fun t ht => ht) fun h₂ => ?_
  cases hread : env.readTrace s.log inputs nReps with
  | none => exact Triple.throw fun t ht => ht
  | some readings =>
    refine Triple.pure fun t ht => ⟨ht, ?_⟩
    rw [tracesAfter, if_neg h, if_neg h₁, if_neg h₂, hread]
    rfl

end Executor

section Stages

variable (env : Env ι θ τ κ)

/-- `_boost_inputs`. -/
def boostInputs : RoundM ι θ τ κ Unit := do
  let s ← get
  if env.conf.inputsPerClass = 1 then
    let answer := env.traceTestCase s.log s.orgInputs s.conf.modelNesting
    modify fun s => { s with
      nonBoostedCtraces := answer
      boostedInputs := s.orgInputs
      log := s.log ++ [.traced s.orgInputs s.conf.modelNesting answer, .boosted s.orgInputs] }
  else
    let answer := env.traceTestCaseWithTaints s.log s.orgInputs s.conf.modelNesting
    modify fun s => s.note (.tainted s.orgInputs s.conf.modelNesting answer.2)
    let boosted ← require .assertionError
      (generateBoosted env.dataGen s.orgInputs answer.2 env.conf.inputsPerClass)
    modify fun s => { s with
      nonBoostedCtraces := answer.1
      boostedInputs := boosted
      log := s.log ++ [.boosted boosted] }

/-- `_collect_ctraces`. -/
def collectCtraces : RoundM ι θ τ κ Unit := do
  let s ← get
  if s.conf.reuseCtraces then pyAssert (s.ctraces.length = s.boostedInputs.length)
  else if s.conf.enableFastContractTracing then
    modify fun s => { s with
      ctraces := (List.replicate env.conf.inputsPerClass s.nonBoostedCtraces).flatten }
  else
    modify fun s => { s with
      ctraces := env.traceTestCase s.log s.boostedInputs s.conf.modelNesting
      log := s.log ++ [.traced s.boostedInputs s.conf.modelNesting
        (env.traceTestCase s.log s.boostedInputs s.conf.modelNesting)] }

/-- `_collect_htraces`. -/
def collectHtraces : RoundM ι θ τ κ Unit := do
  let s ← get
  let new ← executorTraceTestCase env s.boostedInputs s.conf.executorNReps
  modify fun s => s.note (.measured s.boostedInputs new)
  if s.conf.extendHtraces then
    pyAssert (s.htraces.length = new.length)
    modify fun s => { s with htraces := List.zipWith merge new s.htraces }
  else modify fun s => { s with htraces := new }

/-- `_check_violations`. -/
def checkViolations : RoundM ι θ τ κ Unit := do
  let s ← get
  pyAssert (s.ctraces ≠ [] ∧ s.ctraces.length = s.htraces.length)
  let answer ← require .analyserError
    ((env.analyser.filterViolations s.ctraces s.htraces env.testCase s.boostedInputs).run
      s.analyserState)
  modify fun s => { s with
    violations := answer.1
    analyserState := answer.2
    log := s.log ++ [.analysed s.ctraces s.htraces s.boostedInputs s.ignoreList s.sampleSize
      answer.1] }

/-- The ids of the measurements of all violations. -/
def violatingIds (vs : List (Violation ι τ)) : List Nat :=
  vs.flatMap fun v => v.measurements.map TraceBundle.inputId

/-- `_update_ignore_list`. -/
def updateIgnoreList : RoundM ι θ τ κ Unit := do
  let s ← get
  if s.conf.updateIgnoreList then
    let ids := (List.range s.boostedInputs.length).filter fun i => i ∉ violatingIds s.violations
    modify fun s => { s with
      ignoreList := s.ignoreList ∪ ids.toFinset
      log := s.log ++ [.ignored ids] }
  else pure ()

/-- The measurement of `_normal_stage`; whether it was completed. -/
def tryCollectHtraces : RoundM ι θ τ κ Bool :=
  tryCatch (do collectHtraces env; pure true) fun e =>
    match e with
    | .ioError => do
      modify fun s => { s with violations := [] }
      pure false
    | e => throw e

/-- `_normal_stage`. -/
def normalStage : RoundM ι θ τ κ Unit := do
  boostInputs env
  collectCtraces env
  let collected ← tryCollectHtraces env
  let s ← get
  if collected ∧ 0 < s.orgInputs.length then
    checkViolations env
    let s ← get
    if s.violations.isEmpty then pure () else updateIgnoreList
  else pure ()

end Stages

section Priming

variable (env : Env ι θ τ κ)

/-- `htraces_are_equivalent` of the analyser. -/
def htracesAreEquivalent (h₁ h₂ : HTrace) : RoundM ι θ τ κ Bool := do
  let s ← get
  let answer ← require .analyserError ((env.analyser.htracesAreEquivalent h₁ h₂).run s.analyserState)
  modify fun s => { s with analyserState := answer.2 }
  pure answer.1

/-- `[hc[0] for hc in violation.get_hw_classes()]`. -/
def measurementsToTest (v : Violation ι τ) : Option (List (TraceBundle ι)) :=
  v.hwClasses.mapM fun hc => hc.measurements.head?

/-- The measurements of `ms` other than `current`; the measurements of a violation are told apart
by their input ids. -/
def otherMeasurements (ms : List (TraceBundle ι)) (current : TraceBundle ι) :
    List (TraceBundle ι) :=
  ms.filter fun m => m.inputId ≠ current.inputId

/-- The input of `other` in the place of the input of `current`. -/
def primerOf (inputs : List ι) (current other : TraceBundle ι) : Option (List ι) :=
  if current.inputId < inputs.length then
    inputs[other.inputId]?.map fun input => inputs.set current.inputId input
  else none

/-- The comparison of the new trace with the trace to reproduce. -/
def comparePrimed (new : HTrace) (current : TraceBundle ι) : RoundM ι θ τ κ PrimingResult :=
  if new.isEmpty || new.isCorruptedOrIgnored then pure .tracingError
  else do
    let equivalent ← htracesAreEquivalent env new current.htrace
    pure (if equivalent then .reproduced else .notReproduced)

/-- One test of the priming check. -/
def primeOne (v : Violation ι τ) (nReps : Int) (current other : TraceBundle ι) :
    RoundM ι θ τ κ PrimingResult := do
  let s ← get
  let primer ← require .indexError (primerOf s.boostedInputs current other)
  let htraces ← executorTraceTestCase env primer nReps
  let new ← require .indexError htraces[current.inputId]?
  let result ← comparePrimed env new current
  modify fun s => s.note (.primed v current other result)
  pure result

/-- The tests against `current`, until one is not reproduced. -/
def primeInputs (v : Violation ι τ) (nReps : Int) (current : TraceBundle ι) :
    List (TraceBundle ι) → RoundM ι θ τ κ PrimingResult
  | [] => pure .reproduced
  | other :: others => do
    let result ← primeOne env v nReps current other
    match result with
    | .reproduced => primeInputs v nReps current others
    | result => pure result

/-- The tests of the measurements `currents`. -/
def primeMeasurements (v : Violation ι τ) (nReps : Int) (ms : List (TraceBundle ι)) :
    List (TraceBundle ι) → RoundM ι θ τ κ PrimingResult
  | [] => pure .reproduced
  | current :: currents => do
    let result ← primeInputs env v nReps current (otherMeasurements ms current)
    match result with
    | .reproduced => primeMeasurements v nReps ms currents
    | result => pure result

/-- `_priming_check`. Every way through the body of the `while` loop returns, so the body is
executed at most once. -/
def primingCheck : RoundM ι θ τ κ Unit := do
  let s ← get
  match s.violations.getLast? with
  | none => pure ()
  | some violation =>
    modify fun s => { s with violations := s.violations.dropLast }
    let first ← require .indexError violation.measurements.head?
    let ms ← require .indexError (measurementsToTest violation)
    let result ← primeMeasurements env violation first.htrace.sampleSize ms ms
    match result with
    | .notReproduced =>
      modify fun s => { s with
        violations := [violation]
        log := s.log ++ [.primingKept violation] }
    | _ => modify fun s => { s with violations := [] }

end Priming

section ArchMismatch

variable (env : Env ι θ τ κ)

/-- The registers of an architectural hardware trace. -/
def hardwareRegs (r : RawHTraceSample) : List Int :=
  [r.trace, r.pfc0, r.pfc1, r.pfc2, r.pfc3, r.pfc4].map fun v => (v.toNat : Int)

/-- The registers of an architectural contract trace. -/
def modelRegs (c : CTrace) : List Int :=
  ((c.trace.map CTraceEntry.value).take 6).map fun v => v % 2 ^ 64

/-- The first input whose registers differ; `none` when a contract trace is missing. -/
def findMismatch (all : List ι) (readings : Nat → Nat → RawHTraceSample) :
    Nat → List ι → List CTrace → Option (Option (Violation ι τ))
  | _, [], _ => some none
  | _, _ :: _, [] => none
  | i, input :: inputs, c :: cs =>
    if modelRegs c = hardwareRegs (readings i 0) then findMismatch all readings (i + 1) inputs cs
    else
      let m : TraceBundle ι := ⟨i, input, c, ⟨[readings i 0]⟩⟩
      some (some ⟨c, [m], [⟨m.htrace, [m]⟩], all, env.testCase⟩)

/-- `_check_for_architectural_mismatch`; the executor and the model are the ones in mismatch check
mode. -/
def checkForArchitecturalMismatch : RoundM ι θ τ κ Unit := do
  modify fun s => if s.boostedInputs.isEmpty then { s with boostedInputs := s.orgInputs } else s
  let s ← get
  match env.archReadTrace s.log s.boostedInputs with
  | none =>
    modify fun s => { s with
      archViolations := []
      log := s.log ++ [.archChecked s.boostedInputs false] }
  | some readings =>
    let found ← require .indexError (findMismatch env s.boostedInputs readings 0 s.boostedInputs
      (env.archTraceTestCase s.log s.boostedInputs env.conf.modelMaxNesting))
    modify fun s => { s with
      archViolations := found.toList ++ if found.isNone then s.archViolations else []
      log := s.log ++ [.archChecked s.boostedInputs found.isSome] }

end ArchMismatch

section Round

variable (env : Env ι θ τ κ)

/-- The loop of the noise stage over the larger sample sizes. -/
def noiseLoop : List Nat → RoundM ι θ τ κ Unit
  | [] => pure ()
  | sampleSize :: sampleSizes => do
    let s ← get
    let first ← require .indexError s.htraces.head?
    modify fun s => { s with
      conf := { s.conf with executorNReps := (sampleSize : Int) - first.sampleSize }
      sampleSize := sampleSize
      log := s.log ++ [.extending s.sampleSize s.ignoreList s.htraces] }
    normalStage env
    let s ← get
    if s.violations.isEmpty then pure () else noiseLoop sampleSizes

def fastStage : RoundM ι θ τ κ Unit := do
  let s ← get
  pyAssert (s.conf.isInitial = true)
  normalStage env
  modify fun s => { s with
    conf := { s.conf with isInitial := false }
    referenceHtraces := s.htraces }

/-- A normal stage with another configuration, if the configuration asks for it. -/
def normalStageWhen (cond : RoundState → Bool) (change : RoundState → RoundState) :
    RoundM ι θ τ κ Unit := do
  let s ← get
  if cond s.conf then
    modify fun s => { s with conf := change s.conf }
    normalStage env
  else pure ()

def nestingStage : RoundM ι θ τ κ Unit := do
  normalStageWhen env (fun conf => conf.modelNesting ≠ conf.maxNesting)
    fun conf => { conf with modelNesting := conf.maxNesting }
  modify fun s => { s with
    conf := { s.conf with reuseBoosts := true, updateIgnoreList := true } }

def taintMistakeStage : RoundM ι θ τ κ Unit := do
  normalStageWhen env (fun conf => conf.enableFastContractTracing)
    fun conf => { conf with enableFastContractTracing := false }
  let s ← get
  pyAssert (s.conf.modelNesting = s.conf.maxNesting)
  modify fun s => { s with conf := { s.conf with reuseCtraces := true } }

def primingStage : RoundM ι θ τ κ Unit := do
  let s ← get
  if s.conf.enablePriming then primingCheck env else pure ()

def noiseStage : RoundM ι θ τ κ Unit :=
  if env.conf.executorSampleSizes.length = 1 then pure ()
  else do
    modify fun s => { s with conf := { s.conf with extendHtraces := true } }
    noiseLoop env env.conf.executorSampleSizes.tail

def primingLargeStage : RoundM ι θ τ κ Unit := do
  let s ← get
  if s.conf.enablePriming = false ∨ env.conf.executorSampleSizes.length = 1 then pure ()
  else do
    let last ← require .indexError env.conf.executorSampleSizes.getLast?
    modify fun s => { s with conf := { s.conf with executorNReps := last } }
    primingCheck env

/-- `execute_stage`. -/
def executeStage (stage : RoundStage) : RoundM ι θ τ κ Unit := do
  modify fun s => s.note (.stage stage)
  match stage with
  | .fast => fastStage env
  | .nesting => nestingStage env
  | .taintMistake => taintMistakeStage env
  | .priming => primingStage env
  | .noise => noiseStage env
  | .primingLarge => primingLargeStage env
  | .archMismatch => checkForArchitecturalMismatch env

/-- The stages that end the round when no violation is left, and the check that follows them. -/
def runStages : List RoundStage → RoundM ι θ τ κ (Option (Violation ι τ))
  | [] => do
    executeStage env .archMismatch
    let s ← get
    if s.archViolations.isEmpty then pure s.violations.head? else pure none
  | stage :: stages => do
    executeStage env stage
    let s ← get
    if s.violations.isEmpty then pure none else runStages stages

/-- The stages of `Fuzzer.fuzzing_round` in its order. -/
def fuzzingRound : RoundM ι θ τ κ (Option (Violation ι τ)) :=
  runStages env [.fast, .nesting, .taintMistake, .priming, .noise, .primingLarge]

/-- The nesting with which a round starts. -/
def startNesting : Nat := if env.isSpeculative then env.conf.modelMinNesting else 1

def maxNesting : Nat := if env.isSpeculative then env.conf.modelMaxNesting else 1

/-- The round manager for the first sample size `n`; the executor forgets its ignore list when the
test case is loaded. -/
def firstRound (inputs : List ι) (startingIgnoreList : List Nat) (st : κ) (n : Nat) :
    RoundManager ι θ τ κ where
  conf := ⟨n, maxNesting env, startNesting env, env.conf.enableFastPathModel,
    env.conf.enablePriming, false, false, false, false, true⟩
  orgInputs := inputs
  boostedInputs := []
  htraces := []
  referenceHtraces := []
  ctraces := []
  nonBoostedCtraces := []
  violations := []
  archViolations := []
  ignoreList := startingIgnoreList.toFinset
  analyserState := st
  sampleSize := n
  log := []

/-- The round manager that `fuzzing_round` starts with. -/
def newRound (inputs : List ι) (startingIgnoreList : List Nat) (st : κ) :
    Option (RoundManager ι θ τ κ) :=
  match env.conf.executorSampleSizes with
  | [] => none
  | n :: _ =>
    if startNesting env ≤ maxNesting env then
      some (firstRound env inputs startingIgnoreList st n)
    else none

theorem newRound_eq {inputs : List ι} {startingIgnoreList : List Nat} {st : κ}
    {s : RoundManager ι θ τ κ} (h : newRound env inputs startingIgnoreList st = some s) :
    env.conf.executorSampleSizes ≠ [] ∧
      ∃ n, s = firstRound env inputs startingIgnoreList st n := by
  unfold newRound at h
  split at h
  · exact absurd h (by simp)
  · rename_i hsizes
    rw [Option.ite_none_right_eq_some, Option.some.injEq] at h
    exact ⟨by simp [hsizes], _, h.2.symm⟩

end Round

end Rvzr.Fuzzer
