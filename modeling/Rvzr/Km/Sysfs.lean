import Rvzr.Km.Measurement
import Rvzr.Lib.Text

/-!
# The sysfs interface of the kernel module

The three handlers of `executor_km/main.c` that the executor drives: `test_case_store`,
`inputs_store` and `trace_show`. `KmState` holds the globals they share with the parsers and the
measurement loop. The checks of the processor and the preparation of the sandbox
(`check_test_case_compat`, `allocate_sandbox`, `load_sandbox_code`) only show through their
error codes.
-/

namespace Rvzr.Km

open Rvzr.Lib

/-- The globals of the module. `runs` is not one of them: it counts the calls of
`trace_test_case`. -/
structure KmState where
  tc : TcParser
  inp : InputParser
  tcReady : Bool
  inputsReady : Bool
  unfinishedCall : Bool
  nextMeasurementId : Int
  measurements : Option (List Reading)
  oldNInputs : Int
  uarchResetRounds : Int
  dbgGprMode : Bool
  runs : Nat

/-- `next_measurement_id = n`. -/
def KmState.setNext (km : KmState) (n : Int) : KmState := { km with nextMeasurementId := n }

/-- The module after loading; the first measurement entry is not initialised. -/
def KmState.init (garbage : Mem) (r : Reading) : KmState where
  tc := TcParser.init garbage
  inp := InputParser.init garbage
  tcReady := false
  inputsReady := false
  unfinishedCall := false
  nextMeasurementId := -1
  measurements := some [r]
  oldNInputs := 0
  uarchResetRounds := 1
  dbgGprMode := false
  runs := 0

/-- Error codes of `check_test_case_compat`, `allocate_sandbox` and `load_sandbox_code`. -/
structure LoadEnv where
  compatErr : Int
  allocErr : Int
  loadErr : Int

/-- `test_case_store` (`main.c:344-372`). -/
def testCaseStore (env : CallEnv) (prep : LoadEnv) (km : KmState) (buf : WriteBuf) : KmState × Int :=
  let km := { km with tcReady := false }
  match parseTestCaseBuffer env km.tc buf with
  | (tc, r) =>
    let km := { km with tc := tc }
    if r.finished = false then (km, r.ret)
    else if prep.compatErr ≠ 0 then (km, -eio)
    else if prep.allocErr ≠ 0 then (km, -eio)
    else if prep.loadErr ≠ 0 then (km, -eio)
    else ({ km.setNext (-1) with tcReady := true }, r.ret)

/-- `inputs_store` (`main.c:393-404`). -/
def inputsStore (env : InputEnv) (km : KmState) (buf : WriteBuf) : KmState × Int :=
  match parseInputBuffer env km.tc.nActors km.inp buf with
  | (inp, r) => ({ km with inp := inp, inputsReady := r.finished }, r.ret)

/-- `alloc_measurements`. -/
def allocMeasurements (env : TraceEnv) (km : KmState) : KmState × Int :=
  if km.inp.nInputs ≤ toU64 km.oldNInputs then (km, 0)
  else
    let km := { km with oldNInputs := toInt32 km.inp.nInputs, measurements := none }
    if env.vmalloc km.inp.nInputs then
      ({ km with measurements := some (List.replicate km.inp.nInputs Reading.zero) }, 0)
    else (km, -enomem)

/-- The assertions of `pre_run` on the inputs. -/
def inputsPresent (inp : InputParser) : Bool :=
  inp.inputs.isSome && inp.batch.metadata != .null && inp.batch.data != .null

/-- `trace_test_case` (`measurement.c:371-387`). -/
def traceTestCase (env : TraceEnv) (km : KmState) : KmState × Int :=
  match allocMeasurements env { km with runs := km.runs + 1 } with
  | (km, err) =>
    if err ≠ 0 then (km, -eio)
    else if inputsPresent km.inp = false ∨ env.preRunErr ≠ 0 then (km, -eio)
    else if km.inp.nInputs = 0 then (km, 0)
    else
      let r := runExperiment km.uarchResetRounds km.dbgGprMode env km.inp.nInputs
        (km.measurements.getD [])
      ({ km with measurements := some r.1 }, if r.2 ≠ 0 then -eio else 0)

/-- One line of output: the hardware trace and the performance counters. -/
def readingNumbers (r : Reading) : List Nat :=
  r.htrace.toNat :: r.pfcReading.toList.map UInt64.toNat

def readingLine (r : Reading) : Text := joinText [','] ((readingNumbers r).map strNat) ++ ['\n']

def doneLine : Text := ['d', 'o', 'n', 'e', '\n']

/-- The printing loop of `trace_show`, with `k` entries left: how many are left when the
buffer is full, and the text. The last entry is printed first. -/
def printEntries (ms : List Reading) : Nat → Text → Nat × Text
  | 0, buf => (0, buf ++ doneLine)
  | k + 1, buf =>
    if 4096 - 128 ≤ buf.length then (k + 1, buf)
    else printEntries ms k (buf ++ readingLine (ms.getD k Reading.zero))

/-- A read of `trace` starts an experiment. -/
def StartsMeasurement (km : KmState) : Prop :=
  km.measurements.isSome = true ∧ inputParsingCompleted km.inp = true ∧
    tcParsingCompleted km.tc = true ∧ km.nextMeasurementId < 0

instance (km : KmState) : Decidable (StartsMeasurement km) :=
  inferInstanceAs (Decidable (_ ∧ _ ∧ _ ∧ _))

/-- The first half of `trace_show`: a new experiment, unless there are results left to print. -/
def startMeasurement (env : TraceEnv) (km : KmState) : KmState × Int :=
  if km.nextMeasurementId < 0 then
    match traceTestCase env km with
    | (km, err) =>
      if err ≠ 0 then (km, -eio)
      else (km.setNext (toInt32 (sub64 km.inp.nInputs 1)), 0)
  else (km, 0)

/-- The second half of `trace_show`: the results that fit in the buffer. -/
def printResults (km : KmState) : KmState × Text :=
  if km.nextMeasurementId < 0 then (km, doneLine)
  else
    let r := printEntries (km.measurements.getD []) (km.nextMeasurementId + 1).toNat []
    (km.setNext (r.1 - 1), r.2)

/-- `trace_show` (`main.c:263-300`): the return value and the text in the buffer. -/
def traceShow (env : TraceEnv) (km : KmState) : KmState × Int × Text :=
  if km.measurements.isSome = false then (km, -eio, [])
  else if inputParsingCompleted km.inp = false then (km, -eio, [])
  else if tcParsingCompleted km.tc = false then (km, -eio, [])
  else
    match startMeasurement env { km with unfinishedCall := true } with
    | (km, err) =>
      if err ≠ 0 then (km, err, [])
      else
        match printResults { km with unfinishedCall := false } with
        | (km, text) => (km, text.length, text)

end Rvzr.Km
