import Rvzr.Km.InputParser

/-!
# The measurement loop of the kernel module

`executor_km/measurement.c`. What the processor does is a parameter: the outcome of every
execution of the test case is given by `TraceEnv`. The array `measurements` is global and is
reused from call to call.
-/

namespace Rvzr.Km

open Rvzr.Lib

/-- `STATUS_ENDED`. -/
def statusEnded : Nat := 2

/-- `measurement_status_t`. -/
structure MeasurementStatus where
  measurementState : Nat
  smiCount : Nat
  deriving DecidableEq, Repr

/-- `measurement_t` without its status, which is not stored in the array; `NUM_PFC` is 5. -/
structure Reading where
  htrace : UInt64
  pfcReading : Vector UInt64 5
  deriving DecidableEq

/-- Zeroed memory. -/
def Reading.zero : Reading := ⟨0, Vector.replicate 5 0⟩

/-- One execution of the loaded test case: an unexpected fault that the outer handlers catch,
or a return with an error code and the latest measurement. -/
inductive Execution where
  | trapped
  | returned (err : Int) (latest : Reading) (status : MeasurementStatus)

/-- What the kernel and the processor do during one read of `trace`. -/
structure TraceEnv where
  vmalloc : Nat → Bool
  /-- error codes of the checks and of `pfc_configure` in `pre_run` -/
  preRunErr : Int
  /-- error code of `set_sandbox_page_tables` and `set_execution_environment` -/
  setupErr : Int
  execution : Int → Execution

/-- `check_measurement_status`. -/
def checkMeasurementStatus (st : MeasurementStatus) : Int :=
  if st.measurementState ≠ statusEnded then -1
  else if st.smiCount ≠ 0 then -1
  else 0

/-- How the loop over the inputs ends. -/
inductive LoopEnd where
  | complete
  | corrupted
  | error (err : Int)
  | trapped
  deriving DecidableEq, Repr

/-- The mark of a valid measurement: the upper bit of the hardware trace. -/
def markValid (r : Reading) : Reading := { r with htrace := r.htrace ||| 0x8000000000000000 }

/-- The loop of `run_experiment`, over the rounds that are left. Negative rounds are warm-ups
that use input 0. -/
def measureRounds (dbgGprMode : Bool) (exec : Int → Execution) :
    List Int → List Reading → List Reading × LoopEnd
  | [], ms => (ms, .complete)
  | i :: is, ms =>
    let i' := if i < 0 then 0 else i.toNat
    match exec i with
    | .trapped => (ms, .trapped)
    | .returned err r st =>
      if err ≠ 0 then (ms, .error err)
      else if 0 ≤ i ∧ dbgGprMode = false then
        -- a corrupted measurement is stored, and leaves the loop with `err = 0`
        if checkMeasurementStatus st ≠ 0 then (ms.set i' r, .corrupted)
        else measureRounds dbgGprMode exec is (ms.set i' (markValid r))
      else measureRounds dbgGprMode exec is (ms.set i' r)

/-- The values of `i` in the loop. -/
def rounds (uarchResetRounds : Int) (nInputs : Nat) : List Int :=
  (List.range (nInputs + uarchResetRounds).toNat).map fun k : Nat => (k : Int) - uarchResetRounds

/-- `measurements[0].htrace[0] = 0`. -/
def clearFirst (ms : List Reading) : List Reading := ms.modify 0 fun r => { r with htrace := 0 }

/-- `run_experiment`, entered through `run_experiment_outer`, which returns 1 after it has
recovered from an unexpected fault. -/
def runExperiment (uarchResetRounds : Int) (dbgGprMode : Bool) (env : TraceEnv) (nInputs : Nat)
    (ms : List Reading) : List Reading × Int :=
  if env.setupErr ≠ 0 then (clearFirst ms, -eio)
  else
    match measureRounds dbgGprMode env.execution (rounds uarchResetRounds nInputs) ms with
    | (ms, .complete) => (ms, 0)
    | (ms, .corrupted) => (ms, 0)
    | (ms, .error _) => (clearFirst ms, -eio)
    | (ms, .trapped) => (ms, 1)

end Rvzr.Km
