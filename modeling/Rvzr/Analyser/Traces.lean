import Rvzr.Lib.Grouping
import Rvzr.Lib.Text

/-!
# Traces and equivalence classes

Contract and hardware traces and the containers built from them
(`rvzr/traces.py`). Traces are compared and hashed by the 64-bit digest of their printed
form; the digest function `xxh64` is a parameter. Dictionaries are keyed by `hash`, which
reduces the digest once more. The hardware-class builder runs in
`AnalyserM`: the equivalence function it calls may use the analyser's bitmap cache, and an
assertion or an index error of the source is `none`.
-/

namespace Rvzr.Analyser

open Rvzr.Lib

/-- `CTraceEntryType` (`traces.py:28`). -/
inductive CTraceEntryType where
  | mem | pc | val | reg | ind
  deriving DecidableEq, Repr

/-- `CTraceEntry` (`traces.py:31-36`). -/
structure CTraceEntry where
  type_ : CTraceEntryType
  value : Int
  deriving DecidableEq, Repr

/-- `CTrace` (`traces.py:42-65`); the untyped trace and the hash are computed from it. -/
structure CTrace where
  trace : List CTraceEntry
  deriving DecidableEq, Repr

/-- `RawHTraceSample` (`traces.py:176-183`). -/
structure RawHTraceSample where
  trace : UInt64
  pfc0 : UInt64
  pfc1 : UInt64
  pfc2 : UInt64
  pfc3 : UInt64
  pfc4 : UInt64
  deriving DecidableEq

/-- `HTrace` (`traces.py:188-224`): the samples of one input. -/
structure HTrace where
  raw : List RawHTraceSample
  deriving DecidableEq

namespace HTrace

/-- `HTrace.get_raw_traces`. -/
def getRawTraces (h : HTrace) : List UInt64 := h.raw.map RawHTraceSample.trace

/-- `HTrace.sample_size`, which is also `__len__`. -/
def sampleSize (h : HTrace) : Nat := h.raw.length

/-- `HTrace.is_empty`. -/
def isEmpty (h : HTrace) : Bool := h.sampleSize == 0

/-- `HTrace.is_corrupted_or_ignored`: every sample is zero. -/
def isCorruptedOrIgnored (h : HTrace) : Bool := h.getRawTraces.all (· == 0)

end HTrace

/-- `TraceBundle` (`traces.py:425-435`). -/
structure TraceBundle (ι : Type) where
  inputId : Nat
  input : ι
  ctrace : CTrace
  htrace : HTrace

/-- `HardwareEqClass` (`traces.py:446-470`). -/
structure HardwareEqClass (ι : Type) where
  htrace : HTrace
  measurements : List (TraceBundle ι)

/-- `ContractEqClass` (`traces.py:535-557`), with the hardware classes `set_hw_classes`
stores. -/
structure ContractEqClass (ι : Type) where
  ctrace : CTrace
  measurements : List (TraceBundle ι)

/-- `Violation` (`traces.py:613-643`). -/
structure Violation (ι τ : Type) where
  ctrace : CTrace
  measurements : List (TraceBundle ι)
  hwClasses : List (HardwareEqClass ι)
  inputSequence : List ι
  testCaseCode : τ

/-- The mutable state of an analyser: `MergedBitmapAnalyser._bitmap_cache`. -/
abbrev BitmapCache := Dict Nat UInt64

/-- Computations of an analyser; `none` is a Python exception. -/
abbrev AnalyserM := StateT BitmapCache Option

variable (xxh64 : Text → Nat) {ι : Type}

/-- The builtin `hash` of an object whose `__hash__` returns `d`: a number beyond the machine
word is reduced as CPython hashes integers. -/
def pyHash (d : Nat) : Nat := if d < 2 ^ 63 then d else d % (2 ^ 61 - 1)

/-- `CTrace._hash` (`traces.py:62-65`); `==` and `<` compare this number. -/
def CTrace.digest (c : CTrace) : Nat := xxh64 (strIntList (c.trace.map CTraceEntry.value))

/-- `hash` of a contract trace. -/
def CTrace.hash (c : CTrace) : Nat := pyHash (c.digest xxh64)

/-- `hash` of a hardware trace (`traces.py:222`). -/
def HTrace.hash (h : HTrace) : Nat := pyHash (xxh64 (numpyStr (h.getRawTraces.map UInt64.toNat)))

/-- `HardwareEqClass.__init__`: the class has the trace of its first measurement. -/
def HardwareEqClass.ofGroup : List (TraceBundle ι) → Option (HardwareEqClass ι)
  | [] => none
  | m :: ms => some ⟨m.htrace, m :: ms⟩

/-- The inner loop of `build_hw_classes`: the first of `diverging_htraces` that is
equivalent to `htrace`. -/
def findEquivalent (equivalenceFunction : HTrace → HTrace → AnalyserM Bool) (htrace : HTrace) :
    List HTrace → AnalyserM (Option HTrace)
  | [] => pure none
  | other :: rest => do
    if ← equivalenceFunction htrace other then pure (some other)
    else findEquivalent equivalenceFunction htrace rest

/-- One iteration of the loop of `build_hw_classes` on `(hw_groups, diverging_htraces)`. -/
def buildHwStep (equivalenceFunction : HTrace → HTrace → AnalyserM Bool)
    (st : Dict Nat (List (TraceBundle ι)) × List HTrace) (m : TraceBundle ι) :
    AnalyserM (Dict Nat (List (TraceBundle ι)) × List HTrace) := do
  if st.2.isEmpty then
    pure (st.1.insert (m.htrace.hash xxh64) [m], st.2 ++ [m.htrace])
  else
    match ← findEquivalent equivalenceFunction m.htrace st.2 with
    | some other => pure (st.1.push (other.hash xxh64) m, st.2)
    | none => pure (st.1.insert (m.htrace.hash xxh64) [m], st.2 ++ [m.htrace])

/-- `HardwareEqClass.build_hw_classes` (`traces.py:472-510`). -/
def buildHwClasses (equivalenceFunction : HTrace → HTrace → AnalyserM Bool)
    (measurements : List (TraceBundle ι)) : AnalyserM (List (HardwareEqClass ι)) := do
  let st ← measurements.foldlM (buildHwStep xxh64 equivalenceFunction) ([], [])
  StateT.lift (st.1.values.mapM HardwareEqClass.ofGroup)

/-- `ContractEqClass.__init__`: all measurements must have the contract trace of the first
one. -/
def ContractEqClass.ofGroup : List (TraceBundle ι) → Option (ContractEqClass ι)
  | [] => none
  | m :: ms =>
    if (m :: ms).all fun x => x.ctrace.digest xxh64 == m.ctrace.digest xxh64 then
      some ⟨m.ctrace, m :: ms⟩
    else none

/-- `ContractEqClass.build_contract_classes` (`traces.py:559-580`). -/
def buildContractClasses (measurements : List (TraceBundle ι)) :
    Option (List (ContractEqClass ι)) :=
  (groupByKey (fun m => m.ctrace.hash xxh64) measurements).values.mapM
    (ContractEqClass.ofGroup xxh64)

/-- `Violation.from_contract_eq_class` (`traces.py:632-643`). -/
def Violation.fromContractEqClass {τ : Type} (eqClass : ContractEqClass ι)
    (hwClasses : List (HardwareEqClass ι)) (inputSequence : List ι) (testCaseCode : τ) :
    Violation ι τ :=
  ⟨eqClass.ctrace, eqClass.measurements, hwClasses, inputSequence, testCaseCode⟩

end Rvzr.Analyser
