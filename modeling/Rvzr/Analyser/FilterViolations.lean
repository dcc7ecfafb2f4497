import Rvzr.Analyser.Traces
import Mathlib.Data.List.Sort
import Mathlib.Data.Rat.Defs

/-!
# The equivalence-class analysers

`EquivalenceAnalyserCommon.filter_violations` with the equivalence functions of
`MergedBitmapAnalyser` and `SetAnalyser` (`rvzr/analyser.py:67-223`). The two statistical
analysers call scipy and are not modelled; neither are the fuzzing statistics.
-/

namespace Rvzr.Analyser

open Rvzr.Lib

/-- The two set-based analysers. -/
inductive AnalyserCls where
  | mergedBitmap
  | sets
  deriving DecidableEq, Repr

/-- The part of `CONF` the analysers read. The outlier threshold is only used multiplied by a
sample size: `outlierThreshold n` is the float `CONF.analyser_outliers_threshold * n`. -/
structure Conf where
  analyserSubsetsIsViolation : Bool
  outlierThreshold : Nat → ℚ

variable (xxh64 : Text → Nat) (conf : Conf)

/-- The samples of `raw` that occur often enough, merged into a bitmap
(`analyser.py:185-191`). -/
def mergeBitmap (threshold : ℚ) (raw : List UInt64) : UInt64 :=
  (raw.filter fun x => threshold ≤ (raw.count x : ℚ)).foldl (· ||| ·) 0

/-- The bitmap of one trace, from the cache if it is there (`analyser.py:176-194`). -/
def cachedBitmap (threshold : ℚ) (h : HTrace) : AnalyserM UInt64 := do
  let cache ← get
  match cache.lookup (h.hash xxh64) with
  | some b => pure b
  | none =>
    let b := mergeBitmap threshold h.getRawTraces
    set (cache.insert (h.hash xxh64) b)
    pure b

/-- The comparison of two bitmaps (`analyser.py:196-201`). -/
def bitmapsAreEquivalent (b₁ b₂ : UInt64) : Bool :=
  if conf.analyserSubsetsIsViolation then b₁ == b₂
  else (b₁ &&& ~~~b₂) == 0 || (b₂ &&& ~~~b₁) == 0

/-- `SetAnalyser.htraces_are_equivalent` after its assertion (`analyser.py:215-223`): the
samples, not their counts, are compared with the threshold. -/
def setsAreEquivalent (threshold : ℚ) (raw₁ raw₂ : List UInt64) : Bool :=
  let s₁ := raw₁.filter fun x => threshold ≤ (x.toNat : ℚ)
  let s₂ := raw₂.filter fun x => threshold ≤ (x.toNat : ℚ)
  let sub₁ := s₁.all (s₂.contains ·)
  let sub₂ := s₂.all (s₁.contains ·)
  if conf.analyserSubsetsIsViolation then sub₁ && sub₂ else sub₁ || sub₂

/-- `htraces_are_equivalent` of the two analysers (`analyser.py:167-223`). -/
def htracesAreEquivalent (cls : AnalyserCls) (h₁ h₂ : HTrace) : AnalyserM Bool := do
  if h₁.sampleSize ≠ h₂.sampleSize then StateT.lift none
  else
    let threshold := conf.outlierThreshold h₁.sampleSize
    match cls with
    | .mergedBitmap =>
      let b₁ ← cachedBitmap xxh64 threshold h₁
      let b₂ ← cachedBitmap xxh64 threshold h₂
      pure (bitmapsAreEquivalent conf b₁ b₂)
    | .sets => pure (setsAreEquivalent conf threshold h₁.getRawTraces h₂.getRawTraces)

variable {ι τ : Type}

/-- The packaging loop (`analyser.py:109-113`): the index is the input id, and empty,
corrupted and ignored measurements are left out. -/
def packMeasurements : Nat → List ι → List CTrace → List HTrace → Option (List (TraceBundle ι))
  | _, _, _, [] => some []
  | i, input :: inputs, ctrace :: ctraces, htrace :: htraces =>
    if htrace.isEmpty || htrace.isCorruptedOrIgnored then
      packMeasurements (i + 1) inputs ctraces htraces
    else
      (packMeasurements (i + 1) inputs ctraces htraces).map (⟨i, input, ctrace, htrace⟩ :: ·)
  -- a measurement without input or contract trace is an IndexError unless it is skipped
  | i, inputs, ctraces, htrace :: htraces =>
    if htrace.isEmpty || htrace.isCorruptedOrIgnored then
      packMeasurements (i + 1) inputs.tail ctraces.tail htraces
    else none

/-- The classes of `eq_cls` that make a violation (`analyser.py:128-140`). -/
def classViolation (cls : AnalyserCls) (inputs : List ι) (testCaseCode : τ)
    (eqClass : ContractEqClass ι) : AnalyserM (Option (Violation ι τ)) := do
  let hwClasses ← buildHwClasses xxh64 (htracesAreEquivalent xxh64 conf cls) eqClass.measurements
  if 2 ≤ hwClasses.length then
    pure (some (Violation.fromContractEqClass eqClass hwClasses inputs testCaseCode))
  else pure none

/-- `EquivalenceAnalyserCommon.filter_violations` (`analyser.py:84-149`). -/
def filterViolations (cls : AnalyserCls) (ctraces : List CTrace) (htraces : List HTrace)
    (testCaseCode : τ) (inputs : List ι) : AnalyserM (List (Violation ι τ)) := do
  if htraces.isEmpty then pure []
  else
    let measurements ← StateT.lift (packMeasurements 0 inputs ctraces htraces)
    if measurements.isEmpty then pure []
    else
      let allClasses ← StateT.lift (buildContractClasses xxh64 measurements)
      let effective := allClasses.filter fun c => 2 ≤ c.measurements.length
      let sorted := effective.insertionSort fun x y => x.ctrace.digest xxh64 ≤ y.ctrace.digest xxh64
      let violations ← sorted.mapM (classViolation xxh64 conf cls inputs testCaseCode)
      pure (violations.filterMap id)

end Rvzr.Analyser
