import Rvzr.Executor.Transfer
import Rvzr.Executor.Protocol
import Rvzr.Km.Experiment
import Rvzr.Km.Readiness
import Mathlib.Data.List.Nodup

/-!
# Agreement of the two sides of the trace protocol

`Executor.trace_test_case` transfers the inputs, once or five times over, and fills an array
from what `_read_trace` yields. The module counts entries downwards and marks the end of a batch;
the reader counts inputs and repetitions. Both counts are a function of the number of readings
that were printed so far (`Cursor.ofCount`), and the result of a call follows from the list of all
readings (`cells`).
-/

namespace Rvzr.Executor

open Rvzr.Lib Rvzr.Km

section Model

variable {a : Nat}

/-- `inputs if n_reps % 5 != 0 or n_inputs >= 1000 else inputs * 5`. -/
def inputSequence (inputs : List (InputData a)) (nReps : Nat) : List (InputData a) :=
  if nReps % 5 ≠ 0 ∨ 1000 ≤ inputs.length then inputs else (List.replicate 5 inputs).flatten

/-- The array `all_readings`; a cell that was never assigned is `none`. -/
abbrev Readings := Nat → Nat → Option (List Int)

/-- `all_readings[input_id][rep_id] = readings` for all yields; `none` is an `IndexError`. -/
def storeReadings (nInputs nReps : Nat) : List Yield → Readings → Option Readings
  | [], cells => some cells
  | y :: ys, cells =>
    if y.input < nInputs ∧ y.rep < nReps then
      storeReadings nInputs nReps ys fun i r =>
        if i = y.input ∧ r = y.rep then some y.line else cells i r
    else none

/-- The arguments of `trace_test_case`, and what the environment does during the call.
`ignored` is the size of the ignore list. -/
structure TraceCall (a : Nat) where
  inputs : List (InputData a)
  nReps : Nat
  ignored : Nat
  archMode : Bool
  calls : Nat → InputCall
  fuel : Nat

inductive TraceEnd where
  | skipped
  | osError
  | notReady
  | indexError
  | read (e : ReadEnd)
  deriving DecidableEq, Repr

/-- `loaded` is the module after the transfer. -/
structure TraceResult where
  km : KmState
  loaded : KmState
  yields : List Yield
  readings : Readings
  outcome : TraceEnd

/-- `Executor.trace_test_case` up to the conversion of the array into traces. -/
def traceTestCase (sysfs : Text → Text) (envs : Nat → TraceEnv) (call : TraceCall a)
    (km : KmState) : TraceResult :=
  let unfilled : Readings := fun _ _ => none
  if call.inputs = [] ∨ call.inputs.length ≤ call.ignored then
    ⟨km, km, [], unfilled, .skipped⟩
  else
    let file := saveInputSequenceAsRdbf (inputSequence call.inputs call.nReps)
    match transferInputs call.calls file.length 0 km file with
    | (km, .osError) => ⟨km, km, [], unfilled, .osError⟩
    | (km, .starved) => ⟨km, km, [], unfilled, .osError⟩
    | (km, .done) =>
      if km.inputsReady = false then ⟨km, km, [], unfilled, .notReady⟩
      else
        let r := readTrace sysfs envs call.nReps call.inputs.length call.archMode call.fuel km
        match storeReadings call.inputs.length call.nReps r.yields unfilled with
        | none => ⟨r.km, km, r.yields, unfilled, .indexError⟩
        | some cells => ⟨r.km, km, r.yields, cells, .read r.outcome⟩

end Model

/-- The position of the reader after `t` readings. -/
def Cursor.ofCount (nInputs t : Nat) : Cursor := ⟨t / nInputs, nInputs - 1 - t % nInputs⟩

/-- What the reader yields from a list of readings, of which `t` were printed before. -/
def cells (nInputs : Nat) : Nat → List Reading → List Yield
  | _, [] => []
  | t, r :: rs =>
    ⟨t / nInputs, nInputs - 1 - t % nInputs, readingInts r⟩ :: cells nInputs (t + 1) rs

section Counting

variable {n : Nat}

theorem Cursor.next_ofCount (hn : n ≠ 0) (t : Nat) :
    (Cursor.ofCount n t).next n = Cursor.ofCount n (t + 1) := by
  have hlt : t % n < n := Nat.mod_lt _ (Nat.pos_of_ne_zero hn)
  unfold Cursor.ofCount Cursor.next
  dsimp only
  by_cases hlast : t % n + 1 = n
  · have hdvd : n ∣ t + 1 := by
      have := Nat.dvd_sub_mod (n := n) t
      have heq : t + 1 = (t - t % n) + n := by have := Nat.mod_le t n; omega
      rw [heq]
      exact Nat.dvd_add this (Nat.dvd_refl n)
    have hdiv : (t + 1) / n = t / n + 1 := Nat.succ_div_of_dvd hdvd
    rw [if_pos (by omega), Nat.mod_eq_zero_of_dvd hdvd, hdiv]
    rfl
  · have hnd : ¬ n ∣ t + 1 := by
      intro hd
      have hmod := Nat.mod_eq_zero_of_dvd hd
      rw [Nat.add_mod] at hmod
      by_cases hone : n = 1
      · subst hone
        omega
      · rw [Nat.mod_eq_of_lt (show 1 < n by omega), Nat.mod_eq_of_lt (by omega)] at hmod
        omega
    have hdiv : (t + 1) / n = t / n := Nat.succ_div_of_not_dvd hnd
    have hmod : (t + 1) % n = t % n + 1 := by
      have h₁ := Nat.div_add_mod t n
      have h₂ := Nat.div_add_mod (t + 1) n
      rw [hdiv] at h₂
      omega
    rw [if_neg (by omega), hdiv, hmod]
    congr 1

/-- The reader on readings that are not zero. -/
theorem readEntries_cells (hn : n ≠ 0) (archMode : Bool) {es : List Reading}
    (hes : ∀ r ∈ es, r.htrace ≠ 0) (t : Nat) :
    readEntries n archMode es (Cursor.ofCount n t) =
      (cells n t es, Cursor.ofCount n (t + es.length), true) := by
  induction es generalizing t with
  | nil => rfl
  | cons r rs ih =>
    have hr := hes r (by simp)
    rw [readEntries, if_neg fun hc => hr hc.1, Cursor.next_ofCount hn,
      ih (fun r' hr' => hes r' (List.mem_cons_of_mem _ hr')), List.length_cons]
    dsimp only
    rw [show t + 1 + rs.length = t + (rs.length + 1) from by omega]
    rfl

theorem cells_append (t : Nat) (xs ys : List Reading) :
    cells n t (xs ++ ys) = cells n t xs ++ cells n (t + xs.length) ys := by
  induction xs generalizing t with
  | nil => rfl
  | cons x xs ih =>
    rw [List.cons_append, cells, ih, cells, List.cons_append, List.length_cons,
      show t + 1 + xs.length = t + (xs.length + 1) from by omega]

theorem cells_length (t : Nat) (es : List Reading) : (cells n t es).length = es.length := by
  induction es generalizing t with
  | nil => rfl
  | cons r rs ih => rw [cells, List.length_cons, List.length_cons, ih]

theorem cells_getElem (t : Nat) (es : List Reading) (p : Nat) :
    (cells n t es)[p]? = (es[p]?).map fun r =>
      ⟨(t + p) / n, n - 1 - (t + p) % n, readingInts r⟩ := by
  induction es generalizing t p with
  | nil => rfl
  | cons r rs ih =>
    cases p with
    | zero => rfl
    | succ p =>
      rw [cells, List.getElem?_cons_succ, ih, List.getElem?_cons_succ,
        show t + 1 + p = t + (p + 1) from by omega]

theorem printed_append (ms : List Reading) {left k : Nat} (h : left ≤ k) :
    printed ms 0 k = printed ms left k ++ printed ms 0 left := by
  induction k with
  | zero =>
    have hz : left = 0 := by omega
    subst hz
    rfl
  | succ k ih =>
    by_cases heq : left = k + 1
    · subst heq
      rw [printed_self]
      rfl
    · rw [printed_succ ms (Nat.zero_le k), printed_succ ms (by omega), ih (by omega)]
      rfl

theorem printed_length (ms : List Reading) (left k : Nat) :
    (printed ms left k).length = k - left := by
  unfold printed
  rw [List.length_reverse, List.length_map, List.length_range']

theorem mem_printed {ms : List Reading} {left k : Nat} {r : Reading} (h : r ∈ printed ms left k) :
    ∃ j, j < k ∧ r = ms.getD j Reading.zero := by
  unfold printed at h
  rw [List.mem_reverse] at h
  obtain ⟨j, hj, rfl⟩ := List.mem_map.mp h
  obtain ⟨i, hi, rfl⟩ := List.mem_range'.mp hj
  exact ⟨_, by omega, rfl⟩

theorem printed_congr {ms ms' : List Reading} {k : Nat}
    (h : ∀ j, j < k → ms.getD j Reading.zero = ms'.getD j Reading.zero) :
    printed ms 0 k = printed ms' 0 k := by
  unfold printed
  congr 1
  apply List.map_congr_left
  intro j hj
  obtain ⟨i, hi, rfl⟩ := List.mem_range'.mp hj
  exact h _ (by omega)

theorem printEntries_congr {ms ms' : List Reading} {k : Nat}
    (h : ∀ j, j < k → ms.getD j Reading.zero = ms'.getD j Reading.zero) (buf : Text) :
    printEntries ms k buf = printEntries ms' k buf := by
  induction k generalizing buf with
  | zero => rfl
  | succ k ih =>
    rw [printEntries, printEntries, h k (by omega), ih fun j hj => h j (by omega)]

theorem PageSafe.congr {ms ms' : List Reading} {k : Nat} (hsafe : PageSafe ms k)
    (h : ∀ j, j < k → ms.getD j Reading.zero = ms'.getD j Reading.zero) : PageSafe ms' k := by
  induction hsafe with
  | last hleft hfits =>
    rw [printEntries_congr h] at hleft hfits
    exact .last hleft hfits
  | @more k hleft hrest ih =>
    have hle := (printEntries_eq ms k []).1
    have hrest' := ih fun j hj => h j (by omega)
    rw [printEntries_congr h] at hleft hrest'
    exact .more hleft hrest'

end Counting

/-- `r` yields `ys` and goes on as `q`. -/
structure ReadsAs (r : ReadResult) (ys : List Yield) (q : ReadResult) : Prop where
  yields : r.yields = ys ++ q.yields
  outcome : r.outcome = q.outcome
  km : r.km = q.km

theorem ReadsAs.trans {r q q' : ReadResult} {xs ys : List Yield} (h : ReadsAs r xs q)
    (h' : ReadsAs q ys q') : ReadsAs r (xs ++ ys) q' :=
  ⟨by rw [h.yields, h'.yields, List.append_assoc], h.outcome.trans h'.outcome, h.km.trans h'.km⟩

theorem readsAs_after (call : CatCall) (q : ReadResult) : ReadsAs (q.after call) call.yields q :=
  ⟨by unfold ReadResult.yields ReadResult.after; rw [List.flatMap_cons], rfl, rfl⟩

section Batch

variable {sysfs : Text → Text} {envs : Nat → TraceEnv} {nReps n : Nat} {archMode : Bool}
  {km : KmState} {ms : List Reading}

/-- The module after it has printed all but `left` entries. -/
def KmState.leaving (km : KmState) (left : Int) : KmState :=
  ({ km with unfinishedCall := false } : KmState).setNext (left - 1)

theorem catTrace_page (hsys : DeliversPage sysfs) (env : TraceEnv) {k : Nat}
    (hnext : km.nextMeasurementId = (k : Int) - 1) (hk : k ≠ 0) (hlive : Live km)
    (hms : km.measurements = some ms) (hfits : (printEntries ms k []).2.length < 4096) :
    catTrace sysfs env km = (KmState.leaving km (printEntries ms k []).1,
      some (printEntries ms k []).2) := by
  obtain ⟨k, rfl⟩ := Nat.exists_eq_succ_of_ne_zero hk
  have hnext' : km.nextMeasurementId = k := by push_cast at hnext; omega
  have hstart : startMeasurement env { km with unfinishedCall := true } =
      ({ km with unfinishedCall := true }, 0) :=
    if_neg (show ¬ km.nextMeasurementId < 0 by omega)
  rw [catTrace_eq env hlive.present hlive.inputsDone hlive.testCaseDone hstart, if_pos rfl]
  have hprint := printResults_eq
    (show ({ km with unfinishedCall := false } : KmState).nextMeasurementId = k from hnext')
  have hgetD : km.measurements.getD [] = ms := by rw [hms]; rfl
  dsimp only at hprint ⊢
  rw [hgetD] at hprint
  rw [hprint, hsys _ hfits]
  rfl

variable (envs nReps archMode) in
/-- One page of a batch of readings that are not zero. -/
theorem readLoop_page (hsys : DeliversPage sysfs) (hn : n ≠ 0) {k : Nat}
    (hnext : km.nextMeasurementId = (k : Int) - 1) (hk : k ≠ 0) (hlive : Live km)
    (hms : km.measurements = some ms) (hfits : (printEntries ms k []).2.length < 4096)
    (hnz : ∀ j, j < k → (ms.getD j Reading.zero).htrace ≠ 0) (fuel t : Nat) :
    readLoop sysfs envs nReps n archMode (fuel + 1) true (Cursor.ofCount n t) km =
      if (printEntries ms k []).1 = 0 then
        if (Cursor.ofCount n (t + k)).input = n - 1 then
          (readLoop sysfs envs nReps n archMode fuel false (Cursor.ofCount n (t + k))
            (KmState.leaving km 0)).after ⟨km, cells n t (printed ms 0 k)⟩
        else ⟨KmState.leaving km 0, [⟨km, cells n t (printed ms 0 k)⟩], .assertionError⟩
      else
        (readLoop sysfs envs nReps n archMode fuel true
          (Cursor.ofCount n (t + (k - (printEntries ms k []).1)))
          (KmState.leaving km (printEntries ms k []).1)).after
            ⟨km, cells n t (printed ms (printEntries ms k []).1 k)⟩ := by
  obtain ⟨-, htext⟩ := printEntries_eq ms k []
  have hcat := catTrace_page hsys (envs km.runs) hnext hk hlive hms hfits
  generalize hL : (printEntries ms k []).1 = left at *
  have hes : ∀ r ∈ printed ms left k, r.htrace ≠ 0 := by
    intro r hr
    obtain ⟨j, hj, rfl⟩ := mem_printed hr
    exact hnz j hj
  have hlines : readLines n archMode (splitText '\n' (printEntries ms k []).2)
      (Cursor.ofCount n t) = (cells n t (printed ms left k),
        Cursor.ofCount n (t + (k - left)), if left = 0 then .done else .more) := by
    have hpage := readLines_page n archMode (printed ms left k) (decide (left = 0))
      (Cursor.ofCount n t)
    rw [readEntries_cells hn archMode hes, printed_length] at hpage
    simp only [decide_eq_true_eq, if_true] at hpage
    rw [htext, List.nil_append]
    exact hpage
  rw [readLoop, if_neg (by simp)]
  dsimp only
  rw [if_pos rfl, hcat]
  dsimp only
  rw [hlines]
  by_cases hz : left = 0
  · subst hz
    rw [if_pos rfl, if_pos rfl, Nat.sub_zero]
    rfl
  · rw [if_neg hz, if_neg hz]

theorem Live.leaving (h : Live km) (left : Int) : Live (KmState.leaving km left) :=
  ⟨h.present, h.inputsDone, h.testCaseDone⟩

variable (envs nReps archMode) in
/-- All pages of a batch, wherever they are cut. -/
theorem readLoop_batch (hsys : DeliversPage sysfs) (hn : n ≠ 0) {k : Nat} (hsafe : PageSafe ms k)
    (hnext : km.nextMeasurementId = (k : Int) - 1) (hk : k ≠ 0) (hlive : Live km)
    (hms : km.measurements = some ms)
    (hnz : ∀ j, j < k → (ms.getD j Reading.zero).htrace ≠ 0) (fuel : Nat) {t : Nat}
    (hend : (t + k) % n = 0) :
    ∃ fuel', fuel ≤ fuel' ∧ ReadsAs
      (readLoop sysfs envs nReps n archMode (fuel + k) true (Cursor.ofCount n t) km)
      (cells n t (printed ms 0 k))
      (readLoop sysfs envs nReps n archMode fuel' false (Cursor.ofCount n (t + k))
        (KmState.leaving km 0)) := by
  -- the induction follows the pages; the last one ends at a multiple of `n`
  induction hsafe generalizing km t fuel with
  | @last k hleft hfits =>
    obtain ⟨k', rfl⟩ := Nat.exists_eq_succ_of_ne_zero hk
    have hinput : (Cursor.ofCount n (t + (k' + 1))).input = n - 1 := by
      unfold Cursor.ofCount
      dsimp only
      rw [hend, Nat.sub_zero]
    refine ⟨fuel + k', by omega, ?_⟩
    rw [show fuel + (k' + 1) = fuel + k' + 1 from by omega,
      readLoop_page envs nReps archMode hsys hn hnext hk hlive hms hfits hnz, if_pos hleft, if_pos hinput]
    exact readsAs_after _ _
  | @more k hleft hrest ih =>
    obtain ⟨k', rfl⟩ := Nat.exists_eq_succ_of_ne_zero hk
    have hlt := printEntries_lt ms k'
    have hpage := readLoop_page envs nReps archMode hsys hn hnext hk hlive hms
      (printEntries_fits (by decide) hleft) hnz (fuel + k') t
    generalize hL : (printEntries ms (k' + 1) []).1 = left at *
    rw [if_neg hleft] at hpage
    have hsum : t + (k' + 1 - left) + left = t + (k' + 1) := by omega
    obtain ⟨fuel', hle, hreads⟩ := ih
      (show (KmState.leaving km left).nextMeasurementId = (left : Int) - 1 from rfl) hleft
      (hlive.leaving _) hms (fun j hj => hnz j (by omega)) (fuel + (k' - left))
      (show (t + (k' + 1 - left) + left) % n = 0 by rw [hsum]; exact hend)
    refine ⟨fuel', by omega, ?_⟩
    rw [show fuel + (k' - left) + left = fuel + k' from by omega, hsum] at hreads
    rw [show fuel + (k' + 1) = fuel + k' + 1 from by omega, hpage,
      printed_append ms (show left ≤ k' + 1 by omega), cells_append, printed_length]
    exact (readsAs_after _ _).trans hreads

variable (sysfs) in
/-- The first page of an experiment is printed as if the experiment had run before. -/
theorem catTrace_start (hlive : Live km) {km₁ : KmState} (hlive₁ : Live km₁)
    (hnext₁ : 0 ≤ km₁.nextMeasurementId)
    (hstart : startMeasurement (envs km.runs) { km with unfinishedCall := true } = (km₁, 0)) :
    catTrace sysfs (envs km.runs) km = catTrace sysfs (envs km₁.runs) km₁ := by
  have hstart₁ : startMeasurement (envs km₁.runs) { km₁ with unfinishedCall := true } =
      ({ km₁ with unfinishedCall := true }, 0) :=
    if_neg (show ¬ km₁.nextMeasurementId < 0 by omega)
  rw [catTrace_eq (envs km.runs) hlive.present hlive.inputsDone hlive.testCaseDone hstart,
    catTrace_eq (envs km₁.runs) hlive₁.present hlive₁.inputsDone hlive₁.testCaseDone hstart₁,
    if_pos rfl, if_pos rfl]

variable (sysfs archMode) in
/-- The first page of an experiment is read as if the experiment had run before. -/
theorem readLoop_start {c : Cursor} (hc : c.input = n - 1) (hrep : c.rep < nReps) (hlive : Live km)
    {km₁ : KmState} (hlive₁ : Live km₁) (hnext₁ : 0 ≤ km₁.nextMeasurementId)
    (hstart : startMeasurement (envs km.runs) { km with unfinishedCall := true } = (km₁, 0))
    (fuel : Nat) :
    ReadsAs (readLoop sysfs envs nReps n archMode (fuel + 1) false c km) []
      (readLoop sysfs envs nReps n archMode (fuel + 1) true c km₁) := by
  have hcat := catTrace_start sysfs hlive hlive₁ hnext₁ hstart
  have hcursor : (⟨c.rep, n - 1⟩ : Cursor) = c := by rw [← hc]
  rw [readLoop, readLoop, if_neg (by omega), if_neg (by simp)]
  dsimp only
  rw [if_neg (by simp), if_pos rfl, hcursor, hcat]
  cases catTrace sysfs (envs km₁.runs) km₁ with
  | mk km' text =>
    cases text with
    | none => exact ⟨rfl, rfl, rfl⟩
    | some text =>
      dsimp only
      cases readLines n archMode (splitText '\n' text) c with
      | mk ys rest =>
        obtain ⟨c', e⟩ := rest
        cases e with
        | more => exact ⟨rfl, rfl, rfl⟩
        | done =>
          dsimp only
          split
          · exact ⟨rfl, rfl, rfl⟩
          · exact ⟨rfl, rfl, rfl⟩
        | valueError => exact ⟨rfl, rfl, rfl⟩
        | rejected => exact ⟨rfl, rfl, rfl⟩

end Batch

/-- The readings of an experiment, as the array holds them. -/
def finalReadings (dbgGprMode : Bool) (env : TraceEnv) (nInputs : Nat) : List Reading :=
  (List.range nInputs).map (finalReading dbgGprMode env.execution)

/-- An experiment without errors whose readings are not zero and whose last page fits. -/
structure ExperimentGood (env : TraceEnv) (dbgGprMode : Bool) (uarchResetRounds : Int)
    (nInputs : Nat) : Prop extends ExperimentOk env dbgGprMode uarchResetRounds nInputs where
  nonzero : ∀ j, j < nInputs → (finalReading dbgGprMode env.execution j).htrace ≠ 0
  pages : PageSafe (finalReadings dbgGprMode env nInputs) nInputs

/-- The module between two experiments on these inputs. -/
structure Loaded {a : Nat} (inputs : List (InputData a)) (km : KmState) : Prop where
  array : km.ArrayOk
  next : km.nextMeasurementId = -1
  warmups : 0 ≤ km.uarchResetRounds
  present : km.measurements.isSome = true
  testCaseDone : tcParsingCompleted km.tc = true
  holds : Holds inputs km.inp

section Experiments

variable {a : Nat} {sequence : List (InputData a)} {sysfs : Text → Text} {envs : Nat → TraceEnv}
  {nReps n : Nat} {archMode : Bool} {km : KmState}

theorem finalReadings_getD (dbg : Bool) (env : TraceEnv) {N j : Nat} (h : j < N) :
    (finalReadings dbg env N).getD j Reading.zero = finalReading dbg env.execution j := by
  unfold finalReadings
  rw [List.getD, List.getElem?_map, List.getElem?_range h]
  rfl

theorem Loaded.live (h : Loaded sequence km) : Live km :=
  ⟨h.present, by unfold inputParsingCompleted; rw [h.holds.idle]; rfl, h.testCaseDone⟩

theorem Holds.present {s : InputParser} (h : Holds sequence s) : inputsPresent s = true := by
  unfold inputsPresent InputParser.batch
  rw [h.batch.inputs]
  rfl

/-- One experiment: the pages of its readings, and the module is loaded as before. -/
theorem readLoop_experiment (hsys : DeliversPage sysfs) (hn : n ≠ 0) (h : Loaded sequence km)
    (hne : sequence.length ≠ 0) (hmax : sequence.length ≤ 2 ^ 20)
    (hgood : ExperimentGood (envs km.runs) km.dbgGprMode km.uarchResetRounds sequence.length)
    {t : Nat} (ht : t % n = 0) (hrep : t / n < nReps) (hdvd : (t + sequence.length) % n = 0)
    (fuel : Nat) :
    ∃ km' fuel', Loaded sequence km' ∧ SameConfig km km' ∧ km'.runs = km.runs + 1 ∧
      fuel ≤ fuel' ∧ ReadsAs
        (readLoop sysfs envs nReps n archMode (fuel + sequence.length) false (Cursor.ofCount n t) km)
        (cells n t (printed (finalReadings km.dbgGprMode (envs km.runs) sequence.length) 0
          sequence.length))
        (readLoop sysfs envs nReps n archMode fuel' false (Cursor.ofCount n (t + sequence.length))
          km') := by
  have hnum : km.inp.nInputs = sequence.length := h.holds.nInputs
  have hok : ExperimentOk (envs km.runs) km.dbgGprMode km.uarchResetRounds km.inp.nInputs := by
    rw [hnum]
    exact hgood.toExperimentOk
  obtain ⟨km₁, ms, hstart, hms, hval, hcfg, harr, hruns, hnext⟩ := startMeasurement_ok
    (show ({ km with unfinishedCall := true } : KmState).ArrayOk from h.array)
    (by rw [hnum]; exact hmax) h.present (show km.nextMeasurementId < 0 by rw [h.next]; decide)
    (by rw [hnum]; exact hne) h.holds.present h.warmups hok
  have hinp : km₁.inp = km.inp := hcfg.inp
  have htc : km₁.tc = km.tc := hcfg.tc
  have hlive₁ : Live km₁ := by
    refine ⟨by rw [hms]; rfl, ?_, ?_⟩
    · rw [hinp]
      exact h.live.inputsDone
    · rw [htc]
      exact h.testCaseDone
  have hentries : ∀ j, j < sequence.length → ms.getD j Reading.zero =
      (finalReadings km.dbgGprMode (envs km.runs) sequence.length).getD j Reading.zero := by
    intro j hj
    rw [hval j (by rw [hnum]; exact hj), finalReadings_getD _ _ hj]
  have hnext₁ : km₁.nextMeasurementId = (sequence.length : Int) - 1 := by
    rw [hnext, hnum]
  obtain ⟨fuel', hle, hreads⟩ := readLoop_batch envs nReps archMode hsys hn
    (hgood.pages.congr fun j hj => (hentries j hj).symm) hnext₁ hne hlive₁ hms
    (fun j hj => by
      rw [hentries j hj, finalReadings_getD _ _ hj]
      exact hgood.nonzero j hj) fuel hdvd
  have hcursor : (Cursor.ofCount n t).input = n - 1 := by
    unfold Cursor.ofCount
    dsimp only
    rw [ht, Nat.sub_zero]
  obtain ⟨m, hm⟩ := Nat.exists_eq_succ_of_ne_zero hne
  have hfirst := readLoop_start sysfs archMode hcursor hrep h.live hlive₁
    (by rw [hnext₁]; omega) hstart (fuel + m)
  rw [show fuel + m + 1 = fuel + sequence.length from by omega] at hfirst
  refine ⟨KmState.leaving km₁ 0, fuel', ?_, ?_, hruns, hle, ?_⟩
  · exact ⟨harr, rfl, by
      show 0 ≤ km₁.uarchResetRounds
      rw [hcfg.uarchResetRounds]
      exact h.warmups, hlive₁.present, hlive₁.testCaseDone, by
      show Holds sequence km₁.inp
      rw [hinp]
      exact h.holds⟩
  · exact ⟨htc, hinp, hcfg.uarchResetRounds, hcfg.dbgGprMode⟩
  · rw [printed_congr hentries] at hreads
    exact hfirst.trans hreads

variable (envs archMode) in
/-- All experiments of a call. -/
theorem readLoop_run (hsys : DeliversPage sysfs) (hn : n ≠ 0) (hne : sequence.length ≠ 0)
    (hmax : sequence.length ≤ 2 ^ 20) (hdvd : sequence.length % n = 0) {count : Nat}
    (h : Loaded sequence km)
    (hgood : ∀ e, e < count → ExperimentGood (envs (km.runs + e)) km.dbgGprMode
      km.uarchResetRounds sequence.length) {t : Nat} (ht : t % n = 0)
    (hreps : n * nReps = t + sequence.length * count) {fuel : Nat}
    (hfuel : sequence.length * count < fuel) :
    ∃ km', Loaded sequence km' ∧ SameConfig km km' ∧ km'.runs = km.runs + count ∧ ReadsAs
      (readLoop sysfs envs nReps n archMode fuel false (Cursor.ofCount n t) km)
      (cells n t ((List.range' km.runs count).flatMap fun x =>
        printed (finalReadings km.dbgGprMode (envs x) sequence.length) 0 sequence.length))
      ⟨km', [], .finished⟩ := by
  have hpos : 0 < n := Nat.pos_of_ne_zero hn
  induction count generalizing km t fuel with
  | zero =>
    obtain ⟨fuel, rfl⟩ := Nat.exists_eq_succ_of_ne_zero (show fuel ≠ 0 by omega)
    have hrep : (Cursor.ofCount n t).rep = nReps := by
      unfold Cursor.ofCount
      dsimp only
      rw [Nat.mul_zero, Nat.add_zero] at hreps
      rw [← hreps, Nat.mul_div_cancel_left _ hpos]
    refine ⟨km, h, ⟨rfl, rfl, rfl, rfl⟩, rfl, ?_⟩
    rw [readLoop, if_pos ⟨rfl, by omega⟩]
    exact ⟨rfl, rfl, rfl⟩
  | succ count ih =>
    rw [Nat.mul_succ] at hreps hfuel
    have hrep : t / n < nReps := Nat.div_lt_of_lt_mul (by omega)
    have hnext : (t + sequence.length) % n = 0 := by rw [Nat.add_mod, ht, hdvd, Nat.zero_mod]
    obtain ⟨km₁, fuel', hload, hcfg, hruns, hle, hreads⟩ := readLoop_experiment hsys hn h hne hmax
      (hgood 0 (by omega)) ht hrep hnext (fuel - sequence.length)
    obtain ⟨km₂, hload₂, hcfg₂, hruns₂, hreads₂⟩ := ih hload
      (fun e he => by
        rw [hruns, hcfg.dbgGprMode, hcfg.uarchResetRounds,
          show km.runs + 1 + e = km.runs + (e + 1) from by omega]
        exact hgood (e + 1) (by omega)) hnext (by omega) (show _ < fuel' by omega)
    refine ⟨km₂, hload₂, hcfg.trans hcfg₂, by omega, ?_⟩
    rw [show fuel - sequence.length + sequence.length = fuel from by omega] at hreads
    rw [hruns, hcfg.dbgGprMode] at hreads₂
    rw [List.range'_succ, List.flatMap_cons, cells_append, printed_length, Nat.sub_zero]
    exact hreads.trans hreads₂

end Experiments

section Cells

variable {n nReps : Nat}

/-- The cell that a yield is assigned to. -/
def Yield.cell (y : Yield) : Nat × Nat := (y.input, y.rep)

/-- Yields for distinct cells inside the array are all stored. -/
theorem storeReadings_spec {ys : List Yield} (hin : ∀ y ∈ ys, y.input < n ∧ y.rep < nReps)
    (hnodup : (ys.map Yield.cell).Nodup) (before : Readings) :
    ∃ after, storeReadings n nReps ys before = some after ∧
      (∀ y ∈ ys, after y.input y.rep = some y.line) ∧
      ∀ i r, (i, r) ∉ ys.map Yield.cell → after i r = before i r := by
  induction ys generalizing before with
  | nil => exact ⟨before, rfl, fun y hy => absurd hy (by simp), fun _ _ _ => rfl⟩
  | cons y ys ih =>
    rw [List.map_cons, List.nodup_cons] at hnodup
    obtain ⟨after, heq, hall, hframe⟩ := ih (fun z hz => hin z (List.mem_cons_of_mem _ hz)) hnodup.2
      fun i r => if i = y.input ∧ r = y.rep then some y.line else before i r
    refine ⟨after, ?_, ?_, ?_⟩
    · rw [storeReadings, if_pos (hin y (by simp))]
      exact heq
    · intro z hz
      rcases List.mem_cons.mp hz with rfl | hz
      · rw [hframe _ _ hnodup.1, if_pos ⟨rfl, rfl⟩]
      · exact hall z hz
    · intro i r hir
      rw [List.map_cons, List.mem_cons, not_or] at hir
      rw [hframe i r hir.2, if_neg]
      rintro ⟨rfl, rfl⟩
      exact hir.1 rfl

theorem cells_map_cell (t : Nat) (es : List Reading) :
    (cells n t es).map Yield.cell =
      (List.range' t es.length).map fun p => (n - 1 - p % n, p / n) := by
  induction es generalizing t with
  | nil => rfl
  | cons r rs ih => rw [cells, List.map_cons, ih, List.length_cons, List.range'_succ]; rfl

theorem cell_injective (hn : n ≠ 0) : Function.Injective fun p => (n - 1 - p % n, p / n) := by
  intro p q hpq
  have hp : p % n < n := Nat.mod_lt _ (Nat.pos_of_ne_zero hn)
  have hq : q % n < n := Nat.mod_lt _ (Nat.pos_of_ne_zero hn)
  have hmod : n - 1 - p % n = n - 1 - q % n := congrArg Prod.fst hpq
  have hdiv : p / n = q / n := congrArg Prod.snd hpq
  have h₁ := Nat.div_add_mod p n
  have h₂ := Nat.div_add_mod q n
  rw [hdiv] at h₁
  omega

theorem cells_nodup (hn : n ≠ 0) (t : Nat) (es : List Reading) :
    ((cells n t es).map Yield.cell).Nodup := by
  rw [cells_map_cell]
  exact (List.nodup_range').map (cell_injective hn)

/-- The reading for input `i` and repetition `r` is number `n * r + (n - 1 - i)`. -/
theorem cells_at (es : List Reading) {i r : Nat} (hi : i < n) {reading : Reading}
    (h : es[n * r + (n - 1 - i)]? = some reading) :
    (⟨r, i, readingInts reading⟩ : Yield) ∈ cells n 0 es := by
  have hget := cells_getElem (n := n) 0 es (n * r + (n - 1 - i))
  rw [h, Option.map_some, Nat.zero_add, Nat.mul_add_div (by omega), Nat.mul_add_mod,
    Nat.div_eq_of_lt (show n - 1 - i < n by omega), Nat.mod_eq_of_lt (show n - 1 - i < n by omega),
    Nat.add_zero, show n - 1 - (n - 1 - i) = i from by omega] at hget
  exact List.mem_of_getElem? hget

theorem cells_inside (hn : n ≠ 0) {es : List Reading} (hlen : es.length = n * nReps) {y : Yield}
    (hy : y ∈ cells n 0 es) : y.input < n ∧ y.rep < nReps := by
  obtain ⟨p, hp⟩ := List.getElem?_of_mem hy
  have hlt := (List.getElem?_eq_some_iff.mp hp).1
  rw [cells_length, hlen] at hlt
  rw [cells_getElem] at hp
  obtain ⟨r, -, rfl⟩ := Option.map_eq_some_iff.mp hp
  dsimp only
  rw [Nat.zero_add]
  exact ⟨by omega, Nat.div_lt_of_lt_mul hlt⟩

/-- An element of a concatenation of lists of one length. -/
theorem getElem?_flatMap_range' {α : Type*} {f : Nat → List α} {N : Nat} (hN : N ≠ 0)
    (hf : ∀ x, (f x).length = N) (start count : Nat) {p : Nat} (hp : p < N * count) :
    ((List.range' start count).flatMap f)[p]? = (f (start + p / N))[p % N]? := by
  induction count generalizing start p with
  | zero => omega
  | succ count ih =>
    rw [List.range'_succ, List.flatMap_cons]
    by_cases hlt : p < N
    · rw [List.getElem?_append_left (by rw [hf]; exact hlt), Nat.div_eq_of_lt hlt,
        Nat.mod_eq_of_lt hlt, Nat.add_zero]
    · have hdiv : p / N = (p - N) / N + 1 := Nat.div_eq_sub_div (Nat.pos_of_ne_zero hN) (by omega)
      have hmod : p % N = (p - N) % N := Nat.mod_eq_sub_mod (by omega)
      rw [Nat.mul_succ] at hp
      rw [List.getElem?_append_right (by rw [hf]; omega), hf, ih (start + 1) (by omega), hdiv, hmod,
        show start + 1 + (p - N) / N = start + ((p - N) / N + 1) from by omega]

end Cells

/-- The module is ready for a call: a test case for `a` actors is loaded, and nothing is left to
receive or to print. -/
structure Serving (a : Nat) (km : KmState) : Prop where
  array : km.ArrayOk
  next : km.nextMeasurementId = -1
  warmups : 0 ≤ km.uarchResetRounds
  present : km.measurements.isSome = true
  testCaseDone : tcParsingCompleted km.tc = true
  actors : km.tc.nActors = a
  room : km.inp.RoomOk
  idle : km.inp.isReceivingInputs = false

section Agreement

variable {a : Nat} (envs : Nat → TraceEnv) (km : KmState) (call : TraceCall a)

/-- The number of inputs of the batch. -/
def TraceCall.batchLength (call : TraceCall a) : Nat :=
  (inputSequence call.inputs call.nReps).length

/-- What a call needs: inputs that are not all ignored and a batch within the limits of the
module, which it receives in some split; and experiments without errors in which no measurement
but the last one is corrupted, with readings that are not zero and a last page that fits. -/
structure TraceOk : Prop where
  inputs : call.inputs ≠ []
  notIgnored : call.ignored < call.inputs.length
  limit : call.batchLength ≤ 2 ^ 20
  size : batchHeaderSize + batchBytes a call.batchLength < 2 ^ 64
  first : 16 ≤ (call.calls 0).offer
  offers : ∀ k, 1 ≤ (call.calls k).offer
  memory : BatchAllocates (call.calls 0).env a call.batchLength
  experiments : ∀ e, call.batchLength * e < call.inputs.length * call.nReps →
    ExperimentGood (envs (km.runs + e)) km.dbgGprMode km.uarchResetRounds call.batchLength
  fuel : call.inputs.length * call.nReps < call.fuel

/-- The array of the call is filled: every cell once, with what one of its experiments stored for
a batch entry that holds the bytes of the input. -/
structure Agrees (res : TraceResult) : Prop where
  finished : res.outcome = .read .finished
  next : res.km.nextMeasurementId = -1
  inside : ∀ y ∈ res.yields, y.input < call.inputs.length ∧ y.rep < call.nReps
  once : ∀ i r, i < call.inputs.length → r < call.nReps →
    (res.yields.map Yield.cell).count (i, r) = 1
  measured : ∀ i r input, call.inputs[i]? = some input → r < call.nReps → ∃ x j,
    km.runs ≤ x ∧ x < res.km.runs ∧ j < res.loaded.inp.nInputs ∧
    HasBytes res.loaded.inp.data (inputFragmentSize * (a * j)) input.tobytes ∧
    (∃ reading st, (envs x).execution j = .returned 0 reading st) ∧
    res.readings i r = some (readingInts (finalReading km.dbgGprMode (envs x).execution j))

end Agreement

section Calls

variable {a : Nat} {sysfs : Text → Text} {envs : Nat → TraceEnv} {km : KmState}
  {call : TraceCall a}

/-- The transferred sequence consists of copies of the inputs, and every experiment measures as
many repetitions. -/
theorem inputSequence_copies (inputs : List (InputData a)) (nReps : Nat) :
    ∃ m, m ≠ 0 ∧ m ∣ nReps ∧ inputSequence inputs nReps = (List.range' 0 m).flatMap fun _ => inputs := by
  unfold inputSequence
  by_cases h : nReps % 5 ≠ 0 ∨ 1000 ≤ inputs.length
  · rw [if_pos h]
    exact ⟨1, by decide, Nat.one_dvd _, by simp⟩
  · rw [if_neg h]
    rw [not_or, not_not] at h
    exact ⟨5, by decide, Nat.dvd_of_mod_eq_zero h.1, by simp [List.range']⟩

theorem length_copies {α : Type*} (xs : List α) (m : Nat) :
    ((List.range' 0 m).flatMap fun _ => xs).length = xs.length * m := by
  rw [List.length_flatMap]
  simp [Nat.mul_comm]

/-- Entry `N - 1 - t` of `m` copies of `n` inputs, where `t` is the number of a reading of input
`i`, is that input. -/
theorem copies_index {n m i r : Nat} (hi : i < n) (hm : m ≠ 0) :
    n * m - 1 - (n * r + (n - 1 - i)) % (n * m) < n * m ∧
      (n * m - 1 - (n * r + (n - 1 - i)) % (n * m)) % n = i := by
  have hpos : 0 < n * m := Nat.mul_pos (by omega) (Nat.pos_of_ne_zero hm)
  generalize hu : (n * r + (n - 1 - i)) % (n * m) = u
  have hlt : u < n * m := by rw [← hu]; exact Nat.mod_lt _ hpos
  have hmod : u % n = n - 1 - i := by
    rw [← hu, Nat.mod_mul_right_mod, Nat.mul_add_mod, Nat.mod_eq_of_lt (by omega)]
  have hdiv : u / n < m := Nat.div_lt_of_lt_mul hlt
  have hsplit := Nat.div_add_mod u n
  obtain ⟨y, hy⟩ : ∃ y, m = y + u / n + 1 := ⟨m - 1 - u / n, by omega⟩
  have hprod : n * m = n * y + n * (u / n) + n := by rw [hy, Nat.mul_add, Nat.mul_add, Nat.mul_one]
  refine ⟨by omega, ?_⟩
  rw [show n * m - 1 - u = n * y + i from by omega, Nat.mul_add_mod, Nat.mod_eq_of_lt hi]

/-- The readings of all experiments of a call, in the order in which they are printed. -/
def callReadings (envs : Nat → TraceEnv) (km : KmState) (nInputs count : Nat) : List Reading :=
  (List.range' km.runs count).flatMap fun x =>
    printed (finalReadings km.dbgGprMode (envs x) nInputs) 0 nInputs

variable (envs km) in
theorem callReadings_getElem {N count p : Nat} (hp : p < N * count) :
    (callReadings envs km N count)[p]? =
      some (finalReading km.dbgGprMode (envs (km.runs + p / N)).execution (N - 1 - p % N)) := by
  have hN : N ≠ 0 := by
    intro hz
    rw [hz, Nat.zero_mul] at hp
    omega
  have hlt : p % N < N := Nat.mod_lt _ (Nat.pos_of_ne_zero hN)
  unfold callReadings
  rw [getElem?_flatMap_range' hN (fun x => by rw [printed_length, Nat.sub_zero]) _ _ hp]
  generalize envs (km.runs + p / N) = env
  have hget : (printed (finalReadings km.dbgGprMode env N) 0 N)[p % N]? =
      some ((finalReadings km.dbgGprMode env N).getD (N - 1 - p % N) Reading.zero) := by
    obtain ⟨k, rfl⟩ := Nat.exists_eq_succ_of_ne_zero hN
    have hin : p % (k + 1) < (printed (finalReadings km.dbgGprMode env (k + 1)) 0 (k + 1)).length := by
      rw [printed_length]
      exact hlt
    have hsome := List.getElem?_eq_getElem hin
    obtain ⟨-, heq⟩ := printed_getElem hsome
    rw [hsome, heq, Nat.succ_sub_one]
  rw [hget, finalReadings_getD _ _ (by omega)]

theorem callReadings_length (N count : Nat) : (callReadings envs km N count).length = N * count := by
  unfold callReadings
  rw [List.length_flatMap]
  simp [printed_length, Nat.mul_comm]

/-- The read of a call, from the loaded module to its end. -/
theorem readTrace_run (hsys : DeliversPage sysfs) (hok : TraceOk envs km call) {count : Nat}
    (hdvd : call.batchLength % call.inputs.length = 0) (hne : call.batchLength ≠ 0)
    (htotal : call.inputs.length * call.nReps = call.batchLength * count) {inp : InputParser}
    (hload : Loaded (inputSequence call.inputs call.nReps)
      { km with inp := inp, inputsReady := true }) :
    ∃ km', Loaded (inputSequence call.inputs call.nReps) km' ∧
      SameConfig { km with inp := inp, inputsReady := true } km' ∧ km'.runs = km.runs + count ∧
      ReadsAs (readTrace sysfs envs call.nReps call.inputs.length call.archMode call.fuel
          { km with inp := inp, inputsReady := true })
        (cells call.inputs.length 0 (callReadings envs km call.batchLength count))
        ⟨km', [], .finished⟩ := by
  have hn : call.inputs.length ≠ 0 := fun hz => hok.inputs (List.length_eq_zero_iff.mp hz)
  have hgood : ∀ e, e < count → ExperimentGood (envs (km.runs + e)) km.dbgGprMode
      km.uarchResetRounds call.batchLength := by
    intro e he
    apply hok.experiments e
    rw [htotal]
    exact Nat.mul_lt_mul_of_pos_left he (Nat.pos_of_ne_zero hne)
  obtain ⟨km', hload', hcfg, hruns, hreads⟩ := readLoop_run envs call.archMode hsys hn hne hok.limit
    hdvd hload hgood (Nat.zero_mod _)
    (show _ = 0 + call.batchLength * count by rw [Nat.zero_add]; exact htotal)
    (show call.batchLength * count < call.fuel by rw [← htotal]; exact hok.fuel)
  refine ⟨km', hload', hcfg, hruns, ?_⟩
  have hcursor : (⟨0, call.inputs.length - 1⟩ : Cursor) = Cursor.ofCount call.inputs.length 0 := by
    unfold Cursor.ofCount
    rw [Nat.zero_div, Nat.zero_mod, Nat.sub_zero]
  unfold readTrace
  rw [if_neg hn, hcursor]
  exact hreads

/-- A call fills its array, and leaves the module ready for the next one. -/
theorem traceTestCase_agrees (hsys : DeliversPage sysfs) (h : Serving a km)
    (hok : TraceOk envs km call) :
    Agrees envs km call (traceTestCase sysfs envs call km) ∧
      Serving a (traceTestCase sysfs envs call km).km := by
  obtain ⟨m, hm, ⟨count, hcount⟩, hseq⟩ := inputSequence_copies call.inputs call.nReps
  have hn : call.inputs.length ≠ 0 := fun hz => hok.inputs (List.length_eq_zero_iff.mp hz)
  have hN : call.batchLength = call.inputs.length * m := by
    unfold TraceCall.batchLength
    rw [hseq, length_copies]
  have hNne : call.batchLength ≠ 0 := by
    rw [hN]
    exact Nat.mul_ne_zero hn hm
  have htotal : call.inputs.length * call.nReps = call.batchLength * count := by
    rw [hN, hcount, Nat.mul_assoc]
  obtain ⟨inp, htransfer, hholds⟩ := transferInputs_done hok.first hok.offers h.room h.idle h.actors
    hok.memory hNne hok.limit hok.size
  obtain ⟨km', hload', hcfg, hruns, hreads⟩ := readTrace_run hsys hok
    (by rw [hN, Nat.mul_mod_right]) hNne htotal
    ⟨h.array, h.next, h.warmups, h.present, h.testCaseDone, hholds⟩
  have hyields := hreads.yields
  rw [show (⟨km', [], .finished⟩ : ReadResult).yields = [] from rfl, List.append_nil] at hyields
  have hlen : (callReadings envs km call.batchLength count).length =
      call.inputs.length * call.nReps := by rw [callReadings_length, htotal]
  have hinside : ∀ y ∈ cells call.inputs.length 0 (callReadings envs km call.batchLength count),
      y.input < call.inputs.length ∧ y.rep < call.nReps := fun y hy => cells_inside hn hlen hy
  have hnodup := cells_nodup hn 0 (callReadings envs km call.batchLength count)
  obtain ⟨after, hstore, hall, -⟩ := storeReadings_spec hinside hnodup fun _ _ => none
  -- the reading of a cell
  have hposition : ∀ i r, r < call.nReps →
      call.inputs.length * r + (call.inputs.length - 1 - i) < call.batchLength * count := by
    intro i r hr
    rw [← htotal]
    calc call.inputs.length * r + (call.inputs.length - 1 - i)
        < call.inputs.length * r + call.inputs.length := by omega
      _ = call.inputs.length * (r + 1) := by rw [Nat.mul_succ]
      _ ≤ call.inputs.length * call.nReps := Nat.mul_le_mul_left _ hr
  have hcell := fun i r (hi : i < call.inputs.length) (hr : r < call.nReps) =>
    cells_at _ hi (callReadings_getElem envs km (hposition i r hr))
  have hresult : traceTestCase sysfs envs call km =
      ⟨km', { km with inp := inp, inputsReady := true },
        cells call.inputs.length 0 (callReadings envs km call.batchLength count), after,
        .read .finished⟩ := by
    unfold traceTestCase
    dsimp only
    rw [if_neg (by
      rw [not_or]
      exact ⟨hok.inputs, Nat.not_le.mpr hok.notIgnored⟩), htransfer]
    dsimp only
    rw [if_neg (by simp), hyields, hstore, hreads.km, hreads.outcome]
  rw [hresult]
  have hinp : km'.inp = inp := hcfg.inp
  refine ⟨⟨rfl, hload'.next, hinside, ?_, ?_⟩, hload'.array, hload'.next, hload'.warmups,
    hload'.present, hload'.testCaseDone, ?_, hload'.holds.room, hload'.holds.idle⟩
  · intro i r hi hr
    exact List.count_eq_one_of_mem hnodup (List.mem_map_of_mem (hcell i r hi hr))
  · intro i r input hinput hr
    have hi : i < call.inputs.length := (List.getElem?_eq_some_iff.mp hinput).1
    have hmem := hcell i r hi hr
    have hidx := copies_index (r := r) hi hm
    rw [← hN] at hidx
    have hx := Nat.div_lt_of_lt_mul (hposition i r hr)
    have hentry : (inputSequence call.inputs call.nReps)[call.batchLength - 1 -
        (call.inputs.length * r + (call.inputs.length - 1 - i)) % call.batchLength]? = some input := by
      rw [hseq, getElem?_flatMap_range' hn (fun _ => rfl) 0 m (by rw [← hN]; exact hidx.1), hidx.2]
      exact hinput
    have hdata := hasBytes_input hholds.data hentry
    rw [Nat.zero_add] at hdata
    have hnum : inp.nInputs = call.batchLength := hholds.nInputs
    have hgood := hok.experiments _ (show call.batchLength *
        ((call.inputs.length * r + (call.inputs.length - 1 - i)) / call.batchLength) < _ by
      rw [htotal]
      exact Nat.mul_lt_mul_of_pos_left hx (Nat.pos_of_ne_zero hNne))
    refine ⟨_, _, Nat.le_add_right _ _, ?_, ?_, hdata, ?_, hall _ hmem⟩
    · show _ < km'.runs
      omega
    · show _ < inp.nInputs
      rw [hnum]
      exact hidx.1
    · exact hgood.loop.returns _ (by have := h.warmups; omega) (by exact_mod_cast hidx.1)
  · rw [hcfg.tc]
    exact h.actors

/-- In every sequence of calls that are in order, each call fills its array. -/
theorem session_agrees (hsys : DeliversPage sysfs) (h : Serving a km) {calls : List (TraceCall a)}
    (hok : AllSteps (fun km call => (traceTestCase sysfs envs call km).km) (TraceOk envs) km calls) :
    AllSteps (fun km call => (traceTestCase sysfs envs call km).km)
      (fun km call => Agrees envs km call (traceTestCase sysfs envs call km)) km calls :=
  AllSteps.imp (fun _ _ hs hc => (traceTestCase_agrees hsys hs hc).2)
    (fun _ _ hs hc => (traceTestCase_agrees hsys hs hc).1) hok h

end Calls

/-! ### Reads with other inputs in the module

A read of `trace` sees how many inputs there are and whether they are complete, not their data. -/

section Holding

/-- The module with other inputs. -/
def KmState.holding (km : KmState) (inp : InputParser) : KmState := { km with inp := inp }

/-- What a read sees of the inputs. -/
structure SameBatch (s t : InputParser) : Prop where
  nInputs : s.nInputs = t.nInputs
  present : inputsPresent s = inputsPresent t
  completed : inputParsingCompleted s = inputParsingCompleted t

theorem Holds.sameBatch {a : Nat} {inputs : List (InputData a)} {s t : InputParser}
    (h : Holds inputs s) (ht : inputsPresent t = true) (hidle : inputParsingCompleted t = true)
    (hn : t.nInputs = inputs.length) : SameBatch t s where
  nInputs := hn.trans h.nInputs.symm
  present := ht.trans h.present.symm
  completed := by
    rw [hidle, inputParsingCompleted, h.idle]
    rfl

variable {km : KmState} {i : InputParser}

theorem allocMeasurements_holding (env : TraceEnv) (h : SameBatch km.inp i) :
    allocMeasurements env (KmState.holding km i) =
      (KmState.holding (allocMeasurements env km).1 i, (allocMeasurements env km).2) := by
  have hn : (KmState.holding km i).inp.nInputs = km.inp.nInputs := h.nInputs.symm
  have hold : (KmState.holding km i).oldNInputs = km.oldNInputs := rfl
  unfold allocMeasurements
  dsimp only
  rw [hn, hold]
  split
  · rfl
  · split
    · rfl
    · rfl

theorem traceTestCase_holding (env : TraceEnv) (h : SameBatch km.inp i) :
    Km.traceTestCase env (KmState.holding km i) =
      (KmState.holding (Km.traceTestCase env km).1 i, (Km.traceTestCase env km).2) := by
  have hinp := (allocMeasurements_same env { km with runs := km.runs + 1 }).inp
  have halloc := allocMeasurements_holding env
    (show SameBatch ({ km with runs := km.runs + 1 } : KmState).inp i from h)
  unfold Km.traceTestCase
  rw [show ({ KmState.holding km i with runs := (KmState.holding km i).runs + 1 } : KmState) =
    KmState.holding { km with runs := km.runs + 1 } i from rfl, halloc]
  generalize allocMeasurements env { km with runs := km.runs + 1 } = r at hinp ⊢
  obtain ⟨km₁, err⟩ := r
  have hinp : km₁.inp = km.inp := hinp
  have hn : (KmState.holding km₁ i).inp.nInputs = km₁.inp.nInputs := by
    rw [hinp]
    exact h.nInputs.symm
  have hpresent : inputsPresent (KmState.holding km₁ i).inp = inputsPresent km₁.inp := by
    rw [hinp]
    exact h.present.symm
  dsimp only
  rw [hn, hpresent]
  split
  · rfl
  · split
    · rfl
    · split
      · rfl
      · rfl

theorem startMeasurement_holding (env : TraceEnv) (h : SameBatch km.inp i) :
    startMeasurement env (KmState.holding km i) =
      (KmState.holding (startMeasurement env km).1 i, (startMeasurement env km).2) := by
  have hinp := (traceTestCase_same env km).inp
  have hnext : (KmState.holding km i).nextMeasurementId = km.nextMeasurementId := rfl
  unfold startMeasurement
  rw [hnext, traceTestCase_holding env h]
  generalize Km.traceTestCase env km = r at hinp ⊢
  obtain ⟨km₁, err⟩ := r
  have hn : (KmState.holding km₁ i).inp.nInputs = km₁.inp.nInputs := by
    rw [show km₁.inp = km.inp from hinp]
    exact h.nInputs.symm
  dsimp only
  rw [hn]
  generalize toInt32 (sub64 km₁.inp.nInputs 1) = n
  split
  · split
    · rfl
    · rfl
  · rfl

theorem printResults_holding (km : KmState) (i : InputParser) :
    printResults (KmState.holding km i) =
      (KmState.holding (printResults km).1 i, (printResults km).2) := by
  have hprints : ∀ km : KmState, printResults km =
      if km.nextMeasurementId < 0 then (km, doneLine)
      else (km.setNext ((printEntries (km.measurements.getD []) (km.nextMeasurementId + 1).toNat
          []).1 - 1),
        (printEntries (km.measurements.getD []) (km.nextMeasurementId + 1).toNat []).2) :=
    fun _ => rfl
  rw [hprints, hprints, show (KmState.holding km i).measurements = km.measurements from rfl,
    show (KmState.holding km i).nextMeasurementId = km.nextMeasurementId from rfl]
  generalize printEntries (km.measurements.getD []) (km.nextMeasurementId + 1).toNat [] = p
  split
  · rfl
  · rfl

theorem traceShow_holding (env : TraceEnv) (h : SameBatch km.inp i) :
    traceShow env (KmState.holding km i) =
      (KmState.holding (traceShow env km).1 i, (traceShow env km).2) := by
  have hstart := startMeasurement_holding env
    (show SameBatch ({ km with unfinishedCall := true } : KmState).inp i from h)
  have hcompleted : inputParsingCompleted (KmState.holding km i).inp =
      inputParsingCompleted km.inp := h.completed.symm
  unfold traceShow
  rw [hcompleted]
  unfold KmState.holding at hstart ⊢
  dsimp only at hstart ⊢
  rw [hstart]
  generalize startMeasurement env { km with unfinishedCall := true } = r
  obtain ⟨km₁, err⟩ := r
  have hprint := printResults_holding { km₁ with unfinishedCall := false } i
  unfold KmState.holding at hprint
  dsimp only at hprint ⊢
  rw [hprint]
  split
  · rfl
  · split
    · rfl
    · split
      · rfl
      · split
        · rfl
        · rfl

theorem catTrace_holding (sysfs : Text → Text) (env : TraceEnv) (h : SameBatch km.inp i) :
    SameBatch (catTrace sysfs env km).1.inp i ∧ catTrace sysfs env (KmState.holding km i) =
      (KmState.holding (catTrace sysfs env km).1 i, (catTrace sysfs env km).2) := by
  have hinp := (traceShow_same env km).inp
  unfold catTrace
  rw [traceShow_holding env h]
  refine ⟨?_, rfl⟩
  show SameBatch (traceShow env km).1.inp i
  rw [hinp]
  exact h

variable (sysfs : Text → Text) (envs : Nat → TraceEnv)

theorem rewindKmOutputToEnd_holding (fuel : Nat) (h : SameBatch km.inp i) :
    SameBatch (rewindKmOutputToEnd sysfs envs fuel km).1.inp i ∧
      rewindKmOutputToEnd sysfs envs fuel (KmState.holding km i) =
        (KmState.holding (rewindKmOutputToEnd sysfs envs fuel km).1 i,
          (rewindKmOutputToEnd sysfs envs fuel km).2) := by
  induction fuel generalizing km with
  | zero => exact ⟨h, rfl⟩
  | succ fuel ih =>
    obtain ⟨hinp, hcat⟩ := catTrace_holding sysfs (envs km.runs) h
    rw [rewindKmOutputToEnd, rewindKmOutputToEnd,
      show (KmState.holding km i).runs = km.runs from rfl, hcat]
    generalize catTrace sysfs (envs km.runs) km = r at hinp ⊢
    obtain ⟨km₁, text⟩ := r
    cases text with
    | none => exact ⟨hinp, rfl⟩
    | some text =>
      dsimp only
      split
      · exact ⟨hinp, rfl⟩
      · exact ih hinp

/-- Two reads that differ in the inputs of the module only. -/
structure SameRead (i : InputParser) (r q : ReadResult) : Prop where
  batch : SameBatch r.km.inp i
  km : q.km = KmState.holding r.km i
  yields : q.yields = r.yields
  outcome : q.outcome = r.outcome

theorem SameRead.after {r q : ReadResult} (h : SameRead i r q) {c d : CatCall}
    (hyields : d.yields = c.yields) : SameRead i (r.after c) (q.after d) where
  batch := h.batch
  km := h.km
  yields := by
    have hrest := h.yields
    unfold ReadResult.yields ReadResult.after at *
    dsimp only
    rw [List.flatMap_cons, List.flatMap_cons, hyields, hrest]
  outcome := h.outcome

theorem readLoop_holding (nReps nInputs : Nat) (archMode : Bool) (fuel : Nat) (inner : Bool)
    (c : Cursor) (h : SameBatch km.inp i) :
    SameRead i (readLoop sysfs envs nReps nInputs archMode fuel inner c km)
      (readLoop sysfs envs nReps nInputs archMode fuel inner c (KmState.holding km i)) := by
  induction fuel generalizing km inner c with
  | zero => exact ⟨h, rfl, rfl, rfl⟩
  | succ fuel ih =>
    obtain ⟨hinp, hcat⟩ := catTrace_holding sysfs (envs km.runs) h
    rw [readLoop, readLoop, show (KmState.holding km i).runs = km.runs from rfl, hcat]
    dsimp only
    split
    · exact ⟨h, rfl, rfl, rfl⟩
    · generalize catTrace sysfs (envs km.runs) km = r at hinp ⊢
      obtain ⟨km₁, text⟩ := r
      cases text with
      | none => exact ⟨hinp, rfl, rfl, rfl⟩
      | some text =>
        dsimp only
        generalize readLines nInputs archMode (splitText '\n' text)
          (if inner = true then c else ⟨c.rep, nInputs - 1⟩) = lines
        obtain ⟨ys, c', ends⟩ := lines
        cases ends with
        | more => exact (ih true c' hinp).after rfl
        | done =>
          dsimp only
          split
          · exact (ih false c' hinp).after rfl
          · exact ⟨hinp, rfl, rfl, rfl⟩
        | valueError => exact ⟨hinp, rfl, rfl, rfl⟩
        | rejected =>
          obtain ⟨hrewound, hrewind⟩ :=
            rewindKmOutputToEnd_holding sysfs envs fuel hinp
          dsimp only
          rw [hrewind]
          exact ⟨hrewound, rfl, rfl, rfl⟩

variable {sysfs envs} {a : Nat} {call : TraceCall a}

/-- A call whose transfer succeeds reads as it would with any inputs of that number. -/
theorem traceTestCase_holding_read (hread : ¬ (call.inputs = [] ∨ call.inputs.length ≤ call.ignored))
    (htransfer : transferInputs call.calls
        (saveInputSequenceAsRdbf (inputSequence call.inputs call.nReps)).length 0 km
        (saveInputSequenceAsRdbf (inputSequence call.inputs call.nReps)) =
      ({ km with inp := i, inputsReady := true }, .done))
    {t : InputParser} (hsame : SameBatch t i) {r : ReadResult}
    (hr : readTrace sysfs envs call.nReps call.inputs.length call.archMode call.fuel
      { km with inp := t, inputsReady := true } = r) {cells : Readings}
    (hstore : storeReadings call.inputs.length call.nReps r.yields (fun _ _ => none) = some cells) :
    (traceTestCase sysfs envs call km).km = KmState.holding r.km i ∧
      (traceTestCase sysfs envs call km).readings = cells ∧
      (traceTestCase sysfs envs call km).outcome = .read r.outcome := by
  have hheld : SameRead i r (readTrace sysfs envs call.nReps call.inputs.length call.archMode
      call.fuel { km with inp := i, inputsReady := true }) := by
    rw [← hr]
    unfold readTrace
    split
    · exact ⟨hsame, rfl, rfl, rfl⟩
    · exact readLoop_holding sysfs envs _ _ _ _ _ _
        (show SameBatch ({ km with inp := t, inputsReady := true } : KmState).inp i from hsame)
  unfold traceTestCase
  dsimp only
  rw [if_neg hread, htransfer]
  dsimp only
  rw [if_neg (by simp), hheld.yields, hstore]
  exact ⟨hheld.km, rfl, congrArg TraceEnd.read hheld.outcome⟩

end Holding

section Samples

/-- The module after the sample test case has been loaded. -/
def sampleTestCaseLoaded : KmState := (run watchStep sampleModule (sampleSession.take 5)).km

/-- An input for one actor in which every byte is the same. -/
def sampleInput (b : UInt8) : InputData 1 := ⟨List.replicate 12288 b, List.length_replicate⟩

/-- A call with one repetition; the writer always offers all that is left. -/
def sampleTraceCall (inputs : List (InputData 1)) : TraceCall 1 :=
  ⟨inputs, 1, 0, false, fun _ => ⟨2 ^ 20, sampleInputEnv, fun _ => 0⟩, 10⟩

theorem sampleTestCaseLoaded_serving : Serving 1 sampleTestCaseLoaded := by
  have hfields : sampleTestCaseLoaded.nextMeasurementId = -1 ∧
      sampleTestCaseLoaded.measurements.isSome = true ∧
      sampleTestCaseLoaded.oldNInputs = 0 ∧ sampleTestCaseLoaded.uarchResetRounds = 1 ∧
      tcParsingCompleted sampleTestCaseLoaded.tc = true ∧ sampleTestCaseLoaded.tc.nActors = 1 ∧
      sampleTestCaseLoaded.inp.highestNActors = 0 ∧
      sampleTestCaseLoaded.inp.isReceivingInputs = false := by decide +kernel
  obtain ⟨hnext, hpresent, hold, hwarm, htc, hactors, hhigh, hidle⟩ := hfields
  refine ⟨fun ms _ => ?_, hnext, by rw [hwarm]; decide, hpresent, htc, hactors, fun c _ _ => ?_, hidle⟩
  · rw [hold]
    exact Nat.zero_le _
  · rw [hhigh, Nat.zero_mul]
    exact Nat.zero_le _

/-- The processor of the sample session is in order for every batch. -/
theorem sampleTraceEnv_good (dbg : Bool) (w : Int) (n : Nat) :
    ExperimentGood sampleTraceEnv dbg w n := by
  refine ⟨⟨rfl, rfl, rfl, fun _ _ _ => ⟨_, _, rfl⟩, fun _ _ _ r st hex => ?_⟩, fun j _ => ?_, ?_⟩
  · cases hex
    rfl
  · cases dbg with
    | false => exact show (markValid ⟨1, Vector.replicate 5 0⟩).htrace ≠ 0 by decide
    | true => exact show (1 : UInt64) ≠ 0 by decide
  · apply pageSafe_of_short
    intro r hr
    obtain ⟨j, -, rfl⟩ := List.mem_map.mp hr
    cases dbg with
    | false => exact show (readingLine (markValid ⟨1, Vector.replicate 5 0⟩)).length ≤ 123 by decide
    | true => exact show (readingLine ⟨1, Vector.replicate 5 0⟩).length ≤ 123 by decide

theorem session_agrees_sample :
    AllSteps (fun km call => (traceTestCase id (fun _ => sampleTraceEnv) call km).km)
      (fun km call => Agrees (fun _ => sampleTraceEnv) km call
        (traceTestCase id (fun _ => sampleTraceEnv) call km))
      sampleTestCaseLoaded [sampleTraceCall [sampleInput 0, sampleInput 1]] := by
  refine session_agrees (fun _ _ => rfl) sampleTestCaseLoaded_serving ⟨?_, trivial⟩
  exact ⟨by simp [sampleTraceCall], by decide, by decide, by decide, by decide,
    fun _ => show 1 ≤ 2 ^ 20 by decide, ⟨rfl, rfl, rfl⟩,
    fun _ _ => sampleTraceEnv_good _ _ _, by decide⟩

/-- The first experiment is in order; in the second one a system management interrupt corrupts
the first measurement. -/
def sampleStale (x : Nat) : TraceEnv :=
  if x = 0 then ⟨fun _ => true, 0, 0, fun _ => .returned 0 ⟨5, Vector.replicate 5 0⟩ ⟨2, 0⟩⟩
  else ⟨fun _ => true, 0, 0, fun _ => .returned 0 ⟨1, Vector.replicate 5 0⟩ ⟨2, 1⟩⟩

/-- A module that holds two inputs. -/
def samplePair : InputParser :=
  { sampleTestCaseLoaded.inp with
    inputs := some ⟨1, 1, .allocated, .allocated⟩
    nInputs := 2
    isReceivingInputs := false }

/-- A call of `trace_test_case` reads as the module with `samplePair` does. -/
theorem sampleTraceCall_reads {inputs : List (InputData 1)} {km : KmState} (hlen : inputs.length = 2)
    (hroom : km.inp.RoomOk) (hidle : km.inp.isReceivingInputs = false) (hactors : km.tc.nActors = 1)
    {r : ReadResult} (hr : readTrace id sampleStale 1 2 false 10
      { km with inp := samplePair, inputsReady := true } = r) {cells : Readings}
    (hstore : storeReadings 2 1 r.yields (fun _ _ => none) = some cells) :
    ∃ i : InputParser, i.RoomOk ∧ i.isReceivingInputs = false ∧
      (traceTestCase id sampleStale (sampleTraceCall inputs) km).km = KmState.holding r.km i ∧
      (traceTestCase id sampleStale (sampleTraceCall inputs) km).readings = cells ∧
      (traceTestCase id sampleStale (sampleTraceCall inputs) km).outcome = .read r.outcome := by
  have hseq : inputSequence inputs 1 = inputs := if_pos (Or.inl (by decide))
  have hnum : (inputSequence inputs 1).length = 2 := by rw [hseq, hlen]
  have hmemory : BatchAllocates sampleInputEnv 1 2 := ⟨by decide, by decide, by decide⟩
  have hoffer : ∀ k, 1 ≤ ((sampleTraceCall inputs).calls k).offer := fun _ =>
    show 1 ≤ 2 ^ 20 by decide
  obtain ⟨i, htransfer, hholds⟩ := transferInputs_done
    (show 16 ≤ 2 ^ 20 from by decide) hoffer hroom hidle hactors
    (by rw [hnum]; exact hmemory) (by rw [hnum]; decide) (by rw [hnum]; decide)
    (by rw [hnum]; decide)
  have hsame : SameBatch samplePair i :=
    hholds.sameBatch (by decide +kernel) (by decide +kernel) (by rw [hnum]; rfl)
  have hread : ¬ ((sampleTraceCall inputs).inputs = [] ∨
      (sampleTraceCall inputs).inputs.length ≤ (sampleTraceCall inputs).ignored) := by
    rintro (hnil | hle)
    · rw [show inputs = [] from hnil] at hlen
      cases hlen
    · rw [show (sampleTraceCall inputs).inputs.length = 2 from hlen] at hle
      exact absurd hle (show ¬ 2 ≤ 0 by decide)
  refine ⟨i, hholds.room, hholds.idle, traceTestCase_holding_read hread htransfer hsame ?_ ?_⟩
  · rw [show (sampleTraceCall inputs).inputs.length = 2 from hlen]
    exact hr
  · rw [show (sampleTraceCall inputs).inputs.length = 2 from hlen]
    exact hstore

/-- The reads of two calls, the second one after the first. -/
def sampleReads (km : KmState) : ReadResult × ReadResult :=
  let first := readTrace id sampleStale 1 2 false 10 { km with inp := samplePair, inputsReady := true }
  (first, readTrace id sampleStale 1 2 false 10
    { first.km with inp := samplePair, inputsReady := true })

/-- The second call returns, for its second input, the reading of an input of the first call. -/
theorem sampleStale_disagrees :
    (traceTestCase id sampleStale (sampleTraceCall [sampleInput 2, sampleInput 3])
      (traceTestCase id sampleStale (sampleTraceCall [sampleInput 0, sampleInput 1])
        sampleTestCaseLoaded).km).outcome = .read .finished ∧
    ¬ Agrees sampleStale
      (traceTestCase id sampleStale (sampleTraceCall [sampleInput 0, sampleInput 1])
        sampleTestCaseLoaded).km
      (sampleTraceCall [sampleInput 2, sampleInput 3])
      (traceTestCase id sampleStale (sampleTraceCall [sampleInput 2, sampleInput 3])
        (traceTestCase id sampleStale (sampleTraceCall [sampleInput 0, sampleInput 1])
          sampleTestCaseLoaded).km) := by
  have hserving := sampleTestCaseLoaded_serving
  have hreads : (storeReadings 2 1 (sampleReads sampleTestCaseLoaded).1.yields
        (fun _ _ => none)).isSome = true ∧
      (sampleReads sampleTestCaseLoaded).1.km.tc.nActors = 1 ∧
      (sampleReads sampleTestCaseLoaded).1.km.runs = 1 ∧
      (sampleReads sampleTestCaseLoaded).1.km.dbgGprMode = false ∧
      (sampleReads sampleTestCaseLoaded).2.outcome = .finished ∧
      (storeReadings 2 1 (sampleReads sampleTestCaseLoaded).2.yields (fun _ _ => none)).map
        (fun cells => cells 1 0) = some (some [2 ^ 63 + 5, 0, 0, 0, 0, 0]) := by decide +kernel
  generalize sampleTestCaseLoaded = km₀ at hserving hreads ⊢
  obtain ⟨hsome, hactors, hruns, hdbg, hfinished, hcell⟩ := hreads
  obtain ⟨cells, hcells⟩ := Option.isSome_iff_exists.mp hsome
  obtain ⟨i, hroom, hidle, hkm, -, -⟩ := sampleTraceCall_reads
    (show [sampleInput 0, sampleInput 1].length = 2 from rfl) hserving.room hserving.idle
    hserving.actors rfl hcells
  rw [show (traceTestCase id sampleStale (sampleTraceCall [sampleInput 0, sampleInput 1]) km₀).km =
    KmState.holding (sampleReads km₀).1.km i from hkm]
  obtain ⟨cells', hcells', hstale⟩ := Option.map_eq_some_iff.mp hcell
  obtain ⟨i', -, -, -, hreadings, hend⟩ := sampleTraceCall_reads
    (show [sampleInput 2, sampleInput 3].length = 2 from rfl)
    (show (KmState.holding (sampleReads km₀).1.km i).inp.RoomOk from hroom) hidle hactors rfl hcells'
  have hend' := hend.trans (congrArg TraceEnd.read hfinished)
  have hstale' := (congrFun (congrFun hreadings 1) 0).trans hstale
  refine ⟨hend', fun h => ?_⟩
  obtain ⟨x, j, hx, -, -, -, -, hread⟩ := h.measured 1 0 (sampleInput 3) rfl (by decide)
  have hruns' : 1 ≤ x := hruns ▸ hx
  have henv : sampleStale x =
      ⟨fun _ => true, 0, 0, fun _ => .returned 0 ⟨1, Vector.replicate 5 0⟩ ⟨2, 1⟩⟩ :=
    if_neg (by omega)
  have hnormal : (KmState.holding (sampleReads km₀).1.km i).dbgGprMode = false := hdbg
  rw [hnormal, henv] at hread
  have hline := congrArg List.head? (Option.some.inj (hstale'.symm.trans hread))
  exact absurd hline (show some (2 ^ 63 + 5 : Int) ≠ some 1 by decide)

end Samples

end Rvzr.Executor
