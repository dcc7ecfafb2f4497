import Rvzr.Km.Sysfs
import Rvzr.Km.Recovery

/-!
# Which test cases become runnable

The handlers as a state machine: any order of writes to `test_case` and `inputs`, with
arbitrary bytes, and reads of `trace`. The flags `tc_ready` and `inputs_ready`, the `receiving`
flags of the parsers and the return codes are set on different exits. A `Ledger` records what
the interface was told, next to the state of the module, so that a run can be judged.
-/

namespace Rvzr.Km

open Rvzr.Lib

inductive Event where
  | testCaseStore (env : CallEnv) (prep : LoadEnv) (buf : WriteBuf)
  | inputsStore (env : InputEnv) (buf : WriteBuf)
  | traceShow (env : TraceEnv)

/-- How the latest write to a file ended. -/
inductive StoreOutcome where
  | never
  | more
  | loaded
  | failed
  deriving DecidableEq, Repr

structure Ledger where
  /-- whether the last completely received test case passed the final check -/
  lastParse : Option Bool
  testCase : StoreOutcome
  inputs : StoreOutcome
  /-- the number of actors of the current batch of inputs, if its header was accepted -/
  batchActors : Option Nat
  deriving DecidableEq, Repr

/-- The module and the ledger of the run so far. -/
structure Watched where
  km : KmState
  log : Ledger

def Watched.init (garbage : Mem) (r : Reading) : Watched :=
  ⟨KmState.init garbage r, ⟨none, .never, .never, none⟩⟩

/-- The return value of a completed parse says whether the final check passed. -/
def ParseResult.passed (r : ParseResult) : Bool := r.ret != -1

/-- A completed test case also has to get through the checks of the processor and the
preparation of the sandbox. -/
def testCaseOutcome (prep : LoadEnv) (r : ParseResult) : StoreOutcome :=
  if r.finished then
    if prep.compatErr = 0 ∧ prep.allocErr = 0 ∧ prep.loadErr = 0 then .loaded else .failed
  else if r.ret < 0 then .failed else .more

def inputsOutcome (r : ParseResult) : StoreOutcome :=
  if r.finished then .loaded else if r.ret < 0 then .failed else .more

/-- The batch that a write to `inputs` leaves. -/
def batchActorsAfter (w : Watched) (r : ParseResult) (buf : WriteBuf) : Option Nat :=
  if w.km.inp.isReceivingInputs then w.log.batchActors
  else if r.ret < 0 then none else some (buf.mem.word64 0)

def watchStep (w : Watched) : Event → Watched
  | .testCaseStore env prep buf =>
    let r := (parseTestCaseBuffer env w.km.tc buf).2
    ⟨(testCaseStore env prep w.km buf).1,
      { w.log with
        lastParse := if r.finished then some r.passed else w.log.lastParse
        testCase := testCaseOutcome prep r }⟩
  | .inputsStore env buf =>
    let r := (parseInputBuffer env w.km.tc.nActors w.km.inp buf).2
    ⟨(inputsStore env w.km buf).1,
      { w.log with
        inputs := inputsOutcome r
        batchActors := batchActorsAfter w r buf }⟩
  | .traceShow env => ⟨(traceShow env w.km).1, w.log⟩

section Frames

/-- `-1` is returned exactly when `__batch_tc_parsing_end` fails. -/
theorem finishParsing_passed (env : CallEnv) {s : TcParser} (k count : Nat)
    (h : s.nActors ≤ s.currSectionId) :
    (finishParsing env s k count).2.passed = true ↔
      (batchTcParsingEnd env { s with
        currSectionId := 0, currSectionStart := 0, currSectionEnd := 0,
        isReceivingTestCase := false }).2 = 0 := by
  unfold finishParsing
  rw [if_pos h]
  dsimp only
  cases hend : batchTcParsingEnd env { s with
    currSectionId := 0, currSectionStart := 0, currSectionEnd := 0,
    isReceivingTestCase := false } with
  | mk s' err =>
    by_cases herr : err = 0
    · subst herr
      unfold ParseResult.passed eio
      dsimp only
      by_cases hk : k = count
      · rw [if_pos hk]
        simp only [bne_iff_ne, ne_eq, iff_true]
        omega
      · simp [hk]
    · split
      · rename_i heq
        cases heq
        exact absurd rfl herr
      · simp [ParseResult.passed, herr]

/-- A test case that is not complete leaves the parser waiting for more, or was rejected. -/
theorem finishParsing_unfinished (env : CallEnv) {s : TcParser} (k count : Nat)
    (h : (finishParsing env s k count).2.finished = false) :
    (finishParsing env s k count).1.isReceivingTestCase = s.isReceivingTestCase := by
  unfold finishParsing at h ⊢
  split at h
  · exfalso
    dsimp only at h
    split at h
    · exact absurd h (by simp)
    · exact absurd h (by simp)
  · rename_i hlt
    rw [if_neg hlt]

theorem parse_unfinished (env : CallEnv) (s : TcParser) (buf : WriteBuf)
    (hfin : (parseTestCaseBuffer env s buf).2.finished = false)
    (hret : 0 ≤ (parseTestCaseBuffer env s buf).2.ret) :
    (parseTestCaseBuffer env s buf).1.isReceivingTestCase = true := by
  cases hrec : s.isReceivingTestCase with
  | false =>
    cases hstart : batchTcParsingStart env s buf with
    | mk s' ret =>
      rw [parse_header env buf hrec hstart] at hfin hret ⊢
      by_cases h16 : ret ≠ 16
      · rw [if_pos h16] at hret
        exact absurd (show (0 : Int) ≤ -1 from hret) (by decide)
      · rw [if_neg h16] at hfin ⊢
        exact finishParsing_unfinished _ _ _ hfin
  | true =>
    by_cases hp₁ : s.cursor < s.actorTableEnd
    · rw [parse_actorTable env buf hrec hp₁] at hfin ⊢
      exact (finishParsing_unfinished _ _ _ hfin).trans hrec
    by_cases hp₂ : s.cursor < s.symbolTableEnd
    · rw [parse_symbolTable env buf hrec hp₁ hp₂] at hfin ⊢
      exact (finishParsing_unfinished _ _ _ hfin).trans hrec
    by_cases hp₃ : s.cursor < s.metadataEnd
    · rw [parse_metadata env buf hrec hp₁ hp₂ hp₃] at hfin ⊢
      exact (finishParsing_unfinished _ _ _ hfin).trans hrec
    by_cases hsize : maxSectionSize < s.sectionSize s.currSectionId
    · rw [parse_oversize env buf hrec ⟨hp₁, hp₂, hp₃⟩ hsize] at hret
      exact absurd (show (0 : Int) ≤ -1 from hret) (by decide)
    · rw [parse_section env buf hrec ⟨hp₁, hp₂, hp₃⟩ hsize] at hfin ⊢
      rw [finishParsing_unfinished _ _ _ hfin, copySection_isReceivingTestCase,
        TcParser.enterSections_isReceivingTestCase, hrec]

/-- The same for a batch of inputs. -/
theorem finishInputs_unfinished {s : InputParser} (k : Nat)
    (h : (finishInputs s k).2.finished = false) :
    (finishInputs s k).1.isReceivingInputs = s.isReceivingInputs := by
  unfold finishInputs at h ⊢
  dsimp only at h ⊢
  split at h
  · exact absurd h (by simp)
  · rename_i hlt
    rw [if_neg hlt]

theorem parseInputBuffer_unfinished (env : InputEnv) (nActors : Nat) (s : InputParser)
    (buf : WriteBuf) (hfin : (parseInputBuffer env nActors s buf).2.finished = false)
    (hret : 0 ≤ (parseInputBuffer env nActors s buf).2.ret) :
    (parseInputBuffer env nActors s buf).1.isReceivingInputs = true := by
  unfold parseInputBuffer at hfin hret ⊢
  dsimp only at hfin hret ⊢
  split at hret
  · rename_i hrec
    rw [if_pos hrec] at hfin ⊢
    split at hret
    · exact absurd (show (0 : Int) ≤ -1 from hret) (by decide)
    · rename_i hpos
      rw [if_neg hpos] at hfin ⊢
      exact finishInputs_unfinished _ hfin
  · rename_i hrec
    have hrec' : s.isReceivingInputs = true := by simpa using hrec
    rw [if_neg hrec] at hfin ⊢
    split at hret
    · rename_i hphase
      rw [if_pos hphase] at hfin ⊢
      exact (finishInputs_unfinished _ hfin).trans hrec'
    · rename_i hphase
      rw [if_neg hphase] at hfin ⊢
      exact (finishInputs_unfinished _ hfin).trans hrec'

/-- A read of `trace` changes neither the parsers nor the flags. -/
structure SameInterface (km km' : KmState) : Prop where
  tc : km'.tc = km.tc
  inp : km'.inp = km.inp
  tcReady : km'.tcReady = km.tcReady
  inputsReady : km'.inputsReady = km.inputsReady

theorem SameInterface.trans {a b c : KmState} (h : SameInterface a b) (h' : SameInterface b c) :
    SameInterface a c :=
  ⟨h'.tc.trans h.tc, h'.inp.trans h.inp, h'.tcReady.trans h.tcReady,
    h'.inputsReady.trans h.inputsReady⟩

theorem setNext_same (km : KmState) (n : Int) : SameInterface km (km.setNext n) :=
  ⟨rfl, rfl, rfl, rfl⟩

theorem allocMeasurements_same (env : TraceEnv) (km : KmState) :
    SameInterface km (allocMeasurements env km).1 := by
  unfold allocMeasurements
  split
  · exact ⟨rfl, rfl, rfl, rfl⟩
  · dsimp only
    split
    · exact ⟨rfl, rfl, rfl, rfl⟩
    · exact ⟨rfl, rfl, rfl, rfl⟩

theorem traceTestCase_same (env : TraceEnv) (km : KmState) :
    SameInterface km (traceTestCase env km).1 := by
  have halloc := allocMeasurements_same env { km with runs := km.runs + 1 }
  unfold traceTestCase
  cases hr : allocMeasurements env { km with runs := km.runs + 1 } with
  | mk km' err =>
    rw [hr] at halloc
    have hkm : SameInterface km km' := ⟨halloc.tc, halloc.inp, halloc.tcReady, halloc.inputsReady⟩
    refine hkm.trans ?_
    dsimp only
    split
    · exact ⟨rfl, rfl, rfl, rfl⟩
    split
    · exact ⟨rfl, rfl, rfl, rfl⟩
    split
    · exact ⟨rfl, rfl, rfl, rfl⟩
    · exact ⟨rfl, rfl, rfl, rfl⟩

theorem startMeasurement_same (env : TraceEnv) (km : KmState) :
    SameInterface km (startMeasurement env km).1 := by
  have htrace := traceTestCase_same env km
  unfold startMeasurement
  split
  · cases hr : traceTestCase env km with
    | mk km' err =>
      rw [hr] at htrace
      dsimp only at htrace ⊢
      split
      · exact htrace
      · exact htrace.trans (setNext_same km' _)
  · exact ⟨rfl, rfl, rfl, rfl⟩

theorem printResults_same (km : KmState) : SameInterface km (printResults km).1 := by
  unfold printResults
  split
  · exact ⟨rfl, rfl, rfl, rfl⟩
  · exact setNext_same km _

theorem traceShow_same (env : TraceEnv) (km : KmState) :
    SameInterface km (traceShow env km).1 := by
  unfold traceShow
  split
  · exact ⟨rfl, rfl, rfl, rfl⟩
  split
  · exact ⟨rfl, rfl, rfl, rfl⟩
  split
  · exact ⟨rfl, rfl, rfl, rfl⟩
  have hstart := startMeasurement_same env { km with unfinishedCall := true }
  cases hs : startMeasurement env { km with unfinishedCall := true } with
  | mk km₁ err =>
    rw [hs] at hstart
    have hkm : SameInterface km km₁ := ⟨hstart.tc, hstart.inp, hstart.tcReady, hstart.inputsReady⟩
    refine hkm.trans ?_
    dsimp only
    split
    · exact ⟨rfl, rfl, rfl, rfl⟩
    · have hprint := printResults_same { km₁ with unfinishedCall := false }
      exact ⟨hprint.tc, hprint.inp, hprint.tcReady, hprint.inputsReady⟩

end Frames

/-- The final check of a test case that this write completes succeeds. -/
def CompletesValid (env : CallEnv) (s : TcParser) (buf : WriteBuf) : Prop :=
  (parseTestCaseBuffer env s buf).2.finished = true →
    (parseTestCaseBuffer env s buf).2.passed = true

/-- A file was written at least once, and the latest write to it did not fail. -/
def StoreOutcome.Usable (o : StoreOutcome) : Prop := o ≠ .never ∧ o ≠ .failed

/-- What the user of the interface has to respect. -/
def Disciplined (w : Watched) : Event → Prop
  | .testCaseStore env _ buf => CompletesValid env w.km.tc buf
  | .inputsStore _ _ => True
  | .traceShow _ => StartsMeasurement w.km → w.log.testCase.Usable ∧ w.log.inputs.Usable

/-- Only a validated test case is marked as ready. -/
def ReadyOnlyValid (w : Watched) : Prop := w.km.tcReady = true → w.log.lastParse = some true

/-- A measurement starts only with a test case and inputs that are ready, and those are the ones
that were written last. -/
def StartsReady (w : Watched) : Event → Prop
  | .traceShow _ => StartsMeasurement w.km →
    (w.km.tcReady = true ∧ w.log.testCase = .loaded) ∧
      w.km.inputsReady = true ∧ w.log.inputs = .loaded
  | _ => True

/-- The flags and the `receiving` states agree with the ledger. -/
structure FlagsAgree (w : Watched) : Prop where
  valid : ReadyOnlyValid w
  testCaseLoaded : w.log.testCase = .loaded → w.km.tcReady = true
  testCaseMore : w.log.testCase = .more → w.km.tc.isReceivingTestCase = true
  inputsLoaded : w.log.inputs = .loaded → w.km.inputsReady = true
  inputsMore : w.log.inputs = .more → w.km.inp.isReceivingInputs = true

theorem flagsAgree_init (garbage : Mem) (r : Reading) : FlagsAgree (Watched.init garbage r) where
  valid h := absurd h (by simp [Watched.init, KmState.init])
  testCaseLoaded h := absurd h (by simp [Watched.init])
  testCaseMore h := absurd h (by simp [Watched.init])
  inputsLoaded h := absurd h (by simp [Watched.init])
  inputsMore h := absurd h (by simp [Watched.init])

section Steps

variable {w : Watched}

/-- What a write to `test_case` sets, by its outcome. -/
theorem testCaseStore_flags (env : CallEnv) (prep : LoadEnv) (km : KmState) (buf : WriteBuf) :
    (testCaseStore env prep km buf).1.tc = (parseTestCaseBuffer env km.tc buf).1 ∧
      (testCaseStore env prep km buf).1.inp = km.inp ∧
      (testCaseStore env prep km buf).1.inputsReady = km.inputsReady ∧
      ((testCaseStore env prep km buf).1.tcReady = true ↔
        testCaseOutcome prep (parseTestCaseBuffer env km.tc buf).2 = .loaded) := by
  unfold testCaseStore testCaseOutcome
  dsimp only
  cases hr : parseTestCaseBuffer env km.tc buf with
  | mk tc r =>
    dsimp only
    cases hfin : r.finished with
    | false =>
      rw [if_pos rfl]
      refine ⟨rfl, rfl, rfl, ?_⟩
      by_cases hneg : r.ret < 0 <;> simp [hneg]
    | true =>
      rw [if_neg (by simp)]
      by_cases hc : prep.compatErr = 0
      · by_cases ha : prep.allocErr = 0
        · by_cases hl : prep.loadErr = 0
          · simp [hc, ha, hl, KmState.setNext]
          · simp [hc, ha, hl]
        · simp [hc, ha]
      · simp [hc]

theorem FlagsAgree.testCaseStore (h : FlagsAgree w) (env : CallEnv) (prep : LoadEnv)
    (buf : WriteBuf) (hvalid : CompletesValid env w.km.tc buf) :
    FlagsAgree (watchStep w (.testCaseStore env prep buf)) := by
  obtain ⟨htc, hinp, hin, hready⟩ := testCaseStore_flags env prep w.km buf
  have hloaded : testCaseOutcome prep (parseTestCaseBuffer env w.km.tc buf).2 = .loaded →
      (parseTestCaseBuffer env w.km.tc buf).2.finished = true := by
    intro ho
    by_contra hf
    unfold testCaseOutcome at ho
    rw [if_neg hf] at ho
    split at ho <;> exact absurd ho (by simp)
  refine ⟨fun hr => ?_, fun ho => hready.mpr ho, fun ho => ?_, fun ho => ?_, fun ho => ?_⟩
  · have hfin := hloaded (hready.mp hr)
    show (if (parseTestCaseBuffer env w.km.tc buf).2.finished then _ else _) = some true
    rw [if_pos hfin, hvalid hfin]
  · have ho' : testCaseOutcome prep (parseTestCaseBuffer env w.km.tc buf).2 = .more := ho
    show (Rvzr.Km.testCaseStore env prep w.km buf).1.tc.isReceivingTestCase = true
    rw [htc]
    unfold testCaseOutcome at ho'
    split at ho'
    · split at ho' <;> exact absurd ho' (by simp)
    · rename_i hfin
      split at ho'
      · exact absurd ho' (by simp)
      · rename_i hneg
        exact parse_unfinished _ _ _ (by simpa using hfin) (Int.not_lt.mp hneg)
  · show (Rvzr.Km.testCaseStore env prep w.km buf).1.inputsReady = true
    rw [hin]
    exact h.inputsLoaded ho
  · show (Rvzr.Km.testCaseStore env prep w.km buf).1.inp.isReceivingInputs = true
    rw [hinp]
    exact h.inputsMore ho

theorem FlagsAgree.inputsStore (h : FlagsAgree w) (env : InputEnv) (buf : WriteBuf) :
    FlagsAgree (watchStep w (.inputsStore env buf)) := by
  have hkm : (Rvzr.Km.inputsStore env w.km buf).1 = { w.km with
      inp := (parseInputBuffer env w.km.tc.nActors w.km.inp buf).1
      inputsReady := (parseInputBuffer env w.km.tc.nActors w.km.inp buf).2.finished } := rfl
  refine ⟨h.valid, h.testCaseLoaded, h.testCaseMore, fun ho => ?_, fun ho => ?_⟩
  · have ho' : inputsOutcome (parseInputBuffer env w.km.tc.nActors w.km.inp buf).2 = .loaded := ho
    show (Rvzr.Km.inputsStore env w.km buf).1.inputsReady = true
    rw [hkm]
    unfold inputsOutcome at ho'
    by_contra hfin
    rw [if_neg hfin] at ho'
    split at ho' <;> exact absurd ho' (by simp)
  · have ho' : inputsOutcome (parseInputBuffer env w.km.tc.nActors w.km.inp buf).2 = .more := ho
    show (Rvzr.Km.inputsStore env w.km buf).1.inp.isReceivingInputs = true
    rw [hkm]
    unfold inputsOutcome at ho'
    split at ho'
    · exact absurd ho' (by simp)
    · rename_i hfin
      split at ho'
      · exact absurd ho' (by simp)
      · rename_i hneg
        exact parseInputBuffer_unfinished _ _ _ _ (by simpa using hfin) (Int.not_lt.mp hneg)

theorem FlagsAgree.traceShow (h : FlagsAgree w) (env : TraceEnv) :
    FlagsAgree (watchStep w (.traceShow env)) := by
  have hs := traceShow_same env w.km
  refine ⟨fun hr => h.valid ?_, fun ho => ?_, fun ho => ?_, fun ho => ?_, fun ho => ?_⟩
  · exact hs.tcReady.symm.trans hr
  · exact hs.tcReady.trans (h.testCaseLoaded ho)
  · exact (congrArg TcParser.isReceivingTestCase hs.tc).trans (h.testCaseMore ho)
  · exact hs.inputsReady.trans (h.inputsLoaded ho)
  · exact (congrArg InputParser.isReceivingInputs hs.inp).trans (h.inputsMore ho)

theorem FlagsAgree.step (h : FlagsAgree w) (e : Event) (he : Disciplined w e) :
    FlagsAgree (watchStep w e) := by
  cases e with
  | testCaseStore env prep buf => exact h.testCaseStore env prep buf he
  | inputsStore env buf => exact h.inputsStore env buf
  | traceShow env => exact h.traceShow env

/-- The `receiving` flags that `trace_show` asks for exclude a test case or a batch that is
only half received; a failed one they do not exclude. -/
theorem FlagsAgree.startsReady (h : FlagsAgree w) (e : Event) (he : Disciplined w e) :
    StartsReady w e := by
  cases e with
  | testCaseStore env prep buf => exact trivial
  | inputsStore env buf => exact trivial
  | traceShow env =>
    intro hstart
    obtain ⟨htc, hin⟩ := he hstart
    obtain ⟨-, hinputs, htest, -⟩ := hstart
    constructor
    · cases ho : w.log.testCase with
      | never => exact absurd ho htc.1
      | more => simp [tcParsingCompleted, h.testCaseMore ho] at htest
      | loaded => exact ⟨h.testCaseLoaded ho, rfl⟩
      | failed => exact absurd ho htc.2
    · cases ho : w.log.inputs with
      | never => exact absurd ho hin.1
      | more => simp [inputParsingCompleted, h.inputsMore ho] at hinputs
      | loaded => exact ⟨h.inputsLoaded ho, rfl⟩
      | failed => exact absurd ho hin.2

end Steps

/-- In every disciplined run only validated test cases are ready, at every step and at the end,
and measurements start only when both flags are set. -/
theorem disciplined_runnable (garbage : Mem) (r : Reading) {es : List Event}
    (h : AllSteps watchStep Disciplined (Watched.init garbage r) es) :
    ReadyOnlyValid (run watchStep (Watched.init garbage r) es) ∧
      AllSteps watchStep (fun w e => ReadyOnlyValid w ∧ StartsReady w e)
        (Watched.init garbage r) es := by
  have hstep : ∀ w e, FlagsAgree w → Disciplined w e → FlagsAgree (watchStep w e) :=
    fun _ e hw he => hw.step e he
  refine ⟨(AllSteps.run_inv hstep h (flagsAgree_init garbage r)).valid, ?_⟩
  refine AllSteps.imp hstep ?_ h (flagsAgree_init garbage r)
  intro w e hw he
  exact ⟨hw.valid, hw.startsReady e he⟩

section Samples

/-- No checks of the processor fail. -/
def sampleLoad : LoadEnv := ⟨0, 0, 0⟩

/-- A write to `test_case`. -/
def sampleStore (bs : List UInt8) : Event := .testCaseStore sampleEnv sampleLoad ⟨bs, fun _ => 0⟩

/-- A kernel in which a fresh `input_batch_t` is zeroed. -/
def sampleInputEnv : InputEnv :=
  ⟨fun n => n ≤ 2 ^ 22, fun _ => true, fun _ => 0, ⟨0, 0, .null, .null⟩⟩

/-- A processor on which every execution ends with the same measurement. -/
def sampleTraceEnv : TraceEnv :=
  ⟨fun _ => true, 0, 0, fun _ => .returned 0 ⟨1, Vector.replicate 5 0⟩ ⟨2, 0⟩⟩

/-- A freshly loaded module. -/
def sampleModule : Watched := Watched.init (fun _ => 0) Reading.zero

/-- A write to `inputs`. -/
def sampleInputs (bs : List UInt8) : Event := .inputsStore sampleInputEnv ⟨bs, fun _ => 0⟩

/-- A batch with one input for one actor, in pages. -/
def sampleBatch : List Event :=
  [sampleInputs (encodeWords [1, 1]), sampleInputs (encodeWords [8192, 0]),
    sampleInputs (List.replicate 4096 0), sampleInputs (List.replicate 4096 0),
    sampleInputs (List.replicate 4096 0)]

/-- The sample test case, a batch, and a read of `trace`. -/
def sampleSession : List Event :=
  [sampleStore (sampleImage.bytes.take 16), sampleStore ((sampleImage.bytes.drop 16).take 48),
    sampleStore ((sampleImage.bytes.drop 64).take 96),
    sampleStore ((sampleImage.bytes.drop 160).take 24), sampleStore (sampleImage.bytes.drop 184)] ++
    sampleBatch ++ [.traceShow sampleTraceEnv]

/-- The module before the read, and after it. -/
theorem sampleSession_states :
    (run watchStep sampleModule (sampleSession.take 10)).log.testCase = .loaded ∧
      (run watchStep sampleModule (sampleSession.take 10)).log.inputs = .loaded ∧
      StartsMeasurement (run watchStep sampleModule (sampleSession.take 10)).km ∧
      (run watchStep sampleModule sampleSession).km.tcReady = true := by decide +kernel

theorem sampleSession_disciplined : AllSteps watchStep Disciplined sampleModule sampleSession := by
  refine ⟨?_, ?_, ?_, ?_, ?_, trivial, trivial, trivial, trivial, trivial, ?_, trivial⟩
  · exact fun h => absurd h (by decide +kernel)
  · exact fun h => absurd h (by decide +kernel)
  · exact fun h => absurd h (by decide +kernel)
  · exact fun h => absurd h (by decide +kernel)
  · exact fun _ => by decide +kernel
  · obtain ⟨htestCase, hinputs, -, -⟩ := sampleSession_states
    intro _
    change (run watchStep sampleModule (sampleSession.take 10)).log.testCase.Usable ∧
      (run watchStep sampleModule (sampleSession.take 10)).log.inputs.Usable
    rw [htestCase, hinputs]
    exact ⟨⟨by simp, by simp⟩, by simp, by simp⟩

/-- The last step of the session starts a measurement. -/
theorem disciplined_runnable_sample :
    StartsMeasurement (run watchStep sampleModule (sampleSession.take 10)).km ∧
      (run watchStep sampleModule sampleSession).km.tcReady = true ∧
      ReadyOnlyValid (run watchStep sampleModule sampleSession) ∧
      AllSteps watchStep (fun w e => ReadyOnlyValid w ∧ StartsReady w e) sampleModule
        sampleSession :=
  ⟨sampleSession_states.2.2.1, sampleSession_states.2.2.2,
    disciplined_runnable _ _ sampleSession_disciplined⟩

/-- One actor, no symbols, one byte of code: the final check misses the measurement macros. -/
def sampleUnvalidated : List Event :=
  [sampleStore (encodeWords [1, 0]), sampleStore (encodeWords [0, 0, 0, 0, 0, 0]),
    sampleStore (encodeWords [0, 1, 0]), sampleStore [0x90]]

/-- A test case that fails the final check is ready, and `trace_show` starts to measure even
when nothing was ever loaded. -/
theorem sampleUnvalidated_ready :
    ¬ ReadyOnlyValid (run watchStep sampleModule sampleUnvalidated) ∧
      ¬ StartsReady sampleModule (.traceShow sampleTraceEnv) := by
  refine ⟨fun h => ?_, fun h => ?_⟩
  · exact absurd (h (by decide +kernel)) (by decide +kernel)
  · exact absurd (h (by decide +kernel)).1.1 (by decide +kernel)

end Samples

end Rvzr.Km
