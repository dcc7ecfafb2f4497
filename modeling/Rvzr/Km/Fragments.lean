import Rvzr.Km.Readiness

/-!
# Input accesses stay inside the batch

`get_input_fragment_unsafe` multiplies with the number of actors, which belongs to the test
case parser, while the batch was laid out and its buffers were allocated with the number that
the header of the inputs declared. The two agree when a measurement starts as long as no
header was rejected and no other test case was loaded since the batch was accepted.
-/

namespace Rvzr.Km

open Rvzr.Lib

/-- The fragment at `index` lies in the data buffer and was completely received. -/
structure FragmentOk (inp : InputParser) (index : Nat) : Prop where
  pointer : inp.batch.data = .allocated
  allocated : ∃ c, inp.allocatedData = some c ∧ inputFragmentSize * (index + 1) ≤ c
  received : ∀ p, inputFragmentSize * index ≤ p → p < inputFragmentSize * (index + 1) →
    inp.stored p = true

/-- Every access of a measurement is to such a fragment. -/
def AccessesOk (km : KmState) : Prop :=
  ∀ inputId actorId, inputId < km.inp.nInputs → actorId < km.tc.nActors →
    FragmentOk km.inp (fragmentIndex km.tc.nActors inputId actorId)

/-- The measurements that a read of `trace` starts only access received fragments. -/
def StartsInBounds (w : Watched) : Event → Prop
  | .traceShow _ => StartsMeasurement w.km → AccessesOk w.km
  | _ => True

/-- No batch whose size wraps is accepted, and measurements start with no batch at all or with
one for the number of actors of the loaded test case. -/
def BatchMatches (w : Watched) : Event → Prop
  | .testCaseStore _ _ _ => True
  | .inputsStore _ buf => w.km.inp.isReceivingInputs = false →
      ¬ WrappingBatch w.km.tc.nActors buf
  | .traceShow _ => StartsMeasurement w.km →
      w.km.inp.nInputs = 0 ∨ w.log.batchActors = some w.km.tc.nActors

/-- The ledger knows the batch that the parser holds. -/
structure BatchKnown (w : Watched) : Prop where
  room : w.km.inp.RoomOk
  batch : ∀ a, w.log.batchActors = some a → BatchOf a w.km.inp
  receiving : w.km.inp.isReceivingInputs = true → w.log.batchActors.isSome = true

theorem batchKnown_init (garbage : Mem) (r : Reading) : BatchKnown (Watched.init garbage r) where
  room c _ _ := by
    show inputFragmentSize * (0 * 0) ≤ c
    omega
  batch _ h := absurd h (by simp [Watched.init])
  receiving h := absurd h (by simp [Watched.init, KmState.init, InputParser.init])

/-- The fragments of a complete batch, by the arithmetic of the module. -/
theorem BatchOf.fragmentOk {a : Nat} {s : InputParser} (h : BatchOf a s)
    (hdone : s.isReceivingInputs = false) {inputId actorId : Nat} (hi : inputId < s.nInputs)
    (ha : actorId < a) : FragmentOk s (fragmentIndex a inputId actorId) := by
  have hfits := h.fits
  have hlt : inputId * a + actorId + 1 ≤ a * s.nInputs := by
    calc inputId * a + actorId + 1 ≤ inputId * a + a := by omega
      _ = a * (inputId + 1) := by rw [Nat.mul_comm, Nat.mul_succ]
      _ ≤ a * s.nInputs := Nat.mul_le_mul_left a hi
  have hbytes : inputFragmentSize * (inputId * a + actorId + 1) ≤
      inputFragmentSize * (a * s.nInputs) := Nat.mul_le_mul_left _ hlt
  have hidx : fragmentIndex a inputId actorId = inputId * a + actorId := by
    unfold batchBytes inputFragmentSize at hfits
    unfold fragmentIndex
    rw [mul64_of_lt (by omega), add64_of_lt (by omega)]
  obtain ⟨c, hc, hroom⟩ := h.room
  rw [hidx]
  refine ⟨?_, ⟨c, hc, Nat.le_trans hbytes hroom⟩, fun p _ hp => ?_⟩
  · unfold InputParser.batch
    rw [h.inputs]
    rfl
  · exact h.complete hdone p (Nat.lt_of_lt_of_le hp hbytes)

section Steps

variable {w : Watched}

theorem BatchKnown.inputsStore (h : BatchKnown w) (env : InputEnv) (buf : WriteBuf)
    (hwrap : w.km.inp.isReceivingInputs = false → ¬ WrappingBatch w.km.tc.nActors buf) :
    BatchKnown (watchStep w (.inputsStore env buf)) := by
  have hinp : (watchStep w (.inputsStore env buf)).km.inp =
      (parseInputBuffer env w.km.tc.nActors w.km.inp buf).1 := rfl
  have hlog : (watchStep w (.inputsStore env buf)).log.batchActors =
      batchActorsAfter w (parseInputBuffer env w.km.tc.nActors w.km.inp buf).2 buf := rfl
  cases hrec : w.km.inp.isReceivingInputs with
  | false =>
    have hafter : batchActorsAfter w (parseInputBuffer env w.km.tc.nActors w.km.inp buf).2 buf =
        if (parseInputBuffer env w.km.tc.nActors w.km.inp buf).2.ret < 0 then none
        else some (buf.mem.word64 0) := by
      unfold batchActorsAfter
      rw [if_neg (by simp [hrec])]
    rw [hafter] at hlog
    cases parseInputBuffer_header env w.km.tc.nActors h.room buf hrec (hwrap hrec) with
    | rejected hret _ hroom _ hrec' =>
      rw [if_pos hret] at hlog
      refine ⟨hinp ▸ hroom, fun a ha => ?_, fun hr => ?_⟩
      · rw [hlog] at ha
        exact absurd ha (by simp)
      · rw [hinp, hrec'] at hr
        exact absurd hr (by simp)
    | accepted hret hroom hact _ hbatch _ =>
      rw [if_neg (by omega), hact] at hlog
      refine ⟨hinp ▸ hroom, fun a ha => ?_, fun _ => ?_⟩
      · rw [hlog] at ha
        cases ha
        rw [hinp]
        exact hbatch
      · rw [hlog]
        rfl
  | true =>
    have hafter : batchActorsAfter w (parseInputBuffer env w.km.tc.nActors w.km.inp buf).2 buf =
        w.log.batchActors := by
      unfold batchActorsAfter
      rw [if_pos hrec]
    rw [hafter] at hlog
    have hmore := fun a ha => parseInputBuffer_more (h.batch a ha) h.room hrec env w.km.tc.nActors buf
    obtain ⟨a, ha⟩ := Option.isSome_iff_exists.mp (h.receiving hrec)
    refine ⟨hinp ▸ (hmore a ha).2.1, fun b hb => ?_, fun _ => ?_⟩
    · rw [hlog] at hb
      rw [hinp]
      exact (hmore b hb).1
    · rw [hlog, ha]
      rfl

theorem BatchKnown.step (h : BatchKnown w) (e : Event) (he : BatchMatches w e) :
    BatchKnown (watchStep w e) := by
  cases e with
  | testCaseStore env prep buf =>
    have hinp : (watchStep w (.testCaseStore env prep buf)).km.inp = w.km.inp :=
      (testCaseStore_flags env prep w.km buf).2.1
    exact ⟨hinp ▸ h.room, fun a ha => hinp ▸ h.batch a ha, fun hr => h.receiving (hinp ▸ hr)⟩
  | inputsStore env buf => exact h.inputsStore env buf he
  | traceShow env =>
    have hinp : (watchStep w (.traceShow env)).km.inp = w.km.inp := (traceShow_same env w.km).inp
    exact ⟨hinp ▸ h.room, fun a ha => hinp ▸ h.batch a ha, fun hr => h.receiving (hinp ▸ hr)⟩

theorem BatchKnown.startsInBounds (h : BatchKnown w) (e : Event) (he : BatchMatches w e) :
    StartsInBounds w e := by
  cases e with
  | testCaseStore env prep buf => exact trivial
  | inputsStore env buf => exact trivial
  | traceShow env =>
    intro hstart inputId actorId hi ha
    have hdone : w.km.inp.isReceivingInputs = false := by
      simpa [inputParsingCompleted] using hstart.2.1
    cases he hstart with
    | inl hzero => omega
    | inr hbatch => exact (h.batch _ hbatch).fragmentOk hdone hi ha

end Steps

/-- Along every run in which no batch wraps and the batch fits the test case whenever a
measurement starts, all accesses of the measurements are to received fragments. -/
theorem batchMatches_accessesOk (garbage : Mem) (r : Reading) {es : List Event}
    (h : AllSteps watchStep BatchMatches (Watched.init garbage r) es) :
    AllSteps watchStep StartsInBounds (Watched.init garbage r) es :=
  AllSteps.imp (fun _ e hw he => BatchKnown.step hw e he)
    (fun _ e hw he => BatchKnown.startsInBounds hw e he) h (batchKnown_init garbage r)

section Samples

/-- A valid test case with two actors, each with one byte of code. -/
def sampleTwoActors : List Event :=
  [sampleStore (encodeWords [2, 3]), sampleStore (encodeWords (List.replicate 12 0)),
    sampleStore (encodeWords [0, 0, 0, 0, 0, 0, 1, 0, 0, 0, 2, 0]),
    sampleStore (encodeWords [0, 1, 0, 1, 1, 0]), sampleStore [0x90], sampleStore [0x90]]

theorem sampleBatch_matches : AllSteps watchStep BatchMatches sampleModule
    (sampleBatch ++ [.traceShow sampleTraceEnv]) := by
  refine ⟨?_, ?_, ?_, ?_, ?_, ?_, trivial⟩
  · exact fun _ h => absurd h.2.2 (by decide +kernel)
  · exact fun h => absurd h (by decide +kernel)
  · exact fun h => absurd h (by decide +kernel)
  · exact fun h => absurd h (by decide +kernel)
  · exact fun h => absurd h (by decide +kernel)
  · exact fun _ => by decide +kernel

theorem batchMatches_accessesOk_sample :
    StartsMeasurement (run watchStep sampleModule sampleBatch).km ∧
      AllSteps watchStep StartsInBounds sampleModule
        (sampleBatch ++ [.traceShow sampleTraceEnv]) :=
  ⟨by decide +kernel, batchMatches_accessesOk _ _ sampleBatch_matches⟩

/-- With a test case for two actors after the batch for one, the module is ready and starts to
measure, and the fragment of the second actor lies behind the buffer. -/
theorem sampleTwoActors_outOfBounds :
    StartsMeasurement (run watchStep sampleModule (sampleBatch ++ sampleTwoActors)).km ∧
      (run watchStep sampleModule (sampleBatch ++ sampleTwoActors)).km.tcReady = true ∧
      (run watchStep sampleModule (sampleBatch ++ sampleTwoActors)).km.inputsReady = true ∧
      ¬ AccessesOk (run watchStep sampleModule (sampleBatch ++ sampleTwoActors)).km := by
  have hstate : StartsMeasurement (run watchStep sampleModule (sampleBatch ++ sampleTwoActors)).km ∧
      (run watchStep sampleModule (sampleBatch ++ sampleTwoActors)).km.tcReady = true ∧
      (run watchStep sampleModule (sampleBatch ++ sampleTwoActors)).km.inputsReady = true ∧
      (run watchStep sampleModule (sampleBatch ++ sampleTwoActors)).km.inp.nInputs = 1 ∧
      (run watchStep sampleModule (sampleBatch ++ sampleTwoActors)).km.tc.nActors = 2 ∧
      (run watchStep sampleModule (sampleBatch ++ sampleTwoActors)).km.inp.allocatedData =
        some inputFragmentSize := by decide +kernel
  obtain ⟨hstart, htc, hin, hn, ha, hcap⟩ := hstate
  refine ⟨hstart, htc, hin, fun h => ?_⟩
  obtain ⟨c, hc, hle⟩ := (h 0 1 (by omega) (by omega)).allocated
  rw [ha, show fragmentIndex 2 0 1 = 1 from by decide] at hle
  rw [hcap] at hc
  cases hc
  exact absurd hle (by decide)

end Samples

end Rvzr.Km
