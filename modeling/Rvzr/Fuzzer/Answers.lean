import Rvzr.Fuzzer.Round

/-!
# What the log of a round holds

The traces and taints that a round records are what the model and the executor answered, asked
after the events before. The results that speak of recorded answers speak of the components.
-/

namespace Rvzr.Fuzzer

open Rvzr.Lib Rvzr.Analyser

variable {ι θ τ κ : Type} (env : Env ι θ τ κ)

/-- An event after `log` that holds an answer holds the one that the component gave there. -/
def Event.Answered (log : List (Event ι θ τ)) : Event ι θ τ → Prop
  | .traced inputs nesting cs => cs = env.traceTestCase log inputs nesting
  | .tainted inputs nesting taints => taints = (env.traceTestCaseWithTaints log inputs nesting).2
  | .measured inputs new =>
    ∃ ignoreList nReps, tracesAfter env ignoreList log inputs nReps = some new
  | _ => True

/-- Every event of the log is answered after the events before it. -/
def Answered (log : List (Event ι θ τ)) : Prop :=
  ∀ before e after, log = before ++ e :: after → e.Answered env before

variable {env}

theorem answered_nil : Answered env [] := by
  intro before e after h
  simp at h

theorem Answered.snoc {log : List (Event ι θ τ)} {e : Event ι θ τ} (h : Answered env log)
    (he : e.Answered env log) : Answered env (log ++ [e]) := by
  intro before e' after heq
  rcases List.eq_nil_or_concat after with rfl | ⟨after', last, rfl⟩
  · obtain ⟨rfl, hlast⟩ := List.append_inj' heq rfl
    cases hlast
    exact he
  · rw [List.concat_eq_append, ← List.cons_append, ← List.append_assoc] at heq
    exact h before e' after' (List.append_inj' heq rfl).1

/-! ### Commands that record nothing else -/

variable (env)

def Records {α : Type} (x : RoundM ι θ τ κ α) : Prop :=
  Triple (fun s => Answered env s.log) x (fun _ s => Answered env s.log)
    (fun _ s => Answered env s.log)

variable {env}

theorem Records.pure {α : Type} (a : α) : Records env (Pure.pure a) := Triple.pure fun _ h => h

theorem Records.bind {α β : Type} {x : RoundM ι θ τ κ α} {f : α → RoundM ι θ τ κ β}
    (hx : Records env x) (hf : ∀ a, Records env (f a)) : Records env (x >>= f) :=
  Triple.bind hx hf

theorem Records.get_bind {β : Type} {f : RoundManager ι θ τ κ → RoundM ι θ τ κ β}
    (h : ∀ s, Records env (f s)) : Records env (get >>= f) :=
  Triple.get_bind fun s hs => Triple.start (h s) hs

theorem Records.ite {α : Type} {c : Prop} [Decidable c] {x y : RoundM ι θ τ κ α}
    (hx : Records env x) (hy : Records env y) : Records env (if c then x else y) :=
  Triple.ite (fun _ => hx) fun _ => hy

theorem Records.update {f : RoundManager ι θ τ κ → RoundManager ι θ τ κ}
    (h : ∀ s, (f s).log = s.log) : Records env (modify f) :=
  Triple.modify fun s hs => by rwa [h s]

theorem Records.record {f : RoundManager ι θ τ κ → RoundManager ι θ τ κ}
    {e : RoundManager ι θ τ κ → Event ι θ τ} (h : ∀ s, (f s).log = s.log ++ [e s])
    (he : ∀ s, (e s).Answered env s.log) : Records env (modify f) :=
  Triple.modify fun s hs => by
    rw [h s]
    exact hs.snoc (he s)

theorem Records.require {α : Type} (e : RoundError) (o : Option α) :
    Records env (require e o) :=
  (require_triple fun _ h => h).conseq (fun _ h => h) (fun _ _ h => h.2) fun _ _ h => h

theorem Records.pyAssert (c : Prop) [Decidable c] : Records env (pyAssert c) :=
  (pyAssert_triple fun _ h => h).conseq (fun _ h => h) (fun _ _ h => h.2) fun _ _ h => h

theorem boostInputs_records : Records env (boostInputs env) := by
  refine Triple.get_bind fun s hs => ?_
  refine Triple.ite (fun _ => ?_) fun _ => ?_
  · refine Triple.modify fun t ht => ?_
    rw [ht]
    show Answered env (s.log ++ [_, _])
    rw [List.append_cons]
    refine (hs.snoc ?_).snoc ?_
    · rfl
    · trivial
  · refine Triple.bind (R := fun _ t => Answered env t.log) ?_ fun _ => ?_
    · refine Triple.modify fun t ht => ?_
      rw [ht]
      exact hs.snoc rfl
    · refine (Records.require _ _).bind fun boosted => ?_
      exact Records.record (fun _ => rfl) fun _ => trivial

theorem collectCtraces_records : Records env (collectCtraces env) := by
  refine Triple.get_bind fun s hs => ?_
  refine Triple.ite (fun _ => (Records.pyAssert _).start hs) fun _ => ?_
  refine Triple.ite (fun _ => (Records.update fun _ => rfl).start hs) fun _ => ?_
  refine Triple.modify fun t ht => ?_
  rw [ht]
  exact hs.snoc rfl

theorem collectHtraces_records : Records env (collectHtraces env) := by
  refine Triple.get_bind fun s hs => ?_
  refine Triple.bind ((executorTraceTestCase_answer env s.boostedInputs s.conf.executorNReps).conseq
    (fun _ h => h) (fun _ _ h => h) fun _ t ht => ht ▸ hs) fun new => ?_
  refine Triple.bind (R := fun _ t => Answered env t.log) ?_ fun _ => ?_
  · refine Triple.modify fun t ht => ?_
    obtain ⟨rfl, hnew⟩ := ht
    exact hs.snoc ⟨_, _, hnew⟩
  · refine Records.ite ((Records.pyAssert _).bind fun _ => ?_) ?_
    · exact Records.update fun _ => rfl
    · exact Records.update fun _ => rfl

theorem checkViolations_records : Records env (checkViolations env) := by
  refine Records.get_bind fun s => (Records.pyAssert _).bind fun _ => ?_
  refine (Records.require _ _).bind fun answer => ?_
  exact Triple.modify fun t ht => ht.snoc trivial

theorem updateIgnoreList_records : Records env updateIgnoreList := by
  refine Records.get_bind fun s => Records.ite ?_ (Records.pure ())
  exact Records.record (fun _ => rfl) fun _ => trivial

theorem tryCollectHtraces_records : Records env (tryCollectHtraces env) := by
  refine Triple.tryCatch (collectHtraces_records.bind fun _ => Records.pure true) fun e => ?_
  cases e with
  | ioError => exact Records.bind (Records.update fun _ => rfl) fun _ => Records.pure false
  | assertionError => exact Triple.throw fun _ h => h
  | indexError => exact Triple.throw fun _ h => h
  | valueError => exact Triple.throw fun _ h => h
  | analyserError => exact Triple.throw fun _ h => h

theorem normalStage_records : Records env (normalStage env) := by
  refine boostInputs_records.bind fun _ => collectCtraces_records.bind fun _ => ?_
  refine tryCollectHtraces_records.bind fun collected => Records.get_bind fun s => ?_
  refine Records.ite (checkViolations_records.bind fun _ => ?_) (Records.pure ())
  exact Records.get_bind fun t => Records.ite (Records.pure ()) updateIgnoreList_records

/-! ### The stages -/

theorem comparePrimed_records (new : HTrace) (current : TraceBundle ι) :
    Records env (comparePrimed env new current) := by
  refine Records.ite (Records.pure _) ?_
  refine Records.bind (Records.get_bind fun s => ?_) fun _ => Records.pure _
  refine (Records.require _ _).bind fun answer => ?_
  exact Records.bind (Records.update fun _ => rfl) fun _ => Records.pure _

theorem primeOne_records (v : Violation ι τ) (nReps : Int) (current other : TraceBundle ι) :
    Records env (primeOne env v nReps current other) := by
  refine Records.get_bind fun s => (Records.require _ _).bind fun primer => ?_
  refine Records.bind (executorTraceTestCase_frame env primer nReps) fun htraces => ?_
  refine (Records.require _ _).bind fun new => ?_
  refine (comparePrimed_records new current).bind fun result => ?_
  exact Records.bind (Records.record (fun _ => rfl) fun _ => trivial) fun _ => Records.pure result

theorem primeInputs_records (v : Violation ι τ) (nReps : Int) (current : TraceBundle ι)
    (others : List (TraceBundle ι)) : Records env (primeInputs env v nReps current others) := by
  induction others with
  | nil => exact Records.pure _
  | cons other others ih =>
    refine (primeOne_records v nReps current other).bind fun result => ?_
    cases result with
    | reproduced => exact ih
    | notReproduced => exact Records.pure _
    | tracingError => exact Records.pure _

theorem primeMeasurements_records (v : Violation ι τ) (nReps : Int)
    (ms currents : List (TraceBundle ι)) :
    Records env (primeMeasurements env v nReps ms currents) := by
  induction currents with
  | nil => exact Records.pure _
  | cons current currents ih =>
    refine (primeInputs_records v nReps current _).bind fun result => ?_
    cases result with
    | reproduced => exact ih
    | notReproduced => exact Records.pure _
    | tracingError => exact Records.pure _

theorem primingCheck_records : Records env (primingCheck env) := by
  refine Records.get_bind fun s => ?_
  cases s.violations.getLast? with
  | none => exact Records.pure ()
  | some violation =>
    refine Records.bind (Records.update fun _ => rfl) fun _ => ?_
    refine (Records.require _ _).bind fun first => (Records.require _ _).bind fun ms => ?_
    refine (primeMeasurements_records violation _ ms ms).bind fun result => ?_
    cases result with
    | notReproduced => exact Records.record (fun _ => rfl) fun _ => trivial
    | reproduced => exact Records.update fun _ => rfl
    | tracingError => exact Records.update fun _ => rfl

theorem checkForArchitecturalMismatch_records :
    Records env (checkForArchitecturalMismatch env) := by
  refine Records.bind (Records.update fun s => ?_) fun _ => Records.get_bind fun s => ?_
  · split
    · rfl
    · rfl
  · cases env.archReadTrace s.log s.boostedInputs with
    | none => exact Triple.modify fun t ht => ht.snoc trivial
    | some readings =>
      exact (Records.require _ _).bind fun found => Triple.modify fun t ht => ht.snoc trivial

theorem noiseLoop_records (sampleSizes : List Nat) : Records env (noiseLoop env sampleSizes) := by
  induction sampleSizes with
  | nil => exact Records.pure ()
  | cons sampleSize sampleSizes ih =>
    refine Records.get_bind fun s => (Records.require _ _).bind fun first => ?_
    refine Records.bind (Triple.modify fun t ht => ht.snoc trivial) fun _ => ?_
    refine normalStage_records.bind fun _ => Records.get_bind fun t => ?_
    exact Records.ite (Records.pure ()) ih

theorem normalStageWhen_records (cond : RoundState → Bool) (change : RoundState → RoundState) :
    Records env (normalStageWhen env cond change) := by
  refine Records.get_bind fun s => Records.ite ?_ (Records.pure ())
  exact Records.bind (Records.update fun _ => rfl) fun _ => normalStage_records

theorem executeStage_records (stage : RoundStage) : Records env (executeStage env stage) := by
  refine Records.bind (Records.record (fun _ => rfl) fun _ => trivial) fun _ => ?_
  cases stage with
  | fast =>
    refine Records.get_bind fun s => (Records.pyAssert _).bind fun _ => ?_
    exact normalStage_records.bind fun _ => Records.update fun _ => rfl
  | nesting => exact (normalStageWhen_records _ _).bind fun _ => Records.update fun _ => rfl
  | taintMistake =>
    refine (normalStageWhen_records _ _).bind fun _ => Records.get_bind fun s => ?_
    exact (Records.pyAssert _).bind fun _ => Records.update fun _ => rfl
  | priming => exact Records.get_bind fun s => Records.ite primingCheck_records (Records.pure ())
  | noise =>
    refine Records.ite (Records.pure ()) ?_
    exact Records.bind (Records.update fun _ => rfl) fun _ => noiseLoop_records _
  | primingLarge =>
    refine Records.get_bind fun s => Records.ite (Records.pure ()) ?_
    refine (Records.require _ _).bind fun last => ?_
    exact Records.bind (Records.update fun _ => rfl) fun _ => primingCheck_records
  | archMismatch => exact checkForArchitecturalMismatch_records

theorem runStages_records (stages : List RoundStage) : Records env (runStages env stages) := by
  induction stages with
  | nil =>
    refine (executeStage_records .archMismatch).bind fun _ => Records.get_bind fun s => ?_
    exact Records.ite (Records.pure _) (Records.pure _)
  | cons stage stages ih =>
    refine (executeStage_records stage).bind fun _ => Records.get_bind fun s => ?_
    exact Records.ite (Records.pure _) ih

/-- After a round, however it ends, every recorded trace and taint is what the model or the executor
answered after the events before it. -/
theorem fuzzingRound_answered {inputs : List ι} {startingIgnoreList : List Nat} {st : κ}
    {s : RoundManager ι θ τ κ} (hnew : newRound env inputs startingIgnoreList st = some s) :
    Triple (fun t => t = s) (fuzzingRound env) (fun _ t => Answered env t.log)
      (fun _ t => Answered env t.log) := by
  obtain ⟨-, n, rfl⟩ := newRound_eq env hnew
  exact (runStages_records _).start answered_nil

end Rvzr.Fuzzer
