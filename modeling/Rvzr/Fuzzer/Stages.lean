import Rvzr.Fuzzer.Round

/-!
# What a normal stage does

`_normal_stage` as a relation between the state before it and the state after it, put together
from the relations of its parts. The results about rounds use only these relations.
-/

namespace Rvzr.Fuzzer

open Rvzr.Lib Rvzr.Analyser

variable {ι θ τ κ : Type} (env : Env ι θ τ κ) {s₀ : RoundManager ι θ τ κ}

/-- The events of a stage other than its analysis. -/
def Event.Quiet : Event ι θ τ → Prop
  | .extending _ _ _ => False
  | .analysed _ _ _ _ _ _ => False
  | .ignored _ => False
  | _ => True

/-- Nothing was analysed or ignored since `s₀`. -/
def Quieter (s₀ s : RoundManager ι θ τ κ) : Prop :=
  s.ignoreList = s₀.ignoreList ∧ ∃ evs, s.log = s₀.log ++ evs ∧ ∀ e ∈ evs, e.Quiet

theorem Quieter.refl (s : RoundManager ι θ τ κ) : Quieter s s :=
  ⟨rfl, [], (List.append_nil _).symm, by simp⟩

theorem Quieter.trans {s₀ s₁ s₂ : RoundManager ι θ τ κ} (h : Quieter s₀ s₁) (h' : Quieter s₁ s₂) :
    Quieter s₀ s₂ := by
  obtain ⟨hign, evs, hlog, hevs⟩ := h
  obtain ⟨hign', evs', hlog', hevs'⟩ := h'
  refine ⟨hign'.trans hign, evs ++ evs', by rw [hlog', hlog, List.append_assoc], ?_⟩
  intro e he
  exact (List.mem_append.mp he).elim (hevs e) (hevs' e)

/-- The list that `_boost_inputs` makes, and what it records. -/
inductive Boosts (s : RoundManager ι θ τ κ) : List ι → List (Event ι θ τ) → Prop
  | plain {cs : List CTrace} (h : env.conf.inputsPerClass = 1) :
      Boosts s s.orgInputs [.traced s.orgInputs s.conf.modelNesting cs, .boosted s.orgInputs]
  | tainted {taints : List θ} {inputs : List ι} (h : env.conf.inputsPerClass ≠ 1)
      (hboost : generateBoosted env.dataGen s.orgInputs taints env.conf.inputsPerClass =
        some inputs) :
      Boosts s inputs [.tainted s.orgInputs s.conf.modelNesting taints, .boosted inputs]

def Boosted (s₀ s : RoundManager ι θ τ κ) : Prop :=
  ∃ inputs evs cs, Boosts env s₀ inputs evs ∧
    s = { s₀ with nonBoostedCtraces := cs, boostedInputs := inputs, log := s₀.log ++ evs }

/-- The contract traces that `_collect_ctraces` leaves, and what it records. -/
inductive Collects (s : RoundManager ι θ τ κ) : List CTrace → List (Event ι θ τ) → Prop
  | reused (h : s.conf.reuseCtraces = true) (hlen : s.ctraces.length = s.boostedInputs.length) :
      Collects s s.ctraces []
  | fast (h : s.conf.reuseCtraces = false) (hfast : s.conf.enableFastContractTracing = true) :
      Collects s (List.replicate env.conf.inputsPerClass s.nonBoostedCtraces).flatten []
  | traced {cs : List CTrace} (h : s.conf.reuseCtraces = false)
      (hfast : s.conf.enableFastContractTracing = false) :
      Collects s cs [.traced s.boostedInputs s.conf.modelNesting cs]

def CTraced (s₀ s : RoundManager ι θ τ κ) : Prop :=
  ∃ cs evs, Collects env s₀ cs evs ∧ s = { s₀ with ctraces := cs, log := s₀.log ++ evs }

/-- The traces that the executor returns for `nInputs` inputs. -/
inductive Measures (ignoreList : Finset Nat) (nInputs : Nat) (nReps : Int) : List HTrace → Prop
  | noInputs (h : nInputs = 0) : Measures ignoreList nInputs nReps []
  | allIgnored (h : nInputs ≤ ignoreList.card) :
      Measures ignoreList nInputs nReps (List.replicate nInputs emptyTrace)
  | read {readings : Nat → Nat → RawHTraceSample} (hreps : 0 ≤ nReps) :
      Measures ignoreList nInputs nReps
        (rawReadingsToTraces env.conf.tscMode ignoreList nInputs nReps.toNat readings)

def HTraced (s₀ s : RoundManager ι θ τ κ) : Prop :=
  ∃ new, Measures env s₀.ignoreList s₀.boostedInputs.length s₀.conf.executorNReps new ∧
    (s₀.conf.extendHtraces = true → s₀.htraces.length = new.length) ∧
    s = { s₀ with
          htraces := if s₀.conf.extendHtraces then List.zipWith merge new s₀.htraces else new
          log := s₀.log ++ [.measured s₀.boostedInputs new] }

def Analysed (s₀ s : RoundManager ι θ τ κ) : Prop :=
  ∃ vs st, (env.analyser.filterViolations s₀.ctraces s₀.htraces env.testCase s₀.boostedInputs).run
      s₀.analyserState = some (vs, st) ∧ s₀.ctraces.length = s₀.htraces.length ∧
    s = { s₀ with
          violations := vs
          analyserState := st
          log := s₀.log ++ [.analysed s₀.ctraces s₀.htraces s₀.boostedInputs s₀.ignoreList
            s₀.sampleSize vs] }

/-- The inputs without a violation. -/
def nonViolatingIds (s : RoundManager ι θ τ κ) : List Nat :=
  (List.range s.boostedInputs.length).filter fun i => i ∉ violatingIds s.violations

/-- The state after `_update_ignore_list`. -/
def ignoreUpdated (s : RoundManager ι θ τ κ) : RoundManager ι θ τ κ :=
  if s.conf.updateIgnoreList then
    { s with
      ignoreList := s.ignoreList ∪ (nonViolatingIds s).toFinset
      log := s.log ++ [.ignored (nonViolatingIds s)] }
  else s

/-- The ways in which a stage ends after its contract traces have been collected. -/
inductive StageEnd (s : RoundManager ι θ τ κ) : RoundManager ι θ τ κ → Prop
  | ioError : StageEnd s { s with violations := [] }
  | noInputs {s₁ : RoundManager ι θ τ κ} (h : HTraced env s s₁) (horg : s.orgInputs = []) :
      StageEnd s s₁
  | clean {s₁ s₂ : RoundManager ι θ τ κ} (h : HTraced env s s₁) (hanalysed : Analysed env s₁ s₂)
      (hnone : s₂.violations = []) : StageEnd s s₂
  | found {s₁ s₂ : RoundManager ι θ τ κ} (h : HTraced env s s₁) (hanalysed : Analysed env s₁ s₂)
      (horg : s.orgInputs ≠ []) (hsome : s₂.violations ≠ []) : StageEnd s (ignoreUpdated s₂)

/-- What `_normal_stage` does. -/
def NormalStage (s₀ s : RoundManager ι θ τ κ) : Prop :=
  ∃ s₁ s₂, Boosted env s₀ s₁ ∧ CTraced env s₁ s₂ ∧ StageEnd env s₂ s

theorem boostInputs_boosted :
    Triple (fun s => s = s₀) (boostInputs env) (fun _ s => Boosted env s₀ s)
      (fun _ s => Quieter s₀ s) := by
  refine Triple.get_bind fun s hs => ?_
  subst hs
  refine Triple.ite (fun hone => ?_) fun hone => ?_
  · exact Triple.modify fun t ht => by
      rw [ht]
      exact ⟨_, _, _, .plain hone, rfl⟩
  · refine Triple.bind (R := fun _ t => t = s.note (.tainted s.orgInputs s.conf.modelNesting
      (env.traceTestCaseWithTaints s.log s.orgInputs s.conf.modelNesting).2)) ?_ fun _ => ?_
    · exact Triple.modify fun t ht => by rw [ht]
    refine Triple.bind (require_triple fun t ht => ?_) fun inputs => ?_
    · rw [ht]
      refine ⟨rfl, _, rfl, ?_⟩
      intro e he
      rw [List.mem_singleton.mp he]
      trivial
    · refine Triple.modify fun t ht => ?_
      rw [ht.2]
      refine ⟨inputs, _, (env.traceTestCaseWithTaints s.log s.orgInputs s.conf.modelNesting).1,
        .tainted hone ht.1, ?_⟩
      simp [RoundManager.note]

theorem collectCtraces_cTraced :
    Triple (fun s => s = s₀) (collectCtraces env) (fun _ s => CTraced env s₀ s)
      (fun _ s => Quieter s₀ s) := by
  refine Triple.get_bind fun s hs => ?_
  subst hs
  refine Triple.ite (fun hreuse => ?_) fun hreuse => ?_
  · refine (pyAssert_triple fun t ht => ?_).conseq (fun _ h => h) (fun _ t ht => ?_) fun _ _ h => h
    · rw [ht]
      exact Quieter.refl s
    · rw [ht.2]
      exact ⟨_, _, .reused hreuse ht.1, by rw [List.append_nil]⟩
  · rw [Bool.not_eq_true] at hreuse
    refine Triple.ite (fun hfast => ?_) fun hfast => ?_
    · refine Triple.modify fun t ht => ?_
      rw [ht]
      exact ⟨_, _, .fast hreuse hfast, by rw [List.append_nil]⟩
    · rw [Bool.not_eq_true] at hfast
      refine Triple.modify fun t ht => ?_
      rw [ht]
      exact ⟨_, _, .traced hreuse hfast, rfl⟩

/-- The traces that the executor returns. -/
theorem executorTraceTestCase_measures (inputs : List ι) (nReps : Int) :
    Triple (fun s => s = s₀) (executorTraceTestCase env inputs nReps)
      (fun new s => s = s₀ ∧ Measures env s₀.ignoreList inputs.length nReps new)
      (fun _ s => s = s₀) := by
  refine Triple.get_bind fun s hs => ?_
  subst hs
  refine Triple.ite (fun hnone => Triple.pure fun t ht => ⟨ht, .noInputs hnone⟩) fun _ => ?_
  refine Triple.ite (fun hall => Triple.pure fun t ht => ⟨ht, .allIgnored hall⟩) fun _ => ?_
  refine Triple.ite (fun _ => Triple.throw fun t ht => ht) fun hneg => ?_
  cases env.readTrace s.log inputs nReps with
  | none => exact Triple.throw fun t ht => ht
  | some readings => exact Triple.pure fun t ht => ⟨ht, .read (by omega)⟩

theorem measured_quieter (s : RoundManager ι θ τ κ) (inputs : List ι) (new : List HTrace) :
    Quieter s (s.note (.measured inputs new)) := by
  refine ⟨rfl, _, rfl, ?_⟩
  intro e he
  rw [List.mem_singleton.mp he]
  trivial

/-- The measurement of a stage. Only the executor raises an `IOError`, before anything changes. -/
theorem collectHtraces_hTraced :
    Triple (fun s => s = s₀) (collectHtraces env) (fun _ s => HTraced env s₀ s)
      (fun e s => Quieter s₀ s ∧ (e = .ioError → s = s₀)) := by
  refine Triple.get_bind fun s hs => ?_
  subst hs
  refine Triple.bind (R := fun new t => t = s ∧
    Measures env s.ignoreList s.boostedInputs.length s.conf.executorNReps new) ?_ fun new => ?_
  · refine (executorTraceTestCase_measures env s.boostedInputs s.conf.executorNReps).conseq
      (fun _ h => h) (fun _ _ h => h) fun _ t ht => ?_
    rw [ht]
    exact ⟨Quieter.refl s, fun _ => rfl⟩
  refine Triple.bind (R := fun _ t => t = s.note (.measured s.boostedInputs new) ∧
    Measures env s.ignoreList s.boostedInputs.length s.conf.executorNReps new) ?_ fun _ => ?_
  · refine Triple.modify fun t ht => ?_
    rw [ht.1]
    exact ⟨rfl, ht.2⟩
  refine Triple.ite (fun hext => ?_) fun hext => ?_
  · refine Triple.bind (pyAssert_triple fun t ht => ?_) fun _ => ?_
    · rw [ht.1]
      exact ⟨measured_quieter s _ _, fun h => absurd h (by decide)⟩
    · refine Triple.modify fun t ht => ⟨new, ht.2.2, fun _ => ht.1, ?_⟩
      rw [ht.2.1, if_pos hext]
      rfl
  · refine Triple.modify fun t ht => ⟨new, ht.2, fun h => absurd h hext, ?_⟩
    rw [ht.1, if_neg hext]
    rfl

theorem tryCollectHtraces_hTraced :
    Triple (fun s => s = s₀) (tryCollectHtraces env)
      (fun collected s => (collected = true → HTraced env s₀ s) ∧
        (collected = false → s = { s₀ with violations := [] }))
      (fun _ s => Quieter s₀ s) := by
  refine Triple.tryCatch (F := fun e s => Quieter s₀ s ∧ (e = .ioError → s = s₀)) ?_ fun e => ?_
  · exact Triple.bind (collectHtraces_hTraced env) fun _ =>
      Triple.pure fun t ht => ⟨fun _ => ht, fun h => absurd h (by decide)⟩
  · cases e with
    | ioError =>
      refine Triple.bind (R := fun _ t => t = { s₀ with violations := [] }) ?_
        fun _ => Triple.pure fun t ht => ⟨fun h => absurd h (by decide), fun _ => ht⟩
      exact Triple.modify fun t ht => by rw [ht.2 rfl]
    | assertionError => exact Triple.throw fun t ht => ht.1
    | indexError => exact Triple.throw fun t ht => ht.1
    | valueError => exact Triple.throw fun t ht => ht.1
    | analyserError => exact Triple.throw fun t ht => ht.1

theorem checkViolations_analysed :
    Triple (fun s => s = s₀) (checkViolations env) (fun _ s => Analysed env s₀ s)
      (fun _ s => s = s₀) := by
  refine Triple.get_bind fun s hs => ?_
  subst hs
  refine Triple.bind (pyAssert_triple fun t ht => ht) fun _ => ?_
  refine Triple.bind (require_triple fun t ht => ht.2) fun answer => ?_
  refine Triple.modify fun t ht => ⟨answer.1, answer.2, ht.1, ht.2.1.2, ?_⟩
  rw [ht.2.2]

theorem updateIgnoreList_updated {E : RoundError → RoundManager ι θ τ κ → Prop} :
    Triple (fun s => s = s₀) updateIgnoreList (fun _ s => s = ignoreUpdated s₀) E := by
  refine Triple.get_bind fun s hs => ?_
  subst hs
  refine Triple.ite (fun hon => ?_) fun hoff => ?_
  · refine Triple.modify fun t ht => ?_
    rw [ht, ignoreUpdated, if_pos hon]
    rfl
  · refine Triple.pure fun t ht => ?_
    rw [ht, ignoreUpdated, if_neg hoff]

theorem HTraced.quieter {s₁ s₂ : RoundManager ι θ τ κ} (h : HTraced env s₁ s₂) :
    Quieter s₁ s₂ := by
  obtain ⟨new, -, -, rfl⟩ := h
  exact measured_quieter s₁ _ _

theorem Boosted.quieter {s₁ s₂ : RoundManager ι θ τ κ} (h : Boosted env s₁ s₂) :
    Quieter s₁ s₂ := by
  obtain ⟨inputs, evs, cs, hboosts, rfl⟩ := h
  refine ⟨rfl, evs, rfl, ?_⟩
  cases hboosts with
  | plain _ => simp [Event.Quiet]
  | tainted _ _ => simp [Event.Quiet]

theorem CTraced.quieter {s₁ s₂ : RoundManager ι θ τ κ} (h : CTraced env s₁ s₂) :
    Quieter s₁ s₂ := by
  obtain ⟨cs, evs, hcollects, rfl⟩ := h
  refine ⟨rfl, evs, rfl, ?_⟩
  cases hcollects with
  | reused _ _ => simp
  | fast _ _ => simp
  | traced _ _ => simp [Event.Quiet]

theorem CTraced.orgInputs {s₁ s₂ : RoundManager ι θ τ κ} (h : CTraced env s₁ s₂) :
    s₂.orgInputs = s₁.orgInputs := by
  obtain ⟨cs, evs, -, rfl⟩ := h
  rfl

/-- What a normal stage does; an exception other than the handled one leaves nothing analysed. -/
theorem normalStage_spec (s₀ : RoundManager ι θ τ κ) :
    Triple (fun s => s = s₀) (normalStage env) (fun _ s => NormalStage env s₀ s)
      (fun _ s => Quieter s₀ s) := by
  refine Triple.bind (boostInputs_boosted env) fun _ => ?_
  refine fun s₁ hboost => (?_ : Triple (fun s => s = s₁) _ _ _) s₁ rfl
  refine Triple.bind ((collectCtraces_cTraced env).conseq (fun _ h => h) (fun _ _ h => h)
    fun _ t ht => (hboost.quieter env).trans ht) fun _ => ?_
  refine fun s₂ hct => (?_ : Triple (fun s => s = s₂) _ _ _) s₂ rfl
  have hquiet : Quieter s₀ s₂ := (hboost.quieter env).trans (hct.quieter env)
  have hstage : ∀ {t}, StageEnd env s₂ t → NormalStage env s₀ t := fun h =>
    ⟨s₁, s₂, hboost, hct, h⟩
  refine Triple.bind ((tryCollectHtraces_hTraced env).conseq (fun _ h => h) (fun _ _ h => h)
    fun _ t ht => hquiet.trans ht) fun collected => ?_
  refine fun s₃ hht => (?_ : Triple (fun s => s = s₃) _ _ _) s₃ rfl
  refine Triple.get_bind fun t ht => ?_
  subst ht
  cases collected with
  | false =>
    have hfail : t = { s₂ with violations := [] } := hht.2 rfl
    refine Triple.ite (fun h => absurd h.1 (by decide)) fun _ => Triple.pure fun u hu => ?_
    rw [hu, hfail]
    exact hstage .ioError
  | true =>
    have hht : HTraced env s₂ t := hht.1 rfl
    have horg : t.orgInputs = s₂.orgInputs := by
      obtain ⟨new, -, -, rfl⟩ := hht
      rfl
    refine Triple.ite (fun hpos => ?_) fun hpos => ?_
    · refine Triple.bind ((checkViolations_analysed env).conseq (fun _ h => h) (fun _ _ h => h)
        fun _ u hu => hu ▸ hquiet.trans (hht.quieter env)) fun _ => ?_
      refine fun s₄ han => (?_ : Triple (fun s => s = s₄) _ _ _) s₄ rfl
      refine Triple.get_bind fun u hu => ?_
      subst hu
      refine Triple.ite (fun hnone => ?_) fun hsome => ?_
      · refine Triple.pure fun w hw => ?_
        rw [hw]
        exact hstage (.clean hht han (by simpa using hnone))
      · refine updateIgnoreList_updated.conseq (fun _ h => h) (fun _ w hw => ?_) fun _ _ h => h
        rw [hw]
        have hinputs : s₂.orgInputs ≠ [] := by
          rw [← horg]
          exact List.ne_nil_of_length_pos hpos.2
        exact hstage (.found hht han hinputs (by simpa using hsome))
    · refine Triple.pure fun u hu => ?_
      rw [hu]
      refine hstage (.noInputs hht ?_)
      rw [← horg]
      simpa using hpos

/-- A stage of the round and the stages after it, which run only while a violation is left. -/
theorem runStages_cons {P Q : RoundManager ι θ τ κ → Prop}
    {R : Option (Violation ι τ) → RoundManager ι θ τ κ → Prop}
    {E : RoundError → RoundManager ι θ τ κ → Prop} {stage : RoundStage} {stages : List RoundStage}
    (hstage : Triple P (executeStage env stage) (fun _ s => Q s) E)
    (hnone : ∀ s, Q s → R none s)
    (hrest : Triple (fun s => Q s ∧ s.violations ≠ []) (runStages env stages) R E) :
    Triple P (runStages env (stage :: stages)) R E := by
  refine Triple.bind hstage fun _ => Triple.get_bind fun s hs => ?_
  refine Triple.ite (fun _ => Triple.pure fun t ht => ht ▸ hnone s hs) fun hne => ?_
  refine hrest.conseq (fun t ht => ?_) (fun _ _ h => h) fun _ _ h => h
  rw [ht]
  exact ⟨hs, by simpa using hne⟩

end Rvzr.Fuzzer
