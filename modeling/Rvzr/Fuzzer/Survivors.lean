import Rvzr.Fuzzer.IgnoreList

/-!
# Violations that a round reports

What is known of a violation that `fuzzing_round` returns: it comes from the last analysis of the
round, made from the contract traces at maximum nesting and the hardware traces of one list of
boosted inputs, and every enabled stage kept a violation. The list of boosted inputs is made again
in every stage (`reuse_boosts` is set and never read), so this holds exactly when the model answers
with taints that boost alike.
-/

namespace Rvzr.Fuzzer

open Rvzr.Lib Rvzr.Analyser

variable {ι θ τ κ : Type}

/-- The list that an event made the list of boosted inputs. -/
def Event.boostedList : Event ι θ τ → Option (List ι)
  | .boosted inputs => some inputs
  | _ => none

def boostedLists (log : List (Event ι θ τ)) : List (List ι) := log.filterMap Event.boostedList

/-- The stage that begins with an event. -/
def Event.begins : Event ι θ τ → Option RoundStage
  | .stage st => some st
  | _ => none

def Event.isAnalysis : Event ι θ τ → Bool
  | .analysed _ _ _ _ _ _ => true
  | _ => false

/-- The log up to a stage, and from that stage on. -/
def logBefore (stage : RoundStage) (log : List (Event ι θ τ)) : List (Event ι θ τ) :=
  log.takeWhile fun e => e.begins ≠ some stage

def logFrom (stage : RoundStage) (log : List (Event ι θ τ)) : List (Event ι θ τ) :=
  log.dropWhile fun e => e.begins ≠ some stage

/-- A hardware trace that was put together from measurements of place `i` of the list `inputs`. -/
inductive Gathered (log : List (Event ι θ τ)) (inputs : List ι) (i : Nat) : HTrace → Prop
  | measured {new : List HTrace} {t : HTrace} (h : .measured inputs new ∈ log)
      (ht : new[i]? = some t) : Gathered log inputs i t
  | merged {new : List HTrace} {t old : HTrace} (h : .measured inputs new ∈ log)
      (ht : new[i]? = some t) (hold : Gathered log inputs i old) :
      Gathered log inputs i (merge t old)

/-- A violation was left by an analysis in this part of the log. -/
def FoundIn (log : List (Event ι θ τ)) : Prop :=
  ∃ cs hs inputs ign n vs, .analysed cs hs inputs ign n vs ∈ log ∧ vs ≠ []

/-- A priming check in this part of the log kept a violation. -/
def KeptIn (log : List (Event ι θ τ)) : Prop := ∃ w, .primingKept w ∈ log

section Definitions

variable (env : Env ι θ τ κ)

/-- The last analysis of the round: it found `v`, in the traces of the current list. -/
structure LastAnalysis (v : Violation ι τ) (s : RoundManager ι θ τ κ) (cs : List CTrace)
    (hs : List HTrace) : Prop where
  last : ∃ pre post ign n vs, s.log = pre ++ .analysed cs hs s.boostedInputs ign n vs :: post ∧
    (∀ e ∈ post, e.isAnalysis = false) ∧ v ∈ vs ∧ ∀ w, .primingKept w ∈ post → w = v
  inputs : v.inputSequence = s.boostedInputs
  lengths : cs.length = s.boostedInputs.length ∧ hs.length = s.boostedInputs.length
  ctraces : .traced s.boostedInputs (maxNesting env) cs ∈ s.log
  htraces : ∀ i h, hs[i]? = some h → Gathered s.log s.boostedInputs i h

/-- Every enabled stage ran after the fast stage and left a violation. -/
def Filtered (s : RoundManager ι θ τ κ) : Prop :=
  ∃ fast nesting taint priming noise large arch : List (Event ι θ τ),
    s.log = .stage .fast :: fast ++ .stage .nesting :: nesting ++ .stage .taintMistake :: taint ++
      .stage .priming :: priming ++ .stage .noise :: noise ++ .stage .primingLarge :: large ++
      .stage .archMismatch :: arch ∧
    (∀ cs hs inputs ign n vs, .analysed cs hs inputs ign n vs ∈ s.log → vs ≠ []) ∧
    (startNesting env ≠ maxNesting env → FoundIn nesting) ∧
    (env.conf.enableFastPathModel = true → FoundIn taint) ∧
    (env.conf.enablePriming = true → KeptIn priming) ∧
    (env.conf.executorSampleSizes.length ≠ 1 → FoundIn noise) ∧
    (env.conf.enablePriming = true → env.conf.executorSampleSizes.length ≠ 1 → KeptIn large) ∧
    .archChecked s.boostedInputs false ∈ arch

/-- The list of boosted inputs at the end of the nesting stage is the list at the end. -/
structure StableBoosts (s : RoundManager ι θ τ κ) : Prop where
  before : (boostedLists (logBefore .taintMistake s.log)).getLast? = some s.boostedInputs
  after : ∀ inputs ∈ boostedLists (logFrom .taintMistake s.log), inputs = s.boostedInputs

/-- What a reported violation has gone through. -/
structure Survived (v : Violation ι τ) (s : RoundManager ι θ τ κ) : Prop where
  analysis : ∃ cs hs, LastAnalysis env v s cs hs
  filtered : Filtered env s
  stable : StableBoosts s

/-- The taints that the model gave for the original inputs at maximum nesting boost alike. -/
def ReproducibleTaints (orgInputs : List ι) (log : List (Event ι θ τ)) : Prop :=
  ∀ t t', .tainted orgInputs (maxNesting env) t ∈ log →
    .tainted orgInputs (maxNesting env) t' ∈ log →
      generateBoosted env.dataGen orgInputs t env.conf.inputsPerClass =
        generateBoosted env.dataGen orgInputs t' env.conf.inputsPerClass

end Definitions

theorem Gathered.mono {log log' : List (Event ι θ τ)} {inputs : List ι} {i : Nat} {h : HTrace}
    (hg : Gathered log inputs i h) (hsub : log ⊆ log') : Gathered log' inputs i h := by
  induction hg with
  | measured h ht => exact .measured (hsub h) ht
  | merged h ht _ ih => exact .merged (hsub h) ht ih

variable {env : Env ι θ τ κ}

/-- What a normal stage that leaves a violation has done, with `evs` as its events. -/
structure StageRun (env : Env ι θ τ κ) (s₀ s : RoundManager ι θ τ κ) (evs : List (Event ι θ τ)) :
    Prop where
  log : s.log = s₀.log ++ evs
  conf : s.conf = s₀.conf
  orgInputs : s.orgInputs = s₀.orgInputs
  begins : ∀ e ∈ evs, e.begins = none
  kept : ∀ w, .primingKept w ∉ evs
  boosts : boostedLists evs = [s.boostedInputs]
  boosted : (env.conf.inputsPerClass = 1 ∧ s.boostedInputs = s₀.orgInputs) ∨
    env.conf.inputsPerClass ≠ 1 ∧ ∃ t, .tainted s₀.orgInputs s₀.conf.modelNesting t ∈ evs ∧
      generateBoosted env.dataGen s₀.orgInputs t env.conf.inputsPerClass = some s.boostedInputs
  taints : ∀ inputs nesting t, .tainted inputs nesting t ∈ evs →
    nesting = s₀.conf.modelNesting ∧
      generateBoosted env.dataGen s₀.orgInputs t env.conf.inputsPerClass = some s.boostedInputs
  analysis : ∃ pre post ign n, evs = pre ++
      .analysed s.ctraces s.htraces s.boostedInputs ign n s.violations :: post ∧
    (∀ e ∈ pre, e.isAnalysis = false) ∧ ∀ e ∈ post, e.isAnalysis = false
  inputs : ∀ v ∈ s.violations, v.inputSequence = s.boostedInputs
  lengths : s.ctraces.length = s.boostedInputs.length ∧
    s.htraces.length = s.boostedInputs.length
  reused : s₀.conf.reuseCtraces = true → s.ctraces = s₀.ctraces
  traced : s₀.conf.reuseCtraces = false → s₀.conf.enableFastContractTracing = false →
    .traced s.boostedInputs s₀.conf.modelNesting s.ctraces ∈ evs
  measured : ∃ new, .measured s.boostedInputs new ∈ evs ∧
    s.htraces = if s₀.conf.extendHtraces then List.zipWith merge new s₀.htraces else new

/-- The events of a stage before its analysis. -/
structure Preparation (evs : List (Event ι θ τ)) : Prop where
  begins : ∀ e ∈ evs, e.begins = none
  kept : ∀ w, .primingKept w ∉ evs
  analysis : ∀ e ∈ evs, e.isAnalysis = false

theorem Preparation.append {evs evs' : List (Event ι θ τ)} (h : Preparation evs)
    (h' : Preparation evs') : Preparation (evs ++ evs') := by
  refine ⟨?_, ?_, ?_⟩
  · intro e he
    exact (List.mem_append.mp he).elim (h.begins e) (h'.begins e)
  · intro w hw
    exact (List.mem_append.mp hw).elim (h.kept w) (h'.kept w)
  · intro e he
    exact (List.mem_append.mp he).elim (h.analysis e) (h'.analysis e)

theorem Boosts.preparation {s : RoundManager ι θ τ κ} {inputs : List ι}
    {evs : List (Event ι θ τ)} (h : Boosts env s inputs evs) : Preparation evs := by
  cases h with
  | plain _ => exact ⟨by simp [Event.begins], by simp, by simp [Event.isAnalysis]⟩
  | tainted _ _ => exact ⟨by simp [Event.begins], by simp, by simp [Event.isAnalysis]⟩

theorem Collects.preparation {s : RoundManager ι θ τ κ} {cs : List CTrace}
    {evs : List (Event ι θ τ)} (h : Collects env s cs evs) : Preparation evs := by
  cases h with
  | reused _ _ => exact ⟨by simp, by simp, by simp⟩
  | fast _ _ => exact ⟨by simp, by simp, by simp⟩
  | traced _ _ => exact ⟨by simp [Event.begins], by simp, by simp [Event.isAnalysis]⟩

/-- Collecting contract traces boosts nothing. -/
theorem Collects.noBoosts {s : RoundManager ι θ τ κ} {cs : List CTrace}
    {evs : List (Event ι θ τ)} (h : Collects env s cs evs) :
    boostedLists evs = [] ∧ ∀ inputs nesting t, .tainted inputs nesting t ∉ evs := by
  cases h with
  | reused _ _ => exact ⟨rfl, by simp⟩
  | fast _ _ => exact ⟨rfl, by simp⟩
  | traced _ _ => exact ⟨rfl, by simp⟩

theorem Boosts.boosts {s : RoundManager ι θ τ κ} {inputs : List ι} {evs : List (Event ι θ τ)}
    (h : Boosts env s inputs evs) : boostedLists evs = [inputs] ∧
      ((env.conf.inputsPerClass = 1 ∧ inputs = s.orgInputs) ∨
        env.conf.inputsPerClass ≠ 1 ∧ ∃ t, .tainted s.orgInputs s.conf.modelNesting t ∈ evs ∧
          generateBoosted env.dataGen s.orgInputs t env.conf.inputsPerClass = some inputs) ∧
      ∀ inputs' nesting t, .tainted inputs' nesting t ∈ evs → nesting = s.conf.modelNesting ∧
        generateBoosted env.dataGen s.orgInputs t env.conf.inputsPerClass = some inputs := by
  cases h with
  | plain hone => exact ⟨rfl, Or.inl ⟨hone, rfl⟩, by simp⟩
  | @tainted taints _ hmany hboost =>
    refine ⟨rfl, Or.inr ⟨hmany, taints, by simp, hboost⟩, ?_⟩
    intro inputs' nesting t ht
    have heq : inputs' = s.orgInputs ∧ nesting = s.conf.modelNesting ∧ t = taints := by
      simpa using ht
    obtain ⟨-, hnesting, rfl⟩ := heq
    exact ⟨hnesting, hboost⟩

/-- `_update_ignore_list` changes the ignore list and the log. -/
theorem ignoreUpdated_eq (s : RoundManager ι θ τ κ) :
    ∃ ign evs, ignoreUpdated s = { s with ignoreList := ign, log := s.log ++ evs } ∧
      (evs = [] ∨ ∃ ids, evs = [.ignored ids]) := by
  unfold ignoreUpdated
  split
  · exact ⟨_, _, rfl, Or.inr ⟨_, rfl⟩⟩
  · exact ⟨s.ignoreList, [], by rw [List.append_nil], Or.inl rfl⟩

theorem preparation_ignored {evs : List (Event ι θ τ)} (h : evs = [] ∨ ∃ ids, evs = [.ignored ids]) :
    Preparation evs ∧ boostedLists evs = [] ∧
      ∀ inputs nesting t, .tainted inputs nesting t ∉ evs := by
  rcases h with rfl | ⟨ids, rfl⟩
  · exact ⟨⟨by simp, by simp, by simp⟩, rfl, by simp⟩
  · exact ⟨⟨by simp [Event.begins], by simp, by simp [Event.isAnalysis]⟩, rfl, by simp⟩

/-- A stage that leaves a violation of the given inputs did all its work. -/
theorem NormalStage.stageRun {s₀ s : RoundManager ι θ τ κ} (h : NormalStage env s₀ s)
    (hne : s.violations ≠ []) (horg : s₀.orgInputs ≠ []) : ∃ evs, StageRun env s₀ s evs := by
  obtain ⟨s₁, s₂, ⟨inputs, evsB, nb, hboosts, rfl⟩, ⟨cs, evsC, hcollects, rfl⟩, hend⟩ := h
  cases hend with
  | ioError => exact absurd rfl hne
  | noInputs _ hnone => exact absurd hnone horg
  | clean _ _ hnone => exact absurd hnone hne
  | @found s₃ s₄ hht han _ hsome =>
    obtain ⟨new, hmeasures, hext, rfl⟩ := hht
    obtain ⟨vs, st, hanswer, hlen, rfl⟩ := han
    have hnew := hmeasures.length env
    obtain ⟨hlists, hboosted, htaints⟩ := hboosts.boosts
    obtain ⟨hlistsC, htaintsC⟩ := hcollects.noBoosts
    have hhtraces : (if s₀.conf.extendHtraces then List.zipWith merge new s₀.htraces
        else new).length = inputs.length := by
      split
      · rename_i hon
        rw [List.length_zipWith, hext hon, Nat.min_self, hnew]
      · exact hnew
    dsimp only at hmeasures hext hanswer hlen hsome hne ⊢
    generalize hhs : (if s₀.conf.extendHtraces = true then List.zipWith merge new s₀.htraces
      else new) = hs at hhtraces hanswer hlen hsome hne ⊢
    obtain ⟨ign, evsI, hign, hevsI⟩ := ignoreUpdated_eq
      (⟨s₀.conf, s₀.orgInputs, inputs, hs, s₀.referenceHtraces, cs, nb, vs, s₀.archViolations,
        s₀.ignoreList, st, s₀.sampleSize, s₀.log ++ evsB ++ evsC ++ [.measured inputs new] ++
          [.analysed cs hs inputs s₀.ignoreList s₀.sampleSize vs]⟩ : RoundManager ι θ τ κ)
    obtain ⟨hprepI, hlistsI, htaintsI⟩ := preparation_ignored hevsI
    have hprep := hboosts.preparation.append hcollects.preparation
    rw [hign]
    refine ⟨(evsB ++ evsC ++ [.measured inputs new]) ++
      .analysed cs hs inputs s₀.ignoreList s₀.sampleSize vs :: evsI, ?_⟩
    exact {
      log := by simp
      conf := rfl
      orgInputs := rfl
      begins := by
        intro e he
        rcases List.mem_append.mp he with he | he
        · rcases List.mem_append.mp he with he | he
          · exact hprep.begins e he
          · rw [List.mem_singleton.mp he]
            rfl
        · rcases List.mem_cons.mp he with rfl | he
          · rfl
          · exact hprepI.begins e he
      kept := by
        intro w hw
        rcases List.mem_append.mp hw with hw | hw
        · rcases List.mem_append.mp hw with hw | hw
          · exact hprep.kept w hw
          · exact absurd hw (by simp)
        · rcases List.mem_cons.mp hw with hw | hw
          · exact absurd hw (by simp)
          · exact hprepI.kept w hw
      boosts := by
        simp only [boostedLists, List.filterMap_append, List.filterMap_cons,
          List.filterMap_nil] at hlists hlistsC hlistsI ⊢
        rw [hlists, hlistsC, hlistsI]
        rfl
      boosted := by
        rcases hboosted with hplain | ⟨hmany, t, ht, hgen⟩
        · exact Or.inl hplain
        · refine Or.inr ⟨hmany, t, ?_, hgen⟩
          simp [ht]
      taints := by
        intro inputs' nesting t ht
        refine htaints inputs' nesting t ?_
        simpa [htaintsC, htaintsI] using ht
      analysis := by
        refine ⟨_, evsI, _, _, rfl, ?_, hprepI.analysis⟩
        intro e he
        rcases List.mem_append.mp he with he | he
        · exact hprep.analysis e he
        · rw [List.mem_singleton.mp he]
          rfl
      inputs := env.analyser.inputSequence_eq hanswer
      lengths := ⟨hlen.trans hhtraces, hhtraces⟩
      reused := by
        intro hreuse
        cases hcollects with
        | reused _ _ => rfl
        | fast h _ => exact absurd (hreuse.symm.trans h) (by decide)
        | traced h _ => exact absurd (hreuse.symm.trans h) (by decide)
      traced := by
        intro hreuse hfast
        cases hcollects with
        | reused h _ => exact absurd (hreuse.symm.trans h) (by decide)
        | fast _ h => exact absurd (hfast.symm.trans h) (by decide)
        | traced _ _ => simp
      measured := ⟨new, by simp, hhs.symm⟩ }

theorem ReproducibleTaints.mono {org : List ι} {log log' : List (Event ι θ τ)}
    (h : ReproducibleTaints env org log') (hsub : log ⊆ log') : ReproducibleTaints env org log :=
  fun t t' ht ht' => h t t' (hsub ht) (hsub ht')

/-- The current list was boosted from taints in the log. -/
def Current (env : Env ι θ τ κ) (s : RoundManager ι θ τ κ) : Prop :=
  (env.conf.inputsPerClass = 1 ∧ s.boostedInputs = s.orgInputs) ∨
    env.conf.inputsPerClass ≠ 1 ∧ ∃ t, .tainted s.orgInputs s.conf.modelNesting t ∈ s.log ∧
      generateBoosted env.dataGen s.orgInputs t env.conf.inputsPerClass = some s.boostedInputs

/-- The violations come from the last analysis, which was about the current data. -/
def FromLast (s : RoundManager ι θ τ κ) : Prop :=
  ∃ pre post ign n vs,
    s.log = pre ++ .analysed s.ctraces s.htraces s.boostedInputs ign n vs :: post ∧
    (∀ e ∈ post, e.isAnalysis = false) ∧ s.violations ⊆ vs ∧
    (∀ w, .primingKept w ∈ post → s.violations = [w]) ∧
    ∀ v ∈ vs, v.inputSequence = s.boostedInputs

/-- What is known of a round with a violation between two stages. -/
structure Tracked (env : Env ι θ τ κ) (s : RoundManager ι θ τ κ) : Prop where
  org : s.orgInputs ≠ []
  current : Current env s
  last : FromLast s
  lengths : s.ctraces.length = s.boostedInputs.length ∧
    s.htraces.length = s.boostedInputs.length
  found : ∀ cs hs inputs ign n vs, .analysed cs hs inputs ign n vs ∈ s.log → vs ≠ []
  traced : ReproducibleTaints env s.orgInputs s.log → s.conf.enableFastContractTracing = false →
    .traced s.boostedInputs s.conf.modelNesting s.ctraces ∈ s.log
  gathered : ReproducibleTaints env s.orgInputs s.log → ∀ i h, s.htraces[i]? = some h →
    Gathered s.log s.boostedInputs i h

section Stages

variable {s₀ s s₁ : RoundManager ι θ τ κ} {evs : List (Event ι θ τ)}

theorem StageRun.subset (h : StageRun env s₀ s evs) : evs ⊆ s.log ∧ s₀.log ⊆ s.log := by
  rw [h.log]
  exact ⟨List.subset_append_right _ _, List.subset_append_left _ _⟩

/-- At maximum nesting, reproducible taints make the same list again. -/
theorem StageRun.boosted_eq (h : StageRun env s₀ s evs) (hcur : Current env s₀)
    (hmax : s₀.conf.modelNesting = maxNesting env)
    (hrep : ReproducibleTaints env s.orgInputs s.log) : s.boostedInputs = s₀.boostedInputs := by
  rcases h.boosted with ⟨hone, hb⟩ | ⟨hmany, t, ht, hgen⟩
  · rcases hcur with ⟨-, hb'⟩ | ⟨hmany, -⟩
    · rw [hb, hb']
    · exact absurd hone hmany
  · rcases hcur with ⟨hone, -⟩ | ⟨-, t', ht', hgen'⟩
    · exact absurd hone hmany
    · rw [hmax] at ht ht'
      rw [h.orgInputs] at hrep
      have heq := hrep t t' (h.subset.1 ht) (h.subset.2 ht')
      rw [hgen, hgen'] at heq
      exact Option.some.inj heq

/-- After a stage the data are consistent again; reused traces need a stable list. -/
theorem StageRun.tracked (h : StageRun env s₀ s evs) (hne : s.violations ≠ [])
    (horg : s₀.orgInputs ≠ [])
    (hfound : ∀ cs hs inputs ign n vs, .analysed cs hs inputs ign n vs ∈ s₀.log → vs ≠ [])
    (hold : s₀.conf.reuseCtraces = false ∧ s₀.conf.extendHtraces = false ∨
      Tracked env s₀ ∧ s₀.conf.modelNesting = maxNesting env ∧
        s₀.conf.enableFastContractTracing = false) : Tracked env s := by
  obtain ⟨hevs, hlog⟩ := h.subset
  obtain ⟨pre, post, ign, n, hsplit, hpre, hpost⟩ := h.analysis
  refine ⟨?_, ?_, ?_, h.lengths, ?_, ?_, ?_⟩
  · rw [h.orgInputs]
    exact horg
  · unfold Current
    rw [h.orgInputs, h.conf]
    rcases h.boosted with hplain | ⟨hmany, t, ht, hgen⟩
    · exact Or.inl hplain
    · exact Or.inr ⟨hmany, t, hevs ht, hgen⟩
  · refine ⟨s₀.log ++ pre, post, ign, n, s.violations, ?_, hpost, List.Subset.refl _, ?_, h.inputs⟩
    · rw [h.log, hsplit, List.append_assoc]
    · intro w hw
      refine absurd ?_ (h.kept w)
      rw [hsplit]
      exact List.mem_append_right _ (List.mem_cons_of_mem _ hw)
  · intro cs hs inputs ign' n' vs hmem
    rw [h.log] at hmem
    rcases List.mem_append.mp hmem with hmem | hmem
    · exact hfound cs hs inputs ign' n' vs hmem
    · -- the stage has one analysis, and it left a violation
      rw [hsplit] at hmem
      rcases List.mem_append.mp hmem with hmem | hmem
      · exact absurd (hpre _ hmem) (by simp [Event.isAnalysis])
      · rcases List.mem_cons.mp hmem with heq | hmem
        · rw [(Event.analysed.inj heq).2.2.2.2.2]
          exact hne
        · exact absurd (hpost _ hmem) (by simp [Event.isAnalysis])
  · intro hrep hfast
    rw [h.conf] at hfast ⊢
    rcases hold with ⟨hreuse, -⟩ | ⟨htracked, hmax, -⟩
    · exact hevs (h.traced hreuse hfast)
    · cases hreuse : s₀.conf.reuseCtraces with
      | false => exact hevs (h.traced hreuse hfast)
      | true =>
        rw [h.reused hreuse, h.boosted_eq htracked.current hmax hrep]
        rw [h.orgInputs] at hrep
        exact hlog (htracked.traced (hrep.mono hlog) hfast)
  · intro hrep i t ht
    obtain ⟨new, hnew, hhs⟩ := h.measured
    rw [hhs] at ht
    cases hext : s₀.conf.extendHtraces with
    | false =>
      rw [hext] at ht
      exact .measured (hevs hnew) ht
    | true =>
      rw [hext, if_pos rfl] at ht
      obtain ⟨a, b, ha, hb, rfl⟩ := List.getElem?_zipWith_eq_some.mp ht
      rcases hold with ⟨-, hoff⟩ | ⟨htracked, hmax, -⟩
      · exact absurd (hext.symm.trans hoff) (by decide)
      · have hsame := h.boosted_eq htracked.current hmax hrep
        rw [h.orgInputs] at hrep
        have hg := (htracked.gathered (hrep.mono hlog) i b hb).mono hlog
        rw [← hsame] at hg
        exact .merged (hevs hnew) ha hg

/-- A part of the round after the nesting stage, with `seg` as its events: the list of boosted
inputs changes only with the taints. -/
structure Later (env : Env ι θ τ κ) (s₀ s : RoundManager ι θ τ κ) (seg : List (Event ι θ τ)) :
    Prop where
  log : s.log = s₀.log ++ seg
  orgInputs : s.orgInputs = s₀.orgInputs
  stable : ReproducibleTaints env s.orgInputs s.log → s.boostedInputs = s₀.boostedInputs ∧
    ∀ inputs ∈ boostedLists seg, inputs = s.boostedInputs
  taints : ∀ inputs nesting t, .tainted inputs nesting t ∈ seg → ∃ b ∈ boostedLists seg,
    generateBoosted env.dataGen s₀.orgInputs t env.conf.inputsPerClass = some b

theorem Later.trans {seg seg' : List (Event ι θ τ)} (h : Later env s₀ s₁ seg)
    (h' : Later env s₁ s seg') : Later env s₀ s (seg ++ seg') := by
  refine ⟨by rw [h'.log, h.log, List.append_assoc], h'.orgInputs.trans h.orgInputs, ?_, ?_⟩
  · intro hrep
    obtain ⟨hsame', hall'⟩ := h'.stable hrep
    have hsub : s₁.log ⊆ s.log := by
      rw [h'.log]
      exact List.subset_append_left _ _
    rw [h'.orgInputs] at hrep
    obtain ⟨hsame, hall⟩ := h.stable (hrep.mono hsub)
    refine ⟨hsame'.trans hsame, ?_⟩
    intro inputs hmem
    rw [boostedLists, List.filterMap_append, List.mem_append] at hmem
    rcases hmem with hmem | hmem
    · rw [hsame']
      exact hall inputs hmem
    · exact hall' inputs hmem
  · intro inputs nesting t ht
    have hmem : ∀ {b}, b ∈ boostedLists seg ∨ b ∈ boostedLists seg' →
        b ∈ boostedLists (seg ++ seg') := by
      intro b hb
      rw [boostedLists, List.filterMap_append, List.mem_append]
      exact hb
    rcases List.mem_append.mp ht with ht | ht
    · obtain ⟨b, hb, hgen⟩ := h.taints inputs nesting t ht
      exact ⟨b, hmem (Or.inl hb), hgen⟩
    · obtain ⟨b, hb, hgen⟩ := h'.taints inputs nesting t ht
      rw [h.orgInputs] at hgen
      exact ⟨b, hmem (Or.inr hb), hgen⟩

/-- A part of the round that boosts nothing. -/
theorem Later.of_quiet {seg : List (Event ι θ τ)} (hlog : s.log = s₀.log ++ seg)
    (horg : s.orgInputs = s₀.orgInputs) (hsame : s.boostedInputs = s₀.boostedInputs)
    (hboosts : boostedLists seg = []) (htaints : ∀ inputs nesting t, .tainted inputs nesting t ∉ seg) :
    Later env s₀ s seg := by
  refine ⟨hlog, horg, fun _ => ⟨hsame, ?_⟩, fun inputs nesting t ht => absurd ht (htaints _ _ _)⟩
  rw [hboosts]
  simp

theorem StageRun.later (h : StageRun env s₀ s evs) (hcur : Current env s₀)
    (hmax : s₀.conf.modelNesting = maxNesting env) : Later env s₀ s evs := by
  refine ⟨h.log, h.orgInputs, ?_, ?_⟩
  · intro hrep
    refine ⟨h.boosted_eq hcur hmax hrep, ?_⟩
    intro inputs hmem
    rw [h.boosts] at hmem
    exact List.mem_singleton.mp hmem
  · intro inputs nesting t ht
    refine ⟨s.boostedInputs, ?_, (h.taints inputs nesting t ht).2⟩
    rw [h.boosts]
    simp

theorem StageRun.foundIn (h : StageRun env s₀ s evs) (hne : s.violations ≠ []) : FoundIn evs := by
  obtain ⟨pre, post, ign, n, hsplit, -, -⟩ := h.analysis
  refine ⟨s.ctraces, s.htraces, s.boostedInputs, ign, n, s.violations, ?_, hne⟩
  rw [hsplit]
  exact List.mem_append_right _ (List.mem_cons_self ..)

/-- The collected data are the same. -/
structure SameData (s₀ s : RoundManager ι θ τ κ) : Prop where
  orgInputs : s.orgInputs = s₀.orgInputs
  boostedInputs : s.boostedInputs = s₀.boostedInputs
  ctraces : s.ctraces = s₀.ctraces
  htraces : s.htraces = s₀.htraces
  modelNesting : s.conf.modelNesting = s₀.conf.modelNesting
  fastTracing : s.conf.enableFastContractTracing = s₀.conf.enableFastContractTracing

/-- The violations are the same, or one of them was kept. -/
def Kept (s₀ s : RoundManager ι θ τ κ) (evs : List (Event ι θ τ)) : Prop :=
  (s.violations = s₀.violations ∧ ∀ w, .primingKept w ∉ evs) ∨
    ∃ v ∈ s₀.violations, s.violations = [v] ∧ ∀ w, .primingKept w ∈ evs → w = v

theorem Tracked.extend (h : Tracked env s₀) (hdata : SameData s₀ s) (hlog : s.log = s₀.log ++ evs)
    (hevs : ∀ e ∈ evs, e.isAnalysis = false) (hkept : Kept s₀ s evs) : Tracked env s := by
  have hsub : s₀.log ⊆ s.log := by
    rw [hlog]
    exact List.subset_append_left _ _
  refine ⟨by rw [hdata.orgInputs]; exact h.org, ?_, ?_, ?_, ?_, ?_, ?_⟩
  · unfold Current
    rw [hdata.orgInputs, hdata.boostedInputs, hdata.modelNesting]
    rcases h.current with hplain | ⟨hmany, t, ht, hgen⟩
    · exact Or.inl hplain
    · exact Or.inr ⟨hmany, t, hsub ht, hgen⟩
  · obtain ⟨pre, post, ign, n, vs, hsplit, hpost, hvs, hold, hinputs⟩ := h.last
    refine ⟨pre, post ++ evs, ign, n, vs, ?_, ?_, ?_, ?_, ?_⟩
    · rw [hlog, hsplit, hdata.ctraces, hdata.htraces, hdata.boostedInputs, List.append_assoc]
      rfl
    · intro e he
      exact (List.mem_append.mp he).elim (hpost e) (hevs e)
    · rcases hkept with ⟨hsame, -⟩ | ⟨v, hv, hsingle, -⟩
      · rw [hsame]
        exact hvs
      · rw [hsingle]
        intro w hw
        rw [List.mem_singleton.mp hw]
        exact hvs hv
    · intro w hw
      rcases hkept with ⟨hsame, hno⟩ | ⟨v, hv, hsingle, hno⟩
      · rw [hsame]
        exact hold w ((List.mem_append.mp hw).resolve_right (hno w))
      · rw [hsingle]
        rcases List.mem_append.mp hw with hw | hw
        · rw [hold w hw] at hv
          rw [List.mem_singleton.mp hv]
        · rw [hno w hw]
    · rw [hdata.boostedInputs]
      exact hinputs
  · rw [hdata.ctraces, hdata.htraces, hdata.boostedInputs]
    exact h.lengths
  · intro cs hs inputs ign n vs hmem
    rw [hlog] at hmem
    rcases List.mem_append.mp hmem with hmem | hmem
    · exact h.found cs hs inputs ign n vs hmem
    · exact absurd (hevs _ hmem) (by simp [Event.isAnalysis])
  · intro hrep hfast
    rw [hdata.orgInputs] at hrep
    rw [hdata.boostedInputs, hdata.modelNesting, hdata.ctraces]
    exact hsub (h.traced (hrep.mono hsub) (hdata.fastTracing ▸ hfast))
  · intro hrep i t ht
    rw [hdata.orgInputs] at hrep
    rw [hdata.htraces] at ht
    rw [hdata.boostedInputs]
    exact (h.gathered (hrep.mono hsub) i t ht).mono hsub

theorem Tracked.congr (h : Tracked env s₀) (hdata : SameData s₀ s) (hlog : s.log = s₀.log)
    (hvs : s.violations = s₀.violations) : Tracked env s :=
  h.extend hdata (by rw [hlog, List.append_nil]) (by simp) (Or.inl ⟨hvs, by simp⟩)

theorem Tracked.stage (h : Tracked env s₀) (stage : RoundStage) :
    Tracked env (s₀.note (.stage stage)) :=
  h.extend ⟨rfl, rfl, rfl, rfl, rfl, rfl⟩ rfl (by simp [Event.isAnalysis])
    (Or.inl ⟨rfl, by simp⟩)

theorem normalStageWhen_ok {cond : RoundState → Bool} {change : RoundState → RoundState}
    (h : normalStageWhen env cond change s₀ = .ok () s) :
    (cond s₀.conf = true ∧ NormalStage env { s₀ with conf := change s₀.conf } s) ∨
      (cond s₀.conf = false ∧ s = s₀) := by
  have hspec : Triple (fun t => t = s₀) (normalStageWhen env cond change)
      (fun _ t => (cond s₀.conf = true ∧ NormalStage env { s₀ with conf := change s₀.conf } t) ∨
        (cond s₀.conf = false ∧ t = s₀)) (fun _ _ => True) := by
    refine Triple.get_bind fun t ht => ?_
    subst ht
    refine Triple.ite (fun hc => ?_) fun hc => Triple.pure fun u hu => Or.inr ⟨by simpa using hc, hu⟩
    refine Triple.bind (R := fun _ u => u = { t with conf := change t.conf }) ?_ fun _ => ?_
    · exact Triple.modify fun u hu => by rw [hu]
    · exact (normalStage_spec env _).conseq (fun _ h => h) (fun _ _ h => Or.inl ⟨hc, h⟩)
        fun _ _ _ => trivial
  exact hspec.ok rfl h

/-- The stages before the end of the round returned with a violation left. -/
theorem runStages_some {stage : RoundStage} {stages : List RoundStage} {v : Violation ι τ}
    (h : runStages env (stage :: stages) s₀ = .ok (some v) s) :
    ∃ s₁, executeStage env stage s₀ = .ok () s₁ ∧ s₁.violations ≠ [] ∧
      runStages env stages s₁ = .ok (some v) s := by
  obtain ⟨_, s₁, hstage, h⟩ := bind_ok h
  obtain ⟨t, s₂, hget, h⟩ := bind_ok h
  obtain ⟨rfl, rfl⟩ : s₁ = t ∧ s₁ = s₂ := by
    injection hget with h1 h2
    exact ⟨h1, h2⟩
  split at h
  · injection h with h1 h2
    exact absurd h1 (by simp)
  · rename_i hne
    exact ⟨s₁, hstage, by simpa using hne, h⟩

/-- The first part of a stage records its name. -/
theorem executeStage_ok {stage : RoundStage} {x : RoundM ι θ τ κ Unit}
    (hx : executeStage env stage = (do modify fun s => s.note (.stage stage); x))
    (h : executeStage env stage s₀ = .ok () s) : x (s₀.note (.stage stage)) = .ok () s := by
  rw [hx] at h
  obtain ⟨_, s₁, hnote, h⟩ := bind_ok h
  cases hnote
  exact h

/-- A first violation needs inputs. -/
theorem NormalStage.orgInputs_ne_nil (h : NormalStage env s₀ s) (hnone : s₀.violations = [])
    (hne : s.violations ≠ []) : s₀.orgInputs ≠ [] := by
  obtain ⟨s₁, s₂, ⟨inputs, evsB, nb, hboosts, rfl⟩, ⟨cs, evsC, hcollects, rfl⟩, hend⟩ := h
  cases hend with
  | ioError => exact absurd rfl hne
  | noInputs hht _ =>
    obtain ⟨new, -, -, rfl⟩ := hht
    exact absurd hnone hne
  | clean _ _ hclean => exact absurd hclean hne
  | found _ _ horg _ => exact horg

/-- The events of the stages up to the nesting stage: the last list of boosted inputs is `b`, and
all taints at maximum nesting boost to it. -/
structure Early (env : Env ι θ τ κ) (org : List ι) (b : List ι) (seg : List (Event ι θ τ)) :
    Prop where
  begins : ∀ e ∈ seg, e.begins ≠ some .taintMistake
  boosts : (boostedLists seg).getLast? = some b
  taints : ∀ inputs t, .tainted inputs (maxNesting env) t ∈ seg →
    generateBoosted env.dataGen org t env.conf.inputsPerClass = some b

theorem fastStage_ok (h : executeStage env .fast s₀ = .ok () s) (hne : s.violations ≠ [])
    (hlog : s₀.log = []) (hnone : s₀.violations = []) (hreuse : s₀.conf.reuseCtraces = false)
    (hext : s₀.conf.extendHtraces = false) :
    ∃ seg, s.log = .stage .fast :: seg ∧ Tracked env s ∧
      s.conf = { s₀.conf with isInitial := false } ∧ s.orgInputs = s₀.orgInputs ∧
      (∀ e ∈ seg, e.begins = none) ∧ boostedLists seg = [s.boostedInputs] ∧
      ∀ inputs nesting t, .tainted inputs nesting t ∈ seg → nesting = s₀.conf.modelNesting ∧
        generateBoosted env.dataGen s₀.orgInputs t env.conf.inputsPerClass =
          some s.boostedInputs := by
  have h := executeStage_ok (x := fastStage env) rfl h
  obtain ⟨t, s₁, hget, h⟩ := bind_ok h
  cases hget
  obtain ⟨_, s₁, hassert, h⟩ := bind_ok h
  obtain ⟨-, rfl⟩ := (pyAssert_triple (P := fun u => u = s₀.note (.stage .fast))
    (E := fun _ _ => True) fun _ _ => trivial).ok rfl hassert
  obtain ⟨_, s₂, hnormal, h⟩ := bind_ok h
  have hstage := (normalStage_spec env _).ok rfl hnormal
  cases h
  have horg := hstage.orgInputs_ne_nil hnone hne
  obtain ⟨evs, hrun⟩ := hstage.stageRun hne horg
  have hlog₀ : (s₀.note (.stage .fast)).log = [.stage .fast] := by
    rw [RoundManager.note, hlog]
    rfl
  have htracked : Tracked env s₂ := by
    refine hrun.tracked hne horg ?_ (Or.inl ⟨hreuse, hext⟩)
    intro cs hs inputs ign n vs hmem
    rw [hlog₀] at hmem
    exact absurd hmem (by simp)
  refine ⟨evs, ?_, htracked.congr ⟨rfl, rfl, rfl, rfl, rfl, rfl⟩ rfl rfl, ?_, hrun.orgInputs,
    hrun.begins, hrun.boosts, hrun.taints⟩
  · show s₂.log = _
    rw [hrun.log, hlog₀]
    rfl
  · show { s₂.conf with isInitial := false } = _
    rw [hrun.conf]
    rfl

/-- The nesting stage: afterwards the model runs at maximum nesting. -/
theorem nestingStage_ok (h : executeStage env .nesting s₀ = .ok () s) (hne : s.violations ≠ [])
    (ht : Tracked env s₀) (hreuse : s₀.conf.reuseCtraces = false)
    (hext : s₀.conf.extendHtraces = false) :
    ∃ seg, s.log = s₀.log ++ .stage .nesting :: seg ∧ Tracked env s ∧
      s.conf = { s₀.conf with
                 modelNesting := s₀.conf.maxNesting
                 reuseBoosts := true
                 updateIgnoreList := true } ∧
      s.orgInputs = s₀.orgInputs ∧ (∀ e ∈ seg, e.begins = none) ∧
      ((s₀.conf.modelNesting = s₀.conf.maxNesting ∧ seg = [] ∧
          s.boostedInputs = s₀.boostedInputs) ∨
        s₀.conf.modelNesting ≠ s₀.conf.maxNesting ∧ FoundIn seg ∧
          boostedLists seg = [s.boostedInputs] ∧
          ∀ inputs nesting t, .tainted inputs nesting t ∈ seg →
            generateBoosted env.dataGen s₀.orgInputs t env.conf.inputsPerClass =
              some s.boostedInputs) := by
  have h := executeStage_ok (x := nestingStage env) rfl h
  obtain ⟨_, s₁, hwhen, h⟩ := bind_ok h
  cases h
  have hnote : Tracked env (s₀.note (.stage .nesting)) := ht.stage .nesting
  rcases normalStageWhen_ok hwhen with ⟨hcond, hstage⟩ | ⟨hcond, rfl⟩
  · have hdiff : s₀.conf.modelNesting ≠ s₀.conf.maxNesting := of_decide_eq_true hcond
    obtain ⟨evs, hrun⟩ := hstage.stageRun hne hnote.org
    have htracked : Tracked env s₁ :=
      hrun.tracked hne hnote.org hnote.found (Or.inl ⟨hreuse, hext⟩)
    refine ⟨evs, ?_, htracked.congr ⟨rfl, rfl, rfl, rfl, rfl, rfl⟩ rfl rfl, ?_, hrun.orgInputs,
      hrun.begins, Or.inr ⟨hdiff, hrun.foundIn hne, hrun.boosts, ?_⟩⟩
    · show s₁.log = _
      rw [hrun.log]
      simp [RoundManager.note]
    · show { s₁.conf with reuseBoosts := true, updateIgnoreList := true } = _
      rw [hrun.conf]
      rfl
    · exact fun inputs nesting t hmem => (hrun.taints inputs nesting t hmem).2
  · have hsame : s₀.conf.modelNesting = s₀.conf.maxNesting := by
      exact not_not.mp (of_decide_eq_false hcond)
    refine ⟨[], rfl, hnote.congr ⟨rfl, rfl, rfl, rfl, rfl, rfl⟩ rfl rfl, ?_, rfl, by simp,
      Or.inl ⟨hsame, rfl, rfl⟩⟩
    show { s₀.conf with reuseBoosts := true, updateIgnoreList := true } = _
    rw [← hsame]

/-- A stage begins without boosting anything. -/
theorem Later.stage (s : RoundManager ι θ τ κ) (stage : RoundStage) :
    Later env s (s.note (.stage stage)) [.stage stage] :=
  Later.of_quiet rfl rfl rfl rfl (by simp)

/-- The taint stage: afterwards the contract traces are those of the boosted inputs. -/
theorem taintMistakeStage_ok (h : executeStage env .taintMistake s₀ = .ok () s)
    (hne : s.violations ≠ []) (ht : Tracked env s₀) (hreuse : s₀.conf.reuseCtraces = false)
    (hext : s₀.conf.extendHtraces = false) (hmax : s₀.conf.modelNesting = maxNesting env) :
    ∃ seg, Later env s₀ s (.stage .taintMistake :: seg) ∧ Tracked env s ∧
      s.conf = { s₀.conf with enableFastContractTracing := false, reuseCtraces := true } ∧
      (s₀.conf.enableFastContractTracing = true → FoundIn seg) := by
  replace h := executeStage_ok (x := taintMistakeStage env) rfl h
  obtain ⟨_, s₁, hwhen, hget⟩ := bind_ok h
  obtain ⟨t, s₂, hread, hassert⟩ := bind_ok hget
  cases hread
  obtain ⟨_, s₂, hholds, hmodify⟩ := bind_ok hassert
  have hs₂ := ((pyAssert_triple (P := fun u => u = s₁)
    (E := fun _ _ => True) fun _ _ => trivial).ok rfl hholds).2
  clear h hget hassert hholds
  subst hs₂
  cases hmodify
  have hnote := ht.stage .taintMistake
  have hstart : Later env s₀ _ [.stage .taintMistake] := Later.stage s₀ .taintMistake
  rcases normalStageWhen_ok hwhen with ⟨hcond, hstage⟩ | ⟨hcond, rfl⟩
  · obtain ⟨evs, hrun⟩ := hstage.stageRun hne hnote.org
    have htracked : Tracked env s₂ :=
      hrun.tracked hne hnote.org hnote.found (Or.inl ⟨hreuse, hext⟩)
    have hlater : Later env s₀ s₂ ([.stage .taintMistake] ++ evs) := by
      refine Later.trans ?_ (hrun.later hnote.current hmax)
      exact Later.of_quiet rfl rfl rfl rfl (by simp)
    refine ⟨evs, ⟨hlater.log, hlater.orgInputs, hlater.stable, hlater.taints⟩,
      htracked.congr ⟨rfl, rfl, rfl, rfl, rfl, rfl⟩ rfl rfl, ?_, fun _ => hrun.foundIn hne⟩
    show { s₂.conf with reuseCtraces := true } = _
    rw [hrun.conf]
    rfl
  · have hoff : s₀.conf.enableFastContractTracing = false := hcond
    refine ⟨[], ⟨hstart.log, hstart.orgInputs, hstart.stable, hstart.taints⟩,
      hnote.congr ⟨rfl, rfl, rfl, rfl, rfl, rfl⟩ rfl rfl, ?_, fun hon => ?_⟩
    · show { s₀.conf with reuseCtraces := true } = _
      rw [← hoff]
    · exact absurd (hoff.symm.trans hon) (by decide)

theorem PrimingEvent.plain {e : Event ι θ τ} (h : PrimingEvent e) :
    e.isAnalysis = false ∧ e.boostedList = none ∧ ∀ inputs nesting t, e ≠ .tainted inputs nesting t := by
  cases e with
  | primed _ _ _ _ => exact ⟨rfl, rfl, by simp⟩
  | primingKept _ => exact ⟨rfl, rfl, by simp⟩
  | _ => exact absurd h id

/-- A priming check that leaves a violation has kept it. -/
theorem primingCheck_ok (h : primingCheck env s₀ = .ok () s) (hne : s.violations ≠ [])
    (ht : Tracked env s₀) :
    ∃ seg, Later env s₀ s seg ∧ Tracked env s ∧ s.conf = s₀.conf ∧ KeptIn seg := by
  obtain ⟨evs, hchanged, hprimed⟩ := (primingCheck_primed env s₀).ok rfl h
  have hevs := hprimed.events
  have hkept : ∃ v ∈ s₀.violations, s.violations = [v] ∧ .primingKept v ∈ evs ∧
      ∀ w, .primingKept w ∈ evs → w = v := by
    generalize hvs : s.violations = vs at hprimed hne
    cases hprimed with
    | none _ => exact absurd rfl hne
    | @kept v tests _ hlast htests =>
      refine ⟨v, List.mem_of_getLast? hlast, rfl, by simp, ?_⟩
      intro w hw
      rcases List.mem_append.mp hw with hw | hw
      · obtain ⟨p, -, r, heq⟩ := htests.own hw
        exact absurd heq (by simp)
      · exact (Event.primingKept.inj (List.mem_singleton.mp hw))
    | dropped _ _ _ => exact absurd rfl hne
  obtain ⟨v, hv, hsingle, hin, hall⟩ := hkept
  obtain ⟨st, vs, rfl⟩ := hchanged
  refine ⟨evs, Later.of_quiet rfl rfl rfl ?_ ?_, ?_, rfl, v, hin⟩
  · rw [boostedLists, List.filterMap_eq_nil_iff]
    exact fun e he => (hevs e he).plain.2.1
  · exact fun inputs nesting t hmem => (hevs _ hmem).plain.2.2 _ _ _ rfl
  · exact ht.extend ⟨rfl, rfl, rfl, rfl, rfl, rfl⟩ rfl (fun e he => (hevs e he).plain.1)
      (Or.inr ⟨v, hv, hsingle, hall⟩)

theorem primingStage_ok (h : executeStage env .priming s₀ = .ok () s) (hne : s.violations ≠ [])
    (ht : Tracked env s₀) :
    ∃ seg, Later env s₀ s (.stage .priming :: seg) ∧ Tracked env s ∧ s.conf = s₀.conf ∧
      (s₀.conf.enablePriming = true → KeptIn seg) := by
  have h := executeStage_ok (x := primingStage env) rfl h
  obtain ⟨t, s₁, hget, h⟩ := bind_ok h
  cases hget
  have hnote := ht.stage .priming
  have hstart : Later env s₀ _ [.stage .priming] := Later.stage s₀ .priming
  split at h
  · obtain ⟨seg, hlater, htracked, hconf, hkept⟩ := primingCheck_ok h hne hnote
    exact ⟨seg, hstart.trans hlater, htracked, hconf, fun _ => hkept⟩
  · rename_i hoff
    cases h
    exact ⟨[], hstart, hnote, rfl, fun hon => absurd hon hoff⟩

/-- The configuration of the stages after the taint stage. -/
structure Settled (env : Env ι θ τ κ) (conf : RoundState) : Prop where
  nesting : conf.modelNesting = maxNesting env
  fastTracing : conf.enableFastContractTracing = false
  priming : conf.enablePriming = env.conf.enablePriming

theorem noiseLoop_ok {sizes : List Nat} (h : noiseLoop env sizes s₀ = .ok () s)
    (hne : s.violations ≠ []) (ht : Tracked env s₀) (hset : Settled env s₀.conf) :
    ∃ seg, Later env s₀ s seg ∧ Tracked env s ∧ Settled env s.conf ∧
      (sizes ≠ [] → FoundIn seg) := by
  induction sizes generalizing s₀ with
  | nil =>
    cases h
    exact ⟨[], Later.of_quiet (by simp) rfl rfl rfl (by simp), ht, hset, fun h => absurd rfl h⟩
  | cons size sizes ih =>
    obtain ⟨t, s₁, hget, hrequire⟩ := bind_ok h
    cases hget
    obtain ⟨first, s₁, hfirst, hconfigure⟩ := bind_ok hrequire
    have hs₁ := ((require_triple (P := fun u => u = s₀) (E := fun _ _ => True)
      fun _ _ => trivial).ok rfl hfirst).2
    clear h hrequire hfirst
    subst hs₁
    obtain ⟨_, s₂, hmodify, hstages⟩ := bind_ok hconfigure
    cases hmodify
    obtain ⟨_, s₃, hnormal, hread⟩ := bind_ok hstages
    obtain ⟨t, s₄, hget, h⟩ := bind_ok hread
    cases hget
    have hstage := (normalStage_spec env _).ok rfl hnormal
    -- the traces to extend are recorded first
    have hrecorded : Tracked env { s₁ with
        conf := { s₁.conf with executorNReps := (size : Int) - first.sampleSize }
        sampleSize := size
        log := s₁.log ++ [.extending s₁.sampleSize s₁.ignoreList s₁.htraces] } :=
      ht.extend ⟨rfl, rfl, rfl, rfl, rfl, rfl⟩ rfl (by simp [Event.isAnalysis])
        (Or.inl ⟨rfl, by simp⟩)
    have hne₃ : s₃.violations ≠ [] := by
      intro hnil
      rw [hnil] at h
      cases h
      exact hne hnil
    obtain ⟨evs, hrun⟩ := hstage.stageRun hne₃ hrecorded.org
    have htracked : Tracked env s₃ :=
      hrun.tracked hne₃ hrecorded.org hrecorded.found
        (Or.inr ⟨hrecorded, hset.nesting, hset.fastTracing⟩)
    have hlater : Later env s₁ s₃
        ([.extending s₁.sampleSize s₁.ignoreList s₁.htraces] ++ evs) := by
      refine Later.trans ?_ (hrun.later hrecorded.current hset.nesting)
      exact Later.of_quiet rfl rfl rfl rfl (by simp)
    have hset₃ : Settled env s₃.conf := by
      rw [hrun.conf]
      exact ⟨hset.nesting, hset.fastTracing, hset.priming⟩
    split at h
    · rename_i hempty
      exact absurd (by simpa using hempty) hne₃
    · obtain ⟨seg, hrest, htrackedS, hsetS, -⟩ := ih h htracked hset₃
      refine ⟨_, hlater.trans hrest, htrackedS, hsetS, fun _ => ?_⟩
      obtain ⟨cs, hs, inputs, ign, n, vs, hmem, hvs⟩ := hrun.foundIn hne₃
      exact ⟨cs, hs, inputs, ign, n, vs, by simp [hmem], hvs⟩

theorem noiseStage_ok (h : executeStage env .noise s₀ = .ok () s) (hne : s.violations ≠ [])
    (ht : Tracked env s₀) (hset : Settled env s₀.conf)
    (hsizes : env.conf.executorSampleSizes ≠ []) :
    ∃ seg, Later env s₀ s (.stage .noise :: seg) ∧ Tracked env s ∧ Settled env s.conf ∧
      (env.conf.executorSampleSizes.length ≠ 1 → FoundIn seg) := by
  have h := executeStage_ok (x := noiseStage env) rfl h
  have hnote := ht.stage .noise
  have hstart : Later env s₀ _ [.stage .noise] := Later.stage s₀ .noise
  unfold noiseStage at h
  split at h
  · rename_i hone
    cases h
    exact ⟨[], hstart, hnote, hset, fun hmany => absurd hone hmany⟩
  · obtain ⟨_, s₁, hmodify, h⟩ := bind_ok h
    cases hmodify
    have hextend : Tracked env { s₀.note (.stage .noise) with
        conf := { s₀.conf with extendHtraces := true } } :=
      hnote.congr ⟨rfl, rfl, rfl, rfl, rfl, rfl⟩ rfl rfl
    obtain ⟨seg, hlater, htracked, hset', hfound⟩ :=
      noiseLoop_ok h hne hextend ⟨hset.nesting, hset.fastTracing, hset.priming⟩
    have hrest : Later env (s₀.note (.stage .noise)) s seg :=
      ⟨hlater.log, hlater.orgInputs, hlater.stable, hlater.taints⟩
    refine ⟨seg, hstart.trans hrest, htracked, hset', fun hmany => hfound ?_⟩
    intro hnil
    cases hlist : env.conf.executorSampleSizes with
    | nil => exact hsizes hlist
    | cons n rest =>
      rw [hlist] at hnil hmany
      have hrest : rest = [] := hnil
      rw [hrest] at hmany
      exact hmany rfl

theorem primingLargeStage_ok (h : executeStage env .primingLarge s₀ = .ok () s)
    (hne : s.violations ≠ []) (ht : Tracked env s₀) :
    ∃ seg, Later env s₀ s (.stage .primingLarge :: seg) ∧ Tracked env s ∧
      s.conf.modelNesting = s₀.conf.modelNesting ∧
      s.conf.enableFastContractTracing = s₀.conf.enableFastContractTracing ∧
      (s₀.conf.enablePriming = true → env.conf.executorSampleSizes.length ≠ 1 → KeptIn seg) := by
  have h := executeStage_ok (x := primingLargeStage env) rfl h
  obtain ⟨t, s₁, hget, h⟩ := bind_ok h
  cases hget
  have hnote := ht.stage .primingLarge
  have hstart : Later env s₀ _ [.stage .primingLarge] := Later.stage s₀ .primingLarge
  split at h
  · rename_i hoff
    cases h
    refine ⟨[], hstart, hnote, rfl, rfl, fun hon hmany => ?_⟩
    rcases hoff with hoff | hone
    · exact absurd (hon.symm.trans hoff) (by decide)
    · exact absurd hone hmany
  · obtain ⟨last, s₁, hlast, hconfigure⟩ := bind_ok h
    have hs₁ := ((require_triple (P := fun u => u = s₀.note (.stage .primingLarge))
      (E := fun _ _ => True) fun _ _ => trivial).ok rfl hlast).2
    clear h hlast
    subst hs₁
    obtain ⟨_, s₂, hmodify, h⟩ := bind_ok hconfigure
    cases hmodify
    obtain ⟨seg, hlater, htracked, hconf, hkept⟩ := primingCheck_ok h hne
      (hnote.congr ⟨rfl, rfl, rfl, rfl, rfl, rfl⟩ rfl rfl)
    have hrest : Later env (s₀.note (.stage .primingLarge)) s seg :=
      ⟨hlater.log, hlater.orgInputs, hlater.stable, hlater.taints⟩
    refine ⟨seg, hstart.trans hrest, htracked, ?_, ?_, fun _ _ => hkept⟩
    · rw [hconf]
      rfl
    · rw [hconf]
      rfl

theorem Tracked.boostedInputs_ne_nil (h : Tracked env s) : s.boostedInputs ≠ [] := by
  rcases h.current with ⟨-, hb⟩ | ⟨-, t, -, hgen⟩
  · rw [hb]
    exact h.org
  · cases horg : s.orgInputs with
    | nil => exact absurd horg h.org
    | cons first rest =>
      rw [horg] at hgen
      simp only [generateBoosted, Option.ite_none_right_eq_some, Option.some.injEq] at hgen
      rw [← hgen.2]
      simp

/-- The check leaves everything but its verdict as it was. -/
theorem checkForArchitecturalMismatch_checked (hne : s₀.boostedInputs ≠ []) :
    Triple (fun s => s = s₀) (checkForArchitecturalMismatch env)
      (fun _ s => ∃ vs mismatch, s = { s₀ with
          archViolations := vs
          log := s₀.log ++ [.archChecked s₀.boostedInputs mismatch] } ∧
        (vs = [] → mismatch = false)) (fun _ _ => True) := by
  refine Triple.bind (R := fun _ t => t = s₀) ?_ fun _ => ?_
  · refine Triple.modify fun t ht => ?_
    rw [ht, if_neg (by simpa using hne)]
  refine Triple.get_bind fun t ht => ?_
  subst ht
  cases env.archReadTrace t.log t.boostedInputs with
  | none => exact Triple.modify fun u hu => ⟨[], false, by rw [hu], fun _ => rfl⟩
  | some readings =>
    refine Triple.bind (require_triple fun _ _ => trivial) fun found => ?_
    refine Triple.modify fun u hu => ?_
    rw [hu.2]
    refine ⟨_, found.isSome, rfl, ?_⟩
    cases found with
    | none => exact fun _ => rfl
    | some v => simp

/-- The last stage: the round reports its first violation when there is no mismatch. -/
theorem archMismatchStage_ok {v : Violation ι τ} (h : runStages env [] s₀ = .ok (some v) s)
    (ht : Tracked env s₀) :
    ∃ seg, Later env s₀ s (.stage .archMismatch :: seg) ∧ Tracked env s ∧ s.conf = s₀.conf ∧
      s.violations.head? = some v ∧ .archChecked s.boostedInputs false ∈ seg := by
  obtain ⟨_, s₁, hstage, hread⟩ := bind_ok h
  obtain ⟨t, s₂, hget, hreturn⟩ := bind_ok hread
  cases hget
  split at hreturn
  · rename_i hempty
    injection hreturn with hv hs
    subst hs
    have hnote := ht.stage .archMismatch
    have hnil : s₁.archViolations = [] := by simpa using hempty
    have hcheck := executeStage_ok (x := checkForArchitecturalMismatch env) rfl hstage
    obtain ⟨vs, mismatch, hs₁, hmismatch⟩ :=
      (checkForArchitecturalMismatch_checked hnote.boostedInputs_ne_nil).ok rfl hcheck
    clear h hstage hread hcheck hempty
    subst hs₁
    rw [hmismatch hnil]
    refine ⟨[.archChecked s₀.boostedInputs false], ?_, ?_, rfl, hv, by simp [RoundManager.note]⟩
    · refine Later.of_quiet ?_ rfl rfl rfl (by simp)
      simp [RoundManager.note]
    · exact hnote.extend ⟨rfl, rfl, rfl, rfl, rfl, rfl⟩ rfl (by simp [Event.isAnalysis])
        (Or.inl ⟨rfl, by simp⟩)
  · injection hreturn with hv hs
    exact absurd hv (by simp)

end Stages

/-- The log is cut where the taint stage begins. -/
theorem log_taintMistake {log early late : List (Event ι θ τ)}
    (hlog : log = early ++ .stage .taintMistake :: late)
    (h : ∀ e ∈ early, e.begins ≠ some .taintMistake) :
    logBefore .taintMistake log = early ∧
      logFrom .taintMistake log = .stage .taintMistake :: late := by
  subst hlog
  have hall : ∀ e ∈ early, decide (e.begins ≠ some .taintMistake) = true := fun e he =>
    decide_eq_true (h e he)
  constructor
  · unfold logBefore
    rw [List.takeWhile_append_of_pos hall]
    simp [Event.begins]
  · unfold logFrom
    rw [List.dropWhile_append_of_pos hall]
    simp [Event.begins]

theorem Tracked.lastAnalysis {s : RoundManager ι θ τ κ} {v : Violation ι τ} (h : Tracked env s)
    (hv : s.violations.head? = some v) (hnesting : s.conf.modelNesting = maxNesting env)
    (hfast : s.conf.enableFastContractTracing = false)
    (hrep : ReproducibleTaints env s.orgInputs s.log) :
    LastAnalysis env v s s.ctraces s.htraces := by
  obtain ⟨pre, post, ign, n, vs, hlog, hpost, hsub, hkept, hinputs⟩ := h.last
  have hmem : v ∈ s.violations := List.mem_of_head? hv
  refine ⟨⟨pre, post, ign, n, vs, hlog, hpost, hsub hmem, ?_⟩, hinputs v (hsub hmem), h.lengths, ?_,
    h.gathered hrep⟩
  · intro w hw
    rw [hkept w hw] at hv
    exact Option.some.inj hv
  · have htraced := h.traced hrep hfast
    rwa [hnesting] at htraced

/-- The stages up to the end of the nesting stage. -/
theorem early_of_stages {org : List ι} {s₁ s₂ : RoundManager ι θ τ κ}
    {fast nesting : List (Event ι θ τ)}
    (hfastB : ∀ e ∈ fast, e.begins = none) (hnestB : ∀ e ∈ nesting, e.begins = none)
    (hfast : boostedLists fast = [s₁.boostedInputs])
    (htaints : ∀ inputs n t, .tainted inputs n t ∈ fast → n = startNesting env ∧
      generateBoosted env.dataGen org t env.conf.inputsPerClass = some s₁.boostedInputs)
    (hcases : (startNesting env = maxNesting env ∧ nesting = [] ∧
        s₂.boostedInputs = s₁.boostedInputs) ∨
      startNesting env ≠ maxNesting env ∧ FoundIn nesting ∧
        boostedLists nesting = [s₂.boostedInputs] ∧
        ∀ inputs n t, .tainted inputs n t ∈ nesting →
          generateBoosted env.dataGen org t env.conf.inputsPerClass = some s₂.boostedInputs) :
    Early env org s₂.boostedInputs (.stage .fast :: fast ++ .stage .nesting :: nesting) := by
  have hlists : boostedLists (.stage .fast :: fast ++ .stage .nesting :: nesting) =
      boostedLists fast ++ boostedLists nesting := by
    unfold boostedLists
    rw [List.filterMap_append]
    rfl
  refine ⟨?_, ?_, ?_⟩
  · intro e he
    rcases List.mem_append.mp he with he | he
    · rcases List.mem_cons.mp he with rfl | he
      · simp [Event.begins]
      · simp [hfastB e he]
    · rcases List.mem_cons.mp he with rfl | he
      · simp [Event.begins]
      · simp [hnestB e he]
  · rw [hlists, hfast]
    rcases hcases with ⟨-, rfl, hsame⟩ | ⟨-, -, hnest, -⟩
    · simp [boostedLists, hsame]
    · rw [hnest]
      rfl
  · intro inputs t ht
    have hmem : .tainted inputs (maxNesting env) t ∈ fast ∨
        .tainted inputs (maxNesting env) t ∈ nesting := by
      simpa using ht
    rcases hcases with ⟨-, rfl, hsame⟩ | ⟨hdiff, -, -, hnest⟩
    · rw [hsame]
      exact (htaints _ _ t (hmem.resolve_right (by simp))).2
    · rcases hmem with hmem | hmem
      · exact absurd (htaints _ _ t hmem).1.symm hdiff
      · exact hnest _ _ t hmem

/-- A violation that a round reports has survived all enabled stages on one consistent data set
exactly when the model reproduces its taints. -/
theorem fuzzingRound_survived_iff (env : Env ι θ τ κ) (inputs : List ι)
    (startingIgnoreList : List Nat) (st : κ) {s₀ s : RoundManager ι θ τ κ} {v : Violation ι τ}
    (hnew : newRound env inputs startingIgnoreList st = some s₀)
    (hrun : fuzzingRound env s₀ = .ok (some v) s) :
    Survived env v s ↔ ReproducibleTaints env inputs s.log := by
  obtain ⟨hsizes, n, rfl⟩ := newRound_eq env hnew
  obtain ⟨s₁, hfast, hne₁, hrun⟩ := runStages_some hrun
  obtain ⟨s₂, hnesting, hne₂, hrun⟩ := runStages_some hrun
  obtain ⟨s₃, htaint, hne₃, hrun⟩ := runStages_some hrun
  obtain ⟨s₄, hpriming, hne₄, hrun⟩ := runStages_some hrun
  obtain ⟨s₅, hnoise, hne₅, hrun⟩ := runStages_some hrun
  obtain ⟨s₆, hlarge, hne₆, hrun⟩ := runStages_some hrun
  obtain ⟨fast, hlog₁, ht₁, hconf₁, horg₁, hbegins₁, hboosts₁, htaints₁⟩ :=
    fastStage_ok hfast hne₁ rfl rfl rfl rfl
  obtain ⟨nesting, hlog₂, ht₂, hconf₂, horg₂, hbegins₂, hcases⟩ := nestingStage_ok hnesting hne₂ ht₁
    (by rw [hconf₁]; rfl) (by rw [hconf₁]; rfl)
  have hmax₂ : s₂.conf.modelNesting = maxNesting env := by
    rw [hconf₂, hconf₁]
    rfl
  obtain ⟨taint, hlater₃, ht₃, hconf₃, hfound₃⟩ := taintMistakeStage_ok htaint hne₃ ht₂
    (by rw [hconf₂, hconf₁]; rfl) (by rw [hconf₂, hconf₁]; rfl) hmax₂
  obtain ⟨priming, hlater₄, ht₄, hconf₄, hkept₄⟩ := primingStage_ok hpriming hne₄ ht₃
  have hset₄ : Settled env s₄.conf := by
    rw [hconf₄, hconf₃, hconf₂, hconf₁]
    exact ⟨rfl, rfl, rfl⟩
  obtain ⟨noise, hlater₅, ht₅, hset₅, hfound₅⟩ := noiseStage_ok hnoise hne₅ ht₄ hset₄ hsizes
  obtain ⟨large, hlater₆, ht₆, hnest₆, hfast₆, hkept₆⟩ := primingLargeStage_ok hlarge hne₆ ht₅
  obtain ⟨arch, hlater₇, ht₇, hconf₇, hhead, harch⟩ := archMismatchStage_ok hrun ht₆
  have hlater := (((hlater₃.trans hlater₄).trans hlater₅).trans hlater₆).trans hlater₇
  have horg : s.orgInputs = inputs := hlater.orgInputs.trans (horg₂.trans horg₁)
  rw [hconf₁] at hcases
  rw [horg₁] at hcases
  have hearly := early_of_stages hbegins₁ hbegins₂ hboosts₁ htaints₁ hcases
  have hlog : s.log = (.stage .fast :: fast ++ .stage .nesting :: nesting) ++
      .stage .taintMistake :: (taint ++ .stage .priming :: priming ++ .stage .noise :: noise ++
        .stage .primingLarge :: large ++ .stage .archMismatch :: arch) := by
    rw [hlater.log, hlog₂, hlog₁]
    rfl
  have hlists := log_taintMistake hlog hearly.begins
  constructor
  · intro hsurvived
    -- every list that the taints boost to is the list at the end
    have hall : ∀ t, .tainted inputs (maxNesting env) t ∈ s.log →
        generateBoosted env.dataGen inputs t env.conf.inputsPerClass = some s.boostedInputs := by
      intro t hmem
      have hbefore := hsurvived.stable.before
      rw [hlists.1, hearly.boosts] at hbefore
      rw [hlog] at hmem
      rcases List.mem_append.mp hmem with hmem | hmem
      · rw [← hbefore]
        exact hearly.taints _ t hmem
      · obtain ⟨b, hb, hgen⟩ := hlater.taints _ _ t hmem
        have hend := hsurvived.stable.after b (by rw [hlists.2]; exact hb)
        rw [horg₂, horg₁] at hgen
        rw [← hend]
        exact hgen
    intro t t' ht ht'
    rw [hall t ht, hall t' ht']
  · intro hrep
    rw [← horg] at hrep
    obtain ⟨hsame, hafter⟩ := hlater.stable hrep
    have hnestingS : s.conf.modelNesting = maxNesting env := by
      rw [hconf₇, hnest₆, hset₅.nesting]
    have hfastS : s.conf.enableFastContractTracing = false := by
      rw [hconf₇, hfast₆, hset₅.fastTracing]
    refine ⟨⟨s.ctraces, s.htraces, ht₇.lastAnalysis hhead hnestingS hfastS hrep⟩, ?_, ?_, ?_⟩
    · refine ⟨fast, nesting, taint, priming, noise, large, arch, ?_, ht₇.found, ?_, ?_, ?_, hfound₅,
        ?_, harch⟩
      · rw [hlog]
        simp
      · intro hdiff
        rcases hcases with ⟨heq, -⟩ | ⟨-, hfound, -⟩
        · exact absurd heq hdiff
        · exact hfound
      · intro hon
        exact hfound₃ (by rw [hconf₂, hconf₁]; exact hon)
      · intro hon
        exact hkept₄ (by rw [hconf₃, hconf₂, hconf₁]; exact hon)
      · intro hon hmany
        exact hkept₆ (by rw [hset₅.priming]; exact hon) hmany
    · rw [hlists.1, hearly.boosts, hsame]
    · rw [hlists.2]
      exact hafter

section Sample

/-- The result of a round with two inputs and four samples at first. -/
def roundOf (env : Env Nat Bool Unit BitmapCache) :
    EStateM.Result RoundError (RoundManager Nat Bool Unit BitmapCache) (Option (Violation Nat Unit)) :=
  fuzzingRound env (firstRound env [0, 1] [] [] 4)

/-- Two leaking classes of two inputs each. When `flaky`, the model taints input 0 only in its third
answer. -/
def taintEnv (flaky : Bool) : Env Nat Bool Unit BitmapCache where
  conf := ⟨[4, 8], 1, 1, true, false, 2, false⟩
  testCase := ()
  isSpeculative := true
  dataGen := ⟨2, fun _ => 1, fun state _ => (state, state + 1), fun t old new => if t then old else new⟩
  traceTestCase _ inputs _ := inputs.map fun i => ⟨[⟨.pc, (i % 2 : Nat)⟩]⟩
  traceTestCaseWithTaints log inputs _ :=
    (inputs.map fun i => ⟨[⟨.pc, (i % 2 : Nat)⟩]⟩,
      inputs.map fun i => flaky && i == 0 && (boostedLists log).length == 2)
  readTrace _ inputs _ := some (noiseHardware true inputs)
  archReadTrace _ _ := none
  archTraceTestCase _ _ _ := []
  analyser := equivalenceAnalyser noiseXxh64 ⟨false, fun n => n / 4⟩ .mergedBitmap

/-- The round reports a violation. -/
def reports : EStateM.Result RoundError (RoundManager Nat Bool Unit BitmapCache)
    (Option (Violation Nat Unit)) → Bool
  | .ok (some _) _ => true
  | _ => false

theorem reports_eq {r : EStateM.Result RoundError (RoundManager Nat Bool Unit BitmapCache)
    (Option (Violation Nat Unit))} (h : reports r = true) : ∃ v s, r = .ok (some v) s := by
  cases r with
  | error _ _ => exact absurd h (by simp [reports])
  | ok v s =>
    cases v with
    | none => exact absurd h (by simp [reports])
    | some v => exact ⟨v, s, rfl⟩

theorem fuzzingRound_survived_iff_sample :
    ∃ v s, roundOf (taintEnv false) = .ok (some v) s ∧
      (Survived (taintEnv false) v s ↔ ReproducibleTaints (taintEnv false) [0, 1] s.log) := by
  obtain ⟨v, s, hrun⟩ := reports_eq (r := roundOf (taintEnv false)) (by decide +kernel)
  exact ⟨v, s, hrun, fuzzingRound_survived_iff (taintEnv false) [0, 1] [] [] rfl hrun⟩

/-- In the noise stage the list of boosted inputs is another one, and the contract traces are those
of the old list. -/
theorem taintEnv_not_survived :
    ¬ ∀ v s, roundOf (taintEnv true) = .ok (some v) s → Survived (taintEnv true) v s := by
  intro hall
  obtain ⟨v, s, hrun⟩ := reports_eq (r := roundOf (taintEnv true)) (by decide +kernel)
  have hchanges : ¬ ∀ b ∈ boostedLists (logFrom .taintMistake (finalState (roundOf (taintEnv true))).log),
      b = (finalState (roundOf (taintEnv true))).boostedInputs := by decide +kernel
  rw [hrun] at hchanges
  exact hchanges (hall v s hrun).stable.after

end Sample

end Rvzr.Fuzzer
