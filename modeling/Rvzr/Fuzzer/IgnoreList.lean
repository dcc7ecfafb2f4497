import Rvzr.Fuzzer.Analysis
import Rvzr.Fuzzer.Priming
import Rvzr.Fuzzer.Stages

/-!
# Ignored inputs

Whether an input that was put on the ignore list stays out of the later violations of the round,
and whether the analyser always sees traces of the configured size. Both hold as long as the noise
stage does not extend the trace of an input that was measured before it was ignored, and the first
trace has the size of the others.
-/

namespace Rvzr.Fuzzer

open Rvzr.Lib Rvzr.Analyser

variable {ι θ τ κ : Type}

/-- The inputs that an event put on the ignore list. -/
def Event.ignoredIds : Event ι θ τ → List Nat
  | .ignored ids => ids
  | _ => []

/-- The violations that an event computed. -/
def Event.computed : Event ι θ τ → List (Violation ι τ)
  | .analysed _ _ _ _ _ vs => vs
  | _ => []

/-- No violation that `e'` computed holds an input that `e` put on the ignore list. -/
def StaysOut (e e' : Event ι θ τ) : Prop :=
  ∀ v ∈ e'.computed, ∀ m ∈ v.measurements, m.inputId ∉ e.ignoredIds

instance : DecidableRel (StaysOut : Event ι θ τ → Event ι θ τ → Prop) := fun e e' =>
  inferInstanceAs (Decidable (∀ v ∈ e'.computed, ∀ m ∈ v.measurements, m.inputId ∉ e.ignoredIds))

/-- In an analysis every input that is not ignored has as many samples as configured. -/
def SizesOk : Event ι θ τ → Prop
  | .analysed _ htraces _ ignoreList sampleSize _ =>
    ∀ i h, i ∉ ignoreList → htraces[i]? = some h → h.sampleSize = sampleSize
  | _ => True

/-- What the noise stage is about to extend: the size configured before, the ignore list and the
traces. -/
def Event.extension : Event ι θ τ → Option (Nat × Finset Nat × List HTrace)
  | .extending sampleSize ignoreList htraces => some (sampleSize, ignoreList, htraces)
  | _ => none

/-- The noise stage extends safely: the first trace has the size configured before, and the trace
of an ignored input shows nothing. -/
def SafeExtension (e : Event ι θ τ) : Prop :=
  ∀ x ∈ e.extension, (∀ h ∈ x.2.2.head?, h.sampleSize = x.1) ∧
    ∀ i ∈ x.2.1, ∀ h ∈ x.2.2[i]?, h.isCorruptedOrIgnored = true

instance : DecidablePred (SafeExtension : Event ι θ τ → Prop) := fun e =>
  inferInstanceAs (Decidable (∀ x ∈ e.extension, (∀ h ∈ x.2.2.head?, h.sampleSize = x.1) ∧
    ∀ i ∈ x.2.1, ∀ h ∈ x.2.2[i]?, h.isCorruptedOrIgnored = true))

def SafeExtensions (log : List (Event ι θ τ)) : Prop := ∀ e ∈ log, SafeExtension e

/-- The log of a round in which ignored inputs stay out and the sample sizes are right. -/
structure IgnoresOk (log : List (Event ι θ τ)) : Prop where
  staysOut : log.Pairwise StaysOut
  sizes : ∀ e ∈ log, SizesOk e

/-- The number of inputs after boosting. -/
def boostedCount (inputsPerClass nInputs : Nat) : Nat := nInputs + (inputsPerClass - 1) * nInputs

section Boosting

variable (gen : DataGenerator ι θ)

theorem boostOnce_length (nActors : Nat) {inputs : List ι} {taints : List θ}
    (h : inputs.length = taints.length) (state : Nat) :
    (boostOnce gen nActors inputs taints state).1.length = inputs.length := by
  induction inputs generalizing taints state with
  | nil => simp [boostOnce]
  | cons input inputs ih =>
    cases taints with
    | nil => exact absurd h (by simp)
    | cons taint taints =>
      simp only [boostOnce, List.length_cons]
      rw [ih (by simpa using h)]

theorem boostPasses_length (nActors : Nat) {inputs : List ι} {taints : List θ}
    (h : inputs.length = taints.length) (passes state : Nat) :
    (boostPasses gen nActors inputs taints passes state).length = passes * inputs.length := by
  induction passes generalizing state with
  | zero => simp [boostPasses]
  | succ passes ih =>
    simp only [boostPasses, List.length_append]
    rw [boostOnce_length gen nActors h, ih, Nat.succ_mul]
    omega

theorem generateBoosted_length {inputs boosted : List ι} {taints : List θ} {inputsPerClass : Nat}
    (h : generateBoosted gen inputs taints inputsPerClass = some boosted) :
    boosted.length = boostedCount inputsPerClass inputs.length := by
  cases inputs with
  | nil =>
    have hnil : [] = boosted := Option.some.inj h
    simp [← hnil, boostedCount]
  | cons first inputs =>
    simp only [generateBoosted, Option.ite_none_right_eq_some, Option.some.injEq] at h
    rw [← h.2, List.length_append, boostPasses_length gen _ h.1]
    rfl

end Boosting

variable (env : Env ι θ τ κ)

theorem Boosted.length {s₀ s : RoundManager ι θ τ κ} (h : Boosted env s₀ s) :
    s.boostedInputs.length = boostedCount env.conf.inputsPerClass s₀.orgInputs.length := by
  obtain ⟨inputs, evs, cs, hboosts, rfl⟩ := h
  cases hboosts with
  | plain hone => simp [boostedCount, hone]
  | tainted _ hboost => exact generateBoosted_length env.dataGen hboost

section Measuring

variable {ign : Finset Nat} {n : Nat} {nReps : Int} {new : List HTrace}

theorem Measures.length (h : Measures env ign n nReps new) : new.length = n := by
  cases h with
  | noInputs hn => rw [hn]; rfl
  | allIgnored _ => simp
  | read _ => simp [rawReadingsToTraces]

/-- An input that is not ignored has all its repetitions. -/
theorem Measures.size (h : Measures env ign n nReps new) (hrange : ∀ i ∈ ign, i < n) {i : Nat}
    {t : HTrace} (hi : i ∉ ign) (ht : new[i]? = some t) : (t.sampleSize : Int) = nReps := by
  have hlt : i < n := by
    have := (List.getElem?_eq_some_iff.mp ht).1
    rw [h.length] at this
    exact this
  cases h with
  | noInputs hn => omega
  | allIgnored hall =>
    -- then every input is ignored
    have hsub : ign ⊆ Finset.range n := fun j hj => Finset.mem_range.mpr (hrange j hj)
    have heq : ign = Finset.range n :=
      Finset.eq_of_subset_of_card_le hsub (by rw [Finset.card_range]; exact hall)
    exact absurd (heq ▸ Finset.mem_range.mpr hlt) hi
  | read hreps =>
    simp only [rawReadingsToTraces, List.getElem?_map, List.getElem?_range hlt, Option.map_some,
      if_neg hi, Option.some.injEq] at ht
    rw [← ht]
    simp only [HTrace.sampleSize, List.length_map, List.length_range]
    omega

theorem Measures.ignored (h : Measures env ign n nReps new) {i : Nat} {t : HTrace} (hi : i ∈ ign)
    (ht : new[i]? = some t) : t.isCorruptedOrIgnored = true := by
  have hlt : i < n := by
    have := (List.getElem?_eq_some_iff.mp ht).1
    rw [h.length] at this
    exact this
  cases h with
  | noInputs hn => omega
  | allIgnored _ =>
    rw [List.getElem?_replicate, if_pos hlt, Option.some.injEq] at ht
    rw [← ht]
    rfl
  | read _ =>
    simp only [rawReadingsToTraces, List.getElem?_map, List.getElem?_range hlt, Option.map_some,
      if_pos hi, Option.some.injEq] at ht
    rw [← ht]
    rfl

theorem merge_sampleSize (a b : HTrace) :
    (merge a b).sampleSize = a.sampleSize + b.sampleSize := by
  simp [merge, HTrace.sampleSize]

theorem merge_isCorruptedOrIgnored {a b : HTrace} (ha : a.isCorruptedOrIgnored = true)
    (hb : b.isCorruptedOrIgnored = true) : (merge a b).isCorruptedOrIgnored = true := by
  simp only [HTrace.isCorruptedOrIgnored, HTrace.getRawTraces, merge, List.map_append,
    List.all_append, Bool.and_eq_true] at ha hb ⊢
  exact ⟨ha, hb⟩

end Measuring

/-- The traces of the inputs that are not ignored have `size` samples. -/
def TracesOk (s : RoundManager ι θ τ κ) (size : Nat) : Prop :=
  ∀ i h, i ∉ s.ignoreList → s.htraces[i]? = some h → h.sampleSize = size

/-- The traces of the ignored inputs show nothing. -/
def IgnoredHidden (s : RoundManager ι θ τ κ) : Prop :=
  ∀ i h, i ∈ s.ignoreList → s.htraces[i]? = some h → h.isCorruptedOrIgnored = true

/-- The next measurement makes traces of the configured size. -/
def RepsOk (s : RoundManager ι θ τ κ) : Prop :=
  if s.conf.extendHtraces then
    ∃ size, TracesOk s size ∧ s.conf.executorNReps = s.sampleSize - size ∧ IgnoredHidden s
  else s.conf.executorNReps = s.sampleSize

/-- What holds of a round at all times: the log is right if the extensions were safe. -/
structure RoundOk (n : Nat) (s : RoundManager ι θ τ κ) : Prop where
  log : SafeExtensions s.log → IgnoresOk s.log
  recorded : ∀ e ∈ s.log, ∀ i ∈ e.ignoredIds, i ∈ s.ignoreList
  range : ∀ i ∈ s.ignoreList, i < n
  count : boostedCount env.conf.inputsPerClass s.orgInputs.length = n

theorem Event.Quiet.ignoredIds {e : Event ι θ τ} (h : e.Quiet) : e.ignoredIds = [] := by
  cases e with
  | ignored ids => exact absurd h id
  | _ => rfl

theorem Event.Quiet.computed {e : Event ι θ τ} (h : e.Quiet) : e.computed = [] := by
  cases e with
  | analysed _ _ _ _ _ vs => exact absurd h id
  | _ => rfl

theorem Event.Quiet.sizesOk {e : Event ι θ τ} (h : e.Quiet) : SizesOk e := by
  cases e with
  | analysed _ _ _ _ _ vs => exact absurd h id
  | _ => trivial

theorem SafeExtensions.left {log evs : List (Event ι θ τ)} (h : SafeExtensions (log ++ evs)) :
    SafeExtensions log := fun e he => h e (List.mem_append_left _ he)

/-- The log stays right when it is extended by events that stay out and have the right sizes. -/
theorem IgnoresOk.append {log evs : List (Event ι θ τ)} (h : IgnoresOk log)
    (hself : evs.Pairwise StaysOut) (hout : ∀ e ∈ log, ∀ e' ∈ evs, StaysOut e e')
    (hsizes : ∀ e ∈ evs, SizesOk e) : IgnoresOk (log ++ evs) := by
  refine ⟨List.pairwise_append.mpr ⟨h.staysOut, hself, hout⟩, ?_⟩
  intro e he
  exact (List.mem_append.mp he).elim (h.sizes e) (hsizes e)

section Steps

variable {env} {n : Nat} {s₀ s s₁ : RoundManager ι θ τ κ}

/-- Events without ignored inputs and violations change nothing. -/
theorem RoundOk.append {evs : List (Event ι θ τ)} (h : RoundOk env n s₀)
    (hign : s.ignoreList = s₀.ignoreList) (horg : s.orgInputs = s₀.orgInputs)
    (hlog : s.log = s₀.log ++ evs)
    (hevs : ∀ e ∈ evs, e.ignoredIds = [] ∧ e.computed = [] ∧ SizesOk e) : RoundOk env n s := by
  have hout : ∀ e, ∀ e' ∈ evs, StaysOut e e' := by
    intro e e' he' v hv
    rw [(hevs e' he').2.1] at hv
    exact absurd hv (by simp)
  refine ⟨?_, ?_, ?_, ?_⟩
  · rw [hlog]
    intro hsafe
    refine (h.log hsafe.left).append ?_ (fun e _ => hout e) fun e he => (hevs e he).2.2
    exact List.pairwise_of_forall_mem_list fun e _ e' he' => hout e e' he'
  · rw [hlog, hign]
    intro e he i hi
    rcases List.mem_append.mp he with he | he
    · exact h.recorded e he i hi
    · rw [(hevs e he).1] at hi
      exact absurd hi (by simp)
  · rw [hign]
    exact h.range
  · rw [horg]
    exact h.count

theorem RoundOk.quieter (h : RoundOk env n s₀) (hq : Quieter s₀ s)
    (horg : s.orgInputs = s₀.orgInputs) : RoundOk env n s := by
  obtain ⟨hign, evs, hlog, hevs⟩ := hq
  refine h.append hign horg hlog fun e he => ?_
  exact ⟨(hevs e he).ignoredIds, (hevs e he).computed, (hevs e he).sizesOk⟩

/-- The noise stage records its extension and sets the next sample size. -/
theorem RoundOk.extending (h : RoundOk env n s₀) (conf : RoundState) (size : Nat) :
    RoundOk env n { s₀ with
      conf := conf
      sampleSize := size
      log := s₀.log ++ [.extending s₀.sampleSize s₀.ignoreList s₀.htraces] } := by
  refine h.append rfl rfl rfl ?_
  intro e he
  rw [List.mem_singleton.mp he]
  exact ⟨rfl, rfl, trivial⟩

/-- The measurement of a stage. -/
theorem HTraced.traces (h : HTraced env s₀ s) (hrange : ∀ i ∈ s₀.ignoreList, i < n)
    (hlen : s₀.boostedInputs.length = n) (hreps : RepsOk s₀) :
    TracesOk s s.sampleSize ∧ IgnoredHidden s := by
  obtain ⟨new, hmeasures, -, rfl⟩ := h
  rw [hlen] at hmeasures
  unfold RepsOk at hreps
  by_cases hext : s₀.conf.extendHtraces = true
  · rw [if_pos hext] at hreps
    obtain ⟨size, htraces, hn, hhidden⟩ := hreps
    -- the new samples of a trace stand before its old ones
    have hget : ∀ {i : Nat} {t : HTrace}, (List.zipWith merge new s₀.htraces)[i]? = some t →
        ∃ a b, new[i]? = some a ∧ s₀.htraces[i]? = some b ∧ merge a b = t := by
      intro i t ht
      exact List.getElem?_zipWith_eq_some.mp ht
    constructor
    · intro i t hi ht
      simp only [if_pos hext] at ht
      obtain ⟨a, b, ha, hb, rfl⟩ := hget ht
      have hsizeA := hmeasures.size env hrange hi ha
      have hsizeB := htraces i b hi hb
      rw [merge_sampleSize, hsizeB]
      show a.sampleSize + size = s₀.sampleSize
      omega
    · intro i t hi ht
      simp only [if_pos hext] at ht
      obtain ⟨a, b, ha, hb, rfl⟩ := hget ht
      exact merge_isCorruptedOrIgnored (hmeasures.ignored env hi ha) (hhidden i b hi hb)
  · rw [if_neg hext] at hreps
    constructor
    · intro i t hi ht
      simp only [if_neg hext] at ht
      have hsize := hmeasures.size env hrange hi ht
      show t.sampleSize = s₀.sampleSize
      omega
    · intro i t hi ht
      simp only [if_neg hext] at ht
      exact hmeasures.ignored env hi ht

/-- An analysis of such traces finds no ignored input. -/
theorem Analysed.roundOk (h : Analysed env s₀ s) (hok : RoundOk env n s₀)
    (htraces : SafeExtensions s₀.log → TracesOk s₀ s₀.sampleSize ∧ IgnoredHidden s₀) :
    RoundOk env n s := by
  obtain ⟨vs, st, hanswer, -, rfl⟩ := h
  refine ⟨?_, ?_, hok.range, hok.count⟩
  · intro hsafe
    have hsafe := SafeExtensions.left hsafe
    refine (hok.log hsafe).append (by simp) ?_ ?_
    · intro e he e' he' v hv m hm hid
      rw [List.mem_singleton.mp he'] at hv
      obtain ⟨t, ht, -, hshows⟩ := env.analyser.measured hanswer v hv m hm
      have hhidden := (htraces hsafe).2 m.inputId t (hok.recorded e he _ hid) ht
      rw [hhidden] at hshows
      exact absurd hshows (by decide)
    · intro e he
      rw [List.mem_singleton.mp he]
      exact (htraces hsafe).1
  · intro e he i hi
    rcases List.mem_append.mp he with he | he
    · exact hok.recorded e he i hi
    · rw [List.mem_singleton.mp he] at hi
      exact absurd hi (by simp [Event.ignoredIds])

theorem RoundOk.ignoreUpdated (h : RoundOk env n s₀) (hlen : s₀.boostedInputs.length = n) :
    RoundOk env n (ignoreUpdated s₀) := by
  unfold Fuzzer.ignoreUpdated
  by_cases hon : s₀.conf.updateIgnoreList = true
  · rw [if_pos hon]
    refine ⟨?_, ?_, ?_, h.count⟩
    · intro hsafe
      refine (h.log hsafe.left).append (by simp) ?_ ?_
      · intro e _ e' he' v hv
        rw [List.mem_singleton.mp he'] at hv
        exact absurd hv (by simp [Event.computed])
      · intro e he
        rw [List.mem_singleton.mp he]
        trivial
    · intro e he i hi
      rcases List.mem_append.mp he with he | he
      · exact Finset.mem_union_left _ (h.recorded e he i hi)
      · rw [List.mem_singleton.mp he] at hi
        exact Finset.mem_union_right _ (List.mem_toFinset.mpr hi)
    · intro i hi
      rcases Finset.mem_union.mp hi with hi | hi
      · exact h.range i hi
      · have hmem := (List.mem_filter.mp (List.mem_toFinset.mp hi)).1
        have hlt := List.mem_range.mp hmem
        omega
  · rw [if_neg hon]
    exact h

/-- A normal stage: the log stays right, and the traces fit when a violation is left. -/
theorem NormalStage.roundOk (h : NormalStage env s₀ s) (hok : RoundOk env n s₀)
    (hreps : SafeExtensions s₀.log → RepsOk s₀) :
    RoundOk env n s ∧ s.conf = s₀.conf ∧ s.sampleSize = s₀.sampleSize ∧
      (s.violations ≠ [] → SafeExtensions s.log → TracesOk s s.sampleSize) := by
  obtain ⟨s₁, s₂, hboost, hct, hend⟩ := h
  have hlen := hboost.length env
  rw [hok.count] at hlen
  have hquiet : Quieter s₀ s₂ := (hboost.quieter env).trans (hct.quieter env)
  have horg : s₂.orgInputs = s₀.orgInputs := by
    rw [hct.orgInputs env]
    obtain ⟨inputs, evs, cs, -, rfl⟩ := hboost
    rfl
  have hok₂ : RoundOk env n s₂ := hok.quieter hquiet horg
  -- nothing that the measurement uses has changed since the beginning
  have hreps₂ : SafeExtensions s₂.log → RepsOk s₂ := by
    obtain ⟨inputs, evs, cs, -, rfl⟩ := hboost
    obtain ⟨cs', evs', -, rfl⟩ := hct
    exact fun hsafe => hreps hsafe.left.left
  have hlen₂ : s₂.boostedInputs.length = n := by
    obtain ⟨cs', evs', -, rfl⟩ := hct
    exact hlen
  have hconf : s₂.conf = s₀.conf ∧ s₂.sampleSize = s₀.sampleSize := by
    obtain ⟨inputs, evs, cs, -, rfl⟩ := hboost
    obtain ⟨cs', evs', -, rfl⟩ := hct
    exact ⟨rfl, rfl⟩
  clear hboost hct
  -- the measured state, and what its analysis gives
  have hmeasured : ∀ {s₃}, HTraced env s₂ s₃ → RoundOk env n s₃ ∧ s₃.conf = s₂.conf ∧
      s₃.sampleSize = s₂.sampleSize ∧ s₃.boostedInputs.length = n ∧
      (SafeExtensions s₃.log → TracesOk s₃ s₃.sampleSize ∧ IgnoredHidden s₃) := by
    intro s₃ hht
    have hsafe₂ : SafeExtensions s₃.log → SafeExtensions s₂.log := by
      obtain ⟨new, -, -, rfl⟩ := hht
      exact SafeExtensions.left
    have htraces := fun hsafe => hht.traces hok₂.range hlen₂ (hreps₂ (hsafe₂ hsafe))
    have hquiet₃ := hht.quieter env
    obtain ⟨new, -, -, rfl⟩ := hht
    exact ⟨hok₂.quieter hquiet₃ rfl, rfl, rfl, hlen₂, htraces⟩
  cases hend with
  | ioError =>
    exact ⟨⟨hok₂.log, hok₂.recorded, hok₂.range, hok₂.count⟩, hconf.1, hconf.2,
      fun h => absurd rfl h⟩
  | noInputs hht _ =>
    obtain ⟨hok₃, hconf₃, hsize₃, -, htraces⟩ := hmeasured hht
    exact ⟨hok₃, hconf₃.trans hconf.1, hsize₃.trans hconf.2, fun _ hsafe => (htraces hsafe).1⟩
  | clean hht han hnone =>
    obtain ⟨hok₃, hconf₃, hsize₃, -, htraces⟩ := hmeasured hht
    have hok₄ := han.roundOk hok₃ htraces
    obtain ⟨vs, st, -, -, rfl⟩ := han
    exact ⟨hok₄, hconf₃.trans hconf.1, hsize₃.trans hconf.2, fun h => absurd hnone h⟩
  | @found s₃ s₄ hht han _ _ =>
    obtain ⟨hok₃, hconf₃, hsize₃, hlen₃, htraces⟩ := hmeasured hht
    have hok₄ := han.roundOk hok₃ htraces
    have hlen₄ : s₄.boostedInputs.length = n := by
      obtain ⟨vs, st, -, -, rfl⟩ := han
      exact hlen₃
    refine ⟨hok₄.ignoreUpdated hlen₄, ?_⟩
    obtain ⟨vs, st, -, -, rfl⟩ := han
    unfold Fuzzer.ignoreUpdated
    dsimp only
    split
    · refine ⟨hconf₃.trans hconf.1, hsize₃.trans hconf.2, fun _ hsafe i t hi ht => ?_⟩
      have hi' : i ∉ s₃.ignoreList := fun h => hi (Finset.mem_union_left _ h)
      exact (htraces hsafe.left.left).1 i t hi' ht
    · exact ⟨hconf₃.trans hconf.1, hsize₃.trans hconf.2, fun _ hsafe => (htraces hsafe.left).1⟩

end Steps

section Round

variable {n : Nat}

/-- What an interrupted round leaves. -/
def LogOk (s : RoundManager ι θ τ κ) : Prop := SafeExtensions s.log → IgnoresOk s.log

/-- The traces fit the configured size, if there is a violation left. -/
def Fits (s : RoundManager ι θ τ κ) : Prop :=
  s.violations ≠ [] → SafeExtensions s.log → TracesOk s s.sampleSize

/-- The measurements of the stages before the noise stage replace the traces. -/
def Replacing (s : RoundManager ι θ τ κ) : Prop :=
  s.conf.extendHtraces = false ∧ s.conf.executorNReps = s.sampleSize

theorem Replacing.repsOk {s : RoundManager ι θ τ κ} (h : Replacing s) : RepsOk s := by
  unfold RepsOk
  rw [if_neg (by rw [h.1]; decide)]
  exact h.2

theorem normalStage_roundOk {C : RoundState → Nat → Prop} :
    Triple (fun s => RoundOk env n s ∧ (SafeExtensions s.log → RepsOk s) ∧ C s.conf s.sampleSize)
      (normalStage env)
      (fun _ s => RoundOk env n s ∧ C s.conf s.sampleSize ∧ Fits s) (fun _ s => LogOk s) := by
  refine Triple.each fun s₀ hs₀ => ?_
  refine (normalStage_spec env s₀).conseq (fun _ h => h) (fun _ s h => ?_) fun _ s h => ?_
  · obtain ⟨hok, hconf, hsize, hfits⟩ := h.roundOk hs₀.1 hs₀.2.1
    refine ⟨hok, ?_, hfits⟩
    rw [hconf, hsize]
    exact hs₀.2.2
  · obtain ⟨-, evs, hlog, hevs⟩ := h
    have hok : RoundOk env n { s₀ with log := s₀.log ++ evs } :=
      hs₀.1.quieter ⟨rfl, evs, rfl, hevs⟩ rfl
    intro hsafe
    rw [hlog] at hsafe ⊢
    exact hok.log hsafe

/-- The state between the stages before the noise stage. -/
def BeforeNoise (n : Nat) (s : RoundManager ι θ τ κ) : Prop :=
  RoundOk env n s ∧ Replacing s ∧ Fits s

/-- A normal stage before the noise stage. -/
theorem normalStage_beforeNoise :
    Triple (fun s => RoundOk env n s ∧ Replacing s) (normalStage env)
      (fun _ s => BeforeNoise env n s) (fun _ s => LogOk s) := by
  refine (normalStage_roundOk env (n := n)
    (C := fun conf size => conf.extendHtraces = false ∧ conf.executorNReps = size)).conseq
    (fun s hs => ⟨hs.1, fun _ => hs.2.repsOk, hs.2⟩) (fun _ _ h => h) fun _ _ h => h

theorem normalStageWhen_beforeNoise {cond : RoundState → Bool} {change : RoundState → RoundState}
    (hext : ∀ conf, (change conf).extendHtraces = conf.extendHtraces)
    (hreps : ∀ conf, (change conf).executorNReps = conf.executorNReps) :
    Triple (fun s => BeforeNoise env n s) (normalStageWhen env cond change)
      (fun _ s => BeforeNoise env n s) (fun _ s => LogOk s) := by
  refine Triple.get_bind fun s hs => ?_
  refine Triple.ite (fun _ => ?_) fun _ => Triple.pure fun t ht => ht ▸ hs
  refine Triple.bind (R := fun _ t => RoundOk env n t ∧ Replacing t) ?_ fun _ =>
    normalStage_beforeNoise env
  refine Triple.modify fun t ht => ?_
  rw [ht]
  refine ⟨⟨hs.1.log, hs.1.recorded, hs.1.range, hs.1.count⟩, ?_, ?_⟩
  · exact (hext s.conf).trans hs.2.1.1
  · exact (hreps s.conf).trans hs.2.1.2

theorem PrimingEvent.quiet {e : Event ι θ τ} (h : PrimingEvent e) : e.Quiet := by
  cases e with
  | primed _ _ _ _ => trivial
  | primingKept _ => trivial
  | _ => exact absurd h id

theorem RoundOk.changed {s₀ s : RoundManager ι θ τ κ} {evs : List (Event ι θ τ)}
    (h : RoundOk env n s₀) (hc : Changed s₀ s evs) (hevs : ∀ e ∈ evs, PrimingEvent e) :
    RoundOk env n s := by
  obtain ⟨st, vs, rfl⟩ := hc
  exact h.quieter ⟨rfl, evs, rfl, fun e he => (hevs e he).quiet⟩ rfl

/-- A priming check changes nothing that matters here. -/
theorem primingCheck_roundOk {C : RoundManager ι θ τ κ → Prop}
    (hC : ∀ s st vs evs, vs ⊆ s.violations → C s →
      C { s with analyserState := st, violations := vs, log := s.log ++ evs }) :
    Triple (fun s => RoundOk env n s ∧ C s) (primingCheck env) (fun _ s => RoundOk env n s ∧ C s)
      (fun _ s => LogOk s) := by
  refine Triple.each fun s₀ hs₀ => ?_
  refine (primingCheck_primed env s₀).conseq (fun _ h => h) (fun _ s h => ?_) fun _ s h => ?_
  · obtain ⟨evs, hchanged, hprimed⟩ := h
    refine ⟨hs₀.1.changed env hchanged hprimed.events, ?_⟩
    have hsub := hprimed.subset
    obtain ⟨st, vs, rfl⟩ := hchanged
    exact hC s₀ st vs evs hsub hs₀.2
  · obtain ⟨evs, hchanged, hevs⟩ := h
    exact (hs₀.1.changed env hchanged hevs).log

/-- A stage begins with an event of its own. -/
theorem RoundOk.stage {s : RoundManager ι θ τ κ} (h : RoundOk env n s) (stage : RoundStage) :
    RoundOk env n (s.note (.stage stage)) := by
  refine h.quieter ⟨rfl, [.stage stage], rfl, ?_⟩ rfl
  intro e he
  rw [List.mem_singleton.mp he]
  trivial

theorem BeforeNoise.stage {s : RoundManager ι θ τ κ} (h : BeforeNoise env n s)
    (stage : RoundStage) : BeforeNoise env n (s.note (.stage stage)) :=
  ⟨h.1.stage env stage, h.2.1, fun hne hsafe => h.2.2 hne hsafe.left⟩

theorem executeStage_fast :
    Triple (fun s => RoundOk env n s ∧ Replacing s) (executeStage env .fast)
      (fun _ s => BeforeNoise env n s) (fun _ s => LogOk s) := by
  refine Triple.bind (R := fun _ s => RoundOk env n s ∧ Replacing s) ?_ fun _ => ?_
  · exact Triple.modify fun s hs => ⟨hs.1.stage env .fast, hs.2⟩
  refine Triple.get_bind fun s hs => ?_
  refine Triple.bind (pyAssert_triple fun t ht => ht ▸ hs.1.log) fun _ => ?_
  refine Triple.bind (R := fun _ s => BeforeNoise env n s) ?_ fun _ => ?_
  · exact (normalStage_beforeNoise env).conseq (fun t ht => ht.2 ▸ hs) (fun _ _ h => h)
      fun _ _ h => h
  · exact Triple.modify fun t ht =>
      ⟨⟨ht.1.log, ht.1.recorded, ht.1.range, ht.1.count⟩, ht.2.1, ht.2.2⟩

theorem executeStage_nesting :
    Triple (fun s => BeforeNoise env n s) (executeStage env .nesting)
      (fun _ s => BeforeNoise env n s) (fun _ s => LogOk s) := by
  refine Triple.bind (R := fun _ s => BeforeNoise env n s) ?_ fun _ => ?_
  · exact Triple.modify fun s hs => hs.stage env .nesting
  refine Triple.bind (normalStageWhen_beforeNoise env (fun _ => rfl) fun _ => rfl) fun _ => ?_
  exact Triple.modify fun t ht =>
    ⟨⟨ht.1.log, ht.1.recorded, ht.1.range, ht.1.count⟩, ht.2.1, ht.2.2⟩

theorem executeStage_taintMistake :
    Triple (fun s => BeforeNoise env n s) (executeStage env .taintMistake)
      (fun _ s => BeforeNoise env n s) (fun _ s => LogOk s) := by
  refine Triple.bind (R := fun _ s => BeforeNoise env n s) ?_ fun _ => ?_
  · exact Triple.modify fun s hs => hs.stage env .taintMistake
  refine Triple.bind (normalStageWhen_beforeNoise env (fun _ => rfl) fun _ => rfl) fun _ => ?_
  refine Triple.get_bind fun s hs => ?_
  refine Triple.bind (pyAssert_triple fun t ht => ht ▸ hs.1.log) fun _ => ?_
  refine Triple.modify fun t ht => ?_
  rw [ht.2]
  exact ⟨⟨hs.1.log, hs.1.recorded, hs.1.range, hs.1.count⟩, hs.2.1, hs.2.2⟩

theorem executeStage_priming :
    Triple (fun s => BeforeNoise env n s) (executeStage env .priming)
      (fun _ s => BeforeNoise env n s) (fun _ s => LogOk s) := by
  refine Triple.bind (R := fun _ s => BeforeNoise env n s) ?_ fun _ => ?_
  · exact Triple.modify fun s hs => hs.stage env .priming
  refine Triple.get_bind fun s hs => ?_
  refine Triple.ite (fun _ => ?_) fun _ => Triple.pure fun t ht => ht ▸ hs
  refine (primingCheck_roundOk env (n := n) (C := fun s => Replacing s ∧ Fits s) ?_).conseq
    (fun t ht => ht ▸ hs) (fun _ _ h => h) fun _ _ h => h
  intro t st vs evs hsub ht
  refine ⟨ht.1, fun hne hsafe => ht.2 ?_ hsafe.left⟩
  intro hnil
  rw [hnil] at hsub
  exact hne (List.subset_nil.mp hsub)

/-- The state of the noise stage before a measurement. -/
def Noisy (n : Nat) (s : RoundManager ι θ τ κ) : Prop :=
  RoundOk env n s ∧ s.conf.extendHtraces = true ∧ Fits s

theorem noiseLoop_roundOk (sizes : List Nat) :
    Triple (fun s => Noisy env n s ∧ s.violations ≠ []) (noiseLoop env sizes)
      (fun _ s => RoundOk env n s) (fun _ s => LogOk s) := by
  induction sizes with
  | nil => exact Triple.pure fun s hs => hs.1.1
  | cons size sizes ih =>
    refine Triple.get_bind fun s hs => ?_
    obtain ⟨⟨hok, hext, hfits⟩, hne⟩ := hs
    refine Triple.bind (require_triple fun t ht => ht ▸ hok.log) fun first => ?_
    refine Triple.bind (R := fun _ t => RoundOk env n t ∧ (SafeExtensions t.log → RepsOk t) ∧
      t.conf.extendHtraces = true) ?_ fun _ => ?_
    · refine Triple.modify fun t ht => ?_
      rw [ht.2]
      refine ⟨hok.extending _ _, fun hsafe => ?_, hext⟩
      obtain ⟨hfirst, hhidden⟩ :=
        hsafe _ (List.mem_append_right _ (List.mem_singleton.mpr rfl)) _ rfl
      unfold RepsOk
      rw [if_pos hext]
      refine ⟨s.sampleSize, hfits hne hsafe.left, ?_, fun i h hi => hhidden i hi h⟩
      have hsize : first.sampleSize = s.sampleSize := hfirst first ht.1
      show (size : Int) - first.sampleSize = size - s.sampleSize
      rw [hsize]
    · refine Triple.bind ((normalStage_roundOk env
        (C := fun conf _ => conf.extendHtraces = true)).conseq (fun _ h => h) (fun _ _ h => h)
        fun _ _ h => h) fun _ => ?_
      refine Triple.get_bind fun u hu => ?_
      refine Triple.ite (fun _ => Triple.pure fun w hw => hw ▸ hu.1) fun hnonempty => ?_
      refine ih.conseq (fun w hw => ?_) (fun _ _ h => h) fun _ _ h => h
      rw [hw]
      exact ⟨hu, by simpa using hnonempty⟩

theorem executeStage_noise :
    Triple (fun s => BeforeNoise env n s ∧ s.violations ≠ []) (executeStage env .noise)
      (fun _ s => RoundOk env n s) (fun _ s => LogOk s) := by
  refine Triple.bind (R := fun _ s => BeforeNoise env n s ∧ s.violations ≠ []) ?_ fun _ => ?_
  · exact Triple.modify fun s hs => ⟨hs.1.stage env .noise, hs.2⟩
  refine Triple.ite (fun _ => Triple.pure fun s hs => hs.1.1) fun _ => ?_
  refine Triple.bind (R := fun _ s => Noisy env n s ∧ s.violations ≠ []) ?_ fun _ =>
    noiseLoop_roundOk env _
  exact Triple.modify fun s hs =>
    ⟨⟨⟨hs.1.1.log, hs.1.1.recorded, hs.1.1.range, hs.1.1.count⟩, rfl, hs.1.2.2⟩, hs.2⟩

theorem executeStage_primingLarge :
    Triple (fun s => RoundOk env n s) (executeStage env .primingLarge)
      (fun _ s => RoundOk env n s) (fun _ s => LogOk s) := by
  refine Triple.bind (R := fun _ s => RoundOk env n s) ?_ fun _ => ?_
  · exact Triple.modify fun s hs => hs.stage env .primingLarge
  refine Triple.get_bind fun s hs => ?_
  refine Triple.ite (fun _ => Triple.pure fun t ht => ht ▸ hs) fun _ => ?_
  refine Triple.bind (require_triple fun t ht => ht ▸ hs.log) fun last => ?_
  refine Triple.bind (R := fun _ s => RoundOk env n s ∧ True) ?_ fun _ => ?_
  · refine Triple.modify fun t ht => ?_
    rw [ht.2]
    exact ⟨⟨hs.log, hs.recorded, hs.range, hs.count⟩, trivial⟩
  · exact (primingCheck_roundOk env fun _ _ _ _ _ _ => trivial).conseq (fun _ h => h)
      (fun _ _ h => h.1) fun _ _ h => h

theorem executeStage_archMismatch :
    Triple (fun s => RoundOk env n s) (executeStage env .archMismatch)
      (fun _ s => RoundOk env n s) (fun _ s => LogOk s) := by
  refine Triple.bind (R := fun _ s => RoundOk env n s) ?_ fun _ => ?_
  · exact Triple.modify fun s hs => hs.stage env .archMismatch
  refine Triple.bind (R := fun _ s => RoundOk env n s) ?_ fun _ => ?_
  · refine Triple.modify fun s hs => ?_
    split
    · exact ⟨hs.log, hs.recorded, hs.range, hs.count⟩
    · exact hs
  refine Triple.get_bind fun s hs => ?_
  have hchecked : ∀ (inputs : List ι) (mismatch : Bool) (vs : List (Violation ι τ)),
      RoundOk env n { s with archViolations := vs
                             log := s.log ++ [.archChecked inputs mismatch] } := by
    intro inputs mismatch vs
    refine hs.append rfl rfl rfl ?_
    intro e he
    rw [List.mem_singleton.mp he]
    exact ⟨rfl, rfl, trivial⟩
  cases env.archReadTrace s.log s.boostedInputs with
  | none =>
    refine Triple.modify fun t ht => ?_
    rw [ht]
    exact hchecked _ _ _
  | some readings =>
    refine Triple.bind (require_triple fun t ht => ht ▸ hs.log) fun found => ?_
    refine Triple.modify fun t ht => ?_
    rw [ht.2]
    exact hchecked _ _ _

theorem fuzzingRound_roundOk :
    Triple (fun s => RoundOk env n s ∧ Replacing s) (fuzzingRound env) (fun _ s => LogOk s)
      (fun _ s => LogOk s) := by
  refine runStages_cons env (executeStage_fast env) (fun s hs => hs.1.log) ?_
  refine runStages_cons env ((executeStage_nesting env).conseq (fun _ h => h.1) (fun _ _ h => h)
    fun _ _ h => h) (fun s hs => hs.1.log) ?_
  refine runStages_cons env ((executeStage_taintMistake env).conseq (fun _ h => h.1)
    (fun _ _ h => h) fun _ _ h => h) (fun s hs => hs.1.log) ?_
  refine runStages_cons env ((executeStage_priming env).conseq (fun _ h => h.1) (fun _ _ h => h)
    fun _ _ h => h) (fun s hs => hs.1.log) ?_
  refine runStages_cons env (executeStage_noise env) (fun s hs => hs.log) ?_
  refine runStages_cons env ((executeStage_primingLarge env).conseq (fun _ h => h.1)
    (fun _ _ h => h) fun _ _ h => h) (fun s hs => hs.log) ?_
  refine Triple.bind ((executeStage_archMismatch env).conseq (fun _ h => h.1) (fun _ _ h => h)
    fun _ _ h => h) fun _ => ?_
  refine Triple.get_bind fun s hs => ?_
  exact Triple.ite (fun _ => Triple.pure fun t ht => ht ▸ hs.log)
    fun _ => Triple.pure fun t ht => ht ▸ hs.log

end Round

/-- The state in which a program ends, by a return or by an exception. -/
def finalState {α : Type} : EStateM.Result RoundError (RoundManager ι θ τ κ) α →
    RoundManager ι θ τ κ
  | .ok _ s => s
  | .error _ s => s

/-- In a round whose noise stage extends only safely, ignored inputs stay out of all later
violations and every analysis sees the configured sample size. -/
theorem fuzzingRound_ignoresOk (inputs : List ι) (startingIgnoreList : List Nat) (st : κ)
    {s₀ : RoundManager ι θ τ κ} (hnew : newRound env inputs startingIgnoreList st = some s₀)
    (hids : ∀ i ∈ startingIgnoreList, i < boostedCount env.conf.inputsPerClass inputs.length)
    (hsafe : SafeExtensions (finalState (fuzzingRound env s₀)).log) :
    IgnoresOk (finalState (fuzzingRound env s₀)).log := by
  have hstart : RoundOk env (boostedCount env.conf.inputsPerClass inputs.length) s₀ ∧
      Replacing s₀ := by
    obtain ⟨-, n, rfl⟩ := newRound_eq env hnew
    have hlog : ∀ e : Event ι θ τ, e ∉ (firstRound env inputs startingIgnoreList st n).log := by
      simp [firstRound]
    refine ⟨⟨fun _ => ⟨.nil, fun e he => absurd he (hlog e)⟩, fun e he => absurd he (hlog e), ?_,
      rfl⟩, rfl, rfl⟩
    intro i hi
    exact hids i (List.mem_toFinset.mp hi)
  have hround := fuzzingRound_roundOk env s₀ hstart
  cases hrun : fuzzingRound env s₀ with
  | ok v s =>
    rw [hrun] at hround hsafe
    exact hround hsafe
  | error e s =>
    rw [hrun] at hround hsafe
    exact hround hsafe

section Sample

/-- The digests `xxhash.xxh64` gives for the printed traces of the round. -/
def noiseXxh64 (t : Text) : Nat :=
  (([("[0]", 8901456161705147630), ("[1]", 6949742813014127680),
    ("[1 1 1 2]", 6229737167814630235), ("[2 2 2 1]", 11928954198759053161),
    ("[1 1 1 1]", 7098435321268656028), ("[2 2 2 2]", 4220966258066677985),
    ("[0 1 1 1 2]", 15900814705324151686), ("[0 2 2 2 1]", 675941498338864551),
    ("[1 1 1 1 1 1 1 1]", 17006580414486989492),
    ("[2 2 2 2 2 2 2 2]", 15525181971040464142),
    ("[1 1 1 1 2 2 2 2]", 453855452621319120)] : List (String × Nat)).map
      fun e => (e.1.toList, e.2)).lookup t |>.getD 0

/-- Inputs 1 and 3 leak; inputs 0 and 2 show the same two lines, in other proportions. -/
def noiseHardware (leaks : Bool) (inputs : List Nat) (i rep : Nat) : RawHTraceSample :=
  let lines : UInt64 :=
    match inputs.getD i 0 with
    | 0 => if rep = 3 ∧ leaks = false then 2 else 1
    | 1 => 1
    | 2 => if rep = 3 ∧ leaks = false then 1 else 2
    | _ => 2
  ⟨lines, 0, 0, 0, 0, 0⟩

/-- Two inputs, four and then eight samples, no priming. When `leaks`, both classes leak. -/
def noiseEnv (leaks : Bool) (inputsPerClass : Nat) : Env Nat Unit Unit BitmapCache where
  conf := ⟨[4, 8], 1, 1, true, false, inputsPerClass, false⟩
  testCase := ()
  isSpeculative := true
  dataGen := ⟨2, fun _ => 1, fun state _ => (state, state + 1), fun _ _ new => new⟩
  traceTestCase _ inputs _ := inputs.map fun i => ⟨[⟨.pc, (i % 2 : Nat)⟩]⟩
  traceTestCaseWithTaints _ inputs _ :=
    (inputs.map fun i => ⟨[⟨.pc, (i % 2 : Nat)⟩]⟩, inputs.map fun _ => ())
  readTrace _ inputs _ := some (noiseHardware leaks inputs)
  archReadTrace _ _ := none
  archTraceTestCase _ _ _ := []
  analyser := equivalenceAnalyser noiseXxh64 ⟨false, fun n => n / 4⟩ .mergedBitmap

def noiseLog (leaks : Bool) (inputsPerClass : Nat) (startingIgnoreList : List Nat) :
    List (Event Nat Unit Unit) :=
  (finalState (fuzzingRound (noiseEnv leaks inputsPerClass)
    (firstRound (noiseEnv leaks inputsPerClass) [0, 1] startingIgnoreList [] 4))).log

/-- Three inputs per class, of which input 4 is ignored from the start: the round reaches the noise
stage with this ignore list. -/
theorem fuzzingRound_ignoresOk_sample :
    (∃ e ∈ noiseLog true 3 [4], ∃ x ∈ e.extension, x.2.1 = {4}) ∧
      IgnoresOk (noiseLog true 3 [4]) := by
  have hsafe : SafeExtensions (noiseLog true 3 [4]) := by
    unfold SafeExtensions
    decide +kernel
  refine ⟨by decide +kernel, ?_⟩
  exact fuzzingRound_ignoresOk (noiseEnv true 3) [0, 1] [4] [] rfl (by decide) hsafe

/-- Inputs 0 and 2 are ignored after the second stage, and form a violation in the noise stage. -/
theorem noiseLog_not_ignoresOk : ¬ IgnoresOk (noiseLog false 2 []) := by
  intro h
  have hout : ¬ (noiseLog false 2 []).Pairwise StaysOut := by decide +kernel
  exact hout h.staysOut

end Sample

end Rvzr.Fuzzer
