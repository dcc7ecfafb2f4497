import Rvzr.Fuzzer.Analysis

/-!
# The priming check

What the tests of `_priming_check` say about the violations it was given. Only the last violation
of the list is ever tested: the check empties the list as soon as all traces of that one were
reproduced.
-/

namespace Rvzr.Fuzzer

open Rvzr.Lib Rvzr.Analyser

variable {ι θ τ κ : Type}

/-- The ordered pairs of representatives of the hardware classes. -/
def pairsOf (ms currents : List (TraceBundle ι)) : List (TraceBundle ι × TraceBundle ι) :=
  currents.flatMap fun current => (otherMeasurements ms current).map fun other => (current, other)

def orderedPairs (v : Violation ι τ) : List (TraceBundle ι × TraceBundle ι) :=
  match measurementsToTest v with
  | none => []
  | some ms => pairsOf ms ms

/-! ## Swap tests -/

section Swaps

variable (env : Env ι θ τ κ) (boosted : List ι) (ignoreList : Finset Nat)

/-- With the input of the second measurement in the place of the first one's, the executor returns
`new` for this place. -/
def SwapTrace (log : List (Event ι θ τ)) (nReps : Int) (p : TraceBundle ι × TraceBundle ι)
    (new : HTrace) : Prop :=
  ∃ input traces, boosted[p.2.inputId]? = some input ∧ p.1.inputId < boosted.length ∧
    tracesAfter env ignoreList log (boosted.set p.1.inputId input) nReps = some traces ∧
    traces[p.1.inputId]? = some new

/-- The trace is neither empty nor corrupted or ignored. -/
def Usable (h : HTrace) : Prop := (h.isEmpty || h.isCorruptedOrIgnored) = false

/-- The analyser says whether the trace of the swapped input is equivalent to that of the first
measurement. `st` and `st'` are its states. -/
def SwapTest (log : List (Event ι θ τ)) (nReps : Int) (st : κ) (p : TraceBundle ι × TraceBundle ι)
    (equivalent : Bool) (st' : κ) : Prop :=
  ∃ new, SwapTrace env boosted ignoreList log nReps p new ∧ Usable new ∧
    (env.analyser.htracesAreEquivalent new p.1.htrace).run st = some (equivalent, st')

/-- `n_reps`. -/
def primingReps (v : Violation ι τ) : Int :=
  (v.measurements.head?.map fun m => (m.htrace.sampleSize : Int)).getD 0

/-- The pairs of `v` are tested in turn, until one is not reproduced. The log and the state of the
analyser are those before the tests. -/
inductive SwapTests (v : Violation ι τ) : List (TraceBundle ι × TraceBundle ι) →
    List (Event ι θ τ) → κ → PrimingResult → List (Event ι θ τ) → κ → Prop
  | none {log : List (Event ι θ τ)} {st : κ} : SwapTests v [] log st .reproduced [] st
  | reproduced {p : TraceBundle ι × TraceBundle ι} {ps : List (TraceBundle ι × TraceBundle ι)}
      {r : PrimingResult} {log evs : List (Event ι θ τ)} {st st₁ st' : κ}
      (h : SwapTest env boosted ignoreList log (primingReps v) st p true st₁)
      (hrest : SwapTests v ps (log ++ [.primed v p.1 p.2 .reproduced]) st₁ r evs st') :
      SwapTests v (p :: ps) log st r (.primed v p.1 p.2 .reproduced :: evs) st'
  | notReproduced {p : TraceBundle ι × TraceBundle ι} {ps : List (TraceBundle ι × TraceBundle ι)}
      {log : List (Event ι θ τ)} {st st' : κ}
      (h : SwapTest env boosted ignoreList log (primingReps v) st p false st') :
      SwapTests v (p :: ps) log st .notReproduced [.primed v p.1 p.2 .notReproduced] st'
  | tracingError {p : TraceBundle ι × TraceBundle ι} {ps : List (TraceBundle ι × TraceBundle ι)}
      {log : List (Event ι θ τ)} {st : κ} {new : HTrace}
      (h : SwapTrace env boosted ignoreList log (primingReps v) p new) (hbad : ¬ Usable new) :
      SwapTests v (p :: ps) log st .tracingError [.primed v p.1 p.2 .tracingError] st

/-- If the pairs are tested in turn, the executor answers one test with a trace that the analyser
finds not equivalent. -/
inductive SwapFails (v : Violation ι τ) : List (TraceBundle ι × TraceBundle ι) →
    List (Event ι θ τ) → κ → Prop
  | here {p : TraceBundle ι × TraceBundle ι} {ps : List (TraceBundle ι × TraceBundle ι)}
      {log : List (Event ι θ τ)} {st st' : κ}
      (h : SwapTest env boosted ignoreList log (primingReps v) st p false st') :
      SwapFails v (p :: ps) log st
  | later {p : TraceBundle ι × TraceBundle ι} {ps : List (TraceBundle ι × TraceBundle ι)}
      {log : List (Event ι θ τ)} {st st' : κ}
      (h : SwapTest env boosted ignoreList log (primingReps v) st p true st')
      (hrest : SwapFails v ps (log ++ [.primed v p.1 p.2 .reproduced]) st') :
      SwapFails v (p :: ps) log st

end Swaps

section Tests

variable {env : Env ι θ τ κ} {boosted : List ι} {ignoreList : Finset Nat} {v : Violation ι τ}
  {p : TraceBundle ι × TraceBundle ι} {ps qs : List (TraceBundle ι × TraceBundle ι)}
  {r : PrimingResult} {log evs evs' : List (Event ι θ τ)} {st st₁ st₂ : κ}

/-- Tests of further pairs after the reproduced ones. -/
theorem SwapTests.append (h : SwapTests env boosted ignoreList v ps log st .reproduced evs st₁)
    (h' : SwapTests env boosted ignoreList v qs (log ++ evs) st₁ r evs' st₂) :
    SwapTests env boosted ignoreList v (ps ++ qs) log st r (evs ++ evs') st₂ := by
  generalize hr : PrimingResult.reproduced = r' at h
  induction h with
  | none =>
    rw [List.append_nil] at h'
    exact h'
  | reproduced ht _ ih =>
    rw [← List.append_cons] at ih
    exact .reproduced ht (ih h' hr)
  | notReproduced _ => cases hr
  | tracingError _ _ => cases hr

/-- A test that was not reproduced ends the tests. -/
theorem SwapTests.stop (h : SwapTests env boosted ignoreList v ps log st r evs st₁)
    (hr : r ≠ .reproduced) : SwapTests env boosted ignoreList v (ps ++ qs) log st r evs st₁ := by
  induction h with
  | none => exact absurd rfl hr
  | reproduced ht _ ih => exact .reproduced ht (ih hr)
  | notReproduced ht => exact .notReproduced ht
  | tracingError ht hbad => exact .tracingError ht hbad

/-- The events are tests of the pairs. -/
theorem SwapTests.own (h : SwapTests env boosted ignoreList v ps log st r evs st₁)
    {e : Event ι θ τ} (he : e ∈ evs) : ∃ p ∈ ps, ∃ r, e = .primed v p.1 p.2 r := by
  induction h with
  | none => exact absurd he (by simp)
  | @reproduced p _ _ _ _ _ _ _ _ _ ih =>
    rcases List.mem_cons.mp he with rfl | he
    · exact ⟨p, by simp, _, rfl⟩
    · obtain ⟨q, hq, heq⟩ := ih he
      exact ⟨q, List.mem_cons_of_mem _ hq, heq⟩
  | @notReproduced p _ _ _ _ _ => exact ⟨p, by simp, _, List.mem_singleton.mp he⟩
  | @tracingError p _ _ _ _ _ _ => exact ⟨p, by simp, _, List.mem_singleton.mp he⟩

theorem SwapTrace.unique {nReps : Int} {new new' : HTrace}
    (h : SwapTrace env boosted ignoreList log nReps p new)
    (h' : SwapTrace env boosted ignoreList log nReps p new') : new = new' := by
  obtain ⟨input, traces, hinput, -, htraces, hnew⟩ := h
  obtain ⟨input', traces', hinput', -, htraces', hnew'⟩ := h'
  cases hinput.symm.trans hinput'
  cases htraces.symm.trans htraces'
  exact Option.some.inj (hnew.symm.trans hnew')

theorem SwapTest.unique {nReps : Int} {b b' : Bool}
    (h : SwapTest env boosted ignoreList log nReps st p b st₁)
    (h' : SwapTest env boosted ignoreList log nReps st p b' st₂) : b = b' ∧ st₁ = st₂ := by
  obtain ⟨new, hnew, -, hrun⟩ := h
  obtain ⟨new', hnew', -, hrun'⟩ := h'
  cases hnew.unique hnew'
  exact Prod.mk.inj (Option.some.inj (hrun.symm.trans hrun'))

theorem SwapTrace.not_swapTest {nReps : Int} {new : HTrace} {b : Bool}
    (h : SwapTrace env boosted ignoreList log nReps p new) (hbad : ¬ Usable new) :
    ¬ SwapTest env boosted ignoreList log nReps st p b st₁ := by
  rintro ⟨new', hnew', hok, -⟩
  cases h.unique hnew'
  exact hbad hok

/-- The tests end as not reproduced exactly if the environment makes one fail. -/
theorem SwapTests.fails_iff (h : SwapTests env boosted ignoreList v ps log st r evs st₁) :
    SwapFails env boosted ignoreList v ps log st ↔ r = .notReproduced := by
  induction h with
  | none => exact iff_of_false (fun h => by cases h) (by simp)
  | reproduced ht _ ih =>
    rw [← ih]
    constructor
    · intro h
      cases h with
      | here hf => exact absurd (ht.unique hf).1 (by simp)
      | later hf hrest =>
        rw [(ht.unique hf).2]
        exact hrest
    · exact fun h => .later ht h
  | notReproduced ht => exact iff_of_true (.here ht) rfl
  | tracingError ht hbad =>
    refine iff_of_false (fun h => ?_) (by simp)
    cases h with
    | here hf => exact ht.not_swapTest hbad hf
    | later hf _ => exact ht.not_swapTest hbad hf

end Tests

/-- The tests that led from `s` to the events `evs`, and the state in which they left the
analyser. -/
inductive History (env : Env ι θ τ κ) (s : RoundManager ι θ τ κ) : List (Event ι θ τ) → κ → Prop
  | start : History env s [] s.analyserState
  | test {evs : List (Event ι θ τ)} {v : Violation ι τ} {p : TraceBundle ι × TraceBundle ι}
      {equivalent : Bool} {st st' : κ} (h : History env s evs st)
      (ht : SwapTest env s.boostedInputs s.ignoreList (s.log ++ evs) (primingReps v) st p
        equivalent st') :
      History env s
        (evs ++ [.primed v p.1 p.2 (if equivalent then .reproduced else .notReproduced)]) st'

/-- After the tests so far, the input of the second measurement was tested in the place of the
first one's. -/
def Performed (env : Env ι θ τ κ) (s : RoundManager ι θ τ κ) (evs : List (Event ι θ τ))
    (v : Violation ι τ) (p : TraceBundle ι × TraceBundle ι) (equivalent : Bool) : Prop :=
  ∃ before st st', History env s before st ∧
    SwapTest env s.boostedInputs s.ignoreList (s.log ++ before) (primingReps v) st p equivalent
      st' ∧
    before ++ [.primed v p.1 p.2 (if equivalent then .reproduced else .notReproduced)] <+: evs

section Performed

variable {env : Env ι θ τ κ} {s : RoundManager ι θ τ κ} {v : Violation ι τ}
  {p : TraceBundle ι × TraceBundle ι} {ps : List (TraceBundle ι × TraceBundle ι)}
  {r : PrimingResult} {before evs evs' : List (Event ι θ τ)} {st st' : κ} {b : Bool}

theorem Performed.mem (h : Performed env s evs v p b) :
    .primed v p.1 p.2 (if b then .reproduced else .notReproduced) ∈ evs := by
  obtain ⟨_, _, _, -, -, hpre⟩ := h
  exact hpre.subset (by simp)

theorem Performed.mono (h : Performed env s evs v p b) (hpre : evs <+: evs') :
    Performed env s evs' v p b := by
  obtain ⟨before, st, st', hhist, ht, hevs⟩ := h
  exact ⟨before, st, st', hhist, ht, hevs.trans hpre⟩

/-- Reproduced tests were performed for every pair, the others up to a pair that failed. -/
theorem SwapTests.performed {log : List (Event ι θ τ)}
    (h : SwapTests env s.boostedInputs s.ignoreList v ps log st r evs st')
    (hlog : log = s.log ++ before) (hhist : History env s before st) :
    (r = .reproduced → ∀ p ∈ ps, Performed env s (before ++ evs) v p true) ∧
      (r = .notReproduced → ∃ p ∈ ps, Performed env s (before ++ evs) v p false) := by
  induction h generalizing before with
  | none => exact ⟨by simp, by simp⟩
  | @reproduced p _ _ _ rest _ _ _ ht _ ih =>
    subst hlog
    have hnext := ih (List.append_assoc _ _ _) (hhist.test ht)
    rw [← List.append_cons] at hnext
    refine ⟨fun hr q hq => ?_, fun hr => ?_⟩
    · rcases List.mem_cons.mp hq with rfl | hq
      · refine ⟨before, _, _, hhist, ht, ?_⟩
        rw [List.append_cons before _ rest, if_pos rfl]
        exact List.prefix_append _ _
      · exact hnext.1 hr q hq
    · obtain ⟨q, hq, hperf⟩ := hnext.2 hr
      exact ⟨q, List.mem_cons_of_mem _ hq, hperf⟩
  | @notReproduced p _ _ _ _ ht =>
    subst hlog
    exact ⟨by simp, fun _ => ⟨p, by simp, before, _, _, hhist, ht, List.prefix_refl _⟩⟩
  | tracingError _ _ => exact ⟨by simp, by simp⟩

end Performed

section Programs

variable (env : Env ι θ τ κ) {s₀ s₁ s₂ : RoundManager ι θ τ κ}

/-- Only the state of the analyser, the violations and the log have changed. -/
def Changed (s₀ s : RoundManager ι θ τ κ) (evs : List (Event ι θ τ)) : Prop :=
  ∃ st vs, s = { s₀ with analyserState := st, violations := vs, log := s₀.log ++ evs }

theorem Changed.refl (s : RoundManager ι θ τ κ) : Changed s s [] :=
  ⟨s.analyserState, s.violations, by rw [List.append_nil]⟩

theorem Changed.trans {evs evs' : List (Event ι θ τ)} (h : Changed s₀ s₁ evs)
    (h' : Changed s₁ s₂ evs') : Changed s₀ s₂ (evs ++ evs') := by
  obtain ⟨st, vs, rfl⟩ := h
  obtain ⟨st', vs', rfl⟩ := h'
  exact ⟨st', vs', by rw [List.append_assoc]⟩

/-- The events of a priming check. -/
def PrimingEvent : Event ι θ τ → Prop
  | .primed _ _ _ _ => True
  | .primingKept _ => True
  | _ => False

/-- The state in which a priming check was interrupted. -/
def Interrupted (s₀ s : RoundManager ι θ τ κ) : Prop :=
  ∃ evs, Changed s₀ s evs ∧ ∀ e ∈ evs, PrimingEvent e

theorem Interrupted.of_changed (h : Changed s₀ s₁ []) : Interrupted s₀ s₁ := ⟨[], h, by simp⟩

/-- The state after tests of `ps` that ended as `r`. -/
def Tested (v : Violation ι τ) (ps : List (TraceBundle ι × TraceBundle ι))
    (s₀ : RoundManager ι θ τ κ) (r : PrimingResult) (s : RoundManager ι θ τ κ) : Prop :=
  ∃ evs, Changed s₀ s evs ∧
    SwapTests env s₀.boostedInputs s₀.ignoreList v ps s₀.log s₀.analyserState r evs s.analyserState

variable {env}

theorem SwapTests.events {boosted : List ι} {ignoreList : Finset Nat} {v : Violation ι τ}
    {ps : List (TraceBundle ι × TraceBundle ι)} {r : PrimingResult} {log evs : List (Event ι θ τ)}
    {st st' : κ} (h : SwapTests env boosted ignoreList v ps log st r evs st') :
    ∀ e ∈ evs, PrimingEvent e := by
  intro e he
  obtain ⟨p, -, r, rfl⟩ := h.own he
  trivial

theorem Tested.none {v : Violation ι τ} (h : s₁ = s₀) : Tested env v [] s₀ .reproduced s₁ := by
  subst h
  exact ⟨[], Changed.refl s₁, .none⟩

theorem Tested.stop {v : Violation ι τ} {ps qs : List (TraceBundle ι × TraceBundle ι)}
    {r : PrimingResult} (h : Tested env v ps s₀ r s₁) (hr : r ≠ .reproduced) :
    Tested env v (ps ++ qs) s₀ r s₁ := by
  obtain ⟨evs, hchanged, htests⟩ := h
  exact ⟨evs, hchanged, htests.stop hr⟩

variable (env)

/-- What the analyser says about the new trace. -/
inductive Compared (new : HTrace) (current : TraceBundle ι) (st : κ) : PrimingResult → κ → Prop
  | unusable (h : ¬ Usable new) : Compared new current st .tracingError st
  | answered {equivalent : Bool} {st' : κ} (h : Usable new)
      (hrun : (env.analyser.htracesAreEquivalent new current.htrace).run st =
        some (equivalent, st')) :
      Compared new current st (if equivalent then .reproduced else .notReproduced) st'

theorem htracesAreEquivalent_answer (h₁ h₂ : HTrace) :
    Triple (fun s => s = s₀) (htracesAreEquivalent env h₁ h₂)
      (fun equivalent s => Changed s₀ s [] ∧
        (env.analyser.htracesAreEquivalent h₁ h₂).run s₀.analyserState =
          some (equivalent, s.analyserState))
      (fun _ s => Interrupted s₀ s) := by
  refine Triple.get_bind fun s hs => ?_
  subst hs
  refine Triple.bind (require_triple fun t ht => ?_) fun answer => ?_
  · rw [ht]
    exact Interrupted.of_changed (Changed.refl s)
  refine Triple.bind (R := fun _ t => Changed s t [] ∧
    (env.analyser.htracesAreEquivalent h₁ h₂).run s.analyserState =
      some (answer.1, t.analyserState)) ?_ fun _ => Triple.pure fun _ ht => ht
  refine Triple.modify fun t ht => ?_
  rw [ht.2]
  exact ⟨⟨answer.2, s.violations, by rw [List.append_nil]⟩, ht.1⟩

theorem comparePrimed_compared (new : HTrace) (current : TraceBundle ι) :
    Triple (fun s => s = s₀) (comparePrimed env new current)
      (fun r s => Changed s₀ s [] ∧ Compared env new current s₀.analyserState r s.analyserState)
      (fun _ s => Interrupted s₀ s) := by
  refine Triple.ite (fun hbad => Triple.pure fun t ht => ?_) fun hok => ?_
  · subst ht
    exact ⟨Changed.refl t, .unusable (by rw [Usable, hbad]; simp)⟩
  · refine Triple.bind (htracesAreEquivalent_answer env new current.htrace) fun equivalent => ?_
    exact Triple.pure fun _ ht => ⟨ht.1, .answered (Bool.eq_false_iff.mpr hok) ht.2⟩

theorem primerOf_eq_some {inputs primer : List ι} {current other : TraceBundle ι}
    (h : primerOf inputs current other = some primer) :
    ∃ input, inputs[other.inputId]? = some input ∧ current.inputId < inputs.length ∧
      primer = inputs.set current.inputId input := by
  unfold primerOf at h
  split at h
  · rename_i hlt
    obtain ⟨input, hinput, rfl⟩ := Option.map_eq_some_iff.mp h
    exact ⟨input, hinput, hlt, rfl⟩
  · cases h

/-- A comparison of the trace that the executor returned is a test. -/
theorem SwapTests.single {v : Violation ι τ} {p : TraceBundle ι × TraceBundle ι}
    {boosted : List ι} {ignoreList : Finset Nat} {log : List (Event ι θ τ)} {new : HTrace}
    {st st' : κ} {r : PrimingResult}
    (hnew : SwapTrace env boosted ignoreList log (primingReps v) p new)
    (h : Compared env new p.1 st r st') :
    SwapTests env boosted ignoreList v [p] log st r [.primed v p.1 p.2 r] st' := by
  cases h with
  | unusable hbad => exact .tracingError hnew hbad
  | @answered equivalent _ hok hrun =>
    cases equivalent with
    | true => exact .reproduced ⟨new, hnew, hok, hrun⟩ .none
    | false => exact .notReproduced ⟨new, hnew, hok, hrun⟩

theorem primeOne_tested (v : Violation ι τ) (current other : TraceBundle ι) :
    Triple (fun s => s = s₀) (primeOne env v (primingReps v) current other)
      (Tested env v [(current, other)] s₀) (fun _ s => Interrupted s₀ s) := by
  have hsame : ∀ t, t = s₀ → Interrupted s₀ t := fun t ht =>
    Interrupted.of_changed (ht ▸ Changed.refl s₀)
  refine Triple.get_bind fun s hs => ?_
  subst hs
  refine Triple.bind (require_triple hsame) fun primer => ?_
  refine Triple.bind (R := fun htraces t => t = s ∧ primerOf s.boostedInputs current other =
    some primer ∧ tracesAfter env s.ignoreList s.log primer (primingReps v) = some htraces)
    ?_ fun htraces => ?_
  · intro t ht
    refine (executorTraceTestCase_answer env primer _).conseq (fun _ h => h)
      (fun _ _ h => ⟨h.1, ht.1, h.2⟩) (fun _ => hsame) t ht.2
  refine Triple.bind (require_triple fun t ht => hsame t ht.1) fun new => ?_
  refine Triple.bind (R := fun result t => Changed s t [] ∧
    SwapTests env s.boostedInputs s.ignoreList v [(current, other)] s.log s.analyserState result
      [.primed v current other result] t.analyserState) ?_ fun result => ?_
  · rintro t ⟨hnew, rfl, hprimer, htraces⟩
    obtain ⟨input, hinput, hlt, rfl⟩ := primerOf_eq_some hprimer
    have hswap : SwapTrace env t.boostedInputs t.ignoreList t.log (primingReps v) (current, other)
        new := ⟨input, _, hinput, hlt, htraces, hnew⟩
    exact (comparePrimed_compared env new current).conseq (fun _ h => h)
      (fun _ _ h => ⟨h.1, .single env hswap h.2⟩) (fun _ _ h => h) t rfl
  · refine Triple.bind (R := fun _ t => Tested env v [(current, other)] s result t) ?_
      fun _ => Triple.pure fun _ ht => ht
    refine Triple.modify fun t ht => ⟨_, ?_, ht.2⟩
    exact ht.1.trans ⟨t.analyserState, t.violations, rfl⟩

/-- Tests of `ps` that were reproduced, and then a program that tests `qs`. -/
theorem Tested.next {v : Violation ι τ} {ps qs : List (TraceBundle ι × TraceBundle ι)}
    {x : RoundM ι θ τ κ PrimingResult}
    (h : ∀ s₁, Triple (fun s => s = s₁) x (Tested env v qs s₁) (fun _ s => Interrupted s₁ s)) :
    Triple (Tested env v ps s₀ .reproduced) x (Tested env v (ps ++ qs) s₀)
      (fun _ s => Interrupted s₀ s) := by
  intro s hs
  obtain ⟨evs, hchanged, htests⟩ := hs
  have hrun := h s s rfl
  cases hx : x s with
  | error e s' =>
    rw [hx] at hrun
    obtain ⟨evs', hchanged', hevs'⟩ := hrun
    refine ⟨evs ++ evs', hchanged.trans hchanged', ?_⟩
    intro e he
    exact (List.mem_append.mp he).elim (htests.events e) (hevs' e)
  | ok r s' =>
    rw [hx] at hrun
    obtain ⟨evs', hchanged', htests'⟩ := hrun
    refine ⟨evs ++ evs', hchanged.trans hchanged', htests.append ?_⟩
    obtain ⟨st, vs, rfl⟩ := hchanged
    exact htests'

theorem primeInputs_tested (v : Violation ι τ) (current : TraceBundle ι)
    (others : List (TraceBundle ι)) (s₀ : RoundManager ι θ τ κ) :
    Triple (fun s => s = s₀) (primeInputs env v (primingReps v) current others)
      (Tested env v (others.map fun other => (current, other)) s₀)
      (fun _ s => Interrupted s₀ s) := by
  induction others generalizing s₀ with
  | nil => exact Triple.pure fun s hs => Tested.none hs
  | cons other others ih =>
    refine Triple.bind (primeOne_tested env v current other) fun result => ?_
    cases result with
    | reproduced => exact Tested.next env ih
    | tracingError => exact Triple.pure fun s hs => hs.stop (by simp)
    | notReproduced => exact Triple.pure fun s hs => hs.stop (by simp)

theorem primeMeasurements_tested (v : Violation ι τ) (ms currents : List (TraceBundle ι))
    (s₀ : RoundManager ι θ τ κ) :
    Triple (fun s => s = s₀) (primeMeasurements env v (primingReps v) ms currents)
      (Tested env v (pairsOf ms currents) s₀) (fun _ s => Interrupted s₀ s) := by
  induction currents generalizing s₀ with
  | nil => exact Triple.pure fun s hs => Tested.none hs
  | cons current currents ih =>
    refine Triple.bind (primeInputs_tested env v current _ s₀) fun result => ?_
    cases result with
    | reproduced => exact Tested.next env ih
    | tracingError => exact Triple.pure fun s hs => hs.stop (by simp)
    | notReproduced => exact Triple.pure fun s hs => hs.stop (by simp)

/-- What the check did to the violations of `s₀`: the tests of the last one, and whether it was
kept. -/
inductive Primed (s₀ : RoundManager ι θ τ κ) : List (Event ι θ τ) → List (Violation ι τ) → Prop
  | none (h : s₀.violations = []) : Primed s₀ [] []
  | kept {v : Violation ι τ} {evs : List (Event ι θ τ)} {st : κ}
      (h : s₀.violations.getLast? = some v)
      (ht : SwapTests env s₀.boostedInputs s₀.ignoreList v (orderedPairs v) s₀.log s₀.analyserState
        .notReproduced evs st) :
      Primed s₀ (evs ++ [.primingKept v]) [v]
  | dropped {v : Violation ι τ} {r : PrimingResult} {evs : List (Event ι θ τ)} {st : κ}
      (h : s₀.violations.getLast? = some v) (hr : r ≠ .notReproduced)
      (ht : SwapTests env s₀.boostedInputs s₀.ignoreList v (orderedPairs v) s₀.log s₀.analyserState
        r evs st) : Primed s₀ evs []

variable {env}

theorem Primed.subset {vs : List (Violation ι τ)} {evs : List (Event ι θ τ)}
    (h : Primed env s₀ evs vs) : vs ⊆ s₀.violations := by
  cases h with
  | none _ => exact List.nil_subset _
  | kept hlast _ =>
    intro v hv
    rw [List.mem_singleton.mp hv]
    exact List.mem_of_getLast? hlast
  | dropped _ _ _ => exact List.nil_subset _

theorem Primed.events {vs : List (Violation ι τ)} {evs : List (Event ι θ τ)}
    (h : Primed env s₀ evs vs) : ∀ e ∈ evs, PrimingEvent e := by
  cases h with
  | none _ => simp
  | kept _ ht =>
    intro e he
    rcases List.mem_append.mp he with he | he
    · exact ht.events e he
    · rw [List.mem_singleton.mp he]
      trivial
  | dropped _ _ ht => exact ht.events

variable (env)

theorem primingCheck_primed (s₀ : RoundManager ι θ τ κ) :
    Triple (fun s => s = s₀) (primingCheck env)
      (fun _ s => ∃ evs, Changed s₀ s evs ∧ Primed env s₀ evs s.violations)
      (fun _ s => Interrupted s₀ s) := by
  refine Triple.get_bind fun s hs => ?_
  subst hs
  cases hlast : s.violations.getLast? with
  | none =>
    refine Triple.pure fun t ht => ⟨[], ht ▸ Changed.refl s, ?_⟩
    have hnil := List.getLast?_eq_none_iff.mp hlast
    rw [ht, hnil]
    exact .none hnil
  | some v =>
    have hpop : Changed s { s with violations := s.violations.dropLast } [] :=
      ⟨s.analyserState, s.violations.dropLast, by rw [List.append_nil]⟩
    refine Triple.bind (R := fun _ t => t = { s with violations := s.violations.dropLast }) ?_
      fun _ => ?_
    · exact Triple.modify fun t ht => by rw [ht]
    refine Triple.bind (require_triple fun t ht => ht ▸ Interrupted.of_changed hpop) fun first => ?_
    refine Triple.bind (require_triple fun t ht => ht.2 ▸ Interrupted.of_changed hpop) fun ms => ?_
    refine Triple.bind (R := Tested env v (orderedPairs v) s) ?_ fun result => ?_
    · intro t ht
      have hpairs : orderedPairs v = pairsOf ms ms := by
        unfold orderedPairs
        rw [ht.1]
      have hreps : (first.htrace.sampleSize : Int) = primingReps v := by
        unfold primingReps
        rw [ht.2.1]
        rfl
      rw [hpairs, hreps]
      have hstart : Tested env v [] s .reproduced t := by
        rw [ht.2.2]
        exact ⟨[], hpop, .none⟩
      exact Tested.next env (primeMeasurements_tested env v ms ms) t hstart
    · cases result with
      | notReproduced =>
        refine Triple.modify fun t ht => ?_
        obtain ⟨evs, hchanged, htests⟩ := ht
        refine ⟨evs ++ [.primingKept v], hchanged.trans ?_, .kept hlast htests⟩
        exact ⟨t.analyserState, [v], rfl⟩
      | reproduced =>
        refine Triple.modify fun t ht => ?_
        obtain ⟨evs, hchanged, htests⟩ := ht
        refine ⟨evs, ?_, .dropped hlast (by simp) htests⟩
        obtain ⟨st, vs, rfl⟩ := hchanged
        exact ⟨st, [], rfl⟩
      | tracingError =>
        refine Triple.modify fun t ht => ?_
        obtain ⟨evs, hchanged, htests⟩ := ht
        refine ⟨evs, ?_, .dropped hlast (by simp) htests⟩
        obtain ⟨st, vs, rfl⟩ := hchanged
        exact ⟨st, [], rfl⟩

end Programs

/-- The events that a program added to the log. -/
def newEvents (s s' : RoundManager ι θ τ κ) : List (Event ι θ τ) := s'.log.drop s.log.length

/-- The executor answered no test with an empty or a corrupted trace. -/
def NoTracingError (env : Env ι θ τ κ) (s : RoundManager ι θ τ κ) (evs : List (Event ι θ τ)) :
    Prop :=
  ∀ before v p r new, before ++ [.primed v p.1 p.2 r] <+: evs →
    SwapTrace env s.boostedInputs s.ignoreList (s.log ++ before) (primingReps v) p new → Usable new

/-- The check left violations for good reasons. -/
structure PrimingSound (env : Env ι θ τ κ) (s s' : RoundManager ι θ τ κ) : Prop where
  emptied : s'.violations = [] →
    ∀ v ∈ s.violations, ∀ p ∈ orderedPairs v, Performed env s (newEvents s s') v p true
  kept : ∀ v ∈ s'.violations,
    v ∈ s.violations ∧ ∃ p ∈ orderedPairs v, Performed env s (newEvents s s') v p false

/-- No violation but the last one has a pair to test, or the executor answers a test of the last
one with a trace that is not equivalent. -/
def LastDecides (env : Env ι θ τ κ) (s : RoundManager ι θ τ κ) : Prop :=
  (∀ v ∈ s.violations, orderedPairs v ≠ [] → s.violations.getLast? = some v) ∨
    ∃ v, s.violations.getLast? = some v ∧
      SwapFails env s.boostedInputs s.ignoreList v (orderedPairs v) s.log s.analyserState

/-- Tests end with a tracing error only if the executor made one. -/
theorem NoTracingError.not_tracingError {env : Env ι θ τ κ} {s : RoundManager ι θ τ κ}
    {v : Violation ι τ} {ps : List (TraceBundle ι × TraceBundle ι)} {r : PrimingResult}
    {log before evs : List (Event ι θ τ)} {st st' : κ}
    (h : SwapTests env s.boostedInputs s.ignoreList v ps log st r evs st')
    (hlog : log = s.log ++ before) (herr : NoTracingError env s (before ++ evs)) :
    r ≠ .tracingError := by
  induction h generalizing before with
  | none => simp
  | reproduced _ _ ih =>
    rw [List.append_cons] at herr
    exact ih (by rw [hlog, List.append_assoc]) herr
  | notReproduced _ => simp
  | tracingError hnew hbad =>
    rw [hlog] at hnew
    exact absurd (herr before _ _ _ _ (List.prefix_refl _) hnew) hbad

/-- The priming check discards only violations that were reproduced, and keeps only violations that
were not, exactly when the last violation of the list decides. -/
theorem primingCheck_sound_iff (env : Env ι θ τ κ) {s s' : RoundManager ι θ τ κ}
    (hrun : primingCheck env s = .ok () s') (herr : NoTracingError env s (newEvents s s')) :
    PrimingSound env s s' ↔ LastDecides env s := by
  obtain ⟨evs, ⟨st, vs, hs'⟩, hprimed⟩ := (primingCheck_primed env s).ok rfl hrun
  have hevs : newEvents s s' = evs := by
    unfold newEvents
    rw [hs', List.drop_left]
  have hperformed {v ps r es st₁} (ht : SwapTests env s.boostedInputs s.ignoreList v ps s.log
      s.analyserState r es st₁) := ht.performed (List.append_nil _).symm .start
  rw [hevs] at herr
  generalize hleft : s'.violations = left at hprimed
  cases hprimed with
  | none hnil => exact iff_of_true ⟨by simp [hnil], by simp [hleft]⟩ (Or.inl (by simp [hnil]))
  | @kept v tests st₁ hlast ht =>
    refine iff_of_true ⟨by simp [hleft], fun w hw => ?_⟩ (Or.inr ⟨v, hlast, ht.fails_iff.mpr rfl⟩)
    rw [hleft, List.mem_singleton] at hw
    subst hw
    obtain ⟨p, hp, hperf⟩ := (hperformed ht).2 rfl
    refine ⟨List.mem_of_getLast? hlast, p, hp, ?_⟩
    rw [hevs]
    exact hperf.mono (List.prefix_append _ _)
  | @dropped v r _ st₁ hlast hr ht =>
    have hrep : r = .reproduced := by
      cases r with
      | reproduced => rfl
      | notReproduced => exact absurd rfl hr
      | tracingError => exact absurd rfl (herr.not_tracingError ht (List.append_nil _).symm)
    subst hrep
    constructor
    · intro hsound
      left
      intro w hw hpairs
      obtain ⟨p, hp⟩ := List.exists_mem_of_ne_nil _ hpairs
      -- the only tests are those of the last violation
      have hmem := (hsound.emptied hleft w hw p hp).mem
      rw [hevs] at hmem
      obtain ⟨q, -, _, heq⟩ := ht.own hmem
      rw [(Event.primed.inj heq).1, hlast]
    · intro hdecides
      refine ⟨fun _ w hw p hp => ?_, by simp [hleft]⟩
      rw [hevs]
      rcases hdecides with honly | ⟨w', hw', hfails⟩
      · have hwv : v = w := Option.some.inj (hlast.symm.trans (honly w hw (List.ne_nil_of_mem hp)))
        subst hwv
        exact (hperformed ht).1 rfl p hp
      · cases hlast.symm.trans hw'
        exact absurd (ht.fails_iff.mp hfails) (by simp)

section Sample

/-- The trace of cache line set `lines`, measured once. -/
def sampleLines (lines : UInt64) : HTrace := ⟨[⟨lines, 0, 0, 0, 0, 0⟩]⟩

def sampleBundle (i : Nat) (ctrace : Int) : TraceBundle Nat :=
  ⟨i, i, ⟨[⟨.pc, ctrace⟩]⟩, sampleLines (16 + i).toUInt64⟩

/-- Inputs `i` and `j` with one contract trace and two hardware traces. -/
def sampleViolation (i j : Nat) (ctrace : Int) : Violation Nat Unit :=
  ⟨⟨[⟨.pc, ctrace⟩]⟩, [sampleBundle i ctrace, sampleBundle j ctrace],
    [⟨(sampleBundle i ctrace).htrace, [sampleBundle i ctrace]⟩,
      ⟨(sampleBundle j ctrace).htrace, [sampleBundle j ctrace]⟩], [0, 1, 2, 3], ()⟩

/-- Places 0 and 2 show the input they hold, places 1 and 3 show only where they are. -/
def sampleHardware (inputs : List Nat) (i _rep : Nat) : RawHTraceSample :=
  ⟨(16 + if i % 2 = 0 then inputs.getD i 0 else i).toUInt64, 0, 0, 0, 0, 0⟩

def sampleAnalyser : AnalyserOf Nat Unit BitmapCache :=
  equivalenceAnalyser (fun _ => 0) ⟨true, fun n => n / 10⟩ .sets

def sampleEnv : Env Nat Unit Unit BitmapCache where
  conf := ⟨[1], 1, 1, false, true, 2, false⟩
  testCase := ()
  isSpeculative := true
  dataGen := ⟨0, fun _ => 1, fun state _ => (state, state + 1), fun _ _ new => new⟩
  traceTestCase _ inputs _ := inputs.map fun i => ⟨[⟨.pc, (i % 2 : Nat)⟩]⟩
  traceTestCaseWithTaints _ inputs _ :=
    (inputs.map fun i => ⟨[⟨.pc, (i % 2 : Nat)⟩]⟩, inputs.map fun _ => ())
  readTrace _ inputs _ := some (sampleHardware inputs)
  archReadTrace _ _ := none
  archTraceTestCase _ _ _ := []
  analyser := sampleAnalyser

/-- A round in which inputs 0 and 2 leak and the traces of 1 and 3 differ by their place. -/
def sampleRound (violations : List (Violation Nat Unit)) : RoundManager Nat Unit Unit BitmapCache where
  conf := ⟨1, 1, 1, false, true, true, true, true, false, false⟩
  orgInputs := [0, 1]
  boostedInputs := [0, 1, 2, 3]
  htraces := [sampleLines 16, sampleLines 17, sampleLines 18, sampleLines 19]
  referenceHtraces := []
  ctraces := []
  nonBoostedCtraces := []
  violations := violations
  archViolations := []
  ignoreList := ∅
  analyserState := []
  sampleSize := 1
  log := []

/-- The tests of inputs 1 and 3, both reproduced. -/
def sampleTests : List (Event Nat Unit Unit) :=
  [.primed (sampleViolation 1 3 1) (sampleBundle 1 1) (sampleBundle 3 1) .reproduced,
    .primed (sampleViolation 1 3 1) (sampleBundle 3 1) (sampleBundle 1 1) .reproduced]

/-- The test of inputs 0 and 2, which finds another trace. -/
def sampleTestsKept : List (Event Nat Unit Unit) :=
  [.primed (sampleViolation 0 2 0) (sampleBundle 0 0) (sampleBundle 2 0) .notReproduced,
    .primingKept (sampleViolation 0 2 0)]

theorem primingCheck_sampleLeak :
    primingCheck sampleEnv (sampleRound [sampleViolation 0 2 0, sampleViolation 1 3 1]) =
      .ok () { sampleRound [] with log := sampleTests } := by
  with_unfolding_all rfl

theorem primingCheck_sampleSingle :
    primingCheck sampleEnv (sampleRound [sampleViolation 1 3 1]) =
      .ok () { sampleRound [] with log := sampleTests } := by
  with_unfolding_all rfl

theorem primingCheck_sampleKept :
    primingCheck sampleEnv (sampleRound [sampleViolation 1 3 1, sampleViolation 0 2 0]) =
      .ok () { sampleRound [sampleViolation 0 2 0] with log := sampleTestsKept } := by
  with_unfolding_all rfl

/-- A measured place of the sample shows a line of its own. -/
theorem sampleSwap_usable {log : List (Event Nat Unit Unit)} {p : TraceBundle Nat × TraceBundle Nat}
    {new : HTrace} (h : SwapTrace sampleEnv [0, 1, 2, 3] ∅ log 1 p new) : Usable new := by
  obtain ⟨input, traces, hinput, hlt, htraces, hnew⟩ := h
  have hle : input < 4 := by
    have hmem := List.mem_of_getElem? hinput
    simp only [List.mem_cons, List.not_mem_nil, or_false] at hmem
    omega
  have hplace : p.1.inputId < 4 := hlt
  generalize p.1.inputId = i at hplace hnew htraces
  simp only [tracesAfter, sampleEnv, List.length_set] at htraces
  cases htraces
  simp only [rawReadingsToTraces, List.getElem?_map] at hnew
  obtain rfl | rfl | rfl | rfl : i = 0 ∨ i = 1 ∨ i = 2 ∨ i = 3 := by omega
  all_goals
    cases hnew
    obtain rfl | rfl | rfl | rfl : input = 0 ∨ input = 1 ∨ input = 2 ∨ input = 3 := by omega
    all_goals with_unfolding_all rfl

theorem sampleTests_noTracingError (vs : List (Violation Nat Unit)) :
    NoTracingError sampleEnv (sampleRound vs) sampleTests := by
  intro before v p r new hpre hnew
  have hmem := hpre.subset (List.mem_append_right before (List.mem_singleton_self _))
  simp only [sampleTests, List.mem_cons, Event.primed.injEq, List.not_mem_nil, or_false] at hmem
  rcases hmem with ⟨rfl, -⟩ | ⟨rfl, -⟩
  · exact sampleSwap_usable hnew
  · exact sampleSwap_usable hnew

theorem sampleTestsKept_noTracingError (vs : List (Violation Nat Unit)) :
    NoTracingError sampleEnv (sampleRound vs) sampleTestsKept := by
  intro before v p r new hpre hnew
  have hmem := hpre.subset (List.mem_append_right before (List.mem_singleton_self _))
  simp only [sampleTestsKept, List.mem_cons, Event.primed.injEq, List.not_mem_nil, or_false,
    reduceCtorEq] at hmem
  obtain ⟨rfl, -⟩ := hmem
  exact sampleSwap_usable hnew

/-- A reproduced violation is dropped, and one that is not reproduced is kept. -/
theorem primingCheck_sound_iff_sample :
    PrimingSound sampleEnv (sampleRound [sampleViolation 1 3 1])
        { sampleRound [] with log := sampleTests } ∧
      PrimingSound sampleEnv (sampleRound [sampleViolation 1 3 1, sampleViolation 0 2 0])
        { sampleRound [sampleViolation 0 2 0] with log := sampleTestsKept } := by
  constructor
  · refine (primingCheck_sound_iff sampleEnv primingCheck_sampleSingle
      (sampleTests_noTracingError _)).mpr (Or.inl ?_)
    intro v hv _
    rw [List.mem_singleton.mp hv]
    rfl
  · refine (primingCheck_sound_iff sampleEnv primingCheck_sampleKept
      (sampleTestsKept_noTracingError _)).mpr (Or.inr ⟨sampleViolation 0 2 0, rfl, ?_⟩)
    have hnew : SwapTrace sampleEnv [0, 1, 2, 3] ∅ [] 1 (sampleBundle 0 0, sampleBundle 2 0)
        (sampleLines 18) := ⟨2, _, rfl, by simp [sampleBundle], rfl, rfl⟩
    have htest : SwapTest sampleEnv [0, 1, 2, 3] ∅ [] 1 [] (sampleBundle 0 0, sampleBundle 2 0)
        false [] := ⟨_, hnew, sampleSwap_usable hnew, by with_unfolding_all rfl⟩
    exact .here htest

/-- The check drops the leak of inputs 0 and 2 without having tested it. -/
theorem sampleLeak_dropped :
    ¬ ∀ s s', primingCheck sampleEnv s = .ok () s' → NoTracingError sampleEnv s (newEvents s s') →
      PrimingSound sampleEnv s s' := by
  intro hall
  have hsound := hall _ _ primingCheck_sampleLeak (sampleTests_noTracingError _)
  have hpair : (sampleBundle 0 0, sampleBundle 2 0) ∈ orderedPairs (sampleViolation 0 2 0) := by
    simp [orderedPairs, pairsOf, measurementsToTest, sampleViolation, otherMeasurements,
      sampleBundle]
  have hperf := hsound.emptied rfl (sampleViolation 0 2 0) (by simp [sampleRound]) _ hpair
  -- the only tests are those of inputs 1 and 3
  have hmem : _ ∈ sampleTests := hperf.mem
  simp only [sampleTests, List.mem_cons, Event.primed.injEq, List.not_mem_nil, or_false] at hmem
  have hv : sampleViolation 0 2 0 = sampleViolation 1 3 1 := hmem.elim And.left And.left
  simp [sampleViolation] at hv

end Sample

end Rvzr.Fuzzer
