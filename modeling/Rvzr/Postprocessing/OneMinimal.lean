import Rvzr.Postprocessing.Minimizer

/-!
# What the sequence pass leaves

The iterative part of `InputSequenceMinimizationPass` leaves out one input after the other, until an
iteration leaves out none. Its inner loop counts from the length of the sequence down to one: the
index after the last input is tried and the first input is not. What is left is minimal at every
other position, and at the first one only for a fuzzer that reports no sequence without its first
input when it reports none without one of the others (`oneMinimal_iff`).
-/

namespace Rvzr.Postprocessing

open Rvzr.Lib

/-- How a round ends does not depend on what ran before it. -/
def Env.Deterministic (env : Env) : Prop := ∀ k k', env.outcome k = env.outcome k'

/-- The fuzzer reports a violation for these inputs when boosting is off. -/
def Env.Reports (env : Env) (data : List InputData) : Prop :=
  ∃ o, env.outcome 0 1 data [] = some o ∧ o.measurements ≠ []

/-- One of the iterations leaves out nothing, and the loop is left there. -/
def StopsEarly (env : Env) : Nat → List Ref → Violation → State → Prop
  | 0, _, _, _ => False
  | iterations + 1, inputs, violation, s =>
    ∃ newInputs newViolation s',
      removeInputs env (List.range' 1 inputs.length).reverse inputs violation s =
        .ok (newInputs, newViolation) s' ∧
      (newInputs.length ≠ inputs.length → StopsEarly env iterations newInputs newViolation s')

/-- The pass returns, gives the boosting setting back, and if its iterations stop early, it returns
the boosted sequence or one that the fuzzer reports, and the fuzzer reports none with one input
less. -/
def OneMinimal (env : Env) (orgInputs : List Ref) (orgViolation : Violation) (s : State) : Prop :=
  ∃ boosted s₁ inputs s',
    halveInputs env orgInputs.length orgInputs orgViolation s = .ok boosted s₁ ∧
    inputSequenceMinimizationPass env orgInputs orgViolation s = .ok inputs s' ∧
    s'.inputsPerClass = s.inputsPerClass ∧
    (StopsEarly env 10 boosted.inputSequence boosted { s₁ with inputsPerClass := 1 } →
      (inputs = boosted.inputSequence ∨ env.Reports (s'.contents inputs)) ∧
      ∀ i < inputs.length, ¬ env.Reports ((s'.contents inputs).eraseIdx i))

section Rounds

variable {env : Env} {s₀ s : State} {inputs : List Ref} {violation : Violation}

/-- Boosting is off, and the objects are those of `s₀`. -/
structure Unboosted (s₀ s : State) : Prop where
  objects : s.objects = s₀.objects
  inputsPerClass : s.inputsPerClass = 1

theorem Unboosted.contents (h : Unboosted s₀ s) (inputs : List Ref) :
    s.contents inputs = s₀.contents inputs := by
  unfold State.contents
  rw [h.objects]

/-- A round without boosting finds a violation exactly if the fuzzer reports one, and on the given
inputs. -/
theorem Unboosted.round (hdet : env.Deterministic) (h : Unboosted s₀ s) (inputs : List Ref) :
    ∃ r s', fuzzingRound env inputs [] s = .ok r s' ∧ Unboosted s₀ s' ∧
      ((∃ v, found r = some v) ↔ env.Reports (s₀.contents inputs)) ∧
      ∀ v, found r = some v → v.inputSequence = inputs := by
  obtain ⟨r, s', hrun⟩ := fuzzingRound_returns env s inputs []
  have hspec := fuzzingRound_spec hrun
  have hobjects : s'.objects = s.objects := hspec.unboosted (Or.inl h.inputsPerClass)
  refine ⟨r, s', hrun, ⟨hobjects.trans h.objects, hspec.inputsPerClass.trans h.inputsPerClass⟩,
    ?_, ?_⟩
  · rw [found_isSome_iff hrun, Env.Confirms, h.inputsPerClass, h.contents,
      hdet s.rounds.length 0]
    rfl
  · intro v hv
    obtain ⟨rfl, -⟩ := Option.filter_eq_some_iff.mp hv
    unfold fuzzingRound at hrun
    dsimp only at hrun
    cases ho : env.outcome s.rounds.length s.inputsPerClass (s.contents inputs) [] with
    | none =>
      rw [ho] at hrun
      cases hrun
    | some o =>
      rw [ho] at hrun
      cases hrun
      exact if_pos h.inputsPerClass

/-- What the inner loop does to the inputs when it tries the indices `ids`. -/
structure Removal (env : Env) (s₀ : State) (ids : List Nat) (inputs newInputs : List Ref)
    (newViolation : Violation) : Prop where
  sequence : newViolation.inputSequence = newInputs
  sublist : newInputs.Sublist inputs
  length : newInputs.length ≤ inputs.length
  reported : newInputs = inputs ∨ env.Reports (s₀.contents newInputs)
  same : newInputs.length = inputs.length → newInputs = inputs
  tried : newInputs.length = inputs.length →
    ∀ i ∈ ids, i < inputs.length → ¬ env.Reports ((s₀.contents inputs).eraseIdx i)
  kept : (∀ i ∈ ids, i < inputs.length → ¬ env.Reports ((s₀.contents inputs).eraseIdx i)) →
    newInputs.length = inputs.length

theorem contents_eraseIdx (s : State) (inputs : List Ref) (i : Nat) :
    s.contents (inputs.take i ++ inputs.drop (i + 1)) = (s.contents inputs).eraseIdx i := by
  unfold State.contents
  rw [List.eraseIdx_eq_take_drop_succ, List.map_append, List.map_take, List.map_drop]

theorem removeInputs_removal (hdet : env.Deterministic) (ids : List Nat) (h : Unboosted s₀ s)
    (hv : violation.inputSequence = inputs) :
    ∃ newInputs newViolation s',
      removeInputs env ids inputs violation s = .ok (newInputs, newViolation) s' ∧
      Unboosted s₀ s' ∧ Removal env s₀ ids inputs newInputs newViolation := by
  induction ids generalizing inputs violation s with
  | nil =>
    refine ⟨inputs, violation, s, rfl, h, hv, List.Sublist.refl _, Nat.le_refl _, Or.inl rfl,
      fun _ => rfl, ?_, ?_⟩
    · intro _ i hi
      exact absurd hi List.not_mem_nil
    · intro _
      rfl
  | cons id ids ih =>
    have herase := contents_eraseIdx s₀ inputs id
    set trial := inputs.take id ++ inputs.drop (id + 1) with htrial
    obtain ⟨r, s₁, hround, h₁, hfound, hseq⟩ := h.round hdet trial
    cases hf : found r with
    | none =>
      have hstep : removeInputs env (id :: ids) inputs violation s =
          removeInputs env ids inputs violation s₁ := by
        refine (bind_run hround).trans ?_
        rw [hf]
      rw [hstep]
      obtain ⟨newInputs, newViolation, s', hrun, hs', hrem⟩ := ih h₁ hv
      -- the index that was just tried gives no violation
      have hnot : ¬ env.Reports ((s₀.contents inputs).eraseIdx id) := by
        rw [← herase, ← hfound, hf]
        rintro ⟨v, hv⟩
        cases hv
      refine ⟨newInputs, newViolation, s', hrun, hs', hrem.sequence, hrem.sublist, hrem.length,
        hrem.reported, hrem.same, ?_, ?_⟩
      · intro hlen i hi hlt
        rcases List.mem_cons.mp hi with rfl | hi
        · exact hnot
        · exact hrem.tried hlen i hi hlt
      · intro hall
        exact hrem.kept fun i hi => hall i (List.mem_cons_of_mem _ hi)
    | some v =>
      have hstep : removeInputs env (id :: ids) inputs violation s =
          removeInputs env ids trial v s₁ := by
        refine (bind_run hround).trans ?_
        rw [hf]
      rw [hstep]
      obtain ⟨newInputs, newViolation, s', hrun, hs', hrem⟩ := ih h₁ (hseq v hf)
      have hreported : env.Reports (s₀.contents trial) := hfound.mp ⟨v, hf⟩
      rcases Nat.lt_or_ge id inputs.length with hlt | hge
      · -- one input less from here on
        have hshort : trial.length + 1 = inputs.length := by
          rw [htrial, List.length_append, List.length_take, List.length_drop]
          omega
        have hle := hrem.length
        have hsub : trial.Sublist inputs := by
          rw [htrial, ← List.eraseIdx_eq_take_drop_succ]
          exact List.eraseIdx_sublist inputs id
        refine ⟨newInputs, newViolation, s', hrun, hs', hrem.sequence, hrem.sublist.trans hsub,
          by omega, ?_, by omega, by omega, ?_⟩
        · rcases hrem.reported with heq | hrep
          · rw [heq]
            exact Or.inr hreported
          · exact Or.inr hrep
        · intro hall
          rw [herase] at hreported
          exact absurd hreported (hall id List.mem_cons_self hlt)
      · -- the index after the last input leaves out nothing
        have hsame : trial = inputs := by
          rw [htrial, List.take_of_length_le hge, List.drop_eq_nil_of_le (by omega),
            List.append_nil]
        rw [hsame] at hrun hrem
        refine ⟨newInputs, newViolation, s', ?_, hs', hrem.sequence, hrem.sublist, hrem.length,
          hrem.reported, hrem.same, ?_, ?_⟩
        · rw [hsame]
          exact hrun
        · intro hlen i hi hlt
          rcases List.mem_cons.mp hi with rfl | hi
          · omega
          · exact hrem.tried hlen i hi hlt
        · intro hall
          exact hrem.kept fun i hi => hall i (List.mem_cons_of_mem _ hi)

theorem reduceSequence_succ {newInputs : List Ref} {newViolation : Violation} {s' : State}
    (iterations : Nat)
    (hrun : removeInputs env (List.range' 1 inputs.length).reverse inputs violation s =
      .ok (newInputs, newViolation) s') :
    reduceSequence env (iterations + 1) inputs violation s =
      (if newInputs.length = inputs.length then pure newViolation
        else reduceSequence env iterations newInputs newViolation : M Violation) s' :=
  bind_run hrun

/-- The iterations end with the given inputs or with reported ones, and if they stop early, every
index but the first has been tried on what is left. -/
theorem reduceSequence_result (hdet : env.Deterministic) (iterations : Nat) (h : Unboosted s₀ s)
    (hv : violation.inputSequence = inputs) :
    ∃ v s', reduceSequence env iterations inputs violation s = .ok v s' ∧ Unboosted s₀ s' ∧
      v.inputSequence.Sublist inputs ∧
      (v.inputSequence = inputs ∨ env.Reports (s₀.contents v.inputSequence)) ∧
      (StopsEarly env iterations inputs violation s →
        ∀ i, 1 ≤ i → i < v.inputSequence.length →
          ¬ env.Reports ((s₀.contents v.inputSequence).eraseIdx i)) := by
  induction iterations generalizing inputs violation s with
  | zero =>
    exact ⟨violation, s, rfl, h, hv ▸ List.Sublist.refl _, Or.inl hv, fun hstop => hstop.elim⟩
  | succ iterations ih =>
    obtain ⟨newInputs, newViolation, s₁, hrun, h₁, hrem⟩ :=
      removeInputs_removal hdet (List.range' 1 inputs.length).reverse h hv
    rw [reduceSequence_succ iterations hrun]
    by_cases hlen : newInputs.length = inputs.length
    · rw [if_pos hlen]
      have hsame := hrem.same hlen
      refine ⟨newViolation, s₁, rfl, h₁, hrem.sequence ▸ hrem.sublist,
        Or.inl (hrem.sequence.trans hsame), ?_⟩
      intro _ i hpos hlt
      rw [hrem.sequence, hsame] at hlt ⊢
      apply hrem.tried hlen i _ hlt
      rw [List.mem_reverse, List.mem_range'_1]
      omega
    · rw [if_neg hlen]
      obtain ⟨v, s', hv', hs', hsub, hreported, htried⟩ := ih h₁ hrem.sequence
      refine ⟨v, s', hv', hs', hsub.trans hrem.sublist, ?_, ?_⟩
      · rcases hreported with heq | hrep
        · rw [heq]
          exact hrem.reported
        · exact Or.inr hrep
      · rintro ⟨newInputs', newViolation', s₁', hrun', hrest⟩
        rw [hrun] at hrun'
        cases hrun'
        exact htried (hrest hlen)

theorem halveInputs_returns (env : Env) (fuel : Nat) (inputs : List Ref) (violation : Violation)
    (s : State) : ∃ v s', halveInputs env fuel inputs violation s = .ok v s' := by
  induction fuel generalizing inputs violation s with
  | zero => exact ⟨violation, s, rfl⟩
  | succ fuel ih =>
    unfold halveInputs
    by_cases hlen : inputs.length > 5
    · rw [if_pos hlen]
      obtain ⟨r, s₁, hround⟩ :=
        fuzzingRound_returns env s (inputs.take (inputs.length / 2)) []
      rw [bind_run hround]
      cases found r with
      | none => exact ⟨violation, s₁, rfl⟩
      | some v => exact ih _ v s₁
    · rw [if_neg hlen]
      exact ⟨violation, s, rfl⟩

/-- The pass in its two parts. -/
theorem inputSequenceMinimizationPass_run {orgInputs : List Ref} {boosted v : Violation}
    {s₁ s₂ : State}
    (hhalve : halveInputs env orgInputs.length orgInputs violation s = .ok boosted s₁)
    (hreduce : reduceSequence env 10 boosted.inputSequence boosted
      { s₁ with inputsPerClass := 1 } = .ok v s₂) :
    inputSequenceMinimizationPass env orgInputs violation s =
      .ok v.inputSequence { s₂ with inputsPerClass := s₁.inputsPerClass } := by
  refine (bind_run hhalve).trans ?_
  refine (bind_run (get_run s₁)).trans ?_
  refine (bind_run (show setInputsPerClass 1 s₁ = .ok () { s₁ with inputsPerClass := 1 }
    from rfl)).trans ?_
  exact (bind_run hreduce).trans rfl

end Rounds

section Minimal

variable {env : Env}

/-- From a start whose boosted sequence has no part that needs all inputs but its first one, the pass
leaves a minimal sequence. -/
theorem OneMinimal.of_start (hdet : env.Deterministic) {orgInputs : List Ref}
    {orgViolation boosted : Violation} {s s₁ : State}
    (hhalve : halveInputs env orgInputs.length orgInputs orgViolation s = .ok boosted s₁)
    (htail : ∀ data : List InputData, data.Sublist (s₁.contents boosted.inputSequence) →
      (∀ i, 1 ≤ i → i < data.length → ¬ env.Reports (data.eraseIdx i)) → data ≠ [] →
        ¬ env.Reports data.tail) :
    OneMinimal env orgInputs orgViolation s := by
  have hipc : s₁.inputsPerClass = s.inputsPerClass :=
    ((Keeps.halveInputs _ _ _ s s.inputsPerClass).ok ⟨List.prefix_rfl, Nat.le_refl _, rfl⟩
      hhalve).inputsPerClass
  set s₀ : State := { s₁ with inputsPerClass := 1 } with hs₀
  obtain ⟨v, s₂, hreduce, hs₂, hsub, hreported, htried⟩ :=
    reduceSequence_result hdet 10 (⟨rfl, rfl⟩ : Unboosted s₀ s₀)
      (rfl : boosted.inputSequence = boosted.inputSequence)
  have hcontents : ({ s₂ with inputsPerClass := s₁.inputsPerClass } : State).contents
      v.inputSequence = s₀.contents v.inputSequence := hs₂.contents v.inputSequence
  refine ⟨boosted, s₁, v.inputSequence, { s₂ with inputsPerClass := s₁.inputsPerClass }, hhalve,
    inputSequenceMinimizationPass_run hhalve hreduce, hipc, ?_⟩
  intro hstop
  rw [hcontents]
  refine ⟨hreported, fun i hlt => ?_⟩
  have hothers := htried hstop
  have hlength : (s₀.contents v.inputSequence).length = v.inputSequence.length :=
    List.length_map _
  rcases Nat.eq_zero_or_pos i with rfl | hpos
  · -- the first input is never left out by the loop
    rw [List.eraseIdx_zero]
    apply htail
    · exact hsub.map _
    · intro i hpos hlt
      exact hothers i hpos (hlength ▸ hlt)
    · intro hnil
      rw [hnil] at hlength
      exact absurd hlt (by rw [← hlength]; simp)
  · exact hothers i hpos hlt

/-- For a fuzzer that needs the first input of a sequence whenever it needs all others, what the
pass leaves is minimal. -/
theorem OneMinimal.of_tail (hdet : env.Deterministic)
    (htail : ∀ data : List InputData,
      (∀ i, 1 ≤ i → i < data.length → ¬ env.Reports (data.eraseIdx i)) → data ≠ [] →
        ¬ env.Reports data.tail)
    (orgInputs : List Ref) (orgViolation : Violation) (s : State) :
    OneMinimal env orgInputs orgViolation s := by
  obtain ⟨boosted, s₁, hhalve⟩ :=
    halveInputs_returns env orgInputs.length orgInputs orgViolation s
  exact OneMinimal.of_start hdet hhalve fun data _ => htail data

/-- A sequence that boosting made of one input, and from which no input but the first can be left
out: the pass returns it, whatever the fuzzer says about the rest without the first. -/
theorem OneMinimal.not_tail (hdet : env.Deterministic) {data : List InputData}
    {measurements : List Nat} {inputsPerClass : Nat}
    (hkept : ∀ i, 1 ≤ i → i < data.length → ¬ env.Reports (data.eraseIdx i)) (hne : data ≠ [])
    (h : OneMinimal env [0] ⟨0, orgInputs data, measurements⟩
      (State.generated data inputsPerClass)) :
    ¬ env.Reports data.tail := by
  set v : Violation := ⟨0, orgInputs data, measurements⟩ with hv
  set s₀ : State := State.generated data 1 with hs₀
  have hlength : (orgInputs data).length = data.length := List.length_range
  have hdata : s₀.contents (orgInputs data) = data := contents_generated
  obtain ⟨boosted, s₁, inputs, s', hhalve, hpass, -, hminimal⟩ := h
  have hhalve' : halveInputs env 1 [0] v (State.generated data inputsPerClass) =
      .ok v (State.generated data inputsPerClass) := rfl
  have hboth := hhalve'.symm.trans hhalve
  cases hboth
  obtain ⟨newInputs, newViolation, s₂, hrun, hs₂, hrem⟩ :=
    removeInputs_removal hdet (List.range' 1 (orgInputs data).length).reverse
      (⟨rfl, rfl⟩ : Unboosted s₀ s₀) (rfl : v.inputSequence = orgInputs data)
  have hlen : newInputs.length = (orgInputs data).length := by
    apply hrem.kept
    intro i hi hlt
    rw [List.mem_reverse, List.mem_range'_1] at hi
    rw [hdata]
    exact hkept i hi.1 (hlength ▸ hlt)
  have hreduce : reduceSequence env 10 v.inputSequence v s₀ = .ok newViolation s₂ := by
    rw [reduceSequence_succ 9 hrun, if_pos hlen]
    rfl
  rw [inputSequenceMinimizationPass_run hhalve' hreduce] at hpass
  cases hpass
  have hfirst := (hminimal ⟨newInputs, newViolation, s₂, hrun, fun hne => absurd hlen hne⟩).2 0
  rw [hrem.sequence, hrem.same hlen, List.eraseIdx_zero] at hfirst
  have hpos : 0 < (orgInputs data).length := hlength ▸ List.length_pos_of_ne_nil hne
  have hsame : ({ s₂ with inputsPerClass := inputsPerClass } : State).contents (orgInputs data) =
      data := (hs₂.contents (orgInputs data)).trans hdata
  have hresult := hfirst hpos
  rwa [show ({ s₂ with inputsPerClass := (State.generated data inputsPerClass).inputsPerClass } :
    State).contents (orgInputs data) = data from hsame] at hresult

/-- The pass leaves minimal sequences exactly for the fuzzers that report nothing without the first
input of a sequence from which no other input can be left out. -/
theorem oneMinimal_iff (hdet : env.Deterministic) :
    (∀ orgInputs orgViolation s, OneMinimal env orgInputs orgViolation s) ↔
      ∀ data : List InputData,
        (∀ i, 1 ≤ i → i < data.length → ¬ env.Reports (data.eraseIdx i)) → data ≠ [] →
          ¬ env.Reports data.tail := by
  constructor
  · intro h data hkept hne
    exact OneMinimal.not_tail hdet hkept hne
      (h [0] ⟨0, orgInputs data, [0, 1]⟩ (State.generated data 2))
  · exact OneMinimal.of_tail hdet

/-- A fuzzer that reports a violation whenever there is an input to prime with. -/
def primedFuzzer : Env where
  outcome _ _ inputs _ :=
    if 2 ≤ inputs.length then some { boosted := [], measurements := [0, 1] } else none
  minimizerRetries := 1
  nActors := 1

theorem primedFuzzer_reports_iff (data : List InputData) :
    primedFuzzer.Reports data ↔ 2 ≤ data.length := by
  unfold Env.Reports
  simp [primedFuzzer]

theorem primedFuzzer_oneMinimal :
    primedFuzzer.Deterministic ∧
      ∀ orgInputs orgViolation s, OneMinimal primedFuzzer orgInputs orgViolation s := by
  refine ⟨fun _ _ => rfl, (oneMinimal_iff fun _ _ => rfl).2 fun data hkept hne htail => ?_⟩
  rw [primedFuzzer_reports_iff, List.length_tail] at htail
  -- without the second input there are as many as without the first one
  apply hkept 1 (Nat.le_refl 1) (by omega)
  rw [primedFuzzer_reports_iff, List.length_eraseIdx_of_lt (by omega)]
  exact htail

/-- An input with one actor and one word. -/
def sampleWordInput (word : Nat) : InputData := [⟨[word], [], [], []⟩]

/-- A fuzzer that reports a violation whenever the inputs 1 and 2 are both there. -/
def bothFuzzer : Env where
  outcome _ _ inputs _ :=
    if sampleWordInput 1 ∈ inputs ∧ sampleWordInput 2 ∈ inputs then
      some { boosted := [], measurements := [0, 1] }
    else none
  minimizerRetries := 1
  nActors := 1

theorem bothFuzzer_reports_iff (data : List InputData) :
    bothFuzzer.Reports data ↔ sampleWordInput 1 ∈ data ∧ sampleWordInput 2 ∈ data := by
  unfold Env.Reports
  simp [bothFuzzer]

/-- One input that was boosted with the violating inputs 1 and 2. -/
def sampleBoosted : List InputData := [sampleWordInput 0, sampleWordInput 1, sampleWordInput 2]

/-- The pass keeps all three inputs, and the fuzzer reports the last two as well. -/
theorem bothFuzzer_not_oneMinimal :
    bothFuzzer.Deterministic ∧
      ¬ OneMinimal bothFuzzer [0] ⟨0, orgInputs sampleBoosted, [1, 2]⟩
        (State.generated sampleBoosted 3) := by
  refine ⟨fun _ _ => rfl, fun h => ?_⟩
  have hkept : ∀ i, 1 ≤ i → i < sampleBoosted.length →
      ¬ bothFuzzer.Reports (sampleBoosted.eraseIdx i) := by
    intro i hpos hlt
    rw [bothFuzzer_reports_iff]
    have hlength : sampleBoosted.length = 3 := rfl
    obtain rfl | rfl : i = 1 ∨ i = 2 := by omega
    · decide
    · decide
  have htail := OneMinimal.not_tail (fun _ _ => rfl) hkept (by simp [sampleBoosted]) h
  exact htail ((bothFuzzer_reports_iff _).mpr (by decide))

/-- Boosted with the violating inputs alone, the input keeps them. -/
example :
    OneMinimal bothFuzzer [0] ⟨0, orgInputs sampleBoosted.tail, [0, 1]⟩
      (State.generated sampleBoosted.tail 2) := by
  have hhalve : halveInputs bothFuzzer 1 [0] ⟨0, orgInputs sampleBoosted.tail, [0, 1]⟩
      (State.generated sampleBoosted.tail 2) =
        .ok ⟨0, orgInputs sampleBoosted.tail, [0, 1]⟩ (State.generated sampleBoosted.tail 2) := rfl
  refine OneMinimal.of_start (fun _ _ => rfl) hhalve fun data hsub _ _ hreports => ?_
  rw [contents_generated] at hsub
  rw [bothFuzzer_reports_iff] at hreports
  exact absurd (hsub.tail.subset hreports.1) (by decide)

end Minimal

end Rvzr.Postprocessing
