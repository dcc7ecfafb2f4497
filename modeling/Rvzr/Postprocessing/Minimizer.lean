import Rvzr.Postprocessing.InputPasses

/-!
# Input stage of the minimizer

`Minimizer.run` reproduces the violation, runs the input passes and asks for one more fuzzing
round before it goes on with their inputs. That round runs on the original inputs. `reproduced_iff`
says for which passes and fuzzing rounds the minimizer still goes on with inputs that reproduce the
violation it goes on with.
-/

namespace Rvzr.Postprocessing

open Rvzr.Lib

/-- The input passes of `pass_map`. -/
inductive InputPass where
  | inputSeqPass
  | inputDiffPass
deriving DecidableEq

/-- The enabled input passes, in the order of `pass_map`. -/
def setPasses (enableInputSeqPass enableInputDiffPass : Bool) : List InputPass :=
  (if enableInputSeqPass then [.inputSeqPass] else []) ++
    (if enableInputDiffPass then [.inputDiffPass] else [])

variable (env : Env)

def InputPass.run (orgInputs : List Ref) (orgViolation : Violation) : InputPass → M (List Ref)
  | .inputSeqPass => inputSequenceMinimizationPass env orgInputs orgViolation
  | .inputDiffPass => differentialInputMinimizerPass env orgViolation

/-- The passes one after the other; what a pass returns is kept if a round on it finds a
violation. -/
def runInputPasses : List InputPass → List Ref → Violation → M (List Ref)
  | [], inputs, _ => pure inputs
  | pass :: passes, inputs, violation => do
    let newInputs ← pass.run env inputs violation
    let newViolation ← fuzzingRound env newInputs []
    match found newViolation with
    | some v => runInputPasses passes newInputs v
    | none => runInputPasses passes inputs violation

def reproduceOrgViolation (inputs : List Ref) : Nat → M (Option Violation)
  | 0 => pure none
  | retries + 1 => do
    let violation ← fuzzingRound env inputs []
    match found violation with
    | some v => pure (some v)
    | none => reproduceOrgViolation inputs retries

/-- The ids of the inputs that do not take part in a violation. -/
def Violation.nonviolatingIds (v : Violation) : List Nat :=
  (List.range v.inputSequence.length).filter fun i => !v.measurements.contains i

/-- What the instruction passes get. -/
structure Continuation where
  inputs : List Ref
  violation : Violation
  ignoreList : List Nat

def Continuation.of (inputs : List Ref) (violation : Violation) : Continuation :=
  { inputs, violation, ignoreList := violation.nonviolatingIds }

/-- The part of `run` between the reproduction and the instruction passes. -/
def inputStage (passes : List InputPass) (inputs : List Ref) (violation : Violation) :
    M Continuation :=
  if passes = [] then pure (.of inputs violation)
  else do
    let newInputs ← runInputPasses env passes inputs violation
    -- the round is on the inputs from before the passes
    let newViolation ← fuzzingRound env inputs []
    match found newViolation with
    | some v => do
      setInputsPerClass 1
      pure (.of newInputs v)
    | none => pure (.of inputs violation)

/-- The generated inputs before the first round. -/
def State.generated (data : List InputData) (inputsPerClass : Nat) : State :=
  { objects := data, inputsPerClass, rounds := [] }

/-- The original inputs. -/
def orgInputs (data : List InputData) : List Ref := List.range data.length

/-! ## What a round and a pass do -/

section Rounds

variable {env} {s s' : State} {inputs : List Ref} {ignoreList : List Nat} {r : Option Violation}

/-- What one round leaves behind. -/
structure RoundSpec (s : State) (inputs : List Ref) (ignoreList : List Nat)
    (r : Option Violation) (s' : State) : Prop where
  inputsPerClass : s'.inputsPerClass = s.inputsPerClass
  rounds : s'.rounds = s.rounds ++ [⟨s.contents inputs, s.inputsPerClass, ignoreList, r⟩]
  objects : s.objects <+: s'.objects
  unboosted : s.inputsPerClass = 1 ∨ r = none → s'.objects = s.objects
  number : ∀ v, r = some v → v.round = s.rounds.length

theorem fuzzingRound_spec (h : fuzzingRound env inputs ignoreList s = .ok r s') :
    RoundSpec s inputs ignoreList r s' := by
  unfold fuzzingRound at h
  dsimp only at h
  cases ho : env.outcome s.rounds.length s.inputsPerClass (s.contents inputs) ignoreList with
  | none =>
    rw [ho] at h
    cases h
    exact ⟨rfl, rfl, List.prefix_rfl, fun _ => rfl, by simp⟩
  | some o =>
    rw [ho] at h
    cases h
    refine ⟨rfl, rfl, ?_, ?_, ?_⟩
    · dsimp only
      split
      · exact List.prefix_rfl
      · exact List.prefix_append _ _
    · rintro (h1 | hnone)
      · simp [h1]
      · simp at hnone
    · intro v hv
      cases hv
      rfl

theorem fuzzingRound_returns (env : Env) (s : State) (inputs : List Ref) (ignoreList : List Nat) :
    ∃ r s', fuzzingRound env inputs ignoreList s = .ok r s' := by
  unfold fuzzingRound
  dsimp only
  split
  · exact ⟨_, _, rfl⟩
  · exact ⟨_, _, rfl⟩

end Rounds

/-- The rounds and the objects of `start` are still there, and the boosting setting is `n`. -/
structure Tracks (start : State) (n : Nat) (s : State) : Prop where
  rounds : start.rounds <+: s.rounds
  objects : start.objects.length ≤ s.objects.length
  inputsPerClass : s.inputsPerClass = n

/-- Rounds are only added, and the boosting setting is left or given back as it was. -/
def Keeps {α : Type} (x : M α) : Prop :=
  ∀ start n, Triple (Tracks start n) x (fun _ => Tracks start n) (fun _ _ => True)

section Keeping

variable {α β : Type} {env}

theorem Keeps.pure (a : α) : Keeps (Pure.pure a) := fun _ _ => Triple.pure fun _ hs => hs

theorem Keeps.throw (e : Error) : Keeps (MonadExcept.throw e : M α) :=
  fun _ _ => Triple.throw fun _ _ => trivial

theorem Keeps.get : Keeps (MonadState.get : M State) := fun _ _ _ hs => hs

theorem Keeps.bind {x : M α} {f : α → M β} (hx : Keeps x) (hf : ∀ a, Keeps (f a)) :
    Keeps (x >>= f) := fun start n => Triple.bind (hx start n) fun a => hf a start n

theorem Keeps.forM {f : α → M PUnit} {l : List α} (h : ∀ a, Keeps (f a)) : Keeps (l.forM f) :=
  fun start n => Triple.forM fun a _ => h a start n

theorem Keeps.ite {c : Prop} [Decidable c] {x y : M α} (hx : Keeps x) (hy : Keeps y) :
    Keeps (if c then x else y) :=
  fun start n => Triple.ite (fun _ => hx start n) (fun _ => hy start n)

theorem Keeps.fuzzingRound (inputs : List Ref) (ignoreList : List Nat) :
    Keeps (fuzzingRound env inputs ignoreList) := by
  intro start n s hs
  obtain ⟨r, s', hrun⟩ := fuzzingRound_returns env s inputs ignoreList
  have hspec := fuzzingRound_spec hrun
  rw [hrun]
  refine ⟨?_, Nat.le_trans hs.objects hspec.objects.length_le, hspec.inputsPerClass.trans hs.3⟩
  rw [hspec.rounds]
  exact hs.rounds.trans (List.prefix_append _ _)

theorem Keeps.checkForViolation (inputs : List Ref) (ignoreList : List Nat) (retries : Nat) :
    Keeps (checkForViolation env inputs ignoreList retries) := by
  induction retries with
  | zero => exact Keeps.pure false
  | succ retries ih =>
    apply Keeps.bind (Keeps.fuzzingRound inputs ignoreList)
    intro violation
    exact Keeps.ite (Keeps.pure true) ih

/-- What runs without boosting between two settings keeps the setting. -/
theorem Keeps.unboosted {x : M α} {f : α → β} (hx : Keeps x) :
    Keeps (do
      let s ← MonadState.get
      setInputsPerClass 1
      let a ← x
      setInputsPerClass s.inputsPerClass
      Pure.pure (f a)) := by
  intro start n
  apply Triple.get_bind
  intro s₀ hs₀
  have hset (m : Nat) {k : Nat} : Triple (Tracks start k) (setInputsPerClass m)
      (fun _ => Tracks start m) (fun _ _ => True) :=
    Triple.modify fun s hs => ⟨hs.rounds, hs.objects, rfl⟩
  apply Triple.bind ((hset 1).start hs₀)
  intro _
  apply Triple.bind (hx start 1)
  intro a
  rw [hs₀.inputsPerClass]
  apply Triple.bind (hset n)
  intro _
  exact Triple.pure fun s hs => hs

theorem Keeps.halveInputs (fuel : Nat) (inputs : List Ref) (violation : Violation) :
    Keeps (halveInputs env fuel inputs violation) := by
  induction fuel generalizing inputs violation with
  | zero => exact Keeps.pure violation
  | succ fuel ih =>
    apply Keeps.ite
    · apply Keeps.bind (Keeps.fuzzingRound _ _)
      intro newViolation
      cases found newViolation with
      | none => exact Keeps.pure violation
      | some v => exact ih _ v
    · exact Keeps.pure violation

theorem Keeps.removeInputs (ids : List Nat) (inputs : List Ref) (violation : Violation) :
    Keeps (removeInputs env ids inputs violation) := by
  induction ids generalizing inputs violation with
  | nil => exact Keeps.pure _
  | cons inputId ids ih =>
    apply Keeps.bind (Keeps.fuzzingRound _ _)
    intro newViolation
    cases found newViolation with
    | none => exact ih inputs violation
    | some v => exact ih _ v

theorem Keeps.reduceSequence (iterations : Nat) (inputs : List Ref) (violation : Violation) :
    Keeps (reduceSequence env iterations inputs violation) := by
  induction iterations generalizing inputs violation with
  | zero => exact Keeps.pure violation
  | succ iterations ih =>
    apply Keeps.bind (Keeps.removeInputs _ _ _)
    rintro ⟨newInputs, newViolation⟩
    exact Keeps.ite (Keeps.pure newViolation) (ih _ _)

theorem Keeps.inputSequenceMinimizationPass (inputs : List Ref) (violation : Violation) :
    Keeps (inputSequenceMinimizationPass env inputs violation) := by
  apply Keeps.bind (Keeps.halveInputs _ _ _)
  intro boosted
  exact Keeps.unboosted (Keeps.reduceSequence 10 boosted.inputSequence boosted)

section Blocks

variable (ctx : PassContext) (actorId : Nat) (region : Region) (b : BlockInputs)

theorem Keeps.writeWord (ref addr value : Nat) : Keeps (writeWord ref actorId region addr value) :=
  fun _ _ => Triple.modify fun _ hs =>
    ⟨hs.rounds, by simpa using hs.objects, hs.inputsPerClass⟩

theorem Keeps.zeroAddr (addr : Nat) : Keeps (zeroAddr actorId region b addr) :=
  Keeps.bind (Keeps.writeWord _ _ _ _ _) fun _ => Keeps.writeWord _ _ _ _ _

theorem Keeps.restoreAddr (addr : Nat) : Keeps (restoreAddr actorId region b addr) :=
  Keeps.bind (Keeps.writeWord _ _ _ _ _) fun _ => Keeps.writeWord _ _ _ _ _

theorem Keeps.zeroOutFrom (addr k : Nat) :
    Keeps (zeroOutFrom env ctx actorId region b addr k) := by
  induction k with
  | zero => exact Keeps.pure 1
  | succ k ih =>
    apply Keeps.bind (Keeps.forM fun i => Keeps.zeroAddr actorId region b (addr + i))
    intro _
    apply Keeps.bind (Keeps.checkForViolation _ _ _)
    intro reproduced
    apply Keeps.ite (Keeps.pure _)
    apply Keeps.bind (Keeps.forM fun i => Keeps.restoreAddr actorId region b (addr + i))
    intro _
    exact ih

theorem Keeps.violatingInput (id : Nat) : Keeps (violatingInput ctx id) := by
  unfold Postprocessing.violatingInput
  cases ctx.inputs[id]? with
  | none => exact Keeps.throw _
  | some ref => exact Keeps.pure ref

theorem Keeps.blockInputs : Keeps (blockInputs ctx) := by
  apply Keeps.bind (Keeps.violatingInput ctx _)
  intro inputA
  apply Keeps.bind (Keeps.violatingInput ctx _)
  intro inputB
  exact Keeps.bind Keeps.get fun s => Keeps.pure _

theorem Keeps.processBlock (blockStart regionSize : Nat) :
    Keeps (processBlock env ctx actorId region blockStart regionSize) := by
  apply Keeps.bind (Keeps.blockInputs ctx)
  intro b
  apply Keeps.bind (Keeps.zeroOutFrom ctx actorId region b _ _)
  intro blockSize
  apply Keeps.ite (Keeps.pure blockSize)
  apply Keeps.bind (Keeps.zeroAddr actorId region b blockStart)
  intro _
  apply Keeps.bind (Keeps.checkForViolation _ _ _)
  intro zeroed
  apply Keeps.ite (Keeps.pure 1)
  apply Keeps.bind (Keeps.restoreAddr actorId region b blockStart)
  intro _
  apply Keeps.bind Keeps.get
  intro s
  apply Keeps.ite (Keeps.pure 1)
  apply Keeps.bind (Keeps.writeWord actorId region _ _ _)
  intro _
  apply Keeps.bind (Keeps.writeWord actorId region _ _ _)
  intro _
  apply Keeps.bind (Keeps.checkForViolation _ _ _)
  intro copied
  apply Keeps.ite (Keeps.pure 1)
  exact Keeps.bind (Keeps.restoreAddr actorId region b blockStart) fun _ => Keeps.pure 1

theorem Keeps.processRegion (regionSize fuel i : Nat) :
    Keeps (processRegion env ctx actorId region regionSize fuel i) := by
  induction fuel generalizing i with
  | zero => exact Keeps.pure ()
  | succ fuel ih =>
    apply Keeps.ite
    · apply Keeps.bind (Keeps.processBlock ctx actorId region i regionSize)
      intro processed
      exact ih (i + processed)
    · exact Keeps.pure ()

theorem Keeps.processActor : Keeps (processActor env ctx actorId) := by
  apply Keeps.forM
  intro region
  apply Keeps.bind (Keeps.violatingInput ctx _)
  intro inputA
  apply Keeps.bind Keeps.get
  intro s
  cases (s.objects.getD inputA [])[actorId]? with
  | none => exact Keeps.throw _
  | some actor => exact Keeps.processRegion ctx actorId region _ _ _

end Blocks

theorem Keeps.setPassContext (orgViolation : Violation) : Keeps (setPassContext orgViolation) := by
  unfold Postprocessing.setPassContext
  rcases orgViolation.measurements with - | ⟨a, - | ⟨b, ids⟩⟩
  · exact Keeps.throw _
  · exact Keeps.throw _
  · exact Keeps.pure _

theorem Keeps.differentialInputMinimizerPass (orgViolation : Violation) :
    Keeps (differentialInputMinimizerPass env orgViolation) := by
  apply Keeps.bind (Keeps.setPassContext orgViolation)
  intro ctx
  exact Keeps.unboosted (Keeps.forM fun actorId => Keeps.processActor ctx actorId)

theorem Keeps.inputPass (pass : InputPass) (inputs : List Ref) (violation : Violation) :
    Keeps (pass.run env inputs violation) := by
  cases pass with
  | inputSeqPass => exact Keeps.inputSequenceMinimizationPass inputs violation
  | inputDiffPass => exact Keeps.differentialInputMinimizerPass violation

/-- The input passes only add rounds and give the boosting setting back as it was. -/
theorem Keeps.runInputPasses (passes : List InputPass) (inputs : List Ref)
    (violation : Violation) : Keeps (runInputPasses env passes inputs violation) := by
  induction passes generalizing inputs violation with
  | nil => exact Keeps.pure inputs
  | cons pass passes ih =>
    apply Keeps.bind (Keeps.inputPass pass inputs violation)
    intro newInputs
    apply Keeps.bind (Keeps.fuzzingRound _ _)
    intro newViolation
    cases found newViolation with
    | none => exact ih inputs violation
    | some v => exact ih newInputs v

end Keeping

/-! ## The original violation -/

section Original

variable {env} {data : List InputData} {inputsPerClass : Nat}

/-- The contents of the original inputs do not depend on new objects. -/
theorem contents_orgInputs {s t : State} (hlen : data.length ≤ s.objects.length)
    (h : s.objects <+: t.objects) :
    t.contents (orgInputs data) = s.contents (orgInputs data) := by
  obtain ⟨rest, hrest⟩ := h
  unfold State.contents orgInputs
  apply List.map_congr_left
  intro i hi
  have hlt : i < s.objects.length := Nat.lt_of_lt_of_le (List.mem_range.mp hi) hlen
  rw [← hrest, List.getD_eq_getElem?_getD, List.getElem?_append_left hlt,
    List.getD_eq_getElem?_getD]

theorem contents_generated :
    (State.generated data inputsPerClass).contents (orgInputs data) = data := by
  apply List.ext_getElem
  · simp [State.contents, orgInputs]
  · intro i h1 h2
    simp [State.contents, orgInputs, State.generated, h2]

/-- Objects are only added while the violation is reproduced, and the violation is the one of a
round on the given inputs. -/
theorem reproduceOrgViolation_record {s s₁ : State} {inputs : List Ref} {v : Violation}
    {retries : Nat} (h : reproduceOrgViolation env inputs retries s = .ok (some v) s₁) :
    s.objects <+: s₁.objects ∧ s₁.inputsPerClass = s.inputsPerClass ∧
      ∃ t : State, s.objects <+: t.objects ∧
        s₁.rounds[v.round]? = some ⟨t.contents inputs, s.inputsPerClass, [], some v⟩ := by
  induction retries generalizing s with
  | zero => exact absurd h (by simp [reproduceOrgViolation, pure, EStateM.pure])
  | succ retries ih =>
    obtain ⟨r, s', hrun, hrest⟩ := bind_ok h
    have hspec := fuzzingRound_spec hrun
    cases hf : found r with
    | none =>
      rw [hf] at hrest
      obtain ⟨hobj, hipc, t, ht, hrec⟩ := ih hrest
      rw [hspec.inputsPerClass] at hipc hrec
      exact ⟨hspec.objects.trans hobj, hipc, t, hspec.objects.trans ht, hrec⟩
    | some v' =>
      rw [hf] at hrest
      cases hrest
      obtain ⟨hr, -⟩ := Option.filter_eq_some_iff.mp hf
      refine ⟨hspec.objects, hspec.inputsPerClass, s, List.prefix_rfl, ?_⟩
      rw [hspec.number v hr, hspec.rounds, hr]
      simp

/-- The state in which the input passes start. -/
structure ReproducedState (data : List InputData) (inputsPerClass : Nat) (v₀ : Violation)
    (s₁ : State) : Prop where
  length : data.length ≤ s₁.objects.length
  contents : s₁.contents (orgInputs data) = data
  setting : s₁.inputsPerClass = inputsPerClass
  record : s₁.rounds[v₀.round]? = some ⟨data, inputsPerClass, [], some v₀⟩

theorem reproduceOrgViolation_spec {v₀ : Violation} {s₁ : State} {retries : Nat}
    (h : reproduceOrgViolation env (orgInputs data) retries
      (State.generated data inputsPerClass) = .ok (some v₀) s₁) :
    ReproducedState data inputsPerClass v₀ s₁ := by
  obtain ⟨hobj, hipc, t, ht, hrec⟩ := reproduceOrgViolation_record h
  have hlen : data.length ≤ (State.generated data inputsPerClass).objects.length := Nat.le_refl _
  refine ⟨hobj.length_le, ?_, hipc, ?_⟩
  · rw [contents_orgInputs hlen hobj, contents_generated]
  · rw [hrec, contents_orgInputs hlen ht, contents_generated]
    rfl

end Original

/-! ## What the minimizer continues with -/

/-- A round on these inputs returned the violation, with the boosting setting of now. -/
def State.Returned (s : State) (v : Violation) (inputs : List Ref) : Prop :=
  ∃ ignoreList,
    s.rounds[v.round]? = some ⟨s.contents inputs, s.inputsPerClass, ignoreList, some v⟩

/-- From `s₁`, where `v₀` was found on `inputs`, the minimizer goes on in `s₂` with other inputs
only if they gave the violation it goes on with; otherwise nothing has changed. Violations are
compared by the references that they hold, not by the contents of these. -/
structure Reproduces (inputs : List Ref) (v₀ : Violation) (s₁ : State) (c : Continuation)
    (s₂ : State) : Prop where
  adopted : s₂.contents c.inputs ≠ s₁.contents inputs →
    s₂.Returned c.violation c.inputs ∧ c.ignoreList = c.violation.nonviolatingIds
  reverted : s₂.contents c.inputs = s₁.contents inputs →
    c.violation = v₀ ∧ s₂.inputsPerClass = s₁.inputsPerClass

/-- The next round on these inputs finds a violation. -/
def Env.Confirms (s : State) (inputs : List Ref) : Prop :=
  ∃ o, env.outcome s.rounds.length s.inputsPerClass (s.contents inputs) [] = some o ∧
    o.measurements ≠ []

section Stage

variable {env} {data : List InputData} {inputsPerClass : Nat} {v₀ : Violation}
  {s₁ s' s'' : State} {newInputs : List Ref} {r : Option Violation}

theorem found_isSome_iff {inputs : List Ref}
    (h : fuzzingRound env inputs [] s' = .ok r s'') :
    (∃ v, found r = some v) ↔ env.Confirms s' inputs := by
  unfold fuzzingRound at h
  dsimp only at h
  unfold Env.Confirms
  cases ho : env.outcome s'.rounds.length s'.inputsPerClass (s'.contents inputs) [] with
  | none =>
    rw [ho] at h
    cases h
    simp [found]
  | some o =>
    rw [ho] at h
    cases h
    simp [found, State.roundViolation, Option.filter_eq_some_iff]

/-- The minimizer goes on with the inputs of the passes. -/
theorem adopted_iff {v : Violation} (h₁ : ReproducedState data inputsPerClass v₀ s₁)
    (ht : Tracks s₁ inputsPerClass s') (hspec : RoundSpec s' (orgInputs data) [] (some v) s'') :
    Reproduces (orgInputs data) v₀ s₁ (.of newInputs v) { s'' with inputsPerClass := 1 } ↔
      inputsPerClass = 1 ∧ s'.contents newInputs = s'.contents (orgInputs data) ∧
        s'.contents newInputs ≠ data := by
  have hrec : s''.rounds[v.round]? =
      some ⟨s'.contents (orgInputs data), inputsPerClass, [], some v⟩ := by
    rw [hspec.number v rfl, hspec.rounds, ht.inputsPerClass]
    simp
  -- the new violation is not the original one: it is from a later round
  have hne : v ≠ v₀ := by
    rintro rfl
    have hlt : v.round < s₁.rounds.length := (List.getElem?_eq_some_iff.mp h₁.record).1
    have hnum := hspec.number v rfl
    have hle := ht.rounds.length_le
    omega
  constructor
  · rintro ⟨hadopted, hreverted⟩
    rw [h₁.contents] at hadopted hreverted
    have hcontents : s''.contents newInputs ≠ data := fun heq => hne (hreverted heq).1
    obtain ⟨⟨ignoreList, hret⟩, -⟩ := hadopted hcontents
    have hboth := hrec.symm.trans hret
    simp only [Option.some.injEq, RoundRecord.mk.injEq] at hboth
    obtain ⟨hinputs, hone, -⟩ := hboth
    have hsame : s''.objects = s'.objects :=
      hspec.unboosted (Or.inl (ht.inputsPerClass.trans hone))
    have hnew : s''.contents newInputs = s'.contents newInputs := by
      unfold State.contents
      rw [hsame]
    rw [hnew] at hcontents
    exact ⟨hone, hnew.symm.trans hinputs.symm, hcontents⟩
  · rintro ⟨hone, hinputs, hcontents⟩
    have hsame : s''.objects = s'.objects :=
      hspec.unboosted (Or.inl (ht.inputsPerClass.trans hone))
    have hnew : s''.contents newInputs = s'.contents newInputs := by
      unfold State.contents
      rw [hsame]
    constructor
    · intro _
      refine ⟨⟨[], hrec.trans ?_⟩, rfl⟩
      rw [← hinputs, ← hnew, hone]
      rfl
    · intro heq
      exact absurd (hnew.symm.trans (heq.trans h₁.contents)) hcontents

/-- The minimizer goes on with the original inputs. -/
theorem reverted_iff (h₁ : ReproducedState data inputsPerClass v₀ s₁)
    (ht : Tracks s₁ inputsPerClass s') (hspec : RoundSpec s' (orgInputs data) [] r s'') :
    Reproduces (orgInputs data) v₀ s₁ (.of (orgInputs data) v₀) s'' ↔
      s'.contents (orgInputs data) = data := by
  have hcontents : s''.contents (orgInputs data) = s'.contents (orgInputs data) :=
    contents_orgInputs (Nat.le_trans h₁.length ht.objects) hspec.objects
  have hipc : s''.inputsPerClass = s₁.inputsPerClass :=
    hspec.inputsPerClass.trans (ht.inputsPerClass.trans h₁.setting.symm)
  constructor
  · rintro ⟨hadopted, -⟩
    by_contra hne
    rw [← hcontents] at hne
    obtain ⟨⟨ignoreList, hret⟩, -⟩ := hadopted (by rwa [h₁.contents])
    -- the original violation was found on the data as generated
    obtain ⟨later, hlater⟩ := ht.rounds.trans (hspec.rounds ▸ List.prefix_append _ _)
    have hlt : v₀.round < s₁.rounds.length := (List.getElem?_eq_some_iff.mp h₁.record).1
    have hret' : s''.rounds[v₀.round]? =
        some ⟨s''.contents (orgInputs data), s''.inputsPerClass, ignoreList, some v₀⟩ := hret
    rw [← hlater, List.getElem?_append_left hlt, h₁.record] at hret'
    simp only [Option.some.injEq, RoundRecord.mk.injEq] at hret'
    exact hne hret'.1.symm
  · intro heq
    constructor
    · intro hne
      exact absurd (hcontents.trans (heq.trans h₁.contents.symm)) hne
    · intro _
      exact ⟨rfl, hipc⟩

end Stage

/-- For these passes and rounds, whatever the minimizer goes on with after the input passes
reproduces. -/
def ContinuesReproducing (passes : List InputPass) (data : List InputData)
    (inputsPerClass : Nat) : Prop :=
  ∀ v₀ s₁, reproduceOrgViolation env (orgInputs data) env.minimizerRetries
      (State.generated data inputsPerClass) = .ok (some v₀) s₁ →
    ∀ c s₂, inputStage env passes (orgInputs data) v₀ s₁ = .ok c s₂ →
      Reproduces (orgInputs data) v₀ s₁ c s₂

/-- If the round after the passes finds a violation, boosting was off before and the passes have
changed the data of the original inputs to what they return; if not, the passes have left the data
of the original inputs as it was. -/
def PassesReproduce (passes : List InputPass) (data : List InputData) (inputsPerClass : Nat) :
    Prop :=
  ∀ v₀ s₁, reproduceOrgViolation env (orgInputs data) env.minimizerRetries
      (State.generated data inputsPerClass) = .ok (some v₀) s₁ → passes ≠ [] →
    ∀ newInputs s', runInputPasses env passes (orgInputs data) v₀ s₁ = .ok newInputs s' →
      (env.Confirms s' (orgInputs data) → inputsPerClass = 1 ∧
        s'.contents newInputs = s'.contents (orgInputs data) ∧ s'.contents newInputs ≠ data) ∧
      (¬ env.Confirms s' (orgInputs data) → s'.contents (orgInputs data) = data)

/-- The input stage after its passes and its last round. -/
theorem inputStage_run {passes : List InputPass} {inputs newInputs : List Ref} {v₀ : Violation}
    {s₁ s' s'' : State} {r : Option Violation} (hne : passes ≠ [])
    (hpasses : runInputPasses env passes inputs v₀ s₁ = .ok newInputs s')
    (hround : fuzzingRound env inputs [] s' = .ok r s'') :
    inputStage env passes inputs v₀ s₁ =
      match found r with
      | some v => .ok (.of newInputs v) { s'' with inputsPerClass := 1 }
      | none => .ok (.of inputs v₀) s'' := by
  unfold inputStage
  rw [if_neg hne]
  refine (bind_run hpasses).trans ?_
  refine (bind_run hround).trans ?_
  cases found r with
  | none => rfl
  | some v => rfl

/-- One run of the input stage. -/
theorem reproduces_iff {passes : List InputPass} {data : List InputData} {inputsPerClass : Nat}
    {newInputs : List Ref} {v₀ : Violation} {s₁ s' : State} (hne : passes ≠ [])
    (h₁ : ReproducedState data inputsPerClass v₀ s₁)
    (hpasses : runInputPasses env passes (orgInputs data) v₀ s₁ = .ok newInputs s') :
    (∀ c s₂, inputStage env passes (orgInputs data) v₀ s₁ = .ok c s₂ →
        Reproduces (orgInputs data) v₀ s₁ c s₂) ↔
      (env.Confirms s' (orgInputs data) → inputsPerClass = 1 ∧
        s'.contents newInputs = s'.contents (orgInputs data) ∧ s'.contents newInputs ≠ data) ∧
      (¬ env.Confirms s' (orgInputs data) → s'.contents (orgInputs data) = data) := by
  have hstart : Tracks s₁ inputsPerClass s₁ := ⟨List.prefix_rfl, Nat.le_refl _, h₁.setting⟩
  have ht : Tracks s₁ inputsPerClass s' :=
    (Keeps.runInputPasses passes (orgInputs data) v₀ s₁ inputsPerClass).ok hstart hpasses
  obtain ⟨r, s'', hround⟩ := fuzzingRound_returns env s' (orgInputs data) []
  have hspec := fuzzingRound_spec hround
  have hconfirms := found_isSome_iff hround
  rw [inputStage_run env hne hpasses hround]
  cases hf : found r with
  | none =>
    have hnot : ¬ env.Confirms s' (orgInputs data) := by
      rw [← hconfirms, hf]
      simp
    have hiff := reverted_iff h₁ ht hspec
    simp [hnot, hiff]
  | some v =>
    have hyes : env.Confirms s' (orgInputs data) := hconfirms.mp ⟨v, hf⟩
    obtain ⟨rfl, -⟩ := Option.filter_eq_some_iff.mp hf
    have hiff : Reproduces (orgInputs data) v₀ s₁ (.of newInputs v)
        { s'' with inputsPerClass := 1 } ↔ _ := adopted_iff h₁ ht hspec
    simp [hyes, hiff]

/-- The minimizer goes on with inputs that reproduce exactly for the passes and rounds of
`PassesReproduce`. -/
theorem continuesReproducing_iff (env : Env) (passes : List InputPass) (data : List InputData)
    (inputsPerClass : Nat) :
    ContinuesReproducing env passes data inputsPerClass ↔
      PassesReproduce env passes data inputsPerClass := by
  constructor
  · intro h v₀ s₁ hrep hne newInputs s' hpasses
    exact (reproduces_iff env hne (reproduceOrgViolation_spec hrep) hpasses).mp (h v₀ s₁ hrep)
  · intro h v₀ s₁ hrep c s₂ hstage
    have h₁ := reproduceOrgViolation_spec hrep
    by_cases hne : passes = []
    · unfold inputStage at hstage
      rw [if_pos hne] at hstage
      cases hstage
      exact ⟨fun hdiff => absurd rfl hdiff, fun _ => ⟨rfl, rfl⟩⟩
    · have hsplit := hstage
      unfold inputStage at hsplit
      rw [if_neg hne] at hsplit
      obtain ⟨newInputs, s', hpasses, -⟩ := bind_ok hsplit
      have hcond := h v₀ s₁ hrep hne newInputs s' hpasses
      exact (reproduces_iff env hne h₁ hpasses).mpr hcond c s₂ hstage

/-- A fuzzer that finds a violation whenever it has two inputs to compare: boosting adds the
second one if there is only one. -/
def pairFuzzer : Env where
  outcome _ inputsPerClass inputs _ :=
    if inputsPerClass ≥ 2 ∨ inputs.length ≥ 2 then
      some { boosted := [[⟨[1], [0], [2], [0]⟩]], measurements := [0, 1] }
    else none
  minimizerRetries := 1
  nActors := 1

/-- One generated input, boosting with two inputs per class and the sequence pass: the minimizer
goes on with two inputs and no boosting, its violation is from a round on one with boosting. -/
theorem pairFuzzer_not_continuesReproducing :
    ¬ ContinuesReproducing pairFuzzer (setPasses true false) [[⟨[1], [0], [0], [0]⟩]] 2 := by
  intro h
  have hreproduces := h ⟨0, [0, 1], [0, 1]⟩ _ rfl _ _ rfl
  obtain ⟨⟨ignoreList, hret⟩, -⟩ := hreproduces.adopted (by decide)
  have hsetting : some 2 = some 1 := congrArg (Option.map RoundRecord.inputsPerClass) hret
  exact absurd hsetting (by decide)

end Rvzr.Postprocessing
