import Mathlib.Data.Rat.Defs
import Mathlib.Algebra.Order.Ring.Rat
import Mathlib.Logic.Function.Basic
import Mathlib.Tactic.NormNum
import Rvzr.Lib.Hoare
import Rvzr.Unicorn.LoadInput

/-!
# The data generator

`DataGenerator` (`rvzr/data_generator.py`) and the part of `InputData` it writes through
(`rvzr/tc_components/test_case_data.py`). Inputs are arrays that several lists may share and that
are written through views, so the state keeps the arrays and the lists hold their numbers. The
random number generator of numpy is a parameter.
-/

namespace Rvzr.Generator.Data

open Rvzr.Lib Rvzr.Unicorn

/-- `InputData`: the linear views of its actors, and the attribute `seed`. -/
structure InputArray where
  seed : Nat
  actors : List ActorInput

instance : Inhabited InputArray := ⟨⟨0, []⟩⟩

/-- `InputTaint`: the linear views of its actors. -/
abbrev InputTaint := List (Nat → Bool)

/-- The number of an array. -/
abbrev Ref := Nat

/-- What the code uses of `numpy.random`: `default_rng(seed)`, `integers(high, size)` and
`random()`. -/
structure Rng (γ : Type) where
  defaultRng : Nat → γ
  integers : Nat → Nat → γ → List UInt64 × γ
  random : γ → Rat × γ

/-- `integers` draws as many numbers as asked for, all below `high`. -/
structure Rng.Documented {γ : Type} (rng : Rng γ) : Prop where
  length : ∀ high size g, (rng.integers high size g).1.length = size
  lt : ∀ high size g, 0 < high → high ≤ 2 ^ 64 → ∀ d ∈ (rng.integers high size g).1, d.toNat < high

/-- The settings of the generator. The bound on the entropy is `_value_sanity_check`, the one on the
probability is the assertion of `__init__`. -/
structure DataConf where
  entropyBits : Nat
  probabilityOfSpecialValue : Rat
  entropyBits_le : entropyBits ≤ 32
  probability_lt : probabilityOfSpecialValue * 2 < 1

namespace DataConf

variable (conf : DataConf)

def maxInputValue : Nat := 2 ^ conf.entropyBits
def skipSpecialValues : Bool := conf.probabilityOfSpecialValue = 0
def probabilityOfZero : Rat := conf.probabilityOfSpecialValue
def probabilityOfMax : Rat := conf.probabilityOfSpecialValue * 2

end DataConf

def maxGprValue : UInt64 := 0xFFFFFFFFFFFFFFFF

/-- The generator and all arrays. -/
structure GenState where
  heap : List InputArray
  state : Nat
  boostingState : Nat

inductive GenError where
  | indexError
  | assertion (message : String)
deriving DecidableEq

abbrev GenM := EStateM GenError GenState

section Generator

variable {γ : Type} (rng : Rng γ) (conf : DataConf) (uninit : Ref → Nat → ActorInput)

/-- `InputData(n_actors)`: the memory of the array is not initialised. -/
def newInput (nActors : Nat) : GenM Ref := fun s =>
  let actors := (List.range nActors).map (uninit s.heap.length)
  .ok s.heap.length { s with heap := s.heap ++ [⟨0, actors⟩] }

def modifyInput (ref : Ref) (f : InputArray → InputArray) : GenM Unit :=
  modify fun s => { s with heap := s.heap.modify ref f }

/-- A write through a view of one actor. -/
def modifyActor (ref : Ref) (actor : Nat) (f : ActorInput → ActorInput) : GenM Unit :=
  modifyInput ref fun x => { x with actors := x.actors.modify actor f }

/-- `InputData.set_actor_data`. -/
def setActorData (ref : Ref) (actor : Nat) (data : List UInt64) : GenM Unit := do
  if data.length ≠ entriesPerActor then
    throw (.assertion "Data shape does not match the expected shape")
  modifyActor ref actor fun _ j => data.getD j 0
  -- the unused part
  modifyActor ref actor fun x j => if dataEntriesPerActor ≤ j ∧ j < entriesPerActor then 0 else x j

/-- A random number in both halves of a word. -/
def mirror (d : UInt64) : UInt64 := (d <<< 32) + d

/-- The roll for one register. -/
def rollRegister (ref : Ref) (actor : Nat) (g : γ) (regId : Nat) : GenM γ := do
  let roll := rng.random g
  if roll.1 < conf.probabilityOfZero then
    modifyActor ref actor fun x => x.setGpr regId 0
  else if roll.1 < conf.probabilityOfMax then
    modifyActor ref actor fun x => x.setGpr regId maxGprValue
  pure roll.2

/-- `input_[0]['gpr'].itemsize`. -/
def nRegisters : Nat := 8

/-- The body of the loop over the actors. -/
def generateActor (ref : Ref) (g : γ) (actor : Nat) : GenM γ := do
  let draw := rng.integers conf.maxInputValue entriesPerActor g
  let data := draw.1.map mirror
  let g ← if conf.skipSpecialValues then pure draw.2
    else (List.range nRegisters).foldlM (rollRegister rng conf ref actor) draw.2
  setActorData ref actor data
  pure g

/-- `_generate_one`. -/
def generateOne (state nActors : Nat) : GenM (Ref × Nat) := do
  let ref ← newInput uninit nActors
  modifyInput ref fun x => { x with seed := state }
  -- `input_[0]`
  if nActors = 0 then throw .indexError
  let _ ← (List.range nActors).foldlM (generateActor rng conf ref) (rng.defaultRng state)
  pure (ref, state + 1)

/-- The body of the loop of `generate`. -/
def generateNext (nActors : Nat) (refs : List Ref) : GenM (List Ref) := do
  let s ← get
  let input ← generateOne rng conf uninit s.state nActors
  modify fun s => { s with state := input.2 }
  pure (refs ++ [input.1])

/-- `generate`; `randint` is the seed taken when there is none. -/
def generate (randint count nActors : Nat) : GenM (List Ref) := do
  modify fun s => if s.state = 0 then { s with state := randint } else s
  let refs ← (List.range count).foldlM (fun refs _ => generateNext rng conf uninit nActors refs) []
  modify fun s => { s with boostingState := s.state }
  pure refs

def GenState.input (s : GenState) (ref : Ref) : InputArray := s.heap.getD ref default

/-- `input_new[j] = input_old[j]`. -/
def copyEntry (old new : Ref) (actor j : Nat) : GenM Unit :=
  modify fun s =>
    let value := (s.input old).actors.getD actor (fun _ => 0) j
    { s with heap := s.heap.modify new fun x =>
        { x with actors := x.actors.modify actor fun a => Function.update a j value } }

/-- The body of the loop over the entries of an actor. -/
def copyIfTainted (row : Nat → Bool) (old new : Ref) (actor j : Nat) : GenM Unit :=
  if row j then copyEntry old new actor j else pure ()

/-- The copy of the tainted values of one actor. -/
def copyTainted (taint : InputTaint) (old new : Ref) (actor : Nat) : GenM Unit := do
  let s ← get
  if (s.input old).actors.length ≤ actor then throw .indexError
  match taint[actor]? with
  | none => throw .indexError
  | some row => (List.range dataEntriesPerActor).forM (copyIfTainted row old new actor)

/-- The body of the loop over the inputs, on the input and its position. -/
def boostOne (taints : List InputTaint) (nActors : Nat) (boostedInputs : List Ref)
    (input : Ref × Nat) : GenM (List Ref) := do
  let s ← get
  let newInput ← generateOne rng conf uninit s.boostingState nActors
  modify fun s => { s with boostingState := newInput.2 }
  (List.range nActors).forM (copyTainted (taints.getD input.2 []) input.1 newInput.1)
  pure (boostedInputs ++ [newInput.1])

/-- `generate_boosted`. -/
def generateBoosted (inputs : List Ref) (taints : List InputTaint) (inputsPerClass : Nat) :
    GenM (List Ref) := do
  match inputs with
  | [] => pure []
  | first :: _ =>
    if inputs.length ≠ taints.length then
      throw (.assertion ("Error: Cannot extend inputs. The number of taints" ++
        " does not match the number of inputs."))
    let s ← get
    let nActors := (s.input first).actors.length
    modify fun s => { s with boostingState := s.state }
    (List.range (inputsPerClass - 1)).foldlM
      (fun boostedInputs _ =>
        inputs.zipIdx.foldlM (boostOne rng conf uninit taints nActors) boostedInputs) inputs

/-! ### What one call of `_generate_one` draws -/

/-- The rolls for `n` registers. -/
def Rng.rolls : Nat → γ → List Rat × γ
  | 0, g => ([], g)
  | n + 1, g =>
    let roll := rng.random g
    let rest := Rng.rolls n roll.2
    (roll.1 :: rest.1, rest.2)

/-- What is drawn for one actor: the numbers and the rolls. -/
structure Draw where
  data : List UInt64
  rolls : List Rat

def drawActor (g : γ) : Draw × γ :=
  let draw := rng.integers conf.maxInputValue entriesPerActor g
  let rolls := if conf.skipSpecialValues then ([], draw.2) else rng.rolls nRegisters draw.2
  (⟨draw.1, rolls.1⟩, rolls.2)

/-- What is drawn for `n` actors. -/
def drawActors : Nat → γ → List Draw
  | 0, _ => []
  | n + 1, g => (drawActor rng conf g).1 :: drawActors n (drawActor rng conf g).2

def draws (seed nActors : Nat) : List Draw := drawActors rng conf nActors (rng.defaultRng seed)

/-- The entries that the numbers drawn for an actor end up in. -/
def filled (data : List UInt64) : ActorInput := fun j =>
  if dataEntriesPerActor ≤ j ∧ j < entriesPerActor then 0 else (data.map mirror).getD j 0

/-- The array of `_generate_one`. -/
def generated (seed nActors : Nat) : InputArray :=
  ⟨seed, (draws rng conf seed nActors).map fun draw => filled draw.data⟩

/-! ### `_generate_one` computes it -/

theorem modify_middle {α : Type} (l r : List α) (x : α) (f : α → α) :
    (l ++ x :: r).modify l.length f = l ++ f x :: r := by
  induction l with
  | nil => rfl
  | cons y l ih => rw [List.cons_append, List.length_cons, List.modify_succ_cons, ih]; rfl

theorem length_draws (seed nActors : Nat) : (draws rng conf seed nActors).length = nActors := by
  rw [draws]
  generalize rng.defaultRng seed = g
  induction nActors generalizing g with
  | zero => rfl
  | succ n ih => rw [drawActors, List.length_cons, ih]

section Run

variable {rng conf uninit} {heap : List InputArray} {state boostingState seed : Nat}
  {done rest : List ActorInput} {a : ActorInput}

theorem modifyInput_run (x : InputArray) (f : InputArray → InputArray) :
    modifyInput heap.length f ⟨heap ++ [x], state, boostingState⟩ =
      .ok () ⟨heap ++ [f x], state, boostingState⟩ := by
  rw [← modify_middle heap [] x f]
  rfl

/-- A write through a view of the array that was made last. -/
theorem modifyActor_run (f : ActorInput → ActorInput) :
    modifyActor heap.length done.length f
        ⟨heap ++ [⟨seed, done ++ a :: rest⟩], state, boostingState⟩ =
      .ok () ⟨heap ++ [⟨seed, done ++ f a :: rest⟩], state, boostingState⟩ := by
  rw [modifyActor, modifyInput_run, ← modify_middle done rest a f]

/-- A roll may set a register of the array, nothing else. -/
theorem rollRegister_run (g : γ) (regId : Nat) :
    ∃ a', rollRegister rng conf heap.length done.length g regId
        ⟨heap ++ [⟨seed, done ++ a :: rest⟩], state, boostingState⟩ =
      .ok (rng.random g).2 ⟨heap ++ [⟨seed, done ++ a' :: rest⟩], state, boostingState⟩ := by
  unfold rollRegister
  dsimp only
  split
  · exact ⟨a.setGpr regId 0, bind_run (modifyActor_run _)⟩
  · split
    · exact ⟨a.setGpr regId maxGprValue, bind_run (modifyActor_run _)⟩
    · exact ⟨a, rfl⟩

theorem rollRegisters_run (regs : List Nat) (g : γ) (a : ActorInput) :
    ∃ a', regs.foldlM (rollRegister rng conf heap.length done.length) g
        ⟨heap ++ [⟨seed, done ++ a :: rest⟩], state, boostingState⟩ =
      .ok (rng.rolls regs.length g).2
        ⟨heap ++ [⟨seed, done ++ a' :: rest⟩], state, boostingState⟩ := by
  induction regs generalizing g a with
  | nil => exact ⟨a, rfl⟩
  | cons reg regs ih =>
    obtain ⟨a₁, hroll⟩ : ∃ a₁, rollRegister rng conf heap.length done.length g reg
        ⟨heap ++ [⟨seed, done ++ a :: rest⟩], state, boostingState⟩ =
        .ok (rng.random g).2 ⟨heap ++ [⟨seed, done ++ a₁ :: rest⟩], state, boostingState⟩ :=
      rollRegister_run g reg
    obtain ⟨a₂, hrolls⟩ := ih (rng.random g).2 a₁
    refine ⟨a₂, ?_⟩
    rw [List.foldlM_cons, bind_run hroll, hrolls]
    rfl

theorem setActorData_run {data : List UInt64} (hdata : data.length = entriesPerActor) :
    setActorData heap.length done.length (data.map mirror)
        ⟨heap ++ [⟨seed, done ++ a :: rest⟩], state, boostingState⟩ =
      .ok () ⟨heap ++ [⟨seed, done ++ filled data :: rest⟩], state, boostingState⟩ := by
  rw [setActorData, if_neg (by simp [hdata])]
  dsimp only
  rw [bind_run (modifyActor_run _), modifyActor_run]
  rfl

theorem generateActor_run (hrng : rng.Documented) (g : γ) :
    generateActor rng conf heap.length g done.length
        ⟨heap ++ [⟨seed, done ++ a :: rest⟩], state, boostingState⟩ =
      .ok (drawActor rng conf g).2
        ⟨heap ++ [⟨seed, done ++ filled (drawActor rng conf g).1.data :: rest⟩], state,
          boostingState⟩ := by
  have hdata := hrng.length conf.maxInputValue entriesPerActor g
  rw [generateActor, drawActor]
  dsimp only
  cases conf.skipSpecialValues with
  | true =>
    rw [if_pos rfl, if_pos rfl, bind_run (show (pure _ : GenM γ) _ = .ok _ _ from rfl),
      bind_run (setActorData_run hdata)]
    rfl
  | false =>
    obtain ⟨a', hrolls⟩ : ∃ a', (List.range nRegisters).foldlM
        (rollRegister rng conf heap.length done.length)
        (rng.integers conf.maxInputValue entriesPerActor g).2
        ⟨heap ++ [⟨seed, done ++ a :: rest⟩], state, boostingState⟩ =
        .ok (rng.rolls (List.range nRegisters).length
          (rng.integers conf.maxInputValue entriesPerActor g).2).2
          ⟨heap ++ [⟨seed, done ++ a' :: rest⟩], state, boostingState⟩ :=
      rollRegisters_run _ _ a
    rw [if_neg Bool.false_ne_true, if_neg Bool.false_ne_true, bind_run hrolls,
      bind_run (setActorData_run hdata), List.length_range]
    rfl

variable (conf heap state boostingState seed) in
theorem generateActors_run (hrng : rng.Documented) (n : Nat) (g : γ) (done rest : List ActorInput)
    (hrest : rest.length = n) :
    ∃ g', (List.range' done.length n).foldlM (generateActor rng conf heap.length) g
        ⟨heap ++ [⟨seed, done ++ rest⟩], state, boostingState⟩ =
      .ok g' ⟨heap ++ [⟨seed, done ++ (drawActors rng conf n g).map fun draw => filled draw.data⟩],
        state, boostingState⟩ := by
  induction n generalizing g done rest with
  | zero =>
    rw [List.length_eq_zero_iff.1 hrest]
    exact ⟨g, rfl⟩
  | succ n ih =>
    obtain ⟨a, rest, rfl⟩ := List.exists_of_length_succ rest hrest
    obtain ⟨g', hrun⟩ := ih (drawActor rng conf g).2 (done ++ [filled (drawActor rng conf g).1.data])
      rest (by simpa using hrest)
    refine ⟨g', ?_⟩
    rw [List.range'_succ, List.foldlM_cons, bind_run (generateActor_run hrng g)]
    simpa [drawActors] using hrun

/-- `_generate_one` puts one array behind the others and changes nothing else. -/
theorem generateOne_run (hrng : rng.Documented) {nActors : Nat} (hn : 0 < nActors) (s : GenState) :
    generateOne rng conf uninit seed nActors s =
      .ok (s.heap.length, seed + 1)
        { s with heap := s.heap ++ [generated rng conf seed nActors] } := by
  obtain ⟨g', hrun⟩ := generateActors_run conf s.heap s.state s.boostingState seed hrng nActors
    (rng.defaultRng seed) []
    ((List.range nActors).map (uninit s.heap.length)) (by simp)
  rw [List.length_nil, List.nil_append, List.nil_append, ← List.range_eq_range'] at hrun
  have hnew : newInput uninit nActors s = .ok s.heap.length
      ⟨s.heap ++ [⟨0, (List.range nActors).map (uninit s.heap.length)⟩], s.state,
        s.boostingState⟩ := rfl
  rw [generateOne, bind_run hnew, bind_run (modifyInput_run _ _), if_neg hn.ne']
  dsimp only
  rw [bind_run hrun]
  rfl

/-- Without actors there is no `input_[0]`. -/
theorem generateOne_empty (s : GenState) :
    generateOne rng conf uninit seed 0 s =
      .error .indexError { s with heap := s.heap ++ [⟨seed, []⟩] } := by
  have hnew : newInput uninit 0 s = .ok s.heap.length ⟨s.heap ++ [⟨0, []⟩], s.state,
      s.boostingState⟩ := rfl
  rw [generateOne, bind_run hnew, bind_run (modifyInput_run _ _), if_pos rfl]
  rfl

end Run

end Generator

/-- A generator that always draws the largest number below the bound and rolls 0. -/
def sampleRng : Rng Unit where
  defaultRng _ := ()
  integers high size g := (List.replicate size (UInt64.ofNat (high - 1)), g)
  random g := (0, g)

theorem sampleRng_documented : sampleRng.Documented := by
  refine ⟨fun _ _ _ => List.length_replicate, ?_⟩
  intro high size g hpos hhigh d hd
  rw [List.eq_of_mem_replicate hd, UInt64.toNat_ofNat']
  omega

theorem sampleProbability_lt : (1 / 20 : Rat) * 2 < 1 := by norm_num

/-- The default settings. -/
def sampleConf : DataConf := ⟨31, 1 / 20, by decide, sampleProbability_lt⟩

end Rvzr.Generator.Data
