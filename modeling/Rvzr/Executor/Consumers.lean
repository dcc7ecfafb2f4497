import Rvzr.Executor.Transfer
import Rvzr.Km.Fragments

/-!
# The consumers of an RDBF file

`save_input_sequence_as_rdbf` writes the fragments of a batch input by input. The kernel module
reads them with `get_input_fragment` and `get_input_fragment_unsafe`, the DynamoRIO adapter with
`load_data_in_sandbox`. Only the unsafe accessor uses the index of the writer; the checked one has
the roles of input and actor exchanged, and the adapter steps from input to input by one fragment.
-/

namespace Rvzr.Executor

open Rvzr.Lib Rvzr.Km

section Fragments

variable {a : Nat}

/-- `inputs[i][actor]` as bytes. -/
def InputData.fragment (input : InputData a) (actor : Nat) : List UInt8 :=
  (input.tobytes.drop (inputFragmentSize * actor)).take inputFragmentSize

/-- Fragment number `k` of the data of a file. -/
def rdbfFragment (inputs : List (InputData a)) (k : Nat) : List UInt8 :=
  ((rdbfData inputs).drop (inputFragmentSize * k)).take inputFragmentSize

/-- The fragments are numbered input by input. -/
theorem rdbfFragment_eq {inputs : List (InputData a)} {i actor : Nat} {input : InputData a}
    (hi : inputs[i]? = some input) (ha : actor < a) :
    rdbfFragment inputs (i * a + actor) = input.fragment actor := by
  induction inputs generalizing i with
  | nil => exact absurd hi (by simp)
  | cons first inputs ih =>
    unfold rdbfFragment rdbfData at ih ⊢
    rw [List.flatMap_cons]
    cases i with
    | zero =>
      have heq : first = input := by simpa using hi
      subst heq
      have hlen := first.length_tobytes
      have hroom : inputFragmentSize * actor + inputFragmentSize ≤ first.tobytes.length := by
        rw [hlen, ← Nat.mul_succ]
        exact Nat.mul_le_mul_left _ ha
      rw [Nat.zero_mul, Nat.zero_add, List.drop_append_of_le_length (by omega),
        List.take_append_of_le_length (by rw [List.length_drop]; omega)]
      rfl
    | succ i =>
      have hoff : inputFragmentSize * ((i + 1) * a + actor) =
          first.tobytes.length + inputFragmentSize * (i * a + actor) := by
        rw [first.length_tobytes, ← Nat.mul_add]
        congr 1
        rw [Nat.succ_mul]
        omega
      rw [hoff, List.drop_length_add_append]
      exact ih (by simpa using hi)

theorem length_rdbfFragment {inputs : List (InputData a)} {k : Nat} (hk : k < a * inputs.length) :
    (rdbfFragment inputs k).length = inputFragmentSize := by
  have hroom : inputFragmentSize * k + inputFragmentSize ≤ (rdbfData inputs).length := by
    rw [length_rdbfData, ← Nat.mul_succ]
    exact Nat.mul_le_mul_left _ hk
  unfold rdbfFragment
  rw [List.length_take, List.length_drop]
  omega

/-- A memory that holds the data of the file holds its fragments. -/
theorem read_fragment {m : Mem} {inputs : List (InputData a)} (h : HasBytes m 0 (rdbfData inputs))
    {k : Nat} (hk : k < a * inputs.length) :
    m.read (inputFragmentSize * k) inputFragmentSize = rdbfFragment inputs k := by
  have hbytes : HasBytes m (inputFragmentSize * k) (rdbfFragment inputs k) := by
    intro i b hb
    unfold rdbfFragment at hb
    have hlt : i < inputFragmentSize := by
      have := (List.getElem?_eq_some_iff.mp hb).1
      rw [List.length_take] at this
      omega
    rw [List.getElem?_take_of_lt hlt, List.getElem?_drop] at hb
    have := h _ b hb
    rwa [Nat.zero_add] at this
  have hread := hbytes.read_eq
  rwa [length_rdbfFragment hk] at hread

end Fragments

/-- The fragment at an index of the data buffer. -/
def fragmentAt (s : InputParser) (index : Nat) : List UInt8 :=
  s.data.read (inputFragmentSize * index) inputFragmentSize

/-- `get_input_fragment` (`input_parser.c:164-178`). -/
def getInputFragment (nActors : Nat) (s : InputParser) (inputId actorId : Nat) :
    Option (List UInt8) :=
  if s.inputs.isNone then none
  else if nActors ≤ actorId then none
  else if s.nInputs ≤ inputId then none
  else some (fragmentAt s (add64 (mul64 actorId s.nInputs) inputId))

/-- `get_input_fragment_unsafe` (`input_parser.c:186-189`). -/
def getInputFragmentUnsafe (nActors : Nat) (s : InputParser) (inputId actorId : Nat) : List UInt8 :=
  fragmentAt s (fragmentIndex nActors inputId actorId)

/-- `rdbf_t` of the adapter. -/
structure Rdbf where
  nActors : Nat
  nInputs : Nat
  data : List UInt8

/-- `parse_rdbf`; `none` is an exit with an error. -/
def parseRdbf (file : List UInt8) : Option Rdbf :=
  if file.length < 16 then none
  else
    let nActors := Mem.ofLe (file.take 8)
    let nInputs := Mem.ofLe ((file.drop 8).take 8)
    let rest := file.drop 16
    if rest.length < inputMetadataEntrySize * nActors then none
    else
      let data := rest.drop (inputMetadataEntrySize * nActors)
      let dataSize := mul64 (mul64 nInputs nActors) inputFragmentSize
      if data.length ≠ dataSize then none else some ⟨nActors, nInputs, data⟩

/-- `data_section_t` of the adapter. -/
structure DataSection where
  macroStack : List UInt8
  underflowPad : List UInt8
  mainArea : List UInt8
  faultyArea : List UInt8
  regInitArea : List UInt8
  overflowPad : List UInt8
  deriving DecidableEq

/-- The EFLAGS value among the initial register values is replaced by a legal one. -/
def fixupEflags (region : List UInt8) : List UInt8 :=
  region.take 48 ++ le64 ((Mem.ofLe ((region.drop 48).take 8) &&& 2263) ||| 2) ++ region.drop 56

/-- The body of the loop of `load_data_in_sandbox`, for one source fragment. -/
def DataSection.ofFragment (fragment : List UInt8) : DataSection where
  macroStack := List.replicate 64 0
  underflowPad := List.replicate 4032 0
  mainArea := fragment.take 4096
  faultyArea := (fragment.drop 4096).take 4096
  regInitArea := fixupEflags ((fragment.drop 8192).take 320)
  overflowPad := List.replicate 3776 0

/-- `load_data_in_sandbox` (`adapter/sandbox.c:57-80`): the pointer `data` advances by one fragment
with the input, and the sections follow it. -/
def loadDataInSandbox (rdbf : Rdbf) (inputId : Nat) : List DataSection :=
  (List.range rdbf.nActors).map fun sectionId =>
    DataSection.ofFragment
      ((rdbf.data.drop (inputFragmentSize * (inputId + sectionId))).take inputFragmentSize)

/-- Every consumer gets the bytes of `inputs[i][actor]`, for all inputs and actors. -/
structure ConsumersAgree {a : Nat} (inputs : List (InputData a)) (s : InputParser) : Prop where
  checked : ∀ i actor input, inputs[i]? = some input → actor < a →
    getInputFragment a s i actor = some (input.fragment actor)
  unchecked : ∀ i actor input, inputs[i]? = some input → actor < a →
    getInputFragmentUnsafe a s i actor = input.fragment actor
  adapter : ∃ rdbf, parseRdbf (saveInputSequenceAsRdbf inputs) = some rdbf ∧
    ∀ i actor input, inputs[i]? = some input → actor < a →
      (loadDataInSandbox rdbf i)[actor]? = some (DataSection.ofFragment (input.fragment actor))

/-- The batch reads the same with inputs and actors exchanged, and, as far as the adapter looks at
the bytes, with the inputs one fragment apart. -/
def Degenerate {a : Nat} (inputs : List (InputData a)) : Prop :=
  ∀ i actor, i < inputs.length → actor < a →
    rdbfFragment inputs (actor * inputs.length + i) = rdbfFragment inputs (i * a + actor) ∧
    DataSection.ofFragment (rdbfFragment inputs (i + actor)) =
      DataSection.ofFragment (rdbfFragment inputs (i * a + actor))

section Consumers

variable {a : Nat} {inputs : List (InputData a)} {s : InputParser}

theorem index_lt {n i actor : Nat} (hi : i < n) (ha : actor < a) : i * a + actor < a * n := by
  calc i * a + actor < i * a + a := by omega
    _ = a * (i + 1) := by rw [Nat.mul_succ, Nat.mul_comm]
    _ ≤ a * n := Nat.mul_le_mul_left a hi

/-- The sizes of a batch bound its indices. -/
theorem index_small (hfits : batchHeaderSize + batchBytes a inputs.length < 2 ^ 64) {k : Nat}
    (hk : k < a * inputs.length) : k < 2 ^ 64 := by
  unfold batchBytes inputFragmentSize at hfits
  omega

theorem getInputFragment_eq (h : Holds inputs s)
    (hfits : batchHeaderSize + batchBytes a inputs.length < 2 ^ 64) {i actor : Nat}
    (hi : i < inputs.length) (ha : actor < a) :
    getInputFragment a s i actor = some (rdbfFragment inputs (actor * inputs.length + i)) := by
  have hlt : actor * inputs.length + i < a * inputs.length := by
    rw [Nat.mul_comm a]
    exact index_lt ha hi
  have hsmall := index_small hfits hlt
  unfold getInputFragment fragmentAt
  rw [h.batch.inputs, if_neg (by simp), if_neg (by omega), h.nInputs, if_neg (by omega),
    mul64_of_lt (by omega), add64_of_lt hsmall, read_fragment h.data hlt]

theorem getInputFragmentUnsafe_eq (h : Holds inputs s)
    (hfits : batchHeaderSize + batchBytes a inputs.length < 2 ^ 64) {i actor : Nat}
    (hi : i < inputs.length) (ha : actor < a) :
    getInputFragmentUnsafe a s i actor = rdbfFragment inputs (i * a + actor) := by
  have hlt := index_lt hi ha
  have hsmall := index_small hfits hlt
  unfold getInputFragmentUnsafe fragmentAt fragmentIndex
  rw [mul64_of_lt (by omega), add64_of_lt hsmall, read_fragment h.data hlt]

/-- The adapter parses every file of the writer. -/
theorem parseRdbf_rdbf (hfits : batchHeaderSize + batchBytes a inputs.length < 2 ^ 64)
    (hn : inputs.length < 2 ^ 64) :
    parseRdbf (saveInputSequenceAsRdbf inputs) = some ⟨a, inputs.length, rdbfData inputs⟩ := by
  have hsize : a < 2 ^ 64 ∧ inputFragmentSize * (a * inputs.length) < 2 ^ 64 := by
    unfold batchBytes inputMetadataEntrySize at hfits
    omega
  have hbound : a * inputs.length ≤ inputFragmentSize * (a * inputs.length) :=
    Nat.le_mul_of_pos_left _ (by decide)
  have hfile : saveInputSequenceAsRdbf inputs =
      le64 a ++ (le64 inputs.length ++ (rdbfMetadata a ++ rdbfData inputs)) := by
    unfold saveInputSequenceAsRdbf encodeWords
    rw [List.flatMap_cons, List.flatMap_singleton, List.append_assoc]
  have hactors : Mem.ofLe ((saveInputSequenceAsRdbf inputs).take 8) = a := by
    rw [hfile, List.take_left' (length_le64 a)]
    exact ofLe_leBytes 8 a hsize.1
  have hinputs : Mem.ofLe (((saveInputSequenceAsRdbf inputs).drop 8).take 8) = inputs.length := by
    rw [hfile, List.drop_left' (length_le64 a), List.take_left' (length_le64 _)]
    exact ofLe_leBytes 8 _ hn
  have hrest : (saveInputSequenceAsRdbf inputs).drop 16 = rdbfMetadata a ++ rdbfData inputs := by
    rw [hfile, ← List.append_assoc, List.drop_left' (by
      rw [List.length_append, length_le64, length_le64])]
  have hdata : (rdbfMetadata a ++ rdbfData inputs).drop (inputMetadataEntrySize * a) =
      rdbfData inputs := List.drop_left' (length_rdbfMetadata a)
  have hwords : mul64 (mul64 inputs.length a) inputFragmentSize =
      inputFragmentSize * (a * inputs.length) := by
    rw [Nat.mul_comm a] at hbound hsize ⊢
    rw [mul64_of_lt (Nat.lt_of_le_of_lt hbound hsize.2),
      mul64_of_lt (by rw [Nat.mul_comm]; exact hsize.2), Nat.mul_comm]
  unfold parseRdbf
  dsimp only
  rw [if_neg (by rw [length_rdbf]; unfold batchHeaderSize; omega), hactors, hinputs, hrest, hdata,
    if_neg (by rw [List.length_append, length_rdbfMetadata]; omega), hwords,
    if_neg (by rw [length_rdbfData]; exact fun hne => hne rfl)]

theorem loadDataInSandbox_eq {i actor : Nat} (ha : actor < a) :
    (loadDataInSandbox ⟨a, inputs.length, rdbfData inputs⟩ i)[actor]? =
      some (DataSection.ofFragment (rdbfFragment inputs (i + actor))) := by
  unfold loadDataInSandbox
  rw [List.getElem?_map, List.getElem?_range ha]
  rfl

/-- With one actor or one input the three indices coincide. -/
theorem degenerate_of_single (h : a = 1 ∨ inputs.length = 1) : Degenerate inputs := by
  intro i actor hi ha
  have hidx : actor * inputs.length + i = i * a + actor ∧ i + actor = i * a + actor := by
    cases h with
    | inl hone =>
      have hz : actor = 0 := by omega
      subst hone
      rw [hz, Nat.mul_one, Nat.zero_mul, Nat.zero_add]
      exact ⟨rfl, rfl⟩
    | inr hone =>
      have hz : i = 0 := by omega
      rw [hone, hz, Nat.mul_one, Nat.zero_mul, Nat.zero_add]
      exact ⟨rfl, rfl⟩
  rw [hidx.1, hidx.2]
  exact ⟨rfl, rfl⟩

theorem consumersAgree_iff (h : Holds inputs s)
    (hfits : batchHeaderSize + batchBytes a inputs.length < 2 ^ 64)
    (hn : inputs.length < 2 ^ 64) : ConsumersAgree inputs s ↔ Degenerate inputs := by
  constructor
  · intro hag i actor hi ha
    have hinput : inputs[i]? = some inputs[i] := List.getElem?_eq_getElem hi
    obtain ⟨rdbf, hparse, hload⟩ := hag.adapter
    rw [parseRdbf_rdbf hfits hn] at hparse
    cases hparse
    have hchecked := hag.checked i actor _ hinput ha
    have hadapter := hload i actor _ hinput ha
    rw [getInputFragment_eq h hfits hi ha, ← rdbfFragment_eq hinput ha] at hchecked
    rw [loadDataInSandbox_eq ha, ← rdbfFragment_eq hinput ha] at hadapter
    exact ⟨Option.some.inj hchecked, Option.some.inj hadapter⟩
  · intro hdeg
    refine ⟨?_, ?_, _, parseRdbf_rdbf hfits hn, ?_⟩
    · intro i actor input hinput ha
      have hi := (List.getElem?_eq_some_iff.mp hinput).1
      rw [getInputFragment_eq h hfits hi ha, (hdeg i actor hi ha).1, rdbfFragment_eq hinput ha]
    · intro i actor input hinput ha
      have hi := (List.getElem?_eq_some_iff.mp hinput).1
      rw [getInputFragmentUnsafe_eq h hfits hi ha, rdbfFragment_eq hinput ha]
    · intro i actor input hinput ha
      have hi := (List.getElem?_eq_some_iff.mp hinput).1
      rw [loadDataInSandbox_eq ha, (hdeg i actor hi ha).2, rdbfFragment_eq hinput ha]

/-- The consumers agree with the writer exactly on batches with one actor or one input, and on
those in which the fragments at the wrong indices are the same. -/
theorem transferInputs_consumersAgree {calls : Nat → InputCall} {km : KmState}
    (hfirst : 16 ≤ (calls 0).offer) (hcalls : ∀ k, 1 ≤ (calls k).offer) (hroom : km.inp.RoomOk)
    (hidle : km.inp.isReceivingInputs = false) (hactors : km.tc.nActors = a)
    (halloc : BatchAllocates (calls 0).env a inputs.length) (hne : inputs ≠ [])
    (hmax : inputs.length ≤ 2 ^ 20)
    (hfits : batchHeaderSize + batchBytes a inputs.length < 2 ^ 64) :
    ConsumersAgree inputs (transferInputs calls (saveInputSequenceAsRdbf inputs).length 0 km
        (saveInputSequenceAsRdbf inputs)).1.inp ↔
      a = 1 ∨ inputs.length = 1 ∨ Degenerate inputs := by
  have hlen : inputs.length ≠ 0 := fun hz => hne (List.length_eq_zero_iff.mp hz)
  obtain ⟨inp, htransfer, hholds⟩ := transferInputs_done hfirst hcalls hroom hidle hactors halloc
    hlen hmax hfits
  rw [htransfer]
  have hiff := consumersAgree_iff hholds hfits (by omega)
  constructor
  · intro hag
    exact Or.inr (Or.inr (hiff.mp hag))
  · intro hcond
    apply hiff.mpr
    rcases hcond with hone | hone | hdeg
    · exact degenerate_of_single (Or.inl hone)
    · exact degenerate_of_single (Or.inr hone)
    · exact hdeg

end Consumers

section Samples

/-- The module with a test case for two actors. -/
def sampleTwoActorsLoaded : KmState := (run watchStep sampleModule sampleTwoActors).km

/-- An input for two actors, the bytes of each actor all the same. -/
def sampleInputPair (b c : UInt8) : InputData 2 :=
  ⟨List.replicate 12288 b ++ List.replicate 12288 c, by
    rw [List.length_append, List.length_replicate, List.length_replicate]; rfl⟩

/-- The writer always offers all that is left. -/
def sampleInputCalls (_ : Nat) : InputCall := ⟨2 ^ 20, sampleInputEnv, fun _ => 0⟩

theorem sampleTwoActorsLoaded_idle : sampleTwoActorsLoaded.inp.RoomOk ∧
    sampleTwoActorsLoaded.inp.isReceivingInputs = false ∧ sampleTwoActorsLoaded.tc.nActors = 2 := by
  have hfields : sampleTwoActorsLoaded.inp.highestNActors = 0 ∧
      sampleTwoActorsLoaded.inp.isReceivingInputs = false ∧
      sampleTwoActorsLoaded.tc.nActors = 2 := by decide +kernel
  refine ⟨fun c _ _ => ?_, hfields.2⟩
  rw [hfields.1, Nat.zero_mul]
  exact Nat.zero_le _

theorem transferInputs_consumersAgree_sample :
    ConsumersAgree [sampleInputPair 0 1] (transferInputs sampleInputCalls
      (saveInputSequenceAsRdbf [sampleInputPair 0 1]).length 0 sampleTwoActorsLoaded
      (saveInputSequenceAsRdbf [sampleInputPair 0 1])).1.inp :=
  (transferInputs_consumersAgree (by decide) (fun _ => show 1 ≤ 2 ^ 20 by decide)
    sampleTwoActorsLoaded_idle.1 sampleTwoActorsLoaded_idle.2.1 sampleTwoActorsLoaded_idle.2.2
    ⟨rfl, rfl, rfl⟩ (by simp) (by decide) (by decide)).mpr (Or.inr (Or.inl rfl))

/-- With two inputs for two actors, the fragment of the first input and the second actor is looked
up where the second input begins. -/
theorem sampleTwoInputs_not_consumersAgree :
    ¬ ConsumersAgree [sampleInputPair 0 1, sampleInputPair 2 3] (transferInputs sampleInputCalls
      (saveInputSequenceAsRdbf [sampleInputPair 0 1, sampleInputPair 2 3]).length 0
      sampleTwoActorsLoaded
      (saveInputSequenceAsRdbf [sampleInputPair 0 1, sampleInputPair 2 3])).1.inp := by
  have hfits : batchHeaderSize + batchBytes 2 2 < 2 ^ 64 := by decide
  obtain ⟨inp, htransfer, hholds⟩ := @transferInputs_done 2
    [sampleInputPair 0 1, sampleInputPair 2 3] sampleInputCalls sampleTwoActorsLoaded (by decide)
    (fun _ => show 1 ≤ 2 ^ 20 by decide)
    sampleTwoActorsLoaded_idle.1 sampleTwoActorsLoaded_idle.2.1 sampleTwoActorsLoaded_idle.2.2
    ⟨rfl, rfl, rfl⟩ (by simp) (by decide) hfits
  rw [htransfer]
  intro hag
  have hswap := ((consumersAgree_iff hholds hfits (by decide)).mp hag 0 1 (by decide)
    (by decide)).1
  have hwrong : rdbfFragment [sampleInputPair 0 1, sampleInputPair 2 3] (1 * 2 + 0) =
      (sampleInputPair 2 3).fragment 0 := rdbfFragment_eq rfl (by decide)
  have hright : rdbfFragment [sampleInputPair 0 1, sampleInputPair 2 3] (0 * 2 + 1) =
      (sampleInputPair 0 1).fragment 1 := rdbfFragment_eq rfl (by decide)
  have heq : (sampleInputPair 2 3).fragment 0 = (sampleInputPair 0 1).fragment 1 :=
    hwrong.symm.trans (hswap.trans hright)
  exact absurd (congrArg List.head? heq) (by decide +kernel)

end Samples

end Rvzr.Executor
