import Rvzr.Executor.Consumers
import Rvzr.Km.DataLoader
import Rvzr.Unicorn.LoadInput

/-!
# The model and the executor start from the same state

`X86UnicornModel._load_input` fills the emulator from an input, and it patches the flags entry of
the input object on the way. `load_sandbox_data` fills the sandbox from the bytes of the input that
the module received. Whatever was loaded on the model before and after the bytes were sent, both
leave the same data areas and the same XMM registers (`loaders_agree`).
-/

namespace Rvzr.Executor

open Rvzr.Lib Rvzr.Km Rvzr.Unicorn

/-! ### The model and the input objects -/

/-- The emulator of the model, and the input objects that both sides use. -/
structure ModelState where
  em : Emulator
  objects : Nat → Unicorn.InputData

/-- The model loads an input, or it runs and leaves the emulator in some state. -/
inductive ModelEvent where
  | load (ref : Nat)
  | execute (em : Emulator)

/-- The entries of an input after `_load_input`, which writes the patched flags to the input. -/
def patchedInput (dataStart nActors : Nat) (em : Emulator) (input : Unicorn.InputData) :
    Unicorn.InputData :=
  ((List.range nActors).foldl (loadActor dataStart) (em, input)).2

def modelStep (dataStart nActors : Nat) (st : ModelState) : ModelEvent → ModelState
  | .load ref =>
    { em := loadInput dataStart nActors st.em (st.objects ref)
      objects := fun r =>
        if r = ref then patchedInput dataStart nActors st.em (st.objects ref) else st.objects r }
  | .execute em => { st with em := em }

/-- `tobytes` of an input with `nActors` actors: the words of the array, one after the other. -/
def inputBytes (nActors : Nat) (input : Unicorn.InputData) : InputData nActors where
  tobytes := tobytes ((List.range (nActors * entriesPerActor)).map fun p =>
    input (p / entriesPerActor) (p % entriesPerActor))
  length_tobytes := by
    rw [tobytes, length_encodeWords, List.length_map, List.length_map, List.length_range,
      entriesPerActor, inputFragmentSize]
    omega

/-! ### Patching an input again -/

theorem patchFlags_patchFlags (f : UInt64) : patchFlags (patchFlags f) = patchFlags f := by
  rw [← UInt64.toNat_inj]
  simp only [patchFlags, UInt64.toNat_or, UInt64.toNat_and]
  refine Nat.eq_of_testBit_eq fun i => ?_
  simp only [Nat.testBit_or, Nat.testBit_and]
  cases f.toNat.testBit i <;> cases (UInt64.toNat 2263).testBit i <;>
    cases (UInt64.toNat 2).testBit i <;> rfl

/-- The entries of an actor with the flags patched. -/
def patched (nActors : Nat) (input : Unicorn.InputData) : Unicorn.InputData := fun a =>
  if a < nActors then patchInput input a a else input a

theorem patchedInput_eq (dataStart nActors : Nat) (em : Emulator) (input : Unicorn.InputData) :
    patchedInput dataStart nActors em input = patched nActors input := by
  funext a
  exact (loadActors_spec dataStart em input nActors).1 a

theorem patched_patched (nActors : Nat) (input : Unicorn.InputData) :
    patched nActors (patched nActors input) = patched nActors input := by
  funext a j
  by_cases ha : a < nActors
  · simp only [patched, if_pos ha, patchInput, if_true, ActorInput.setGpr]
    by_cases hj : j = 1024 + 6
    · simp [hj, patchFlags_patchFlags]
    · simp [hj]
  · simp [patched, ha]

/-- Every input looks the same once its flags are patched. -/
def SamePatched (nActors : Nat) (st₀ st : ModelState) : Prop :=
  ∀ r, patched nActors (st.objects r) = patched nActors (st₀.objects r)

theorem SamePatched.step {dataStart nActors : Nat} {st₀ st : ModelState}
    (h : SamePatched nActors st₀ st) (e : ModelEvent) :
    SamePatched nActors st₀ (modelStep dataStart nActors st e) := by
  cases e with
  | load ref =>
    intro r
    rw [← h r, modelStep]
    dsimp only
    by_cases hr : r = ref
    · subst hr
      rw [if_pos rfl, patchedInput_eq, patched_patched]
    · rw [if_neg hr]
  | execute em => exact h

theorem run_samePatched (dataStart nActors : Nat) (st : ModelState) (es : List ModelEvent) :
    SamePatched nActors st (run (modelStep dataStart nActors) st es) := by
  have hstep : ∀ t e, SamePatched nActors st t →
      SamePatched nActors st (modelStep dataStart nActors t e) := fun _ e h => h.step e
  have hinit : SamePatched nActors st st := fun _ => rfl
  exact run_inv hstep hinit es

/-! ### The words that the module receives -/

theorem inputBytes_word {nActors : Nat} {inputs : List (InputData nActors)} {s : InputParser}
    (h : Holds inputs s) {i actor j : Nat} {input : Unicorn.InputData}
    (hi : inputs[i]? = some (inputBytes nActors input)) (ha : actor < nActors)
    (hj : j < entriesPerActor) :
    fragmentWord nActors s i actor j = (input actor j).toNat := by
  have hlen := (List.getElem?_eq_some_iff.1 hi).1
  have hfits := h.batch.fits
  rw [h.nInputs] at hfits
  have hidx : fragmentIndex nActors i actor = i * nActors + actor := by
    have hlt := index_small hfits (index_lt hlen ha)
    rw [fragmentIndex, mul64_of_lt (by omega), add64_of_lt hlt]
  have hbytes := hasBytes_input h.data hi
  have hpos : (actor * entriesPerActor + j) / entriesPerActor = actor ∧
      (actor * entriesPerActor + j) % entriesPerActor = j := by
    rw [entriesPerActor] at hj ⊢
    omega
  have hword : (((List.range (nActors * entriesPerActor)).map fun p =>
      input (p / entriesPerActor) (p % entriesPerActor)).map UInt64.toNat)[actor * entriesPerActor +
        j]? = some (input actor j).toNat := by
    have hlt : actor * entriesPerActor + j < nActors * entriesPerActor := by
      have hle : (actor + 1) * entriesPerActor ≤ nActors * entriesPerActor :=
        Nat.mul_le_mul_right _ ha
      rw [Nat.succ_mul] at hle
      omega
    rw [List.getElem?_map, List.getElem?_map, List.getElem?_range hlt, Option.map_some,
      Option.map_some, hpos.1, hpos.2]
  rw [fragmentWord, fragmentAddr, hidx, ← word64_of_hasBytes hbytes hword (UInt64.toNat_lt _)]
  congr 1
  rw [inputFragmentSize, entriesPerActor, Nat.mul_comm nActors i]
  omega

/-- The word that the loader of the module leaves is the one that the model leaves. -/
theorem sectionWord_eq {nActors actor : Nat} {src : Nat → Nat} {input : Unicorn.InputData}
    (ha : actor < nActors) (hsrc : ∀ j < entriesPerActor, src j = (input actor j).toNat)
    (old old' : Nat) {k : Nat} (hk : 8 ≤ k) :
    sectionWord src old k = loadedWord (patched nActors input actor) old' k := by
  have hentries : entriesPerActor = 1536 := rfl
  have hlow : ¬ k < 8 := by omega
  have hpatched : patched nActors input actor = patchInput input actor actor := if_pos ha
  rw [sectionWord, if_neg hlow, loadedWord, if_neg hlow, hpatched,
    show 512 + dataEntriesPerActor = 1576 from rfl]
  by_cases hpad : k < 512
  · rw [if_pos hpad, if_pos hpad]
  rw [if_neg hpad, if_neg hpad]
  by_cases hflags : k = 1542
  · subst hflags
    rw [if_pos rfl, if_pos (by omega), hsrc 1030 (by omega)]
    simp [patchInput, ActorInput.setGpr, patchFlags]
  rw [if_neg hflags]
  by_cases hdata : k < 1576
  · rw [if_pos hdata, if_pos hdata, hsrc _ (by omega), patchInput_self _ (by omega)]
  · rw [if_neg hdata, if_neg hdata]

/-! ### The two loaders -/

/-- The area of the emulator's sandbox that stands for a field of the module's. -/
def modelArea : DataField → DataArea
  | .underflowPad => .underflowPad
  | .mainArea => .main
  | .faultyArea => .faulty
  | .regInitArea => .regInit
  | .overflowPad => .overflowPad

/-- The fields are the words from 8 on of a section, and the areas begin at the same words. -/
theorem modelArea_words (f : DataField) : ∃ o n, f.offset = 8 * o ∧ f.size = 8 * n ∧ 8 ≤ o ∧
    o + n ≤ 2048 ∧ dataAreaOffset (modelArea f) = 8 * o := by
  cases f with
  | underflowPad => exact ⟨8, 504, by decide⟩
  | mainArea => exact ⟨512, 512, by decide⟩
  | faultyArea => exact ⟨1024, 512, by decide⟩
  | regInitArea => exact ⟨1536, 40, by decide⟩
  | overflowPad => exact ⟨1576, 472, by decide⟩

section Agreement

variable {dataStart nActors i : Nat} {input sent : Unicorn.InputData} {s : InputParser}

/-- The areas of an actor, from an input that patches to the one that was sent. -/
theorem areas_agree (hsame : patched nActors input = patched nActors sent)
    (hsrc : ∀ actor < nActors, ∀ j < entriesPerActor,
      fragmentWord nActors s i actor j = (sent actor j).toNat)
    (em : Emulator) (data : Mem) (f : DataField) {actor : Nat} (ha : actor < nActors) :
    (loadInput dataStart nActors em input).mem.read (getDataAddr dataStart (modelArea f) actor)
        f.size =
      (loadSandboxData false nActors s i data).data.read (actor * sizeofActorData + f.offset)
        f.size := by
  obtain ⟨o, n, hoff, hsize, ho, hfit, harea⟩ := modelArea_words f
  have hpatch : patchInput input actor actor = patched nActors sent actor := by
    rw [← hsame, patched, if_pos ha]
  rw [hsize]
  refine read_eq_of_words fun k hk => ?_
  have hmodel := loadInput_word dataStart nActors em input (a := actor) (k := o + k) (by omega)
  have hmodule := loadSandboxData_word nActors s i data actor (k := o + k) (by omega)
  rw [if_pos ha, hpatch] at hmodel
  rw [if_pos ha, sectionWord_eq ha (hsrc actor ha) _
    (em.mem.word64 (dataStart + 8 * (actor * 2048 + (o + k)))) (by omega)] at hmodule
  have hleft : getDataAddr dataStart (modelArea f) actor + 8 * k =
      dataStart + 8 * (actor * 2048 + (o + k)) := by
    rw [getDataAddr, harea, dataSizePerActor_eq]
    omega
  have hright : actor * sizeofActorData + f.offset + 8 * k = actor * 16384 + 8 * (o + k) := by
    rw [hoff, show sizeofActorData = 16384 from rfl]
    omega
  rw [hleft, hright, hmodel, hmodule]

/-- The XMM registers, from the same two inputs. -/
theorem xmm_agree (hn : 0 < nActors) (hsame : patched nActors input = patched nActors sent)
    (hsrc : ∀ actor < nActors, ∀ j < entriesPerActor,
      fragmentWord nActors s i actor j = (sent actor j).toNat)
    (em : Emulator) (data : Mem) {j : Nat} (hj : j < 8) :
    (loadInput dataStart nActors em input).reg (.xmm ⟨j, by omega⟩) =
      (loadSandboxData false nActors s i data).ymm ⟨j, hj⟩ % 2 ^ 128 := by
  have hentries : entriesPerActor = 1536 := rfl
  have hentry : ∀ k < entriesPerActor, k ≠ 1030 →
      (patchInput input 0 0 k).toNat = fragmentWord nActors s i 0 k := by
    intro k hk hflags
    have hk' := congrFun (congrFun hsame 0) k
    rw [patched, patched, if_pos hn, if_pos hn, patchInput_self _ hflags,
      patchInput_self _ hflags] at hk'
    rw [patchInput_self _ hflags, hk', hsrc 0 hn k hk]
  have hlow : fragmentWord nActors s i 0 (1032 + 4 * j) =
      s.data.word64 (fragmentAddr nActors i 0 + 8192 + 64 + 32 * j) := by
    refine congrArg s.data.word64 ?_
    omega
  have hhigh : fragmentWord nActors s i 0 (1033 + 4 * j) =
      s.data.word64 (fragmentAddr nActors i 0 + 8192 + 64 + 32 * j + 8) := by
    refine congrArg s.data.word64 ?_
    omega
  have hload := ofLe_read_mod s.data (fragmentAddr nActors i 0 + 8192 + 64 + 32 * j) 16
  rw [← hlow, ← hhigh] at hload
  rw [loadInput_reg, if_pos hn, loadedReg, if_pos hj, hentry _ (by omega) (by omega),
    hentry _ (by omega) (by omega)]
  exact hload.symm

/-- The model and the module start from the same state, whatever was loaded on the model before the
inputs were sent, and before this input is loaded. -/
theorem loaders_agree (hn : 0 < nActors) (st : ModelState) (es es' : List ModelEvent)
    {refs : List Nat} {ref : Nat} (hi : refs[i]? = some ref)
    (hs : Holds (refs.map fun r =>
      inputBytes nActors ((run (modelStep dataStart nActors) st es').objects r)) s)
    (data : Mem) :
    let before := run (modelStep dataStart nActors) st es
    let em := (modelStep dataStart nActors before (.load ref)).em
    let km := loadSandboxData false nActors s i data
    (∀ f actor, actor < nActors →
      em.mem.read (getDataAddr dataStart (modelArea f) actor) f.size =
        km.data.read (actor * sizeofActorData + f.offset) f.size) ∧
    ∀ (j : Nat) (hj : j < 8), em.reg (.xmm ⟨j, by omega⟩) = km.ymm ⟨j, hj⟩ % 2 ^ 128 := by
  have hbefore := run_samePatched dataStart nActors st es ref
  have hsent := run_samePatched dataStart nActors st es' ref
  have hsame := hbefore.trans hsent.symm
  have hsrc : ∀ actor < nActors, ∀ j < entriesPerActor, fragmentWord nActors s i actor j =
      ((run (modelStep dataStart nActors) st es').objects ref actor j).toNat := by
    refine fun actor ha j hj => inputBytes_word hs ?_ ha hj
    rw [List.getElem?_map, hi, Option.map_some]
  exact ⟨fun f _ ha => areas_agree hsame hsrc _ data f ha,
    fun _ hj => xmm_agree hn hsame hsrc _ data hj⟩

end Agreement

section Samples

/-- Input objects whose words name their actor and their entry. -/
def sampleModelState : ModelState where
  em := ⟨fun _ => 0, fun _ => 0⟩
  objects r a j := UInt64.ofNat (r * 4096 + a * 2048 + j)

/-- Two inputs, the second one loaded on the model before they are sent. -/
def sampleSent : List (InputData 2) := [0, 1].map fun r =>
  inputBytes 2 ((run (modelStep 0 2) sampleModelState [.load 1]).objects r)

/-- The inputs in the module after a transfer. -/
def receivedInputs {a : Nat} (calls : Nat → InputCall) (km : KmState) (inputs : List (InputData a)) :
    InputParser :=
  (transferInputs calls (saveInputSequenceAsRdbf inputs).length 0 km
    (saveInputSequenceAsRdbf inputs)).1.inp

theorem receivedInputs_holds {a : Nat} {calls : Nat → InputCall} {km : KmState} {inp : InputParser}
    {inputs : List (InputData a)}
    (htransfer : transferInputs calls (saveInputSequenceAsRdbf inputs).length 0 km
      (saveInputSequenceAsRdbf inputs) = ({ km with inp := inp, inputsReady := true }, .done))
    (hholds : Holds inputs inp) : Holds inputs (receivedInputs calls km inputs) := by
  rw [receivedInputs, htransfer]
  exact hholds

/-- The module once it has received them. -/
def sampleReceived : InputParser := receivedInputs sampleInputCalls sampleTwoActorsLoaded sampleSent

theorem sampleReceived_holds : Holds sampleSent sampleReceived := by
  have hlen : sampleSent.length = 2 := List.length_map _
  have hfits : batchHeaderSize + batchBytes 2 2 < 2 ^ 64 := by decide
  obtain ⟨inp, htransfer, hholds⟩ := @transferInputs_done 2 sampleSent sampleInputCalls
    sampleTwoActorsLoaded (by decide) (fun _ => show 1 ≤ 2 ^ 20 by decide)
    sampleTwoActorsLoaded_idle.1 sampleTwoActorsLoaded_idle.2.1 sampleTwoActorsLoaded_idle.2.2
    ⟨rfl, rfl, rfl⟩ (by rw [hlen]; decide) (by rw [hlen]; decide) (by rw [hlen]; exact hfits)
  exact receivedInputs_holds htransfer hholds

/-- The second input, loaded twice before. -/
theorem loaders_agree_sample :
    (modelStep 0 2 (run (modelStep 0 2) sampleModelState [.load 1, .load 0, .load 1])
      (.load 1)).em.mem.read (getDataAddr 0 (modelArea .regInitArea) 1)
        (DataField.size .regInitArea) =
      (loadSandboxData false 2 sampleReceived 1 fun _ => 0).data.read
        (1 * sizeofActorData + DataField.offset .regInitArea) (DataField.size .regInitArea) := by
  have hsecond : [0, 1][1]? = some 1 := rfl
  have hagree := loaders_agree (by decide) sampleModelState [.load 1, .load 0, .load 1] [.load 1]
    hsecond sampleReceived_holds fun _ => 0
  exact hagree.1 .regInitArea 1 (by decide)

end Samples

end Rvzr.Executor
