import Rvzr.Km.Sysfs

/-!
# The transfer of a batch of inputs

`save_input_sequence_as_rdbf` of `test_case_data.py` writes the inputs to the sysfs file of the
module. The writer offers some part of the file in every call of `inputs_store`, and offers again
what the call did not consume. `transferInputs_done` says that the module then holds the batch,
wherever the calls cut the file.
-/

namespace Rvzr.Executor

open Rvzr.Lib Rvzr.Km

/-- `InputData` for `nActors` actors, as the bytes of the array. -/
structure InputData (nActors : Nat) where
  tobytes : List UInt8
  length_tobytes : tobytes.length = inputFragmentSize * nActors

/-- `InputData.data_size_per_actor`: the areas `main`, `faulty`, `gpr` and `simd`. -/
def dataSizePerActor : Nat := 4096 + 4096 + 64 + 256

section Rdbf

variable {a : Nat}

def rdbfMetadata (nActors : Nat) : List UInt8 :=
  encodeWords (List.replicate nActors [dataSizePerActor, 0]).flatten

def rdbfData (inputs : List (InputData a)) : List UInt8 := inputs.flatMap InputData.tobytes

/-- The file that `save_input_sequence_as_rdbf` writes, for inputs of `a` actors. -/
def saveInputSequenceAsRdbf (inputs : List (InputData a)) : List UInt8 :=
  encodeWords [a, inputs.length] ++ (rdbfMetadata a ++ rdbfData inputs)

theorem length_rdbfMetadata (n : Nat) : (rdbfMetadata n).length = inputMetadataEntrySize * n := by
  have hwords : (List.replicate n [dataSizePerActor, 0]).flatten.length = 2 * n := by
    induction n with
    | zero => rfl
    | succ n ih =>
      rw [List.replicate_succ, List.flatten_cons, List.length_append, ih]
      show 2 + 2 * n = 2 * (n + 1)
      omega
  rw [rdbfMetadata, length_encodeWords, hwords]
  show 8 * (2 * n) = 16 * n
  omega

theorem length_rdbfData (inputs : List (InputData a)) :
    (rdbfData inputs).length = inputFragmentSize * (a * inputs.length) := by
  induction inputs with
  | nil => simp [rdbfData]
  | cons input inputs ih =>
    rw [rdbfData, List.flatMap_cons, List.length_append, input.length_tobytes]
    rw [rdbfData] at ih
    rw [ih, List.length_cons, Nat.mul_succ, Nat.mul_add]
    omega

theorem length_rdbf (inputs : List (InputData a)) :
    (saveInputSequenceAsRdbf inputs).length = batchHeaderSize + batchBytes a inputs.length := by
  rw [saveInputSequenceAsRdbf, List.length_append, List.length_append, length_rdbfMetadata,
    length_rdbfData, length_encodeWords]
  rfl

/-- The bytes of input `j` in the data of a batch. -/
theorem hasBytes_input {m : Mem} {inputs : List (InputData a)} {off : Nat}
    (h : HasBytes m off (rdbfData inputs)) {j : Nat} {input : InputData a}
    (hj : inputs[j]? = some input) :
    HasBytes m (off + inputFragmentSize * (a * j)) input.tobytes := by
  induction inputs generalizing off j with
  | nil => exact absurd hj (by simp)
  | cons first inputs ih =>
    rw [rdbfData, List.flatMap_cons, hasBytes_append, first.length_tobytes] at h
    cases j with
    | zero =>
      have heq : first = input := by simpa using hj
      subst heq
      exact h.1
    | succ j =>
      have hrest := ih h.2 (by simpa using hj)
      rwa [show off + inputFragmentSize * a + inputFragmentSize * (a * j) =
        off + inputFragmentSize * (a * (j + 1)) from by
          rw [Nat.mul_succ, Nat.mul_add]; omega] at hrest

end Rdbf

/-- One call of `inputs_store`: the number of bytes the writer offers, what the kernel does, and
what follows the data in memory. -/
structure InputCall where
  offer : Nat
  env : InputEnv
  beyond : Mem

inductive TransferEnd where
  | done
  | osError
  | starved
  deriving DecidableEq, Repr

/-- The loop of the buffered writer, from call `k` on; `rest` is what has not been consumed. -/
def transferInputs (calls : Nat → InputCall) :
    Nat → Nat → KmState → List UInt8 → KmState × TransferEnd
  | _, _, km, [] => (km, .done)
  | 0, _, km, _ :: _ => (km, .starved)
  | fuel + 1, k, km, b :: bs =>
    match inputsStore (calls k).env km ⟨(b :: bs).take (calls k).offer, (calls k).beyond⟩ with
    | (km, ret) =>
      if ret < 0 then (km, .osError)
      else transferInputs calls fuel (k + 1) km ((b :: bs).drop ret.toNat)

/-- The allocations for a batch of `n` inputs succeed. -/
structure BatchAllocates (env : InputEnv) (a n : Nat) : Prop where
  batch : env.kmalloc sizeofInputBatch = true
  metadata : env.kmalloc (inputMetadataEntrySize * a) = true
  data : env.vmalloc (inputFragmentSize * (a * n)) = true

/-- The module holds these inputs. -/
structure Holds {a : Nat} (inputs : List (InputData a)) (s : InputParser) : Prop where
  batch : BatchOf a s
  room : s.RoomOk
  nInputs : s.nInputs = inputs.length
  idle : s.isReceivingInputs = false
  data : HasBytes s.data 0 (rdbfData inputs)

/-- The module has received the first `p` bytes of the file. -/
structure Sent {a : Nat} (inputs : List (InputData a)) (p : Nat) (s : InputParser) : Prop where
  batch : BatchOf a s
  room : s.RoomOk
  nInputs : s.nInputs = inputs.length
  receiving : s.isReceivingInputs = true
  cursor : s.cursor = p
  data : HasBytes s.data 0
    ((rdbfData inputs).take (p - (batchHeaderSize + inputMetadataEntrySize * a)))

section Transfer

variable {a : Nat} {inputs : List (InputData a)} {s : InputParser}

/-- After a call the whole file is there, or some of it is missing. -/
theorem sent_or_holds (inputs : List (InputData a)) {s' : InputParser} {p : Nat} (hfill : Filling a s') (hroom : s'.RoomOk)
    (hn : s'.nInputs = inputs.length) (hp : s'.cursor = p)
    (hle : p ≤ batchHeaderSize + batchBytes a inputs.length)
    (hdata : HasBytes s'.data 0
      ((rdbfData inputs).take (p - (batchHeaderSize + inputMetadataEntrySize * a)))) (k : Nat) :
    (finishInputs s' k).2.ret = k ∧
      (((finishInputs s' k).2.finished = false ∧ Sent inputs p (finishInputs s' k).1 ∧
          p < batchHeaderSize + batchBytes a inputs.length) ∨
        ((finishInputs s' k).2.finished = true ∧ Holds inputs (finishInputs s' k).1 ∧
          p = batchHeaderSize + batchBytes a inputs.length)) := by
  obtain ⟨hbatch, hret, -, -⟩ := hfill.finish k
  have hroom' := finishInputs_room hroom k
  refine ⟨hret, ?_⟩
  have hend' : add64 (add64 batchHeaderSize s'.batch.metadataSize) s'.batch.dataSize =
      batchHeaderSize + batchBytes a inputs.length := by rw [hfill.dataEnd, hn]
  unfold finishInputs at hbatch hroom' ⊢
  dsimp only at hbatch hroom' ⊢
  rw [hend'] at hbatch hroom' ⊢
  by_cases hend : batchHeaderSize + batchBytes a inputs.length ≤ s'.cursor
  · rw [if_pos hend] at hbatch hroom' ⊢
    refine Or.inr ⟨rfl, ⟨hbatch, hroom', hn, rfl, ?_⟩, by omega⟩
    rwa [List.take_of_length_le (by rw [length_rdbfData]; unfold batchBytes at hend; omega)] at hdata
  · rw [if_neg hend] at hbatch hroom' ⊢
    exact Or.inl ⟨rfl, ⟨hbatch, hroom', hn, hfill.receiving, hp, hdata⟩, by omega⟩

/-- The header words of the file. -/
theorem rdbf_header (inputs : List (InputData a)) {offer : Nat} (hoffer : 16 ≤ offer) (beyond : Mem) (ha : a < 2 ^ 64)
    (hn : inputs.length < 2 ^ 64) :
    (WriteBuf.mem ⟨(saveInputSequenceAsRdbf inputs).take offer, beyond⟩).word64 0 = a ∧
      (WriteBuf.mem ⟨(saveInputSequenceAsRdbf inputs).take offer, beyond⟩).word64 8 =
        inputs.length := by
  have hbytes : HasBytes (WriteBuf.mem ⟨(saveInputSequenceAsRdbf inputs).take offer, beyond⟩) 0
      (encodeWords [a, inputs.length]) := by
    intro i b hb
    have hi : i < 16 := by
      have := (List.getElem?_eq_some_iff.mp hb).1
      rwa [length_encodeWords] at this
    unfold WriteBuf.mem
    dsimp only
    rw [Nat.zero_add, List.getElem?_take_of_lt (by omega), saveInputSequenceAsRdbf,
      List.getElem?_append_left (by rw [length_encodeWords]; exact hi), hb]
    rfl
  exact ⟨word64_of_hasBytes hbytes (j := 0) rfl ha, word64_of_hasBytes hbytes (j := 1) rfl hn⟩

/-- With enough memory a header within the limits is accepted. -/
theorem startBatchInputParsing_ok {env : InputEnv} {nActors n : Nat}
    (halloc : BatchAllocates env nActors n) (hn : n ≠ 0) (hmax : n ≤ 2 ^ 20)
    (hfits : batchHeaderSize + batchBytes nActors n < 2 ^ 64) {buf : WriteBuf}
    (hactors : buf.mem.word64 0 = nActors) (hinputs : buf.mem.word64 8 = n) :
    (startBatchInputParsing env nActors s buf).2 = 16 := by
  have hbytes : inputMetadataEntrySize * nActors < 2 ^ 64 ∧
      inputFragmentSize * (nActors * n) < 2 ^ 64 := by
    unfold batchBytes at hfits
    omega
  have hmd : mul64 nActors inputMetadataEntrySize = inputMetadataEntrySize * nActors := by
    rw [mul64_of_lt (by rw [Nat.mul_comm]; exact hbytes.1), Nat.mul_comm]
  have hd : mul64 (mul64 nActors n) inputFragmentSize = inputFragmentSize * (nActors * n) := by
    have hle : nActors * n ≤ inputFragmentSize * (nActors * n) :=
      Nat.le_mul_of_pos_left _ (by decide)
    rw [mul64_of_lt (Nat.lt_of_le_of_lt hle hbytes.2),
      mul64_of_lt (by rw [Nat.mul_comm]; exact hbytes.2), Nat.mul_comm]
  have hle : toInt32 n ≤ maxInputs := by
    rw [toInt32_of_lt (by omega)]
    unfold maxInputs
    omega
  unfold startBatchInputParsing
  dsimp only
  rw [hactors, hinputs, if_neg (by simp [halloc.batch]), if_neg (by simp), if_neg hn,
    if_neg (by simp [hle]), hmd, hd]
  generalize hs₁ : InputParser.mk _ _ _ _ _ _ _ _ _ _ _ = s₁
  have hgrow : ∃ s₂, s₁.growBuffers env nActors n (inputMetadataEntrySize * nActors)
      (inputFragmentSize * (nActors * n)) = (s₂, true) := by
    unfold InputParser.growBuffers
    split
    · dsimp only
      rw [if_pos halloc.metadata, if_pos halloc.data]
      exact ⟨_, rfl⟩
    · exact ⟨_, rfl⟩
  obtain ⟨s₂, hs₂⟩ := hgrow
  rw [hs₂]

theorem not_wrapping {buf : WriteBuf} (hactors : buf.mem.word64 0 = a)
    (hn : buf.mem.word64 8 = inputs.length)
    (hfits : batchHeaderSize + batchBytes a inputs.length < 2 ^ 64) : ¬ WrappingBatch a buf := by
  intro h
  have hle := h.2.2
  rw [hactors, hn] at hle
  omega

/-- The first call reads the header and nothing else. -/
theorem sent_header (hroom : s.RoomOk) (hidle : s.isReceivingInputs = false) {c : InputCall}
    (hoffer : 16 ≤ c.offer) (halloc : BatchAllocates c.env a inputs.length)
    (hne : inputs.length ≠ 0) (hmax : inputs.length ≤ 2 ^ 20)
    (hfits : batchHeaderSize + batchBytes a inputs.length < 2 ^ 64) :
    ∃ s' r, parseInputBuffer c.env a s
        ⟨(saveInputSequenceAsRdbf inputs).take c.offer, c.beyond⟩ = (s', r) ∧ r.ret = 16 ∧
      ((r.finished = false ∧ Sent inputs 16 s' ∧
          16 < batchHeaderSize + batchBytes a inputs.length) ∨
        (r.finished = true ∧ Holds inputs s' ∧
          16 = batchHeaderSize + batchBytes a inputs.length)) := by
  have ha : a < 2 ^ 64 := by
    unfold batchBytes inputMetadataEntrySize at hfits
    omega
  obtain ⟨hactors, hn⟩ := rdbf_header inputs hoffer c.beyond ha (by omega)
  have hret := startBatchInputParsing_ok (s := s) halloc hne hmax hfits hactors hn
  rcases startBatchInputParsing_room c.env a hroom _ (not_wrapping hactors hn hfits) with
    ⟨hneg, -⟩ | ⟨s', heq, hroom', -, hn', hin, hcap, hfits'⟩
  · rw [hret] at hneg
    exact absurd hneg (by decide)
  have hfill := Filling.start hin hcap hfits'
  have hparse : parseInputBuffer c.env a s
      ⟨(saveInputSequenceAsRdbf inputs).take c.offer, c.beyond⟩ =
        finishInputs { s' with cursor := toU64 16, isReceivingInputs := true } 16 := by
    unfold parseInputBuffer
    rw [if_pos hidle, heq]
    rfl
  have hsent := sent_or_holds inputs (p := 16) hfill hroom' (hn'.trans hn)
    (show toU64 16 = 16 by decide) (by unfold batchHeaderSize; omega)
    (by
      rw [show 16 - (batchHeaderSize + inputMetadataEntrySize * a) = 0 from by
        unfold batchHeaderSize; omega, List.take_zero]
      exact hasBytes_nil _ _) 16
  exact ⟨_, _, hparse, hsent.1, hsent.2⟩

/-- The bytes of the data that follow position `p` of the file. -/
theorem drop_rdbf {p : Nat} (hp : batchHeaderSize + inputMetadataEntrySize * a ≤ p) :
    (saveInputSequenceAsRdbf inputs).drop p =
      (rdbfData inputs).drop (p - (batchHeaderSize + inputMetadataEntrySize * a)) := by
  have hlen : (encodeWords [a, inputs.length] ++ rdbfMetadata a).length =
      batchHeaderSize + inputMetadataEntrySize * a := by
    rw [List.length_append, length_rdbfMetadata, length_encodeWords]
    rfl
  rw [saveInputSequenceAsRdbf, ← List.append_assoc, List.drop_append, hlen,
    List.drop_eq_nil_of_le (by omega), List.nil_append]

/-- Every further call consumes something of what it is offered. -/
theorem Sent.step {p : Nat} (h : Sent inputs p s)
    (hp : p < batchHeaderSize + batchBytes a inputs.length) {c : InputCall} (hoffer : 1 ≤ c.offer)
    (nActors : Nat) :
    ∃ s' r k, parseInputBuffer c.env nActors s
        ⟨((saveInputSequenceAsRdbf inputs).drop p).take c.offer, c.beyond⟩ = (s', r) ∧
      r.ret = (k : Nat) ∧ 1 ≤ k ∧
      ((r.finished = false ∧ Sent inputs (p + k) s' ∧
          p + k < batchHeaderSize + batchBytes a inputs.length) ∨
        (r.finished = true ∧ Holds inputs s' ∧
          p + k = batchHeaderSize + batchBytes a inputs.length)) := by
  obtain ⟨s', k, heq, hfill, hn, hroom, hadv⟩ := h.batch.more h.receiving c.env nActors
    ⟨((saveInputSequenceAsRdbf inputs).drop p).take c.offer, c.beyond⟩
  have hbuf : (((saveInputSequenceAsRdbf inputs).drop p).take c.offer).length =
      min c.offer (batchHeaderSize + batchBytes a inputs.length - p) := by
    rw [List.length_take, List.length_drop, length_rdbf]
  have hcur : s'.cursor = p + k := by rw [hadv.cursor, h.cursor]
  have hstep : 1 ≤ k ∧ p + k ≤ batchHeaderSize + batchBytes a inputs.length ∧
      HasBytes s'.data 0 ((rdbfData inputs).take
        (p + k - (batchHeaderSize + inputMetadataEntrySize * a))) := by
    by_cases hphase : s.cursor < batchHeaderSize + inputMetadataEntrySize * a
    · -- metadata: the data buffer is not touched
      obtain ⟨hk, hdata⟩ := hadv.metadata hphase
      rw [hbuf] at hk
      rw [h.cursor] at hk hphase
      refine ⟨by omega, by omega, ?_⟩
      rw [show p + k - (batchHeaderSize + inputMetadataEntrySize * a) = 0 from by omega,
        List.take_zero]
      exact hasBytes_nil _ _
    · obtain ⟨hk, hdata⟩ := hadv.data (by omega)
      rw [hbuf, h.nInputs] at hk
      rw [h.cursor] at hk hphase
      refine ⟨by omega, by omega, ?_⟩
      have hpos : p - (batchHeaderSize + inputMetadataEntrySize * a) ≤ (rdbfData inputs).length := by
        rw [length_rdbfData]
        unfold batchBytes at hp
        omega
      have hext := copyLoop_extend 0 _ h.data hpos
        (show _ = (_ ++ ([] : List UInt8)).take c.offer from rfl)
      rw [List.append_nil, ← drop_rdbf (by omega), Nat.zero_add, Nat.zero_add, hbuf] at hext
      rw [hdata, h.cursor, h.nInputs, ← length_rdbfData]
      convert hext using 2
      rw [length_rdbfData, hk]
      unfold batchBytes at hp ⊢
      omega
  obtain ⟨hret, hend⟩ := sent_or_holds inputs hfill (hroom h.room) (hn.trans h.nInputs) hcur
    hstep.2.1 hstep.2.2 k
  exact ⟨_, _, k, heq, hret, hstep.1, hend⟩

variable {calls : Nat → InputCall} {km : KmState}

/-- A call of the writer that consumes `n` bytes. -/
theorem transferInputs_succ {fuel k n : Nat} {rest : List UInt8} (hne : rest ≠ []) {inp : InputParser}
    {r : ParseResult}
    (hparse : parseInputBuffer (calls k).env km.tc.nActors km.inp
      ⟨rest.take (calls k).offer, (calls k).beyond⟩ = (inp, r)) (hret : r.ret = n) :
    transferInputs calls (fuel + 1) k km rest =
      transferInputs calls fuel (k + 1) { km with inp := inp, inputsReady := r.finished }
        (rest.drop n) := by
  cases rest with
  | nil => exact absurd rfl hne
  | cons b bs =>
    have hstore : inputsStore (calls k).env km ⟨(b :: bs).take (calls k).offer, (calls k).beyond⟩ =
        ({ km with inp := inp, inputsReady := r.finished }, (n : Int)) := by
      unfold inputsStore
      rw [hparse, ← hret]
    rw [transferInputs, hstore]
    dsimp only
    rw [if_neg (by omega), Int.toNat_natCast]

theorem transferInputs_nil (fuel k : Nat) : transferInputs calls fuel k km [] = (km, .done) := by
  cases fuel with
  | zero => rfl
  | succ fuel => rfl

/-- The rest of the file is received, from any position after the header. -/
theorem Sent.transfer (hcalls : ∀ k, 1 ≤ (calls k).offer) {fuel p k : Nat}
    (h : Sent inputs p km.inp) (hp : p < batchHeaderSize + batchBytes a inputs.length)
    (hfuel : batchHeaderSize + batchBytes a inputs.length ≤ p + fuel) :
    ∃ inp, transferInputs calls fuel k km ((saveInputSequenceAsRdbf inputs).drop p) =
        ({ km with inp := inp, inputsReady := true }, .done) ∧ Holds inputs inp := by
  induction fuel generalizing p k km with
  | zero => omega
  | succ fuel ih =>
    have hne : (saveInputSequenceAsRdbf inputs).drop p ≠ [] := by
      intro hnil
      have := congrArg List.length hnil
      rw [List.length_drop, length_rdbf, List.length_nil] at this
      omega
    obtain ⟨s', r, j, hparse, hret, hj, hend⟩ := h.step hp (hcalls k) km.tc.nActors
    rw [transferInputs_succ hne hparse hret, List.drop_drop]
    cases hend with
    | inl hmore =>
      obtain ⟨hfin, hsent, hlt⟩ := hmore
      exact ih hsent hlt (by omega)
    | inr hdone =>
      obtain ⟨hfin, hholds, hlast⟩ := hdone
      rw [List.drop_eq_nil_of_le (by rw [length_rdbf]; omega), transferInputs_nil, hfin]
      exact ⟨s', rfl, hholds⟩

/-- The module receives the batch, in every split of the file into calls. -/
theorem transferInputs_done (hfirst : 16 ≤ (calls 0).offer) (hcalls : ∀ k, 1 ≤ (calls k).offer)
    (hroom : km.inp.RoomOk) (hidle : km.inp.isReceivingInputs = false) (hactors : km.tc.nActors = a)
    (halloc : BatchAllocates (calls 0).env a inputs.length) (hne : inputs.length ≠ 0)
    (hmax : inputs.length ≤ 2 ^ 20)
    (hfits : batchHeaderSize + batchBytes a inputs.length < 2 ^ 64) :
    ∃ inp, transferInputs calls (saveInputSequenceAsRdbf inputs).length 0 km
        (saveInputSequenceAsRdbf inputs) = ({ km with inp := inp, inputsReady := true }, .done) ∧
      Holds inputs inp := by
  have hlen : ∃ fuel, (saveInputSequenceAsRdbf inputs).length = fuel + 1 ∧
      batchHeaderSize + batchBytes a inputs.length ≤ 16 + fuel :=
    ⟨15 + batchBytes a inputs.length, by rw [length_rdbf]; unfold batchHeaderSize; omega,
      by unfold batchHeaderSize; omega⟩
  obtain ⟨fuel, hfuel, hle⟩ := hlen
  obtain ⟨s', r, hparse, hret, hend⟩ := sent_header hroom hidle hfirst halloc hne hmax hfits
  subst hactors
  rw [hfuel, transferInputs_succ (List.ne_nil_of_length_pos (by omega)) hparse
    (show r.ret = ((16 : Nat) : Int) from hret)]
  cases hend with
  | inl hmore =>
    obtain ⟨hfin, hsent, hlt⟩ := hmore
    exact Sent.transfer hcalls hsent hlt hle
  | inr hdone =>
    obtain ⟨hfin, hholds, hlast⟩ := hdone
    rw [List.drop_eq_nil_of_le (by rw [length_rdbf]; omega), transferInputs_nil, hfin]
    exact ⟨s', rfl, hholds⟩

end Transfer

end Rvzr.Executor
