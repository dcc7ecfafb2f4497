import Rvzr.Km.TestCaseParser

/-!
# The input parser of the kernel module

`executor_km/input_parser.c`: a resumable reader of a batch of inputs, in three phases (header,
metadata, data). The buffers are reused from batch to batch and only grow; the structure
`inputs` is freed and allocated anew with every header, so that after a rejected header its
fields are whatever the fresh memory held.

`stored` is not a variable of the module: it records which bytes of the data buffer were
received since the last accepted header.
-/

namespace Rvzr.Km

open Rvzr.Lib

def maxInputs : Int := 1024 * 1024
def batchHeaderSize : Nat := 16

/-- `sizeof(input_fragment_metadata_entry_t)`. -/
def inputMetadataEntrySize : Nat := 16

/-- `sizeof(input_fragment_t)`: main area, faulty area and register region. -/
def inputFragmentSize : Nat := 12288

/-- `sizeof(input_batch_t)`. -/
def sizeofInputBatch : Nat := 32

/-- What a pointer of `input_batch_t` points to. -/
inductive BatchPtr where
  | null
  | allocated
  | stray
  deriving DecidableEq, Repr

/-- `input_batch_t`. -/
structure InputBatch where
  metadataSize : Nat
  dataSize : Nat
  metadata : BatchPtr
  data : BatchPtr
  deriving DecidableEq, Repr

/-- What the kernel decides during one call; `batch` is what a fresh `input_batch_t` holds. -/
structure InputEnv where
  kmalloc : Nat → Bool
  vmalloc : Nat → Bool
  garbage : Mem
  batch : InputBatch

/-- The globals and statics of the parser. The two buffers are kept with the size they were
allocated with, `none` for a null pointer. -/
structure InputParser where
  inputs : Option InputBatch
  nInputs : Nat
  isReceivingInputs : Bool
  cursor : Nat
  highestNActors : Nat
  highestNInputs : Nat
  allocatedMetadata : Option Nat
  allocatedData : Option Nat
  metadata : Mem
  data : Mem
  stored : Nat → Bool

namespace InputParser

/-- `init_input_parser`. -/
def init (garbage : Mem) : InputParser where
  inputs := some ⟨0, 0, .allocated, .allocated⟩
  nInputs := 0
  isReceivingInputs := false
  cursor := 0
  highestNActors := 0
  highestNInputs := 0
  allocatedMetadata := some inputMetadataEntrySize
  allocatedData := some inputFragmentSize
  metadata := garbage
  data := garbage
  stored := fun _ => false

/-- The structure `inputs` points to; it is never null while a batch is received. -/
def batch (s : InputParser) : InputBatch := s.inputs.getD ⟨0, 0, .null, .null⟩

/-- The reallocation of both buffers, if it is needed; `false` when it fails. -/
def growBuffers (env : InputEnv) (newNActors newNInputs metadataSize dataSize : Nat)
    (s : InputParser) : InputParser × Bool :=
  if s.highestNActors < newNActors ∨ s.highestNInputs < newNInputs ∨
      s.allocatedMetadata = none ∨ s.allocatedData = none then
    let s := { s with allocatedMetadata := none, allocatedData := none }
    if env.kmalloc metadataSize then
      let s := { s with allocatedMetadata := some metadataSize, metadata := env.garbage }
      if env.vmalloc dataSize then
        ({ s with allocatedData := some dataSize, data := env.garbage,
                  highestNActors := newNActors, highestNInputs := newNInputs }, true)
      else (s, false)
    else (s, false)
  else (s, true)

end InputParser

/-- `start_batch_input_parsing` (`input_parser.c:38-95`); `nActors` belongs to the test case
parser. -/
def startBatchInputParsing (env : InputEnv) (nActors : Nat) (s : InputParser) (buf : WriteBuf) :
    InputParser × Int :=
  let s := { s with cursor := 0, inputs := none }
  if env.kmalloc sizeofInputBatch = false then (s, -enomem)
  else
    let s := { s with inputs := some env.batch }
    let newNActors := buf.mem.word64 0
    if newNActors ≠ nActors then (s, -eio)
    else
      let newNInputs := buf.mem.word64 8
      if newNInputs = 0 then (s, -eio)
      else if ¬ toInt32 newNInputs ≤ maxInputs then (s, -eio)
      else
        let metadataSize := mul64 newNActors inputMetadataEntrySize
        let dataSize := mul64 (mul64 newNActors newNInputs) inputFragmentSize
        let s := { s with
          inputs := some { env.batch with metadataSize := metadataSize, dataSize := dataSize } }
        match s.growBuffers env newNActors newNInputs metadataSize dataSize with
        | (s, false) => (s, -enomem)
        | (s, true) =>
          ({ s with inputs := some ⟨metadataSize, dataSize, .allocated, .allocated⟩
                    nInputs := newNInputs
                    stored := fun _ => false }, 16)

/-- The end of `parse_input_buffer`: all data received? -/
def finishInputs (s : InputParser) (consumed : Nat) : InputParser × ParseResult :=
  let dataEnd := add64 (add64 batchHeaderSize s.batch.metadataSize) s.batch.dataSize
  if dataEnd ≤ s.cursor then
    ({ s with isReceivingInputs := false }, ⟨consumed, true, consumed⟩)
  else (s, ⟨consumed, false, consumed⟩)

/-- `parse_input_buffer` (`input_parser.c:101-160`). -/
def parseInputBuffer (env : InputEnv) (nActors : Nat) (s : InputParser) (buf : WriteBuf) :
    InputParser × ParseResult :=
  if s.isReceivingInputs = false then
    match startBatchInputParsing env nActors s buf with
    | (s, ret) =>
      let s := { s with cursor := toU64 ret }
      if ret ≤ 0 then (s, ⟨-1, false, 0⟩)
      else finishInputs { s with isReceivingInputs := true } ret.toNat
  else if s.cursor < add64 batchHeaderSize s.batch.metadataSize then
    let cur := sub64 s.cursor batchHeaderSize
    let r := copyLoop s.metadata cur s.batch.metadataSize buf.data
    finishInputs { s with metadata := r.1, cursor := add64 (cur + r.2) batchHeaderSize } r.2
  else
    let cur := sub64 (sub64 s.cursor s.batch.metadataSize) batchHeaderSize
    let r := copyLoop s.data cur s.batch.dataSize buf.data
    finishInputs
      { s with data := r.1
               cursor := add64 (add64 (cur + r.2) s.batch.metadataSize) batchHeaderSize
               stored := fun p => s.stored p || (decide (cur ≤ p) && decide (p < cur + r.2)) }
      r.2

/-- The index `get_input_fragment_unsafe` uses. -/
def fragmentIndex (nActors inputId actorId : Nat) : Nat := add64 (mul64 inputId nActors) actorId

/-- `input_parsing_completed`. -/
def inputParsingCompleted (s : InputParser) : Bool := !s.isReceivingInputs

/-- The buffers have room for the numbers recorded as the highest so far. -/
def InputParser.RoomOk (s : InputParser) : Prop :=
  ∀ c, s.allocatedMetadata ≠ none → s.allocatedData = some c →
    inputFragmentSize * (s.highestNActors * s.highestNInputs) ≤ c

/-- The number of bytes of a batch, without its header. -/
def batchBytes (nActors nInputs : Nat) : Nat :=
  inputMetadataEntrySize * nActors + inputFragmentSize * (nActors * nInputs)

/-- The parser holds, or is receiving, a batch for `a` actors. -/
structure BatchOf (a : Nat) (s : InputParser) : Prop where
  inputs : s.inputs = some ⟨inputMetadataEntrySize * a, inputFragmentSize * (a * s.nInputs),
    .allocated, .allocated⟩
  room : ∃ c, s.allocatedData = some c ∧ inputFragmentSize * (a * s.nInputs) ≤ c
  fits : batchHeaderSize + batchBytes a s.nInputs < 2 ^ 64
  receiving : s.isReceivingInputs = true → batchHeaderSize ≤ s.cursor ∧
    s.cursor < batchHeaderSize + batchBytes a s.nInputs ∧
    ∀ p, p < s.cursor - (batchHeaderSize + inputMetadataEntrySize * a) → s.stored p = true
  complete : s.isReceivingInputs = false →
    ∀ p, p < inputFragmentSize * (a * s.nInputs) → s.stored p = true

/-- A header that passes the checks although the size of its batch is not a 64-bit number. -/
def WrappingBatch (nActors : Nat) (buf : WriteBuf) : Prop :=
  buf.mem.word64 0 = nActors ∧ toInt32 (buf.mem.word64 8) ≤ maxInputs ∧
    2 ^ 64 ≤ batchHeaderSize + batchBytes (buf.mem.word64 0) (buf.mem.word64 8)

section Start

variable {s : InputParser}

/-- Growing the buffers leaves room for the batch, if the allocations succeed. -/
theorem growBuffers_spec (env : InputEnv) (a n : Nat) (h : s.RoomOk) {s' : InputParser} {ok : Bool}
    (hgrow : s.growBuffers env a n (inputMetadataEntrySize * a) (inputFragmentSize * (a * n)) =
      (s', ok)) :
    s'.RoomOk ∧ s'.nInputs = s.nInputs ∧ s'.isReceivingInputs = s.isReceivingInputs ∧
      (ok = true → ∃ c, s'.allocatedData = some c ∧ inputFragmentSize * (a * n) ≤ c) := by
  unfold InputParser.growBuffers at hgrow
  split at hgrow
  · dsimp only at hgrow
    split at hgrow
    · split at hgrow
      · cases hgrow
        refine ⟨fun c _ hc => ?_, rfl, rfl, fun _ => ⟨_, rfl, Nat.le_refl _⟩⟩
        cases hc
        exact Nat.le_refl _
      · cases hgrow
        exact ⟨fun c _ hc => absurd hc (by simp), rfl, rfl, fun hf => absurd hf (by simp)⟩
    · cases hgrow
      exact ⟨fun c hm _ => absurd rfl hm, rfl, rfl, fun hf => absurd hf (by simp)⟩
  · rename_i hno
    rw [not_or, not_or, not_or] at hno
    obtain ⟨ha, hn, hm, hd⟩ := hno
    cases hgrow
    refine ⟨h, rfl, rfl, fun _ => ?_⟩
    cases hc : s.allocatedData with
    | none => exact absurd hc hd
    | some c =>
      refine ⟨c, rfl, Nat.le_trans (Nat.mul_le_mul_left _ ?_) (h c hm hc)⟩
      exact Nat.mul_le_mul (Nat.not_lt.mp ha) (Nat.not_lt.mp hn)

/-- The sizes of the batch fit, and everything before the cursor has been stored. -/
structure Filling (a : Nat) (s : InputParser) : Prop where
  inputs : s.inputs = some ⟨inputMetadataEntrySize * a, inputFragmentSize * (a * s.nInputs),
    .allocated, .allocated⟩
  room : ∃ c, s.allocatedData = some c ∧ inputFragmentSize * (a * s.nInputs) ≤ c
  fits : batchHeaderSize + batchBytes a s.nInputs < 2 ^ 64
  receiving : s.isReceivingInputs = true
  header : batchHeaderSize ≤ s.cursor
  stored : ∀ p, p < s.cursor - (batchHeaderSize + inputMetadataEntrySize * a) → s.stored p = true

theorem Filling.dataEnd {a : Nat} (h : Filling a s) :
    add64 (add64 batchHeaderSize s.batch.metadataSize) s.batch.dataSize =
      batchHeaderSize + batchBytes a s.nInputs := by
  have hfits := h.fits
  unfold batchBytes batchHeaderSize inputMetadataEntrySize inputFragmentSize at *
  unfold InputParser.batch
  rw [h.inputs, Option.getD_some]
  unfold inputMetadataEntrySize inputFragmentSize
  dsimp only
  have hmd : add64 16 (16 * a) = 16 + 16 * a := add64_of_lt (by omega)
  rw [hmd, add64_of_lt (by omega)]
  omega

/-- The end of a call either completes the batch or waits for more of it. -/
theorem Filling.finish {a : Nat} (h : Filling a s) (k : Nat) :
    BatchOf a (finishInputs s k).1 ∧ (finishInputs s k).2.ret = k ∧
      (finishInputs s k).1.nInputs = s.nInputs ∧
      ((finishInputs s k).2.finished = true ↔
        (finishInputs s k).1.isReceivingInputs = false) := by
  have hrec := h.receiving
  unfold finishInputs
  dsimp only
  rw [h.dataEnd]
  split
  · rename_i hle
    refine ⟨⟨h.inputs, h.room, h.fits, fun hf => absurd hf (by simp), fun _ p hp => ?_⟩, rfl, rfl,
      by simp⟩
    apply h.stored
    have hp' : p < inputFragmentSize * (a * s.nInputs) := hp
    unfold batchBytes at hle
    omega
  · rename_i hlt
    refine ⟨⟨h.inputs, h.room, h.fits, fun _ => ⟨h.header, Nat.not_le.mp hlt, h.stored⟩, ?_⟩, rfl,
      rfl, by simp [hrec]⟩
    intro hf
    rw [hrec] at hf
    exact absurd hf (by simp)

theorem finishInputs_room (h : s.RoomOk) (k : Nat) : (finishInputs s k).1.RoomOk := by
  unfold finishInputs
  dsimp only
  split
  · exact h
  · exact h

/-- What the call that reads a header leaves: nothing of a batch, or the begin of a new one. -/
inductive HeaderOutcome (nActors : Nat) (buf : WriteBuf) (s : InputParser)
    (r : InputParser × ParseResult) : Prop
  | rejected (hret : r.2.ret < 0) (hfin : r.2.finished = false) (hroom : r.1.RoomOk)
      (hn : r.1.nInputs = s.nInputs) (hrec : r.1.isReceivingInputs = false)
  | accepted (hret : 0 ≤ r.2.ret) (hroom : r.1.RoomOk) (hactors : buf.mem.word64 0 = nActors)
      (hn : r.1.nInputs = buf.mem.word64 8) (hbatch : BatchOf nActors r.1)
      (hfin : r.2.finished = true ↔ r.1.isReceivingInputs = false)

theorem startBatchInputParsing_room (env : InputEnv) (nActors : Nat) (h : s.RoomOk)
    (buf : WriteBuf) (hwrap : ¬ WrappingBatch nActors buf) :
    ((startBatchInputParsing env nActors s buf).2 < 0 ∧
        (startBatchInputParsing env nActors s buf).1.RoomOk ∧
        (startBatchInputParsing env nActors s buf).1.nInputs = s.nInputs ∧
        (startBatchInputParsing env nActors s buf).1.isReceivingInputs = s.isReceivingInputs) ∨
      ∃ s', startBatchInputParsing env nActors s buf = (s', 16) ∧ s'.RoomOk ∧
        buf.mem.word64 0 = nActors ∧ s'.nInputs = buf.mem.word64 8 ∧
        s'.inputs = some ⟨inputMetadataEntrySize * nActors,
          inputFragmentSize * (nActors * s'.nInputs), .allocated, .allocated⟩ ∧
        (∃ c, s'.allocatedData = some c ∧ inputFragmentSize * (nActors * s'.nInputs) ≤ c) ∧
        batchHeaderSize + batchBytes nActors s'.nInputs < 2 ^ 64 := by
  have hneg : (-eio : Int) < 0 := by decide
  unfold startBatchInputParsing
  dsimp only
  split
  · exact .inl ⟨show (-enomem : Int) < 0 by decide, h, rfl, rfl⟩
  split
  · exact .inl ⟨hneg, h, rfl, rfl⟩
  rename_i hact
  have hact' : buf.mem.word64 0 = nActors := not_not.mp hact
  split
  · exact .inl ⟨hneg, h, rfl, rfl⟩
  split
  · exact .inl ⟨hneg, h, rfl, rfl⟩
  rename_i hmax
  have hfits : batchHeaderSize + batchBytes nActors (buf.mem.word64 8) < 2 ^ 64 := by
    rw [← hact']
    exact Nat.not_le.mp fun hle => hwrap ⟨hact', not_not.mp hmax, hle⟩
  have hbytes : inputMetadataEntrySize * nActors < 2 ^ 64 ∧
      inputFragmentSize * (nActors * buf.mem.word64 8) < 2 ^ 64 := by
    unfold batchBytes at hfits
    omega
  have hmd : mul64 (buf.mem.word64 0) inputMetadataEntrySize = inputMetadataEntrySize * nActors := by
    rw [hact', mul64_of_lt (by rw [Nat.mul_comm]; exact hbytes.1), Nat.mul_comm]
  have hd : mul64 (mul64 (buf.mem.word64 0) (buf.mem.word64 8)) inputFragmentSize =
      inputFragmentSize * (nActors * buf.mem.word64 8) := by
    have hle : nActors * buf.mem.word64 8 ≤
        inputFragmentSize * (nActors * buf.mem.word64 8) := Nat.le_mul_of_pos_left _ (by decide)
    rw [hact', mul64_of_lt (Nat.lt_of_le_of_lt hle hbytes.2),
      mul64_of_lt (by rw [Nat.mul_comm]; exact hbytes.2), Nat.mul_comm]
  rw [hmd, hd, hact']
  generalize hs₁ : ({ s with cursor := 0, inputs := some { env.batch with
    metadataSize := inputMetadataEntrySize * nActors,
    dataSize := inputFragmentSize * (nActors * buf.mem.word64 8) } } : InputParser) = s₁
  have hroom₁ : s₁.RoomOk := by subst hs₁; exact h
  have hn₁ : s₁.nInputs = s.nInputs := by subst hs₁; rfl
  have hrec₁ : s₁.isReceivingInputs = s.isReceivingInputs := by subst hs₁; rfl
  cases hgrow : s₁.growBuffers env nActors (buf.mem.word64 8) (inputMetadataEntrySize * nActors)
    (inputFragmentSize * (nActors * buf.mem.word64 8)) with
  | mk s₂ ok =>
    obtain ⟨hroom, hn, hrec, hok⟩ := growBuffers_spec env nActors _ hroom₁ hgrow
    cases ok with
    | false =>
      exact .inl ⟨show (-enomem : Int) < 0 by decide, hroom, hn.trans hn₁, hrec.trans hrec₁⟩
    | true =>
      refine .inr ⟨{ s₂ with
        inputs := some ⟨inputMetadataEntrySize * nActors,
          inputFragmentSize * (nActors * buf.mem.word64 8), .allocated, .allocated⟩
        nInputs := buf.mem.word64 8
        stored := fun _ => false }, rfl, hroom, rfl, rfl, rfl, hok rfl, hfits⟩

/-- An accepted header is the begin of a batch. -/
theorem Filling.start {a : Nat} {s' : InputParser}
    (hin : s'.inputs = some ⟨inputMetadataEntrySize * a, inputFragmentSize * (a * s'.nInputs),
      .allocated, .allocated⟩)
    (hcap : ∃ c, s'.allocatedData = some c ∧ inputFragmentSize * (a * s'.nInputs) ≤ c)
    (hfits : batchHeaderSize + batchBytes a s'.nInputs < 2 ^ 64) :
    Filling a { s' with cursor := toU64 16, isReceivingInputs := true } := by
  refine ⟨hin, hcap, hfits, rfl, show batchHeaderSize ≤ toU64 16 by decide, ?_⟩
  intro p hp
  have h16 : toU64 16 = batchHeaderSize := by decide
  have hp' : p < toU64 16 - (batchHeaderSize + inputMetadataEntrySize * a) := hp
  omega

theorem parseInputBuffer_header (env : InputEnv) (nActors : Nat) (h : s.RoomOk) (buf : WriteBuf)
    (hrec : s.isReceivingInputs = false) (hwrap : ¬ WrappingBatch nActors buf) :
    HeaderOutcome nActors buf s (parseInputBuffer env nActors s buf) := by
  unfold parseInputBuffer
  rw [if_pos hrec]
  rcases startBatchInputParsing_room env nActors h buf hwrap with
    ⟨hneg, hroom, hn, hrec'⟩ | ⟨s', heq, hroom, hact, hn, hin, hcap, hfits⟩
  · dsimp only
    rw [if_pos (by omega)]
    exact .rejected (show (-1 : Int) < 0 by decide) rfl hroom hn (hrec'.trans hrec)
  · rw [heq]
    dsimp only
    rw [if_neg (by decide)]
    have hfill := Filling.start hin hcap hfits
    obtain ⟨hbatch, hret, hn', hfin⟩ := hfill.finish 16
    have h16 : Int.toNat 16 = 16 := rfl
    rw [h16]
    refine .accepted ?_ (finishInputs_room ?_ 16) hact (hn'.trans hn) hbatch hfin
    · rw [hret]
      decide
    · exact hroom

/-- What a call after the header stores: `k` bytes, all of them metadata or all of them data. -/
structure Advances (a : Nat) (bs : List UInt8) (s s' : InputParser) (k : Nat) : Prop where
  cursor : s'.cursor = s.cursor + k
  metadata : s.cursor < batchHeaderSize + inputMetadataEntrySize * a →
    k = min (batchHeaderSize + inputMetadataEntrySize * a - s.cursor) bs.length ∧ s'.data = s.data
  data : batchHeaderSize + inputMetadataEntrySize * a ≤ s.cursor →
    k = min (batchHeaderSize + batchBytes a s.nInputs - s.cursor) bs.length ∧
      s'.data = (copyLoop s.data (s.cursor - (batchHeaderSize + inputMetadataEntrySize * a))
        (inputFragmentSize * (a * s.nInputs)) bs).1

/-- The two phases after the header, with the wrapping arithmetic resolved. -/
theorem BatchOf.more {a : Nat} (h : BatchOf a s) (hrec : s.isReceivingInputs = true)
    (env : InputEnv) (nActors : Nat) (buf : WriteBuf) :
    ∃ s' k, parseInputBuffer env nActors s buf = finishInputs s' k ∧ Filling a s' ∧
      s'.nInputs = s.nInputs ∧ (s.RoomOk → s'.RoomOk) ∧ Advances a buf.data s s' k := by
  obtain ⟨hlo, hhi, hst⟩ := h.receiving hrec
  have hfits := h.fits
  have hmd : s.batch.metadataSize = inputMetadataEntrySize * a := by
    unfold InputParser.batch
    rw [h.inputs]
    rfl
  have hd : s.batch.dataSize = inputFragmentSize * (a * s.nInputs) := by
    unfold InputParser.batch
    rw [h.inputs]
    rfl
  unfold batchBytes at hfits hhi
  have hend : add64 batchHeaderSize (inputMetadataEntrySize * a) =
      batchHeaderSize + inputMetadataEntrySize * a := add64_of_lt (by omega)
  unfold parseInputBuffer
  rw [if_neg (by simp [hrec]), hmd, hd, hend]
  split
  · rename_i hlt
    have hsub : sub64 s.cursor batchHeaderSize = s.cursor - batchHeaderSize :=
      sub64_of_le (by omega) hlo
    dsimp only
    rw [hsub]
    generalize hk : copyLoop s.metadata (s.cursor - batchHeaderSize) (inputMetadataEntrySize * a)
      buf.data = r
    have hlen : r.2 = min (inputMetadataEntrySize * a - (s.cursor - batchHeaderSize))
        buf.data.length := by
      rw [← hk, copyLoop_snd]
    have hle := Nat.min_le_left (inputMetadataEntrySize * a - (s.cursor - batchHeaderSize))
      buf.data.length
    have hcur : add64 (s.cursor - batchHeaderSize + r.2) batchHeaderSize = s.cursor + r.2 := by
      rw [add64_of_lt (by omega)]
      omega
    rw [hcur]
    refine ⟨_, _, rfl, ⟨h.inputs, h.room, h.fits, hrec, ?_, ?_⟩, rfl, fun hr => hr, rfl,
      fun _ => ⟨by omega, rfl⟩, fun hge => absurd hlt (by omega)⟩
    · dsimp only
      omega
    · intro p hp
      dsimp only at hp
      omega
  · rename_i hge
    have hsub : sub64 (sub64 s.cursor (inputMetadataEntrySize * a)) batchHeaderSize =
        s.cursor - (batchHeaderSize + inputMetadataEntrySize * a) := by
      have h₁ : sub64 s.cursor (inputMetadataEntrySize * a) =
          s.cursor - inputMetadataEntrySize * a := sub64_of_le (by omega) (by omega)
      rw [h₁, sub64_of_le (by omega) (by omega)]
      omega
    dsimp only
    rw [hsub]
    generalize hk : copyLoop s.data (s.cursor - (batchHeaderSize + inputMetadataEntrySize * a))
      (inputFragmentSize * (a * s.nInputs)) buf.data = r
    have hlen : r.2 = min (inputFragmentSize * (a * s.nInputs) -
        (s.cursor - (batchHeaderSize + inputMetadataEntrySize * a))) buf.data.length := by
      rw [← hk, copyLoop_snd]
    have hle := Nat.min_le_left (inputFragmentSize * (a * s.nInputs) -
      (s.cursor - (batchHeaderSize + inputMetadataEntrySize * a))) buf.data.length
    have hcur : add64 (add64 (s.cursor - (batchHeaderSize + inputMetadataEntrySize * a) + r.2)
        (inputMetadataEntrySize * a)) batchHeaderSize = s.cursor + r.2 := by
      have h₁ : add64 (s.cursor - (batchHeaderSize + inputMetadataEntrySize * a) + r.2)
          (inputMetadataEntrySize * a) = s.cursor - batchHeaderSize + r.2 := by
        rw [add64_of_lt (by omega)]
        omega
      rw [h₁, add64_of_lt (by omega)]
      omega
    rw [hcur]
    refine ⟨_, _, rfl, ⟨h.inputs, h.room, h.fits, hrec, ?_, ?_⟩, rfl, fun hr => hr, rfl,
      fun hlt => absurd hlt hge, fun _ => ⟨by unfold batchBytes; omega, by rw [hk]⟩⟩
    · dsimp only
      omega
    · intro p hp
      dsimp only at hp ⊢
      by_cases hold : p < s.cursor - (batchHeaderSize + inputMetadataEntrySize * a)
      · rw [hst p hold, Bool.true_or]
      · simp only [Bool.or_eq_true, Bool.and_eq_true, decide_eq_true_eq]
        right
        omega

/-- The next part of a batch. -/
theorem parseInputBuffer_more {a : Nat} (h : BatchOf a s) (hroom : s.RoomOk)
    (hrec : s.isReceivingInputs = true) (env : InputEnv) (nActors : Nat) (buf : WriteBuf) :
    BatchOf a (parseInputBuffer env nActors s buf).1 ∧
      (parseInputBuffer env nActors s buf).1.RoomOk ∧
      0 ≤ (parseInputBuffer env nActors s buf).2.ret ∧
      (parseInputBuffer env nActors s buf).1.nInputs = s.nInputs ∧
      ((parseInputBuffer env nActors s buf).2.finished = true ↔
        (parseInputBuffer env nActors s buf).1.isReceivingInputs = false) := by
  obtain ⟨s', k, heq, hfill, hn, hr, -⟩ := h.more hrec env nActors buf
  obtain ⟨hbatch, hret, hn', hfin⟩ := hfill.finish k
  rw [heq]
  refine ⟨hbatch, finishInputs_room (hr hroom) k, ?_, hn'.trans hn, hfin⟩
  rw [hret]
  exact Int.natCast_nonneg k

end Start

end Rvzr.Km
