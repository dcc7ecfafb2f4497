import Rvzr.Analyser.Traces
import Rvzr.Lib.Blocks

/-!
# The tracer with cache-line overflows

`TruncatedCTWithOverflowsTracer` (`rvzr/model_unicorn/tracer.py`) records the 64-byte line of every
access and of every instruction, and a second line when it takes the access to overflow into the
next one. The second line is that of the byte *behind* the access, and the test for data compares
the offsets within a line instead of the lines. What is recorded is the set of touched lines exactly
for the accesses that stay clear of line boundaries (`observedLines_exact_iff`).
-/

namespace Rvzr.Unicorn

open Rvzr.Lib Rvzr.Analyser

/-- The state of a tracer, with the calls of `taint` it has made. -/
structure Tracer where
  trace : List CTraceEntry
  enableTracing : Bool
  taints : List CTraceEntryType

/-- What the hooks of the model report. -/
inductive Observation where
  | memAccess (address size : Nat)
  | instruction (pc size : Nat)
  deriving DecidableEq, Repr

/-- `(address >> 6) << 6`. -/
def cacheLine (address : Nat) : Nat := (address >>> 6) <<< 6

namespace Tracer

/-- `_add_mem_address_to_trace`. -/
def addMemAddressToTrace (t : Tracer) (address : Nat) : Tracer :=
  if t.enableTracing then
    { t with trace := t.trace ++ [⟨.mem, address⟩], taints := t.taints ++ [.mem] }
  else t

/-- `_add_pc_to_trace`. -/
def addPcToTrace (t : Tracer) (address : Nat) : Tracer :=
  if t.enableTracing then
    { t with trace := t.trace ++ [⟨.pc, address⟩], taints := t.taints ++ [.pc] }
  else t

/-- `TruncatedCTWithOverflowsTracer.observe_mem_access`; it reads neither the type of the access nor
the value. -/
def observeMemAccess (t : Tracer) (address size : Nat) : Tracer :=
  let t := t.addMemAddressToTrace (cacheLine address)
  if (address + size) % 64 ≠ address % 64 then
    t.addMemAddressToTrace (cacheLine (address + size))
  else t

/-- `TruncatedCTWithOverflowsTracer.observe_instruction`. -/
def observeInstruction (t : Tracer) (pc size : Nat) : Tracer :=
  let t := t.addPcToTrace (cacheLine pc)
  if (pc + size) / 64 ≠ pc / 64 then t.addPcToTrace (cacheLine (pc + size)) else t

def observe (t : Tracer) : Observation → Tracer
  | .memAccess address size => t.observeMemAccess address size
  | .instruction pc size => t.observeInstruction pc size

end Tracer

namespace Observation

/-- The type of the entries for an observation. -/
def entryType : Observation → CTraceEntryType
  | .memAccess .. => .mem
  | .instruction .. => .pc

/-- The 64-byte lines that hold at least one of the bytes. -/
def touchedLines : Observation → Set Nat
  | .memAccess address size => touched 64 address size
  | .instruction pc size => touched 64 pc size

/-- An access has 1 to 64 bytes, and an instruction at least one. -/
def Sized : Observation → Prop
  | .memAccess _ size => 1 ≤ size ∧ size ≤ 64
  | .instruction _ size => 1 ≤ size

/-- Neither test goes wrong: an access of a whole line is aligned, a shorter one does not end at the
start of a line, and an instruction neither ends there nor spans more than two lines. -/
def AvoidsBoundary : Observation → Prop
  | .memAccess address size => if size = 64 then 64 ∣ address else ¬ 64 ∣ address + size
  | .instruction pc size => ¬ 64 ∣ pc + size ∧ (pc + size) / 64 ≤ pc / 64 + 1

end Observation

/-- The lines recorded for each observation of a run. -/
def observedLines : Tracer → List Observation → List (Set Nat)
  | _, [] => []
  | t, o :: os =>
    { l | ⟨o.entryType, l⟩ ∈ (t.observe o).trace.drop t.trace.length } ::
      observedLines (t.observe o) os

section Lines

theorem cacheLine_eq (address : Nat) : cacheLine address = blockOf 64 address := by
  rw [cacheLine, Nat.shiftLeft_eq, Nat.shiftRight_eq_div_pow, blockOf]

variable {t : Tracer}

/-- A memory access of a traced run records one line or two. -/
theorem observeMemAccess_trace (ht : t.enableTracing = true) (address size : Nat) :
    (t.observeMemAccess address size).enableTracing = true ∧
      (t.observeMemAccess address size).trace.drop t.trace.length =
        ⟨.mem, blockOf 64 address⟩ :: if (address + size) % 64 ≠ address % 64 then
          [⟨.mem, blockOf 64 (address + size)⟩] else [] := by
  unfold Tracer.observeMemAccess Tracer.addMemAddressToTrace
  rw [cacheLine_eq, cacheLine_eq, if_pos ht]
  split
  · rw [if_pos ht]
    exact ⟨ht, by rw [List.append_assoc, List.drop_left]; rfl⟩
  · exact ⟨ht, List.drop_left⟩

theorem observeInstruction_trace (ht : t.enableTracing = true) (pc size : Nat) :
    (t.observeInstruction pc size).enableTracing = true ∧
      (t.observeInstruction pc size).trace.drop t.trace.length =
        ⟨.pc, blockOf 64 pc⟩ :: if (pc + size) / 64 ≠ pc / 64 then
          [⟨.pc, blockOf 64 (pc + size)⟩] else [] := by
  unfold Tracer.observeInstruction Tracer.addPcToTrace
  rw [cacheLine_eq, cacheLine_eq, if_pos ht]
  split
  · rw [if_pos ht]
    exact ⟨ht, by rw [List.append_assoc, List.drop_left]; rfl⟩
  · exact ⟨ht, List.drop_left⟩

/-- The lines recorded for one observation are those it touches exactly when it avoids the
boundaries. -/
theorem observe_exact_iff (ht : t.enableTracing = true) {o : Observation} (ho : o.Sized) :
    { l : Nat | ⟨o.entryType, l⟩ ∈ (t.observe o).trace.drop t.trace.length } = o.touchedLines ↔
      o.AvoidsBoundary := by
  cases o with
  | memAccess address size =>
    obtain ⟨hpos, hle⟩ := ho
    show { l : Nat | (⟨.mem, l⟩ : CTraceEntry) ∈
      (t.observeMemAccess address size).trace.drop t.trace.length } = touched 64 address size ↔
        if size = 64 then 64 ∣ address else ¬ 64 ∣ address + size
    rw [(observeMemAccess_trace ht address size).2]
    by_cases hline : size = 64
    · -- the offsets are the same, so the second line is never recorded
      subst hline
      rw [if_neg (by omega), if_pos rfl, ← single_eq_touched_iff (by decide)]
      have hset : { l : Nat | (⟨.mem, l⟩ : CTraceEntry) ∈
          [(⟨.mem, blockOf 64 address⟩ : CTraceEntry)] } = {blockOf 64 address} := by
        ext l
        simp
      rw [hset]
    · -- the offsets always differ, so the line behind the access is recorded
      rw [if_pos (by omega), if_neg hline]
      have hset : { l : Nat | (⟨.mem, l⟩ : CTraceEntry) ∈ [(⟨.mem, blockOf 64 address⟩ : CTraceEntry),
          ⟨.mem, blockOf 64 (address + size)⟩] } =
          {blockOf 64 address, blockOf 64 (address + size)} := by
        ext l
        simp
      rw [hset, pair_eq_touched_iff (by decide) hpos]
      exact and_iff_left (blockOf_end_le (by decide) hle)
  | instruction pc size =>
    show { l : Nat | (⟨.pc, l⟩ : CTraceEntry) ∈
      (t.observeInstruction pc size).trace.drop t.trace.length } = touched 64 pc size ↔
        ¬ 64 ∣ pc + size ∧ (pc + size) / 64 ≤ pc / 64 + 1
    rw [(observeInstruction_trace ht pc size).2]
    have hset : { l : Nat | (⟨.pc, l⟩ : CTraceEntry) ∈ (⟨.pc, blockOf 64 pc⟩ :: if (pc + size) / 64 ≠
        pc / 64 then [⟨.pc, blockOf 64 (pc + size)⟩] else [] : List CTraceEntry) } =
        {blockOf 64 pc, blockOf 64 (pc + size)} := by
      ext l
      split
      · simp
      · rename_i hsame
        have hsame : blockOf 64 (pc + size) = blockOf 64 pc := by
          rw [blockOf, blockOf, not_ne_iff.mp hsame]
        simp [hsame]
    rw [hset, pair_eq_touched_iff (by decide) ho]
    have hgap : blockOf 64 (pc + size) ≤ blockOf 64 pc + 64 ↔ (pc + size) / 64 ≤ pc / 64 + 1 := by
      unfold blockOf
      omega
    rw [hgap]

theorem observe_enableTracing (ht : t.enableTracing = true) (o : Observation) :
    (t.observe o).enableTracing = true := by
  cases o with
  | memAccess address size => exact (observeMemAccess_trace ht address size).1
  | instruction pc size => exact (observeInstruction_trace ht pc size).1

theorem observedLines_eq_iff {os : List Observation} (ht : t.enableTracing = true)
    (hos : ∀ o ∈ os, o.Sized) :
    observedLines t os = os.map Observation.touchedLines ↔ ∀ o ∈ os, o.AvoidsBoundary := by
  induction os generalizing t with
  | nil => simp [observedLines]
  | cons o os ih =>
    rw [List.forall_mem_cons] at hos
    rw [observedLines, List.map_cons, List.cons.injEq, observe_exact_iff ht hos.1,
      ih (observe_enableTracing ht o) hos.2, List.forall_mem_cons]

/-- In a run of accesses of 1 to 64 bytes and of instructions, the recorded lines are the touched
ones exactly when every access avoids the boundaries. Two such runs with the same touched lines
then have the same recorded lines. -/
theorem observedLines_exact_iff {os : List Observation} (ht : t.enableTracing = true)
    (hos : ∀ o ∈ os, o.Sized) :
    (observedLines t os = os.map Observation.touchedLines ↔ ∀ o ∈ os, o.AvoidsBoundary) ∧
      ∀ (t' : Tracer) (os' : List Observation), t'.enableTracing = true →
        (∀ o ∈ os', o.Sized) → (∀ o ∈ os ++ os', o.AvoidsBoundary) →
        os.map Observation.touchedLines = os'.map Observation.touchedLines →
        observedLines t os = observedLines t' os' := by
  refine ⟨observedLines_eq_iff ht hos, fun t' os' ht' hos' havoid hsame => ?_⟩
  rw [List.forall_mem_append] at havoid
  rw [(observedLines_eq_iff ht hos).mpr havoid.1, (observedLines_eq_iff ht' hos').mpr havoid.2,
    hsame]

end Lines

section Samples

/-- A tracer that has been switched on. -/
def sampleTracer : Tracer := ⟨[], true, []⟩

theorem observedLines_exact_iff_sample :
    observedLines sampleTracer [.memAccess 0x3c 8, .instruction 0x100 4] =
      [Observation.memAccess 0x3c 8, .instruction 0x100 4].map Observation.touchedLines := by
  refine (observedLines_exact_iff rfl ?_).1.mpr ?_
  · simp [Observation.Sized]
  · simp [Observation.AvoidsBoundary]

/-- A load of eight bytes up to the end of its line leaves the next line in the trace, a load of a
whole line that begins in the middle of one leaves only the first line, and two loads from one line
are told apart. -/
theorem observedLines_not_exact :
    observedLines sampleTracer [.memAccess 0x38 8] ≠
        [Observation.memAccess 0x38 8].map Observation.touchedLines ∧
      observedLines sampleTracer [.memAccess 0x20 64] ≠
        [Observation.memAccess 0x20 64].map Observation.touchedLines ∧
      [Observation.memAccess 0x38 8].map Observation.touchedLines =
        [Observation.memAccess 0x30 8].map Observation.touchedLines ∧
      observedLines sampleTracer [.memAccess 0x38 8] ≠
        observedLines sampleTracer [.memAccess 0x30 8] := by
  have hsized : ∀ a size, 1 ≤ size → size ≤ 64 →
      ∀ o ∈ [Observation.memAccess a size], o.Sized := by
    intro a size hpos hle o ho
    rw [List.mem_singleton.mp ho]
    exact ⟨hpos, hle⟩
  have hend := observedLines_eq_iff (t := sampleTracer) rfl (hsized 0x38 8 (by decide) (by decide))
  have hwhole := observedLines_eq_iff (t := sampleTracer) rfl
    (hsized 0x20 64 (by decide) (by decide))
  have hinside := observedLines_eq_iff (t := sampleTracer) rfl
    (hsized 0x30 8 (by decide) (by decide))
  have htouched : [Observation.memAccess 0x38 8].map Observation.touchedLines =
      [Observation.memAccess 0x30 8].map Observation.touchedLines := by
    refine congrArg (fun s => [s]) (Set.ext fun l => ?_)
    show l ∈ touched 64 0x38 8 ↔ l ∈ touched 64 0x30 8
    rw [mem_touched_iff (by decide), mem_touched_iff (by decide)]
    omega
  have hne : observedLines sampleTracer [.memAccess 0x38 8] ≠
      [Observation.memAccess 0x38 8].map Observation.touchedLines := by
    rw [Ne, hend]
    simp [Observation.AvoidsBoundary]
  refine ⟨hne, ?_, htouched, ?_⟩
  · rw [Ne, hwhole]
    simp [Observation.AvoidsBoundary]
  · rw [hinside.mpr (by simp [Observation.AvoidsBoundary]), ← htouched]
    exact hne

end Samples

end Rvzr.Unicorn
