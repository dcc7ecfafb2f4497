import Rvzr.Km.InputParser

/-!
# The sizes that the headers give

The two parsers of the module compute the sizes of their tables from the counts in a header, in
64-bit arithmetic, and the test case parser keeps the bounds of its phases in `int`s. The number of
inputs is compared with its limit as an `int`, and no limit is set to the number of actors. What
follows is which of the accepted headers have exact sizes (`headerSizes_exact_iff`).
-/

namespace Rvzr.Km

open Rvzr.Lib

/-! ### Bounds of the phases -/

namespace TcParser

/-- `int actor_table_end` in `parse_test_case_buffer`. -/
def intActorTableEnd (s : TcParser) : Int := toInt32 (add64 tcHeaderSize s.actorTableSize)

/-- `int symbol_table_end`. -/
def intSymbolTableEnd (s : TcParser) : Int :=
  toInt32 (add64 (toU64 s.intActorTableEnd) s.symbolTableSize)

/-- `int metadata_end`. -/
def intMetadataEnd (s : TcParser) : Int :=
  toInt32 (add64 (toU64 s.intSymbolTableEnd) s.metadataSize)

variable (s : TcParser)

theorem intActorTableEnd_eq : s.intActorTableEnd = toInt32 (tcHeaderSize + s.actorTableSize) := by
  exact toInt32_congr (Nat.mod_mod_of_dvd _ (by decide))

theorem intSymbolTableEnd_eq :
    s.intSymbolTableEnd = toInt32 (tcHeaderSize + s.actorTableSize + s.symbolTableSize) := by
  rw [intSymbolTableEnd, intActorTableEnd_eq, toU64_toInt32, toInt32_add_viaInt]

theorem intMetadataEnd_eq : s.intMetadataEnd =
    toInt32 (tcHeaderSize + s.actorTableSize + s.symbolTableSize + s.metadataSize) := by
  rw [intMetadataEnd, intSymbolTableEnd_eq, toU64_toInt32, toInt32_add_viaInt]

/-- The parser compares its cursor with these `int`s as 64-bit values. -/
theorem toU64_phaseEnds : toU64 s.intActorTableEnd = s.actorTableEnd ∧
    toU64 s.intSymbolTableEnd = s.symbolTableEnd ∧ toU64 s.intMetadataEnd = s.metadataEnd := by
  rw [intActorTableEnd_eq, intSymbolTableEnd_eq, intMetadataEnd_eq, toU64_toInt32, toU64_toInt32,
    toU64_toInt32]
  exact ⟨rfl, rfl, rfl⟩

end TcParser

/-! ### Exact sizes -/

/-- The count of a batch is within its limit, and its sizes are those of its tables. -/
structure InputSizesExact (buf : WriteBuf) (s : InputParser) : Prop where
  nInputs : (buf.mem.word64 8 : Int) ≤ maxInputs
  metadata : s.batch.metadataSize = buf.mem.word64 0 * inputMetadataEntrySize
  data : s.batch.dataSize = buf.mem.word64 0 * buf.mem.word64 8 * inputFragmentSize

/-- The same for a test case, and its phases end where its tables do. -/
structure TcSizesExact (buf : WriteBuf) (s : TcParser) : Prop where
  nSymbols : buf.mem.word64 8 ≤ maxSymbols
  actorTable : s.actorTableSize = buf.mem.word64 0 * actorMetadataSize
  symbolTable : s.symbolTableSize = buf.mem.word64 8 * tcSymbolEntrySize
  metadata : s.metadataSize = buf.mem.word64 0 * tcSectionMetadataEntrySize
  sections : s.sectionsSize = buf.mem.word64 0 * maxSectionSize
  actorTableEnd : s.intActorTableEnd = (tcHeaderSize + buf.mem.word64 0 * actorMetadataSize : Nat)
  symbolTableEnd : s.intSymbolTableEnd = (tcHeaderSize + buf.mem.word64 0 * actorMetadataSize +
    buf.mem.word64 8 * tcSymbolEntrySize : Nat)
  metadataEnd : s.intMetadataEnd = (tcHeaderSize + buf.mem.word64 0 * actorMetadataSize +
    buf.mem.word64 8 * tcSymbolEntrySize + buf.mem.word64 0 * tcSectionMetadataEntrySize : Nat)

/-- The number of inputs is an `int`, and so many actors have data below `2 ^ 64` bytes. -/
def SmallBatch (buf : WriteBuf) : Prop :=
  buf.mem.word64 8 < 2 ^ 31 ∧
    buf.mem.word64 0 ≤ (2 ^ 64 - 1) / (inputFragmentSize * buf.mem.word64 8)

/-- The header and the three tables of a test case are shorter than `2 ^ 31` bytes. -/
def SmallTables (buf : WriteBuf) : Prop :=
  16 + 72 * buf.mem.word64 0 + 32 * buf.mem.word64 8 < 2 ^ 31

/-! ### Accepted headers -/

/-- The sizes of a batch whose header was accepted. -/
theorem startBatchInputParsing_sizes {env : InputEnv} {nActors : Nat} {s s' : InputParser}
    {buf : WriteBuf} (h : startBatchInputParsing env nActors s buf = (s', 16)) :
    buf.mem.word64 8 ≠ 0 ∧ toInt32 (buf.mem.word64 8) ≤ maxInputs ∧
      s'.batch.metadataSize = mul64 (buf.mem.word64 0) inputMetadataEntrySize ∧
      s'.batch.dataSize =
        mul64 (mul64 (buf.mem.word64 0) (buf.mem.word64 8)) inputFragmentSize := by
  have hio : ¬ (-eio : Int) = 16 := by decide
  have hmem : ¬ (-enomem : Int) = 16 := by decide
  unfold startBatchInputParsing at h
  dsimp only at h
  split at h
  · exact absurd (congrArg Prod.snd h) hmem
  split at h
  · exact absurd (congrArg Prod.snd h) hio
  split at h
  · exact absurd (congrArg Prod.snd h) hio
  split at h
  · exact absurd (congrArg Prod.snd h) hio
  rename_i hzero hmax
  split at h
  · exact absurd (congrArg Prod.snd h) hmem
  · obtain ⟨rfl, -⟩ := Prod.mk.inj h
    exact ⟨hzero, not_not.1 hmax, rfl, rfl⟩

/-- The sizes in `test_case`. -/
def TcParser.sizes (s : TcParser) : Nat × Nat × Nat × Nat :=
  (s.actorTableSize, s.symbolTableSize, s.metadataSize, s.sectionsSize)

theorem allocSymbolTable_sizes (env : CallEnv) (k : Nat) (s : TcParser) :
    (s.allocSymbolTable env k).1.sizes = s.sizes := by
  unfold TcParser.allocSymbolTable
  split
  · split
    · rfl
    · rfl
  · rfl

theorem allocActorTables_sizes (env : CallEnv) (k : Nat) (s : TcParser) :
    (s.allocActorTables env k).1.sizes = s.sizes := by
  unfold TcParser.allocActorTables
  dsimp only
  split
  · split
    · split
      · split
        · rfl
        · rfl
      · rfl
    · rfl
  · rfl

/-- The sizes of a test case whose header was accepted. -/
theorem batchTcParsingStart_sizes {env : CallEnv} {s s' : TcParser} {buf : WriteBuf}
    (h : batchTcParsingStart env s buf = (s', 16)) :
    buf.mem.word64 8 ≤ maxSymbols ∧
      s'.sizes = (mul64 (buf.mem.word64 0) actorMetadataSize,
        mul64 (buf.mem.word64 8) tcSymbolEntrySize,
        mul64 (buf.mem.word64 0) tcSectionMetadataEntrySize,
        mul64 (buf.mem.word64 0) maxSectionSize) := by
  have hio : ¬ (-eio : Int) = 16 := by decide
  have hmem : ¬ (-enomem : Int) = 16 := by decide
  unfold batchTcParsingStart at h
  dsimp only at h
  split at h
  · exact absurd (congrArg Prod.snd h) hmem
  split at h
  · exact absurd (congrArg Prod.snd h) hio
  split at h
  · exact absurd (congrArg Prod.snd h) hio
  rename_i hmax
  refine ⟨Nat.not_lt.1 hmax, ?_⟩
  generalize hs₁ : TcParser.setSizes _ (buf.mem.word64 0) (buf.mem.word64 8) = s₁ at h
  have hsizes : s₁.sizes = (mul64 (buf.mem.word64 0) actorMetadataSize,
      mul64 (buf.mem.word64 8) tcSymbolEntrySize,
      mul64 (buf.mem.word64 0) tcSectionMetadataEntrySize,
      mul64 (buf.mem.word64 0) maxSectionSize) := by
    rw [← hs₁]
    rfl
  have hsymbols := allocSymbolTable_sizes env (buf.mem.word64 8) s₁
  cases h₁ : s₁.allocSymbolTable env (buf.mem.word64 8) with
  | mk s₂ ok₂ =>
    rw [h₁] at h hsymbols
    cases ok₂ with
    | false => exact absurd (congrArg Prod.snd h) hmem
    | true =>
      have hactors := allocActorTables_sizes env (buf.mem.word64 0) s₂
      dsimp only at h hsymbols
      cases h₂ : s₂.allocActorTables env (buf.mem.word64 0) with
      | mk s₃ ok₃ =>
        rw [h₂] at h hactors
        cases ok₃ with
        | false => exact absurd (congrArg Prod.snd h) hmem
        | true =>
          dsimp only at h hactors
          have hfinal : s'.sizes = s₃.sizes := by
            rw [← (Prod.mk.inj h).1]
            unfold TcParser.sizes
            rfl
          exact ((hfinal.trans hactors).trans hsymbols).trans hsizes

/-! ### Which headers have exact sizes -/

section Exact

variable {buf : WriteBuf}

theorem inputSizesExact_iff {env : InputEnv} {nActors : Nat} {s s' : InputParser}
    (h : startBatchInputParsing env nActors s buf = (s', 16)) :
    InputSizesExact buf s' ↔ SmallBatch buf := by
  obtain ⟨hzero, hmax, hmetadata, hdata⟩ := startBatchInputParsing_sizes h
  have hpos : 0 < inputFragmentSize * buf.mem.word64 8 :=
    Nat.mul_pos (by decide) (Nat.pos_of_ne_zero hzero)
  have hfits : buf.mem.word64 0 ≤ (2 ^ 64 - 1) / (inputFragmentSize * buf.mem.word64 8) ↔
      buf.mem.word64 0 * buf.mem.word64 8 * inputFragmentSize < 2 ^ 64 := by
    rw [Nat.le_div_iff_mul_le hpos, Nat.mul_comm inputFragmentSize, ← Nat.mul_assoc]
    omega
  rw [SmallBatch, hfits]
  constructor
  · rintro ⟨hn, -, hexact⟩
    rw [maxInputs] at hn
    rw [hdata] at hexact
    refine ⟨by omega, ?_⟩
    rw [← hexact]
    exact Nat.mod_lt _ (by decide)
  · rintro ⟨hn, hlt⟩
    have hactors : buf.mem.word64 0 ≤ buf.mem.word64 0 * buf.mem.word64 8 :=
      Nat.le_mul_of_pos_right _ (Nat.pos_of_ne_zero hzero)
    rw [inputFragmentSize] at hlt
    refine ⟨?_, ?_, ?_⟩
    · rwa [toInt32_of_lt hn] at hmax
    · rw [hmetadata, inputMetadataEntrySize, mul64_of_lt (by omega)]
    · rw [hdata, inputFragmentSize, mul64_of_lt (a := buf.mem.word64 0) (by omega),
        mul64_of_lt hlt]

theorem tcSizesExact_iff {env : CallEnv} {s s' : TcParser}
    (h : batchTcParsingStart env s buf = (s', 16)) :
    TcSizesExact buf s' ↔ SmallTables buf := by
  obtain ⟨hmax, hsizes⟩ := batchTcParsingStart_sizes h
  simp only [TcParser.sizes, Prod.mk.injEq] at hsizes
  obtain ⟨hactors, hsymbols, hmetadata, hsections⟩ := hsizes
  rw [SmallTables]
  constructor
  · intro hexact
    have hlt := toInt32_lt (tcHeaderSize + s'.actorTableSize + s'.symbolTableSize + s'.metadataSize)
    rw [← TcParser.intMetadataEnd_eq, hexact.metadataEnd, tcHeaderSize, actorMetadataSize,
      tcSymbolEntrySize, tcSectionMetadataEntrySize] at hlt
    omega
  · intro hlt
    rw [mul64_of_lt (by rw [actorMetadataSize]; omega)] at hactors
    rw [mul64_of_lt (by rw [tcSymbolEntrySize]; omega)] at hsymbols
    rw [mul64_of_lt (by rw [tcSectionMetadataEntrySize]; omega)] at hmetadata
    rw [mul64_of_lt (by rw [maxSectionSize]; omega)] at hsections
    refine ⟨hmax, hactors, hsymbols, hmetadata, hsections, ?_, ?_, ?_⟩
    · rw [TcParser.intActorTableEnd_eq, hactors]
      exact toInt32_of_lt (by rw [tcHeaderSize, actorMetadataSize]; omega)
    · rw [TcParser.intSymbolTableEnd_eq, hactors, hsymbols]
      exact toInt32_of_lt (by rw [tcHeaderSize, actorMetadataSize, tcSymbolEntrySize]; omega)
    · rw [TcParser.intMetadataEnd_eq, hactors, hsymbols, hmetadata]
      refine toInt32_of_lt ?_
      rw [tcHeaderSize, actorMetadataSize, tcSymbolEntrySize, tcSectionMetadataEntrySize]
      omega

end Exact

/-- Among the accepted headers, the sizes are exact for the small batches and the small tables. -/
theorem headerSizes_exact_iff (buf : WriteBuf) :
    (∀ env nActors s s', startBatchInputParsing env nActors s buf = (s', 16) →
      (InputSizesExact buf s' ↔ SmallBatch buf)) ∧
    ∀ env s s', batchTcParsingStart env s buf = (s', 16) →
      (TcSizesExact buf s' ↔ SmallTables buf) :=
  ⟨fun _ _ _ _ h => inputSizesExact_iff h, fun _ _ _ h => tcSizesExact_iff h⟩

section Samples

/-- The header of a file with these two counts. -/
def sampleHeader (nActors count : Nat) : WriteBuf := ⟨encodeWords [nActors, count], fun _ => 0⟩

def sampleHeaderInputEnv : InputEnv where
  kmalloc n := n ≤ 2 ^ 22
  vmalloc n := decide (0 < n) && decide (n ≤ 2 ^ 30)
  garbage := fun _ => 0
  batch := ⟨0, 0, .stray, .stray⟩

def sampleHeaderEnv : CallEnv where
  kmalloc n := n ≤ 2 ^ 22
  vmalloc n := decide (0 < n) && decide (n ≤ 2 ^ 30)
  garbage := fun _ => 0
  uninit := false

/-- Counts with exact sizes, and counts whose sizes wrap to those of one entry. -/
def sampleInputsStart (count : Nat) : InputParser × Int :=
  startBatchInputParsing sampleHeaderInputEnv 1 (InputParser.init fun _ => 0)
    (sampleHeader 1 count)

def sampleTcStart (nActors : Nat) : TcParser × Int :=
  batchTcParsingStart sampleHeaderEnv (TcParser.init fun _ => 0) (sampleHeader nActors 0)

theorem sampleInputsStart_accepted : (sampleInputsStart 2).2 = 16 ∧
    (sampleInputsStart (2 ^ 52 + 1)).2 = 16 := by decide +kernel

theorem sampleTcStart_accepted : (sampleTcStart 1).2 = 16 ∧
    (sampleTcStart (2 ^ 61 + 1)).2 = 16 := by decide +kernel

theorem headerSizes_exact_iff_sample :
    InputSizesExact (sampleHeader 1 2) (sampleInputsStart 2).1 ∧
      TcSizesExact (sampleHeader 1 0) (sampleTcStart 1).1 :=
  ⟨((headerSizes_exact_iff _).1 _ _ _ _ (Prod.ext rfl sampleInputsStart_accepted.1)).2
      (by unfold SmallBatch; decide +kernel),
    ((headerSizes_exact_iff _).2 _ _ _ (Prod.ext rfl sampleTcStart_accepted.1)).2
      (by unfold SmallTables; decide +kernel)⟩

/-- A batch of `2 ^ 52 + 1` inputs and a test case for `2 ^ 61 + 1` actors are accepted, with the
sizes of one input and of one actor. -/
theorem headerSizes_wrap :
    (sampleInputsStart (2 ^ 52 + 1)).2 = 16 ∧
      (sampleInputsStart (2 ^ 52 + 1)).1.batch.dataSize = inputFragmentSize ∧
      ¬ InputSizesExact (sampleHeader 1 (2 ^ 52 + 1)) (sampleInputsStart (2 ^ 52 + 1)).1 ∧
      (sampleTcStart (2 ^ 61 + 1)).2 = 16 ∧
      (sampleTcStart (2 ^ 61 + 1)).1.actorTableSize = actorMetadataSize ∧
      ¬ TcSizesExact (sampleHeader (2 ^ 61 + 1) 0) (sampleTcStart (2 ^ 61 + 1)).1 := by
  have hinputs : (sampleHeader 1 (2 ^ 52 + 1)).mem.word64 8 = 2 ^ 52 + 1 := by decide +kernel
  have hactors : (sampleHeader (2 ^ 61 + 1) 0).mem.word64 0 = 2 ^ 61 + 1 := by decide +kernel
  refine ⟨sampleInputsStart_accepted.2, by decide +kernel, fun hexact => ?_,
    sampleTcStart_accepted.2, by decide +kernel, fun hexact => ?_⟩
  · have hle := hexact.nInputs
    rw [hinputs] at hle
    exact absurd hle (by decide)
  · have hsize := hexact.actorTable
    rw [hactors, show (sampleTcStart (2 ^ 61 + 1)).1.actorTableSize = 48 by decide +kernel] at hsize
    exact absurd hsize (by decide)

end Samples

end Rvzr.Km
