import Rvzr.Km.RoundTrip

/-!
# A whole RCBF file for the kernel parser

`parse_test_case_buffer` is called with all bytes that are left until it has received the
tables, reports an error or the bytes are used up. The contents of the file are arbitrary: the
numbers in the header and the sizes of the sections decide whether the tables are received
(`receiveTables_iff`), and which bytes they hold.

The loop of the data phase copies a byte before it looks at the size. An empty section takes the
first byte of the section behind it, and `skipped` counts the bytes that are missing there.
-/

namespace Rvzr.Km

open Rvzr.Lib

/-- The bytes of a file in memory; addresses have at most 57 bits. -/
structure RcbfFile where
  bytes : List UInt8
  fits : bytes.length < 2 ^ 57

namespace RcbfFile

variable (f : RcbfFile)

/-- The bytes by their positions. -/
def mem : Mem := fun i => f.bytes.getD i 0

/-- The words of the header. Nothing below depends on how they are read. -/
@[irreducible] def nActors : Nat := f.mem.word64 0
@[irreducible] def nSymbols : Nat := f.mem.word64 8

/-- Where the tables and the sections begin. -/
def symbolTableAt : Nat := 16 + 48 * f.nActors
def metadataAt : Nat := f.symbolTableAt + 32 * f.nSymbols
def dataAt : Nat := f.metadataAt + 24 * f.nActors

/-- The size of section `i` in the metadata. -/
@[irreducible] def sectionSize (i : Nat) : Nat := f.mem.word64 (f.metadataAt + (24 * i + 8))

/-- Where section `i` begins. -/
def sectionAt : Nat → Nat
  | 0 => f.dataAt
  | i + 1 => sectionAt i + f.sectionSize i

/-- The number of bytes of section `i` that empty sections in front of it have taken. -/
def skipped : Nat → Nat
  | 0 => 0
  | i + 1 => if skipped i < f.sectionSize i then 0 else skipped i + 1 - f.sectionSize i

/-- The number of bytes that are copied for section `i`. -/
def copied (i : Nat) : Nat := max 1 (f.sectionSize i - f.skipped i)

theorem next_cursor (i : Nat) :
    f.sectionAt (i + 1) + f.skipped (i + 1) = f.sectionAt i + f.skipped i + f.copied i := by
  rw [sectionAt, skipped, copied]
  split
  · omega
  · omega

theorem cursor_le {i j : Nat} (h : i ≤ j) :
    f.sectionAt i + f.skipped i ≤ f.sectionAt j + f.skipped j := by
  induction j with
  | zero =>
    have hi : i = 0 := by omega
    rw [hi]
  | succ j ih =>
    by_cases hij : i = j + 1
    · rw [hij]
    · have := ih (by omega)
      rw [next_cursor]
      omega

theorem skipped_le (i : Nat) : f.skipped i ≤ i := by
  induction i with
  | zero => exact Nat.le_refl _
  | succ i ih =>
    rw [skipped]
    split
    · exact Nat.zero_le _
    · omega

theorem mem_drop (k i : Nat) : (f.bytes.drop k)[i]?.getD 0 = f.mem (k + i) := by
  rw [List.getElem?_drop]
  exact (List.getD_eq_getElem?_getD ..).symm

end RcbfFile

/-- What the kernel decides during one call, and what lies behind the buffer. -/
structure KernelCall where
  env : CallEnv
  beyond : Mem

/-- The parser is called with all remaining bytes of a file, from call `k` on. It has received
the tables when it says that it is finished, before the final check. -/
def receiveTables (calls : Nat → KernelCall) : Nat → Nat → TcParser → List UInt8 → Option TcParser
  | 0, _, _, _ => none
  | fuel + 1, k, s, rest =>
    if rest = [] then none
    else
      let r := parseTestCaseBuffer (calls k).env s ⟨rest, (calls k).beyond⟩
      if r.2.finished then some r.1
      else if r.2.ret ≤ 0 then none
      else receiveTables calls fuel (k + 1) r.1 (rest.drop r.2.consumed)

/-- A parser that has just been initialised is given a file. Every call takes a byte, so that
there are at most as many calls as bytes. -/
def kernelDecode (calls : Nat → KernelCall) (garbage : Mem) (f : RcbfFile) : Option TcParser :=
  receiveTables calls f.bytes.length 0 (TcParser.init garbage) f.bytes

/-- `KMALLOC_MAX_SIZE`. -/
def kmallocMaxSize : Nat := 2 ^ 22

/-- Memory is there, up to the limit of the allocator. -/
structure AmpleMemory (env : CallEnv) : Prop where
  kmalloc : ∀ n, env.kmalloc n = true ↔ n ≤ kmallocMaxSize
  vmalloc : ∀ n, env.vmalloc n = true

section Calls

variable {calls : Nat → KernelCall} {fuel k n : Nat} {s s' : TcParser} {rest : List UInt8}

theorem receiveTables_nil : receiveTables calls fuel k s [] = none := by
  cases fuel with
  | zero => rfl
  | succ fuel => rw [receiveTables, if_pos rfl]

/-- A call that asks for more. -/
theorem receiveTables_more (hrest : rest ≠ []) (hn : 0 < n)
    (h : parseTestCaseBuffer (calls k).env s ⟨rest, (calls k).beyond⟩ = (s', ⟨n, false, n⟩)) :
    receiveTables calls (fuel + 1) k s rest = receiveTables calls fuel (k + 1) s' (rest.drop n) := by
  rw [receiveTables, if_neg hrest, h]
  dsimp only
  rw [if_neg (by simp), if_neg (by omega)]

/-- A call that reports an error. -/
theorem receiveTables_error (hrest : rest ≠ []) {c : Nat}
    (h : (parseTestCaseBuffer (calls k).env s ⟨rest, (calls k).beyond⟩).2 = ⟨-1, false, c⟩) :
    receiveTables calls (fuel + 1) k s rest = none := by
  rw [receiveTables, if_neg hrest]
  dsimp only
  rw [h]
  dsimp only
  rw [if_neg (by simp), if_pos (by decide)]

/-- The last call. -/
theorem receiveTables_finished (hrest : rest ≠ [])
    (h : (parseTestCaseBuffer (calls k).env s ⟨rest, (calls k).beyond⟩).2.finished = true) :
    receiveTables calls (fuel + 1) k s rest =
      some (parseTestCaseBuffer (calls k).env s ⟨rest, (calls k).beyond⟩).1 := by
  rw [receiveTables, if_neg hrest]
  dsimp only
  rw [if_pos h]

end Calls

section Header

variable {env : CallEnv} {garbage : Mem} {buf : WriteBuf} {f : RcbfFile}

/-- What has to hold for the header to be accepted by a new parser. -/
theorem start_accepted {s' : TcParser}
    (h : batchTcParsingStart env (TcParser.init garbage) buf = (s', 16)) :
    buf.mem.word64 0 ≠ 0 ∧ buf.mem.word64 8 ≤ maxSymbols ∧ s'.nActors = buf.mem.word64 0 ∧
      s'.currSectionId = 0 ∧ env.kmalloc (mul64 (buf.mem.word64 0) actorMetadataSize) = true := by
  have hio : ¬ (-eio : Int) = 16 := by decide
  have hmem : ¬ (-enomem : Int) = 16 := by decide
  unfold batchTcParsingStart at h
  dsimp only at h
  split at h
  · exact absurd (congrArg Prod.snd h) hmem
  split at h
  · exact absurd (congrArg Prod.snd h) hio
  split at h
  · exact absurd (congrArg Prod.snd h) hio
  rename_i hzero hmax
  generalize hs₁ : TcParser.setSizes _ (buf.mem.word64 0) (buf.mem.word64 8) = s₁ at h
  have hsize : s₁.actorTableSize = mul64 (buf.mem.word64 0) actorMetadataSize := by
    rw [← hs₁]
    rfl
  have hid : s₁.currSectionId = 0 ∧ s₁.highestNActors = 0 := by
    rw [← hs₁]
    exact ⟨rfl, rfl⟩
  have hsym : (s₁.allocSymbolTable env (buf.mem.word64 8)).1.actorTableSize = s₁.actorTableSize ∧
      (s₁.allocSymbolTable env (buf.mem.word64 8)).1.currSectionId = s₁.currSectionId ∧
      (s₁.allocSymbolTable env (buf.mem.word64 8)).1.highestNActors = s₁.highestNActors := by
    unfold TcParser.allocSymbolTable
    split
    · split
      · exact ⟨rfl, rfl, rfl⟩
      · exact ⟨rfl, rfl, rfl⟩
    · exact ⟨rfl, rfl, rfl⟩
  cases h₁ : s₁.allocSymbolTable env (buf.mem.word64 8) with
  | mk s₂ ok₂ =>
    rw [h₁] at h hsym
    cases ok₂ with
    | false => exact absurd (congrArg Prod.snd h) hmem
    | true =>
      have hact : (s₂.allocActorTables env (buf.mem.word64 0)).1.currSectionId =
            s₂.currSectionId ∧
          ((s₂.allocActorTables env (buf.mem.word64 0)).2 = true →
            env.kmalloc s₂.actorTableSize = true) := by
        unfold TcParser.allocActorTables
        rw [if_pos (Or.inl (by rw [hsym.2.2, hid.2]; omega))]
        dsimp only
        split
        · rename_i hk
          split
          · split
            · exact ⟨rfl, fun _ => hk⟩
            · exact ⟨rfl, fun hno => absurd hno (by simp)⟩
          · exact ⟨rfl, fun hno => absurd hno (by simp)⟩
        · exact ⟨rfl, fun hno => absurd hno (by simp)⟩
      dsimp only at h
      cases h₂ : s₂.allocActorTables env (buf.mem.word64 0) with
      | mk s₃ ok₃ =>
        rw [h₂] at h hact
        cases ok₃ with
        | false => exact absurd (congrArg Prod.snd h) hmem
        | true =>
          rw [hsym.1, hsize] at hact
          cases h
          exact ⟨hzero, Nat.not_lt.mp hmax, rfl, hact.1.trans (hsym.2.1.trans hid.1), hact.2 rfl⟩

theorem blank_words_lt (a y : Nat) :
    ∀ w ∈ List.replicate (6 * a) 0 ++ List.replicate (4 * y) 0 ++ List.replicate (3 * a) 0,
      w < 2 ^ 64 := by
  intro w hw
  have hzero : w = 0 := by
    simp only [List.mem_append, List.mem_replicate] at hw
    omega
  rw [hzero]
  decide

theorem blank_metadata_size (a : Nat) : ∀ i code,
    (List.replicate a ([] : List UInt8))[i]? = some code →
      (List.replicate (3 * a) 0)[3 * i + 1]? = some code.length := by
  intro i code h
  obtain ⟨hi, hcode⟩ := List.getElem?_eq_some_iff.mp h
  rw [List.length_replicate] at hi
  rw [List.getElem_replicate] at hcode
  rw [← hcode, List.getElem?_replicate, if_pos (by omega)]
  rfl

/-- An image with the given numbers of entries and nothing in them. -/
def blankImage (a y : Nat) (ha : 1 ≤ a) (hy : y ≤ maxSymbols) : RcbfImage where
  actorWords := List.replicate (6 * a) 0
  symbolWords := List.replicate (4 * y) 0
  metadataWords := List.replicate (3 * a) 0
  sections := List.replicate a []
  nSymbols := y
  actors_pos := by rwa [List.length_replicate]
  symbols_le := hy
  length_actorWords := by rw [List.length_replicate, List.length_replicate]
  length_symbolWords := by rw [List.length_replicate]
  length_metadataWords := by rw [List.length_replicate, List.length_replicate]
  words_lt := blank_words_lt a y
  metadata_size := blank_metadata_size a
  section_le := by
    intro code h
    rw [(List.mem_replicate.mp h).2]
    exact Nat.zero_le _

theorem blankImage_nActors {a y : Nat} (ha : 1 ≤ a) (hy : y ≤ maxSymbols) :
    (blankImage a y ha hy).nActors = a := List.length_replicate

theorem AmpleMemory.allocSucceeds (h : AmpleMemory env) {a y : Nat} (ha : 1 ≤ a)
    (hle : actorMetadataSize * a ≤ kmallocMaxSize) (hy : y ≤ maxSymbols) :
    AllocSucceeds env (blankImage a y ha hy) := by
  have hsym : 32 * y + 1 ≤ kmallocMaxSize := by
    unfold maxSymbols at hy
    unfold kmallocMaxSize
    omega
  have hmeta : 24 * a ≤ kmallocMaxSize := by
    unfold actorMetadataSize at hle
    omega
  refine ⟨(h.kmalloc _).mpr (by decide), (h.kmalloc _).mpr hsym, (h.kmalloc _).mpr ?_,
    (h.kmalloc _).mpr ?_, h.vmalloc _, fun n hn => (h.kmalloc n).mp hn⟩
  · rw [blankImage_nActors]
    exact hle
  · rw [blankImage_nActors]
    exact hmeta

/-- The header gives numbers of entries that the kernel has room for. -/
structure RcbfFile.Roomy (f : RcbfFile) : Prop where
  actors_pos : 1 ≤ f.nActors
  actors_le : actorMetadataSize * f.nActors ≤ kmallocMaxSize
  symbols_le : f.nSymbols ≤ maxSymbols

/-- The words of the header. -/
theorem buf_header (h16 : 16 ≤ f.bytes.length) (beyond : Mem) :
    (WriteBuf.mem ⟨f.bytes, beyond⟩).word64 0 = f.nActors ∧
      (WriteBuf.mem ⟨f.bytes, beyond⟩).word64 8 = f.nSymbols := by
  have hbyte : ∀ i, i < 16 → WriteBuf.mem ⟨f.bytes, beyond⟩ i = f.mem i := by
    intro i hi
    show (f.bytes[i]?).getD _ = f.bytes.getD i 0
    rw [List.getD_eq_getElem?_getD, List.getElem?_eq_getElem (by omega)]
    rfl
  unfold RcbfFile.nActors RcbfFile.nSymbols
  exact ⟨Mem.word64_congr fun i hi => hbyte _ (by omega),
    Mem.word64_congr fun i hi => hbyte _ (by omega)⟩

end Header

/-- The parser after `c` bytes of a file, no section byte among them. -/
structure InTables (f : RcbfFile) (c : Nat) (s : TcParser) : Prop where
  receiving : s.isReceivingTestCase = true
  cursor : s.cursor = c
  nActors : s.nActors = f.nActors
  nSymbols : s.nSymbols = f.nSymbols
  actorTableSize : s.actorTableSize = 48 * f.nActors
  symbolTableSize : s.symbolTableSize = 32 * f.nSymbols
  metadataSize : s.metadataSize = 24 * f.nActors
  sectionId : s.currSectionId = 0
  actorTable : f.symbolTableAt ≤ c → ∀ i, i < 48 * f.nActors → s.actorTable i = f.mem (16 + i)
  symbolTable : f.metadataAt ≤ c → ∀ i, i < 32 * f.nSymbols →
    s.symbolTable i = f.mem (f.symbolTableAt + i)
  metadata : f.dataAt ≤ c → ∀ i, i < 24 * f.nActors → s.metadata i = f.mem (f.metadataAt + i)
  sections : ∀ i, i < maxSectionSize * f.nActors → s.sections i = 0

section Tables

variable {calls : Nat → KernelCall} {env : CallEnv} {garbage : Mem} {f : RcbfFile}
  {fuel k c n : Nat} {s : TcParser}

theorem RcbfFile.Roomy.dataAt_lt (hf : f.Roomy) : f.dataAt < 2 ^ 23 := by
  have hact := hf.actors_le
  have hsym := hf.symbols_le
  unfold kmallocMaxSize actorMetadataSize at hact
  unfold maxSymbols at hsym
  unfold RcbfFile.dataAt RcbfFile.metadataAt RcbfFile.symbolTableAt
  omega

theorem RcbfFile.table_order (f : RcbfFile) :
    16 ≤ f.symbolTableAt ∧ f.symbolTableAt ≤ f.metadataAt ∧ f.metadataAt ≤ f.dataAt :=
  ⟨Nat.le_add_right _ _, Nat.le_add_right _ _, Nat.le_add_right _ _⟩

/-- The bounds of the phases. -/
theorem InTables.ends (h : InTables f c s) (hf : f.Roomy) :
    s.actorTableEnd = f.symbolTableAt ∧ s.symbolTableEnd = f.metadataAt ∧
      s.metadataEnd = f.dataAt := by
  have hlt := hf.dataAt_lt
  have hle := f.table_order
  unfold TcParser.actorTableEnd TcParser.symbolTableEnd TcParser.metadataEnd
  rw [h.actorTableSize, h.symbolTableSize, h.metadataSize]
  refine ⟨?_, ?_, ?_⟩
  · show viaInt f.symbolTableAt = _
    exact viaInt_of_lt (by omega)
  · show viaInt f.metadataAt = _
    exact viaInt_of_lt (by omega)
  · show viaInt f.dataAt = _
    exact viaInt_of_lt (by omega)

/-- The first call. -/
theorem header_call (henv : AmpleMemory env) (hf : f.Roomy) (h16 : 16 ≤ f.bytes.length)
    (beyond : Mem) :
    ∃ s', parseTestCaseBuffer env (TcParser.init garbage) ⟨f.bytes, beyond⟩ =
      (s', ⟨16, false, 16⟩) ∧ InTables f 16 s' := by
  obtain ⟨hw0, hw8⟩ := buf_header h16 beyond
  have himg := blankImage_nActors hf.actors_pos hf.symbols_le
  have hsym : (blankImage f.nActors f.nSymbols hf.actors_pos hf.symbols_le).nSymbols =
      f.nSymbols := rfl
  have halloc := henv.allocSucceeds hf.actors_pos hf.actors_le hf.symbols_le
  have hidle := idle_init garbage
  generalize blankImage f.nActors f.nSymbols hf.actors_pos hf.symbols_le = img at *
  obtain ⟨s', hstart, hs'⟩ := batchTcParsingStart_spec halloc hidle.capacity
    (hw0.trans himg.symm) (hw8.trans hsym.symm)
  have hid : s'.currSectionId = 0 := hs'.sectionId
  have hlt : (0 : Nat) < s'.nActors := by
    rw [hs'.nActors, himg]
    exact hf.actors_pos
  refine ⟨{ s' with cursor := tcHeaderSize, isReceivingTestCase := true }, ?_, ?_⟩
  · rw [parse_header _ _ hidle.notReceiving hstart, if_neg (by simp), finishParsing_of_lt]
    · rfl
    · rw [← hid] at hlt
      exact hlt
  · have hle := f.table_order
    have hpos := hf.actors_pos
    refine ⟨rfl, rfl, hs'.nActors.trans himg, hs'.nSymbols.trans hsym,
      hs'.actorTableSize.trans (by rw [himg]), hs'.symbolTableSize.trans (by rw [hsym]),
      hs'.metadataSize.trans (by rw [himg]), hid, fun hc => ?_, fun hc => ?_, fun hc => ?_,
      fun i hi => hs'.sections i (by rw [himg]; exact hi)⟩
    · unfold RcbfFile.symbolTableAt at hc
      omega
    · unfold RcbfFile.metadataAt RcbfFile.symbolTableAt at hc
      omega
    · unfold RcbfFile.dataAt RcbfFile.metadataAt RcbfFile.symbolTableAt at hc
      omega

/-- A table that is copied from position `c` of the file in one call. -/
theorem copyLoop_file (m : Mem) (hn : c + n ≤ f.bytes.length) {i : Nat} (hi : i < n) :
    (copyLoop m 0 n (f.bytes.drop c)).1 i = f.mem (c + i) := by
  have hbytes := copyLoop_hasBytes m 0 n (f.bytes.drop c)
  rw [Nat.sub_zero] at hbytes
  have hget : ((f.bytes.drop c).take n)[i]? = some (f.mem (c + i)) := by
    rw [List.getElem?_take, if_pos hi, List.getElem?_drop, List.getElem?_eq_getElem (by omega)]
    congr 1
    unfold RcbfFile.mem
    rw [List.getD_eq_getElem?_getD, List.getElem?_eq_getElem (by omega)]
    rfl
  have := hbytes i _ hget
  rwa [Nat.zero_add] at this

/-- A phase of `n` bytes from position `c` on. -/
theorem receiveTables_phase (hn : 0 < n) (hc : c < f.bytes.length)
    (hcall : ∃ s', parseTestCaseBuffer (calls k).env s ⟨f.bytes.drop c, (calls k).beyond⟩ =
      (s', ⟨(min n (f.bytes.length - c) : Nat), false, min n (f.bytes.length - c)⟩) ∧
        (c + n ≤ f.bytes.length → InTables f (c + n) s')) :
    (f.bytes.length < c + n →
        receiveTables calls (fuel + 1) k s (f.bytes.drop c) = none) ∧
      (c + n ≤ f.bytes.length → ∃ s', InTables f (c + n) s' ∧
        receiveTables calls (fuel + 1) k s (f.bytes.drop c) =
          receiveTables calls fuel (k + 1) s' (f.bytes.drop (c + n))) := by
  obtain ⟨s', hparse, htables⟩ := hcall
  have hrest : f.bytes.drop c ≠ [] := by
    intro hnil
    have := congrArg List.length hnil
    rw [List.length_drop, List.length_nil] at this
    omega
  have hmore := @receiveTables_more calls fuel k _ s s' _ hrest (by omega) hparse
  rw [List.drop_drop] at hmore
  constructor
  · intro hshort
    rw [hmore, List.drop_eq_nil_of_le (by omega)]
    exact receiveTables_nil
  · intro hlong
    refine ⟨s', htables hlong, ?_⟩
    rw [hmore, Nat.min_eq_left (by omega)]

/-- The call that takes the actor table, as far as it is there. -/
theorem InTables.actor_call (h : InTables f 16 s) (hf : f.Roomy) (hlt : 16 < f.bytes.length)
    (beyond : Mem) :
    ∃ s', parseTestCaseBuffer env s ⟨f.bytes.drop 16, beyond⟩ =
      (s', ⟨(min (48 * f.nActors) (f.bytes.length - 16) : Nat), false,
        min (48 * f.nActors) (f.bytes.length - 16)⟩) ∧
        (16 + 48 * f.nActors ≤ f.bytes.length → InTables f (16 + 48 * f.nActors) s') := by
  have hpos := hf.actors_pos
  have hle := f.table_order
  have hfits := f.fits
  obtain ⟨hend, -, -⟩ := h.ends hf
  have hphase : s.cursor < s.actorTableEnd := by
    rw [h.cursor, hend]
    unfold RcbfFile.symbolTableAt
    omega
  rw [parse_actorTable env _ h.receiving hphase]
  dsimp only
  have hcur : sub64 s.cursor tcHeaderSize = 0 := by
    rw [h.cursor]
    rfl
  have hcount : (copyLoop s.actorTable 0 s.actorTableSize (f.bytes.drop 16)).2 =
      min (48 * f.nActors) (f.bytes.length - 16) := by
    rw [copyLoop_snd, List.length_drop, Nat.sub_zero, h.actorTableSize]
  rw [hcur, hcount, finishParsing_of_lt]
  · refine ⟨_, rfl, fun hlong => ?_⟩
    refine ⟨h.receiving, ?_, h.nActors, h.nSymbols, h.actorTableSize, h.symbolTableSize,
      h.metadataSize, h.sectionId, fun _ i hi => ?_, fun hc i hi => ?_, fun hc i hi => ?_,
      h.sections⟩
    · show add64 (0 + min (48 * f.nActors) (f.bytes.length - 16)) 16 = 16 + 48 * f.nActors
      rw [Nat.min_eq_left (by omega), add64_of_lt (by omega)]
      omega
    · show (copyLoop s.actorTable 0 s.actorTableSize (f.bytes.drop 16)).1 i = _
      rw [h.actorTableSize]
      exact copyLoop_file _ hlong hi
    · unfold RcbfFile.metadataAt RcbfFile.symbolTableAt at hc
      omega
    · unfold RcbfFile.dataAt RcbfFile.metadataAt RcbfFile.symbolTableAt at hc
      omega
  · show s.currSectionId < s.nActors
    rw [h.sectionId, h.nActors]
    exact hpos

theorem InTables.symbol_call (h : InTables f f.symbolTableAt s) (hf : f.Roomy)
    (hsym : 0 < f.nSymbols) (beyond : Mem) :
    ∃ s', parseTestCaseBuffer env s ⟨f.bytes.drop f.symbolTableAt, beyond⟩ =
      (s', ⟨(min (32 * f.nSymbols) (f.bytes.length - f.symbolTableAt) : Nat), false,
        min (32 * f.nSymbols) (f.bytes.length - f.symbolTableAt)⟩) ∧
        (f.symbolTableAt + 32 * f.nSymbols ≤ f.bytes.length →
          InTables f (f.symbolTableAt + 32 * f.nSymbols) s') := by
  have hle := f.table_order
  have hfits := f.fits
  have hpos := hf.actors_pos
  obtain ⟨hend₁, hend₂, -⟩ := h.ends hf
  have hphase₁ : ¬ s.cursor < s.actorTableEnd := by
    rw [h.cursor, hend₁]
    omega
  have hphase₂ : s.cursor < s.symbolTableEnd := by
    rw [h.cursor, hend₂]
    unfold RcbfFile.metadataAt
    omega
  rw [parse_symbolTable env _ h.receiving hphase₁ hphase₂]
  dsimp only
  have hcur : sub64 s.cursor s.actorTableEnd = 0 := by
    rw [h.cursor, hend₁, sub64_of_le (by have := hf.dataAt_lt; omega) (Nat.le_refl _)]
    omega
  have hcount : (copyLoop s.symbolTable 0 s.symbolTableSize (f.bytes.drop f.symbolTableAt)).2 =
      min (32 * f.nSymbols) (f.bytes.length - f.symbolTableAt) := by
    rw [copyLoop_snd, List.length_drop, Nat.sub_zero, h.symbolTableSize]
  rw [hcur, hcount, finishParsing_of_lt]
  · refine ⟨_, rfl, fun hlong => ?_⟩
    refine ⟨h.receiving, ?_, h.nActors, h.nSymbols, h.actorTableSize, h.symbolTableSize,
      h.metadataSize, h.sectionId, fun _ => h.actorTable (Nat.le_refl _), fun _ i hi => ?_,
      fun hc i hi => ?_, h.sections⟩
    · show add64 (0 + min (32 * f.nSymbols) (f.bytes.length - f.symbolTableAt)) s.actorTableEnd =
        f.symbolTableAt + 32 * f.nSymbols
      rw [hend₁, Nat.min_eq_left (by omega), add64_of_lt (by omega)]
      omega
    · have hfile := copyLoop_file s.symbolTable hlong hi
      rw [← h.symbolTableSize] at hfile
      dsimp only
      exact hfile
    · unfold RcbfFile.dataAt RcbfFile.metadataAt at hc
      omega
  · show s.currSectionId < s.nActors
    rw [h.sectionId, h.nActors]
    exact hpos

theorem InTables.metadata_call (h : InTables f f.metadataAt s) (hf : f.Roomy) (beyond : Mem) :
    ∃ s', parseTestCaseBuffer env s ⟨f.bytes.drop f.metadataAt, beyond⟩ =
      (s', ⟨(min (24 * f.nActors) (f.bytes.length - f.metadataAt) : Nat), false,
        min (24 * f.nActors) (f.bytes.length - f.metadataAt)⟩) ∧
        (f.metadataAt + 24 * f.nActors ≤ f.bytes.length →
          InTables f (f.metadataAt + 24 * f.nActors) s') := by
  have hle := f.table_order
  have hfits := f.fits
  have hpos := hf.actors_pos
  obtain ⟨hend₁, hend₂, hend₃⟩ := h.ends hf
  have hphase₁ : ¬ s.cursor < s.actorTableEnd := by
    rw [h.cursor, hend₁]
    omega
  have hphase₂ : ¬ s.cursor < s.symbolTableEnd := by
    rw [h.cursor, hend₂]
    omega
  have hphase₃ : s.cursor < s.metadataEnd := by
    rw [h.cursor, hend₃]
    unfold RcbfFile.dataAt
    omega
  rw [parse_metadata env _ h.receiving hphase₁ hphase₂ hphase₃]
  dsimp only
  have hcur : sub64 s.cursor s.symbolTableEnd = 0 := by
    rw [h.cursor, hend₂, sub64_of_le (by have := hf.dataAt_lt; omega) (Nat.le_refl _)]
    omega
  have hcount : (copyLoop s.metadata 0 s.metadataSize (f.bytes.drop f.metadataAt)).2 =
      min (24 * f.nActors) (f.bytes.length - f.metadataAt) := by
    rw [copyLoop_snd, List.length_drop, Nat.sub_zero, h.metadataSize]
  rw [hcur, hcount, finishParsing_of_lt]
  · refine ⟨_, rfl, fun hlong => ?_⟩
    refine ⟨h.receiving, ?_, h.nActors, h.nSymbols, h.actorTableSize, h.symbolTableSize,
      h.metadataSize, h.sectionId, fun _ => h.actorTable (by omega),
      fun _ => h.symbolTable (Nat.le_refl _), fun _ i hi => ?_, h.sections⟩
    · show add64 (0 + min (24 * f.nActors) (f.bytes.length - f.metadataAt)) s.symbolTableEnd =
        f.metadataAt + 24 * f.nActors
      rw [hend₂, Nat.min_eq_left (by omega), add64_of_lt (by omega)]
      omega
    · have hfile := copyLoop_file s.metadata hlong hi
      rw [← h.metadataSize] at hfile
      dsimp only
      exact hfile
  · show s.currSectionId < s.nActors
    rw [h.sectionId, h.nActors]
    exact hpos

/-- The calls up to the section metadata. -/
theorem kernelDecode_tables (henv : AmpleMemory (calls 0).env) (hf : f.Roomy)
    (h16 : 16 ≤ f.bytes.length) :
    (f.bytes.length < f.dataAt → kernelDecode calls garbage f = none) ∧
      (f.dataAt ≤ f.bytes.length → ∃ fuel k s, InTables f f.dataAt s ∧
        f.bytes.length - f.dataAt ≤ fuel ∧
          kernelDecode calls garbage f = receiveTables calls fuel k s (f.bytes.drop f.dataAt)) := by
  have hle := f.table_order
  have hpos := hf.actors_pos
  have hactor : f.symbolTableAt = 16 + 48 * f.nActors := rfl
  have hsymbol : f.metadataAt = f.symbolTableAt + 32 * f.nSymbols := rfl
  have hmeta : f.dataAt = f.metadataAt + 24 * f.nActors := rfl
  have hrest : f.bytes ≠ [] := by
    intro hnil
    rw [hnil] at h16
    exact absurd h16 (by decide)
  obtain ⟨s₁, hparse₁, h₁⟩ := @header_call _ garbage f henv hf h16 (calls 0).beyond
  have hstart : ∀ fuel, f.bytes.length = fuel + 1 → kernelDecode calls garbage f =
      receiveTables calls fuel 1 s₁ (f.bytes.drop 16) := by
    intro fuel hfuel
    unfold kernelDecode
    rw [hfuel]
    exact receiveTables_more hrest (by decide) hparse₁
  obtain ⟨fuel, hfuel⟩ : ∃ fuel, f.bytes.length = fuel + 3 := ⟨f.bytes.length - 3, by omega⟩
  by_cases hc₁ : 16 < f.bytes.length
  · obtain ⟨hshort₁, hlong₁⟩ := @receiveTables_phase calls f (fuel + 1) 1 16 (48 * f.nActors) s₁
      (by omega) hc₁ (h₁.actor_call hf hc₁ _)
    rw [hstart (fuel + 2) hfuel]
    by_cases hc₂ : 16 + 48 * f.nActors ≤ f.bytes.length
    · obtain ⟨s₂, h₂, heq₂⟩ := hlong₁ hc₂
      rw [heq₂, ← hactor]
      rw [← hactor] at h₂
      -- without symbols the next call is already in the metadata
      have hstep : (f.bytes.length < f.metadataAt → receiveTables calls (fuel + 1) 2 s₂
            (f.bytes.drop f.symbolTableAt) = none) ∧
          (f.metadataAt ≤ f.bytes.length → ∃ fuel' k s, InTables f f.metadataAt s ∧
            f.bytes.length - f.metadataAt ≤ fuel' + 1 ∧
            receiveTables calls (fuel + 1) 2 s₂ (f.bytes.drop f.symbolTableAt) =
              receiveTables calls (fuel' + 1) k s (f.bytes.drop f.metadataAt)) := by
        by_cases hsym : f.nSymbols = 0
        · have heq : f.metadataAt = f.symbolTableAt := by
            rw [hsymbol, hsym]
            rfl
          rw [heq]
          exact ⟨fun h => by omega, fun _ => ⟨fuel, 2, s₂, h₂, by omega, rfl⟩⟩
        · by_cases hc₃ : f.symbolTableAt < f.bytes.length
          · obtain ⟨hshort₃, hlong₃⟩ := @receiveTables_phase calls f fuel 2 f.symbolTableAt
              (32 * f.nSymbols) s₂ (by omega) hc₃ (h₂.symbol_call hf (by omega) _)
            refine ⟨hshort₃, fun hlong => ?_⟩
            obtain ⟨s₃, h₃, heq₃⟩ := hlong₃ hlong
            exact ⟨fuel - 1, 3, s₃, h₃, by omega, by
              rw [heq₃, Nat.sub_add_cancel (by omega), hsymbol]⟩
          · rw [List.drop_eq_nil_of_le (by omega), receiveTables_nil]
            exact ⟨fun _ => rfl, fun h => by omega⟩
      by_cases hc₃ : f.metadataAt ≤ f.bytes.length
      · obtain ⟨fuel', k, s₃, h₃, hfuel', heq₃⟩ := hstep.2 hc₃
        rw [heq₃]
        by_cases hc₄ : f.metadataAt < f.bytes.length
        · obtain ⟨hshort₄, hlong₄⟩ := @receiveTables_phase calls f fuel' k f.metadataAt
            (24 * f.nActors) s₃ (by omega) hc₄ (h₃.metadata_call hf _)
          refine ⟨hshort₄, fun hlong => ?_⟩
          obtain ⟨s₄, h₄, heq₄⟩ := hlong₄ hlong
          exact ⟨fuel', k + 1, s₄, h₄, by omega, heq₄⟩
        · rw [List.drop_eq_nil_of_le (by omega), receiveTables_nil]
          exact ⟨fun _ => rfl, fun h => by omega⟩
      · rw [hstep.1 (by omega)]
        exact ⟨fun _ => rfl, fun h => by omega⟩
    · rw [hshort₁ (by omega)]
      exact ⟨fun _ => rfl, fun h => by omega⟩
  · rw [hstart (fuel + 2) hfuel, List.drop_eq_nil_of_le (by omega), receiveTables_nil]
    exact ⟨fun _ => rfl, fun h => by omega⟩

end Tables

/-- The parser in the data phase, with the sections in front of section `i` received. -/
structure InSections (f : RcbfFile) (i : Nat) (s : TcParser) : Prop where
  receiving : s.isReceivingTestCase = true
  cursor : s.cursor = f.sectionAt i + f.skipped i
  nActors : s.nActors = f.nActors
  nSymbols : s.nSymbols = f.nSymbols
  actorTableSize : s.actorTableSize = 48 * f.nActors
  symbolTableSize : s.symbolTableSize = 32 * f.nSymbols
  metadataSize : s.metadataSize = 24 * f.nActors
  sectionId : s.currSectionId = i
  sectionStart : i ≠ 0 → s.currSectionStart = f.sectionAt i
  sectionEnd : i ≠ 0 → i < f.nActors →
    s.currSectionEnd = add64 (f.sectionAt i) (f.sectionSize i)
  actorTable : ∀ j, j < 48 * f.nActors → s.actorTable j = f.mem (16 + j)
  symbolTable : ∀ j, j < 32 * f.nSymbols → s.symbolTable j = f.mem (f.symbolTableAt + j)
  metadata : ∀ j, j < 24 * f.nActors → s.metadata j = f.mem (f.metadataAt + j)
  checked : ∀ j, j < i → f.sectionSize j ≤ maxSectionSize
  sections : f.nActors ≤ 16 → ∀ j, j < f.nActors → ∀ p, p < maxSectionSize →
    s.sections (maxSectionSize * j + p) =
      if j < i ∧ f.skipped j ≤ p ∧ p < f.skipped j + f.copied j then f.mem (f.sectionAt j + p)
      else 0

/-- The tables that the parser has received. -/
structure Received (f : RcbfFile) (s : TcParser) : Prop where
  nActors : s.nActors = f.nActors
  nSymbols : s.nSymbols = f.nSymbols
  actorTable : ∀ j, j < 48 * f.nActors → s.actorTable j = f.mem (16 + j)
  symbolTable : ∀ j, j < 32 * f.nSymbols → s.symbolTable j = f.mem (f.symbolTableAt + j)
  metadata : ∀ j, j < 24 * f.nActors → s.metadata j = f.mem (f.metadataAt + j)
  sections : f.nActors ≤ 16 → ∀ j, j < f.nActors → ∀ p, p < maxSectionSize →
    s.sections (maxSectionSize * j + p) =
      if f.skipped j ≤ p ∧ p < f.skipped j + f.copied j then f.mem (f.sectionAt j + p) else 0

/-- The section loop copies one byte at least, and ends with the section or with the buffer. -/
theorem sectionLoop_spec (m : Mem) (base cur size : Nat) (bs : List UInt8) :
    (sectionLoop m base cur size bs).2.1 = min bs.length (max 1 (size - cur)) ∧
      ((sectionLoop m base cur size bs).2.2 = true ↔ max 1 (size - cur) ≤ bs.length) ∧
      ∀ j, (sectionLoop m base cur size bs).1 j =
        if base + cur ≤ j ∧ j < base + cur + min bs.length (max 1 (size - cur))
        then bs.getD (j - (base + cur)) 0 else m j := by
  induction bs generalizing m cur with
  | nil =>
    refine ⟨by simp [sectionLoop], ?_, fun j => ?_⟩
    · constructor
      · intro h
        exact absurd h (by simp [sectionLoop])
      · intro h
        rw [List.length_nil] at h
        omega
    · rw [List.length_nil, if_neg (by omega)]
      rfl
  | cons b bs ih =>
    rw [sectionLoop]
    dsimp only
    rw [List.length_cons]
    by_cases hlast : size ≤ cur + 1
    · rw [if_pos hlast]
      refine ⟨by dsimp only; omega, ?_, fun j => ?_⟩
      · dsimp only
        constructor
        · intro _
          omega
        · intro _
          rfl
      · show Mem.set m (base + cur) b j = _
        unfold Mem.set
        by_cases hj : j = base + cur
        · rw [if_pos hj, if_pos (by omega), hj, Nat.sub_self]
          rfl
        · rw [if_neg hj, if_neg (by omega)]
    · rw [if_neg hlast]
      obtain ⟨hcount, hfin, hmem⟩ := ih (m.set (base + cur) b) (cur + 1)
      refine ⟨by dsimp only; omega, ?_, fun j => ?_⟩
      · dsimp only
        rw [hfin]
        omega
      · dsimp only
        rw [hmem]
        by_cases hj : j = base + cur
        · rw [if_neg (by omega), if_pos (by omega), hj, Nat.sub_self]
          exact Mem.set_same _ _ _
        · by_cases hin : base + cur + 1 ≤ j ∧
            j < base + cur + min (bs.length + 1) (max 1 (size - cur))
          · rw [if_pos (by omega), if_pos (by omega),
              show j - (base + cur) = (j - (base + (cur + 1))) + 1 by omega]
            rfl
          · rw [if_neg (by omega), if_neg (by omega)]
            exact Mem.set_other _ _ hj

section Sections

variable {calls : Nat → KernelCall} {env : CallEnv} {garbage : Mem} {f : RcbfFile}
  {fuel k i : Nat} {s : TcParser}

theorem InTables.inSections (h : InTables f f.dataAt s) : InSections f 0 s := by
  have hle := f.table_order
  refine ⟨h.receiving, h.cursor, h.nActors, h.nSymbols, h.actorTableSize, h.symbolTableSize,
    h.metadataSize, h.sectionId, fun hne => absurd rfl hne, fun hne => absurd rfl hne,
    h.actorTable (by omega), h.symbolTable (by omega), h.metadata (Nat.le_refl _),
    fun j hj => by omega, fun _ j hj p hp => ?_⟩
  rw [if_neg (by omega)]
  apply h.sections
  unfold maxSectionSize at *
  omega

/-- Words at different places. -/
theorem word64_shifted {m m' : Mem} {off off' : Nat}
    (h : ∀ i, i < 8 → m (off + i) = m' (off' + i)) : m.word64 off = m'.word64 off' := by
  unfold Mem.word64 Mem.read
  congr 1
  apply List.map_congr_left
  intro i hi
  exact h i (List.mem_range.mp hi)

theorem InSections.sectionSize_eq (h : InSections f i s) {j : Nat} (hj : j < f.nActors) :
    s.sectionSize j = f.sectionSize j := by
  unfold TcParser.sectionSize RcbfFile.sectionSize
  apply word64_shifted
  intro b hb
  show s.metadata (24 * j + 8 + b) = f.mem (f.metadataAt + (24 * j + 8) + b)
  rw [h.metadata _ (by omega), Nat.add_assoc f.metadataAt]

theorem InSections.inDataPhase (h : InSections f i s) (hf : f.Roomy) :
    s.InDataPhase ∧ s.metadataEnd = f.dataAt := by
  have hlt := hf.dataAt_lt
  have hle := f.table_order
  have hcur : f.dataAt ≤ s.cursor := by
    have := f.cursor_le (Nat.zero_le i)
    rw [h.cursor]
    exact this
  have h₁ : s.actorTableEnd = f.symbolTableAt := by
    unfold TcParser.actorTableEnd
    rw [h.actorTableSize]
    show viaInt f.symbolTableAt = _
    exact viaInt_of_lt (by omega)
  have h₂ : s.symbolTableEnd = f.metadataAt := by
    unfold TcParser.symbolTableEnd
    rw [h.actorTableSize, h.symbolTableSize]
    show viaInt f.metadataAt = _
    exact viaInt_of_lt (by omega)
  have h₃ : s.metadataEnd = f.dataAt := by
    unfold TcParser.metadataEnd
    rw [h.actorTableSize, h.symbolTableSize, h.metadataSize]
    show viaInt f.dataAt = _
    exact viaInt_of_lt (by omega)
  unfold TcParser.InDataPhase
  rw [h₁, h₂, h₃]
  exact ⟨by omega, rfl⟩

/-- The bounds of the section that the call copies to. -/
theorem InSections.enter (h : InSections f i s) (hf : f.Roomy) (hi : i < f.nActors) :
    s.enterSections = { s with
      currSectionStart := f.sectionAt i
      currSectionEnd := add64 (f.sectionAt i) (f.sectionSize i) } := by
  unfold TcParser.enterSections
  by_cases hid : s.currSectionId = 0
  · rw [if_pos hid]
    have hzero : i = 0 := h.sectionId.symm.trans hid
    subst hzero
    rw [(h.inDataPhase hf).2, h.sectionSize_eq hi]
    rfl
  · rw [if_neg hid]
    have hne : i ≠ 0 := fun hzero => hid (h.sectionId.trans hzero)
    have hstart := h.sectionStart hne
    have hend := h.sectionEnd hne hi
    rw [← hend, ← hstart]

/-- What `copySection` does, given the result of its loop. -/
theorem copySection_eq {buf : WriteBuf} {r : Mem × Nat × Bool}
    (hr : sectionLoop s.sections (maxSectionSize * s.currSectionId)
      (sub64 s.cursor s.currSectionStart) (s.sectionSize s.currSectionId) buf.data = r) :
    ∃ oob, copySection s buf =
      (if r.2.2 then
        { s with
          sections := r.1
          cursor := add64 (sub64 s.cursor s.currSectionStart + r.2.1) s.currSectionStart
          outOfBounds := oob
          currSectionId := s.currSectionId + 1
          currSectionStart := s.currSectionEnd
          currSectionEnd := add64 s.currSectionEnd (s.sectionSize (s.currSectionId + 1)) }
      else
        { s with
          sections := r.1
          cursor := add64 (sub64 s.cursor s.currSectionStart + r.2.1) s.currSectionStart
          outOfBounds := oob }, r.2.1) := by
  refine ⟨s.outOfBounds || writesBeyond s.sectionsCap
    (maxSectionSize * s.currSectionId + sub64 s.cursor s.currSectionStart) r.2.1, ?_⟩
  subst hr
  unfold copySection
  dsimp only
  split
  · rfl
  · rfl

/-- The bytes that a call copies for section `i`. -/
theorem InSections.copy (h : InSections f i s) (hf : f.Roomy) (hi : i < f.nActors)
    (beyond : Mem) (hsize : f.sectionSize i ≤ maxSectionSize)
    (hc : f.sectionAt i + f.skipped i < f.bytes.length) :
    (copySection s.enterSections ⟨f.bytes.drop (f.sectionAt i + f.skipped i), beyond⟩).2 =
        min (f.bytes.length - (f.sectionAt i + f.skipped i)) (f.copied i) ∧
      (f.bytes.length < f.sectionAt i + f.skipped i + f.copied i →
        (copySection s.enterSections
          ⟨f.bytes.drop (f.sectionAt i + f.skipped i), beyond⟩).1.currSectionId = i ∧
        (copySection s.enterSections
          ⟨f.bytes.drop (f.sectionAt i + f.skipped i), beyond⟩).1.nActors = f.nActors) ∧
      (f.sectionAt i + f.skipped i + f.copied i ≤ f.bytes.length →
        InSections f (i + 1) (copySection s.enterSections
          ⟨f.bytes.drop (f.sectionAt i + f.skipped i), beyond⟩).1) := by
  have hfits := f.fits
  have hnext := f.next_cursor i
  have hfunc : sub64 s.cursor (f.sectionAt i) = f.skipped i := by
    rw [h.cursor, sub64_of_le (by omega) (Nat.le_add_right _ _)]
    omega
  have hcopied : max 1 (f.sectionSize i - f.skipped i) = f.copied i := rfl
  have hsizes : ∀ j, j < f.nActors → s.enterSections.sectionSize j = f.sectionSize j :=
    fun j hj => (s.enterSections_sectionSize j).trans (h.sectionSize_eq hj)
  obtain ⟨hcount, hfin, hmem⟩ := sectionLoop_spec s.sections (maxSectionSize * i) (f.skipped i)
    (f.sectionSize i) (f.bytes.drop (f.sectionAt i + f.skipped i))
  rw [List.length_drop, hcopied] at hcount hfin hmem
  generalize hr : sectionLoop s.sections (maxSectionSize * i) (f.skipped i) (f.sectionSize i)
    (f.bytes.drop (f.sectionAt i + f.skipped i)) = r at hcount hfin hmem
  have henter := h.enter hf hi
  obtain ⟨oob, heq⟩ := @copySection_eq s.enterSections
    ⟨f.bytes.drop (f.sectionAt i + f.skipped i), beyond⟩ r (by
      rw [s.enterSections_currSectionId, h.sectionId, hsizes i hi, henter]
      dsimp only
      rw [hfunc]
      exact hr)
  rw [heq]
  dsimp only
  refine ⟨hcount, fun hshort => ?_, fun hlong => ?_⟩
  · have hno : ¬ r.2.2 = true := fun hyes => by
      have := hfin.mp hyes
      omega
    rw [if_neg hno]
    exact ⟨(s.enterSections_currSectionId).trans h.sectionId,
      (congrArg TcParser.nActors henter).trans h.nActors⟩
  · rw [if_pos (hfin.mpr (by omega))]
    rw [Nat.min_eq_right (by omega)] at hcount hmem
    have hstart : s.enterSections.currSectionStart = f.sectionAt i := by rw [henter]
    have hend : s.enterSections.currSectionEnd = f.sectionAt (i + 1) := by
      rw [henter, RcbfFile.sectionAt]
      dsimp only
      unfold maxSectionSize at hsize
      exact add64_of_lt (by omega)
    have hcursor : s.enterSections.cursor = s.cursor := by rw [henter]
    refine ⟨(s.enterSections_isReceivingTestCase).trans h.receiving, ?_,
      (congrArg TcParser.nActors henter).trans h.nActors,
      (congrArg TcParser.nSymbols henter).trans h.nSymbols,
      (congrArg TcParser.actorTableSize henter).trans h.actorTableSize,
      (congrArg TcParser.symbolTableSize henter).trans h.symbolTableSize,
      (congrArg TcParser.metadataSize henter).trans h.metadataSize, ?_, fun _ => hend,
      fun _ hlt => ?_, fun j hj => ?_, fun j hj => ?_, fun j hj => ?_, fun j hj => ?_,
      fun hact j hj p hp => ?_⟩
    · dsimp only
      rw [hstart, hcursor, hfunc, hcount, add64_of_lt (by omega)]
      omega
    · dsimp only
      rw [s.enterSections_currSectionId, h.sectionId]
    · dsimp only
      rw [hend, s.enterSections_currSectionId, h.sectionId, hsizes (i + 1) hlt]
    · rw [henter]
      exact h.actorTable j hj
    · rw [henter]
      exact h.symbolTable j hj
    · rw [henter]
      exact h.metadata j hj
    · by_cases hji : j = i
      · rw [hji]
        exact hsize
      · exact h.checked j (by omega)
    · dsimp only
      have hskip := f.skipped_le i
      have hspan : f.skipped i + f.copied i ≤ maxSectionSize := by
        unfold maxSectionSize at *
        omega
      rw [hmem, h.sections hact j hj p hp]
      unfold maxSectionSize at hp hspan ⊢
      by_cases hji : j = i
      · subst hji
        by_cases hin : f.skipped j ≤ p ∧ p < f.skipped j + f.copied j
        · rw [if_pos (by omega), if_pos (by omega), List.getD_eq_getElem?_getD, f.mem_drop]
          congr 1
          omega
        · rw [if_neg (by omega), if_neg (by omega), if_neg (by omega)]
      · rw [if_neg (by omega)]
        by_cases hin : j < i ∧ f.skipped j ≤ p ∧ p < f.skipped j + f.copied j
        · rw [if_pos hin, if_pos (by omega)]
        · rw [if_neg hin, if_neg (by omega)]

variable (env) in
/-- The last section ends the test case. -/
theorem InSections.received (h : InSections f f.nActors s) (count : Nat) :
    (finishParsing env s k count).2.finished = true ∧
      Received f (finishParsing env s k count).1 := by
  have hle : s.nActors ≤ s.currSectionId := by
    rw [h.nActors, h.sectionId]
  obtain ⟨feat, hfst, hfin, -⟩ := finishParsing_of_le env k count hle
  refine ⟨hfin, ?_⟩
  rw [hfst]
  refine ⟨h.nActors, h.nSymbols, h.actorTable, h.symbolTable, h.metadata,
    fun hact j hj p hp => ?_⟩
  refine (h.sections hact j hj p hp).trans ?_
  by_cases hin : f.skipped j ≤ p ∧ p < f.skipped j + f.copied j
  · rw [if_pos ⟨hj, hin⟩, if_pos hin]
  · rw [if_neg (fun h => hin h.2), if_neg hin]

/-- The sections from section `i` on have the sizes and the bytes that the parser asks for. -/
def SectionsComplete (f : RcbfFile) (i : Nat) : Prop :=
  (∀ j, i ≤ j → j < f.nActors → f.sectionSize j ≤ maxSectionSize) ∧
    f.sectionAt f.nActors + f.skipped f.nActors ≤ f.bytes.length

theorem SectionsComplete.step (hsize : f.sectionSize i ≤ maxSectionSize) :
    SectionsComplete f i ↔ SectionsComplete f (i + 1) := by
  constructor
  · intro h
    exact ⟨fun j hij hj => h.1 j (by omega) hj, h.2⟩
  · intro h
    refine ⟨fun j hij hj => ?_, h.2⟩
    by_cases hji : j = i
    · rw [hji]
      exact hsize
    · exact h.1 j (by omega) hj

variable (env) in
/-- A call for section `i`, when it has an admissible size. -/
theorem InSections.section_call (h : InSections f i s) (hf : f.Roomy) (hi : i < f.nActors)
    (beyond : Mem) (hsize : f.sectionSize i ≤ maxSectionSize) :
    parseTestCaseBuffer env s ⟨f.bytes.drop (f.sectionAt i + f.skipped i), beyond⟩ =
      finishParsing env
        (copySection s.enterSections ⟨f.bytes.drop (f.sectionAt i + f.skipped i), beyond⟩).1
        (copySection s.enterSections ⟨f.bytes.drop (f.sectionAt i + f.skipped i), beyond⟩).2
        (WriteBuf.count ⟨f.bytes.drop (f.sectionAt i + f.skipped i), beyond⟩) := by
  refine parse_section env _ h.receiving (h.inDataPhase hf).1 ?_
  rw [h.sectionId, h.sectionSize_eq hi]
  omega

/-- The data phase. -/
theorem receiveTables_sections (h : InSections f i s) (hf : f.Roomy) (hi : i < f.nActors)
    (hfuel : f.bytes.length - (f.sectionAt i + f.skipped i) ≤ fuel) :
    (SectionsComplete f i → ∃ s', Received f s' ∧
        receiveTables calls fuel k s (f.bytes.drop (f.sectionAt i + f.skipped i)) = some s') ∧
      (¬ SectionsComplete f i →
        receiveTables calls fuel k s (f.bytes.drop (f.sectionAt i + f.skipped i)) = none) := by
  induction hm : f.nActors - i generalizing i s fuel k with
  | zero => omega
  | succ m ih =>
    have hend := f.cursor_le (show i + 1 ≤ f.nActors by omega)
    have hnext := f.next_cursor i
    have hcopied : 1 ≤ f.copied i := Nat.le_max_left _ _
    by_cases hc : f.sectionAt i + f.skipped i < f.bytes.length
    · obtain ⟨fuel, rfl⟩ : ∃ n, fuel = n + 1 := ⟨fuel - 1, by omega⟩
      have hrest : f.bytes.drop (f.sectionAt i + f.skipped i) ≠ [] := by
        intro hnil
        have := congrArg List.length hnil
        rw [List.length_drop, List.length_nil] at this
        omega
      by_cases hsize : f.sectionSize i ≤ maxSectionSize
      · have hcall := h.section_call (calls k).env hf hi (calls k).beyond hsize
        obtain ⟨hcount, hshort, hlong⟩ := h.copy hf hi (calls k).beyond hsize hc
        generalize copySection s.enterSections
          ⟨f.bytes.drop (f.sectionAt i + f.skipped i), (calls k).beyond⟩ = r at *
        by_cases hall : f.sectionAt i + f.skipped i + f.copied i ≤ f.bytes.length
        · have h' := hlong hall
          rw [Nat.min_eq_right (by omega)] at hcount
          by_cases hlast : i + 1 < f.nActors
          · rw [finishParsing_of_lt _ _ (by rw [h'.sectionId, h'.nActors]; exact hlast),
              hcount] at hcall
            have hmore := @receiveTables_more calls fuel k _ _ _ _ hrest (by omega) hcall
            rw [List.drop_drop, ← hnext] at hmore
            rw [hmore, SectionsComplete.step hsize]
            exact ih h' hlast (by omega) (by omega)
          · have heq : i + 1 = f.nActors := by omega
            rw [heq] at h'
            have hrec := h'.received (calls k).env (k := r.2)
              (WriteBuf.count ⟨f.bytes.drop (f.sectionAt i + f.skipped i), (calls k).beyond⟩)
            rw [← hcall] at hrec
            have hdone := @receiveTables_finished calls fuel k _ _ hrest hrec.1
            refine ⟨fun _ => ⟨_, hrec.2, hdone⟩, fun hno => absurd ?_ hno⟩
            rw [SectionsComplete.step hsize, heq]
            refine ⟨fun j hij hj => by omega, ?_⟩
            rw [heq] at hnext
            omega
        · have hstay := hshort (by omega)
          rw [Nat.min_eq_left (by omega)] at hcount
          rw [finishParsing_of_lt _ _ (by rw [hstay.1, hstay.2]; exact hi), hcount] at hcall
          have hmore := @receiveTables_more calls fuel k _ _ _ _ hrest (by omega) hcall
          have hnil : f.bytes.drop (f.sectionAt i + f.skipped i +
              (f.bytes.length - (f.sectionAt i + f.skipped i))) = [] :=
            List.drop_eq_nil_of_le (by omega)
          rw [List.drop_drop, hnil, receiveTables_nil] at hmore
          refine ⟨fun hyes => ?_, fun _ => hmore⟩
          have := hyes.2
          omega
      · have hover := parse_oversize (calls k).env
          ⟨f.bytes.drop (f.sectionAt i + f.skipped i), (calls k).beyond⟩ h.receiving
          (h.inDataPhase hf).1 (by rw [h.sectionId, h.sectionSize_eq hi]; omega)
        have herror := @receiveTables_error calls fuel k _ _ hrest _ (congrArg Prod.snd hover)
        refine ⟨fun hyes => ?_, fun _ => herror⟩
        have := hyes.1 i (Nat.le_refl _) hi
        omega
    · rw [List.drop_eq_nil_of_le (by omega), receiveTables_nil]
      refine ⟨fun hyes => ?_, fun _ => rfl⟩
      have := hyes.2
      omega

end Sections

section Numbers

variable {calls : Nat → KernelCall} {env : CallEnv} {garbage : Mem} {f : RcbfFile}
  {fuel k : Nat} {s s' : TcParser} {rest : List UInt8}

/-- A call in the middle of a test case enters the next section at most, and only with a byte. -/
theorem parse_advances (h : s.isReceivingTestCase = true) {buf : WriteBuf} (hdata : buf.data ≠ []) :
    (parseTestCaseBuffer env s buf).2 = ⟨-1, false, 0⟩ ∨
      ∃ s₁ n, parseTestCaseBuffer env s buf = finishParsing env s₁ n buf.count ∧
        s₁.nActors = s.nActors ∧ s₁.isReceivingTestCase = true ∧
          (s₁.currSectionId = s.currSectionId ∨
            s₁.currSectionId = s.currSectionId + 1 ∧ 1 ≤ n) := by
  by_cases hp₁ : s.cursor < s.actorTableEnd
  · rw [parse_actorTable env buf h hp₁]
    exact Or.inr ⟨_, _, rfl, rfl, h, Or.inl rfl⟩
  by_cases hp₂ : s.cursor < s.symbolTableEnd
  · rw [parse_symbolTable env buf h hp₁ hp₂]
    exact Or.inr ⟨_, _, rfl, rfl, h, Or.inl rfl⟩
  by_cases hp₃ : s.cursor < s.metadataEnd
  · rw [parse_metadata env buf h hp₁ hp₂ hp₃]
    exact Or.inr ⟨_, _, rfl, rfl, h, Or.inl rfl⟩
  by_cases hover : maxSectionSize < s.sectionSize s.currSectionId
  · rw [parse_oversize env buf h ⟨hp₁, hp₂, hp₃⟩ hover]
    exact Or.inl rfl
  rw [parse_section env buf h ⟨hp₁, hp₂, hp₃⟩ hover]
  have hpos : 1 ≤ buf.data.length := List.length_pos_iff.mpr hdata
  have hloop := (sectionLoop_spec s.enterSections.sections
    (maxSectionSize * s.enterSections.currSectionId)
    (sub64 s.enterSections.cursor s.enterSections.currSectionStart)
    (s.enterSections.sectionSize s.enterSections.currSectionId) buf.data).1
  have hactors : s.enterSections.nActors = s.nActors := by
    unfold TcParser.enterSections
    split
    · rfl
    · rfl
  generalize hr : sectionLoop s.enterSections.sections
    (maxSectionSize * s.enterSections.currSectionId)
    (sub64 s.enterSections.cursor s.enterSections.currSectionStart)
    (s.enterSections.sectionSize s.enterSections.currSectionId) buf.data = r at hloop
  obtain ⟨oob, heq⟩ := copySection_eq hr
  refine Or.inr ⟨_, _, rfl, ?_, ?_, ?_⟩
  · rw [heq]
    dsimp only
    split
    · exact hactors
    · exact hactors
  · rw [copySection_isReceivingTestCase, s.enterSections_isReceivingTestCase]
    exact h
  · rw [heq]
    dsimp only
    split
    · refine Or.inr ⟨congrArg (· + 1) s.enterSections_currSectionId, ?_⟩
      omega
    · exact Or.inl s.enterSections_currSectionId

/-- Every section takes a byte. -/
theorem receiveTables_actors_le (h : s.isReceivingTestCase = true)
    (hlt : s.currSectionId < s.nActors)
    (hsome : receiveTables calls fuel k s rest = some s') :
    s.nActors ≤ s.currSectionId + rest.length := by
  induction fuel generalizing k s rest with
  | zero => exact absurd hsome (by simp [receiveTables])
  | succ fuel ih =>
    by_cases hrest : rest = []
    · rw [hrest, receiveTables_nil] at hsome
      exact absurd hsome (by simp)
    · have hpos : 1 ≤ rest.length := List.length_pos_iff.mpr hrest
      rcases @parse_advances (calls k).env s h ⟨rest, (calls k).beyond⟩ hrest with
        herr | ⟨s₁, n, hparse, hactors, hrec, hid⟩
      · rw [receiveTables_error hrest herr] at hsome
        exact absurd hsome (by simp)
      · by_cases hmore : s₁.currSectionId < s₁.nActors
        · rw [finishParsing_of_lt _ _ hmore] at hparse
          by_cases hn : 0 < n
          · rw [receiveTables_more hrest hn hparse] at hsome
            have := ih hrec hmore hsome
            rw [List.length_drop] at this
            omega
          · rw [receiveTables, if_neg hrest, hparse] at hsome
            dsimp only at hsome
            rw [if_neg (by simp), if_pos (by omega)] at hsome
            exact absurd hsome (by simp)
        · omega

/-- A file that is received has a header, with numbers the kernel has room for. -/
theorem kernelDecode_header (henv : AmpleMemory (calls 0).env)
    (h : kernelDecode calls garbage f = some s') : 16 ≤ f.bytes.length ∧ f.Roomy := by
  have hfits := f.fits
  unfold kernelDecode at h
  have hrest : f.bytes ≠ [] := by
    intro hnil
    rw [hnil, receiveTables_nil] at h
    exact absurd h (by simp)
  have hpos : 1 ≤ f.bytes.length := List.length_pos_iff.mpr hrest
  obtain ⟨fuel, hfuel⟩ : ∃ fuel, f.bytes.length = fuel + 1 := ⟨f.bytes.length - 1, by omega⟩
  rw [hfuel] at h
  cases hstart : batchTcParsingStart (calls 0).env (TcParser.init garbage)
      ⟨f.bytes, (calls 0).beyond⟩ with
  | mk s₁ ret =>
    have hparse := parse_header (calls 0).env ⟨f.bytes, (calls 0).beyond⟩
      (s := TcParser.init garbage) rfl hstart
    by_cases hret : ret = 16
    · subst hret
      obtain ⟨hzero, hmax, hactors, hid, hmem⟩ := start_accepted hstart
      have hlt : s₁.currSectionId < s₁.nActors := by
        rw [hid, hactors]
        exact Nat.pos_of_ne_zero hzero
      rw [if_neg (by simp), finishParsing_of_lt _ _ (show TcParser.currSectionId { s₁ with
        cursor := tcHeaderSize, isReceivingTestCase := true } < s₁.nActors from hlt)] at hparse
      rw [receiveTables_more hrest (by decide) hparse] at h
      have h16 : 16 ≤ f.bytes.length := by
        by_contra hshort
        rw [List.drop_eq_nil_of_le (by omega), receiveTables_nil] at h
        exact absurd h (by simp)
      obtain ⟨hw0, hw8⟩ := buf_header h16 (calls 0).beyond
      rw [hw0] at hzero hactors hmem
      rw [hw8] at hmax
      have hbound := receiveTables_actors_le (s := { s₁ with
        cursor := tcHeaderSize, isReceivingTestCase := true }) rfl hlt h
      have hbound' : s₁.nActors ≤ s₁.currSectionId + (f.bytes.drop 16).length := hbound
      rw [hid, hactors, List.length_drop] at hbound'
      have hroom := (henv.kmalloc _).mp hmem
      unfold actorMetadataSize at hroom
      rw [mul64_of_lt (by omega), Nat.mul_comm] at hroom
      exact ⟨h16, Nat.pos_of_ne_zero hzero, hroom, hmax⟩
    · rw [if_pos hret] at hparse
      rw [receiveTables_error hrest (congrArg Prod.snd hparse)] at h
      exact absurd h (by simp)

/-- The header and the sections decide whether a file is received, and what is received. -/
theorem kernelDecode_spec (henv : AmpleMemory (calls 0).env) :
    (f.Roomy ∧ SectionsComplete f 0 → ∃ s', kernelDecode calls garbage f = some s' ∧
        Received f s') ∧
      (¬ (f.Roomy ∧ SectionsComplete f 0) → kernelDecode calls garbage f = none) := by
  have hle := f.table_order
  have hdata := f.cursor_le (Nat.zero_le f.nActors)
  have hfirst : f.sectionAt 0 + f.skipped 0 = f.dataAt := rfl
  have hnone : ¬ (16 ≤ f.bytes.length ∧ f.Roomy) → kernelDecode calls garbage f = none := by
    intro hno
    cases hdec : kernelDecode calls garbage f with
    | none => rfl
    | some s' => exact absurd (kernelDecode_header henv hdec) hno
  by_cases hgood : 16 ≤ f.bytes.length ∧ f.Roomy
  · obtain ⟨h16, hf⟩ := hgood
    obtain ⟨hshort, hlong⟩ := @kernelDecode_tables calls garbage f henv hf h16
    by_cases hall : f.dataAt ≤ f.bytes.length
    · obtain ⟨fuel, k, s, htables, hfuel, heq⟩ := hlong hall
      rw [← hfirst] at hfuel heq
      obtain ⟨hyes, hno⟩ := @receiveTables_sections calls f fuel k 0 s
        htables.inSections hf hf.actors_pos hfuel
      rw [heq]
      refine ⟨fun h => ?_, fun h => hno fun hc => h ⟨hf, hc⟩⟩
      obtain ⟨s', hrec, hsome⟩ := hyes h.2
      exact ⟨s', hsome, hrec⟩
    · refine ⟨fun h => ?_, fun _ => hshort (by omega)⟩
      have := h.2.2
      omega
  · refine ⟨fun h => absurd ⟨?_, h.1⟩ hgood, fun _ => hnone hgood⟩
    have := h.2.2
    omega

end Numbers

end Rvzr.Km
