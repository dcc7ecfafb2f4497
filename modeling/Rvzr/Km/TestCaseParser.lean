import Rvzr.Lib.Bytes
import Rvzr.Lib.Machine

/-!
# The test case parser of the kernel module

`executor_km/test_case_parser.c`: a resumable decoder of the RCBF format. Its progress lives
in globals and function-static variables, which are fields of `TcParser` here. Machine
arithmetic is written out where it can wrap: sizes are 64-bit products, and the bounds of the
five phases are `int`s that are compared with a 64-bit cursor.

The four tables are byte memories with the capacity they were allocated with. A read beyond
the capacity returns whatever byte lies there; a write beyond it is undefined behaviour, which
`outOfBounds` records for good.
-/

namespace Rvzr.Km

open Rvzr.Lib

def maxSymbols : Nat := 128
def maxSectionSize : Nat := 4096
def tcHeaderSize : Nat := 16

/-- `sizeof(actor_metadata_t)`. -/
def actorMetadataSize : Nat := 48

/-- `sizeof(tc_symbol_entry_t)`. -/
def tcSymbolEntrySize : Nat := 32

/-- `sizeof(tc_section_metadata_entry_t)`. -/
def tcSectionMetadataEntrySize : Nat := 24

/-- `sizeof(test_case_t)`: padded flags, four sizes and four pointers. -/
def sizeofTestCase : Nat := 72

/-- `EIO` and `ENOMEM`. -/
def eio : Int := 5
def enomem : Int := 12

/-- The buffer of one write: `count` bytes, and what lies behind them in memory. -/
structure WriteBuf where
  data : List UInt8
  beyond : Mem

namespace WriteBuf

def count (b : WriteBuf) : Nat := b.data.length

/-- The memory `buf` points to. -/
def mem (b : WriteBuf) : Mem := fun i => (b.data[i]?).getD (b.beyond i)

end WriteBuf

/-- What the kernel decides during one call: which allocations succeed, what uninitialised
memory holds, and the value of an uninitialised `bool`. -/
structure CallEnv where
  kmalloc : Nat → Bool
  vmalloc : Nat → Bool
  garbage : Mem
  uninit : Bool

/-- `tc_features_t`. -/
structure TcFeatures where
  includesVmActors : Bool
  includesUserActors : Bool
  hasExplicitFaultHandler : Bool
  deriving DecidableEq, Repr

/-- The globals and statics of the parser. `test_case` is taken to point to the allocated tables,
whose contents are kept once; the `has...` flags say that a pointer is not null. -/
structure TcParser where
  isReceivingTestCase : Bool
  cursor : Nat
  nActors : Nat
  nSymbols : Nat
  highestNActors : Nat
  highestNSymbols : Nat
  features : TcFeatures
  actorTableSize : Nat
  symbolTableSize : Nat
  metadataSize : Nat
  sectionsSize : Nat
  hasActorTable : Bool
  hasSymbolTable : Bool
  hasMetadata : Bool
  hasData : Bool
  actorTable : Mem
  symbolTable : Mem
  metadata : Mem
  sections : Mem
  actorTableCap : Nat
  symbolTableCap : Nat
  metadataCap : Nat
  sectionsCap : Nat
  currSectionId : Nat
  currSectionStart : Nat
  currSectionEnd : Nat
  outOfBounds : Bool

/-- Whether writing `k` bytes from position `cur` on leaves a table of capacity `cap`. -/
def writesBeyond (cap cur k : Nat) : Bool := k != 0 && cap < cur + k

theorem writesBeyond_of_le {cap cur k : Nat} (h : cur + k ≤ cap) : writesBeyond cap cur k = false := by
  simp [writesBeyond, show ¬ cap < cur + k from by omega]

namespace TcParser

/-- `test_case->metadata[id].size`. -/
def sectionSize (s : TcParser) (id : Nat) : Nat :=
  s.metadata.word64 (tcSectionMetadataEntrySize * id + 8)

/-- `actor_table_end`. -/
def actorTableEnd (s : TcParser) : Nat := viaInt (tcHeaderSize + s.actorTableSize)

/-- `symbol_table_end`. -/
def symbolTableEnd (s : TcParser) : Nat :=
  viaInt (tcHeaderSize + s.actorTableSize + s.symbolTableSize)

/-- `metadata_end`. -/
def metadataEnd (s : TcParser) : Nat :=
  viaInt (tcHeaderSize + s.actorTableSize + s.symbolTableSize + s.metadataSize)

/-- The state `init_test_case_parser` leaves; `n_actors` is initialised to 1 and the statics
to 0. -/
def init (garbage : Mem) : TcParser where
  isReceivingTestCase := false
  cursor := 0
  nActors := 1
  nSymbols := 0
  highestNActors := 0
  highestNSymbols := 0
  features := ⟨false, false, false⟩
  actorTableSize := actorMetadataSize
  symbolTableSize := 0
  metadataSize := tcSectionMetadataEntrySize
  sectionsSize := maxSectionSize
  hasActorTable := true
  hasSymbolTable := true
  hasMetadata := true
  hasData := true
  actorTable := garbage
  symbolTable := garbage
  metadata := garbage
  sections := garbage
  actorTableCap := actorMetadataSize
  symbolTableCap := 1
  metadataCap := tcSectionMetadataEntrySize
  sectionsCap := maxSectionSize
  currSectionId := 0
  currSectionStart := 0
  currSectionEnd := 0
  outOfBounds := false

/-- `new_test_case`: a test case with the default sizes and features. -/
def newTestCase (s : TcParser) : TcParser :=
  { s with
    features := ⟨false, false, false⟩
    actorTableSize := actorMetadataSize
    symbolTableSize := 0
    metadataSize := tcSectionMetadataEntrySize
    sectionsSize := maxSectionSize }

/-- The sizes of the tables of `newNActors` actors and `newNSymbols` symbols. -/
def setSizes (s : TcParser) (newNActors newNSymbols : Nat) : TcParser :=
  { s with
    actorTableSize := mul64 newNActors actorMetadataSize
    symbolTableSize := mul64 newNSymbols tcSymbolEntrySize
    metadataSize := mul64 newNActors tcSectionMetadataEntrySize
    sectionsSize := mul64 newNActors maxSectionSize }

/-- The reallocation of the symbol table, if it is needed; `false` when it fails. -/
def allocSymbolTable (env : CallEnv) (newNSymbols : Nat) (s : TcParser) : TcParser × Bool :=
  if s.highestNSymbols < newNSymbols ∨ s.hasSymbolTable = false then
    if env.kmalloc (s.symbolTableSize + 1) then
      ({ s with hasSymbolTable := true, symbolTable := env.garbage,
                symbolTableCap := s.symbolTableSize + 1, highestNSymbols := newNSymbols }, true)
    else ({ s with hasSymbolTable := false }, false)
  else (s, true)

/-- The reallocation of the three tables with one entry per actor. They are freed together
and allocated one after the other. -/
def allocActorTables (env : CallEnv) (newNActors : Nat) (s : TcParser) : TcParser × Bool :=
  if s.highestNActors < newNActors ∨ s.hasData = false then
    let s := { s with hasActorTable := false, hasMetadata := false, hasData := false }
    if env.kmalloc s.actorTableSize then
      let s := { s with hasActorTable := true, actorTable := env.garbage,
                        actorTableCap := s.actorTableSize }
      if env.kmalloc s.metadataSize then
        let s := { s with hasMetadata := true, metadata := env.garbage,
                          metadataCap := s.metadataSize }
        if env.vmalloc s.sectionsSize then
          ({ s with hasData := true, sections := env.garbage, sectionsCap := s.sectionsSize,
                    highestNActors := newNActors }, true)
        else (s, false)
      else (s, false)
    else (s, false)
  else (s, true)

/-- The four `memset`s over everything that was ever allocated. -/
def clearTables (s : TcParser) : TcParser :=
  { s with
    actorTable := s.actorTable.zero (mul64 s.highestNActors actorMetadataSize)
    symbolTable := s.symbolTable.zero (mul64 s.highestNSymbols tcSymbolEntrySize)
    metadata := s.metadata.zero (mul64 s.highestNActors tcSectionMetadataEntrySize)
    sections := s.sections.zero (mul64 s.highestNActors maxSectionSize) }

end TcParser

open TcParser

/-- `__batch_tc_parsing_start` (`test_case_parser.c:44-114`). -/
def batchTcParsingStart (env : CallEnv) (s : TcParser) (buf : WriteBuf) : TcParser × Int :=
  let s := { s with cursor := 0 }
  if env.kmalloc sizeofTestCase = false then (s, -enomem)
  else
    let s := s.newTestCase
    let newNActors := buf.mem.word64 0
    if newNActors = 0 then (s, -eio)
    else
      let newNSymbols := buf.mem.word64 8
      if maxSymbols < newNSymbols then (s, -eio)
      else
        let s := s.setSizes newNActors newNSymbols
        match s.allocSymbolTable env newNSymbols with
        | (s, false) => (s, -enomem)
        | (s, true) =>
          match s.allocActorTables env newNActors with
          | (s, false) => (s, -enomem)
          | (s, true) =>
            let s := s.clearTables
            ({ s with nSymbols := newNSymbols, nActors := newNActors }, 16)

/-- The symbol identifiers that the final check looks at (`macro_expansion.h:19-36`). -/
def nonmacroFunction : Nat := 0
def macroMeasurementStart : Nat := 1
def macroMeasurementEnd : Nat := 2
def macroFaultHandler : Nat := 3
def macroSetK2uTarget : Nat := 5
def macroSetU2kTarget : Nat := 7
def macroSetH2gTarget : Nat := 9
def macroSetG2hTarget : Nat := 11

/-- `tc_symbol_entry_t`. -/
structure TcSymbolEntry where
  owner : Nat
  offset : Nat
  id : Nat
  args : Nat
  deriving DecidableEq, Repr

namespace TcParser

/-- Entry `i` of the symbol table. -/
def symbolAt (s : TcParser) (i : Nat) : TcSymbolEntry :=
  let off := tcSymbolEntrySize * i
  ⟨s.symbolTable.word64 off, s.symbolTable.word64 (off + 8), s.symbolTable.word64 (off + 16),
    s.symbolTable.word64 (off + 24)⟩

/-- `actors[i].mode` and `actors[i].pl`. -/
def actorMode (s : TcParser) (i : Nat) : Nat := s.actorTable.word64 (actorMetadataSize * i + 8)
def actorPl (s : TcParser) (i : Nat) : Nat := s.actorTable.word64 (actorMetadataSize * i + 16)

/-- The symbol table as a list. -/
def symbolList (s : TcParser) : List TcSymbolEntry := (List.range s.nSymbols).map s.symbolAt

end TcParser

/-- The variables of the loop over the symbols. -/
structure SymbolScan where
  macrosOrdered : Bool
  hasStart : Bool
  hasEnd : Bool
  hasMain : Bool
  prev : Option TcSymbolEntry

/-- The types of the targets of actor switches: 0 is the kernel and the host, 1 the user and
the guest. -/
def switchTargetOk (s : TcParser) (e : TcSymbolEntry) : Bool :=
  let target := e.args % 256
  (e.id != macroSetK2uTarget || s.actorPl target == 1) &&
  (e.id != macroSetU2kTarget || s.actorPl target == 0) &&
  (e.id != macroSetH2gTarget || s.actorMode target == 1) &&
  (e.id != macroSetG2hTarget || s.actorMode target == 0)

/-- Whether `e` may follow `prev` in the symbol table. -/
def macroOrderOk (prev : Option TcSymbolEntry) (e : TcSymbolEntry) : Bool :=
  match prev with
  | none => true
  | some p =>
    e.id == nonmacroFunction || p.id == nonmacroFunction ||
      (p.owner ≤ e.owner && (e.owner != p.owner || p.offset ≤ e.offset))

/-- The loop of `__batch_tc_parsing_end`; `none` is a failed `ASSERT`. -/
def scanSymbols (s : TcParser) : List TcSymbolEntry → SymbolScan → Option SymbolScan
  | [], v => some v
  | e :: es, v =>
    if switchTargetOk s e then
      scanSymbols s es
        { macrosOrdered := v.macrosOrdered && macroOrderOk v.prev e
          hasStart := v.hasStart || e.id == macroMeasurementStart
          hasEnd := v.hasEnd || e.id == macroMeasurementEnd
          hasMain := v.hasMain || (e.owner == 0 && e.offset == 0)
          prev := some e }
    else none

/-- The loop that sets the actor features: it ends at the first guest or user actor. -/
def scanActors (s : TcParser) : List Nat → TcFeatures → TcFeatures
  | [], f => f
  | i :: is, f =>
    if s.actorMode i = 1 then { f with includesVmActors := true }
    else if s.actorPl i = 1 then { f with includesUserActors := true }
    else scanActors s is f

/-- `__batch_tc_parsing_end` (`test_case_parser.c:122-206`). `has_start` is declared without
an initial value. -/
def batchTcParsingEnd (env : CallEnv) (s : TcParser) : TcParser × Int :=
  match scanSymbols s s.symbolList ⟨true, env.uninit, false, false, none⟩ with
  | none => (s, -eio)
  | some v =>
    if v.macrosOrdered = false then (s, -1)
    else if v.hasStart = false ∨ v.hasEnd = false then (s, -1)
    else if v.hasMain = false then (s, -1)
    else
      let f := scanActors s (List.range s.nActors) s.features
      let fh := s.symbolList.any fun e => e.id == macroFaultHandler
      ({ s with features := { f with hasExplicitFaultHandler := fh } }, 0)

/-- The byte loop of the section phase: a byte is copied before the cursor is compared with
the section size. Returns the memory, the number of bytes and `func_finished`. -/
def sectionLoop (m : Mem) (base cur size : Nat) : List UInt8 → Mem × Nat × Bool
  | [] => (m, 0, false)
  | b :: bs =>
    let m := m.set (base + cur) b
    if size ≤ cur + 1 then (m, 1, true)
    else
      let r := sectionLoop m base (cur + 1) size bs
      (r.1, r.2.1 + 1, r.2.2)

/-- What one call of `parse_test_case_buffer` returns, with the number of bytes it took from
the buffer, which the caller does not see when the final check fails. -/
structure ParseResult where
  ret : Int
  finished : Bool
  consumed : Nat
  deriving DecidableEq, Repr

/-- The end of `parse_test_case_buffer`: all sections received? (`test_case_parser.c:311-327`) -/
def finishParsing (env : CallEnv) (s : TcParser) (consumed count : Nat) : TcParser × ParseResult :=
  if s.nActors ≤ s.currSectionId then
    let s := { s with currSectionId := 0, currSectionStart := 0, currSectionEnd := 0,
                      isReceivingTestCase := false }
    match batchTcParsingEnd env s with
    | (s, 0) => (s, ⟨if consumed = count then consumed else -eio, true, consumed⟩)
    | (s, _) => (s, ⟨-1, true, consumed⟩)
  else (s, ⟨consumed, false, consumed⟩)

/-- The section phase without its size check. -/
def copySection (s : TcParser) (buf : WriteBuf) : TcParser × Nat :=
  let funcCursor := sub64 s.cursor s.currSectionStart
  let size := s.sectionSize s.currSectionId
  let r := sectionLoop s.sections (maxSectionSize * s.currSectionId) funcCursor size buf.data
  let beyond := writesBeyond s.sectionsCap (maxSectionSize * s.currSectionId + funcCursor) r.2.1
  let s := { s with sections := r.1, cursor := add64 (funcCursor + r.2.1) s.currSectionStart,
                    outOfBounds := s.outOfBounds || beyond }
  if r.2.2 then
    ({ s with
        currSectionId := s.currSectionId + 1
        currSectionStart := s.currSectionEnd
        currSectionEnd := add64 s.currSectionEnd (s.sectionSize (s.currSectionId + 1)) }, r.2.1)
  else (s, r.2.1)

/-- `parse_test_case_buffer` (`test_case_parser.c:212-333`). -/
def parseTestCaseBuffer (env : CallEnv) (s : TcParser) (buf : WriteBuf) : TcParser × ParseResult :=
  if s.isReceivingTestCase = false then
    match batchTcParsingStart env s buf with
    | (s, ret) =>
      if ret ≠ 16 then (s, ⟨-1, false, 0⟩)
      else
        finishParsing env { s with cursor := tcHeaderSize, isReceivingTestCase := true } 16 buf.count
  else if s.cursor < s.actorTableEnd then
    let cur := sub64 s.cursor tcHeaderSize
    let r := copyLoop s.actorTable cur s.actorTableSize buf.data
    let beyond := writesBeyond s.actorTableCap cur r.2
    finishParsing env
      { s with actorTable := r.1, cursor := add64 (cur + r.2) tcHeaderSize,
               outOfBounds := s.outOfBounds || beyond }
      r.2 buf.count
  else if s.cursor < s.symbolTableEnd then
    let cur := sub64 s.cursor s.actorTableEnd
    let r := copyLoop s.symbolTable cur s.symbolTableSize buf.data
    let beyond := writesBeyond s.symbolTableCap cur r.2
    finishParsing env
      { s with symbolTable := r.1, cursor := add64 (cur + r.2) s.actorTableEnd,
               outOfBounds := s.outOfBounds || beyond }
      r.2 buf.count
  else if s.cursor < s.metadataEnd then
    let cur := sub64 s.cursor s.symbolTableEnd
    let r := copyLoop s.metadata cur s.metadataSize buf.data
    let beyond := writesBeyond s.metadataCap cur r.2
    finishParsing env
      { s with metadata := r.1, cursor := add64 (cur + r.2) s.symbolTableEnd,
               outOfBounds := s.outOfBounds || beyond }
      r.2 buf.count
  else
    let s := if s.currSectionId = 0 then
        { s with currSectionStart := s.metadataEnd
                 currSectionEnd := add64 s.metadataEnd (s.sectionSize 0) }
      else s
    if maxSectionSize < s.sectionSize s.currSectionId then
      ({ s with isReceivingTestCase := false }, ⟨-1, false, 0⟩)
    else
      let r := copySection s buf
      finishParsing env r.1 r.2 buf.count

section Phases

variable (env : CallEnv) {s : TcParser} (buf : WriteBuf)

theorem parse_header (h : s.isReceivingTestCase = false) {s' : TcParser} {ret : Int}
    (hstart : batchTcParsingStart env s buf = (s', ret)) :
    parseTestCaseBuffer env s buf =
      if ret ≠ 16 then (s', ⟨-1, false, 0⟩)
      else finishParsing env { s' with cursor := tcHeaderSize, isReceivingTestCase := true } 16
        buf.count := by
  unfold parseTestCaseBuffer
  rw [if_pos h, hstart]

variable (h : s.isReceivingTestCase = true)
include h

theorem parse_actorTable (hp : s.cursor < s.actorTableEnd) :
    parseTestCaseBuffer env s buf =
      (let cur := sub64 s.cursor tcHeaderSize
      let r := copyLoop s.actorTable cur s.actorTableSize buf.data
      finishParsing env
        { s with actorTable := r.1, cursor := add64 (cur + r.2) tcHeaderSize,
                 outOfBounds := s.outOfBounds || writesBeyond s.actorTableCap cur r.2 }
        r.2 buf.count) := by
  unfold parseTestCaseBuffer
  rw [if_neg (by simp [h]), if_pos hp]

theorem parse_symbolTable (hp₁ : ¬ s.cursor < s.actorTableEnd)
    (hp : s.cursor < s.symbolTableEnd) :
    parseTestCaseBuffer env s buf =
      (let cur := sub64 s.cursor s.actorTableEnd
      let r := copyLoop s.symbolTable cur s.symbolTableSize buf.data
      finishParsing env
        { s with symbolTable := r.1, cursor := add64 (cur + r.2) s.actorTableEnd,
                 outOfBounds := s.outOfBounds || writesBeyond s.symbolTableCap cur r.2 }
        r.2 buf.count) := by
  unfold parseTestCaseBuffer
  rw [if_neg (by simp [h]), if_neg hp₁, if_pos hp]

theorem parse_metadata (hp₁ : ¬ s.cursor < s.actorTableEnd) (hp₂ : ¬ s.cursor < s.symbolTableEnd)
    (hp : s.cursor < s.metadataEnd) :
    parseTestCaseBuffer env s buf =
      (let cur := sub64 s.cursor s.symbolTableEnd
      let r := copyLoop s.metadata cur s.metadataSize buf.data
      finishParsing env
        { s with metadata := r.1, cursor := add64 (cur + r.2) s.symbolTableEnd,
                 outOfBounds := s.outOfBounds || writesBeyond s.metadataCap cur r.2 }
        r.2 buf.count) := by
  unfold parseTestCaseBuffer
  rw [if_neg (by simp [h]), if_neg hp₁, if_neg hp₂, if_pos hp]

end Phases

namespace TcParser

/-- All tables are received. -/
def InDataPhase (s : TcParser) : Prop :=
  ¬ s.cursor < s.actorTableEnd ∧ ¬ s.cursor < s.symbolTableEnd ∧ ¬ s.cursor < s.metadataEnd

/-- The section bounds at the begin of a call in the data phase. -/
def enterSections (s : TcParser) : TcParser :=
  if s.currSectionId = 0 then
    { s with currSectionStart := s.metadataEnd
             currSectionEnd := add64 s.metadataEnd (s.sectionSize 0) }
  else s

@[simp] theorem enterSections_currSectionId (s : TcParser) :
    s.enterSections.currSectionId = s.currSectionId := by
  unfold enterSections; split <;> rfl

@[simp] theorem enterSections_metadata (s : TcParser) : s.enterSections.metadata = s.metadata := by
  unfold enterSections; split <;> rfl

@[simp] theorem enterSections_isReceivingTestCase (s : TcParser) :
    s.enterSections.isReceivingTestCase = s.isReceivingTestCase := by
  unfold enterSections; split <;> rfl

theorem enterSections_sectionSize (s : TcParser) (i : Nat) :
    s.enterSections.sectionSize i = s.sectionSize i := by
  rw [sectionSize, sectionSize, enterSections_metadata]

end TcParser

theorem copySection_isReceivingTestCase (s : TcParser) (buf : WriteBuf) :
    (copySection s buf).1.isReceivingTestCase = s.isReceivingTestCase := by
  unfold copySection
  dsimp only
  split <;> rfl

section DataPhase

variable (env : CallEnv) {s : TcParser} (buf : WriteBuf) (h : s.isReceivingTestCase = true)
  (hp : s.InDataPhase)
include h hp

theorem parse_oversize (hsize : maxSectionSize < s.sectionSize s.currSectionId) :
    parseTestCaseBuffer env s buf =
      ({ s.enterSections with isReceivingTestCase := false }, ⟨-1, false, 0⟩) := by
  have hcheck : maxSectionSize < s.enterSections.sectionSize s.enterSections.currSectionId := by
    rw [enterSections_sectionSize, enterSections_currSectionId]; exact hsize
  unfold parseTestCaseBuffer
  rw [if_neg (by simp [h]), if_neg hp.1, if_neg hp.2.1, if_neg hp.2.2]
  exact if_pos hcheck

theorem parse_section (hsize : ¬ maxSectionSize < s.sectionSize s.currSectionId) :
    parseTestCaseBuffer env s buf =
      finishParsing env (copySection s.enterSections buf).1 (copySection s.enterSections buf).2
        buf.count := by
  have hcheck : ¬ maxSectionSize < s.enterSections.sectionSize s.enterSections.currSectionId := by
    rw [enterSections_sectionSize, enterSections_currSectionId]; exact hsize
  unfold parseTestCaseBuffer
  rw [if_neg (by simp [h]), if_neg hp.1, if_neg hp.2.1, if_neg hp.2.2]
  exact if_neg hcheck

end DataPhase

/-- `tc_parsing_completed`. -/
def tcParsingCompleted (s : TcParser) : Bool := !s.isReceivingTestCase

end Rvzr.Km
