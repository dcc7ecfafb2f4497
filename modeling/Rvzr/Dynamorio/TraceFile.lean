import Rvzr.Lib.Records

/-!
Trace files of the DynamoRIO backend: the writer (`FileBackedBuf` of
backend/include/types/file_buffer.hpp with the entries of trace.hpp and debug_trace.hpp) and the
reader (`TraceDecoder` of trace_decoder.py).

The two kinds of entries share the buffer and the loop of the reader; both are written once over a
`Record`.
-/

namespace Rvzr.Dynamorio

open Rvzr.Lib

/-! ### Entries -/

/-- `trace_entry_type_t` and `TraceEntryType`. -/
inductive TraceEntryType where
  | eot | pc | read | write | exception | ind
  deriving Repr, DecidableEq

def TraceEntryType.toByte : TraceEntryType → UInt8
  | .eot => 0
  | .pc => 1
  | .read => 2
  | .write => 3
  | .exception => 4
  | .ind => 5

/-- `TraceEntryType(entry.type)`, which raises for an unknown number. -/
def TraceEntryType.ofByte : UInt8 → Option TraceEntryType
  | 0 => some .eot
  | 1 => some .pc
  | 2 => some .read
  | 3 => some .write
  | 4 => some .exception
  | 5 => some .ind
  | _ => none

/-- `struct trace_entry_t`. -/
structure TraceEntry where
  addr : UInt64
  size : UInt32
  type : TraceEntryType
  padding : Vector UInt8 3
  deriving DecidableEq

/-- `debug_trace_entry_type_t` and `DebugTraceEntryType`. -/
inductive DebugTraceEntryType where
  | eot | regDump | read | write | loc | exception | checkpoint | rollback | rollbackStore
  | regDumpExtended
  deriving Repr, DecidableEq

def DebugTraceEntryType.toByte : DebugTraceEntryType → UInt8
  | .eot => 0
  | .regDump => 1
  | .read => 2
  | .write => 3
  | .loc => 4
  | .exception => 5
  | .checkpoint => 6
  | .rollback => 7
  | .rollbackStore => 8
  | .regDumpExtended => 9

def DebugTraceEntryType.ofByte : UInt8 → Option DebugTraceEntryType
  | 0 => some .eot
  | 1 => some .regDump
  | 2 => some .read
  | 3 => some .write
  | 4 => some .loc
  | 5 => some .exception
  | 6 => some .checkpoint
  | 7 => some .rollback
  | 8 => some .rollbackStore
  | 9 => some .regDumpExtended
  | _ => none

/-- `struct debug_trace_entry_t`; `content` are the bytes of the union. -/
structure DebugTraceEntry where
  type : DebugTraceEntryType
  nestingLevel : UInt8
  padding : Vector UInt8 6
  content : Vector UInt8 56
  deriving DecidableEq

/-! ### Layout -/

theorem TraceEntryType.ofByte_toByte (t : TraceEntryType) : ofByte t.toByte = some t := by
  cases t <;> rfl

theorem DebugTraceEntryType.ofByte_toByte (t : DebugTraceEntryType) :
    ofByte t.toByte = some t := by
  cases t <;> rfl

/-- The bytes as a vector, if there are as many. -/
def toVector (n : Nat) (bs : List UInt8) : Option (Vector UInt8 n) :=
  if h : bs.length = n then some ⟨bs.toArray, by simpa using h⟩ else none

@[simp] theorem toVector_toList {n : Nat} (v : Vector UInt8 n) : toVector n v.toList = some v := by
  cases v with
  | mk a h => simp [toVector, h]

/-- The bytes of an entry in memory. -/
def TraceEntry.encode (e : TraceEntry) : List UInt8 :=
  leBytes 8 e.addr.toNat ++ leBytes 4 e.size.toNat ++ e.type.toByte :: e.padding.toList

/-- `_decode_trace_entry`. -/
def TraceEntry.decode (bs : List UInt8) : Option TraceEntry := do
  let type ← TraceEntryType.ofByte (← bs[12]?)
  let padding ← toVector 3 (bs.drop 13)
  return { addr := UInt64.ofNat (Mem.ofLe (bs.take 8))
           size := UInt32.ofNat (Mem.ofLe ((bs.drop 8).take 4))
           type := type, padding := padding }

def DebugTraceEntry.encode (e : DebugTraceEntry) : List UInt8 :=
  e.type.toByte :: e.nestingLevel :: (e.padding.toList ++ e.content.toList)

/-- `_decode_debug_trace_entry`. -/
def DebugTraceEntry.decode (bs : List UInt8) : Option DebugTraceEntry := do
  let type ← DebugTraceEntryType.ofByte (← bs[0]?)
  let nestingLevel ← bs[1]?
  let padding ← toVector 6 ((bs.drop 2).take 6)
  let content ← toVector 56 (bs.drop 8)
  return { type := type, nestingLevel := nestingLevel, padding := padding, content := content }

theorem TraceEntry.length_encode (e : TraceEntry) : e.encode.length = 16 := by
  simp [TraceEntry.encode]

theorem TraceEntry.decode_encode (e : TraceEntry) : decode e.encode = some e := by
  have htype : e.encode[12]? = some e.type.toByte := by
    rw [TraceEntry.encode, List.getElem?_append_right (by simp)]
    simp
  have hpad : e.encode.drop 13 = e.padding.toList := by
    rw [TraceEntry.encode, List.drop_append]
    simp
  have haddr : e.encode.take 8 = leBytes 8 e.addr.toNat := by
    rw [TraceEntry.encode, List.append_assoc, List.take_append_of_le_length (by simp),
      List.take_of_length_le (by simp)]
  have hsize : (e.encode.drop 8).take 4 = leBytes 4 e.size.toNat := by
    rw [TraceEntry.encode, List.append_assoc, List.drop_append_of_le_length (by simp),
      List.drop_of_length_le (by simp), List.nil_append, List.take_append_of_le_length (by simp),
      List.take_of_length_le (by simp)]
  have h64 : Mem.ofLe (leBytes 8 e.addr.toNat) = e.addr.toNat :=
    ofLe_leBytes 8 _ (by simpa using e.addr.toNat_lt)
  have h32 : Mem.ofLe (leBytes 4 e.size.toNat) = e.size.toNat :=
    ofLe_leBytes 4 _ (by simpa using e.size.toNat_lt)
  simp [TraceEntry.decode, htype, hpad, haddr, hsize, h64, h32, TraceEntryType.ofByte_toByte]

theorem DebugTraceEntry.length_encode (e : DebugTraceEntry) : e.encode.length = 64 := by
  simp [DebugTraceEntry.encode]

theorem DebugTraceEntry.decode_encode (e : DebugTraceEntry) : decode e.encode = some e := by
  have hpad : (e.encode.drop 2).take 6 = e.padding.toList := by
    rw [DebugTraceEntry.encode, List.drop_succ_cons, List.drop_succ_cons, List.drop_zero,
      List.take_append_of_le_length (by simp), List.take_of_length_le (by simp)]
  have hcontent : e.encode.drop 8 = e.content.toList := by
    rw [DebugTraceEntry.encode, List.drop_succ_cons, List.drop_succ_cons, List.drop_append]
    simp
  have htype : e.encode[0]? = some e.type.toByte := rfl
  have hnesting : e.encode[1]? = some e.nestingLevel := rfl
  simp [DebugTraceEntry.decode, htype, hnesting, hpad, hcontent,
    DebugTraceEntryType.ofByte_toByte]

/-- `trace_entry_t` as a record of 16 bytes. -/
def traceRecord : Record TraceEntry where
  size := 16
  encode := TraceEntry.encode
  decode := TraceEntry.decode
  size_pos := by decide
  length_encode := TraceEntry.length_encode
  decode_encode := TraceEntry.decode_encode

/-- `debug_trace_entry_t` as a record of 64 bytes. -/
def debugTraceRecord : Record DebugTraceEntry where
  size := 64
  encode := DebugTraceEntry.encode
  decode := DebugTraceEntry.decode
  size_pos := by decide
  length_encode := DebugTraceEntry.length_encode
  decode_encode := DebugTraceEntry.decode_encode

/-- What the two entry types fix: the layout, the marker of the file, the end of a trace. -/
structure Kind (α : Type) where
  record : Record α
  marker : UInt8
  isEot : α → Bool

/-- `'T'` and `'D'`. -/
def traceKind : Kind TraceEntry := ⟨traceRecord, 0x54, fun e => e.type == .eot⟩
def debugTraceKind : Kind DebugTraceEntry := ⟨debugTraceRecord, 0x44, fun e => e.type == .eot⟩

/-! ### The writer -/

/-- `FileBackedBuf`: the first `n_elems` entries of the array, whether the stream is open, and what
the backing file holds. -/
structure FileBackedBuf (α : Type) where
  elems : List α := []
  isOpen : Bool := false
  file : List UInt8 := []

namespace FileBackedBuf

variable {α : Type} (k : Kind α)

/-- `TracerABC::buf_sz` and `Logger::buf_sz`, and the number of entries that fit. -/
def bufSize : Nat := 8 * 1024
def maxElems : Nat := bufSize / k.record.size

/-- `stream.write`, which does nothing on a closed stream. -/
def write (b : FileBackedBuf α) (bs : List UInt8) : FileBackedBuf α :=
  if b.isOpen then { b with file := b.file ++ bs } else b

/-- `open`: the file is truncated, and gets the marker and seven bytes of padding. -/
def openFile (b : FileBackedBuf α) : FileBackedBuf α :=
  if b.isOpen then b
  else { b with isOpen := true, file := k.marker :: List.replicate 7 0 }

def flush (b : FileBackedBuf α) : FileBackedBuf α :=
  { b.write (b.elems.flatMap k.record.encode) with elems := [] }

def pushBack (b : FileBackedBuf α) (e : α) : FileBackedBuf α :=
  let b := { b with elems := b.elems ++ [e] }
  if b.elems.length = maxElems k then b.flush k else b

def clear (b : FileBackedBuf α) : FileBackedBuf α :=
  if !b.isOpen then b else { b.flush k with isOpen := false }

/-- What is done with an open buffer. -/
inductive Op (α : Type) where
  | pushBack (e : α)
  | flush

def apply (b : FileBackedBuf α) : Op α → FileBackedBuf α
  | .pushBack e => b.pushBack k e
  | .flush => b.flush k

/-- The entries pushed by a sequence of operations. -/
def pushed : List (Op α) → List α
  | [] => []
  | .pushBack e :: ops => e :: pushed ops
  | .flush :: ops => pushed ops

/-- The file after `open`, the operations and `clear`. -/
def written (ops : List (Op α)) : List UInt8 :=
  ((ops.foldl (apply k) (({} : FileBackedBuf α).openFile k)).clear k).file

end FileBackedBuf

/-! ### The reader -/

/-- The exceptions of the decoder: the text of the marker, an `assert`, a `ValueError`. -/
inductive DecodeError where
  | unicode
  | assertion
  | value
  deriving Repr, DecidableEq

/-- `read_trace_marker`: the marker, if there is one, and the bytes after the padding. -/
def readTraceMarker (bs : List UInt8) : Except DecodeError (Option UInt8 × List UInt8) :=
  match bs with
  | [] => .ok (none, [])
  | b :: bs =>
    if 0x80 ≤ b then .error .unicode
    else if b = 0x54 ∨ b = 0x44 then .ok (some b, bs.drop 7)
    else .error .assertion

/-- `decode_trace_file` and `decode_debug_trace_file`. -/
def decodeFile {α : Type} (k : Kind α) (bs : List UInt8) : Except DecodeError (List (List α)) := do
  match ← readTraceMarker bs with
  | (none, _) => return []
  | (some marker, bs) =>
    if marker ≠ k.marker then throw .assertion
    match readGroups k.record k.isEot [] (completeChunks k.record.size bs) with
    | .ok traces => return traces
    | .error _ => throw .value

def decodeTraceFile : List UInt8 → Except DecodeError (List (List TraceEntry)) :=
  decodeFile traceKind

def decodeDebugTraceFile : List UInt8 → Except DecodeError (List (List DebugTraceEntry)) :=
  decodeFile debugTraceKind

/-! ### The round trip -/

section RoundTrip

open FileBackedBuf

variable {α : Type} {k : Kind α}

/-- The array has room for one more entry, and file and array together hold the header and the
entries. -/
structure Holds (k : Kind α) (b : FileBackedBuf α) (es : List α) : Prop where
  isOpen : b.isOpen = true
  room : b.elems.length < maxElems k
  bytes : b.file ++ b.elems.flatMap k.record.encode =
    k.marker :: List.replicate 7 0 ++ es.flatMap k.record.encode

theorem Holds.flush {b : FileBackedBuf α} {es : List α} (h : Holds k b es) :
    Holds k (b.flush k) es := by
  have hroom := h.room
  refine ⟨?_, ?_, ?_⟩
  · simp [FileBackedBuf.flush, FileBackedBuf.write, h.isOpen]
  · show 0 < maxElems k
    omega
  · simpa [FileBackedBuf.flush, FileBackedBuf.write, h.isOpen] using h.bytes

theorem Holds.pushBack {b : FileBackedBuf α} {es : List α} (h : Holds k b es) (e : α) :
    Holds k (b.pushBack k e) (es ++ [e]) := by
  have hbytes : b.file ++ (b.elems ++ [e]).flatMap k.record.encode =
      k.marker :: List.replicate 7 0 ++ (es ++ [e]).flatMap k.record.encode := by
    rw [List.flatMap_append, List.flatMap_append, ← List.append_assoc, h.bytes, List.append_assoc]
  have hroom := h.room
  simp only [FileBackedBuf.pushBack]
  split
  · -- the array is full: it is spilled
    refine ⟨?_, ?_, ?_⟩
    · simp [FileBackedBuf.flush, FileBackedBuf.write, h.isOpen]
    · show 0 < maxElems k
      omega
    · simpa [FileBackedBuf.flush, FileBackedBuf.write, h.isOpen] using hbytes
  · rename_i hne
    simp only [List.length_append, List.length_singleton] at hne
    refine ⟨h.isOpen, ?_, hbytes⟩
    simp only [List.length_append, List.length_singleton]
    omega

theorem Holds.apply {b : FileBackedBuf α} {es : List α} (h : Holds k b es) (ops : List (Op α)) :
    Holds k (ops.foldl (FileBackedBuf.apply k) b) (es ++ pushed ops) := by
  induction ops generalizing b es with
  | nil => simpa [pushed] using h
  | cons op ops ih =>
    cases op with
    | pushBack e => simpa [pushed, FileBackedBuf.apply] using ih (h.pushBack e)
    | flush => simpa [pushed, FileBackedBuf.apply] using ih h.flush

/-- The bytes of the file do not depend on when the array was spilled. -/
theorem written_eq (hk : 0 < maxElems k) (ops : List (Op α)) :
    written k ops = k.marker :: List.replicate 7 0 ++ (pushed ops).flatMap k.record.encode := by
  have hinit : Holds k (({} : FileBackedBuf α).openFile k) [] := by
    refine ⟨?_, hk, ?_⟩
    · simp [FileBackedBuf.openFile]
    · simp [FileBackedBuf.openFile]
  have hfinal := hinit.apply ops
  rw [List.nil_append] at hfinal
  rw [← hfinal.bytes]
  simp [written, FileBackedBuf.clear, FileBackedBuf.flush, FileBackedBuf.write, hfinal.isOpen]

theorem decodeFile_header (hk : k.marker = 0x54 ∨ k.marker = 0x44) (es : List α) :
    decodeFile k (k.marker :: List.replicate 7 0 ++ es.flatMap k.record.encode) =
      match readGroups k.record k.isEot [] (es.map k.record.encode) with
      | .ok traces => .ok traces
      | .error _ => .error .value := by
  have hmarker : readTraceMarker (k.marker :: List.replicate 7 0 ++ es.flatMap k.record.encode) =
      .ok (some k.marker, es.flatMap k.record.encode) := by
    rw [List.cons_append]
    unfold readTraceMarker
    cases hk with
    | inl h => rw [h]; rfl
    | inr h => rw [h]; rfl
  rw [← completeChunks_encode]
  unfold decodeFile
  rw [hmarker]
  show (if k.marker ≠ k.marker then _ else _) = _
  rw [if_neg (by simp)]
  rfl

theorem decodeFile_written (hk : 0 < maxElems k) (hm : k.marker = 0x54 ∨ k.marker = 0x44)
    {ops : List (Op α)} {traces : List (List α)} (hops : pushed ops = traces.flatten)
    (htraces : ∀ t ∈ traces, EndsOnce k.isEot t) :
    decodeFile k (written k ops) = .ok traces := by
  rw [written_eq hk, decodeFile_header hm, hops, readGroups_encode htraces]

end RoundTrip

/-- Traces that are ended by an EOT entry each are read back from the file as they were pushed,
whenever the buffer was flushed. -/
theorem traceFile_roundTrip :
    (∀ (ops : List (FileBackedBuf.Op TraceEntry)) (traces : List (List TraceEntry)),
      FileBackedBuf.pushed ops = traces.flatten →
      (∀ t ∈ traces, EndsOnce (fun e => e.type == .eot) t) →
      decodeTraceFile (FileBackedBuf.written traceKind ops) = .ok traces) ∧
    (∀ (ops : List (FileBackedBuf.Op DebugTraceEntry)) (traces : List (List DebugTraceEntry)),
      FileBackedBuf.pushed ops = traces.flatten →
      (∀ t ∈ traces, EndsOnce (fun e => e.type == .eot) t) →
      decodeDebugTraceFile (FileBackedBuf.written debugTraceKind ops) = .ok traces) :=
  ⟨fun _ _ hops ht => decodeFile_written (by decide) (Or.inl rfl) hops ht,
    fun _ _ hops ht => decodeFile_written (by decide) (Or.inr rfl) hops ht⟩

def sampleEot : TraceEntry := ⟨0, 0, .eot, Vector.replicate 3 0⟩
def samplePc : TraceEntry := ⟨0x1000, 0, .pc, Vector.replicate 3 0⟩

/-- An empty trace and one with an entry, with a flush in the middle of the second. -/
theorem traceFile_roundTrip_sample :
    decodeTraceFile (FileBackedBuf.written traceKind
      [.pushBack sampleEot, .pushBack samplePc, .flush, .pushBack sampleEot]) =
      .ok [[sampleEot], [samplePc, sampleEot]] := by
  refine traceFile_roundTrip.1 _ [[sampleEot], [samplePc, sampleEot]] rfl ?_
  intro t ht
  simp only [List.mem_cons, List.not_mem_nil, or_false] at ht
  cases ht with
  | inl h => exact ⟨[], sampleEot, h, by simp, rfl⟩
  | inr h => exact ⟨[samplePc], sampleEot, h, by simp [samplePc], rfl⟩

end Rvzr.Dynamorio
