import Rvzr.Km.WholeFile

/-!
# The RCBF decoder of the DynamoRIO adapter

`parse_rcbf` of `model_dynamorio/adapter/parser.c` reads the file table by table and gives up at
the first table that is not there. It is compared with the kernel parser of `Rvzr.Km` on the
same file: `decoders_agree_iff` says for which files both accept the same tables or both reject.
The adapter bounds the actors and asks for a symbol, the kernel bounds the symbols and the
sections, and only the kernel counts a byte for an empty section.
-/

namespace Rvzr.Dynamorio

open Rvzr.Lib Rvzr.Km

/-- `MAX_ACTORS` of the adapter. -/
def maxActors : Nat := 16

/-- `sizeof(rcbf_t)`. -/
def sizeofRcbf : Nat := 48

/-- `rcbf_t`: the tables as they stand in the file. `outOfBounds` records that a section was
read beyond the end of the array of sections. -/
structure Rcbf where
  nActors : Nat
  nSymbols : Nat
  actorTable : List UInt8
  symbolTable : List UInt8
  sectionMetadata : List UInt8
  sections : Mem
  outOfBounds : Bool

/-- A word of a table. -/
def tableWord (bytes : List UInt8) (off : Nat) : Nat := Mem.word64 (fun i => bytes.getD i 0) off

/-- `section_metadata[i].size`. -/
def metadataSize (sectionMetadata : List UInt8) (i : Nat) : Nat :=
  tableWord sectionMetadata (tcSectionMetadataEntrySize * i + 8)

/-- `fread` of `n` items, with the rest of the file; `none` when there are fewer. -/
def fread (size n : Nat) (rest : List UInt8) : Option (List UInt8 × List UInt8) :=
  if rest.length < size * n then none else some (rest.take (size * n), rest.drop (size * n))

/-- The loop over the sections, with `left` sections from section `i` on. Every section has a
slot of `MAX_SECTION_SIZE` bytes, which is not compared with its size. -/
def readSections (sectionMetadata : List UInt8) (nActors : Nat) :
    Nat → Nat → Mem → Bool → List UInt8 → Option (Mem × Bool)
  | 0, _, sections, oob, _ => some (sections, oob)
  | left + 1, i, sections, oob, rest =>
    let size := metadataSize sectionMetadata i
    match fread 1 size rest with
    | none => none
    | some (code, rest) =>
      readSections sectionMetadata nActors left (i + 1)
        (sections.write (maxSectionSize * i) code)
        (oob || decide (maxSectionSize * nActors < maxSectionSize * i + size)) rest

/-- The tables behind the header. -/
def readTables (malloc : Nat → Bool) (garbage : Mem) (nActors nSymbols : Nat)
    (rest : List UInt8) : Option Rcbf :=
  if malloc (mul64 nActors actorMetadataSize) = false then none
  else
    match fread actorMetadataSize nActors rest with
    | none => none
    | some (actorTable, rest) =>
      if malloc (mul64 nSymbols tcSymbolEntrySize) = false then none
      else
        match fread tcSymbolEntrySize nSymbols rest with
        | none => none
        | some (symbolTable, rest) =>
          if malloc (mul64 nActors tcSectionMetadataEntrySize) = false then none
          else
            match fread tcSectionMetadataEntrySize nActors rest with
            | none => none
            | some (sectionMetadata, rest) =>
              if malloc (mul64 nActors maxSectionSize) = false then none
              else
                match readSections sectionMetadata nActors nActors 0 garbage false rest with
                | none => none
                | some (sections, oob) =>
                  some ⟨nActors, nSymbols, actorTable, symbolTable, sectionMetadata, sections, oob⟩

/-- `parse_rcbf` (`parser.c:18-103`); `none` is an exit with an error. -/
def parseRcbf (malloc : Nat → Bool) (garbage : Mem) (file : List UInt8) : Option Rcbf :=
  if malloc sizeofRcbf = false then none
  else
    match fread tcHeaderSize 1 file with
    | none => none
    | some (header, rest) =>
      let nActors := tableWord header 0
      let nSymbols := tableWord header 8
      if nActors = 0 ∨ maxActors < nActors then none
      else if nSymbols = 0 then none
      else readTables malloc garbage nActors nSymbols rest

/-- The tables are those of the kernel. -/
structure SameTables (s : TcParser) (r : Rcbf) : Prop where
  nActors : s.nActors = r.nActors
  nSymbols : s.nSymbols = r.nSymbols
  actorTable : s.actorTable.read 0 (actorMetadataSize * r.nActors) = r.actorTable
  symbolTable : s.symbolTable.read 0 (tcSymbolEntrySize * r.nSymbols) = r.symbolTable
  metadata : s.metadata.read 0 (tcSectionMetadataEntrySize * r.nActors) = r.sectionMetadata
  sections : ∀ i, i < r.nActors →
    s.sections.read (maxSectionSize * i) (metadataSize r.sectionMetadata i) =
      r.sections.read (maxSectionSize * i) (metadataSize r.sectionMetadata i)

/-- Both decoders reject a file, or both accept it with the same tables. -/
def DecodersAgree : Option TcParser → Option Rcbf → Prop
  | none, none => True
  | some s, some r => SameTables s r
  | none, some _ => False
  | some _, none => False

/-- The file ends before its tables and its sections do. -/
def TooShort (f : RcbfFile) : Prop := f.bytes.length < f.sectionAt f.nActors

/-- The limits of the adapter. -/
structure AdapterLimits (f : RcbfFile) : Prop where
  actors_pos : 1 ≤ f.nActors
  actors_le : f.nActors ≤ maxActors
  symbols_pos : 1 ≤ f.nSymbols

/-- The limits of the kernel. Empty sections at the end take a byte each. -/
structure KernelLimits (f : RcbfFile) : Prop where
  roomy : f.Roomy
  sections : ∀ j, j < f.nActors → f.sectionSize j ≤ maxSectionSize
  padded : f.sectionAt f.nActors + f.skipped f.nActors ≤ f.bytes.length

/-- The bytes that empty sections take from the sections behind them are zero. -/
def SkippedZero (f : RcbfFile) : Prop :=
  ∀ j, j < f.nActors → ∀ p, p < f.skipped j → p < f.sectionSize j →
    f.mem (f.sectionAt j + p) = 0

/-- The files on which the decoders agree. -/
def Agreeable (f : RcbfFile) : Prop :=
  TooShort f ∨ (AdapterLimits f ∧ KernelLimits f ∧ SkippedZero f) ∨
    (¬ AdapterLimits f ∧ ¬ KernelLimits f)

section Tables

variable {f : RcbfFile} {malloc : Nat → Bool} {garbage : Mem} {c size n : Nat}

theorem fread_file :
    fread size n (f.bytes.drop c) =
      if f.bytes.length < c + size * n ∧ size * n ≠ 0 then none
      else some ((f.bytes.drop c).take (size * n), f.bytes.drop (c + size * n)) := by
  unfold fread
  rw [List.length_drop, List.drop_drop]
  by_cases hshort : f.bytes.length < c + size * n ∧ size * n ≠ 0
  · rw [if_pos hshort, if_pos (by omega)]
  · rw [if_neg hshort, if_neg (by omega)]

/-- A word of a table that was read from position `c` on. -/
theorem tableWord_file {off : Nat} (hoff : off + 8 ≤ n) :
    tableWord ((f.bytes.drop c).take n) off = f.mem.word64 (c + off) := by
  unfold tableWord
  apply word64_shifted
  intro i hi
  rw [List.getD_eq_getElem?_getD, List.getElem?_take, if_pos (by omega), f.mem_drop]
  congr 1
  omega

/-- The section metadata of a file. -/
def metadataOf (f : RcbfFile) : List UInt8 :=
  (f.bytes.drop f.metadataAt).take (tcSectionMetadataEntrySize * f.nActors)

theorem metadataSize_file {i : Nat} (hi : i < f.nActors) :
    metadataSize (metadataOf f) i = f.sectionSize i := by
  unfold metadataSize metadataOf RcbfFile.sectionSize
  exact tableWord_file (by unfold tcSectionMetadataEntrySize; omega)

/-- The memory holds the sections in front of section `i`. -/
def HoldsSections (f : RcbfFile) (i : Nat) (m : Mem) : Prop :=
  ∀ j, j < i → ∀ p, p < f.sectionSize j → m (maxSectionSize * j + p) = f.mem (f.sectionAt j + p)

theorem HoldsSections.write {i : Nat} {m : Mem} (h : HoldsSections f i m)
    (hsize : ∀ j, j ≤ i → f.sectionSize j ≤ maxSectionSize)
    (hlong : f.sectionAt (i + 1) ≤ f.bytes.length) :
    HoldsSections f (i + 1) (m.write (maxSectionSize * i)
      ((f.bytes.drop (f.sectionAt i)).take (f.sectionSize i))) := by
  have hend : f.sectionAt (i + 1) = f.sectionAt i + f.sectionSize i := rfl
  intro j hj p hp
  by_cases hji : j = i
  · subst hji
    refine write_hasBytes m (maxSectionSize * j) _ p _ ?_
    rw [List.getElem?_take, if_pos hp, List.getElem?_drop, List.getElem?_eq_getElem (by omega)]
    congr 1
    unfold RcbfFile.mem
    rw [List.getD_eq_getElem?_getD, List.getElem?_eq_getElem (by omega)]
    rfl
  · have hle := hsize j (by omega)
    have hbefore : maxSectionSize * j + p < maxSectionSize * i := by
      unfold maxSectionSize at *
      omega
    rw [write_other m (Or.inl hbefore)]
    exact h j (by omega) p hp

theorem sectionAt_mono (f : RcbfFile) (i k : Nat) : f.sectionAt i ≤ f.sectionAt (i + k) := by
  induction k with
  | zero => exact Nat.le_refl _
  | succ k ih => exact Nat.le_trans ih (Nat.le_add_right _ _)

/-- The loop reads all sections when the file is long enough. -/
theorem readSections_file {left i : Nat} {m : Mem} {oob : Bool} (hleft : i + left = f.nActors)
    (hc : f.sectionAt i ≤ f.bytes.length) :
    (f.sectionAt f.nActors ≤ f.bytes.length → ∃ m' oob',
        readSections (metadataOf f) f.nActors left i m oob (f.bytes.drop (f.sectionAt i)) =
          some (m', oob') ∧
        ((∀ j, j < f.nActors → f.sectionSize j ≤ maxSectionSize) → HoldsSections f i m →
          HoldsSections f f.nActors m')) ∧
      (f.bytes.length < f.sectionAt f.nActors →
        readSections (metadataOf f) f.nActors left i m oob (f.bytes.drop (f.sectionAt i)) =
          none) := by
  induction left generalizing i m oob with
  | zero =>
    have heq : i = f.nActors := hleft
    subst heq
    exact ⟨fun _ => ⟨m, oob, rfl, fun _ h => h⟩, fun h => by omega⟩
  | succ left ih =>
    have hend : f.sectionAt (i + 1) = f.sectionAt i + f.sectionSize i := rfl
    have hlast := sectionAt_mono f (i + 1) left
    rw [show i + 1 + left = f.nActors by omega] at hlast
    rw [readSections, metadataSize_file (by omega), fread_file, Nat.one_mul, ← hend]
    by_cases hread : f.sectionAt (i + 1) ≤ f.bytes.length
    · rw [if_neg (by omega)]
      dsimp only
      obtain ⟨hlong, hshort⟩ := @ih (i + 1) (m.write (maxSectionSize * i)
        ((f.bytes.drop (f.sectionAt i)).take (f.sectionSize i)))
        (oob || decide (maxSectionSize * f.nActors < maxSectionSize * i + f.sectionSize i))
        (by omega) hread
      refine ⟨fun hall => ?_, hshort⟩
      obtain ⟨m', oob', heq, hholds⟩ := hlong hall
      refine ⟨m', oob', heq, fun hsize hm => hholds hsize ?_⟩
      exact hm.write (fun j hj => hsize j (by omega)) hread
    · rw [if_pos (by omega)]
      exact ⟨fun hall => by omega, fun _ => rfl⟩

/-- The tables that the adapter has read. -/
structure Parsed (f : RcbfFile) (r : Rcbf) : Prop where
  nActors : r.nActors = f.nActors
  nSymbols : r.nSymbols = f.nSymbols
  actorTable : r.actorTable = (f.bytes.drop 16).take (actorMetadataSize * f.nActors)
  symbolTable : r.symbolTable =
    (f.bytes.drop f.symbolTableAt).take (tcSymbolEntrySize * f.nSymbols)
  metadata : r.sectionMetadata = metadataOf f
  sections : (∀ j, j < f.nActors → f.sectionSize j ≤ maxSectionSize) →
    HoldsSections f f.nActors r.sections

theorem readTables_file (hmalloc : ∀ n, malloc n = true) (h16 : 16 ≤ f.bytes.length) :
    (f.sectionAt f.nActors ≤ f.bytes.length →
        ∃ r, readTables malloc garbage f.nActors f.nSymbols (f.bytes.drop 16) = some r ∧
          Parsed f r) ∧
      (f.bytes.length < f.sectionAt f.nActors →
        readTables malloc garbage f.nActors f.nSymbols (f.bytes.drop 16) = none) := by
  have hdata : f.dataAt ≤ f.sectionAt f.nActors := by
    have := sectionAt_mono f 0 f.nActors
    rw [Nat.zero_add] at this
    exact this
  have hle := f.table_order
  have hactor : 16 + actorMetadataSize * f.nActors = f.symbolTableAt := rfl
  have hsymbol : f.symbolTableAt + tcSymbolEntrySize * f.nSymbols = f.metadataAt := rfl
  have hmeta : f.metadataAt + tcSectionMetadataEntrySize * f.nActors = f.dataAt := rfl
  unfold readTables
  rw [hmalloc, if_neg (by simp), fread_file, hactor]
  by_cases hc₁ : f.symbolTableAt ≤ f.bytes.length
  · rw [if_neg (by omega)]
    dsimp only
    rw [hmalloc, if_neg (by simp), fread_file, hsymbol]
    by_cases hc₂ : f.metadataAt ≤ f.bytes.length
    · rw [if_neg (by omega)]
      dsimp only
      rw [hmalloc, if_neg (by simp), fread_file, hmeta]
      by_cases hc₃ : f.dataAt ≤ f.bytes.length
      · rw [if_neg (by omega)]
        dsimp only
        rw [hmalloc, if_neg (by simp)]
        obtain ⟨hlong, hshort⟩ := @readSections_file f f.nActors 0 garbage false
          (Nat.zero_add _) hc₃
        refine ⟨fun hall => ?_, fun hno => ?_⟩
        · obtain ⟨m, oob, heq, hholds⟩ := hlong hall
          rw [show f.bytes.drop f.dataAt = f.bytes.drop (f.sectionAt 0) from rfl,
            show (f.bytes.drop f.metadataAt).take (tcSectionMetadataEntrySize * f.nActors) =
              metadataOf f from rfl, heq]
          exact ⟨_, rfl, rfl, rfl, rfl, rfl, rfl,
            fun hsize => hholds hsize fun j hj => by omega⟩
        · rw [show f.bytes.drop f.dataAt = f.bytes.drop (f.sectionAt 0) from rfl,
            show (f.bytes.drop f.metadataAt).take (tcSectionMetadataEntrySize * f.nActors) =
              metadataOf f from rfl, hshort hno]
      · rw [if_pos (by omega)]
        exact ⟨fun h => by omega, fun _ => rfl⟩
    · rw [if_pos (by omega)]
      exact ⟨fun h => by omega, fun _ => rfl⟩
  · rw [if_pos (by omega)]
    exact ⟨fun h => by omega, fun _ => rfl⟩

/-- When the adapter accepts a file. -/
theorem parseRcbf_spec (hmalloc : ∀ n, malloc n = true) :
    (AdapterLimits f ∧ ¬ TooShort f → ∃ r, parseRcbf malloc garbage f.bytes = some r ∧
        Parsed f r) ∧
      (¬ (AdapterLimits f ∧ ¬ TooShort f) → parseRcbf malloc garbage f.bytes = none) := by
  have hdata : 16 ≤ f.sectionAt f.nActors := by
    have hle := f.table_order
    have := sectionAt_mono f 0 f.nActors
    rw [Nat.zero_add] at this
    have hzero : f.sectionAt 0 = f.dataAt := rfl
    omega
  unfold TooShort parseRcbf
  rw [hmalloc, if_neg (by simp)]
  have hheader := @fread_file f 0 tcHeaderSize 1
  rw [List.drop_zero, Nat.zero_add] at hheader
  rw [hheader]
  by_cases h16 : 16 ≤ f.bytes.length
  · rw [if_neg (by unfold tcHeaderSize; omega)]
    dsimp only
    have hw0 : tableWord (f.bytes.take (tcHeaderSize * 1)) 0 = f.nActors := by
      have := @tableWord_file f 0 (tcHeaderSize * 1) 0 (by decide)
      rw [List.drop_zero] at this
      rw [this, RcbfFile.nActors]
    have hw8 : tableWord (f.bytes.take (tcHeaderSize * 1)) 8 = f.nSymbols := by
      have := @tableWord_file f 0 (tcHeaderSize * 1) 8 (by decide)
      rw [List.drop_zero] at this
      rw [this, RcbfFile.nSymbols]
    rw [hw0, hw8]
    by_cases hact : f.nActors = 0 ∨ maxActors < f.nActors
    · rw [if_pos hact]
      refine ⟨fun h => ?_, fun _ => rfl⟩
      have h₁ := h.1.actors_pos
      have h₂ := h.1.actors_le
      omega
    · rw [if_neg hact]
      by_cases hsym : f.nSymbols = 0
      · rw [if_pos hsym]
        refine ⟨fun h => ?_, fun _ => rfl⟩
        have := h.1.symbols_pos
        omega
      · rw [if_neg hsym]
        obtain ⟨hlong, hshort⟩ := @readTables_file f malloc garbage hmalloc h16
        refine ⟨fun h => hlong (Nat.not_lt.mp h.2), fun h => hshort ?_⟩
        by_contra hno
        exact h ⟨⟨by omega, by omega, by omega⟩, hno⟩
  · rw [if_pos (by unfold tcHeaderSize; omega)]
    refine ⟨fun h => ?_, fun _ => rfl⟩
    have := h.2
    omega

end Tables

section Agreement

variable {f : RcbfFile} {s : TcParser} {r : Rcbf}

/-- A table of the kernel as the bytes of the file. -/
theorem read_file {m : Mem} {c n : Nat} (h : ∀ j, j < n → m j = f.mem (c + j))
    (hlen : c + n ≤ f.bytes.length) : m.read 0 n = (f.bytes.drop c).take n := by
  apply List.ext_getElem?
  intro i
  rw [read_getElem?, List.getElem?_take, Nat.zero_add]
  by_cases hi : i < n
  · rw [if_pos hi, if_pos hi, h i hi, ← f.mem_drop, List.getElem?_drop,
      List.getElem?_eq_getElem (by omega)]
    rfl
  · rw [if_neg hi, if_neg hi]

theorem read_eq_iff {m m' : Mem} {c n : Nat} :
    m.read c n = m'.read c n ↔ ∀ p, p < n → m (c + p) = m' (c + p) := by
  constructor
  · intro h p hp
    have := congrArg (fun l => l[p]?) h
    rw [read_getElem?, read_getElem?, if_pos hp, if_pos hp] at this
    exact Option.some.inj this
  · intro h
    apply List.ext_getElem?
    intro i
    rw [read_getElem?, read_getElem?]
    by_cases hi : i < n
    · rw [if_pos hi, if_pos hi, h i hi]
    · rw [if_neg hi, if_neg hi]

/-- Two accepted tables differ in the bytes that empty sections have taken, and in no other. -/
theorem sameTables_iff (hrec : Received f s) (hpar : Parsed f r) (ha : AdapterLimits f)
    (hk : KernelLimits f) : SameTables s r ↔ SkippedZero f := by
  have hle := f.table_order
  have hdata : f.dataAt ≤ f.sectionAt f.nActors := by
    have := sectionAt_mono f 0 f.nActors
    rw [Nat.zero_add] at this
    exact this
  have hlen := hk.padded
  have hact : f.nActors ≤ 16 := ha.actors_le
  have hslot : ∀ j, j < f.nActors → ∀ p, p < f.sectionSize j →
      s.sections (maxSectionSize * j + p) =
        if f.skipped j ≤ p then f.mem (f.sectionAt j + p) else 0 := by
    intro j hj p hp
    rw [hrec.sections hact j hj p (Nat.lt_of_lt_of_le hp (hk.sections j hj))]
    have hspan : f.sectionSize j - f.skipped j ≤ f.copied j := Nat.le_max_right _ _
    by_cases hskip : f.skipped j ≤ p
    · rw [if_pos ⟨hskip, by omega⟩, if_pos hskip]
    · rw [if_neg (fun h => hskip h.1), if_neg hskip]
  have hholds := hpar.sections hk.sections
  constructor
  · intro h j hj p hskip hp
    have hsame := h.sections j (by rw [hpar.nActors]; exact hj)
    rw [hpar.metadata, metadataSize_file hj, read_eq_iff] at hsame
    have := hsame p hp
    rw [hslot j hj p hp, if_neg (Nat.not_le.mpr hskip), hholds j hj p hp] at this
    exact this.symm
  · intro hzero
    refine ⟨hrec.nActors.trans hpar.nActors.symm, hrec.nSymbols.trans hpar.nSymbols.symm, ?_, ?_,
      ?_, fun j hj => ?_⟩
    · rw [hpar.nActors, hpar.actorTable]
      refine read_file hrec.actorTable ?_
      show f.symbolTableAt ≤ f.bytes.length
      omega
    · rw [hpar.nSymbols, hpar.symbolTable]
      refine read_file hrec.symbolTable ?_
      show f.metadataAt ≤ f.bytes.length
      omega
    · rw [hpar.nActors, hpar.metadata]
      refine read_file hrec.metadata ?_
      show f.dataAt ≤ f.bytes.length
      omega
    · rw [hpar.nActors] at hj
      rw [hpar.metadata, metadataSize_file hj, read_eq_iff]
      intro p hp
      rw [hslot j hj p hp, hholds j hj p hp]
      by_cases hskip : f.skipped j ≤ p
      · rw [if_pos hskip]
      · rw [if_neg hskip, hzero j hj p (Nat.not_le.mp hskip) hp]

theorem kernelLimits_iff : KernelLimits f ↔ f.Roomy ∧ SectionsComplete f 0 := by
  constructor
  · intro h
    exact ⟨h.roomy, fun j _ hj => h.sections j hj, h.padded⟩
  · intro h
    exact ⟨h.1, fun j hj => h.2.1 j (Nat.zero_le _) hj, h.2.2⟩

/-- With memory for the tables, the adapter and the kernel agree on a file if and only if the
file is too short for both, or keeps the limits of both with nothing lost to an empty section, or
breaks limits of both. -/
theorem decoders_agree_iff {calls : Nat → KernelCall} {malloc : Nat → Bool}
    (garbage garbage' : Mem) (f : RcbfFile) (henv : AmpleMemory (calls 0).env)
    (hmalloc : ∀ n, malloc n = true) :
    DecodersAgree (kernelDecode calls garbage f) (parseRcbf malloc garbage' f.bytes) ↔
      Agreeable f := by
  obtain ⟨hkyes, hkno⟩ := @kernelDecode_spec calls garbage f henv
  obtain ⟨hayes, hano⟩ := @parseRcbf_spec f malloc garbage' hmalloc
  rw [← kernelLimits_iff] at hkyes hkno
  have hlong : KernelLimits f → ¬ TooShort f := fun hk hshort => by
    have := hk.padded
    unfold TooShort at hshort
    omega
  unfold Agreeable
  by_cases hk : KernelLimits f
  · obtain ⟨s, hs, hrec⟩ := hkyes hk
    have hlong' := hlong hk
    rw [hs]
    by_cases ha : AdapterLimits f
    · obtain ⟨r, hr, hpar⟩ := hayes ⟨ha, hlong'⟩
      rw [hr]
      show SameTables s r ↔ _
      rw [sameTables_iff hrec hpar ha hk]
      constructor
      · intro h
        exact Or.inr (Or.inl ⟨ha, hk, h⟩)
      · rintro (h | h | h)
        · exact absurd h hlong'
        · exact h.2.2
        · exact absurd ha h.1
    · rw [hano fun h => ha h.1]
      show False ↔ _
      constructor
      · exact False.elim
      · rintro (h | h | h)
        · exact hlong' h
        · exact ha h.1
        · exact h.2 hk
  · rw [hkno hk]
    by_cases ha : AdapterLimits f ∧ ¬ TooShort f
    · obtain ⟨r, hr, -⟩ := hayes ha
      rw [hr]
      show False ↔ _
      constructor
      · exact False.elim
      · rintro (h | h | h)
        · exact ha.2 h
        · exact hk h.2.1
        · exact h.1 ha.1
    · rw [hano ha]
      show True ↔ _
      refine ⟨fun _ => ?_, fun _ => trivial⟩
      by_cases hshort : TooShort f
      · exact Or.inl hshort
      · exact Or.inr (Or.inr ⟨fun h => ha ⟨h, hshort⟩, hk⟩)

end Agreement

section Samples

/-- A file with one actor, one symbol and a section of the given size. -/
def sectionFile (size : Nat) : List UInt8 :=
  encodeWords ([1, 1] ++ List.replicate 10 0 ++ [0, size, 0]) ++ List.replicate size 0x90

def smallFile : RcbfFile := ⟨sectionFile 2, by decide⟩

/-- The section is one byte too long for its slot. -/
def oversizeFile : RcbfFile := ⟨sectionFile 4097, by
  rw [sectionFile, List.length_append, length_encodeWords, List.length_replicate]
  decide⟩

def fileCalls (_ : Nat) : KernelCall := ⟨sampleEnv, fun _ => 0⟩

theorem sampleEnv_ample : AmpleMemory sampleEnv :=
  ⟨fun n => by simp [sampleEnv, kmallocMaxSize], fun _ => rfl⟩

theorem smallFile_agreeable : Agreeable smallFile := by
  have hvals : smallFile.nActors = 1 ∧ smallFile.nSymbols = 1 ∧ smallFile.sectionSize 0 = 2 := by
    decide +kernel
  obtain ⟨hact, hsym, hsize⟩ := hvals
  have hfirst : ∀ j, j < 1 → j = 0 := fun j hj => by omega
  have hend : smallFile.sectionAt 1 = 122 ∧ smallFile.skipped 1 = 0 := by
    rw [RcbfFile.sectionAt, RcbfFile.skipped, RcbfFile.sectionAt, RcbfFile.skipped, hsize,
      RcbfFile.dataAt, RcbfFile.metadataAt, RcbfFile.symbolTableAt, hact, hsym]
    decide
  refine Or.inr (Or.inl ⟨⟨by omega, ?_, by omega⟩, ⟨⟨by omega, ?_, ?_⟩, fun j hj => ?_, ?_⟩,
    fun j hj p hp => ?_⟩)
  · rw [hact]
    decide
  · rw [hact]
    decide
  · rw [hsym]
    decide
  · rw [hact] at hj
    rw [hfirst j hj, hsize]
    decide
  · rw [hact, hend.1, hend.2]
    decide
  · rw [hact] at hj
    rw [hfirst j hj] at hp
    exact absurd hp (Nat.not_lt_zero p)

theorem decoders_agree_small :
    DecodersAgree (kernelDecode fileCalls (fun _ => 0) smallFile)
      (parseRcbf (fun _ => true) (fun _ => 0) smallFile.bytes) := by
  have henv : AmpleMemory (fileCalls 0).env := sampleEnv_ample
  have hmalloc : ∀ n : Nat, (fun _ => true) n = true := fun _ => rfl
  exact (decoders_agree_iff (fun _ => 0) (fun _ => 0) smallFile henv hmalloc).mpr
    smallFile_agreeable

/-- The adapter accepts the section that does not fit, the kernel rejects it. -/
theorem oversizeFile_not_agree :
    AmpleMemory (fileCalls 0).env ∧ 4096 < oversizeFile.sectionSize 0 ∧
      kernelDecode fileCalls (fun _ => 0) oversizeFile = none ∧
      (parseRcbf (fun _ => true) (fun _ => 0) oversizeFile.bytes).isSome = true ∧
      ¬ DecodersAgree (kernelDecode fileCalls (fun _ => 0) oversizeFile)
        (parseRcbf (fun _ => true) (fun _ => 0) oversizeFile.bytes) := by
  have hvals : oversizeFile.nActors = 1 ∧ oversizeFile.nSymbols = 1 ∧
      oversizeFile.sectionSize 0 = 4097 := by decide +kernel
  obtain ⟨hact, hsym, hsize⟩ := hvals
  have hend : oversizeFile.sectionAt 1 = 4217 := by
    rw [RcbfFile.sectionAt, RcbfFile.sectionAt, hsize, RcbfFile.dataAt, RcbfFile.metadataAt,
      RcbfFile.symbolTableAt, hact, hsym]
  have hlen : oversizeFile.bytes.length = 4217 := by
    show (sectionFile 4097).length = 4217
    rw [sectionFile, List.length_append, length_encodeWords, List.length_replicate]
    rfl
  have hkernel : kernelDecode fileCalls (fun _ => 0) oversizeFile = none := by
    refine (kernelDecode_spec sampleEnv_ample).2 fun h => ?_
    have := h.2.1 0 (Nat.le_refl _) (by omega)
    rw [hsize] at this
    exact absurd this (by decide)
  obtain ⟨r, hr, -⟩ := (@parseRcbf_spec oversizeFile (fun _ => true) (fun _ => 0)
    (fun _ => rfl)).1 ⟨⟨by omega, by rw [hact]; decide, by omega⟩, by
      unfold TooShort
      rw [hact, hend, hlen]
      decide⟩
  refine ⟨sampleEnv_ample, by rw [hsize]; decide, hkernel, by rw [hr]; rfl, ?_⟩
  rw [hkernel, hr]
  exact fun h => h

end Samples

end Rvzr.Dynamorio
