import Rvzr.Km.TestCaseParser
import Rvzr.TestCase.Binary

/-!
# RCBF images

The contents of an RCBF file as the kernel parser reads it: three tables of 64-bit words and
the code sections, within the limits the parser enforces. Every file that `save_rcbf` writes
within these limits is the encoding of an image (`TestCaseBinary.image_bytes`).
-/

namespace Rvzr.Km

open Rvzr.Lib Rvzr.TestCase

theorem drop_middle {α : Type} (pre x post : List α) (pos : Nat) (h : pos ≤ x.length) :
    (pre ++ (x ++ post)).drop (pre.length + pos) = x.drop pos ++ post := by
  rw [List.drop_length_add_append, List.drop_append_of_le_length h]

/-- The tables and sections of a well-formed RCBF file. -/
structure RcbfImage where
  actorWords : List Nat
  symbolWords : List Nat
  metadataWords : List Nat
  sections : List (List UInt8)
  nSymbols : Nat
  actors_pos : 1 ≤ sections.length
  symbols_le : nSymbols ≤ maxSymbols
  length_actorWords : actorWords.length = 6 * sections.length
  length_symbolWords : symbolWords.length = 4 * nSymbols
  length_metadataWords : metadataWords.length = 3 * sections.length
  words_lt : ∀ w ∈ actorWords ++ symbolWords ++ metadataWords, w < 2 ^ 64
  metadata_size : ∀ i code, sections[i]? = some code → metadataWords[3 * i + 1]? = some code.length
  section_le : ∀ code ∈ sections, code.length ≤ maxSectionSize

namespace RcbfImage

variable (img : RcbfImage)

/-- `n_actors` of the header. -/
def nActors : Nat := img.sections.length

/-- The bytes of the file. -/
def bytes : List UInt8 :=
  encodeWords [img.nActors, img.nSymbols] ++ (encodeWords img.actorWords ++
    (encodeWords img.symbolWords ++ (encodeWords img.metadataWords ++ img.sections.flatten)))

/-- The number of code bytes before section `i`. -/
def codeOffset (i : Nat) : Nat := (img.sections.take i).flatten.length

/-- The code of section `i`. -/
def section_ (i : Nat) : List UInt8 := (img.sections[i]?).getD []

/-- The file offsets at which the symbol table, the metadata and the code begin. -/
def symbolOffset : Nat := 16 + 48 * img.nActors
def metadataOffset : Nat := img.symbolOffset + 32 * img.nSymbols
def dataOffset : Nat := img.metadataOffset + 24 * img.nActors

/-- The size of the file. -/
def size : Nat := img.dataOffset + img.codeOffset img.nActors

theorem codeOffset_zero : img.codeOffset 0 = 0 := by simp [codeOffset]

theorem codeOffset_succ {i : Nat} (hi : i < img.nActors) :
    img.codeOffset (i + 1) = img.codeOffset i + (img.section_ i).length := by
  have hget : img.sections[i]? = some img.sections[i] := List.getElem?_eq_getElem hi
  rw [codeOffset, codeOffset, section_, hget, List.take_add_one, hget]
  simp

theorem codeOffset_le {i j : Nat} (hij : i ≤ j) : img.codeOffset i ≤ img.codeOffset j := by
  unfold codeOffset
  rw [show j = i + (j - i) from by omega, List.take_add, List.flatten_append, List.length_append]
  omega

theorem length_section_le (i : Nat) : (img.section_ i).length ≤ maxSectionSize := by
  unfold section_
  cases h : img.sections[i]? with
  | none => simp
  | some code => exact img.section_le code (List.mem_of_getElem? h)

theorem codeOffset_le_mul (i : Nat) (hi : i ≤ img.nActors) :
    img.codeOffset i ≤ maxSectionSize * i := by
  induction i with
  | zero => rw [codeOffset_zero]; omega
  | succ i ih =>
    have hle := ih (by omega)
    have hsec := img.length_section_le i
    rw [codeOffset_succ img (by omega)]
    unfold maxSectionSize at *
    omega

/-- The code from `r` bytes into section `i` on. -/
theorem flatten_drop {i r : Nat} (hi : i < img.nActors) (hr : r ≤ (img.section_ i).length) :
    img.sections.flatten.drop (img.codeOffset i + r) =
      (img.section_ i).drop r ++ (img.sections.drop (i + 1)).flatten := by
  have hsplit : img.sections.flatten =
      (img.sections.take i).flatten ++ (img.sections.drop i).flatten := by
    rw [← List.flatten_append, List.take_append_drop]
  have hdrop : img.sections.drop i = img.section_ i :: img.sections.drop (i + 1) := by
    rw [List.drop_eq_getElem_cons hi, section_, List.getElem?_eq_getElem hi]
    rfl
  have hoff : img.codeOffset i = (img.sections.take i).flatten.length := rfl
  rw [hsplit, hoff, List.drop_append, List.drop_eq_nil_of_le (by omega), List.nil_append,
    Nat.add_sub_cancel_left, hdrop, List.flatten_cons, List.drop_append_of_le_length hr]

theorem length_bytes : img.bytes.length = img.size := by
  have hflat : img.sections.flatten.length = img.codeOffset img.nActors := by
    rw [codeOffset, nActors, List.take_length]
  simp only [bytes, List.length_append, length_encodeWords, img.length_actorWords,
    img.length_symbolWords, img.length_metadataWords, hflat, size, dataOffset, metadataOffset,
    symbolOffset, List.length_cons, List.length_nil, nActors]
  omega

theorem length_header : (encodeWords [img.nActors, img.nSymbols]).length = 16 := by simp

theorem length_encoded_actors : (encodeWords img.actorWords).length = 48 * img.nActors := by
  rw [length_encodeWords, img.length_actorWords, nActors]; omega

theorem length_encoded_symbols : (encodeWords img.symbolWords).length = 32 * img.nSymbols := by
  rw [length_encodeWords, img.length_symbolWords]; omega

theorem length_encoded_metadata : (encodeWords img.metadataWords).length = 24 * img.nActors := by
  rw [length_encodeWords, img.length_metadataWords, nActors]; omega

/-- The bytes from position `pos` of the actor table on. -/
theorem drop_actors (pos : Nat) (h : pos ≤ 48 * img.nActors) :
    ∃ post, img.bytes.drop (16 + pos) = (encodeWords img.actorWords).drop pos ++ post := by
  have hmid := drop_middle (encodeWords [img.nActors, img.nSymbols]) (encodeWords img.actorWords)
    (encodeWords img.symbolWords ++ (encodeWords img.metadataWords ++ img.sections.flatten))
    pos (by rw [length_encoded_actors]; exact h)
  rw [length_header] at hmid
  exact ⟨_, hmid⟩

/-- The bytes from position `pos` of the symbol table on. -/
theorem drop_symbols (pos : Nat) (h : pos ≤ 32 * img.nSymbols) :
    ∃ post, img.bytes.drop (img.symbolOffset + pos) =
      (encodeWords img.symbolWords).drop pos ++ post := by
  have hmid := drop_middle (encodeWords [img.nActors, img.nSymbols] ++ encodeWords img.actorWords)
    (encodeWords img.symbolWords) (encodeWords img.metadataWords ++ img.sections.flatten)
    pos (by rw [length_encoded_symbols]; exact h)
  rw [List.length_append, length_header, length_encoded_actors, List.append_assoc] at hmid
  exact ⟨_, hmid⟩

/-- The bytes from position `pos` of the section metadata on. -/
theorem drop_metadata (pos : Nat) (h : pos ≤ 24 * img.nActors) :
    ∃ post, img.bytes.drop (img.metadataOffset + pos) =
      (encodeWords img.metadataWords).drop pos ++ post := by
  have hmid := drop_middle
    (encodeWords [img.nActors, img.nSymbols] ++ (encodeWords img.actorWords ++
      encodeWords img.symbolWords))
    (encodeWords img.metadataWords) img.sections.flatten
    pos (by rw [length_encoded_metadata]; exact h)
  rw [List.length_append, List.length_append, length_header, length_encoded_actors,
    length_encoded_symbols, List.append_assoc, List.append_assoc, ← Nat.add_assoc] at hmid
  exact ⟨_, hmid⟩

/-- The bytes from `r` bytes into section `i` on. -/
theorem drop_code {i : Nat} (r : Nat) (hi : i < img.nActors) (hr : r ≤ (img.section_ i).length) :
    ∃ post, img.bytes.drop (img.dataOffset + (img.codeOffset i + r)) =
      (img.section_ i).drop r ++ post := by
  have hmid : img.bytes.drop (img.dataOffset + (img.codeOffset i + r)) =
      img.sections.flatten.drop (img.codeOffset i + r) := by
    have hlen : (encodeWords [img.nActors, img.nSymbols] ++ (encodeWords img.actorWords ++
        (encodeWords img.symbolWords ++ encodeWords img.metadataWords))).length =
          img.dataOffset := by
      simp only [List.length_append, length_header, length_encoded_actors,
        length_encoded_symbols, length_encoded_metadata, dataOffset, metadataOffset, symbolOffset]
      omega
    have hbytes : img.bytes = (encodeWords [img.nActors, img.nSymbols] ++
        (encodeWords img.actorWords ++ (encodeWords img.symbolWords ++
          encodeWords img.metadataWords))) ++ img.sections.flatten := by
      simp only [bytes, List.append_assoc]
    rw [hbytes, ← hlen, List.drop_length_add_append]
  exact ⟨_, hmid.trans (img.flatten_drop hi hr)⟩

end RcbfImage

end Rvzr.Km

namespace Rvzr.TestCase.TestCaseBinary

open Rvzr.Lib Rvzr.Km

/-- The limits the kernel parser enforces on a test case. -/
structure WithinLimits (tc : TestCaseBinary) : Prop where
  actors_pos : 1 ≤ tc.actorValues.length
  symbols_le : tc.symbolTable.length ≤ maxSymbols
  section_le : ∀ a ∈ tc.actorValues, a.codeSection.size ≤ maxSectionSize

variable (tc : TestCaseBinary)

theorem mem_getActors {a : Actor} : a ∈ tc.getActors ↔ a ∈ tc.actorValues := by
  rw [getActors, List.mem_insertionSort]

theorem length_getActors : tc.getActors.length = tc.actorValues.length := by
  rw [getActors, List.length_insertionSort]

theorem length_sectionCode {a : Actor} (ha : a ∈ tc.getActors) :
    (tc.sectionCode a).length = a.codeSection.size := by
  have := tc.sections_in_file a (tc.mem_getActors.mp ha)
  rw [sectionCode, List.length_take, List.length_drop]
  omega

theorem length_sortedSymbols : tc.sortedSymbols.length = tc.symbolTable.length := by
  have hcount := List.length_eq_length_filter_add
    (l := tc.symbolTable) (fun s : SymbolTableEntry => decide (s.type_ = 0))
  rw [sortedSymbols, List.length_append, List.length_insertionSort, List.length_insertionSort,
    hcount]
  simp

theorem getElem?_flatMap_const {α β : Type} (g : α → List β) (k : Nat)
    (hg : ∀ a, (g a).length = k) {j : Nat} (hj : j < k) :
    ∀ (l : List α) (i : Nat), (l.flatMap g)[k * i + j]? = (l[i]?).bind fun a => (g a)[j]?
  | [], i => by simp
  | a :: l, 0 => by
    rw [List.flatMap_cons, List.getElem?_append_left (by rw [hg]; omega)]
    simp
  | a :: l, i + 1 => by
    rw [List.flatMap_cons, List.getElem?_append_right (by rw [hg, Nat.mul_succ]; omega), hg,
      show k * (i + 1) + j - k = k * i + j from by rw [Nat.mul_succ]; omega,
      getElem?_flatMap_const g k hg hj l i]
    simp

theorem length_flatMap_const {α β : Type} (g : α → List β) (k : Nat)
    (hg : ∀ a, (g a).length = k) (l : List α) : (l.flatMap g).length = k * l.length := by
  induction l with
  | nil => rfl
  | cons a l ih =>
    rw [List.flatMap_cons, List.length_append, hg, ih, List.length_cons, Nat.mul_succ]
    omega

theorem image_words_lt {bytes : List UInt8} (h : tc.saveRcbf = some bytes) :
    ∀ w ∈ wordsOf tc.actorInts ++ wordsOf tc.symbolInts ++ wordsOf tc.metadataInts,
      w < 2 ^ 64 := by
  intro w hw
  rw [wordsOf, wordsOf, wordsOf, ← List.map_append, ← List.map_append] at hw
  obtain ⟨i, hi, rfl⟩ := List.mem_map.mp hw
  refine (saveRcbf_eq h).2 i ?_
  simp only [List.mem_append] at hi ⊢
  tauto

theorem image_metadata_size : ∀ i code, (tc.getActors.map tc.sectionCode)[i]? = some code →
    (wordsOf tc.metadataInts)[3 * i + 1]? = some code.length := by
  intro i code hcode
  obtain ⟨a, ha, rfl⟩ : ∃ a, tc.getActors[i]? = some a ∧ tc.sectionCode a = code := by
    simpa using hcode
  rw [wordsOf, List.getElem?_map, metadataInts,
    getElem?_flatMap_const _ 3 (fun _ => rfl) (by omega), ha]
  simp [tc.length_sectionCode (List.mem_of_getElem? ha)]

theorem image_section_le (hl : tc.WithinLimits) :
    ∀ code ∈ tc.getActors.map tc.sectionCode, code.length ≤ maxSectionSize := by
  intro code hcode
  obtain ⟨a, ha, rfl⟩ := List.mem_map.mp hcode
  rw [tc.length_sectionCode ha]
  exact hl.section_le a (tc.mem_getActors.mp ha)

/-- The image of a saved test case. -/
def image {bytes : List UInt8} (h : tc.saveRcbf = some bytes) (hl : tc.WithinLimits) :
    RcbfImage where
  actorWords := wordsOf tc.actorInts
  symbolWords := wordsOf tc.symbolInts
  metadataWords := wordsOf tc.metadataInts
  sections := tc.getActors.map tc.sectionCode
  nSymbols := tc.symbolTable.length
  actors_pos := by
    have := hl.actors_pos
    rwa [List.length_map, length_getActors]
  symbols_le := hl.symbols_le
  length_actorWords := by
    rw [wordsOf, List.length_map, List.length_map, actorInts,
      length_flatMap_const _ 6 fun _ => rfl]
  length_symbolWords := by
    rw [wordsOf, List.length_map, symbolInts, length_flatMap_const _ 4 fun _ => rfl,
      length_sortedSymbols]
  length_metadataWords := by
    rw [wordsOf, List.length_map, List.length_map, metadataInts,
      length_flatMap_const _ 3 fun _ => rfl]
  words_lt := image_words_lt tc h
  metadata_size := image_metadata_size tc
  section_le := image_section_le tc hl

/-- A saved file is the encoding of its image. -/
theorem image_bytes {bytes : List UInt8} (h : tc.saveRcbf = some bytes) (hl : tc.WithinLimits) :
    (tc.image h hl).bytes = bytes := by
  refine Eq.trans ?_ (saveRcbf_eq h).1.symm
  simp [RcbfImage.bytes, image, wordsOf, headerInts, code, RcbfImage.nActors,
    List.flatMap_def]

end Rvzr.TestCase.TestCaseBinary
