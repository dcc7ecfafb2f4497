import Rvzr.Km.Rcbf

/-!
# The kernel parser decodes what the encoder wrote

The writer offers the file in chunks and offers again what a call did not consume. The
invariant `Receiving` says what the parser holds after `p` bytes of an image: the cursor is
`p`, every table holds the bytes of its part of the file up to `p`, and the section cursor
points to the section that contains byte `p`. The last point needs every section to have a
byte: a section is only left after a byte has been copied into it.
-/

namespace Rvzr.Km

open Rvzr.Lib

/-- One write to the `test_case` file: how many of the remaining bytes are offered, and what
the kernel decides during the call. -/
structure StoreCall where
  offer : Nat
  env : CallEnv
  beyond : Mem

/-- A call on the remaining bytes `st.2` of a file; what it consumed is not offered again. -/
def feedStep (c : StoreCall) (st : TcParser × List UInt8) :
    (TcParser × List UInt8) × ParseResult :=
  let r := parseTestCaseBuffer c.env st.1 ⟨st.2.take c.offer, c.beyond⟩
  ((r.1, st.2.drop r.2.consumed), r.2)

/-- Parser and remaining bytes after `k` calls. -/
def feed (calls : Nat → StoreCall) (s : TcParser) (file : List UInt8) :
    Nat → TcParser × List UInt8
  | 0 => (s, file)
  | k + 1 => (feedStep (calls k) (feed calls s file k)).1

/-- The result of call `k`. -/
def feedResult (calls : Nat → StoreCall) (s : TcParser) (file : List UInt8) (k : Nat) :
    ParseResult := (feedStep (calls k) (feed calls s file k)).2

/-- The tables of the parser are those of the image. -/
structure Decoded (img : RcbfImage) (s : TcParser) : Prop where
  nActors : s.nActors = img.nActors
  nSymbols : s.nSymbols = img.nSymbols
  actorTable : s.actorTable.words (6 * img.nActors) = img.actorWords
  symbolTable : s.symbolTable.words (4 * img.nSymbols) = img.symbolWords
  metadata : s.metadata.words (3 * img.nActors) = img.metadataWords
  sections : ∀ i, i < img.nActors →
    s.sections.read (maxSectionSize * i) (img.section_ i).length = img.section_ i
  inBounds : s.outOfBounds = false

/-- Fed with the file of `img`, the parser finishes with the call that consumes the last byte,
with no error before, and has decoded the image. -/
def RoundTrips (img : RcbfImage) (calls : Nat → StoreCall) (s : TcParser) : Prop :=
  ∃ n, (∀ k, k < n → (feedResult calls s img.bytes k).finished = false ∧
      0 < (feedResult calls s img.bytes k).ret ∧ (feed calls s img.bytes (k + 1)).2 ≠ []) ∧
    (feedResult calls s img.bytes n).finished = true ∧ (feed calls s img.bytes (n + 1)).2 = [] ∧
    Decoded img (feed calls s img.bytes (n + 1)).1

/-- The allocations the parser may need for `img` succeed; `kmalloc` serves at most
`KMALLOC_MAX_SIZE` bytes. -/
structure AllocSucceeds (env : CallEnv) (img : RcbfImage) : Prop where
  testCase : env.kmalloc sizeofTestCase = true
  symbols : env.kmalloc (tcSymbolEntrySize * img.nSymbols + 1) = true
  actors : env.kmalloc (actorMetadataSize * img.nActors) = true
  metadata : env.kmalloc (tcSectionMetadataEntrySize * img.nActors) = true
  sections : env.vmalloc (maxSectionSize * img.nActors) = true
  limit : ∀ n, env.kmalloc n = true → n ≤ 2 ^ 22

/-- The allocated tables have room for the numbers of entries recorded as the highest so far. -/
structure CapacityOk (s : TcParser) : Prop where
  symbols : s.hasSymbolTable = true → 32 * s.highestNSymbols + 1 ≤ s.symbolTableCap
  actors : s.hasData = true → 48 * s.highestNActors ≤ s.actorTableCap
  metadata : s.hasData = true → 24 * s.highestNActors ≤ s.metadataCap
  sections : s.hasData = true → 4096 * s.highestNActors ≤ s.sectionsCap
  symbols_le : s.highestNSymbols ≤ 128
  actors_lt : s.highestNActors < 2 ^ 52

/-- The parser is between two test cases, and no section is left over from the last one. -/
structure Idle (s : TcParser) : Prop where
  notReceiving : s.isReceivingTestCase = false
  section_zero : s.currSectionId = 0
  capacity : CapacityOk s
  inBounds : s.outOfBounds = false

/-- What the parser holds after `p` bytes of the file of `img`. -/
structure Receiving (img : RcbfImage) (p : Nat) (s : TcParser) : Prop where
  receiving : s.isReceivingTestCase = true
  cursor : s.cursor = p
  header : 16 ≤ p
  nActors : s.nActors = img.nActors
  nSymbols : s.nSymbols = img.nSymbols
  actors_le : img.nActors ≤ 2 ^ 17
  actorTableSize : s.actorTableSize = 48 * img.nActors
  symbolTableSize : s.symbolTableSize = 32 * img.nSymbols
  metadataSize : s.metadataSize = 24 * img.nActors
  actorTableCap : 48 * img.nActors ≤ s.actorTableCap
  symbolTableCap : 32 * img.nSymbols ≤ s.symbolTableCap
  metadataCap : 24 * img.nActors ≤ s.metadataCap
  sectionsCap : 4096 * img.nActors ≤ s.sectionsCap
  inBounds : s.outOfBounds = false
  actorTable : HasBytes s.actorTable 0 ((encodeWords img.actorWords).take (p - 16))
  symbolTable : HasBytes s.symbolTable 0
    ((encodeWords img.symbolWords).take (p - img.symbolOffset))
  metadata : HasBytes s.metadata 0 ((encodeWords img.metadataWords).take (p - img.metadataOffset))
  sections : ∀ i, i < img.nActors → HasBytes s.sections (maxSectionSize * i)
    ((img.section_ i).take (p - img.dataOffset - img.codeOffset i))
  sectionId : s.currSectionId < img.nActors
  section_le : img.codeOffset s.currSectionId ≤ p - img.dataOffset
  lt_section : p - img.dataOffset < img.codeOffset (s.currSectionId + 1)
  sectionStart : s.currSectionId ≠ 0 →
    s.currSectionStart = img.dataOffset + img.codeOffset s.currSectionId
  sectionEnd : s.currSectionId ≠ 0 →
    s.currSectionEnd = img.dataOffset + img.codeOffset (s.currSectionId + 1)

/-- Allocation only touches tables, flags and high-water marks, and leaves room for `k`
symbols. -/
theorem allocSymbolTable_spec (env : CallEnv) (k : Nat) (s : TcParser)
    (hsize : s.symbolTableSize = 32 * k) (hcap : CapacityOk s)
    (h : env.kmalloc (s.symbolTableSize + 1) = true) :
    ∃ t hi cap, s.allocSymbolTable env k =
        ({ s with hasSymbolTable := true, symbolTable := t, highestNSymbols := hi,
                  symbolTableCap := cap }, true) ∧
      k ≤ hi ∧ 32 * hi + 1 ≤ cap ∧ (hi = k ∨ hi = s.highestNSymbols) ∧
      cap ≤ max (32 * k + 1) s.symbolTableCap := by
  unfold TcParser.allocSymbolTable
  by_cases hneed : s.highestNSymbols < k ∨ s.hasSymbolTable = false
  · rw [if_pos hneed, if_pos h]
    exact ⟨_, _, _, rfl, le_refl _, by omega, Or.inl rfl, by omega⟩
  · rw [if_neg hneed]
    have hhas : s.hasSymbolTable = true := by
      cases hb : s.hasSymbolTable with
      | true => rfl
      | false => exact absurd (Or.inr hb) hneed
    refine ⟨s.symbolTable, s.highestNSymbols, s.symbolTableCap, ?_, by omega, hcap.symbols hhas,
      Or.inr rfl, le_max_right _ _⟩
    rw [← hhas]

theorem allocActorTables_spec (env : CallEnv) (k : Nat) (s : TcParser)
    (hsa : s.actorTableSize = 48 * k) (hsm : s.metadataSize = 24 * k)
    (hss : s.sectionsSize = 4096 * k) (hcap : CapacityOk s)
    (ha : env.kmalloc s.actorTableSize = true) (hm : env.kmalloc s.metadataSize = true)
    (hs : env.vmalloc s.sectionsSize = true) :
    ∃ b b' ta tm ts hi ca cm cs, s.allocActorTables env k =
        ({ s with hasActorTable := b, hasMetadata := b', hasData := true, actorTable := ta,
                  metadata := tm, sections := ts, highestNActors := hi, actorTableCap := ca,
                  metadataCap := cm, sectionsCap := cs }, true) ∧
      k ≤ hi ∧ 48 * hi ≤ ca ∧ 24 * hi ≤ cm ∧ 4096 * hi ≤ cs ∧
      (hi = k ∨ hi = s.highestNActors) ∧
      (s.highestNActors < k → ca = 48 * k ∧ cm = 24 * k ∧ cs = 4096 * k) := by
  unfold TcParser.allocActorTables
  by_cases hneed : s.highestNActors < k ∨ s.hasData = false
  · simp only [if_pos hneed, ha, hm, hs, if_true]
    exact ⟨_, _, _, _, _, _, _, _, _, rfl, le_refl _, by omega, by omega, by omega, Or.inl rfl,
      fun _ => ⟨hsa, hsm, hss⟩⟩
  · rw [if_neg hneed]
    have hhas : s.hasData = true := by
      cases hb : s.hasData with
      | true => rfl
      | false => exact absurd (Or.inr hb) hneed
    refine ⟨s.hasActorTable, s.hasMetadata, s.actorTable, s.metadata, s.sections,
      s.highestNActors, s.actorTableCap, s.metadataCap, s.sectionsCap, ?_, by omega,
      hcap.actors hhas, hcap.metadata hhas, hcap.sections hhas, Or.inr rfl,
      fun hlt => absurd (Or.inl hlt) hneed⟩
    rw [← hhas]

/-- The words of the header are read back from any first chunk that holds the header. -/
theorem header_words (img : RcbfImage) {n : Nat} (hn : 16 ≤ n) (beyond : Mem)
    (hact : img.nActors < 2 ^ 64) :
    (WriteBuf.mem ⟨img.bytes.take n, beyond⟩).word64 0 = img.nActors ∧
      (WriteBuf.mem ⟨img.bytes.take n, beyond⟩).word64 8 = img.nSymbols := by
  have hbytes : HasBytes (WriteBuf.mem ⟨img.bytes.take n, beyond⟩) 0
      (encodeWords [img.nActors, img.nSymbols]) := by
    intro i b hb
    have hi : i < 16 := by
      have := (List.getElem?_eq_some_iff.mp hb).1
      rwa [img.length_header] at this
    have hget : (img.bytes.take n)[i]? = some b := by
      rw [List.getElem?_take, if_pos (by omega), RcbfImage.bytes,
        List.getElem?_append_left (by rw [img.length_header]; exact hi)]
      exact hb
    simp only [WriteBuf.mem, Nat.zero_add, hget, Option.getD_some]
  have hsym := img.symbols_le
  unfold maxSymbols at hsym
  refine ⟨?_, ?_⟩
  · have := word64_of_hasBytes hbytes (j := 0) (w := img.nActors) rfl hact
    simpa using this
  · have := word64_of_hasBytes hbytes (j := 1) (w := img.nSymbols) rfl (by omega)
    simpa using this

theorem finishParsing_of_lt {env : CallEnv} {s : TcParser} (k count : Nat)
    (h : s.currSectionId < s.nActors) : finishParsing env s k count = (s, ⟨k, false, k⟩) := by
  unfold finishParsing
  rw [if_neg (by omega)]

variable {img : RcbfImage}

theorem actors_le_of_alloc {env : CallEnv} (h : AllocSucceeds env img) : img.nActors ≤ 2 ^ 17 := by
  have := h.limit _ h.actors
  unfold actorMetadataSize at this
  omega

/-- What a successful header leaves behind. -/
structure Started (img : RcbfImage) (s s' : TcParser) : Prop where
  nActors : s'.nActors = img.nActors
  nSymbols : s'.nSymbols = img.nSymbols
  actorTableSize : s'.actorTableSize = 48 * img.nActors
  symbolTableSize : s'.symbolTableSize = 32 * img.nSymbols
  metadataSize : s'.metadataSize = 24 * img.nActors
  sectionId : s'.currSectionId = s.currSectionId
  outOfBounds : s'.outOfBounds = s.outOfBounds
  capacity : CapacityOk s'
  actorTableCap : 48 * img.nActors ≤ s'.actorTableCap
  symbolTableCap : 32 * img.nSymbols ≤ s'.symbolTableCap
  metadataCap : 24 * img.nActors ≤ s'.metadataCap
  sectionsCap : 4096 * img.nActors ≤ s'.sectionsCap
  symbolTableRoom : 32 * img.nSymbols + 1 ≤ s'.symbolTableCap
  newSymbolTableCap : s'.symbolTableCap ≤ max (32 * img.nSymbols + 1) s.symbolTableCap
  newCaps : s.highestNActors < img.nActors → s'.actorTableCap = 48 * img.nActors ∧
    s'.metadataCap = 24 * img.nActors ∧ s'.sectionsCap = 4096 * img.nActors
  actorTable : ∀ i, i < 48 * img.nActors → s'.actorTable i = 0
  symbolTable : ∀ i, i < 32 * img.nSymbols → s'.symbolTable i = 0
  metadata : ∀ i, i < 24 * img.nActors → s'.metadata i = 0
  sections : ∀ i, i < 4096 * img.nActors → s'.sections i = 0

theorem setSizes_eq (hle : img.nActors ≤ 2 ^ 17) (s : TcParser) :
    s.setSizes img.nActors img.nSymbols =
      { s with actorTableSize := 48 * img.nActors, symbolTableSize := 32 * img.nSymbols,
               metadataSize := 24 * img.nActors, sectionsSize := 4096 * img.nActors } := by
  have hsym : img.nSymbols ≤ 128 := img.symbols_le
  unfold TcParser.setSizes actorMetadataSize tcSymbolEntrySize tcSectionMetadataEntrySize
    maxSectionSize
  rw [mul64_of_lt (by omega), mul64_of_lt (by omega), mul64_of_lt (by omega),
    mul64_of_lt (by omega), Nat.mul_comm, Nat.mul_comm img.nSymbols, Nat.mul_comm img.nActors 24,
    Nat.mul_comm img.nActors 4096]

theorem batchTcParsingStart_spec {env : CallEnv} (halloc : AllocSucceeds env img) {s : TcParser}
    (hcap : CapacityOk s) {buf : WriteBuf} (hw0 : buf.mem.word64 0 = img.nActors)
    (hw8 : buf.mem.word64 8 = img.nSymbols) :
    ∃ s', batchTcParsingStart env s buf = (s', 16) ∧ Started img s s' := by
  have hact : 1 ≤ img.nActors := img.actors_pos
  have hle := actors_le_of_alloc halloc
  have hsym : ¬ maxSymbols < img.nSymbols := Nat.not_lt.mpr img.symbols_le
  have hsymle : img.nSymbols ≤ 128 := img.symbols_le
  unfold batchTcParsingStart
  simp only [halloc.testCase, hw0, hw8, Bool.true_eq_false, if_false, hsym,
    show img.nActors ≠ 0 from by omega, setSizes_eq hle]
  generalize hs₁ : ({ TcParser.newTestCase { s with cursor := 0 } with
    actorTableSize := 48 * img.nActors, symbolTableSize := 32 * img.nSymbols,
    metadataSize := 24 * img.nActors, sectionsSize := 4096 * img.nActors } : TcParser) = s₁
  have hsizes : s₁.actorTableSize = 48 * img.nActors ∧ s₁.symbolTableSize = 32 * img.nSymbols ∧
      s₁.metadataSize = 24 * img.nActors ∧ s₁.sectionsSize = 4096 * img.nActors ∧
      s₁.currSectionId = s.currSectionId ∧ s₁.outOfBounds = s.outOfBounds ∧
      s₁.symbolTableCap = s.symbolTableCap ∧ s₁.highestNActors = s.highestNActors ∧
      CapacityOk s₁ := by
    subst hs₁
    exact ⟨rfl, rfl, rfl, rfl, rfl, rfl, rfl, rfl, hcap.symbols, hcap.actors, hcap.metadata,
      hcap.sections, hcap.symbols_le, hcap.actors_lt⟩
  obtain ⟨ha, hs, hm, hd, hid, hoob, hcap0, hhi0, hcap₁⟩ := hsizes
  obtain ⟨t, hi, cap, hallocS, hki, hcapS, hiS, hcapnew⟩ := allocSymbolTable_spec env img.nSymbols s₁ hs hcap₁
    (by rw [hs]; exact halloc.symbols)
  have hcap₂ : CapacityOk
      { s₁ with hasSymbolTable := true, symbolTable := t, highestNSymbols := hi,
                symbolTableCap := cap } := by
    have := hcap₁.symbols_le
    exact ⟨fun _ => hcapS, hcap₁.actors, hcap₁.metadata, hcap₁.sections,
      show hi ≤ 128 by omega, hcap₁.actors_lt⟩
  obtain ⟨b₁, b₂, t₁, t₂, t₃, hi', ca, cm, cs, hallocA, hki', hca, hcm, hcs, hiA, hnew⟩ :=
    allocActorTables_spec env img.nActors
      { s₁ with hasSymbolTable := true, symbolTable := t, highestNSymbols := hi,
                symbolTableCap := cap } ha hm hd hcap₂
      (by rw [ha]; exact halloc.actors) (by rw [hm]; exact halloc.metadata)
      (by rw [hd]; exact halloc.sections)
  have hhi : hi ≤ 128 := hcap₂.symbols_le
  have hhi' : hi' < 2 ^ 52 := by
    have : s₁.highestNActors < 2 ^ 52 := hcap₁.actors_lt
    rcases hiA with h | h
    · omega
    · exact h ▸ this
  simp only [hallocS, hallocA]
  refine ⟨_, rfl, rfl, rfl, ha, hs, hm, hid, hoob,
    ⟨fun _ => hcapS, fun _ => hca, fun _ => hcm, fun _ => hcs, hhi, hhi'⟩, ?_, ?_, ?_, ?_, ?_, ?_,
    ?_, ?_, ?_, ?_, ?_⟩
  · show 48 * img.nActors ≤ ca; omega
  · show 32 * img.nSymbols ≤ cap; omega
  · show 24 * img.nActors ≤ cm; omega
  · show 4096 * img.nActors ≤ cs; omega
  · show 32 * img.nSymbols + 1 ≤ cap; omega
  · rw [← hcap0]; exact hcapnew
  · intro hlt; exact hnew (by rw [← hhi0] at hlt; exact hlt)
  · intro i hlt
    refine Mem.zero_of_lt _ ?_
    rw [mul64_of_lt (by unfold actorMetadataSize; show hi' * _ < _; omega)]
    unfold actorMetadataSize
    show i < hi' * 48
    omega
  · intro i hlt
    refine Mem.zero_of_lt _ ?_
    rw [mul64_of_lt (by unfold tcSymbolEntrySize; show hi * _ < _; omega)]
    unfold tcSymbolEntrySize
    show i < hi * 32
    omega
  · intro i hlt
    refine Mem.zero_of_lt _ ?_
    rw [mul64_of_lt (by unfold tcSectionMetadataEntrySize; show hi' * _ < _; omega)]
    unfold tcSectionMetadataEntrySize
    show i < hi' * 24
    omega
  · intro i hlt
    refine Mem.zero_of_lt _ ?_
    rw [mul64_of_lt (by unfold maxSectionSize; show hi' * _ < _; omega)]
    unfold maxSectionSize
    show i < hi' * 4096
    omega

/-- The first call consumes the header. -/
theorem feedStep_start {s : TcParser} (hidle : Idle s) {c : StoreCall} (hc : 16 ≤ c.offer)
    (halloc : AllocSucceeds c.env img) :
    ∃ s', feedStep c (s, img.bytes) =
        (({ s' with cursor := tcHeaderSize, isReceivingTestCase := true }, img.bytes.drop 16),
          ⟨16, false, 16⟩) ∧ Started img s s' := by
  have hle := actors_le_of_alloc halloc
  have hact : 1 ≤ img.nActors := img.actors_pos
  obtain ⟨hw0, hw8⟩ := header_words img hc c.beyond (by omega)
  obtain ⟨s', hstart, hs'⟩ := batchTcParsingStart_spec halloc hidle.capacity hw0 hw8
  have hid : s'.currSectionId = 0 := hs'.sectionId.trans hidle.section_zero
  have hlt : (0 : Nat) < s'.nActors := by rw [hs'.nActors]; omega
  have hparse : parseTestCaseBuffer c.env s ⟨img.bytes.take c.offer, c.beyond⟩ =
      ({ s' with cursor := tcHeaderSize, isReceivingTestCase := true }, ⟨16, false, 16⟩) := by
    rw [parse_header _ _ hidle.notReceiving hstart, if_neg (by simp), finishParsing_of_lt]
    · rfl
    · simpa [hid] using hlt
  refine ⟨s', ?_, hs'⟩
  unfold feedStep
  rw [hparse]

/-- After the header the parser receives the image. -/
theorem receiving_start (hpos : ∀ i, i < img.nActors → 1 ≤ (img.section_ i).length) {s : TcParser}
    (hidle : Idle s) {c : StoreCall} (hc : 16 ≤ c.offer) (halloc : AllocSucceeds c.env img) :
    Receiving img 16 (feedStep c (s, img.bytes)).1.1 ∧
      (feedStep c (s, img.bytes)).1.2 = img.bytes.drop 16 ∧
      (feedStep c (s, img.bytes)).2 = ⟨16, false, 16⟩ := by
  have hle := actors_le_of_alloc halloc
  have hact : 1 ≤ img.nActors := img.actors_pos
  obtain ⟨s', hfeed, hs'⟩ := feedStep_start hidle hc halloc
  have hid : s'.currSectionId = 0 := hs'.sectionId.trans hidle.section_zero
  have hoff : img.dataOffset ≥ 16 := by
    unfold RcbfImage.dataOffset RcbfImage.metadataOffset RcbfImage.symbolOffset
    omega
  rw [hfeed]
  refine ⟨⟨rfl, rfl, le_refl _, hs'.nActors, hs'.nSymbols, hle, hs'.actorTableSize,
    hs'.symbolTableSize, hs'.metadataSize, hs'.actorTableCap, hs'.symbolTableCap,
    hs'.metadataCap, hs'.sectionsCap, hs'.outOfBounds.trans hidle.inBounds, ?_, ?_, ?_, ?_, ?_, ?_, ?_, ?_, ?_⟩, rfl, rfl⟩
  · simpa using hasBytes_nil _ _
  · rw [show 16 - img.symbolOffset = 0 from by unfold RcbfImage.symbolOffset; omega]
    exact hasBytes_nil _ _
  · rw [show 16 - img.metadataOffset = 0 from by
      unfold RcbfImage.metadataOffset RcbfImage.symbolOffset; omega]
    exact hasBytes_nil _ _
  · intro i _
    rw [show 16 - img.dataOffset - img.codeOffset i = 0 from by omega]
    exact hasBytes_nil _ _
  · rw [hid]; exact hact
  · rw [hid, img.codeOffset_zero]; omega
  · have h0 := hpos 0 hact
    rw [hid, img.codeOffset_succ hact, img.codeOffset_zero]
    omega
  · intro h; exact absurd hid h
  · intro h; exact absurd hid h

theorem copyLoop_self (m : Mem) (cur : Nat) (bs : List UInt8) : copyLoop m cur cur bs = (m, 0) := by
  cases bs with
  | nil => rfl
  | cons b bs => simp [copyLoop]

/-- Inside a section that is not full the section loop is the ordinary copy loop. -/
theorem sectionLoop_eq (m : Mem) (base : Nat) {cur size : Nat} (h : cur < size)
    (bs : List UInt8) : sectionLoop m base cur size bs =
      ((copyLoop m (base + cur) (base + size) bs).1, min (size - cur) bs.length,
        decide (size - cur ≤ bs.length)) := by
  induction bs generalizing m cur with
  | nil => simp [sectionLoop, copyLoop, show size - cur ≠ 0 from by omega]
  | cons b bs ih =>
    unfold sectionLoop copyLoop
    rw [if_pos (show base + cur < base + size from by omega), List.length_cons]
    by_cases hlast : size ≤ cur + 1
    · have hsize : size = cur + 1 := by omega
      subst hsize
      simp only [if_pos hlast, ← Nat.add_assoc, copyLoop_self]
      simp
    · simp only [if_neg hlast, ih _ (show cur + 1 < size from by omega), Nat.add_assoc]
      refine Prod.ext rfl (Prod.ext ?_ ?_)
      · show min (size - (cur + 1)) bs.length + 1 = min (size - cur) (bs.length + 1)
        omega
      · show decide (size - (cur + 1) ≤ bs.length) = decide (size - cur ≤ bs.length + 1)
        rw [decide_eq_decide]
        omega

/-- The final check only sets the features. -/
theorem batchTcParsingEnd_fst (env : CallEnv) (s : TcParser) :
    ∃ f, (batchTcParsingEnd env s).1 = { s with features := f } := by
  unfold batchTcParsingEnd
  split
  · exact ⟨_, rfl⟩
  · split
    · exact ⟨_, rfl⟩
    · split
      · exact ⟨_, rfl⟩
      · split <;> exact ⟨_, rfl⟩

/-- After the last section the parser is idle again and reports the end. -/
theorem finishParsing_of_le (env : CallEnv) {s : TcParser} (k count : Nat)
    (h : s.nActors ≤ s.currSectionId) :
    ∃ f, (finishParsing env s k count).1 =
        { s with currSectionId := 0, currSectionStart := 0, currSectionEnd := 0,
                 isReceivingTestCase := false, features := f } ∧
      (finishParsing env s k count).2.finished = true ∧
      (finishParsing env s k count).2.consumed = k := by
  obtain ⟨f, hf⟩ := batchTcParsingEnd_fst env
    { s with currSectionId := 0, currSectionStart := 0, currSectionEnd := 0,
             isReceivingTestCase := false }
  refine ⟨f, ?_⟩
  unfold finishParsing
  simp only [if_pos h]
  split
  · rename_i s' heq
    rw [heq] at hf
    exact ⟨hf, rfl, rfl⟩
  · rename_i s' r heq
    rw [heq] at hf
    exact ⟨hf, rfl, rfl⟩

/-- Progress within the three tables; sections are not touched before the data phase. -/
theorem Receiving.table {p q : Nat} {s : TcParser} (h : Receiving img p s) (hpq : p ≤ q)
    (hq : q ≤ img.dataOffset) {ta ts tm : Mem}
    (hta : HasBytes ta 0 ((encodeWords img.actorWords).take (q - 16)))
    (hts : HasBytes ts 0 ((encodeWords img.symbolWords).take (q - img.symbolOffset)))
    (htm : HasBytes tm 0 ((encodeWords img.metadataWords).take (q - img.metadataOffset))) :
    Receiving img q { s with cursor := q, actorTable := ta, symbolTable := ts, metadata := tm } where
  receiving := h.receiving
  cursor := rfl
  header := h.header.trans hpq
  nActors := h.nActors
  nSymbols := h.nSymbols
  actors_le := h.actors_le
  actorTableSize := h.actorTableSize
  symbolTableSize := h.symbolTableSize
  metadataSize := h.metadataSize
  actorTableCap := h.actorTableCap
  symbolTableCap := h.symbolTableCap
  metadataCap := h.metadataCap
  sectionsCap := h.sectionsCap
  inBounds := h.inBounds
  actorTable := hta
  symbolTable := hts
  metadata := htm
  sections := by
    intro i _
    rw [show q - img.dataOffset - img.codeOffset i = 0 from by omega]
    exact hasBytes_nil _ _
  sectionId := h.sectionId
  section_le := by
    have := h.section_le
    show img.codeOffset s.currSectionId ≤ _
    omega
  lt_section := by
    have := h.lt_section
    show _ < img.codeOffset (s.currSectionId + 1)
    omega
  sectionStart := h.sectionStart
  sectionEnd := h.sectionEnd

section Step

variable {p : Nat} {s : TcParser} (h : Receiving img p s)
include h

theorem Receiving.bounds : s.actorTableEnd = img.symbolOffset ∧
    s.symbolTableEnd = img.metadataOffset ∧ s.metadataEnd = img.dataOffset := by
  have hle := h.actors_le
  have hsym : img.nSymbols ≤ 128 := img.symbols_le
  unfold TcParser.actorTableEnd TcParser.symbolTableEnd TcParser.metadataEnd
  rw [h.actorTableSize, h.symbolTableSize, h.metadataSize]
  unfold RcbfImage.dataOffset RcbfImage.metadataOffset RcbfImage.symbolOffset tcHeaderSize
  rw [viaInt_of_lt (by omega), viaInt_of_lt (by omega), viaInt_of_lt (by omega)]
  exact ⟨rfl, rfl, rfl⟩

/-- All offsets of a file stay far below the bounds of the machine types. -/
theorem Receiving.size_lt : img.size < 2 ^ 32 := by
  have hle := h.actors_le
  have hsym : img.nSymbols ≤ 128 := img.symbols_le
  have hcode := img.codeOffset_le_mul img.nActors (le_refl _)
  unfold maxSectionSize at hcode
  unfold RcbfImage.size RcbfImage.dataOffset RcbfImage.metadataOffset RcbfImage.symbolOffset
  omega

theorem Receiving.idle_finish (env : CallEnv) (k count : Nat) {s' : TcParser}
    (hid : s'.currSectionId = s.currSectionId) (hn : s'.nActors = s.nActors) :
    finishParsing env s' k count = (s', ⟨k, false, k⟩) := by
  apply finishParsing_of_lt
  rw [hid, hn, h.nActors]
  exact h.sectionId

theorem Receiving.offsets : img.symbolOffset = 16 + 48 * img.nActors ∧
    img.metadataOffset = img.symbolOffset + 32 * img.nSymbols ∧
    img.dataOffset = img.metadataOffset + 24 * img.nActors ∧ img.dataOffset ≤ img.size ∧
    16 ≤ p ∧ img.size < 2 ^ 32 :=
  ⟨rfl, rfl, rfl, Nat.le_add_right _ _, h.header, h.size_lt⟩

/-- A call in the actor table. -/
theorem Receiving.actor_step (hp : p < img.symbolOffset) (c : StoreCall) {bs : List UInt8}
    (hbs : bs = (img.bytes.drop p).take c.offer) {k : Nat}
    (hk : k = min (img.symbolOffset - p) bs.length) :
    ∃ s', parseTestCaseBuffer c.env s ⟨bs, c.beyond⟩ = (s', ⟨k, false, k⟩) ∧
      Receiving img (p + k) s' := by
  obtain ⟨hb₁, -, -⟩ := h.bounds
  obtain ⟨hsym, hmeta, hdata, hend, hheader, hlt⟩ := h.offsets
  obtain ⟨post, hpost⟩ := img.drop_actors (p - 16) (by omega)
  rw [show 16 + (p - 16) = p from by omega] at hpost
  have hlen := img.length_encoded_actors
  have hext := copyLoop_extend 0 (p - 16) h.actorTable (by omega) (hpost ▸ hbs)
  rw [hlen, Nat.zero_add, Nat.zero_add,
    show p - 16 + min (48 * img.nActors - (p - 16)) bs.length = p + k - 16 from by omega] at hext
  refine ⟨{ s with cursor := p + k,
                   actorTable := (copyLoop s.actorTable (p - 16) (48 * img.nActors) bs).1 },
    ?_, ?_⟩
  · have hcur : sub64 p tcHeaderSize = p - 16 := sub64_of_le (by omega) hheader
    have hsnd : (copyLoop s.actorTable (p - 16) (48 * img.nActors) bs).2 = k := by
      rw [copyLoop_snd]; omega
    have hadv : add64 (p - 16 + k) tcHeaderSize = p + k := by
      rw [← hcur]; exact add64_sub64 hheader (by omega)
    have hwb : writesBeyond s.actorTableCap (p - 16) k = false := by
      have := h.actorTableCap
      exact writesBeyond_of_le (by omega)
    rw [parse_actorTable _ _ h.receiving (by rw [hb₁, h.cursor]; exact hp)]
    simp only [h.cursor, hcur, h.actorTableSize, hsnd, hadv, hwb, Bool.or_false]
    exact h.idle_finish _ _ _ (by rfl) (by rfl)
  · refine h.table (by omega) (by omega) hext ?_ ?_
    · rw [show p + k - img.symbolOffset = p - img.symbolOffset from by omega]
      exact h.symbolTable
    · rw [show p + k - img.metadataOffset = p - img.metadataOffset from by omega]
      exact h.metadata

/-- A call in the symbol table. -/
theorem Receiving.symbol_step (hp₁ : img.symbolOffset ≤ p) (hp : p < img.metadataOffset)
    (c : StoreCall) {bs : List UInt8} (hbs : bs = (img.bytes.drop p).take c.offer) {k : Nat}
    (hk : k = min (img.metadataOffset - p) bs.length) :
    ∃ s', parseTestCaseBuffer c.env s ⟨bs, c.beyond⟩ = (s', ⟨k, false, k⟩) ∧
      Receiving img (p + k) s' := by
  obtain ⟨hb₁, hb₂, -⟩ := h.bounds
  obtain ⟨hsym, hmeta, hdata, hend, hheader, hlt⟩ := h.offsets
  obtain ⟨post, hpost⟩ := img.drop_symbols (p - img.symbolOffset) (by omega)
  rw [show img.symbolOffset + (p - img.symbolOffset) = p from by omega] at hpost
  have hlen := img.length_encoded_symbols
  have hext := copyLoop_extend 0 (p - img.symbolOffset) h.symbolTable (by omega) (hpost ▸ hbs)
  rw [hlen, Nat.zero_add, Nat.zero_add,
    show p - img.symbolOffset + min (32 * img.nSymbols - (p - img.symbolOffset)) bs.length =
      p + k - img.symbolOffset from by omega] at hext
  refine ⟨{ s with
      cursor := p + k,
      symbolTable := (copyLoop s.symbolTable (p - img.symbolOffset) (32 * img.nSymbols) bs).1 },
    ?_, ?_⟩
  · have hcur : sub64 p img.symbolOffset = p - img.symbolOffset := sub64_of_le (by omega) hp₁
    have hsnd : (copyLoop s.symbolTable (p - img.symbolOffset) (32 * img.nSymbols) bs).2 = k := by
      rw [copyLoop_snd]; omega
    have hadv : add64 (p - img.symbolOffset + k) img.symbolOffset = p + k := by
      rw [← hcur]; exact add64_sub64 hp₁ (by omega)
    have hwb : writesBeyond s.symbolTableCap (p - img.symbolOffset) k = false := by
      have := h.symbolTableCap
      exact writesBeyond_of_le (by omega)
    rw [parse_symbolTable _ _ h.receiving (by rw [hb₁, h.cursor]; omega)
      (by rw [hb₂, h.cursor]; exact hp)]
    simp only [h.cursor, hb₁, hcur, h.symbolTableSize, hsnd, hadv, hwb, Bool.or_false]
    exact h.idle_finish _ _ _ (by rfl) (by rfl)
  · refine h.table (by omega) (by omega) ?_ hext ?_
    · have hact := h.actorTable
      rw [List.take_of_length_le (by rw [img.length_encoded_actors]; omega)] at hact ⊢
      exact hact
    · rw [show p + k - img.metadataOffset = p - img.metadataOffset from by omega]
      exact h.metadata

/-- A call in the section metadata. -/
theorem Receiving.metadata_step (hp₁ : img.metadataOffset ≤ p) (hp : p < img.dataOffset)
    (c : StoreCall) {bs : List UInt8} (hbs : bs = (img.bytes.drop p).take c.offer) {k : Nat}
    (hk : k = min (img.dataOffset - p) bs.length) :
    ∃ s', parseTestCaseBuffer c.env s ⟨bs, c.beyond⟩ = (s', ⟨k, false, k⟩) ∧
      Receiving img (p + k) s' := by
  obtain ⟨hb₁, hb₂, hb₃⟩ := h.bounds
  obtain ⟨hsym, hmeta, hdata, hend, hheader, hlt⟩ := h.offsets
  obtain ⟨post, hpost⟩ := img.drop_metadata (p - img.metadataOffset) (by omega)
  rw [show img.metadataOffset + (p - img.metadataOffset) = p from by omega] at hpost
  have hlen := img.length_encoded_metadata
  have hext := copyLoop_extend 0 (p - img.metadataOffset) h.metadata (by omega) (hpost ▸ hbs)
  rw [hlen, Nat.zero_add, Nat.zero_add,
    show p - img.metadataOffset + min (24 * img.nActors - (p - img.metadataOffset)) bs.length =
      p + k - img.metadataOffset from by omega] at hext
  refine ⟨{ s with
      cursor := p + k,
      metadata := (copyLoop s.metadata (p - img.metadataOffset) (24 * img.nActors) bs).1 }, ?_, ?_⟩
  · have hcur : sub64 p img.metadataOffset = p - img.metadataOffset := sub64_of_le (by omega) hp₁
    have hsnd : (copyLoop s.metadata (p - img.metadataOffset) (24 * img.nActors) bs).2 = k := by
      rw [copyLoop_snd]; omega
    have hadv : add64 (p - img.metadataOffset + k) img.metadataOffset = p + k := by
      rw [← hcur]; exact add64_sub64 hp₁ (by omega)
    have hwb : writesBeyond s.metadataCap (p - img.metadataOffset) k = false := by
      have := h.metadataCap
      exact writesBeyond_of_le (by omega)
    rw [parse_metadata _ _ h.receiving (by rw [hb₁, h.cursor]; omega)
      (by rw [hb₂, h.cursor]; omega) (by rw [hb₃, h.cursor]; exact hp)]
    simp only [h.cursor, hb₂, hcur, h.metadataSize, hsnd, hadv, hwb, Bool.or_false]
    exact h.idle_finish _ _ _ (by rfl) (by rfl)
  · refine h.table (by omega) (by omega) ?_ ?_ hext
    · have hact := h.actorTable
      rw [List.take_of_length_le (by rw [img.length_encoded_actors]; omega)] at hact ⊢
      exact hact
    · have hs := h.symbolTable
      rw [List.take_of_length_le (by rw [img.length_encoded_symbols]; omega)] at hs ⊢
      exact hs

/-- Once the metadata is complete it gives the sizes of the sections. -/
theorem Receiving.sectionSize_eq (hp : img.dataOffset ≤ p) {i : Nat} (hi : i < img.nActors) :
    s.sectionSize i = (img.section_ i).length := by
  obtain ⟨hsym, hmeta, hdata, hend, hheader, hlt⟩ := h.offsets
  have hfull := h.metadata
  rw [List.take_of_length_le (by rw [img.length_encoded_metadata]; omega)] at hfull
  have hget : img.sections[i]? = some (img.section_ i) := by
    rw [RcbfImage.section_, List.getElem?_eq_getElem hi]
    rfl
  have hword := img.metadata_size i _ hget
  have hlen := img.length_section_le i
  unfold maxSectionSize at hlen
  have := word64_of_hasBytes hfull hword (by omega)
  have hoff : tcSectionMetadataEntrySize * i + 8 = 0 + 8 * (3 * i + 1) := by
    unfold tcSectionMetadataEntrySize
    omega
  rw [TcParser.sectionSize, hoff, this]

/-- The section bounds the data phase works with. -/
theorem Receiving.section_bounds (hp : img.dataOffset ≤ p) :
    s.enterSections =
      { s with currSectionStart := img.dataOffset + img.codeOffset s.currSectionId
               currSectionEnd := img.dataOffset + img.codeOffset (s.currSectionId + 1) } := by
  obtain ⟨-, -, hb₃⟩ := h.bounds
  obtain ⟨hsym, hmeta, hdata, hend, hheader, hlt⟩ := h.offsets
  unfold TcParser.enterSections
  by_cases hid : s.currSectionId = 0
  · have hact : 0 < img.nActors := img.actors_pos
    have hsec : (img.section_ 0).length ≤ 4096 := img.length_section_le 0
    rw [if_pos hid, hid, hb₃, h.sectionSize_eq hp hact, add64_of_lt (by omega),
      img.codeOffset_succ hact, img.codeOffset_zero, Nat.add_zero, Nat.zero_add]
  · rw [if_neg hid, ← h.sectionStart hid, ← h.sectionEnd hid]

/-- The position of the cursor in its section. -/
theorem Receiving.position (hp : img.dataOffset ≤ p) :
    ∃ r, p = img.dataOffset + (img.codeOffset s.currSectionId + r) ∧
      r < (img.section_ s.currSectionId).length ∧
      img.codeOffset (s.currSectionId + 1) =
        img.codeOffset s.currSectionId + (img.section_ s.currSectionId).length := by
  have hle := h.section_le
  have hlt := h.lt_section
  have hsucc := img.codeOffset_succ h.sectionId
  exact ⟨p - img.dataOffset - img.codeOffset s.currSectionId, by omega, by omega, hsucc⟩

/-- The section memory after a copy into the current section. -/
theorem Receiving.copy_sections {r : Nat}
    (hp : p = img.dataOffset + (img.codeOffset s.currSectionId + r))
    (hr : r < (img.section_ s.currSectionId).length) {n : Nat} {bs : List UInt8}
    (hbs : bs = (img.bytes.drop p).take n) {k : Nat}
    (hk : k = min ((img.section_ s.currSectionId).length - r) bs.length) :
    ∀ i, i < img.nActors → HasBytes
      (copyLoop s.sections (maxSectionSize * s.currSectionId + r)
        (maxSectionSize * s.currSectionId + (img.section_ s.currSectionId).length) bs).1
      (maxSectionSize * i) ((img.section_ i).take (p + k - img.dataOffset - img.codeOffset i)) := by
  intro i hi
  have hcur := h.sectionId
  obtain ⟨post, hpost⟩ := img.drop_code r hcur (by omega)
  rw [← hp] at hpost
  have hsucc := img.codeOffset_succ hcur
  have hsec := img.length_section_le i
  have hold := h.sections i hi
  by_cases hid : i = s.currSectionId
  · subst hid
    have hpos : p - img.dataOffset - img.codeOffset s.currSectionId = r := by omega
    rw [hpos] at hold
    have hext := copyLoop_extend (maxSectionSize * s.currSectionId) r hold (by omega) (hpost ▸ hbs)
    rw [← hk] at hext
    rw [show p + k - img.dataOffset - img.codeOffset s.currSectionId = r + k from by omega]
    exact hext
  · -- another section: it is complete or not yet begun, and its bytes lie elsewhere
    have hsame : (img.section_ i).take (p + k - img.dataOffset - img.codeOffset i) =
        (img.section_ i).take (p - img.dataOffset - img.codeOffset i) := by
      rcases Nat.lt_or_gt_of_ne hid with hlt | hgt
      · have hmono := img.codeOffset_le (show i + 1 ≤ s.currSectionId from hlt)
        have hisucc := img.codeOffset_succ hi
        rw [List.take_of_length_le (by omega), List.take_of_length_le (by omega)]
      · have hmono := img.codeOffset_le (show s.currSectionId + 1 ≤ i from hgt)
        rw [show p + k - img.dataOffset - img.codeOffset i =
          p - img.dataOffset - img.codeOffset i from by omega]
    rw [hsame]
    refine hold.congr ?_
    intro j hj
    have hcursec := img.length_section_le s.currSectionId
    rw [List.length_take] at hj
    apply copyLoop_other
    unfold maxSectionSize at *
    rcases Nat.lt_or_gt_of_ne hid with hlt | hgt
    · left
      have : 4096 * (i + 1) ≤ 4096 * s.currSectionId := Nat.mul_le_mul_left _ hlt
      omega
    · right
      have : 4096 * (s.currSectionId + 1) ≤ 4096 * i := Nat.mul_le_mul_left _ hgt
      omega

/-- What the copy into the current section does to the parser. -/
theorem Receiving.copySection_eq (hp₁ : img.dataOffset ≤ p) {r : Nat}
    (hp : p = img.dataOffset + (img.codeOffset s.currSectionId + r))
    (hr : r < (img.section_ s.currSectionId).length) (buf : WriteBuf) {k : Nat}
    (hk : k = min ((img.section_ s.currSectionId).length - r) buf.data.length)
    (hlt : p + k < 2 ^ 64) :
    copySection
        { s with currSectionStart := img.dataOffset + img.codeOffset s.currSectionId
                 currSectionEnd := img.dataOffset + img.codeOffset (s.currSectionId + 1) } buf =
      if (img.section_ s.currSectionId).length - r ≤ buf.data.length then
        ({ s with
            cursor := p + k
            sections := (copyLoop s.sections (maxSectionSize * s.currSectionId + r)
              (maxSectionSize * s.currSectionId + (img.section_ s.currSectionId).length) buf.data).1
            currSectionId := s.currSectionId + 1
            currSectionStart := img.dataOffset + img.codeOffset (s.currSectionId + 1)
            currSectionEnd := add64 (img.dataOffset + img.codeOffset (s.currSectionId + 1))
              (s.sectionSize (s.currSectionId + 1)) }, k)
      else
        ({ s with
            cursor := p + k
            sections := (copyLoop s.sections (maxSectionSize * s.currSectionId + r)
              (maxSectionSize * s.currSectionId + (img.section_ s.currSectionId).length) buf.data).1
            currSectionStart := img.dataOffset + img.codeOffset s.currSectionId
            currSectionEnd := img.dataOffset + img.codeOffset (s.currSectionId + 1) }, k) := by
  have hss := h.sectionSize_eq hp₁ h.sectionId
  have hcur : sub64 p (img.dataOffset + img.codeOffset s.currSectionId) = r := by
    rw [sub64_of_le (by omega) (by omega)]
    omega
  have hadv : add64 (r + k) (img.dataOffset + img.codeOffset s.currSectionId) = p + k := by
    rw [← hcur]
    exact add64_sub64 (by omega) hlt
  have hwb : writesBeyond s.sectionsCap (maxSectionSize * s.currSectionId + r) k = false := by
    have hcap := h.sectionsCap
    have hsec := img.length_section_le s.currSectionId
    have hid : 4096 * (s.currSectionId + 1) ≤ 4096 * img.nActors := Nat.mul_le_mul_left _ h.sectionId
    apply writesBeyond_of_le
    unfold maxSectionSize at *
    omega
  unfold copySection
  unfold TcParser.sectionSize at hss
  simp only [h.cursor, hcur, TcParser.sectionSize, hss, sectionLoop_eq _ _ hr, ← hk, hadv,
    hwb, Bool.or_false, decide_eq_true_eq]

/-- In the data phase the tables are complete. -/
theorem Receiving.tables_complete (hp₁ : img.dataOffset ≤ p) :
    HasBytes s.actorTable 0 (encodeWords img.actorWords) ∧
      HasBytes s.symbolTable 0 (encodeWords img.symbolWords) ∧
      HasBytes s.metadata 0 (encodeWords img.metadataWords) := by
  obtain ⟨hsym, hmeta, hdata, hend, hheader, hlt⟩ := h.offsets
  have hta := h.actorTable
  have hts := h.symbolTable
  have htm := h.metadata
  rw [List.take_of_length_le (by rw [img.length_encoded_actors]; omega)] at hta
  rw [List.take_of_length_le (by rw [img.length_encoded_symbols]; omega)] at hts
  rw [List.take_of_length_le (by rw [img.length_encoded_metadata]; omega)] at htm
  exact ⟨hta, hts, htm⟩

/-- Progress within the sections. -/
theorem Receiving.data (hp₁ : img.dataOffset ≤ p) {q : Nat} (hpq : p ≤ q) {m : Mem} {id : Nat}
    (hm : ∀ i, i < img.nActors → HasBytes m (maxSectionSize * i)
      ((img.section_ i).take (q - img.dataOffset - img.codeOffset i)))
    (hid : id < img.nActors) (hle : img.codeOffset id ≤ q - img.dataOffset)
    (hlt : q - img.dataOffset < img.codeOffset (id + 1)) :
    Receiving img q
      { s with cursor := q, sections := m, currSectionId := id,
               currSectionStart := img.dataOffset + img.codeOffset id,
               currSectionEnd := img.dataOffset + img.codeOffset (id + 1) } where
  receiving := h.receiving
  cursor := rfl
  header := h.header.trans hpq
  nActors := h.nActors
  nSymbols := h.nSymbols
  actors_le := h.actors_le
  actorTableSize := h.actorTableSize
  symbolTableSize := h.symbolTableSize
  metadataSize := h.metadataSize
  actorTableCap := h.actorTableCap
  symbolTableCap := h.symbolTableCap
  metadataCap := h.metadataCap
  sectionsCap := h.sectionsCap
  inBounds := h.inBounds
  actorTable := by
    obtain ⟨hsym, hmeta, hdata, -⟩ := h.offsets
    rw [List.take_of_length_le (by rw [img.length_encoded_actors]; omega)]
    exact (h.tables_complete hp₁).1
  symbolTable := by
    obtain ⟨hsym, hmeta, hdata, -⟩ := h.offsets
    rw [List.take_of_length_le (by rw [img.length_encoded_symbols]; omega)]
    exact (h.tables_complete hp₁).2.1
  metadata := by
    obtain ⟨hsym, hmeta, hdata, -⟩ := h.offsets
    rw [List.take_of_length_le (by rw [img.length_encoded_metadata]; omega)]
    exact (h.tables_complete hp₁).2.2
  sections := hm
  sectionId := hid
  section_le := hle
  lt_section := hlt
  sectionStart := fun _ => rfl
  sectionEnd := fun _ => rfl

theorem Receiving.decoded {ta ts tm : Mem} (hta : HasBytes ta 0 (encodeWords img.actorWords))
    (hts : HasBytes ts 0 (encodeWords img.symbolWords))
    (htm : HasBytes tm 0 (encodeWords img.metadataWords)) {s' : TcParser}
    (ha : s'.actorTable = ta) (hs : s'.symbolTable = ts) (hm : s'.metadata = tm)
    (hn : s'.nActors = s.nActors) (hn' : s'.nSymbols = s.nSymbols)
    (hsec : ∀ i, i < img.nActors → HasBytes s'.sections (maxSectionSize * i) (img.section_ i))
    (hoob : s'.outOfBounds = s.outOfBounds) : Decoded img s' where
  nActors := hn.trans h.nActors
  nSymbols := hn'.trans h.nSymbols
  actorTable := by
    have := words_of_hasBytes hta fun w hw => img.words_lt w (by simp [hw])
    rwa [img.length_actorWords, ← ha] at this
  symbolTable := by
    have := words_of_hasBytes hts fun w hw => img.words_lt w (by simp [hw])
    rwa [img.length_symbolWords, ← hs] at this
  metadata := by
    have := words_of_hasBytes htm fun w hw => img.words_lt w (by simp [hw])
    rwa [img.length_metadataWords, ← hm] at this
  sections := fun i hi => (hsec i hi).read_eq
  inBounds := hoob.trans h.inBounds

/-- A call in the data phase: it stays in the section, enters the next one or ends the file. -/
theorem Receiving.data_step (hpos : ∀ i, i < img.nActors → 1 ≤ (img.section_ i).length)
    (hp₁ : img.dataOffset ≤ p) (c : StoreCall) {bs : List UInt8}
    (hbs : bs = (img.bytes.drop p).take c.offer) (hne : 1 ≤ bs.length) :
    ∃ k s' res, 1 ≤ k ∧ parseTestCaseBuffer c.env s ⟨bs, c.beyond⟩ = (s', res) ∧
      res.consumed = k ∧
      ((p + k < img.size ∧ res = ⟨k, false, k⟩ ∧ Receiving img (p + k) s') ∨
        (p + k = img.size ∧ res.finished = true ∧ Decoded img s')) := by
  obtain ⟨hb₁, hb₂, hb₃⟩ := h.bounds
  obtain ⟨hsym, hmeta, hdata, hend, hheader, hlt⟩ := h.offsets
  obtain ⟨r, hp, hr, hsucc⟩ := h.position hp₁
  have hid := h.sectionId
  have hsec : (img.section_ s.currSectionId).length ≤ 4096 := img.length_section_le _
  have hsize : img.size = img.dataOffset + img.codeOffset img.nActors := rfl
  have hmono := img.codeOffset_le (show s.currSectionId + 1 ≤ img.nActors from hid)
  generalize hk : min ((img.section_ s.currSectionId).length - r) bs.length = k
  have hcopied := h.copy_sections hp hr hbs hk.symm
  -- the parser enters the data phase and leaves its size check behind
  have hparse : parseTestCaseBuffer c.env s ⟨bs, c.beyond⟩ =
      (let q := copySection
        { s with currSectionStart := img.dataOffset + img.codeOffset s.currSectionId
                 currSectionEnd := img.dataOffset + img.codeOffset (s.currSectionId + 1) }
        ⟨bs, c.beyond⟩
      finishParsing c.env q.1 q.2 bs.length) := by
    rw [parse_section _ _ h.receiving, h.section_bounds hp₁]
    · rfl
    · refine ⟨?_, ?_, ?_⟩
      · rw [hb₁, h.cursor]; omega
      · rw [hb₂, h.cursor]; omega
      · rw [hb₃, h.cursor]; omega
    · rw [h.sectionSize_eq hp₁ hid]
      unfold maxSectionSize
      omega
  have hkle : k ≤ (img.section_ s.currSectionId).length - r := by omega
  have hk1 : 1 ≤ k := by omega
  rw [h.copySection_eq hp₁ hp hr ⟨bs, c.beyond⟩ hk.symm (by omega)] at hparse
  by_cases hfull : (img.section_ s.currSectionId).length - r ≤ bs.length
  · simp only [if_pos hfull] at hparse
    have hpk : p + k = img.dataOffset + img.codeOffset (s.currSectionId + 1) := by omega
    by_cases hlast : s.currSectionId + 1 < img.nActors
    · -- the next section has a byte, so the cursor is inside it
      have hnext := hpos _ hlast
      have hsucc' := img.codeOffset_succ hlast
      have hmono' := img.codeOffset_le (show s.currSectionId + 1 + 1 ≤ img.nActors from hlast)
      have hrec := h.data hp₁ (show p ≤ p + k by omega) hcopied hlast (by omega) (by omega)
      rw [finishParsing_of_lt _ _ (by rw [h.nActors]; exact hlast),
        h.sectionSize_eq hp₁ hlast, add64_of_lt (by omega), Nat.add_assoc, ← hsucc'] at hparse
      exact ⟨k, _, _, hk1, hparse, rfl, Or.inl ⟨by omega, rfl, hrec⟩⟩
    · have hn : s.currSectionId + 1 = img.nActors := by omega
      obtain ⟨hta, hts, htm⟩ := h.tables_complete hp₁
      rw [hn] at hpk
      generalize hs' : ({ s with
        cursor := p + k
        sections := (copyLoop s.sections (maxSectionSize * s.currSectionId + r)
          (maxSectionSize * s.currSectionId + (img.section_ s.currSectionId).length) bs).1
        currSectionId := s.currSectionId + 1
        currSectionStart := img.dataOffset + img.codeOffset (s.currSectionId + 1)
        currSectionEnd := add64 (img.dataOffset + img.codeOffset (s.currSectionId + 1))
          (s.sectionSize (s.currSectionId + 1)) } : TcParser) = s' at hparse
      have hdone : s'.nActors ≤ s'.currSectionId := by
        have hle : s.nActors ≤ s.currSectionId + 1 := by rw [h.nActors]; omega
        subst hs'
        exact hle
      obtain ⟨f, hfst, hfin, hcons⟩ := finishParsing_of_le c.env k bs.length hdone
      refine ⟨k, (finishParsing c.env s' k bs.length).1, (finishParsing c.env s' k bs.length).2,
        hk1, hparse, hcons, Or.inr ⟨by omega, hfin, ?_⟩⟩
      rw [hfst]
      subst hs'
      refine h.decoded hta hts htm rfl rfl rfl rfl rfl ?_ rfl
      intro i hi
      have hall := hcopied i hi
      have hisucc := img.codeOffset_succ hi
      have himono := img.codeOffset_le (show i + 1 ≤ img.nActors from hi)
      rwa [List.take_of_length_le (by omega)] at hall
  · simp only [if_neg hfull] at hparse
    have hrec := h.data hp₁ (show p ≤ p + k by omega) hcopied hid (by omega) (by omega)
    rw [finishParsing_of_lt _ _ (by rw [h.nActors]; exact hid)] at hparse
    exact ⟨k, _, _, hk1, hparse, rfl, Or.inl ⟨by omega, rfl, hrec⟩⟩

/-- One call on a file that is being received. -/
theorem Receiving.step (hpos : ∀ i, i < img.nActors → 1 ≤ (img.section_ i).length)
    (hp : p < img.size) {c : StoreCall} (hc : 1 ≤ c.offer) :
    ∃ k, 1 ≤ k ∧ (feedStep c (s, img.bytes.drop p)).1.2 = img.bytes.drop (p + k) ∧
      ((p + k < img.size ∧ (feedStep c (s, img.bytes.drop p)).2 = ⟨k, false, k⟩ ∧
          Receiving img (p + k) (feedStep c (s, img.bytes.drop p)).1.1) ∨
        (p + k = img.size ∧ (feedStep c (s, img.bytes.drop p)).2.finished = true ∧
          Decoded img (feedStep c (s, img.bytes.drop p)).1.1)) := by
  obtain ⟨hsym, hmeta, hdata, hend, hheader, hlt⟩ := h.offsets
  generalize hbs : (img.bytes.drop p).take c.offer = bs
  have hlen : bs.length = min c.offer (img.size - p) := by
    rw [← hbs, List.length_take, List.length_drop, img.length_bytes]
  -- what is left to show once the parser's answer is known
  have hfeed : ∀ {s' res}, parseTestCaseBuffer c.env s ⟨bs, c.beyond⟩ = (s', res) →
      feedStep c (s, img.bytes.drop p) = ((s', img.bytes.drop (p + res.consumed)), res) := by
    intro s' res hparse
    simp only [feedStep, hbs, hparse, List.drop_drop]
  have htable : ∀ {q k s'}, k = min (q - p) bs.length → p < q → q ≤ img.dataOffset →
      parseTestCaseBuffer c.env s ⟨bs, c.beyond⟩ = (s', ⟨k, false, k⟩) →
      Receiving img (p + k) s' →
      ∃ k, 1 ≤ k ∧ (feedStep c (s, img.bytes.drop p)).1.2 = img.bytes.drop (p + k) ∧
        ((p + k < img.size ∧ (feedStep c (s, img.bytes.drop p)).2 = ⟨k, false, k⟩ ∧
            Receiving img (p + k) (feedStep c (s, img.bytes.drop p)).1.1) ∨
          (p + k = img.size ∧ (feedStep c (s, img.bytes.drop p)).2.finished = true ∧
            Decoded img (feedStep c (s, img.bytes.drop p)).1.1)) := by
    intro q k s' hk hq hqd hparse hrec
    rw [hfeed hparse]
    have hlast := hrec.lt_section
    have hid := hrec.sectionId
    have hmono := img.codeOffset_le (show s'.currSectionId + 1 ≤ img.nActors from hid)
    have hsize : img.size = img.dataOffset + img.codeOffset img.nActors := rfl
    exact ⟨k, by omega, rfl, Or.inl ⟨by omega, rfl, hrec⟩⟩
  by_cases hp₁ : p < img.symbolOffset
  · obtain ⟨s', hparse, hrec⟩ := h.actor_step hp₁ c hbs.symm rfl
    exact htable rfl hp₁ (by omega) hparse hrec
  · by_cases hp₂ : p < img.metadataOffset
    · obtain ⟨s', hparse, hrec⟩ := h.symbol_step (by omega) hp₂ c hbs.symm rfl
      exact htable rfl hp₂ (by omega) hparse hrec
    · by_cases hp₃ : p < img.dataOffset
      · obtain ⟨s', hparse, hrec⟩ := h.metadata_step (by omega) hp₃ c hbs.symm rfl
        exact htable rfl hp₃ (by omega) hparse hrec
      · obtain ⟨k, s', res, hk, hparse, hcons, hres⟩ :=
          h.data_step hpos (by omega) c hbs.symm (by omega)
        rw [hfeed hparse, hcons]
        exact ⟨k, hk, rfl, hres⟩

end Step

/-- Receiving the rest of a file. -/
theorem Receiving.run (hpos : ∀ i, i < img.nActors → 1 ≤ (img.section_ i).length)
    {calls : Nat → StoreCall} (hcalls : ∀ k, 1 ≤ (calls k).offer) {s₀ : TcParser} {j p : Nat}
    {s : TcParser} (hfeed : feed calls s₀ img.bytes j = (s, img.bytes.drop p))
    (h : Receiving img p s) (hp : p < img.size) :
    ∃ n, j ≤ n ∧ (∀ k, j ≤ k → k < n → (feedResult calls s₀ img.bytes k).finished = false ∧
        0 < (feedResult calls s₀ img.bytes k).ret ∧ (feed calls s₀ img.bytes (k + 1)).2 ≠ []) ∧
      (feedResult calls s₀ img.bytes n).finished = true ∧
      (feed calls s₀ img.bytes (n + 1)).2 = [] ∧ Decoded img (feed calls s₀ img.bytes (n + 1)).1 := by
  -- induction on the number of bytes that are left
  generalize hm : img.size - p = m
  induction m using Nat.strongRecOn generalizing j p s with
  | ind m ih =>
    obtain ⟨k, hk, hrest, hres⟩ := h.step hpos hp (hcalls j)
    have hstep : feed calls s₀ img.bytes (j + 1) = (feedStep (calls j) (s, img.bytes.drop p)).1 := by
      rw [feed, hfeed]
    have hres' : feedResult calls s₀ img.bytes j = (feedStep (calls j) (s, img.bytes.drop p)).2 := by
      rw [feedResult, hfeed]
    rcases hres with ⟨hlt, hr, hrec⟩ | ⟨heq, hfin, hdec⟩
    · obtain ⟨n, hjn, hbefore, hend⟩ := ih (img.size - (p + k)) (by omega)
        (hstep.trans (Prod.ext rfl hrest)) hrec hlt rfl
      refine ⟨n, by omega, ?_, hend⟩
      intro i hi hin
      by_cases hij : i = j
      · subst hij
        rw [hres', hstep, hrest, hr]
        refine ⟨rfl, Int.natCast_pos.mpr hk, ?_⟩
        intro hnil
        have := congrArg List.length hnil
        rw [List.length_drop, img.length_bytes, List.length_nil] at this
        omega
      · exact hbefore i (by omega) hin
    · refine ⟨j, le_refl _, fun i hi hin => by omega, ?_, ?_, ?_⟩
      · rw [hres']; exact hfin
      · rw [hstep, hrest, heq, ← img.length_bytes, List.drop_length]
      · rw [hstep]; exact hdec

/-- With a byte in every section, the file of an image is decoded from every idle state and in
every split into calls. -/
theorem roundTrips_of_sections_pos (hpos : ∀ i, i < img.nActors → 1 ≤ (img.section_ i).length)
    {calls : Nat → StoreCall} (hfirst : 16 ≤ (calls 0).offer) (hcalls : ∀ k, 1 ≤ (calls k).offer)
    (halloc : AllocSucceeds (calls 0).env img) {s : TcParser} (hidle : Idle s) :
    RoundTrips img calls s := by
  obtain ⟨hrec, hrest, hres⟩ := receiving_start hpos hidle hfirst halloc
  have hfeed : feed calls s img.bytes 1 =
      ((feedStep (calls 0) (s, img.bytes)).1.1, img.bytes.drop 16) := Prod.ext rfl hrest
  have hlt : 16 < img.size := by
    have hact : 1 ≤ img.nActors := img.actors_pos
    unfold RcbfImage.size RcbfImage.dataOffset RcbfImage.metadataOffset RcbfImage.symbolOffset
    omega
  obtain ⟨n, hn, hbefore, hend⟩ := hrec.run hpos hcalls hfeed hlt
  refine ⟨n, ?_, hend⟩
  intro k hk
  by_cases hk0 : k = 0
  · subst hk0
    have hres0 : feedResult calls s img.bytes 0 = ⟨16, false, 16⟩ := hres
    rw [hres0, hfeed]
    refine ⟨rfl, by decide, ?_⟩
    intro hnil
    have := congrArg List.length hnil
    rw [List.length_drop, img.length_bytes, List.length_nil] at this
    omega
  · exact hbefore k (by omega) hk

section TestCases

open Rvzr.TestCase Rvzr.TestCase.TestCaseBinary

/-- Every saved test case without an empty section is decoded to its own tables and sections,
in every split of the file into calls. -/
theorem saveRcbf_roundTrips {tc : TestCaseBinary} {bytes : List UInt8}
    (h : tc.saveRcbf = some bytes) (hl : tc.WithinLimits)
    (hpos : ∀ a ∈ tc.actorValues, 1 ≤ a.codeSection.size) {calls : Nat → StoreCall}
    (hfirst : 16 ≤ (calls 0).offer) (hcalls : ∀ k, 1 ≤ (calls k).offer)
    (halloc : AllocSucceeds (calls 0).env (tc.image h hl)) {s : TcParser} (hidle : Idle s) :
    (tc.image h hl).bytes = bytes ∧ RoundTrips (tc.image h hl) calls s := by
  refine ⟨tc.image_bytes h hl, roundTrips_of_sections_pos ?_ hfirst hcalls halloc hidle⟩
  intro i hi
  have hi' : i < tc.getActors.length := by
    have : (tc.image h hl).nActors = tc.getActors.length := List.length_map _
    omega
  have hsec : (tc.image h hl).section_ i = tc.sectionCode tc.getActors[i] := by
    simp [RcbfImage.section_, image, List.getElem?_eq_getElem hi']
  have hmem : tc.getActors[i] ∈ tc.getActors := List.getElem_mem hi'
  rw [hsec, tc.length_sectionCode hmem]
  exact hpos _ (tc.mem_getActors.mp hmem)

theorem idle_init (garbage : Mem) : Idle (TcParser.init garbage) := by
  refine ⟨rfl, rfl, ⟨?_, ?_, ?_, ?_, ?_, ?_⟩, rfl⟩ <;> simp [TcParser.init]

/-- A kernel in which every allocation up to the limit succeeds. -/
def sampleEnv : CallEnv := ⟨fun n => n ≤ 2 ^ 22, fun _ => true, fun _ => 0, false⟩

/-- The writer offers all that is left. -/
def sampleCalls (_ : Nat) : StoreCall := ⟨4096, sampleEnv, fun _ => 0⟩

/-- The main function and the two measurement macros. -/
def sampleSymbols : List SymbolTableEntry := [⟨0, 0, 0, 0⟩, ⟨0, 0, 1, 0⟩, ⟨0, 0, 2, 0⟩]

/-- A host actor whose code is at `offset` in the object file. -/
def sampleActor (id : Int) (offset size : Nat) : Actor :=
  ⟨id, .host, .kernel, 0, 0, ⟨offset, size, id⟩⟩

/-- A test case with one section of two bytes. -/
def sampleTestCase : TestCaseBinary :=
  ⟨[sampleActor 0 0 2], sampleSymbols, [0x90, 0x90], by decide⟩

/-- The same code in the second of two sections; the first one is empty. -/
def sampleEmptySection : TestCaseBinary :=
  ⟨[sampleActor 0 0 0, sampleActor 1 0 2], sampleSymbols, [0x90, 0x90], by decide⟩

theorem sampleTestCase_limits : sampleTestCase.WithinLimits :=
  ⟨by decide, by decide, by decide⟩

theorem sampleEmptySection_limits : sampleEmptySection.WithinLimits :=
  ⟨by decide, by decide, by decide⟩

theorem sampleTestCase_saved : sampleTestCase.saveRcbf = some (sampleTestCase.saveRcbf.getD []) := by
  decide +kernel

theorem sampleEmptySection_saved :
    sampleEmptySection.saveRcbf = some (sampleEmptySection.saveRcbf.getD []) := by
  decide +kernel

theorem saveRcbf_roundTrips_sample :
    (∀ a ∈ sampleTestCase.actorValues, 1 ≤ a.codeSection.size) ∧
      RoundTrips (sampleTestCase.image sampleTestCase_saved sampleTestCase_limits) sampleCalls
        (TcParser.init fun _ => 0) := by
  have hpos : ∀ a ∈ sampleTestCase.actorValues, 1 ≤ a.codeSection.size := by decide
  refine ⟨hpos, (saveRcbf_roundTrips sampleTestCase_saved sampleTestCase_limits hpos (by decide)
    (fun _ => by simp [sampleCalls]) ?_ (idle_init _)).2⟩
  refine ⟨by decide, by decide, by decide, by decide, by decide, ?_⟩
  intro n hn
  simpa [sampleCalls, sampleEnv] using hn

/-- The first byte of the second section is stored in the empty one: the file is consumed and
the parser finishes, with the byte missing. -/
theorem emptySection_not_roundTrips :
    sampleEmptySection.WithinLimits ∧
      ¬ RoundTrips (sampleEmptySection.image sampleEmptySection_saved sampleEmptySection_limits)
        sampleCalls (TcParser.init fun _ => 0) := by
  refine ⟨sampleEmptySection_limits, ?_⟩
  rintro ⟨n, hbefore, hfin, -, hdec⟩
  have hunfinished : ∀ k, k < 5 → (feedResult sampleCalls (TcParser.init fun _ => 0)
      (sampleEmptySection.image sampleEmptySection_saved sampleEmptySection_limits).bytes
      k).finished = false := by decide +kernel
  have hfinished : (feedResult sampleCalls (TcParser.init fun _ => 0)
      (sampleEmptySection.image sampleEmptySection_saved sampleEmptySection_limits).bytes
      5).finished = true := by decide +kernel
  have hn : n = 5 := by
    by_contra hne
    rcases Nat.lt_or_gt_of_ne hne with hlt | hgt
    · rw [hunfinished n hlt] at hfin
      exact absurd hfin (by simp)
    · rw [(hbefore 5 hgt).1] at hfinished
      exact absurd hfinished (by simp)
  subst hn
  exact absurd (hdec.sections 1 (by decide)) (by decide +kernel)

end TestCases

end Rvzr.Km
