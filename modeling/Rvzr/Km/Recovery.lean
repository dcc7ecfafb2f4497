import Rvzr.Km.RoundTrip
import Rvzr.Lib.Runs

/-!
# Recovery after rejected test cases

A new test case resets the cursor and clears the tables, but not the section cursor, which is
only reset when a test case is complete. `HistoryOk` is what every sequence of writes keeps
as long as no section after the first one is rejected for its size. From such a state the
parser runs in lockstep with a freshly loaded one (`Lock`), whatever the file contains.
-/

namespace Rvzr.Km

open Rvzr.Lib

/-- One write to the `test_case` file, with arbitrary contents. -/
structure TcWrite where
  env : CallEnv
  buf : WriteBuf

/-- The parser after one write. -/
def writeStep (s : TcParser) (w : TcWrite) : TcParser := (parseTestCaseBuffer w.env s w.buf).1

/-- The parser after a sequence of writes. -/
def runWrites (s : TcParser) (ws : List TcWrite) : TcParser := run writeStep s ws

/-- The next call rejects a section other than the first because of its size. -/
def LateOversize (s : TcParser) : Prop :=
  s.isReceivingTestCase = true ∧ s.InDataPhase ∧ s.currSectionId ≠ 0 ∧
    maxSectionSize < s.sectionSize s.currSectionId

/-- The write begins a test case with so many actors that the size of its sections wraps. -/
def WrappingHeader (s : TcParser) (w : TcWrite) : Prop :=
  s.isReceivingTestCase = false ∧ 2 ^ 52 ≤ w.buf.mem.word64 0

/-- No write of the sequence is one of the two kinds above. -/
def WritesOk (s : TcParser) (ws : List TcWrite) : Prop :=
  AllSteps writeStep (fun s w => ¬ LateOversize s ∧ ¬ WrappingHeader s w) s ws

/-- What a history of writes leaves behind. -/
structure HistoryOk (s : TcParser) : Prop where
  section_zero : s.isReceivingTestCase = false → s.currSectionId = 0
  capacity : CapacityOk s

section History

/-- Fields that neither the capacities nor the section cursor depend on may change. -/
theorem CapacityOk.congr {s s' : TcParser} (h : CapacityOk s)
    (h₁ : s'.hasSymbolTable = s.hasSymbolTable) (h₂ : s'.hasData = s.hasData)
    (h₃ : s'.highestNSymbols = s.highestNSymbols) (h₄ : s'.highestNActors = s.highestNActors)
    (h₅ : s'.symbolTableCap = s.symbolTableCap) (h₆ : s'.actorTableCap = s.actorTableCap)
    (h₇ : s'.metadataCap = s.metadataCap) (h₈ : s'.sectionsCap = s.sectionsCap) :
    CapacityOk s' := by
  refine ⟨?_, ?_, ?_, ?_, ?_, ?_⟩
  · rw [h₁, h₃, h₅]; exact h.symbols
  · rw [h₂, h₄, h₆]; exact h.actors
  · rw [h₂, h₄, h₇]; exact h.metadata
  · rw [h₂, h₄, h₈]; exact h.sections
  · rw [h₃]; exact h.symbols_le
  · rw [h₄]; exact h.actors_lt

theorem finishParsing_historyOk (env : CallEnv) {s : TcParser} (k count : Nat) (h : HistoryOk s) :
    HistoryOk (finishParsing env s k count).1 := by
  by_cases hlt : s.currSectionId < s.nActors
  · rw [finishParsing_of_lt k count hlt]
    exact h
  · obtain ⟨f, hfst, -⟩ := finishParsing_of_le env k count (Nat.not_lt.mp hlt)
    rw [hfst]
    exact ⟨fun _ => rfl, h.capacity.congr rfl rfl rfl rfl rfl rfl rfl rfl⟩

theorem allocSymbolTable_capacity (env : CallEnv) {k : Nat} (hk : k ≤ 128) {s : TcParser}
    (hsize : s.symbolTableSize = 32 * k) (h : CapacityOk s) :
    CapacityOk (s.allocSymbolTable env k).1 ∧
      (s.allocSymbolTable env k).1.actorTableSize = s.actorTableSize ∧
      (s.allocSymbolTable env k).1.metadataSize = s.metadataSize ∧
      (s.allocSymbolTable env k).1.sectionsSize = s.sectionsSize ∧
      (s.allocSymbolTable env k).1.isReceivingTestCase = s.isReceivingTestCase ∧
      (s.allocSymbolTable env k).1.currSectionId = s.currSectionId := by
  unfold TcParser.allocSymbolTable
  split
  · split
    · refine ⟨⟨fun _ => ?_, h.actors, h.metadata, h.sections, hk, h.actors_lt⟩, rfl, rfl, rfl, rfl,
        rfl⟩
      show 32 * k + 1 ≤ s.symbolTableSize + 1
      omega
    · exact ⟨⟨fun hf => absurd hf (by simp), h.actors, h.metadata, h.sections, h.symbols_le,
        h.actors_lt⟩, rfl, rfl, rfl, rfl, rfl⟩
  · exact ⟨h, rfl, rfl, rfl, rfl, rfl⟩

theorem allocActorTables_capacity (env : CallEnv) {k : Nat} (hk : k < 2 ^ 52) {s : TcParser}
    (hsa : s.actorTableSize = 48 * k) (hsm : s.metadataSize = 24 * k)
    (hss : s.sectionsSize = 4096 * k) (h : CapacityOk s) :
    CapacityOk (s.allocActorTables env k).1 ∧
      (s.allocActorTables env k).1.isReceivingTestCase = s.isReceivingTestCase ∧
      (s.allocActorTables env k).1.currSectionId = s.currSectionId := by
  -- until the last table is allocated the pointer to the sections is null
  have hnull : ∀ s' : TcParser, s'.hasData = false → s'.hasSymbolTable = s.hasSymbolTable →
      s'.highestNSymbols = s.highestNSymbols → s'.highestNActors = s.highestNActors →
      s'.symbolTableCap = s.symbolTableCap → CapacityOk s' := by
    intro s' hd h₁ h₂ h₃ h₄
    refine ⟨?_, ?_, ?_, ?_, ?_, ?_⟩
    · rw [h₁, h₂, h₄]; exact h.symbols
    · intro hd'; rw [hd] at hd'; exact absurd hd' (by simp)
    · intro hd'; rw [hd] at hd'; exact absurd hd' (by simp)
    · intro hd'; rw [hd] at hd'; exact absurd hd' (by simp)
    · rw [h₂]; exact h.symbols_le
    · rw [h₃]; exact h.actors_lt
  unfold TcParser.allocActorTables
  split
  · dsimp only
    split
    · split
      · split
        · refine ⟨⟨h.symbols, fun _ => ?_, fun _ => ?_, fun _ => ?_, h.symbols_le, hk⟩, rfl, rfl⟩
          · show 48 * k ≤ s.actorTableSize; omega
          · show 24 * k ≤ s.metadataSize; omega
          · show 4096 * k ≤ s.sectionsSize; omega
        · exact ⟨hnull _ rfl rfl rfl rfl rfl, rfl, rfl⟩
      · exact ⟨hnull _ rfl rfl rfl rfl rfl, rfl, rfl⟩
    · exact ⟨hnull _ rfl rfl rfl rfl rfl, rfl, rfl⟩
  · exact ⟨h, rfl, rfl⟩

/-- A header keeps the section cursor, and the capacities unless sizes wrap. -/
theorem batchTcParsingStart_capacity (env : CallEnv) {s : TcParser} (h : CapacityOk s)
    (buf : WriteBuf) (hn : buf.mem.word64 0 < 2 ^ 52) :
    CapacityOk (batchTcParsingStart env s buf).1 ∧
      (batchTcParsingStart env s buf).1.isReceivingTestCase = s.isReceivingTestCase ∧
      (batchTcParsingStart env s buf).1.currSectionId = s.currSectionId := by
  have hnew : CapacityOk (TcParser.newTestCase { s with cursor := 0 }) :=
    h.congr rfl rfl rfl rfl rfl rfl rfl rfl
  unfold batchTcParsingStart
  dsimp only
  by_cases hk : env.kmalloc sizeofTestCase = false
  · rw [if_pos hk]
    exact ⟨h.congr rfl rfl rfl rfl rfl rfl rfl rfl, rfl, rfl⟩
  by_cases h0 : buf.mem.word64 0 = 0
  · rw [if_neg hk, if_pos h0]
    exact ⟨hnew, rfl, rfl⟩
  by_cases hm : maxSymbols < buf.mem.word64 8
  · rw [if_neg hk, if_neg h0, if_pos hm]
    exact ⟨hnew, rfl, rfl⟩
  rw [if_neg hk, if_neg h0, if_neg hm]
  have hm' : buf.mem.word64 8 ≤ 128 := Nat.not_lt.mp hm
  generalize hs₁ : (TcParser.newTestCase { s with cursor := 0 }).setSizes
    (buf.mem.word64 0) (buf.mem.word64 8) = s₁
  have hsizes : s₁.actorTableSize = 48 * buf.mem.word64 0 ∧
      s₁.symbolTableSize = 32 * buf.mem.word64 8 ∧ s₁.metadataSize = 24 * buf.mem.word64 0 ∧
      s₁.sectionsSize = 4096 * buf.mem.word64 0 ∧ CapacityOk s₁ ∧
      s₁.isReceivingTestCase = s.isReceivingTestCase ∧ s₁.currSectionId = s.currSectionId := by
    subst hs₁
    refine ⟨?_, ?_, ?_, ?_, hnew.congr rfl rfl rfl rfl rfl rfl rfl rfl, rfl, rfl⟩
    · exact (mul64_of_lt (by unfold actorMetadataSize; omega)).trans (Nat.mul_comm _ _)
    · exact (mul64_of_lt (by unfold tcSymbolEntrySize; omega)).trans (Nat.mul_comm _ _)
    · exact (mul64_of_lt (by unfold tcSectionMetadataEntrySize; omega)).trans (Nat.mul_comm _ _)
    · exact (mul64_of_lt (by unfold maxSectionSize; omega)).trans (Nat.mul_comm _ _)
  obtain ⟨ha, hs, hmd, hd, hcap, hrec, hid⟩ := hsizes
  obtain ⟨hcap₂, ha₂, hm₂, hd₂, hrec₂, hid₂⟩ := allocSymbolTable_capacity env hm' hs hcap
  cases hS : s₁.allocSymbolTable env (buf.mem.word64 8) with
  | mk s₂ ok =>
    rw [hS] at hcap₂ ha₂ hm₂ hd₂ hrec₂ hid₂
    dsimp only at hcap₂ ha₂ hm₂ hd₂ hrec₂ hid₂
    cases ok with
    | false => exact ⟨hcap₂, hrec₂.trans hrec, hid₂.trans hid⟩
    | true =>
      obtain ⟨hcap₃, hrec₃, hid₃⟩ := allocActorTables_capacity env hn (ha₂.trans ha)
        (hm₂.trans hmd) (hd₂.trans hd) hcap₂
      cases hA : s₂.allocActorTables env (buf.mem.word64 0) with
      | mk s₃ ok' =>
        rw [hA] at hcap₃ hrec₃ hid₃
        dsimp only at hcap₃ hrec₃ hid₃ ⊢
        rw [hA]
        cases ok' with
        | false => exact ⟨hcap₃, hrec₃.trans (hrec₂.trans hrec), hid₃.trans (hid₂.trans hid)⟩
        | true =>
          exact ⟨hcap₃.congr rfl rfl rfl rfl rfl rfl rfl rfl, hrec₃.trans (hrec₂.trans hrec),
            hid₃.trans (hid₂.trans hid)⟩

/-- The copy into a section leaves capacities alone and goes on receiving. -/
theorem copySection_historyOk {s : TcParser} (h : HistoryOk s)
    (hrec : s.isReceivingTestCase = true) (buf : WriteBuf) : HistoryOk (copySection s buf).1 := by
  unfold copySection
  dsimp only
  split
  · exact ⟨fun hf => absurd (hrec.symm.trans hf) (by simp),
      h.capacity.congr rfl rfl rfl rfl rfl rfl rfl rfl⟩
  · exact ⟨fun hf => absurd (hrec.symm.trans hf) (by simp),
      h.capacity.congr rfl rfl rfl rfl rfl rfl rfl rfl⟩

theorem enterSections_historyOk {s : TcParser} (h : HistoryOk s) : HistoryOk s.enterSections := by
  unfold TcParser.enterSections
  split
  · exact ⟨h.section_zero, h.capacity.congr rfl rfl rfl rfl rfl rfl rfl rfl⟩
  · exact h

/-- One write keeps the history in order. -/
theorem writeStep_historyOk {s : TcParser} (h : HistoryOk s) (w : TcWrite)
    (hlate : ¬ LateOversize s) (hwrap : ¬ WrappingHeader s w) : HistoryOk (writeStep s w) := by
  unfold writeStep
  cases hrec : s.isReceivingTestCase with
  | false =>
    have hn : w.buf.mem.word64 0 < 2 ^ 52 := Nat.not_le.mp fun hle => hwrap ⟨hrec, hle⟩
    obtain ⟨hcap, hr, hid⟩ := batchTcParsingStart_capacity w.env h.capacity w.buf hn
    rw [parse_header w.env w.buf hrec rfl]
    split
    · exact ⟨fun _ => hid.trans (h.section_zero hrec), hcap⟩
    · refine finishParsing_historyOk _ _ _ ⟨fun hf => absurd hf (by simp), ?_⟩
      exact hcap.congr rfl rfl rfl rfl rfl rfl rfl rfl
  | true =>
    have htable : ∀ s' : TcParser, s'.isReceivingTestCase = true → CapacityOk s' → HistoryOk s' :=
      fun s' hr hc => ⟨fun hf => absurd (hr.symm.trans hf) (by simp), hc⟩
    by_cases hp₁ : s.cursor < s.actorTableEnd
    · rw [parse_actorTable w.env w.buf hrec hp₁]
      exact finishParsing_historyOk _ _ _
        (htable _ hrec (h.capacity.congr rfl rfl rfl rfl rfl rfl rfl rfl))
    by_cases hp₂ : s.cursor < s.symbolTableEnd
    · rw [parse_symbolTable w.env w.buf hrec hp₁ hp₂]
      exact finishParsing_historyOk _ _ _
        (htable _ hrec (h.capacity.congr rfl rfl rfl rfl rfl rfl rfl rfl))
    by_cases hp₃ : s.cursor < s.metadataEnd
    · rw [parse_metadata w.env w.buf hrec hp₁ hp₂ hp₃]
      exact finishParsing_historyOk _ _ _
        (htable _ hrec (h.capacity.congr rfl rfl rfl rfl rfl rfl rfl rfl))
    have hdata : s.InDataPhase := ⟨hp₁, hp₂, hp₃⟩
    have henter := enterSections_historyOk h
    by_cases hsize : maxSectionSize < s.sectionSize s.currSectionId
    · -- the only rejection that keeps the section cursor
      rw [parse_oversize w.env w.buf hrec hdata hsize]
      refine ⟨fun _ => ?_, henter.capacity.congr rfl rfl rfl rfl rfl rfl rfl rfl⟩
      by_contra hne
      have hne' : s.currSectionId ≠ 0 := by
        intro h0
        exact hne ((TcParser.enterSections_currSectionId s).trans h0)
      exact hlate ⟨hrec, hdata, hne', hsize⟩
    · rw [parse_section w.env w.buf hrec hdata hsize]
      refine finishParsing_historyOk _ _ _ (copySection_historyOk henter ?_ _)
      rw [TcParser.enterSections_isReceivingTestCase, hrec]

theorem runWrites_historyOk {s : TcParser} (h : HistoryOk s) {ws : List TcWrite}
    (hws : WritesOk s ws) : HistoryOk (runWrites s ws) := by
  have hstep : ∀ s w, HistoryOk s → ¬ LateOversize s ∧ ¬ WrappingHeader s w →
      HistoryOk (writeStep s w) := by
    intro s w hs hw
    exact writeStep_historyOk hs w hw.1 hw.2
  exact AllSteps.run_inv hstep hws h

end History

/-- The sizes a test case with the header of `img` has. -/
structure Sized (img : RcbfImage) (s : TcParser) : Prop where
  nActors : s.nActors = img.nActors
  nSymbols : s.nSymbols = img.nSymbols
  actorTableSize : s.actorTableSize = 48 * img.nActors
  symbolTableSize : s.symbolTableSize = 32 * img.nSymbols
  metadataSize : s.metadataSize = 24 * img.nActors

/-- Two parsers hold the same bytes in the four tables of a test case. -/
structure TablesAgree (img : RcbfImage) (s t : TcParser) : Prop where
  actorTable : ∀ i, i < 48 * img.nActors → s.actorTable i = t.actorTable i
  symbolTable : ∀ i, i < 32 * img.nSymbols → s.symbolTable i = t.symbolTable i
  metadata : ∀ i, i < 24 * img.nActors → s.metadata i = t.metadata i
  sections : ∀ i, i < 4096 * img.nActors → s.sections i = t.sections i

/-- Two parsers in the same place of a test case; `t` is the one with the smaller tables. -/
structure Lock (img : RcbfImage) (s t : TcParser) : Prop where
  receiving : s.isReceivingTestCase = true
  receiving' : t.isReceivingTestCase = true
  sized : Sized img s
  sized' : Sized img t
  cursor : s.cursor = t.cursor
  sectionId : s.currSectionId = t.currSectionId
  sectionStart : t.currSectionId ≠ 0 → s.currSectionStart = t.currSectionStart
  sectionEnd : t.currSectionId ≠ 0 → t.currSectionId < img.nActors →
    s.currSectionEnd = t.currSectionEnd
  tables : TablesAgree img s t
  actorTableCap : t.actorTableCap ≤ s.actorTableCap
  symbolTableCap : t.symbolTableCap ≤ s.symbolTableCap
  metadataCap : t.metadataCap ≤ s.metadataCap
  sectionsCap : t.sectionsCap ≤ s.sectionsCap
  inBounds : t.outOfBounds = false → s.outOfBounds = false

/-- The macros that set the target of a switch name actors of the test case. -/
def TargetsListed (s : TcParser) : Prop :=
  ∀ e ∈ s.symbolList, e.id ∈ [macroSetK2uTarget, macroSetU2kTarget, macroSetH2gTarget,
    macroSetG2hTarget] → e.args % 256 < s.nActors

/-- How the same call ends for two parsers in lockstep: they go on in lockstep, both finish with
the same tables, or both reject the test case. -/
inductive LockOutcome (img : RcbfImage) (r q : TcParser × ParseResult) : Prop
  | goOn (hres : r.2 = q.2) (hfin : q.2.finished = false) (hlock : Lock img r.1 q.1)
      (hid : q.1.currSectionId < img.nActors)
  | done (hfin : r.2.finished = true) (hfin' : q.2.finished = true)
      (hcons : r.2.consumed = q.2.consumed) (hr : Sized img r.1) (hq : Sized img q.1)
      (htables : TablesAgree img r.1 q.1) (hret : TargetsListed q.1 → r.2.ret = q.2.ret)
      (hbounds : q.1.outOfBounds = false → r.1.outOfBounds = false)
  | rejected (hres : r.2 = q.2) (hfin : q.2.finished = false) (hneg : q.2.ret < 0)

theorem writesBeyond_mono {cap cap' cur k : Nat} (h : cap' ≤ cap)
    (hw : writesBeyond cap' cur k = false) : writesBeyond cap cur k = false := by
  unfold writesBeyond at *
  simp only [bne_eq_false_iff_eq, Bool.and_eq_false_iff, decide_eq_false_iff_not] at *
  omega

theorem or_writesBeyond_mono {b b' : Bool} (hb : b' = false → b = false) {cap cap' : Nat}
    (h : cap' ≤ cap) (cur k : Nat) :
    (b' || writesBeyond cap' cur k) = false → (b || writesBeyond cap cur k) = false := by
  simp only [Bool.or_eq_false_iff]
  exact fun ⟨h₁, h₂⟩ => ⟨hb h₁, writesBeyond_mono h h₂⟩

theorem sectionLoop_snd (m m' : Mem) (base cur size : Nat) (bs : List UInt8) :
    (sectionLoop m base cur size bs).2 = (sectionLoop m' base cur size bs).2 := by
  induction bs generalizing m m' cur with
  | nil => rfl
  | cons b bs ih =>
    unfold sectionLoop
    by_cases hl : size ≤ cur + 1
    · simp only [if_pos hl]
    · simp only [if_neg hl, ih (m.set (base + cur) b) (m'.set (base + cur) b)]

theorem sectionLoop_agree {m m' : Mem} {n : Nat} (h : ∀ i, i < n → m i = m' i)
    (base cur size : Nat) (bs : List UInt8) : ∀ i, i < n →
      (sectionLoop m base cur size bs).1 i = (sectionLoop m' base cur size bs).1 i := by
  induction bs generalizing m m' cur with
  | nil => exact h
  | cons b bs ih =>
    have hset : ∀ i, i < n → m.set (base + cur) b i = m'.set (base + cur) b i := by
      intro i hi
      unfold Mem.set
      split
      · rfl
      · exact h i hi
    unfold sectionLoop
    by_cases hl : size ≤ cur + 1
    · simp only [if_pos hl]
      exact hset
    · simp only [if_neg hl]
      exact ih hset _

section Lockstep

variable {img : RcbfImage} {s t : TcParser}

theorem Sized.bounds_eq (hs : Sized img s) (ht : Sized img t) :
    s.actorTableEnd = t.actorTableEnd ∧ s.symbolTableEnd = t.symbolTableEnd ∧
      s.metadataEnd = t.metadataEnd := by
  unfold TcParser.actorTableEnd TcParser.symbolTableEnd TcParser.metadataEnd
  rw [hs.actorTableSize, hs.symbolTableSize, hs.metadataSize, ht.actorTableSize,
    ht.symbolTableSize, ht.metadataSize]
  exact ⟨rfl, rfl, rfl⟩

theorem TablesAgree.sectionSize (h : TablesAgree img s t) {i : Nat} (hi : i < img.nActors) :
    s.sectionSize i = t.sectionSize i := by
  unfold TcParser.sectionSize tcSectionMetadataEntrySize
  apply Mem.word64_congr
  intro j hj
  exact h.metadata _ (by omega)

theorem TablesAgree.symbolList (h : TablesAgree img s t) (hs : Sized img s) (ht : Sized img t) :
    s.symbolList = t.symbolList := by
  unfold TcParser.symbolList
  rw [hs.nSymbols, ht.nSymbols]
  apply List.map_congr_left
  intro i hi
  have hlt := List.mem_range.mp hi
  have hword : ∀ off, off ≤ 24 →
      s.symbolTable.word64 (32 * i + off) = t.symbolTable.word64 (32 * i + off) := by
    intro off hoff
    apply Mem.word64_congr
    intro j hj
    exact h.symbolTable _ (by omega)
  unfold TcParser.symbolAt tcSymbolEntrySize
  dsimp only
  have hfirst := hword 0 (by omega)
  rw [Nat.add_zero] at hfirst
  rw [hfirst, hword 8 (by omega), hword 16 (by omega), hword 24 (by omega)]

theorem TablesAgree.switchTargetOk (h : TablesAgree img s t) {e : TcSymbolEntry}
    (he : e.id ∈ [macroSetK2uTarget, macroSetU2kTarget, macroSetH2gTarget, macroSetG2hTarget] →
      e.args % 256 < img.nActors) : switchTargetOk s e = switchTargetOk t e := by
  unfold Rvzr.Km.switchTargetOk
  by_cases hid : e.id ∈ [macroSetK2uTarget, macroSetU2kTarget, macroSetH2gTarget,
      macroSetG2hTarget]
  · have hlt := he hid
    have hword : ∀ off, off ≤ 16 → s.actorTable.word64 (48 * (e.args % 256) + off) =
        t.actorTable.word64 (48 * (e.args % 256) + off) := by
      intro off hoff
      apply Mem.word64_congr
      intro j hj
      exact h.actorTable _ (by omega)
    unfold TcParser.actorPl TcParser.actorMode actorMetadataSize
    dsimp only
    rw [hword 8 (by omega), hword 16 (by omega)]
  · -- no other symbol has a target
    simp only [List.mem_cons, List.not_mem_nil, or_false, not_or] at hid
    obtain ⟨hk2u, hu2k, hh2g, hg2h⟩ := hid
    simp [bne_iff_ne.mpr hk2u, bne_iff_ne.mpr hu2k, bne_iff_ne.mpr hh2g, bne_iff_ne.mpr hg2h]

theorem scanSymbols_congr {es : List TcSymbolEntry}
    (h : ∀ e ∈ es, switchTargetOk s e = switchTargetOk t e) (v : SymbolScan) :
    scanSymbols s es v = scanSymbols t es v := by
  induction es generalizing v with
  | nil => rfl
  | cons e es ih =>
    unfold scanSymbols
    rw [h e List.mem_cons_self]
    split
    · exact ih (fun e he => h e (List.mem_cons_of_mem _ he)) _
    · rfl

/-- The final check gives the same answer for both parsers. -/
theorem batchTcParsingEnd_congr (env : CallEnv) (hlist : s.symbolList = t.symbolList)
    (h : ∀ e ∈ t.symbolList, switchTargetOk s e = switchTargetOk t e) :
    (batchTcParsingEnd env s).2 = (batchTcParsingEnd env t).2 := by
  unfold batchTcParsingEnd
  rw [hlist, scanSymbols_congr h]
  cases scanSymbols t t.symbolList ⟨true, env.uninit, false, false, none⟩ with
  | none => rfl
  | some v =>
    dsimp only
    split_ifs
    · rfl
    · rfl
    · rfl
    · rfl

theorem finishParsing_ret {env : CallEnv} {s t : TcParser} (k count : Nat)
    (hs : s.nActors ≤ s.currSectionId) (ht : t.nActors ≤ t.currSectionId)
    (hend : (batchTcParsingEnd env { s with
        currSectionId := 0, currSectionStart := 0, currSectionEnd := 0,
        isReceivingTestCase := false }).2 =
      (batchTcParsingEnd env { t with
        currSectionId := 0, currSectionStart := 0, currSectionEnd := 0,
        isReceivingTestCase := false }).2) :
    (finishParsing env s k count).2.ret = (finishParsing env t k count).2.ret := by
  unfold finishParsing
  rw [if_pos hs, if_pos ht]
  dsimp only
  generalize batchTcParsingEnd env { s with
    currSectionId := 0, currSectionStart := 0, currSectionEnd := 0,
    isReceivingTestCase := false } = r at hend ⊢
  generalize batchTcParsingEnd env { t with
    currSectionId := 0, currSectionStart := 0, currSectionEnd := 0,
    isReceivingTestCase := false } = q at hend ⊢
  obtain ⟨s', x⟩ := r
  obtain ⟨t', y⟩ := q
  obtain rfl : x = y := hend
  rcases x with (_ | n) | n
  · rfl
  · rfl
  · rfl

/-- The end of a call keeps the lockstep or finishes both parsers. -/
theorem Lock.finish (h : Lock img s t) (env : CallEnv) (k count : Nat) :
    LockOutcome img (finishParsing env s k count) (finishParsing env t k count) := by
  by_cases hid : t.currSectionId < img.nActors
  · rw [finishParsing_of_lt k count (by rw [h.sectionId, h.sized.nActors]; exact hid),
      finishParsing_of_lt k count (by rw [h.sized'.nActors]; exact hid)]
    exact .goOn rfl rfl h hid
  · obtain ⟨f, hs, hfin, hcons⟩ := finishParsing_of_le env k count
      (show s.nActors ≤ s.currSectionId by rw [h.sectionId, h.sized.nActors]; omega)
    obtain ⟨f', ht, hfin', hcons'⟩ := finishParsing_of_le env k count
      (show t.nActors ≤ t.currSectionId by rw [h.sized'.nActors]; omega)
    have hlist := h.tables.symbolList h.sized h.sized'
    refine .done hfin hfin' (hcons.trans hcons'.symm) ?_ ?_ ?_ ?_ ?_
    · rw [hs]
      exact ⟨h.sized.nActors, h.sized.nSymbols, h.sized.actorTableSize, h.sized.symbolTableSize,
        h.sized.metadataSize⟩
    · rw [ht]
      exact ⟨h.sized'.nActors, h.sized'.nSymbols, h.sized'.actorTableSize,
        h.sized'.symbolTableSize, h.sized'.metadataSize⟩
    · rw [hs, ht]
      exact ⟨h.tables.actorTable, h.tables.symbolTable, h.tables.metadata, h.tables.sections⟩
    · rw [ht]
      intro htargets
      apply finishParsing_ret
      · rw [h.sectionId, h.sized.nActors]
        omega
      · rw [h.sized'.nActors]
        omega
      · refine batchTcParsingEnd_congr env hlist fun e he => ?_
        exact h.tables.switchTargetOk fun hid => h.sized'.nActors ▸ htargets e he hid
    · rw [hs, ht]
      exact h.inBounds

theorem Lock.table_step (h : Lock img s t) (env : CallEnv) (buf : WriteBuf)
    (hp : ¬ t.InDataPhase) :
    LockOutcome img (parseTestCaseBuffer env s buf) (parseTestCaseBuffer env t buf) := by
  obtain ⟨hb₁, hb₂, hb₃⟩ := h.sized.bounds_eq h.sized'
  by_cases hp₁ : t.cursor < t.actorTableEnd
  · rw [parse_actorTable env buf h.receiving (by rw [h.cursor, hb₁]; exact hp₁),
      parse_actorTable env buf h.receiving' hp₁]
    simp only [h.cursor, h.sized.actorTableSize, h.sized'.actorTableSize, copyLoop_snd]
    apply Lock.finish
    exact ⟨h.receiving, h.receiving', ⟨h.sized.nActors, h.sized.nSymbols, rfl,
      h.sized.symbolTableSize, h.sized.metadataSize⟩, ⟨h.sized'.nActors, h.sized'.nSymbols, rfl,
      h.sized'.symbolTableSize, h.sized'.metadataSize⟩, rfl, h.sectionId, h.sectionStart,
      h.sectionEnd, ⟨copyLoop_agree h.tables.actorTable _ _ _, h.tables.symbolTable,
      h.tables.metadata, h.tables.sections⟩, h.actorTableCap, h.symbolTableCap, h.metadataCap,
      h.sectionsCap, or_writesBeyond_mono h.inBounds h.actorTableCap _ _⟩
  by_cases hp₂ : t.cursor < t.symbolTableEnd
  · rw [parse_symbolTable env buf h.receiving (by rw [h.cursor, hb₁]; exact hp₁)
        (by rw [h.cursor, hb₂]; exact hp₂),
      parse_symbolTable env buf h.receiving' hp₁ hp₂]
    simp only [h.cursor, hb₁, h.sized.symbolTableSize, h.sized'.symbolTableSize, copyLoop_snd]
    apply Lock.finish
    exact ⟨h.receiving, h.receiving', ⟨h.sized.nActors, h.sized.nSymbols, h.sized.actorTableSize,
      rfl, h.sized.metadataSize⟩, ⟨h.sized'.nActors, h.sized'.nSymbols, h.sized'.actorTableSize,
      rfl, h.sized'.metadataSize⟩, rfl, h.sectionId, h.sectionStart,
      h.sectionEnd, ⟨h.tables.actorTable, copyLoop_agree h.tables.symbolTable _ _ _,
      h.tables.metadata, h.tables.sections⟩, h.actorTableCap, h.symbolTableCap, h.metadataCap,
      h.sectionsCap, or_writesBeyond_mono h.inBounds h.symbolTableCap _ _⟩
  have hp₃ : t.cursor < t.metadataEnd := by
    by_contra hp₃
    exact hp ⟨hp₁, hp₂, hp₃⟩
  rw [parse_metadata env buf h.receiving (by rw [h.cursor, hb₁]; exact hp₁)
      (by rw [h.cursor, hb₂]; exact hp₂) (by rw [h.cursor, hb₃]; exact hp₃),
    parse_metadata env buf h.receiving' hp₁ hp₂ hp₃]
  simp only [h.cursor, hb₂, h.sized.metadataSize, h.sized'.metadataSize, copyLoop_snd]
  apply Lock.finish
  exact ⟨h.receiving, h.receiving', ⟨h.sized.nActors, h.sized.nSymbols, h.sized.actorTableSize,
    h.sized.symbolTableSize, rfl⟩, ⟨h.sized'.nActors, h.sized'.nSymbols,
    h.sized'.actorTableSize, h.sized'.symbolTableSize, rfl⟩, rfl, h.sectionId, h.sectionStart,
    h.sectionEnd, ⟨h.tables.actorTable, h.tables.symbolTable,
    copyLoop_agree h.tables.metadata _ _ _, h.tables.sections⟩, h.actorTableCap,
    h.symbolTableCap, h.metadataCap, h.sectionsCap,
    or_writesBeyond_mono h.inBounds h.metadataCap _ _⟩

/-- Entering the data phase makes the section bounds equal. -/
theorem Lock.enterSections (h : Lock img s t) (hid : t.currSectionId < img.nActors) :
    Lock img s.enterSections t.enterSections ∧
      s.enterSections.currSectionStart = t.enterSections.currSectionStart ∧
      s.enterSections.currSectionEnd = t.enterSections.currSectionEnd := by
  obtain ⟨-, -, hb₃⟩ := h.sized.bounds_eq h.sized'
  unfold TcParser.enterSections
  by_cases h0 : t.currSectionId = 0
  · have hend : add64 s.metadataEnd (s.sectionSize 0) = add64 t.metadataEnd (t.sectionSize 0) := by
      rw [hb₃, h.tables.sectionSize (by omega)]
    rw [if_pos (h.sectionId.trans h0), if_pos h0]
    exact ⟨⟨h.receiving, h.receiving', ⟨h.sized.nActors, h.sized.nSymbols,
      h.sized.actorTableSize, h.sized.symbolTableSize, h.sized.metadataSize⟩,
      ⟨h.sized'.nActors, h.sized'.nSymbols, h.sized'.actorTableSize, h.sized'.symbolTableSize,
      h.sized'.metadataSize⟩, h.cursor, h.sectionId, fun _ => hb₃, fun _ _ => hend,
      ⟨h.tables.actorTable, h.tables.symbolTable, h.tables.metadata, h.tables.sections⟩,
      h.actorTableCap, h.symbolTableCap, h.metadataCap, h.sectionsCap, h.inBounds⟩, hb₃, hend⟩
  · rw [if_neg (fun hs => h0 (h.sectionId.symm.trans hs)), if_neg h0]
    exact ⟨h, h.sectionStart h0, h.sectionEnd h0 hid⟩

/-- The copy into a section keeps the lockstep. -/
theorem Lock.copySection (h : Lock img s t) (hid : t.currSectionId < img.nActors)
    (hstart : s.currSectionStart = t.currSectionStart)
    (hend : s.currSectionEnd = t.currSectionEnd) (buf : WriteBuf) :
    Lock img (Rvzr.Km.copySection s buf).1 (Rvzr.Km.copySection t buf).1 ∧
      (Rvzr.Km.copySection s buf).2 = (Rvzr.Km.copySection t buf).2 := by
  have hsize := h.tables.sectionSize hid
  have hsnd := sectionLoop_snd s.sections t.sections (maxSectionSize * t.currSectionId)
    (sub64 t.cursor t.currSectionStart) (t.sectionSize t.currSectionId) buf.data
  have hagree := sectionLoop_agree h.tables.sections (maxSectionSize * t.currSectionId)
    (sub64 t.cursor t.currSectionStart) (t.sectionSize t.currSectionId) buf.data
  have hnext : t.currSectionId + 1 < img.nActors →
      s.sectionSize (t.currSectionId + 1) = t.sectionSize (t.currSectionId + 1) :=
    h.tables.sectionSize
  have hsized := h.sized
  have hsized' := h.sized'
  unfold Rvzr.Km.copySection
  simp only [h.sectionId, h.cursor, hstart, hend, hsize, hsnd]
  split
  · refine ⟨⟨h.receiving, h.receiving', ⟨hsized.nActors, hsized.nSymbols,
      hsized.actorTableSize, hsized.symbolTableSize, hsized.metadataSize⟩, ⟨hsized'.nActors,
      hsized'.nSymbols, hsized'.actorTableSize, hsized'.symbolTableSize, hsized'.metadataSize⟩,
      rfl, rfl, fun _ => rfl, fun _ hlt => ?_, ⟨h.tables.actorTable, h.tables.symbolTable,
      h.tables.metadata, hagree⟩, h.actorTableCap, h.symbolTableCap, h.metadataCap,
      h.sectionsCap, or_writesBeyond_mono h.inBounds h.sectionsCap _ _⟩, rfl⟩
    exact congrArg (add64 t.currSectionEnd) (hnext hlt)
  · exact ⟨⟨h.receiving, h.receiving', ⟨hsized.nActors, hsized.nSymbols,
      hsized.actorTableSize, hsized.symbolTableSize, hsized.metadataSize⟩, ⟨hsized'.nActors,
      hsized'.nSymbols, hsized'.actorTableSize, hsized'.symbolTableSize, hsized'.metadataSize⟩,
      rfl, rfl, fun _ => rfl, fun _ _ => rfl, ⟨h.tables.actorTable,
      h.tables.symbolTable, h.tables.metadata, hagree⟩, h.actorTableCap, h.symbolTableCap,
      h.metadataCap, h.sectionsCap, or_writesBeyond_mono h.inBounds h.sectionsCap _ _⟩, rfl⟩

/-- One call on two parsers in lockstep. -/
theorem Lock.step (h : Lock img s t) (hid : t.currSectionId < img.nActors) (env : CallEnv)
    (buf : WriteBuf) :
    LockOutcome img (parseTestCaseBuffer env s buf) (parseTestCaseBuffer env t buf) := by
  by_cases hp : t.InDataPhase
  · obtain ⟨hb₁, hb₂, hb₃⟩ := h.sized.bounds_eq h.sized'
    have hps : s.InDataPhase := by
      unfold TcParser.InDataPhase
      rw [h.cursor, hb₁, hb₂, hb₃]
      exact hp
    have hsize := h.tables.sectionSize hid
    by_cases hover : maxSectionSize < t.sectionSize t.currSectionId
    · rw [parse_oversize env buf h.receiving hps (by rw [h.sectionId, hsize]; exact hover),
        parse_oversize env buf h.receiving' hp hover]
      exact .rejected rfl rfl (show (-1 : Int) < 0 by decide)
    · rw [parse_section env buf h.receiving hps (by rw [h.sectionId, hsize]; exact hover),
        parse_section env buf h.receiving' hp hover]
      obtain ⟨henter, hstart, hend⟩ := h.enterSections hid
      obtain ⟨hcopy, hk⟩ := henter.copySection
        (by rw [TcParser.enterSections_currSectionId]; exact hid) hstart hend buf
      rw [hk]
      exact hcopy.finish env _ _
  · exact h.table_step env buf hp

/-- After the header a parser with a history is in lockstep with a fresh one. -/
theorem lock_start (hs : Idle s) (garbage : Mem) {c : StoreCall} (hc : 16 ≤ c.offer)
    (halloc : AllocSucceeds c.env img) :
    Lock img (feedStep c (s, img.bytes)).1.1
        (feedStep c (TcParser.init garbage, img.bytes)).1.1 ∧
      (feedStep c (TcParser.init garbage, img.bytes)).1.1.currSectionId < img.nActors ∧
      (feedStep c (s, img.bytes)).1.2 = (feedStep c (TcParser.init garbage, img.bytes)).1.2 ∧
      (feedStep c (s, img.bytes)).2 = (feedStep c (TcParser.init garbage, img.bytes)).2 ∧
      (feedStep c (TcParser.init garbage, img.bytes)).2.finished = false := by
  have hact : 0 < img.nActors := img.actors_pos
  obtain ⟨s', hfs, hs'⟩ := feedStep_start hs hc halloc
  obtain ⟨t', hft, ht'⟩ := feedStep_start (idle_init garbage) hc halloc
  have hids : s'.currSectionId = 0 := hs'.sectionId.trans hs.section_zero
  have hidt : t'.currSectionId = 0 := ht'.sectionId
  obtain ⟨hca, hcm, hcs⟩ := ht'.newCaps hact
  have hcapS : t'.symbolTableCap ≤ s'.symbolTableCap := by
    have hnew := ht'.newSymbolTableCap
    have hone : (TcParser.init garbage).symbolTableCap = 1 := rfl
    have hroom := hs'.symbolTableRoom
    rw [hone] at hnew
    omega
  rw [hfs, hft]
  refine ⟨⟨rfl, rfl, ⟨hs'.nActors, hs'.nSymbols, hs'.actorTableSize, hs'.symbolTableSize,
    hs'.metadataSize⟩, ⟨ht'.nActors, ht'.nSymbols, ht'.actorTableSize, ht'.symbolTableSize,
    ht'.metadataSize⟩, rfl, hids.trans hidt.symm, fun h => absurd hidt h, fun h => absurd hidt h,
    ⟨?_, ?_, ?_, ?_⟩, ?_, hcapS, ?_, ?_, fun _ => hs'.outOfBounds.trans hs.inBounds⟩,
    hidt.symm ▸ hact, rfl, rfl, rfl⟩
  · intro i hi; exact (hs'.actorTable i hi).trans (ht'.actorTable i hi).symm
  · intro i hi; exact (hs'.symbolTable i hi).trans (ht'.symbolTable i hi).symm
  · intro i hi; exact (hs'.metadata i hi).trans (ht'.metadata i hi).symm
  · intro i hi; exact (hs'.sections i hi).trans (ht'.sections i hi).symm
  · show t'.actorTableCap ≤ s'.actorTableCap; rw [hca]; exact hs'.actorTableCap
  · show t'.metadataCap ≤ s'.metadataCap; rw [hcm]; exact hs'.metadataCap
  · show t'.sectionsCap ≤ s'.sectionsCap; rw [hcs]; exact hs'.sectionsCap

end Lockstep

/-- Two parsers have decoded the same tables and sections. -/
structure SameTables (img : RcbfImage) (s t : TcParser) : Prop where
  nActors : s.nActors = t.nActors
  nSymbols : s.nSymbols = t.nSymbols
  actorTable : s.actorTable.words (6 * img.nActors) = t.actorTable.words (6 * img.nActors)
  symbolTable : s.symbolTable.words (4 * img.nSymbols) = t.symbolTable.words (4 * img.nSymbols)
  metadata : s.metadata.words (3 * img.nActors) = t.metadata.words (3 * img.nActors)
  sections : ∀ i, i < img.nActors → s.sections.read (maxSectionSize * i) (img.section_ i).length =
    t.sections.read (maxSectionSize * i) (img.section_ i).length
  inBounds : t.outOfBounds = false → s.outOfBounds = false

/-- Fed with the file of `img`, the parser `s` answers every call as `t` does until `t` has
received the complete file, and then holds the same tables and sections. The last call returns the
same as well, unless a switch macro names an actor behind the actor table, which the final check
reads nevertheless. -/
def DecodesAs (img : RcbfImage) (calls : Nat → StoreCall) (s t : TcParser) : Prop :=
  ∀ n, (∀ k, k < n → (feedResult calls t img.bytes k).finished = false ∧
      0 ≤ (feedResult calls t img.bytes k).ret) →
    (feedResult calls t img.bytes n).finished = true →
    (∀ k, k < n → feedResult calls s img.bytes k = feedResult calls t img.bytes k) ∧
    (feedResult calls s img.bytes n).finished = true ∧
    (TargetsListed (feed calls t img.bytes (n + 1)).1 →
      (feedResult calls s img.bytes n).ret = (feedResult calls t img.bytes n).ret) ∧
    (feed calls s img.bytes (n + 1)).2 = (feed calls t img.bytes (n + 1)).2 ∧
    SameTables img (feed calls s img.bytes (n + 1)).1 (feed calls t img.bytes (n + 1)).1

theorem words_congr {m m' : Mem} {n : Nat} (h : ∀ i, i < 8 * n → m i = m' i) :
    m.words n = m'.words n := by
  unfold Mem.words
  apply List.map_congr_left
  intro j hj
  have hj' : j < n := List.mem_range.mp hj
  exact Mem.word64_congr fun i hi => h _ (by omega)

theorem TablesAgree.same {img : RcbfImage} {s t : TcParser} (h : TablesAgree img s t)
    (hs : Sized img s) (ht : Sized img t) (hb : t.outOfBounds = false → s.outOfBounds = false) :
    SameTables img s t where
  nActors := hs.nActors.trans ht.nActors.symm
  nSymbols := hs.nSymbols.trans ht.nSymbols.symm
  actorTable := words_congr fun i hi => h.actorTable i (by omega)
  symbolTable := words_congr fun i hi => h.symbolTable i (by omega)
  metadata := words_congr fun i hi => h.metadata i (by omega)
  sections := by
    intro i hi
    have hlen := img.length_section_le i
    unfold Mem.read
    apply List.map_congr_left
    intro j hj
    have hj' := List.mem_range.mp hj
    have hle : 4096 * (i + 1) ≤ 4096 * img.nActors := Nat.mul_le_mul_left _ hi
    unfold maxSectionSize at *
    exact h.sections _ (by omega)
  inBounds := hb

section Run

variable {img : RcbfImage} {calls : Nat → StoreCall} {s : TcParser}

/-- Lockstep through all calls of an unfinished file. -/
theorem lock_run (hs : Idle s) (garbage : Mem) (hc : 16 ≤ (calls 0).offer)
    (halloc : AllocSucceeds (calls 0).env img) {n : Nat}
    (hgo : ∀ k, k < n → (feedResult calls (TcParser.init garbage) img.bytes k).finished = false ∧
      0 ≤ (feedResult calls (TcParser.init garbage) img.bytes k).ret) :
    ∀ k, k < n →
      Lock img (feed calls s img.bytes (k + 1)).1
          (feed calls (TcParser.init garbage) img.bytes (k + 1)).1 ∧
        (feed calls (TcParser.init garbage) img.bytes (k + 1)).1.currSectionId < img.nActors ∧
        (feed calls s img.bytes (k + 1)).2 =
          (feed calls (TcParser.init garbage) img.bytes (k + 1)).2 ∧
        feedResult calls s img.bytes k = feedResult calls (TcParser.init garbage) img.bytes k := by
  intro k
  induction k with
  | zero =>
    intro _
    obtain ⟨hlock, hid, hrest, hres, -⟩ := lock_start hs garbage hc halloc
    exact ⟨hlock, hid, hrest, hres⟩
  | succ k ih =>
    intro hk
    obtain ⟨hlock, hid, hrest, -⟩ := ih (by omega)
    obtain ⟨hfin, hret⟩ := hgo (k + 1) hk
    have hout := hlock.step hid (calls (k + 1)).env
      ⟨(feed calls (TcParser.init garbage) img.bytes (k + 1)).2.take (calls (k + 1)).offer,
        (calls (k + 1)).beyond⟩
    simp only [feedResult, feedStep] at hfin hret
    simp only [feedResult, feed, feedStep] at hrest hfin hret hout ⊢
    rw [hrest]
    cases hout with
    | goOn hres _ hlock' hid' => exact ⟨hlock', hid', by rw [hres], hres⟩
    | done _ hfin' => rw [hfin'] at hfin; exact absurd hfin (by simp)
    | rejected _ _ hneg => exact absurd hret (by omega)

/-- A parser between two test cases, with no section left over, decodes the next one like a
freshly loaded one. -/
theorem decodesAs_init (hs : Idle s) (garbage : Mem) (hc : 16 ≤ (calls 0).offer)
    (halloc : AllocSucceeds (calls 0).env img) :
    DecodesAs img calls s (TcParser.init garbage) := by
  intro n hgo hfin
  have hrun := lock_run hs garbage hc halloc hgo
  refine ⟨fun k hk => (hrun k hk).2.2.2, ?_⟩
  cases n with
  | zero =>
    obtain ⟨-, -, -, -, hnot⟩ := lock_start hs garbage hc halloc
    exact absurd (hnot.symm.trans hfin) (by simp)
  | succ n =>
    obtain ⟨hlock, hid, hrest, -⟩ := hrun n (by omega)
    have hfeed : ∀ s' : TcParser, feed calls s' img.bytes (n + 1 + 1) =
        (feedStep (calls (n + 1)) (feed calls s' img.bytes (n + 1))).1 := fun _ => rfl
    rw [hfeed, hfeed]
    unfold feedResult at hfin ⊢
    generalize feed calls s img.bytes (n + 1) = u at hlock hid hrest ⊢
    generalize feed calls (TcParser.init garbage) img.bytes (n + 1) = v at hlock hid hrest hfin ⊢
    have hout := hlock.step hid (calls (n + 1)).env
      ⟨v.2.take (calls (n + 1)).offer, (calls (n + 1)).beyond⟩
    unfold feedStep at hfin ⊢
    rw [hrest]
    dsimp only at hfin ⊢
    generalize parseTestCaseBuffer (calls (n + 1)).env u.1
      ⟨v.2.take (calls (n + 1)).offer, (calls (n + 1)).beyond⟩ = r at hout ⊢
    generalize parseTestCaseBuffer (calls (n + 1)).env v.1
      ⟨v.2.take (calls (n + 1)).offer, (calls (n + 1)).beyond⟩ = q at hout hfin ⊢
    cases hout with
    | goOn _ hfin' => exact absurd (hfin'.symm.trans hfin) (by simp)
    | done hfin₁ _ hcons hr hq htables hret hbounds =>
      exact ⟨hfin₁, hret, by rw [hcons], htables.same hr hq hbounds⟩
    | rejected _ hfin' => exact absurd (hfin'.symm.trans hfin) (by simp)

end Run

theorem historyOk_init (garbage : Mem) : HistoryOk (TcParser.init garbage) :=
  ⟨fun _ => rfl, (idle_init garbage).capacity⟩

section Samples

/-- The image of the test case with one section. -/
def sampleImage : RcbfImage := sampleTestCase.image sampleTestCase_saved sampleTestCase_limits

/-- A write of `bs`, to a kernel in which allocations succeed. -/
def sampleWrite (bs : List UInt8) : TcWrite := ⟨sampleEnv, ⟨bs, fun _ => 0⟩⟩

/-- Two actors and no symbols, with sections of `size₀` and `size₁` bytes; the first section
gets one byte, and one more byte follows. -/
def sampleRejected (size₀ size₁ : Nat) : List TcWrite :=
  [sampleWrite (encodeWords [2, 0]), sampleWrite (encodeWords (List.replicate 12 0)),
    sampleWrite (encodeWords [0, size₀, 0, 1, size₁, 0]), sampleWrite [0x90], sampleWrite [0x90]]

/-- A history that ends with the rejection of a first section. -/
def sampleHistory : List TcWrite := (sampleRejected 5000 1).take 4

theorem sampleAlloc : AllocSucceeds (sampleCalls 0).env sampleImage := by
  refine ⟨by decide +kernel, by decide +kernel, by decide +kernel, by decide +kernel,
    by decide +kernel, ?_⟩
  intro n hn
  simpa [sampleCalls, sampleEnv] using hn

theorem sampleHistory_ok : WritesOk (TcParser.init fun _ => 0) sampleHistory := by
  refine ⟨⟨?_, ?_⟩, ⟨?_, ?_⟩, ⟨?_, ?_⟩, ⟨?_, ?_⟩, trivial⟩
  all_goals
    intro h
  · exact absurd h.1 (by decide +kernel)
  · exact absurd h.2 (by decide +kernel)
  · exact h.2.2.1 (by decide +kernel)
  · exact absurd h.1 (by decide +kernel)
  · exact h.2.2.1 (by decide +kernel)
  · exact absurd h.1 (by decide +kernel)
  · exact h.2.2.1 (by decide +kernel)
  · exact absurd h.1 (by decide +kernel)

end Samples

end Rvzr.Km
