import Rvzr.Dynamorio.TaintTracker
import Rvzr.Lib.Records
import Rvzr.Unicorn.LoadInput

/-!
The taint file of the DynamoRIO backend: what `store_taints` writes for the tainted labels of an
input, what `_TaintReader.decode_taints` (model_dynamorio/model.py) marks for it, and which entries
of the input the labels are initialised from by the adapter (adapter/sandbox.c,
adapter/test_case_entry.S).
-/

namespace Rvzr.Dynamorio

open Rvzr.Lib Rvzr.Unicorn

/-! ### Writing and reading -/

/-- `EOT_MARKER` and `_EOT_MARKER`. -/
def eotMarker : Nat := 2 ^ 64 - 1

/-- The bytes that `store_taints` writes for one input. -/
def taintFile (sandboxBase : Nat) (labels : List Label) : List UInt8 :=
  encodeWords (TaintTracker.storedValues sandboxBase labels ++ [eotMarker])

inductive TaintReadError where
  | index
  | assertion
  deriving Repr, DecidableEq

/-- `_file_to_ndarray`. -/
def fileToNdarray (file : List UInt8) : List Nat := (completeChunks 8 file).map Mem.ofLe

/-- `InputTaint(n_actors)`, through its `full_linear_view`. -/
def blankTaint (nActors : Nat) : List Bool := List.replicate (nActors * entriesPerActor) false

/-- The loop of `decode_taints`, with the current taint. -/
def decodeLoop (nActors : Nat) (taint : List Bool) (unfinished : Bool) :
    List Nat → Except TaintReadError (List (List Bool))
  | [] => if unfinished then .error .assertion else .ok []
  | val :: vals =>
    if val = eotMarker then
      (decodeLoop nActors (blankTaint nActors) false vals).map fun taints => taint :: taints
    -- labels of the adapter's own code and data lie far away
    else if val > dataAreaOffset .overflowPad then decodeLoop nActors taint true vals
    else if val / 8 < taint.length then decodeLoop nActors (taint.set (val / 8) true) true vals
    else .error .index

/-- `decode_taints`. -/
def decodeTaints (nActors : Nat) (file : List UInt8) : Except TaintReadError (List (List Bool)) :=
  decodeLoop nActors (blankTaint nActors) false (fileToNdarray file)

/-- Entry `j` of actor `a` is marked. -/
def Marked (taint : List Bool) (a j : Nat) : Prop := taint[a * entriesPerActor + j]? = some true

/-! ### Loading an input -/

/-- `data_section_t`, by 8-byte words. -/
structure DataSection where
  macroStack : List UInt64
  underflowPad : List UInt64
  mainArea : List UInt64
  faultyArea : List UInt64
  regInitArea : List UInt64
  overflowPad : List UInt64

def DataSection.words (d : DataSection) : List UInt64 :=
  d.macroStack ++ (d.underflowPad ++ (d.mainArea ++ (d.faultyArea ++
    (d.regInitArea ++ d.overflowPad))))

/-- The body of the loop of `load_data_in_sandbox`. -/
def loadDataSection (data : ActorInput) : DataSection where
  macroStack := List.replicate 8 0
  underflowPad := List.replicate 504 0
  mainArea := data.main
  faultyArea := data.faulty
  regInitArea := (ActorInput.field data 1024 40).set 6 (patchFlags (data 1030))
  overflowPad := List.replicate 472 0

/-- `load_data_in_sandbox`: the sections of the file are indexed by the input alone. -/
def loadDataInSandbox (rdbf : Nat → ActorInput) (inputId sectionId : Nat) : DataSection :=
  loadDataSection (rdbf (inputId + sectionId))

/-- The words of the register initialisation area that `test_case_entry_outer` loads a register
from. A flag is loaded with all of FLAGS. -/
def regInitWords : Reg → List Nat
  | .gpr .rax .full => [0]
  | .gpr .rbx .full => [1]
  | .gpr .rcx .full => [2]
  | .gpr .rdx .full => [3]
  | .gpr .rsi .full => [4]
  | .gpr .rdi .full => [5]
  | .gpr .rax .low16 | .gpr .rbx .low16 | .gpr .rcx .low16 | .gpr .rdx .low16
  | .gpr .rsi .low16 | .gpr .rdi .low16 | .gpr .r8 .low16 => [6]
  | .xmm n => if n < 8 then [8 + 4 * n, 9 + 4 * n] else []
  | .ymm n => if n < 8 then [8 + 4 * n, 9 + 4 * n, 10 + 4 * n, 11 + 4 * n] else []
  | _ => []

/-- The data sections of the actors, in memory: page-aligned, by `aligned_alloc`. -/
structure Sandbox where
  dataBase : Nat
  nActors : Nat
  nActors_pos : 0 < nActors
  aligned : 4096 ∣ dataBase
  fits : dataBase + nActors * 16384 ≤ 2 ^ 64

namespace Sandbox

variable (s : Sandbox)

/-- The address of word `k` in the section of actor `a`. -/
def wordAddr (a k : Nat) : Nat := s.dataBase + a * 16384 + 8 * k

/-- `r14`: the main area of the first actor. -/
def mainBase : Nat := s.wordAddr 0 512

/-- The labels of this sandbox: general registers, flags, vector registers, and the words of the
actors' sections. -/
def Has : Label → Prop
  | .reg r => (∃ g, r = .gpr g .full) ∨ (∃ f, r = flagReg f) ∨ (∃ n, r = .xmm n) ∨ ∃ n, r = .ymm n
  | .mem addr => ∃ a k, a < s.nActors ∧ k < 2048 ∧ addr = s.wordAddr a k

/-- The words, by section, that hold the initial value of a label. -/
def initPlaces : Label → List (Nat × Nat)
  | .reg r => (regInitWords r).map fun w => (0, 1536 + w)
  | .mem addr => [((addr - s.dataBase) / 16384, (addr - s.dataBase) % 16384 / 8)]

/-- The initial value of a label, word by word. -/
def initialValue (sections : Nat → DataSection) (l : Label) : List (Option UInt64) :=
  (s.initPlaces l).map fun p => (sections p.1).words[p.2]?

/-- A label is initialised from entry `j` of actor `a` when a change of this entry alone can change
its initial value. -/
def InitialisedFrom (inputId : Nat) (l : Label) (a j : Nat) : Prop :=
  ∃ rdbf rdbf' : Nat → ActorInput,
    (∀ b i, (b, i) ≠ (inputId * s.nActors + a, j) → rdbf b i = rdbf' b i) ∧
      s.initialValue (loadDataInSandbox rdbf inputId) l ≠
        s.initialValue (loadDataInSandbox rdbf' inputId) l

/-- Decoding succeeds and marks an entry exactly if some label is initialised from it. -/
def Recovers (inputId : Nat) (labels : List Label) : Prop :=
  ∃ taint, decodeTaints s.nActors (taintFile s.mainBase labels) = .ok [taint] ∧
    ∀ a j, a < s.nActors → j < entriesPerActor →
      (Marked taint a j ↔ ∃ l ∈ labels, s.InitialisedFrom inputId l a j)

/-! ### When the marks are the right ones -/

def HasWord (labels : List Label) (a k : Nat) : Prop := .mem (s.wordAddr a k) ∈ labels

/-- A tainted register is loaded from word `w`. -/
def HasRegWord (labels : List Label) (w : Nat) : Prop := ∃ r, .reg r ∈ labels ∧ w ∈ regInitWords r

/-- A tainted register is loaded from word `w` on. -/
def HasReg (labels : List Label) (w : Nat) : Prop :=
  ∃ r, .reg r ∈ labels ∧ (regInitWords r).head? = some w

/-- The condition where the actors' sections are loaded from their own input: for the first input,
and with one actor. -/
structure Aligned (labels : List Label) : Prop where
  /-- No word of the first actor's overflow pad. -/
  overflow : ∀ k, 1576 ≤ k → k < 2048 → ¬ s.HasWord labels 0 k
  /-- No loaded word of another actor that is not made up for by the same word at the start of the
  second actor's section. -/
  later : ∀ a k, 1 ≤ a → a < s.nActors → 512 ≤ k → k < 1576 → s.HasWord labels a k →
    a = 1 ∧ k ≤ 552 ∧ s.HasWord labels 1 (k - 512)
  below : ∀ k, k ≤ 40 → 1 < s.nActors → s.HasWord labels 1 k → s.HasWord labels 1 (512 + k)
  /-- The words of a vector register after the first one are tainted in memory, too. -/
  vector : ∀ w, HasRegWord labels w → HasReg labels w ∨ s.HasWord labels 0 (1536 + w)

/-- The condition for later inputs of several actors, whose sections are loaded from the wrong
places of the file: only the last actor of the second input gets a section of this input, that of
the first actor. -/
structure Shifted (inputId : Nat) (labels : List Label) : Prop where
  overflow : ∀ k, 1576 ≤ k → k < 2048 → ¬ s.HasWord labels 0 k
  below : ∀ k, k ≤ 40 → ¬ s.HasWord labels 1 k
  first : ∀ j, j < 1064 → (s.HasWord labels 0 (512 + j) ∨ (∃ w, HasReg labels w ∧ j = 1024 + w) ↔
    inputId = 1 ∧ s.HasWord labels (s.nActors - 1) (512 + j))

def Recoverable (inputId : Nat) (labels : List Label) : Prop :=
  (inputId = 0 ∨ s.nActors = 1 → s.Aligned labels) ∧
    (0 < inputId → 1 < s.nActors → s.Shifted inputId labels)

end Sandbox

/-! ### The marks -/

theorem fileToNdarray_encodeWords {ws : List Nat} (h : ∀ w ∈ ws, w < 2 ^ 64) :
    fileToNdarray (encodeWords ws) = ws := by
  unfold fileToNdarray encodeWords
  rw [completeChunks_flatMap (by decide) length_le64, List.map_map]
  refine (List.map_congr_left fun w hw => ?_).trans (List.map_id ws)
  exact ofLe_leBytes 8 w (by simpa using h w hw)

/-- The marks that a list of values leaves. -/
def markAll (taint : List Bool) (vals : List Nat) : List Bool :=
  vals.foldl (fun t v => if v > dataAreaOffset .overflowPad then t else t.set (v / 8) true) taint

theorem markAll_getElem? (taint : List Bool) (vals : List Nat) (i : Nat) :
    (markAll taint vals)[i]? = some true ↔ taint[i]? = some true ∨
      i < taint.length ∧ ∃ v ∈ vals, v ≤ 12608 ∧ v / 8 = i := by
  induction vals generalizing taint with
  | nil => simp [markAll]
  | cons v vals ih =>
    rw [markAll, List.foldl_cons]
    refine (ih _).trans ?_
    have hend : dataAreaOffset .overflowPad = 12608 := rfl
    by_cases hv : v > dataAreaOffset .overflowPad
    · have hnot : ¬ v ≤ 12608 := by omega
      simp [hv, hnot]
    · have hle : v ≤ 12608 := by omega
      rw [if_neg hv, List.getElem?_set, List.length_set, List.exists_mem_cons_iff]
      by_cases hi : v / 8 = i
      · by_cases hlt : i < taint.length
        · simp [hi, hlt, hle]
        · simp [hi, hlt]
      · simp [hi]

/-- The loop over the values of one input and the marker after them. -/
theorem decodeLoop_values (nActors : Nat) (taint : List Bool) (unfinished : Bool) (vals : List Nat)
    (hmarker : ∀ v ∈ vals, v ≠ eotMarker) (hlen : ∀ v ∈ vals, v ≤ 12608 → v / 8 < taint.length) :
    decodeLoop nActors taint unfinished (vals ++ [eotMarker]) = .ok [markAll taint vals] := by
  induction vals generalizing taint unfinished with
  | nil => simp [decodeLoop, markAll, Except.map]
  | cons v vals ih =>
    have hend : dataAreaOffset .overflowPad = 12608 := rfl
    rw [List.forall_mem_cons] at hmarker hlen
    rw [List.cons_append, decodeLoop, if_neg hmarker.1, markAll, List.foldl_cons]
    by_cases hv : v > dataAreaOffset .overflowPad
    · rw [if_pos hv, if_pos hv]
      exact ih _ _ hmarker.2 hlen.2
    · rw [if_neg hv, if_neg hv, if_pos (hlen.1 (by omega))]
      exact ih _ _ hmarker.2 (by rw [List.length_set]; exact hlen.2)

namespace Sandbox

variable {s : Sandbox} {labels : List Label} {inputId : Nat}

theorem mainBase_eq (s : Sandbox) : s.mainBase = s.dataBase + 4096 := rfl

/-- The value written for a word is its distance from the first main area, modulo 2^64. -/
theorem labelValue_word {a k : Nat} (ha : a < s.nActors) (hk : k < 2048) :
    TaintTracker.labelValue s.mainBase (.mem (s.wordAddr a k)) =
      some (if 512 ≤ a * 2048 + k then 8 * (a * 2048 + k - 512) else 2 ^ 64 + 8 * k - 4096) := by
  have hfits := s.fits
  simp only [TaintTracker.labelValue, wordAddr, mainBase_eq, sub64, Option.some.injEq]
  split <;> omega

/-- A tainted register is marked at its first word. -/
theorem rvzrRegId_eq (r : Reg) :
    TaintTracker.rvzrRegId r = (regInitWords r).head?.map fun w => 0x2000 + 8 * w := by
  cases r with
  | gpr r size => cases r <;> cases size <;> rfl
  | xmm n =>
    unfold TaintTracker.rvzrRegId regInitWords
    dsimp only
    by_cases hn : n < 8
    · rw [if_pos hn, if_pos hn, List.head?_cons, Option.map_some]
      congr 1
      omega
    · rw [if_neg hn, if_neg hn]
      rfl
  | ymm n =>
    unfold TaintTracker.rvzrRegId regInitWords
    dsimp only
    by_cases hn : n < 8
    · rw [if_pos hn, if_pos hn, List.head?_cons, Option.map_some]
      congr 1
      omega
    · rw [if_neg hn, if_neg hn]
      rfl
  | _ => rfl

theorem regInitWords_le {r : Reg} {w : Nat} (h : w ∈ regInitWords r) : w < 40 := by
  unfold regInitWords at h
  split at h <;> (try split at h) <;> simp at h <;> omega

/-- The values written for the labels of the sandbox: none is the marker, and those that are not
skipped lie in the input taint. -/
theorem labelValue_bounds {l : Label} (h : s.Has l) {v : Nat}
    (hv : TaintTracker.labelValue s.mainBase l = some v) :
    v < 2 ^ 64 ∧ v ≠ eotMarker ∧ (v ≤ 12608 → v / 8 < s.nActors * 1536) := by
  have hpos := s.nActors_pos
  have hmarker : eotMarker = 2 ^ 64 - 1 := rfl
  cases l with
  | reg r =>
    rw [TaintTracker.labelValue, rvzrRegId_eq, Option.map_eq_some_iff] at hv
    cases hv with
    | intro w hw =>
      have hlt := regInitWords_le (List.mem_of_head? hw.1)
      omega
  | mem addr =>
    obtain ⟨a, k, ha, hk, rfl⟩ := h
    have hfits := s.fits
    rw [labelValue_word ha hk, Option.some.injEq] at hv
    split at hv <;> omega

/-- A label is written as a value that marks the linear index `i`. -/
def MarkedBy (s : Sandbox) (l : Label) (i : Nat) : Prop :=
  ∃ v, TaintTracker.labelValue s.mainBase l = some v ∧ v ≤ 12608 ∧ v / 8 = i

/-- Decoding never fails on what is written for a sandbox. -/
theorem decodeTaints_taintFile (h : ∀ l ∈ labels, s.Has l) :
    ∃ taint, decodeTaints s.nActors (taintFile s.mainBase labels) = .ok [taint] ∧
      ∀ a j, a < s.nActors → j < entriesPerActor →
        (Marked taint a j ↔ ∃ l ∈ labels, s.MarkedBy l (a * 1536 + j)) := by
  have hlen : (blankTaint s.nActors).length = s.nActors * 1536 := List.length_replicate
  have hentries : entriesPerActor = 1536 := rfl
  have hbounds : ∀ v ∈ TaintTracker.storedValues s.mainBase labels,
      v < 2 ^ 64 ∧ v ≠ eotMarker ∧ (v ≤ 12608 → v / 8 < s.nActors * 1536) := by
    intro v hv
    rw [TaintTracker.storedValues, List.mem_filterMap] at hv
    obtain ⟨l, hl, hv⟩ := hv
    exact labelValue_bounds (h l hl) hv
  refine ⟨markAll (blankTaint s.nActors) (TaintTracker.storedValues s.mainBase labels), ?_, ?_⟩
  · rw [decodeTaints, taintFile, fileToNdarray_encodeWords]
    · exact decodeLoop_values _ _ _ _ (fun v hv => (hbounds v hv).2.1)
        (fun v hv hle => by rw [hlen]; exact (hbounds v hv).2.2 hle)
    · intro w hw
      cases List.mem_append.1 hw with
      | inl hmem => exact (hbounds w hmem).1
      | inr hmarker => rw [List.mem_singleton.1 hmarker]; decide
  · intro a j ha hj
    have hidx : a * 1536 + j < (blankTaint s.nActors).length := by
      rw [hlen]
      rw [hentries] at hj
      have : (a + 1) * 1536 ≤ s.nActors * 1536 := Nat.mul_le_mul_right _ ha
      omega
    have hblank : (blankTaint s.nActors)[a * 1536 + j]? ≠ some true := by
      intro hget
      have hmem := List.mem_of_getElem? hget
      simp [blankTaint] at hmem
    rw [Marked, hentries, markAll_getElem?]
    constructor
    · intro hmarked
      cases hmarked with
      | inl hget => exact absurd hget hblank
      | inr hval =>
        obtain ⟨-, v, hv, hle, hdiv⟩ := hval
        rw [TaintTracker.storedValues, List.mem_filterMap] at hv
        obtain ⟨l, hl, hv⟩ := hv
        exact ⟨l, hl, v, hv, hle, hdiv⟩
    · intro hmarked
      obtain ⟨l, hl, v, hv, hle, hdiv⟩ := hmarked
      exact Or.inr ⟨hidx, v, List.mem_filterMap.2 ⟨l, hl, hv⟩, hle, hdiv⟩

theorem markedBy_word {a k i : Nat} (ha : a < s.nActors) (hk : k < 2048) :
    s.MarkedBy (.mem (s.wordAddr a k)) i ↔ i + 512 = a * 2048 + k ∧ i ≤ 1576 := by
  simp only [MarkedBy, labelValue_word ha hk, Option.some.injEq]
  constructor
  · intro h
    obtain ⟨v, hv, hle, hdiv⟩ := h
    split at hv <;> omega
  · intro h
    refine ⟨8 * i, ?_, by omega, by omega⟩
    split <;> omega

theorem markedBy_reg {r : Reg} {i : Nat} :
    s.MarkedBy (.reg r) i ↔ ∃ w, (regInitWords r).head? = some w ∧ i = 1024 + w := by
  simp only [MarkedBy, TaintTracker.labelValue, rvzrRegId_eq, Option.map_eq_some_iff]
  constructor
  · intro h
    obtain ⟨v, ⟨w, hw, hv⟩, hle, hdiv⟩ := h
    exact ⟨w, hw, by omega⟩
  · intro h
    obtain ⟨w, hw, hi⟩ := h
    have hlt := regInitWords_le (List.mem_of_head? hw)
    exact ⟨0x2000 + 8 * w, ⟨w, hw, rfl⟩, by omega, by omega⟩

/-- The marked entries, by the words and registers that are tainted. -/
theorem marks_iff (h : ∀ l ∈ labels, s.Has l) {i : Nat} :
    (∃ l ∈ labels, s.MarkedBy l i) ↔
      (∃ a k, a < s.nActors ∧ k < 2048 ∧ s.HasWord labels a k ∧ i + 512 = a * 2048 + k ∧ i ≤ 1576) ∨
        ∃ w, HasReg labels w ∧ i = 1024 + w := by
  constructor
  · intro hmarked
    obtain ⟨l, hl, hmark⟩ := hmarked
    cases l with
    | reg r =>
      obtain ⟨w, hw, hi⟩ := markedBy_reg.1 hmark
      exact Or.inr ⟨w, ⟨r, hl, hw⟩, hi⟩
    | mem addr =>
      obtain ⟨a, k, ha, hk, rfl⟩ := h _ hl
      exact Or.inl ⟨a, k, ha, hk, hl, (markedBy_word ha hk).1 hmark⟩
  · intro hmarked
    cases hmarked with
    | inl hword =>
      obtain ⟨a, k, ha, hk, hl, hi⟩ := hword
      exact ⟨_, hl, (markedBy_word ha hk).2 hi⟩
    | inr hreg =>
      obtain ⟨w, ⟨r, hl, hw⟩, hi⟩ := hreg
      exact ⟨_, hl, markedBy_reg.2 ⟨w, hw, hi⟩⟩

/-! ### The initial values -/

/-- The words of a loaded section. -/
theorem words_loadDataSection (x : ActorInput) {k : Nat} (hk : k < 2048) :
    (loadDataSection x).words[k]? = some (if k < 512 then 0 else if 1576 ≤ k then 0
      else if k = 1542 then patchFlags (x 1030) else x (k - 512)) := by
  have hmain : x.main.length = 512 := by simp [ActorInput.main, ActorInput.field]
  have hfaulty : x.faulty.length = 512 := by simp [ActorInput.faulty, ActorInput.field]
  have hreg : (ActorInput.field x 1024 40).length = 40 := by simp [ActorInput.field]
  have hfield : ∀ {first count i : Nat}, i < count →
      (ActorInput.field x first count)[i]? = some (x (first + i)) := by
    intro first count i hi
    simp [ActorInput.field, hi]
  simp only [DataSection.words, loadDataSection, List.getElem?_append, List.length_replicate,
    hmain, hfaulty, List.length_set, hreg, Nat.sub_sub, Nat.reduceAdd]
  clear hmain hfaulty hreg
  by_cases h1 : k < 512
  · -- the two pads below the main area
    rw [if_pos h1]
    by_cases h2 : k < 8
    · rw [if_pos h2, List.getElem?_replicate_of_lt h2]
    · have h3 : k - 8 < 504 := by omega
      rw [if_neg h2, if_pos h3, List.getElem?_replicate_of_lt h3]
  have h2 : ¬ k < 8 := by omega
  have h3 : ¬ k - 8 < 504 := by omega
  rw [if_neg h1, if_neg h2, if_neg h3]
  by_cases h4 : 1576 ≤ k
  · have h5 : ¬ k - 512 < 512 := by omega
    have h6 : ¬ k - 1024 < 512 := Nat.not_lt.2 (Nat.le_sub_of_add_le (by omega))
    have h7 : ¬ k - 1536 < 40 := Nat.not_lt.2 (Nat.le_sub_of_add_le (by omega))
    have h8 : k - 1576 < 472 := by omega
    rw [if_pos h4, if_neg h5, if_neg h6, if_neg h7, List.getElem?_replicate_of_lt h8]
  rw [if_neg h4]
  by_cases h5 : k - 512 < 512
  · have h6 : k ≠ 1542 := by omega
    rw [if_pos h5, if_neg h6, ActorInput.main, hfield h5, Nat.zero_add]
  rw [if_neg h5]
  by_cases h6 : k - 1024 < 512
  · have h7 : k ≠ 1542 := by omega
    have h8 : 512 + (k - 1024) = k - 512 := by omega
    rw [if_pos h6, if_neg h7, ActorInput.faulty, hfield h6, h8]
  have h7 : k - 1536 < 40 := by omega
  rw [if_neg h6, if_pos h7, List.getElem?_set]
  by_cases h8 : k = 1542
  · subst h8
    simp [ActorInput.field]
  · have h9 : ¬ 6 = k - 1536 := by omega
    have h10 : 1024 + (k - 1536) = k - 512 := by omega
    rw [if_neg h9, if_neg h8, hfield h7, h10]

/-- A word depends on no entry but its own. -/
theorem words_congr {x y : ActorInput} {k : Nat} (hk : k < 2048)
    (h : ∀ j, j < 1064 → k = 512 + j → x j = y j) :
    (loadDataSection x).words[k]? = (loadDataSection y).words[k]? := by
  rw [words_loadDataSection x hk, words_loadDataSection y hk]
  by_cases h1 : k < 512
  · rw [if_pos h1, if_pos h1]
  · by_cases h2 : 1576 ≤ k
    · rw [if_neg h1, if_neg h1, if_pos h2, if_pos h2]
    · have heq := h (k - 512) (by omega) (by omega)
      by_cases h3 : k = 1542
      · subst h3
        rw [if_pos rfl, if_pos rfl, show x 1030 = y 1030 from heq]
      · rw [if_neg h3, if_neg h3, heq]

/-- A word of a loaded area does depend on its entry. -/
theorem words_ne {x y : ActorInput} {j : Nat} (hj : j < 1064) (hx : x j = 1) (hy : y j = 0) :
    (loadDataSection x).words[512 + j]? ≠ (loadDataSection y).words[512 + j]? := by
  have h1 : ¬ 512 + j < 512 := by omega
  have h2 : ¬ 1576 ≤ 512 + j := by omega
  rw [words_loadDataSection x (by omega), words_loadDataSection y (by omega), if_neg h1, if_neg h1,
    if_neg h2, if_neg h2]
  by_cases h : 512 + j = 1542
  · obtain rfl : j = 1030 := by omega
    rw [if_pos h, if_pos h, hx, hy]
    decide
  · rw [if_neg h, if_neg h, show 512 + j - 512 = j by omega, hx, hy]
    decide

theorem initPlaces_lt {l : Label} {p : Nat × Nat} (hp : p ∈ s.initPlaces l) : p.2 < 2048 := by
  cases l with
  | reg r =>
    rw [initPlaces, List.mem_map] at hp
    obtain ⟨w, hw, rfl⟩ := hp
    have hlt := regInitWords_le hw
    show 1536 + w < 2048
    omega
  | mem addr =>
    rw [initPlaces, List.mem_singleton] at hp
    rw [hp]
    show (addr - s.dataBase) % 16384 / 8 < 2048
    omega

/-- What a label is initialised from: the entries that its words are loaded from. -/
theorem initialisedFrom_iff {l : Label} {a j : Nat} : s.InitialisedFrom inputId l a j ↔
    ∃ p ∈ s.initPlaces l, inputId + p.1 = inputId * s.nActors + a ∧ p.2 = 512 + j ∧ j < 1064 := by
  constructor
  · intro h
    obtain ⟨rdbf, rdbf', hagree, hne⟩ := h
    by_contra hnone
    apply hne
    unfold initialValue
    apply List.map_congr_left
    intro p hp
    apply words_congr (initPlaces_lt hp)
    intro i hi hk
    apply hagree
    intro heq
    rw [Prod.mk.injEq] at heq
    exact hnone ⟨p, hp, heq.1, by omega, by omega⟩
  · intro h
    obtain ⟨p, hp, hsection, hword, hj⟩ := h
    let unit : Nat → ActorInput := fun b i =>
      if b = inputId * s.nActors + a ∧ i = j then 1 else 0
    refine ⟨unit, fun _ _ => 0, ?_, ?_⟩
    · intro b i hne
      exact if_neg fun h => hne (by rw [h.1, h.2])
    · intro heq
      have hp' := List.map_inj_left.1 heq p hp
      rw [hword, loadDataInSandbox, loadDataInSandbox, hsection] at hp'
      exact words_ne hj (if_pos ⟨rfl, rfl⟩) rfl hp'

theorem initPlaces_word {a k : Nat} (hk : k < 2048) :
    s.initPlaces (.mem (s.wordAddr a k)) = [(a, k)] := by
  have h1 : (s.wordAddr a k - s.dataBase) / 16384 = a := by
    unfold wordAddr
    omega
  have h2 : (s.wordAddr a k - s.dataBase) % 16384 / 8 = k := by
    unfold wordAddr
    omega
  rw [initPlaces, h1, h2]

/-- The entries that labels are initialised from, by the words and registers that are tainted. -/
theorem sources_iff (h : ∀ l ∈ labels, s.Has l) {a j : Nat} :
    (∃ l ∈ labels, s.InitialisedFrom inputId l a j) ↔
      (∃ b, b < s.nActors ∧ s.HasWord labels b (512 + j) ∧
        inputId + b = inputId * s.nActors + a ∧ j < 1064) ∨
      ∃ w, HasRegWord labels w ∧ inputId = inputId * s.nActors + a ∧ j = 1024 + w := by
  constructor
  · intro hsource
    obtain ⟨l, hl, hfrom⟩ := hsource
    obtain ⟨p, hp, hsection, hword, hj⟩ := initialisedFrom_iff.1 hfrom
    cases l with
    | reg r =>
      rw [initPlaces, List.mem_map] at hp
      obtain ⟨w, hw, rfl⟩ := hp
      exact Or.inr ⟨w, ⟨r, hl, hw⟩, hsection, by simpa using by omega⟩
    | mem addr =>
      obtain ⟨b, k, hb, hk, rfl⟩ := h _ hl
      rw [initPlaces_word hk, List.mem_singleton] at hp
      subst hp
      subst hword
      exact Or.inl ⟨b, hb, hl, hsection, hj⟩
  · intro hsource
    cases hsource with
    | inl hword =>
      obtain ⟨b, hb, hl, hsection, hj⟩ := hword
      refine ⟨_, hl, initialisedFrom_iff.2 ⟨(b, 512 + j), ?_, hsection, rfl, hj⟩⟩
      rw [initPlaces_word (by omega)]
      exact List.mem_singleton_self _
    | inr hreg =>
      obtain ⟨w, ⟨r, hl, hw⟩, hsection, hj⟩ := hreg
      have hlt := regInitWords_le hw
      exact ⟨_, hl, initialisedFrom_iff.2 ⟨(0, 1536 + w), List.mem_map_of_mem hw, hsection,
        by show 1536 + w = 512 + j; omega, by omega⟩⟩

/-! ### The condition -/

/-- A mark at linear index `i`, by the words and registers that are tainted. -/
def MarkAt (s : Sandbox) (labels : List Label) (i : Nat) : Prop :=
  (∃ a k, a < s.nActors ∧ k < 2048 ∧ s.HasWord labels a k ∧ i + 512 = a * 2048 + k ∧ i ≤ 1576) ∨
    ∃ w, HasReg labels w ∧ i = 1024 + w

/-- An entry that some label is initialised from, likewise. -/
def SourceAt (s : Sandbox) (inputId : Nat) (labels : List Label) (a j : Nat) : Prop :=
  (∃ b, b < s.nActors ∧ s.HasWord labels b (512 + j) ∧
    inputId + b = inputId * s.nActors + a ∧ j < 1064) ∨
  ∃ w, HasRegWord labels w ∧ inputId = inputId * s.nActors + a ∧ j = 1024 + w

theorem recovers_iff_marks (h : ∀ l ∈ labels, s.Has l) : s.Recovers inputId labels ↔
    ∀ a j, a < s.nActors → j < 1536 →
      (s.MarkAt labels (a * 1536 + j) ↔ s.SourceAt inputId labels a j) := by
  obtain ⟨taint, htaint, hmarks⟩ := decodeTaints_taintFile h
  have hmark : ∀ a j, a < s.nActors → j < 1536 →
      (Marked taint a j ↔ s.MarkAt labels (a * 1536 + j)) :=
    fun a j ha hj => (hmarks a j ha hj).trans (marks_iff h)
  constructor
  · intro hrec a j ha hj
    obtain ⟨taint', htaint', hall⟩ := hrec
    rw [htaint, Except.ok.injEq, List.cons.injEq] at htaint'
    rw [← hmark a j ha hj, htaint'.1, hall a j ha hj]
    exact sources_iff h
  · intro hall
    refine ⟨taint, htaint, fun a j ha hj => ?_⟩
    rw [hmark a j ha hj, hall a j ha hj]
    exact (sources_iff h).symm

theorem HasReg.hasRegWord {w : Nat} (h : HasReg labels w) : HasRegWord labels w := by
  obtain ⟨r, hr, hw⟩ := h
  exact ⟨r, hr, List.mem_of_head? hw⟩

theorem HasRegWord.lt {w : Nat} (h : HasRegWord labels w) : w < 40 := by
  obtain ⟨r, -, hw⟩ := h
  exact regInitWords_le hw

/-- The words that a mark below the end of the first main areas can come from. -/
theorem markAt_iff {i : Nat} (hi : i < 1536) : s.MarkAt labels i ↔
    s.HasWord labels 0 (512 + i) ∨ ∃ w, HasReg labels w ∧ i = 1024 + w := by
  have hpos := s.nActors_pos
  constructor
  · intro h
    cases h with
    | inl hword =>
      obtain ⟨a, k, ha, hk, hl, heq, hle⟩ := hword
      obtain rfl : a = 0 := by omega
      obtain rfl : k = 512 + i := by omega
      exact Or.inl hl
    | inr hreg => exact Or.inr hreg
  · intro h
    cases h with
    | inl hword => exact Or.inl ⟨0, 512 + i, hpos, by omega, hword, by omega, by omega⟩
    | inr hreg => exact Or.inr hreg

/-- Further up, only the first words of the second section leave marks. -/
theorem markAt_later_iff {i : Nat} (hi : 1536 ≤ i) : s.MarkAt labels i ↔
    i ≤ 1576 ∧ 1 < s.nActors ∧ s.HasWord labels 1 (i - 1536) := by
  constructor
  · intro h
    cases h with
    | inl hword =>
      obtain ⟨a, k, ha, hk, hl, heq, hle⟩ := hword
      obtain rfl : a = 1 := by omega
      obtain rfl : i = k + 1536 := by omega
      rw [Nat.add_sub_cancel]
      exact ⟨hle, ha, hl⟩
    | inr hreg =>
      obtain ⟨w, hw, heq⟩ := hreg
      have hlt := hw.hasRegWord.lt
      omega
  · intro h
    exact Or.inl ⟨1, i - 1536, h.2.1, by omega, h.2.2, by omega, h.1⟩

/-- Where the sections are loaded from their own input. -/
theorem sourceAt_aligned (hin : inputId = 0 ∨ s.nActors = 1) {a j : Nat} (ha : a < s.nActors) :
    s.SourceAt inputId labels a j ↔ s.HasWord labels a (512 + j) ∧ j < 1064 ∨
      a = 0 ∧ ∃ w, HasRegWord labels w ∧ j = 1024 + w := by
  have hflat : ∀ b, b < s.nActors → (inputId + b = inputId * s.nActors + a ↔ b = a) := by
    intro b hb
    cases hin with
    | inl h0 => subst h0; omega
    | inr h1 => rw [h1] at ha hb ⊢; omega
  have hzero : inputId = inputId * s.nActors + a ↔ a = 0 := by
    have h0 := hflat 0 s.nActors_pos
    omega
  constructor
  · intro h
    cases h with
    | inl hword =>
      obtain ⟨b, hb, hl, heq, hj⟩ := hword
      obtain rfl : b = a := (hflat b hb).1 heq
      exact Or.inl ⟨hl, hj⟩
    | inr hreg =>
      obtain ⟨w, hw, heq, hj⟩ := hreg
      exact Or.inr ⟨hzero.1 heq, w, hw, hj⟩
  · intro h
    cases h with
    | inl hword => exact Or.inl ⟨a, ha, hword.1, (hflat a ha).2 rfl, hword.2⟩
    | inr hreg =>
      obtain ⟨h0, w, hw, hj⟩ := hreg
      exact Or.inr ⟨w, hw, hzero.2 h0, hj⟩

/-- A later input of several actors has only one section loaded, if any. -/
theorem sourceAt_shifted (hid : 0 < inputId) (hn : 1 < s.nActors) {a j : Nat} :
    s.SourceAt inputId labels a j ↔
      a = 0 ∧ inputId = 1 ∧ s.HasWord labels (s.nActors - 1) (512 + j) ∧ j < 1064 := by
  have hmul : inputId * s.nActors = inputId * (s.nActors - 1) + inputId := by
    obtain ⟨m, hm⟩ : ∃ m, s.nActors = m + 1 := ⟨s.nActors - 1, by omega⟩
    rw [hm, Nat.add_sub_cancel, Nat.mul_succ]
  constructor
  · intro h
    cases h with
    | inl hword =>
      obtain ⟨b, hb, hl, heq, hj⟩ := hword
      by_cases h1 : inputId = 1
      · subst h1
        obtain rfl : b = s.nActors - 1 := by omega
        exact ⟨by omega, rfl, hl, hj⟩
      · have hle : 2 * (s.nActors - 1) ≤ inputId * (s.nActors - 1) :=
          Nat.mul_le_mul_right _ (by omega)
        omega
    | inr hreg =>
      obtain ⟨w, -, heq, -⟩ := hreg
      have hle : 1 * (s.nActors - 1) ≤ inputId * (s.nActors - 1) := Nat.mul_le_mul_right _ hid
      omega
  · intro h
    obtain ⟨rfl, rfl, hl, hj⟩ := h
    exact Or.inl ⟨s.nActors - 1, by omega, hl, by omega, hj⟩

theorem aligned_iff (hin : inputId = 0 ∨ s.nActors = 1) : s.Aligned labels ↔
    ∀ a j, a < s.nActors → j < 1536 →
      (s.MarkAt labels (a * 1536 + j) ↔ s.SourceAt inputId labels a j) := by
  have hpos := s.nActors_pos
  constructor
  · intro hal a j ha hj
    rw [sourceAt_aligned hin ha]
    by_cases ha0 : a = 0
    · subst ha0
      rw [Nat.zero_mul, Nat.zero_add, markAt_iff hj]
      constructor
      · intro h
        cases h with
        | inl hword =>
          refine Or.inl ⟨hword, ?_⟩
          by_contra hge
          exact hal.overflow (512 + j) (by omega) (by omega) hword
        | inr hreg =>
          obtain ⟨w, hw, heq⟩ := hreg
          exact Or.inr ⟨rfl, w, hw.hasRegWord, heq⟩
      · intro h
        cases h with
        | inl hword => exact Or.inl hword.1
        | inr hreg =>
          obtain ⟨-, w, hw, rfl⟩ := hreg
          cases hal.vector w hw with
          | inl hfirst => exact Or.inr ⟨w, hfirst, rfl⟩
          | inr hword =>
            refine Or.inl ?_
            rwa [show 512 + (1024 + w) = 1536 + w by omega]
    · rw [markAt_later_iff (by omega)]
      constructor
      · intro h
        obtain ⟨hle, hn, hword⟩ := h
        obtain rfl : a = 1 := by omega
        rw [show 1 * 1536 + j - 1536 = j by omega] at hword
        exact Or.inl ⟨hal.below j (by omega) hn hword, by omega⟩
      · intro h
        cases h with
        | inl hword =>
          have hlater := hal.later a (512 + j) (by omega) ha (by omega) (by omega) hword.1
          obtain ⟨rfl, hle, hstart⟩ := hlater
          refine ⟨by omega, ha, ?_⟩
          rwa [show 1 * 1536 + j - 1536 = 512 + j - 512 by omega]
        | inr hreg => exact absurd hreg.1 ha0
  · intro hall
    refine ⟨?_, ?_, ?_, ?_⟩
    · intro k hlo hhi hword
      have h := hall 0 (k - 512) hpos (by omega)
      rw [Nat.zero_mul, Nat.zero_add, markAt_iff (by omega), sourceAt_aligned hin hpos,
        show 512 + (k - 512) = k by omega] at h
      cases h.1 (Or.inl hword) with
      | inl hsource => omega
      | inr hreg =>
        obtain ⟨-, w, hw, heq⟩ := hreg
        have hlt := hw.lt
        omega
    · intro a k ha1 ha hlo hhi hword
      have h := hall a (k - 512) ha (by omega)
      rw [markAt_later_iff (by omega), sourceAt_aligned hin ha,
        show 512 + (k - 512) = k by omega] at h
      obtain ⟨hle, -, hstart⟩ := h.2 (Or.inl ⟨hword, by omega⟩)
      obtain rfl : a = 1 := by omega
      refine ⟨rfl, by omega, ?_⟩
      rwa [show 1 * 1536 + (k - 512) - 1536 = k - 512 by omega] at hstart
    · intro k hk hn hword
      have h := hall 1 k hn (by omega)
      rw [markAt_later_iff (by omega), sourceAt_aligned hin hn,
        show 1 * 1536 + k - 1536 = k by omega] at h
      cases h.1 ⟨by omega, hn, hword⟩ with
      | inl hsource => exact hsource.1
      | inr hreg => exact absurd hreg.1 (by decide)
    · intro w hw
      have hlt := hw.lt
      have h := hall 0 (1024 + w) hpos (by omega)
      rw [Nat.zero_mul, Nat.zero_add, markAt_iff (by omega), sourceAt_aligned hin hpos,
        show 512 + (1024 + w) = 1536 + w by omega] at h
      cases h.2 (Or.inr ⟨rfl, w, hw, rfl⟩) with
      | inl hword => exact Or.inr hword
      | inr hreg =>
        obtain ⟨w', hw', heq⟩ := hreg
        obtain rfl : w' = w := by omega
        exact Or.inl hw'

theorem shifted_iff (hid : 0 < inputId) (hn : 1 < s.nActors) : s.Shifted inputId labels ↔
    ∀ a j, a < s.nActors → j < 1536 →
      (s.MarkAt labels (a * 1536 + j) ↔ s.SourceAt inputId labels a j) := by
  constructor
  · intro hsh a j ha hj
    rw [sourceAt_shifted hid hn]
    by_cases ha0 : a = 0
    · subst ha0
      rw [Nat.zero_mul, Nat.zero_add, markAt_iff hj]
      by_cases hj' : j < 1064
      · rw [hsh.first j hj']
        exact ⟨fun h => ⟨rfl, h.1, h.2, hj'⟩, fun h => ⟨h.2.1, h.2.2.1⟩⟩
      · constructor
        · intro h
          cases h with
          | inl hword => exact absurd hword (hsh.overflow (512 + j) (by omega) (by omega))
          | inr hreg =>
            obtain ⟨w, hw, heq⟩ := hreg
            have hlt := hw.hasRegWord.lt
            omega
        · intro h
          exact absurd h.2.2.2 hj'
    · rw [markAt_later_iff (by omega)]
      constructor
      · intro h
        obtain ⟨hle, -, hword⟩ := h
        exact absurd hword (hsh.below _ (by omega))
      · intro h
        exact absurd h.1 ha0
  · intro hall
    have hfirst : ∀ j, j < 1536 → (s.HasWord labels 0 (512 + j) ∨
        (∃ w, HasReg labels w ∧ j = 1024 + w) ↔
          inputId = 1 ∧ s.HasWord labels (s.nActors - 1) (512 + j) ∧ j < 1064) := by
      intro j hj
      have h := hall 0 j s.nActors_pos hj
      rw [Nat.zero_mul, Nat.zero_add, markAt_iff hj, sourceAt_shifted hid hn] at h
      rw [h]
      exact ⟨fun h => h.2, fun h => ⟨rfl, h⟩⟩
    refine ⟨?_, ?_, ?_⟩
    · intro k hlo hhi hword
      have h := (hfirst (k - 512) (by omega)).1
        (Or.inl (by rwa [show 512 + (k - 512) = k by omega]))
      omega
    · intro k hk hword
      have h := hall 1 k hn (by omega)
      rw [markAt_later_iff (by omega), sourceAt_shifted hid hn,
        show 1 * 1536 + k - 1536 = k by omega] at h
      exact absurd (h.1 ⟨by omega, hn, hword⟩).1 (by decide)
    · intro j hj
      rw [hfirst j (by omega)]
      exact ⟨fun h => ⟨h.1, h.2.1⟩, fun h => ⟨h.1, h.2, hj⟩⟩

/-- Decoding the taint file never fails, and it marks the entries that the tainted labels are
initialised from exactly under this condition on the labels. -/
theorem recovers_iff (s : Sandbox) (inputId : Nat) (labels : List Label)
    (h : ∀ l ∈ labels, s.Has l) : s.Recovers inputId labels ↔ s.Recoverable inputId labels := by
  rw [recovers_iff_marks h, Recoverable]
  by_cases hin : inputId = 0 ∨ s.nActors = 1
  · rw [← aligned_iff hin]
    constructor
    · intro hal
      exact ⟨fun _ => hal, fun hid hn => by omega⟩
    · intro hrec
      exact hrec.1 hin
  · have hpos := s.nActors_pos
    have hid : 0 < inputId := by omega
    have hn : 1 < s.nActors := by omega
    rw [← shifted_iff hid hn]
    constructor
    · intro hsh
      exact ⟨fun hin' => absurd hin' hin, fun _ _ => hsh⟩
    · intro hrec
      exact hrec.2 hid hn

def sampleSandbox (nActors : Nat) (hpos : 0 < nActors) (hle : nActors ≤ 16) : Sandbox where
  dataBase := 0x10000
  nActors := nActors
  nActors_pos := hpos
  aligned := by decide
  fits := by omega

/-- `RAX` and the first words of the main and the faulty area of a single actor. -/
theorem recovers_sample :
    (sampleSandbox 1 (by decide) (by decide)).Recovers 0
      [.reg (.gpr .rax .full), .mem 0x11000, .mem 0x12000] := by
  refine (recovers_iff _ 0 _ ?_).2 ⟨fun _ => ⟨?_, ?_, ?_, ?_⟩, fun h => absurd h (by decide)⟩
  · simp only [List.forall_mem_cons]
    exact ⟨Or.inl ⟨.rax, rfl⟩, ⟨0, 512, by decide, by decide, rfl⟩,
      ⟨0, 1024, by decide, by decide, rfl⟩, fun _ h => absurd h (by simp)⟩
  · intro k hlo hhi h
    simp [HasWord, wordAddr, sampleSandbox] at h
    omega
  · intro a k h1 ha
    have ha' : a < 1 := ha
    omega
  · intro k hk hn
    exact absurd hn (by decide)
  · intro w hw
    obtain ⟨r, hr, hw⟩ := hw
    simp only [List.mem_cons, Label.reg.injEq, reduceCtorEq, or_false, List.not_mem_nil] at hr
    subst hr
    rw [regInitWords, List.mem_singleton] at hw
    exact Or.inl ⟨.gpr .rax .full, List.mem_cons_self, by rw [hw]; rfl⟩

/-- The first word of the second actor's main area is not marked, and of `YMM0` only the first
word. -/
theorem not_recovers :
    ¬ (sampleSandbox 2 (by decide) (by decide)).Recovers 0 [.mem 0x15000] ∧
      ¬ (sampleSandbox 1 (by decide) (by decide)).Recovers 0 [.reg (.ymm 0)] := by
  constructor
  · intro h
    have hhas : ∀ l ∈ [Label.mem 0x15000], (sampleSandbox 2 (by decide) (by decide)).Has l := by
      intro l hl
      rw [List.mem_singleton.1 hl]
      exact ⟨1, 512, by decide, by decide, rfl⟩
    have hal := (aligned_iff (Or.inl rfl)).2 ((recovers_iff_marks hhas).1 h)
    have hlater := hal.later 1 512 (by decide) (by decide) (by decide) (by decide)
      (by simp [HasWord, wordAddr, sampleSandbox])
    simp [HasWord, wordAddr, sampleSandbox] at hlater
  · intro h
    have hhas : ∀ l ∈ [Label.reg (.ymm 0)], (sampleSandbox 1 (by decide) (by decide)).Has l := by
      intro l hl
      rw [List.mem_singleton.1 hl]
      exact Or.inr (Or.inr (Or.inr ⟨0, rfl⟩))
    have hal := (aligned_iff (Or.inl rfl)).2 ((recovers_iff_marks hhas).1 h)
    cases hal.vector 9 ⟨.ymm 0, by simp, by decide⟩ with
    | inl hreg =>
      obtain ⟨r, hr, hw⟩ := hreg
      simp only [List.mem_singleton, Label.reg.injEq] at hr
      subst hr
      simp [regInitWords] at hw
    | inr hword => simp [HasWord] at hword

end Sandbox

end Rvzr.Dynamorio
