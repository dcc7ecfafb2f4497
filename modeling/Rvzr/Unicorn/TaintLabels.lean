import Mathlib.Data.List.Sort
import Rvzr.Lib.Answers
import Rvzr.Unicorn.LoadInput

/-!
`UnicornTaintTracker.get_taint` (model_unicorn/taint_tracker.py) and `InputTaint`
(tc_components/test_case_data.py): from the tainted labels to the marked entries of the input.

A label names a register or an 8-byte word of the sandbox. The marked entries should be the ones
`_load_input` fills these places from; they are, up to four kinds of labels whose address
computation goes astray. `Compensated` says when the other labels make up for that.
-/

namespace Rvzr.Unicorn

open Rvzr.Lib

/-! ### Labels -/

/-- The normalised register names: the values of `X86TargetDesc.reg_normalized` and the keys of
`X86UnicornTargetDesc.reg_norm_to_constant`. -/
inductive RegName where
  | a | b | c | d | di | si | sp | bp
  | n8 | n9 | n10 | n11 | n12 | n13 | n14 | n15
  | flags | cf | pf | af | zf | sf | tf | if_ | df | of_ | ac
  | xmm (i : Fin 16)
  | rip | rsp | cr0 | cr2 | cr3 | cr4 | cr8 | xcr0 | dr0 | dr1 | dr2 | dr3 | dr6 | dr7
  | gdtr | idtr | ldtr | tr | fsbase | gsbase | msrs | x87control | tsc | tscaux
  | mm (i : Fin 8)
  | ymm (i : Fin 8)
  | gs | fs | es | ds | cs | ss
  deriving Repr, DecidableEq

/-- `reg_norm_to_constant`; `none` for a name that is no key of it. -/
def regNormToConstant : RegName → Option UcReg
  | .a => some .rax
  | .b => some .rbx
  | .c => some .rcx
  | .d => some .rdx
  | .di => some .rdi
  | .si => some .rsi
  | .sp => some .rsp
  | .bp => some .rbp
  | .n8 => some .r8
  | .n9 => some .r9
  | .n10 => some .r10
  | .n11 => some .r11
  | .n12 => some .r12
  | .n13 => some .r13
  | .n14 => some .r14
  | .n15 => some .r15
  | .flags | .cf | .pf | .af | .zf | .sf | .tf | .if_ | .df | .of_ | .ac => some .eflags
  | .xmm i => if i.val = 13 then none else some (.xmm i)
  | .rip | .rsp | .cr0 | .cr2 | .cr3 | .cr4 | .cr8 | .xcr0
  | .dr0 | .dr1 | .dr2 | .dr3 | .dr6 | .dr7
  | .gdtr | .idtr | .ldtr | .tr | .fsbase | .gsbase | .msrs | .x87control | .tsc | .tscaux =>
      some .invalid
  | .mm _ | .ymm _ | .gs | .fs | .es | .ds | .cs | .ss => none

/-- A tainted label: a normalised register name, or `hex` of a sandbox address. -/
inductive Label where
  | reg (name : RegName)
  | mem (address : Nat)
  deriving Repr, DecidableEq

/-! ### `InputTaint` -/

/-- The marks of the entries, by actor and linear offset. -/
abbrev InputTaint := Nat → Nat → Bool

/-- `taint_actor_offsets`. -/
def taintActorOffsets (t : InputTaint) (actor : Nat) (offsets : List Nat) : InputTaint :=
  offsets.foldl (fun t offset a j => if a = actor ∧ j = offset then true else t a j) t

/-- `taint_offset_from_sandbox_address`; the division rounds down, also below zero. -/
def taintOffsetFromSandboxAddress (address : Nat) : Int :=
  let actor := address / dataSizePerActor
  let sandboxOffset := address % dataSizePerActor
  let taintOffset : Int := (sandboxOffset : Int) - dataAreaSize .main
  taintOffset / 8 + actor * entriesPerActor

/-! ### `taint_actors` and `get_taint` -/

/-- `taint_actors`: all words of the actors' sandboxes. -/
def taintActors (labels : List Label) (actors : List Nat) : List Label :=
  actors.foldl (fun labels actor => labels ++ (List.range (dataSizePerActor / 8)).map fun i =>
    .mem (actor * dataSizePerActor + 8 * i)) labels

/-- The sandbox addresses `get_taint` collects for one label; `none` is the `KeyError`. -/
def labelAddresses : Label → Option (List Nat)
  | .mem address => some [address]
  | .reg name =>
      match regNormToConstant name with
      | none => none
      | some reg =>
          if reg ∈ usableRegisters then
            some [dataAreaOffset .gpr + usableRegisters.idxOf reg * 8]
          else if reg ∈ usableSimd128Registers then
            some [dataAreaOffset .simd + usableSimd128Registers.idxOf reg * 16,
              dataAreaOffset .simd + usableSimd128Registers.idxOf reg * 16 + 1]
          else some []

/-- The offsets that fall into the area of one actor, relative to its start. -/
def actorTaints (offsets : List Int) (actor : Nat) : List Nat :=
  let areaStart : Int := actor * entriesPerActor
  let areaEnd : Int := (actor + 1) * entriesPerActor
  (offsets.filter fun pos => areaStart ≤ pos ∧ pos < areaEnd).map fun pos => (pos - areaStart).toNat

/-- `get_taint` once the last instruction is finalised, with tracking enabled. -/
def getTaint (nActors : Nat) (labels : List Label) : Option InputTaint := do
  let addresses ← labels.mapM labelAddresses
  let offsets := (addresses.flatten.insertionSort (· ≤ ·)).map taintOffsetFromSandboxAddress
  return (List.range nActors).foldl
    (fun t actor => taintActorOffsets t actor (actorTaints offsets actor)) (fun _ _ => false)

/-! ### What the labels stand for -/

/-- The place of the emulator a label denotes. -/
def Label.denotes : Label → Option Loc
  | .mem address => some (.word (address / 8))
  | .reg name => (regNormToConstant name).map .reg

/-- Some label denotes a place that `_load_input` fills from entry `j` of actor `a`. -/
def Denoted (dataStart n : Nat) (em : Emulator) (labels : List Label) (a j : Nat) : Prop :=
  ∃ l ∈ labels, ∃ loc, l.denotes = some loc ∧ Initialises dataStart n em loc a j

/-- The taint marks exactly the entries that the labels stand for. -/
def Exact (dataStart n : Nat) (em : Emulator) (labels : List Label) : Prop :=
  ∃ t, getTaint n labels = some t ∧
    ∀ a j, a < n → j < entriesPerActor → (t a j = true ↔ Denoted dataStart n em labels a j)

/-! ### The marks, by word and by register -/

/-- Some memory label lies in word `w` of the sandboxes. -/
def HasWord (labels : List Label) (w : Nat) : Prop := ∃ x, .mem x ∈ labels ∧ x / 8 = w

/-- Some register label stands for the register `c`. -/
def HasReg (labels : List Label) (c : UcReg) : Prop :=
  ∃ r, .reg r ∈ labels ∧ regNormToConstant r = some c

/-- The entries of the main actor that a register marks. -/
def regMarks : UcReg → List Nat
  | .rax => [1024]
  | .rbx => [1025]
  | .rcx => [1026]
  | .rdx => [1027]
  | .rsi => [1028]
  | .rdi => [1029]
  | .eflags => [1030]
  | .rsp => [1031]
  | .xmm i => if i.val < 8 then [1032 + 2 * i.val] else []
  | _ => []

theorem entriesPerActor_eq : entriesPerActor = 1536 := rfl

/-- An address and its word give the same offset. -/
theorem taintOffset_eq (x : Nat) :
    taintOffsetFromSandboxAddress x = (x / 8 % 2048 : Nat) - 512 + (x / 8 / 2048 : Nat) * 1536 := by
  unfold taintOffsetFromSandboxAddress
  rw [dataSizePerActor_eq, entriesPerActor_eq, show dataAreaSize .main = 4096 from rfl]
  dsimp only
  omega

/-- The words whose labels mark entry `j` of actor `a`: its own word, and for the last 512 entries
a word in the low pad of the next actor. -/
theorem taintOffset_eq_iff (x a j : Nat) (hj : j < 1536) :
    taintOffsetFromSandboxAddress x = a * 1536 + j ↔
      x / 8 = a * 2048 + 512 + j ∨ 1024 ≤ j ∧ x / 8 = (a + 1) * 2048 + (j - 1024) := by
  rw [taintOffset_eq]
  omega

theorem taintActorOffsets_iff (t : InputTaint) (actor : Nat) (offsets : List Nat) (a j : Nat) :
    taintActorOffsets t actor offsets a j = true ↔ t a j = true ∨ a = actor ∧ j ∈ offsets := by
  induction offsets generalizing t with
  | nil => simp [taintActorOffsets]
  | cons o os ih =>
      have hstep : taintActorOffsets t actor (o :: os) =
          taintActorOffsets (fun a j => if a = actor ∧ j = o then true else t a j) actor os := rfl
      rw [hstep, ih]
      by_cases h : a = actor ∧ j = o
      · simp [h]
      · rw [if_neg h, List.mem_cons]
        constructor
        · rintro (ht | ⟨ha, hj⟩)
          · exact .inl ht
          · exact .inr ⟨ha, .inr hj⟩
        · rintro (ht | ⟨ha, hj | hj⟩)
          · exact .inl ht
          · exact absurd ⟨ha, hj⟩ h
          · exact .inr ⟨ha, hj⟩

theorem mem_actorTaints {offsets : List Int} {a j : Nat} (hj : j < 1536) :
    j ∈ actorTaints offsets a ↔ (a * 1536 + j : Int) ∈ offsets := by
  unfold actorTaints
  simp only [List.mem_map, List.mem_filter, decide_eq_true_eq]
  simp only [entriesPerActor_eq]
  constructor
  · rintro ⟨pos, ⟨hpos, hge, hlt⟩, heq⟩
    rwa [show (a * 1536 + j : Int) = pos by omega]
  · intro hpos
    exact ⟨_, ⟨hpos, by omega, by omega⟩, by omega⟩

/-- The loop over the actors marks an entry when its linear offset is among the collected ones. -/
theorem taintLoop_iff (offsets : List Int) (n a j : Nat) (hj : j < 1536) :
    (List.range n).foldl (fun t actor => taintActorOffsets t actor (actorTaints offsets actor))
      (fun _ _ => false) a j = true ↔ a < n ∧ (a * 1536 + j : Int) ∈ offsets := by
  induction n with
  | zero => simp
  | succ n ih =>
      rw [List.range_succ, List.foldl_append, List.foldl_cons, List.foldl_nil,
        taintActorOffsets_iff, ih]
      constructor
      · rintro (⟨ha, ho⟩ | ⟨ha, ho⟩)
        · exact ⟨by omega, ho⟩
        · subst a
          exact ⟨by omega, (mem_actorTaints hj).mp ho⟩
      · rintro ⟨ha, ho⟩
        by_cases hlt : a < n
        · exact .inl ⟨hlt, ho⟩
        · have han : a = n := by omega
          subst a
          exact .inr ⟨rfl, (mem_actorTaints hj).mpr ho⟩

/-- The addresses `get_taint` collects for a register constant. -/
def regAddresses (c : UcReg) : List Nat :=
  if c ∈ usableRegisters then [dataAreaOffset .gpr + usableRegisters.idxOf c * 8]
  else if c ∈ usableSimd128Registers then
    [dataAreaOffset .simd + usableSimd128Registers.idxOf c * 16,
      dataAreaOffset .simd + usableSimd128Registers.idxOf c * 16 + 1]
  else []

theorem labelAddresses_reg {r : RegName} {c : UcReg} (hc : regNormToConstant r = some c) :
    labelAddresses (.reg r) = some (regAddresses c) := by
  simp only [labelAddresses, hc, regAddresses]
  split
  · rfl
  · split <;> rfl

/-- The words of these addresses, against `regMarks`. -/
theorem regAddresses_words (c : UcReg) :
    (∀ x ∈ regAddresses c, ∃ e ∈ regMarks c, x / 8 = 512 + e) ∧
      ∀ e ∈ regMarks c, ∃ x ∈ regAddresses c, x / 8 = 512 + e := by
  cases c with
  | xmm i => fin_cases i <;> decide
  | _ => decide

theorem regMarks_lt {c : UcReg} {e : Nat} (h : e ∈ regMarks c) : e < 1064 := by
  cases c with
  | xmm i =>
      simp only [regMarks] at h
      split at h
      · rw [List.mem_singleton] at h
        omega
      · exact absurd h List.not_mem_nil
  | _ => simp only [regMarks, List.mem_singleton, List.not_mem_nil] at h <;> omega

/-- A register label marks the entries `regMarks` lists, of the main actor. -/
theorem regAddresses_marks (c : UcReg) (a j : Nat) (hj : j < 1536) :
    (∃ x ∈ regAddresses c, taintOffsetFromSandboxAddress x = a * 1536 + j) ↔
      a = 0 ∧ j ∈ regMarks c := by
  constructor
  · rintro ⟨x, hx, hoff⟩
    obtain ⟨e, he, hword⟩ := (regAddresses_words c).1 x hx
    have hlt := regMarks_lt he
    rw [taintOffset_eq_iff x a j hj] at hoff
    have haj : a = 0 ∧ j = e := by omega
    exact ⟨haj.1, haj.2 ▸ he⟩
  · rintro ⟨ha, he⟩
    obtain ⟨x, hx, hword⟩ := (regAddresses_words c).2 j he
    refine ⟨x, hx, ?_⟩
    rw [taintOffset_eq_iff x a j hj]
    omega

/-- `get_taint` returns when every register label is a key of the dictionary, and then marks what
the addresses of the labels say. -/
theorem getTaint_spec {n : Nat} {labels : List Label}
    (h : ∀ l ∈ labels, ∃ xs, labelAddresses l = some xs) :
    ∃ t, getTaint n labels = some t ∧ ∀ a j, j < 1536 →
      (t a j = true ↔ a < n ∧ ∃ l ∈ labels, ∃ xs, labelAddresses l = some xs ∧
        ∃ x ∈ xs, taintOffsetFromSandboxAddress x = a * 1536 + j) := by
  obtain ⟨ys, hys, hmem⟩ := mapM_option_spec h
  refine ⟨_, by rw [getTaint, hys]; rfl, fun a j hj => ?_⟩
  rw [taintLoop_iff _ _ _ _ hj]
  simp only [List.mem_map, List.mem_insertionSort, List.mem_flatten, hmem]
  constructor
  · rintro ⟨ha, x, ⟨xs, ⟨l, hl, hxs⟩, hx⟩, hoff⟩
    exact ⟨ha, l, hl, xs, hxs, x, hx, hoff⟩
  · rintro ⟨ha, l, hl, xs, hxs, x, hx, hoff⟩
    exact ⟨ha, x, ⟨xs, ⟨l, hl, hxs⟩, hx⟩, hoff⟩

/-- Every register label is a key of `reg_norm_to_constant`. -/
def Known (labels : List Label) : Prop := ∀ r, .reg r ∈ labels → ∃ c, regNormToConstant r = some c

theorem known_iff {labels : List Label} :
    Known labels ↔ ∀ l ∈ labels, ∃ xs, labelAddresses l = some xs := by
  constructor
  · intro h l hl
    cases l with
    | mem x => exact ⟨[x], rfl⟩
    | reg r =>
        obtain ⟨c, hc⟩ := h r hl
        exact ⟨_, labelAddresses_reg hc⟩
  · intro h r hr
    obtain ⟨xs, hxs⟩ := h _ hr
    cases hc : regNormToConstant r with
    | none => simp [labelAddresses, hc] at hxs
    | some c => exact ⟨c, rfl⟩

theorem known_of_getTaint {n : Nat} {labels : List Label} {t : InputTaint}
    (h : getTaint n labels = some t) : Known labels := by
  obtain ⟨ys, hys, -⟩ := Option.bind_eq_some_iff.mp h
  exact known_iff.mpr fun l hl => mapM_option_defined hys hl

/-- The marked entries, by the words and registers that the labels name. -/
theorem getTaint_marks {n : Nat} {labels : List Label} (h : Known labels) :
    ∃ t, getTaint n labels = some t ∧ ∀ a j, a < n → j < 1536 →
      (t a j = true ↔ HasWord labels (a * 2048 + 512 + j) ∨
        (1024 ≤ j ∧ HasWord labels ((a + 1) * 2048 + (j - 1024))) ∨
        a = 0 ∧ ∃ c, HasReg labels c ∧ j ∈ regMarks c) := by
  obtain ⟨t, ht, hspec⟩ := getTaint_spec (n := n) (known_iff.mp h)
  refine ⟨t, ht, fun a j ha hj => ?_⟩
  rw [hspec a j hj]
  constructor
  · rintro ⟨-, l, hl, xs, hxs, x, hx, hoff⟩
    cases l with
    | mem y =>
        have hy : [y] = xs := Option.some.inj hxs
        rw [← hy, List.mem_singleton] at hx
        subst x
        cases (taintOffset_eq_iff y a j hj).mp hoff with
        | inl hw => exact .inl ⟨y, hl, hw⟩
        | inr hw => exact .inr (.inl ⟨hw.1, y, hl, hw.2⟩)
    | reg r =>
        obtain ⟨c, hc⟩ := h r hl
        rw [labelAddresses_reg hc] at hxs
        have hxs' := Option.some.inj hxs
        subst xs
        have hmarks := (regAddresses_marks c a j hj).mp ⟨x, hx, hoff⟩
        exact .inr (.inr ⟨hmarks.1, c, ⟨r, hl, hc⟩, hmarks.2⟩)
  · rintro (⟨x, hx, hw⟩ | ⟨hj', x, hx, hw⟩ | ⟨ha0, c, ⟨r, hr, hc⟩, hm⟩)
    · exact ⟨ha, _, hx, [x], rfl, x, List.mem_singleton_self x,
        (taintOffset_eq_iff x a j hj).mpr (.inl hw)⟩
    · exact ⟨ha, _, hx, [x], rfl, x, List.mem_singleton_self x,
        (taintOffset_eq_iff x a j hj).mpr (.inr ⟨hj', hw⟩)⟩
    · obtain ⟨x, hx, hoff⟩ := (regAddresses_marks c a j hj).mpr ⟨ha0, hm⟩
      exact ⟨ha, _, hr, _, labelAddresses_reg hc, x, hx, hoff⟩

/-- The entries that the labels stand for, by the words and registers they name. -/
theorem denoted_iff (dataStart : Nat) {n : Nat} (em : Emulator) {labels : List Label} {a : Nat}
    (j : Nat) (ha : a < n) :
    Denoted dataStart n em labels a j ↔
      (j < 1064 ∧ HasWord labels (a * 2048 + 512 + j)) ∨
        a = 0 ∧ ∃ c, HasReg labels c ∧ j ∈ regEntries c := by
  have hentries : dataEntriesPerActor = 1064 := rfl
  constructor
  · rintro ⟨l, hl, loc, hloc, hinit⟩
    rw [initialises_iff] at hinit
    cases l with
    | mem x =>
        have hx : Loc.word (x / 8) = loc := Option.some.inj hloc
        subst loc
        rw [sources] at hinit
        split at hinit
        case isFalse => exact absurd hinit List.not_mem_nil
        case isTrue hin =>
          rw [List.mem_singleton, Prod.mk.injEq] at hinit
          exact .inl ⟨by omega, x, hl, by omega⟩
    | reg r =>
        obtain ⟨c, hc, hloc⟩ := Option.map_eq_some_iff.mp hloc
        subst loc
        simp only [sources, List.mem_map, Prod.mk.injEq] at hinit
        obtain ⟨j', hj', ha0, rfl⟩ := hinit
        exact .inr ⟨ha0.symm, c, ⟨r, hl, hc⟩, hj'⟩
  · rintro (⟨hj, x, hx, hw⟩ | ⟨ha0, c, ⟨r, hr, hc⟩, hj⟩)
    · refine ⟨_, hx, _, rfl, ?_⟩
      rw [initialises_iff, sources, if_pos (by omega), List.mem_singleton, Prod.mk.injEq]
      omega
    · refine ⟨_, hr, .reg c, by rw [Label.denotes, hc]; rfl, ?_⟩
      rw [initialises_iff, ha0]
      exact List.mem_map_of_mem hj

/-! ### When the taint is exact -/

/-- The labels that go astray are made up for by other labels. Word `k` of actor `a` has the number
`a * 2048 + k`; the words below 512 are the macro stack and the underflow pad, those from 1576 on
the overflow pad. -/
structure Compensated (n : Nat) (labels : List Label) : Prop where
  known : Known labels
  /-- An overflow pad word marks a padding entry, which nothing stands for. -/
  overflowPad : ∀ a k, a < n → 1576 ≤ k → k < 2048 → ¬HasWord labels (a * 2048 + k)
  /-- A word of the low pad marks entry `1024 + k` of the actor before. -/
  lowPad : ∀ a k, a < n → k < 512 → HasWord labels ((a + 1) * 2048 + k) →
    (k < 40 ∧ HasWord labels (a * 2048 + 1536 + k)) ∨
      a = 0 ∧ ∃ c, HasReg labels c ∧ 1024 + k ∈ regEntries c
  /-- The stack pointer marks the last GPR entry, which is not loaded into it. -/
  stackPointer : 0 < n → HasReg labels .rsp → HasWord labels 1543
  /-- Register `XMM i` marks SIMD entry `2 * i`; it is loaded from the entries `4 * i` and
  `4 * i + 1`. -/
  simdMarked : ∀ i : Fin 16, 0 < n → i.val < 8 → HasReg labels (.xmm i) →
    HasWord labels (1544 + 2 * i.val) ∨ ∃ m : Fin 16, 2 * m.val = i.val ∧ HasReg labels (.xmm m)
  simdFirst : ∀ i : Fin 16, 0 < n → i.val < 8 → HasReg labels (.xmm i) →
    HasWord labels (1544 + 4 * i.val) ∨ HasWord labels (2056 + 4 * i.val) ∨
      ∃ m : Fin 16, m.val = 2 * i.val ∧ m.val < 8 ∧ HasReg labels (.xmm m)
  simdSecond : ∀ i : Fin 16, 0 < n → i.val < 8 → HasReg labels (.xmm i) →
    HasWord labels (1545 + 4 * i.val) ∨ HasWord labels (2057 + 4 * i.val)

theorem regEntries_lt {c : UcReg} {j : Nat} (h : j ∈ regEntries c) : j < 1064 := by
  cases c with
  | xmm i =>
      simp only [regEntries] at h
      split at h
      · simp only [List.mem_cons, List.not_mem_nil, or_false] at h
        omega
      · exact absurd h List.not_mem_nil
  | _ => simp only [regEntries, List.mem_singleton, List.not_mem_nil] at h <;> omega

theorem mem_regEntries_xmm {i : Fin 16} {j : Nat} :
    j ∈ regEntries (.xmm i) ↔ i.val < 8 ∧ (j = 1032 + 4 * i.val ∨ j = 1033 + 4 * i.val) := by
  simp only [regEntries]
  split <;> simp [*]

theorem mem_regMarks_xmm {i : Fin 16} {j : Nat} :
    j ∈ regMarks (.xmm i) ↔ i.val < 8 ∧ j = 1032 + 2 * i.val := by
  simp only [regMarks]
  split <;> simp [*]

/-- The entries from the SIMD area on are loaded into SIMD registers only. -/
theorem xmm_of_mem_regEntries {c : UcReg} {j : Nat} (h : j ∈ regEntries c) (hj : 1031 ≤ j) :
    ∃ i, c = .xmm i := by
  cases c with
  | xmm i => exact ⟨i, rfl⟩
  | _ => simp only [regEntries, List.mem_singleton, List.not_mem_nil] at h <;> omega

theorem xmm_of_mem_regMarks {c : UcReg} {j : Nat} (h : j ∈ regMarks c) (hj : 1032 ≤ j) :
    ∃ i, c = .xmm i := by
  cases c with
  | xmm i => exact ⟨i, rfl⟩
  | _ => simp only [regMarks, List.mem_singleton, List.not_mem_nil] at h <;> omega

/-- The registers other than the stack pointer and SIMD mark what they are loaded from. -/
theorem regMarks_eq {c : UcReg} (hsp : c ≠ .rsp) (hxmm : ∀ i, c ≠ .xmm i) :
    regMarks c = regEntries c := by
  cases c with
  | rsp => exact absurd rfl hsp
  | xmm i => exact absurd rfl (hxmm i)
  | _ => rfl

variable (dataStart : Nat) {n : Nat} (em : Emulator) {labels : List Label}

theorem compensated_of_exact (h : Exact dataStart n em labels) : Compensated n labels := by
  obtain ⟨t, ht, hexact⟩ := h
  have hknown := known_of_getTaint ht
  obtain ⟨t', ht', hmarks⟩ := getTaint_marks (n := n) hknown
  have htt : t = t' := Option.some.inj (ht.symm.trans ht')
  subst t'
  have hiff := fun a j ha (hj : j < 1536) =>
    (hmarks a j ha hj).symm.trans ((hexact a j ha hj).trans (denoted_iff dataStart em j ha))
  refine ⟨hknown, ?_, ?_, ?_, ?_, ?_, ?_⟩
  · intro a k ha hk hk' hword
    cases (hiff a (k - 512) ha (by omega)).mp
      (.inl (by rwa [show a * 2048 + 512 + (k - 512) = a * 2048 + k by omega])) with
    | inl hd => omega
    | inr hd =>
        obtain ⟨-, c, -, hc⟩ := hd
        have := regEntries_lt hc
        omega
  · intro a k ha hk hword
    cases (hiff a (1024 + k) ha (by omega)).mp (.inr (.inl ⟨by omega,
      by rwa [show 1024 + k - 1024 = k by omega]⟩)) with
    | inl hd =>
        refine .inl ⟨by omega, ?_⟩
        rw [show a * 2048 + 1536 + k = a * 2048 + 512 + (1024 + k) by omega]
        exact hd.2
    | inr hd => exact .inr hd
  · intro hn hreg
    cases (hiff 0 1031 hn (by omega)).mp (.inr (.inr ⟨rfl, .rsp, hreg, by simp [regMarks]⟩)) with
    | inl hd => exact hd.2
    | inr hd =>
        obtain ⟨-, c, -, hc⟩ := hd
        obtain ⟨i, rfl⟩ := xmm_of_mem_regEntries hc (by omega)
        rw [mem_regEntries_xmm] at hc
        omega
  · intro i hn hi hreg
    cases (hiff 0 (1032 + 2 * i.val) hn (by omega)).mp
      (.inr (.inr ⟨rfl, .xmm i, hreg, mem_regMarks_xmm.mpr ⟨hi, rfl⟩⟩)) with
    | inl hd =>
        left
        rw [show 1544 + 2 * i.val = 0 * 2048 + 512 + (1032 + 2 * i.val) by omega]
        exact hd.2
    | inr hd =>
        obtain ⟨-, c, hc, hmem⟩ := hd
        obtain ⟨m, rfl⟩ := xmm_of_mem_regEntries hmem (by omega)
        rw [mem_regEntries_xmm] at hmem
        exact .inr ⟨m, by omega, hc⟩
  · intro i hn hi hreg
    rcases (hiff 0 (1032 + 4 * i.val) hn (by omega)).mpr
      (.inr ⟨rfl, .xmm i, hreg, mem_regEntries_xmm.mpr ⟨hi, .inl rfl⟩⟩) with
      hd | ⟨-, hd⟩ | ⟨-, c, hc, hmem⟩
    · left
      rwa [show 0 * 2048 + 512 + (1032 + 4 * i.val) = 1544 + 4 * i.val by omega] at hd
    · right; left
      rwa [show (0 + 1) * 2048 + (1032 + 4 * i.val - 1024) = 2056 + 4 * i.val by omega] at hd
    · obtain ⟨m, rfl⟩ := xmm_of_mem_regMarks hmem (by omega)
      rw [mem_regMarks_xmm] at hmem
      exact .inr (.inr ⟨m, by omega, hmem.1, hc⟩)
  · intro i hn hi hreg
    rcases (hiff 0 (1033 + 4 * i.val) hn (by omega)).mpr
      (.inr ⟨rfl, .xmm i, hreg, mem_regEntries_xmm.mpr ⟨hi, .inr rfl⟩⟩) with
      hd | ⟨-, hd⟩ | ⟨-, c, hc, hmem⟩
    · left
      rwa [show 0 * 2048 + 512 + (1033 + 4 * i.val) = 1545 + 4 * i.val by omega] at hd
    · right
      rwa [show (0 + 1) * 2048 + (1033 + 4 * i.val - 1024) = 2057 + 4 * i.val by omega] at hd
    · obtain ⟨m, rfl⟩ := xmm_of_mem_regMarks hmem (by omega)
      rw [mem_regMarks_xmm] at hmem
      omega

theorem exact_of_compensated (h : Compensated n labels) : Exact dataStart n em labels := by
  obtain ⟨t, ht, hmarks⟩ := getTaint_marks (n := n) h.known
  refine ⟨t, ht, fun a j ha hj => ?_⟩
  rw [entriesPerActor_eq] at hj
  rw [hmarks a j ha hj, denoted_iff dataStart em j ha]
  constructor
  · rintro (hw | ⟨hj', hw⟩ | ⟨rfl, c, hc, hmem⟩)
    · by_cases hlt : j < 1064
      · exact .inl ⟨hlt, hw⟩
      · exact absurd (show HasWord labels (a * 2048 + (512 + j)) by rwa [← Nat.add_assoc])
          (h.overflowPad a (512 + j) ha (by omega) (by omega))
    · cases h.lowPad a (j - 1024) ha (by omega) hw with
      | inl hd =>
          refine .inl ⟨by omega, ?_⟩
          rw [show a * 2048 + 512 + j = a * 2048 + 1536 + (j - 1024) by omega]
          exact hd.2
      | inr hd =>
          rw [show 1024 + (j - 1024) = j by omega] at hd
          exact .inr hd
    · by_cases hsp : c = .rsp
      · subst c
        rw [regMarks, List.mem_singleton] at hmem
        subst j
        exact .inl ⟨by omega, h.stackPointer ha hc⟩
      · by_cases hxmm : ∃ i, c = .xmm i
        · obtain ⟨i, rfl⟩ := hxmm
          obtain ⟨hi, rfl⟩ := mem_regMarks_xmm.mp hmem
          cases h.simdMarked i ha hi hc with
          | inl hw =>
              refine .inl ⟨by omega, ?_⟩
              rwa [show 0 * 2048 + 512 + (1032 + 2 * i.val) = 1544 + 2 * i.val by omega]
          | inr hm =>
              obtain ⟨m, hm, hreg⟩ := hm
              exact .inr ⟨rfl, .xmm m, hreg, mem_regEntries_xmm.mpr ⟨by omega, .inl (by omega)⟩⟩
        · rw [regMarks_eq hsp (fun i hi => hxmm ⟨i, hi⟩)] at hmem
          exact .inr ⟨rfl, c, hc, hmem⟩
  · rintro (⟨-, hw⟩ | ⟨rfl, c, hc, hmem⟩)
    · exact .inl hw
    · by_cases hxmm : ∃ i, c = .xmm i
      · obtain ⟨i, rfl⟩ := hxmm
        obtain ⟨hi, hj'⟩ := mem_regEntries_xmm.mp hmem
        cases hj' with
        | inl hfirst =>
            subst j
            rcases h.simdFirst i ha hi hc with hw | hw | ⟨m, hm, hm', hreg⟩
            · left
              rwa [show 0 * 2048 + 512 + (1032 + 4 * i.val) = 1544 + 4 * i.val by omega]
            · refine .inr (.inl ⟨by omega, ?_⟩)
              rwa [show (0 + 1) * 2048 + (1032 + 4 * i.val - 1024) = 2056 + 4 * i.val by omega]
            · exact .inr (.inr ⟨rfl, .xmm m, hreg, mem_regMarks_xmm.mpr ⟨hm', by omega⟩⟩)
        | inr hsecond =>
            subst j
            cases h.simdSecond i ha hi hc with
            | inl hw =>
                left
                rwa [show 0 * 2048 + 512 + (1033 + 4 * i.val) = 1545 + 4 * i.val by omega]
            | inr hw =>
                refine .inr (.inl ⟨by omega, ?_⟩)
                rwa [show (0 + 1) * 2048 + (1033 + 4 * i.val - 1024) = 2057 + 4 * i.val by omega]
      · by_cases hsp : c = .rsp
        · subst c
          simp [regEntries] at hmem
        · rw [← regMarks_eq hsp (fun i hi => hxmm ⟨i, hi⟩)] at hmem
          exact .inr (.inr ⟨rfl, c, hc, hmem⟩)

/-- **Exactness of taints.** `get_taint` marks exactly the entries that the tainted labels stand
for if and only if the labels that go astray are compensated. -/
theorem getTaint_exact_iff (dataStart n : Nat) (em : Emulator) (labels : List Label) :
    Exact dataStart n em labels ↔ Compensated n labels :=
  ⟨compensated_of_exact dataStart em, exact_of_compensated dataStart em⟩

/-- The emulator before anything is loaded. -/
def blankEmulator : Emulator := ⟨fun _ => 0, fun _ => 0⟩

theorem taintActors_one_mem {k : Nat} (hk : k < 2048) :
    Label.mem (1 * dataSizePerActor + 8 * k) ∈ taintActors [] [1] := by
  simp only [taintActors, List.foldl_cons, List.foldl_nil, List.nil_append]
  exact List.mem_map_of_mem (List.mem_range.mpr hk)

/-- Two failing inputs. A tainted `XMM1` marks SIMD entry 2 and neither of the two entries it is
loaded from. Tainting actor 1 as a whole marks the padding of both actors. -/
theorem getTaint_not_exact :
    ¬Exact 0 1 blankEmulator [.reg (.xmm 1)] ∧
      ¬Exact 0 2 blankEmulator (taintActors [] [1]) := by
  constructor
  · intro h
    have hreg : HasReg [.reg (.xmm 1)] (.xmm 1) := ⟨.xmm 1, List.mem_singleton_self _, rfl⟩
    cases (compensated_of_exact 0 blankEmulator h).simdSecond 1 (by decide) (by decide) hreg with
    | inl hw =>
        obtain ⟨x, hx, -⟩ := hw
        simp at hx
    | inr hw =>
        obtain ⟨x, hx, -⟩ := hw
        simp at hx
  · intro h
    apply (compensated_of_exact 0 blankEmulator h).overflowPad 1 1576 (by decide) (by decide)
      (by decide)
    exact ⟨_, taintActors_one_mem (k := 1576) (by decide), rfl⟩

end Rvzr.Unicorn
