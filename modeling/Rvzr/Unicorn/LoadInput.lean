import Mathlib.Data.List.Range
import Mathlib.Data.Fintype.Basic
import Mathlib.Tactic.FinCases
import Rvzr.Lib.Bytes

/-!
The sandbox layout (rvzr/sandbox.py), the input layout (tc_components/test_case_data.py) and
`X86UnicornModel._load_input` (model_unicorn/model.py), which fills the emulator's memory and
registers from an input. The main result says which entry of the input each register and each
8-byte word of the sandbox takes its value from.
-/

namespace Rvzr.Unicorn

open Rvzr.Lib

/-! ### Data areas -/

def pageSize : Nat := 4096

inductive DataArea where
  | start | macroStack | underflowPad | main | faulty | regInit | gpr | simd | overflowPad | rspInit
  deriving Repr, DecidableEq

/-- `SandboxLayout.data_area_size`; the areas that are no field of `_DataAreaLayout` have no size. -/
def dataAreaSize : DataArea → Nat
  | .macroStack => 64
  | .underflowPad => pageSize - 64
  | .main => pageSize
  | .faulty => pageSize
  | .gpr => 64
  | .simd => 256
  | .overflowPad => pageSize - 64 - 256
  | .start | .regInit | .rspInit => 0

/-- `SandboxLayout.data_area_offset`: the fields follow each other without alignment. -/
def dataAreaOffset : DataArea → Nat
  | .start => 0
  | .macroStack => 0
  | .underflowPad => dataAreaSize .macroStack
  | .main => dataAreaSize .macroStack + dataAreaSize .underflowPad
  | .faulty => dataAreaSize .macroStack + dataAreaSize .underflowPad + dataAreaSize .main
  | .rspInit => dataAreaSize .macroStack + dataAreaSize .underflowPad + dataAreaSize .main - 8
  | .gpr | .regInit => dataAreaSize .macroStack + dataAreaSize .underflowPad + dataAreaSize .main +
      dataAreaSize .faulty
  | .simd => dataAreaSize .macroStack + dataAreaSize .underflowPad + dataAreaSize .main +
      dataAreaSize .faulty + dataAreaSize .gpr
  | .overflowPad => dataAreaSize .macroStack + dataAreaSize .underflowPad + dataAreaSize .main +
      dataAreaSize .faulty + dataAreaSize .gpr + dataAreaSize .simd

/-- `SandboxLayout.data_size_per_actor`. -/
def dataSizePerActor : Nat := dataAreaOffset .overflowPad + dataAreaSize .overflowPad

/-- `get_data_addr`. -/
def getDataAddr (dataStart : Nat) (area : DataArea) (actor : Nat) : Nat :=
  dataStart + actor * dataSizePerActor + dataAreaOffset area

/-! ### Inputs -/

/-- One `_ActorInput`, through its linear view: `main`, `faulty`, `gpr`, `simd` and `padding`, one
entry for each 8 bytes. -/
abbrev ActorInput := Nat → UInt64

abbrev InputData := Nat → ActorInput

namespace ActorInput

variable (x : ActorInput)

def field (first count : Nat) : List UInt64 := (List.range count).map fun i => x (first + i)

def main : List UInt64 := field x 0 512
def faulty : List UInt64 := field x 512 512
def gpr : List UInt64 := field x 1024 8
def simd : List UInt64 := field x 1032 32

/-- `input_fragment['gpr'][i] = v`. -/
def setGpr (i : Nat) (v : UInt64) : ActorInput := fun j => if j = 1024 + i then v else x j

end ActorInput

/-- The number of entries of one actor, the padding included. -/
def entriesPerActor : Nat := 512 + 512 + 8 + 32 + 472

/-- The entries before the padding (`n_data_entries_per_actor`). -/
def dataEntriesPerActor : Nat := 512 + 512 + 8 + 32

/-- `tobytes`. -/
def tobytes (ws : List UInt64) : List UInt8 := encodeWords (ws.map UInt64.toNat)

/-! ### The emulator's state -/

/-- The registers of the Unicorn engine that the model names; `invalid` is the constant `-1`. -/
inductive UcReg where
  | rax | rbx | rcx | rdx | rsi | rdi | eflags | rsp | rbp
  | r8 | r9 | r10 | r11 | r12 | r13 | r14 | r15
  | xmm (i : Fin 16)
  | invalid
  deriving Repr, DecidableEq

def usableRegisters : List UcReg := [.rax, .rbx, .rcx, .rdx, .rsi, .rdi, .eflags, .rsp]

def usableSimd128Registers : List UcReg :=
  [.xmm 0, .xmm 1, .xmm 2, .xmm 3, .xmm 4, .xmm 5, .xmm 6, .xmm 7]

structure Emulator where
  mem : Mem
  reg : UcReg → Nat

def Emulator.regWrite (em : Emulator) (r : UcReg) (v : Nat) : Emulator :=
  { em with reg := fun q => if q = r then v else em.reg q }

/-! ### `_load_input` -/

def patchFlags (flags : UInt64) : UInt64 := (flags &&& 2263) ||| 2

section Load

variable (dataStart : Nat)

def writeArea (em : Emulator) (area : DataArea) (actor : Nat) (data : List UInt8) : Emulator :=
  { em with mem := em.mem.write (getDataAddr dataStart area actor) data }

/-- The input with the flags entry of one actor patched in place. -/
def patchInput (input : InputData) (actor : Nat) : InputData :=
  fun a => if a = actor then (input a).setGpr 6 (patchFlags (input a 1030)) else input a

/-- The body of the loop over the actors. -/
def loadActor (s : Emulator × InputData) (actor : Nat) : Emulator × InputData :=
  let em := writeArea dataStart s.1 .overflowPad actor
    (List.replicate (dataAreaSize .overflowPad) 0)
  let em := writeArea dataStart em .underflowPad actor
    (List.replicate (dataAreaSize .underflowPad) 0)
  let em := writeArea dataStart em .main actor (tobytes (s.2 actor).main)
  let em := writeArea dataStart em .faulty actor (tobytes (s.2 actor).faulty)
  let input := patchInput s.2 actor
  let em := writeArea dataStart em .gpr actor (tobytes (input actor).gpr)
  let em := writeArea dataStart em .simd actor (tobytes (input actor).simd)
  (em, input)

/-- The values of the SIMD registers: of each four words the first two are kept. -/
def simdValues (ws : List UInt64) : List Nat :=
  ws.zipIdx.foldl (fun values p =>
    if p.2 % 4 = 0 then values ++ [p.1.toNat]
    else if p.2 % 4 = 1 then
      values.dropLast ++ [values.getLastD 0 ||| p.1.toNat <<< 64]
    else values) []

def loadRegisters (em : Emulator) (fragment : ActorInput) : Emulator :=
  let em := (usableRegisters.zip fragment.gpr).foldl (fun em p => em.regWrite p.1 p.2.toNat) em
  let em := em.regWrite .eflags (patchFlags (fragment 1030)).toNat
  let em := em.regWrite .rsp (getDataAddr dataStart .rspInit 0)
  let em := em.regWrite .rbp (getDataAddr dataStart .rspInit 0)
  let em := em.regWrite .r14 (getDataAddr dataStart .main 0)
  (usableSimd128Registers.zip (simdValues fragment.simd)).foldl (fun em p => em.regWrite p.1 p.2) em

/-- `X86UnicornModel._load_input`, without the page permissions. -/
def loadInput (nActors : Nat) (em : Emulator) (input : InputData) : Emulator :=
  let s := (List.range nActors).foldl (loadActor dataStart) (em, input)
  loadRegisters dataStart s.1 (s.2 0)

end Load

/-! ### Where a value comes from -/

/-- A place of the emulator that an input can fill: a register, or an 8-byte word of the sandbox. -/
inductive Loc where
  | reg (r : UcReg)
  | word (w : Nat)
  deriving Repr, DecidableEq

def Emulator.read (dataStart : Nat) (em : Emulator) : Loc → Nat
  | .reg r => em.reg r
  | .word w => em.mem.word64 (dataStart + 8 * w)

/-- Entry `j` of actor `a` initialises a place when changing that entry alone can change the value
which `_load_input` leaves there. -/
def Initialises (dataStart nActors : Nat) (em : Emulator) (loc : Loc) (a j : Nat) : Prop :=
  ∃ input input' : InputData,
    (∀ a' j', (a', j') ≠ (a, j) → input a' j' = input' a' j') ∧
    (loadInput dataStart nActors em input).read dataStart loc ≠
      (loadInput dataStart nActors em input').read dataStart loc

/-! ### Memory after loading -/

@[simp] theorem dataSizePerActor_eq : dataSizePerActor = 16384 := rfl

theorem field_getElem? (x : ActorInput) {first count i : Nat} (h : i < count) :
    ((ActorInput.field x first count).map UInt64.toNat)[i]? = some (x (first + i)).toNat := by
  simp [ActorInput.field, h]

@[simp] theorem length_tobytes_field (x : ActorInput) (first count : Nat) :
    (tobytes (ActorInput.field x first count)).length = 8 * count := by
  simp [tobytes, ActorInput.field]

/-- The value `_load_input` leaves in word `k` of an actor's sandbox; the macro stack is not
written. -/
def loadedWord (fragment : ActorInput) (old k : Nat) : Nat :=
  if k < 8 then old
  else if k < 512 then 0
  else if k < 512 + dataEntriesPerActor then (fragment (k - 512)).toNat
  else 0

theorem loadedWord_entry (x : ActorInput) (old : Nat) {j : Nat} (h : j < 1064) :
    loadedWord x old (j + 512) = (x j).toNat := by
  rw [loadedWord, if_neg (by omega), if_neg (by omega),
    if_pos (by rw [show dataEntriesPerActor = 1064 from rfl]; omega), Nat.add_sub_cancel]

section

variable (dataStart : Nat)

theorem loadActor_input (s : Emulator × InputData) (actor : Nat) :
    (loadActor dataStart s actor).2 = patchInput s.2 actor := rfl

theorem setGpr_other (x : ActorInput) {i j : Nat} (v : UInt64) (h : j ≠ 1024 + i) :
    x.setGpr i v j = x j := by
  simp [ActorInput.setGpr, h]

/-- A write to one area leaves the words outside of it alone. -/
theorem writeArea_word_other (em : Emulator) {area : DataArea} {actor a k o n : Nat}
    {data : List UInt8} (ho : dataAreaOffset area = 8 * o) (hn : data.length = 8 * n)
    (hk : k < 2048) (hfit : o + n ≤ 2048) (h : a ≠ actor ∨ k < o ∨ o + n ≤ k) :
    (writeArea dataStart em area actor data).mem.word64 (dataStart + 8 * (a * 2048 + k)) =
      em.mem.word64 (dataStart + 8 * (a * 2048 + k)) := by
  apply word64_write_other
  rw [getDataAddr, dataSizePerActor_eq, ho, hn]
  by_cases ha : a = actor
  · subst a
    omega
  · cases Nat.lt_or_gt_of_ne ha with
    | inl hlt => omega
    | inr hgt => omega

theorem writeArea_field_other (em : Emulator) {area : DataArea} {actor a k f o n : Nat}
    (x : ActorInput) (ho : dataAreaOffset area = 8 * o) (hk : k < 2048) (hfit : o + n ≤ 2048)
    (h : a ≠ actor ∨ k < o ∨ o + n ≤ k) :
    (writeArea dataStart em area actor (tobytes (ActorInput.field x f n))).mem.word64
      (dataStart + 8 * (a * 2048 + k)) = em.mem.word64 (dataStart + 8 * (a * 2048 + k)) :=
  writeArea_word_other dataStart em ho (length_tobytes_field x f n) hk hfit h

theorem writeArea_zero_other (em : Emulator) {area : DataArea} {actor a k o n : Nat}
    (ho : dataAreaOffset area = 8 * o) (hk : k < 2048) (hfit : o + n ≤ 2048)
    (h : a ≠ actor ∨ k < o ∨ o + n ≤ k) :
    (writeArea dataStart em area actor (List.replicate (8 * n) 0)).mem.word64
      (dataStart + 8 * (a * 2048 + k)) = em.mem.word64 (dataStart + 8 * (a * 2048 + k)) :=
  writeArea_word_other dataStart em ho List.length_replicate hk hfit h

/-- A write of words fills the words of its area. -/
theorem writeArea_word_self (em : Emulator) {area : DataArea} {actor k o w : Nat} {ws : List Nat}
    (ho : dataAreaOffset area = 8 * o) (hk : o ≤ k) (hw : ws[k - o]? = some w) (hlt : w < 2 ^ 64) :
    (writeArea dataStart em area actor (encodeWords ws)).mem.word64
      (dataStart + 8 * (actor * 2048 + k)) = w := by
  have h : (em.mem.write (getDataAddr dataStart area actor) (encodeWords ws)).word64
      (getDataAddr dataStart area actor + 8 * (k - o)) = w := word64_write_encodeWords em.mem hw hlt
  rw [show dataStart + 8 * (actor * 2048 + k) = getDataAddr dataStart area actor + 8 * (k - o) by
    rw [getDataAddr, dataSizePerActor_eq, ho]; omega]
  exact h

theorem writeArea_word_field (em : Emulator) {area : DataArea} {actor k f n o : Nat}
    (x : ActorInput) (ho : dataAreaOffset area = 8 * o) (hk : o ≤ k) (hk' : k < o + n) :
    (writeArea dataStart em area actor (tobytes (ActorInput.field x f n))).mem.word64
      (dataStart + 8 * (actor * 2048 + k)) = (x (f + (k - o))).toNat :=
  writeArea_word_self dataStart em ho hk (field_getElem? x (by omega)) (UInt64.toNat_lt _)

theorem writeArea_word_zero (em : Emulator) {area : DataArea} {actor k n o : Nat}
    (ho : dataAreaOffset area = 8 * o) (hk : o ≤ k) (hk' : k < o + n) :
    (writeArea dataStart em area actor (List.replicate (8 * n) 0)).mem.word64
      (dataStart + 8 * (actor * 2048 + k)) = 0 := by
  rw [← encodeWords_replicate_zero]
  apply writeArea_word_self dataStart em ho hk _ (by decide)
  rw [List.getElem?_replicate, if_pos (by omega)]

theorem patchInput_self (input : InputData) {actor j : Nat} (h : j ≠ 1030) :
    patchInput input actor actor j = input actor j := by
  rw [patchInput, if_pos rfl]
  exact setGpr_other _ _ h

/-- `loadActor` with the sizes of the areas in words. -/
theorem loadActor_mem (s : Emulator × InputData) (actor : Nat) :
    (loadActor dataStart s actor).1 =
      writeArea dataStart (writeArea dataStart (writeArea dataStart (writeArea dataStart
        (writeArea dataStart (writeArea dataStart s.1 .overflowPad actor
            (List.replicate (8 * 472) 0))
          .underflowPad actor (List.replicate (8 * 504) 0))
        .main actor (tobytes (ActorInput.field (s.2 actor) 0 512)))
        .faulty actor (tobytes (ActorInput.field (s.2 actor) 512 512)))
        .gpr actor (tobytes (ActorInput.field (patchInput s.2 actor actor) 1024 8)))
        .simd actor (tobytes (ActorInput.field (patchInput s.2 actor actor) 1032 32)) := rfl

/-- One round of the loop, on the words of its own actor: the areas are disjoint, so each word has
the value of the one area it lies in. -/
theorem loadActor_word_self (s : Emulator × InputData) (actor : Nat) {k : Nat} (hk : k < 2048) :
    (loadActor dataStart s actor).1.mem.word64 (dataStart + 8 * (actor * 2048 + k)) =
      loadedWord (patchInput s.2 actor actor)
        (s.1.mem.word64 (dataStart + 8 * (actor * 2048 + k))) k := by
  rw [loadActor_mem, loadedWord, show 512 + dataEntriesPerActor = 1576 from rfl]
  by_cases hsimd : 1544 ≤ k ∧ k < 1576
  · rw [writeArea_word_field dataStart _ _ (o := 1544) rfl hsimd.1 hsimd.2,
      if_neg (by omega), if_neg (by omega), if_pos (by omega)]
    rw [show 1032 + (k - 1544) = k - 512 by omega]
  rw [writeArea_field_other dataStart _ _ (o := 1544) rfl hk (by omega) (by omega)]
  by_cases hgpr : 1536 ≤ k ∧ k < 1544
  · rw [writeArea_word_field dataStart _ _ (o := 1536) rfl hgpr.1 hgpr.2,
      if_neg (by omega), if_neg (by omega), if_pos (by omega)]
    rw [show 1024 + (k - 1536) = k - 512 by omega]
  rw [writeArea_field_other dataStart _ _ (o := 1536) rfl hk (by omega) (by omega)]
  by_cases hfaulty : 1024 ≤ k ∧ k < 1536
  · rw [writeArea_word_field dataStart _ _ (o := 1024) rfl hfaulty.1 hfaulty.2,
      if_neg (by omega), if_neg (by omega), if_pos (by omega), patchInput_self _ (by omega)]
    rw [show 512 + (k - 1024) = k - 512 by omega]
  rw [writeArea_field_other dataStart _ _ (o := 1024) rfl hk (by omega) (by omega)]
  by_cases hmain : 512 ≤ k ∧ k < 1024
  · rw [writeArea_word_field dataStart _ _ (o := 512) rfl hmain.1 hmain.2,
      if_neg (by omega), if_neg (by omega), if_pos (by omega), patchInput_self _ (by omega)]
    rw [show 0 + (k - 512) = k - 512 by omega]
  rw [writeArea_field_other dataStart _ _ (o := 512) rfl hk (by omega) (by omega)]
  by_cases hunder : 8 ≤ k ∧ k < 512
  · rw [writeArea_word_zero dataStart _ (o := 8) rfl hunder.1 hunder.2,
      if_neg (by omega), if_pos (by omega)]
  rw [writeArea_zero_other dataStart _ (o := 8) rfl hk (by omega) (by omega)]
  by_cases hover : 1576 ≤ k
  · rw [writeArea_word_zero dataStart _ (o := 1576) rfl hover (by omega),
      if_neg (by omega), if_neg (by omega), if_neg (by omega)]
  rw [writeArea_zero_other dataStart _ (o := 1576) rfl hk (by omega) (by omega),
    if_pos (by omega)]

theorem loadActor_word_other (s : Emulator × InputData) {actor a : Nat} (ha : a ≠ actor) {k : Nat}
    (hk : k < 2048) :
    (loadActor dataStart s actor).1.mem.word64 (dataStart + 8 * (a * 2048 + k)) =
      s.1.mem.word64 (dataStart + 8 * (a * 2048 + k)) := by
  rw [loadActor_mem,
    writeArea_field_other dataStart _ _ (o := 1544) rfl hk (by omega) (.inl ha),
    writeArea_field_other dataStart _ _ (o := 1536) rfl hk (by omega) (.inl ha),
    writeArea_field_other dataStart _ _ (o := 1024) rfl hk (by omega) (.inl ha),
    writeArea_field_other dataStart _ _ (o := 512) rfl hk (by omega) (.inl ha),
    writeArea_zero_other dataStart _ (o := 8) rfl hk (by omega) (.inl ha),
    writeArea_zero_other dataStart _ (o := 1576) rfl hk (by omega) (.inl ha)]

/-- The whole loop over the actors: every actor below the bound is loaded from its own fragment,
with the flags entry patched. -/
theorem loadActors_spec (em : Emulator) (input : InputData) (n : Nat) :
    (∀ a, ((List.range n).foldl (loadActor dataStart) (em, input)).2 a =
      if a < n then patchInput input a a else input a) ∧
    ∀ a k, k < 2048 →
      ((List.range n).foldl (loadActor dataStart) (em, input)).1.mem.word64
          (dataStart + 8 * (a * 2048 + k)) =
        if a < n then
          loadedWord (patchInput input a a) (em.mem.word64 (dataStart + 8 * (a * 2048 + k))) k
        else em.mem.word64 (dataStart + 8 * (a * 2048 + k)) := by
  induction n with
  | zero => simp
  | succ n ih =>
      rw [List.range_succ, List.foldl_append, List.foldl_cons, List.foldl_nil]
      generalize (List.range n).foldl (loadActor dataStart) (em, input) = s at ih
      have hinput := ih.1
      have hpatch : patchInput s.2 n n = patchInput input n n := by
        simp [patchInput, hinput]
      refine ⟨fun a => ?_, fun a k hk => ?_⟩
      · rw [loadActor_input]
        by_cases ha : a = n
        · subst a
          rw [hpatch, if_pos (by omega)]
        · rw [patchInput, if_neg ha, hinput]
          by_cases hlt : a < n
          · rw [if_pos hlt, if_pos (by omega)]
          · rw [if_neg hlt, if_neg (by omega)]
      · by_cases ha : a = n
        · subst a
          rw [loadActor_word_self dataStart s _ hk, hpatch, ih.2 _ k hk, if_neg (by omega),
            if_pos (by omega)]
        · rw [loadActor_word_other dataStart s ha hk, ih.2 a k hk]
          by_cases hlt : a < n
          · rw [if_pos hlt, if_pos (by omega)]
          · rw [if_neg hlt, if_neg (by omega)]

/-! ### Registers after loading -/

@[simp] theorem regWrite_reg (em : Emulator) (r q : UcReg) (v : Nat) :
    (em.regWrite r v).reg q = if q = r then v else em.reg q := rfl

@[simp] theorem regWrite_mem (em : Emulator) (r : UcReg) (v : Nat) :
    (em.regWrite r v).mem = em.mem := rfl

theorem simdValues_simd (x : ActorInput) :
    simdValues x.simd = (List.range 8).map fun i =>
      (x (1032 + 4 * i)).toNat ||| (x (1033 + 4 * i)).toNat <<< 64 := by
  simp [simdValues, ActorInput.simd, ActorInput.field, List.range_succ]

/-- The entries of the main actor a register is filled from. -/
def regEntries : UcReg → List Nat
  | .rax => [1024]
  | .rbx => [1025]
  | .rcx => [1026]
  | .rdx => [1027]
  | .rsi => [1028]
  | .rdi => [1029]
  | .eflags => [1030]
  | .xmm i => if i.val < 8 then [1032 + 4 * i.val, 1033 + 4 * i.val] else []
  | _ => []

theorem loadRegisters_mem (em : Emulator) (x : ActorInput) :
    (loadRegisters dataStart em x).mem = em.mem := by
  simp [loadRegisters, usableRegisters, usableSimd128Registers, simdValues_simd, ActorInput.gpr,
    ActorInput.field, List.range_succ]

/-- The value of a register after loading. -/
def loadedReg (x : ActorInput) (old : Nat) : UcReg → Nat
  | .rax => (x 1024).toNat
  | .rbx => (x 1025).toNat
  | .rcx => (x 1026).toNat
  | .rdx => (x 1027).toNat
  | .rsi => (x 1028).toNat
  | .rdi => (x 1029).toNat
  | .eflags => (patchFlags (x 1030)).toNat
  | .rsp | .rbp => getDataAddr dataStart .rspInit 0
  | .r14 => getDataAddr dataStart .main 0
  | .xmm i =>
      if i.val < 8 then (x (1032 + 4 * i.val)).toNat ||| (x (1033 + 4 * i.val)).toNat <<< 64 else old
  | _ => old

theorem loadRegisters_reg (em : Emulator) (x : ActorInput) (r : UcReg) :
    (loadRegisters dataStart em x).reg r = loadedReg dataStart x (em.reg r) r := by
  cases r with
  | xmm i =>
      simp only [loadRegisters, usableRegisters, usableSimd128Registers, simdValues_simd,
        ActorInput.gpr, ActorInput.field, List.range_succ, loadedReg]
      fin_cases i <;> rfl
  | _ =>
      simp [loadRegisters, usableRegisters, usableSimd128Registers, simdValues_simd, ActorInput.gpr,
        ActorInput.field, List.range_succ, loadedReg]

/-! ### Sources -/

theorem loadInput_reg (n : Nat) (em : Emulator) (input : InputData) (r : UcReg) :
    (loadInput dataStart n em input).reg r =
      loadedReg dataStart (if 0 < n then patchInput input 0 0 else input 0)
        (((List.range n).foldl (loadActor dataStart) (em, input)).1.reg r) r := by
  rw [loadInput, loadRegisters_reg, (loadActors_spec dataStart em input n).1]

theorem loadInput_word (n : Nat) (em : Emulator) (input : InputData) {a k : Nat} (hk : k < 2048) :
    (loadInput dataStart n em input).mem.word64 (dataStart + 8 * (a * 2048 + k)) =
      if a < n then
        loadedWord (patchInput input a a) (em.mem.word64 (dataStart + 8 * (a * 2048 + k))) k
      else em.mem.word64 (dataStart + 8 * (a * 2048 + k)) := by
  rw [loadInput, loadRegisters_mem, (loadActors_spec dataStart em input n).2 a k hk]

/-- No register is written in the loop over the actors. -/
theorem loadActors_reg (em : Emulator) (input : InputData) (n : Nat) :
    ((List.range n).foldl (loadActor dataStart) (em, input)).1.reg = em.reg := by
  induction n with
  | zero => rfl
  | succ n ih =>
      rw [List.range_succ, List.foldl_append, List.foldl_cons, List.foldl_nil]
      exact ih

/-- The entries, with their actors, that a place takes its value from. -/
def sources (n : Nat) : Loc → List (Nat × Nat)
  | .reg r => (regEntries r).map fun j => (0, j)
  | .word w =>
      if w / 2048 < n ∧ 512 ≤ w % 2048 ∧ w % 2048 < 512 + dataEntriesPerActor then
        [(w / 2048, w % 2048 - 512)]
      else []

theorem patchInput_congr {input input' : InputData} {a j : Nat} (h : input a j = input' a j) :
    patchInput input a a j = patchInput input' a a j := by
  by_cases hj : j = 1030
  · subst j
    simp [patchInput, ActorInput.setGpr, h]
  · rw [patchInput_self _ hj, patchInput_self _ hj, h]

theorem loadedReg_congr {x x' : ActorInput} (old : Nat) (r : UcReg)
    (h : ∀ j ∈ regEntries r, x j = x' j) :
    loadedReg dataStart x old r = loadedReg dataStart x' old r := by
  cases r with
  | xmm i =>
      by_cases hi : i.val < 8
      · simp only [regEntries, hi, if_true, List.mem_cons, List.not_mem_nil, or_false] at h
        simp only [loadedReg, hi, if_true]
        rw [h _ (.inl rfl), h _ (.inr rfl)]
      · simp [loadedReg, hi]
  | _ => simp_all [regEntries, loadedReg]

/-- Two inputs with the same sources of a place leave the same value there. -/
theorem loadInput_read_congr (n : Nat) (em : Emulator) {input input' : InputData} (loc : Loc)
    (h : ∀ p ∈ sources n loc, input p.1 p.2 = input' p.1 p.2) :
    (loadInput dataStart n em input).read dataStart loc =
      (loadInput dataStart n em input').read dataStart loc := by
  cases loc with
  | reg r =>
      simp only [Emulator.read, loadInput_reg, loadActors_reg]
      apply loadedReg_congr
      intro j hj
      have hj' := h (0, j) (List.mem_map_of_mem hj)
      by_cases hn : 0 < n
      · rw [if_pos hn, if_pos hn]
        exact patchInput_congr hj'
      · rw [if_neg hn, if_neg hn]
        exact hj'
  | word w =>
      have hw : w = w / 2048 * 2048 + w % 2048 := by omega
      rw [Emulator.read, Emulator.read, hw, loadInput_word dataStart n em input (by omega),
        loadInput_word dataStart n em input' (by omega)]
      by_cases ha : w / 2048 < n
      · rw [if_pos ha, if_pos ha, loadedWord, loadedWord]
        by_cases hin : 512 ≤ w % 2048 ∧ w % 2048 < 512 + dataEntriesPerActor
        · rw [sources, if_pos ⟨ha, hin⟩] at h
          rw [patchInput_congr (h _ List.mem_cons_self)]
        · by_cases hlow : w % 2048 < 512
          · rw [if_pos hlow, if_pos hlow]
          · rw [if_neg (show ¬ w % 2048 < 512 + dataEntriesPerActor by omega),
              if_neg (show ¬ w % 2048 < 512 + dataEntriesPerActor by omega)]
      · rw [if_neg ha, if_neg ha]

/-- The input that is `1` in one entry and `0` elsewhere. -/
def unitInput (a j : Nat) : InputData := fun a' j' => if a' = a ∧ j' = j then 1 else 0

theorem patchInput_unit_ne (a j : Nat) :
    (patchInput (unitInput a j) a a j).toNat ≠ (patchInput (fun _ _ => 0) a a j).toNat := by
  by_cases hj : j = 1030
  · subst j
    simp [patchInput, ActorInput.setGpr, unitInput]
    decide
  · rw [patchInput_self _ hj, patchInput_self _ hj]
    simp [unitInput]

/-- The fragment the registers are loaded from, at the two inputs. -/
theorem mainFragment_unit (n : Nat) {j k : Nat} (hk : k ≠ 1030) :
    (if 0 < n then patchInput (unitInput 0 j) 0 0 else unitInput 0 j 0) k =
      if k = j then 1 else 0 := by
  by_cases hn : 0 < n
  · rw [if_pos hn, patchInput_self _ hk]
    simp [unitInput]
  · rw [if_neg hn]
    simp [unitInput]

theorem mainFragment_zero (n : Nat) {k : Nat} (hk : k ≠ 1030) :
    (if 0 < n then patchInput (fun _ _ => 0) 0 0 else fun _ => 0) k = 0 := by
  by_cases hn : 0 < n
  · rw [if_pos hn, patchInput_self _ hk]
  · rw [if_neg hn]

theorem loadInput_reg_ne (n : Nat) (em : Emulator) {r : UcReg} {j : Nat} (hj : j ∈ regEntries r) :
    (loadInput dataStart n em (unitInput 0 j)).reg r ≠
      (loadInput dataStart n em (fun _ _ => 0)).reg r := by
  rw [loadInput_reg, loadInput_reg, loadActors_reg, loadActors_reg]
  cases r with
  | eflags =>
      rw [regEntries, List.mem_singleton] at hj
      subst j
      by_cases hn : 0 < n
      · rw [if_pos hn, if_pos hn]
        simp only [loadedReg]
        decide
      · rw [if_neg hn, if_neg hn]
        simp only [loadedReg]
        decide
  | xmm i =>
      by_cases hi : i.val < 8
      · simp only [regEntries, hi, if_true, List.mem_cons, List.not_mem_nil, or_false] at hj
        simp only [loadedReg, hi, if_true]
        rw [mainFragment_unit n (by omega), mainFragment_unit n (by omega),
          mainFragment_zero n (by omega), mainFragment_zero n (by omega)]
        cases hj with
        | inl hj =>
            rw [if_pos hj.symm, if_neg (by omega)]
            decide
        | inr hj =>
            rw [if_neg (by omega), if_pos hj.symm]
            decide
      · simp [regEntries, hi] at hj
  | rax | rbx | rcx | rdx | rsi | rdi =>
      rw [regEntries, List.mem_singleton] at hj
      subst j
      simp only [loadedReg]
      rw [mainFragment_unit n (by decide), mainFragment_zero n (by decide)]
      decide
  | _ => exact absurd hj List.not_mem_nil

/-- **What `_load_input` initialises.** A place takes its value from exactly the entries
`sources` lists. -/
theorem initialises_iff (n : Nat) (em : Emulator) (loc : Loc) (a j : Nat) :
    Initialises dataStart n em loc a j ↔ (a, j) ∈ sources n loc := by
  constructor
  · rintro ⟨input, input', hagree, hne⟩
    by_contra hnot
    apply hne
    apply loadInput_read_congr
    intro p hp
    apply hagree
    intro heq
    exact hnot (heq ▸ hp)
  · intro hmem
    refine ⟨unitInput a j, fun _ _ => 0, fun a' j' hne => ?_, ?_⟩
    · exact if_neg fun h => hne (by rw [h.1, h.2])
    · cases loc with
      | reg r =>
          simp only [sources, List.mem_map, Prod.mk.injEq] at hmem
          obtain ⟨j', hj', rfl, rfl⟩ := hmem
          exact loadInput_reg_ne dataStart n em hj'
      | word w =>
          rw [sources] at hmem
          split at hmem
          case isFalse => exact absurd hmem List.not_mem_nil
          case isTrue hin =>
            rw [List.mem_singleton, Prod.mk.injEq] at hmem
            rw [Emulator.read, Emulator.read, show w = a * 2048 + (j + 512) by omega]
            rw [dataEntriesPerActor] at hin
            rw [loadInput_word dataStart n em _ (by omega),
              loadInput_word dataStart n em _ (by omega), if_pos (by omega), if_pos (by omega),
              loadedWord_entry _ _ (by omega), loadedWord_entry _ _ (by omega)]
            exact patchInput_unit_ne a j

end

end Rvzr.Unicorn
