import Rvzr.Dynamorio.Speculator
import Mathlib.Data.Finset.Union

/-!
`TaintTracker` (model_dynamorio/backend/taint_tracker.cpp): for every register and every 8-byte word
of memory the labels of the initial values it depends on, and the labels that the contract trace
depends on.

`std::set` and `std::map` of labels are finite sets and partial functions; the sets of an
instruction are lists without repetition. An assertion that fails ends the process: the call returns
`none`.
-/

namespace Rvzr.Dynamorio

open Rvzr.Lib

/-! ### Labels -/

/-- The flags of `FLAG_MAPPINGS`. -/
inductive Flag where
  | cf | pf | af | zf | sf | of_ | df
  deriving Repr, DecidableEq

/-- `DR_REG_RIP` is another name of `DR_REG_NULL`. -/
abbrev ripReg : Reg := .null

/-- `DR_FLAG_CF` and its siblings: the names of 16-bit registers, which `normalize_reg` never
returns. -/
def flagReg : Flag → Reg
  | .cf => .gpr .rax .low16
  | .pf => .gpr .rbx .low16
  | .af => .gpr .rcx .low16
  | .zf => .gpr .rdx .low16
  | .sf => .gpr .rsi .low16
  | .of_ => .gpr .rdi .low16
  | .df => .gpr .r8 .low16

/-- `tracked_label_t`: the number of a register, which is below 256, or the address of a word, which
is above. -/
inductive Label where
  | reg (r : Reg)
  | mem (addr : Nat)
  deriving Repr, DecidableEq

/-! ### Instructions -/

/-- What the decoder answers to the tracker. `dstSize` is the size in bytes of the first
destination. -/
structure Operands where
  opcode : Opcode
  isCbr : Bool := false
  isUbr : Bool := false
  dsts : List Opnd := []
  srcs : List Opnd := []
  readFlags : List Flag := []
  writeFlags : List Flag := []
  dstSize : Nat := 8
  deriving Repr, DecidableEq

structure TrackedInstruction where
  operands : Operands
  srcRegs : List Reg := []
  destRegs : List Reg := []
  srcMems : List Nat := []
  destMems : List Nat := []
  memAddressRegs : List Reg := []
  deriving Repr, DecidableEq

/-- `normalize_reg`. -/
def normalizeReg : Reg → Reg
  | .gpr g _ => .gpr g .full
  | r => r

/-- The registers of an address, in `track_operand`. -/
def addressRegs (base index : Reg) : List Reg :=
  (if base = .null then [] else [normalizeReg base]) ++
    (if index = .null then [] else [normalizeReg index])

/-- `track_operand`. -/
def trackOperand (isSrc : Bool) (t : TrackedInstruction) : Opnd → TrackedInstruction
  | .reg r =>
    if normalizeReg r = .null then t
    else if isSrc then { t with srcRegs := t.srcRegs.insert (normalizeReg r) }
    else { t with destRegs := t.destRegs.insert (normalizeReg r) }
  | .baseDisp base index _ _ =>
    { t with memAddressRegs := t.memAddressRegs ∪ addressRegs base index }
  | .absAddr _ => t
  | .other => t

/-- `track_flags`. -/
def trackFlags (t : TrackedInstruction) (readFlags writeFlags : List Flag) : TrackedInstruction :=
  { t with
    srcRegs := t.srcRegs ∪ readFlags.map flagReg
    destRegs := t.destRegs ∪ writeFlags.map flagReg }

/-- `parse_instruction_operands`, on a new instruction. -/
def parseInstructionOperands (o : Operands) : TrackedInstruction :=
  let t := o.dsts.foldl (trackOperand false) { operands := o }
  let t := o.srcs.foldl (trackOperand true) t
  let t := trackFlags t o.readFlags o.writeFlags
  if o.isCbr || o.isUbr then { t with destRegs := t.destRegs.insert ripReg } else t

/-- `OVERRIDE_OPCODES`. -/
def overrideOpcodes : List Opcode :=
  [.movLd, .movSt, .movImm, .movPriv, .movd, .movq, .movs, .movsx, .movzx, .movsxd, .movbe, .lea]

def isXmmOrYmm : Reg → Bool
  | .xmm _ | .ymm _ => true
  | _ => false

def isGpr : Reg → Bool
  | .gpr _ _ => true
  | _ => false

/-- `is_override_instruction`, with the register that is overridden. -/
def overriddenReg (t : TrackedInstruction) : Option Reg :=
  if t.operands.opcode ∉ overrideOpcodes then none
  else
    match t.destRegs with
    | [r] =>
      if isXmmOrYmm r then some r
      else if isGpr r && t.operands.dstSize == 8 then some r
      else none
    | _ => none

/-! ### Dependencies -/

structure Dependencies where
  reg : Reg → Option (Finset Label) := fun _ => none
  mem : Nat → Option (Finset Label) := fun _ => none

namespace Dependencies

variable (d : Dependencies)

/-- The dependencies of a register; without an entry it has its initial value. -/
def ofReg (r : Reg) : Finset Label := (d.reg r).getD {.reg r}

def ofMem (addr : Nat) : Finset Label := (d.mem addr).getD {.mem addr}

def ofLabel : Label → Finset Label
  | .reg r => d.ofReg r
  | .mem addr => d.ofMem addr

/-- `collect_source_dependencies`. -/
def collectSource (t : TrackedInstruction) : Finset Label :=
  t.srcRegs.toFinset.biUnion d.ofReg ∪ t.srcMems.toFinset.biUnion d.ofMem ∪
    t.memAddressRegs.toFinset.biUnion d.ofReg

/-- `propagate_dependencies_to_dest` for one entry. -/
def propagate (own : Label) (src : Finset Label) : Option (Finset Label) → Option (Finset Label)
  | some old => some (old ∪ src)
  | none => some (insert own src)

/-- `add_dependencies`. -/
def add (t : TrackedInstruction) : Dependencies where
  reg r := if r ∈ t.destRegs then propagate (.reg r) (d.collectSource t) (d.reg r) else d.reg r
  mem a := if a ∈ t.destMems then propagate (.mem a) (d.collectSource t) (d.mem a) else d.mem a

/-- `remove_overwritten_dependencies`. -/
def removeOverwritten (t : TrackedInstruction) : Dependencies :=
  match overriddenReg t with
  | none => d
  | some dest => { d with
    reg := fun r => if r = dest then (d.reg r).map fun ls => ls ∩ d.collectSource t else d.reg r }

end Dependencies

section Lemmas

variable {i : TrackedInstruction} (d : Dependencies)

/-- The labels that an instruction reads. -/
def TrackedInstruction.reads (i : TrackedInstruction) : Finset Label :=
  (i.srcRegs.map Label.reg ++ i.srcMems.map Label.mem ++ i.memAddressRegs.map Label.reg).toFinset

def TrackedInstruction.writes (i : TrackedInstruction) : Finset Label :=
  (i.destRegs.map Label.reg ++ i.destMems.map Label.mem).toFinset

namespace Dependencies

theorem collectSource_eq : d.collectSource i = i.reads.biUnion d.ofLabel := by
  ext l
  simp [collectSource, TrackedInstruction.reads, or_and_right, exists_or, ofLabel]

theorem ofLabel_subset_collectSource {l : Label} (h : l ∈ i.reads) :
    d.ofLabel l ⊆ d.collectSource i := by
  rw [collectSource_eq]
  exact Finset.subset_biUnion_of_mem _ h

theorem getD_propagate (own : Label) (src : Finset Label) (old : Option (Finset Label)) :
    (propagate own src old).getD {own} = old.getD {own} ∪ src := by
  cases old with
  | none => exact Finset.insert_eq own src
  | some old => rfl

/-- Only what an instruction writes gets new dependencies. -/
theorem add_ofLabel (l : Label) : (d.add i).ofLabel l =
    if l ∈ i.writes then d.ofLabel l ∪ d.collectSource i else d.ofLabel l := by
  cases l with
  | reg r =>
    by_cases h : r ∈ i.destRegs
    · simp [ofLabel, ofReg, add, TrackedInstruction.writes, h, getD_propagate]
    · simp [ofLabel, ofReg, add, TrackedInstruction.writes, h]
  | mem a =>
    by_cases h : a ∈ i.destMems
    · simp [ofLabel, ofMem, add, TrackedInstruction.writes, h, getD_propagate]
    · simp [ofLabel, ofMem, add, TrackedInstruction.writes, h]

/-- The sources of an instruction depend on the same labels after it. -/
theorem collectSource_add : (d.add i).collectSource i = d.collectSource i := by
  rw [collectSource_eq (d.add i)]
  refine Finset.Subset.antisymm ?_ ?_
  · refine Finset.biUnion_subset.mpr fun l hl => ?_
    have hsub := d.ofLabel_subset_collectSource hl
    rw [add_ofLabel]
    split
    · exact Finset.union_subset hsub (Finset.Subset.refl _)
    · exact hsub
  · rw [collectSource_eq d]
    refine Finset.biUnion_mono fun l _ => ?_
    rw [add_ofLabel]
    split
    · exact Finset.subset_union_left
    · exact Finset.Subset.refl _

theorem overriddenReg_mem {r : Reg} (h : overriddenReg i = some r) : r ∈ i.destRegs := by
  unfold overriddenReg at h
  split at h
  · cases h
  · split at h
    · rename_i dest heq
      rw [heq, List.mem_singleton]
      split_ifs at h
      · exact (Option.some.inj h).symm
      · exact (Option.some.inj h).symm
    · cases h

/-- A register that is overridden depends only on the sources. -/
theorem removeOverwritten_overridden {r : Reg} (h : overriddenReg i = some r) :
    ((d.add i).removeOverwritten i).ofLabel (.reg r) = d.collectSource i := by
  have hmem := overriddenReg_mem h
  have hentry : (d.add i).reg r = propagate (.reg r) (d.collectSource i) (d.reg r) := if_pos hmem
  have hsub : d.collectSource i ⊆ ((propagate (.reg r) (d.collectSource i) (d.reg r)).getD ∅) := by
    cases d.reg r with
    | none => exact Finset.subset_insert _ _
    | some old => exact Finset.subset_union_right
  simp only [removeOverwritten, h, ofLabel, ofReg, if_pos, hentry, collectSource_add]
  cases hp : propagate (.reg r) (d.collectSource i) (d.reg r) with
  | none => cases hr : d.reg r <;> simp [propagate, hr] at hp
  | some ls =>
    rw [hp] at hsub
    exact Finset.inter_eq_right.mpr hsub

theorem removeOverwritten_other {l : Label} (h : ∀ r, l = .reg r → overriddenReg i ≠ some r) :
    (d.removeOverwritten i).ofLabel l = d.ofLabel l := by
  unfold removeOverwritten
  cases hr : overriddenReg i with
  | none => rfl
  | some dest =>
    cases l with
    | mem a => rfl
    | reg r =>
      have hne : r ≠ dest := by
        rintro rfl
        exact h r rfl hr
      simp [ofLabel, ofReg, hne]

end Dependencies

end Lemmas

/-! ### The tracker -/

structure TaintTracker where
  enabled : Bool := false
  trackingInProgress : Bool := false
  sandboxBase : Nat := 0
  checkpoints : List Dependencies := []
  taintedLabels : Finset Label := ∅
  pendingTaint : Finset Label := ∅
  currentInstruction : Option TrackedInstruction := none
  dependencies : Dependencies := {}

/-- `taint_entry_type_t`. -/
inductive TaintEntryType where
  | eot | pc | mem
  deriving Repr, DecidableEq

namespace TaintTracker

variable (t : TaintTracker)

/-- `enable`. -/
def enable : Option TaintTracker :=
  if t.trackingInProgress then none
  else some { t with enabled := true, trackingInProgress := true, sandboxBase := 0 }

/-- `finalize_instruction`, for the given current instruction. -/
def finalizeInstruction (i : TrackedInstruction) : TaintTracker :=
  let added := t.dependencies.add i
  { t with
    taintedLabels := t.taintedLabels ∪ t.pendingTaint.biUnion added.ofLabel
    dependencies := added.removeOverwritten i
    currentInstruction := none }

/-- `if (current_instruction != nullptr) finalize_instruction()`. -/
def settle : TaintTracker :=
  match t.currentInstruction with
  | none => t
  | some i => t.finalizeInstruction i

/-- `checkpoint`. -/
def checkpoint (includeCurrentInst : Bool) : TaintTracker :=
  if !t.enabled then t
  else
    let t := if includeCurrentInst then t.settle else t
    { t with checkpoints := t.dependencies :: t.checkpoints }

/-- `rollback`. -/
def rollback : Option TaintTracker :=
  if !t.enabled then some t
  else
    match t.checkpoints with
    | [] => none
    | d :: ds => some { t.settle with dependencies := d, checkpoints := ds }

/-- `track_instruction`; `r14` is the register's value before the instruction. -/
def trackInstruction (o : Operands) (r14 : Nat) : TaintTracker :=
  if !t.enabled then t
  else
    let t := if t.sandboxBase = 0 then { t with sandboxBase := r14 } else t
    { t.settle with currentInstruction := some (parseInstructionOperands o), pendingTaint := ∅ }

/-- The 8-byte words that a memory access touches. -/
def touchedWords (addr size : Nat) : List Nat :=
  let rangeStart := addr / 8 * 8
  let rangeEnd := add64 addr (sub64 size 1) / 8 * 8
  (List.range ((rangeEnd + 8 - rangeStart) / 8)).map fun i => rangeStart + 8 * i

/-- `track_memory_access`. -/
def trackMemoryAccess (isWrite : Bool) (addr size : Nat) : Option TaintTracker :=
  if !t.enabled then some t
  else
    match t.currentInstruction with
    | none => none
    | some i =>
      let i := if isWrite then { i with destMems := i.destMems ∪ touchedWords addr size }
        else { i with srcMems := i.srcMems ∪ touchedWords addr size }
      some { t with currentInstruction := some i }

/-- `taint`. -/
def taint (type : TaintEntryType) : TaintTracker :=
  if !t.enabled then t
  else
    match t.currentInstruction with
    | none => t
    | some i =>
      match type with
      | .pc =>
        if i.operands.isCbr || i.operands.isUbr then
          { t with pendingTaint := insert (.reg ripReg) t.pendingTaint }
        else t
      | .mem =>
        { t with pendingTaint := t.pendingTaint ∪ (i.memAddressRegs.map Label.reg).toFinset }
      | .eot => t

/-- `dr_reg_id_to_rvzr_reg_id`; `none` is `RVZR_REG_IGNORED`. -/
def rvzrRegId : Reg → Option Nat
  | .gpr .rax .full => some 0x2000
  | .gpr .rbx .full => some 0x2008
  | .gpr .rcx .full => some 0x2010
  | .gpr .rdx .full => some 0x2018
  | .gpr .rsi .full => some 0x2020
  | .gpr .rdi .full => some 0x2028
  | .xmm n | .ymm n => if n < 8 then some (0x2040 + 0x20 * n) else none
  | .gpr .rax .low16 | .gpr .rbx .low16 | .gpr .rcx .low16 | .gpr .rdx .low16
  | .gpr .rsi .low16 | .gpr .rdi .low16 | .gpr .r8 .low16 => some 0x2030
  | _ => none

/-- The value that `store_taints` writes for a label. -/
def labelValue (sandboxBase : Nat) : Label → Option Nat
  | .reg r => rvzrRegId r
  | .mem addr => some (sub64 addr sandboxBase)

/-- The values that `store_taints` writes for a set of labels, in the order in which the set is
listed, before the marker. -/
def storedValues (sandboxBase : Nat) (labels : List Label) : List Nat :=
  labels.filterMap (labelValue sandboxBase)

/-- `store_taints` writes the label; the registers that rvzr does not use are left out. -/
def isStored : Label → Bool
  | .reg r => (rvzrRegId r).isSome
  | .mem _ => true

/-- The labels that `store_taints` writes, with the values. The file lists them in the order of
`std::set`. -/
def storedLabels (sandboxBase : Nat) (labels : Finset Label) : Finset (Label × Nat) :=
  (labels.filter fun l => isStored l).image fun l => (l, (labelValue sandboxBase l).getD 0)

def isMem : Label → Bool
  | .reg _ => false
  | .mem _ => true

/-- `store_taints`; without a base no address can be stored. -/
def storeTaints : Option (Finset (Label × Nat)) :=
  if t.sandboxBase = 0 ∧ ∃ l ∈ t.taintedLabels, isMem l then none
  else some (storedLabels t.sandboxBase t.taintedLabels)

/-- `finalize`: the tracker, and what is written. -/
def finalize : Option (TaintTracker × Finset (Label × Nat)) := do
  let t := t.settle
  let stored ← t.storeTaints
  return ({ t with enabled := false, trackingInProgress := false }, stored)

/-- A label is written exactly if it has a value. -/
theorem isStored_iff (sandboxBase : Nat) {l : Label} :
    isStored l = true ↔ ∃ v, labelValue sandboxBase l = some v := by
  cases l with
  | reg r => exact Option.isSome_iff_exists
  | mem addr => exact iff_of_true rfl ⟨_, rfl⟩

theorem mem_storedLabels {sandboxBase : Nat} {labels : Finset Label} {l : Label} {v : Nat} :
    (l, v) ∈ storedLabels sandboxBase labels ↔
      l ∈ labels ∧ labelValue sandboxBase l = some v := by
  simp only [storedLabels, Finset.mem_image, Finset.mem_filter, Prod.mk.injEq]
  constructor
  · rintro ⟨l, ⟨hl, hstored⟩, rfl, hv⟩
    obtain ⟨w, hw⟩ := (isStored_iff sandboxBase).mp hstored
    rw [hw, Option.getD_some] at hv
    rw [← hv]
    exact ⟨hl, hw⟩
  · rintro ⟨hl, hv⟩
    exact ⟨l, ⟨hl, (isStored_iff sandboxBase).mpr ⟨v, hv⟩⟩, rfl, by rw [hv, Option.getD_some]⟩

/-- The values in the file are those of the labels that are written. -/
theorem mem_storedValues {sandboxBase : Nat} {labels : List Label} {v : Nat} :
    v ∈ storedValues sandboxBase labels ↔
      ∃ l, (l, v) ∈ storedLabels sandboxBase labels.toFinset := by
  simp only [storedValues, List.mem_filterMap, mem_storedLabels, List.mem_toFinset]

end TaintTracker

end Rvzr.Dynamorio
