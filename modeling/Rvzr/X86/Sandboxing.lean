import Rvzr.Lib.Answers
import Rvzr.X86.Division

/-!
# The sandbox pass

`_X86SandboxPass` (`rvzr/arch/x86/generator.py:314-680`). Every instruction of a block that is
neither instrumentation nor part of a template is first sandboxed for its memory accesses and then
by the kind of its name and category. The pass only inserts directly in front of an instruction or
directly behind it, so a block is rewritten instruction by instruction; each result is kept with the
index of the instruction that it comes from.
-/

namespace Rvzr.X86

open Rvzr.Lib

/-! ### Operands in memory -/

/-- The address and the width of a memory operand. -/
def Operand.mem? : Operand → Option (Address × Nat)
  | .value (.mem address width ..) => some (address, width)
  | _ => none

namespace Instruction

/-- `get_mem_operands(True)`. -/
def memOperands (i : Instruction) : List (Address × Nat) := i.operands.filterMap Operand.mem?

/-- `get_mem_operands(include_explicit=False, include_implicit=True)`. -/
def implicitMemOperands (i : Instruction) : List (Address × Nat) :=
  i.implicitOperands.filterMap Operand.mem?

end Instruction

/-- New addresses for the memory operands of a list, by their position among these. -/
def mapMem (f : Nat → Address → Address) : Nat → List Operand → List Operand
  | _, [] => []
  | n, .value (.mem value width src dest) :: ops =>
    .value (.mem (f n value) width src dest) :: mapMem f (n + 1) ops
  | n, op :: ops => op :: mapMem f n ops

section MapMem

/-- Induction along a list of operands that counts the operands in memory. -/
@[elab_as_elim]
theorem operands_induction {motive : Nat → List Operand → Prop} (nil : ∀ n, motive n [])
    (mem : ∀ n value width src dest ops, motive (n + 1) ops →
      motive n (.value (.mem value width src dest) :: ops))
    (other : ∀ n op ops, op.mem? = none → motive n ops → motive n (op :: ops))
    (n : Nat) (ops : List Operand) : motive n ops := by
  induction ops generalizing n with
  | nil => exact nil n
  | cons op ops ih =>
    cases op with
    | value op =>
      cases op with
      | mem value width src dest => exact mem n value width src dest ops (ih (n + 1))
      | reg => exact other n _ ops rfl (ih n)
      | imm => exact other n _ ops rfl (ih n)
      | label => exact other n _ ops rfl (ih n)
      | agen => exact other n _ ops rfl (ih n)
    | flags => exact other n _ ops rfl (ih n)
    | cond => exact other n _ ops rfl (ih n)

variable (f : Nat → Address → Address) (n : Nat) (ops : List Operand)

theorem mapMem_mem (value : Address) (width : Nat) (src dest : Bool) :
    mapMem f n (.value (.mem value width src dest) :: ops) =
      .value (.mem (f n value) width src dest) :: mapMem f (n + 1) ops := rfl

variable {op : Operand} in
theorem mapMem_cons (h : op.mem? = none) : mapMem f n (op :: ops) = op :: mapMem f n ops := by
  cases op with
  | value op =>
    cases op with
    | mem => simp [Operand.mem?] at h
    | reg => rfl
    | imm => rfl
    | label => rfl
    | agen => rfl
  | flags => rfl
  | cond => rfl

theorem any_isMem_mapMem : (mapMem f n ops).any Operand.isMem = ops.any Operand.isMem := by
  induction n, ops using operands_induction with
  | nil n => rfl
  | mem n value width src dest ops ih => simp [mapMem_mem, Operand.isMem]
  | other n op ops hop ih => rw [mapMem_cons _ _ _ hop, List.any_cons, List.any_cons, ih]

theorem length_mem_mapMem :
    ((mapMem f n ops).filterMap Operand.mem?).length = (ops.filterMap Operand.mem?).length := by
  induction n, ops using operands_induction with
  | nil n => rfl
  | mem n value width src dest ops ih => simpa [mapMem_mem, Operand.mem?] using ih
  | other n op ops hop ih =>
    rw [mapMem_cons _ _ _ hop, List.filterMap_cons_none hop, List.filterMap_cons_none hop, ih]

theorem getElem?_mem_mapMem (k : Nat) :
    ((mapMem f n ops).filterMap Operand.mem?)[k]? =
      (ops.filterMap Operand.mem?)[k]?.map fun op => (f (n + k) op.1, op.2) := by
  induction n, ops using operands_induction generalizing k with
  | nil n => rfl
  | mem n value width src dest ops ih =>
    have hmem : ∀ a, Operand.mem? (.value (.mem a width src dest)) = some (a, width) := fun _ => rfl
    simp only [mapMem_mem, List.filterMap_cons, hmem]
    cases k with
    | zero => simp
    | succ k => simpa [Nat.add_assoc, Nat.add_comm 1 k] using ih k
  | other n op ops hop ih =>
    rw [mapMem_cons _ _ _ hop, List.filterMap_cons_none hop, List.filterMap_cons_none hop]
    exact ih k

theorem mapMem_mapMem (g : Nat → Address → Address) :
    mapMem f n (mapMem g n ops) = mapMem (fun k a => f k (g k a)) n ops := by
  induction n, ops using operands_induction with
  | nil n => rfl
  | mem n value width src dest ops ih => rw [mapMem_mem, mapMem_mem, mapMem_mem, ih]
  | other n op ops hop ih =>
    rw [mapMem_cons _ _ _ hop, mapMem_cons _ _ _ hop, ih, mapMem_cons _ _ _ hop]

/-- Registers among the operands. -/
theorem mem_of_reg_mem_mapMem {r : Reg} {width : Nat} {src dest : Bool}
    (h : .value (.reg r width src dest) ∈ mapMem f n ops) :
    .value (.reg r width src dest) ∈ ops := by
  induction n, ops using operands_induction with
  | nil n => exact h
  | mem n value width' src' dest' ops ih =>
    obtain h | h := List.mem_cons.1 h
    · exact absurd h (by simp)
    · exact List.mem_cons_of_mem _ (ih h)
  | other n op ops hop ih =>
    rw [mapMem_cons _ _ _ hop] at h
    obtain rfl | h := List.mem_cons.1 h
    · exact List.mem_cons_self
    · exact List.mem_cons_of_mem _ (ih h)

variable {f} in
theorem mapMem_id (h : ∀ n a, f n a = a) : mapMem f n ops = ops := by
  induction n, ops using operands_induction with
  | nil n => rfl
  | mem n value width src dest ops ih => rw [mapMem_mem, h, ih]
  | other n op ops hop ih => rw [mapMem_cons _ _ _ hop, ih]

end MapMem

/-! ### Memory accesses -/

structure SandboxConf where
  div : DivConf
  x86GeneratorAlignLocks : Bool

/-- `part in text`. -/
def textContains (text part : String) : Bool := decide (part.toList <:+: text.toList)

/-- A mask with its `n` lowest bits replaced by zeros. -/
def clearLow (n mask : Nat) : Nat := mask / 2 ^ n * 2 ^ n

/-- `sandbox_address_mask`, of the size of MAIN and FAULTY together. -/
def sandboxAddressMask : Nat := 2 ^ 13 - 1

/-- The mask for the accesses of an instruction. -/
def accessMask (conf : SandboxConf) (i : Instruction) : Nat :=
  let mask :=
    if i.memOperands.any fun op => 256 ≤ op.2 then clearLow 5 sandboxAddressMask
    else if i.memOperands.any fun op => 128 ≤ op.2 then clearLow 4 sandboxAddressMask
    else sandboxAddressMask
  if conf.x86GeneratorAlignLocks && (textContains i.name "lock" || i.name = "xchg") then
    clearLow 3 mask
  else mask

def immWidth (width : Nat) : Nat := if width ≤ 32 then width else 32

/-- `apply_mask`. -/
def applyMask (r : Reg) (regWidth mask width : Nat) : Instruction :=
  instrumentation "and" (.reg r regWidth true true) (.imm mask (immWidth width)) [logicFlags .w]

/-- `add_base` and `remove_base`. -/
def moveBase (name : String) (r : Reg) (width : Nat) : Instruction :=
  instrumentation name (.reg r width true true) (.reg ⟨.r14, .q⟩ 64 true false) [logicFlags .w]

/-- The first operand of every address. -/
def uniqOperands : List (Address × Nat) → List (Address × Nat)
  | [] => []
  | op :: ops => op :: (uniqOperands ops).filter fun o => o.1 ≠ op.1

/-- The instructions around an access through an implicit operand; its address has to be a 64-bit
register. -/
def sandboxImplicit (mask : Nat) (op : Address × Nat) : Option (List Instruction × Instruction) :=
  match op.1 with
  | [.reg r] =>
    if r.part = .q then
      some ([applyMask r op.2 mask op.2, moveBase "add" r op.2], moveBase "sub" r op.2)
    else none
  | _ => none

/-- An instruction with what is inserted around it. -/
structure Access where
  before : List Instruction
  node : Instruction
  after : List Instruction

/-- `_sandbox_memory_access`; `none` is an exception. The address of a single explicit operand is
the name of a register. -/
def sandboxMemoryAccess (conf : SandboxConf) (i : Instruction) : Option Access :=
  let mask := accessMask conf i
  if !i.memOperands.isEmpty && i.implicitMemOperands.isEmpty then
    match i.memOperands with
    | [([.reg r], width)] =>
      some ⟨[applyMask r 64 mask width],
        { i with operands := mapMem (fun _ value => .reg ⟨.r14, .q⟩ :: value) 0 i.operands }, []⟩
    | _ => none
  else if i.implicitMemOperands.isEmpty then none
  else
    ((uniqOperands i.implicitMemOperands).mapM (sandboxImplicit mask)).map fun out =>
      ⟨out.flatMap Prod.fst, i, (out.map Prod.snd).reverse⟩

/-! ### The other kinds -/

/-- The draws for one instruction: the offset of a bit test and the leaf of an `enclu`. -/
structure SandboxChoice where
  offset : Fin 8
  leaf : Fin 6

/-- What becomes of an instruction; without `node` it is deleted. -/
structure Sandboxed where
  before : List Instruction
  node : Option Instruction
  after : List Instruction

def Sandboxed.instructions (s : Sandboxed) : List Instruction :=
  s.before ++ s.node.toList ++ s.after

def DivName.ofName (name : String) : Option DivName :=
  if name = "div" then some .div
  else if name = "rex div" then some .rexDiv
  else if name = "idiv" then some .idiv
  else if name = "rex idiv" then some .rexIdiv
  else none

def bitTestNames : List String :=
  ["bt", "btc", "btr", "bts", "lock bt", "lock btc", "lock btr", "lock bts"]

/-- The text of an operand, where it is an address. -/
def ValueOp.text : ValueOp → Address
  | .reg value .. => [.reg value]
  | .mem value .. | .agen value _ => value
  | .imm .. | .label _ => []

/-- `_sandbox_bit_test`. -/
def sandboxBitTest (choice : SandboxChoice) (i : Instruction) : Option Sandboxed :=
  match i.operands with
  | .value (.reg ..) :: _ => some ⟨[], some i, []⟩
  | .value address :: .value (.imm _ width) :: ops =>
    let offset : ValueOp := .imm choice.offset width
    some ⟨[], some { i with operands := .value address :: .value offset :: ops }, []⟩
  | .value address :: .value (.reg offset width src _) :: _ =>
    if address.text ≠ [.reg offset] then
      some ⟨[instrumentation "and" (.reg offset width src true) (.imm 0b111 8) [logicFlags .w]],
        some i, []⟩
    else some ⟨[], none, []⟩
  | _ => none

/-- `_sandbox_repeated_instruction`. -/
def sandboxRepeatedInstruction (i : Instruction) : Sandboxed :=
  let rcx : ValueOp := .reg ⟨.c, .q⟩ 64 true true
  ⟨[instrumentation "and" rcx (.imm 0xff 8) [logicFlags .w],
    instrumentation "add" rcx (.imm 1 1)
      [.flags (.ofList [.w, .w, .w, .w, .w, .blank, .blank, .blank, .w])]], some i, []⟩

/-- `_sandbox_corrupted_cf`. -/
def sandboxCorruptedCf (i : Instruction) : Sandboxed :=
  ⟨[], some i, [⟨"stc", "", true, false, [], [.flags (.ofList [.w])]⟩]⟩

/-- The `options` of `_sandbox_enclu`. -/
def encluLeaf (n : Fin 6) : Int := [0, 1, 4, 5, 6, 7].get n

/-- `_sandbox_enclu`. -/
def sandboxEnclu (choice : SandboxChoice) (i : Instruction) : Sandboxed :=
  ⟨[instrumentation "mov" (.reg ⟨.a, .d⟩ 32 true true) (.imm (encluLeaf choice.leaf) 1) []],
    some i, []⟩

/-- The second entry of the dispatcher that an instruction is collected in, if any. -/
inductive Kind where
  | division (name : DivName)
  | bitTest
  | repeated
  | corruptedCf
  | enclu
  deriving DecidableEq, Repr

def kind (i : Instruction) : Option Kind :=
  match DivName.ofName i.name with
  | some name => some (.division name)
  | none =>
    if i.name ∈ bitTestNames then some .bitTest
    else if textContains i.name "rep" then some .repeated
    else if i.category ∈ ["BASE-ROTATE", "BASE-SHIFT"] then some .corruptedCf
    else if i.name = "enclu" then some .enclu
    else none

/-- The second function that is called on an instruction. -/
def sandboxKind (conf : SandboxConf) (choice : SandboxChoice) (i : Instruction) :
    Option Sandboxed :=
  match kind i with
  | none => some ⟨[], some i, []⟩
  | some (.division name) =>
    match i.operands with
    | .value operand :: _ => (sandboxDivision conf.div name operand).map fun out =>
        ⟨out.before, if out.deleted then none else some i, []⟩
    | _ => none
  | some .bitTest => sandboxBitTest choice i
  | some .repeated => some (sandboxRepeatedInstruction i)
  | some .corruptedCf => some (sandboxCorruptedCf i)
  | some .enclu => some (sandboxEnclu choice i)

/-! ### The pass -/

/-- Both functions on one instruction: the second one inserts between what the first one inserted and
the instruction. -/
def sandboxNode (conf : SandboxConf) (choice : SandboxChoice) (i : Instruction) :
    Option Sandboxed :=
  (if i.hasMemOperand true then sandboxMemoryAccess conf i else some ⟨[], i, []⟩).bind
    fun access => (sandboxKind conf choice access.node).map fun s =>
      ⟨access.before ++ s.before, s.node, s.after ++ access.after⟩

/-- Instructions that are not sandboxed. -/
def Instruction.skipped (i : Instruction) : Bool := i.isInstrumentation || i.isFromTemplate

/-- The instructions of a block from the `n`-th on. -/
def sandboxNodes (conf : SandboxConf) (choice : Nat → SandboxChoice) :
    Nat → List Instruction → Option (List (Nat × Instruction))
  | _, [] => some []
  | n, i :: is =>
    (if i.skipped then some [i] else (sandboxNode conf (choice n) i).map Sandboxed.instructions).bind
      fun group => (sandboxNodes conf choice (n + 1) is).map fun rest =>
        group.map (Prod.mk n) ++ rest

/-- The blocks of a function from the `b`-th on. -/
def sandboxBlocks (conf : SandboxConf) (choice : Nat → Nat → SandboxChoice) :
    Nat → List (List Instruction) → Option (List (List (Nat × Instruction)))
  | _, [] => some []
  | b, bb :: bbs => (sandboxNodes conf (choice b) 0 bb).bind fun nodes =>
      (sandboxBlocks conf choice (b + 1) bbs).map (nodes :: ·)

theorem getElem?_sandboxBlocks {conf : SandboxConf} {choice : Nat → Nat → SandboxChoice}
    {b : Nat} {bbs : List (List Instruction)} {out : List (List (Nat × Instruction))}
    (h : sandboxBlocks conf choice b bbs = some out) {n : Nat} {nodes : List (Nat × Instruction)}
    (hn : out[n]? = some nodes) :
    ∃ bb ∈ bbs, sandboxNodes conf (choice (b + n)) 0 bb = some nodes := by
  induction bbs generalizing b n out with
  | nil =>
    obtain rfl := Option.some.inj h
    simp at hn
  | cons bb bbs ih =>
    obtain ⟨first, hfirst, h⟩ := Option.bind_eq_some_iff.1 h
    obtain ⟨rest, hrest, rfl⟩ := Option.map_eq_some_iff.1 h
    cases n with
    | zero =>
      obtain rfl := Option.some.inj hn
      exact ⟨bb, List.mem_cons_self, hfirst⟩
    | succ n =>
      obtain ⟨bb', hbb', hnodes⟩ := ih hrest hn
      refine ⟨bb', List.mem_cons_of_mem _ hbb', ?_⟩
      rwa [Nat.add_assoc, Nat.add_comm 1 n] at hnodes

/-! ### The instructions around a node -/

section Nodes

variable {conf : SandboxConf} {choice : SandboxChoice} {i : Instruction} {s : Sandboxed}

/-- The two ways to sandbox an access. -/
theorem sandboxMemoryAccess_cases {access : Access}
    (h : sandboxMemoryAccess conf i = some access) :
    (∃ r width, i.memOperands = [([.reg r], width)] ∧ i.implicitMemOperands = [] ∧
      access = ⟨[applyMask r 64 (accessMask conf i) width],
        { i with operands := mapMem (fun _ value => .reg ⟨.r14, .q⟩ :: value) 0 i.operands }, []⟩) ∨
    ∃ out, i.implicitMemOperands ≠ [] ∧
      (uniqOperands i.implicitMemOperands).mapM (sandboxImplicit (accessMask conf i)) = some out ∧
      access = ⟨out.flatMap Prod.fst, i, (out.map Prod.snd).reverse⟩ := by
  rw [sandboxMemoryAccess] at h
  by_cases hexplicit : (!i.memOperands.isEmpty && i.implicitMemOperands.isEmpty) = true
  · rw [if_pos hexplicit] at h
    simp only [Bool.and_eq_true, List.isEmpty_iff] at hexplicit
    split at h
    · rename_i r width hops
      exact .inl ⟨r, width, hops, hexplicit.2, (Option.some.inj h).symm⟩
    · exact absurd h (by simp)
  · rw [if_neg hexplicit] at h
    by_cases himplicit : i.implicitMemOperands.isEmpty = true
    · rw [if_pos himplicit] at h
      exact absurd h (by simp)
    · rw [if_neg himplicit] at h
      obtain ⟨out, hout, rfl⟩ := Option.map_eq_some_iff.1 h
      exact .inr ⟨out, by simpa using himplicit, hout, rfl⟩

theorem sandboxImplicit_cases {mask : Nat} {op : Address × Nat} {out : List Instruction × Instruction}
    (h : sandboxImplicit mask op = some out) :
    ∃ g, op.1 = [.reg ⟨g, .q⟩] ∧
      out = ([applyMask ⟨g, .q⟩ op.2 mask op.2, moveBase "add" ⟨g, .q⟩ op.2],
        moveBase "sub" ⟨g, .q⟩ op.2) := by
  obtain ⟨address, width⟩ := op
  rw [sandboxImplicit] at h
  split at h
  · rename_i r hr
    by_cases hq : r.part = .q
    · rw [if_pos hq] at h
      obtain ⟨g, p⟩ := r
      obtain rfl : p = .q := hq
      exact ⟨g, hr, (Option.some.inj h).symm⟩
    · rw [if_neg hq] at h
      exact absurd h (by simp)
  · exact absurd h (by simp)

theorem sandboxMemoryAccess_instrumentation {access : Access}
    (h : sandboxMemoryAccess conf i = some access) :
    ∀ x ∈ access.before ++ access.after, x.isInstrumentation = true := by
  obtain ⟨r, width, -, -, rfl⟩ | ⟨out, -, hout, rfl⟩ := sandboxMemoryAccess_cases h
  · simp [applyMask, instrumentation]
  · have hall : ∀ group ∈ out, (∀ x ∈ group.1, x.isInstrumentation = true) ∧
        group.2.isInstrumentation = true := by
      intro group hgroup
      obtain ⟨op, -, hop⟩ := mapM_option_mem hout hgroup
      obtain ⟨g, -, rfl⟩ := sandboxImplicit_cases hop
      simp [applyMask, moveBase, instrumentation]
    intro x hx
    simp only [List.mem_append, List.mem_flatMap, List.mem_reverse, List.mem_map] at hx
    obtain ⟨group, hgroup, hx⟩ | ⟨group, hgroup, rfl⟩ := hx
    · exact (hall group hgroup).1 x hx
    · exact (hall group hgroup).2

theorem preventDivByZero_instrumentation {conf : DivConf} {name : DivName} {divisor : ValueOp}
    {is : List Instruction} (h : preventDivByZero conf name divisor = some is) :
    ∀ x ∈ is, x.isInstrumentation = true := by
  rw [preventDivByZero] at h
  split at h
  · obtain rfl := Option.some.inj h
    simp
  · split at h
    · obtain rfl := Option.some.inj h
      simp [instrumentation]
    · obtain ⟨divider, -, rfl⟩ := Option.map_eq_some_iff.1 h
      simp [instrumentation]

theorem preventDivOverflow_instrumentation {name : DivName} {divisor : ValueOp}
    {out : Instrumented} (h : preventDivOverflow name divisor = some out) :
    ∀ x ∈ out.before, x.isInstrumentation = true := by
  simp only [preventDivOverflow] at h
  split at h
  · obtain rfl := Option.some.inj h
    simp
  · split at h
    · obtain rfl := Option.some.inj h
      simp [instrumentation]
    · split at h
      · exact absurd h (by simp)
      · split at h
        · obtain rfl := Option.some.inj h
          simp [instrumentation]
        · obtain rfl := Option.some.inj h
          simp [instrumentation]

/-- The two groups of instructions in front of a division. -/
theorem sandboxDivision_cases {conf : DivConf} {name : DivName} {operand : ValueOp}
    {out : Instrumented} (h : sandboxDivision conf name operand = some out) :
    ∃ divisor, withDest operand = some divisor ∧
      (out.before = [] ∨ ∃ zero, preventDivByZero conf name divisor = some zero ∧
        (out.before = zero ∨ ∃ overflow, preventDivOverflow name divisor = some overflow ∧
          out.before = zero ++ overflow.before)) := by
  rw [sandboxDivision] at h
  cases hdivisor : withDest operand with
  | none => simp [hdivisor] at h
  | some divisor =>
    refine ⟨divisor, rfl, ?_⟩
    simp only [hdivisor] at h
    split at h
    · obtain rfl := Option.some.inj h
      exact .inl rfl
    · obtain ⟨zero, hzero, h⟩ := Option.bind_eq_some_iff.1 h
      refine .inr ⟨zero, hzero, ?_⟩
      split at h
      · obtain rfl := Option.some.inj h
        exact .inl rfl
      · obtain ⟨overflow, hoverflow, rfl⟩ := Option.map_eq_some_iff.1 h
        exact .inr ⟨overflow, hoverflow, rfl⟩

/-- The cases of a bit test in memory. -/
theorem sandboxBitTest_cases (h : sandboxBitTest choice i = some s) :
    s.after = [] ∧
      (s.before = [] ∨ ∃ offset width src dest, .value (.reg offset width src dest) ∈ i.operands ∧
        s.before =
          [instrumentation "and" (.reg offset width src true) (.imm 0b111 8) [logicFlags .w]]) ∧
      ∀ j, s.node = some j →
        j.memOperands = i.memOperands ∧ j.implicitOperands = i.implicitOperands := by
  rw [sandboxBitTest] at h
  split at h
  · obtain rfl := Option.some.inj h
    exact ⟨rfl, .inl rfl, by rintro _ ⟨⟩; exact ⟨rfl, rfl⟩⟩
  · rename_i mask width ops hne hops
    obtain rfl := Option.some.inj h
    refine ⟨rfl, .inl rfl, ?_⟩
    rintro _ ⟨⟩
    simp [Instruction.memOperands, hops, Operand.mem?, List.filterMap_cons]
  · rename_i offset width src dest ops hne hops
    split at h
    · obtain rfl := Option.some.inj h
      exact ⟨rfl, .inr ⟨offset, width, src, dest, by simp [hops], rfl⟩,
        by rintro _ ⟨⟩; exact ⟨rfl, rfl⟩⟩
    · obtain rfl := Option.some.inj h
      exact ⟨rfl, .inl rfl, by rintro _ ⟨⟩⟩
  · exact absurd h (by simp)

/-- A kind of instruction changes neither its memory operands nor its implicit ones. -/
theorem sandboxKind_node {j : Instruction} (h : sandboxKind conf choice i = some s)
    (hj : s.node = some j) :
    j.memOperands = i.memOperands ∧ j.implicitOperands = i.implicitOperands := by
  rw [sandboxKind] at h
  split at h
  · obtain rfl := Option.some.inj h
    cases hj
    exact ⟨rfl, rfl⟩
  · split at h
    · obtain ⟨out, -, rfl⟩ := Option.map_eq_some_iff.1 h
      dsimp only at hj
      split at hj
      · exact absurd hj (by simp)
      · cases hj
        exact ⟨rfl, rfl⟩
    · exact absurd h (by simp)
  · exact (sandboxBitTest_cases h).2.2 j hj
  · obtain rfl := Option.some.inj h
    cases hj
    exact ⟨rfl, rfl⟩
  · obtain rfl := Option.some.inj h
    cases hj
    exact ⟨rfl, rfl⟩
  · obtain rfl := Option.some.inj h
    cases hj
    exact ⟨rfl, rfl⟩

theorem sandboxKind_instrumentation (h : sandboxKind conf choice i = some s) :
    ∀ x ∈ s.before ++ s.after, x.isInstrumentation = true := by
  rw [sandboxKind] at h
  split at h
  · obtain rfl := Option.some.inj h
    simp
  · split at h
    · obtain ⟨out, hout, rfl⟩ := Option.map_eq_some_iff.1 h
      obtain ⟨divisor, -, hnil | ⟨zero, hzero, heq | ⟨overflow, hoverflow, heq⟩⟩⟩ :=
        sandboxDivision_cases hout
      · simp [hnil]
      · simpa [heq] using preventDivByZero_instrumentation hzero
      · intro x hx
        simp only [heq, List.append_nil, List.mem_append] at hx
        obtain hx | hx := hx
        · exact preventDivByZero_instrumentation hzero x hx
        · exact preventDivOverflow_instrumentation hoverflow x hx
    · exact absurd h (by simp)
  · obtain ⟨hafter, hbefore | ⟨offset, width, src, dest, -, hbefore⟩, -⟩ := sandboxBitTest_cases h
    · simp [hafter, hbefore]
    · simp [hafter, hbefore, instrumentation]
  · obtain rfl := Option.some.inj h
    simp [sandboxRepeatedInstruction, instrumentation]
  · obtain rfl := Option.some.inj h
    simp [sandboxCorruptedCf]
  · obtain rfl := Option.some.inj h
    simp [sandboxEnclu, instrumentation]

/-- The two functions on an instruction. -/
theorem sandboxNode_cases (h : sandboxNode conf choice i = some s) :
    ∃ access inner, (access = ⟨[], i, []⟩ ∧ i.hasMemOperand true = false ∨
        sandboxMemoryAccess conf i = some access) ∧
      sandboxKind conf choice access.node = some inner ∧
      s = ⟨access.before ++ inner.before, inner.node, inner.after ++ access.after⟩ := by
  obtain ⟨access, haccess, h⟩ := Option.bind_eq_some_iff.1 h
  obtain ⟨inner, hinner, rfl⟩ := Option.map_eq_some_iff.1 h
  refine ⟨access, inner, ?_, hinner, rfl⟩
  split at haccess
  · exact .inr haccess
  · rename_i hmem
    exact .inl ⟨(Option.some.inj haccess).symm, by simpa using hmem⟩

theorem sandboxNode_instrumentation (h : sandboxNode conf choice i = some s) :
    ∀ x ∈ s.before ++ s.after, x.isInstrumentation = true := by
  obtain ⟨access, inner, haccess, hinner, rfl⟩ := sandboxNode_cases h
  have hkind := sandboxKind_instrumentation hinner
  have hmemory : ∀ x ∈ access.before ++ access.after, x.isInstrumentation = true := by
    obtain ⟨rfl, -⟩ | haccess := haccess
    · simp
    · exact sandboxMemoryAccess_instrumentation haccess
  intro x hx
  simp only [List.mem_append] at hx hkind hmemory
  obtain (hx | hx) | hx | hx := hx
  · exact hmemory x (.inl hx)
  · exact hkind x (.inl hx)
  · exact hkind x (.inr hx)
  · exact hmemory x (.inr hx)

theorem eq_of_append_cons {α : Type} {before after pre post : List α} {x y : α}
    (h : before ++ y :: after = pre ++ x :: post) (hbefore : x ∉ before) (hafter : x ∉ after) :
    pre = before ∧ x = y := by
  obtain ⟨as, hpre, hpost⟩ | ⟨cs, hbefore', hpost⟩ := List.append_eq_append_iff.1 h
  · cases as with
    | nil => exact ⟨by simpa using hpre, (List.cons.inj hpost).1.symm⟩
    | cons a as =>
      obtain ⟨-, hafter'⟩ := List.cons.inj hpost
      exact absurd (by simp [hafter']) hafter
  · cases cs with
    | nil => exact ⟨by simpa using hbefore'.symm, (List.cons.inj hpost).1⟩
    | cons c cs =>
      obtain ⟨rfl, -⟩ := List.cons.inj hpost
      exact absurd (by simp [hbefore']) hbefore

/-- An instruction that is no instrumentation stands behind what was inserted for it, and nothing
else in front of it was. -/
theorem sandboxNodes_split {choice : Nat → SandboxChoice} {n : Nat} {is : List Instruction}
    {out : List (Nat × Instruction)} (h : sandboxNodes conf choice n is = some out)
    {pre post : List (Nat × Instruction)} {t : Nat} {i : Instruction}
    (hout : out = pre ++ (t, i) :: post) (hi : i.skipped = false) :
    n ≤ t ∧ ∃ j ∈ is, j.skipped = false ∧ ∃ s pre', sandboxNode conf (choice t) j = some s ∧
      s.node = some i ∧ pre = pre' ++ s.before.map (Prod.mk t) ∧ ∀ x ∈ pre', x.1 ≠ t := by
  induction is generalizing n out pre with
  | nil =>
    obtain rfl := Option.some.inj h
    simp at hout
  | cons j is ih =>
    obtain ⟨group, hgroup, h⟩ := Option.bind_eq_some_iff.1 h
    obtain ⟨rest, hrest, rfl⟩ := Option.map_eq_some_iff.1 h
    -- the instruction comes from a later node
    have hlater : ∀ as, pre = group.map (Prod.mk n) ++ as → rest = as ++ (t, i) :: post →
        n ≤ t ∧ ∃ j' ∈ j :: is, j'.skipped = false ∧ ∃ s pre',
          sandboxNode conf (choice t) j' = some s ∧ s.node = some i ∧
          pre = pre' ++ s.before.map (Prod.mk t) ∧ ∀ x ∈ pre', x.1 ≠ t := by
      rintro as hpre hrest'
      obtain ⟨hn, j', hj', hskipped, s, pre', hs, hnode, has, hpre'⟩ := ih hrest hrest'
      refine ⟨by omega, j', List.mem_cons_of_mem _ hj', hskipped, s,
        group.map (Prod.mk n) ++ pre', hs, hnode, by rw [hpre, has, List.append_assoc], ?_⟩
      intro x hx
      obtain hx | hx := List.mem_append.1 hx
      · obtain ⟨y, -, rfl⟩ := List.mem_map.1 hx
        exact Nat.ne_of_lt hn
      · exact hpre' x hx
    obtain ⟨as, hpre, hrest'⟩ | ⟨cs, hgroup', hcs⟩ := List.append_eq_append_iff.1 hout
    · exact hlater as hpre hrest'
    cases cs with
    | nil => exact hlater [] (by simpa using hgroup'.symm) (by simpa using hcs.symm)
    | cons c cs =>
      obtain ⟨rfl, -⟩ := List.cons.inj hcs
      have hmem : (t, i) ∈ group.map (Prod.mk n) := by simp [hgroup']
      obtain ⟨i', hi', heq⟩ := List.mem_map.1 hmem
      obtain ⟨rfl, rfl⟩ := Prod.mk.inj heq
      by_cases hskipped : j.skipped = true
      · rw [if_pos hskipped] at hgroup
        obtain rfl := Option.some.inj hgroup
        obtain rfl := List.mem_singleton.1 hi'
        rw [hskipped] at hi
        exact absurd hi (by decide)
      · rw [if_neg hskipped] at hgroup
        obtain ⟨s, hs, rfl⟩ := Option.map_eq_some_iff.1 hgroup
        have hinstrumentation := sandboxNode_instrumentation hs
        have hnot : ∀ x ∈ s.before ++ s.after, x ≠ i' := by
          rintro x hx rfl
          simp [Instruction.skipped, hinstrumentation x hx] at hi
        cases hnode : s.node with
        | none =>
          rw [Sandboxed.instructions, hnode] at hi'
          exact absurd rfl (hnot i' (by simpa using hi'))
        | some j' =>
          have hall : s.before.map (Prod.mk n) ++ (n, j') :: s.after.map (Prod.mk n) =
              pre ++ (n, i') :: cs := by
            rw [← hgroup', Sandboxed.instructions, hnode]
            simp
          have hbefore : (n, i') ∉ s.before.map (Prod.mk n) := by
            intro hx
            obtain ⟨x, hx, hxi⟩ := List.mem_map.1 hx
            exact hnot x (List.mem_append_left _ hx) (Prod.mk.inj hxi).2
          have hafter : (n, i') ∉ s.after.map (Prod.mk n) := by
            intro hx
            obtain ⟨x, hx, hxi⟩ := List.mem_map.1 hx
            exact hnot x (List.mem_append_right _ hx) (Prod.mk.inj hxi).2
          obtain ⟨rfl, hij⟩ := eq_of_append_cons hall hbefore hafter
          obtain ⟨-, rfl⟩ := Prod.mk.inj hij
          exact ⟨Nat.le_refl n, j, List.mem_cons_self, by simpa using hskipped, s, [], hs, hnode,
            rfl, by simp⟩

end Nodes

end Rvzr.X86
