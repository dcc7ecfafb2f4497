import Mathlib.Data.List.Basic

/-!
# Instructions of x86 test cases

Operands, instructions and their specifications (`rvzr/tc_components/instruction.py`,
`rvzr/instruction_spec.py`), with the register names of `rvzr/arch/x86/target_desc.py`. An address
is kept as the terms that its text joins with `+` and `-`.
-/

namespace Rvzr.X86

/-! ### Flags -/

/-- `FlagsOp._flag_names`. -/
inductive Flag where
  | cf | pf | af | zf | sf | tf | if_ | df | of
  deriving DecidableEq, Repr

/-- All flags, in the order of the nine values of an operand. -/
def Flag.all : List Flag := [.cf, .pf, .af, .zf, .sf, .tf, .if_, .df, .of]

theorem Flag.mem_all (f : Flag) : f ∈ Flag.all := by cases f <;> simp [Flag.all]

/-- The value of a flag in an operand; `blank` is the empty text. -/
inductive FlagType where
  | blank | r | w | rw | rcw | cw | undef
  deriving DecidableEq, Repr

/-- `FlagsOp`. -/
structure FlagsOp where
  flagValues : Flag → FlagType

/-- The argument of `get_flags_by_type`. -/
inductive FlagQuery where
  | read | write | overwrite | undef
  deriving DecidableEq, Repr

def FlagQuery.flagTypes : FlagQuery → List FlagType
  | .read => [.r, .rw, .rcw]
  | .write => [.w, .rw, .rcw]
  | .overwrite => [.w]
  | .undef => [.undef]

/-- `FlagsOp.get_flags_by_type`. -/
def FlagsOp.getFlagsByType (op : FlagsOp) (type_ : FlagQuery) : List Flag :=
  Flag.all.filter fun f => op.flagValues f ∈ type_.flagTypes

@[simp] theorem FlagsOp.mem_getFlagsByType {op : FlagsOp} {type_ : FlagQuery} {f : Flag} :
    f ∈ op.getFlagsByType type_ ↔ op.flagValues f ∈ type_.flagTypes := by
  simp [getFlagsByType, Flag.mem_all]

/-- A `FlagsOp` from its nine values. -/
def FlagsOp.ofList (values : List FlagType) : FlagsOp :=
  ⟨fun f => values.getD (Flag.all.idxOf f) .blank⟩

/-! ### Registers and addresses -/

/-- The general-purpose registers of the tables of `X86TargetDesc`. -/
inductive Gpr where
  | a | b | c | d | si | di | sp | bp | r8 | r9 | r10 | r11 | r12 | r13 | r14 | r15
  deriving DecidableEq, Repr

/-- The parts of a register: 64, 32, 16 and 8 bits from bit 0, and 8 bits from bit 8. -/
inductive Part where
  | q | d | w | l | h
  deriving DecidableEq, Repr

/-- A register name: `rax` is `⟨.a, .q⟩` and `ah` is `⟨.a, .h⟩`. -/
structure Reg where
  gpr : Gpr
  part : Part
  deriving DecidableEq, Repr

/-- `X86TargetDesc.register_sizes`. -/
def Reg.width (r : Reg) : Nat :=
  match r.part with
  | .q => 64
  | .d => 32
  | .w => 16
  | .l | .h => 8

/-- One term of the text of an address. -/
inductive Term where
  | reg (r : Reg)
  | plus (n : Int)
  | minus (n : Int)
  deriving DecidableEq, Repr

abbrev Address := List Term

/-! ### Operands -/

/-- The operands other than flags and conditions. -/
inductive ValueOp where
  | reg (value : Reg) (width : Nat) (src dest : Bool)
  | mem (value : Address) (width : Nat) (src dest : Bool)
  | imm (value : Int) (width : Nat)
  | label (value : String)
  | agen (value : Address) (width : Nat)
  deriving DecidableEq, Repr

inductive Operand where
  | value (op : ValueOp)
  | flags (op : FlagsOp)
  | cond (value : String)

def Operand.flagsOp? : Operand → Option FlagsOp
  | .flags op => some op
  | _ => none

def Operand.isMem : Operand → Bool
  | .value (.mem ..) => true
  | _ => false

def Operand.isCond : Operand → Bool
  | .cond _ => true
  | _ => false

/-! ### Instructions -/

/-- `Instruction`. -/
structure Instruction where
  name : String
  category : String
  isInstrumentation : Bool
  isFromTemplate : Bool
  operands : List Operand
  implicitOperands : List Operand

namespace Instruction

/-- `get_flags_operand`: implicit operands first. -/
def getFlagsOperand (i : Instruction) : Option FlagsOp :=
  (i.implicitOperands ++ i.operands).findSome? Operand.flagsOp?

/-- `has_mem_operand`. -/
def hasMemOperand (i : Instruction) (includeImplicit : Bool) : Bool :=
  i.operands.any Operand.isMem || (includeImplicit && i.implicitOperands.any Operand.isMem)

end Instruction

/-- The flags that an instruction reads, writes or leaves undefined. -/
def Instruction.flagsByType (i : Instruction) (type_ : FlagQuery) : List Flag :=
  (i.getFlagsOperand.map fun op => op.getFlagsByType type_).getD []

theorem Instruction.mem_flagsByType {i : Instruction} {type_ : FlagQuery} {f : Flag} :
    f ∈ i.flagsByType type_ ↔
      ∃ op, i.getFlagsOperand = some op ∧ op.flagValues f ∈ type_.flagTypes := by
  rw [flagsByType]
  cases i.getFlagsOperand with
  | none => simp
  | some op => simp

/-! ### Specifications -/

/-- `OperandSpec` by its type: the values of a FLAGS operand, and the types of the others. -/
inductive OperandSpec where
  | flags (values : FlagsOp)
  | cond (values : List String)
  | reg (values : List Reg) (width : Nat) (src dest : Bool)
  | mem (values : List Reg) (width : Nat) (src dest : Bool)
  | imm (values : List Int) (width : Nat)
  | label
  | agen (width : Nat)

def OperandSpec.flagsOp? : OperandSpec → Option FlagsOp
  | .flags values => some values
  | _ => none

/-- `InstructionSpec`. -/
structure InstructionSpec where
  name : String
  category : String
  isControlFlow : Bool
  operands : List OperandSpec
  implicitOperands : List OperandSpec
  hasMemOperand : Bool

end Rvzr.X86
