import Mathlib.Data.Nat.Bitwise
import Rvzr.X86.Machine

/-!
# Division instrumentation

`_X86SandboxPass._sandbox_division` (`rvzr/arch/x86/generator.py:444-609`) on every divisor: a
register of any size and part, or a sandboxed memory operand. The instrumentation is executed on an
arbitrary machine and followed by the conditions under which the division faults
(`sandboxDivision_safe_iff`).
-/

namespace Rvzr.X86

/-! ### The instrumentation -/

/-- The names that the pass sends to `_sandbox_division`. -/
inductive DivName where
  | div | rexDiv | idiv | rexIdiv
  deriving DecidableEq, Repr

/-- `"idiv" in inst.name`. -/
def DivName.isIdiv : DivName → Bool
  | .div | .rexDiv => false
  | .idiv | .rexIdiv => true

/-- The part of `CONF` that the function reads; the blocklist is that of the owner of the block. -/
structure DivConf where
  faultsAllowlist : List String
  actorBlocklist : List String
  x86DisableDiv64 : Bool

namespace DivConf

def enableDivByZero (conf : DivConf) : Bool :=
  conf.faultsAllowlist.contains "div-by-zero" && !conf.actorBlocklist.contains "div-by-zero"

def enableDivOverflow (conf : DivConf) : Bool :=
  conf.faultsAllowlist.contains "div-overflow" && !conf.actorBlocklist.contains "div-overflow"

end DivConf

/-- The flags of `and`, `or` and, up to OF, of `shr`. -/
def logicFlags (ofValue : FlagType) : Operand :=
  .flags (.ofList [.w, .w, .undef, .w, .w, .blank, .blank, .blank, ofValue])

def instrumentation (name : String) (dest src : ValueOp) (flags : List Operand) : Instruction :=
  ⟨name, "", true, false, [.value dest, .value src], flags⟩

def ValueOp.width : ValueOp → Nat
  | .reg _ width .. | .mem _ width .. | .imm _ width | .agen _ width => width
  | .label _ => 0

/-- `copy_op_with_flow_modification(operand, dest=True)` for a register or memory operand; any other
fails the assertion. -/
def withDest : ValueOp → Option ValueOp
  | .reg value width src _ => some (.reg value width src true)
  | .mem value width src _ => some (.mem value width src true)
  | _ => none

/-- `reg_denormalized[reg_normalized[reg]][8]`: the tables know no part of RSP and not RBP, where the
lookup is a `KeyError`, and give RSP itself for its lowest byte. -/
def Reg.eightBit (r : Reg) : Option Reg :=
  match r.gpr with
  | .bp => none
  | .sp => if r.part = .q then some r else none
  | g => some ⟨g, .l⟩

/-- `divider_8_bit`. -/
def divider8Bit : ValueOp → Option ValueOp
  | .reg value _ src dest => value.eightBit.map fun reg8Bit => .reg reg8Bit 8 src dest
  | .mem value _ src dest => some (.mem value 8 src dest)
  | _ => none

/-- The text of the operand contains the name of the 64-bit register. -/
def mentions (g : Gpr) : ValueOp → Bool
  | .reg value .. => value = ⟨g, .q⟩
  | .mem value .. => value.contains (.reg ⟨g, .q⟩)
  | _ => false

/-- `divisor.value in ["rdx", "edx", "dx", "dh", "dl"]`. -/
def isDRegister : ValueOp → Bool
  | .reg value .. => value.gpr = .d
  | _ => false

/-- `d_register`; another size is a `KeyError`. -/
def dRegister (size : Nat) : Option Reg :=
  if size = 64 then some ⟨.d, .q⟩
  else if size = 32 then some ⟨.d, .d⟩
  else if size = 16 then some ⟨.d, .w⟩
  else none

/-- The instructions against a division by zero. -/
def preventDivByZero (conf : DivConf) (name : DivName) (divisor : ValueOp) :
    Option (List Instruction) :=
  if conf.enableDivByZero then some []
  else if !name.isIdiv || conf.enableDivOverflow then
    some [instrumentation "or" divisor (.imm 1 8) [logicFlags .w]]
  else
    (divider8Bit divisor).map fun divider =>
      [instrumentation "or" divisor (.imm 0b1000 8) [logicFlags .w],
        instrumentation "and" divider (.imm 0b11111000 8) [logicFlags .w]]

/-- What the function does: instructions in front of the division, and whether it is deleted. -/
structure Instrumented where
  before : List Instruction
  deleted : Bool

/-- The instructions against an overflow. -/
def preventDivOverflow (name : DivName) (divisor : ValueOp) : Option Instrumented :=
  let size := divisor.width
  if isDRegister divisor || mentions .d divisor || (mentions .a divisor && size = 8) then
    some ⟨[], true⟩
  else if size = 8 then
    some ⟨[instrumentation "mov" (.reg ⟨.a, .w⟩ 16 false true) (.imm 1 16) []], false⟩
  else
    match dRegister size with
    | none => none
    | some r =>
      let d := ValueOp.reg r size true true
      if name.isIdiv then
        some ⟨[instrumentation "and" d (.imm 0b11 8) [logicFlags .w]], false⟩
      else
        some ⟨[instrumentation "and" d divisor [logicFlags .w],
          instrumentation "shr" d (.imm 1 8) [logicFlags .undef]], false⟩

/-- `_sandbox_division` on an instruction with the given name and first operand; `none` is an
exception. -/
def sandboxDivision (conf : DivConf) (name : DivName) (operand : ValueOp) : Option Instrumented :=
  match withDest operand with
  | none => none
  | some divisor =>
    if divisor.width = 64 ∧ conf.x86DisableDiv64 = true then some ⟨[], true⟩
    else
      (preventDivByZero conf name divisor).bind fun zero =>
        if conf.enableDivOverflow then some ⟨zero, false⟩
        else (preventDivOverflow name divisor).map fun out =>
          { out with before := zero ++ out.before }

/-! ### The division -/

/-- The operand sizes of a division. -/
inductive DivSize where
  | b8 | b16 | b32 | b64
  deriving DecidableEq, Repr

def DivSize.bits : DivSize → Nat
  | .b8 => 8
  | .b16 => 16
  | .b32 => 32
  | .b64 => 64

/-- A divisor: a register, or memory at a sandboxed address. -/
inductive Divisor where
  | reg (r : Reg)
  | mem (g : Gpr) (size : DivSize)
  deriving DecidableEq, Repr

def Divisor.size : Divisor → Nat
  | reg r => r.width
  | mem _ size => size.bits

/-- The operand after the memory sandboxing. -/
def Divisor.operand : Divisor → ValueOp
  | reg r => .reg r r.width true false
  | mem g size => .mem [.reg ⟨.r14, .q⟩, .reg ⟨g, .q⟩] size.bits true false

/-- A number of `w` bits as a signed one. -/
def toSigned (w n : Nat) : Int := if 2 * n < 2 ^ w then n else (n : Int) - 2 ^ w

/-- The registers of the upper and the lower half of the dividend. -/
def halves (size : Nat) : Reg × Reg :=
  if size = 16 then (⟨.d, .w⟩, ⟨.a, .w⟩)
  else if size = 32 then (⟨.d, .d⟩, ⟨.a, .d⟩)
  else (⟨.d, .q⟩, ⟨.a, .q⟩)

/-- The dividend of a division: AX for 8 bits, and the pair D:A for the other sizes. -/
def dividend (m : Machine) (size : Nat) : Nat :=
  if size = 8 then m.readReg ⟨.a, .w⟩
  else m.readReg (halves size).1 * 2 ^ size + m.readReg (halves size).2

/-- The quotient fits the destination. -/
def QuotientFits (signed : Bool) (size dividend divisor : Nat) : Prop :=
  if signed then
    -2 ^ (size - 1) ≤ Int.tdiv (toSigned (2 * size) dividend) (toSigned size divisor) ∧
      Int.tdiv (toSigned (2 * size) dividend) (toSigned size divisor) < 2 ^ (size - 1)
  else dividend / divisor < 2 ^ size

/-- A division by this divisor causes no forbidden fault. -/
def NoForbiddenFault (conf : DivConf) (name : DivName) (divisor : Divisor) (m : Machine) : Prop :=
  (conf.enableDivByZero = false → m.read divisor.operand ≠ 0) ∧
    (conf.enableDivOverflow = false → m.read divisor.operand ≠ 0 →
      QuotientFits name.isIdiv divisor.size (dividend m divisor.size) (m.read divisor.operand))

/-- The division causes no forbidden fault behind its instrumentation, unless it is deleted. -/
def DivisionSafe (conf : DivConf) (name : DivName) (divisor : Divisor) (m : Machine) : Prop :=
  ∃ out, sandboxDivision conf name divisor.operand = some out ∧
    (out.deleted = false →
      ∃ m', m.run out.before = some m' ∧ NoForbiddenFault conf name divisor m')

/-! ### Conditions -/

namespace Divisor

/-- The divisor is D or its address uses RDX. -/
def usesD : Divisor → Bool
  | reg r => r.gpr = .d
  | mem g _ => g = .d

/-- The tables of the target know the lowest byte of the divisor. -/
def hasEightBit : Divisor → Bool
  | reg r => r.eightBit.isSome
  | mem .. => true

/-- No instructions of the pass prevent an overflow with this divisor. -/
def unpreventable (b : Divisor) : Bool := b.usesD || b == mem .a .b8

/-- The division is deleted. -/
def deleted (conf : DivConf) (b : Divisor) : Bool :=
  (decide (b.size = 64) && conf.x86DisableDiv64) || (!conf.enableDivOverflow && b.unpreventable)

end Divisor

/-- The quotient of a signed division of `n` bits fits when the upper half `d` of the dividend is
reduced to its two low bits. -/
def MaskedFits (n d a divisor : Nat) : Prop :=
  divisor = 0 ∨ (2 * divisor < 2 ^ n ∧ d % 4 * 2 ^ n + a < divisor * 2 ^ (n - 1)) ∨
    (2 ^ n ≤ 2 * divisor ∧ d % 4 * 2 ^ n + a < (2 ^ n - divisor) * (2 ^ (n - 1) + 1))

/-! ### Operands -/

section Operands

variable {m : Machine} {v : Nat} {b : Divisor}

/-- The operand as the instrumentation writes it. -/
def Divisor.target : Divisor → ValueOp
  | reg r => .reg r r.width true true
  | mem g size => .mem [.reg ⟨.r14, .q⟩, .reg ⟨g, .q⟩] size.bits true true

theorem withDest_operand (b : Divisor) : withDest b.operand = some b.target := by
  cases b <;> rfl

theorem width_target (b : Divisor) : b.target.width = b.size := by cases b <;> rfl

theorem read_target (b : Divisor) (m : Machine) : m.read b.target = m.read b.operand := by
  cases b <;> rfl

theorem isDRegister_or_mentions (b : Divisor) :
    (isDRegister b.target || mentions .d b.target) = b.usesD := by
  cases b with
  | reg r =>
    obtain ⟨g, p⟩ := r
    cases g <;> cases p <;> rfl
  | mem g size => cases g <;> rfl

theorem mentions_a (b : Divisor) :
    (mentions .a b.target && b.size = 8) = (b == .mem .a .b8) := by
  cases b with
  | reg r =>
    obtain ⟨g, p⟩ := r
    cases g <;> cases p <;> rfl
  | mem g size => cases g <;> cases size <;> rfl

/-- The divisor does not depend on the register. -/
def Divisor.Avoids (g : Gpr) : Divisor → Prop
  | reg r => r.gpr ≠ g
  | mem x _ => x ≠ g ∧ g ≠ .r14

theorem readMem_of_mem {m' : Machine} (h : m'.mem = m.mem) (a : BitVec 64) (n : Nat) :
    m'.readMem a n = m.readMem a n := by
  induction n generalizing a with
  | zero => rfl
  | succ n ih => rw [Machine.readMem, Machine.readMem, h, ih]

theorem address_sandboxed (m : Machine) (g : Gpr) :
    m.address [.reg ⟨.r14, .q⟩, .reg ⟨g, .q⟩] =
      BitVec.ofNat 64 (m.readReg ⟨.r14, .q⟩) + BitVec.ofNat 64 (m.readReg ⟨g, .q⟩) := by
  simp [Machine.address]

theorem read_writeReg_of_avoids {r : Reg} (h : b.Avoids r.gpr) :
    (m.writeReg r v).read b.operand = m.read b.operand := by
  cases b with
  | reg r' => exact Machine.readReg_writeReg_of_ne h
  | mem g size =>
    obtain ⟨hg, h14⟩ := h
    have haddress : (m.writeReg r v).address [.reg ⟨.r14, .q⟩, .reg ⟨g, .q⟩] =
        m.address [.reg ⟨.r14, .q⟩, .reg ⟨g, .q⟩] := by
      have h14' : (⟨.r14, .q⟩ : Reg).gpr ≠ r.gpr := Ne.symm h14
      have hg' : (⟨g, .q⟩ : Reg).gpr ≠ r.gpr := hg
      rw [address_sandboxed, address_sandboxed, Machine.readReg_writeReg_of_ne h14',
        Machine.readReg_writeReg_of_ne hg']
    simp only [Divisor.operand, Machine.read, haddress]
    exact readMem_of_mem (Machine.writeReg_mem r) _ _

theorem address_writeMem (a : BitVec 64) (n : Nat) (g : Gpr) :
    (m.writeMem a n v).address [.reg ⟨.r14, .q⟩, .reg ⟨g, .q⟩] =
      m.address [.reg ⟨.r14, .q⟩, .reg ⟨g, .q⟩] := by
  simp only [address_sandboxed, Machine.readReg, Machine.writeMem_gpr]

theorem bits_bytes (size : DivSize) : 8 * (size.bits / 8) = size.bits := by cases size <;> rfl

theorem read_write_target : (m.write b.target v).read b.operand = v % 2 ^ b.size := by
  cases b with
  | reg r => exact Machine.readReg_writeReg r
  | mem g size =>
    have hsize : size.bits / 8 < 2 ^ 64 := by cases size <;> decide
    simp only [Divisor.target, Divisor.operand, Machine.write, Machine.read, address_writeMem,
      Machine.readMem_writeMem hsize, bits_bytes, Divisor.size]

theorem read_operand_lt (m : Machine) (b : Divisor) : m.read b.operand < 2 ^ b.size := by
  cases b with
  | reg r => exact Machine.readReg_lt r
  | mem g size =>
    have h := Machine.readMem_lt (m := m) (m.address [.reg ⟨.r14, .q⟩, .reg ⟨g, .q⟩]) (size.bits / 8)
    rwa [bits_bytes] at h

/-- The divisor is the high byte of a register. -/
def Divisor.isHigh : Divisor → Bool
  | reg r => r.part = .h
  | mem .. => false

/-- The low byte of the divisor behind the mask of `divider_8_bit`. -/
theorem and_divider8Bit {divider : ValueOp} (hb : b.isHigh = false)
    (h : divider8Bit b.target = some divider) :
    (m.write divider (m.read divider &&& 248)).read b.operand % 2 ^ 8 =
      m.read b.operand % 2 ^ 8 &&& 248 := by
  have hle : ∀ x, x % 2 ^ 8 &&& 248 < 2 ^ 8 := fun x =>
    Nat.lt_of_le_of_lt Nat.and_le_left (Nat.mod_lt _ (by decide))
  cases b with
  | reg r =>
    obtain ⟨g, p⟩ := r
    have hp : p ≠ .h := by simpa [Divisor.isHigh] using hb
    obtain ⟨r8, hr8, rfl⟩ := Option.map_eq_some_iff.1 h
    by_cases hsp : g = .sp
    · -- RSP stands for its own lowest byte
      subst hsp
      obtain ⟨rfl, rfl⟩ : p = .q ∧ r8 = ⟨.sp, p⟩ := by
        simpa [Reg.eightBit, eq_comm] using hr8
      have hmod : ∀ x : Nat, (x &&& 248) % 2 ^ 64 % 2 ^ 8 = x % 2 ^ 8 &&& 248 := by
        intro x
        rw [Nat.mod_mod_of_dvd _ (Nat.pow_dvd_pow 2 (by decide)), Nat.and_mod_two_pow]
      have hwrite : (m.writeReg ⟨.sp, .q⟩ (m.readReg ⟨.sp, .q⟩ &&& 248)).readReg ⟨.sp, .q⟩ =
          (m.readReg ⟨.sp, .q⟩ &&& 248) % 2 ^ 64 := Machine.readReg_writeReg _
      simp only [Divisor.operand, Machine.read, Machine.write]
      rw [hwrite, hmod]
    · obtain rfl : r8 = ⟨g, .l⟩ := by
        cases g <;> simp_all [Reg.eightBit]
      have hread := Machine.readReg_low_eq (m := m) (g := g) hp
      have hlt := hle (m.readReg ⟨g, p⟩)
      simp only [Divisor.operand, Machine.read, Machine.write]
      rw [Machine.readReg_writeReg_low hp, hread]
      omega
  | mem g size =>
    obtain rfl := Option.some.inj h
    have hbytes : ∃ n, size.bits / 8 = n + 1 ∧ n + 1 < 2 ^ 64 := by
      cases size
      · exact ⟨0, rfl, by decide⟩
      · exact ⟨1, rfl, by decide⟩
      · exact ⟨3, rfl, by decide⟩
      · exact ⟨7, rfl, by decide⟩
    obtain ⟨n, hn, hlt⟩ := hbytes
    have hbyte := (m.mem (m.address [.reg ⟨.r14, .q⟩, .reg ⟨g, .q⟩])).isLt
    have hread : m.readMem (m.address [.reg ⟨.r14, .q⟩, .reg ⟨g, .q⟩]) 1 =
        m.readMem (m.address [.reg ⟨.r14, .q⟩, .reg ⟨g, .q⟩]) (n + 1) % 2 ^ 8 := by
      simp only [Machine.readMem]
      omega
    have hmask := hle (m.readMem (m.address [.reg ⟨.r14, .q⟩, .reg ⟨g, .q⟩]) (n + 1))
    simp only [Divisor.operand, Machine.write, Machine.read, address_writeMem, hn]
    rw [Machine.readMem_writeMem_one hlt, hread]
    omega

/-- The high byte of a register is no part of `divider_8_bit`. -/
theorem read_write_divider8Bit_high {divider : ValueOp} (hb : b.isHigh = true)
    (h : divider8Bit b.target = some divider) :
    (m.write divider v).read b.operand = m.read b.operand := by
  cases b with
  | reg r =>
    obtain ⟨g, p⟩ := r
    obtain rfl : p = .h := by simpa [Divisor.isHigh] using hb
    obtain ⟨r8, hr8, rfl⟩ := Option.map_eq_some_iff.1 h
    obtain rfl : r8 = ⟨g, .l⟩ := by cases g <;> simp_all [Reg.eightBit]
    exact Machine.readReg_high_writeReg_low
  | mem g size => exact absurd hb (by simp [Divisor.isHigh])

end Operands

/-! ### Running the instrumentation -/

section Run

variable {m : Machine} {b : Divisor} {conf : DivConf} {name : DivName}

theorem run_cons (i : Instruction) (is : List Instruction) :
    m.run (i :: is) = (m.execute i).bind fun m' => m'.run is := rfl

theorem run_nil : m.run [] = some m := rfl

theorem run_append (is is' : List Instruction) :
    m.run (is ++ is') = (m.run is).bind fun m' => m'.run is' := by
  rw [Machine.run, List.foldlM_append]
  rfl

section Execute

variable (dest src : ValueOp) (flags : List Operand)

theorem execute_or : m.execute (instrumentation "or" dest src flags) =
    some (m.write dest (m.read dest ||| m.read src)) := by
  simp [Machine.execute, instrumentation]

theorem execute_and : m.execute (instrumentation "and" dest src flags) =
    some (m.write dest (m.read dest &&& m.read src)) := by
  simp [Machine.execute, instrumentation]

theorem execute_add : m.execute (instrumentation "add" dest src flags) =
    some (m.write dest (m.read dest + m.read src)) := by
  simp [Machine.execute, instrumentation]

theorem execute_shr : m.execute (instrumentation "shr" dest src flags) =
    some (m.write dest (m.read dest >>> m.read src)) := by
  simp [Machine.execute, instrumentation]

theorem execute_mov : m.execute (instrumentation "mov" dest src flags) =
    some (m.write dest (m.read src)) := by
  simp [Machine.execute, instrumentation]

end Execute

/-- A set bit stays set when the value is stored. -/
theorem or_mod_ne_zero {n x : Nat} (bit : Nat) (hbit : bit < n) : (x ||| 2 ^ bit) % 2 ^ n ≠ 0 := by
  intro h
  have htest := congrArg (fun y => y.testBit bit) h
  simp [hbit, Nat.testBit_mod_two_pow] at htest

/-- Bits 0 to 3 of a value with bit 3 set and the bits below cleared. -/
theorem low_bits (x : Nat) : ((x ||| 8) % 2 ^ 8 &&& 248) % 16 = 8 := by
  have hall : ∀ y < 256, ((y ||| 8) &&& 248) % 16 = 8 := by decide +kernel
  have hmod : (x ||| 8) % 2 ^ 8 = x % 2 ^ 8 ||| 8 := by
    rw [Nat.or_mod_two_pow]
  rw [hmod]
  exact hall _ (Nat.mod_lt _ (by decide))

theorem size_ge (b : Divisor) : 8 ≤ b.size := by
  cases b with
  | reg r =>
    obtain ⟨g, p⟩ := r
    cases p <;> simp [Divisor.size, Reg.width]
  | mem g size => cases size <;> simp [Divisor.size, DivSize.bits]

theorem divider8Bit_isSome (b : Divisor) : (divider8Bit b.target).isSome = b.hasEightBit := by
  cases b with
  | reg r => simp [Divisor.target, divider8Bit, Divisor.hasEightBit]
  | mem g size => rfl

/-- Without an 8-bit name for a signed divisor there is an exception. -/
theorem preventDivByZero_eq_none (hzero : conf.enableDivByZero = false)
    (hoverflow : conf.enableDivOverflow = false) (hidiv : name.isIdiv = true)
    (h : b.hasEightBit = false) : preventDivByZero conf name b.target = none := by
  rw [← divider8Bit_isSome, Option.isSome_eq_false_iff, Option.isNone_iff_eq_none] at h
  simp [preventDivByZero, hzero, hoverflow, hidiv, h]

/-- Behind the instructions against a division by zero the divisor is not zero; a signed one that
must not overflow is a multiple of eight, unless it is a high byte. -/
theorem preventDivByZero_run (m : Machine) (b : Divisor) (conf : DivConf) (name : DivName)
    (h : conf.enableDivByZero = false → conf.enableDivOverflow = false → name.isIdiv = true →
      b.hasEightBit = true) :
    ∃ is m', preventDivByZero conf name b.target = some is ∧ m.run is = some m' ∧
      (conf.enableDivByZero = true → m' = m) ∧
      (conf.enableDivByZero = false → m'.read b.operand ≠ 0) ∧
      (conf.enableDivByZero = false → name.isIdiv = true → conf.enableDivOverflow = false →
        b.isHigh = false → m'.read b.operand % 16 = 8) := by
  rw [preventDivByZero]
  have hsize := size_ge b
  cases hzero : conf.enableDivByZero with
  | true => exact ⟨[], m, rfl, rfl, by simp⟩
  | false =>
    rw [if_neg (by simp)]
    by_cases hor : (!name.isIdiv || conf.enableDivOverflow) = true
    · rw [if_pos hor]
      have himm : m.read (.imm 1 8) = 1 := rfl
      refine ⟨_, m.write b.target (m.read b.target ||| 1), rfl, ?_, by simp, fun _ => ?_,
        fun _ hidiv hoverflow => ?_⟩
      · rw [run_cons, execute_or, himm, Option.bind_some, run_nil]
      · rw [read_write_target]
        exact or_mod_ne_zero 0 (by omega)
      · simp [hidiv, hoverflow] at hor
    · have hsome : (divider8Bit b.target).isSome = true := by
        rw [divider8Bit_isSome]
        simp only [Bool.or_eq_true, Bool.not_eq_true', not_or, Bool.not_eq_false,
          Bool.not_eq_true] at hor
        exact h hzero hor.2 hor.1
      obtain ⟨divider, hdivider⟩ := Option.isSome_iff_exists.1 hsome
      have hlow : b.isHigh = false → ((m.write b.target (m.read b.target ||| 8)).write
          divider ((m.write b.target (m.read b.target ||| 8)).read divider &&& 248)).read
            b.operand % 16 = 8 := by
        intro hhigh
        have hval : (m.write b.target (m.read b.target ||| 8)).read b.operand % 2 ^ 8 =
            (m.read b.target ||| 8) % 2 ^ 8 := by
          rw [read_write_target, Nat.mod_mod_of_dvd _ (Nat.pow_dvd_pow 2 hsize)]
        have hand := and_divider8Bit (m := m.write b.target (m.read b.target ||| 8)) hhigh hdivider
        rw [hval] at hand
        have hbits := low_bits (m.read b.target)
        omega
      have himm : ∀ m : Machine, m.read (.imm 0b11111000 8) = 248 := fun _ => rfl
      have himm8 : m.read (.imm 0b1000 8) = 8 := rfl
      rw [if_neg hor, hdivider]
      refine ⟨_, (m.write b.target (m.read b.target ||| 8)).write divider
        ((m.write b.target (m.read b.target ||| 8)).read divider &&& 248), rfl, ?_, by simp,
        fun _ => ?_, fun _ _ _ hhigh => hlow hhigh⟩
      · rw [run_cons, execute_or, himm8, Option.bind_some, run_cons, execute_and, himm,
          Option.bind_some, run_nil]
      · cases hhigh : b.isHigh with
        | false =>
          have h16 := hlow hhigh
          intro hnil
          rw [hnil] at h16
          exact absurd h16 (by decide)
        | true =>
          rw [read_write_divider8Bit_high hhigh hdivider, read_write_target]
          exact or_mod_ne_zero 3 (by omega)

/-- `d_register` with the size of the division. -/
def upperHalf (size : Nat) : ValueOp := .reg (halves size).1 size true true

theorem preventDivOverflow_eq (name : DivName) (b : Divisor) :
    preventDivOverflow name b.target =
      if b.unpreventable then some ⟨[], true⟩
      else if b.size = 8 then
        some ⟨[instrumentation "mov" (.reg ⟨.a, .w⟩ 16 false true) (.imm 1 16) []], false⟩
      else if name.isIdiv then
        some ⟨[instrumentation "and" (upperHalf b.size) (.imm 0b11 8) [logicFlags .w]], false⟩
      else
        some ⟨[instrumentation "and" (upperHalf b.size) b.target [logicFlags .w],
          instrumentation "shr" (upperHalf b.size) (.imm 1 8) [logicFlags .undef]], false⟩ := by
  have hd : b.size ≠ 8 → dRegister b.size = some (halves b.size).1 := by
    cases b with
    | reg r =>
      obtain ⟨g, p⟩ := r
      cases p <;> simp [Divisor.size, Reg.width, dRegister, halves]
    | mem g size => cases size <;> simp [Divisor.size, DivSize.bits, dRegister, halves]
  rw [preventDivOverflow, width_target, isDRegister_or_mentions, mentions_a]
  change (if b.unpreventable = true then _ else _) = _
  by_cases hsize : b.size = 8
  · simp only [if_pos hsize]
  · simp only [if_neg hsize, hd hsize, upperHalf]

/-! ### Faults behind the instructions against an overflow -/

theorem avoids_d (h : b.unpreventable = false) : b.Avoids .d := by
  cases b with
  | reg r => simpa [Divisor.unpreventable, Divisor.usesD, Divisor.Avoids] using h
  | mem g size =>
    simp only [Divisor.unpreventable, Divisor.usesD, Bool.or_eq_false_iff,
      decide_eq_false_iff_not] at h
    exact ⟨h.1, by decide⟩

/-- A divisor of 8 bits behind `mov ax, 1`. -/
theorem read_writeReg_ax (hsize : b.size = 8) (h : b.unpreventable = false) :
    (m.writeReg ⟨.a, .w⟩ 1).read b.operand =
      if b = .reg ⟨.a, .h⟩ then 0 else if b = .reg ⟨.a, .l⟩ then 1 else m.read b.operand := by
  have hlt := (m.gpr .a).isLt
  cases b with
  | reg r =>
    obtain ⟨g, p⟩ := r
    by_cases hg : g = .a
    · subst hg
      cases p with
      | q => exact absurd hsize (by decide)
      | d => exact absurd hsize (by decide)
      | w => exact absurd hsize (by decide)
      | l =>
        simp only [Divisor.operand, Machine.read, Machine.readReg, Machine.writeReg,
          Machine.updated, if_true, BitVec.toNat_ofNat, Part.offset, Reg.width]
        rw [if_neg (by simp)]
        omega
      | h =>
        simp only [Divisor.operand, Machine.read, Machine.readReg, Machine.writeReg,
          Machine.updated, if_true, BitVec.toNat_ofNat, Part.offset, Reg.width]
        omega
    · have havoid : (Divisor.reg ⟨g, p⟩).Avoids .a := hg
      rw [read_writeReg_of_avoids havoid, if_neg (by simp [hg]), if_neg (by simp [hg])]
  | mem g size =>
    have hsize' : size = .b8 := by
      cases size <;> simp [Divisor.size, DivSize.bits] at hsize ⊢
    subst hsize'
    have hg : g ≠ .a := by
      rintro rfl
      exact absurd h (by decide)
    have havoid : (Divisor.mem g .b8).Avoids .a := ⟨hg, by decide⟩
    rw [read_writeReg_of_avoids havoid, if_neg (by simp), if_neg (by simp)]

/-- The quotient of 1 by a divisor of 8 bits. -/
theorem quotientFits_one (signed : Bool) {d : Nat} (hd : d < 2 ^ 8) :
    QuotientFits signed 8 1 d := by
  have hall : ∀ d < 256, -128 ≤ Int.tdiv 1 (toSigned 8 d) ∧ Int.tdiv 1 (toSigned 8 d) < 128 := by
    decide +kernel
  cases signed with
  | true =>
    have hone : toSigned (2 * 8) 1 = 1 := by decide
    simp only [QuotientFits, if_true, hone]
    exact hall d hd
  | false =>
    simp only [QuotientFits, Bool.false_eq_true, if_false]
    exact Nat.lt_of_le_of_lt (Nat.div_le_self 1 d) (by decide)

theorem noForbiddenFault_byte (hsize : b.size = 8) (h : b.unpreventable = false)
    (hzero : conf.enableDivByZero = false → m.read b.operand ≠ 0) :
    NoForbiddenFault conf name b (m.writeReg ⟨.a, .w⟩ 1) ↔
      ¬(b = .reg ⟨.a, .h⟩ ∧ conf.enableDivByZero = false) := by
  have hread := read_writeReg_ax (m := m) hsize h
  have hax : dividend (m.writeReg ⟨.a, .w⟩ 1) 8 = 1 := by
    rw [dividend, if_pos rfl, Machine.readReg_writeReg]
    rfl
  have hfits : QuotientFits name.isIdiv b.size (dividend (m.writeReg ⟨.a, .w⟩ 1) b.size)
      ((m.writeReg ⟨.a, .w⟩ 1).read b.operand) := by
    have hlt := read_operand_lt (m.writeReg ⟨.a, .w⟩ 1) b
    rw [hsize] at hlt ⊢
    rw [hax]
    exact quotientFits_one _ hlt
  constructor
  · rintro ⟨hne, -⟩ ⟨rfl, hconf⟩
    exact hne hconf (by rw [hread, if_pos rfl])
  · refine fun hah => ⟨fun hconf => ?_, fun _ _ => hfits⟩
    rw [hread, if_neg fun hb => hah ⟨hb, hconf⟩]
    split
    · decide
    · exact hzero hconf

/-- The sizes of the divisions that use D. -/
theorem size_cases (b : Divisor) : b.size = 8 ∨ b.size = 16 ∨ b.size = 32 ∨ b.size = 64 := by
  cases b with
  | reg r =>
    obtain ⟨g, p⟩ := r
    cases p <;> simp [Divisor.size, Reg.width]
  | mem g size => cases size <;> simp [Divisor.size, DivSize.bits]

theorem halves_gpr (size : Nat) : (halves size).1.gpr = .d ∧ (halves size).2.gpr = .a := by
  rw [halves]
  split
  · exact ⟨rfl, rfl⟩
  · split <;> exact ⟨rfl, rfl⟩

theorem halves_width (hsize : b.size ≠ 8) :
    (halves b.size).1.width = b.size ∧ (halves b.size).2.width = b.size := by
  obtain h | h | h | h := size_cases b
  · exact absurd h hsize
  · rw [h]; exact ⟨rfl, rfl⟩
  · rw [h]; exact ⟨rfl, rfl⟩
  · rw [h]; exact ⟨rfl, rfl⟩

theorem read_upperHalf (size : Nat) (m : Machine) :
    m.read (upperHalf size) = m.readReg (halves size).1 := rfl

theorem write_upperHalf (size : Nat) (m : Machine) (v : Nat) :
    m.write (upperHalf size) v = m.writeReg (halves size).1 v := rfl

/-- The dividend behind a write to its upper half. -/
theorem dividend_writeReg (hsize : b.size ≠ 8) (m : Machine) (v : Nat) :
    dividend (m.writeReg (halves b.size).1 v) b.size =
      v % 2 ^ b.size * 2 ^ b.size + m.readReg (halves b.size).2 := by
  obtain ⟨hd, ha⟩ := halves_gpr b.size
  have hne : (halves b.size).2.gpr ≠ (halves b.size).1.gpr := by
    rw [hd, ha]
    decide
  rw [dividend, if_neg hsize, Machine.readReg_writeReg, Machine.readReg_writeReg_of_ne hne,
    (halves_width hsize).1]

/-- The unsigned quotient fits when the upper half of the dividend is less than the divisor. -/
theorem div_lt_of_high_lt {n d a x : Nat} (hd : d < x) (ha : a < 2 ^ n) :
    (d * 2 ^ n + a) / x < 2 ^ n := by
  rw [Nat.div_lt_iff_lt_mul (by omega)]
  calc d * 2 ^ n + a < (d + 1) * 2 ^ n := by rw [Nat.add_mul]; omega
    _ ≤ x * 2 ^ n := Nat.mul_le_mul_right _ hd
    _ = 2 ^ n * x := Nat.mul_comm _ _

theorem noForbiddenFault_unsigned (hsize : b.size ≠ 8) (h : b.unpreventable = false)
    (hidiv : name.isIdiv = false)
    (hzero : conf.enableDivByZero = false → m.read b.operand ≠ 0) :
    ∃ m', m.run [instrumentation "and" (upperHalf b.size) b.target [logicFlags .w],
        instrumentation "shr" (upperHalf b.size) (.imm 1 8) [logicFlags .undef]] = some m' ∧
      NoForbiddenFault conf name b m' := by
  obtain ⟨hd, ha⟩ := halves_gpr b.size
  have havoid : b.Avoids (halves b.size).1.gpr := by
    rw [hd]
    exact avoids_d h
  have hone : ∀ m : Machine, m.read (.imm 1 8) = 1 := fun _ => rfl
  rw [run_cons, execute_and, Option.bind_some, run_cons, execute_shr, Option.bind_some, run_nil]
  refine ⟨_, rfl, ?_⟩
  simp only [hone, read_upperHalf, write_upperHalf, read_target, Machine.readReg_writeReg,
    (halves_width hsize).1]
  have hmasked : m.readReg (halves b.size).1 &&& m.read b.operand ≤ m.read b.operand :=
    Nat.and_le_right
  generalize m.readReg (halves b.size).1 &&& m.read b.operand = masked at *
  have hread : ∀ v, ((m.writeReg (halves b.size).1 masked).writeReg (halves b.size).1 v).read
      b.operand = m.read b.operand := by
    intro v
    rw [read_writeReg_of_avoids havoid, read_writeReg_of_avoids havoid]
  refine ⟨fun hconf => ?_, fun _ hne => ?_⟩
  · rw [hread]
    exact hzero hconf
  · rw [hread] at hne ⊢
    rw [dividend_writeReg hsize, QuotientFits, hidiv, if_neg (by simp)]
    refine div_lt_of_high_lt ?_ ?_
    · calc (masked % 2 ^ b.size) >>> 1 % 2 ^ b.size
          ≤ (masked % 2 ^ b.size) >>> 1 := Nat.mod_le _ _
        _ = (masked % 2 ^ b.size) / 2 := rfl
        _ ≤ masked / 2 := Nat.div_le_div_right (Nat.mod_le _ _)
        _ < m.read b.operand := by omega
    · have hlt := (m.writeReg (halves b.size).1 masked).readReg_lt (halves b.size).2
      rwa [(halves_width hsize).2] at hlt

/-- The quotient of a signed division by a positive divisor. -/
theorem tdiv_fits_pos {k x bound : Nat} (hx : 0 < x) :
    (-(bound : Int) ≤ Int.tdiv k x ∧ Int.tdiv k x < bound) ↔ k < x * bound := by
  rw [← Int.ofNat_tdiv, Nat.mul_comm, ← Nat.div_lt_iff_lt_mul hx]
  generalize k / x = q
  omega

/-- The quotient of a signed division by a negative divisor. -/
theorem tdiv_fits_neg {k x bound : Nat} (hx : 0 < x) (hbound : 0 < bound) :
    (-(bound : Int) ≤ Int.tdiv k (-(x : Int)) ∧ Int.tdiv k (-(x : Int)) < bound) ↔
      k < x * (bound + 1) := by
  rw [Int.tdiv_neg, ← Int.ofNat_tdiv, Nat.mul_comm, ← Nat.div_lt_iff_lt_mul hx]
  generalize k / x = q
  omega

/-- A dividend whose upper half is reduced to its two low bits is not negative. -/
theorem toSigned_masked {n d a : Nat} (hn : 3 ≤ n) (ha : a < 2 ^ n) :
    toSigned (2 * n) (d % 4 * 2 ^ n + a) = ((d % 4 * 2 ^ n + a : Nat) : Int) := by
  have hpow : 2 ^ 3 ≤ 2 ^ n := Nat.pow_le_pow_right (by decide) hn
  have hlt : d % 4 * 2 ^ n + a < 4 * 2 ^ n := by
    have hmul : d % 4 * 2 ^ n ≤ 3 * 2 ^ n := Nat.mul_le_mul_right _ (by omega)
    omega
  have hsquare : 2 ^ 3 * 2 ^ n ≤ 2 ^ (2 * n) := by
    rw [Nat.two_mul, Nat.pow_add]
    exact Nat.mul_le_mul_right _ hpow
  rw [toSigned, if_pos (by omega)]

theorem quotientFits_masked {n d a x : Nat} (hn : 3 ≤ n) (ha : a < 2 ^ n) (hx : x < 2 ^ n)
    (hne : x ≠ 0) :
    QuotientFits true n (d % 4 * 2 ^ n + a) x ↔ MaskedFits n d a x := by
  have hbound : ((2 : Int) ^ (n - 1)) = ((2 ^ (n - 1) : Nat) : Int) := by push_cast; rfl
  rw [QuotientFits, if_pos rfl, toSigned_masked hn ha, hbound, MaskedFits]
  by_cases hpos : 2 * x < 2 ^ n
  · rw [toSigned, if_pos hpos, tdiv_fits_pos (by omega)]
    omega
  · have hneg : toSigned n x = -((2 ^ n - x : Nat) : Int) := by
      rw [toSigned, if_neg hpos, Nat.cast_sub hx.le]
      push_cast
      omega
    rw [hneg, tdiv_fits_neg (by omega) (Nat.two_pow_pos _)]
    omega

/-- A divisor that is an odd multiple of eight is large enough. -/
theorem maskedFits_of_mod {n d a x : Nat} (hn : 4 ≤ n) (ha : a < 2 ^ n) (hx : x < 2 ^ n)
    (hmod : x % 16 = 8) : MaskedFits n d a x := by
  obtain ⟨k, rfl⟩ : ∃ k, n = k + 4 := ⟨n - 4, by omega⟩
  have hhalf : (2 : Nat) ^ (k + 4) = 2 * 2 ^ (k + 4 - 1) := by
    rw [← Nat.pow_succ']
    rfl
  have h16 : (2 : Nat) ^ (k + 4) = 16 * 2 ^ k := by rw [Nat.pow_add]; omega
  have hlt : d % 4 * 2 ^ (k + 4) + a < 8 * 2 ^ (k + 4 - 1) := by
    have hmul : d % 4 * 2 ^ (k + 4) ≤ 3 * 2 ^ (k + 4) := Nat.mul_le_mul_right _ (by omega)
    omega
  by_cases hpos : 2 * x < 2 ^ (k + 4)
  · refine .inr (.inl ⟨hpos, ?_⟩)
    calc _ < 8 * 2 ^ (k + 4 - 1) := hlt
      _ ≤ x * 2 ^ (k + 4 - 1) := Nat.mul_le_mul_right _ (by omega)
  · refine .inr (.inr ⟨by omega, ?_⟩)
    calc _ < 8 * 2 ^ (k + 4 - 1) := hlt
      _ ≤ (2 ^ (k + 4) - x) * 2 ^ (k + 4 - 1) := Nat.mul_le_mul_right _ (by omega)
      _ ≤ (2 ^ (k + 4) - x) * (2 ^ (k + 4 - 1) + 1) := Nat.mul_le_mul_left _ (by omega)

theorem noForbiddenFault_signed (hsize : b.size ≠ 8) (h : b.unpreventable = false)
    (hidiv : name.isIdiv = true) (hoverflow : conf.enableDivOverflow = false)
    (hzero : conf.enableDivByZero = false → m.read b.operand ≠ 0) :
    ∃ m', m.run [instrumentation "and" (upperHalf b.size) (.imm 0b11 8) [logicFlags .w]] =
        some m' ∧
      (NoForbiddenFault conf name b m' ↔
        MaskedFits b.size (m.readReg (halves b.size).1) (m.readReg (halves b.size).2)
          (m.read b.operand)) := by
  have havoid : b.Avoids (halves b.size).1.gpr := by
    rw [(halves_gpr b.size).1]
    exact avoids_d h
  have hthree : m.read (.imm 0b11 8) = 3 := rfl
  have hn : 4 ≤ b.size := by
    have := size_ge b
    omega
  have ha : m.readReg (halves b.size).2 < 2 ^ b.size := by
    have hlt := m.readReg_lt (halves b.size).2
    rwa [(halves_width hsize).2] at hlt
  have hmask : (m.readReg (halves b.size).1 &&& 3) % 2 ^ b.size =
      m.readReg (halves b.size).1 % 4 := by
    have hpow : 2 ^ 4 ≤ 2 ^ b.size := Nat.pow_le_pow_right (by decide) hn
    have hand : m.readReg (halves b.size).1 &&& 3 = m.readReg (halves b.size).1 % 4 :=
      Nat.and_two_pow_sub_one_eq_mod _ 2
    rw [hand]
    exact Nat.mod_eq_of_lt (by omega)
  rw [run_cons, execute_and, Option.bind_some, run_nil, write_upperHalf, read_upperHalf, hthree]
  refine ⟨_, rfl, ?_⟩
  rw [NoForbiddenFault, read_writeReg_of_avoids havoid, dividend_writeReg hsize, hmask, hidiv]
  by_cases hne : m.read b.operand = 0
  · have hallowed : conf.enableDivByZero ≠ false := fun hconf => hzero hconf hne
    simp [hne, hallowed, MaskedFits]
  · rw [← quotientFits_masked (by omega) ha (read_operand_lt m b) hne]
    exact ⟨fun hsafe => hsafe.2 hoverflow hne, fun hfits => ⟨fun _ => hne, fun _ _ => hfits⟩⟩

end Run

/-! ### Safety -/

theorem isHigh_eq_false {b : Divisor} (hsize : b.size ≠ 8) : b.isHigh = false := by
  cases b with
  | reg r =>
    obtain ⟨g, p⟩ := r
    cases p with
    | h => exact absurd rfl hsize
    | q => rfl
    | d => rfl
    | w => rfl
    | l => rfl
  | mem g size => rfl

/-- A condition on the machine behind both groups of instructions. -/
theorem exists_run_append {m m₁ m₂ : Machine} {zero overflow : List Instruction}
    (hrun : m.run zero = some m₁) (hrest : m₁.run overflow = some m₂) (P : Machine → Prop) :
    (∃ out, (some (⟨overflow, false⟩ : Instrumented)).map
        (fun out => { out with before := zero ++ out.before }) = some out ∧
      (out.deleted = false → ∃ m', m.run out.before = some m' ∧ P m')) ↔ P m₂ := by
  have hall : m.run (zero ++ overflow) = some m₂ := by rw [run_append, hrun, Option.bind_some, hrest]
  constructor
  · rintro ⟨out, hout, hsafe⟩
    obtain rfl := Option.some.inj hout
    obtain ⟨m', hm', hP⟩ := hsafe rfl
    rwa [← Option.some.inj (hall.symm.trans hm')] at hP
  · exact fun hP => ⟨_, rfl, fun _ => ⟨m₂, hall, hP⟩⟩

/-- The division causes no forbidden fault except in three cases: `mov ax, 1` clears a divisor in AH;
a signed divisor without an 8-bit name is an exception when no fault is enabled; and the two bits that
are left of D are too much for a small signed divisor when only the instructions against an overflow
are inserted. -/
theorem sandboxDivision_safe_iff (conf : DivConf) (name : DivName) (b : Divisor) (m : Machine) :
    DivisionSafe conf name b m ↔
      ¬(b = .reg ⟨.a, .h⟩ ∧ conf.enableDivByZero = false ∧ conf.enableDivOverflow = false) ∧
      (name.isIdiv = true → conf.enableDivOverflow = false → b.deleted conf = false →
        if conf.enableDivByZero then
          b.size ≠ 8 → MaskedFits b.size (m.readReg (halves b.size).1)
            (m.readReg (halves b.size).2) (m.read b.operand)
        else b.hasEightBit = true) := by
  rw [DivisionSafe, sandboxDivision, withDest_operand]
  simp only [width_target]
  by_cases hdisabled : b.size = 64 ∧ conf.x86DisableDiv64 = true
  · -- disabled by the configuration
    have hdeleted : b.deleted conf = true := by simp [Divisor.deleted, hdisabled]
    have hah : b ≠ .reg ⟨.a, .h⟩ := by
      rintro rfl
      exact absurd hdisabled.1 (by decide)
    rw [if_pos hdisabled]
    simp [hdeleted, hah]
  rw [if_neg hdisabled]
  by_cases hnamed : conf.enableDivByZero = false → conf.enableDivOverflow = false →
      name.isIdiv = true → b.hasEightBit = true
  · obtain ⟨zero, m₁, hzeros, hrun, hkept, hzero, hmod⟩ := preventDivByZero_run m b conf name hnamed
    rw [hzeros, Option.bind_some]
    cases hoverflow : conf.enableDivOverflow with
    | true =>
      refine iff_of_true ⟨_, rfl, fun _ => ⟨m₁, hrun, hzero, ?_⟩⟩ ?_
      · simp [hoverflow]
      · simp
    | false =>
      rw [if_neg (by simp), preventDivOverflow_eq]
      cases hunpreventable : b.unpreventable with
      | true =>
        have hdeleted : b.deleted conf = true := by
          simp [Divisor.deleted, hoverflow, hunpreventable]
        have hah : b ≠ .reg ⟨.a, .h⟩ := by
          rintro rfl
          exact absurd hunpreventable (by decide)
        simp [hdeleted, hah]
      | false =>
        have hdeleted : b.deleted conf = false := by
          simp only [Divisor.deleted, hunpreventable]
          simpa using hdisabled
        rw [if_neg (by simp), hdeleted]
        by_cases hsize : b.size = 8
        · have hmov : m₁.run [instrumentation "mov" (.reg ⟨.a, .w⟩ 16 false true) (.imm 1 16) []] =
              some (m₁.writeReg ⟨.a, .w⟩ 1) := rfl
          rw [if_pos hsize, exists_run_append hrun hmov,
            noForbiddenFault_byte hsize hunpreventable hzero]
          cases henabled : conf.enableDivByZero with
          | true => simp [hsize]
          | false => simpa using fun _ hidiv => hnamed henabled hoverflow hidiv
        · have hah : b ≠ .reg ⟨.a, .h⟩ := by
            rintro rfl
            exact absurd rfl hsize
          rw [if_neg hsize]
          cases hidiv : name.isIdiv with
          | false =>
            obtain ⟨m₂, hrest, hsafe⟩ :=
              noForbiddenFault_unsigned hsize hunpreventable hidiv hzero
            rw [if_neg (by simp), exists_run_append hrun hrest]
            simp [hsafe, hah]
          | true =>
            obtain ⟨m₂, hrest, hsafe⟩ :=
              noForbiddenFault_signed hsize hunpreventable hidiv hoverflow hzero
            rw [if_pos rfl, exists_run_append hrun hrest, hsafe]
            cases henabled : conf.enableDivByZero with
            | true =>
              obtain rfl := hkept henabled
              simp [hah, hsize]
            | false =>
              have ha := m₁.readReg_lt (halves b.size).2
              rw [(halves_width hsize).2] at ha
              have hn : 4 ≤ b.size := by
                have := size_ge b
                omega
              have hfits := maskedFits_of_mod (d := m₁.readReg (halves b.size).1) hn ha
                (read_operand_lt m₁ b) (hmod henabled hidiv hoverflow (isHigh_eq_false hsize))
              simpa [hah, hfits] using hnamed henabled hoverflow hidiv
  · -- no 8-bit name
    simp only [Classical.not_imp, Bool.not_eq_true] at hnamed
    obtain ⟨hzero, hoverflow, hidiv, hname⟩ := hnamed
    have hsize : b.unpreventable = false := by
      cases b with
      | reg r =>
        obtain ⟨g, p⟩ := r
        cases g <;> simp_all [Divisor.hasEightBit, Reg.eightBit, Divisor.unpreventable,
          Divisor.usesD]
      | mem g size => simp [Divisor.hasEightBit] at hname
    have hdeleted : b.deleted conf = false := by
      simp only [Divisor.deleted, hsize]
      simpa using hdisabled
    rw [preventDivByZero_eq_none hzero hoverflow hidiv hname]
    simp [hidiv, hoverflow, hdeleted, hzero, hname]

/-- A machine whose registers are zero, except for 1 in RBX and 3 in RDX. -/
def smallDivisor : Machine where
  gpr g := if g = .b then 1 else if g = .d then 3 else 0
  mem _ := 0

/-- `div ah` with no fault enabled, and `idiv ebx` with only division by zero enabled. -/
theorem smallDivisor_faults :
    ¬DivisionSafe ⟨[], [], false⟩ .div (.reg ⟨.a, .h⟩) smallDivisor ∧
      ¬DivisionSafe ⟨["div-by-zero"], [], false⟩ .idiv (.reg ⟨.b, .d⟩) smallDivisor := by
  constructor
  · rintro ⟨out, hout, hsafe⟩
    obtain rfl := Option.some.inj hout
    obtain ⟨m', hrun, hne, -⟩ := hsafe rfl
    obtain rfl := Option.some.inj hrun
    exact hne rfl (by decide)
  · rintro ⟨out, hout, hsafe⟩
    obtain rfl := Option.some.inj hout
    obtain ⟨m', hrun, -, hfits⟩ := hsafe rfl
    obtain rfl := Option.some.inj hrun
    exact absurd (hfits (by decide) (by decide)).2 (by decide)

end Rvzr.X86
