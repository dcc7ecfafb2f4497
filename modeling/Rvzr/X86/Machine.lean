import Mathlib.Data.BitVec
import Rvzr.X86.Instruction

/-!
# Execution of instrumentation

The general-purpose registers with their parts, byte-addressed memory, and the few instructions that
the passes insert in front of others. A write to a 32-bit part clears the upper half of its
register; writes to the smaller parts keep the rest.
-/

namespace Rvzr.X86

/-- Registers and memory. -/
structure Machine where
  gpr : Gpr → BitVec 64
  mem : BitVec 64 → BitVec 8

/-- The position of the lowest bit of a part. -/
def Part.offset : Part → Nat
  | .h => 8
  | _ => 0

namespace Machine

/-! ### Registers -/

def readReg (m : Machine) (r : Reg) : Nat :=
  (m.gpr r.gpr).toNat / 2 ^ r.part.offset % 2 ^ r.width

/-- A register with the value `old` after a write to one of its parts. -/
def updated (part : Part) (old v : Nat) : Nat :=
  match part with
  | .q => v
  | .d => v % 2 ^ 32
  | .w => old / 2 ^ 16 * 2 ^ 16 + v % 2 ^ 16
  | .l => old / 2 ^ 8 * 2 ^ 8 + v % 2 ^ 8
  | .h => old / 2 ^ 16 * 2 ^ 16 + v % 2 ^ 8 * 2 ^ 8 + old % 2 ^ 8

def writeReg (m : Machine) (r : Reg) (v : Nat) : Machine :=
  { m with gpr := fun g =>
      if g = r.gpr then BitVec.ofNat 64 (updated r.part (m.gpr g).toNat v) else m.gpr g }

variable {m : Machine} {v : Nat}

@[simp] theorem writeReg_mem (r : Reg) : (m.writeReg r v).mem = m.mem := rfl

theorem readReg_lt (r : Reg) : m.readReg r < 2 ^ r.width := Nat.mod_lt _ (Nat.two_pow_pos _)

@[simp] theorem readReg_writeReg (r : Reg) : (m.writeReg r v).readReg r = v % 2 ^ r.width := by
  have hlt := (m.gpr r.gpr).isLt
  obtain ⟨g, p⟩ := r
  simp only [readReg, writeReg, if_true, BitVec.toNat_ofNat]
  cases p <;> simp only [updated, Part.offset, Reg.width] <;> omega

theorem readReg_writeReg_of_ne {r r' : Reg} (h : r'.gpr ≠ r.gpr) :
    (m.writeReg r v).readReg r' = m.readReg r' := by
  simp only [readReg, writeReg, if_neg h]

/-- The low byte of a register with the part read around it. -/
theorem readReg_writeReg_low {g : Gpr} {p : Part} (hp : p ≠ .h) :
    (m.writeReg ⟨g, .l⟩ v).readReg ⟨g, p⟩ =
      m.readReg ⟨g, p⟩ / 2 ^ 8 * 2 ^ 8 + v % 2 ^ 8 := by
  have hlt := (m.gpr g).isLt
  simp only [readReg, writeReg, if_true, BitVec.toNat_ofNat, updated]
  cases p with
  | h => exact absurd rfl hp
  | q => simp only [Part.offset, Reg.width]; omega
  | d => simp only [Part.offset, Reg.width]; omega
  | w => simp only [Part.offset, Reg.width]; omega
  | l => simp only [Part.offset, Reg.width]; omega

/-- The high byte is no part of the low byte. -/
theorem readReg_high_writeReg_low {g : Gpr} :
    (m.writeReg ⟨g, .l⟩ v).readReg ⟨g, .h⟩ = m.readReg ⟨g, .h⟩ := by
  have hlt := (m.gpr g).isLt
  simp only [readReg, writeReg, if_true, BitVec.toNat_ofNat, updated, Part.offset, Reg.width]
  omega

theorem readReg_low_eq {g : Gpr} {p : Part} (hp : p ≠ .h) :
    m.readReg ⟨g, .l⟩ = m.readReg ⟨g, p⟩ % 2 ^ 8 := by
  have hlt := (m.gpr g).isLt
  simp only [readReg]
  cases p with
  | h => exact absurd rfl hp
  | q => simp only [Part.offset, Reg.width]; omega
  | d => simp only [Part.offset, Reg.width]; omega
  | w => simp only [Part.offset, Reg.width]; omega
  | l => simp only [Part.offset, Reg.width]; omega

/-! ### Memory -/

/-- The little-endian number in `n` bytes from `a` on. -/
def readMem (m : Machine) (a : BitVec 64) : Nat → Nat
  | 0 => 0
  | n + 1 => (m.mem a).toNat + 2 ^ 8 * m.readMem (a + 1) n

def writeByte (m : Machine) (a : BitVec 64) (v : Nat) : Machine :=
  { m with mem := fun b => if b = a then BitVec.ofNat 8 v else m.mem b }

def writeMem (m : Machine) (a : BitVec 64) : Nat → Nat → Machine
  | 0, _ => m
  | n + 1, v => (m.writeMem (a + 1) n (v / 2 ^ 8)).writeByte a v

@[simp] theorem writeByte_gpr (a : BitVec 64) : (m.writeByte a v).gpr = m.gpr := rfl

@[simp] theorem writeMem_gpr (a : BitVec 64) (n : Nat) : (m.writeMem a n v).gpr = m.gpr := by
  induction n generalizing a v with
  | zero => rfl
  | succ n ih => exact ih _

theorem readMem_lt (a : BitVec 64) (n : Nat) : m.readMem a n < 2 ^ (8 * n) := by
  induction n generalizing a with
  | zero => simp [readMem]
  | succ n ih =>
    have hbyte := (m.mem a).isLt
    have hrest := ih (a + 1)
    rw [readMem, Nat.mul_succ, Nat.pow_add]
    generalize 2 ^ (8 * n) = k at hrest ⊢
    omega

/-- A number read behind a written byte is not changed by it. -/
theorem readMem_writeByte {a b : BitVec 64} {n : Nat}
    (h : ∀ i < n, b + BitVec.ofNat 64 i ≠ a) :
    (m.writeByte a v).readMem b n = m.readMem b n := by
  induction n generalizing b with
  | zero => rfl
  | succ n ih =>
    have hb : b ≠ a := by simpa using h 0 (by omega)
    have hrest : ∀ i < n, b + 1 + BitVec.ofNat 64 i ≠ a := by
      intro i hi hia
      refine h (i + 1) (by omega) ?_
      rw [← hia]
      bv_omega
    rw [readMem, readMem, ih hrest]
    simp only [writeByte, if_neg hb]

theorem add_ne_self {a : BitVec 64} {n : Nat} (hn : n < 2 ^ 64) :
    ∀ i < n, a + 1 + BitVec.ofNat 64 i ≠ a := by
  intro i hi h
  have hnat := congrArg BitVec.toNat h
  have ha := a.isLt
  have hone : BitVec.toNat (1 : BitVec 64) = 1 := rfl
  simp only [BitVec.toNat_add, BitVec.toNat_ofNat, hone] at hnat
  omega

theorem readMem_writeMem {a : BitVec 64} {n : Nat} (hn : n < 2 ^ 64) :
    (m.writeMem a n v).readMem a n = v % 2 ^ (8 * n) := by
  induction n generalizing a v with
  | zero => simp [readMem, Nat.mod_one]
  | succ n ih =>
    have hlow : ((m.writeMem a (n + 1) v).mem a).toNat = v % 2 ^ 8 := by
      simp [writeMem, writeByte]
    rw [readMem, hlow, writeMem, readMem_writeByte (add_ne_self (by omega)), ih (by omega),
      Nat.mul_succ, Nat.add_comm (8 * n), Nat.pow_add, Nat.mod_mul]

/-- A byte written at the start of a number replaces its low byte. -/
theorem readMem_writeMem_one {a : BitVec 64} {n : Nat} (hn : n + 1 < 2 ^ 64) :
    (m.writeMem a 1 v).readMem a (n + 1) =
      m.readMem a (n + 1) / 2 ^ 8 * 2 ^ 8 + v % 2 ^ 8 := by
  have hbyte := (m.mem a).isLt
  have hlow : ((m.writeMem a 1 v).mem a).toNat = v % 2 ^ 8 := by simp [writeMem, writeByte]
  rw [readMem, hlow, writeMem, readMem_writeByte (add_ne_self (by omega)), readMem]
  simp only [writeMem]
  omega

/-! ### Operands -/

/-- The value of an address. -/
def address (m : Machine) (value : Address) : BitVec 64 :=
  value.foldl (fun a t =>
    match t with
    | .reg r => a + BitVec.ofNat 64 (m.readReg r)
    | .plus n => a + BitVec.ofInt 64 n
    | .minus n => a - BitVec.ofInt 64 n) 0

/-- The value of an operand; labels have none. An immediate is taken modulo 2^64. -/
def read (m : Machine) : ValueOp → Nat
  | .reg r .. => m.readReg r
  | .mem value width .. => m.readMem (m.address value) (width / 8)
  | .imm value _ => (value % 2 ^ 64).toNat
  | .agen value _ => (m.address value).toNat
  | .label _ => 0

def write (m : Machine) (op : ValueOp) (v : Nat) : Machine :=
  match op with
  | .reg r .. => m.writeReg r v
  | .mem value width .. => m.writeMem (m.address value) (width / 8) v
  | _ => m

/-- One of the inserted instructions; `none` for any other. -/
def execute (m : Machine) (i : Instruction) : Option Machine :=
  match i.operands with
  | [.value dest, .value src] =>
    if i.name = "or" then some (m.write dest (m.read dest ||| m.read src))
    else if i.name = "and" then some (m.write dest (m.read dest &&& m.read src))
    else if i.name = "add" then some (m.write dest (m.read dest + m.read src))
    else if i.name = "shr" then some (m.write dest (m.read dest >>> m.read src))
    else if i.name = "mov" then some (m.write dest (m.read src))
    else none
  | _ => none

def run (m : Machine) (is : List Instruction) : Option Machine := is.foldlM execute m

end Machine

end Rvzr.X86
