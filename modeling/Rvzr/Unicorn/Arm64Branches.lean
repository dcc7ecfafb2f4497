import Rvzr.Lib.Bits
import Rvzr.Unicorn.Speculators

/-!
# Conditional branches of ARM64

`ARM64CondSpeculator` (`model_unicorn/speculators_basic.py:211-340`) against the conditional
branches of the instruction set. The decoded decision is the architectural one except for the
condition 0b1111 (`decode_encode`). The decoded offset counts instructions and is added, unscaled,
to the address behind the branch, so that no branch is mispredicted to the right place
(`speculateInstruction_wrong`).
-/

namespace Rvzr.Unicorn.Arm64

open Rvzr.Lib

/-! ### The speculator -/

/-- What the speculator reads of the emulator: X0 to X30 and the register with the flags NZCV in
its bits 31 to 28. -/
structure Cpu where
  x : Fin 31 → BitVec 64
  nzcv : BitVec 32

/-- `_twos_complement`. -/
def twosComplement (n nBits : Nat) : Int :=
  let n := n &&& (1 <<< nBits - 1)
  let signBit := 1 <<< (nBits - 1)
  if n &&& signBit ≠ 0 then (n : Int) - 2 * (signBit : Nat) else n

/-- The table of `_decode_b_cond`. -/
def willJumpTable (n z c v : Bool) : List Bool :=
  [z, !z, c, !c, n, !n, v, !v, c && !z, !c || z, n == v, n != v, !z && n == v, z || n != v,
    true, false]

/-- `_decode_b_cond`. -/
def decodeBCond (instruction flags : Nat) : Int × Bool :=
  let target := twosComplement (instruction >>> 5) 19
  let condition := instruction &&& 0xf
  let n := flags &&& 1 <<< 31 != 0
  let z := flags &&& 1 <<< 30 != 0
  let c := flags &&& 1 <<< 29 != 0
  let v := flags &&& 1 <<< 28 != 0
  (target, (willJumpTable n z c v).getD condition false)

/-- The register read of `_decode_cb_tb`; `none` is the `ValueError`. -/
def registerValue (cpu : Cpu) (registerIndex : Nat) : Option Nat :=
  if h : registerIndex < 31 then some (cpu.x ⟨registerIndex, h⟩).toNat
  else if registerIndex = 31 then some 0
  else none

/-- `_decode_cb_tb`. -/
def decodeCbTb (cpu : Cpu) (instruction firstByte : Nat) : Option (Int × Bool) := do
  let is32bit := firstByte >>> 4 == 0x3
  let registerValue ← registerValue cpu (instruction &&& 0x1f)
  let registerValue := if is32bit then registerValue &&& 0xffffffff else registerValue
  if firstByte &&& 0xf ≤ 0x5 then
    let target := twosComplement (instruction >>> 5) 19
    let willJump := if firstByte &&& 0xf = 4 then registerValue == 0 else registerValue != 0
    return (target, willJump)
  else
    let target := twosComplement (instruction >>> 5) 14
    let bitNumber := (instruction >>> 19) &&& 0x1f
    let bitNumber := if is32bit then bitNumber else bitNumber + 32
    let bit := registerValue &&& 1 <<< bitNumber
    let willJump := if firstByte &&& 0xf = 6 then bit == 0 else bit != 0
    return (target, willJump)

/-- `ARM64CondSpeculator.decode`. -/
def decode (cpu : Cpu) (code : List UInt8) (flags : Nat) : Option (Int × Bool) :=
  let instruction := Mem.ofLe code
  let firstByte := instruction >>> 24
  if firstByte = 0x54 ∧ instruction &&& 0x10 = 0 then some (decodeBCond instruction flags)
  else if (0xb4 ≤ firstByte ∧ firstByte ≤ 0xb7) ∨ (0x34 ≤ firstByte ∧ firstByte ≤ 0x37) then
    decodeCbTb cpu instruction firstByte
  else some (0, false)

/-- The speculator's stack of checkpoints, by their `next_instr` and newest first, and the value
written to the program counter. -/
structure Speculation where
  checkpoints : List Int
  pc : Option Int
  deriving DecidableEq

/-- `ARM64CondSpeculator._speculate_instruction`; `code` is what `mem_read` returns at
`address`. -/
def speculateInstruction (maxNesting : Nat) (cpu : Cpu) (code : List UInt8) (address size : Nat)
    (s : Speculation) : Option Speculation :=
  if maxNesting ≤ s.checkpoints.length then some s
  else do
    let (targetOffset, willJump) ← decode cpu code cpu.nzcv.toNat
    if targetOffset = 0 then return s
    let nextInstr := if willJump then (address + size : Int) + targetOffset else address + size
    let targetAddr := if willJump then (address + size : Int) else address + size + targetOffset
    return { checkpoints := nextInstr :: s.checkpoints, pc := some targetAddr }

/-! ### The instruction set -/

/-- The conditional branches. `bCond`: B.cond. `cb`: CBZ, or CBNZ if `nz`, on Xt if `sf` and on Wt
otherwise. `tb`: TBZ, or TBNZ if `nz`, of the bit `b5:b40`. -/
inductive Branch where
  | bCond (cond : BitVec 4) (imm19 : BitVec 19)
  | cb (sf nz : Bool) (imm19 : BitVec 19) (rt : BitVec 5)
  | tb (b5 nz : Bool) (b40 : BitVec 5) (imm14 : BitVec 14) (rt : BitVec 5)
  deriving DecidableEq

namespace Branch

/-- The instruction word, field by field. -/
def word : Branch → Nat
  | bCond cond imm19 => 0b01010100 * 2 ^ 24 + imm19.toNat * 2 ^ 5 + cond.toNat
  | cb sf nz imm19 rt =>
    (sf.toNat * 2 ^ 31 + 0b011010 * 2 ^ 25 + nz.toNat * 2 ^ 24) + imm19.toNat * 2 ^ 5 + rt.toNat
  | tb b5 nz b40 imm14 rt =>
    (b5.toNat * 2 ^ 31 + 0b011011 * 2 ^ 25 + nz.toNat * 2 ^ 24) + b40.toNat * 2 ^ 19 +
      imm14.toNat * 2 ^ 5 + rt.toNat

def encode (b : Branch) : List UInt8 := leBytes 4 b.word

/-- The signed immediate. -/
def imm : Branch → Int
  | bCond _ imm19 | cb _ _ imm19 _ => imm19.toInt
  | tb _ _ _ imm14 _ => imm14.toInt

end Branch

/-- The condition of B.cond: the upper three bits select it, the lowest inverts it, unless all
four are set. -/
def conditionHolds (n z c v : Bool) (cond : BitVec 4) : Bool :=
  let result :=
    match (cond.extractLsb' 1 3).toNat with
    | 0b000 => z
    | 0b001 => c
    | 0b010 => n
    | 0b011 => v
    | 0b100 => c && !z
    | 0b101 => n == v
    | 0b110 => n == v && !z
    | _ => true
  if cond.getLsbD 0 && cond != 0b1111 then !result else result

/-- The register operand; number 31 is the zero register. -/
def Cpu.operand (cpu : Cpu) (rt : BitVec 5) : BitVec 64 :=
  if h : rt.toNat < 31 then cpu.x ⟨rt.toNat, h⟩ else 0

/-- Whether the branch is taken. -/
def Branch.taken (cpu : Cpu) : Branch → Bool
  | bCond cond _ => conditionHolds (cpu.nzcv.getLsbD 31) (cpu.nzcv.getLsbD 30)
      (cpu.nzcv.getLsbD 29) (cpu.nzcv.getLsbD 28) cond
  | cb sf nz _ rt =>
    (if sf then cpu.operand rt == 0 else (cpu.operand rt).truncate 32 == (0 : BitVec 32)) != nz
  | tb b5 nz b40 _ rt => (cpu.operand rt).getLsbD (b5.toNat * 32 + b40.toNat) == nz

/-- Where the branch at `address` goes to when it is taken. -/
def Branch.target (b : Branch) (address : BitVec 64) : BitVec 64 :=
  address + BitVec.ofInt 64 (4 * b.imm)

/-- The speculator mispredicts `b` at `address`: it takes a checkpoint that resumes at the
architectural next instruction and continues at the other successor. -/
def Mispredicts (maxNesting : Nat) (cpu : Cpu) (b : Branch) (address : BitVec 64)
    (s : Speculation) : Prop :=
  ∃ nextInstr pc, speculateInstruction maxNesting cpu b.encode address.toNat 4 s =
      some ⟨nextInstr :: s.checkpoints, some pc⟩ ∧
    BitVec.ofInt 64 nextInstr = (if b.taken cpu then b.target address else address + 4) ∧
    BitVec.ofInt 64 pc = (if b.taken cpu then address + 4 else b.target address)

/-! ### Fields of the instruction word -/

section Fields

/-- `_twos_complement` of a number whose low bits are `v` is the signed value of `v`. -/
theorem twosComplement_eq_toInt {w n : Nat} (v : BitVec (w + 1)) (h : n % 2 ^ (w + 1) = v.toNat) :
    twosComplement n (w + 1) = v.toInt := by
  have hmask : n &&& (1 <<< (w + 1) - 1) = v.toNat := by
    rw [Nat.one_shiftLeft, Nat.and_two_pow_sub_one_eq_mod, h]
  have hmsb : v.toNat.testBit w = v.msb := by
    rw [BitVec.msb_eq_getLsbD_last]
    rfl
  simp only [twosComplement, hmask, Nat.add_sub_cancel, ne_eq, and_bit_eq_zero, hmsb,
    BitVec.toInt_eq_msb_cond]
  cases v.msb with
  | false => simp
  | true =>
    simp only [Bool.true_eq_false, not_false_eq_true, if_true, Nat.one_shiftLeft, Nat.pow_succ]
    omega

theorem willJumpTable_eq (n z c v : Bool) (cond : BitVec 4) :
    (willJumpTable n z c v).getD cond.toNat false =
      (conditionHolds n z c v cond && cond != 0b1111) := by
  revert n z c v cond
  decide

theorem registerValue_toNat (cpu : Cpu) (rt : BitVec 5) :
    registerValue cpu rt.toNat = some (cpu.operand rt).toNat := by
  rw [registerValue, Cpu.operand]
  by_cases h : rt.toNat < 31
  · rw [dif_pos h, dif_pos h]
  · have h31 : rt.toNat = 31 := by have := rt.isLt; omega
    rw [dif_neg h, dif_neg h, if_pos h31]
    rfl

/-- The first byte of the word of CBZ, CBNZ, TBZ or TBNZ. -/
def firstByte (is64 test nz : Bool) : Nat :=
  is64.toNat * 0x80 + 0x34 + test.toNat * 2 + nz.toNat

theorem cb_fields (sf nz : Bool) (imm19 : BitVec 19) (rt : BitVec 5) :
    (Branch.cb sf nz imm19 rt).word >>> 24 = firstByte sf false nz ∧
      (Branch.cb sf nz imm19 rt).word >>> 5 % 2 ^ 19 = imm19.toNat ∧
      (Branch.cb sf nz imm19 rt).word &&& 0x1f = rt.toNat := by
  have himm := imm19.isLt
  have hrt := rt.isLt
  have hand : ∀ n : Nat, n &&& 0x1f = n % 2 ^ 5 := fun n => Nat.and_two_pow_sub_one_eq_mod n 5
  simp only [Nat.shiftRight_eq_div_pow, hand, Branch.word, firstByte, Bool.toNat_false]
  refine ⟨?_, ?_, ?_⟩ <;> omega

theorem tb_fields (b5 nz : Bool) (b40 : BitVec 5) (imm14 : BitVec 14) (rt : BitVec 5) :
    (Branch.tb b5 nz b40 imm14 rt).word >>> 24 = firstByte b5 true nz ∧
      (Branch.tb b5 nz b40 imm14 rt).word >>> 5 % 2 ^ 14 = imm14.toNat ∧
      (Branch.tb b5 nz b40 imm14 rt).word >>> 19 &&& 0x1f = b40.toNat ∧
      (Branch.tb b5 nz b40 imm14 rt).word &&& 0x1f = rt.toNat := by
  have hb40 := b40.isLt
  have himm := imm14.isLt
  have hrt := rt.isLt
  have hand : ∀ n : Nat, n &&& 0x1f = n % 2 ^ 5 := fun n => Nat.and_two_pow_sub_one_eq_mod n 5
  simp only [Nat.shiftRight_eq_div_pow, hand, Branch.word, firstByte, Bool.toNat_true]
  refine ⟨?_, ?_, ?_, ?_⟩ <;> omega

theorem bCond_fields (cond : BitVec 4) (imm19 : BitVec 19) :
    (Branch.bCond cond imm19).word >>> 24 = 0x54 ∧
      (Branch.bCond cond imm19).word &&& 0x10 = 0 ∧
      (Branch.bCond cond imm19).word >>> 5 % 2 ^ 19 = imm19.toNat ∧
      (Branch.bCond cond imm19).word &&& 0xf = cond.toNat := by
  have himm := imm19.isLt
  have hcond := cond.isLt
  have hand : ∀ n : Nat, n &&& 0xf = n % 2 ^ 4 := fun n => Nat.and_two_pow_sub_one_eq_mod n 4
  have hbit : ∀ n : Nat, n &&& 0x10 = 0 ↔ n.testBit 4 = false := fun n => and_bit_eq_zero (i := 4)
  simp only [hbit, Nat.testBit_eq_decide_div_mod_eq, decide_eq_false_iff_not,
    Nat.shiftRight_eq_div_pow, hand, Branch.word]
  refine ⟨?_, ?_, ?_, ?_⟩ <;> omega

end Fields

/-! ### Decoded branches -/

section Decoded

variable (cpu : Cpu)

/-- The condition code that the speculator takes for "never". -/
def Branch.isNv : Branch → Bool
  | bCond cond _ => cond == 0b1111
  | _ => false

theorem ofLe_encode (b : Branch) : Mem.ofLe b.encode = b.word := by
  refine ofLe_leBytes 4 _ ?_
  cases b with
  | bCond cond imm19 =>
    have := imm19.isLt
    have := cond.isLt
    simp only [Branch.word]
    omega
  | cb sf nz imm19 rt =>
    have := imm19.isLt
    have := rt.isLt
    have := sf.toNat_le
    have := nz.toNat_le
    simp only [Branch.word]
    omega
  | tb b5 nz b40 imm14 rt =>
    have := b40.isLt
    have := imm14.isLt
    have := rt.isLt
    have := b5.toNat_le
    have := nz.toNat_le
    simp only [Branch.word]
    omega

theorem decodeCbTb_cb (sf nz : Bool) (imm19 : BitVec 19) (rt : BitVec 5) :
    decodeCbTb cpu (Branch.cb sf nz imm19 rt).word (firstByte sf false nz) =
      some (imm19.toInt, (Branch.cb sf nz imm19 rt).taken cpu) := by
  obtain ⟨-, himm, hrt⟩ := cb_fields sf nz imm19 rt
  have hand : ∀ n : Nat, n &&& 0xffffffff = n % 2 ^ 32 :=
    fun n => Nat.and_two_pow_sub_one_eq_mod n 32
  have hzero : ∀ v : BitVec 64, (v.toNat == 0) = (v == 0) := by
    intro v
    rw [Bool.eq_iff_iff, beq_iff_eq, beq_iff_eq]
    exact ⟨fun h => BitVec.eq_of_toNat_eq h, fun h => h ▸ rfl⟩
  have hlow : ∀ v : BitVec 64, v.toNat % 4294967296 = 0 ↔ v.setWidth 32 = 0#32 := by
    intro v
    rw [BitVec.toNat_eq, BitVec.toNat_setWidth]
    rfl
  simp only [decodeCbTb, hrt, registerValue_toNat, twosComplement_eq_toInt imm19 himm, hand]
  cases sf <;> cases nz <;>
    simp [firstByte, Branch.taken, hzero, hlow, bne]

theorem decodeCbTb_tb (b5 nz : Bool) (b40 : BitVec 5) (imm14 : BitVec 14) (rt : BitVec 5) :
    decodeCbTb cpu (Branch.tb b5 nz b40 imm14 rt).word (firstByte b5 true nz) =
      some (imm14.toInt, (Branch.tb b5 nz b40 imm14 rt).taken cpu) := by
  obtain ⟨-, himm, hbit, hrt⟩ := tb_fields b5 nz b40 imm14 rt
  have hand : ∀ n : Nat, n &&& 0xffffffff = n % 2 ^ 32 :=
    fun n => Nat.and_two_pow_sub_one_eq_mod n 32
  have hlow : ∀ n : Nat, (n % 4294967296).testBit b40.toNat = n.testBit b40.toNat := by
    intro n
    have hlt : b40.toNat < 32 := b40.isLt
    have hmod := Nat.testBit_mod_two_pow n 32 b40.toNat
    simpa [hlt] using hmod
  simp only [decodeCbTb, hrt, hbit, registerValue_toNat, twosComplement_eq_toInt imm14 himm,
    and_bit_bne_zero, and_bit_beq_zero, hand]
  cases b5 <;> cases nz <;>
    simp [firstByte, Branch.taken, BitVec.getLsbD, hlow, Nat.add_comm b40.toNat]

/-- The offset and the decision of the speculator, for every conditional branch. -/
theorem decode_encode (b : Branch) : decode cpu b.encode cpu.nzcv.toNat =
    some (b.imm, b.taken cpu && !b.isNv) := by
  rw [decode, ofLe_encode]
  cases b with
  | bCond cond imm19 =>
    obtain ⟨hfirst, hbit, himm, hcond⟩ := bCond_fields cond imm19
    simp only [hfirst, hbit, and_self, if_true, decodeBCond, hcond, and_bit_bne_zero,
      twosComplement_eq_toInt imm19 himm, willJumpTable_eq]
    rfl
  | cb sf nz imm19 rt =>
    rw [(cb_fields sf nz imm19 rt).1, if_neg, if_pos, decodeCbTb_cb]
    · simp [Branch.imm, Branch.isNv]
    · cases sf <;> cases nz <;> decide
    · cases sf <;> cases nz <;> simp [firstByte]
  | tb b5 nz b40 imm14 rt =>
    rw [(tb_fields b5 nz b40 imm14 rt).1, if_neg, if_pos, decodeCbTb_tb]
    · simp [Branch.imm, Branch.isNv]
    · cases b5 <;> cases nz <;> decide
    · cases b5 <;> cases nz <;> simp [firstByte]

/-- The immediates are short, so that distances do not wrap around. -/
theorem Branch.imm_bounds (b : Branch) : -2 ^ 18 ≤ b.imm ∧ b.imm < 2 ^ 18 := by
  have hwide : ∀ imm19 : BitVec 19, -2 ^ 18 ≤ imm19.toInt ∧ imm19.toInt < 2 ^ 18 := by
    intro imm19
    have := imm19.isLt
    rw [BitVec.toInt_eq_toNat_cond]
    split <;> omega
  cases b with
  | bCond cond imm19 => exact hwide imm19
  | cb sf nz imm19 rt => exact hwide imm19
  | tb b5 nz b40 imm14 rt =>
    have := imm14.isLt
    simp only [Branch.imm, BitVec.toInt_eq_toNat_cond]
    split <;> omega

/-- Adding the unscaled immediate to the address behind the branch does not reach its target. -/
theorem target_ne (b : Branch) (address : BitVec 64) :
    BitVec.ofInt 64 ((address.toNat + 4 : Nat) + b.imm) ≠ b.target address := by
  intro h
  obtain ⟨hlow, hhigh⟩ := b.imm_bounds
  have hdist : BitVec.ofInt 64 (4 + b.imm) = BitVec.ofInt 64 (4 * b.imm) := by
    rw [Branch.target, Nat.cast_add, Int.add_assoc, BitVec.ofInt_add, BitVec.ofInt_natCast,
      BitVec.ofNat_toNat, BitVec.setWidth_eq] at h
    exact (BitVec.add_right_inj _).mp h
  have hint := congrArg BitVec.toInt hdist
  rw [BitVec.toInt_ofInt_eq_self (by decide) (by omega) (by omega),
    BitVec.toInt_ofInt_eq_self (by decide) (by omega) (by omega)] at hint
  omega

theorem ofInt_next (address : BitVec 64) :
    BitVec.ofInt 64 (address.toNat + 4 : Nat) = address + 4 := by
  apply BitVec.eq_of_toNat_eq
  rw [BitVec.ofInt_natCast, BitVec.toNat_ofNat, BitVec.toNat_add]
  rfl

/-- The fall-through address is not the target of a branch that the speculator handles. -/
theorem next_ne_offset (b : Branch) (address : BitVec 64) (h : b.imm ≠ 0) :
    BitVec.ofInt 64 ((address.toNat + 4 : Nat) + b.imm) ≠ address + 4 := by
  intro hne
  obtain ⟨hlow, hhigh⟩ := b.imm_bounds
  rw [← ofInt_next] at hne
  have hnat := congrArg (fun v : BitVec 64 => (v.toNat : Int)) hne
  simp only [BitVec.toNat_ofInt] at hnat
  omega

end Decoded

/-- While the nesting allows a checkpoint, no conditional branch is mispredicted as the instruction
set has it: one of the two addresses is built from the unscaled immediate, or, with the immediate
zero, there is no checkpoint. -/
theorem speculateInstruction_wrong {maxNesting : Nat} {s : Speculation}
    (hnesting : s.checkpoints.length < maxNesting) (cpu : Cpu) (b : Branch)
    (address : BitVec 64) : ¬ Mispredicts maxNesting cpu b address s := by
  rintro ⟨nextInstr, pc, hrun, hnext, hpc⟩
  rw [speculateInstruction, if_neg (Nat.not_le.mpr hnesting), decode_encode] at hrun
  by_cases himm : b.imm = 0
  · simp only [himm, Option.bind_eq_bind, Option.bind_some, if_true] at hrun
    have hlen := congrArg (fun s : Speculation => s.checkpoints.length) (Option.some.inj hrun)
    exact absurd hlen (by simp)
  · simp only [himm, Option.bind_eq_bind, Option.bind_some, if_false] at hrun
    have hst := Option.some.inj hrun
    have hnext' := (List.cons.inj (congrArg Speculation.checkpoints hst)).1
    have hpc' := Option.some.inj (congrArg Speculation.pc hst)
    subst hnext' hpc'
    have hoff := target_ne b address
    have hoff' := next_ne_offset b address himm
    push_cast at hoff hoff'
    -- whichever way the branch goes, one address is the unscaled one
    cases htaken : b.taken cpu with
    | false =>
      rw [htaken] at hpc
      exact hoff hpc
    | true =>
      rw [htaken] at hnext hpc
      cases hnv : b.isNv with
      | false =>
        rw [hnv] at hnext
        exact hoff hnext
      | true =>
        rw [hnv] at hpc
        exact hoff' hpc

/-- `b.eq` two instructions ahead, at 0x1000 with Z set. -/
def sampleBranch : Branch := .bCond 0 2

def sampleCpu : Cpu := ⟨fun _ => 0, 1 <<< 30⟩

/-- The checkpoint of the sample resumes at 0x1006 instead of 0x1008. -/
theorem sample_not_mispredicted : ¬ ∀ (maxNesting : Nat) (cpu : Cpu) (b : Branch)
    (address : BitVec 64) (s : Speculation), s.checkpoints.length < maxNesting →
      Mispredicts maxNesting cpu b address s := by
  intro h
  obtain ⟨nextInstr, pc, hrun, hnext, -⟩ := h 1 sampleCpu sampleBranch 0x1000 ⟨[], none⟩ (by decide)
  have hsample : speculateInstruction 1 sampleCpu sampleBranch.encode 0x1000 4 ⟨[], none⟩ =
      some ⟨[0x1006], some 0x1004⟩ := by decide +kernel
  have hst := Option.some.inj (hsample.symm.trans hrun)
  have hresume := (List.cons.inj (congrArg Speculation.checkpoints hst)).1
  rw [← hresume] at hnext
  exact absurd hnext (by decide +kernel)

/-- With no checkpoint and a nesting of one the theorem applies to the sample. -/
theorem speculateInstruction_wrong_sample :
    ([] : List Int).length < 1 ∧ ¬ Mispredicts 1 sampleCpu sampleBranch 0x1000 ⟨[], none⟩ :=
  ⟨by decide, speculateInstruction_wrong (s := ⟨[], none⟩) (by decide) sampleCpu sampleBranch
    0x1000⟩

end Rvzr.Unicorn.Arm64
