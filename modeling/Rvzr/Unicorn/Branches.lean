import Rvzr.Unicorn.Speculators

/-!
# Conditional branches of x86

What the instruction set says about the conditional branches with an 8-bit or 32-bit displacement,
against `X86CondSpeculator.decode` (`model_unicorn/speculators_basic.py:59-208`). A displacement of
one byte takes the branch `len(target) == 1`, which returns the byte as it is: `decode` is right
exactly when the displacement of a two-byte branch is not negative (`decode_matchesIsa_iff`).
-/

namespace Rvzr.Unicorn

open Rvzr.Lib

/-! ### The instruction set -/

/-- The condition codes. -/
inductive CondCode where
  | o | no | b | ae | e | ne | be | a | s | ns | p | np | l | ge | le | g
  deriving DecidableEq, Repr

namespace CondCode

/-- The four bits of a condition in an opcode. -/
def tttn : CondCode → BitVec 4
  | o => 0x0 | no => 0x1 | b => 0x2 | ae => 0x3
  | e => 0x4 | ne => 0x5 | be => 0x6 | a => 0x7
  | s => 0x8 | ns => 0x9 | p => 0xA | np => 0xB
  | l => 0xC | ge => 0xD | le => 0xE | g => 0xF

/-- The condition over `EFLAGS`: CF is bit 0, PF bit 2, ZF bit 6, SF bit 7 and OF bit 11. -/
def holds (eflags : BitVec 32) : CondCode → Bool
  | o => eflags.getLsbD 11
  | no => !eflags.getLsbD 11
  | b => eflags.getLsbD 0
  | ae => !eflags.getLsbD 0
  | e => eflags.getLsbD 6
  | ne => !eflags.getLsbD 6
  | be => eflags.getLsbD 0 || eflags.getLsbD 6
  | a => !(eflags.getLsbD 0 || eflags.getLsbD 6)
  | s => eflags.getLsbD 7
  | ns => !eflags.getLsbD 7
  | p => eflags.getLsbD 2
  | np => !eflags.getLsbD 2
  | l => eflags.getLsbD 7 != eflags.getLsbD 11
  | ge => eflags.getLsbD 7 == eflags.getLsbD 11
  | le => eflags.getLsbD 6 || eflags.getLsbD 7 != eflags.getLsbD 11
  | g => !eflags.getLsbD 6 && eflags.getLsbD 7 == eflags.getLsbD 11

end CondCode

/-- The branches that read RCX. -/
inductive Counted where
  | loopne | loope | loop | jrcxz
  deriving DecidableEq, Repr

/-- The conditional branches: `Jcc rel8`, `Jcc rel32`, and the counted ones with `rel8`. -/
inductive Branch where
  | short (cc : CondCode) (rel8 : BitVec 8)
  | near (cc : CondCode) (rel32 : BitVec 32)
  | counted (c : Counted) (rel8 : BitVec 8)
  deriving DecidableEq, Repr

namespace Branch

/-- The opcode bytes. -/
def opcode : Branch → List UInt8
  | short cc _ => [UInt8.ofNat (0x70 + cc.tttn.toNat)]
  | near cc _ => [0x0F, UInt8.ofNat (0x80 + cc.tttn.toNat)]
  | counted .loopne _ => [0xE0]
  | counted .loope _ => [0xE1]
  | counted .loop _ => [0xE2]
  | counted .jrcxz _ => [0xE3]

/-- The bytes of the displacement. -/
def relBytes : Branch → List UInt8
  | short _ rel8 | counted _ rel8 => leBytes 1 rel8.toNat
  | near _ rel32 => leBytes 4 rel32.toNat

def encode (b : Branch) : List UInt8 := b.opcode ++ b.relBytes

/-- The sign-extended displacement. -/
def displacement : Branch → Int
  | short _ rel8 | counted _ rel8 => rel8.toInt
  | near _ rel32 => rel32.toInt

/-- Whether the branch is taken. A `LOOP` decrements RCX and compares the result with zero. -/
def taken (eflags : BitVec 32) (rcx : BitVec 64) : Branch → Bool
  | short cc _ | near cc _ => cc.holds eflags
  | counted .loopne _ => rcx - 1 != 0 && !eflags.getLsbD 6
  | counted .loope _ => rcx - 1 != 0 && eflags.getLsbD 6
  | counted .loop _ => rcx - 1 != 0
  | counted .jrcxz _ => rcx == 0

/-- The branches that change RCX. -/
def isLoop : Branch → Bool
  | short .. | near .. | counted .jrcxz _ => false
  | counted .. => true

/-- A branch of two bytes. -/
def isRel8 : Branch → Bool
  | near .. => false
  | _ => true

end Branch

/-- The bytes of an instruction without prefixes that is no conditional branch: it does not start
with the opcode of one, and it does not end in an escape byte. -/
structure OtherCode where
  code : List UInt8
  nonempty : code ≠ []
  complete : code ≠ [0x0F]
  noBranch : ∀ b : Branch, ¬ b.opcode <+: code

/-- The encodings `decode` is called on. -/
inductive Encoding where
  | branch (b : Branch)
  | other (c : OtherCode)

/-- `decode` returns the displacement, the decision and the loop flag of a branch, and a zero
displacement for other code. -/
def Encoding.MatchesIsa (eflags : BitVec 32) (rcx : BitVec 64) : Encoding → Prop
  | branch b => decode b.encode eflags.toNat rcx.toNat =
      (b.displacement, b.taken eflags rcx, b.isLoop)
  | other c => (decode c.code eflags.toNat rcx.toNat).1 = 0

/-- A branch of two bytes does not go backwards. -/
def Encoding.NoShortBackward : Encoding → Prop
  | branch b => b.isRel8 = true → 0 ≤ b.displacement
  | other _ => True

/-! ### Decisions -/

section Decisions

variable (eflags : BitVec 32) (rcx : BitVec 64)

theorem jumpCondition_tttn (cc : CondCode) :
    jumpCondition eflags.toNat cc.tttn.toNat = cc.holds eflags := by
  cases cc <;> simp [CondCode.tttn, jumpCondition, CondCode.holds, flagCF, flagPF, flagZF, flagSF,
    flagOF, BitVec.getLsbD]

/-- The test `r != 1` on the value before the decrement. -/
theorem counter_ne_one : (rcx.toNat != 1) = (rcx - 1 != 0) := by
  rw [Bool.eq_iff_iff, bne_iff_ne, bne_iff_ne, not_iff_not]
  constructor
  · intro h
    bv_omega
  · intro h
    bv_omega

theorem counter_eq_zero : (rcx.toNat == 0) = (rcx == 0) := by
  rw [Bool.eq_iff_iff, beq_iff_eq, beq_iff_eq]
  constructor
  · intro h
    bv_omega
  · rintro rfl
    rfl

/-- The decision of `jumps` on a branch is the architectural one. -/
theorem jumps_encode (b : Branch) : jumps b.encode eflags.toNat rcx.toNat =
    (b.relBytes, b.taken eflags rcx, b.isLoop) := by
  cases b with
  | short cc rel8 =>
    have hhigh : (UInt8.ofNat (0x70 + cc.tttn.toNat)).toNat / 16 = 0x7 := by cases cc <;> rfl
    have hlow : (UInt8.ofNat (0x70 + cc.tttn.toNat)).toNat % 16 = cc.tttn.toNat := by
      cases cc <;> rfl
    simp only [Branch.encode, Branch.opcode, List.singleton_append, jumps, if_pos hhigh, hlow,
      jumpCondition_tttn]
    rfl
  | near cc rel32 =>
    have hhigh : (UInt8.ofNat (0x80 + cc.tttn.toNat)).toNat / 16 = 0x8 := by cases cc <;> rfl
    have hlow : (UInt8.ofNat (0x80 + cc.tttn.toNat)).toNat % 16 = cc.tttn.toNat := by
      cases cc <;> rfl
    simp only [Branch.encode, Branch.opcode, List.cons_append, List.nil_append, jumps, if_pos hhigh,
      hlow, jumpCondition_tttn]
    rfl
  | counted c rel8 =>
    cases c <;> simp only [Branch.encode, Branch.opcode, List.singleton_append, jumps,
      counter_ne_one, counter_eq_zero] <;> rfl

end Decisions

/-! ### Displacements -/

/-- Little-endian bytes read as a signed number are the signed value of the word. -/
theorem signedLe_leBytes {n w : Nat} (hw : w = 8 * n) (v : BitVec w) :
    signedLe (leBytes n v.toNat) = v.toInt := by
  subst hw
  have hlt : v.toNat < 256 ^ n := by
    have := v.isLt
    rwa [Nat.pow_mul] at this
  rw [signedLe, ofLe_leBytes n _ hlt, length_leBytes, BitVec.toInt_eq_toNat_cond]
  split <;> simp

/-- The target `decode` computes from the table entry of a branch. -/
theorem decode_encode (eflags : BitVec 32) (rcx : BitVec 64) (b : Branch) :
    decode b.encode eflags.toNat rcx.toNat =
      (if b.isRel8 then (Mem.ofLe b.relBytes : Int) else b.displacement,
        b.taken eflags rcx, b.isLoop) := by
  rw [decode, jumps_encode]
  cases b with
  | short cc rel8 => simp [Branch.relBytes, Branch.isRel8, leBytes, Mem.ofLe]
  | counted c rel8 => simp [Branch.relBytes, Branch.isRel8, leBytes, Mem.ofLe]
  | near cc rel32 =>
    have hw : 32 = 8 * 4 := by omega
    have hsigned := signedLe_leBytes hw rel32
    simp only [leBytes] at hsigned
    simp [Branch.relBytes, Branch.isRel8, Branch.displacement, leBytes, hsigned]

/-- One byte read as unsigned is the displacement exactly when that is not negative. -/
theorem ofLe_relBytes_eq_iff {b : Branch} (h : b.isRel8 = true) :
    (Mem.ofLe b.relBytes : Int) = b.displacement ↔ 0 ≤ b.displacement := by
  have hbyte : ∀ rel8 : BitVec 8,
      (Mem.ofLe (leBytes 1 rel8.toNat) : Int) = rel8.toInt ↔ 0 ≤ rel8.toInt := by
    intro rel8
    rw [ofLe_leBytes 1 _ rel8.isLt, BitVec.toInt_eq_toNat_cond]
    have := rel8.isLt
    split <;> omega
  cases b with
  | short cc rel8 => exact hbyte rel8
  | counted c rel8 => exact hbyte rel8
  | near cc rel32 => exact absurd h (by simp [Branch.isRel8])

/-- A byte with the high half of a conditional jump is one of its opcodes. -/
theorem exists_tttn {op high : Nat} (h : op / 16 = high) :
    ∃ cc : CondCode, op = 16 * high + cc.tttn.toNat := by
  have hall : ∀ low < 16, low ∈ ([.o, .no, .b, .ae, .e, .ne, .be, .a, .s, .ns, .p, .np, .l, .ge, .le,
      .g] : List CondCode).map fun cc => cc.tttn.toNat := by decide
  obtain ⟨cc, -, hcc⟩ := List.mem_map.mp (hall (op % 16) (Nat.mod_lt _ (by omega)))
  exact ⟨cc, by omega⟩

/-- Other code has no entry in the tables. -/
theorem jumps_other (c : OtherCode) (f r : Nat) : jumps c.code f r = ([0], false, false) := by
  obtain ⟨code, hnonempty, hcomplete, hno⟩ := c
  cases code with
  | nil => exact absurd rfl hnonempty
  | cons op rest =>
    have hop : ∀ b : Branch, b.opcode ≠ [op] := fun b hb => hno b (hb ▸ ⟨rest, rfl⟩)
    have hshort : ¬ op.toNat / 16 = 0x7 := by
      intro h
      obtain ⟨cc, hcc⟩ := exists_tttn h
      exact hop (.short cc 0) (by simp [Branch.opcode, ← hcc])
    have hE0 : op ≠ 0xE0 := fun h => hop (.counted .loopne 0) (by rw [h]; rfl)
    have hE1 : op ≠ 0xE1 := fun h => hop (.counted .loope 0) (by rw [h]; rfl)
    have hE2 : op ≠ 0xE2 := fun h => hop (.counted .loop 0) (by rw [h]; rfl)
    have hE3 : op ≠ 0xE3 := fun h => hop (.counted .jrcxz 0) (by rw [h]; rfl)
    by_cases h0F : op = 0x0F
    · subst h0F
      cases rest with
      | nil => exact absurd rfl hcomplete
      | cons op' rest =>
        have hnear : ¬ op'.toNat / 16 = 0x8 := by
          intro h
          obtain ⟨cc, hcc⟩ := exists_tttn h
          exact hno (.near cc 0) ⟨rest, by simp [Branch.opcode, ← hcc]⟩
        simp [jumps, hnear]
    · simp [jumps, hshort, hE0, hE1, hE2, hE3, h0F]

/-- `decode` agrees with the instruction set except on short backward branches. -/
theorem decode_matchesIsa_iff (e : Encoding) (eflags : BitVec 32) (rcx : BitVec 64) :
    e.MatchesIsa eflags rcx ↔ e.NoShortBackward := by
  cases e with
  | other c =>
    simp [Encoding.MatchesIsa, Encoding.NoShortBackward, decode, jumps_other]
  | branch b =>
    rw [Encoding.MatchesIsa, Encoding.NoShortBackward, decode_encode]
    by_cases hrel : b.isRel8 = true
    · rw [if_pos hrel, Prod.mk.injEq]
      simpa [hrel] using ofLe_relBytes_eq_iff hrel
    · simp [hrel]

/-- `JZ` with the displacement -2 jumps to itself; the decoded displacement is 254. -/
theorem decode_short_backward :
    ¬ ∀ (e : Encoding) (eflags : BitVec 32) (rcx : BitVec 64), e.MatchesIsa eflags rcx := by
  intro h
  have hdecode : decode [0x74, 0xFE] 0 0 = (-2, false, false) := h (.branch (.short .e 0xFE)) 0 0
  exact absurd hdecode (by decide)

end Rvzr.Unicorn
