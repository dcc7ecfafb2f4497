import Mathlib.Data.Nat.Bitwise
import Mathlib.Data.List.Nodup

/-!
# Bit masks

Tests of a single bit, masks that are put together bit by bit, and the update of the bits under
a mask: `(old ||| (new &&& may)) &&& (new ||| ~~~may)` has the bits of `new` where `may` has
ones, and those of `old` elsewhere.
-/

namespace Rvzr.Lib

theorem and_bit_eq_zero {n i : Nat} : (n &&& 1 <<< i = 0) ↔ n.testBit i = false := by
  rw [Nat.one_shiftLeft, Nat.and_two_pow]
  cases n.testBit i <;> simp

theorem and_bit_bne_zero (n i : Nat) : (n &&& 1 <<< i != 0) = n.testBit i := by
  rw [Nat.one_shiftLeft, Nat.and_two_pow]
  cases n.testBit i <;> simp

theorem and_bit_beq_zero (n i : Nat) : (n &&& 1 <<< i == 0) = !n.testBit i := by
  rw [← and_bit_bne_zero, bne, Bool.not_not]

/-- The mask of a list of bits: positions with values. -/
def maskOf (bits : List (Nat × Bool)) : Nat :=
  bits.foldl (fun mask b => mask ||| b.2.toNat <<< b.1) 0

theorem testBit_toNat_shiftLeft (b : Bool) (n i : Nat) :
    (b.toNat <<< n).testBit i = (b && n == i) := by
  cases b with
  | false => simp
  | true =>
    rw [Bool.toNat_true, Nat.one_shiftLeft, Nat.testBit_two_pow, Bool.true_and]
    rfl

theorem testBit_foldl_mask (bits : List (Nat × Bool)) (mask i : Nat) :
    (bits.foldl (fun mask b => mask ||| b.2.toNat <<< b.1) mask).testBit i =
      (mask.testBit i || bits.any fun b => b.2 && b.1 == i) := by
  induction bits generalizing mask with
  | nil => simp
  | cons b bits ih =>
    rw [List.foldl_cons, ih, Nat.testBit_or, testBit_toNat_shiftLeft, List.any_cons, Bool.or_assoc]

/-- A mask has the bits that are listed as set. -/
theorem testBit_maskOf (bits : List (Nat × Bool)) (i : Nat) :
    (maskOf bits).testBit i = bits.any fun b => b.2 && b.1 == i := by
  rw [maskOf, testBit_foldl_mask, Nat.zero_testBit, Bool.false_or]

/-- If no position is listed twice, a mask has the listed value at each. -/
theorem testBit_maskOf_mem {bits : List (Nat × Bool)} (hnodup : (bits.map Prod.fst).Nodup)
    {i : Nat} {v : Bool} (h : (i, v) ∈ bits) : (maskOf bits).testBit i = v := by
  rw [testBit_maskOf]
  cases v with
  | true => exact List.any_eq_true.mpr ⟨(i, true), h, by simp⟩
  | false =>
    refine List.any_eq_false.mpr fun b hb => ?_
    by_cases hbi : b.1 = i
    · have hsame : b = (i, false) := List.inj_on_of_nodup_map hnodup hb h hbi
      simp [hsame]
    · simp [hbi]

/-- The update of the bits under a mask. -/
theorem testBit_masked (may new old : UInt64) {i : Nat} (h : i < 64) :
    ((old ||| (new &&& may)) &&& (new ||| ~~~may)).toNat.testBit i =
      if may.toNat.testBit i then new.toNat.testBit i else old.toNat.testBit i := by
  have hbits : ∀ x : UInt64, x.toNat.testBit i = x.toBitVec.getLsbD i := fun x => rfl
  simp only [hbits, UInt64.toBitVec_and, UInt64.toBitVec_or, UInt64.toBitVec_not,
    BitVec.getLsbD_and, BitVec.getLsbD_or, BitVec.getLsbD_not, h, decide_true, Bool.true_and]
  cases may.toBitVec.getLsbD i <;> cases new.toBitVec.getLsbD i <;>
    cases old.toBitVec.getLsbD i <;> rfl

end Rvzr.Lib
