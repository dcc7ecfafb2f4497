import Mathlib.Data.Set.Insert
import Mathlib.Order.Basic

/-!
# Aligned blocks of addresses

Addresses fall into aligned blocks of `k` bytes, each named by its first address. An access touches
the blocks of its bytes (`touched`). Up to `k` bytes touch the blocks of the first and of the last
one, and the end of the access, which is one byte behind it, names the same block unless it is the
start of a block (`pair_eq_touched_iff`).
-/

namespace Rvzr.Lib

variable {k a size l : Nat}

/-- The start of the block that holds address `a`. -/
def blockOf (k a : Nat) : Nat := a / k * k

/-- The blocks that hold at least one byte of `[a, a + size)`. -/
def touched (k a size : Nat) : Set Nat := { l | ∃ b, a ≤ b ∧ b < a + size ∧ blockOf k b = l }

theorem blockOf_le (k a : Nat) : blockOf k a ≤ a := Nat.div_mul_le_self a k

theorem lt_blockOf_add (hk : 0 < k) (a : Nat) : a < blockOf k a + k := by
  have hlt := Nat.lt_mul_div_succ a hk
  rw [Nat.mul_succ, Nat.mul_comm] at hlt
  exact hlt

theorem dvd_blockOf (k a : Nat) : k ∣ blockOf k a := Nat.dvd_mul_left k (a / k)

/-- The block of an address is the aligned one around it. -/
theorem blockOf_eq_iff (hk : 0 < k) : blockOf k a = l ↔ k ∣ l ∧ l ≤ a ∧ a < l + k := by
  constructor
  · rintro rfl
    exact ⟨dvd_blockOf k a, blockOf_le k a, lt_blockOf_add hk a⟩
  · rintro ⟨⟨n, rfl⟩, hle, hlt⟩
    have hdiv : a / k = n := by
      refine Nat.div_eq_of_lt_le ?_ ?_
      · rwa [Nat.mul_comm]
      · rwa [Nat.mul_comm, Nat.mul_succ]
    rw [blockOf, hdiv, Nat.mul_comm]

theorem blockOf_mono {b : Nat} (h : a ≤ b) : blockOf k a ≤ blockOf k b :=
  Nat.mul_le_mul_right k (Nat.div_le_div_right h)

/-- A block is touched when it begins before the end of the access and ends behind its start. -/
theorem mem_touched_iff (hk : 0 < k) :
    l ∈ touched k a size ↔ k ∣ l ∧ l < a + size ∧ a < l + k ∧ 0 < size := by
  constructor
  · rintro ⟨b, hab, hb, rfl⟩
    have hle := blockOf_le k b
    have hlt := lt_blockOf_add hk b
    exact ⟨dvd_blockOf k b, by omega, by omega, by omega⟩
  · rintro ⟨hdvd, hend, hstart, hsize⟩
    refine ⟨max a l, Nat.le_max_left a l, Nat.max_lt.mpr ⟨by omega, hend⟩, ?_⟩
    exact (blockOf_eq_iff hk).mpr ⟨hdvd, Nat.le_max_right a l, Nat.max_lt.mpr ⟨hstart, by omega⟩⟩

theorem blockOf_mem_touched (hsize : 0 < size) : blockOf k a ∈ touched k a size :=
  ⟨a, Nat.le_refl a, by omega, rfl⟩

/-- The end of an access names a block that it touches unless a block starts there. -/
theorem blockOf_end_mem_touched_iff (hk : 0 < k) (hsize : 0 < size) :
    blockOf k (a + size) ∈ touched k a size ↔ ¬ k ∣ a + size := by
  have hle := blockOf_le k (a + size)
  have hlt := lt_blockOf_add hk (a + size)
  rw [mem_touched_iff hk]
  constructor
  · rintro ⟨-, hend, -, -⟩ hdvd
    rw [(blockOf_eq_iff hk).mpr ⟨hdvd, Nat.le_refl _, by omega⟩] at hend
    exact Nat.lt_irrefl _ hend
  · intro hdvd
    refine ⟨dvd_blockOf k _, Nat.lt_of_le_of_ne hle fun heq => hdvd ?_, by omega, hsize⟩
    rw [← heq]
    exact dvd_blockOf k _

/-- The blocks of the start and of the end are those touched, when the access does not end where a
block starts and no block lies between the two. -/
theorem pair_eq_touched_iff (hk : 0 < k) (hsize : 0 < size) :
    ({blockOf k a, blockOf k (a + size)} : Set Nat) = touched k a size ↔
      ¬ k ∣ a + size ∧ blockOf k (a + size) ≤ blockOf k a + k := by
  constructor
  · intro heq
    refine ⟨(blockOf_end_mem_touched_iff hk hsize).mp (heq ▸ Set.mem_insert_of_mem _ rfl), ?_⟩
    by_contra hgap
    -- the second block is touched and is neither of the two
    have hle := blockOf_le k (a + size)
    have hlt := lt_blockOf_add hk a
    have hsecond : blockOf k a + k ∈ touched k a size :=
      (mem_touched_iff hk).mpr
        ⟨Nat.dvd_add (dvd_blockOf k a) (Nat.dvd_refl k), by omega, by omega, hsize⟩
    rw [← heq] at hsecond
    rcases hsecond with hfirst | hlast
    · omega
    · have hlast : blockOf k a + k = blockOf k (a + size) := hlast
      omega
  · rintro ⟨hdvd, hnext⟩
    ext l
    constructor
    · rintro (rfl | hl)
      · exact blockOf_mem_touched hsize
      · rw [Set.mem_singleton_iff.mp hl]
        exact (blockOf_end_mem_touched_iff hk hsize).mpr hdvd
    · intro hl
      obtain ⟨hdvd', hend, hstart, -⟩ := (mem_touched_iff hk).mp hl
      -- an aligned block above the first one is at least the second
      by_cases hfirst : l ≤ a
      · exact Or.inl ((blockOf_eq_iff hk).mpr ⟨hdvd', hfirst, hstart⟩).symm
      · refine Or.inr ((blockOf_eq_iff hk).mpr ⟨hdvd', Nat.le_of_lt hend, ?_⟩).symm
        have hlt := lt_blockOf_add hk (a + size)
        have hsecond : blockOf k a + k ≤ l := by
          obtain ⟨m, hm⟩ := dvd_blockOf k a
          obtain ⟨n, rfl⟩ := hdvd'
          have hle := blockOf_le k a
          have hmn : m < n := Nat.lt_of_mul_lt_mul_left (show k * m < k * n by omega)
          rw [hm, ← Nat.mul_succ]
          exact Nat.mul_le_mul_left k hmn
        omega

/-- At most `k` bytes end in the block of the first one or in the next. -/
theorem blockOf_end_le (hk : 0 < k) (hsize : size ≤ k) :
    blockOf k (a + size) ≤ blockOf k a + k := by
  have hmono := blockOf_mono (k := k) (Nat.add_le_add_left hsize a)
  rwa [blockOf, blockOf, Nat.add_div_right a hk, Nat.succ_mul] at hmono

/-- A whole block of bytes touches one block only when it is aligned. -/
theorem single_eq_touched_iff (hk : 0 < k) :
    ({blockOf k a} : Set Nat) = touched k a k ↔ k ∣ a := by
  have hle := blockOf_le k a
  have hlt := lt_blockOf_add hk a
  constructor
  · intro heq
    by_contra hdvd
    have hne : blockOf k a ≠ a := fun h => hdvd (h ▸ dvd_blockOf k a)
    have hsecond : blockOf k a + k ∈ touched k a k :=
      (mem_touched_iff hk).mpr
        ⟨Nat.dvd_add (dvd_blockOf k a) (Nat.dvd_refl k), by omega, by omega, hk⟩
    rw [← heq] at hsecond
    have hsecond : blockOf k a + k = blockOf k a := hsecond
    omega
  · intro hdvd
    have hblock : blockOf k a = a :=
      (blockOf_eq_iff hk).mpr ⟨hdvd, Nat.le_refl a, by omega⟩
    ext l
    rw [Set.mem_singleton_iff, mem_touched_iff hk, hblock]
    constructor
    · rintro rfl
      exact ⟨hdvd, by omega, by omega, hk⟩
    · rintro ⟨⟨n, rfl⟩, hend, hstart, -⟩
      obtain ⟨m, rfl⟩ := hdvd
      have hnm : n < m + 1 := Nat.lt_of_mul_lt_mul_left (show k * n < k * (m + 1) by
        rw [Nat.mul_succ]
        exact hend)
      have hmn : m < n + 1 := Nat.lt_of_mul_lt_mul_left (show k * m < k * (n + 1) by
        rw [Nat.mul_succ]
        exact hstart)
      rw [show n = m by omega]

end Rvzr.Lib
