import Mathlib.Algebra.Ring.Int.Defs
import Mathlib.Algebra.Ring.Nat
import Mathlib.Data.List.Basic

/-!
# Byte memories

A memory is a function from addresses to bytes. `copyLoop` is the byte-by-byte copy loop of a
resumable reader: it stops at the end of the buffer or of the destination. `HasBytes` says
which bytes a memory holds from an address on, and `word64` reads little-endian 64-bit words
back (`word64_of_hasBytes`).
-/

namespace Rvzr.Lib

abbrev Mem := Nat → UInt8

namespace Mem

/-- Store one byte. -/
def set (m : Mem) (a : Nat) (b : UInt8) : Mem := fun i => if i = a then b else m i

/-- `memset(m, 0, n)`. -/
def zero (m : Mem) (n : Nat) : Mem := fun i => if i < n then 0 else m i

/-- The bytes from `off` on, as a list. -/
def read (m : Mem) (off len : Nat) : List UInt8 := (List.range len).map fun i => m (off + i)

/-- The number a list of bytes stands for, the lowest byte first. -/
def ofLe : List UInt8 → Nat
  | [] => 0
  | b :: bs => b.toNat + 256 * ofLe bs

/-- A 64-bit little-endian load. -/
def word64 (m : Mem) (off : Nat) : Nat := ofLe (m.read off 8)

@[simp] theorem set_same (m : Mem) (a : Nat) (b : UInt8) : m.set a b a = b := by simp [set]

theorem set_other (m : Mem) {a i : Nat} (b : UInt8) (h : i ≠ a) : m.set a b i = m i := by
  simp [set, h]

theorem zero_of_lt (m : Mem) {n i : Nat} (h : i < n) : m.zero n i = 0 := by simp [zero, h]

theorem word64_congr {m m' : Mem} {off : Nat} (h : ∀ i, i < 8 → m (off + i) = m' (off + i)) :
    m.word64 off = m'.word64 off := by
  unfold word64 read
  congr 1
  apply List.map_congr_left
  intro i hi
  exact h i (List.mem_range.mp hi)

end Mem

/-- The `n` low bytes of `x`, the lowest first. -/
def leBytes : Nat → Nat → List UInt8
  | 0, _ => []
  | n + 1, x => UInt8.ofNat x :: leBytes n (x / 256)

/-- `x.to_bytes(8, byteorder='little')`. -/
def le64 (x : Nat) : List UInt8 := leBytes 8 x

/-- The bytes of a list of 64-bit words. -/
def encodeWords (ws : List Nat) : List UInt8 := ws.flatMap le64

@[simp] theorem length_leBytes (n x : Nat) : (leBytes n x).length = n := by
  induction n generalizing x with
  | zero => rfl
  | succ n ih => simp [leBytes, ih]

@[simp] theorem length_le64 (x : Nat) : (le64 x).length = 8 := length_leBytes 8 x

@[simp] theorem length_encodeWords (ws : List Nat) : (encodeWords ws).length = 8 * ws.length := by
  induction ws with
  | nil => rfl
  | cons w ws ih =>
    rw [encodeWords, List.flatMap_cons, List.length_append, length_le64]
    rw [encodeWords] at ih
    rw [ih, List.length_cons]
    omega

theorem ofLe_leBytes (n x : Nat) (h : x < 256 ^ n) : Mem.ofLe (leBytes n x) = x := by
  induction n generalizing x with
  | zero => simp at h; subst h; rfl
  | succ n ih =>
    have hlt : x / 256 < 256 ^ n := by
      rw [Nat.div_lt_iff_lt_mul (by decide)]
      rwa [Nat.pow_succ] at h
    have hb : (UInt8.ofNat x).toNat = x % 256 := by simp
    rw [leBytes, Mem.ofLe, ih _ hlt, hb]
    omega

theorem ofLe_lt (bs : List UInt8) : Mem.ofLe bs < 256 ^ bs.length := by
  induction bs with
  | nil => simp [Mem.ofLe]
  | cons b bs ih =>
    have hb : b.toNat < 256 := b.toNat_lt
    rw [Mem.ofLe, List.length_cons, Nat.pow_succ]
    omega

theorem word64_lt (m : Mem) (x : Nat) : m.word64 x < 2 ^ 64 := by
  have hlt := ofLe_lt (m.read x 8)
  have hlen : (m.read x 8).length = 8 := by simp [Mem.read]
  rwa [hlen] at hlt

theorem read_add (m : Mem) (x j k : Nat) : m.read x (j + k) = m.read x j ++ m.read (x + j) k := by
  rw [Mem.read, List.range_add, List.map_append, List.map_map]
  simp only [Mem.read, Function.comp_def, Nat.add_assoc]
theorem ofLe_append (xs ys : List UInt8) :
    Mem.ofLe (xs ++ ys) = Mem.ofLe xs + 256 ^ xs.length * Mem.ofLe ys := by
  induction xs with
  | nil => simp [Mem.ofLe]
  | cons x xs ih =>
    rw [List.cons_append, Mem.ofLe, ih, Mem.ofLe, List.length_cons, Nat.pow_succ, Nat.mul_add,
      Nat.mul_comm (256 ^ xs.length) 256, Nat.mul_assoc, Nat.add_assoc]
/-- The lower half of a load of two words or more. -/
theorem ofLe_read_mod (m : Mem) (x n : Nat) :
    Mem.ofLe (m.read x (8 + (8 + n))) % 2 ^ 128 = m.word64 x ||| m.word64 (x + 8) <<< 64 := by
  have hlen : ∀ y, (m.read y 8).length = 8 := by simp [Mem.read]
  have hlow := word64_lt m x
  have hhigh := word64_lt m (x + 8)
  rw [read_add, read_add, ofLe_append, ofLe_append, hlen, hlen, ← Mem.word64, ← Mem.word64,
    Nat.or_comm, ← Nat.shiftLeft_add_eq_or_of_lt hlow, Nat.shiftLeft_eq]
  omega

theorem leBytes_ofLe (bs : List UInt8) : leBytes bs.length (Mem.ofLe bs) = bs := by
  induction bs with
  | nil => rfl
  | cons b bs ih =>
    have hb : b.toNat < 256 := b.toNat_lt
    have hhead : UInt8.ofNat (b.toNat + 256 * Mem.ofLe bs) = b := by
      apply UInt8.toNat_inj.1
      rw [UInt8.toNat_ofNat']
      omega
    have htail : (b.toNat + 256 * Mem.ofLe bs) / 256 = Mem.ofLe bs := by omega
    rw [List.length_cons, Mem.ofLe, leBytes, hhead, htail, ih]

/-- Byte `i` of `bs` is at address `off + i`. -/
def HasBytes (m : Mem) (off : Nat) (bs : List UInt8) : Prop :=
  ∀ i b, bs[i]? = some b → m (off + i) = b

theorem hasBytes_nil (m : Mem) (off : Nat) : HasBytes m off [] := by
  intro i b h
  simp at h

theorem hasBytes_append {m : Mem} {off : Nat} {xs ys : List UInt8} :
    HasBytes m off (xs ++ ys) ↔ HasBytes m off xs ∧ HasBytes m (off + xs.length) ys := by
  constructor
  · intro h
    refine ⟨fun i b hb => h i b ?_, fun i b hb => ?_⟩
    · rw [List.getElem?_append_left (List.getElem?_eq_some_iff.mp hb).1]
      exact hb
    · have := h (xs.length + i) b (by rw [List.getElem?_append_right (by omega)]; simpa using hb)
      rwa [← Nat.add_assoc] at this
  · rintro ⟨hx, hy⟩ i b hb
    by_cases hi : i < xs.length
    · exact hx i b (by rwa [List.getElem?_append_left hi] at hb)
    · rw [List.getElem?_append_right (by omega)] at hb
      have := hy (i - xs.length) b hb
      rwa [show off + xs.length + (i - xs.length) = off + i from by omega] at this

theorem HasBytes.congr {m m' : Mem} {off : Nat} {bs : List UInt8} (h : HasBytes m off bs)
    (heq : ∀ i, i < bs.length → m' (off + i) = m (off + i)) : HasBytes m' off bs := by
  intro i b hb
  rw [heq i (List.getElem?_eq_some_iff.mp hb).1]
  exact h i b hb

theorem HasBytes.read_eq {m : Mem} {off : Nat} {bs : List UInt8} (h : HasBytes m off bs) :
    m.read off bs.length = bs := by
  apply List.ext_getElem?
  intro i
  by_cases hi : i < bs.length
  · have hb : bs[i]? = some bs[i] := List.getElem?_eq_getElem hi
    rw [hb]
    simp [Mem.read, hi, h i bs[i] hb]
  · rw [List.getElem?_eq_none (by simp [Mem.read]; omega), List.getElem?_eq_none (by omega)]

/-- Reading one word of an encoded list of words back. -/
theorem word64_of_hasBytes {m : Mem} {off : Nat} {ws : List Nat} (h : HasBytes m off (encodeWords ws))
    {j w : Nat} (hj : ws[j]? = some w) (hw : w < 2 ^ 64) : m.word64 (off + 8 * j) = w := by
  induction ws generalizing off j with
  | nil => simp at hj
  | cons v ws ih =>
    rw [encodeWords, List.flatMap_cons, hasBytes_append, length_le64] at h
    cases j with
    | zero =>
      have hv : v = w := by simpa using hj
      subst hv
      have hread := h.1.read_eq
      rw [length_le64] at hread
      rw [Nat.mul_zero, Nat.add_zero, Mem.word64, hread]
      exact ofLe_leBytes 8 v (by simpa using hw)
    | succ j =>
      have := ih h.2 (by simpa using hj)
      rwa [show off + 8 + 8 * j = off + 8 * (j + 1) from by omega] at this

/-- The words of a memory from address 0 on. -/
def Mem.words (m : Mem) (n : Nat) : List Nat := (List.range n).map fun i => m.word64 (8 * i)

theorem words_of_hasBytes {m : Mem} {ws : List Nat} (h : HasBytes m 0 (encodeWords ws))
    (hw : ∀ w ∈ ws, w < 2 ^ 64) : m.words ws.length = ws := by
  apply List.ext_getElem?
  intro i
  by_cases hi : i < ws.length
  · have hb : ws[i]? = some ws[i] := List.getElem?_eq_getElem hi
    have := word64_of_hasBytes h hb (hw _ (List.getElem_mem hi))
    rw [hb]
    simp only [Nat.zero_add] at this
    simp [Mem.words, hi, this]
  · rw [List.getElem?_eq_none (by simp [Mem.words]; omega), List.getElem?_eq_none (by omega)]

/-- Copy the buffer to `m` from address `cur` on, up to address `stop`; also returns how many
bytes were copied. -/
def copyLoop (m : Mem) (cur stop : Nat) : List UInt8 → Mem × Nat
  | [] => (m, 0)
  | b :: bs =>
    if cur < stop then
      let r := copyLoop (m.set cur b) (cur + 1) stop bs
      (r.1, r.2 + 1)
    else (m, 0)

theorem copyLoop_snd (m : Mem) (cur stop : Nat) (bs : List UInt8) :
    (copyLoop m cur stop bs).2 = min (stop - cur) bs.length := by
  induction bs generalizing m cur with
  | nil => simp [copyLoop]
  | cons b bs ih =>
    unfold copyLoop
    by_cases h : cur < stop
    · simp only [h, if_true, ih, List.length_cons]
      omega
    · simp only [h, if_false]
      omega

/-- Addresses outside the copied range keep their bytes. -/
theorem copyLoop_other (m : Mem) (cur stop : Nat) (bs : List UInt8) {i : Nat}
    (h : i < cur ∨ cur + min (stop - cur) bs.length ≤ i) : (copyLoop m cur stop bs).1 i = m i := by
  induction bs generalizing m cur with
  | nil => rfl
  | cons b bs ih =>
    unfold copyLoop
    by_cases hc : cur < stop
    · simp only [hc, if_true]
      rw [ih _ _ (by rw [List.length_cons] at h; omega), Mem.set_other]
      rw [List.length_cons] at h
      omega
    · simp only [hc, if_false]

/-- The copied range holds the bytes of the buffer. -/
theorem copyLoop_hasBytes (m : Mem) (cur stop : Nat) (bs : List UInt8) :
    HasBytes (copyLoop m cur stop bs).1 cur (bs.take (stop - cur)) := by
  induction bs generalizing m cur with
  | nil => simpa using hasBytes_nil _ _
  | cons b bs ih =>
    unfold copyLoop
    by_cases hc : cur < stop
    · simp only [hc, if_true]
      rw [show stop - cur = (stop - (cur + 1)) + 1 from by omega, List.take_succ_cons]
      intro i x hx
      cases i with
      | zero =>
        have hbx : b = x := by simpa using hx
        rw [copyLoop_other _ _ _ _ (by omega), hbx]
        exact Mem.set_same m cur x
      | succ i =>
        have := ih (m.set cur b) (cur + 1) i x (by simpa using hx)
        rwa [show cur + 1 + i = cur + (i + 1) from by omega] at this
    · rw [show stop - cur = 0 from by omega, List.take_zero]
      exact hasBytes_nil _ _

/-- A resumed copy: `pos` bytes of `xs` are there, and the buffer continues with the rest of
`xs` and whatever follows. -/
theorem copyLoop_extend {m : Mem} (base pos : Nat) {xs bs post : List UInt8} {n : Nat}
    (h : HasBytes m base (xs.take pos)) (hpos : pos ≤ xs.length)
    (hbs : bs = (xs.drop pos ++ post).take n) :
    HasBytes (copyLoop m (base + pos) (base + xs.length) bs).1 base
      (xs.take (pos + min (xs.length - pos) bs.length)) := by
  have hlen : (xs.take pos).length = pos := by rw [List.length_take]; omega
  have hbl : bs.length = min n (xs.length - pos + post.length) := by
    rw [hbs, List.length_take, List.length_append, List.length_drop]
  have hchunk : (xs.drop pos).take (min (xs.length - pos) bs.length) =
      bs.take (base + xs.length - (base + pos)) := by
    rw [hbl, show base + xs.length - (base + pos) = xs.length - pos from by omega,
      show min (xs.length - pos) (min n (xs.length - pos + post.length)) =
        min (xs.length - pos) n from by omega, hbs, List.take_take,
      List.take_append_of_le_length (by rw [List.length_drop]; omega)]
  rw [List.take_add, hasBytes_append, hlen, hchunk]
  refine ⟨h.congr ?_, copyLoop_hasBytes _ _ _ _⟩
  intro i hi
  rw [hlen] at hi
  exact copyLoop_other _ _ _ _ (by omega)

/-- Copying the same bytes to memories that agree below `n` keeps them in agreement there. -/
theorem copyLoop_agree {m m' : Mem} {n : Nat} (h : ∀ i, i < n → m i = m' i) (cur stop : Nat)
    (bs : List UInt8) : ∀ i, i < n → (copyLoop m cur stop bs).1 i = (copyLoop m' cur stop bs).1 i := by
  induction bs generalizing m m' cur with
  | nil => exact h
  | cons b bs ih =>
    unfold copyLoop
    by_cases hc : cur < stop
    · simp only [hc, if_true]
      refine ih ?_ _
      intro i hi
      unfold Mem.set
      split
      · rfl
      · exact h i hi
    · simp only [hc, if_false]
      exact h

/-- A memory with the given bytes written from `addr` on. -/
def Mem.write (m : Mem) (addr : Nat) (bs : List UInt8) : Mem :=
  fun i => if addr ≤ i then bs[i - addr]?.getD (m i) else m i

theorem write_other (m : Mem) {addr i : Nat} {bs : List UInt8}
    (h : i < addr ∨ addr + bs.length ≤ i) : m.write addr bs i = m i := by
  unfold Mem.write
  split
  · rw [List.getElem?_eq_none (by omega)]
    rfl
  · rfl

theorem write_hasBytes (m : Mem) (addr : Nat) (bs : List UInt8) :
    HasBytes (m.write addr bs) addr bs := by
  intro i b hb
  simp [Mem.write, hb]

theorem word64_write_other (m : Mem) {addr x : Nat} {bs : List UInt8}
    (h : x + 8 ≤ addr ∨ addr + bs.length ≤ x) : (m.write addr bs).word64 x = m.word64 x := by
  apply Mem.word64_congr
  intro i hi
  apply write_other
  omega

/-- A word written as part of a list of words reads back. -/
theorem word64_write_encodeWords (m : Mem) {addr j w : Nat} {ws : List Nat} (hj : ws[j]? = some w)
    (hw : w < 2 ^ 64) : (m.write addr (encodeWords ws)).word64 (addr + 8 * j) = w :=
  word64_of_hasBytes (write_hasBytes m addr _) hj hw

theorem encodeWords_replicate_zero (n : Nat) :
    encodeWords (List.replicate n 0) = List.replicate (8 * n) 0 := by
  induction n with
  | zero => rfl
  | succ n ih =>
      rw [List.replicate_succ, encodeWords, List.flatMap_cons]
      rw [encodeWords] at ih
      rw [ih, show 8 * (n + 1) = 8 + 8 * n by omega, List.replicate_add]
      rfl

/-! ### Undoing a write -/

theorem read_getElem? (m : Mem) (addr n i : Nat) :
    (m.read addr n)[i]? = if i < n then some (m (addr + i)) else none := by
  unfold Mem.read
  by_cases hi : i < n
  · simp [hi]
  · simp [hi]

/-- Writing back what was there before undoes a write. -/
theorem write_undo (m : Mem) {addr n : Nat} {bs : List UInt8} (h : bs.length ≤ n) :
    (m.write addr bs).write addr (m.read addr n) = m := by
  funext i
  unfold Mem.write
  rw [read_getElem?]
  by_cases hi : addr ≤ i
  · rw [if_pos hi, if_pos hi]
    by_cases hn : i - addr < n
    · rw [if_pos hn, Nat.add_sub_cancel' hi]
      rfl
    · rw [if_neg hn, List.getElem?_eq_none (by omega)]
      rfl
  · rw [if_neg hi, if_neg hi]

theorem write_read_same (m : Mem) (addr n : Nat) : m.write addr (m.read addr n) = m := by
  have hnil : m.write addr [] = m := by
    funext i
    simp [Mem.write]
  have h := @write_undo m addr n [] (Nat.zero_le n)
  rwa [hnil] at h

/-- Memories with the same words hold the same bytes. -/
theorem read_eq_of_words {m m' : Mem} {x x' n : Nat}
    (h : ∀ k < n, m.word64 (x + 8 * k) = m'.word64 (x' + 8 * k)) :
    m.read x (8 * n) = m'.read x' (8 * n) := by
  refine List.map_congr_left fun i hi => ?_
  have hi' := List.mem_range.1 hi
  have hword : m.read (x + 8 * (i / 8)) 8 = m'.read (x' + 8 * (i / 8)) 8 := by
    have hlen : ∀ (m : Mem) (y : Nat), (m.read y 8).length = 8 := by simp [Mem.read]
    have hbytes := congrArg (leBytes 8) (h (i / 8) (by omega))
    have hleft := leBytes_ofLe (m.read (x + 8 * (i / 8)) 8)
    have hright := leBytes_ofLe (m'.read (x' + 8 * (i / 8)) 8)
    rw [hlen] at hleft hright
    rw [← hleft, ← hright]
    exact hbytes
  have hbyte := congrArg (·[i % 8]?) hword
  simp only [read_getElem?, if_pos (Nat.mod_lt i (by decide : 8 > 0)), Option.some.injEq] at hbyte
  have hx : ∀ y, y + 8 * (i / 8) + i % 8 = y + i := by omega
  rwa [hx, hx] at hbyte

theorem read_write_same (m : Mem) (addr : Nat) (bs : List UInt8) :
    (m.write addr bs).read addr bs.length = bs := (write_hasBytes m addr bs).read_eq

end Rvzr.Lib
