import Rvzr.Km.InputParser
import Rvzr.Km.SandboxManager

/-!
# The data loader of the kernel module

`executor_km/data_loader.c`: before a measurement `load_sandbox_data` copies the fragments of an
input into the data sections of the actors and loads the SIMD registers. Sources are words of the
batch of inputs, destinations are words of the sandbox.
-/

namespace Rvzr.Km

open Rvzr.Lib

/-- The fields of `actor_data_t` that the loader fills. -/
inductive DataField where
  | underflowPad | mainArea | faultyArea | regInitArea | overflowPad
  deriving DecidableEq, Repr

namespace DataField

def size : DataField → Nat
  | .underflowPad => 4096 - 64
  | .mainArea => 4096
  | .faultyArea => 4096
  | .regInitArea => 320
  | .overflowPad => 4096 - 320

/-- The offset of a field in the structure, which begins with the macro stack. -/
def offset : DataField → Nat
  | .underflowPad => 64
  | .mainArea => 64 + size .underflowPad
  | .faultyArea => 64 + size .underflowPad + size .mainArea
  | .regInitArea => 64 + size .underflowPad + size .mainArea + size .faultyArea
  | .overflowPad =>
    64 + size .underflowPad + size .mainArea + size .faultyArea + size .regInitArea

end DataField

/-- What the loader writes: the data sections, from `sandbox->data` on, and the SIMD registers. -/
structure LoadedData where
  data : Mem
  mm : Fin 8 → Nat
  ymm : Fin 8 → Nat

/-- `for (j = 0; j < n; j++) dest[j] = src[j]` on 64-bit words. -/
def copyWords (src : Nat → Nat) (n : Nat) (data : Mem) (dest : Nat) : Mem :=
  (List.range n).foldl (fun data j => data.write (dest + 8 * j) (le64 (src j))) data

/-- The address of `get_input_fragment_unsafe(input_id, actor_id)` in the data of the batch. -/
def fragmentAddr (nActors inputId actorId : Nat) : Nat :=
  inputFragmentSize * fragmentIndex nActors inputId actorId

/-- The body of the loop over the actors. -/
def loadActorData (quickAndDirtyMode : Bool) (nActors : Nat) (s : InputParser) (inputId : Nat)
    (data : Mem) (actorId : Nat) : Mem :=
  let dest := actorId * sizeofActorData
  let source := fragmentAddr nActors inputId actorId
  let mainSrc := fun j => s.data.word64 (source + 8 * j)
  let faultySrc := fun j => s.data.word64 (source + 4096 + 8 * j)
  let regSrc := fun j => s.data.word64 (source + 8192 + 8 * j)
  let data := if quickAndDirtyMode then data
    else
      let data := data.write (dest + DataField.underflowPad.offset)
        (List.replicate DataField.underflowPad.size 0)
      copyWords (fun _ => 0) (DataField.overflowPad.size / 8) data
        (dest + DataField.overflowPad.offset)
  let data := copyWords mainSrc (DataField.mainArea.size / 8) data
    (dest + DataField.mainArea.offset)
  let data := copyWords faultySrc (DataField.faultyArea.size / 8) data
    (dest + DataField.faultyArea.offset)
  let data := copyWords regSrc (DataField.regInitArea.size / 8) data
    (dest + DataField.regInitArea.offset)
  -- the flags
  data.write (dest + DataField.regInitArea.offset + 8 * 6) (le64 ((regSrc 6 &&& 2263) ||| 2))

/-- `load_sandbox_data`, on x86. -/
def loadSandboxData (quickAndDirtyMode : Bool) (nActors : Nat) (s : InputParser) (inputId : Nat)
    (data : Mem) : LoadedData where
  data := (List.range nActors).foldl (loadActorData quickAndDirtyMode nActors s inputId) data
  mm i := s.data.word64 (fragmentAddr nActors inputId 0 + 8192 + 64 + 8 * i)
  ymm i := Mem.ofLe (s.data.read (fragmentAddr nActors inputId 0 + 8192 + 64 + 32 * i) 32)

/-! ### What one actor's section holds -/

theorem copyWords_succ (src : Nat → Nat) (n : Nat) (data : Mem) (dest : Nat) :
    copyWords src (n + 1) data dest =
      (copyWords src n data dest).write (dest + 8 * n) (le64 (src n)) := by
  rw [copyWords, List.range_succ, List.foldl_append]
  rfl

/-- A copied word. -/
theorem copyWords_word {src : Nat → Nat} {n j x : Nat} {data : Mem} {dest : Nat} (hj : j < n)
    (hx : x = dest + 8 * j) (hsrc : src j < 2 ^ 64) :
    (copyWords src n data dest).word64 x = src j := by
  subst hx
  induction n with
  | zero => omega
  | succ n ih =>
    rw [copyWords_succ]
    by_cases hn : j = n
    · subst hn
      have hword : (le64 (src j)) = encodeWords [src j] := by simp [encodeWords]
      rw [hword]
      exact word64_write_encodeWords _ (j := 0) rfl hsrc
    · rw [word64_write_other _ (by rw [length_le64]; omega)]
      exact ih (by omega)

/-- The words outside of the destination stay. -/
theorem copyWords_other {src : Nat → Nat} {n x : Nat} {data : Mem} {dest : Nat}
    (h : x + 8 ≤ dest ∨ dest + 8 * n ≤ x) : (copyWords src n data dest).word64 x = data.word64 x := by
  induction n with
  | zero => rfl
  | succ n ih =>
    rw [copyWords_succ, word64_write_other _ (by rw [length_le64]; omega)]
    exact ih (by omega)

/-- The words of the fragment of an actor. -/
def fragmentWord (nActors : Nat) (s : InputParser) (inputId actorId j : Nat) : Nat :=
  s.data.word64 (fragmentAddr nActors inputId actorId + 8 * j)

/-- The value of word `k` of the section of an actor: the macro stack stays, the pads are zero and
the flags are patched. -/
def sectionWord (src : Nat → Nat) (old k : Nat) : Nat :=
  if k < 8 then old
  else if k < 512 then 0
  else if k = 1542 then (src 1030 &&& 2263) ||| 2
  else if k < 1576 then src (k - 512)
  else 0

theorem patched_lt {w : Nat} (hw : w < 2 ^ 64) : (w &&& 2263) ||| 2 < 2 ^ 64 :=
  Nat.or_lt_two_pow (Nat.lt_of_le_of_lt Nat.and_le_left hw) (by decide)

section Load

variable (nActors : Nat) (s : InputParser) (inputId : Nat) (data : Mem)

/-- The loader on one actor, with the sizes in words. -/
theorem loadActorData_eq (actorId : Nat) :
    loadActorData false nActors s inputId data actorId =
      (copyWords (fun j => fragmentWord nActors s inputId actorId (1024 + j)) 40
        (copyWords (fun j => fragmentWord nActors s inputId actorId (512 + j)) 512
          (copyWords (fragmentWord nActors s inputId actorId) 512
            (copyWords (fun _ => 0) 472
              (data.write (actorId * 16384 + 64) (List.replicate (8 * 504) 0))
              (actorId * 16384 + 12608))
            (actorId * 16384 + 4096))
          (actorId * 16384 + 8192))
        (actorId * 16384 + 12288)).write (actorId * 16384 + 12336)
          (le64 ((fragmentWord nActors s inputId actorId 1030 &&& 2263) ||| 2)) := by
  have hfaulty : (fun j => s.data.word64 (fragmentAddr nActors inputId actorId + 4096 + 8 * j)) =
      fun j => fragmentWord nActors s inputId actorId (512 + j) := by
    funext j
    rw [fragmentWord]
    congr 1
    omega
  have hreg : (fun j => s.data.word64 (fragmentAddr nActors inputId actorId + 8192 + 8 * j)) =
      fun j => fragmentWord nActors s inputId actorId (1024 + j) := by
    funext j
    rw [fragmentWord]
    congr 1
    omega
  have hsizes : DataField.underflowPad.size = 8 * 504 ∧ DataField.overflowPad.size / 8 = 472 ∧
      DataField.mainArea.size / 8 = 512 ∧ DataField.faultyArea.size / 8 = 512 ∧
      DataField.regInitArea.size / 8 = 40 ∧ sizeofActorData = 16384 := by decide
  have hoffsets : DataField.underflowPad.offset = 64 ∧ DataField.mainArea.offset = 4096 ∧
      DataField.faultyArea.offset = 8192 ∧ DataField.regInitArea.offset = 12288 ∧
      DataField.overflowPad.offset = 12608 := by decide
  obtain ⟨hs₁, hs₂, hs₃, hs₄, hs₅, hs₆⟩ := hsizes
  obtain ⟨ho₁, ho₂, ho₃, ho₄, ho₅⟩ := hoffsets
  simp only [loadActorData, hs₁, hs₂, hs₃, hs₄, hs₅, hs₆, ho₁, ho₂, ho₃, ho₄, ho₅, hfaulty, hreg,
    Bool.false_eq_true, if_false]
  rfl

/-- Every word of the section of the actor, by the area it lies in. -/
theorem loadActorData_word (actorId : Nat) {k : Nat} (hk : k < 2048) :
    (loadActorData false nActors s inputId data actorId).word64 (actorId * 16384 + 8 * k) =
      sectionWord (fragmentWord nActors s inputId actorId)
        (data.word64 (actorId * 16384 + 8 * k)) k := by
  have hlt : ∀ j, fragmentWord nActors s inputId actorId j < 2 ^ 64 := fun j => word64_lt _ _
  rw [loadActorData_eq, sectionWord]
  by_cases hflags : k = 1542
  · subst hflags
    have hword : le64 ((fragmentWord nActors s inputId actorId 1030 &&& 2263) ||| 2) =
        encodeWords [(fragmentWord nActors s inputId actorId 1030 &&& 2263) ||| 2] := by
      simp [encodeWords]
    rw [hword, if_neg (by omega), if_neg (by omega), if_pos rfl]
    exact word64_write_encodeWords _ (j := 0) rfl (patched_lt (hlt 1030))
  rw [word64_write_other _ (by rw [length_le64]; omega), if_neg hflags]
  by_cases hreg : 1536 ≤ k ∧ k < 1576
  · rw [copyWords_word (j := k - 1536) (by omega) (by omega) (by exact hlt _), if_neg (by omega),
      if_neg (by omega), if_pos (by omega), show 1024 + (k - 1536) = k - 512 by omega]
  rw [copyWords_other (by omega)]
  by_cases hfaulty : 1024 ≤ k ∧ k < 1536
  · rw [copyWords_word (j := k - 1024) (by omega) (by omega) (by exact hlt _), if_neg (by omega),
      if_neg (by omega), if_pos (by omega), show 512 + (k - 1024) = k - 512 by omega]
  rw [copyWords_other (by omega)]
  by_cases hmain : 512 ≤ k ∧ k < 1024
  · rw [copyWords_word (j := k - 512) (by omega) (by omega) (by exact hlt _), if_neg (by omega),
      if_neg (by omega), if_pos (by omega)]
  rw [copyWords_other (by omega)]
  by_cases hover : 1576 ≤ k
  · rw [copyWords_word (j := k - 1576) (by omega) (by omega) (by decide), if_neg (by omega),
      if_neg (by omega), if_neg (by omega)]
  rw [copyWords_other (by omega)]
  by_cases hunder : 8 ≤ k
  · have hzero : (List.replicate 504 0)[k - 8]? = some 0 := by
      rw [List.getElem?_replicate, if_pos (by omega)]
    have hword : (data.write (actorId * 16384 + 64) (encodeWords (List.replicate 504 0))).word64
        (actorId * 16384 + 64 + 8 * (k - 8)) = 0 := word64_write_encodeWords data hzero (by decide)
    rw [encodeWords_replicate_zero] at hword
    rw [if_neg (by omega), if_pos (by omega),
      show actorId * 16384 + 8 * k = actorId * 16384 + 64 + 8 * (k - 8) by omega, hword]
  rw [word64_write_other _ (by rw [List.length_replicate]; omega), if_pos (by omega)]

/-- The sections of the other actors stay. -/
theorem loadActorData_other {actorId a k : Nat} (ha : a ≠ actorId) (hk : k < 2048) :
    (loadActorData false nActors s inputId data actorId).word64 (a * 16384 + 8 * k) =
      data.word64 (a * 16384 + 8 * k) := by
  have hapart : ∀ off len, off + len ≤ 16384 →
      a * 16384 + 8 * k + 8 ≤ actorId * 16384 + off ∨
        actorId * 16384 + off + len ≤ a * 16384 + 8 * k := by
    intro off len hle
    rcases Nat.lt_or_gt_of_ne ha with hlt | hgt
    · left
      omega
    · right
      omega
  rw [loadActorData_eq, word64_write_other _ (by rw [length_le64]; exact hapart _ _ (by omega)),
    copyWords_other (by exact hapart _ _ (by omega)),
    copyWords_other (by exact hapart _ _ (by omega)),
    copyWords_other (by exact hapart _ _ (by omega)),
    copyWords_other (by exact hapart _ _ (by omega)),
    word64_write_other _ (by rw [List.length_replicate]; exact hapart _ _ (by omega))]

/-- `load_sandbox_data` fills the section of every actor from the actor's fragment. -/
theorem loadSandboxData_word (a : Nat) {k : Nat} (hk : k < 2048) :
    (loadSandboxData false nActors s inputId data).data.word64 (a * 16384 + 8 * k) =
      if a < nActors then
        sectionWord (fragmentWord nActors s inputId a) (data.word64 (a * 16384 + 8 * k)) k
      else data.word64 (a * 16384 + 8 * k) := by
  have hloop : ∀ n, ((List.range n).foldl (loadActorData false nActors s inputId) data).word64
      (a * 16384 + 8 * k) =
        if a < n then
          sectionWord (fragmentWord nActors s inputId a) (data.word64 (a * 16384 + 8 * k)) k
        else data.word64 (a * 16384 + 8 * k) := by
    intro n
    induction n with
    | zero => simp
    | succ n ih =>
      rw [List.range_succ, List.foldl_append, List.foldl_cons, List.foldl_nil]
      by_cases ha : a = n
      · subst ha
        rw [loadActorData_word _ _ _ _ _ hk, ih, if_neg (Nat.lt_irrefl a),
          if_pos (Nat.lt_succ_self a)]
      · rw [loadActorData_other _ _ _ _ ha hk, ih]
        by_cases hlt : a < n
        · rw [if_pos hlt, if_pos (Nat.lt_succ_of_lt hlt)]
        · rw [if_neg hlt, if_neg (by omega)]
  exact hloop nActors

end Load

end Rvzr.Km
