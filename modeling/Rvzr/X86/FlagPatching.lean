import Mathlib.Data.Finset.SDiff
import Mathlib.Data.Finset.Lattice.Basic
import Mathlib.Data.Finset.Dedup
import Rvzr.Lib.DefUse
import Rvzr.Lib.Folds
import Rvzr.X86.Instruction

/-!
# Patches for undefined flags

`_X86PatchUndefinedFlagsPass` (`rvzr/arch/x86/generator.py:697-847`). Walking a basic block from its
end, the pass keeps the flags that are still to be set and inserts instructions behind every
instruction that leaves one of them undefined. The chosen instructions are inserted one after the
other directly behind the instruction, so the first one chosen ends up last: a later choice that
leaves undefined a flag it relies on others to have patched comes too early
(`patchFlagsInBb_safe_iff`).
-/

namespace Rvzr.X86

open Rvzr.Lib

/-! ### The pass -/

/-- The exceptions of the pass: `_find_flags_patch` and the entry of the block raise `ValueError`,
a patch without a flags operand fails an assertion, and a condition operand is not supported. -/
inductive PassError where
  | noPatch (initial notPatched : List Flag)
  | noPlace
  | noFlagsOperand
  | notImplemented
  deriving DecidableEq, Repr

/-- `_X86SandboxPass.requires_sandbox`. -/
def requiresSandbox (inst : InstructionSpec) : Bool :=
  inst.hasMemOperand || ["div", "rex div"].contains inst.name ||
    ["bt", "btc", "btr", "bts", "lock bt", "lock btc", "lock btr", "lock bts"].contains inst.name ||
    ["BASE-SHIFT", "BASE-ROTATE"].contains inst.category

/-- The values of the FLAGS operands of a specification. -/
def InstructionSpec.flagsValues (spec : InstructionSpec) : List FlagType :=
  ((spec.operands ++ spec.implicitOperands).filterMap OperandSpec.flagsOp?).flatMap
    fun v => Flag.all.map v.flagValues

/-- `__init__`: the instructions of the set that are safe on their own, read no flag and overwrite
some. -/
def patchCandidates (instructions : List InstructionSpec) : List InstructionSpec :=
  instructions.filter fun spec =>
    !spec.isControlFlow && !requiresSandbox spec &&
      !(spec.flagsValues.any fun f => [.r, .rw, .rcw].contains f) && spec.flagsValues.contains .w

/-- The values that the operand generators draw: for the `n`-th operand of an instruction, by its
specification. -/
structure Choices where
  value : Nat → OperandSpec → ValueOp
  cond : Nat → List String → String

/-- `_OperandGenerator.generate`; flags next to a condition are not implemented. -/
def generateOperand (c : Choices) (n : Nat) (hasCond : Bool) :
    OperandSpec → Except PassError Operand
  | .flags values => if hasCond then .error .notImplemented else .ok (.flags values)
  | .cond values => .ok (.cond (c.cond n values))
  | spec => .ok (.value (c.value n spec))

/-- The loop over the explicit operands; `done` are the operands generated so far. -/
def generateOperands (c : Choices) (n : Nat) (done : List Operand) :
    List OperandSpec → Except PassError (List Operand)
  | [] => .ok done
  | spec :: rest => do
    let op ← generateOperand c n (done.any Operand.isCond) spec
    generateOperands c (n + 1) (done ++ [op]) rest

/-- The loop over the implicit operands. -/
def generateImplicit (c : Choices) (n : Nat) (explicit : List Operand) :
    List OperandSpec → Except PassError (List Operand)
  | [] => .ok []
  | spec :: rest => do
    let op ← generateOperand c n (explicit.any Operand.isCond) spec
    let ops ← generateImplicit c (n + 1) explicit rest
    return op :: ops

/-- `_InstructionGenerator.generate`. -/
def generateInstruction (c : Choices) (spec : InstructionSpec) (isInstrumentation : Bool) :
    Except PassError Instruction := do
  let operands ← generateOperands c 0 [] spec.operands
  let implicitOperands ← generateImplicit c spec.operands.length operands spec.implicitOperands
  return ⟨spec.name, spec.category, isInstrumentation, false, operands, implicitOperands⟩

/-- The loop of `_find_flags_patch`; `k` counts the generated instructions. It returns the patches
and the flags that are left. -/
def findFlagsPatchLoop (choices : Nat → Choices) (flagsToSet : Finset Flag) :
    List InstructionSpec → Nat → List Flag →
      Except PassError (List Instruction × List Flag × Nat)
  | [], k, undefFlags => .ok ([], undefFlags, k)
  | spec :: rest, k, undefFlags => do
    let patch ← generateInstruction (choices k) spec true
    match patch.getFlagsOperand with
    | none => throw .noFlagsOperand
    | some patchFlags =>
      let newUndefFlags := (patchFlags.getFlagsByType .undef).filter fun i =>
        i ∉ undefFlags ∧ i ∈ flagsToSet
      let notPatchedFlags := undefFlags.filter fun i => i ∉ patchFlags.getFlagsByType .write
      if newUndefFlags = [] ∧ notPatchedFlags ≠ undefFlags then
        if notPatchedFlags = [] then return ([patch], [], k + 1)
        let r ← findFlagsPatchLoop choices flagsToSet rest (k + 1) notPatchedFlags
        return (patch :: r.1, r.2)
      else findFlagsPatchLoop choices flagsToSet rest (k + 1) undefFlags

/-- `_find_flags_patch`. -/
def findFlagsPatch (choices : Nat → Choices) (candidates : List InstructionSpec)
    (undefFlags : List Flag) (flagsToSet : Finset Flag) (k : Nat) :
    Except PassError (List Instruction × Nat) := do
  let r ← findFlagsPatchLoop choices flagsToSet candidates k undefFlags
  if r.2.1 ≠ [] then throw (.noPatch undefFlags r.2.1)
  return (r.1, r.2.2)

/-- The body of the backward walk, for a node in front of `tail`. -/
def visitNode (choices : Nat → Choices) (candidates : List InstructionSpec) (node : Instruction)
    (tail : List Instruction) (flagsToSet : Finset Flag) (k : Nat) :
    Except PassError (List Instruction × Finset Flag × Nat) :=
  match node.getFlagsOperand with
  | none => .ok (node :: tail, flagsToSet, k)
  | some flags =>
    if node.isFromTemplate then .ok (node :: tail, flagsToSet, k)
    else do
      let undefFlags := (flags.getFlagsByType .undef).filter fun i => i ∈ flagsToSet
      let patches ← (if undefFlags = [] then .ok ([], k)
        else findFlagsPatch choices candidates undefFlags flagsToSet k)
      -- `insert_after(node, patch)` puts each patch directly behind the node
      let tail := patches.1.foldl (fun tail patch => patch :: tail) tail
      let flagsToSet := patches.1.foldl
        (fun toSet patch => toSet \ (patch.flagsByType .write).toFinset) flagsToSet
      let flagsToSet := flagsToSet \ (flags.getFlagsByType .write).toFinset ∪
        (flags.getFlagsByType .read).toFinset
      return (node :: tail, flagsToSet, patches.2)

/-- The backward walk over the nodes of a block. -/
def patchNodes (choices : Nat → Choices) (candidates : List InstructionSpec) :
    List Instruction → Finset Flag → Except PassError (List Instruction × Finset Flag × Nat)
  | [], flagsToSet => .ok ([], flagsToSet, 0)
  | node :: rest, flagsToSet => do
    let r ← patchNodes choices candidates rest flagsToSet
    visitNode choices candidates node r.1 r.2.1 r.2.2

/-- A basic block without template instructions. Macros have label operands only, and, as the pass
assumes, terminators do not modify flags. -/
structure BasicBlock where
  instructions : List Instruction
  terminators : List Instruction
  noTemplate : ∀ i ∈ instructions, i.isFromTemplate = false
  macroFlags : ∀ i ∈ instructions, i.name = "macro" → i.getFlagsOperand = none
  terminatorFlags : ∀ i ∈ terminators, i.flagsByType .write = [] ∧ i.flagsByType .undef = []

/-- The flags that the terminators read. -/
def BasicBlock.terminatorReads (bb : BasicBlock) : Finset Flag :=
  bb.terminators.foldl (fun toSet term => toSet ∪ (term.flagsByType .read).toFinset) ∅

/-- `_patch_flags_in_bb`: the instructions of the block afterwards. `list(flags_to_set)` has some
order, on which the choice of the patches does not depend. -/
def patchFlagsInBb (choices : Nat → Choices) (candidates : List InstructionSpec)
    (bb : BasicBlock) : Except PassError (List Instruction) := do
  let r ← patchNodes choices candidates bb.instructions bb.terminatorReads
  if r.2.1 = ∅ then return r.1
  let macros := r.1.takeWhile fun i => i.name = "macro"
  let entry := r.1.dropWhile fun i => i.name = "macro"
  if entry = [] then throw .noPlace
  let patches ← findFlagsPatch choices candidates (Flag.all.filter fun f => f ∈ r.2.1) r.2.1 r.2.2
  -- `insert_before(entry_node, patch)` keeps the order of the patches
  return macros ++ patches.1 ++ entry

/-! ### Flags of generated patches -/

section Generated

variable {c : Choices}

/-- The flags operand that an instruction of a specification has. -/
def InstructionSpec.flagsOp (spec : InstructionSpec) : Option FlagsOp :=
  (spec.implicitOperands ++ spec.operands).findSome? OperandSpec.flagsOp?

/-- The flags that the instructions of a specification read, write or leave undefined. -/
def InstructionSpec.flagsByType (spec : InstructionSpec) (type_ : FlagQuery) : List Flag :=
  (spec.flagsOp.map fun op => op.getFlagsByType type_).getD []

theorem generateOperand_flagsOp {n : Nat} {hasCond : Bool} {spec : OperandSpec} {op : Operand}
    (h : generateOperand c n hasCond spec = .ok op) : op.flagsOp? = spec.flagsOp? := by
  cases spec with
  | flags values =>
    cases hasCond with
    | true => simp [generateOperand] at h
    | false =>
      obtain rfl := Except.ok.inj h
      rfl
  | cond values =>
    obtain rfl := Except.ok.inj h
    rfl
  | _ =>
    obtain rfl := Except.ok.inj h
    rfl

theorem generateOperands_flagsOp {n : Nat} {done ops : List Operand} {specs : List OperandSpec}
    (h : generateOperands c n done specs = .ok ops) :
    ops.map Operand.flagsOp? = done.map Operand.flagsOp? ++ specs.map OperandSpec.flagsOp? := by
  induction specs generalizing n done with
  | nil =>
    obtain rfl := Except.ok.inj h
    simp
  | cons spec specs ih =>
    obtain ⟨op, hop, hrest⟩ := except_bind_ok h
    rw [ih hrest]
    simp [generateOperand_flagsOp hop]

theorem generateImplicit_flagsOp {n : Nat} {explicit ops : List Operand}
    {specs : List OperandSpec} (h : generateImplicit c n explicit specs = .ok ops) :
    ops.map Operand.flagsOp? = specs.map OperandSpec.flagsOp? := by
  induction specs generalizing n ops with
  | nil =>
    obtain rfl := Except.ok.inj h
    rfl
  | cons spec specs ih =>
    obtain ⟨op, hop, h⟩ := except_bind_ok h
    obtain ⟨ops', hops, h⟩ := except_bind_ok h
    obtain rfl := Except.ok.inj h
    rw [List.map_cons, List.map_cons, generateOperand_flagsOp hop, ih hops]

theorem findSome?_eq_of_map {α β γ : Type} {f : α → Option γ} {g : β → Option γ} {xs : List α}
    {ys : List β} (h : xs.map f = ys.map g) : xs.findSome? f = ys.findSome? g := by
  have hid : ∀ {δ : Type} (k : δ → Option γ) (zs : List δ),
      zs.findSome? k = (zs.map k).findSome? id := by
    intro δ k zs
    rw [List.findSome?_map]
    rfl
  rw [hid f, hid g, h]

/-- A generated instruction has the flags operand of its specification. -/
theorem generateInstruction_flagsOp {spec : InstructionSpec} {b : Bool} {i : Instruction}
    (h : generateInstruction c spec b = .ok i) : i.getFlagsOperand = spec.flagsOp := by
  obtain ⟨ops, hops, h⟩ := except_bind_ok h
  obtain ⟨implicitOps, himplicit, h⟩ := except_bind_ok h
  obtain rfl := Except.ok.inj h
  refine findSome?_eq_of_map ?_
  have hexplicit := generateOperands_flagsOp hops
  rw [List.map_nil, List.nil_append] at hexplicit
  rw [List.map_append, List.map_append, hexplicit, generateImplicit_flagsOp himplicit]

theorem generateInstruction_flagsByType {spec : InstructionSpec} {b : Bool} {i : Instruction}
    (h : generateInstruction c spec b = .ok i) (type_ : FlagQuery) :
    i.flagsByType type_ = spec.flagsByType type_ := by
  rw [Instruction.flagsByType, generateInstruction_flagsOp h, InstructionSpec.flagsByType]

/-- A candidate reads no flag. -/
theorem patchCandidates_reads {instructions : List InstructionSpec} {spec : InstructionSpec}
    (h : spec ∈ patchCandidates instructions) : spec.flagsByType .read = [] := by
  have hread := (List.mem_filter.mp h).2
  simp only [Bool.and_eq_true, Bool.not_eq_true', List.any_eq_false] at hread
  rw [List.eq_nil_iff_forall_not_mem]
  intro f hf
  rw [InstructionSpec.flagsByType] at hf
  cases hop : spec.flagsOp with
  | none => simp [hop] at hf
  | some op =>
    rw [hop] at hf
    have hvalue : op.flagValues f ∈ FlagQuery.read.flagTypes := by simpa using hf
    -- the operand is one of those that the filter looked at
    obtain ⟨spec', hspec', hop'⟩ := List.exists_of_findSome?_eq_some hop
    have hmem : op.flagValues f ∈ spec.flagsValues := by
      refine List.mem_flatMap.mpr ⟨op, List.mem_filterMap.mpr ⟨spec', ?_, hop'⟩, ?_⟩
      · simpa [or_comm] using hspec'
      · exact List.mem_map.mpr ⟨f, Flag.mem_all f, rfl⟩
    exact hread.1.2 _ hmem (by simpa [FlagQuery.flagTypes] using hvalue)

end Generated

/-! ### The choice of patches -/

/-- A candidate that leaves none of the flags in `toSet` undefined. -/
def Harmless (toSet : Finset Flag) (c : InstructionSpec) : Prop :=
  ∀ f ∈ c.flagsByType .undef, f ∉ toSet

instance (toSet : Finset Flag) (c : InstructionSpec) : Decidable (Harmless toSet c) :=
  inferInstanceAs (Decidable (∀ f ∈ _, _))

/-- The flags of `undef` that `c` does not write. -/
def leftBy (c : InstructionSpec) (undef : List Flag) : List Flag :=
  undef.filter fun f => f ∉ c.flagsByType .write

/-- What makes the pass choose `c`: of the flags in `toSet` it leaves undefined only some that are
to be patched anyway, and it patches one of those. -/
def Suits (toSet : Finset Flag) (undef : List Flag) (c : InstructionSpec) : Prop :=
  (∀ f ∈ c.flagsByType .undef, f ∈ toSet → f ∈ undef) ∧ leftBy c undef ≠ undef

instance (toSet : Finset Flag) (undef : List Flag) (c : InstructionSpec) :
    Decidable (Suits toSet undef c) := inferInstanceAs (Decidable (_ ∧ _))

/-- Taking the candidates in order, and those that are harmless for `toSet` off the flags still to
be patched, one of the others suits. -/
def suitsHarmful (toSet : Finset Flag) : List Flag → List InstructionSpec → Bool
  | _, [] => false
  | undef, c :: rest =>
    if Harmless toSet c then suitsHarmful toSet (leftBy c undef) rest
    else decide (Suits toSet undef c) || suitsHarmful toSet undef rest

/-- The flags that the harmless candidates write which suit, in order. -/
def writtenByHarmless (toSet : Finset Flag) : List Flag → List InstructionSpec → Finset Flag
  | _, [] => ∅
  | undef, c :: rest =>
    if Harmless toSet c ∧ leftBy c undef ≠ undef then
      (c.flagsByType .write).toFinset ∪ writtenByHarmless toSet (leftBy c undef) rest
    else writtenByHarmless toSet undef rest

/-- How the patches for `undef` are chosen from the candidates: which patches, and which flags are
left. -/
inductive Picked (toSet : Finset Flag) :
    List InstructionSpec → List Flag → List Instruction → List Flag → Prop
  | nil {undef : List Flag} : Picked toSet [] undef [] undef
  | done {candidates : List InstructionSpec} : Picked toSet candidates [] [] []
  | pick {c : InstructionSpec} {rest : List InstructionSpec} {undef left : List Flag}
      {patch : Instruction} {patches : List Instruction}
      (hflags : ∀ type_, patch.flagsByType type_ = c.flagsByType type_)
      (hsuits : Suits toSet undef c) (h : Picked toSet rest (leftBy c undef) patches left) :
      Picked toSet (c :: rest) undef (patch :: patches) left
  | skip {c : InstructionSpec} {rest : List InstructionSpec} {undef left : List Flag}
      {patches : List Instruction} (hsuits : ¬ Suits toSet undef c)
      (h : Picked toSet rest undef patches left) : Picked toSet (c :: rest) undef patches left

theorem findFlagsPatchLoop_picked {choices : Nat → Choices} {toSet : Finset Flag}
    {candidates : List InstructionSpec} {k : Nat} {undef : List Flag}
    {r : List Instruction × List Flag × Nat}
    (h : findFlagsPatchLoop choices toSet candidates k undef = .ok r) :
    Picked toSet candidates undef r.1 r.2.1 := by
  induction candidates generalizing k undef r with
  | nil =>
    obtain rfl := Except.ok.inj h
    exact .nil
  | cons c rest ih =>
    obtain ⟨patch, hpatch, h⟩ := except_bind_ok h
    have hflags := generateInstruction_flagsByType hpatch
    cases hop : patch.getFlagsOperand with
    | none => simp [hop, throw, throwThe, MonadExceptOf.throw] at h
    | some op =>
      simp only [hop] at h
      have hby : ∀ type_, op.getFlagsByType type_ = c.flagsByType type_ := by
        intro type_
        rw [← hflags, Instruction.flagsByType, hop]
        rfl
      -- the test of the loop is `Suits`
      have htest : (((op.getFlagsByType .undef).filter fun i => i ∉ undef ∧ i ∈ toSet) = [] ∧
          (undef.filter fun i => i ∉ op.getFlagsByType .write) ≠ undef) ↔ Suits toSet undef c := by
        rw [Suits, leftBy, hby, hby, List.filter_eq_nil_iff]
        refine and_congr_left fun _ => forall₂_congr fun f _ => ?_
        simp only [decide_eq_true_eq, not_and, not_imp_comm]
        tauto
      by_cases hsuits : Suits toSet undef c
      · rw [if_pos (htest.mpr hsuits)] at h
        by_cases hleft : (undef.filter fun i => i ∉ op.getFlagsByType .write) = []
        · rw [if_pos hleft] at h
          obtain rfl := Except.ok.inj h
          refine .pick hflags hsuits ?_
          rw [leftBy, ← hby, hleft]
          exact .done
        · rw [if_neg hleft] at h
          obtain ⟨r', hr', h⟩ := except_bind_ok h
          obtain rfl := Except.ok.inj h
          rw [hby] at hr'
          exact .pick hflags hsuits (ih hr')
      · rw [if_neg (mt htest.mp hsuits)] at h
        exact .skip hsuits (ih h)

theorem findFlagsPatch_picked {choices : Nat → Choices} {toSet : Finset Flag}
    {candidates : List InstructionSpec} {k : Nat} {undef : List Flag} {r : List Instruction × Nat}
    (h : findFlagsPatch choices candidates undef toSet k = .ok r) :
    Picked toSet candidates undef r.1 [] := by
  obtain ⟨r', hr', h⟩ := except_bind_ok h
  have hpicked := findFlagsPatchLoop_picked hr'
  by_cases hleft : r'.2.1 = []
  · rw [if_neg (not_not.mpr hleft)] at h
    obtain rfl := Except.ok.inj h
    rwa [hleft] at hpicked
  · rw [if_pos hleft] at h
    simp [throw, throwThe, MonadExceptOf.throw, bind, Except.bind] at h

/-- What instructions do with flags. -/
def flagEffects : Effects Instruction Flag where
  reads i f := f ∈ i.flagsByType .read
  writes i f := f ∈ i.flagsByType .write
  undefs i f := f ∈ i.flagsByType .undef
  disjoint := by
    intro i f hu hw
    obtain ⟨op, hop, hu⟩ := Instruction.mem_flagsByType.mp hu
    obtain ⟨op', hop', hw⟩ := Instruction.mem_flagsByType.mp hw
    obtain rfl := Option.some.inj (hop.symm.trans hop')
    rw [FlagQuery.flagTypes, List.mem_singleton] at hu
    simp [hu, FlagQuery.flagTypes] at hw

section Picked

variable {toSet : Finset Flag} {candidates : List InstructionSpec} {undef left : List Flag}
  {patches : List Instruction}

theorem mem_leftBy {c : InstructionSpec} {f : Flag} :
    f ∈ leftBy c undef ↔ f ∈ undef ∧ f ∉ c.flagsByType .write := by
  simp [leftBy]

theorem suitsHarmful_nil (toSet : Finset Flag) (candidates : List InstructionSpec) :
    suitsHarmful toSet [] candidates = false := by
  induction candidates with
  | nil => rfl
  | cons c rest ih => simp [suitsHarmful, Suits, leftBy, ih]

theorem writtenByHarmless_nil (toSet : Finset Flag) (candidates : List InstructionSpec) :
    writtenByHarmless toSet [] candidates = ∅ := by
  induction candidates with
  | nil => rfl
  | cons c rest ih => simp [writtenByHarmless, leftBy, ih]

/-- A harmless candidate does not suit only if it patches nothing. -/
theorem leftBy_of_not_suits {c : InstructionSpec} (hc : Harmless toSet c)
    (hsuits : ¬ Suits toSet undef c) : leftBy c undef = undef := by
  by_contra hne
  exact hsuits ⟨fun f hf hset => absurd hset (hc f hf), hne⟩

theorem Picked.mem_candidates (h : Picked toSet candidates undef patches left) {p : Instruction}
    (hp : p ∈ patches) : ∃ c ∈ candidates, ∀ type_, p.flagsByType type_ = c.flagsByType type_ := by
  induction h with
  | nil => exact absurd hp List.not_mem_nil
  | done => exact absurd hp List.not_mem_nil
  | @pick c rest _ _ patch _ hflags _ _ ih =>
    rcases List.mem_cons.mp hp with rfl | hp
    · exact ⟨c, List.mem_cons_self, hflags⟩
    · obtain ⟨c', hc', h'⟩ := ih hp
      exact ⟨c', List.mem_cons_of_mem _ hc', h'⟩
  | skip _ _ ih =>
    obtain ⟨c', hc', h'⟩ := ih hp
    exact ⟨c', List.mem_cons_of_mem _ hc', h'⟩

/-- Every flag is written by a patch or left. -/
theorem Picked.covers (h : Picked toSet candidates undef patches left) {f : Flag}
    (hf : f ∈ undef) : f ∈ left ∨ ∃ p ∈ patches, flagEffects.writes p f := by
  induction h with
  | nil => exact Or.inl hf
  | done => exact absurd hf List.not_mem_nil
  | @pick c rest _ _ patch _ hflags _ _ ih =>
    by_cases hw : f ∈ c.flagsByType .write
    · rw [← hflags] at hw
      exact Or.inr ⟨patch, List.mem_cons_self, hw⟩
    · rcases ih (mem_leftBy.mpr ⟨hf, hw⟩) with hleft | ⟨p, hp, hpw⟩
      · exact Or.inl hleft
      · exact Or.inr ⟨p, List.mem_cons_of_mem _ hp, hpw⟩
  | skip _ _ ih => exact ih hf

/-- What a patch leaves undefined is to be patched, and no earlier choice has patched it. -/
theorem Picked.ordered (h : Picked toSet candidates undef patches left) {a b : List Instruction}
    {p : Instruction} (hsplit : patches = a ++ p :: b) {f : Flag} (hu : flagEffects.undefs p f)
    (hf : f ∈ toSet) : f ∈ undef ∧ ∀ q ∈ a, ¬ flagEffects.writes q f := by
  induction h generalizing a with
  | nil => simp at hsplit
  | done => simp at hsplit
  | @pick c rest _ _ patch _ hflags hsuits _ ih =>
    cases a with
    | nil =>
      obtain ⟨rfl, rfl⟩ := List.cons.inj hsplit
      exact ⟨hsuits.1 f (hflags .undef ▸ hu) hf, by simp⟩
    | cons q a =>
      obtain ⟨rfl, rfl⟩ := List.cons.inj hsplit
      obtain ⟨hleft, ha⟩ := ih rfl
      obtain ⟨hundef, hw⟩ := mem_leftBy.mp hleft
      refine ⟨hundef, List.forall_mem_cons.mpr ⟨fun hq => hw (hflags .write ▸ hq), ha⟩⟩
  | skip _ _ ih => exact ih hsplit

/-- A patch leaves a flag of `toSet` undefined exactly when a harmful candidate suits. -/
theorem Picked.harmful_iff (h : Picked toSet candidates undef patches left) :
    (∃ p ∈ patches, ∃ f ∈ toSet, flagEffects.undefs p f) ↔
      suitsHarmful toSet undef candidates = true := by
  induction h with
  | nil => simp [suitsHarmful]
  | done => simp [suitsHarmful_nil]
  | @pick c rest _ _ patch _ hflags hsuits _ ih =>
    rw [suitsHarmful]
    by_cases hc : Harmless toSet c
    · rw [if_pos hc, ← ih, List.exists_mem_cons_iff]
      refine or_iff_right ?_
      rintro ⟨f, hf, hu⟩
      exact hc f (hflags .undef ▸ hu) hf
    · rw [if_neg hc]
      simp only [hsuits, decide_true, Bool.true_or, iff_true]
      obtain ⟨f, hu, hf⟩ := by simpa [Harmless] using hc
      rw [← hflags] at hu
      exact ⟨patch, List.mem_cons_self, f, hf, hu⟩
  | @skip c rest _ _ _ hsuits _ ih =>
    rw [suitsHarmful, ih]
    by_cases hc : Harmless toSet c
    · rw [if_pos hc, leftBy_of_not_suits hc hsuits]
    · rw [if_neg hc]
      simp [hsuits]

/-- If no harmful candidate suits, the patches are the harmless ones that do. -/
theorem Picked.writes_iff (h : Picked toSet candidates undef patches left)
    (hharmless : suitsHarmful toSet undef candidates = false) (f : Flag) :
    (∃ p ∈ patches, flagEffects.writes p f) ↔ f ∈ writtenByHarmless toSet undef candidates := by
  induction h with
  | nil => simp [writtenByHarmless]
  | done => simp [writtenByHarmless_nil]
  | @pick c rest _ _ patch _ hflags hsuits _ ih =>
    rw [suitsHarmful] at hharmless
    by_cases hc : Harmless toSet c
    · rw [if_pos hc] at hharmless
      rw [writtenByHarmless, if_pos ⟨hc, hsuits.2⟩, Finset.mem_union, List.mem_toFinset,
        ← ih hharmless, List.exists_mem_cons_iff, ← hflags]
      rfl
    · rw [if_neg hc] at hharmless
      simp [hsuits] at hharmless
  | @skip c rest _ _ _ hsuits _ ih =>
    rw [suitsHarmful] at hharmless
    by_cases hc : Harmless toSet c
    · have hleft := leftBy_of_not_suits hc hsuits
      rw [if_pos hc, hleft] at hharmless
      rw [writtenByHarmless, if_neg (fun hand => hand.2 hleft), ih hharmless]
    · rw [if_neg hc, Bool.or_eq_false_iff] at hharmless
      rw [writtenByHarmless, if_neg (fun hand => hc hand.1), ih hharmless.2]

end Picked

/-! ### Inserted patches -/

section Inserted

variable {out : Flag → Prop} {tail patches : List Instruction}
  (hreads : ∀ p ∈ patches, ∀ f, ¬ flagEffects.reads p f)
include hreads

theorem needs_patches (f : Flag) : flagEffects.needs out (patches ++ tail) f ↔
    flagEffects.needs out tail f ∧ ∀ p ∈ patches, ¬ flagEffects.writes p f := by
  induction patches with
  | nil => simp
  | cons p patches ih =>
    rw [List.cons_append, Effects.needs, ih fun q hq => hreads q (List.mem_cons_of_mem _ hq),
      List.forall_mem_cons]
    have hp := hreads p List.mem_cons_self f
    tauto

/-- The patches behind a node stand in the reverse order: they are clean exactly when none leaves a
flag undefined that is needed behind all of them. -/
theorem clean_insertAfter
    (hordered : ∀ a p b, patches = a ++ p :: b → ∀ f, flagEffects.undefs p f →
      flagEffects.needs out tail f → ∀ q ∈ a, ¬ flagEffects.writes q f) :
    flagEffects.Clean out (patches.reverse ++ tail) ↔ flagEffects.Clean out tail ∧
      ∀ p ∈ patches, ∀ f, flagEffects.undefs p f → ¬ flagEffects.needs out tail f := by
  induction patches using List.reverseRecOn with
  | nil => simp
  | append_singleton a p ih =>
    have hreads' : ∀ q ∈ a, ∀ f, ¬ flagEffects.reads q f :=
      fun q hq => hreads q (List.mem_append_left _ hq)
    have hordered' : ∀ b q c, a = b ++ q :: c → ∀ f, flagEffects.undefs q f →
        flagEffects.needs out tail f → ∀ r ∈ b, ¬ flagEffects.writes r f := by
      rintro b q c rfl
      exact hordered b q (c ++ [p]) (by simp)
    have hneeds : ∀ f, flagEffects.undefs p f → (flagEffects.needs out (a.reverse ++ tail) f ↔
        flagEffects.needs out tail f) := by
      intro f hu
      rw [needs_patches fun q hq => hreads' q (List.mem_reverse.mp hq)]
      refine and_iff_left_of_imp fun hf q hq => ?_
      exact hordered a p [] rfl f hu hf q (List.mem_reverse.mp hq)
    rw [List.reverse_append, List.reverse_singleton, List.singleton_append, List.cons_append,
      Effects.Clean, ih hreads' hordered']
    have hp : (∀ f, flagEffects.undefs p f → ¬ flagEffects.needs out (a.reverse ++ tail) f) ↔
        ∀ f, flagEffects.undefs p f → ¬ flagEffects.needs out tail f :=
      forall₂_congr fun f hu => not_congr (hneeds f hu)
    rw [hp, List.forall_mem_append, List.forall_mem_singleton]
    tauto

/-- The patches at the entry keep their order: each is followed by those that patch what it leaves
undefined. -/
theorem clean_insertBefore
    (hordered : ∀ a p b, patches = a ++ p :: b → ∀ f, flagEffects.undefs p f →
      flagEffects.needs out tail f → ∀ q ∈ a, ¬ flagEffects.writes q f)
    (hcovers : ∀ f, flagEffects.needs out tail f → ∃ p ∈ patches, flagEffects.writes p f) :
    flagEffects.Clean out (patches ++ tail) ↔ flagEffects.Clean out tail := by
  rw [Effects.clean_append]
  refine and_iff_right_of_imp fun _ => ?_
  have hsuffix : ∀ a b, patches = a ++ b →
      flagEffects.Clean (flagEffects.needs out tail) b := by
    intro a b
    induction b generalizing a with
    | nil => exact fun _ => trivial
    | cons p b ih =>
      intro hsplit
      refine ⟨fun f hu hneeds => ?_, ih (a ++ [p]) (by simp [hsplit])⟩
      rw [← Effects.needs_append, needs_patches] at hneeds
      · obtain ⟨q, hq, hw⟩ := hcovers f hneeds.1
        rw [hsplit] at hq
        rcases List.mem_append.mp hq with hqa | hqb
        · exact hordered a p b hsplit f hu hneeds.1 q hqa hw
        · rcases List.mem_cons.mp hqb with rfl | hqb
          · exact flagEffects.disjoint q f hu hw
          · exact hneeds.2 q hqb hw
      · exact fun q hq => hreads q (by simp [hsplit, hq])
  exact hsuffix [] patches rfl

end Inserted

/-! ### The walk -/

/-- The flags that `node` leaves undefined of those that are needed behind it. -/
def undefNeeded (node : Instruction) (needed : Finset Flag) : List Flag :=
  (node.flagsByType .undef).filter fun f => f ∈ needed

/-- The flags needed before a list of instructions, if `toSet` is needed behind them and behind
every instruction the harmless candidates that suit are inserted. -/
def neededBefore (candidates : List InstructionSpec) (toSet : Finset Flag) :
    List Instruction → Finset Flag
  | [] => toSet
  | node :: rest =>
    let needed := neededBefore candidates toSet rest
    (needed \ writtenByHarmless needed (undefNeeded node needed) candidates) \
      (node.flagsByType .write).toFinset ∪ (node.flagsByType .read).toFinset

/-- Behind no instruction a candidate suits that leaves a needed flag undefined. -/
def NoHarmfulPatch (candidates : List InstructionSpec) (toSet : Finset Flag) :
    List Instruction → Prop
  | [] => True
  | node :: rest =>
    suitsHarmful (neededBefore candidates toSet rest)
      (undefNeeded node (neededBefore candidates toSet rest)) candidates = false ∧
    NoHarmfulPatch candidates toSet rest

/-- The flags that the instructions of a block read are defined inside the block. -/
def SafeFlags (instructions : List Instruction) (bb : BasicBlock) : Prop :=
  flagEffects.ReadsDefined (instructions ++ bb.terminators)

section Walk

variable {choices : Nat → Choices} {candidates : List InstructionSpec} {toSet : Finset Flag}

theorem mem_discardAll {patches : List Instruction} {f : Flag} :
    f ∈ patches.foldl (fun toSet patch => toSet \ (patch.flagsByType .write).toFinset) toSet ↔
      f ∈ toSet ∧ ∀ p ∈ patches, ¬ flagEffects.writes p f := by
  induction patches generalizing toSet with
  | nil => simp
  | cons p patches ih =>
    rw [List.foldl_cons, ih, Finset.mem_sdiff, List.mem_toFinset, List.forall_mem_cons, and_assoc]
    rfl

theorem foldl_cons_eq_reverse {α : Type} (xs tail : List α) :
    xs.foldl (fun tail x => x :: tail) tail = xs.reverse ++ tail := by
  induction xs generalizing tail with
  | nil => rfl
  | cons x xs ih => rw [List.foldl_cons, ih, List.reverse_cons, List.append_assoc]; rfl

/-- What the walk does at a node: patches for the needed flags that it leaves undefined stand behind
it, and the set is updated. -/
theorem visitNode_picked {node : Instruction} {tail : List Instruction} {k : Nat}
    {r : List Instruction × Finset Flag × Nat} (htemplate : node.isFromTemplate = false)
    (h : visitNode choices candidates node tail toSet k = .ok r) :
    ∃ patches, Picked toSet candidates (undefNeeded node toSet) patches [] ∧
      r.1 = node :: (patches.reverse ++ tail) ∧
      ∀ f, f ∈ r.2.1 ↔ flagEffects.reads node f ∨ (¬ flagEffects.writes node f ∧ f ∈ toSet ∧
        ∀ p ∈ patches, ¬ flagEffects.writes p f) := by
  rw [visitNode] at h
  cases hop : node.getFlagsOperand with
  | none =>
    rw [hop] at h
    obtain rfl := Except.ok.inj h
    have hempty : ∀ type_, node.flagsByType type_ = [] := by
      intro type_
      rw [Instruction.flagsByType, hop]
      rfl
    refine ⟨[], ?_, rfl, fun f => ?_⟩
    · rw [undefNeeded, hempty]
      exact .done
    · simp [flagEffects, hempty]
  | some flags =>
    have hby : ∀ type_, flags.getFlagsByType type_ = node.flagsByType type_ := by
      intro type_
      rw [Instruction.flagsByType, hop]
      rfl
    simp only [hop, htemplate, Bool.false_eq_true, if_false] at h
    obtain ⟨patches, hpatches, h⟩ := except_bind_ok h
    obtain rfl := Except.ok.inj h
    refine ⟨patches.1, ?_, by rw [foldl_cons_eq_reverse], fun f => ?_⟩
    · rw [undefNeeded, ← hby]
      by_cases hundef : ((flags.getFlagsByType .undef).filter fun i => i ∈ toSet) = []
      · rw [if_pos hundef] at hpatches
        obtain rfl := Except.ok.inj hpatches
        rw [hundef]
        exact .done
      · rw [if_neg hundef] at hpatches
        exact findFlagsPatch_picked hpatches
    · simp only [Finset.mem_union, Finset.mem_sdiff, List.mem_toFinset, mem_discardAll, hby,
        flagEffects]
      tauto

variable (hcandidates : ∀ c ∈ candidates, c.flagsByType .read = [])
include hcandidates

theorem Picked.reads {undef left : List Flag} {patches : List Instruction}
    (h : Picked toSet candidates undef patches left) :
    ∀ p ∈ patches, ∀ f, ¬ flagEffects.reads p f := by
  intro p hp f hread
  obtain ⟨c, hc, hflags⟩ := h.mem_candidates hp
  have hmem : f ∈ p.flagsByType .read := hread
  rw [hflags, hcandidates c hc] at hmem
  exact absurd hmem List.not_mem_nil

/-- One step of the walk: the set stays the set of needed flags; the block stays clean exactly when
no harmful candidate suits; and then the needed flags are those of `neededBefore`. -/
theorem visitNode_spec {out : Flag → Prop} {node : Instruction} {tail : List Instruction} {k : Nat}
    {r : List Instruction × Finset Flag × Nat} (htemplate : node.isFromTemplate = false)
    (htail : ∀ f, f ∈ toSet ↔ flagEffects.needs out tail f)
    (h : visitNode choices candidates node tail toSet k = .ok r) :
    (∀ f, f ∈ r.2.1 ↔ flagEffects.needs out r.1 f) ∧
    (flagEffects.Clean out r.1 ↔ suitsHarmful toSet (undefNeeded node toSet) candidates = false ∧
      flagEffects.Clean out tail) ∧
    (suitsHarmful toSet (undefNeeded node toSet) candidates = false →
      r.2.1 = (toSet \ writtenByHarmless toSet (undefNeeded node toSet) candidates) \
        (node.flagsByType .write).toFinset ∪ (node.flagsByType .read).toFinset) := by
  obtain ⟨patches, hpicked, hr, hset⟩ := visitNode_picked htemplate h
  have hreads := hpicked.reads hcandidates
  have hneeds : ∀ f, flagEffects.needs out (patches.reverse ++ tail) f ↔
      f ∈ toSet ∧ ∀ p ∈ patches, ¬ flagEffects.writes p f := by
    intro f
    rw [needs_patches fun p hp => hreads p (List.mem_reverse.mp hp), ← htail]
    simp only [List.mem_reverse]
  -- a needed flag that the node leaves undefined is written by a patch
  have hnode : ∀ f, flagEffects.undefs node f →
      ¬ flagEffects.needs out (patches.reverse ++ tail) f := by
    intro f hu hf
    obtain ⟨hf, hw⟩ := (hneeds f).mp hf
    have hmem : f ∈ undefNeeded node toSet := List.mem_filter.mpr ⟨hu, by simpa using hf⟩
    obtain ⟨p, hp, hpw⟩ := (hpicked.covers hmem).resolve_left List.not_mem_nil
    exact hw p hp hpw
  have hharmful : (∀ p ∈ patches, ∀ f, flagEffects.undefs p f →
      ¬ flagEffects.needs out tail f) ↔
      suitsHarmful toSet (undefNeeded node toSet) candidates = false := by
    rw [← Bool.not_eq_true, ← hpicked.harmful_iff]
    simp only [← htail, not_exists, not_and, imp_not_comm]
  refine ⟨fun f => ?_, ?_, fun hfalse => ?_⟩
  · rw [hset, hr, Effects.needs, hneeds]
  · rw [hr, Effects.Clean, and_iff_right hnode, clean_insertAfter hreads, hharmful, and_comm]
    rintro a p b hsplit f hu hf
    exact (hpicked.ordered hsplit hu ((htail f).mpr hf)).2
  · ext f
    simp only [hset, Finset.mem_union, Finset.mem_sdiff, List.mem_toFinset,
      ← hpicked.writes_iff hfalse f, flagEffects, not_exists, not_and]
    tauto

/-- The whole walk. -/
theorem patchNodes_spec {instructions : List Instruction}
    {r : List Instruction × Finset Flag × Nat}
    (htemplate : ∀ i ∈ instructions, i.isFromTemplate = false)
    (h : patchNodes choices candidates instructions toSet = .ok r) :
    (∀ f, f ∈ r.2.1 ↔ flagEffects.needs (· ∈ toSet) r.1 f) ∧
    (flagEffects.Clean (· ∈ toSet) r.1 ↔ NoHarmfulPatch candidates toSet instructions) ∧
    (NoHarmfulPatch candidates toSet instructions →
      r.2.1 = neededBefore candidates toSet instructions) := by
  induction instructions generalizing r with
  | nil =>
    obtain rfl := Except.ok.inj h
    exact ⟨fun f => Iff.rfl, Iff.rfl, fun _ => rfl⟩
  | cons node rest ih =>
    obtain ⟨r', hr', h⟩ := except_bind_ok h
    obtain ⟨hset, hclean, hneeded⟩ :=
      ih (fun i hi => htemplate i (List.mem_cons_of_mem _ hi)) hr'
    obtain ⟨hset', hclean', hneeded'⟩ :=
      visitNode_spec hcandidates (htemplate node List.mem_cons_self) hset h
    refine ⟨hset', ?_, ?_⟩
    · rw [hclean', hclean, NoHarmfulPatch]
      exact and_congr_left fun hrest => by rw [hneeded hrest]
    · rintro ⟨hnode, hrest⟩
      rw [← hneeded hrest] at hnode
      rw [hneeded' hnode, neededBefore, ← hneeded hrest]

end Walk

/-! ### The entry of the block -/

section Entry

variable {choices : Nat → Choices} {candidates : List InstructionSpec} {toSet : Finset Flag}

/-- No patch is chosen when nothing is to be patched. -/
theorem Picked.eq_nil {undef left : List Flag} {patches : List Instruction}
    (h : Picked toSet candidates undef patches left) (hundef : undef = []) : patches = [] := by
  induction h with
  | nil => rfl
  | done => rfl
  | pick _ hsuits _ _ =>
    subst hundef
    exact absurd (by simp [leftBy]) hsuits.2
  | skip _ _ ih => exact ih hundef

/-- The macros in front of the entry are those of the original block. -/
theorem patchNodes_macros {instructions : List Instruction}
    {r : List Instruction × Finset Flag × Nat}
    (htemplate : ∀ i ∈ instructions, i.isFromTemplate = false)
    (hexpand : ∀ i ∈ instructions, i.name = "macro" → i.getFlagsOperand = none)
    (h : patchNodes choices candidates instructions toSet = .ok r) :
    ∀ i ∈ r.1.takeWhile fun i => i.name = "macro", i.getFlagsOperand = none := by
  induction instructions generalizing r with
  | nil =>
    obtain rfl := Except.ok.inj h
    simp
  | cons node rest ih =>
    obtain ⟨r', hr', h⟩ := except_bind_ok h
    obtain ⟨patches, hpicked, hr, -⟩ := visitNode_picked (htemplate node List.mem_cons_self) h
    rw [hr]
    by_cases hname : node.name = "macro"
    · have hnone := hexpand node List.mem_cons_self hname
      have hempty : undefNeeded node r'.2.1 = [] := by
        simp [undefNeeded, Instruction.flagsByType, hnone]
      obtain rfl := hpicked.eq_nil hempty
      rw [List.takeWhile_cons_of_pos (by simpa using hname), List.reverse_nil, List.nil_append]
      refine List.forall_mem_cons.mpr ⟨hnone, ?_⟩
      exact ih (fun i hi => htemplate i (List.mem_cons_of_mem _ hi))
        (fun i hi => hexpand i (List.mem_cons_of_mem _ hi)) hr'
    · rw [List.takeWhile_cons_of_neg (by simpa using hname)]
      simp

theorem mem_terminatorReads {bb : BasicBlock} {f : Flag} :
    f ∈ bb.terminatorReads ↔ ∃ t ∈ bb.terminators, flagEffects.reads t f := by
  have hall : ∀ (terms : List Instruction) (s : Finset Flag),
      f ∈ terms.foldl (fun toSet term => toSet ∪ (term.flagsByType .read).toFinset) s ↔
        f ∈ s ∨ ∃ t ∈ terms, flagEffects.reads t f := by
    intro terms
    induction terms with
    | nil => simp
    | cons t terms ih =>
      intro s
      rw [List.foldl_cons, ih, Finset.mem_union, List.mem_toFinset, List.exists_mem_cons_iff,
        or_assoc]
      rfl
  simpa [BasicBlock.terminatorReads] using hall bb.terminators ∅

/-- Behind the instructions the flags that the terminators read are needed. -/
theorem safeFlags_iff {instructions : List Instruction} {bb : BasicBlock} :
    SafeFlags instructions bb ↔
      (∀ f, ¬ flagEffects.needs (· ∈ bb.terminatorReads) instructions f) ∧
        flagEffects.Clean (· ∈ bb.terminatorReads) instructions := by
  have hneeds : ∀ terms : List Instruction, (∀ t ∈ terms, t.flagsByType .write = []) →
      ∀ f, flagEffects.needs (fun _ => False) terms f ↔ ∃ t ∈ terms, flagEffects.reads t f := by
    intro terms hterms f
    induction terms with
    | nil => simp [Effects.needs]
    | cons t terms ih =>
      have hw : ¬ flagEffects.writes t f := by
        simp [flagEffects, hterms t List.mem_cons_self]
      rw [Effects.needs, ih fun t ht => hterms t (List.mem_cons_of_mem _ ht),
        List.exists_mem_cons_iff]
      simp [hw]
  have hout : flagEffects.needs (fun _ => False) bb.terminators = (· ∈ bb.terminatorReads) := by
    funext f
    rw [eq_iff_iff, hneeds _ fun t ht => (bb.terminatorFlags t ht).1, mem_terminatorReads]
  have hclean : flagEffects.Clean (fun _ => False) bb.terminators :=
    Effects.clean_of_idle fun t ht f => by simp [flagEffects, (bb.terminatorFlags t ht).2]
  rw [SafeFlags, Effects.readsDefined_iff, Effects.needs_append, Effects.clean_append, hout,
    and_iff_left hclean]

/-- When the pass returns, no undefined flag is read exactly when behind no instruction a candidate
suits that leaves a needed flag undefined. -/
theorem patchFlagsInBb_safe_iff {instructionSet : List InstructionSpec} {bb : BasicBlock}
    {instructions : List Instruction}
    (h : patchFlagsInBb choices (patchCandidates instructionSet) bb = .ok instructions) :
    SafeFlags instructions bb ↔
      NoHarmfulPatch (patchCandidates instructionSet) bb.terminatorReads bb.instructions := by
  have hcandidates : ∀ c ∈ patchCandidates instructionSet, c.flagsByType .read = [] :=
    fun c hc => patchCandidates_reads hc
  obtain ⟨r, hr, h⟩ := except_bind_ok h
  obtain ⟨hset, hclean, -⟩ := patchNodes_spec hcandidates bb.noTemplate hr
  rw [safeFlags_iff, ← hclean]
  by_cases hempty : r.2.1 = ∅
  · rw [if_pos hempty] at h
    obtain rfl := Except.ok.inj h
    refine and_iff_right fun f hf => ?_
    rw [← hset, hempty] at hf
    exact absurd hf (Finset.notMem_empty f)
  · rw [if_neg hempty] at h
    by_cases hentry : (r.1.dropWhile fun i => i.name = "macro") = []
    · rw [if_pos hentry] at h
      simp [throw, throwThe, MonadExceptOf.throw, bind, Except.bind] at h
    · rw [if_neg hentry] at h
      obtain ⟨p, hp, h⟩ := except_bind_ok h
      obtain rfl := Except.ok.inj h
      have hpicked := findFlagsPatch_picked hp
      have hreads := hpicked.reads hcandidates
      have hmacros := patchNodes_macros bb.noTemplate bb.macroFlags hr
      have hsplit := List.takeWhile_append_dropWhile (p := fun i => i.name = "macro") (l := r.1)
      generalize (r.1.takeWhile fun i => i.name = "macro") = macros at hmacros hsplit ⊢
      generalize (r.1.dropWhile fun i => i.name = "macro") = entry at hsplit ⊢
      have hidle : ∀ i ∈ macros, ∀ type_, i.flagsByType type_ = [] := by
        intro i hi type_
        simp [Instruction.flagsByType, hmacros i hi]
      have hmacroNeeds : ∀ (out : Flag → Prop) f, flagEffects.needs out macros f ↔ out f :=
        fun out => Effects.needs_of_idle fun i hi f => by simp [flagEffects, hidle i hi]
      have hmacroClean : ∀ out : Flag → Prop, flagEffects.Clean out macros :=
        fun out => Effects.clean_of_idle fun i hi f => by simp [flagEffects, hidle i hi]
      rw [← hsplit] at hset ⊢
      -- what is needed at the entry is patched there
      have hentryNeeds : ∀ f, f ∈ r.2.1 ↔
          flagEffects.needs (· ∈ bb.terminatorReads) entry f := by
        intro f
        rw [hset, Effects.needs_append, hmacroNeeds]
      have hcovers : ∀ f, flagEffects.needs (· ∈ bb.terminatorReads) entry f →
          ∃ q ∈ p.1, flagEffects.writes q f := by
        intro f hf
        have hmem : f ∈ Flag.all.filter fun f => f ∈ r.2.1 := by
          simpa [Flag.mem_all] using (hentryNeeds f).mpr hf
        exact (hpicked.covers hmem).resolve_left List.not_mem_nil
      have hordered : ∀ a q b, p.1 = a ++ q :: b → ∀ f, flagEffects.undefs q f →
          flagEffects.needs (· ∈ bb.terminatorReads) entry f →
            ∀ q' ∈ a, ¬ flagEffects.writes q' f :=
        fun a q b hab f hu hf => (hpicked.ordered hab hu ((hentryNeeds f).mpr hf)).2
      have hinserted : flagEffects.Clean (· ∈ bb.terminatorReads) (macros ++ (p.1 ++ entry)) ↔
          flagEffects.Clean (· ∈ bb.terminatorReads) (macros ++ entry) := by
        rw [Effects.clean_append, clean_insertBefore hreads hordered hcovers, Effects.clean_append,
          and_iff_right (hmacroClean _), and_iff_right (hmacroClean _)]
      rw [List.append_assoc, hinserted]
      refine and_iff_right fun f hf => ?_
      rw [Effects.needs_append, hmacroNeeds, needs_patches hreads] at hf
      obtain ⟨q, hq, hw⟩ := hcovers f hf.1
      exact hf.2 q hq hw

end Entry

/-! ### A block with a harmful patch -/

section Sample

/-- An instruction set with two instructions that can patch flags, with the flags of `bsf` and of
`add`. -/
def sampleInstructionSet : List InstructionSpec :=
  [⟨"bsf", "BASE-BITBYTE", false, [.reg [⟨.a, .q⟩] 64 false true, .reg [⟨.b, .q⟩] 64 true false],
      [.flags (.ofList [.undef, .undef, .undef, .w, .undef, .blank, .blank, .blank, .undef])],
      false⟩,
    ⟨"add", "BASE-BINARY", false, [.reg [⟨.a, .q⟩] 64 true true, .reg [⟨.b, .q⟩] 64 true false],
      [.flags (.ofList [.w, .w, .w, .w, .w, .blank, .blank, .blank, .w])], false⟩]

/-- `div` leaves the flags undefined that `jle` reads. -/
def sampleDiv : Instruction :=
  ⟨"div", "BASE-BINARY", false, false, [.value (.reg ⟨.b, .q⟩ 64 true false)],
    [.flags (.ofList [.undef, .undef, .undef, .undef, .undef, .blank, .blank, .blank, .undef])]⟩

def sampleJle : Instruction :=
  ⟨"jle", "BASE-COND_BR", false, false, [.value (.label ".bb_0.1")],
    [.flags (.ofList [.blank, .blank, .blank, .r, .r, .blank, .blank, .blank, .r])]⟩

def sampleBlock : BasicBlock where
  instructions := [sampleDiv]
  terminators := [sampleJle]
  noTemplate := by simp [sampleDiv]
  macroFlags := by simp [sampleDiv]
  terminatorFlags := by
    rw [List.forall_mem_singleton]
    exact ⟨rfl, rfl⟩

/-- Every drawn operand is RAX. -/
def sampleChoices : Nat → Choices := fun _ => ⟨fun _ _ => .reg ⟨.a, .q⟩ 64 true true, fun _ _ => ""⟩

/-- The pass puts `add`, which was chosen second, in front of `bsf`. -/
theorem sample_patched : ∃ x y z, patchFlagsInBb sampleChoices
    (patchCandidates sampleInstructionSet) sampleBlock = .ok [x, y, z] ∧
    z.name = "bsf" ∧ z.flagsByType .write = [.zf] ∧ Flag.sf ∈ z.flagsByType .undef := by
  have hmap : (patchFlagsInBb sampleChoices (patchCandidates sampleInstructionSet) sampleBlock).map
      (fun is => is.map fun i => (i.name, i.flagsByType .write, i.flagsByType .undef)) =
      .ok [("div", [], [.cf, .pf, .af, .zf, .sf, .of]),
        ("add", [.cf, .pf, .af, .zf, .sf, .of], []),
        ("bsf", [.zf], [.cf, .pf, .af, .sf, .of])] := by decide +kernel
  cases hrun : patchFlagsInBb sampleChoices (patchCandidates sampleInstructionSet) sampleBlock with
  | error e =>
    rw [hrun] at hmap
    exact absurd hmap (by simp [Except.map])
  | ok is =>
    rw [hrun] at hmap
    have his := Except.ok.inj hmap
    have hlength : is.length = 3 := by simpa using congrArg List.length his
    obtain ⟨x, y, z, rfl⟩ := List.length_eq_three.mp hlength
    simp only [List.map_cons, List.map_nil, List.cons.injEq, Prod.mk.injEq] at his
    obtain ⟨-, -, ⟨hname, hwrite, hundef⟩, -⟩ := his
    exact ⟨x, y, z, rfl, hname, hwrite, by simp [hundef]⟩

/-- `jle` reads SF, which the last instruction of the patched block leaves undefined. -/
theorem sample_undefined_read : ¬ ∀ (instructionSet : List InstructionSpec)
    (choices : Nat → Choices) (bb : BasicBlock) (instructions : List Instruction),
    patchFlagsInBb choices (patchCandidates instructionSet) bb = .ok instructions →
      SafeFlags instructions bb := by
  intro h
  obtain ⟨x, y, z, hrun, -, hwrite, hundef⟩ := sample_patched
  have hsafe := h sampleInstructionSet sampleChoices sampleBlock [x, y, z] hrun
  have hread : flagEffects.reads sampleJle .sf := by
    have hmem : Flag.sf ∈ sampleJle.flagsByType .read := by decide +kernel
    exact hmem
  have hlast : flagEffects.LastWrites ([x, y] ++ [z]) .sf :=
    hsafe [x, y, z] sampleJle [] rfl .sf hread
  rcases Effects.lastWrites_concat.mp hlast with hw | ⟨-, hu⟩
  · have hmem : Flag.sf ∈ z.flagsByType .write := hw
    simp [hwrite] at hmem
  · exact hu hundef

/-- The condition at the sample: `bsf` suits, although it leaves SF and OF undefined. -/
theorem sample_safe_iff : ∃ instructions, patchFlagsInBb sampleChoices
    (patchCandidates sampleInstructionSet) sampleBlock = .ok instructions ∧
    (SafeFlags instructions sampleBlock ↔ NoHarmfulPatch (patchCandidates sampleInstructionSet)
      sampleBlock.terminatorReads sampleBlock.instructions) := by
  obtain ⟨x, y, z, hrun, -⟩ := sample_patched
  exact ⟨[x, y, z], hrun, patchFlagsInBb_safe_iff hrun⟩

end Sample

end Rvzr.X86
