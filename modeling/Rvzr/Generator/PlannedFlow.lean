import Mathlib.Data.List.Nodup
import Rvzr.Generator.Functions
import Rvzr.Lib.Answers
import Rvzr.Lib.Dag
import Rvzr.Lib.Folds
import Rvzr.Lib.Lines

/-!
# Control flow of generated functions

The plan of a function is the graph of its `successors` lists; its control flow is what the printed
lines say: the labels of the branches of a block and, unless the block ends in an unconditional
jump, the next label. `generateMain_plannedFlow` says that the two agree and that the plan is a
graph without cycles from the first block to the exit.
-/

namespace Rvzr.Generator

open Rvzr.Lib Relation

/-! ## Control flow of printed lines -/

/-- The instructions before the first label, and the instructions after each label. -/
def textBlocks : List Line → List Instruction × List (Text × List Instruction)
  | [] => ([], [])
  | .label name :: lines => ([], (name, (textBlocks lines).1) :: (textBlocks lines).2)
  | .instruction inst :: lines => (inst :: (textBlocks lines).1, (textBlocks lines).2)

/-- The labels of the branches of a block. -/
def branchTargets (insts : List Instruction) : List Text :=
  (insts.filter fun inst => inst.spec.isControlFlow).filterMap Instruction.label

def endsInJump (isa : InstructionSet) (insts : List Instruction) : Bool :=
  insts.getLast?.any fun inst => inst.spec.isControlFlow &&
    lowerText inst.spec.name == lowerText isa.unconditionalJump.name

/-- Where the control goes from a block of the text: to the branch targets, and to the block below
if it does not end in a jump. -/
def textSuccessors (isa : InstructionSet) (blocks : List (Text × List Instruction)) (k : Nat) :
    List Text :=
  match blocks[k]? with
  | none => []
  | some (_, insts) =>
    branchTargets insts ++
      if endsInJump isa insts then [] else (blocks[k + 1]?.map Prod.fst).toList

/-! ## The plan -/

/-- An edge of the planned graph. -/
def Function.Edge (f : Function) : BlockRef → BlockRef → Prop
  | .node i, b => ∃ bb, f.blocks[i]? = some bb ∧ b ∈ bb.successors
  | .exit, _ => False

/-- The position of a block in the function. -/
def Function.rank (f : Function) : BlockRef → Nat
  | .node i => i
  | .exit => f.blocks.length

/-- The last block of a path. -/
def pathEnd (b : BlockRef) (path : List BlockRef) : BlockRef := (b :: path).getLast (by simp)

/-- The function has the control flow it was planned with. Block `i` of the function is block
`i + 1` of the printed lines, after the label of the function. -/
structure PlannedFlow (isa : InstructionSet) (f : Function) : Prop where
  acyclic : ∀ b, ¬ TransGen f.Edge b b
  reachable : (∀ i < f.blocks.length, ReflTransGen f.Edge (.node 0) (.node i)) ∧
    ReflTransGen f.Edge (.node 0) .exit
  successors : ∀ bb ∈ f.blocks, (bb.successors.length = 1 ∨ bb.successors.length = 2) ∧
    bb.successors.Nodup
  labels : ((textBlocks (printFunction f)).2.map Prod.fst).Nodup
  printed : ∀ (i : Nat) (bb : BasicBlock), f.blocks[i]? = some bb →
    textSuccessors isa (textBlocks (printFunction f)).2 (i + 1) =
      bb.successors.map fun b => lowerText (f.nameOf b)
  ends : ∀ path, (BlockRef.node 0 :: path).IsChain f.Edge → path.length ≤ f.blocks.length ∧
    ((∀ b, ¬ f.Edge (pathEnd (.node 0) path) b) → pathEnd (.node 0) path = .exit)
  exit : textSuccessors isa (textBlocks (printFunction f)).2 (f.blocks.length + 1) = [tcExitLabel]

/-! ## Planning -/

section Plan

variable {isa : InstructionSet} {conf : Config} {rand : Choices}

/-- What the successors of block `i` of `n` are. -/
def Planned (n i : Nat) (successors : List BlockRef) : Prop :=
  (i + 1 = n ∧ successors = [.exit]) ∨
    (i + 1 < n ∧ (successors = [.node (i + 1)] ∨
      ∃ t, successors = [.node (i + 1), t] ∧
        (t = .exit ∨ ∃ j, t = .node j ∧ i + 1 < j ∧ j < n)))

theorem successorBound_le_two (isa : InstructionSet) (bound : Nat) : successorBound isa bound ≤ 2 := by
  unfold successorBound
  split
  · split
    · omega
    · omega
  · omega

theorem successorBound_pos (isa : InstructionSet) {bound : Nat} (h : 1 ≤ bound) : 1 ≤ successorBound isa bound := by
  unfold successorBound
  split
  · split
    · exact h
    · omega
  · omega

theorem randint_mem {raw low high n : Nat} (h : randint raw low high = some n) :
    low ≤ n ∧ n ≤ high := by
  unfold randint at h
  split at h
  · have hlt : raw % (high - low + 1) < high - low + 1 := Nat.mod_lt raw (Nat.succ_pos _)
    have heq := Option.some.inj h
    omega
  · exact absurd h (by simp)

theorem choice_mem {α : Type} {raw : Nat} {options : List α} {a : α}
    (h : choice raw options = some a) : a ∈ options := List.mem_of_getElem? h

/-- Up to the last but one, every block can have two successors. -/
theorem pickSuccessors_planned {n i : Nat} {successors : List BlockRef}
    (hmin : 1 ≤ conf.minSuccessorsPerBb) (hi : i + 1 < n)
    (h : pickSuccessors isa conf rand n i = some successors) : Planned n i successors := by
  unfold pickSuccessors at h
  obtain ⟨count, hcount, h⟩ := Option.bind_eq_some_iff.mp h
  obtain ⟨hlow, hhigh⟩ := randint_mem hcount
  have hpos := successorBound_pos isa hmin
  have htwo := successorBound_le_two isa conf.maxSuccessorsPerBb
  -- the number is never adjusted: there are at least two blocks left
  rw [if_neg (by omega)] at h
  obtain ⟨targets, htargets, h⟩ := Option.bind_eq_some_iff.mp h
  cases h
  right
  refine ⟨hi, ?_⟩
  have hcases : count - 1 = 0 ∨ count - 1 = 1 := by omega
  rcases hcases with hzero | hone
  · rw [hzero] at htargets
    cases htargets
    exact Or.inl rfl
  · rw [hone] at htargets
    obtain ⟨t, ht, htargets⟩ := Option.bind_eq_some_iff.mp htargets
    cases htargets
    refine Or.inr ⟨t, rfl, ?_⟩
    rcases List.mem_append.mp (choice_mem ht) with hnode | hexit
    · obtain ⟨j, hj, rfl⟩ := List.mem_map.mp hnode
      rw [List.mem_range'_1] at hj
      exact Or.inr ⟨j, rfl, by omega, by omega⟩
    · exact Or.inl (List.mem_singleton.mp hexit)

/-- The blocks of an empty function. -/
structure EmptyFunction (isa : InstructionSet) (name : Text) (f : Function) : Prop where
  pos : 0 < f.blocks.length
  named : f.name = name
  exit : f.exitBb = ⟨exitName name, [], [], [jumpTo isa tcExitLabel]⟩
  block : ∀ (i : Nat) (bb : BasicBlock), f.blocks[i]? = some bb →
    bb.name = nodeName name i ∧ Planned f.blocks.length i bb.successors ∧
      bb.instructions = [] ∧ bb.terminators = []

theorem nodeCount_pos {n : Nat} (hbb : 1 ≤ conf.minBbPerFunction)
    (h : nodeCount conf rand = some n) : 0 < n := by
  unfold nodeCount at h
  split at h
  · have heq := Option.some.inj h
    omega
  · have hle := (randint_mem h).1
    omega

theorem generateEmpty_spec {name : Text} {f : Function} (hmin : 1 ≤ conf.minSuccessorsPerBb)
    (hbb : 1 ≤ conf.minBbPerFunction) (h : generateEmpty isa conf rand name = some f) :
    EmptyFunction isa name f := by
  unfold generateEmpty at h
  split at h
  · obtain ⟨n, hn, h⟩ := Option.bind_eq_some_iff.mp h
    obtain ⟨blocks, hblocks, h⟩ := Option.bind_eq_some_iff.mp h
    cases h
    obtain ⟨hlen, hblock⟩ := mapM_some hblocks
    rw [List.length_range] at hlen
    have hpos := nodeCount_pos hbb hn
    refine ⟨by rwa [hlen], rfl, rfl, ?_⟩
    intro i bb hbb
    have hlt : i < n := by
      rw [← hlen]
      exact (List.getElem?_eq_some_iff.mp hbb).1
    obtain ⟨bb', hbb', hplan⟩ := hblock i i (by simp [hlt])
    rw [hbb] at hbb'
    cases hbb'
    unfold planBlock at hplan
    rw [hlen]
    by_cases hlast : i + 1 = n
    · rw [if_pos hlast] at hplan
      cases hplan
      exact ⟨rfl, Or.inl ⟨hlast, rfl⟩, rfl, rfl⟩
    · rw [if_neg hlast] at hplan
      obtain ⟨successors, hsucc, rfl⟩ := Option.map_eq_some_iff.mp hplan
      exact ⟨rfl, pickSuccessors_planned hmin (by omega) hsucc, rfl, rfl⟩
  · exact absurd h (by simp)

theorem randint_returns (raw : Nat) {low high : Nat} (h : low ≤ high) :
    ∃ n, randint raw low high = some n := ⟨_, if_pos h⟩

theorem choice_returns {α : Type} (raw : Nat) {options : List α} (h : options ≠ []) :
    ∃ a, choice raw options = some a := by
  have hlt : raw % options.length < options.length :=
    Nat.mod_lt _ (List.length_pos_iff.mpr h)
  exact ⟨_, List.getElem?_eq_getElem hlt⟩

theorem successorBound_mono (isa : InstructionSet) {low high : Nat} (h : low ≤ high) :
    successorBound isa low ≤ successorBound isa high := by
  unfold successorBound
  split
  · split
    · split
      · exact h
      · omega
    · split
      · omega
      · omega
  · exact Nat.le_refl 1

theorem pickSuccessors_returns (isa : InstructionSet) (rand : Choices)
    (hmax : conf.minSuccessorsPerBb ≤ conf.maxSuccessorsPerBb)
    {n i : Nat} (hi : i + 1 < n) :
    ∃ successors, pickSuccessors isa conf rand n i = some successors := by
  obtain ⟨count, hcount⟩ := randint_returns (rand.successorCount i)
    (successorBound_mono isa hmax)
  have htwo := successorBound_le_two isa conf.maxSuccessorsPerBb
  have hhigh := (randint_mem hcount).2
  unfold pickSuccessors
  rw [hcount, Option.bind_eq_bind, Option.bind_some]
  dsimp only
  rw [if_neg (by omega)]
  have hcases : count - 1 = 0 ∨ count - 1 = 1 := by omega
  rcases hcases with hzero | hone
  · rw [hzero]
    exact ⟨_, rfl⟩
  · rw [hone]
    have hoptions : (List.range' (i + 2) (n - (i + 2))).map BlockRef.node ++ [.exit] ≠ [] := by
      simp
    obtain ⟨t, ht⟩ := choice_returns (rand.target i 0) hoptions
    unfold pickTargets
    rw [ht]
    exact ⟨_, rfl⟩

/-- A plan is found for every outcome of the random choices. -/
theorem generateEmpty_returns (hmax : conf.minSuccessorsPerBb ≤ conf.maxSuccessorsPerBb)
    (hbbs : conf.minBbPerFunction ≤ conf.maxBbPerFunction) (name : Text) :
    ∃ f, generateEmpty isa conf rand name = some f := by
  have hcount : ∃ n, nodeCount conf rand = some n := by
    unfold nodeCount
    split
    · exact ⟨_, rfl⟩
    · exact randint_returns _ hbbs
  obtain ⟨n, hn⟩ := hcount
  have hblocks : ∀ i ∈ List.range n, ∃ bb, planBlock isa conf rand name n i = some bb := by
    intro i hi
    have hlt := List.mem_range.mp hi
    unfold planBlock
    by_cases hlast : i + 1 = n
    · exact ⟨_, if_pos hlast⟩
    · rw [if_neg hlast]
      obtain ⟨successors, hs⟩ := pickSuccessors_returns isa rand hmax
        (show i + 1 < n by omega)
      exact ⟨_, by rw [hs]; rfl⟩
  obtain ⟨blocks, hmap, -⟩ := mapM_option_spec hblocks
  unfold generateEmpty
  rw [if_pos (successorBound_mono isa hmax), hn, Option.bind_eq_bind, Option.bind_some, hmap]
  exact ⟨_, rfl⟩

end Plan

/-! ## Filling -/

section Fill

variable {isa : InstructionSet} {conf : Config} {rand : Choices} {f₀ f : Function}

/-- A filled function: the plan is kept, every block has the branches to its successors, and there
are no branches among its other instructions. -/
structure FilledFunction (isa : InstructionSet) (rand : Choices) (f₀ f : Function) : Prop where
  length : f.blocks.length = f₀.blocks.length
  named : f.name = f₀.name
  exit : f.exitBb = f₀.exitBb
  block : ∀ (i : Nat) (bb : BasicBlock), f.blocks[i]? = some bb → ∃ bb₀, f₀.blocks[i]? = some bb₀ ∧
    bb.name = bb₀.name ∧ bb.successors = bb₀.successors ∧
      terminatorsOf isa rand f₀ i bb₀ = some bb.terminators ∧
      ∀ inst ∈ bb.instructions, inst.spec.isControlFlow = false

theorem addTerminatorsInFunction_filled
    (hempty : ∀ bb ∈ f₀.blocks, bb.instructions = [])
    (h : addTerminatorsInFunction isa rand f₀ = some f) : FilledFunction isa rand f₀ f := by
  unfold addTerminatorsInFunction at h
  obtain ⟨blocks, hblocks, rfl⟩ := Option.map_eq_some_iff.mp h
  obtain ⟨hlen, hblock⟩ := mapM_some hblocks
  rw [List.length_zipIdx] at hlen
  refine ⟨hlen, rfl, rfl, ?_⟩
  intro i bb hbb
  have hlt : i < f₀.blocks.length := by
    rw [← hlen]
    exact (List.getElem?_eq_some_iff.mp hbb).1
  have hbb₀ : f₀.blocks[i]? = some f₀.blocks[i] := List.getElem?_eq_getElem hlt
  obtain ⟨bb', hbb', hadd⟩ := hblock i (f₀.blocks[i], i) (by simp [List.getElem?_zipIdx, hbb₀])
  have hsame : some bb = some bb' := hbb.symm.trans hbb'
  cases hsame
  unfold addTerminatorsInBlock at hadd
  split at hadd
  · obtain ⟨ts, hts, rfl⟩ := Option.map_eq_some_iff.mp hadd
    refine ⟨f₀.blocks[i], hbb₀, rfl, rfl, hts, ?_⟩
    dsimp only
    rw [hempty _ (List.getElem_mem hlt)]
    simp
  · exact absurd hadd (by simp)

/-- The specifications of the instructions that fill the blocks. -/
theorem pickSpec_not_controlFlow {k : Nat} {spec : InstructionSpec}
    (h : pickSpec isa conf rand k = some spec) : spec.isControlFlow = false := by
  have hspecs {p : InstructionSpec → Bool} (hp : spec ∈ isa.nonControlFlowSpecs.filter p) :
      spec.isControlFlow = false := by
    have hmem := (List.mem_filter.mp hp).1
    simpa using (List.mem_filter.mp hmem).2
  unfold pickSpec at h
  split at h
  · split at h
    · exact hspecs (choice_mem h)
    · exact hspecs (choice_mem h)
  · exact hspecs (choice_mem h)

theorem FilledFunction.addInstruction {f' : Function} {k : Nat}
    (hfilled : FilledFunction isa rand f₀ f)
    (h : addInstruction isa conf rand f k = some f') : FilledFunction isa rand f₀ f' := by
  unfold Generator.addInstruction at h
  obtain ⟨j, -, h⟩ := Option.bind_eq_some_iff.mp h
  obtain ⟨spec, hspec, h⟩ := Option.bind_eq_some_iff.mp h
  cases h
  refine ⟨by simpa using hfilled.length, hfilled.named, hfilled.exit, ?_⟩
  intro i bb hbb
  dsimp only at hbb
  rw [List.getElem?_modify] at hbb
  obtain ⟨old, hold, hbb⟩ := Option.map_eq_some_iff.mp hbb
  obtain ⟨bb₀, hbb₀, hname, hsucc, hts, hinst⟩ := hfilled.block i old hold
  refine ⟨bb₀, hbb₀, ?_⟩
  split at hbb
  · cases hbb
    refine ⟨hname, hsucc, hts, ?_⟩
    intro inst hmem
    rcases List.mem_append.mp hmem with hmem | hmem
    · exact hinst inst hmem
    · rw [List.mem_singleton.mp hmem]
      exact pickSpec_not_controlFlow hspec
  · cases hbb
    exact ⟨hname, hsucc, hts, hinst⟩

theorem fillFunction_filled (hempty : ∀ bb ∈ f₀.blocks, bb.instructions = [])
    (h : fillFunction isa conf rand f₀ = some f) : FilledFunction isa rand f₀ f := by
  unfold fillFunction at h
  obtain ⟨f₁, hterm, h⟩ := Option.bind_eq_some_iff.mp h
  have hstart := addTerminatorsInFunction_filled hempty hterm
  unfold addInstructionsInFunction at h
  split at h
  · exact foldlM_some_inv (fun b a b' hb hstep => hb.addInstruction hstep) hstart h
  · exact absurd h (by simp)

@[simp] theorem nameOf_node (f : Function) (i : Nat) :
    f.nameOf (.node i) = (f.blocks[i]?.map BasicBlock.name).getD [] := rfl

@[simp] theorem nameOf_exit (f : Function) : f.nameOf .exit = f.exitBb.name := rfl

theorem FilledFunction.nameOf (hfilled : FilledFunction isa rand f₀ f) (b : BlockRef) :
    f.nameOf b = f₀.nameOf b := by
  cases b with
  | exit => rw [nameOf_exit, nameOf_exit, hfilled.exit]
  | node i =>
    rw [nameOf_node, nameOf_node]
    cases hbb : f.blocks[i]? with
    | some bb =>
      obtain ⟨bb₀, hbb₀, hname, -⟩ := hfilled.block i bb hbb
      rw [hbb₀, Option.map_some, Option.map_some, hname]
    | none =>
      have hle := List.getElem?_eq_none_iff.mp hbb
      rw [hfilled.length] at hle
      rw [List.getElem?_eq_none hle]

end Fill

/-! ## The printed lines -/

section Printed

variable {isa : InstructionSet} {f : Function}

theorem textBlocks_instructions (insts : List Instruction) (lines : List Line) :
    textBlocks (insts.map Line.instruction ++ lines) =
      (insts ++ (textBlocks lines).1, (textBlocks lines).2) := by
  induction insts with
  | nil => rfl
  | cons inst insts ih =>
    rw [List.map_cons, List.cons_append, textBlocks, ih]
    rfl

theorem textBlocks_printBasicBlock (bb : BasicBlock) (lines : List Line) :
    textBlocks (printBasicBlock bb ++ lines) =
      ([], (lowerText bb.name, bb.instructions ++ bb.terminators ++ (textBlocks lines).1) ::
        (textBlocks lines).2) := by
  unfold printBasicBlock
  rw [List.cons_append, textBlocks, textBlocks_instructions]

/-- The block of the text that a basic block is printed as. -/
def printedBlock (bb : BasicBlock) : Text × List Instruction :=
  (lowerText bb.name, bb.instructions ++ bb.terminators)

theorem textBlocks_blocks (bbs : List BasicBlock) (last : BasicBlock) :
    textBlocks (bbs.flatMap printBasicBlock ++ printBasicBlock last) =
      ([], (bbs ++ [last]).map printedBlock) := by
  induction bbs with
  | nil =>
    have hlast := textBlocks_printBasicBlock last []
    rw [List.append_nil] at hlast
    rw [List.flatMap_nil, List.nil_append, hlast]
    simp [textBlocks, printedBlock]
  | cons bb bbs ih =>
    rw [List.flatMap_cons, List.append_assoc, textBlocks_printBasicBlock, ih]
    simp [printedBlock]

theorem textBlocks_printFunction (f : Function) :
    (textBlocks (printFunction f)).2 =
      (f.name, []) :: (f.blocks ++ [f.exitBb]).map printedBlock := by
  unfold printFunction
  rw [List.cons_append, textBlocks, textBlocks_blocks]

theorem textBlocks_node {i : Nat} {bb : BasicBlock} (hbb : f.blocks[i]? = some bb) :
    (textBlocks (printFunction f)).2[i + 1]? = some (printedBlock bb) := by
  have hlt : i < f.blocks.length := (List.getElem?_eq_some_iff.mp hbb).1
  rw [textBlocks_printFunction, List.getElem?_cons_succ, List.getElem?_map,
    List.getElem?_append_left hlt, hbb, Option.map_some]

theorem textBlocks_exit :
    (textBlocks (printFunction f)).2[f.blocks.length + 1]? = some (printedBlock f.exitBb) := by
  rw [textBlocks_printFunction, List.getElem?_cons_succ, List.getElem?_map]
  simp

/-- Instructions without branches come before the terminators and change nothing. -/
theorem branchTargets_append {insts terminators : List Instruction}
    (h : ∀ inst ∈ insts, inst.spec.isControlFlow = false) :
    branchTargets (insts ++ terminators) = branchTargets terminators := by
  have hfilter : (insts.filter fun inst => inst.spec.isControlFlow) = [] := by
    rw [List.filter_eq_nil_iff]
    intro inst hmem
    simp [h inst hmem]
  unfold branchTargets
  rw [List.filter_append, hfilter, List.nil_append]

theorem endsInJump_of_not_controlFlow {insts : List Instruction}
    (h : ∀ inst ∈ insts, inst.spec.isControlFlow = false) : endsInJump isa insts = false := by
  unfold endsInJump
  cases hlast : insts.getLast? with
  | none => rfl
  | some inst => simp [h inst (List.mem_of_getLast? hlast)]

theorem unconditionalJump_isControlFlow (isa : InstructionSet) :
    isa.unconditionalJump.isControlFlow = true := by
  unfold InstructionSet.unconditionalJump
  cases isa.arch <;> rfl

theorem endsInJump_jumpTo (insts : List Instruction) (label : Text) :
    endsInJump isa (insts ++ [jumpTo isa label]) = true := by
  simp [endsInJump, jumpTo, unconditionalJump_isControlFlow]

theorem branchTargets_jumpTo (label : Text) : branchTargets [jumpTo isa label] = [label] := by
  simp [branchTargets, jumpTo, unconditionalJump_isControlFlow]

end Printed

/-! ## Labels -/

section Labels

theorem toLower_of_isDigit {c : Char} (h : c.isDigit = true) : c.toLower = c := by
  simp only [Char.isDigit, Bool.and_eq_true, decide_eq_true_eq, ge_iff_le,
    UInt32.le_iff_toNat_le] at h
  unfold Char.toLower
  rw [dif_neg]
  rintro ⟨hupper, -⟩
  rw [ge_iff_le, UInt32.le_iff_toNat_le] at hupper
  exact absurd (Nat.le_trans hupper h.2) (by decide)

theorem lowerText_strNat (n : Nat) : lowerText (strNat n) = strNat n := by
  have hdigits : ∀ c ∈ strNat n, c.toLower = id c := fun c hc =>
    toLower_of_isDigit (isDigit_of_mem_strNat hc)
  exact (List.map_congr_left hdigits).trans (List.map_id _)

theorem strNat_inj {m n : Nat} (h : strNat m = strNat n) : m = n := by
  have hm := pyInt_strNat m
  rw [h, pyInt_strNat n] at hm
  have heq := Option.some.inj hm
  omega

def mainName : Text := ".function_0".toList

theorem nodeName_main (i : Nat) : nodeName mainName i = ".bb_0.".toList ++ strNat i := rfl

theorem nodeName_char (i : Nat) : (nodeName mainName i)[1]? = some 'b' := rfl

theorem lowerText_nodeName (i : Nat) : lowerText (nodeName mainName i) = nodeName mainName i := by
  rw [nodeName_main]
  unfold lowerText
  rw [List.map_append]
  exact congrArg _ (lowerText_strNat i)

theorem lowerText_exitName : lowerText (exitName mainName) = exitName mainName := by decide

end Labels

/-! ## The main function -/

section Main

variable {isa : InstructionSet} {conf : Config} {rand : Choices} {f₀ f : Function}

/-- A main function as it is built: block `i` has its name, planned successors and the branches to
them. -/
structure MainFunction (isa : InstructionSet) (rand : Choices) (f : Function) : Prop where
  pos : 0 < f.blocks.length
  named : f.name = mainName
  exit : f.exitBb = ⟨exitName mainName, [], [], [jumpTo isa tcExitLabel]⟩
  block : ∀ (i : Nat) (bb : BasicBlock), f.blocks[i]? = some bb →
    bb.name = nodeName mainName i ∧ Planned f.blocks.length i bb.successors ∧
      terminatorsOf isa rand f i bb = some bb.terminators ∧
      ∀ inst ∈ bb.instructions, inst.spec.isControlFlow = false

theorem terminatorsOf_congr {i : Nat} {bb₀ bb : BasicBlock}
    (hname : ∀ b, f.nameOf b = f₀.nameOf b) (hsucc : bb.successors = bb₀.successors) :
    terminatorsOf isa rand f i bb = terminatorsOf isa rand f₀ i bb₀ := by
  unfold terminatorsOf
  simp only [hsucc, hname]

theorem generateMain_spec (hmin : 1 ≤ conf.minSuccessorsPerBb) (hbb : 1 ≤ conf.minBbPerFunction)
    (h : generateMain isa conf rand = some f) : MainFunction isa rand f := by
  unfold generateMain at h
  obtain ⟨f₀, hempty, hfill⟩ := Option.bind_eq_some_iff.mp h
  have h₀ := generateEmpty_spec hmin hbb hempty
  have hinsts : ∀ bb ∈ f₀.blocks, bb.instructions = [] := by
    intro bb hmem
    obtain ⟨i, hi⟩ := List.getElem?_of_mem hmem
    exact (h₀.block i bb hi).2.2.1
  have hfilled := fillFunction_filled hinsts hfill
  refine ⟨by rw [hfilled.length]; exact h₀.pos, hfilled.named.trans h₀.named,
    hfilled.exit.trans h₀.exit, ?_⟩
  intro i bb hbb
  obtain ⟨bb₀, hbb₀, hname, hsucc, hts, hinst⟩ := hfilled.block i bb hbb
  obtain ⟨hname₀, hplan, -, -⟩ := h₀.block i bb₀ hbb₀
  refine ⟨hname.trans hname₀, ?_, ?_, hinst⟩
  · rw [hfilled.length, hsucc]
    exact hplan
  · rw [terminatorsOf_congr hfilled.nameOf hsucc]
    exact hts

namespace MainFunction

variable (hmain : MainFunction isa rand f)

include hmain

theorem nameOf_lt {j : Nat} (hj : j < f.blocks.length) :
    f.nameOf (.node j) = nodeName mainName j := by
  have hbb : f.blocks[j]? = some f.blocks[j] := List.getElem?_eq_getElem hj
  rw [nameOf_node, hbb]
  exact (hmain.block j _ hbb).1

/-- Printed in lower case, the names of the blocks are as before. -/
theorem lowerText_nameOf {b : BlockRef} (hb : b = .exit ∨ ∃ j < f.blocks.length, b = .node j) :
    lowerText (f.nameOf b) = f.nameOf b := by
  rcases hb with rfl | ⟨j, hj, rfl⟩
  · rw [nameOf_exit, hmain.exit]
    exact lowerText_exitName
  · rw [hmain.nameOf_lt hj]
    exact lowerText_nodeName j

/-- The successors of a block are later blocks or the exit. -/
theorem successor_later {i : Nat} {bb : BasicBlock} (hbb : f.blocks[i]? = some bb)
    {b : BlockRef} (hb : b ∈ bb.successors) :
    b = .exit ∨ ∃ j, b = .node j ∧ i < j ∧ j < f.blocks.length := by
  rcases (hmain.block i bb hbb).2.1 with ⟨-, hs⟩ | ⟨hlt, hs | ⟨t, hs, ht⟩⟩
  · rw [hs] at hb
    exact Or.inl (List.mem_singleton.mp hb)
  · rw [hs] at hb
    exact Or.inr ⟨i + 1, List.mem_singleton.mp hb, by omega, hlt⟩
  · rw [hs] at hb
    rcases List.mem_cons.mp hb with rfl | hb
    · exact Or.inr ⟨i + 1, rfl, by omega, hlt⟩
    · rw [List.mem_singleton.mp hb]
      rcases ht with rfl | ⟨j, rfl, hij, hj⟩
      · exact Or.inl rfl
      · exact Or.inr ⟨j, rfl, by omega, hj⟩

theorem edge_rank (a b : BlockRef) (hedge : f.Edge a b) : f.rank a < f.rank b := by
  cases a with
  | exit => exact hedge.elim
  | node i =>
    obtain ⟨bb, hbb, hb⟩ := hedge
    have hlt : i < f.blocks.length := (List.getElem?_eq_some_iff.mp hbb).1
    rcases hmain.successor_later hbb hb with rfl | ⟨j, rfl, hij, -⟩
    · exact hlt
    · exact hij

theorem edge_next {i : Nat} (hi : i + 1 < f.blocks.length) :
    f.Edge (.node i) (.node (i + 1)) := by
  have hbb : f.blocks[i]? = some f.blocks[i] := List.getElem?_eq_getElem (by omega)
  refine ⟨f.blocks[i], hbb, ?_⟩
  rcases (hmain.block i _ hbb).2.1 with ⟨hlast, -⟩ | ⟨-, hs | ⟨t, hs, -⟩⟩
  · omega
  · simp [hs]
  · simp [hs]

theorem edge_exit {i : Nat} (hi : i + 1 = f.blocks.length) : f.Edge (.node i) .exit := by
  have hbb : f.blocks[i]? = some f.blocks[i] := List.getElem?_eq_getElem (by omega)
  refine ⟨f.blocks[i], hbb, ?_⟩
  rcases (hmain.block i _ hbb).2.1 with ⟨-, hs⟩ | ⟨hlt, -⟩
  · simp [hs]
  · omega

/-- A path of the plan stays within the function, and it only stops at the exit. -/
theorem path_end {path : List BlockRef} (hpath : (BlockRef.node 0 :: path).IsChain f.Edge) :
    path.length ≤ f.blocks.length ∧
      ((∀ b, ¬ f.Edge (pathEnd (.node 0) path) b) → pathEnd (.node 0) path = .exit) := by
  have hinside : ∀ b ∈ BlockRef.node 0 :: path,
      b = .exit ∨ ∃ j < f.blocks.length, b = .node j := by
    refine path_forall (P := fun b => b = .exit ∨ ∃ j < f.blocks.length, b = .node j) ?_
      (Or.inr ⟨0, hmain.pos, rfl⟩) hpath
    intro a b hedge
    cases a with
    | exit => exact hedge.elim
    | node i =>
      obtain ⟨bb, hbb, hb⟩ := hedge
      rcases hmain.successor_later hbb hb with rfl | ⟨j, rfl, -, hj⟩
      · exact Or.inl rfl
      · exact Or.inr ⟨j, hj, rfl⟩
  constructor
  · have hlen := path_length_le (n := f.blocks.length) hmain.edge_rank hpath ?_
    · exact (Nat.zero_add _).symm.trans_le hlen
    · intro b hb
      rcases hinside b hb with rfl | ⟨j, hj, rfl⟩
      · exact Nat.le_refl _
      · exact Nat.le_of_lt hj
  · intro hstop
    rcases hinside (pathEnd (.node 0) path) (List.getLast_mem _) with hexit | ⟨j, hj, hnode⟩
    · exact hexit
    · rw [hnode] at hstop
      by_cases hlast : j + 1 = f.blocks.length
      · exact absurd (hmain.edge_exit hlast) (hstop _)
      · exact absurd (hmain.edge_next (by omega)) (hstop _)

theorem labels_nodup : ((textBlocks (printFunction f)).2.map Prod.fst).Nodup := by
  have hnames : f.blocks.map (fun bb => lowerText bb.name) =
      (List.range f.blocks.length).map (nodeName mainName) := by
    apply List.ext_getElem?
    intro i
    rw [List.getElem?_map, List.getElem?_map]
    cases hbb : f.blocks[i]? with
    | none => rw [List.getElem?_eq_none (by simpa using hbb)]; rfl
    | some bb =>
      have hlt : i < f.blocks.length := (List.getElem?_eq_some_iff.mp hbb).1
      rw [List.getElem?_range hlt, Option.map_some, Option.map_some, (hmain.block i bb hbb).1,
        lowerText_nodeName]
  have hall : (textBlocks (printFunction f)).2.map Prod.fst =
      mainName :: ((List.range f.blocks.length).map (nodeName mainName) ++
        [exitName mainName]) := by
    rw [textBlocks_printFunction, List.map_cons, List.map_map, List.map_append, ← hnames,
      hmain.named, hmain.exit]
    rfl
  rw [hall, List.nodup_cons, List.nodup_append]
  refine ⟨?_, ?_, by simp, ?_⟩
  · intro hmem
    rcases List.mem_append.mp hmem with hnode | hexit
    · obtain ⟨i, -, hi⟩ := List.mem_map.mp hnode
      have hchar := congrArg (fun t => t[1]?) hi
      exact absurd ((nodeName_char i).symm.trans hchar) (by decide)
    · exact absurd (List.mem_singleton.mp hexit) (by decide)
  · refine List.Nodup.map ?_ List.nodup_range
    intro i j hij
    rw [nodeName_main, nodeName_main] at hij
    exact strNat_inj (List.append_cancel_left hij)
  · intro a ha b hb heq
    obtain ⟨i, -, rfl⟩ := List.mem_map.mp ha
    rw [List.mem_singleton.mp hb] at heq
    have hchar := congrArg (fun t => t[1]?) heq
    exact absurd ((nodeName_char i).symm.trans hchar) (by decide)

theorem printed_node {i : Nat} {bb : BasicBlock} (hbb : f.blocks[i]? = some bb) :
    textSuccessors isa (textBlocks (printFunction f)).2 (i + 1) =
      bb.successors.map fun b => lowerText (f.nameOf b) := by
  obtain ⟨-, hplan, hts, hinst⟩ := hmain.block i bb hbb
  have hlt : i < f.blocks.length := (List.getElem?_eq_some_iff.mp hbb).1
  unfold textSuccessors
  rw [textBlocks_node hbb]
  dsimp only [printedBlock]
  rw [branchTargets_append hinst]
  unfold terminatorsOf at hts
  rcases hplan with ⟨hlast, hs⟩ | ⟨hnext, hs | ⟨t, hs, ht⟩⟩
  · -- the last block has no branch; the exit block is printed below it
    rw [hs] at hts ⊢
    rw [← Option.some.inj hts, List.append_nil, endsInJump_of_not_controlFlow hinst, hlast,
      textBlocks_exit]
    rfl
  · rw [hs] at hts ⊢
    rw [← Option.some.inj hts, endsInJump_jumpTo, branchTargets_jumpTo, List.map_singleton,
      hmain.lowerText_nameOf (Or.inr ⟨i + 1, hnext, rfl⟩)]
    rfl
  · have htlower : lowerText (f.nameOf t) = f.nameOf t := by
      apply hmain.lowerText_nameOf
      rcases ht with rfl | ⟨j, rfl, -, hj⟩
      · exact Or.inl rfl
      · exact Or.inr ⟨j, hj, rfl⟩
    rw [hs] at hts ⊢
    obtain ⟨spec, hspec, hts⟩ := Option.bind_eq_some_iff.mp hts
    split at hts
    · rw [← Option.some.inj hts]
      have hcontrol : spec.isControlFlow = true := by
        have hmem := (List.mem_filter.mp (choice_mem hspec)).1
        exact (List.mem_filter.mp hmem).2
      have hnextlower := hmain.lowerText_nameOf (Or.inr ⟨i + 1, hnext, rfl⟩)
      rw [List.append_cons, endsInJump_jumpTo]
      simp [branchTargets, jumpTo, hcontrol, unconditionalJump_isControlFlow, htlower, hnextlower,
        -nameOf_node]
    · exact absurd hts (by simp)

theorem printed_exit :
    textSuccessors isa (textBlocks (printFunction f)).2 (f.blocks.length + 1) = [tcExitLabel] := by
  unfold textSuccessors
  rw [textBlocks_exit, hmain.exit]
  dsimp only [printedBlock]
  rw [endsInJump_jumpTo, List.nil_append, branchTargets_jumpTo]
  rfl

end MainFunction

/-- A plan is always found, and a generated main function has the control flow of its plan. -/
theorem generateMain_plannedFlow {isa : InstructionSet} {conf : Config} {rand : Choices}
    (hmin : 1 ≤ conf.minSuccessorsPerBb)
    (hmax : conf.minSuccessorsPerBb ≤ conf.maxSuccessorsPerBb)
    (hbb : 1 ≤ conf.minBbPerFunction) (hbbs : conf.minBbPerFunction ≤ conf.maxBbPerFunction) :
    (∃ f₀, generateEmpty isa conf rand mainName = some f₀) ∧
      ∀ f, generateMain isa conf rand = some f → PlannedFlow isa f := by
  refine ⟨generateEmpty_returns hmax hbbs mainName, ?_⟩
  intro f h
  have hmain := generateMain_spec hmin hbb h
  have hreach : ∀ i < f.blocks.length, ReflTransGen f.Edge (.node 0) (.node i) := by
    intro i hi
    refine reachable_of_next (n := f.blocks.length - 1) ?_ (by omega)
    intro j hj
    exact hmain.edge_next (by omega)
  refine ⟨acyclic_of_rank hmain.edge_rank, ⟨hreach, ?_⟩, ?_, hmain.labels_nodup, ?_, ?_,
    hmain.printed_exit⟩
  · have hlast := hreach (f.blocks.length - 1) (by have := hmain.pos; omega)
    exact hlast.tail (hmain.edge_exit (by have := hmain.pos; omega))
  · intro bb hmem
    obtain ⟨i, hi⟩ := List.getElem?_of_mem hmem
    rcases (hmain.block i bb hi).2.1 with ⟨-, hs⟩ | ⟨-, hs | ⟨t, hs, ht⟩⟩
    · simp [hs]
    · simp [hs]
    · rcases ht with rfl | ⟨j, rfl, hij, -⟩
      · simp [hs]
      · have hne : i + 1 ≠ j := by omega
        simp [hs, hne]
  · intro i bb hi
    exact hmain.printed_node hi
  · intro path hpath
    exact hmain.path_end hpath

/-- An instruction set with one conditional branch. -/
def branchIsa : InstructionSet where
  arch := .x86_64
  instructions :=
    [⟨"add".toList, "BASE-BINARY".toList, false, false, false, false⟩,
      ⟨"jz".toList, "BASE-COND_BR".toList, true, true, false, false⟩]

/-- Three blocks; the first one branches to the second one or the exit. -/
def branchChoices : Choices where
  nodeCount := 1
  successorCount i := 1 - i
  target _ _ := 1
  condBranch _ := 0
  block k := k
  memoryAccess _ := false
  store _ := false
  spec _ := 0

theorem generateMain_branchIsa : ∃ f, generateMain branchIsa ⟨1, 2, 2, 3, 4, 0⟩ branchChoices =
    some f ∧ f.blocks.length = 3 ∧ PlannedFlow branchIsa f := by
  have hplanned : ∀ f, generateMain branchIsa ⟨1, 2, 2, 3, 4, 0⟩ branchChoices = some f →
      PlannedFlow branchIsa f :=
    (generateMain_plannedFlow (by decide) (by decide) (by decide) (by decide)).2
  exact ⟨_, rfl, by decide +kernel, hplanned _ rfl⟩

end Main

end Rvzr.Generator
