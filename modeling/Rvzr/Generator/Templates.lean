import Mathlib.Data.List.Nodup
import Rvzr.Generator.Functions
import Rvzr.Lib.Folds
import Rvzr.TestCase.CodeBlocks

/-!
# Template expansion

A template is parsed into blocks of instructions, and every macro `random_instructions` is replaced
by random instructions. The macros are collected first. Each one is then deleted, and the new
instructions are inserted behind the node that the deleted node still points back to.
-/

namespace Rvzr.Generator.Templates

open Rvzr.Lib Rvzr.TestCase

/-! ## Templates -/

/-- An instruction with the values of its operands. -/
structure Instruction where
  name : Text
  operands : List Text
  isControlFlow : Bool
deriving DecidableEq, Inhabited

/-- The blocks of a function in their order; its exit block is kept apart from them. -/
structure Function where
  name : Text
  blocks : List Nat
  exitBb : Nat

/-- A section has the name of the actor that owns it. -/
structure CodeSection where
  name : Text
  functions : List Function

/-- The test case, and the number of blocks created so far. -/
structure TestCaseProgram where
  sections : List CodeSection
  code : Code Instruction
  nBlocks : Nat

namespace TestCaseProgram

/-- `iter_basic_blocks`, with the name of the owner of each block. -/
def iterBasicBlocks (p : TestCaseProgram) : List (Nat × Text) :=
  p.sections.flatMap fun sec => sec.functions.flatMap fun f => f.blocks.map fun bb => (bb, sec.name)

/-- The nodes of these blocks, with the owner of each. -/
def iterNodes (p : TestCaseProgram) : List (Nat × Text) :=
  p.iterBasicBlocks.flatMap fun bb => (p.code.iterNodes bb.1).map fun n => (n, bb.2)

def functions (p : TestCaseProgram) : List Function := p.sections.flatMap CodeSection.functions

end TestCaseProgram

/-! ## Parsing -/

/-- The map that the parser makes of the lines of a file, with the lines as instructions. -/
structure ParsedFunction where
  name : Text
  blocks : List (List Instruction)

structure ParsedSection where
  name : Text
  functions : List ParsedFunction

/-- One line of a block; the flag is `terminators_started`. -/
def addLine (bb : Nat) (s : Code Instruction × Bool) (inst : Instruction) :
    Except CodeError (Code Instruction × Bool) :=
  if inst.isControlFlow then
    let terminators := Function.update s.1.terminators bb (s.1.terminators bb ++ [inst])
    .ok ({ s.1 with terminators := terminators }, true)
  else if s.2 then .error .assertion
  else (s.1.insertAfter bb (s.1.getLast bb) inst).map fun code => (code, false)

/-- The blocks of a function that is filled. -/
structure Filled where
  code : Code Instruction
  nBlocks : Nat
  blocks : List Nat

def addBlock (s : Filled) (lines : List Instruction) : Except CodeError Filled := do
  let filled ← lines.foldlM (addLine s.nBlocks) (s.code, false)
  return ⟨filled.1, s.nBlocks + 1, s.blocks ++ [s.nBlocks]⟩

/-- The exit block of a function is created before its other blocks. -/
def addFunction (i : Nat) (p : TestCaseProgram) (f : ParsedFunction) :
    Except CodeError TestCaseProgram :=
  match p.sections[i]? with
  | none => .error .key
  | some sec =>
    if f.name ∈ sec.functions.map Function.name then .error .assertion
    else do
      let s ← f.blocks.foldlM addBlock ⟨p.code, p.nBlocks + 1, []⟩
      let functions := sec.functions ++ [⟨f.name, s.blocks, p.nBlocks⟩]
      return ⟨p.sections.set i { sec with functions := functions }, s.code, s.nBlocks⟩

def addSection (p : TestCaseProgram) (m : ParsedSection) : Except CodeError TestCaseProgram :=
  match p.sections.findIdx? fun sec => sec.name = m.name with
  | none => .error .key
  | some i => m.functions.foldlM (addFunction i) p

/-- `_fill_test_case_structure` (`asm_parser.py:755-788`) of a test case with the given actors. -/
def fillTestCaseStructure (actors : List Text) (codeMap : List ParsedSection) :
    Except CodeError TestCaseProgram :=
  codeMap.foldlM addSection ⟨actors.map fun name => ⟨name, []⟩, Code.empty, 0⟩

/-! ## Expansion -/

/-- The instruction set, `actors_config[name]["instruction_blocklist"]`, what `random` returns in
the given call of the instruction generator, and the instruction that is made of a specification. -/
structure CodeGenerator where
  instructionSet : InstructionSet
  blocklist : Text → Option (List Text)
  /-- `random.random() < n_mem / n_instr`, or `none` for an overflow -/
  memoryAccess : Nat → Int → Int → Option Bool
  store : Nat → Bool
  spec : Nat → Nat
  generate : Nat → InstructionSpec → Except CodeError Instruction

def macroName : Text := "macro".toList
def randomInstructions : Text := ".random_instructions".toList

def Instruction.isRandomMacro (inst : Instruction) : Bool :=
  inst.name == macroName && inst.operands.head? == some randomInstructions

/-- The test of the first loop of `_expand_template`; a macro without an operand is an error. -/
def isNodeToExpand (inst : Instruction) : Except CodeError Bool :=
  if inst.name = macroName then
    match inst.operands with
    | [] => .error .index
    | op :: _ => .ok (op == randomInstructions)
  else .ok false

def nodesToExpand (code : Code Instruction) :
    List (Nat × Text) → Except CodeError (List (Nat × Text))
  | [] => .ok []
  | node :: nodes => do
    let expand ← isNodeToExpand (code.instruction node.1)
    let rest ← nodesToExpand code nodes
    return if expand then node :: rest else rest

/-- The arguments of a macro, and the instructions that the actor may execute. -/
structure MacroRequest where
  nInstr : Int
  nMem : Int
  nonMemoryAccess : List InstructionSpec
  stores : List InstructionSpec
  loads : List InstructionSpec

section Expand

variable (gen : CodeGenerator)

def readMacro (inst : Instruction) (actorName : Text) : Except CodeError MacroRequest :=
  match inst.operands[1]? with
  | none => .error .index
  | some value =>
    let operands := splitText '.' value
    if 3 ≤ operands.length ∧ operands.length ≤ 5 then
      match operands[1]?.bind pyInt, operands[2]?.bind pyInt with
      | some nInstr, some nMem =>
        match gen.blocklist actorName with
        | none => .error .key
        | some block =>
          let allowed (specs : List InstructionSpec) := specs.filter fun i => i.name ∉ block
          .ok ⟨nInstr, nMem, allowed gen.instructionSet.nonMemoryAccessSpecs,
            allowed gen.instructionSet.storeInstructions,
            allowed gen.instructionSet.loadInstructions⟩
      | _, _ => .error .value
    else .error .assertion

/-- `random.choice`; there is nothing to choose from an empty list. -/
def chooseSpec (k : Nat) (specs : List InstructionSpec) : Except CodeError InstructionSpec :=
  match choice (gen.spec k) specs with
  | none => .error .index
  | some spec => .ok spec

def pickRandomSpec (k : Nat) (req : MacroRequest) : Except CodeError InstructionSpec :=
  match gen.memoryAccess k req.nMem req.nInstr with
  | none => .error .overflow
  | some false => chooseSpec gen k req.nonMemoryAccess
  | some true =>
    if req.stores ≠ [] ∧ gen.store k = true then chooseSpec gen k req.stores
    else chooseSpec gen k req.loads

/-- `generate_from_random_spec` (`code_generator.py:581-611`), in its call number `k`. -/
def generateFromRandomSpec (k : Nat) (req : MacroRequest) : Except CodeError Instruction := do
  let spec ← pickRandomSpec gen k req
  gen.generate k spec

/-- One insertion in place of the macro, which is deleted already. -/
def insertAtMacro (code : Code Instruction) (bb node : Nat) (inst : Instruction) :
    Except CodeError (Code Instruction) :=
  match code.previous node with
  | some previous => code.insertAfter bb (some previous) inst
  | none => code.insertBefore bb (code.getFirst bb) inst

/-- The inner loop, with the number of calls of the instruction generator so far. -/
def insertRandom (req : MacroRequest) (bb node : Nat) :
    Nat → Code Instruction × Nat → Except CodeError (Code Instruction × Nat)
  | 0, s => .ok s
  | n + 1, s => do
    let inst ← generateFromRandomSpec gen s.2 req
    let code ← insertAtMacro s.1 bb node inst
    insertRandom req bb node n (code, s.2 + 1)

/-- The body of the second loop of `_expand_template`. -/
def expandMacro (s : Code Instruction × Nat) (node : Nat × Text) :
    Except CodeError (Code Instruction × Nat) := do
  let bb := (s.1.parent node.1).getD 0
  let req ← readMacro gen (s.1.instruction node.1) node.2
  let code ← s.1.delete bb node.1
  insertRandom gen req bb node.1 req.nInstr.toNat (code, s.2)

/-- `_expand_template` (`code_generator.py:320-359`). -/
def expandTemplate (p : TestCaseProgram) : Except CodeError TestCaseProgram := do
  let nodes ← nodesToExpand p.code p.iterNodes
  let s ← nodes.foldlM (expandMacro gen) (p.code, 0)
  return { p with code := s.1 }

end Expand

/-! ## What the parser builds -/

/-- A test case that the parser makes: the pointers of its nodes are in order, every block is in one
place only, and the exit blocks are empty. -/
structure Parsed (p : TestCaseProgram) : Prop where
  linked : WellLinked p.code
  fresh : ∀ bb, p.nBlocks ≤ bb → p.code.iterNodes bb = []
  bound : ∀ f ∈ p.functions, f.exitBb < p.nBlocks ∧ ∀ bb ∈ f.blocks, bb < p.nBlocks
  exits : ∀ f ∈ p.functions, p.code.iterNodes f.exitBb = []
  nodup : (p.functions.flatMap Function.blocks).Nodup

section Parse

/-- Only the block `bb` gets new nodes. -/
def FillsBlock (code : Code Instruction) (bb : Nat) (code' : Code Instruction) : Prop :=
  WellLinked code' ∧ ∀ bb', bb' ≠ bb → code'.iterNodes bb' = code.iterNodes bb'

theorem addLine_fills {code : Code Instruction} {bb : Nat} {s s' : Code Instruction × Bool}
    {inst : Instruction} (h : FillsBlock code bb s.1) (hadd : addLine bb s inst = .ok s') :
    FillsBlock code bb s'.1 := by
  unfold addLine at hadd
  split at hadd
  · cases hadd
    exact ⟨fun bb' => ⟨(h.1 bb').start, (h.1 bb').end_, (h.1 bb').linked, (h.1 bb').nodup,
      (h.1 bb').parent⟩, h.2⟩
  split at hadd
  · cases hadd
  · obtain ⟨code', hok, hlinked, hchanges, -⟩ := wellLinked_insertLast h.1 bb inst
    rw [hok] at hadd
    cases hadd
    refine ⟨hlinked, fun bb' hbb => ?_⟩
    rw [← h.2 bb' hbb]
    exact (hchanges.other (h.1 bb) (h.1 bb') hbb).iterNodes

/-- The blocks from number `n` on are being filled. -/
structure FillsFunction (code : Code Instruction) (n : Nat) (s : Filled) : Prop where
  linked : WellLinked s.code
  bound : n ≤ s.nBlocks
  old : ∀ bb < n, s.code.iterNodes bb = code.iterNodes bb
  fresh : ∀ bb, s.nBlocks ≤ bb → s.code.iterNodes bb = []
  blocks : ∀ bb ∈ s.blocks, n ≤ bb ∧ bb < s.nBlocks
  nodup : s.blocks.Nodup

theorem addBlock_fills {code : Code Instruction} {n : Nat} {s s' : Filled}
    {lines : List Instruction} (h : FillsFunction code n s) (hadd : addBlock s lines = .ok s') :
    FillsFunction code n s' := by
  obtain ⟨filled, hfill, hadd⟩ := except_bind_ok hadd
  have hfills : FillsBlock s.code s.nBlocks filled.1 := by
    refine foldlM_prefix (I := fun _ t => FillsBlock s.code s.nBlocks t.1) ⟨h.linked, fun _ _ => rfl⟩
      ?_ hfill
    intro q a c c' _ hc hstep
    exact addLine_fills hc hstep
  cases hadd
  have hbound := h.bound
  refine ⟨hfills.1, Nat.le_succ_of_le hbound, fun bb hbb => ?_, fun bb hbb => ?_, fun bb hbb => ?_,
    ?_⟩
  · rw [hfills.2 bb (by omega)]
    exact h.old bb hbb
  · have hlt : s.nBlocks + 1 ≤ bb := hbb
    rw [hfills.2 bb (by omega)]
    exact h.fresh bb (by omega)
  · show n ≤ bb ∧ bb < s.nBlocks + 1
    rcases List.mem_append.1 hbb with hold | hnew
    · have hb := h.blocks bb hold
      omega
    · rw [List.mem_singleton.1 hnew]
      omega
  · refine List.nodup_append.2 ⟨h.nodup, by simp, fun a ha b hb => ?_⟩
    have hlt := (h.blocks a ha).2
    rw [List.mem_singleton.1 hb]
    omega

/-- One more entry at a place of a list. -/
theorem flatMap_set_perm {α β : Type} {g : α → List β} {l : List α} {i : Nat} {a b : α}
    {extra : List β} (ha : l[i]? = some a) (hb : g b = g a ++ extra) :
    ((l.set i b).flatMap g).Perm (l.flatMap g ++ extra) := by
  induction l generalizing i with
  | nil => simp at ha
  | cons x l ih =>
    cases i with
    | zero =>
      have hx : x = a := by simpa using ha
      rw [List.set_cons_zero, List.flatMap_cons, List.flatMap_cons, hb, hx, List.append_assoc,
        List.append_assoc]
      exact List.perm_append_comm.append_left (g a)
    | succ i =>
      rw [List.set_cons_succ, List.flatMap_cons, List.flatMap_cons, List.append_assoc]
      exact (ih (by simpa using ha)).append_left (g x)

theorem addFunction_parsed {i : Nat} {p p' : TestCaseProgram} {f : ParsedFunction} (h : Parsed p)
    (hadd : addFunction i p f = .ok p') : Parsed p' := by
  unfold addFunction at hadd
  split at hadd
  · cases hadd
  rename_i sec hsec
  split at hadd
  · cases hadd
  obtain ⟨s, hfill, hadd⟩ := except_bind_ok hadd
  have hfills : FillsFunction p.code (p.nBlocks + 1) s := by
    refine foldlM_prefix (I := fun _ t => FillsFunction p.code (p.nBlocks + 1) t) ?_ ?_ hfill
    · refine ⟨h.linked, Nat.le_refl _, fun _ _ => rfl, fun bb hbb => ?_, by simp, List.nodup_nil⟩
      exact h.fresh bb (Nat.le_of_succ_le hbb)
    · intro q a c c' _ hc hstep
      exact addBlock_fills hc hstep
  cases hadd
  have hperm : (TestCaseProgram.functions ⟨p.sections.set i { sec with
      functions := sec.functions ++ [⟨f.name, s.blocks, p.nBlocks⟩] }, s.code, s.nBlocks⟩).Perm
      (p.functions ++ [⟨f.name, s.blocks, p.nBlocks⟩]) := flatMap_set_perm hsec rfl
  have hbound := hfills.bound
  have hmem : ∀ g, g ∈ TestCaseProgram.functions ⟨p.sections.set i { sec with
      functions := sec.functions ++ [⟨f.name, s.blocks, p.nBlocks⟩] }, s.code, s.nBlocks⟩ →
      g ∈ p.functions ∨ g = ⟨f.name, s.blocks, p.nBlocks⟩ := by
    intro g hg
    have hg' := hperm.mem_iff.1 hg
    rwa [List.mem_append, List.mem_singleton] at hg'
  refine ⟨hfills.linked, hfills.fresh, fun g hg => ?_, fun g hg => ?_, ?_⟩
  · show g.exitBb < s.nBlocks ∧ ∀ bb ∈ g.blocks, bb < s.nBlocks
    rcases hmem g hg with hold | rfl
    · obtain ⟨hexit, hblocks⟩ := h.bound g hold
      exact ⟨by omega, fun bb hbb => Nat.lt_of_lt_of_le (hblocks bb hbb) (by omega)⟩
    · exact ⟨by dsimp only; omega, fun bb hbb => (hfills.blocks bb hbb).2⟩
  · show s.code.iterNodes g.exitBb = []
    rcases hmem g hg with hold | rfl
    · have hexit := (h.bound g hold).1
      rw [hfills.old g.exitBb (by omega)]
      exact h.exits g hold
    · rw [hfills.old p.nBlocks (Nat.lt_succ_self _)]
      exact h.fresh p.nBlocks (Nat.le_refl _)
  · rw [(hperm.flatMap_right Function.blocks).nodup_iff, List.flatMap_append]
    refine List.nodup_append.2 ⟨h.nodup, by simpa using hfills.nodup, fun a ha b hb => ?_⟩
    obtain ⟨g, hg, hag⟩ := List.mem_flatMap.1 ha
    have halt := (h.bound g hg).2 a hag
    have hble := (hfills.blocks b (by simpa using hb)).1
    omega

theorem fillTestCaseStructure_parsed {actors : List Text} {codeMap : List ParsedSection}
    {p : TestCaseProgram} (h : fillTestCaseStructure actors codeMap = .ok p) : Parsed p := by
  refine foldlM_prefix (I := fun _ p => Parsed p) ?_ ?_ h
  · have hnone : TestCaseProgram.functions ⟨actors.map fun name => ⟨name, []⟩, Code.empty, 0⟩ =
        [] := by
      simp [TestCaseProgram.functions, List.flatMap_map]
    refine ⟨wellLinked_empty, fun _ _ => rfl, ?_, ?_, ?_⟩
    · rw [hnone]
      simp
    · rw [hnone]
      simp
    · rw [hnone]
      exact List.nodup_nil
  · intro q m p p' _ hp hstep
    unfold addSection at hstep
    split at hstep
    · cases hstep
    · refine foldlM_prefix (I := fun _ p => Parsed p) hp ?_ hstep
      intro q f c c' _ hc hadd
      exact addFunction_parsed hc hadd

end Parse

/-! ## What the expansion does -/

section Steps

variable {gen : CodeGenerator}

/-- The result of some call of the instruction generator. -/
def Generated (gen : CodeGenerator) (req : MacroRequest) (inst : Instruction) : Prop :=
  ∃ k, generateFromRandomSpec gen k req = .ok inst

/-- A new instruction comes right behind `l`, where the deleted macro was. -/
theorem insertAtMacro_spliced {code : Code Instruction} {bb m : Nat} {l r : List Nat}
    (h : BlockNodes code bb (l ++ r)) (hprev : code.previous m = l.getLast?) (inst : Instruction) :
    insertAtMacro code bb m inst = .ok (code.spliced bb inst l r) := by
  unfold insertAtMacro
  rw [hprev]
  induction l using List.reverseRecOn with
  | nil => exact insertBefore_first h inst
  | append_singleton l p _ =>
    rw [List.getLast?_concat]
    rw [List.append_assoc] at h
    exact insertAfter_node h inst

/-- How the inner loop ends: `n` new nodes are between `l` and `r`, or the instruction generator has
raised an exception. -/
def InsertsBetween (gen : CodeGenerator) (req : MacroRequest) (code : Code Instruction) (bb n : Nat)
    (l r : List Nat) : Except CodeError (Code Instruction × Nat) → Prop :=
  Ends
    (fun s => ∃ new added, new.length = n ∧ BlockNodes s.1 bb (l ++ (new ++ r)) ∧
      Changes bb (l ++ r) code added s.1 ∧ ∀ x ∈ new, Generated gen req (s.1.instruction x))
    (fun e => ∃ k, generateFromRandomSpec gen k req = .error e)

theorem insertRandom_inserts {req : MacroRequest} {bb m : Nat} {l : List Nat} (n k : Nat)
    {code : Code Instruction} {r : List Nat} (h : BlockNodes code bb (l ++ r))
    (hm : m < code.nodes.length) (hout : m ∉ l ++ r) (hprev : code.previous m = l.getLast?) :
    InsertsBetween gen req code bb n l r (insertRandom gen req bb m n (code, k)) := by
  induction n generalizing code r k with
  | zero => exact ⟨[], [], rfl, h, Changes.refl bb _ code, by simp⟩
  | succ n ih =>
    rw [insertRandom]
    cases hgen : generateFromRandomSpec gen k req with
    | error e => exact ⟨k, hgen⟩
    | ok inst =>
      have hchanges := spliced_changes code bb inst l r
      have hblock := spliced_blockNodes h inst
      have hlt : m < (code.spliced bb inst l r).nodes.length := by
        rw [hchanges.nodes, List.length_append]
        omega
      have hout' : m ∉ l ++ code.nodes.length :: r := by
        simp only [List.mem_append, List.mem_cons, not_or] at hout ⊢
        exact ⟨hout.1, Nat.ne_of_lt hm, hout.2⟩
      have hrest := ih (k + 1) hblock hlt hout' ((hchanges.previous m hm hout).trans hprev)
      simp only [bind, Except.bind, insertAtMacro_spliced h hprev inst]
      cases hrun : insertRandom gen req bb m n (code.spliced bb inst l r, k + 1) with
      | error e =>
        rw [hrun] at hrest
        exact hrest
      | ok s =>
        rw [hrun] at hrest
        obtain ⟨new, added, hlen, hnodes, hmore, hall⟩ := hrest
        refine ⟨new ++ [code.nodes.length], [⟨inst, bb⟩] ++ added, by simp [hlen], ?_, ?_, ?_⟩
        · rw [List.append_assoc]
          exact hnodes
        · refine hchanges.trans hmore fun x hx hlt' => ?_
          simp only [List.mem_append, List.mem_cons] at hx ⊢
          exact hx.imp_right fun hr => hr.resolve_left (Nat.ne_of_lt hlt')
        · intro x hx
          rcases List.mem_append.1 hx with hold | hnew
          · exact hall x hold
          · rw [List.mem_singleton.1 hnew, hmore.instruction (by simp [hchanges.nodes])]
            refine ⟨k, ?_⟩
            rw [hgen]
            simp [Code.instruction, hchanges.nodes]

/-- What stands for a node: itself, or the new nodes once the macro is expanded. -/
def standsFor (done : List Nat) (g : Nat → List Nat) (n : Nat) : List Nat :=
  if n ∈ done then g n else [n]

/-- The macros `done` are expanded into the nodes that `g` tells, and the rest is as it was. -/
structure Expanding (gen : CodeGenerator) (p : TestCaseProgram) (done : List (Nat × Text))
    (g : Nat → List Nat) (code : Code Instruction) : Prop where
  blocks : ∀ bb, BlockNodes code bb
    ((p.code.iterNodes bb).flatMap (standsFor (done.map Prod.fst) g))
  nodes : p.code.nodes <+: code.nodes
  terminators : code.terminators = p.code.terminators
  replaced : ∀ m ∈ done, ∃ req, readMacro gen (p.code.instruction m.1) m.2 = .ok req ∧
    (g m.1).length = req.nInstr.toNat ∧
    ∀ x ∈ g m.1, x < code.nodes.length ∧ Generated gen req (code.instruction x)

/-- The expansion of the macro raises an exception: its arguments cannot be read, or the instruction
generator fails. -/
def Raises (gen : CodeGenerator) (p : TestCaseProgram) (m : Nat × Text) (e : CodeError) : Prop :=
  readMacro gen (p.code.instruction m.1) m.2 = .error e ∨
    ∃ req k, readMacro gen (p.code.instruction m.1) m.2 = .ok req ∧
      generateFromRandomSpec gen k req = .error e

variable {p : TestCaseProgram} {done : List (Nat × Text)} {g : Nat → List Nat}
  {s : Code Instruction × Nat}

theorem instruction_of_prefix {code code' : Code Instruction} (h : code.nodes <+: code'.nodes)
    {n : Nat} (hn : n < code.nodes.length) : code'.instruction n = code.instruction n := by
  obtain ⟨more, hmore⟩ := h
  unfold Code.instruction
  rw [← hmore, List.getElem?_append_left hn]

/-- Another macro changes only what stands for itself. -/
theorem standsFor_next {m n : Nat} {l new : List Nat} (hne : n ≠ m) :
    standsFor (l ++ [m]) (Function.update g m new) n = standsFor l g n := by
  unfold standsFor
  rw [Function.update_of_ne hne]
  simp [hne]

theorem flatMap_standsFor_next {m : Nat} {l new : List Nat} {ns : List Nat} (hns : m ∉ ns) :
    ns.flatMap (standsFor (l ++ [m]) (Function.update g m new)) = ns.flatMap (standsFor l g) := by
  apply List.flatMap_congr
  intro n hn
  exact standsFor_next fun heq => hns (heq ▸ hn)

/-- The nodes `new` stand for the macro from now on. -/
theorem Expanding.next (hp : WellLinked p.code) {code code' : Code Instruction}
    (h : Expanding gen p done g code) {bb : Nat} {m : Nat × Text} {l r new : List Nat}
    {added : List (InstructionNode Instruction)} {req : MacroRequest}
    (hlr : p.code.iterNodes bb = l ++ m.1 :: r) (hnew : m.1 ∉ done.map Prod.fst)
    (hchanges : Changes bb ((p.code.iterNodes bb).flatMap (standsFor (done.map Prod.fst) g)) code
      added code')
    (hnodes : BlockNodes code' bb (l.flatMap (standsFor (done.map Prod.fst) g) ++
      (new ++ r.flatMap (standsFor (done.map Prod.fst) g))))
    (hread : readMacro gen (p.code.instruction m.1) m.2 = .ok req)
    (hlen : new.length = req.nInstr.toNat)
    (hall : ∀ x ∈ new, Generated gen req (code'.instruction x)) :
    Expanding gen p (done ++ [m]) (Function.update g m.1 new) code' := by
  have hnodup : (m.1 :: (l ++ r)).Nodup := by
    have hbb := (hp bb).nodup
    rw [hlr] at hbb
    exact List.perm_middle.nodup_iff.1 hbb
  have hout := (List.nodup_cons.1 hnodup).1
  rw [List.mem_append, not_or] at hout
  have hself : standsFor (done.map Prod.fst ++ [m.1]) (Function.update g m.1 new) m.1 = new := by
    simp [standsFor]
  refine ⟨fun bb' => ?_, ?_, hchanges.terminators.trans h.terminators, fun m' hm' => ?_⟩
  · rw [List.map_append, List.map_singleton]
    by_cases hbb : bb' = bb
    · rw [hbb, hlr, List.flatMap_append, List.flatMap_cons, hself, flatMap_standsFor_next hout.1,
        flatMap_standsFor_next hout.2]
      exact hnodes
    · have hmem : m.1 ∉ p.code.iterNodes bb' := fun hmem =>
        (hp bb).disjoint (hp bb') hbb m.1 hmem (by rw [hlr]; simp)
      rw [flatMap_standsFor_next hmem]
      exact hchanges.other (h.blocks bb) (h.blocks bb') hbb
  · exact h.nodes.trans ⟨added, hchanges.nodes.symm⟩
  · rcases List.mem_append.1 hm' with hold | hlast
    · have hne : m'.1 ≠ m.1 := fun heq => hnew (heq ▸ List.mem_map_of_mem hold)
      obtain ⟨req', hread', hlen', hall'⟩ := h.replaced m' hold
      rw [Function.update_of_ne hne]
      refine ⟨req', hread', hlen', fun x hx => ?_⟩
      obtain ⟨hlt, hgen⟩ := hall' x hx
      rw [hchanges.instruction hlt, hchanges.nodes, List.length_append]
      exact ⟨by omega, hgen⟩
    · rw [List.mem_singleton.1 hlast, Function.update_self]
      refine ⟨req, hread, hlen, fun x hx => ⟨hnodes.lt ?_, hall x hx⟩⟩
      simp [hx]

theorem expandMacro_next (hp : WellLinked p.code) (h : Expanding gen p done g s.1) {bb : Nat}
    {m : Nat × Text} (hm : m.1 ∈ p.code.iterNodes bb) (hnew : m.1 ∉ done.map Prod.fst) :
    Ends (fun s' => ∃ g, Expanding gen p (done ++ [m]) g s'.1) (Raises gen p m)
      (expandMacro gen s m) := by
  obtain ⟨l, r, hlr⟩ := List.append_of_mem hm
  have hself : standsFor (done.map Prod.fst) g m.1 = [m.1] := if_neg hnew
  have hsplit : (p.code.iterNodes bb).flatMap (standsFor (done.map Prod.fst) g) =
      l.flatMap (standsFor (done.map Prod.fst) g) ++
        m.1 :: r.flatMap (standsFor (done.map Prod.fst) g) := by
    rw [hlr, List.flatMap_append, List.flatMap_cons, hself]
    rfl
  have hblock := h.blocks bb
  rw [hsplit] at hblock
  have hparent : (s.1.parent m.1).getD 0 = bb := by
    rw [hblock.parent m.1 (by simp)]
    rfl
  have hinst : s.1.instruction m.1 = p.code.instruction m.1 :=
    instruction_of_prefix h.nodes ((hp bb).lt hm)
  unfold expandMacro
  simp only [bind, Except.bind, hparent, hinst]
  cases hread : readMacro gen (p.code.instruction m.1) m.2 with
  | error e => exact Or.inl hread
  | ok req =>
    dsimp only
    rw [delete_node hblock]
    dsimp only
    generalize hfl : l.flatMap (standsFor (done.map Prod.fst) g) = fl at hsplit hblock ⊢
    generalize hfr : r.flatMap (standsFor (done.map Prod.fst) g) = fr at hsplit hblock ⊢
    have hdeleted := unspliced_changes s.1 bb fl fr
    have hout : m.1 ∉ fl ++ fr :=
      (List.nodup_cons.1 (List.perm_middle.nodup_iff.1 hblock.nodup)).1
    have hlt : m.1 < s.1.nodes.length := hblock.lt (by simp)
    have hprev : (s.1.unspliced bb fl fr).previous m.1 = fl.getLast? := by
      rw [hdeleted.previous m.1 hlt hout, (linked_middle.1 hblock.linked).2.1, Option.or_none]
    have hrun : InsertsBetween gen req _ bb _ fl fr _ := insertRandom_inserts req.nInstr.toNat s.2
      (unspliced_blockNodes hblock) hlt hout hprev
    cases hres : insertRandom gen req bb m.1 req.nInstr.toNat (s.1.unspliced bb fl fr, s.2) with
    | error e =>
      rw [hres] at hrun
      obtain ⟨k, hk⟩ := hrun
      exact Or.inr ⟨req, k, hread, hk⟩
    | ok s' =>
      rw [hres] at hrun
      obtain ⟨new, added, hlen, hnodes, hmore, hall⟩ := hrun
      have hchanges : Changes bb (fl ++ m.1 :: fr) s.1 ([] ++ added) s'.1 := by
        refine (hdeleted.trans hmore fun n hn _ => hn).mono fun n hn => ?_
        simp only [List.mem_append, List.mem_cons] at hn ⊢
        exact hn.imp_right Or.inr
      rw [← hsplit] at hchanges
      rw [← hfl, ← hfr] at hnodes
      exact ⟨_, h.next hp hlr hnew hchanges hnodes hread hlen hall⟩

/-- The first loop finds the macros, unless one has no operand. -/
theorem nodesToExpand_ends (code : Code Instruction) (nodes : List (Nat × Text)) :
    Ends (fun ms => ms = nodes.filter fun m => (code.instruction m.1).isRandomMacro)
      (fun _ => ∃ m ∈ nodes, (code.instruction m.1).name = macroName ∧
        (code.instruction m.1).operands = [])
      (nodesToExpand code nodes) := by
  induction nodes with
  | nil => exact rfl
  | cons m nodes ih =>
    have htest : Ends (fun expand => expand = (code.instruction m.1).isRandomMacro)
        (fun _ => (code.instruction m.1).name = macroName ∧ (code.instruction m.1).operands = [])
        (isNodeToExpand (code.instruction m.1)) := by
      unfold isNodeToExpand Instruction.isRandomMacro
      by_cases hname : (code.instruction m.1).name = macroName
      · rw [if_pos hname]
        cases hops : (code.instruction m.1).operands with
        | nil => exact ⟨hname, rfl⟩
        | cons op ops => simp [Ends, hname]
      · rw [if_neg hname]
        simp [Ends, hname]
    rw [nodesToExpand]
    cases hexpand : isNodeToExpand (code.instruction m.1) with
    | error e =>
      rw [hexpand] at htest
      exact ⟨m, List.mem_cons_self, htest⟩
    | ok expand =>
      rw [hexpand] at htest
      cases hrest : nodesToExpand code nodes with
      | error e =>
        rw [hrest] at ih
        obtain ⟨x, hx, hbad⟩ := ih
        exact ⟨x, List.mem_cons_of_mem m hx, hbad⟩
      | ok rest =>
        rw [hrest] at ih
        have hexp : expand = (code.instruction m.1).isRandomMacro := htest
        have hms : rest = nodes.filter fun m => (code.instruction m.1).isRandomMacro := ih
        show (if expand then m :: rest else rest) = _
        rw [hexp, hms, List.filter_cons]

end Steps

/-! ## Whole templates -/

section Whole

variable {gen : CodeGenerator} {p : TestCaseProgram}

theorem iterBasicBlocks_fst (p : TestCaseProgram) :
    p.iterBasicBlocks.map Prod.fst = p.functions.flatMap Function.blocks := by
  simp only [TestCaseProgram.iterBasicBlocks, TestCaseProgram.functions, List.map_flatMap,
    List.map_map, List.flatMap_assoc]
  congr
  funext sec
  congr
  funext f
  exact List.map_id _

theorem iterNodes_fst (p : TestCaseProgram) :
    p.iterNodes.map Prod.fst = (p.functions.flatMap Function.blocks).flatMap p.code.iterNodes := by
  rw [← iterBasicBlocks_fst, List.flatMap_map, TestCaseProgram.iterNodes, List.map_flatMap]
  congr
  funext bb
  rw [List.map_map]
  exact List.map_id _

/-- No node is visited twice. -/
theorem Parsed.nodup_iterNodes (h : Parsed p) : (p.iterNodes.map Prod.fst).Nodup := by
  rw [iterNodes_fst]
  refine List.nodup_flatMap.2 ⟨fun bb _ => (h.linked bb).nodup, ?_⟩
  refine h.nodup.imp fun {a b} hne n ha hb => ?_
  exact (h.linked b).disjoint (h.linked a) hne n ha hb

/-- The whole of the outer loop. -/
theorem expandTemplate_ends (h : Parsed p) (gen : CodeGenerator) :
    Ends
      (fun p' => p'.sections = p.sections ∧ ∃ g, Expanding gen p
        (p.iterNodes.filter fun m => (p.code.instruction m.1).isRandomMacro) g p'.code)
      (fun e => ∃ m ∈ p.iterNodes, ((p.code.instruction m.1).name = macroName ∧
        (p.code.instruction m.1).operands = []) ∨
          (p.code.instruction m.1).isRandomMacro = true ∧ Raises gen p m e)
      (expandTemplate gen p) := by
  have hfind := nodesToExpand_ends p.code p.iterNodes
  unfold expandTemplate
  cases hnodes : nodesToExpand p.code p.iterNodes with
  | error e =>
    rw [hnodes] at hfind
    obtain ⟨m, hm, hbad⟩ := hfind
    exact ⟨m, hm, Or.inl hbad⟩
  | ok ms =>
    rw [hnodes] at hfind
    have hms : ms = p.iterNodes.filter fun m => (p.code.instruction m.1).isRandomMacro := hfind
    have hnodup : (ms.map Prod.fst).Nodup := by
      rw [hms]
      exact h.nodup_iterNodes.sublist (List.filter_sublist.map _)
    have hstart : ∃ g, Expanding gen p [] g p.code := by
      refine ⟨fun _ => [], fun bb => ?_, List.prefix_rfl, rfl, by simp⟩
      have hself : standsFor ([] : List Nat) (fun _ => []) = fun n => [n] := rfl
      rw [List.map_nil, hself, List.flatMap_singleton']
      exact h.linked bb
    have hrun : Ends (fun s : Code Instruction × Nat => ∃ g, Expanding gen p ms g s.1)
        (fun e => ∃ m ∈ ms, Raises gen p m e) (ms.foldlM (expandMacro gen) (p.code, 0)) := by
      refine foldlM_ends (I := fun done (s : Code Instruction × Nat) =>
        ∃ g, Expanding gen p done g s.1) hstart ?_
      rintro done m s hpre ⟨g, hg⟩
      have hm : m ∈ p.iterNodes := by
        have hmem : m ∈ ms := hpre.subset (by simp)
        rw [hms] at hmem
        exact (List.mem_filter.1 hmem).1
      obtain ⟨bb, -, hbb⟩ := List.mem_flatMap.1 hm
      obtain ⟨n, hn, rfl⟩ := List.mem_map.1 hbb
      have hnew : n ∉ done.map Prod.fst := by
        have hsub := hnodup.sublist (hpre.sublist.map Prod.fst)
        rw [List.map_append] at hsub
        intro hmem
        exact (List.nodup_append.1 hsub).2.2 n hmem n (by simp) rfl
      exact expandMacro_next h.linked hg hn hnew
    cases hfold : ms.foldlM (expandMacro gen) (p.code, 0) with
    | error e =>
      rw [hfold] at hrun
      obtain ⟨m, hm, hraise⟩ := hrun
      rw [hms] at hm
      obtain ⟨hmem, hrandom⟩ := List.mem_filter.1 hm
      simp only [bind, Except.bind, hfold]
      exact ⟨m, hmem, Or.inr ⟨hrandom, hraise⟩⟩
    | ok s =>
      rw [hfold] at hrun
      obtain ⟨g, hg⟩ := hrun
      rw [hms] at hg
      simp only [bind, Except.bind, hfold]
      exact ⟨rfl, g, hg⟩

/-- A macro that has an operand, and a macro `random_instructions` with arguments that can be read,
for which the instruction generator returns. -/
def Usable (gen : CodeGenerator) (p : TestCaseProgram) (m : Nat × Text) : Prop :=
  ((p.code.instruction m.1).name = macroName → (p.code.instruction m.1).operands ≠ []) ∧
    ((p.code.instruction m.1).isRandomMacro = true →
      ∃ req, readMacro gen (p.code.instruction m.1) m.2 = .ok req ∧
        ∀ k, ∃ inst, generateFromRandomSpec gen k req = .ok inst)

/-- Every macro `random_instructions` is replaced by the instructions `g` tells, as many as its
first argument says, and nothing else changes. -/
structure ExpandsTo (gen : CodeGenerator) (p : TestCaseProgram) (g : Nat → List Instruction)
    (p' : TestCaseProgram) : Prop where
  replaced : ∀ m ∈ p.iterNodes, (p.code.instruction m.1).isRandomMacro = true →
    ∃ req, readMacro gen (p.code.instruction m.1) m.2 = .ok req ∧
      (g m.1).length = req.nInstr.toNat ∧ ∀ inst ∈ g m.1, Generated gen req inst
  instructions : ∀ f ∈ p.functions, ∀ bb ∈ f.exitBb :: f.blocks, p'.code.instructions bb =
    (p.code.iterNodes bb).flatMap fun n =>
      if (p.code.instruction n).isRandomMacro then g n else [p.code.instruction n]
  sections : p'.sections = p.sections
  terminators : p'.code.terminators = p.code.terminators

theorem mem_iterNodes {n : Nat} {f : Function} {bb : Nat} (hf : f ∈ p.functions) (hbb : bb ∈ f.blocks)
    (hn : n ∈ p.code.iterNodes bb) : n ∈ p.iterNodes.map Prod.fst := by
  rw [iterNodes_fst]
  exact List.mem_flatMap.2 ⟨bb, List.mem_flatMap.2 ⟨f, hf, hbb⟩, hn⟩

/-- The nodes that stand for those of a block hold the instructions that it should have. -/
theorem Expanding.instructions (h : Parsed p) {ms : List (Nat × Text)} {g : Nat → List Nat}
    {code : Code Instruction}
    (hms : ms = p.iterNodes.filter fun m => (p.code.instruction m.1).isRandomMacro)
    (hg : Expanding gen p ms g code) {f : Function} (hf : f ∈ p.functions) {bb : Nat}
    (hbb : bb ∈ f.blocks) :
    code.instructions bb = (p.code.iterNodes bb).flatMap fun n =>
      if (p.code.instruction n).isRandomMacro then (g n).map code.instruction
      else [p.code.instruction n] := by
  unfold Code.instructions
  rw [(hg.blocks bb).iterNodes, List.map_flatMap]
  apply List.flatMap_congr
  intro n hn
  have hiff : n ∈ ms.map Prod.fst ↔ (p.code.instruction n).isRandomMacro = true := by
    rw [hms]
    constructor
    · intro hmem
      obtain ⟨m, hm, rfl⟩ := List.mem_map.1 hmem
      exact (List.mem_filter.1 hm).2
    · intro hrandom
      obtain ⟨m, hm, rfl⟩ := List.mem_map.1 (mem_iterNodes hf hbb hn)
      exact List.mem_map_of_mem (List.mem_filter.2 ⟨hm, hrandom⟩)
  unfold standsFor
  by_cases hrandom : (p.code.instruction n).isRandomMacro = true
  · rw [if_pos (hiff.2 hrandom), if_pos hrandom]
  · rw [if_neg fun hmem => hrandom (hiff.1 hmem), if_neg hrandom, List.map_singleton,
      instruction_of_prefix hg.nodes ((h.linked bb).lt hn)]

/-- Every template that the parser has built is expanded if its macros can be used, and what is
expanded has in the place of each macro as many random instructions as it asks for. -/
theorem expandTemplate_exact (gen : CodeGenerator) {actors : List Text}
    {codeMap : List ParsedSection} {p : TestCaseProgram}
    (hparse : fillTestCaseStructure actors codeMap = .ok p) :
    ((∀ m ∈ p.iterNodes, Usable gen p m) → ∃ p', expandTemplate gen p = .ok p') ∧
      ∀ p', expandTemplate gen p = .ok p' → ∃ g, ExpandsTo gen p g p' := by
  have hp := fillTestCaseStructure_parsed hparse
  have hends := expandTemplate_ends hp gen
  refine ⟨fun husable => ?_, fun p' hp' => ?_⟩
  · cases hrun : expandTemplate gen p with
    | ok p' => exact ⟨p', rfl⟩
    | error e =>
      rw [hrun] at hends
      obtain ⟨m, hm, ⟨hname, hops⟩ | ⟨hrandom, hread | ⟨req, k, hread, hgen⟩⟩⟩ := hends
      · exact absurd hops ((husable m hm).1 hname)
      · obtain ⟨req, hreq, -⟩ := (husable m hm).2 hrandom
        cases hread.symm.trans hreq
      · obtain ⟨req', hreq, hall⟩ := (husable m hm).2 hrandom
        cases hread.symm.trans hreq
        obtain ⟨inst, hinst⟩ := hall k
        cases hgen.symm.trans hinst
  · rw [hp'] at hends
    obtain ⟨hsections, g, hg⟩ := hends
    refine ⟨fun n => (g n).map p'.code.instruction, ?_, ?_, hsections, hg.terminators⟩
    · intro m hm hrandom
      obtain ⟨req, hread, hlen, hall⟩ := hg.replaced m (List.mem_filter.2 ⟨hm, hrandom⟩)
      refine ⟨req, hread, by rw [List.length_map, hlen], fun inst hinst => ?_⟩
      obtain ⟨x, hx, rfl⟩ := List.mem_map.1 hinst
      exact (hall x hx).2
    · intro f hf bb hbb
      rcases List.mem_cons.1 hbb with rfl | hblock
      · have hempty := (hg.blocks f.exitBb).iterNodes
        rw [hp.exits f hf] at hempty ⊢
        unfold Code.instructions
        rw [hempty]
        rfl
      · exact hg.instructions hp rfl hf hblock

/-- The two arguments of a macro, as they are written in a template. -/
theorem readMacro_arguments {inst : Instruction} {actorName : Text} {req : MacroRequest} {n m : Nat}
    (hargs : inst.operands[1]? = some ('.' :: (strNat n ++ '.' :: strNat m)))
    (h : readMacro gen inst actorName = .ok req) : req.nInstr = n ∧ req.nMem = m := by
  have hsplit : splitText '.' ('.' :: (strNat n ++ '.' :: strNat m)) = [[], strNat n, strNat m] := by
    have hfirst : splitText '.' ([] ++ '.' :: (strNat n ++ '.' :: strNat m)) =
        [] :: splitText '.' (strNat n ++ '.' :: strNat m) := splitText_append (by simp) _
    rw [List.nil_append] at hfirst
    rw [hfirst, splitText_append (not_mem_strNat (by decide)),
      splitText_of_not_mem (not_mem_strNat (by decide))]
  unfold readMacro at h
  rw [hargs] at h
  dsimp only at h
  rw [hsplit] at h
  simp only [List.length_cons, List.length_nil, List.getElem?_cons_succ, List.getElem?_cons_zero,
    Option.bind_some, pyInt_strNat] at h
  split at h
  · split at h
    · cases h
    · cases h
      exact ⟨rfl, rfl⟩
  · cases h

end Whole

/-! ## A sample -/

def sampleMacro (value : String) : Instruction :=
  ⟨macroName, [randomInstructions, value.toList], false⟩

/-- A block of two adjacent macros, an instruction and a last macro, and a block of one macro. -/
def sampleMap : List ParsedSection :=
  [⟨"main".toList, [⟨".function_0".toList,
    [[sampleMacro ".2.1", sampleMacro ".1.0", ⟨"nop".toList, [], false⟩, sampleMacro ".0.0"],
      [sampleMacro ".3.0.x"]]⟩]⟩]

/-- Blocks 1 and 2 of the function, whose exit block is block 0. -/
def sampleTemplate : TestCaseProgram :=
  match fillTestCaseStructure ["main".toList] sampleMap with
  | .ok p => p
  | .error _ => ⟨[], Code.empty, 0⟩

def sampleAdd : InstructionSpec := ⟨"add".toList, "BASE-BINARY".toList, false, false, false, false⟩

/-- The only instruction is always taken. -/
def sampleGenerator : CodeGenerator where
  instructionSet := ⟨.x86_64, [sampleAdd]⟩
  blocklist _ := some []
  memoryAccess _ _ _ := some false
  store _ := false
  spec _ := 0
  generate _ spec := .ok ⟨spec.name, [], spec.isControlFlow⟩

/-- The names of the instructions of the two blocks. -/
example : (expandTemplate sampleGenerator sampleTemplate).toOption.map (fun p =>
    [1, 2].map fun bb => (p.code.instructions bb).map Instruction.name) =
    some [["add".toList, "add".toList, "add".toList, "nop".toList],
      ["add".toList, "add".toList, "add".toList]] := by
  decide +kernel

theorem sampleTemplate_usable :
    ∀ m ∈ sampleTemplate.iterNodes, Usable sampleGenerator sampleTemplate m := by
  have hall : ∀ m ∈ sampleTemplate.iterNodes,
      ((sampleTemplate.code.instruction m.1).name = macroName →
        (sampleTemplate.code.instruction m.1).operands ≠ []) ∧
      ((sampleTemplate.code.instruction m.1).isRandomMacro = true →
        (readMacro sampleGenerator (sampleTemplate.code.instruction m.1) m.2).toOption.map
          MacroRequest.nonMemoryAccess = some [sampleAdd]) := by
    decide +kernel
  intro m hm
  refine ⟨(hall m hm).1, fun hrandom => ?_⟩
  have hread := (hall m hm).2 hrandom
  cases hreq : readMacro sampleGenerator (sampleTemplate.code.instruction m.1) m.2 with
  | error e =>
    rw [hreq] at hread
    cases hread
  | ok req =>
    rw [hreq] at hread
    have hspecs : req.nonMemoryAccess = [sampleAdd] := Option.some.inj hread
    refine ⟨req, rfl, fun k => ?_⟩
    unfold generateFromRandomSpec pickRandomSpec
    dsimp only [sampleGenerator]
    rw [hspecs]
    exact ⟨_, rfl⟩

theorem expandTemplate_exact_sample :
    ∃ p' g, expandTemplate sampleGenerator sampleTemplate = .ok p' ∧
      ExpandsTo sampleGenerator sampleTemplate g p' := by
  have hparse : fillTestCaseStructure ["main".toList] sampleMap = .ok sampleTemplate := rfl
  obtain ⟨p', hp'⟩ := (expandTemplate_exact sampleGenerator hparse).1 sampleTemplate_usable
  obtain ⟨g, hg⟩ := (expandTemplate_exact sampleGenerator hparse).2 p' hp'
  exact ⟨p', g, hp', hg⟩

end Rvzr.Generator.Templates
