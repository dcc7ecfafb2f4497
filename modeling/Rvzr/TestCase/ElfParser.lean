import Rvzr.TestCase.Macros
import Rvzr.Lib.Lines
import Rvzr.Lib.Grouping

/-!
# Parsing object files

`_SymtabParser` and `ELFParser` (`rvzr/elf_parser.py:54-124`, `rvzr/elf_parser.py:217-483`): the
sections and functions of an assembled test case are numbered, its instructions get the addresses
that the disassembler has printed, and its macros become symbols. The parts of a section that the
disassembler has found are an input, as is the ELF file as a list of sections and symbols.
-/

namespace Rvzr.TestCase

open Rvzr.Lib

/-! ### Test case programs -/

/-- `Instruction`: its name and its explicit operands as they are printed. -/
structure Instruction where
  name : Text
  operands : List Text := []
  isControlFlow : Bool := false
  deriving DecidableEq, Repr

structure BasicBlock where
  name : Text
  instructions : List Instruction := []
  terminators : List Instruction := []
  deriving DecidableEq, Repr

/-- `inst.name == "macro"`. -/
def Instruction.isMacro (inst : Instruction) : Bool := inst.name = "macro".toList

/-- `list(bb) + bb.terminators`. -/
def BasicBlock.all (bb : BasicBlock) : List Instruction := bb.instructions ++ bb.terminators

/-- `Function`; the exit block is not among the blocks. -/
structure Function where
  name : Text
  blocks : List BasicBlock := []
  exitBlock : BasicBlock
  deriving DecidableEq, Repr

/-- The instructions of the blocks in their order, the exit block last. -/
def Function.all (f : Function) : List Instruction :=
  (f.blocks ++ [f.exitBlock]).flatMap BasicBlock.all

/-- `CodeSection`; it is named after the actor that owns it. -/
structure CodeSection where
  name : Text
  functions : List Function := []
  deriving DecidableEq, Repr

/-- The configuration of an actor. -/
structure ActorDecl where
  name : Text
  mode : ActorMode
  privilegeLevel : ActorPL
  dataProperties : Int
  dataEptProperties : Int
  deriving DecidableEq, Repr

/-- `TestCaseProgram`. Every actor has a section under its name, and the main actor is the first. -/
structure TestCaseProgram where
  actors : List ActorDecl
  sections : List CodeSection
  names : sections.map CodeSection.name = actors.map ActorDecl.name
  nodup : (actors.map ActorDecl.name).Nodup
  main_first : (actors.map ActorDecl.name).head? = some "main".toList
  deriving DecidableEq, Repr

namespace TestCaseProgram

/-- `find_section`. -/
def findSection (tc : TestCaseProgram) (name : Text) : Option CodeSection :=
  tc.sections.find? fun s => s.name = name

/-- `find_function`, with the section that the function is in. -/
def findFunction (tc : TestCaseProgram) (name : Text) : Option (CodeSection × Function) :=
  (tc.sections.flatMap fun s => s.functions.map fun f => (s, f)).find? fun e => e.2.name = name

end TestCaseProgram

/-! ### The symbol table of the ELF file -/

structure ElfSection where
  name : Text
  offset : Nat
  size : Nat
  deriving DecidableEq, Repr

structure ElfSymbol where
  name : Text
  value : Nat
  shndx : Nat
  deriving DecidableEq, Repr

/-- An object file. -/
structure ElfFile where
  sections : List ElfSection
  symbols : List ElfSymbol
  bytes : List UInt8
  deriving DecidableEq, Repr

/-- `_FunctionData`. -/
structure FunctionData where
  id : Int
  name : Text
  offset : Nat
  deriving DecidableEq, Repr

/-- `_SectionData`; the functions are a dictionary by name. -/
structure SectionData where
  id : Nat
  name : Text
  offset : Nat
  size : Nat
  functions : List FunctionData
  deriving DecidableEq, Repr

/-- `_ELFData`: the sections under their keys. The exit address is -1 until it is found, here
`none`. -/
structure ElfData where
  sectionData : Dict Nat SectionData
  exitAddr : Option Nat
  deriving DecidableEq, Repr

/-- `functions[name] = entry`. -/
def setFunction (functions : List FunctionData) (entry : FunctionData) : List FunctionData :=
  if functions.any fun f => f.name = entry.name then
    functions.map fun f => if f.name = entry.name then entry else f
  else functions ++ [entry]

/-- The sections of the actors, under their numbers in the ELF file. -/
def collectSections (elf : ElfFile) : Dict Nat SectionData :=
  elf.sections.zipIdx.filterMap fun s =>
    if s.1.name.take 6 = ".data.".toList then
      some (s.2, { id := s.2, name := (splitText '.' s.1.name).getD 2 [], offset := s.1.offset,
                   size := s.1.size, functions := [] })
    else none

/-- One entry of the symbol table. -/
def addSymbol (d : ElfData) (s : ElfSymbol) : Except ElfError ElfData := do
  let d ←
    if ".function".toList.isPrefixOf s.name then
      if d.sectionData.contains s.shndx then
        pure { d with sectionData := d.sectionData.map fun e =>
          if e.1 = s.shndx then
            (e.1, { e.2 with functions := setFunction e.2.functions ⟨-1, s.name, s.value⟩ })
          else e }
      else throw (.keyError s!"{s.shndx}")
    else pure d
  if containsText ".test_case_exit".toList s.name then pure { d with exitAddr := some s.value }
  else pure d

/-- `_get_unsorted_data`. -/
def getUnsortedData (elf : ElfFile) : Except ElfError ElfData := do
  let d ← elf.symbols.foldlM addSymbol { sectionData := collectSections elf, exitAddr := none }
  if d.exitAddr = none then throw .assertionError
  return d

/-- The functions of a section in the order of their offsets, with the ids from `next` on. Their
names are different, so lookups do not depend on the order of the dictionary. -/
def numberFunctions (next : Nat) (functions : List FunctionData) : List FunctionData :=
  let sorted := functions.insertionSort fun f g => f.offset ≤ g.offset
  (sorted.zipIdx next).map fun f => { f.1 with id := f.2 }

/-- The ids of the functions are unique across the sections. -/
def numberSections (next : Nat) : List SectionData → List SectionData
  | [] => []
  | s :: ss =>
    { s with functions := numberFunctions next s.functions } ::
      numberSections (next + s.functions.length) ss

/-- `_sort_elf_data`: the sections in their order in the ELF file, numbered from 0 on. -/
def sortElfData (d : ElfData) : ElfData :=
  let sorted := d.sectionData.insertionSort fun a b => a.1 ≤ b.1
  let renamed := sorted.zipIdx.map fun e => { e.1.2 with id := e.2 }
  { d with sectionData := (numberSections 0 renamed).map fun s => (s.id, s) }

/-- `_SymtabParser.parse`. -/
def parseSymtab (elf : ElfFile) : Except ElfError ElfData := do
  return sortElfData (← getUnsortedData elf)

/-! ### Assignment of metadata -/

/-- What is at an address of a section. -/
inductive MapEntry where
  | instruction (inst : Instruction)
  | macroPlaceholder
  | exitNop
  deriving DecidableEq, Repr

/-- An entry of an instruction map, with `assign_binary_properties`. -/
structure Placed where
  entry : MapEntry
  sectionId : Nat
  offset : Nat
  size : Int
  deriving DecidableEq, Repr

/-- What the parser has built so far; `assigned` are the names of the sections with ELF data. -/
structure BinMetadata where
  symbolTable : List SymbolTableEntry := []
  instructionMap : Dict Nat (Dict Nat Placed) := []
  assigned : List Text := []
  deriving DecidableEq, Repr

/-- The addresses of the instructions of each section, as the disassembler has printed them. -/
abbrev InstrAddrMap := Text → Option (List Nat)

/-- `xs[i]`. -/
def item {α : Type} (xs : List α) (i : Nat) : Except ElfError α :=
  match xs[i]? with
  | some x => .ok x
  | none => .error .indexError

/-- `d[k][a] = p`. -/
def setEntry (m : Dict Nat (Dict Nat Placed)) (k a : Nat) (p : Placed) : Dict Nat (Dict Nat Placed) :=
  m.map fun e => if e.1 = k then (e.1, Dict.insert e.2 a p) else e

/-- `_assign_instruction_metadata`, where a macro takes up `perMacro` instructions. -/
def assignInstruction (perMacro : Nat) (addrs : List Nat) (sid cursor : Nat) (entry : MapEntry)
    (isMacro : Bool) (m : Dict Nat (Dict Nat Placed)) :
    Except ElfError (Dict Nat (Dict Nat Placed)) := do
  let address ← item addrs cursor
  let size : Int := match addrs[cursor + 1]? with
    | some next => (next : Int) - address
    | none => 0
  let m := setEntry m sid address { entry := entry, sectionId := sid, offset := address, size := size }
  if isMacro then
    (List.range' 1 (perMacro - 1)).foldlM (fun m i => do
      let a ← item addrs (cursor + i)
      return setEntry m sid a { entry := .macroPlaceholder, sectionId := sid, offset := a, size := -1 }) m
  else return m

/-- The hexadecimal digits of a literal may be grouped by single underscores. -/
def hexDigit (c : Char) : Option Nat :=
  if c.isDigit then some (c.toNat - '0'.toNat)
  else if 'a' ≤ c ∧ c ≤ 'f' then some (c.toNat - 'a'.toNat + 10)
  else none

def hexValid : Text → Bool
  | [] => false
  | [c] => (hexDigit c).isSome
  | c :: d :: cs => (hexDigit c).isSome && (hexValid (d :: cs) || (d == '_' && hexValid cs))

/-- `int(t, 16)` of a text that starts with `0x`; the text is in lower case. -/
def pyHex (t : Text) : Option Int :=
  let digits := if t[2]? = some '_' then t.drop 3 else t.drop 2
  if hexValid digits then
    some ((digits.filterMap hexDigit).foldl (fun n d => 16 * n + d) 0 : Nat)
  else none

/-- The value of an argument of kind `int`. -/
def intArg (t : Text) : Except ElfError Int :=
  match if "0x".toList.isPrefixOf t then pyHex t else pyInt t with
  | some v => .ok (v % 2 ^ 16)
  | none => .error .valueError

/-- `section_name_to_id`. -/
def sectionNameToId (sections : List SectionData) (name : Text) : Except ElfError Int :=
  match sections.find? fun s => s.name = name with
  | some s => .ok s.id
  | none => .error (parsingError s!"Macro references an unknown actor {String.ofList name}")

/-- `function_name_to_id`. -/
def functionNameToId (functions : List FunctionData) (name : Text) : Except ElfError Int :=
  match functions.find? fun f => f.name = name with
  | some f => .ok f.id
  | none => .error (parsingError s!"Macro references an unknown function {String.ofList name}")

/-- The number that one argument of a macro stands for. -/
def argValue (sections : List SectionData) (functions : List FunctionData) (kind : MacroArg)
    (arg : Text) : Except ElfError Int :=
  match kind with
  | .none => .ok 0
  | .actorId => sectionNameToId sections arg
  | .functionId => functionNameToId functions ('.' :: arg)
  | .int => intArg arg

/-- The numbers that the arguments of a macro stand for. -/
def argValues (sections : List SectionData) (functions : List FunctionData) (spec : MacroSpec)
    (args : List Text) : Except ElfError (List Int) :=
  args.zipIdx.mapM fun a => do
    argValue sections functions (← item spec.args a.2) (a.1.map Char.toLower)

/-- The arguments packed into one number. -/
def packArgs (values : List Int) : Int :=
  (values.zipIdx.map fun v => v.1 * 2 ^ (16 * v.2)).sum

/-- `macro_specs[name]`. -/
def macroSpec (name : Text) : Except ElfError MacroSpec :=
  match macroSpecs.find? fun spec => spec.name.toList = name with
  | some spec => .ok spec
  | none => .error (.keyError (String.ofList name))

/-- The specification of a macro instruction, and the numbers that its arguments stand for. -/
def macroValues (sections : List SectionData) (functions : List FunctionData)
    (inst : Instruction) : Except ElfError (MacroSpec × List Int) := do
  let spec ← macroSpec (((← item inst.operands 0).drop 1).map Char.toLower)
  let values ← argValues sections functions spec ((splitText '.' (← item inst.operands 1)).drop 1)
  return (spec, values)

/-- `_assign_macro_metadata`: the symbol of a macro at an offset of a section. -/
def assignMacroMetadata (sections : List SectionData) (functions : List FunctionData) (sid : Nat)
    (offset : Nat) (inst : Instruction) : Except ElfError SymbolTableEntry := do
  let m ← macroValues sections functions inst
  return { sid := sid, offset := offset, type_ := m.1.type_, arg := packArgs m.2 }

section Assign

variable (perMacro : Nat) (addrs : InstrAddrMap) (sections : List SectionData)
  (functions : List FunctionData)

/-- `instr_addr_map[name]`. -/
def addrsOf (name : Text) : Except ElfError (List Nat) :=
  match addrs name with
  | some as => .ok as
  | none => .error (.keyError (String.ofList name))

/-- One instruction of a function, from the position of its address on. -/
def assignStep (sid : Nat) (as : List Nat) (st : Nat × BinMetadata) (inst : Instruction) :
    Except ElfError (Nat × BinMetadata) := do
  let m ← assignInstruction perMacro as sid st.1 (.instruction inst) inst.isMacro
    st.2.instructionMap
  if inst.isMacro then
    let symbol ← assignMacroMetadata sections functions sid (← item as st.1) inst
    return (st.1 + perMacro,
      { st.2 with instructionMap := m, symbolTable := st.2.symbolTable ++ [symbol] })
  else return (st.1 + 1, { st.2 with instructionMap := m })

/-- The instructions of one function of a section. -/
def assignFunction (tc : TestCaseProgram) (s : SectionData) (st : Nat × BinMetadata)
    (f : FunctionData) : Except ElfError (Nat × BinMetadata) := do
  match tc.findFunction f.name with
  | none => throw (.keyError s!"Function {String.ofList f.name} does not exist in the test case")
  | some (owner, func) =>
    if owner.name ≠ s.name then throw .assertionError
    let as ← addrsOf addrs s.name
    if f.offset ≠ (← item as st.1) then throw .assertionError
    func.all.foldlM (assignStep perMacro sections functions s.id as) st

/-- One section: its own metadata, its functions and then their instructions. -/
def assignSection (tc : TestCaseProgram) (b : BinMetadata) (s : SectionData) :
    Except ElfError BinMetadata := do
  match tc.findSection s.name with
  | none => throw (.keyError s!"Section {String.ofList s.name} does not exist in the test case")
  | some _ =>
    if s.name ∈ b.assigned then throw .assertionError
    let b := { b with
      assigned := b.assigned ++ [s.name]
      symbolTable := b.symbolTable ++ s.functions.map fun f =>
        { sid := s.id, offset := f.offset, type_ := 0, arg := f.id }
      instructionMap := Dict.insert b.instructionMap s.id [] }
    return (← s.functions.foldlM (assignFunction perMacro addrs sections functions tc s) (0, b)).2

end Assign

/-- `symbol_table.sort(key=lambda x: (x.sid, x.offset))`. -/
def sortSymbols (symbols : List SymbolTableEntry) : List SymbolTableEntry :=
  symbols.insertionSort fun a b => toLex (a.sid, a.offset) ≤ toLex (b.sid, b.offset)

/-- The last instruction of `.data.main` is the exit of the test case, and it is mapped to a NOP. -/
def assignExit (addrs : InstrAddrMap) (sections : List SectionData) (exitAddr : Nat)
    (b : BinMetadata) : Except ElfError BinMetadata := do
  let mainAddrs ← addrsOf addrs "main".toList
  let first ← item sections 0
  let as ← if first.name = "main".toList then pure (mainAddrs ++ [exitAddr])
    else addrsOf addrs first.name
  match b.instructionMap.find? fun e => e.1 = 0 with
  | none => throw (.keyError "0")
  | some e =>
    let m ← assignInstruction 1 as first.id e.2.length .exitNop false b.instructionMap
    return { b with instructionMap := m }

/-- `_assign_bin_metadata`. -/
def assignBinMetadata (perMacro : Nat) (addrs : InstrAddrMap) (data : ElfData)
    (tc : TestCaseProgram) : Except ElfError BinMetadata := do
  let sections := data.sectionData.values
  let functions := sections.flatMap SectionData.functions
  let b ← sections.foldlM (assignSection perMacro addrs sections functions tc) {}
  match data.exitAddr with
  | none => throw .assertionError
  | some exitAddr =>
    let b ← assignExit addrs sections exitAddr b
    return { b with symbolTable := sortSymbols b.symbolTable }

/-! ### The parsed test case -/

/-- The ELF data of the section with a name. -/
def elfSectionOf (sections : List SectionData) (name : Text) : Option ElfSectionData :=
  (sections.find? fun s => s.name = name).map fun s => ⟨s.offset, s.size, s.id⟩

/-- An actor with its section. -/
def actorOf (sections : List SectionData) (a : ActorDecl) : Except ElfError Actor :=
  match elfSectionOf sections a.name with
  | none => .error (parsingError s!"Failed to find section for actor `{String.ofList a.name}`")
  | some s => .ok ⟨s.id, a.mode, a.privilegeLevel, a.dataProperties, a.dataEptProperties, s⟩

/-- `populate_elf_data`: the test case with its symbols and its actors, and the instruction map. -/
def populateElfData (perMacro : Nat) (addrs : InstrAddrMap) (elf : ElfFile)
    (tc : TestCaseProgram) :
    Except ElfError (TestCaseBinary × Dict Nat (Dict Nat Placed)) := do
  let data ← parseSymtab elf
  let b ← assignBinMetadata perMacro addrs data tc
  if b.instructionMap.length ≠ tc.sections.length then
    throw (parsingError
      "InstructionMap does not have the same number of sections as the test case")
  let actors ← tc.actors.mapM (actorOf data.sectionData.values)
  validateMacros actors b.symbolTable
  -- the sections of an object file lie in the file
  if h : ∀ a ∈ actors, a.codeSection.offset + a.codeSection.size ≤ elf.bytes.length then
    return (⟨actors, b.symbolTable, elf.bytes, h⟩, b.instructionMap)
  else throw .valueError

end Rvzr.TestCase
