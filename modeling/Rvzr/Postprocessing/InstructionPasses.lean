import Rvzr.Lib.Comments

/-!
# Instruction passes of the minimizer

Every pass runs one loop over the lines of the program, from the last one up. The loop changes a
running copy and keeps the numbers of the lines whose change was verified; the pass then makes the
changes again on the file.
-/

namespace Rvzr.Postprocessing

open Rvzr.Lib

inductive InstructionSet where
  | x86_64
  | arm64
deriving DecidableEq

def InstructionSet.commentSymbol : InstructionSet → Text
  | .x86_64 => "#".toList
  | .arm64 => "//".toList

def InstructionSet.baseRegister : InstructionSet → Text
  | .x86_64 => "r14".toList
  | .arm64 => "x20".toList

/-- What a pass relies on: the instruction set, the size of the code of a line (`none` if the
assembler fails) and whether a program can be parsed. -/
structure PassEnv where
  isa : InstructionSet
  assemble : Text → Option Nat
  parses : Text → Bool

/-- The passes whose results are verified. -/
inductive InstructionPass where
  | removal
  | simplification
  | constant
  | mask
  | nop
  | fence
deriving DecidableEq

/-- `line.strip().lower()`. -/
def cleanLine (line : Text) : Text := lowerText (stripText line)

def instrumentationTag : Text := "instrumentation".toList

/-! ## Instruction simplification -/

/-- The entries of `_instruction_replacements` that do not depend on the line. -/
def instructionReplacements : List (Text × Text) :=
  (["cmova", "cmovae", "cmovb", "cmovbe", "cmovc", "cmove", "cmovg", "cmovge", "cmovl", "cmovle",
      "cmovna", "cmovnae", "cmovnb", "cmovnbe", "cmovnc", "cmovne", "cmovng", "cmovnge", "cmovnl",
      "cmovnle", "cmovno", "cmovnp", "cmovns", "cmovnz", "cmovo", "cmovp", "cmovs", "cmovz",
      "xchg"].map fun k => (k.toList, "mov".toList)) ++
    [("cmpxchg".toList, "xchg".toList), ("rep".toList, []), ("lock".toList, []),
      ("add".toList, "mov".toList)] ++
    (["sub", "or", "xor", "and", "cmp", "bsr", "bsf", "bt", "bts", "btr", "btc", "bzhi", "bextr",
      "blsi", "blsmsk", "xadd", "test", "adc"].map fun k => (k.toList, "add".toList)) ++
    [("sbb".toList, "sub".toList)] ++
    (["mul", "div", "setb", "not"].map fun k => (k.toList, "inc".toList)) ++
    [("idiv".toList, "div".toList)]

def instructionReplacement (key line : Text) : Option Text :=
  if key = "imul".toList then
    some (if (splitText ',' line).length = 2 then "add".toList else "imul".toList)
  else instructionReplacements.lookup key

def simplifyLine (line : Text) : Option Text :=
  let clean := cleanLine line
  let words := splitText ' ' clean
  (instructionReplacement (words.headD []) clean).map fun r =>
    joinText [' '] (r :: words.tail) ++ ['\n']

/-! ## Constants and masks -/

def isHexDigit (c : Char) : Bool := c.isDigit || ('a' ≤ c && c ≤ 'f')

/-- A decimal, hexadecimal or binary number without sign. -/
def isUnsignedLiteral (t : Text) : Bool :=
  (!t.isEmpty && t.all Char.isDigit) ||
    ("0x".toList.isPrefixOf t && !(t.drop 2).isEmpty && (t.drop 2).all isHexDigit) ||
    ("0b".toList.isPrefixOf t && !(t.drop 2).isEmpty &&
      (t.drop 2).all fun c => c == '0' || c == '1')

def isSignedLiteral : Text → Bool
  | '-' :: t => isUnsignedLiteral t
  | t => isUnsignedLiteral t

/-- `_match_dec`, `_match_hex` or `_match_bin` matches. -/
def InstructionSet.isConstant : InstructionSet → Text → Bool
  | .x86_64, t => isSignedLiteral t
  | .arm64, '#' :: t => isSignedLiteral t
  | .arm64, _ => false

def InstructionSet.constantReplacement : InstructionSet → Text
  | .x86_64 => "0".toList
  | .arm64 => "#1".toList

/-- The words after `before` up to the first one that is a constant. -/
def replaceConstant (isa : InstructionSet) (before : List Text) : List Text → Option (List Text)
  | [] => none
  | word :: words =>
    if stripText word = isa.constantReplacement then none
    else if isa.isConstant (stripText word) then
      some (before ++ [isa.constantReplacement] ++ words)
    else replaceConstant isa (before ++ [word]) words

def simplifyConstant (isa : InstructionSet) (line : Text) : Option Text :=
  (replaceConstant isa [] (splitText ',' (cleanLine line))).map fun words =>
    joinText ", ".toList words ++ ['\n']

/-- `_mask_replacements`: the lowest of the set bits is cleared. -/
def maskReplacements : List (Text × Text) :=
  [("0b1111111111111".toList, "0b1111111111110".toList),
    ("0b1111111111110".toList, "0b1111111111100".toList),
    ("0b1111111111100".toList, "0b1111111111000".toList),
    ("0b1111111111000".toList, "0b1111111110000".toList),
    ("0b1111111110000".toList, "0b1111111100000".toList),
    ("0b1111111100000".toList, "0b1111111000000".toList),
    ("0b1111111000000".toList, "0b1111110000000".toList),
    ("0b1111110000000".toList, "0b1111100000000".toList),
    ("0b1111100000000".toList, "0b1111000000000".toList),
    ("0b1111000000000".toList, "0b1110000000000".toList),
    ("0b1110000000000".toList, "0b1100000000000".toList),
    ("0b1100000000000".toList, "0b1000000000000".toList),
    ("0b1000000000000".toList, "0b0000000000000".toList)]

def replaceMask (before : List Text) : List Text → Option (List Text)
  | [] => none
  | word :: words =>
    match maskReplacements.lookup (stripText word) with
    | none => replaceMask (before ++ [word]) words
    | some replacement => some (before ++ [replacement] ++ words)

/-- The comment of the line is kept, with the line's end in it; a line without a comment loses its
end. -/
def simplifyMask (isa : InstructionSet) (line : Text) : Option Text :=
  let clean := cleanLine (beforeText [isa.commentSymbol] line)
  let comment := afterText isa.commentSymbol line
  (replaceMask [] (splitText ',' clean)).map fun words =>
    joinText ", ".toList words ++ [' '] ++ isa.commentSymbol ++ comment

/-! ## Replacement by NOPs and insertion of fences -/

/-- A pattern of a stem, further lower-case letters and a blank. -/
def matchStem (stem line : Text) : Bool :=
  stem.isPrefixOf line &&
    ((line.drop stem.length).dropWhile fun c => 'a' ≤ c && c ≤ 'z').head? == some ' '

/-- `_match_jump` or `_match_loop` matches. -/
def InstructionSet.isControlFlow : InstructionSet → Text → Bool
  | .x86_64, line => matchStem "j".toList line || matchStem "loop".toList line
  | .arm64, line =>
    matchStem "b.".toList line || matchStem "bl".toList line ||
      ["cbz ", "cbnz ", "tbnz ", "tbz "].any fun stem => stem.toList.isPrefixOf line

def InstructionSet.nopReplacements : InstructionSet → List (Nat × Text)
  | .x86_64 =>
    [(1, "nop  # 1 B".toList), (2, ".byte 0x66, 0x90  # 2 B".toList),
      (3, "nop dword ptr [rax]  # 3 B".toList), (4, "nop qword ptr [rax]  # 4 B".toList),
      (5, "nop qword ptr [rax + 1]  # 5 B".toList),
      (6, "nop qword ptr [rax + rax + 1]  # 6 B".toList),
      (7, "nop dword ptr [rax + 0xff]  # 7 B".toList),
      (8, "nop qword ptr [rax + 0xff]  # 8 B".toList),
      (9, "nop qword ptr [rax + rax + 0xff]  # 9 B".toList)]
  | .arm64 => [(4, "nop".toList)]

def InstructionSet.fence : InstructionSet → Text
  | .x86_64 => "lfence".toList
  | .arm64 => "dsb sy\n isb".toList

variable (env : PassEnv)

/-- The NOP for a line; the outer `none` is a failure of the assembler. -/
def nopLine (line : Text) : Option (Option Text) :=
  let clean := cleanLine line
  if containsText "nop".toList clean then some none
  else if env.isa.isControlFlow clean then some none
  else
    (env.assemble clean).map fun size =>
      (env.isa.nopReplacements.lookup size).map fun r => r ++ ['\n']

/-- A copy with another line at the cursor, or nothing. -/
def replaceLine (instructions : List Text) (cursor : Nat) : Option Text → List Text
  | none => []
  | some line => instructions.set cursor line

def insertFence (instructions : List Text) (cursor : Nat) : List Text :=
  instructions.take cursor ++ [env.isa.fence ++ ['\n']] ++ instructions.drop cursor

/-- `modify_instruction`; the empty list means that there is nothing to change. -/
def InstructionPass.modifyInstruction (instructions : List Text) (cursor : Nat) :
    InstructionPass → Option (List Text)
  | .removal => some (instructions.take cursor ++ instructions.drop (cursor + 1))
  | .simplification =>
    some (replaceLine instructions cursor (simplifyLine (instructions.getD cursor [])))
  | .constant =>
    some (replaceLine instructions cursor
      (simplifyConstant env.isa (instructions.getD cursor [])))
  | .mask =>
    some (replaceLine instructions cursor (simplifyMask env.isa (instructions.getD cursor [])))
  | .nop =>
    (nopLine env (instructions.getD cursor [])).map (replaceLine instructions cursor)
  | .fence =>
    if env.isa.isControlFlow (lowerText (instructions.getD cursor [])) then some []
    else some (insertFence env instructions cursor)

/-! ## The loop -/

def InstructionPass.skipInstrumentationLines : InstructionPass → Bool
  | .mask => false
  | _ => true

/-- Lines that the loop leaves alone. -/
def lineIsSkipped (isa : InstructionSet) (skipInstrumentationLines : Bool) : Text → Bool
  | [] => true
  | c :: cs =>
    let line := c :: cs
    [c] == isa.commentSymbol || containsText "lfence".toList line || c == '.' ||
      containsText "noremove".toList line ||
      (skipInstrumentationLines && containsText instrumentationTag line) ||
      (containsText isa.baseRegister line && !containsText ['['] line)

/-- The running copy, the numbers of the changed lines, and all verified programs with the answers
of `verify_modification`. -/
structure LoopState where
  instructions : List Text
  modifiableIds : List Nat
  verified : List (List Text × Bool)

variable (pass : InstructionPass) (answers : Nat → Bool)

/-- One round of the loop. A line is verified at most once, so the answers are numbered by the
lines. -/
def minimizationStep (cursor : Nat) (s : LoopState) : Option LoopState :=
  let line := cleanLine (s.instructions.getD cursor [])
  if lineIsSkipped env.isa pass.skipInstrumentationLines line then some s
  else
    match pass.modifyInstruction env s.instructions cursor with
    | none => none
    | some [] => some s
    | some modified =>
      if !env.parses modified.flatten then none
      else if answers cursor then
        some
          { instructions := modified
            modifiableIds := s.modifiableIds ++ [cursor]
            verified := s.verified ++ [(modified, true)] }
      else some { s with verified := s.verified ++ [(modified, false)] }

/-- The lines up to `cursor`, without the first one. -/
def loopFrom : Nat → LoopState → Option LoopState
  | 0, s => some s
  | cursor + 1, s => (minimizationStep env pass answers (cursor + 1) s).bind (loopFrom cursor)

/-- An empty file has no line to look at. -/
def minimizationLoop (lines : List Text) : Option LoopState :=
  if lines = [] then none
  else loopFrom env pass answers (lines.length - 1) ⟨lines, [], []⟩

/-! ## The passes -/

def clearTag (line : Text) : Text :=
  if containsText instrumentationTag (lowerText line) then removeWord instrumentationTag line
  else line

/-- The lines of the removal pass, one after the other. The first line stays, so there always is a
last one. -/
def keepOrRemove (ids : List Nat) (instructions : List Text) (line : Text × Nat) : List Text :=
  if line.2 ∈ ids then instructions.modify (instructions.length - 1) clearTag
  else instructions ++ [line.1]

/-- The lines of the NOP pass, one after the other. -/
def keepOrNop (ids : List Nat) (instructions : List Text) (line : Text × Nat) :
    Option (List Text) :=
  if line.2 ∈ ids then
    match nopLine env line.1 with
    | none => none
    | some none => some (instructions ++ [line.1])
    | some (some replacement) =>
      -- the tag is cleared in the line before the replacement
      some (instructions.modify (instructions.length - 1) clearTag ++ [replacement])
  else some (instructions ++ [line.1])

/-- The changes made again on the lines of the file. -/
def reapply (ids : List Nat) (lines : List Text) : InstructionPass → Option (List Text)
  | .removal => some (lines.zipIdx.foldl (keepOrRemove ids) [])
  | .nop => lines.zipIdx.foldlM (keepOrNop env ids) []
  | .fence => some (ids.foldl (insertFence env) lines)
  | pass => ids.foldlM (fun instructions i => pass.modifyInstruction env instructions i) lines

/-- The program that a pass returns, and what was verified on the way. -/
structure PassResult where
  program : Text
  verified : List (List Text × Bool)

def InstructionPass.run (file : Text) : Option PassResult :=
  if pass = .simplification ∧ env.isa = .arm64 then some ⟨file, []⟩
  else do
    let s ← minimizationLoop env pass answers (readLines file)
    let instructions ← reapply env s.modifiableIds (readLines file) pass
    if env.parses instructions.flatten then some ⟨instructions.flatten, s.verified⟩
    else none

/-- The last program that was verified with success, or the file. -/
def lastVerified (file : Text) (verified : List (List Text × Bool)) : Text :=
  match (verified.filter fun v => v.2).getLast? with
  | none => file
  | some v => v.1.flatten

end Rvzr.Postprocessing
