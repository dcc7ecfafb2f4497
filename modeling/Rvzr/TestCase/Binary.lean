import Rvzr.Lib.Bytes
import Mathlib.Data.List.Sort
import Mathlib.Data.Prod.Lex

/-!
# Assembled test cases and the RCBF encoder

`TestCaseBinary.save_rcbf` (`rvzr/tc_components/test_case_binary.py:136-195`). The actors and
the sections of a test case are those of its parent program; section contents are read from
the object file.
-/

namespace Rvzr.TestCase

open Rvzr.Lib

/-- `ActorMode` (`actor.py:28-31`). -/
inductive ActorMode where
  | host | guest
  deriving DecidableEq, Repr

/-- `ActorPL` (`actor.py:34-37`). -/
inductive ActorPL where
  | kernel | user
  deriving DecidableEq, Repr

def ActorMode.value : ActorMode → Int
  | .host => 0
  | .guest => 1

def ActorPL.value : ActorPL → Int
  | .kernel => 0
  | .user => 1

/-- The ELF data of a code section (`get_elf_data`). -/
structure ElfSectionData where
  offset : Nat
  size : Nat
  id : Int
  deriving DecidableEq, Repr

/-- The part of `Actor` that is saved, with its code section. -/
structure Actor where
  id : Int
  mode : ActorMode
  privilegeLevel : ActorPL
  dataProperties : Int
  dataEptProperties : Int
  codeSection : ElfSectionData
  deriving DecidableEq, Repr

/-- `SymbolTableEntry` (`test_case_binary.py:25-39`). -/
structure SymbolTableEntry where
  sid : Int
  offset : Int
  type_ : Int
  arg : Int
  deriving DecidableEq, Repr

/-- An assembled `TestCaseBinary` with the actors of its parent. The sections lie in the object
file. -/
structure TestCaseBinary where
  actorValues : List Actor
  symbolTable : List SymbolTableEntry
  objFile : List UInt8
  sections_in_file :
    ∀ a ∈ actorValues, a.codeSection.offset + a.codeSection.size ≤ objFile.length

theorem sections_in_file_nil : ∀ a ∈ ([] : List Actor),
    a.codeSection.offset + a.codeSection.size ≤ ([] : List UInt8).length := by simp

/-- `n.to_bytes(8, byteorder='little')`; `none` is the `OverflowError`. -/
def toBytes8 (n : Int) : Option (List UInt8) :=
  if 0 ≤ n ∧ n < 2 ^ 64 then some (le64 n.toNat) else none

namespace TestCaseBinary

variable (tc : TestCaseBinary)

/-- `get_actors(sorted_=True)`. -/
def getActors : List Actor := tc.actorValues.insertionSort fun a b => a.id ≤ b.id

/-- The symbols in the order in which they are written: functions by argument, then macros by
section and offset. -/
def sortedSymbols : List SymbolTableEntry :=
  (tc.symbolTable.filter fun s => s.type_ = 0).insertionSort (fun a b => a.arg ≤ b.arg) ++
    (tc.symbolTable.filter fun s => s.type_ ≠ 0).insertionSort
      fun a b => toLex (a.sid, a.offset) ≤ toLex (b.sid, b.offset)

/-- The code of an actor: `bin_file.seek(offset)`, `bin_file.read(size)`. -/
def sectionCode (a : Actor) : List UInt8 :=
  (tc.objFile.drop a.codeSection.offset).take a.codeSection.size

def headerInts : List Int := [tc.getActors.length, tc.symbolTable.length]

def actorInts : List Int := tc.getActors.flatMap fun a =>
  [a.id, a.mode.value, a.privilegeLevel.value, a.dataProperties, a.dataEptProperties, 0]

def symbolInts : List Int := tc.sortedSymbols.flatMap fun s => [s.sid, s.offset, s.type_, s.arg]

def metadataInts : List Int := tc.getActors.flatMap fun a =>
  [a.codeSection.id, a.codeSection.size, 0]

/-- The bytes of the code sections in the order of the actors. -/
def code : List UInt8 := tc.getActors.flatMap tc.sectionCode

/-- `save_rcbf`: the contents of the file; `none` is an error exit or an exception. -/
def saveRcbf : Option (List UInt8) :=
  if tc.symbolTable.any fun s => s.type_ < 0 then none
  else do
    let head ← (tc.headerInts ++ tc.actorInts ++ tc.symbolInts ++ tc.metadataInts).mapM toBytes8
    pure (head.flatten ++ tc.code)

/-- The 64-bit words of a list of saved integers. -/
def wordsOf (is : List Int) : List Nat := is.map Int.toNat

end TestCaseBinary

theorem mapM_toBytes8 {is : List Int} {bs : List (List UInt8)} (h : is.mapM toBytes8 = some bs) :
    bs.flatten = encodeWords (is.map Int.toNat) ∧ ∀ i ∈ is, i.toNat < 2 ^ 64 := by
  induction is generalizing bs with
  | nil =>
    have : bs = [] := by simpa using h.symm
    subst this
    simp [encodeWords]
  | cons i is ih =>
    rw [List.mapM_cons] at h
    cases hi : toBytes8 i with
    | none => simp [hi] at h
    | some b =>
      cases his : is.mapM toBytes8 with
      | none => simp [hi, his] at h
      | some bs' =>
        have hbs : bs = b :: bs' := by simpa [hi, his] using h.symm
        obtain ⟨hflat, hlt⟩ := ih his
        unfold toBytes8 at hi
        split at hi
        · rename_i hrange
          have hb : b = le64 i.toNat := by simpa using hi.symm
          subst hbs hb
          refine ⟨?_, ?_⟩
          · rw [List.flatten_cons, hflat, List.map_cons]
            rfl
          · intro j hj
            rcases List.mem_cons.mp hj with rfl | hj
            · omega
            · exact hlt j hj
        · simp at hi

namespace TestCaseBinary

variable {tc : TestCaseBinary}

/-- What `save_rcbf` writes: the words of the header and of the three tables, then the code. -/
theorem saveRcbf_eq {bytes : List UInt8} (h : tc.saveRcbf = some bytes) :
    bytes = encodeWords (wordsOf tc.headerInts) ++ (encodeWords (wordsOf tc.actorInts) ++
      (encodeWords (wordsOf tc.symbolInts) ++ (encodeWords (wordsOf tc.metadataInts) ++ tc.code))) ∧
    ∀ i ∈ tc.headerInts ++ tc.actorInts ++ tc.symbolInts ++ tc.metadataInts, i.toNat < 2 ^ 64 := by
  unfold saveRcbf at h
  split at h
  · simp at h
  · cases hm : (tc.headerInts ++ tc.actorInts ++ tc.symbolInts ++ tc.metadataInts).mapM toBytes8 with
    | none => rw [hm] at h; simp at h
    | some bs =>
      have hb : bytes = bs.flatten ++ tc.code := by rw [hm] at h; simpa using h.symm
      obtain ⟨hflat, hlt⟩ := mapM_toBytes8 hm
      refine ⟨?_, hlt⟩
      rw [hb, hflat]
      simp [wordsOf, encodeWords]

end TestCaseBinary

end Rvzr.TestCase
