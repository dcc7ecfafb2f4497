import Rvzr.Lib.Folds
import Rvzr.Unicorn.LoadInput
import Rvzr.X86.Sandboxing

/-!
# User-to-kernel accesses

`_X86U2KAccessPass` (`rvzr/arch/x86/generator.py:208-304`) on one function of a user actor, behind
the sandbox pass. The list of candidates is made once for the function and visited again at each of
its blocks, so an access of an early block can be selected several times
(`instrumentFunction_redirects_iff`).
-/

namespace Rvzr.X86

open Rvzr.Lib
open Rvzr.Unicorn (DataArea getDataAddr pageSize)

/-! ### The pass -/

/-- The offset from MAIN of the owner to FAULTY of actor 0, in a layout that starts at 0. -/
def u2kOffset (owner : Nat) : Int :=
  (getDataAddr 0 .main owner : Int) - getDataAddr 0 .faulty 0

/-- A new mask for an immediate operand. -/
def Operand.reduceMask : Operand → Operand
  | .value (.imm mask width) =>
    .value (.imm (if (pageSize : Int) < mask then mask % pageSize else mask) width)
  | op => op

namespace Instruction

def reduceMasks (i : Instruction) : Instruction :=
  { i with operands := i.operands.map Operand.reduceMask }

/-- `mem_operand.value += " - " + str(offset)` on a random memory operand. -/
def redirect (offset : Int) (pick : Nat) (i : Instruction) : Instruction :=
  let value : Nat → Address → Address := fun n a =>
    if n = pick % i.memOperands.length then a ++ [.minus offset] else a
  { i with operands := mapMem value 0 i.operands }

/-- The nodes that are collected for instrumentation. -/
def candidate (i : Instruction) : Bool :=
  !(i.isInstrumentation || i.isFromTemplate) && !(["div", "idiv"].contains i.name) &&
    i.hasMemOperand false

end Instruction

/-- The walk backwards over the instrumentation in front of a node. -/
def reduceBackwards : List Instruction → List Instruction
  | [] => []
  | i :: is => if i.isInstrumentation then i.reduceMasks :: reduceBackwards is else i :: is

/-- `_instrument` on the node at position `p`. -/
def instrumentAt (offset : Int) (pick p : Nat) (bb : List Instruction) : List Instruction :=
  match bb.drop p with
  | [] => bb
  | node :: rest => (reduceBackwards (bb.take p).reverse).reverse ++ node.redirect offset pick :: rest

/-- The positions of the candidates of a block. -/
def candidates (bb : List Instruction) : List Nat :=
  (List.range bb.length).filter fun p => bb[p]?.any Instruction.candidate

/-- The draws of the pass: at the visit of a block, for the node at a position of a block, whether it
is selected and which of its memory operands. -/
abbrev U2KChoice := Nat → Nat → Nat → Option Nat

/-- One round over `to_instrument`. -/
def instrumentSelected (offset : Int) (choice : Nat → Nat → Option Nat)
    (toInstrument : List (Nat × Nat)) (func : List (List Instruction)) : List (List Instruction) :=
  toInstrument.foldl (fun func node =>
    match choice node.1 node.2 with
    | none => func
    | some pick => func.modify node.1 (instrumentAt offset pick node.2)) func

/-- The loop over the blocks of a function; `to_instrument` is not emptied between them. -/
def instrumentFunction (offset : Int) (choice : U2KChoice) (func : List (List Instruction)) :
    List (List Instruction) :=
  ((List.range func.length).foldl (fun st b =>
    let toInstrument := st.1 ++ (candidates (st.2.getD b [])).map (Prod.mk b)
    (toInstrument, instrumentSelected offset (choice b) toInstrument st.2)) ([], func)).2

/-! ### The effect on one instruction -/

section Effect

variable {offset : Int} {pick p q b : Nat} {bb : List Instruction} {i : Instruction}
  {func : List (List Instruction)}

/-- What the pass reads of an instruction and never changes. -/
structure Key where
  isInstrumentation : Bool
  candidate : Bool
  memOperands : Nat

def Instruction.key (i : Instruction) : Key :=
  ⟨i.isInstrumentation, i.candidate, i.memOperands.length⟩

def keys (bb : List Instruction) : List Key := bb.map Instruction.key

theorem mem?_reduceMask (op : Operand) : op.reduceMask.mem? = op.mem? := by
  cases op with
  | value op => cases op <;> rfl
  | flags => rfl
  | cond => rfl

theorem isMem_reduceMask (op : Operand) : op.reduceMask.isMem = op.isMem := by
  cases op with
  | value op => cases op <;> rfl
  | flags => rfl
  | cond => rfl

theorem memOperands_reduceMasks (i : Instruction) : i.reduceMasks.memOperands = i.memOperands := by
  simp only [Instruction.memOperands, Instruction.reduceMasks, List.filterMap_map]
  exact congrArg (fun f => i.operands.filterMap f) (funext mem?_reduceMask)

@[simp] theorem key_reduceMasks (i : Instruction) : i.reduceMasks.key = i.key := by
  have hany : i.reduceMasks.hasMemOperand false = i.hasMemOperand false := by
    simp [Instruction.hasMemOperand, Instruction.reduceMasks, List.any_map, Function.comp_def,
      isMem_reduceMask]
  have hcandidate : i.reduceMasks.candidate = i.candidate := by
    simp only [Instruction.candidate, hany]
    rfl
  rw [Instruction.key, hcandidate, memOperands_reduceMasks]
  rfl

@[simp] theorem key_redirect (i : Instruction) : (i.redirect offset pick).key = i.key := by
  have hany : (i.redirect offset pick).hasMemOperand false = i.hasMemOperand false := by
    simp [Instruction.hasMemOperand, Instruction.redirect, any_isMem_mapMem]
  have hlength : (i.redirect offset pick).memOperands.length = i.memOperands.length :=
    length_mem_mapMem _ _ _
  have hcandidate : (i.redirect offset pick).candidate = i.candidate := by
    simp only [Instruction.candidate, hany]
    rfl
  rw [Instruction.key, hcandidate, hlength]
  rfl

theorem keys_reduceBackwards (is : List Instruction) : keys (reduceBackwards is) = keys is := by
  induction is with
  | nil => rfl
  | cons i is ih =>
    rw [reduceBackwards]
    split
    · rw [keys, List.map_cons, key_reduceMasks]
      exact congrArg _ ih
    · rfl

theorem length_reduceBackwards (is : List Instruction) :
    (reduceBackwards is).length = is.length := by
  have h := congrArg List.length (keys_reduceBackwards is)
  simpa [keys] using h

theorem keys_instrumentAt : keys (instrumentAt offset pick p bb) = keys bb := by
  rw [instrumentAt]
  split
  · rfl
  · rename_i node rest hdrop
    have hbb : bb = bb.take p ++ node :: rest := by rw [← hdrop, List.take_append_drop]
    conv_rhs => rw [hbb]
    have hback := keys_reduceBackwards (bb.take p).reverse
    simp only [keys, List.map_append, List.map_reverse, List.map_cons, key_redirect] at hback ⊢
    rw [hback, List.reverse_reverse]

/-- From `q` on there is only instrumentation in front of `p`. -/
def inFront (ks : List Key) (q p : Nat) : Bool :=
  decide (q < p) && ((ks.take p).drop q).all Key.isInstrumentation

/-- The walk backwards from position `p`, read off at a position before it. -/
theorem getElem?_reduceBackwards (bb : List Instruction) (p q : Nat) (hp : p ≤ bb.length)
    (hq : q < p) :
    (reduceBackwards (bb.take p).reverse).reverse[q]? =
      bb[q]?.map fun i => if inFront (keys bb) q p then i.reduceMasks else i := by
  induction p with
  | zero => omega
  | succ p ih =>
    obtain ⟨i, hi⟩ : ∃ i, bb[p]? = some i := ⟨bb[p], List.getElem?_eq_getElem (by omega)⟩
    have htake : bb.take (p + 1) = bb.take p ++ [i] := by
      rw [List.take_add_one, hi]
      rfl
    have hflags : (keys bb).take (p + 1) = (keys bb).take p ++ [i.key] := by
      rw [List.take_add_one]
      simp [keys, hi]
    have hlen : (bb.take p).length = p := by simp; omega
    have hflen : ((keys bb).take p).length = p := by simp [keys]; omega
    rw [htake, List.reverse_append, List.reverse_singleton, List.singleton_append, reduceBackwards]
    have hfront : inFront (keys bb) q (p + 1) =
        (decide (q = p ∨ inFront (keys bb) q p = true) && i.isInstrumentation) := by
      rw [inFront, hflags, List.drop_append_of_le_length (by omega), List.all_append]
      by_cases hqp : q = p
      · subst hqp
        simp [List.drop_of_length_le (Nat.le_of_eq hflen), Instruction.key]
      · have hlt : q < p := by omega
        rw [inFront]
        generalize ((keys bb).take p).drop q = between
        simp only [hq, hlt, hqp, List.all_cons, List.all_nil, decide_true, Bool.true_and,
          Bool.and_true, false_or, Bool.decide_eq_true, Instruction.key]
    rw [hfront]
    cases hinstr : i.isInstrumentation with
    | false =>
      simp only [Bool.false_eq_true, if_false, List.reverse_cons, List.reverse_reverse,
        Bool.and_false, Option.map_id']
      rw [← htake, List.getElem?_take_of_lt hq]
    | true =>
      simp only [if_true, List.reverse_cons, Bool.and_true, decide_eq_true_eq]
      by_cases hqp : q = p
      · subst hqp
        rw [List.getElem?_append_right (by simp [length_reduceBackwards, hlen])]
        simp [length_reduceBackwards, hlen, hi]
      · have hlt : q < p := by omega
        rw [List.getElem?_append_left (by simp [length_reduceBackwards]; omega),
          ih (by omega) hlt]
        simp [hqp]

theorem getElem?_instrumentAt (hp : p < bb.length) :
    (instrumentAt offset pick p bb)[q]? = bb[q]?.map fun i =>
      if q = p then i.redirect offset pick
      else if inFront (keys bb) q p then i.reduceMasks else i := by
  have hdrop : bb.drop p = bb[p] :: bb.drop (p + 1) := List.drop_eq_getElem_cons hp
  have hlen : (reduceBackwards (bb.take p).reverse).reverse.length = p := by
    simp [length_reduceBackwards]
    omega
  rw [instrumentAt, hdrop]
  dsimp only
  rcases Nat.lt_trichotomy q p with hlt | rfl | hgt
  · rw [List.getElem?_append_left (by omega), getElem?_reduceBackwards bb p q (by omega) hlt]
    simp [Nat.ne_of_lt hlt]
  · rw [List.getElem?_append_right (by omega), hlen]
    simp [List.getElem?_eq_getElem hp]
  · have hfront : inFront (keys bb) q p = false := by
      rw [inFront, decide_eq_false (by omega), Bool.false_and]
    obtain ⟨n, rfl⟩ : ∃ n, q = p + 1 + n := ⟨q - (p + 1), by omega⟩
    rw [List.getElem?_append_right (by omega), hlen]
    have hsub : p + 1 + n - p = n + 1 := by omega
    have hne : p + 1 + n ≠ p := by omega
    simp [hsub, hfront, hne]

end Effect

/-! ### The selections of a run -/

/-- A memory operand that was selected. -/
structure Selection where
  block : Nat
  position : Nat
  pick : Nat

/-- `to_instrument` at the visit of a block. -/
def toInstrument (func : List (List Instruction)) (visit : Nat) : List (Nat × Nat) :=
  (List.range (visit + 1)).flatMap fun b => (candidates (func.getD b [])).map (Prod.mk b)

def visitSelections (choice : U2KChoice) (func : List (List Instruction)) (visit : Nat) :
    List Selection :=
  (toInstrument func visit).filterMap fun node =>
    (choice visit node.1 node.2).map fun pick => ⟨node.1, node.2, pick⟩

def selections (choice : U2KChoice) (func : List (List Instruction)) : List Selection :=
  (List.range func.length).flatMap (visitSelections choice func)

def Selection.apply (offset : Int) (func : List (List Instruction)) (s : Selection) :
    List (List Instruction) :=
  func.modify s.block (instrumentAt offset s.pick s.position)

/-- The instruction at a position of a block. -/
def at? {α : Type} (func : List (List α)) (b p : Nat) : Option α := func[b]?.bind fun bb => bb[p]?

/-- What a selection does to the instruction at `p` of block `b`. -/
def effect (offset : Int) (ks : List (List Key)) (b p : Nat) (i : Instruction) (s : Selection) :
    Instruction :=
  if s.block = b then
    if p = s.position then i.redirect offset s.pick
    else if inFront (ks.getD b []) p s.position then i.reduceMasks else i
  else i

section Run

variable {offset : Int} {choice : U2KChoice} {func : List (List Instruction)} {b p : Nat}
  {i : Instruction} {s : Selection} {ss : List Selection}

theorem candidates_congr {bb bb' : List Instruction} (h : keys bb = keys bb') :
    candidates bb = candidates bb' := by
  have hlen : bb.length = bb'.length := by simpa [keys] using congrArg List.length h
  have hget : ∀ p : Nat, bb[p]?.any Instruction.candidate = bb'[p]?.any Instruction.candidate := by
    intro p
    have hp := congrArg (fun ks => ks[p]?.any Key.candidate) h
    simpa [keys, Option.any_map, Function.comp_def, Instruction.key] using hp
  rw [candidates, candidates, hlen]
  simp only [hget]

variable (offset) in
theorem keys_apply (func : List (List Instruction)) (s : Selection) :
    (s.apply offset func).map keys = func.map keys := by
  apply List.ext_getElem?
  intro b
  simp only [Selection.apply, List.getElem?_map, List.getElem?_modify]
  cases func[b]? with
  | none => rfl
  | some bb =>
    simp only [Option.map_some, Option.map_eq_map]
    split
    · rw [keys_instrumentAt]
    · rfl

variable (offset func) in
theorem keys_foldl_apply (ss : List Selection) :
    (ss.foldl (Selection.apply offset) func).map keys = func.map keys := by
  induction ss generalizing func with
  | nil => rfl
  | cons s ss ih => rw [List.foldl_cons, ih, keys_apply offset]

theorem candidates_getD {func func' : List (List Instruction)}
    (h : func.map keys = func'.map keys) (b : Nat) :
    candidates (func.getD b []) = candidates (func'.getD b []) := by
  apply candidates_congr
  have hb := congrArg (fun ks => ks.getD b []) h
  have hnil : keys [] = [] := rfl
  rw [← hnil] at hb
  simpa only [List.getD_map] using hb

theorem instrumentSelected_eq (visit : Nat) (nodes : List (Nat × Nat)) :
    instrumentSelected offset (choice visit) nodes func =
      (nodes.filterMap fun node => (choice visit node.1 node.2).map fun pick =>
        (⟨node.1, node.2, pick⟩ : Selection)).foldl (Selection.apply offset) func := by
  induction nodes generalizing func with
  | nil => rfl
  | cons node nodes ih =>
    rw [instrumentSelected, List.foldl_cons, List.filterMap_cons]
    cases choice visit node.1 node.2 with
    | none => exact ih
    | some pick => exact ih

/-- The loop over the blocks applies the selections of its visits in their order. -/
theorem instrumentFunction_eq (offset : Int) (choice : U2KChoice)
    (func : List (List Instruction)) :
    instrumentFunction offset choice func =
      (selections choice func).foldl (Selection.apply offset) func := by
  have hloop : ∀ n, (List.range n).foldl (fun st b =>
      let toInstrument := st.1 ++ (candidates (st.2.getD b [])).map (Prod.mk b)
      (toInstrument, instrumentSelected offset (choice b) toInstrument st.2))
        (([] : List (Nat × Nat)), func) =
      ((List.range n).flatMap fun b => (candidates (func.getD b [])).map (Prod.mk b),
        ((List.range n).flatMap (visitSelections choice func)).foldl (Selection.apply offset)
          func) := by
    intro n
    induction n with
    | zero => rfl
    | succ n ih =>
      have hcandidates := candidates_getD (keys_foldl_apply offset func
        ((List.range n).flatMap (visitSelections choice func))) n
      rw [List.range_succ, List.foldl_append, ih, List.foldl_cons, List.foldl_nil]
      dsimp only
      rw [hcandidates, instrumentSelected_eq, List.flatMap_append, List.flatMap_append,
        List.foldl_append]
      simp only [List.flatMap_cons, List.flatMap_nil, List.append_nil, visitSelections,
        toInstrument, List.range_succ, List.flatMap_append]
  rw [instrumentFunction, hloop]
  rfl

theorem at?_apply (hs : (at? func s.block s.position).isSome) :
    at? (s.apply offset func) b p =
      (at? func b p).map fun i => effect offset (func.map keys) b p i s := by
  simp only [at?, Selection.apply, List.getElem?_modify, effect]
  by_cases hb : s.block = b
  · subst hb
    cases hbb : func[s.block]? with
    | none => rfl
    | some bb =>
      have hp : s.position < bb.length := by
        simpa [at?, hbb] using hs
      have hkeys : (func.map keys).getD s.block [] = keys bb := by
        simp [List.getD, hbb]
      simp only [if_true, Option.map_eq_map, Option.map_some, Option.bind_some, hkeys]
      exact getElem?_instrumentAt hp
  · cases func[b]? with
    | none => rfl
    | some bb => simp [hb]

theorem isSome_at?_congr {func func' : List (List Instruction)}
    (h : func.map keys = func'.map keys) (b p : Nat) :
    (at? func b p).isSome = (at? func' b p).isSome := by
  have hb := congrArg (fun ks => ((ks[b]?).bind fun bb => bb[p]?).isSome) h
  have hall : ∀ func : List (List Instruction),
      (((func.map keys)[b]?).bind fun bb => bb[p]?).isSome = (at? func b p).isSome := by
    intro func
    rw [at?, List.getElem?_map]
    cases func[b]? with
    | none => rfl
    | some bb => simp [keys]
  rwa [hall, hall] at hb

theorem at?_foldl_apply (hss : ∀ s ∈ ss, (at? func s.block s.position).isSome) :
    at? (ss.foldl (Selection.apply offset) func) b p =
      (at? func b p).map fun i => ss.foldl (effect offset (func.map keys) b p) i := by
  induction ss generalizing func with
  | nil => simp
  | cons s ss ih =>
    have hkeys := keys_apply offset func s
    have hrest : ∀ s' ∈ ss, (at? (s.apply offset func) s'.block s'.position).isSome := by
      intro s' hs'
      rw [isSome_at?_congr hkeys]
      exact hss s' (List.mem_cons_of_mem _ hs')
    rw [List.foldl_cons, ih hrest, at?_apply (hss s List.mem_cons_self), hkeys, Option.map_map]
    rfl

end Run

/-! ### The result of a run -/

/-- An instruction with the offset subtracted `c n` times from its `n`-th memory operand. -/
def Instruction.subtract (offset : Int) (c : Nat → Nat) (i : Instruction) : Instruction :=
  { i with operands :=
      mapMem (fun n a => a ++ List.replicate (c n) (.minus offset)) 0 i.operands }

/-- In a visit, operand `k` of the node at `p` of block `b` is selected. -/
def SelectedIn (choice : U2KChoice) (func : List (List Instruction)) (visit b p k : Nat) : Prop :=
  b ≤ visit ∧ visit < func.length ∧ ∃ node pick, at? func b p = some node ∧
    node.candidate = true ∧ choice visit b p = some pick ∧ pick % node.memOperands.length = k

def Selected (choice : U2KChoice) (func : List (List Instruction)) (b p k : Nat) : Prop :=
  ∃ visit, SelectedIn choice func visit b p k

/-- The selections of operand `k`. -/
def countSelections (ss : List Selection) (b p len k : Nat) : Nat :=
  ss.countP fun s => s.block = b && s.position = p && s.pick % len = k

section Result

variable {offset : Int} {choice : U2KChoice} {func : List (List Instruction)} {b p k : Nat}
  {i : Instruction} {s : Selection} {ss : List Selection}

theorem reduceMask_reduceMask (op : Operand) : op.reduceMask.reduceMask = op.reduceMask := by
  cases op with
  | value op =>
    cases op with
    | imm mask width =>
      have hpage : (pageSize : Int) = 4096 := rfl
      have hmask : ∀ m : Int, (if (4096 : Int) < (if 4096 < m then m % 4096 else m) then
          (if 4096 < m then m % 4096 else m) % 4096 else if 4096 < m then m % 4096 else m) =
          if 4096 < m then m % 4096 else m := by
        intro m
        split_ifs <;> omega
      simp only [Operand.reduceMask, hpage, hmask]
    | reg => rfl
    | mem => rfl
    | label => rfl
    | agen => rfl
  | flags => rfl
  | cond => rfl

theorem reduceMasks_reduceMasks (i : Instruction) :
    i.reduceMasks.reduceMasks = i.reduceMasks := by
  simp only [Instruction.reduceMasks, List.map_map, Function.comp_def, reduceMask_reduceMask]

theorem subtract_zero (i : Instruction) : i.subtract offset (fun _ => 0) = i := by
  rw [Instruction.subtract, mapMem_id _ _ (fun n a => by simp)]

theorem memOperands_subtract (c : Nat → Nat) (k : Nat) :
    (i.subtract offset c).memOperands[k]? = i.memOperands[k]?.map fun op =>
      (op.1 ++ List.replicate (c k) (.minus offset), op.2) := by
  have h := getElem?_mem_mapMem (fun n a => a ++ List.replicate (c n) (.minus offset)) 0 i.operands k
  rwa [Nat.zero_add] at h

theorem length_memOperands_subtract (c : Nat → Nat) :
    (i.subtract offset c).memOperands.length = i.memOperands.length := length_mem_mapMem _ _ _

theorem redirect_subtract (c : Nat → Nat) (pick : Nat) :
    (i.subtract offset c).redirect offset pick =
      i.subtract offset fun n => c n + if pick % i.memOperands.length = n then 1 else 0 := by
  have hlen : (i.subtract offset c).memOperands.length = i.memOperands.length :=
    length_memOperands_subtract c
  simp only [Instruction.redirect, hlen]
  simp only [Instruction.subtract, mapMem_mapMem]
  congr 1
  refine congrArg (fun f => mapMem f 0 i.operands) (funext fun n => funext fun a => ?_)
  by_cases hn : pick % i.memOperands.length = n
  · rw [if_pos hn.symm, if_pos hn, List.replicate_succ', List.append_assoc]
  · rw [if_neg (Ne.symm hn), if_neg hn, Nat.add_zero]

theorem foldl_effect_instrumentation {ks : List (List Key)}
    (hss : ∀ s ∈ ss, s.block = b → p ≠ s.position) :
    ss.foldl (effect offset ks b p) i =
      if ss.any fun s => s.block = b && inFront (ks.getD b []) p s.position then i.reduceMasks
      else i := by
  induction ss generalizing i with
  | nil => rfl
  | cons s ss ih =>
    rw [List.foldl_cons, ih fun s' hs' => hss s' (List.mem_cons_of_mem _ hs'), List.any_cons, effect]
    by_cases hb : s.block = b
    · have hp := hss s List.mem_cons_self hb
      cases hfront : inFront (ks.getD b []) p s.position with
      | true => simp [hb, hp, reduceMasks_reduceMasks]
      | false => simp [hb, hp]
    · simp [hb]

theorem foldl_effect_access {ks : List (List Key)} (c : Nat → Nat)
    (hss : ∀ s ∈ ss, s.block = b → inFront (ks.getD b []) p s.position = false) :
    ss.foldl (effect offset ks b p) (i.subtract offset c) =
      i.subtract offset fun n => c n + countSelections ss b p i.memOperands.length n := by
  induction ss generalizing c with
  | nil => rfl
  | cons s ss ih =>
    have hrest : ∀ s' ∈ ss, s'.block = b → inFront (ks.getD b []) p s'.position = false :=
      fun s' hs' => hss s' (List.mem_cons_of_mem _ hs')
    rw [List.foldl_cons, effect]
    by_cases hb : s.block = b
    · rw [if_pos hb]
      by_cases hp : p = s.position
      · rw [if_pos hp, redirect_subtract, ih _ hrest]
        simp only [countSelections, List.countP_cons, hb, hp.symm, Nat.add_assoc, Nat.add_comm,
          decide_true, Bool.true_and, decide_eq_true_eq]
      · rw [if_neg hp, hss s List.mem_cons_self hb, if_neg (by simp), ih _ hrest]
        simp [countSelections, hb, Ne.symm hp]
    · rw [if_neg hb, ih _ hrest]
      simp [countSelections, hb]

end Result

section Counts

variable {offset : Int} {choice : U2KChoice} {func : List (List Instruction)} {b p k visit : Nat}
  {i : Instruction}

theorem mem_candidates {bb : List Instruction} :
    p ∈ candidates bb ↔ ∃ i, bb[p]? = some i ∧ i.candidate = true := by
  rw [candidates, List.mem_filter, List.mem_range]
  constructor
  · rintro ⟨hp, hany⟩
    rw [List.getElem?_eq_getElem hp] at hany
    exact ⟨bb[p], List.getElem?_eq_getElem hp, hany⟩
  · rintro ⟨i, hi, hcandidate⟩
    obtain ⟨hp, -⟩ := List.getElem?_eq_some_iff.1 hi
    exact ⟨hp, by rw [hi]; exact hcandidate⟩

theorem mem_toInstrument :
    (b, p) ∈ toInstrument func visit ↔
      b ≤ visit ∧ ∃ i, at? func b p = some i ∧ i.candidate = true := by
  simp only [toInstrument, List.mem_flatMap, List.mem_range, List.mem_map, Prod.mk.injEq]
  constructor
  · rintro ⟨b', hb', p', hp', rfl, rfl⟩
    obtain ⟨i, hi, hcandidate⟩ := mem_candidates.1 hp'
    refine ⟨by omega, i, ?_, hcandidate⟩
    rw [at?]
    cases hbb : func[b']? with
    | none => simp [hbb] at hi
    | some bb => simpa [hbb] using hi
  · rintro ⟨hb, i, hi, hcandidate⟩
    refine ⟨b, by omega, p, mem_candidates.2 ⟨i, ?_, hcandidate⟩, rfl, rfl⟩
    rw [at?] at hi
    cases hbb : func[b]? with
    | none => simp [hbb] at hi
    | some bb => simpa [hbb] using hi

theorem nodup_toInstrument (func : List (List Instruction)) (visit : Nat) :
    (toInstrument func visit).Nodup := by
  rw [toInstrument, List.nodup_flatMap]
  constructor
  · intro b hb
    have hcandidates : (candidates (func.getD b [])).Nodup := List.nodup_range.filter _
    exact hcandidates.map fun p q h => (Prod.mk.inj h).2
  · refine List.nodup_range.imp fun {b b'} hne => ?_
    intro node h h'
    obtain ⟨p, -, rfl⟩ := List.mem_map.1 h
    obtain ⟨q, -, heq⟩ := List.mem_map.1 h'
    exact hne (Prod.mk.inj heq).1.symm

theorem selection_at {s : Selection} (hs : s ∈ selections choice func) :
    ∃ visit i, s.block ≤ visit ∧ visit < func.length ∧ at? func s.block s.position = some i ∧
      i.candidate = true ∧ choice visit s.block s.position = some s.pick := by
  obtain ⟨visit, hvisit, hs⟩ := List.mem_flatMap.1 hs
  obtain ⟨node, hnode, hs⟩ := List.mem_filterMap.1 hs
  obtain ⟨pick, hpick, rfl⟩ := Option.map_eq_some_iff.1 hs
  obtain ⟨hb, i, hi, hcandidate⟩ := mem_toInstrument.1 hnode
  exact ⟨visit, i, hb, List.mem_range.1 hvisit, hi, hcandidate, hpick⟩

theorem mem_selections_of {pick : Nat} (hvisit : visit < func.length) (hb : b ≤ visit)
    (hi : at? func b p = some i) (hcandidate : i.candidate = true)
    (hpick : choice visit b p = some pick) :
    (⟨b, p, pick⟩ : Selection) ∈ selections choice func :=
  List.mem_flatMap.2 ⟨visit, List.mem_range.2 hvisit, List.mem_filterMap.2
    ⟨(b, p), mem_toInstrument.2 ⟨hb, i, hi, hcandidate⟩, by simp [hpick]⟩⟩

/-- A draw selects operand `k` of a node with `len` operands. -/
def picks (choice : U2KChoice) (visit b p len k : Nat) : Bool :=
  (choice visit b p).any fun pick => pick % len = k

variable (choice visit k) in
/-- In one visit an operand is selected at most once. -/
theorem countSelections_visit (hi : at? func b p = some i) (hcandidate : i.candidate = true) :
    countSelections (visitSelections choice func visit) b p i.memOperands.length k =
      if b ≤ visit ∧ picks choice visit b p i.memOperands.length k = true then 1 else 0 := by
  have hpred : ∀ node : Nat × Nat,
      (((choice visit node.1 node.2).map fun pick => (⟨node.1, node.2, pick⟩ : Selection)).map
        fun s => s.block = b && s.position = p && s.pick % i.memOperands.length = k).getD false =
      (decide (node = (b, p)) && picks choice visit b p i.memOperands.length k) := by
    rintro ⟨b', p'⟩
    by_cases hnode : b' = b ∧ p' = p
    · obtain ⟨rfl, rfl⟩ := hnode
      cases h : choice visit b' p' <;> simp [picks, h]
    · have hne : (decide (b' = b) && decide (p' = p)) = false := by simpa using hnode
      simp only [Option.map_map, Function.comp_def, hne, Bool.false_and, Prod.mk.injEq,
        decide_eq_false hnode]
      cases choice visit b' p' <;> rfl
  have hmem : (b, p) ∈ toInstrument func visit ↔ b ≤ visit := by
    rw [mem_toInstrument]
    exact ⟨fun h => h.1, fun hb => ⟨hb, i, hi, hcandidate⟩⟩
  rw [countSelections, visitSelections, List.countP_filterMap]
  simp only [hpred]
  cases hpicks : picks choice visit b p i.memOperands.length k with
  | false => simp
  | true =>
    have hcount : (toInstrument func visit).countP (fun node => decide (node = (b, p)) && true) =
        (toInstrument func visit).count (b, p) := by
      rw [List.count]
      exact List.countP_congr fun node _ => by simp
    rw [hcount]
    by_cases hb : b ≤ visit
    · rw [List.count_eq_one_of_mem (nodup_toInstrument func visit) (hmem.2 hb)]
      simp [hb]
    · rw [List.count_eq_zero_of_not_mem fun h => hb (hmem.1 h)]
      simp [hb]

theorem countSelections_eq (hi : at? func b p = some i) (hcandidate : i.candidate = true) :
    countSelections (selections choice func) b p i.memOperands.length k =
      (List.range func.length).countP fun visit =>
        b ≤ visit && picks choice visit b p i.memOperands.length k := by
  rw [selections]
  induction List.range func.length with
  | nil => rfl
  | cons visit visits ih =>
    have hvisit := countSelections_visit choice k visit hi hcandidate
    rw [countSelections] at hvisit ih ⊢
    rw [List.flatMap_cons, List.countP_append, hvisit, ih, List.countP_cons, Nat.add_comm]
    simp only [Bool.and_eq_true, decide_eq_true_eq]

theorem selectedIn_iff (hi : at? func b p = some i) (hcandidate : i.candidate = true) :
    SelectedIn choice func visit b p k ↔
      visit < func.length ∧ b ≤ visit ∧ picks choice visit b p i.memOperands.length k = true := by
  constructor
  · rintro ⟨hb, hvisit, node, pick, hnode, -, hpick, hk⟩
    obtain rfl := Option.some.inj (hi.symm.trans hnode)
    exact ⟨hvisit, hb, by simpa [picks, hpick] using hk⟩
  · rintro ⟨hvisit, hb, hpicks⟩
    cases hpick : choice visit b p with
    | none => simp [picks, hpick] at hpicks
    | some pick => exact ⟨hb, hvisit, i, pick, hi, hcandidate, hpick, by simpa [picks, hpick] using hpicks⟩

theorem countSelections_pos (hi : at? func b p = some i) :
    countSelections (selections choice func) b p i.memOperands.length k ≠ 0 ↔
      Selected choice func b p k := by
  rw [countSelections, Ne, List.countP_eq_zero]
  constructor
  · intro h
    simp only [not_forall, Classical.not_not, Bool.and_eq_true, decide_eq_true_eq] at h
    obtain ⟨s, hs, ⟨rfl, rfl⟩, rfl⟩ := h
    obtain ⟨visit, j, hb, hvisit, hj, hcandidate, hpick⟩ := selection_at hs
    obtain rfl := Option.some.inj (hi.symm.trans hj)
    exact ⟨visit, hb, hvisit, i, s.pick, hi, hcandidate, hpick, rfl⟩
  · rintro ⟨visit, hb, hvisit, j, pick, hj, hcandidate, hpick, rfl⟩ h
    obtain rfl := Option.some.inj (hi.symm.trans hj)
    exact h _ (mem_selections_of hvisit hb hi hcandidate hpick) (by simp)

theorem countSelections_le_one (hi : at? func b p = some i) :
    countSelections (selections choice func) b p i.memOperands.length k ≤ 1 ↔
      ∀ visit visit', SelectedIn choice func visit b p k → SelectedIn choice func visit' b p k →
        visit = visit' := by
  cases hcandidate : i.candidate with
  | false =>
    have hnot : ∀ visit, ¬SelectedIn choice func visit b p k := by
      rintro visit ⟨-, -, j, -, hj, hcandidate', -⟩
      obtain rfl := Option.some.inj (hi.symm.trans hj)
      exact absurd (hcandidate.symm.trans hcandidate') (by decide)
    have hzero : countSelections (selections choice func) b p i.memOperands.length k = 0 := by
      by_contra hne
      obtain ⟨visit, hvisit⟩ := (countSelections_pos hi).1 hne
      exact hnot visit hvisit
    rw [hzero]
    exact iff_of_true (by decide) fun visit _ hvisit => absurd hvisit (hnot visit)
  | true =>
    rw [countSelections_eq hi hcandidate, countP_le_one List.nodup_range]
    simp only [selectedIn_iff hi hcandidate, List.mem_range, Bool.and_eq_true, decide_eq_true_eq]
    constructor
    · rintro h visit visit' ⟨hv, hsel⟩ ⟨hv', hsel'⟩
      exact h visit hv visit' hv' hsel hsel'
    · exact fun h visit hv visit' hv' hsel hsel' => h visit visit' ⟨hv, hsel⟩ ⟨hv', hsel'⟩

theorem inFront_isInstrumentation {ks : List Key} {q p : Nat} (h : inFront ks q p = true)
    {key : Key} (hq : ks[q]? = some key) : key.isInstrumentation = true := by
  simp only [inFront, Bool.and_eq_true, decide_eq_true_eq] at h
  obtain ⟨hlt, hall⟩ := h
  have hmem : key ∈ (ks.take p).drop q := by
    refine List.mem_of_getElem? (i := 0) ?_
    rw [List.getElem?_drop, Nat.add_zero, List.getElem?_take_of_lt hlt, hq]
  exact List.all_eq_true.1 hall key hmem

theorem getElem?_keys (hi : at? func b p = some i) :
    ((func.map keys).getD b [])[p]? = some i.key := by
  rw [at?] at hi
  cases hbb : func[b]? with
  | none => simp [hbb] at hi
  | some bb =>
    have hp : bb[p]? = some i := by simpa [hbb] using hi
    simp [List.getD, hbb, keys, hp]

variable (offset choice) in
/-- The instruction at a position behind the pass. -/
theorem at?_instrumentFunction (hi : at? func b p = some i) :
    at? (instrumentFunction offset choice func) b p =
      some (if i.isInstrumentation then
        if (selections choice func).any fun s =>
          s.block = b && inFront ((func.map keys).getD b []) p s.position then i.reduceMasks else i
      else
        i.subtract offset (countSelections (selections choice func) b p i.memOperands.length)) := by
  have hvalid : ∀ s ∈ selections choice func, (at? func s.block s.position).isSome := by
    intro s hs
    obtain ⟨-, j, -, -, hj, -⟩ := selection_at hs
    rw [hj]
    rfl
  rw [instrumentFunction_eq, at?_foldl_apply hvalid, hi, Option.map_some]
  cases hinstr : i.isInstrumentation with
  | true =>
    rw [if_pos rfl, foldl_effect_instrumentation]
    rintro s hs rfl rfl
    obtain ⟨-, j, -, -, hj, hcandidate, -⟩ := selection_at hs
    obtain rfl := Option.some.inj (hi.symm.trans hj)
    simp [Instruction.candidate, hinstr] at hcandidate
  | false =>
    have hfront : ∀ s ∈ selections choice func, s.block = b →
        inFront ((func.map keys).getD b []) p s.position = false := by
      intro s _ _
      by_contra h
      have hkey := inFront_isInstrumentation (by simpa using h) (getElem?_keys hi)
      rw [Instruction.key, hinstr] at hkey
      exact absurd hkey (by simp)
    have hfold : (selections choice func).foldl (effect offset (func.map keys) b p)
        (i.subtract offset fun _ => 0) = i.subtract offset fun n =>
          0 + countSelections (selections choice func) b p i.memOperands.length n :=
      foldl_effect_access _ hfront
    rw [subtract_zero] at hfold
    rw [if_neg (by simp), hfold]
    simp only [Nat.zero_add]

end Counts

end Rvzr.X86
