import Mathlib.Data.List.Perm.Subperm
import Rvzr.Lib.Links

/-!
# Basic blocks as linked lists

The nodes of `tc_components/test_case_code.py`, with one map for each attribute that can be
assigned. Nodes and blocks are numbered in the order in which they are created. `BlockNodes` says
which nodes a block consists of; the operations on blocks change this list, and the frame `Changes`
says what stays.
-/

namespace Rvzr.TestCase

open Rvzr.Lib

variable {ι : Type}

/-- The exceptions of the code below; `value` is a `ValueError`, and so on. -/
inductive CodeError where
  | value | key | index | assertion | overflow
  deriving DecidableEq, Repr

/-- The attributes of `InstructionNode` that are not assigned later. -/
structure InstructionNode (ι : Type) where
  instruction : ι
  parent : Nat

/-- All nodes of a test case, and the attributes of its basic blocks. -/
structure Code (ι : Type) where
  nodes : List (InstructionNode ι)
  next : Nat → Option Nat
  previous : Nat → Option Nat
  start : Nat → Option Nat
  end_ : Nat → Option Nat
  terminators : Nat → List ι

namespace Code

def empty : Code ι where
  nodes := []
  next _ := none
  previous _ := none
  start _ := none
  end_ _ := none
  terminators _ := []

def instruction [Inhabited ι] (code : Code ι) (node : Nat) : ι :=
  (code.nodes[node]?.map InstructionNode.instruction).getD default

def parent (code : Code ι) (node : Nat) : Option Nat :=
  code.nodes[node]?.map InstructionNode.parent

/-- `InstructionNode(inst, self)`; its number is the number of the nodes before it. -/
def newNode (code : Code ι) (bb : Nat) (inst : ι) : Code ι :=
  { code with
    nodes := code.nodes ++ [⟨inst, bb⟩]
    next := Function.update code.next code.nodes.length none
    previous := Function.update code.previous code.nodes.length none }

/-- The block consists of one node. -/
def setOnly (code : Code ι) (bb node : Nat) : Code ι :=
  { code with
    start := Function.update code.start bb (some node)
    end_ := Function.update code.end_ bb (some node) }

/-- The new node is hung behind `position`. -/
def linkAfter (code : Code ι) (bb position node : Nat) : Except CodeError (Code ι) :=
  if code.parent position ≠ some bb then .error .value
  else
    let next_ := code.next position
    let code := { code with
      next := Function.update code.next position (some node)
      previous := Function.update code.previous node (some position) }
    match next_ with
    | some next_ =>
      .ok { code with
        next := Function.update code.next node (some next_)
        previous := Function.update code.previous next_ (some node) }
    | none => .ok { code with end_ := Function.update code.end_ bb (some node) }

/-- `insert_after` (`test_case_code.py:112-145`). -/
def insertAfter (code : Code ι) (bb : Nat) (position : Option Nat) (inst : ι) :
    Except CodeError (Code ι) :=
  let node := code.nodes.length
  let code := code.newNode bb inst
  match position with
  | some position => code.linkAfter bb position node
  | none =>
    match code.end_ bb with
    | none => .ok (code.setOnly bb node)
    | some position => code.linkAfter bb position node

def linkBefore (code : Code ι) (bb position node : Nat) : Except CodeError (Code ι) :=
  if code.parent position ≠ some bb then .error .value
  else
    let previous := code.previous position
    let code := { code with
      previous := Function.update code.previous position (some node)
      next := Function.update code.next node (some position) }
    match previous with
    | some previous =>
      .ok { code with
        previous := Function.update code.previous node (some previous)
        next := Function.update code.next previous (some node) }
    | none => .ok { code with start := Function.update code.start bb (some node) }

/-- `insert_before` (`test_case_code.py:147-181`). -/
def insertBefore (code : Code ι) (bb : Nat) (position : Option Nat) (inst : ι) :
    Except CodeError (Code ι) :=
  let node := code.nodes.length
  let code := code.newNode bb inst
  match position with
  | some position => code.linkBefore bb position node
  | none =>
    match code.start bb with
    | none => .ok (code.setOnly bb node)
    | some position => code.linkBefore bb position node

/-- `delete` (`test_case_code.py:183-207`). The pointers of the deleted node stay. -/
def delete (code : Code ι) (bb target : Nat) : Except CodeError (Code ι) :=
  if code.parent target ≠ some bb then .error .value
  else
    match code.previous target, code.next target with
    | none, none =>
      .ok { code with
        start := Function.update code.start bb none, end_ := Function.update code.end_ bb none }
    | none, some next_ =>
      .ok { code with
        previous := Function.update code.previous next_ none
        start := Function.update code.start bb (some next_) }
    | some previous, none =>
      .ok { code with
        next := Function.update code.next previous none
        end_ := Function.update code.end_ bb (some previous) }
    | some previous, some next_ =>
      .ok { code with
        next := Function.update code.next previous (some next_)
        previous := Function.update code.previous next_ (some previous) }

/-- `get_first` and `get_last`. -/
def getFirst (code : Code ι) (bb : Nat) : Option Nat := code.start bb
def getLast (code : Code ι) (bb : Nat) : Option Nat := code.end_ bb

/-- `iter_nodes`. No list of nodes without a repetition is longer than the number of all nodes. -/
def iterNodes (code : Code ι) (bb : Nat) : List Nat :=
  walk code.next code.nodes.length (code.start bb)

/-- The instructions that the default iterator of a block yields. -/
def instructions [Inhabited ι] (code : Code ι) (bb : Nat) : List ι :=
  (code.iterNodes bb).map code.instruction

end Code

/-- The block consists of these nodes, in this order. -/
structure BlockNodes (code : Code ι) (bb : Nat) (ns : List Nat) : Prop where
  start : code.start bb = ns.head?
  end_ : code.end_ bb = ns.getLast?
  linked : Linked code.next code.previous none ns none
  nodup : ns.Nodup
  parent : ∀ n ∈ ns, code.parent n = some bb

/-- What an operation on the block `bb` leaves, if it adds the nodes `added` and may write the
pointers of the nodes `ns`. -/
structure Changes (bb : Nat) (ns : List Nat) (code : Code ι) (added : List (InstructionNode ι))
    (code' : Code ι) : Prop where
  nodes : code'.nodes = code.nodes ++ added
  next : ∀ n < code.nodes.length, n ∉ ns → code'.next n = code.next n
  previous : ∀ n < code.nodes.length, n ∉ ns → code'.previous n = code.previous n
  start : ∀ b, b ≠ bb → code'.start b = code.start b
  end_ : ∀ b, b ≠ bb → code'.end_ b = code.end_ b
  terminators : code'.terminators = code.terminators

section Nodes

variable {code code' : Code ι} {bb : Nat} {ns : List Nat}

theorem lt_of_parent {n : Nat} (h : code.parent n = some bb) : n < code.nodes.length := by
  obtain ⟨node, hnode, -⟩ := Option.map_eq_some_iff.1 h
  exact (List.getElem?_eq_some_iff.1 hnode).1

theorem BlockNodes.lt (h : BlockNodes code bb ns) {n : Nat} (hn : n ∈ ns) :
    n < code.nodes.length := lt_of_parent (h.parent n hn)

theorem BlockNodes.length_le (h : BlockNodes code bb ns) : ns.length ≤ code.nodes.length := by
  have hsub : ns ⊆ List.range code.nodes.length := fun n hn => List.mem_range.2 (h.lt hn)
  have hle := (h.nodup.subperm hsub).length_le
  rwa [List.length_range] at hle

/-- The iterator visits the nodes of a block. -/
theorem BlockNodes.iterNodes (h : BlockNodes code bb ns) : code.iterNodes bb = ns := by
  unfold Code.iterNodes
  rw [h.start]
  exact h.linked.walk h.length_le

/-- A node is in one block only. -/
theorem BlockNodes.disjoint (h : BlockNodes code bb ns) {bb' : Nat} {ns' : List Nat}
    (h' : BlockNodes code bb' ns') (hne : bb' ≠ bb) : ∀ n ∈ ns', n ∉ ns := by
  intro n hn' hn
  exact hne (Option.some.inj ((h'.parent n hn').symm.trans (h.parent n hn)))

variable {added : List (InstructionNode ι)}

theorem Changes.parent (h : Changes bb ns code added code') {n : Nat}
    (hn : n < code.nodes.length) : code'.parent n = code.parent n := by
  unfold Code.parent
  rw [h.nodes, List.getElem?_append_left hn]

theorem Changes.instruction [Inhabited ι] (h : Changes bb ns code added code') {n : Nat}
    (hn : n < code.nodes.length) : code'.instruction n = code.instruction n := by
  unfold Code.instruction
  rw [h.nodes, List.getElem?_append_left hn]

/-- The other blocks keep their nodes. -/
theorem Changes.other (h : Changes bb ns code added code') (hns : BlockNodes code bb ns)
    {bb' : Nat} {ns' : List Nat} (h' : BlockNodes code bb' ns') (hne : bb' ≠ bb) :
    BlockNodes code' bb' ns' where
  start := (h.start bb' hne).trans h'.start
  end_ := (h.end_ bb' hne).trans h'.end_
  linked := h'.linked.congr fun n hn =>
    ⟨h.next n (h'.lt hn) (hns.disjoint h' hne n hn),
      h.previous n (h'.lt hn) (hns.disjoint h' hne n hn)⟩
  nodup := h'.nodup
  parent n hn := (h.parent (h'.lt hn)).trans (h'.parent n hn)

/-- Two operations after another; the second one may write what the first one may, and what it
added. -/
theorem Changes.trans {ns' : List Nat} {added' : List (InstructionNode ι)} {code'' : Code ι}
    (h : Changes bb ns code added code') (h' : Changes bb ns' code' added' code'')
    (hns : ∀ n ∈ ns', n < code.nodes.length → n ∈ ns) :
    Changes bb ns code (added ++ added') code'' := by
  have hlt : ∀ n < code.nodes.length, n < code'.nodes.length := by
    intro n hn
    rw [h.nodes, List.length_append]
    omega
  refine ⟨?_, fun n hn hmem => ?_, fun n hn hmem => ?_, fun b hb => ?_, fun b hb => ?_, ?_⟩
  · rw [h'.nodes, h.nodes, List.append_assoc]
  · exact (h'.next n (hlt n hn) fun hmem' => hmem (hns n hmem' hn)).trans (h.next n hn hmem)
  · exact (h'.previous n (hlt n hn) fun hmem' => hmem (hns n hmem' hn)).trans
      (h.previous n hn hmem)
  · exact (h'.start b hb).trans (h.start b hb)
  · exact (h'.end_ b hb).trans (h.end_ b hb)
  · exact h'.terminators.trans h.terminators

theorem Changes.refl (bb : Nat) (ns : List Nat) (code : Code ι) : Changes bb ns code [] code :=
  ⟨(List.append_nil _).symm, fun _ _ _ => rfl, fun _ _ _ => rfl, fun _ _ => rfl, fun _ _ => rfl,
    rfl⟩

theorem Changes.mono {ns' : List Nat} (h : Changes bb ns code added code')
    (hsub : ∀ n ∈ ns, n ∈ ns') : Changes bb ns' code added code' :=
  (Changes.refl bb ns' code).trans h fun n hn _ => hsub n hn

end Nodes

/-- Every block has its list of nodes. -/
def WellLinked (code : Code ι) : Prop := ∀ bb, BlockNodes code bb (code.iterNodes bb)

theorem wellLinked_of_exists {code : Code ι} (h : ∀ bb, ∃ ns, BlockNodes code bb ns) :
    WellLinked code := by
  intro bb
  obtain ⟨ns, hns⟩ := h bb
  rw [hns.iterNodes]
  exact hns

theorem wellLinked_empty : WellLinked (Code.empty : Code ι) := fun _ => by
  refine ⟨rfl, rfl, trivial, List.nodup_nil, fun n hn => ?_⟩
  simp [Code.iterNodes, Code.empty, walk] at hn

/-! ### Insertions -/

/-- A new node between `l` and `r`. -/
def Code.spliced (code : Code ι) (bb : Nat) (inst : ι) (l r : List Nat) : Code ι where
  nodes := code.nodes ++ [⟨inst, bb⟩]
  next := setAt (Function.update code.next code.nodes.length r.head?) l.getLast?
    (some code.nodes.length)
  previous := setAt (Function.update code.previous code.nodes.length l.getLast?) r.head?
    (some code.nodes.length)
  start := Function.update code.start bb (l ++ code.nodes.length :: r).head?
  end_ := Function.update code.end_ bb (l ++ code.nodes.length :: r).getLast?
  terminators := code.terminators

section Insert

variable {code : Code ι} {bb : Nat} {l r : List Nat}

theorem spliced_blockNodes (h : BlockNodes code bb (l ++ r)) (inst : ι) :
    BlockNodes (code.spliced bb inst l r) bb (l ++ code.nodes.length :: r) := by
  have hfresh : code.nodes.length ∉ l ++ r := fun hmem => Nat.lt_irrefl _ (h.lt hmem)
  have hlinked := h.linked.insert h.nodup hfresh
  rw [Option.or_none, Option.or_none] at hlinked
  refine ⟨Function.update_self .., Function.update_self .., hlinked, ?_, fun n hn => ?_⟩
  · exact List.perm_middle.nodup_iff.2 (List.nodup_cons.2 ⟨hfresh, h.nodup⟩)
  · unfold Code.parent Code.spliced
    dsimp only
    by_cases hnew : n = code.nodes.length
    · rw [hnew, List.getElem?_append_right (Nat.le_refl _), Nat.sub_self]
      rfl
    · have hold : n ∈ l ++ r := by
        simp only [List.mem_append, List.mem_cons] at hn ⊢
        exact hn.imp_right fun hr => hr.resolve_left hnew
      rw [List.getElem?_append_left (h.lt hold)]
      exact h.parent n hold

theorem spliced_changes (code : Code ι) (bb : Nat) (inst : ι) (l r : List Nat) :
    Changes bb (l ++ r) code [⟨inst, bb⟩] (code.spliced bb inst l r) where
  nodes := rfl
  next n hn hmem := by
    rw [List.mem_append, not_or] at hmem
    exact (setAt_other (getLast?_ne_of_not_mem hmem.1)).trans
      (Function.update_of_ne (Nat.ne_of_lt hn) _ _)
  previous n hn hmem := by
    rw [List.mem_append, not_or] at hmem
    exact (setAt_other (head?_ne_of_not_mem hmem.2)).trans
      (Function.update_of_ne (Nat.ne_of_lt hn) _ _)
  start _ hb := Function.update_of_ne hb _ _
  end_ _ hb := Function.update_of_ne hb _ _
  terminators := rfl

theorem newNode_parent (code : Code ι) (inst : ι) {n : Nat} (hn : code.parent n = some bb) :
    (code.newNode bb inst).parent n = some bb := by
  unfold Code.parent Code.newNode
  dsimp only
  rw [List.getElem?_append_left (lt_of_parent hn)]
  exact hn

/-- The ends of a block that an insertion does not move. -/
theorem update_start (h : BlockNodes code bb (l ++ r)) {ns : List Nat}
    (hns : ns.head? = (l ++ r).head?) :
    Function.update code.start bb ns.head? = code.start := by
  rw [Function.update_eq_self_iff, h.start, hns]

theorem update_end (h : BlockNodes code bb (l ++ r)) {ns : List Nat}
    (hns : ns.getLast? = (l ++ r).getLast?) :
    Function.update code.end_ bb ns.getLast? = code.end_ := by
  rw [Function.update_eq_self_iff, h.end_, hns]

/-- `insert_after` with a node of the block. -/
theorem linkAfter_newNode {p : Nat} (h : BlockNodes code bb (l ++ p :: r)) (inst : ι) :
    (code.newNode bb inst).linkAfter bb p code.nodes.length =
      .ok (code.spliced bb inst (l ++ [p]) r) := by
  obtain ⟨-, -, hnext, -⟩ := linked_middle.1 h.linked
  have hp := newNode_parent code inst (h.parent p (by simp))
  have hne : p ≠ code.nodes.length := Nat.ne_of_lt (h.lt (by simp))
  have hnext' : (code.newNode bb inst).next p = r.head? :=
    (Function.update_of_ne hne _ _).trans (hnext.trans Option.or_none)
  have hstart : Function.update code.start bb (l ++ [p] ++ code.nodes.length :: r).head? =
      code.start := update_start h (by simp)
  unfold Code.linkAfter
  dsimp only
  rw [if_neg (not_not.2 hp), hnext']
  unfold Code.spliced
  rw [hstart, List.getLast?_concat, setAt_some]
  cases r with
  | nil =>
    rw [List.head?_nil, setAt_none, List.getLast?_concat]
    unfold Code.newNode
    dsimp only
    rw [Function.update_idem]
  | cons n r =>
    have hend : Function.update code.end_ bb (l ++ [p] ++ code.nodes.length :: n :: r).getLast? =
        code.end_ := update_end h (by simp)
    rw [List.head?_cons, setAt_some, hend]
    unfold Code.newNode
    dsimp only
    rw [Function.update_idem, Function.update_comm hne, Function.update_idem]

theorem linkBefore_newNode {p : Nat} (h : BlockNodes code bb (l ++ p :: r)) (inst : ι) :
    (code.newNode bb inst).linkBefore bb p code.nodes.length =
      .ok (code.spliced bb inst l (p :: r)) := by
  obtain ⟨-, hprev, -, -⟩ := linked_middle.1 h.linked
  have hp := newNode_parent code inst (h.parent p (by simp))
  have hne : p ≠ code.nodes.length := Nat.ne_of_lt (h.lt (by simp))
  have hprev' : (code.newNode bb inst).previous p = l.getLast? :=
    (Function.update_of_ne hne _ _).trans (hprev.trans Option.or_none)
  have hend : Function.update code.end_ bb (l ++ code.nodes.length :: p :: r).getLast? =
      code.end_ := update_end h (by simp)
  unfold Code.linkBefore
  dsimp only
  rw [if_neg (not_not.2 hp), hprev']
  unfold Code.spliced
  rw [hend, List.head?_cons, setAt_some]
  cases hlast : l.getLast? with
  | none =>
    rw [List.getLast?_eq_none_iff.1 hlast, setAt_none]
    unfold Code.newNode
    dsimp only
    rw [Function.update_idem]
    rfl
  | some n =>
    have hl : l ≠ [] := fun heq => by simp [heq] at hlast
    have hstart : Function.update code.start bb (l ++ code.nodes.length :: p :: r).head? =
        code.start := update_start h
        (by rw [List.head?_append_of_ne_nil _ hl, List.head?_append_of_ne_nil _ hl])
    rw [setAt_some, hstart]
    unfold Code.newNode
    dsimp only
    rw [Function.update_idem, Function.update_comm hne, Function.update_idem]

/-! The three kinds of insertions. -/

theorem insertAfter_node {p : Nat} (h : BlockNodes code bb (l ++ p :: r)) (inst : ι) :
    code.insertAfter bb (some p) inst = .ok (code.spliced bb inst (l ++ [p]) r) :=
  linkAfter_newNode h inst

theorem insertAfter_last {ns : List Nat} (h : BlockNodes code bb ns) (inst : ι) :
    code.insertAfter bb (code.getLast bb) inst = .ok (code.spliced bb inst ns []) := by
  unfold Code.getLast
  rw [h.end_]
  induction ns using List.reverseRecOn with
  | nil =>
    have hend : (code.newNode bb inst).end_ bb = none := h.end_
    unfold Code.insertAfter
    dsimp only [List.getLast?_nil]
    rw [hend]
    rfl
  | append_singleton ns p _ =>
    rw [List.getLast?_concat]
    exact insertAfter_node h inst

theorem insertBefore_first {ns : List Nat} (h : BlockNodes code bb ns) (inst : ι) :
    code.insertBefore bb (code.getFirst bb) inst = .ok (code.spliced bb inst [] ns) := by
  unfold Code.getFirst
  rw [h.start]
  cases ns with
  | nil =>
    have hstart : (code.newNode bb inst).start bb = none := h.start
    unfold Code.insertBefore
    dsimp only [List.head?_nil]
    rw [hstart]
    rfl
  | cons p ns => exact linkBefore_newNode (l := []) h inst

/-- An instruction at the end of a block. -/
theorem wellLinked_insertLast (h : WellLinked code) (bb : Nat) (inst : ι) :
    ∃ code', code.insertAfter bb (code.getLast bb) inst = .ok code' ∧ WellLinked code' ∧
      Changes bb (code.iterNodes bb) code [⟨inst, bb⟩] code' ∧
      code'.iterNodes bb = code.iterNodes bb ++ [code.nodes.length] := by
  have hns : BlockNodes code bb (code.iterNodes bb ++ []) := by
    rw [List.append_nil]
    exact h bb
  have hchanges := spliced_changes code bb inst (code.iterNodes bb) []
  rw [List.append_nil] at hchanges
  refine ⟨_, insertAfter_last (h bb) inst, ?_, hchanges, (spliced_blockNodes hns inst).iterNodes⟩
  apply wellLinked_of_exists
  intro bb'
  by_cases hbb : bb' = bb
  · rw [hbb]
    exact ⟨_, spliced_blockNodes hns inst⟩
  · exact ⟨_, hchanges.other (h bb) (h bb') hbb⟩

end Insert

/-! ### Deletions -/

/-- The node between `l` and `r` is taken out; its own pointers stay. -/
def Code.unspliced (code : Code ι) (bb : Nat) (l r : List Nat) : Code ι :=
  { code with
    next := setAt code.next l.getLast? r.head?
    previous := setAt code.previous r.head? l.getLast?
    start := Function.update code.start bb (l ++ r).head?
    end_ := Function.update code.end_ bb (l ++ r).getLast? }

section Delete

variable {code : Code ι} {bb x : Nat} {l r : List Nat}

theorem unspliced_blockNodes (h : BlockNodes code bb (l ++ x :: r)) :
    BlockNodes (code.unspliced bb l r) bb (l ++ r) := by
  have hlinked := h.linked.remove h.nodup
  rw [Option.or_none, Option.or_none] at hlinked
  have hnodup : (x :: (l ++ r)).Nodup := List.perm_middle.nodup_iff.1 h.nodup
  refine ⟨Function.update_self .., Function.update_self .., hlinked, (List.nodup_cons.1 hnodup).2,
    fun n hn => h.parent n ?_⟩
  simp only [List.mem_append, List.mem_cons] at hn ⊢
  exact hn.imp_right Or.inr

theorem unspliced_changes (code : Code ι) (bb : Nat) (l r : List Nat) :
    Changes bb (l ++ r) code [] (code.unspliced bb l r) where
  nodes := (List.append_nil _).symm
  next n _ hmem := by
    rw [List.mem_append, not_or] at hmem
    exact setAt_other (getLast?_ne_of_not_mem hmem.1)
  previous n _ hmem := by
    rw [List.mem_append, not_or] at hmem
    exact setAt_other (head?_ne_of_not_mem hmem.2)
  start _ hb := Function.update_of_ne hb _ _
  end_ _ hb := Function.update_of_ne hb _ _
  terminators := rfl

/-- `delete` of a node of the block. -/
theorem delete_node (h : BlockNodes code bb (l ++ x :: r)) :
    code.delete bb x = .ok (code.unspliced bb l r) := by
  obtain ⟨-, hprev, hnext, -⟩ := linked_middle.1 h.linked
  rw [Option.or_none] at hprev hnext
  unfold Code.delete Code.unspliced
  rw [if_neg (not_not.2 (h.parent x (by simp))), hprev, hnext]
  cases hlast : l.getLast? with
  | none =>
    obtain rfl := List.getLast?_eq_none_iff.1 hlast
    cases r with
    | nil => rfl
    | cons n r =>
      have hend : Function.update code.end_ bb ([] ++ n :: r).getLast? = code.end_ :=
        update_end h (by simp)
      rw [hend]
      rfl
  | some m =>
    have hl : l ≠ [] := fun heq => by simp [heq] at hlast
    have hstart : Function.update code.start bb (l ++ r).head? = code.start :=
      update_start h (by rw [List.head?_append_of_ne_nil _ hl, List.head?_append_of_ne_nil _ hl])
    rw [hstart]
    cases r with
    | nil =>
      rw [List.append_nil, hlast]
      rfl
    | cons n r =>
      have hend : Function.update code.end_ bb (l ++ n :: r).getLast? = code.end_ :=
        update_end h (by simp)
      rw [hend]
      rfl

end Delete

end Rvzr.TestCase
