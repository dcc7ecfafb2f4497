import Mathlib.Data.List.Basic
import Rvzr.Lib.Runs
import Rvzr.TestCase.CodeBlocks

/-!
# Basic blocks against lists

`insert_after`, `insert_before` and `delete` should do to a block what inserting and erasing do to a
list, and refuse nodes that are not in the block. They look at the parent of a node only, and a
deleted node keeps its parent. The blocks follow the lists in a run exactly when no call names a
node that has been deleted from the same block (`blocks_refine_lists_iff`).
-/

namespace Rvzr.TestCase

open Rvzr.Lib

variable {ι : Type}

namespace Code

/-- The loop of `__len__`: `count` nodes up to `node`, and those behind it. -/
def countNodes (code : Code ι) : Nat → Nat → Nat → Nat
  | 0, _, count => count
  | fuel + 1, node, count =>
    match code.next node with
    | none => count
    | some node => countNodes code fuel node (count + 1)

/-- `__len__`. -/
def length (code : Code ι) (bb : Nat) : Nat :=
  match code.start bb with
  | none => 0
  | some node => code.countNodes code.nodes.length node 1

/-- The nodes from `get_last` backward along `previous`. -/
def backward (code : Code ι) (bb : Nat) : List Nat :=
  walk code.previous code.nodes.length (code.getLast bb)

end Code

/-- A call on a basic block; `none` is the position `None`. -/
inductive BlockOp (ι : Type) where
  | insertAfter (bb : Nat) (position : Option Nat) (inst : ι)
  | insertBefore (bb : Nat) (position : Option Nat) (inst : ι)
  | delete (bb target : Nat)

namespace BlockOp

def block : BlockOp ι → Nat
  | .insertAfter bb .. => bb
  | .insertBefore bb .. => bb
  | .delete bb _ => bb

/-- The node that the call names. -/
def node : BlockOp ι → Option Nat
  | .insertAfter _ position _ => position
  | .insertBefore _ position _ => position
  | .delete _ target => some target

end BlockOp

def Code.call (code : Code ι) : BlockOp ι → Except CodeError (Code ι)
  | .insertAfter bb position inst => code.insertAfter bb position inst
  | .insertBefore bb position inst => code.insertBefore bb position inst
  | .delete bb target => code.delete bb target

/-- What a block is meant to be: a list of nodes. The nodes are numbered as they are created, and
those that have been erased from a list are kept apart. -/
structure BlockLists (ι : Type) where
  created : List (InstructionNode ι)
  nodes : Nat → List Nat
  erased : Nat → List Nat

namespace BlockLists

def empty : BlockLists ι := ⟨[], fun _ => [], fun _ => []⟩

/-- A new node at index `i`. -/
def insert (s : BlockLists ι) (bb i : Nat) (inst : ι) : BlockLists ι :=
  { s with
    created := s.created ++ [⟨inst, bb⟩]
    nodes := Function.update s.nodes bb ((s.nodes bb).insertIdx i s.created.length) }

def erase (s : BlockLists ι) (bb node : Nat) : BlockLists ι :=
  { s with
    nodes := Function.update s.nodes bb ((s.nodes bb).erase node)
    erased := Function.update s.erased bb (node :: s.erased bb) }

/-- The list operation for a call; a node that is not in the list is a `ValueError`. -/
def call (s : BlockLists ι) : BlockOp ι → Except CodeError (BlockLists ι)
  | .insertAfter bb none inst => .ok (s.insert bb (s.nodes bb).length inst)
  | .insertAfter bb (some position) inst =>
    if position ∈ s.nodes bb then .ok (s.insert bb ((s.nodes bb).idxOf position + 1) inst)
    else .error .value
  | .insertBefore bb none inst => .ok (s.insert bb 0 inst)
  | .insertBefore bb (some position) inst =>
    if position ∈ s.nodes bb then .ok (s.insert bb ((s.nodes bb).idxOf position) inst)
    else .error .value
  | .delete bb target =>
    if target ∈ s.nodes bb then .ok (s.erase bb target) else .error .value

end BlockLists

/-- The state after a call; an exception leaves it as it was. -/
def stateAfter {σ : Type} (s : σ) : Except CodeError σ → σ
  | .ok s' => s'
  | .error _ => s

/-- A call on the blocks and on the lists. -/
def blockStep (p : Code ι × BlockLists ι) (op : BlockOp ι) : Code ι × BlockLists ι :=
  (stateAfter p.1 (p.1.call op), stateAfter p.2 (p.2.call op))

/-- Both ways through a block and its length are those of the list. -/
structure Follows (code : Code ι) (s : BlockLists ι) : Prop where
  created : code.nodes = s.created
  forward : ∀ bb, code.iterNodes bb = s.nodes bb
  backward : ∀ bb, (code.backward bb).reverse = s.nodes bb
  length : ∀ bb, code.length bb = (s.nodes bb).length

/-- Both calls succeed or both raise the same exception. -/
def SameOutcome {σ τ : Type} : Except CodeError σ → Except CodeError τ → Prop
  | .ok _, .ok _ => True
  | .error e, .error e' => e = e'
  | _, _ => False

/-- A call does to the blocks what it does to the lists. -/
def Refined (p : Code ι × BlockLists ι) (op : BlockOp ι) : Prop :=
  SameOutcome (p.1.call op) (p.2.call op) ∧ Follows (blockStep p op).1 (blockStep p op).2

/-- The node that a call names has been created. -/
def NamesCreated (p : Code ι × BlockLists ι) (op : BlockOp ι) : Prop :=
  ∀ n, op.node = some n → n < p.1.nodes.length

/-- The node that a call names has not been deleted from the block. -/
def NotErased (p : Code ι × BlockLists ι) (op : BlockOp ι) : Prop :=
  ∀ n, op.node = some n → n ∉ p.2.erased op.block

section Traversals

variable {code : Code ι} {bb : Nat} {ns : List Nat}

theorem BlockNodes.backward (h : BlockNodes code bb ns) : code.backward bb = ns.reverse := by
  unfold Code.backward Code.getLast
  rw [h.end_, ← List.head?_reverse]
  exact h.linked.reverse.walk (by rw [List.length_reverse]; exact h.length_le)

/-- The loop counts the nodes of a linked list from any of its nodes on. -/
theorem countNodes_eq {p : Option Nat} {x : Nat} {l : List Nat}
    (h : Linked code.next code.previous p (x :: l) none) {fuel : Nat} (hfuel : l.length < fuel)
    (count : Nat) : code.countNodes fuel x count = count + l.length := by
  induction l generalizing p x fuel count with
  | nil =>
    obtain ⟨fuel, rfl⟩ := Nat.exists_eq_succ_of_ne_zero (Nat.ne_of_gt hfuel)
    obtain ⟨-, hnext, -⟩ := h
    rw [Code.countNodes, show code.next x = none from hnext]
    rfl
  | cons y l ih =>
    obtain ⟨fuel, rfl⟩ := Nat.exists_eq_succ_of_ne_zero (Nat.ne_of_gt (Nat.zero_lt_of_lt hfuel))
    obtain ⟨-, hnext, hrest⟩ := h
    rw [Code.countNodes, show code.next x = some y from hnext]
    dsimp only
    rw [ih hrest (by simpa using hfuel), List.length_cons]
    omega

theorem BlockNodes.length (h : BlockNodes code bb ns) : code.length bb = ns.length := by
  have hle := h.length_le
  unfold Code.length
  rw [h.start]
  cases ns with
  | nil => rfl
  | cons x l =>
    have hlt : l.length < code.nodes.length := hle
    dsimp only [List.head?_cons]
    rw [countNodes_eq h.linked hlt, List.length_cons, Nat.add_comm]

end Traversals

/-- The blocks hold the nodes of the lists, and a created node is in the list of its block or has
been erased from it. -/
structure Represents (code : Code ι) (s : BlockLists ι) : Prop where
  created : code.nodes = s.created
  blocks : ∀ bb, BlockNodes code bb (s.nodes bb)
  placed : ∀ n bb, code.parent n = some bb → n ∈ s.nodes bb ∨ n ∈ s.erased bb
  erased : ∀ n bb, n ∈ s.erased bb → code.parent n = some bb ∧ n ∉ s.nodes bb

section Step

variable {code code' : Code ι} {s : BlockLists ι} {bb : Nat} {l r : List Nat}

theorem represents_empty : Represents (Code.empty : Code ι) .empty where
  created := rfl
  blocks _ := ⟨rfl, rfl, trivial, List.nodup_nil, fun _ hn => absurd hn List.not_mem_nil⟩
  placed _ _ h := by cases h
  erased _ _ h := absurd h List.not_mem_nil

theorem Represents.follows (h : Represents code s) : Follows code s where
  created := h.created
  forward bb := (h.blocks bb).iterNodes
  backward bb := by rw [(h.blocks bb).backward, List.reverse_reverse]
  length bb := (h.blocks bb).length

/-- A node that was not erased is in the list of its parent. -/
theorem Represents.mem_iff (h : Represents code s) {n : Nat} (hn : n ∉ s.erased bb) :
    n ∈ s.nodes bb ↔ code.parent n = some bb :=
  ⟨(h.blocks bb).parent n, fun hparent => (h.placed n bb hparent).resolve_right hn⟩

theorem spliced_parent (inst : ι) (n : Nat) : (code.spliced bb inst l r).parent n =
    if n = code.nodes.length then some bb else code.parent n := by
  unfold Code.parent Code.spliced
  dsimp only
  split
  · rename_i hn
    rw [hn, List.getElem?_concat_length]
    rfl
  · rename_i hn
    by_cases hlt : n < code.nodes.length
    · rw [List.getElem?_append_left hlt]
    · have hlen : (code.nodes ++ [(⟨inst, bb⟩ : InstructionNode ι)]).length ≤ n := by
        rw [List.length_append, List.length_singleton]
        omega
      rw [List.getElem?_eq_none hlen, List.getElem?_eq_none (Nat.le_of_not_lt hlt)]

theorem insertIdx_middle {α : Type} (l r : List α) (x : α) :
    (l ++ r).insertIdx l.length x = l ++ x :: r := by
  induction l with
  | nil => rfl
  | cons y l ih => rw [List.cons_append, List.length_cons, List.insertIdx_succ_cons, ih]; rfl

/-- An insertion into the block at the index at which the list gets it. -/
theorem Represents.insert (h : Represents code s) (inst : ι) (hns : s.nodes bb = l ++ r) :
    Represents (code.spliced bb inst l r) (s.insert bb l.length inst) := by
  have hbb : BlockNodes code bb (l ++ r) := hns ▸ h.blocks bb
  have hfresh : ∀ b, code.nodes.length ∉ s.nodes b := fun b hmem =>
    Nat.lt_irrefl _ ((h.blocks b).lt hmem)
  have hlists : (s.insert bb l.length inst).nodes =
      Function.update s.nodes bb (l ++ code.nodes.length :: r) := by
    show Function.update s.nodes bb ((s.nodes bb).insertIdx l.length s.created.length) = _
    rw [hns, insertIdx_middle, ← h.created]
  refine ⟨?_, fun b => ?_, fun n b hparent => ?_, fun n b hn => ?_⟩
  · show code.nodes ++ [⟨inst, bb⟩] = s.created ++ [⟨inst, bb⟩]
    rw [h.created]
  · rw [hlists]
    by_cases hb : b = bb
    · rw [hb, Function.update_self]
      exact spliced_blockNodes hbb inst
    · rw [Function.update_of_ne hb]
      exact (spliced_changes code bb inst l r).other hbb (h.blocks b) hb
  · rw [hlists]
    rw [spliced_parent] at hparent
    by_cases hnew : n = code.nodes.length
    · rw [if_pos hnew] at hparent
      cases hparent
      rw [Function.update_self, hnew]
      exact Or.inl (by simp)
    · rw [if_neg hnew] at hparent
      refine (h.placed n b hparent).imp_left fun hmem => ?_
      by_cases hb : b = bb
      · rw [hb, Function.update_self]
        rw [hb, hns] at hmem
        simp only [List.mem_append, List.mem_cons] at hmem ⊢
        exact hmem.imp_right Or.inr
      · rw [Function.update_of_ne hb]
        exact hmem
  · obtain ⟨hparent, hmem⟩ := h.erased n b hn
    have hold : n ≠ code.nodes.length := Nat.ne_of_lt (lt_of_parent hparent)
    rw [spliced_parent, if_neg hold, hlists]
    refine ⟨hparent, ?_⟩
    by_cases hb : b = bb
    · rw [hb, Function.update_self]
      rw [hb, hns] at hmem
      simp only [List.mem_append, List.mem_cons, not_or] at hmem ⊢
      exact ⟨hmem.1, hold, hmem.2⟩
    · rw [Function.update_of_ne hb]
      exact hmem

/-- A deletion of a node of the block. -/
theorem Represents.delete (h : Represents code s) {x : Nat} (hns : s.nodes bb = l ++ x :: r) :
    Represents (code.unspliced bb l r) (s.erase bb x) := by
  have hbb : BlockNodes code bb (l ++ x :: r) := hns ▸ h.blocks bb
  have hnodup := List.perm_middle.nodup_iff.1 hbb.nodup
  have hx : x ∉ l ++ r := (List.nodup_cons.1 hnodup).1
  have hxl : x ∉ l := fun hmem => hx (List.mem_append_left r hmem)
  have hlists : (s.erase bb x).nodes = Function.update s.nodes bb (l ++ r) := by
    show Function.update s.nodes bb ((s.nodes bb).erase x) = _
    rw [hns, List.erase_append_right _ hxl, List.erase_cons_head]
  refine ⟨h.created, fun b => ?_, fun n b hparent => ?_, fun n b hn => ?_⟩
  · rw [hlists]
    by_cases hb : b = bb
    · rw [hb, Function.update_self]
      exact unspliced_blockNodes hbb
    · rw [Function.update_of_ne hb]
      have hchanges := (unspliced_changes code bb l r).mono
        (show ∀ n ∈ l ++ r, n ∈ l ++ x :: r by
          intro n hn
          simp only [List.mem_append, List.mem_cons] at hn ⊢
          exact hn.imp_right Or.inr)
      exact hchanges.other hbb (h.blocks b) hb
  · have herased : (s.erase bb x).erased = Function.update s.erased bb (x :: s.erased bb) := rfl
    rw [hlists, herased]
    have hplaced := h.placed n b hparent
    by_cases hb : b = bb
    · subst hb
      rw [Function.update_self, Function.update_self]
      rw [hns] at hplaced
      simp only [List.mem_append, List.mem_cons] at hplaced ⊢
      tauto
    · rw [Function.update_of_ne hb, Function.update_of_ne hb]
      exact hplaced
  · have herased : (s.erase bb x).erased = Function.update s.erased bb (x :: s.erased bb) := rfl
    rw [herased] at hn
    rw [hlists]
    by_cases hb : b = bb
    · subst hb
      rw [Function.update_self] at hn ⊢
      rcases List.mem_cons.1 hn with rfl | hn
      · exact ⟨hbb.parent n (by simp), hx⟩
      · obtain ⟨hparent, hmem⟩ := h.erased n b hn
        rw [hns] at hmem
        simp only [List.mem_append, List.mem_cons, not_or] at hmem ⊢
        exact ⟨hparent, hmem.1, hmem.2.2⟩
    · rw [Function.update_of_ne hb] at hn ⊢
      exact h.erased n b hn

theorem idxOf_middle {l r : List Nat} {p : Nat} (hp : p ∉ l) :
    (l ++ p :: r).idxOf p = l.length := by
  rw [List.idxOf_append_of_notMem hp, List.idxOf_cons_self, Nat.add_zero]

/-- `None` stands for the ends of the block. -/
theorem insertAfter_none (code : Code ι) (bb : Nat) (inst : ι) :
    code.insertAfter bb none inst = code.insertAfter bb (code.getLast bb) inst := by
  unfold Code.insertAfter Code.getLast
  have hend : (code.newNode bb inst).end_ bb = code.end_ bb := rfl
  cases h : code.end_ bb with
  | none => rfl
  | some p => simp only [hend, h]

theorem insertBefore_none (code : Code ι) (bb : Nat) (inst : ι) :
    code.insertBefore bb none inst = code.insertBefore bb (code.getFirst bb) inst := by
  unfold Code.insertBefore Code.getFirst
  have hstart : (code.newNode bb inst).start bb = code.start bb := rfl
  cases h : code.start bb with
  | none => rfl
  | some p => simp only [hstart, h]

theorem newNode_parent_ne (inst : ι) {n : Nat} (hn : n < code.nodes.length)
    (hparent : code.parent n ≠ some bb) : (code.newNode bb inst).parent n ≠ some bb := by
  unfold Code.parent Code.newNode
  dsimp only
  rwa [List.getElem?_append_left hn]

/-- A node with another parent is refused. -/
theorem call_foreign {op : BlockOp ι} {n : Nat} (hop : op.node = some n)
    (hn : n < code.nodes.length) (hparent : code.parent n ≠ some op.block) :
    code.call op = .error .value := by
  cases op with
  | insertAfter bb position inst =>
    have hop : position = some n := hop
    subst hop
    exact if_pos (newNode_parent_ne inst hn hparent)
  | insertBefore bb position inst =>
    have hop : position = some n := hop
    subst hop
    exact if_pos (newNode_parent_ne inst hn hparent)
  | delete bb target =>
    cases hop
    exact if_pos hparent

theorem linkAfter_ok {p : Nat} (node : Nat) (hp : code.parent p = some bb) :
    ∃ code', code.linkAfter bb p node = .ok code' := by
  unfold Code.linkAfter
  dsimp only
  rw [if_neg (not_not.2 hp)]
  split
  · exact ⟨_, rfl⟩
  · exact ⟨_, rfl⟩

theorem linkBefore_ok {p : Nat} (node : Nat) (hp : code.parent p = some bb) :
    ∃ code', code.linkBefore bb p node = .ok code' := by
  unfold Code.linkBefore
  dsimp only
  rw [if_neg (not_not.2 hp)]
  split
  · exact ⟨_, rfl⟩
  · exact ⟨_, rfl⟩

theorem delete_ok {x : Nat} (hx : code.parent x = some bb) :
    ∃ code', code.delete bb x = .ok code' := by
  unfold Code.delete
  rw [if_neg (not_not.2 hx)]
  split
  · exact ⟨_, rfl⟩
  · exact ⟨_, rfl⟩
  · exact ⟨_, rfl⟩
  · exact ⟨_, rfl⟩

/-- A node with the right parent is accepted, in the block or not. -/
theorem call_accepted {op : BlockOp ι} {n : Nat} (hop : op.node = some n)
    (hparent : code.parent n = some op.block) : ∃ code', code.call op = .ok code' := by
  cases op with
  | insertAfter bb position inst =>
    have hop : position = some n := hop
    subst hop
    exact linkAfter_ok _ (newNode_parent code inst hparent)
  | insertBefore bb position inst =>
    have hop : position = some n := hop
    subst hop
    exact linkBefore_ok _ (newNode_parent code inst hparent)
  | delete bb target =>
    cases hop
    exact delete_ok hparent

/-- A node that is not in the list is a `ValueError` of the list operation. -/
theorem lists_call_foreign {op : BlockOp ι} {n : Nat} (hop : op.node = some n)
    (hn : n ∉ s.nodes op.block) : s.call op = .error .value := by
  cases op with
  | insertAfter bb position inst =>
    have hop : position = some n := hop
    subst hop
    exact if_neg hn
  | insertBefore bb position inst =>
    have hop : position = some n := hop
    subst hop
    exact if_neg hn
  | delete bb target =>
    cases hop
    exact if_neg hn

/-- A call on a block without a position inserts at an end. -/
theorem call_end (h : Represents code s) {op : BlockOp ι} (hop : op.node = none) :
    ∃ code' s', code.call op = .ok code' ∧ s.call op = .ok s' ∧ Represents code' s' := by
  cases op with
  | insertAfter bb position inst =>
    have hop : position = none := hop
    subst hop
    refine ⟨_, _, (insertAfter_none code bb inst).trans (insertAfter_last (h.blocks bb) inst), rfl,
      h.insert inst (List.append_nil _).symm⟩
  | insertBefore bb position inst =>
    have hop : position = none := hop
    subst hop
    exact ⟨_, _, (insertBefore_none code bb inst).trans (insertBefore_first (h.blocks bb) inst), rfl,
      h.insert (l := []) inst rfl⟩
  | delete bb target => cases hop

/-- A call that names a node of the block does what the list operation does. -/
theorem call_member (h : Represents code s) {op : BlockOp ι} {n : Nat} (hop : op.node = some n)
    (hn : n ∈ s.nodes op.block) :
    ∃ code' s', code.call op = .ok code' ∧ s.call op = .ok s' ∧ Represents code' s' := by
  obtain ⟨l, r, hns⟩ := List.append_of_mem hn
  have hbb : BlockNodes code op.block (l ++ n :: r) := hns ▸ h.blocks op.block
  have hl : n ∉ l := fun hmem =>
    (List.nodup_cons.1 (List.perm_middle.nodup_iff.1 hbb.nodup)).1 (List.mem_append_left r hmem)
  have hidx : (s.nodes op.block).idxOf n = l.length := by rw [hns, idxOf_middle hl]
  cases op with
  | insertAfter bb position inst =>
    have hop : position = some n := hop
    subst hop
    have hlists : s.call (.insertAfter bb (some n) inst) = .ok (s.insert bb (l ++ [n]).length inst) := by
      rw [List.length_append, List.length_singleton, ← hidx]
      exact if_pos hn
    exact ⟨_, _, insertAfter_node hbb inst, hlists, h.insert inst (by simpa using hns)⟩
  | insertBefore bb position inst =>
    have hop : position = some n := hop
    subst hop
    have hlists : s.call (.insertBefore bb (some n) inst) = .ok (s.insert bb l.length inst) := by
      rw [← hidx]
      exact if_pos hn
    exact ⟨_, _, linkBefore_newNode hbb inst, hlists, h.insert inst hns⟩
  | delete bb target =>
    cases hop
    exact ⟨_, _, delete_node hbb, if_pos hn, h.delete hns⟩

/-- A call that names no erased node does to the blocks what it does to the lists. -/
theorem call_refined (h : Represents code s) {op : BlockOp ι} (hcreated : NamesCreated (code, s) op)
    (hne : NotErased (code, s) op) :
    SameOutcome (code.call op) (s.call op) ∧
      Represents (blockStep (code, s) op).1 (blockStep (code, s) op).2 := by
  suffices hboth : (∃ code' s', code.call op = .ok code' ∧ s.call op = .ok s' ∧
      Represents code' s') ∨ (code.call op = .error .value ∧ s.call op = .error .value) by
    unfold blockStep
    dsimp only
    rcases hboth with ⟨code', s', hcode, hs, hrep⟩ | ⟨hcode, hs⟩
    · rw [hcode, hs]
      exact ⟨trivial, hrep⟩
    · rw [hcode, hs]
      exact ⟨rfl, h⟩
  cases hop : op.node with
  | none => exact Or.inl (call_end h hop)
  | some n =>
    by_cases hn : n ∈ s.nodes op.block
    · exact Or.inl (call_member h hop hn)
    · refine Or.inr ⟨call_foreign hop (hcreated n hop) ?_, lists_call_foreign hop hn⟩
      exact fun hparent => hn ((h.mem_iff (hne n hop)).mpr hparent)

theorem not_refined_of_erased (h : Represents code s) {op : BlockOp ι}
    (herased : ¬ NotErased (code, s) op) : ¬ Refined (code, s) op := by
  intro hrefined
  unfold NotErased at herased
  push Not at herased
  obtain ⟨n, hop, hn⟩ := herased
  obtain ⟨hparent, hmem⟩ := h.erased n op.block hn
  obtain ⟨code', hcode⟩ := call_accepted hop hparent
  have houtcome := hrefined.1
  rw [show (code, s).1.call op = .ok code' from hcode,
    show (code, s).2.call op = .error .value from lists_call_foreign hop hmem] at houtcome
  exact houtcome

/-- Whatever calls are made on the blocks of a test case, the blocks follow the lists through the
whole run exactly when no call names a node that was deleted from the same block before. -/
theorem blocks_refine_lists_iff {ops : List (BlockOp ι)}
    (hcreated : AllSteps blockStep NamesCreated (Code.empty, .empty) ops) :
    AllSteps blockStep Refined (Code.empty, .empty) ops ↔
      AllSteps blockStep NotErased (Code.empty, .empty) ops := by
  suffices hfrom : ∀ (ops : List (BlockOp ι)) (code : Code ι) (s : BlockLists ι),
      Represents code s → AllSteps blockStep NamesCreated (code, s) ops →
        (AllSteps blockStep Refined (code, s) ops ↔ AllSteps blockStep NotErased (code, s) ops) from
    hfrom ops _ _ represents_empty hcreated
  intro ops
  induction ops with
  | nil => exact fun _ _ _ _ => Iff.rfl
  | cons op ops ih =>
    intro code s h hcreated
    by_cases hne : NotErased (code, s) op
    · obtain ⟨houtcome, hrep⟩ := call_refined h hcreated.1 hne
      have hrest := ih _ _ hrep hcreated.2
      exact ⟨fun hall => ⟨hne, hrest.mp hall.2⟩,
        fun hall => ⟨⟨houtcome, hrep.follows⟩, hrest.mpr hall.2⟩⟩
    · exact ⟨fun hall => absurd hall.1 (not_refined_of_erased h hne), fun hall => absurd hall.1 hne⟩

end Step

section Samples

/-- Four instructions in block 0, the second one deleted. -/
def sampleBlockOps : List (BlockOp Nat) :=
  [.insertAfter 0 none 10, .insertAfter 0 none 11, .insertBefore 0 none 12,
    .insertAfter 0 (some 0) 13, .delete 0 0, .insertBefore 1 (some 1) 14]

theorem blocks_refine_lists_sample :
    AllSteps blockStep Refined (Code.empty, .empty) sampleBlockOps := by
  refine (blocks_refine_lists_iff ?_).mpr ?_
  · unfold sampleBlockOps
    simp only [AllSteps, NamesCreated, BlockOp.node]
    decide
  · unfold sampleBlockOps
    simp only [AllSteps, NotErased, BlockOp.node]
    decide

/-- An instruction is inserted behind a deleted one. -/
def sampleDeletedOps : List (BlockOp Nat) :=
  [.insertAfter 0 none 10, .insertAfter 0 none 11, .insertAfter 0 none 12, .delete 0 1,
    .insertAfter 0 (some 1) 13]

/-- The call is accepted; the new node and the deleted one are found on the way back only. -/
theorem insertAfter_deleted_not_refined :
    ¬ AllSteps blockStep Refined (Code.empty, .empty) sampleDeletedOps ∧
      (run blockStep (Code.empty, .empty) sampleDeletedOps).1.iterNodes 0 = [0, 2] ∧
      ((run blockStep (Code.empty, .empty) sampleDeletedOps).1.backward 0).reverse =
        [0, 1, 3, 2] := by
  refine ⟨fun h => ?_, by decide, by decide⟩
  have hlast : False := h.2.2.2.2.1.1
  exact hlast

end Samples

end Rvzr.TestCase
