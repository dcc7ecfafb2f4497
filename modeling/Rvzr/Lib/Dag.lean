import Mathlib.Data.List.Basic
import Mathlib.Data.List.Chain
import Mathlib.Logic.Relation

/-!
# Graphs whose edges go up

A rank that every edge raises rules out cycles and bounds the length of paths. If every node but
one has an edge, every path that cannot go on ends in that one.
-/

namespace Rvzr.Lib

open Relation

section Rank

variable {α : Type*} {edge : α → α → Prop} {rank : α → Nat}

theorem rank_lt_of_transGen (h : ∀ a b, edge a b → rank a < rank b) {a b : α}
    (hab : TransGen edge a b) : rank a < rank b := by
  induction hab with
  | single hedge => exact h _ _ hedge
  | tail _ hedge ih => exact ih.trans (h _ _ hedge)

theorem acyclic_of_rank (h : ∀ a b, edge a b → rank a < rank b) (a : α) :
    ¬ TransGen edge a a := by
  intro hcycle
  have hlt := rank_lt_of_transGen h hcycle
  exact Nat.lt_irrefl _ hlt

/-- A path is not longer than the ranks above its start. -/
theorem path_length_le (h : ∀ a b, edge a b → rank a < rank b) {n : Nat} {a : α} {path : List α}
    (hpath : (a :: path).IsChain edge) (hrank : ∀ b ∈ a :: path, rank b ≤ n) :
    rank a + path.length ≤ n := by
  induction path generalizing a with
  | nil => exact hrank a List.mem_cons_self
  | cons b path ih =>
    rw [List.isChain_cons_cons] at hpath
    have hlt := h a b hpath.1
    have hrest := ih hpath.2 fun c hc => hrank c (List.mem_cons_of_mem _ hc)
    rw [List.length_cons]
    omega

/-- What holds of the start and of the target of every edge holds all along a path. -/
theorem path_forall {P : α → Prop} (hedge : ∀ a b, edge a b → P b) {a : α} (ha : P a)
    {path : List α} (hpath : (a :: path).IsChain edge) : ∀ b ∈ a :: path, P b := by
  induction path generalizing a with
  | nil => simpa using ha
  | cons b path ih =>
    rw [List.isChain_cons_cons] at hpath
    exact List.forall_mem_cons.mpr ⟨ha, ih (hedge a b hpath.1) hpath.2⟩

/-- Nodes that are numbered in a row, each with an edge to the next one, are reached from the
first one. -/
theorem reachable_of_next {node : Nat → α} {n : Nat} (h : ∀ i < n, edge (node i) (node (i + 1)))
    {i : Nat} (hi : i ≤ n) : ReflTransGen edge (node 0) (node i) := by
  induction i with
  | zero => exact ReflTransGen.refl
  | succ i ih => exact (ih (Nat.le_of_succ_le hi)).tail (h i hi)

end Rank

end Rvzr.Lib
