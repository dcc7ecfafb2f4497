import Mathlib.Data.List.Induction
import Mathlib.Logic.Function.Basic

/-!
# Doubly linked lists

Two pointers for every node, as functions on an arbitrary type. `Linked` says that they run through
a list of nodes in both directions; nodes that are not in the list may point anywhere. An insertion
and a removal write the pointers of the neighbours, and `walk` follows the pointers forward.
-/

namespace Rvzr.Lib

variable {ν : Type}

/-- The pointers run through the list; `p` is before it and `q` behind it. -/
def Linked (next prev : ν → Option ν) : Option ν → List ν → Option ν → Prop
  | _, [], _ => True
  | p, x :: xs, q => prev x = p ∧ next x = xs.head?.or q ∧ Linked next prev (some x) xs q

/-- The nodes from `x` on, at most `n` of them. -/
def walk (next : ν → Option ν) : Nat → Option ν → List ν
  | 0, _ => []
  | _ + 1, none => []
  | n + 1, some x => x :: walk next n (next x)

/-- Write the pointer of a node, if there is one. -/
def setAt [DecidableEq ν] (f : ν → Option ν) (x : Option ν) (v : Option ν) : ν → Option ν :=
  match x with
  | none => f
  | some x => Function.update f x v

section Basic

variable {next prev next' prev' : ν → Option ν} {p q : Option ν} {l r : List ν} {x : ν}

theorem getLast?_cons_or (x : ν) (l : List ν) (p : Option ν) :
    (x :: l).getLast?.or p = l.getLast?.or (some x) := by
  rw [List.getLast?_cons]
  cases l.getLast? with
  | none => rfl
  | some y => rfl

theorem linked_append :
    Linked next prev p (l ++ r) q ↔
      Linked next prev p l (r.head?.or q) ∧ Linked next prev (l.getLast?.or p) r q := by
  induction l generalizing p with
  | nil => simp [Linked]
  | cons x l ih =>
    rw [List.cons_append, Linked, Linked, ih, getLast?_cons_or, List.head?_append, Option.or_assoc,
      and_assoc, and_assoc]

theorem linked_middle :
    Linked next prev p (l ++ x :: r) q ↔
      Linked next prev p l (some x) ∧ prev x = l.getLast?.or p ∧ next x = r.head?.or q ∧
        Linked next prev (some x) r q := by
  rw [linked_append]
  rfl

/-- Only the pointers of the nodes matter. -/
theorem Linked.congr (h : Linked next prev p l q)
    (hsame : ∀ y ∈ l, next' y = next y ∧ prev' y = prev y) : Linked next' prev' p l q := by
  induction l generalizing p with
  | nil => trivial
  | cons x l ih =>
    obtain ⟨hprev, hnext, hrest⟩ := h
    obtain ⟨hx, hx'⟩ := hsame x List.mem_cons_self
    exact ⟨hx'.trans hprev, hx.trans hnext, ih hrest fun y hy => hsame y (List.mem_cons_of_mem x hy)⟩

/-- Following the pointers visits the nodes in order. -/
theorem Linked.walk (h : Linked next prev p l none) {n : Nat} (hn : l.length ≤ n) :
    walk next n l.head? = l := by
  induction l generalizing p n with
  | nil =>
    cases n with
    | zero => rfl
    | succ n => rfl
  | cons x l ih =>
    cases n with
    | zero => simp at hn
    | succ n =>
      obtain ⟨-, hnext, hrest⟩ := h
      rw [Option.or_none] at hnext
      rw [List.head?_cons, Lib.walk, hnext, ih hrest (by simpa using hn)]

/-- The same list, seen from its end. -/
theorem Linked.reverse (h : Linked next prev p l q) : Linked prev next q l.reverse p := by
  induction l generalizing p with
  | nil => trivial
  | cons x l ih =>
    obtain ⟨hprev, hnext, hrest⟩ := h
    rw [List.reverse_cons, linked_append, List.getLast?_reverse]
    exact ⟨ih hrest, hnext, hprev, trivial⟩

theorem head?_ne_of_not_mem (h : x ∉ l) : l.head? ≠ some x :=
  fun heq => h (List.mem_of_mem_head? heq)

theorem getLast?_ne_of_not_mem (h : x ∉ l) : l.getLast? ≠ some x :=
  fun heq => h (List.mem_of_getLast? heq)

end Basic

section Writes

variable [DecidableEq ν] {next prev : ν → Option ν} {p q : Option ν} {l r : List ν} {x : ν}

@[simp] theorem setAt_none (f : ν → Option ν) (v : Option ν) : setAt f none v = f := rfl

@[simp] theorem setAt_some (f : ν → Option ν) (x : ν) (v : Option ν) :
    setAt f (some x) v = Function.update f x v := rfl

theorem setAt_other {f : ν → Option ν} {z v : Option ν} {y : ν} (h : z ≠ some y) :
    setAt f z v y = f y := by
  cases z with
  | none => rfl
  | some x =>
    have hne : y ≠ x := fun heq => h (by rw [heq])
    exact Function.update_of_ne hne v f

/-- The first node is hung behind another one. -/
theorem Linked.setPrev (h : Linked next prev p l q) (hnodup : l.Nodup) (p' : Option ν) :
    Linked next (setAt prev l.head? p') p' l q := by
  cases l with
  | nil => trivial
  | cons x l =>
    obtain ⟨-, hnext, hrest⟩ := h
    have hx : x ∉ l := (List.nodup_cons.1 hnodup).1
    rw [List.head?_cons, setAt_some]
    refine ⟨Function.update_self x p' prev, hnext, hrest.congr fun y hy => ⟨rfl, ?_⟩⟩
    have hne : y ≠ x := fun heq => hx (heq ▸ hy)
    exact Function.update_of_ne hne p' prev

/-- The last node is followed by another one. -/
theorem Linked.setNext (h : Linked next prev p l q) (hnodup : l.Nodup) (q' : Option ν) :
    Linked (setAt next l.getLast? q') prev p l q' := by
  induction l using List.reverseRecOn with
  | nil => trivial
  | append_singleton l x _ =>
    obtain ⟨hl, hprev, -, -⟩ := linked_middle.1 h
    have hx : x ∉ l := by
      intro hmem
      exact (List.nodup_append.1 hnodup).2.2 x hmem x List.mem_cons_self rfl
    rw [List.getLast?_concat, setAt_some]
    refine linked_middle.2 ⟨hl.congr fun y hy => ⟨?_, rfl⟩, hprev, ?_, trivial⟩
    · have hne : y ≠ x := fun heq => hx (heq ▸ hy)
      exact Function.update_of_ne hne q' next
    · exact Function.update_self x q' next

/-- A node between `l` and `r`. -/
theorem Linked.insert (h : Linked next prev p (l ++ r) q) (hnodup : (l ++ r).Nodup)
    (hx : x ∉ l ++ r) :
    Linked (setAt (Function.update next x (r.head?.or q)) l.getLast? (some x))
      (setAt (Function.update prev x (l.getLast?.or p)) r.head? (some x)) p (l ++ x :: r) q := by
  obtain ⟨hl, hr⟩ := linked_append.1 h
  obtain ⟨hnl, hnr, hdisj⟩ := List.nodup_append.1 hnodup
  rw [List.mem_append, not_or] at hx
  have hlx : ∀ y ∈ l, y ≠ x := fun y hy heq => hx.1 (heq ▸ hy)
  have hrx : ∀ y ∈ r, y ≠ x := fun y hy heq => hx.2 (heq ▸ hy)
  refine linked_middle.2 ⟨?_, ?_, ?_, ?_⟩
  · refine Linked.congr (hl.setNext hnl (some x)) fun y hy => ⟨?_, ?_⟩
    · by_cases hlast : l.getLast? = some y
      · rw [hlast]
        simp
      · rw [setAt_other hlast, setAt_other hlast, Function.update_of_ne (hlx y hy)]
    · have hhead : r.head? ≠ some y := head?_ne_of_not_mem fun hmem => hdisj y hy y hmem rfl
      rw [setAt_other hhead, Function.update_of_ne (hlx y hy)]
  · rw [setAt_other (head?_ne_of_not_mem hx.2), Function.update_self]
  · rw [setAt_other (getLast?_ne_of_not_mem hx.1), Function.update_self]
  · refine Linked.congr (hr.setPrev hnr (some x)) fun y hy => ⟨?_, ?_⟩
    · have hlast : l.getLast? ≠ some y := getLast?_ne_of_not_mem fun hmem => hdisj y hmem y hy rfl
      rw [setAt_other hlast, Function.update_of_ne (hrx y hy)]
    · by_cases hhead : r.head? = some y
      · rw [hhead]
        simp
      · rw [setAt_other hhead, setAt_other hhead, Function.update_of_ne (hrx y hy)]

/-- The node between `l` and `r` is taken out. -/
theorem Linked.remove (h : Linked next prev p (l ++ x :: r) q) (hnodup : (l ++ x :: r).Nodup) :
    Linked (setAt next l.getLast? (r.head?.or q)) (setAt prev r.head? (l.getLast?.or p)) p (l ++ r)
      q := by
  obtain ⟨hl, -, -, hr⟩ := linked_middle.1 h
  obtain ⟨hnl, hnr, hdisj⟩ := List.nodup_append.1 hnodup
  refine linked_append.2 ⟨?_, ?_⟩
  · refine Linked.congr (hl.setNext hnl _) fun y hy => ⟨rfl, setAt_other ?_⟩
    exact head?_ne_of_not_mem fun hmem => hdisj y hy y (List.mem_cons_of_mem x hmem) rfl
  · refine Linked.congr (hr.setPrev (List.nodup_cons.1 hnr).2 _) fun y hy => ⟨setAt_other ?_, rfl⟩
    exact getLast?_ne_of_not_mem fun hmem => hdisj y hmem y (List.mem_cons_of_mem x hy) rfl

end Writes

end Rvzr.Lib
