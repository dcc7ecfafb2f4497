import Mathlib.Data.Nat.ModEq
import Mathlib.Logic.Function.Basic
import Rvzr.Lib.Folds

/-!
# Walks through tables

An address is translated by a walk through tables, one for each level; the index in each table is a
digit of the address. Tables are filled by writes to entries that must be free.
-/

namespace Rvzr.Lib

/-! ## Indices -/

/-- The indices of a page in tables of `n` entries, from the top level down. -/
def tableIndices (n : Nat) : Nat → Nat → List Nat
  | 0, _ => []
  | levels + 1, page => page / n ^ levels % n :: tableIndices n levels page

section Indices

variable {n : Nat}

@[simp] theorem length_tableIndices (n levels page : Nat) :
    (tableIndices n levels page).length = levels := by
  induction levels with
  | zero => rfl
  | succ levels ih => rw [tableIndices, List.length_cons, ih]

/-- The indices tell the pages apart that the tables can hold. -/
theorem tableIndices_inj {levels p q : Nat} (hp : p < n ^ levels) (hq : q < n ^ levels)
    (h : tableIndices n levels p = tableIndices n levels q) : p = q := by
  have hmod : ∀ levels, tableIndices n levels p = tableIndices n levels q →
      p % n ^ levels = q % n ^ levels := by
    intro levels
    induction levels with
    | zero => intro _; rw [Nat.pow_zero, Nat.mod_one, Nat.mod_one]
    | succ levels ih =>
      intro h
      rw [tableIndices, tableIndices, List.cons.injEq] at h
      have hrest := ih h.2
      rw [Nat.pow_succ, Nat.mod_mul, Nat.mod_mul, hrest, h.1]
  have hsame := hmod levels h
  rwa [Nat.mod_eq_of_lt hp, Nat.mod_eq_of_lt hq] at hsame

end Indices

/-! ## Walks -/

section Walks

variable {τ ι : Type}

/-- One table after the other; `none` is a missing entry. -/
def tableWalk (next : τ → ι → Option τ) : τ → List ι → Option τ
  | table, [] => some table
  | table, i :: is => (next table i).bind fun t => tableWalk next t is

variable {next : τ → ι → Option τ}

theorem tableWalk_append (table : τ) (is js : List ι) :
    tableWalk next table (is ++ js) = (tableWalk next table is).bind fun t => tableWalk next t js := by
  induction is generalizing table with
  | nil => rfl
  | cons i is ih =>
    rw [List.cons_append, tableWalk, tableWalk]
    cases next table i with
    | none => rfl
    | some t => exact ih t

/-- From the table, the only entries on the way are those of the path. -/
def OnlyPath (next : τ → ι → Option τ) : τ → List ι → τ → Prop
  | table, [], leaf => table = leaf
  | table, i :: is, leaf =>
    (∀ j, j ≠ i → next table j = none) ∧ ∃ t, next table i = some t ∧ OnlyPath next t is leaf

/-- A walk of the length of the path ends at its leaf or is stopped. -/
theorem OnlyPath.tableWalk_eq [DecidableEq ι] {table leaf : τ} {path is : List ι}
    (h : OnlyPath next table path leaf) (hlen : is.length = path.length) :
    tableWalk next table is = if is = path then some leaf else none := by
  induction path generalizing table is with
  | nil =>
    rw [List.eq_nil_of_length_eq_zero hlen, if_pos rfl, ← h]
    rfl
  | cons i path ih =>
    obtain ⟨hother, t, ht, hrest⟩ := h
    cases is with
    | nil => cases hlen
    | cons j is =>
      rw [tableWalk]
      by_cases hj : j = i
      · rw [hj, ht, Option.bind_some, ih hrest (Nat.succ.inj hlen)]
        by_cases his : is = path
        · rw [if_pos his, if_pos (by rw [his])]
        · rw [if_neg his, if_neg fun heq => his (List.cons.inj heq).2]
      · rw [hother j hj, Option.bind_none, if_neg fun heq => hj (List.cons.inj heq).1]

end Walks

/-! ## Entries that are written once -/

section Claims

variable {α κ β : Type} [DecidableEq κ]

variable {may : α → Bool} {free : β → Bool} {key : α → κ} {value : α → β → β}
  {entries entries' : κ → β} {l : List α}

/-- What a list of writes leaves that write only where they may and where the entry is free: the keys
are different, every key has the value of its write, and the other entries are as before. -/
structure Claimed (may : α → Bool) (free : β → Bool) (key : α → κ) (value : α → β → β)
    (entries : κ → β) (l : List α) (entries' : κ → β) : Prop where
  nodup : (l.map key).Nodup
  allowed : ∀ a ∈ l, may a = true
  wasFree : ∀ a ∈ l, free (entries (key a)) = true
  written : ∀ a ∈ l, entries' (key a) = value a (entries (key a))
  others : ∀ k, k ∉ l.map key → entries' k = entries k

omit [DecidableEq κ] in
theorem Claimed.nil (may : α → Bool) (free : β → Bool) (key : α → κ) (value : α → β → β)
    (entries : κ → β) : Claimed may free key value entries [] entries :=
  ⟨List.nodup_nil, by simp, by simp, by simp, fun _ _ => rfl⟩

theorem Claimed.snoc {a : α}
    (hused : ∀ a b, may a = true → free b = true → free (value a b) = false)
    (h : Claimed may free key value entries l entries') (hmay : may a = true)
    (hfree : free (entries' (key a)) = true) :
    Claimed may free key value entries (l ++ [a])
      (Function.update entries' (key a) (value a (entries' (key a)))) := by
  have hnew : key a ∉ l.map key := by
    intro hmem
    obtain ⟨b, hb, heq⟩ := List.mem_map.mp hmem
    rw [← heq, h.written b hb, hused b _ (h.allowed b hb) (h.wasFree b hb)] at hfree
    exact absurd hfree (by decide)
  have hsame : entries' (key a) = entries (key a) := h.others _ hnew
  refine ⟨?_, ?_, ?_, ?_, ?_⟩
  · rw [List.map_append, List.map_singleton, List.nodup_append]
    refine ⟨h.nodup, by simp, ?_⟩
    intro k hk k' hk' heq
    rw [List.mem_singleton.mp hk'] at heq
    exact hnew (heq ▸ hk)
  · intro b hb
    rcases List.mem_append.mp hb with hb | hb
    · exact h.allowed b hb
    · rw [List.mem_singleton.mp hb]
      exact hmay
  · intro b hb
    rcases List.mem_append.mp hb with hb | hb
    · exact h.wasFree b hb
    · rw [List.mem_singleton.mp hb, ← hsame]
      exact hfree
  · intro b hb
    rcases List.mem_append.mp hb with hb | hb
    · have hne : key b ≠ key a := fun heq => hnew (heq ▸ List.mem_map_of_mem hb)
      rw [Function.update_of_ne hne]
      exact h.written b hb
    · rw [List.mem_singleton.mp hb, Function.update_self, hsame]
  · intro k hk
    rw [List.map_append, List.mem_append, not_or] at hk
    have hne : k ≠ key a := fun heq => hk.2 (heq ▸ List.mem_map_of_mem (List.mem_singleton_self a))
    rw [Function.update_of_ne hne]
    exact h.others k hk.1

/-- What a list of writes leaves that all do the same to their entry. -/
def Marked (f : β → β) (key : α → κ) (entries : κ → β) (l : List α) (entries' : κ → β) : Prop :=
  ∀ k, entries' k = if k ∈ l.map key then f (entries k) else entries k

theorem Marked.nil (f : β → β) (key : α → κ) (entries : κ → β) : Marked f key entries [] entries :=
  fun _ => rfl

theorem Marked.snoc {f : β → β} {a : α} (hf : ∀ b, f (f b) = f b)
    (h : Marked f key entries l entries') :
    Marked f key entries (l ++ [a]) (Function.update entries' (key a) (f (entries' (key a)))) := by
  intro k
  rw [List.map_append, List.map_singleton]
  by_cases hk : k = key a
  · rw [hk, Function.update_self, h (key a), if_pos (by simp : key a ∈ l.map key ++ [key a])]
    split
    · rw [hf]
    · rfl
  · rw [Function.update_of_ne hk, h k]
    simp only [List.mem_append, List.mem_singleton, hk, or_false]

end Claims

/-! ## A loop over the entries -/

section Loops

variable {ε κ β : Type} [DecidableEq κ] {f : κ → β → Except ε β} {l : List κ} {t t' : κ → β}

/-- Every entry of the list is replaced, if the replacement of each succeeds. -/
theorem foldlM_update_ok (hl : l.Nodup)
    (h : l.foldlM (fun t k => (f k (t k)).map (Function.update t k)) t = .ok t') :
    (∀ k ∈ l, f k (t k) = .ok (t' k)) ∧ ∀ k, k ∉ l → t' k = t k := by
  refine foldlM_prefix
    (I := fun q c => (∀ k ∈ q, f k (t k) = .ok (c k)) ∧ ∀ k, k ∉ q → c k = t k)
    ⟨by simp, fun _ _ => rfl⟩ ?_ h
  rintro q k c c' hq ⟨hdone, hrest⟩ hstep
  have hnew : k ∉ q := by
    have hnodup := hl.sublist hq.sublist
    rw [List.nodup_append] at hnodup
    exact fun hmem => hnodup.2.2 k hmem k (List.mem_singleton_self k) rfl
  obtain ⟨b, hb, hc'⟩ : ∃ b, f k (t k) = .ok b ∧ Function.update c k b = c' := by
    rw [hrest k hnew] at hstep
    cases hf : f k (t k) with
    | error e => rw [hf] at hstep; cases hstep
    | ok b => rw [hf] at hstep; exact ⟨b, rfl, Except.ok.inj hstep⟩
  subst hc'
  refine ⟨fun j hj => ?_, fun j hj => ?_⟩
  · rcases List.mem_append.mp hj with hj | hj
    · have hne : j ≠ k := fun heq => hnew (heq ▸ hj)
      rw [Function.update_of_ne hne]
      exact hdone j hj
    · rw [List.mem_singleton.mp hj, Function.update_self]
      exact hb
  · rw [List.mem_append, List.mem_singleton, not_or] at hj
    rw [Function.update_of_ne hj.2]
    exact hrest j hj.1

theorem foldlM_update_ok_iff (hl : l.Nodup) :
    (∃ t', l.foldlM (fun t k => (f k (t k)).map (Function.update t k)) t = .ok t') ↔
      ∀ k ∈ l, ∃ b, f k (t k) = .ok b := by
  constructor
  · rintro ⟨t', h⟩ k hk
    exact ⟨t' k, (foldlM_update_ok hl h).1 k hk⟩
  · intro h
    induction l generalizing t with
    | nil => exact ⟨t, rfl⟩
    | cons k l ih =>
      rw [List.nodup_cons] at hl
      obtain ⟨b, hb⟩ := h k List.mem_cons_self
      rw [List.foldlM_cons, hb]
      apply ih hl.2
      intro j hj
      have hne : j ≠ k := fun heq => hl.1 (heq ▸ hj)
      rw [Function.update_of_ne hne]
      exact h j (List.mem_cons_of_mem k hj)

end Loops

end Rvzr.Lib
