import Mathlib.Data.List.Sort

/-!
# Sorting by a key

`l.sort(key=...)` for keys of a linear order. When the keys are those of a sorted list without
repetitions, the place of an element in the result is the place of its key. The last lemma is
about searching a list for the only element with a property.
-/

namespace Rvzr.Lib

section SortBy

variable {α κ : Type} [LinearOrder κ] (key : α → κ)

/-- `sorted(l, key=key)`. -/
def sortBy (l : List α) : List α := l.insertionSort fun a b => key a ≤ key b

instance keyTotal : Std.Total fun a b : α => key a ≤ key b := ⟨fun a b => le_total (key a) (key b)⟩

instance keyTrans : IsTrans α fun a b => key a ≤ key b := ⟨fun _ _ _ => le_trans⟩

theorem perm_sortBy (l : List α) : (sortBy key l).Perm l := List.perm_insertionSort _ l

@[simp] theorem length_sortBy (l : List α) : (sortBy key l).length = l.length :=
  (perm_sortBy key l).length_eq

@[simp] theorem mem_sortBy {l : List α} {a : α} : a ∈ sortBy key l ↔ a ∈ l :=
  (perm_sortBy key l).mem_iff

theorem pairwise_sortBy (l : List α) : (sortBy key l).Pairwise fun a b => key a ≤ key b :=
  List.pairwise_insertionSort _ l

variable {key} {l : List α} {ks : List κ}

/-- The keys of the sorted list are the sorted keys. -/
theorem map_sortBy (hperm : (l.map key).Perm ks) (hks : ks.Pairwise (· ≤ ·)) :
    (sortBy key l).map key = ks := by
  have hsorted : ((sortBy key l).map key).Pairwise (· ≤ ·) :=
    List.pairwise_map.2 (pairwise_sortBy key l)
  exact (((perm_sortBy key l).map key).trans hperm).eq_of_pairwise' hsorted hks

theorem getElem?_sortBy (hperm : (l.map key).Perm ks) (hks : ks.Pairwise (· < ·)) {i : Nat} {a : α}
    (ha : a ∈ l) (hi : ks[i]? = some (key a)) : (sortBy key l)[i]? = some a := by
  have hmap := map_sortBy hperm (hks.imp le_of_lt)
  have hnodup : (l.map key).Nodup := hperm.nodup_iff.2 (hks.imp ne_of_lt)
  rw [← hmap, List.getElem?_map] at hi
  cases hb : (sortBy key l)[i]? with
  | none =>
    rw [hb] at hi
    exact nomatch hi
  | some b =>
    rw [hb] at hi
    have hmem : b ∈ l := (mem_sortBy key).1 (List.mem_of_getElem? hb)
    rw [List.inj_on_of_nodup_map hnodup hmem ha (Option.some.inj hi)]

end SortBy

/-- A search finds the only element with the property. -/
theorem find?_unique {α : Type} {p : α → Bool} {l : List α} {a : α} (ha : a ∈ l) (hp : p a = true)
    (hall : ∀ b ∈ l, p b = true → b = a) : l.find? p = some a := by
  cases hf : l.find? p with
  | none => exact absurd hp (List.find?_eq_none.1 hf a ha)
  | some b => rw [hall b (List.mem_of_find?_eq_some hf) (List.find?_some hf)]

/-- In a numbered list, the key that a search finds is among the first `n` keys when the number of
the element is below `n`. -/
theorem mem_take_iff {α κ : Type} [DecidableEq κ] {key : α → κ} {num : α → Int} {l : List α} {k : κ}
    {a : α} (hfind : l.find? (fun x => key x = k) = some a)
    (hnum : l.map num = (List.range l.length).map Int.ofNat) (n : Nat) :
    k ∈ (l.map key).take n ↔ num a < n := by
  have hnumber : ∀ (i : Nat) (h : i < l.length), num l[i] = i := by
    intro i h
    have hget : (l.map num)[i]? = some (num l[i]) := by
      rw [List.getElem?_map, List.getElem?_eq_getElem h]
      rfl
    rw [hnum, List.getElem?_map, List.getElem?_range h] at hget
    exact (Option.some.inj hget).symm
  obtain ⟨hkey, i, hi, hget, hbefore⟩ := List.find?_eq_some_iff_getElem.1 hfind
  have hk : key a = k := by simpa using hkey
  rw [← hget, hnumber i hi, List.mem_take_iff_getElem]
  constructor
  · intro h
    obtain ⟨j, hj, hjk⟩ := h
    rw [List.length_map] at hj
    have hle : i ≤ j := by
      by_contra hlt
      have hno := hbefore j (by omega)
      rw [List.getElem_map] at hjk
      simp [hjk] at hno
    omega
  · intro h
    refine ⟨i, ?_, ?_⟩
    · rw [List.length_map]
      omega
    · rw [List.getElem_map, hget, hk]

end Rvzr.Lib
