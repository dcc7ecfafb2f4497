import Mathlib.Data.List.GetD
import Rvzr.Lib.Grouping

/-!
# Groups as an ordered partition

Both ways of grouping a list put every position of the list into one group and keep the order
inside a group (`OrderedPartition`). Grouping by a key is the greedy split by equality of keys
(`groupByKey_eq_greedyGroups`), so the greedy split is the only one to be looked at.
-/

namespace Rvzr.Lib

variable {κ α : Type}

/-- The elements of `l` at the positions that `part` sends to `k`, in their order. -/
def atPart (part : Nat → Nat) (k : Nat) (l : List α) : List α :=
  (l.zipIdx.filter fun e => part e.2 = k).map Prod.fst

/-- Every position of `l` belongs to one of `parts`, and each part lists its positions in order. -/
def OrderedPartition (parts : List (List α)) (l : List α) : Prop :=
  ∃ part : Nat → Nat, (∀ i < l.length, part i < parts.length) ∧
    ∀ k, parts.getD k [] = atPart part k l

theorem OrderedPartition.nil : OrderedPartition ([] : List (List α)) [] :=
  ⟨id, by simp, by simp [atPart]⟩

/-- The part of the next position is free, the parts of the earlier ones stay. -/
theorem atPart_append (part : Nat → Nat) (j k : Nat) (l : List α) (x : α) :
    atPart (fun i => if i = l.length then j else part i) k (l ++ [x]) =
      atPart part k l ++ if j = k then [x] else [] := by
  have hold : (l.zipIdx.filter fun e => (if e.2 = l.length then j else part e.2) = k) =
      l.zipIdx.filter fun e => part e.2 = k := by
    refine List.filter_congr fun e he => ?_
    have hlt : e.2 < l.length := by simpa using List.snd_lt_of_mem_zipIdx he
    rw [if_neg (Nat.ne_of_lt hlt)]
  rw [atPart, atPart, List.zipIdx_append, List.filter_append, List.map_append, hold]
  by_cases hjk : j = k <;> simp [hjk]

/-- Adding `x` to one part, old or new, keeps the partition. -/
theorem OrderedPartition.append {parts parts' : List (List α)} {l : List α} {x : α} {j : Nat}
    (h : OrderedPartition parts l) (hlen : parts.length ≤ parts'.length) (hj : j < parts'.length)
    (hparts : ∀ k, parts'.getD k [] = parts.getD k [] ++ if j = k then [x] else []) :
    OrderedPartition parts' (l ++ [x]) := by
  obtain ⟨part, hlt, hpart⟩ := h
  refine ⟨fun i => if i = l.length then j else part i, ?_, ?_⟩
  · intro i hi
    have hi' : i < l.length + 1 := by simpa using hi
    dsimp only
    split
    · exact hj
    · exact Nat.lt_of_lt_of_le (hlt i (by omega)) hlen
  · intro k
    rw [hparts, hpart, atPart_append]

/-- The parts hold elements of the list only. -/
theorem OrderedPartition.mem {parts : List (List α)} {l : List α} (h : OrderedPartition parts l)
    {p : List α} (hp : p ∈ parts) {x : α} (hx : x ∈ p) : x ∈ l := by
  obtain ⟨part, -, hpart⟩ := h
  obtain ⟨k, hk, rfl⟩ := List.getElem_of_mem hp
  have hat := hpart k
  rw [List.getD_eq_getElem _ _ hk] at hat
  rw [hat, atPart] at hx
  obtain ⟨e, he, rfl⟩ := List.mem_map.1 hx
  exact List.fst_mem_of_mem_zipIdx (List.mem_filter.1 he).1

theorem mem_atPart {part : Nat → Nat} {k : Nat} {l : List α} {x : α} :
    x ∈ atPart part k l ↔ ∃ i, l[i]? = some x ∧ part i = k := by
  unfold atPart
  rw [List.mem_map]
  constructor
  · rintro ⟨e, he, rfl⟩
    obtain ⟨hmem, hpart⟩ := List.mem_filter.1 he
    exact ⟨e.2, List.mem_zipIdx_iff_getElem?.1 hmem, of_decide_eq_true hpart⟩
  · rintro ⟨i, hi, hpart⟩
    exact ⟨(x, i), List.mem_filter.2
      ⟨List.mk_mem_zipIdx_iff_getElem?.2 hi, decide_eq_true hpart⟩, rfl⟩

/-- An element that the list holds once is in one part. -/
theorem OrderedPartition.part_unique {β : Type} {f : α → β} {parts : List (List α)} {l : List α}
    (h : OrderedPartition parts l) (hnodup : (l.map f).Nodup) {j k : Nat} {p q : List α}
    (hp : parts[j]? = some p) (hq : parts[k]? = some q) {x y : α} (hx : x ∈ p) (hy : y ∈ q)
    (heq : f x = f y) : j = k := by
  obtain ⟨part, -, hpart⟩ := h
  have hat : ∀ {j : Nat} {p : List α} {x : α}, parts[j]? = some p → x ∈ p →
      ∃ i, l[i]? = some x ∧ part i = j := by
    intro j p x hp hx
    have hget := hpart j
    rw [List.getD, hp] at hget
    exact mem_atPart.1 (hget ▸ hx)
  obtain ⟨i, hi, rfl⟩ := hat hp hx
  obtain ⟨i', hi', rfl⟩ := hat hq hy
  have hlt : i < (l.map f).length := by
    rw [List.length_map]
    exact (List.getElem?_eq_some_iff.1 hi).1
  have hsame : (l.map f)[i]? = (l.map f)[i']? := by
    rw [List.getElem?_map, List.getElem?_map, hi, hi', Option.map_some, Option.map_some, heq]
  rw [(List.getElem?_inj hlt hnodup).1 hsame]

section Greedy

variable {rel : α → α → Bool}

variable (rel) in
/-- A step adds `x` to the members of one group. -/
theorem greedyStep_members (gs : List (Cluster α)) (x : α) :
    gs.length ≤ (greedyStep rel gs x).length ∧ ∃ j < (greedyStep rel gs x).length,
      ∀ k, ((greedyStep rel gs x).map Cluster.members).getD k [] =
        (gs.map Cluster.members).getD k [] ++ if j = k then [x] else [] := by
  induction gs with
  | nil =>
    refine ⟨by simp, 0, by simp [greedyStep], fun k => ?_⟩
    cases k <;> simp [greedyStep]
  | cons g gs ih =>
    obtain ⟨hlen, j, hj, hmembers⟩ := ih
    unfold greedyStep
    split
    · refine ⟨by simp, 0, by simp, fun k => ?_⟩
      cases k <;> simp
    · refine ⟨by simpa using hlen, j + 1, by simpa using hj, fun k => ?_⟩
      cases k with
      | zero => simp
      | succ k => simpa using hmembers k

variable (rel) in
/-- A step keeps the position of a group. -/
theorem greedyStep_getElem? {gs : List (Cluster α)} (x : α) {j : Nat} {g : Cluster α}
    (h : gs[j]? = some g) :
    ∃ g', (greedyStep rel gs x)[j]? = some g' ∧ ∀ y ∈ g.members, y ∈ g'.members := by
  induction gs generalizing j with
  | nil => cases h
  | cons g₀ gs ih =>
    unfold greedyStep
    split
    · cases j with
      | zero =>
        cases h
        exact ⟨_, rfl, fun y hy => List.mem_append_left _ hy⟩
      | succ j => exact ⟨g, h, fun y hy => hy⟩
    · cases j with
      | zero => exact ⟨g, h, fun y hy => hy⟩
      | succ j => exact ih h

variable (rel) in
theorem foldl_greedyStep_getElem? {gs : List (Cluster α)} (xs : List α) {j : Nat} {g : Cluster α}
    (h : gs[j]? = some g) :
    ∃ g', (xs.foldl (greedyStep rel) gs)[j]? = some g' ∧ ∀ y ∈ g.members, y ∈ g'.members := by
  induction xs generalizing gs g with
  | nil => exact ⟨g, h, fun y hy => hy⟩
  | cons x xs ih =>
    obtain ⟨g₁, h₁, hsub₁⟩ := greedyStep_getElem? rel x h
    obtain ⟨g₂, h₂, hsub₂⟩ := ih h₁
    exact ⟨g₂, h₂, fun y hy => hsub₂ y (hsub₁ y hy)⟩

variable (rel) in
/-- The first two elements share the first group when the second is related to the first, and open
the first two groups otherwise. -/
theorem greedyGroups_first_two (x y : α) (l : List α) :
    if rel y x = true then
      ∃ g, (greedyGroups rel (x :: y :: l))[0]? = some g ∧ x ∈ g.members ∧ y ∈ g.members
    else
      ∃ g g', (greedyGroups rel (x :: y :: l))[0]? = some g ∧
        (greedyGroups rel (x :: y :: l))[1]? = some g' ∧ x ∈ g.members ∧ y ∈ g'.members := by
  have hstart : greedyGroups rel (x :: y :: l) =
      l.foldl (greedyStep rel) (greedyStep rel [⟨x, [x]⟩] y) := rfl
  rw [hstart, greedyStep]
  split
  · obtain ⟨g, hg, hsub⟩ := foldl_greedyStep_getElem? rel l
      (show [(⟨x, [x] ++ [y]⟩ : Cluster α)][0]? = some ⟨x, [x] ++ [y]⟩ from rfl)
    exact ⟨g, hg, hsub x (by simp), hsub y (by simp)⟩
  · obtain ⟨g, hg, hsub⟩ := foldl_greedyStep_getElem? rel l
      (show [(⟨x, [x]⟩ : Cluster α), ⟨y, [y]⟩][0]? = some ⟨x, [x]⟩ from rfl)
    obtain ⟨g', hg', hsub'⟩ := foldl_greedyStep_getElem? rel l
      (show [(⟨x, [x]⟩ : Cluster α), ⟨y, [y]⟩][1]? = some ⟨y, [y]⟩ from rfl)
    exact ⟨g, g', hg, hg', hsub x (by simp), hsub' y (by simp)⟩

/-- What a greedy split of `l` is: its groups partition `l`, each opens with its representative,
all members are related to it, and no representative is related to an earlier one. -/
structure GreedySplit (rel : α → α → Bool) (l : List α) (gs : List (Cluster α)) : Prop where
  partition : OrderedPartition (gs.map Cluster.members) l
  reps : (gs.map Cluster.rep).Pairwise fun a b => rel b a = false
  head : ∀ g ∈ gs, ∃ rest, g.members = g.rep :: rest
  related : ∀ g ∈ gs, ∀ y ∈ g.members, rel y g.rep = true

theorem GreedySplit.step {l : List α} {gs : List (Cluster α)} (h : GreedySplit rel l gs) {x : α}
    (hx : rel x x = true) : GreedySplit rel (l ++ [x]) (greedyStep rel gs x) := by
  refine ⟨?_, greedyStep_pairwise rel x h.reps, ?_, ?_⟩
  · obtain ⟨hlen, j, hj, hmembers⟩ := greedyStep_members rel gs x
    exact h.partition.append (by simpa using hlen) (by simpa using hj) hmembers
  · intro g hg
    rcases greedyStep_mem rel hg with hg | ⟨g', hg', -, rfl⟩ | rfl
    · exact h.head g hg
    · obtain ⟨rest, hrest⟩ := h.head g' hg'
      exact ⟨rest ++ [x], by simp [hrest]⟩
    · exact ⟨[], rfl⟩
  · intro g hg y hy
    rcases greedyStep_mem rel hg with hg | ⟨g', hg', hrel, rfl⟩ | rfl
    · exact h.related g hg y hy
    · rcases List.mem_append.1 hy with hy | hy
      · exact h.related g' hg' y hy
      · rwa [List.mem_singleton.1 hy]
    · rwa [List.mem_singleton.1 hy]

theorem greedyGroups_split {l : List α} (hrefl : ∀ x ∈ l, rel x x = true) :
    GreedySplit rel l (greedyGroups rel l) := by
  suffices h : ∀ (xs done : List α) (gs : List (Cluster α)), (∀ x ∈ xs, rel x x = true) →
      GreedySplit rel done gs → GreedySplit rel (done ++ xs) (xs.foldl (greedyStep rel) gs) by
    exact h l [] [] hrefl ⟨OrderedPartition.nil, by simp, by simp, by simp⟩
  intro xs
  induction xs with
  | nil => intro done gs _ h; simpa using h
  | cons x xs ih =>
    intro done gs hxs h
    have := ih (done ++ [x]) _ (fun y hy => hxs y (by simp [hy])) (h.step (hxs x (by simp)))
    simpa using this

theorem GreedySplit.mem {l : List α} {gs : List (Cluster α)} (h : GreedySplit rel l gs)
    {g : Cluster α} (hg : g ∈ gs) {x : α} (hx : x ∈ g.members) : x ∈ l :=
  h.partition.mem (List.mem_map_of_mem hg) hx

theorem GreedySplit.rep_mem {l : List α} {gs : List (Cluster α)} (h : GreedySplit rel l gs)
    {g : Cluster α} (hg : g ∈ gs) : g.rep ∈ l := by
  obtain ⟨rest, hrest⟩ := h.head g hg
  exact h.mem hg (hrest ▸ List.mem_cons_self)

end Greedy

section ByKey

variable [DecidableEq κ] (key : α → κ)

/-- The dictionary of the groups `gs`. -/
def keyedGroups (gs : List (Cluster α)) : Dict κ (List α) := gs.map fun g => (key g.rep, g.members)

theorem groupByKeyStep_cons {e : κ × List α} {d : Dict κ (List α)} {x : α} (he : e.1 ≠ key x) :
    groupByKeyStep key (e :: d) x = e :: groupByKeyStep key d x := by
  by_cases hd : d.contains (key x) = true
  · have hcons : Dict.contains (e :: d) (key x) = true := by
      simpa [Dict.contains, he] using hd
    rw [groupByKeyStep, groupByKeyStep, if_pos hd, if_pos hcons]
    simp [Dict.push, he]
  · have hcons : ¬Dict.contains (e :: d) (key x) = true := by
      simpa [Dict.contains, he] using hd
    rw [groupByKeyStep, groupByKeyStep, if_neg hd, if_neg hcons, Dict.insert, Dict.insert,
      if_neg hd, if_neg hcons, List.cons_append]

/-- As long as the keys differ, a step on the dictionary is a greedy step. -/
theorem groupByKeyStep_keyedGroups {gs : List (Cluster α)} {x : α}
    (hne : gs.Pairwise fun a b => key a.rep ≠ key b.rep) :
    groupByKeyStep key (keyedGroups key gs) x =
      keyedGroups key (greedyStep (fun y z => decide (key y = key z)) gs x) := by
  induction gs with
  | nil => rfl
  | cons g gs ih =>
    rw [List.pairwise_cons] at hne
    have ih := ih hne.2
    by_cases hg : key x = key g.rep
    · have htail : (keyedGroups key gs).map
          (fun e => if e.1 = key g.rep then (e.1, e.2 ++ [x]) else e) = keyedGroups key gs := by
        conv_rhs => rw [← List.map_id (keyedGroups key gs)]
        refine List.map_congr_left fun e he => ?_
        obtain ⟨g', hg', rfl⟩ := List.mem_map.mp he
        simp [(hne.1 g' hg').symm]
      simpa [groupByKeyStep, keyedGroups, greedyStep, Dict.contains, Dict.push, hg] using htail
    · have hskip := groupByKeyStep_cons key (e := (key g.rep, g.members))
        (d := keyedGroups key gs) fun h => hg h.symm
      simpa [keyedGroups, greedyStep, hg] using hskip.trans (congrArg _ ih)

/-- Grouping by a key is the greedy split by equality of keys. -/
theorem groupByKey_eq_greedyGroups (l : List α) :
    groupByKey key l = keyedGroups key (greedyGroups (fun y z => decide (key y = key z)) l) := by
  suffices h : ∀ (xs : List α) (gs : List (Cluster α)),
      (gs.map Cluster.rep).Pairwise (fun a b => decide (key b = key a) = false) →
      xs.foldl (groupByKeyStep key) (keyedGroups key gs) =
        keyedGroups key (xs.foldl (greedyStep fun y z => decide (key y = key z)) gs) by
    exact h l [] (by simp)
  intro xs
  induction xs with
  | nil => intro gs _; rfl
  | cons x xs ih =>
    intro gs hgs
    have hne : gs.Pairwise fun a b => key a.rep ≠ key b.rep := by
      refine (List.pairwise_map.1 hgs).imp ?_
      intro a b hab heq
      simp [heq] at hab
    rw [List.foldl_cons, List.foldl_cons, groupByKeyStep_keyedGroups key hne,
      ih _ (greedyStep_pairwise _ x hgs)]

end ByKey

end Rvzr.Lib
