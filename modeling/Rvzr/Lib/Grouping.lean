import Mathlib.Data.List.Basic
import Mathlib.Data.List.Nodup

/-!
# Grouping a list

Two ways of splitting a list into groups, both in the order in which the groups are first
met. `groupByKey` uses an insertion-ordered dictionary and a key. `greedyGroups` uses a
Boolean relation that need not be an equivalence: an element joins the first group whose
*representative* (the element that opened the group) it is related to, and opens a new group
otherwise. The relation is only ever evaluated against representatives, which is what
`two_le_greedyGroups` makes precise.
-/

namespace Rvzr.Lib

variable {κ ν α : Type}

/-- An insertion-ordered dictionary: a list of entries with the oldest key first. -/
abbrev Dict (κ ν : Type) := List (κ × ν)

namespace Dict

variable [DecidableEq κ]

/-- `k in d`. -/
def contains (d : Dict κ ν) (k : κ) : Bool := d.any fun e => e.1 = k

/-- `d[k] = v`: an existing key keeps its position, a new one goes to the end. -/
def insert (d : Dict κ ν) (k : κ) (v : ν) : Dict κ ν :=
  if d.contains k then d.map fun e => if e.1 = k then (k, v) else e else d ++ [(k, v)]

/-- `d[k].append(x)` on a dictionary of lists. -/
def push (d : Dict κ (List ν)) (k : κ) (x : ν) : Dict κ (List ν) :=
  d.map fun e => if e.1 = k then (e.1, e.2 ++ [x]) else e

/-- `d.values()`. -/
def values (d : Dict κ ν) : List ν := d.map Prod.snd

/-- `d.get(k)`. -/
def get? (d : Dict κ ν) (k : κ) : Option ν := (d.find? fun e => e.1 = k).map Prod.snd

@[simp] theorem contains_iff {d : Dict κ ν} {k : κ} :
    d.contains k = true ↔ k ∈ d.map Prod.fst := by
  simp [contains]

theorem insert_of_notMem {d : Dict κ ν} {k : κ} (v : ν) (h : k ∉ d.map Prod.fst) :
    d.insert k v = d ++ [(k, v)] := by
  have : ¬ d.contains k = true := fun hc => h (contains_iff.mp hc)
  simp [insert, this]

/-- What a dictionary holds under a key after an assignment. -/
theorem find?_insert (d : Dict κ ν) (k k' : κ) (v : ν) :
    (d.insert k v).find? (fun e => e.1 = k') =
      if k = k' then some (k, v) else d.find? fun e => e.1 = k' := by
  by_cases hmem : k ∈ d.map Prod.fst
  · have hinsert : d.insert k v = d.map fun e => if e.1 = k then (k, v) else e := by
      simp [insert, contains_iff.mpr hmem]
    have hkeys : ((fun e : κ × ν => decide (e.1 = k')) ∘ fun e => if e.1 = k then (k, v) else e) =
        fun e => decide (e.1 = k') := by
      funext e
      by_cases he : e.1 = k
      · simp [he]
      · simp [he]
    rw [hinsert, List.find?_map, hkeys]
    cases hf : d.find? fun e => e.1 = k' with
    | none =>
      have hk : k ≠ k' := by
        intro heq
        obtain ⟨e, he, hek⟩ := List.mem_map.mp hmem
        have hno := List.find?_eq_none.mp hf e he
        simp [hek, heq] at hno
      simp [hk]
    | some e =>
      have he : e.1 = k' := by simpa using List.find?_some hf
      by_cases hk : k = k'
      · simp [he, hk]
      · have hne : k' ≠ k := fun heq => hk heq.symm
        simp [he, hk, hne]
  · rw [insert_of_notMem v hmem, List.find?_append]
    by_cases hk : k = k'
    · have hnone : d.find? (fun e => e.1 = k') = none := by
        rw [List.find?_eq_none]
        intro e he heq
        have hek : e.1 = k' := by simpa using heq
        exact hmem (hk ▸ hek ▸ List.mem_map_of_mem he)
      rw [hnone]
      simp [hk]
    · simp [hk]

theorem insert_keys_of_mem {d : Dict κ ν} {k : κ} (v : ν) (h : k ∈ d.map Prod.fst) :
    (d.insert k v).map Prod.fst = d.map Prod.fst := by
  rw [insert, if_pos (contains_iff.mpr h), List.map_map]
  apply List.map_congr_left
  intro e _
  by_cases he : e.1 = k <;> simp [he]

theorem mem_insert {d : Dict κ ν} {k : κ} {v : ν} {e : κ × ν} (h : e ∈ d.insert k v) :
    e ∈ d ∨ e = (k, v) := by
  by_cases hk : k ∈ d.map Prod.fst
  · rw [insert, if_pos (contains_iff.mpr hk), List.mem_map] at h
    rcases h with ⟨e', he', rfl⟩
    by_cases heq : e'.1 = k <;> simp [heq, he']
  · rw [insert_of_notMem v hk, List.mem_append, List.mem_singleton] at h
    exact h

theorem nodup_insert {d : Dict κ ν} (h : (d.map Prod.fst).Nodup) (k : κ) (v : ν) :
    ((d.insert k v).map Prod.fst).Nodup := by
  by_cases hk : k ∈ d.map Prod.fst
  · rw [insert_keys_of_mem v hk]
    exact h
  · rw [insert_of_notMem v hk, List.map_append]
    refine List.nodup_append.mpr ⟨h, List.nodup_singleton _, ?_⟩
    rintro a ha b hb rfl
    rw [List.map_singleton, List.mem_singleton] at hb
    rw [hb] at ha
    exact hk ha

theorem insert_cons_self (d : Dict κ ν) (k : κ) (v v' : ν) :
    insert ((k, v) :: d) k v' = (k, v') :: d.map fun e => if e.1 = k then (k, v') else e := by
  simp [insert, contains]

theorem insert_cons_of_ne (d : Dict κ ν) {e : κ × ν} {k : κ} (v : ν) (h : e.1 ≠ k) :
    insert (e :: d) k v = e :: d.insert k v := by
  by_cases hk : k ∈ d.map Prod.fst
  · have hc := contains_iff.mpr hk
    have hc' : contains (e :: d) k = true := contains_iff.mpr (List.mem_cons_of_mem _ hk)
    rw [insert, if_pos hc', insert, if_pos hc, List.map_cons, if_neg h]
  · have hk' : k ∉ (e :: d).map Prod.fst := by
      rw [List.map_cons, List.mem_cons, not_or]
      exact ⟨fun heq => h heq.symm, hk⟩
    rw [insert_of_notMem v hk', insert_of_notMem v hk, List.cons_append]

theorem get?_of_mem {d : Dict κ ν} (hnodup : (d.map Prod.fst).Nodup) {e : κ × ν} (h : e ∈ d) :
    d.get? e.1 = some e.2 := by
  rw [get?]
  cases hf : d.find? fun e' => e'.1 = e.1 with
  | none => simpa using List.find?_eq_none.mp hf e h
  | some e' =>
    have hkey : e'.1 = e.1 := by simpa using List.find?_some hf
    rw [List.inj_on_of_nodup_map hnodup (List.mem_of_find?_eq_some hf) h hkey, Option.map_some]

theorem mem_of_get? {d : Dict κ ν} {k : κ} {v : ν} (h : d.get? k = some v) : (k, v) ∈ d := by
  rcases Option.map_eq_some_iff.mp h with ⟨e, he, rfl⟩
  have hkey : e.1 = k := by simpa using List.find?_some he
  rw [← hkey]
  exact List.mem_of_find?_eq_some he

@[simp] theorem push_keys (d : Dict κ (List ν)) (k : κ) (x : ν) :
    (d.push k x).map Prod.fst = d.map Prod.fst := by
  unfold push
  rw [List.map_map]
  apply List.map_congr_left
  intro e _
  by_cases he : e.1 = k <;> simp [he]

end Dict

section ByKey

variable [DecidableEq κ] (key : α → κ)

/-- One step of grouping by key: append to the group of `key x`, or open it. -/
def groupByKeyStep (d : Dict κ (List α)) (x : α) : Dict κ (List α) :=
  if d.contains (key x) then d.push (key x) x else d.insert (key x) [x]

/-- The groups of `l` under `key`. -/
def groupByKey (l : List α) : Dict κ (List α) := l.foldl (groupByKeyStep key) []

/-- What the dictionary holds after the elements of `l`: every key of `l`, with the
elements of that key in their order. -/
def GroupsOf (l : List α) (d : Dict κ (List α)) : Prop :=
  ∀ k ms, (k, ms) ∈ d ↔ k ∈ l.map key ∧ ms = l.filter fun x => key x = k

theorem GroupsOf.keys {l : List α} {d : Dict κ (List α)} (h : GroupsOf key l d) (k : κ) :
    k ∈ d.map Prod.fst ↔ k ∈ l.map key := by
  constructor
  · intro hk
    obtain ⟨⟨k', ms⟩, hm, rfl⟩ := List.mem_map.mp hk
    exact ((h k' ms).mp hm).1
  · intro hk
    exact List.mem_map.mpr ⟨(k, _), (h k _).mpr ⟨hk, rfl⟩, rfl⟩

theorem GroupsOf.step {l : List α} {d : Dict κ (List α)} (h : GroupsOf key l d) (x : α) :
    GroupsOf key (l ++ [x]) (groupByKeyStep key d x) := by
  intro k ms
  by_cases hx : key x ∈ d.map Prod.fst
  · have hstep : groupByKeyStep key d x = d.push (key x) x := by
      simp only [groupByKeyStep, Dict.contains_iff.mpr hx, if_true]
    have hxl : key x ∈ l.map key := (h.keys key _).mp hx
    rw [hstep]
    constructor
    · intro hm
      obtain ⟨⟨k', ms'⟩, hd, he⟩ := List.mem_map.mp hm
      obtain ⟨hk', rfl⟩ := (h k' ms').mp hd
      by_cases hk : k' = key x
      · subst hk
        simp only [if_true, Prod.mk.injEq] at he
        obtain ⟨rfl, rfl⟩ := he
        simp
      · simp only [hk, if_false, Prod.mk.injEq] at he
        obtain ⟨rfl, rfl⟩ := he
        refine ⟨by simpa using Or.inl (by simpa using hk'), ?_⟩
        simp [List.filter_append, Ne.symm hk]
    · rintro ⟨hk, rfl⟩
      refine List.mem_map.mpr ⟨(k, l.filter fun y => key y = k), (h k _).mpr ⟨?_, rfl⟩, ?_⟩
      · rw [List.map_append, List.mem_append] at hk
        rcases hk with hk | hk
        · exact hk
        · have : k = key x := by simpa using hk
          rwa [this]
      · by_cases hkx : k = key x
        · subst hkx; simp [List.filter_append]
        · simp [hkx, List.filter_append, Ne.symm hkx]
  · have hnc : ¬ d.contains (key x) = true := fun hc => hx (Dict.contains_iff.mp hc)
    have hstep : groupByKeyStep key d x = d ++ [(key x, [x])] := by
      simp only [groupByKeyStep, if_neg hnc, Dict.insert_of_notMem _ hx]
    have hxl : key x ∉ l.map key := fun hm => hx ((h.keys key _).mpr hm)
    have hnone : (l.filter fun y => key y = key x) = [] := by
      rw [List.filter_eq_nil_iff]
      intro y hy he
      exact hxl (List.mem_map.mpr ⟨y, hy, by simpa using he⟩)
    rw [hstep, List.mem_append]
    constructor
    · rintro (hm | hm)
      · obtain ⟨hk, rfl⟩ := (h k ms).mp hm
        have hkx : key x ≠ k := fun he => hxl (he ▸ hk)
        refine ⟨by rw [List.map_append, List.mem_append]; exact Or.inl hk, ?_⟩
        simp [List.filter_append, hkx]
      · have : k = key x ∧ ms = [x] := by simpa using hm
        obtain ⟨rfl, rfl⟩ := this
        simp [List.filter_append, hnone]
    · rintro ⟨hk, rfl⟩
      by_cases hkx : k = key x
      · subst hkx
        right
        simp [List.filter_append, hnone]
      · left
        refine (h k _).mpr ⟨?_, ?_⟩
        · rw [List.map_append, List.mem_append] at hk
          rcases hk with hk | hk
          · exact hk
          · exact absurd (by simpa using hk) hkx
        · simp [List.filter_append, Ne.symm hkx]

/-- The groups of a list hold, for every key that occurs, the elements with that key. -/
theorem groupByKey_groupsOf (l : List α) : GroupsOf key l (groupByKey key l) := by
  suffices h : ∀ (xs done : List α) (d : Dict κ (List α)), GroupsOf key done d →
      GroupsOf key (done ++ xs) (xs.foldl (groupByKeyStep key) d) by
    have hl := h l [] [] (by intro k ms; simp)
    simpa [groupByKey] using hl
  intro xs
  induction xs with
  | nil => intro done d h; simpa using h
  | cons x xs ih =>
    intro done d h
    have := ih (done ++ [x]) _ (h.step key x)
    simpa using this

end ByKey

section Greedy

variable (rel : α → α → Bool)

/-- A group of the greedy split: its representative and its members. -/
structure Cluster (α : Type) where
  rep : α
  members : List α
  deriving DecidableEq

/-- Add `x` to the first group whose representative it is related to; open one if there is
none. -/
def greedyStep : List (Cluster α) → α → List (Cluster α)
  | [], x => [⟨x, [x]⟩]
  | g :: gs, x =>
    if rel x g.rep then ⟨g.rep, g.members ++ [x]⟩ :: gs else g :: greedyStep gs x

/-- The greedy split of `l`. -/
def greedyGroups (l : List α) : List (Cluster α) := l.foldl (greedyStep rel) []

/-- A step keeps the representatives when some representative is related to `x`. -/
theorem greedyStep_reps_of_related {gs : List (Cluster α)} {x : α}
    (h : ∃ g ∈ gs, rel x g.rep = true) :
    (greedyStep rel gs x).map Cluster.rep = gs.map Cluster.rep := by
  induction gs with
  | nil => simp at h
  | cons g gs ih =>
    unfold greedyStep
    by_cases hg : rel x g.rep = true
    · simp [hg]
    · have : ∃ g' ∈ gs, rel x g'.rep = true := by
        obtain ⟨g', hm, hr⟩ := h
        rcases List.mem_cons.mp hm with rfl | hm
        · exact absurd hr hg
        · exact ⟨g', hm, hr⟩
      simp [hg, ih this]

/-- A step opens a group at the end when no representative is related to `x`. -/
theorem greedyStep_of_unrelated {gs : List (Cluster α)} {x : α}
    (h : ∀ g ∈ gs, rel x g.rep = false) : greedyStep rel gs x = gs ++ [⟨x, [x]⟩] := by
  induction gs with
  | nil => rfl
  | cons g gs ih =>
    unfold greedyStep
    rw [if_neg (by simp [h g (by simp)]), ih fun g' hg' => h g' (List.mem_cons_of_mem _ hg')]
    rfl

/-- A later representative was not related to an earlier one when its group was opened. -/
theorem greedyStep_pairwise {gs : List (Cluster α)} (x : α)
    (h : (gs.map Cluster.rep).Pairwise fun a b => rel b a = false) :
    ((greedyStep rel gs x).map Cluster.rep).Pairwise fun a b => rel b a = false := by
  by_cases hx : ∃ g ∈ gs, rel x g.rep = true
  · rwa [greedyStep_reps_of_related rel hx]
  · have hx' : ∀ g ∈ gs, rel x g.rep = false := by
      intro g hg
      by_contra hne
      exact hx ⟨g, hg, by simpa using hne⟩
    rw [greedyStep_of_unrelated rel hx', List.map_append, List.pairwise_append]
    refine ⟨h, by simp, ?_⟩
    intro a ha b hb
    obtain ⟨g, hg, rfl⟩ := List.mem_map.mp ha
    have : b = x := by simpa using hb
    rw [this]
    exact hx' g hg

/-- A group after a step is an old one, an old one whose representative is related to `x` with `x`
at the end, or the group that `x` opens. -/
theorem greedyStep_mem {gs : List (Cluster α)} {x : α} {g : Cluster α}
    (hg : g ∈ greedyStep rel gs x) :
    g ∈ gs ∨ (∃ g' ∈ gs, rel x g'.rep = true ∧ g = ⟨g'.rep, g'.members ++ [x]⟩) ∨
      g = ⟨x, [x]⟩ := by
  induction gs with
  | nil => right; right; simpa [greedyStep] using hg
  | cons g' gs ih =>
    unfold greedyStep at hg
    split at hg
    · rename_i hrel
      rcases List.mem_cons.mp hg with rfl | hg
      · exact Or.inr (Or.inl ⟨g', by simp, hrel, rfl⟩)
      · exact Or.inl (List.mem_cons_of_mem _ hg)
    · rcases List.mem_cons.mp hg with rfl | hg
      · exact Or.inl (by simp)
      · rcases ih hg with h | ⟨g'', h, e⟩ | h
        · exact Or.inl (List.mem_cons_of_mem _ h)
        · exact Or.inr (Or.inl ⟨g'', List.mem_cons_of_mem _ h, e⟩)
        · exact Or.inr (Or.inr h)

/-- The representatives come from the list, and the first element opens the first group. -/
theorem greedyStep_head {gs : List (Cluster α)} {r : α} (x : α)
    (h : (gs.map Cluster.rep).head? = some r) :
    ((greedyStep rel gs x).map Cluster.rep).head? = some r := by
  cases gs with
  | nil => simp at h
  | cons g gs =>
    have hr : g.rep = r := by simpa using h
    subst hr
    unfold greedyStep
    by_cases hg : rel x g.rep = true <;> simp [hg]

/-- While only the first element's group is open, a step opens a second group exactly for an
element that is not related to it. Once two groups are open there are two for good. -/
theorem two_le_greedyStep {gs : List (Cluster α)} {r : α} (x : α)
    (h : (gs.map Cluster.rep).head? = some r) :
    2 ≤ (greedyStep rel gs x).length ↔ 2 ≤ gs.length ∨ rel x r = false := by
  cases gs with
  | nil => simp at h
  | cons g gs =>
    have hr : g.rep = r := by simpa using h
    subst hr
    unfold greedyStep
    by_cases hg : rel x g.rep = true
    · simp [hg]
    · have hlen : 1 ≤ (greedyStep rel gs x).length := by
        cases gs with
        | nil => simp [greedyStep]
        | cons g' gs' => unfold greedyStep; split <;> simp
      simp only [Bool.not_eq_true] at hg
      simp [hg, hlen]

/-- A greedy split has two groups or more exactly when some element is not related to the
first one: pairs of elements that leave the first one out are never compared for it. -/
theorem two_le_greedyGroups {x : α} (xs : List α) (hx : rel x x = true) :
    2 ≤ (greedyGroups rel (x :: xs)).length ↔ ∃ y ∈ x :: xs, rel y x = false := by
  suffices h : ∀ (ys : List α) (gs : List (Cluster α)), (gs.map Cluster.rep).head? = some x →
      (2 ≤ (ys.foldl (greedyStep rel) gs).length ↔ 2 ≤ gs.length ∨ ∃ y ∈ ys, rel y x = false) by
    have := h xs [⟨x, [x]⟩] (by simp)
    simpa [greedyGroups, greedyStep, hx] using this
  intro ys
  induction ys with
  | nil => intro gs _; simp
  | cons y ys ih =>
    intro gs hgs
    rw [List.foldl_cons, ih _ (greedyStep_head rel y hgs), two_le_greedyStep rel y hgs]
    simp [or_assoc]

end Greedy

end Rvzr.Lib
