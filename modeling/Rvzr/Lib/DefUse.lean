import Mathlib.Data.List.Basic

/-!
# Definitions and uses along a sequence

The items of a sequence read facts, write them or leave them undefined. A sequence is safe if the
last item before a read that mentions the fact writes it. Seen from the end, the facts that are
needed before an item are computed from those needed behind it; a sequence is safe exactly when
nothing is needed at its start and no item leaves undefined what is needed behind it
(`readsDefined_iff`).
-/

namespace Rvzr.Lib

/-- What the items of a sequence do with the facts; an item that leaves a fact undefined does not
write it. -/
structure Effects (ι φ : Type) where
  reads : ι → φ → Prop
  writes : ι → φ → Prop
  undefs : ι → φ → Prop
  disjoint : ∀ i f, undefs i f → ¬ writes i f

namespace Effects

variable {ι φ : Type} (e : Effects ι φ)

/-- The last item of `pre` that mentions `f` as written or undefined writes it. -/
def LastWrites (pre : List ι) (f : φ) : Prop :=
  ∃ a i b, pre = a ++ i :: b ∧ e.writes i f ∧ ∀ j ∈ b, ¬ e.writes j f ∧ ¬ e.undefs j f

/-- Every fact that is read is written by the last item before that mentions it. -/
def ReadsDefined (seq : List ι) : Prop :=
  ∀ pre i post, seq = pre ++ i :: post → ∀ f, e.reads i f → e.LastWrites pre f

/-- The facts needed before a sequence, when `out` is needed behind it. -/
def needs (out : φ → Prop) : List ι → φ → Prop
  | [], f => out f
  | i :: rest, f => e.reads i f ∨ (¬ e.writes i f ∧ needs out rest f)

/-- No item leaves undefined what is needed behind it. -/
def Clean (out : φ → Prop) : List ι → Prop
  | [] => True
  | i :: rest => (∀ f, e.undefs i f → ¬ e.needs out rest f) ∧ Clean out rest

variable {e} {out : φ → Prop}

theorem needs_append (a b : List ι) : e.needs out (a ++ b) = e.needs (e.needs out b) a := by
  induction a with
  | nil => rfl
  | cons i a ih =>
    funext f
    rw [List.cons_append, needs, needs, ih]

theorem clean_append {a b : List ι} :
    e.Clean out (a ++ b) ↔ e.Clean (e.needs out b) a ∧ e.Clean out b := by
  induction a with
  | nil => simp [Clean]
  | cons i a ih => rw [List.cons_append, Clean, Clean, ih, needs_append, and_assoc]

/-- Items that do nothing with facts that are needed. -/
theorem needs_of_idle {a : List ι} (h : ∀ i ∈ a, ∀ f, ¬ e.reads i f ∧ ¬ e.writes i f) (f : φ) :
    e.needs out a f ↔ out f := by
  induction a with
  | nil => rfl
  | cons i a ih =>
    have hi := h i List.mem_cons_self f
    rw [needs, ih fun j hj => h j (List.mem_cons_of_mem _ hj)]
    simp [hi.1, hi.2]

theorem clean_of_idle {a : List ι} (h : ∀ i ∈ a, ∀ f, ¬ e.undefs i f) : e.Clean out a := by
  induction a with
  | nil => trivial
  | cons i a ih =>
    exact ⟨fun f hf => absurd hf (h i List.mem_cons_self f),
      ih fun j hj => h j (List.mem_cons_of_mem _ hj)⟩

theorem lastWrites_nil (f : φ) : ¬ e.LastWrites [] f := by
  rintro ⟨a, i, b, h, -⟩
  simp at h

theorem lastWrites_concat {pre : List ι} {i : ι} {f : φ} :
    e.LastWrites (pre ++ [i]) f ↔ e.writes i f ∨ (e.LastWrites pre f ∧ ¬ e.undefs i f) := by
  constructor
  · rintro ⟨a, j, b, h, hj, hb⟩
    rcases List.eq_nil_or_concat b with rfl | ⟨b, k, rfl⟩
    · obtain ⟨-, hij⟩ := List.append_inj' h rfl
      rw [(List.cons.inj hij).1]
      exact Or.inl hj
    · rw [List.concat_eq_append, ← List.cons_append, ← List.append_assoc] at h
      obtain ⟨hpre, hik⟩ := List.append_inj' h rfl
      obtain rfl := (List.cons.inj hik).1
      have hk := hb i (by simp)
      exact Or.inr ⟨⟨a, j, b, hpre, hj, fun l hl => hb l (by simp [hl])⟩, hk.2⟩
  · rintro (hi | ⟨⟨a, j, b, rfl, hj, hb⟩, hi⟩)
    · exact ⟨pre, i, [], rfl, hi, by simp⟩
    · by_cases hw : e.writes i f
      · exact ⟨a ++ j :: b, i, [], rfl, hw, by simp⟩
      · refine ⟨a, j, b ++ [i], by simp, hj, fun k hk => ?_⟩
        rcases List.mem_append.mp hk with hk | hk
        · exact hb k hk
        · rw [List.mem_singleton.mp hk]
          exact ⟨hw, hi⟩

/-- The reads of `post` are defined when it runs behind `pre`. -/
theorem readsDefined_behind_iff (pre post : List ι) :
    (∀ mid i rest, post = mid ++ i :: rest → ∀ f, e.reads i f → e.LastWrites (pre ++ mid) f) ↔
      (∀ f, e.needs (fun _ => False) post f → e.LastWrites pre f) ∧
        e.Clean (fun _ => False) post := by
  induction post generalizing pre with
  | nil => simp [needs, Clean]
  | cons i post ih =>
    have hcons : (∀ mid j rest, i :: post = mid ++ j :: rest →
          ∀ f, e.reads j f → e.LastWrites (pre ++ mid) f) ↔
        (∀ f, e.reads i f → e.LastWrites pre f) ∧
          ∀ mid j rest, post = mid ++ j :: rest →
            ∀ f, e.reads j f → e.LastWrites (pre ++ [i] ++ mid) f := by
      constructor
      · intro h
        refine ⟨fun f hf => by simpa using h [] i post rfl f hf, ?_⟩
        rintro mid j rest rfl f hf
        simpa using h (i :: mid) j rest rfl f hf
      · rintro ⟨hi, hrest⟩ mid j rest h f hf
        cases mid with
        | nil =>
          obtain ⟨rfl, rfl⟩ := List.cons.inj h
          simpa using hi f hf
        | cons k mid =>
          obtain ⟨rfl, rfl⟩ := List.cons.inj h
          simpa using hrest mid j rest rfl f hf
    rw [hcons, ih]
    constructor
    · rintro ⟨hi, hneeds, hclean⟩
      refine ⟨?_, ?_, hclean⟩
      · rintro f (hf | ⟨hw, hf⟩)
        · exact hi f hf
        · exact ((lastWrites_concat.mp (hneeds f hf)).resolve_left hw).1
      · intro f hu hf
        rcases lastWrites_concat.mp (hneeds f hf) with hw | ⟨-, hu'⟩
        · exact e.disjoint i f hu hw
        · exact hu' hu
    · rintro ⟨hneeds, hundef, hclean⟩
      refine ⟨fun f hf => hneeds f (Or.inl hf), fun f hf => ?_, hclean⟩
      refine lastWrites_concat.mpr ?_
      by_cases hw : e.writes i f
      · exact Or.inl hw
      · exact Or.inr ⟨hneeds f (Or.inr ⟨hw, hf⟩), fun hu => hundef f hu hf⟩

theorem readsDefined_iff {seq : List ι} : e.ReadsDefined seq ↔
    (∀ f, ¬ e.needs (fun _ => False) seq f) ∧ e.Clean (fun _ => False) seq := by
  have h := readsDefined_behind_iff (e := e) [] seq
  simp only [List.nil_append, lastWrites_nil, imp_false] at h
  exact h

end Effects

end Rvzr.Lib
