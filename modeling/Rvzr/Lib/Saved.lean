import Mathlib.Logic.Function.Basic

/-!
# Saving and restoring the entries of a function

A record has a slot for each entry that may change. An entry is put back if its slot can be used.
-/

namespace Rvzr.Lib

section Saved

variable {σ κ β : Type} [DecidableEq κ]

/-- Each entry whose slot can be used gets the value in the slot. -/
def putBack (key : σ → κ) (usable : σ → Bool) (saved : σ → β) (slots : List σ) (m : κ → β) : κ → β :=
  slots.foldl (fun m s => if usable s then Function.update m (key s) (saved s) else m) m

variable {key : σ → κ} {usable : σ → Bool} {saved : σ → β} {slots : List σ} {m : κ → β}

/-- The entries of unusable slots, and those without a slot, stay. -/
theorem putBack_other {k : κ} (h : ∀ s ∈ slots, key s = k → usable s = false) :
    putBack key usable saved slots m k = m k := by
  unfold putBack
  induction slots generalizing m with
  | nil => rfl
  | cons s slots ih =>
    rw [List.foldl_cons, ih fun t ht => h t (List.mem_cons_of_mem s ht)]
    split
    · rename_i hs
      have hne : k ≠ key s := fun heq => by
        rw [h s List.mem_cons_self heq.symm] at hs
        cases hs
      rw [Function.update_of_ne hne]
    · rfl

/-- The entry of a usable slot is put back. -/
theorem putBack_slot (hkey : Function.Injective key) {s : σ} (hs : s ∈ slots)
    (husable : usable s = true) : putBack key usable saved slots m (key s) = saved s := by
  unfold putBack
  induction slots generalizing m with
  | nil => cases hs
  | cons t slots ih =>
    rw [List.foldl_cons]
    by_cases hmem : s ∈ slots
    · exact ih hmem
    · obtain rfl : s = t := (List.mem_cons.mp hs).resolve_right hmem
      have hother : putBack key usable saved slots (Function.update m (key s) (saved s)) (key s) =
          Function.update m (key s) (saved s) (key s) :=
        putBack_other fun t ht heq => absurd (hkey heq ▸ ht) hmem
      rw [if_pos husable]
      exact hother.trans (Function.update_self ..)

end Saved

end Rvzr.Lib
