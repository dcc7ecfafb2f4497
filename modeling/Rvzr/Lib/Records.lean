import Rvzr.Lib.Bytes

/-!
# Records of a fixed size in a byte stream

A `Record` has an encoding of a fixed length that its decoder inverts. A stream of records is cut
into chunks of that length; `readGroups` collects the records into groups, each of which ends at
the first record that a test accepts. `readGroups_encode` is the round trip.
-/

namespace Rvzr.Lib

/-- An encoding with its decoder; every encoding has `size` bytes. -/
structure Record (α : Type) where
  size : Nat
  encode : α → List UInt8
  decode : List UInt8 → Option α
  size_pos : 0 < size
  length_encode : ∀ a, (encode a).length = size
  decode_encode : ∀ a, decode (encode a) = some a

/-- The first `k` chunks of `n` elements. -/
def chunks {β : Type} (n : Nat) : Nat → List β → List (List β)
  | 0, _ => []
  | k + 1, bs => bs.take n :: chunks n k (bs.drop n)

/-- The complete chunks of `n` elements. -/
def completeChunks {β : Type} (n : Nat) (bs : List β) : List (List β) :=
  chunks n (bs.length / n) bs

/-- The last group is not ended, or a record is not valid. -/
inductive GroupError where
  | badRecord
  | unfinished
  deriving Repr, DecidableEq

variable {α : Type} (r : Record α) (isEnd : α → Bool)

/-- Decode chunk after chunk; `group` is what was read since the last end of a group. -/
def readGroups (group : List α) : List (List UInt8) → Except GroupError (List (List α))
  | [] => if group = [] then .ok [] else .error .unfinished
  | c :: cs =>
    match r.decode c with
    | none => .error .badRecord
    | some a =>
      if isEnd a then (readGroups [] cs).map fun gs => (group ++ [a]) :: gs
      else readGroups (group ++ [a]) cs

/-- The group is ended by its last record and by no other. -/
def EndsOnce (g : List α) : Prop := ∃ body last, g = body ++ [last] ∧
  (∀ a ∈ body, isEnd a = false) ∧ isEnd last = true

variable {r isEnd}

theorem chunks_flatMap {β γ : Type} {n : Nat} {f : γ → List β} (hlen : ∀ c, (f c).length = n)
    (cs : List γ) (rest : List β) : chunks n cs.length (cs.flatMap f ++ rest) = cs.map f := by
  induction cs with
  | nil => rfl
  | cons c cs ih =>
    have hc : (f c).length = n := hlen c
    rw [List.flatMap_cons, List.append_assoc, List.length_cons, chunks, List.map_cons]
    rw [List.take_append_of_le_length (Nat.le_of_eq hc.symm),
      List.take_of_length_le (Nat.le_of_eq hc), List.drop_append_of_le_length
      (Nat.le_of_eq hc.symm), List.drop_of_length_le (Nat.le_of_eq hc), List.nil_append, ih]

theorem length_flatMap_const {β γ : Type} {n : Nat} {f : γ → List β} (hlen : ∀ c, (f c).length = n)
    (cs : List γ) : (cs.flatMap f).length = n * cs.length := by
  induction cs with
  | nil => simp
  | cons c cs ih => rw [List.flatMap_cons, List.length_append, hlen, ih, List.length_cons,
      Nat.mul_succ, Nat.add_comm]

theorem completeChunks_flatMap {β γ : Type} {n : Nat} {f : γ → List β} (hn : 0 < n)
    (hlen : ∀ c, (f c).length = n) (cs : List γ) :
    completeChunks n (cs.flatMap f) = cs.map f := by
  have hdiv : (cs.flatMap f).length / n = cs.length := by
    rw [length_flatMap_const hlen, Nat.mul_div_cancel_left _ hn]
  have h := chunks_flatMap hlen cs []
  rw [List.append_nil] at h
  rw [completeChunks, hdiv, h]

theorem completeChunks_encode (as : List α) :
    completeChunks r.size (as.flatMap r.encode) = as.map r.encode :=
  completeChunks_flatMap r.size_pos r.length_encode as

/-- Reading the rest of a group ends it at its last record. -/
theorem readGroups_group (group body : List α) (last : α) (cs : List (List UInt8))
    (hbody : ∀ a ∈ body, isEnd a = false) (hlast : isEnd last = true) :
    readGroups r isEnd group ((body ++ [last]).map r.encode ++ cs) =
      (readGroups r isEnd [] cs).map fun gs => (group ++ body ++ [last]) :: gs := by
  induction body generalizing group with
  | nil => simp [readGroups, r.decode_encode, hlast]
  | cons a body ih =>
    have ha : isEnd a = false := hbody a List.mem_cons_self
    have hstep : readGroups r isEnd group ((a :: body ++ [last]).map r.encode ++ cs) =
        readGroups r isEnd (group ++ [a]) ((body ++ [last]).map r.encode ++ cs) := by
      rw [List.cons_append, List.map_cons, List.cons_append, readGroups, r.decode_encode]
      simp [ha]
    rw [hstep, ih (group ++ [a]) fun b hb => hbody b (List.mem_cons_of_mem _ hb)]
    simp

/-- Groups that are ended once each are read back as they were written. -/
theorem readGroups_encode {gs : List (List α)} (h : ∀ g ∈ gs, EndsOnce isEnd g) :
    readGroups r isEnd [] (gs.flatten.map r.encode) = .ok gs := by
  induction gs with
  | nil => rfl
  | cons g gs ih =>
    obtain ⟨body, last, hg, hbody, hlast⟩ := h g List.mem_cons_self
    rw [List.flatten_cons, hg, List.map_append, readGroups_group [] body last _ hbody hlast,
      ih fun g' hg' => h g' (List.mem_cons_of_mem _ hg')]
    rfl

/-! ### Streams that were not written by the encoder -/

theorem length_chunks {β : Type} (n k : Nat) (bs : List β) : (chunks n k bs).length = k := by
  induction k generalizing bs with
  | zero => rfl
  | succ k ih => rw [chunks, List.length_cons, ih]

theorem length_completeChunks {β : Type} (n : Nat) (bs : List β) :
    (completeChunks n bs).length = bs.length / n :=
  length_chunks n _ bs

theorem getLast?_chunks {β : Type} (n k : Nat) (bs : List β) :
    (chunks n (k + 1) bs).getLast? = some ((bs.drop (k * n)).take n) := by
  induction k generalizing bs with
  | zero => simp [chunks]
  | succ k ih =>
    have hne : chunks n (k + 1) (bs.drop n) ≠ [] := by simp [chunks]
    rw [chunks, List.getLast?_cons_of_ne_nil hne, ih, List.drop_drop, Nat.succ_mul, Nat.add_comm n]

/-- The last of several complete chunks is the end of the stream. -/
theorem getLast?_completeChunks {β : Type} {n k : Nat} (hn : 0 < n) {bs : List β}
    (hlen : bs.length = (k + 1) * n) :
    (completeChunks n bs).getLast? = some (bs.drop (bs.length - n)) := by
  have hdiv : bs.length / n = k + 1 := by rw [hlen, Nat.mul_div_cancel _ hn]
  have hstart : bs.length - n = k * n := by rw [hlen, Nat.succ_mul, Nat.add_sub_cancel]
  rw [completeChunks, hdiv, getLast?_chunks, hstart, List.take_of_length_le]
  rw [List.length_drop, hlen, Nat.succ_mul]
  omega

theorem exists_map_some {β γ : Type} {f : β → Option γ} {cs : List β} (h : ∀ c ∈ cs, f c ≠ none) :
    ∃ as : List γ, cs.map f = as.map some := by
  induction cs with
  | nil => exact ⟨[], rfl⟩
  | cons c cs ih =>
    obtain ⟨a, ha⟩ := Option.ne_none_iff_exists'.1 (h c List.mem_cons_self)
    obtain ⟨as, has⟩ := ih fun d hd => h d (List.mem_cons_of_mem _ hd)
    exact ⟨a :: as, by rw [List.map_cons, List.map_cons, ha, has]⟩

/-- If the groups are read, then every chunk is a record, the groups hold the records in order, and
the last one ends a group. -/
theorem readGroups_ok {group : List α} {cs : List (List UInt8)} {gs : List (List α)}
    (h : readGroups r isEnd group cs = .ok gs) :
    ∃ as, cs.map r.decode = as.map some ∧ gs.flatten = group ++ as ∧ (as = [] → group = []) ∧
      ∀ a, as.getLast? = some a → isEnd a = true := by
  induction cs generalizing group gs with
  | nil =>
    rw [readGroups] at h
    split at h
    · rename_i hgroup
      cases h
      exact ⟨[], rfl, by simp [hgroup], fun _ => hgroup, by simp⟩
    · cases h
  | cons c cs ih =>
    rw [readGroups] at h
    cases hc : r.decode c with
    | none =>
      rw [hc] at h
      cases h
    | some a =>
      rw [hc] at h
      dsimp only at h
      by_cases hend : isEnd a = true
      · rw [if_pos hend] at h
        cases hrest : readGroups r isEnd [] cs with
        | error e =>
          rw [hrest] at h
          cases h
        | ok gs' =>
          rw [hrest] at h
          cases h
          obtain ⟨as, hdec, hflat, -, hlast⟩ := ih hrest
          refine ⟨a :: as, by simp [hc, hdec], by simp [hflat], by simp, ?_⟩
          cases as with
          | nil => simpa using hend
          | cons b bs => simpa using hlast
      · rw [if_neg hend] at h
        obtain ⟨as, hdec, hflat, hnil, hlast⟩ := ih h
        refine ⟨a :: as, by simp [hc, hdec], by simp [hflat], by simp, ?_⟩
        cases as with
        | nil => exact absurd (hnil rfl) (by simp)
        | cons b bs => simpa using hlast

/-- Records of which the last ends a group are read. -/
theorem readGroups_of_decodes {group as : List α} {cs : List (List UInt8)} {last : α}
    (hdec : cs.map r.decode = as.map some) (hlast : as.getLast? = some last)
    (hend : isEnd last = true) : ∃ gs, readGroups r isEnd group cs = .ok gs := by
  induction cs generalizing group as with
  | nil =>
    cases as with
    | nil => simp at hlast
    | cons a as => simp at hdec
  | cons c cs ih =>
    cases as with
    | nil => simp at hlast
    | cons a as =>
      rw [List.map_cons, List.map_cons, List.cons.injEq] at hdec
      rw [readGroups, hdec.1]
      dsimp only
      cases as with
      | nil =>
        have hcs : cs = [] := by simpa using hdec.2
        have ha : a = last := by simpa using hlast
        rw [hcs, ha, if_pos hend]
        exact ⟨_, rfl⟩
      | cons b bs =>
        have hlast' : (b :: bs).getLast? = some last := by simpa using hlast
        split
        · obtain ⟨gs, hgs⟩ : ∃ gs, readGroups r isEnd [] cs = .ok gs := ih hdec.2 hlast'
          exact ⟨(group ++ [a]) :: gs, by rw [hgs]; rfl⟩
        · exact ih hdec.2 hlast'

end Rvzr.Lib
