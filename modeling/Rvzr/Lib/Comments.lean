import Mathlib.Logic.Function.Iterate
import Rvzr.Lib.Lines

/-!
# Lines, comments and removed words

A file is read as lines that keep their ends; a comment starts at a symbol and ends with its line.
`removeWord` is what `replace` with an empty replacement does. The results say when removing a word
changes more than the comments of a text.
-/

namespace Rvzr.Lib

/-- `readlines()`: the lines of a text with their ends. -/
def readLines : Text → List Text
  | [] => []
  | c :: cs =>
    if c = '\n' then ['\n'] :: readLines cs
    else
      match readLines cs with
      | [] => [[c]]
      | l :: ls => (c :: l) :: ls

/-- What stands before the first of some symbols. -/
def beforeText (symbols : List Text) : Text → Text
  | [] => []
  | c :: cs =>
    if symbols.any (fun symbol => symbol.isPrefixOf (c :: cs)) then []
    else c :: beforeText symbols cs

/-- What stands after the first occurrence of a symbol. -/
def afterText (symbol : Text) : Text → Text
  | [] => []
  | c :: cs =>
    if symbol.isPrefixOf (c :: cs) then (c :: cs).drop symbol.length else afterText symbol cs

/-- `t.replace(word, "")`, where the next `skip` characters belong to the last occurrence. -/
def removeWordFrom (word : Text) : Nat → Text → Text
  | _, [] => []
  | skip + 1, _ :: cs => removeWordFrom word skip cs
  | 0, c :: cs =>
    if word.isPrefixOf (c :: cs) then removeWordFrom word (word.length - 1) cs
    else c :: removeWordFrom word 0 cs

def removeWord (word t : Text) : Text := removeWordFrom word 0 t

/-- A line without its comment and its end. -/
def lineCode (symbol line : Text) : Text := beforeText [symbol, ['\n']] line

/-- Two texts that differ in their comments only. -/
def SameCode (symbol t u : Text) : Prop :=
  (readLines t).map (lineCode symbol) = (readLines u).map (lineCode symbol)

section Removing

variable {word : Text}

theorem removeWordFrom_append (w t : Text) :
    removeWordFrom word w.length (w ++ t) = removeWord word t := by
  induction w with
  | nil => rfl
  | cons c cs ih => exact ih

@[simp] theorem removeWord_nil : removeWord word [] = [] := rfl

theorem removeWord_word (hne : word ≠ []) (t : Text) :
    removeWord word (word ++ t) = removeWord word t := by
  cases word with
  | nil => exact absurd rfl hne
  | cons c cs =>
    unfold removeWord
    rw [List.cons_append, removeWordFrom, if_pos]
    · exact removeWordFrom_append cs t
    · rw [List.isPrefixOf_iff_prefix]
      exact List.prefix_append (c :: cs) t

theorem removeWord_cons {c : Char} {t : Text} (h : ¬ word <+: c :: t) :
    removeWord word (c :: t) = c :: removeWord word t := by
  unfold removeWord
  rw [removeWordFrom, if_neg]
  rwa [List.isPrefixOf_iff_prefix]

/-- A text is read from the left: the word is taken off, or the first character stays. -/
theorem word_induction {P : Text → Prop} (hne : word ≠ []) (nil : P [])
    (found : ∀ t, P t → P (word ++ t)) (keep : ∀ c t, ¬ word <+: c :: t → P t → P (c :: t)) :
    ∀ t, P t := by
  intro t
  induction hn : t.length using Nat.strongRecOn generalizing t with
  | _ n ih =>
    cases t with
    | nil => exact nil
    | cons c cs =>
      by_cases hw : word <+: c :: cs
      · obtain ⟨u, hu⟩ := hw
        have hlen : u.length < n := by
          have hpos : 0 < word.length := List.length_pos_iff.mpr hne
          rw [← hn, ← hu, List.length_append]
          omega
        rw [← hu]
        exact found u (ih u.length hlen u rfl)
      · have hlen : cs.length < n := by
          rw [← hn, List.length_cons]
          omega
        exact keep c cs hw (ih cs.length hlen cs rfl)

theorem removeWord_length_le (hne : word ≠ []) (t : Text) :
    (removeWord word t).length ≤ t.length := by
  induction t using word_induction hne with
  | nil => simp
  | found t ih =>
    rw [removeWord_word hne, List.length_append]
    omega
  | keep c t hw ih =>
    rw [removeWord_cons hw, List.length_cons, List.length_cons]
    omega

theorem removeWord_subset (hne : word ≠ []) {t : Text} {c : Char} (h : c ∈ removeWord word t) :
    c ∈ t := by
  induction t using word_induction hne with
  | nil => exact h
  | found t ih =>
    rw [removeWord_word hne] at h
    exact List.mem_append_right _ (ih h)
  | keep d t hw ih =>
    rw [removeWord_cons hw] at h
    cases List.mem_cons.mp h with
    | inl heq => exact List.mem_cons.mpr (Or.inl heq)
    | inr hrest => exact List.mem_cons_of_mem _ (ih hrest)

theorem removeWord_of_not_infix {t : Text} (hne : word ≠ []) (h : ¬ word <:+: t) :
    removeWord word t = t := by
  induction t using word_induction hne with
  | nil => rfl
  | found t ih => exact absurd (List.prefix_append word t).isInfix h
  | keep c t hw ih =>
    rw [removeWord_cons hw, ih fun hword => h (hword.trans (List.suffix_cons c t).isInfix)]

theorem removeWord_length_lt {t : Text} (hne : word ≠ []) (h : word <:+: t) :
    (removeWord word t).length < t.length := by
  induction t using word_induction hne with
  | nil => exact absurd (List.infix_nil.mp h) hne
  | found t ih =>
    have hle := removeWord_length_le hne t
    have hpos : 0 < word.length := List.length_pos_iff.mpr hne
    rw [removeWord_word hne, List.length_append]
    omega
  | keep c t hw ih =>
    have hrest : word <:+: t := (List.infix_cons_iff.mp h).resolve_left hw
    have hlt := ih hrest
    rw [removeWord_cons hw, List.length_cons, List.length_cons]
    omega

/-- Nothing is removed across a place where a character stands that the word does not have. -/
theorem removeWord_append {s t : Text} (hne : word ≠ []) (ht : ∀ c ∈ t.head?, c ∉ word) :
    removeWord word (s ++ t) = removeWord word s ++ removeWord word t := by
  induction s using word_induction hne with
  | nil => rfl
  | found s ih => rw [List.append_assoc, removeWord_word hne, removeWord_word hne, ih]
  | keep c s hw ih =>
    have hboth : ¬ word <+: c :: (s ++ t) := by
      intro hprefix
      rw [← List.cons_append] at hprefix
      by_cases hlen : word.length ≤ (c :: s).length
      · exact hw (List.prefix_of_prefix_length_le hprefix (List.prefix_append _ _) hlen)
      · -- the word would go on into `t`
        cases t with
        | nil =>
          rw [List.append_nil] at hprefix
          exact hw hprefix
        | cons d t =>
          have hat : word[(c :: s).length]? = some d := by
            rw [List.prefix_iff_getElem?.mp hprefix |> fun h => (List.getElem?_eq_getElem
              (Nat.lt_of_not_le hlen)).trans (h _ (Nat.lt_of_not_le hlen)).symm]
            simp
          exact ht d rfl (List.mem_of_getElem? hat)
    rw [List.cons_append, removeWord_cons hboth, removeWord_cons hw, ih, List.cons_append]

theorem removeWord_prefix {p t : Text} (hne : word ≠ []) (h : ∀ c ∈ p, c ∉ word)
    (hp : p <+: t) : p <+: removeWord word t := by
  obtain ⟨r, rfl⟩ := hp
  induction p with
  | nil => exact List.nil_prefix
  | cons c cs ih =>
    have hw : ¬ word <+: c :: (cs ++ r) := by
      cases word with
      | nil => exact absurd rfl hne
      | cons d ds =>
        intro hprefix
        have heq : d = c := (List.cons_prefix_cons.mp hprefix).1
        exact h c List.mem_cons_self (by rw [heq]; exact List.mem_cons_self)
    rw [List.cons_append, removeWord_cons hw]
    exact List.cons_prefix_cons.mpr ⟨rfl, ih fun d hd => h d (List.mem_cons_of_mem _ hd)⟩

end Removing

section Code

variable {word : Text} {symbols : List Text}

/-- A text in which one of the symbols comes first, or an empty one. -/
def Stops (symbols : List Text) (t : Text) : Prop := t = [] ∨ ∃ symbol ∈ symbols, symbol <+: t

theorem beforeText_cons {c : Char} {cs : Text} (h : ¬ Stops symbols (c :: cs)) :
    beforeText symbols (c :: cs) = c :: beforeText symbols cs := by
  rw [beforeText, if_neg]
  intro hany
  simp only [List.any_eq_true, List.isPrefixOf_iff_prefix] at hany
  exact h (Or.inr hany)

theorem beforeText_stops {t : Text} (h : Stops symbols t) : beforeText symbols t = [] := by
  cases t with
  | nil => rfl
  | cons c cs =>
    rcases h with hnil | hany
    · exact absurd hnil (by simp)
    · rw [beforeText, if_pos]
      simpa only [List.any_eq_true, List.isPrefixOf_iff_prefix] using hany

theorem beforeText_split (symbols : List Text) (t : Text) :
    ∃ rest, t = beforeText symbols t ++ rest ∧ Stops symbols rest := by
  induction t with
  | nil => exact ⟨[], rfl, Or.inl rfl⟩
  | cons c cs ih =>
    by_cases h : Stops symbols (c :: cs)
    · rw [beforeText_stops h]
      exact ⟨c :: cs, rfl, h⟩
    · obtain ⟨rest, hrest, hstops⟩ := ih
      refine ⟨rest, ?_, hstops⟩
      rw [beforeText_cons h, List.cons_append, ← hrest]

theorem beforeText_length_le {s t : Text} (h : Stops symbols t) :
    (beforeText symbols (s ++ t)).length ≤ s.length := by
  induction s with
  | nil =>
    simp only [List.nil_append, beforeText_stops h, List.length_nil, Nat.le_refl]
  | cons c cs ih =>
    by_cases hc : Stops symbols (c :: (cs ++ t))
    · rw [List.cons_append, beforeText_stops hc]
      simp
    · rw [List.cons_append, beforeText_cons hc, List.length_cons, List.length_cons]
      omega

/-- What stands before the first symbol does not depend on what follows it. -/
theorem beforeText_swap {s p t u : Text} (hp : p ∈ symbols)
    (hlen : ∀ q ∈ symbols, q.length ≤ p.length + 1)
    (h : beforeText symbols (s ++ (p ++ t)) = s) : beforeText symbols (s ++ (p ++ u)) = s := by
  induction s with
  | nil => exact beforeText_stops (Or.inr ⟨p, hp, List.prefix_append p u⟩)
  | cons c cs ih =>
    rw [List.cons_append] at h ⊢
    have ht : ¬ Stops symbols (c :: (cs ++ (p ++ t))) := by
      intro hstops
      rw [beforeText_stops hstops] at h
      exact absurd h (by simp)
    have hu : ¬ Stops symbols (c :: (cs ++ (p ++ u))) := by
      rintro (hnil | ⟨q, hq, hprefix⟩)
      · exact absurd hnil (by simp)
      · -- a symbol that starts here ends before `u` does
        have hsplit (x : Text) : c :: (cs ++ (p ++ x)) = (c :: (cs ++ p)) ++ x := by simp
        rw [hsplit] at hprefix
        have hshort : q <+: c :: (cs ++ p) := by
          refine List.prefix_of_prefix_length_le hprefix (List.prefix_append _ _) ?_
          have hqlen := hlen q hq
          rw [List.length_cons, List.length_append]
          omega
        refine ht (Or.inr ⟨q, hq, ?_⟩)
        rw [hsplit]
        exact hshort.trans (List.prefix_append _ _)
    rw [beforeText_cons ht] at h
    rw [beforeText_cons hu, ih (List.cons.inj h).2]

/-- The word that is removed has no character of a symbol, and the symbols are of about the same
length. -/
structure Apart (word : Text) (symbols : List Text) : Prop where
  word_ne : word ≠ []
  symbol_ne : ∀ q ∈ symbols, q ≠ []
  disjoint : ∀ q ∈ symbols, ∀ c ∈ q, c ∉ word
  length : ∀ q ∈ symbols, ∀ p ∈ symbols, q.length ≤ p.length + 1

/-- `Apart.disjoint` as a check of the characters of the symbols. -/
theorem disjoint_of_all {word : Text} {symbols : List Text}
    (h : (symbols.all fun q => q.all fun c => !word.contains c) = true) :
    ∀ q ∈ symbols, ∀ c ∈ q, c ∉ word := by
  intro q hq c hc hmem
  have hword := List.all_eq_true.mp (List.all_eq_true.mp h q hq) c hc
  rw [List.contains_iff_mem.mpr hmem] at hword
  exact absurd hword (by simp)

theorem Stops.removeWord {t : Text} (hapart : Apart word symbols) (h : Stops symbols t) :
    Stops symbols (removeWord word t) := by
  rcases h with rfl | ⟨q, hq, hprefix⟩
  · exact Or.inl rfl
  · exact Or.inr ⟨q, hq, removeWord_prefix hapart.word_ne (hapart.disjoint q hq) hprefix⟩

/-- The removal works on what stands before the first symbol and on the rest by themselves. -/
theorem removeWord_beforeText {t : Text} (hapart : Apart word symbols) :
    ∃ rest, Stops symbols rest ∧ t = beforeText symbols t ++ rest ∧
      removeWord word t = removeWord word (beforeText symbols t) ++ removeWord word rest := by
  obtain ⟨rest, hsplit, hstops⟩ := beforeText_split symbols t
  refine ⟨rest, hstops, hsplit, ?_⟩
  have happend : removeWord word (beforeText symbols t ++ rest) =
      removeWord word (beforeText symbols t) ++ removeWord word rest := by
    apply removeWord_append hapart.word_ne
    intro c hc
    rcases hstops with rfl | ⟨q, hq, hprefix⟩
    · exact absurd hc (by simp)
    · cases q with
      | nil => exact absurd rfl (hapart.symbol_ne [] hq)
      | cons d ds =>
        obtain ⟨u, rfl⟩ := hprefix
        have hd : d = c := by simpa using hc
        rw [← hd]
        exact hapart.disjoint _ hq d List.mem_cons_self
  rw [← hsplit] at happend
  exact happend

theorem beforeText_removeWord_length_le {t : Text} (hapart : Apart word symbols) :
    (beforeText symbols (removeWord word t)).length ≤ (beforeText symbols t).length := by
  obtain ⟨rest, hstops, -, hremove⟩ := removeWord_beforeText (t := t) hapart
  rw [hremove]
  exact Nat.le_trans (beforeText_length_le (hstops.removeWord hapart))
    (removeWord_length_le hapart.word_ne _)

/-- Removing a word changes what stands before the first symbol exactly if the word is there. -/
theorem beforeText_removeWord_iff {t : Text} (hapart : Apart word symbols) :
    beforeText symbols (removeWord word t) = beforeText symbols t ↔
      ¬ word <:+: beforeText symbols t := by
  obtain ⟨rest, hstops, hsplit, hremove⟩ := removeWord_beforeText (t := t) hapart
  constructor
  · intro heq hword
    have hle := beforeText_length_le (s := removeWord word (beforeText symbols t))
      (hstops.removeWord hapart)
    rw [← hremove, heq] at hle
    have hlt := removeWord_length_lt hapart.word_ne hword
    omega
  · intro hnot
    rw [hremove, removeWord_of_not_infix hapart.word_ne hnot]
    have hself : beforeText symbols (beforeText symbols t ++ rest) = beforeText symbols t := by
      rw [← hsplit]
    rcases hstops with rfl | ⟨q, hq, hprefix⟩
    · exact hself
    · obtain ⟨u, hu⟩ := removeWord_prefix hapart.word_ne (hapart.disjoint q hq) hprefix
      obtain ⟨v, hv⟩ := hprefix
      rw [← hv] at hself
      rw [← hu]
      exact beforeText_swap hq (fun p hp => hapart.length p hp q hq) hself

/-- Removing a word several times changes what stands before the first symbol exactly if the word
is there at the start. -/
theorem beforeText_removeWords_iff {t : Text} (hapart : Apart word symbols) (k : Nat) :
    beforeText symbols ((removeWord word)^[k] t) = beforeText symbols t ↔
      (0 < k → ¬ word <:+: beforeText symbols t) := by
  have hle : ∀ k t, (beforeText symbols ((removeWord word)^[k] t)).length ≤
      (beforeText symbols t).length := by
    intro k
    induction k with
    | zero => exact fun t => Nat.le_refl _
    | succ k ih =>
      exact fun t => Nat.le_trans (ih (removeWord word t)) (beforeText_removeWord_length_le hapart)
  cases k with
  | zero => simp
  | succ k =>
    rw [Function.iterate_succ_apply]
    by_cases hword : word <:+: beforeText symbols t
    · refine iff_of_false ?_ fun h => h (Nat.succ_pos k) hword
      intro heq
      obtain ⟨rest, hstops, -, hremove⟩ := removeWord_beforeText (t := t) hapart
      have hlt := removeWord_length_lt hapart.word_ne hword
      have hfirst := beforeText_length_le (s := removeWord word (beforeText symbols t))
        (hstops.removeWord hapart)
      have hmore := hle k (removeWord word t)
      rw [← hremove] at hfirst
      rw [heq] at hmore
      omega
    · refine iff_of_true ?_ fun _ => hword
      have hone := (beforeText_removeWord_iff hapart).mpr hword
      -- the first removal changes nothing, so neither do the others
      have hmany : ∀ k, beforeText symbols ((removeWord word)^[k] (removeWord word t)) =
          beforeText symbols t := by
        intro k
        induction k with
        | zero => exact hone
        | succ k ih =>
          rw [Function.iterate_succ_apply']
          rw [← ih] at hword
          rw [(beforeText_removeWord_iff hapart).mpr hword, ih]
      exact hmany k

end Code

section Reading

/-- A line that has its end. -/
def Ended (line : Text) : Prop := ∃ w : Text, '\n' ∉ w ∧ line = w ++ ['\n']

/-- The last line of a file may lack its end, but not be empty then. -/
def LastLine (line : Text) : Prop := Ended line ∨ (line ≠ [] ∧ '\n' ∉ line)

/-- Lines as `readlines()` gives them. -/
def LinesOk (lines : List Text) : Prop :=
  (∀ line ∈ lines.dropLast, Ended line) ∧ ∀ line ∈ lines.getLast?, LastLine line

theorem flatten_readLines (t : Text) : (readLines t).flatten = t := by
  induction t with
  | nil => rfl
  | cons c cs ih =>
    rw [readLines]
    by_cases hc : c = '\n'
    · rw [if_pos hc, List.flatten_cons, ih, hc]
      rfl
    · rw [if_neg hc]
      cases hl : readLines cs with
      | nil =>
        rw [hl] at ih
        rw [← ih]
        rfl
      | cons l ls =>
        rw [hl] at ih
        rw [← ih]
        rfl

theorem readLines_append {w : Text} (h : '\n' ∉ w) (t : Text) :
    readLines (w ++ '\n' :: t) = (w ++ ['\n']) :: readLines t := by
  induction w with
  | nil => rw [List.nil_append, readLines, if_pos rfl, List.nil_append]
  | cons c cs ih =>
    rw [List.mem_cons, not_or] at h
    rw [List.cons_append, readLines, if_neg (Ne.symm h.1), ih h.2]
    rfl

theorem readLines_of_not_mem {w : Text} (hne : w ≠ []) (h : '\n' ∉ w) : readLines w = [w] := by
  induction w with
  | nil => exact absurd rfl hne
  | cons c cs ih =>
    rw [List.mem_cons, not_or] at h
    rw [readLines, if_neg (Ne.symm h.1)]
    cases cs with
    | nil => rfl
    | cons d ds => rw [ih (by simp) h.2]

theorem linesOk_singleton {line : Text} (h : LastLine line) : LinesOk [line] :=
  ⟨by simp, by simpa using h⟩

theorem LinesOk.cons {line : Text} {lines : List Text} (hline : Ended line)
    (h : LinesOk lines) : LinesOk (line :: lines) := by
  cases lines with
  | nil => exact linesOk_singleton (Or.inl hline)
  | cons l ls =>
    refine ⟨?_, by simpa using h.2⟩
    rw [List.dropLast_cons_of_ne_nil (by simp)]
    exact List.forall_mem_cons.mpr ⟨hline, h.1⟩

theorem LinesOk.tail {line next : Text} {lines : List Text}
    (h : LinesOk (line :: next :: lines)) : Ended line ∧ LinesOk (next :: lines) := by
  have hfirst := h.1
  rw [List.dropLast_cons_of_ne_nil (by simp), List.forall_mem_cons] at hfirst
  exact ⟨hfirst.1, hfirst.2, by simpa using h.2⟩

theorem linesOk_readLines (t : Text) : LinesOk (readLines t) := by
  induction t with
  | nil => exact ⟨by simp [readLines], by simp [readLines]⟩
  | cons c cs ih =>
    rw [readLines]
    by_cases hc : c = '\n'
    · rw [if_pos hc]
      exact ih.cons ⟨[], by simp, rfl⟩
    · rw [if_neg hc]
      have hended {l : Text} (h : Ended l) : Ended (c :: l) := by
        obtain ⟨w, hw, rfl⟩ := h
        exact ⟨c :: w, by simp [Ne.symm hc, hw], rfl⟩
      cases hl : readLines cs with
      | nil => exact linesOk_singleton (Or.inr ⟨by simp, by simp [Ne.symm hc]⟩)
      | cons l ls =>
        rw [hl] at ih
        cases ls with
        | nil =>
          apply linesOk_singleton
          rcases ih.2 l rfl with hl | ⟨-, hl⟩
          · exact Or.inl (hended hl)
          · exact Or.inr ⟨by simp, by simp [Ne.symm hc, hl]⟩
        | cons next lines => exact ih.tail.2.cons (hended ih.tail.1)

/-- Lines that were written one after the other are read back. -/
theorem readLines_flatten {lines : List Text} (h : LinesOk lines) :
    readLines lines.flatten = lines := by
  induction lines with
  | nil => rfl
  | cons line lines ih =>
    have hended (hline : Ended line) (hrest : LinesOk lines) :
        readLines (line :: lines).flatten = line :: lines := by
      obtain ⟨w, hw, rfl⟩ := hline
      rw [List.flatten_cons, List.append_assoc, List.singleton_append, readLines_append hw,
        ih hrest]
    cases lines with
    | nil =>
      rcases h.2 line rfl with hline | ⟨hne, hnot⟩
      · exact hended hline ⟨by simp, by simp⟩
      · rw [List.flatten_cons, List.flatten_nil, List.append_nil, readLines_of_not_mem hne hnot]
    | cons next lines => exact hended h.tail.1 h.tail.2

/-- Every line is a line, and a line that another one follows has its end. -/
theorem LinesOk.line {lines : List Text} (h : LinesOk lines) {i : Nat} (hi : i < lines.length) :
    LastLine lines[i] ∧ (i + 1 < lines.length → Ended lines[i]) := by
  have hended (hlt : i + 1 < lines.length) : Ended lines[i] := by
    apply h.1
    rw [← List.getElem_dropLast (by rw [List.length_dropLast]; omega)]
    exact List.getElem_mem _
  refine ⟨?_, hended⟩
  rcases Nat.lt_or_ge (i + 1) lines.length with hlt | hge
  · exact Or.inl (hended hlt)
  · apply h.2
    rw [List.getLast?_eq_getElem?, show lines.length - 1 = i by omega]
    exact List.getElem?_eq_getElem hi

theorem LinesOk.drop {lines : List Text} (h : LinesOk lines) (n : Nat) :
    LinesOk (lines.drop n) := by
  induction lines generalizing n with
  | nil => simpa using h
  | cons line lines ih =>
    cases n with
    | zero => exact h
    | succ n =>
      cases lines with
      | nil => exact ⟨by simp, by simp⟩
      | cons next lines => exact ih h.tail.2 n

/-- Another line in place of one: the last one may lack its end. -/
theorem LinesOk.set {lines : List Text} (h : LinesOk lines) {i : Nat} {line : Text}
    (hline : Ended line ∨ (i + 1 = lines.length ∧ LastLine line)) :
    LinesOk (lines.set i line) := by
  induction lines generalizing i with
  | nil => exact h
  | cons l ls ih =>
    cases i with
    | zero =>
      cases ls with
      | nil =>
        rcases hline with hended | ⟨-, hlast⟩
        · exact linesOk_singleton (Or.inl hended)
        · exact linesOk_singleton hlast
      | cons next lines =>
        rcases hline with hended | ⟨hone, -⟩
        · exact h.tail.2.cons hended
        · exact absurd hone (by simp)
    | succ i =>
      cases ls with
      | nil => exact h
      | cons next lines =>
        refine (ih h.tail.2 ?_).cons h.tail.1
        rcases hline with hended | ⟨hlen, hlast⟩
        · exact Or.inl hended
        · exact Or.inr ⟨Nat.succ.inj hlen, hlast⟩

theorem readLines_flatten_append {lines : List Text} (h : ∀ line ∈ lines, Ended line) (t : Text) :
    readLines (lines.flatten ++ t) = lines ++ readLines t := by
  induction lines with
  | nil => rfl
  | cons line lines ih =>
    obtain ⟨w, hw, rfl⟩ := h _ List.mem_cons_self
    rw [List.flatten_cons, List.append_assoc, List.append_assoc, List.singleton_append,
      readLines_append hw, ih fun l hl => h l (List.mem_cons_of_mem _ hl)]
    rfl

/-- A line without its end takes in the line that follows. -/
theorem readLines_swallow {w : Text} (h : '\n' ∉ w) {t line : Text} {lines : List Text}
    (ht : readLines t = line :: lines) : readLines (w ++ t) = (w ++ line) :: lines := by
  induction w with
  | nil => exact ht
  | cons c cs ih =>
    rw [List.mem_cons, not_or] at h
    rw [List.cons_append, readLines, if_neg (Ne.symm h.1), ih h.2]
    rfl

/-- A prefix of a line has no end, or it is the line. -/
theorem LastLine.of_prefix {line p : Text} (h : LastLine line) (hp : p <+: line) :
    '\n' ∉ p ∨ p = line := by
  rcases h with ⟨w, hw, rfl⟩ | ⟨-, hline⟩
  · rcases List.prefix_concat_iff.mp hp with rfl | hshort
    · exact Or.inr rfl
    · exact Or.inl fun hmem => hw (hshort.subset hmem)
  · exact Or.inl fun hmem => hline (hp.subset hmem)

/-- Written lines have the same code if every one of them has. -/
theorem sameCode_flatten_iff {symbol : Text} {us ws : List Text} (hu : LinesOk us)
    (hw : LinesOk ws) :
    SameCode symbol us.flatten ws.flatten ↔
      us.map (lineCode symbol) = ws.map (lineCode symbol) := by
  unfold SameCode
  rw [readLines_flatten hu, readLines_flatten hw]

end Reading

end Rvzr.Lib
