import Rvzr.Postprocessing.InstructionPasses
import Mathlib.Logic.Relation

/-!
# Removal of labels

`LabelRemovalPass` goes over the lines of a program once and empties every line that starts with a
dot, has no reserved word in it and whose text is in no other line. It is not verified afterwards.
What a line is, is what the parser of the patched file takes it for: a line that starts with a dot
may also be a data directive. `removesOnlyLabels_iff` says when only labels go that no line refers
to.
-/

namespace Rvzr.Postprocessing

open Rvzr.Lib

/-! ## Lines as the parser sees them -/

/-- The types of `_get_line_type`. -/
inductive LineType where
  | ignore
  | sectionStart
  | functionStart
  | macroCall
  | opcode
  | basicBlock
  | instruction
  | unknown
deriving DecidableEq

def isAlphanumeric (c : Char) : Bool :=
  c.isDigit || ('a' ≤ c && c ≤ 'z') || ('A' ≤ c && c ≤ 'Z')

/-- Blanks that do not follow a letter or a digit are left out; `previous` is the character before
the text. -/
def removeRedundantSpaces : Option Char → Text → Text
  | _, [] => []
  | previous, c :: cs =>
    if c = ' ' && !(previous.any isAlphanumeric) then removeRedundantSpaces (some c) cs
    else c :: removeRedundantSpaces (some c) cs

/-- `clean_str` of a line. -/
def cleanStr (line : Text) : Text := removeRedundantSpaces none (cleanLine line)

/-- The type of a line that is not empty. -/
def getLineType (lineStr : Text) : LineType :=
  let startsWith (word : String) : Bool := word.toList.isPrefixOf lineStr
  if lineStr.head? ≠ some '.' then .instruction
  else if startsWith ".global" || startsWith ".intel_syntax" then .ignore
  else if startsWith ".section" then .sectionStart
  else if startsWith ".function_" then .functionStart
  else if startsWith ".macro" then .macroCall
  else if lineStr.take 4 = ".bcd ".toList ||
      [".byte".toList, ".long".toList, ".quad".toList].contains (lineStr.take 5) ||
      [".value".toList, ".2byte".toList, ".4byte".toList, ".8byte".toList].contains
        (lineStr.drop 6) then .opcode
  else if lineStr.getLast? = some ':' then .basicBlock
  else .unknown

/-- The line starts a basic block. -/
def isLabel (line : Text) : Bool := getLineType (cleanStr line) == .basicBlock

def labelName (line : Text) : Text := (cleanStr line).dropLast

def isSymbolChar (c : Char) : Bool := isAlphanumeric c || ['_', '.', '$'].contains c

/-- The name is a whole word of the code of a line other than a label. The patched file is in lower
case. -/
def References (isa : InstructionSet) (name line : Text) : Prop :=
  isLabel line = false ∧
    ∃ before after, cleanLine (beforeText [isa.commentSymbol] line) = before ++ name ++ after ∧
      (∀ c ∈ before.getLast?, isSymbolChar c = false) ∧
      ∀ c ∈ after.head?, isSymbolChar c = false

/-! ## The pass -/

/-- `_reserved`. -/
def reservedWords : List Text :=
  [".intel_syntax noprefix", ".test_case_exit:", ".section", ".function", ".macro", "syntax"].map
    String.toList

/-- The line starts with a dot and has no reserved word. -/
def isCandidate (inst : Text) : Bool :=
  (cleanLine inst).head? == some '.' &&
    !reservedWords.any fun reserved => containsText reserved (cleanLine inst)

/-- `instructions[i].strip().replace(":", "")`. -/
def labelText (inst : Text) : Text := (stripText inst).filter (· != ':')

/-- `label in inst and inst != instructions[i]`. -/
def mentions (inst other : Text) : Bool := containsText (labelText inst) other && other != inst

/-- The text of the line is in another line. -/
def isUsed (instructions : List Text) (inst : Text) : Bool := instructions.any (mentions inst)

def isRemovable (instructions : List Text) (inst : Text) : Bool :=
  isCandidate inst && !isUsed instructions inst

/-- One round of the loop. -/
def removeLabel (instructions : List Text) (i : Nat) : List Text :=
  let inst := instructions.getD i []
  if isRemovable instructions inst then instructions.set i [] else instructions

/-- The lines when the loop reaches line `n`. -/
def linesAt (lines : List Text) (n : Nat) : List Text := (List.range n).foldl removeLabel lines

def removeLabels (lines : List Text) : List Text := linesAt lines lines.length

/-- The program that the pass returns. -/
def labelRemovalPass (file : Text) : Text := (removeLabels (readLines file)).flatten

/-! ## What the loop leaves -/

section Loop

variable {lines : List Text}

theorem linesAt_succ (lines : List Text) (n : Nat) :
    linesAt lines (n + 1) = removeLabel (linesAt lines n) n := by
  unfold linesAt
  rw [List.range_succ, List.foldl_append]
  rfl

theorem removeLabel_length (instructions : List Text) (i : Nat) :
    (removeLabel instructions i).length = instructions.length := by
  unfold removeLabel
  dsimp only
  split
  · exact List.length_set
  · rfl

theorem removeLabel_ne {instructions : List Text} {i j : Nat} (h : j ≠ i) :
    (removeLabel instructions i)[j]? = instructions[j]? := by
  unfold removeLabel
  dsimp only
  split
  · exact List.getElem?_set_ne (Ne.symm h)
  · rfl

theorem linesAt_length (lines : List Text) (n : Nat) :
    (linesAt lines n).length = lines.length := by
  induction n with
  | zero => rfl
  | succ n ih => rw [linesAt_succ, removeLabel_length, ih]

/-- A line is as in the file until the loop reaches it. -/
theorem linesAt_of_le {n i : Nat} (h : n ≤ i) : (linesAt lines n)[i]? = lines[i]? := by
  induction n with
  | zero => rfl
  | succ n ih => rw [linesAt_succ, removeLabel_ne (by omega), ih (by omega)]

/-- A line that the loop has passed is empty if it could be removed, and as in the file if not. -/
theorem linesAt_of_lt {n i : Nat} {line : Text} (h : i < n) (hline : lines[i]? = some line) :
    (linesAt lines n)[i]? =
      some (if isRemovable (linesAt lines i) line then [] else line) := by
  induction n with
  | zero => omega
  | succ n ih =>
    rw [linesAt_succ]
    rcases Nat.lt_or_ge i n with hlt | hge
    · rw [removeLabel_ne (by omega), ih hlt]
    · have hsame : n = i := by omega
      subst hsame
      have hat : (linesAt lines n)[n]? = some line := (linesAt_of_le (Nat.le_refl n)).trans hline
      have hgetD : (linesAt lines n).getD n [] = line := by
        rw [List.getD_eq_getElem?_getD, hat]
        rfl
      unfold removeLabel
      dsimp only
      rw [hgetD]
      split
      · rw [List.getElem?_set_self (List.getElem?_eq_some_iff.mp hat).1]
      · exact hat

theorem removeLabels_getElem? {i : Nat} {line : Text} (hline : lines[i]? = some line) :
    (removeLabels lines)[i]? = some (if isRemovable (linesAt lines i) line then [] else line) :=
  linesAt_of_lt (List.getElem?_eq_some_iff.mp hline).1 hline

theorem isRemovable_ne {instructions : List Text} {line : Text}
    (h : isRemovable instructions line = true) : line ≠ [] := by
  rintro rfl
  simp [isRemovable, isCandidate, cleanLine, stripText, lowerText] at h

/-- The lines that change are those that could be removed. -/
theorem changed_iff {i : Nat} {line : Text} (hline : lines[i]? = some line) :
    (removeLabels lines)[i]? ≠ some line ↔ isRemovable (linesAt lines i) line = true := by
  rw [removeLabels_getElem? hline]
  by_cases h : isRemovable (linesAt lines i) line = true
  · rw [if_pos h]
    exact iff_of_true (fun heq => isRemovable_ne h (Option.some.inj heq).symm) h
  · rw [if_neg h]
    exact iff_of_false (fun hne => hne rfl) h

theorem mem_removeLabels {other : Text} (h : other ∈ removeLabels lines) :
    other ∈ lines ∨ other = [] := by
  obtain ⟨i, hi⟩ := List.mem_iff_getElem?.mp h
  have hlt : i < lines.length := by
    have hlen := (List.getElem?_eq_some_iff.mp hi).1
    rwa [removeLabels, linesAt_length] at hlen
  rw [removeLabels_getElem? (List.getElem?_eq_getElem hlt)] at hi
  split at hi
  · exact Or.inr (Option.some.inj hi).symm
  · exact Or.inl (Option.some.inj hi ▸ List.getElem_mem hlt)

end Loop

/-! ## Which lines stay -/

/-- The text of line `i` is in another line, line `j`. -/
def Mentioned (lines : List Text) (i j : Nat) : Prop :=
  ∃ line, lines[i]? = some line ∧ ∃ other, lines[j]? = some other ∧ mentions line other = true

/-- From line `i`, one can go over earlier lines, each with the text of the one before, to a line
that does not look like a label or whose text is in a later line. -/
def Stays (lines : List Text) (i : Nat) : Prop :=
  ∃ k, Relation.ReflTransGen (fun i j => j < i ∧ Mentioned lines i j) i k ∧
    ((∀ line, lines[k]? = some line → isCandidate line = false) ∨
      ∃ j, k < j ∧ Mentioned lines k j)

section Stays

variable {lines : List Text} {i : Nat}

theorem not_mentioned_self : ¬ Mentioned lines i i := by
  rintro ⟨line, hline, other, hother, h⟩
  cases hline.symm.trans hother
  simp [mentions] at h

theorem stays_iff : Stays lines i ↔
    (∀ line, lines[i]? = some line → isCandidate line = false) ∨
      (∃ j, i < j ∧ Mentioned lines i j) ∨ ∃ j, j < i ∧ Mentioned lines i j ∧ Stays lines j := by
  constructor
  · rintro ⟨k, hchain, hend⟩
    rcases hchain.cases_head with rfl | ⟨j, ⟨hlt, hj⟩, hrest⟩
    · rcases hend with hno | hlater
      · exact Or.inl hno
      · exact Or.inr (Or.inl hlater)
    · exact Or.inr (Or.inr ⟨j, hlt, hj, k, hrest, hend⟩)
  · rintro (hno | hlater | ⟨j, hlt, hj, k, hchain, hend⟩)
    · exact ⟨i, .refl, Or.inl hno⟩
    · exact ⟨i, .refl, Or.inr hlater⟩
    · exact ⟨k, .head ⟨hlt, hj⟩ hchain, hend⟩

/-- A line that looks like a label has at least the dot. -/
theorem labelText_ne {line : Text} (h : isCandidate line = true) : labelText line ≠ [] := by
  have hdot : (cleanLine line).head? = some '.' := by
    simpa using (Bool.and_eq_true_iff.mp h).1
  rw [cleanLine, lowerText, List.head?_map, Option.map_eq_some_iff] at hdot
  obtain ⟨c, hc, hlower⟩ := hdot
  have hcolon : c ≠ ':' := by
    rintro rfl
    exact absurd hlower (by decide)
  have hmem : c ∈ labelText line :=
    List.mem_filter.mpr ⟨List.mem_of_mem_head? hc, by simpa using hcolon⟩
  exact List.ne_nil_of_mem hmem

theorem mentions_nil {line : Text} (h : labelText line ≠ []) : mentions line [] = false := by
  rw [mentions, Bool.and_eq_false_iff]
  refine Or.inl (Bool.eq_false_iff.mpr fun hcontains => h ?_)
  have hinfix := containsText_iff_infix.mp hcontains
  exact List.infix_nil.mp hinfix

/-- A line that looks like a label is used when the loop reaches it if its text is in a later line,
or in an earlier one that was not removed. -/
theorem isUsed_linesAt {line : Text} (hline : lines[i]? = some line)
    (hcandidate : isCandidate line = true) :
    isUsed (linesAt lines i) line = true ↔ ∃ j, Mentioned lines i j ∧
      (i < j ∨ j < i ∧ ∀ other, lines[j]? = some other →
        isRemovable (linesAt lines j) other = false) := by
  unfold isUsed
  rw [List.any_eq_true]
  constructor
  · rintro ⟨x, hx, hmentions⟩
    obtain ⟨j, hj⟩ := List.mem_iff_getElem?.mp hx
    have hlt : j < lines.length := by
      have hlen := (List.getElem?_eq_some_iff.mp hj).1
      rwa [linesAt_length] at hlen
    have hother : lines[j]? = some lines[j] := List.getElem?_eq_getElem hlt
    rcases Nat.lt_or_ge j i with hji | hij
    · -- an earlier line, or what is left of it
      rw [linesAt_of_lt hji hother] at hj
      by_cases hremovable : isRemovable (linesAt lines j) lines[j] = true
      · rw [if_pos hremovable] at hj
        cases hj
        rw [mentions_nil (labelText_ne hcandidate)] at hmentions
        cases hmentions
      · rw [if_neg hremovable] at hj
        cases hj
        refine ⟨j, ⟨line, hline, _, hother, hmentions⟩, Or.inr ⟨hji, fun other ho => ?_⟩⟩
        cases hother.symm.trans ho
        exact Bool.eq_false_iff.mpr hremovable
    · rw [linesAt_of_le hij] at hj
      have hmentioned : Mentioned lines i j := ⟨line, hline, x, hj, hmentions⟩
      refine ⟨j, hmentioned, Or.inl (Nat.lt_of_le_of_ne hij ?_)⟩
      rintro rfl
      exact not_mentioned_self hmentioned
  · rintro ⟨j, ⟨line', hline', other, hother, hmentions⟩, hj⟩
    cases hline.symm.trans hline'
    refine ⟨other, List.mem_of_getElem? (i := j) ?_, hmentions⟩
    rcases hj with hij | ⟨hji, hkept⟩
    · exact (linesAt_of_le (Nat.le_of_lt hij)).trans hother
    · rw [linesAt_of_lt hji hother, if_neg (by rw [hkept other hother]; decide)]

/-- A line is removable when the loop reaches it exactly if it does not stay. -/
theorem isRemovable_iff {line : Text} (hline : lines[i]? = some line) :
    isRemovable (linesAt lines i) line = true ↔ ¬ Stays lines i := by
  induction i using Nat.strongRecOn generalizing line with
  | ind i ih =>
    by_cases hcandidate : isCandidate line = true
    swap
    · have hstays : Stays lines i := stays_iff.mpr <| Or.inl fun line' hline' => by
        cases hline.symm.trans hline'
        exact Bool.eq_false_iff.mpr hcandidate
      refine iff_of_false (fun h => hcandidate ?_) fun h => h hstays
      exact (Bool.and_eq_true_iff.mp h).1
    rw [isRemovable, hcandidate, Bool.true_and, Bool.not_eq_true', ← Bool.not_eq_true,
      not_iff_not, isUsed_linesAt hline hcandidate, stays_iff]
    constructor
    · rintro ⟨j, hj, hij | ⟨hji, hkept⟩⟩
      · exact Or.inr (Or.inl ⟨j, hij, hj⟩)
      · have hmentioned := hj
        obtain ⟨-, -, other, hother, -⟩ := hj
        refine Or.inr (Or.inr ⟨j, hji, hmentioned, ?_⟩)
        by_contra hstays
        have hremovable := (ih j hji hother).mpr hstays
        rw [hkept other hother] at hremovable
        cases hremovable
    · rintro (hno | ⟨j, hij, hj⟩ | ⟨j, hji, hj, hstays⟩)
      · rw [hno line hline] at hcandidate
        cases hcandidate
      · exact ⟨j, hj, Or.inl hij⟩
      · refine ⟨j, hj, Or.inr ⟨hji, fun other hother => Bool.eq_false_iff.mpr fun hr => ?_⟩⟩
        exact (ih j hji hother).mp hr hstays

end Stays

/-! ## What goes and what stays -/

/-- Only labels change, none of them is referenced by what is left, and the other lines are the same
ones as before. -/
structure RemovesOnlyLabels (isa : InstructionSet) (lines result : List Text) : Prop where
  length : result.length = lines.length
  labels : ∀ (i : Nat) (line : Text), lines[i]? = some line → result[i]? ≠ some line → isLabel line = true
  unreferenced : ∀ (i : Nat) (line : Text), lines[i]? = some line → result[i]? ≠ some line →
    ∀ other ∈ result, ¬ References isa (labelName line) other
  others : result.filter (fun line => !isLabel line && !line.isEmpty) =
    lines.filter fun line => !isLabel line && !line.isEmpty

section Removal

variable {isa : InstructionSet} {lines : List Text}

theorem filter_set {p : Text → Bool} {line : Text} {i : Nat} (hline : lines[i]? = some line)
    (h : p line = false) (hnil : p [] = false) : (lines.set i []).filter p = lines.filter p := by
  induction lines generalizing i with
  | nil => rfl
  | cons l ls ih =>
    cases i with
    | zero =>
      cases hline
      rw [List.set_cons_zero, List.filter_cons_of_neg (by simp [hnil]),
        List.filter_cons_of_neg (by simp [h])]
    | succ i => rw [List.set_cons_succ, List.filter_cons, List.filter_cons, ih hline]

/-- As long as only labels go, the other lines stay in their order. -/
theorem linesAt_filter {n : Nat} (hn : n ≤ lines.length)
    (h : ∀ i line, lines[i]? = some line → isRemovable (linesAt lines i) line = true →
      isLabel line = true) :
    (linesAt lines n).filter (fun line => !isLabel line && !line.isEmpty) =
      lines.filter fun line => !isLabel line && !line.isEmpty := by
  induction n with
  | zero => rfl
  | succ n ih =>
    have hline : lines[n]? = some lines[n] := List.getElem?_eq_getElem hn
    have hat : (linesAt lines n)[n]? = some lines[n] :=
      (linesAt_of_le (Nat.le_refl n)).trans hline
    have hgetD : (linesAt lines n).getD n [] = lines[n] := by
      rw [List.getD_eq_getElem?_getD, hat]
      rfl
    rw [linesAt_succ, ← ih (by omega)]
    unfold removeLabel
    dsimp only
    rw [hgetD]
    split
    · rename_i hremovable
      exact filter_set hat (by rw [h n _ hline hremovable]; rfl) (by decide)
    · rfl

/-- The name of a label has at least the dot. -/
theorem labelName_ne {line : Text} (h : isLabel line = true) : labelName line ≠ [] := by
  intro hnil
  have hlen : (labelName line).length = 0 := by rw [hnil]; rfl
  unfold labelName at hlen
  rw [List.length_dropLast] at hlen
  unfold isLabel getLineType at h
  rcases hclean : cleanStr line with - | ⟨c, - | ⟨d, cs⟩⟩
  · rw [hclean] at h
    exact absurd h (by decide)
  · -- one character cannot be both the dot and the colon
    rw [hclean] at h
    by_cases hdot : c = '.'
    · subst hdot
      exact absurd h (by decide)
    · simp [hdot] at h
  · rw [hclean, List.length_cons, List.length_cons] at hlen
    omega

theorem not_references_nil {name : Text} (hne : name ≠ []) : ¬ References isa name [] := by
  rintro ⟨-, before, after, hcode, -, -⟩
  have hnil : before ++ name ++ after = [] := hcode.symm
  rw [List.append_eq_nil_iff, List.append_eq_nil_iff] at hnil
  exact hne hnil.1.2

theorem stripText_infix_self (t : Text) : stripText t <:+: t := by
  unfold stripText
  have hfront : t.dropWhile isBlank <:+ t := List.dropWhile_suffix isBlank
  have hback : ((t.dropWhile isBlank).reverse.dropWhile isBlank).reverse <+:
      t.dropWhile isBlank := by
    rw [← List.reverse_suffix, List.reverse_reverse]
    exact List.dropWhile_suffix isBlank
  exact hback.isInfix.trans hfront.isInfix

theorem lowerText_of_infix {t u : Text} (h : lowerText t = t) (hu : u <:+: t) :
    lowerText u = u := by
  have hfix := List.map_inj_left.mp (h.trans (List.map_id t).symm)
  exact (List.map_inj_left.mpr fun c hc => hfix c (hu.subset hc)).trans (List.map_id u)

/-- In a file in lower case a line that refers to a label has the text of the label, if this is its
name. -/
theorem mentions_of_references {line other : Text} (hlower : lowerText other = other)
    (hlabel : isLabel line = true) (hname : labelName line = labelText line)
    (href : References isa (labelName line) other) : mentions line other = true := by
  obtain ⟨hcode, before, after, hsplit, -, -⟩ := href
  have hinfix : labelName line <:+: other := by
    have hpart : labelName line <:+: cleanLine (beforeText [isa.commentSymbol] other) :=
      ⟨before, after, hsplit.symm⟩
    have hcode : stripText (beforeText [isa.commentSymbol] other) <:+: other := by
      obtain ⟨rest, hrest, -⟩ := beforeText_split [isa.commentSymbol] other
      have hprefix : beforeText [isa.commentSymbol] other <+: other := ⟨rest, hrest.symm⟩
      exact (stripText_infix_self _).trans hprefix.isInfix
    rw [cleanLine, lowerText_of_infix hlower hcode] at hpart
    exact hpart.trans hcode
  have hcontains : containsText (labelText line) other = true := by
    rw [← hname]
    exact containsText_iff_infix.mpr hinfix
  have hdiff : other ≠ line := by
    rintro rfl
    rw [hcode] at hlabel
    exact absurd hlabel (by decide)
  rw [mentions, hcontains]
  simpa using hdiff

/-- The pass removes only labels without a reference exactly if every line that looks like a label,
but is none or has a reference, stays. -/
theorem removesOnlyLabels_iff (isa : InstructionSet) (lines : List Text) :
    RemovesOnlyLabels isa lines (removeLabels lines) ↔
      ∀ i line, lines[i]? = some line → isCandidate line = true →
        (isLabel line = false ∨ ∃ other ∈ lines, References isa (labelName line) other) →
        Stays lines i := by
  constructor
  · intro h i line hline _ hbad
    by_contra hstays
    have hchanged := (changed_iff hline).mpr ((isRemovable_iff hline).mpr hstays)
    rcases hbad with hother | ⟨other, hother, href⟩
    · rw [h.labels i line hline hchanged] at hother
      exact absurd hother (by decide)
    · obtain ⟨j, hj⟩ := List.mem_iff_getElem?.mp hother
      by_cases hkept : (removeLabels lines)[j]? = some other
      · exact h.unreferenced i line hline hchanged other (List.mem_of_getElem? hkept) href
      · -- a line that was removed is a label and refers to nothing
        have hlabel := h.labels j other hj hkept
        rw [href.1] at hlabel
        exact absurd hlabel (by decide)
  · intro h
    have hgood : ∀ (i : Nat) (line : Text), lines[i]? = some line →
        isRemovable (linesAt lines i) line = true →
        isLabel line = true ∧ ∀ other ∈ lines, ¬ References isa (labelName line) other := by
      intro i line hline hremovable
      have hcandidate : isCandidate line = true := (Bool.and_eq_true_iff.mp hremovable).1
      have hstays := (isRemovable_iff hline).mp hremovable
      refine ⟨?_, fun other hother href =>
        hstays (h i line hline hcandidate (Or.inr ⟨other, hother, href⟩))⟩
      by_contra hno
      exact hstays (h i line hline hcandidate (Or.inl (Bool.not_eq_true _ ▸ hno)))
    refine ⟨linesAt_length lines lines.length, ?_, ?_,
      linesAt_filter (Nat.le_refl _) fun i line hline hr => (hgood i line hline hr).1⟩
    · intro i line hline hchanged
      exact (hgood i line hline ((changed_iff hline).mp hchanged)).1
    · intro i line hline hchanged other hother href
      obtain ⟨hlabel, hnone⟩ := hgood i line hline ((changed_iff hline).mp hchanged)
      rcases mem_removeLabels hother with hmem | rfl
      · exact hnone other hmem href
      · exact not_references_nil (labelName_ne hlabel) href

/-- In a file in lower case, whose labels are written without blanks, it is enough that the lines
that are no labels stay. -/
theorem removesOnlyLabels_iff_of_lower {isa : InstructionSet} {lines : List Text}
    (hlower : ∀ line ∈ lines, lowerText line = line)
    (hname : ∀ line ∈ lines, isLabel line = true → labelName line = labelText line) :
    RemovesOnlyLabels isa lines (removeLabels lines) ↔
      ∀ i line, lines[i]? = some line → isCandidate line = true → isLabel line = false →
        Stays lines i := by
  rw [removesOnlyLabels_iff]
  refine ⟨fun h i line hline hc hno => h i line hline hc (Or.inl hno), ?_⟩
  rintro h i line hline hc (hno | ⟨other, hother, href⟩)
  · exact h i line hline hc hno
  by_cases hlabel : isLabel line = true
  swap
  · exact h i line hline hc (Bool.not_eq_true _ ▸ hlabel)
  -- the line that refers to the label is no label, so it stays itself
  have hmention := mentions_of_references (hlower other hother) hlabel
    (hname line (List.mem_of_getElem? hline) hlabel) href
  obtain ⟨j, hj⟩ := List.mem_iff_getElem?.mp hother
  have hmentioned : Mentioned lines i j := ⟨line, hline, other, hj, hmention⟩
  rw [stays_iff]
  rcases Nat.lt_trichotomy i j with hlt | heq | hgt
  · exact Or.inr (Or.inl ⟨j, hlt, hmentioned⟩)
  · subst heq
    exact absurd hmentioned not_mentioned_self
  · refine Or.inr (Or.inr ⟨j, hgt, hmentioned, ?_⟩)
    by_cases hcother : isCandidate other = true
    · exact h j other hj hcother href.1
    · refine stays_iff.mpr (Or.inl fun other' hother' => ?_)
      cases hj.symm.trans hother'
      exact Bool.not_eq_true _ ▸ hcother

end Removal

section Samples

/-- A program with the two-byte NOP that the NOP pass writes. -/
def sampleNopFile : Text :=
  ".intel_syntax noprefix\n.byte 0x66, 0x90  # 2 B\n.bb_0.1:\njmp .bb_0.1\n".toList

/-- The data directive goes, and the label stays. -/
theorem removeLabels_removes_nop :
    ¬ RemovesOnlyLabels .x86_64 (readLines sampleNopFile) (removeLabels (readLines sampleNopFile)) := by
  intro h
  have hlabel := h.labels 1 ".byte 0x66, 0x90  # 2 B\n".toList (by decide +kernel)
    (by decide +kernel)
  exact absurd hlabel (by decide +kernel)

end Samples

end Rvzr.Postprocessing
