import Rvzr.Postprocessing.Reapplied
import Mathlib.Data.List.TakeWhile

/-!
# Edits of single lines

The simplification, constant, mask and NOP passes put another line in the place of one. The program
is then written to a file and read back. Three of the passes end their line; the mask pass keeps the
rest of a line after its comment symbol, where the end is, and writes a comment symbol also for a
line that had none. Such a line takes in the next one as its comment
(`modifyInstruction_local_iff`).
-/

namespace Rvzr.Postprocessing

open Rvzr.Lib

/-- As many lines as before, and the same ones but for the edited line. -/
structure EditIsLocal (lines : List Text) (cursor : Nat) (edited : List Text) : Prop where
  length : edited.length = lines.length
  others : ∀ i, i ≠ cursor → edited[i]? = lines[i]?

/-- The passes that put a line in the place of another. -/
def InstructionPass.editsLine (pass : InstructionPass) : Prop :=
  pass = .simplification ∨ pass = .constant ∨ pass = .mask ∨ pass = .nop

/-! ## Characters of the lines that the passes build -/

section Characters

variable {c sep : Char}

theorem mem_of_mem_splitText {t w : Text} (hw : w ∈ splitText sep t) (hc : c ∈ w) : c ∈ t := by
  induction t generalizing w with
  | nil =>
    rw [splitText, List.mem_singleton] at hw
    rw [hw] at hc
    exact hc
  | cons d ds ih =>
    rw [splitText] at hw
    by_cases hd : d = sep
    · rw [if_pos hd] at hw
      rcases List.mem_cons.mp hw with rfl | hrest
      · exact absurd hc List.not_mem_nil
      · exact List.mem_cons_of_mem _ (ih hrest hc)
    · rw [if_neg hd] at hw
      cases hsplit : splitText sep ds with
      | nil =>
        rw [hsplit, List.mem_singleton] at hw
        rw [hw, List.mem_singleton] at hc
        rw [hc]
        exact List.mem_cons_self
      | cons u us =>
        rw [hsplit] at hw ih
        rcases List.mem_cons.mp hw with rfl | hrest
        · rcases List.mem_cons.mp hc with rfl | hu
          · exact List.mem_cons_self
          · exact List.mem_cons_of_mem _ (ih List.mem_cons_self hu)
        · exact List.mem_cons_of_mem _ (ih (List.mem_cons_of_mem _ hrest) hc)

theorem not_mem_joinText {s : Text} {ws : List Text} (hs : c ∉ s) (hws : ∀ w ∈ ws, c ∉ w) :
    c ∉ joinText s ws := by
  induction ws with
  | nil => exact List.not_mem_nil
  | cons w ws ih =>
    rw [List.forall_mem_cons] at hws
    cases ws with
    | nil => exact hws.1
    | cons v vs =>
      show c ∉ w ++ s ++ joinText s (v :: vs)
      rw [List.mem_append, List.mem_append]
      rintro ((hw | hs') | hrest)
      · exact hws.1 hw
      · exact hs hs'
      · exact ih hws.2 hrest

theorem toLower_eq_newline (h : c.toLower = '\n') : c = '\n' := by
  unfold Char.toLower at h
  split at h
  · rename_i hupper
    have hval : c.val + ('a'.val - 'A'.val) = '\n'.val := congrArg Char.val h
    have hnat : (c.val.toNat + 32) % 2 ^ 32 = 10 := congrArg UInt32.toNat hval
    have hlow : 65 ≤ c.val.toNat := UInt32.le_iff_toNat_le.mp hupper.1
    have hhigh : c.val.toNat ≤ 90 := UInt32.le_iff_toNat_le.mp hupper.2
    omega
  · exact h

theorem not_mem_lowerText {t : Text} (h : '\n' ∉ t) : '\n' ∉ lowerText t := by
  intro hmem
  obtain ⟨c, hc, hlower⟩ := List.mem_map.mp hmem
  rw [toLower_eq_newline hlower] at hc
  exact h hc

theorem mem_of_mem_stripText {t : Text} (h : c ∈ stripText t) : c ∈ t := by
  unfold stripText at h
  rw [List.mem_reverse] at h
  have hrev := (List.dropWhile_sublist isBlank).subset h
  rw [List.mem_reverse] at hrev
  exact (List.dropWhile_sublist isBlank).subset hrev

/-- The end of a line is stripped. -/
theorem stripText_ended {w : Text} (hw : '\n' ∉ w) : '\n' ∉ stripText (w ++ ['\n']) := by
  unfold stripText
  rw [List.mem_reverse]
  by_cases hblank : ∀ c ∈ w, isBlank c = true
  · have hnil : (w ++ ['\n']).dropWhile isBlank = [] := by
      rw [List.dropWhile_eq_nil_iff]
      intro c hc
      rcases List.mem_append.mp hc with hc | hc
      · exact hblank c hc
      · rw [List.mem_singleton.mp hc]
        rfl
    rw [hnil]
    exact List.not_mem_nil
  · have happend : (w ++ ['\n']).dropWhile isBlank = w.dropWhile isBlank ++ ['\n'] := by
      rw [List.dropWhile_append, if_neg]
      rw [List.isEmpty_iff, List.dropWhile_eq_nil_iff]
      exact hblank
    rw [happend, List.reverse_append, List.reverse_singleton, List.singleton_append,
      List.dropWhile_cons_of_pos rfl]
    intro hmem
    have hrev := (List.dropWhile_sublist isBlank).subset hmem
    rw [List.mem_reverse] at hrev
    exact hw ((List.dropWhile_sublist isBlank).subset hrev)

/-- A part of a line from its start is cleaned of the end. -/
theorem cleanLine_not_mem {line p : Text} (h : LastLine line) (hp : p <+: line) :
    '\n' ∉ cleanLine p := by
  apply not_mem_lowerText
  rcases h.of_prefix hp with hnot | rfl
  · exact fun hmem => hnot (mem_of_mem_stripText hmem)
  · rcases h with ⟨w, hw, rfl⟩ | ⟨-, hnot⟩
    · exact stripText_ended hw
    · exact fun hmem => hnot (mem_of_mem_stripText hmem)

end Characters

/-! ## What the passes build -/

section Built

variable {env : PassEnv} {isa : InstructionSet} {line edit : Text}

theorem instructionReplacement_not_mem {key r : Text}
    (h : instructionReplacement key line = some r) : '\n' ∉ r := by
  unfold instructionReplacement at h
  split at h
  · cases h
    split
    · decide
    · decide
  · have hall : ∀ entry ∈ instructionReplacements, '\n' ∉ entry.2 := by decide +kernel
    obtain ⟨before, after, hsplit, -⟩ := List.lookup_eq_some_iff.mp h
    exact hall (key, r) (by rw [hsplit]; simp)

theorem replaceConstant_not_mem {before words result : List Text}
    (h : replaceConstant isa before words = some result) (hbefore : ∀ w ∈ before, '\n' ∉ w)
    (hwords : ∀ w ∈ words, '\n' ∉ w) : ∀ w ∈ result, '\n' ∉ w := by
  induction words generalizing before with
  | nil => cases h
  | cons word words ih =>
    rw [List.forall_mem_cons] at hwords
    rw [replaceConstant] at h
    split at h
    · cases h
    · split at h
      · cases h
        have hreplacement : '\n' ∉ isa.constantReplacement := by
          cases isa with
          | x86_64 => decide
          | arm64 => decide
        intro w hw
        rcases List.mem_append.mp hw with hw | hw
        · rcases List.mem_append.mp hw with hw | hw
          · exact hbefore w hw
          · rw [List.mem_singleton.mp hw]
            exact hreplacement
        · exact hwords.2 w hw
      · refine ih h ?_ hwords.2
        rw [List.forall_mem_append]
        exact ⟨hbefore, by simpa using hwords.1⟩

theorem replaceMask_not_mem {before words result : List Text}
    (h : replaceMask before words = some result) (hbefore : ∀ w ∈ before, '\n' ∉ w)
    (hwords : ∀ w ∈ words, '\n' ∉ w) : ∀ w ∈ result, '\n' ∉ w := by
  induction words generalizing before with
  | nil => cases h
  | cons word words ih =>
    rw [List.forall_mem_cons] at hwords
    rw [replaceMask] at h
    cases hlookup : maskReplacements.lookup (stripText word) with
    | none =>
      rw [hlookup] at h
      refine ih h ?_ hwords.2
      rw [List.forall_mem_append]
      exact ⟨hbefore, by simpa using hwords.1⟩
    | some replacement =>
      rw [hlookup] at h
      cases h
      have hall : ∀ entry ∈ maskReplacements, '\n' ∉ entry.2 := by decide +kernel
      obtain ⟨start, rest, hsplit, -⟩ := List.lookup_eq_some_iff.mp hlookup
      intro w hw
      rcases List.mem_append.mp hw with hw | hw
      · rcases List.mem_append.mp hw with hw | hw
        · exact hbefore w hw
        · rw [List.mem_singleton.mp hw]
          exact hall (stripText word, replacement) (by rw [hsplit]; simp)
      · exact hwords.2 w hw

theorem simplifyLine_ended (hline : LastLine line) (h : simplifyLine line = some edit) :
    Ended edit := by
  unfold simplifyLine at h
  obtain ⟨r, hr, rfl⟩ := Option.map_eq_some_iff.mp h
  have hclean := cleanLine_not_mem hline List.prefix_rfl
  refine ⟨_, ?_, rfl⟩
  apply not_mem_joinText (by decide)
  intro w hw
  rcases List.mem_cons.mp hw with rfl | hw
  · exact instructionReplacement_not_mem hr
  · exact fun hmem => hclean (mem_of_mem_splitText (List.mem_of_mem_tail hw) hmem)

theorem simplifyConstant_ended (hline : LastLine line)
    (h : simplifyConstant env.isa line = some edit) : Ended edit := by
  unfold simplifyConstant at h
  obtain ⟨words, hwords, rfl⟩ := Option.map_eq_some_iff.mp h
  refine ⟨_, ?_, rfl⟩
  apply not_mem_joinText (by decide)
  have hclean := cleanLine_not_mem hline List.prefix_rfl
  exact replaceConstant_not_mem hwords (by simp) fun w hw hmem =>
    hclean (mem_of_mem_splitText hw hmem)

theorem afterText_eq_nil {symbol : Text} (h : ¬ symbol <:+: line) :
    afterText symbol line = [] := by
  induction line with
  | nil => rfl
  | cons c cs ih =>
    rw [List.infix_cons_iff, not_or] at h
    rw [afterText, if_neg (by rw [List.isPrefixOf_iff_prefix]; exact h.1), ih h.2]

theorem afterText_split {symbol : Text} (hne : symbol ≠ []) (h : symbol <:+: line) :
    ∃ before, line = before ++ (symbol ++ afterText symbol line) := by
  induction line with
  | nil => exact absurd (List.infix_nil.mp h) hne
  | cons c cs ih =>
    rw [afterText]
    by_cases hprefix : symbol <+: c :: cs
    · rw [if_pos (List.isPrefixOf_iff_prefix.mpr hprefix)]
      obtain ⟨rest, hrest⟩ := hprefix
      refine ⟨[], ?_⟩
      rw [← hrest, List.drop_left]
      rfl
    · rw [if_neg (by rw [List.isPrefixOf_iff_prefix]; exact hprefix)]
      obtain ⟨before, hbefore⟩ := ih ((List.infix_cons_iff.mp h).resolve_left hprefix)
      exact ⟨c :: before, congrArg (c :: ·) hbefore⟩

theorem commentSymbol_not_mem (isa : InstructionSet) : '\n' ∉ isa.commentSymbol := by
  cases isa with
  | x86_64 => decide
  | arm64 => decide

theorem beforeText_prefix_self (symbols : List Text) (t : Text) : beforeText symbols t <+: t := by
  obtain ⟨rest, hrest, -⟩ := beforeText_split symbols t
  exact ⟨rest, hrest.symm⟩

/-- What the mask pass writes before its comment symbol has no end of a line. -/
theorem simplifyMask_split (hline : LastLine line) (h : simplifyMask isa line = some edit) :
    ∃ code, '\n' ∉ code ∧ edit = code ++ afterText isa.commentSymbol line ∧ code ≠ [] := by
  unfold simplifyMask at h
  obtain ⟨words, hwords, rfl⟩ := Option.map_eq_some_iff.mp h
  have hclean := cleanLine_not_mem hline (beforeText_prefix_self [isa.commentSymbol] line)
  have hjoin : '\n' ∉ joinText ", ".toList words :=
    not_mem_joinText (by decide) (replaceMask_not_mem hwords (by simp) fun w hw hmem =>
      hclean (mem_of_mem_splitText hw hmem))
  refine ⟨_, ?_, rfl, by simp⟩
  rw [List.mem_append, List.mem_append]
  rintro ((hmem | hmem) | hmem)
  · exact hjoin hmem
  · exact absurd hmem (by decide)
  · exact commentSymbol_not_mem isa hmem

/-- A line with a comment keeps its end. -/
theorem simplifyMask_comment (hline : LastLine line) (h : simplifyMask isa line = some edit)
    (hcomment : isa.commentSymbol <:+: line) :
    (Ended line → Ended edit) ∧ LastLine edit := by
  obtain ⟨code, hcode, rfl, hne⟩ := simplifyMask_split hline h
  have hsymbol : isa.commentSymbol ≠ [] := by
    cases isa with
    | x86_64 => decide
    | arm64 => decide
  obtain ⟨before, hbefore⟩ := afterText_split hsymbol hcomment
  have hended : Ended line → Ended (code ++ afterText isa.commentSymbol line) := by
    rintro ⟨w, hw, hend⟩
    rcases List.eq_nil_or_concat (afterText isa.commentSymbol line) with hnil | ⟨v, c, hv⟩
    · -- the symbol would end the line
      rw [hnil, List.append_nil] at hbefore
      obtain ⟨init, d, hd⟩ := (List.eq_nil_or_concat isa.commentSymbol).resolve_left hsymbol
      rw [hend, hd, List.concat_eq_append, ← List.append_assoc] at hbefore
      have hlast := List.append_inj_right' hbefore rfl
      refine absurd ?_ (commentSymbol_not_mem isa)
      rw [hd, ← List.singleton_inj.mp hlast]
      simp
    · rw [hv, hend, List.concat_eq_append, ← List.append_assoc, ← List.append_assoc] at hbefore
      have hlast := List.append_inj_right' hbefore rfl
      have hinit := List.append_inj_left' hbefore rfl
      refine ⟨code ++ v, ?_, ?_⟩
      · rw [List.mem_append, not_or]
        exact ⟨hcode, fun hmem => hw (by rw [hinit]; exact List.mem_append_right _ hmem)⟩
      · rw [hv, List.concat_eq_append, ← List.singleton_inj.mp hlast, List.append_assoc]
  refine ⟨hended, ?_⟩
  rcases hline with hline | ⟨-, hnot⟩
  · exact Or.inl (hended hline)
  · refine Or.inr ⟨by simp [hne], ?_⟩
    rw [List.mem_append, not_or]
    refine ⟨hcode, fun hmem => hnot ?_⟩
    rw [hbefore]
    exact List.mem_append_right _ (List.mem_append_right _ hmem)

end Built

/-! ## Edits and what is read back -/

section Reading

variable {env : PassEnv} {pass : InstructionPass} {lines modified : List Text} {cursor : Nat}

/-- A program that a pass returns is the old one with another line at the cursor. -/
theorem modifyInstruction_set (hpass : pass.editsLine) (hne : modified ≠ [])
    (h : pass.modifyInstruction env lines cursor = some modified) :
    ∃ edit, modified = lines.set cursor edit ∧
      ((pass = .mask ∧ simplifyMask env.isa (lines.getD cursor []) = some edit) ∨
        (pass ≠ .mask ∧ (LastLine (lines.getD cursor []) → Ended edit))) := by
  have hset {r : Option Text} (hr : replaceLine lines cursor r = modified) :
      ∃ edit, r = some edit ∧ modified = lines.set cursor edit := by
    cases r with
    | none => exact absurd hr.symm hne
    | some edit => exact ⟨edit, rfl, hr.symm⟩
  rcases hpass with rfl | rfl | rfl | rfl
  · obtain ⟨edit, hedit, rfl⟩ := hset (Option.some.inj h)
    exact ⟨edit, rfl, Or.inr ⟨by decide, fun hline => simplifyLine_ended hline hedit⟩⟩
  · obtain ⟨edit, hedit, rfl⟩ := hset (Option.some.inj h)
    exact ⟨edit, rfl, Or.inr ⟨by decide, fun hline => simplifyConstant_ended hline hedit⟩⟩
  · obtain ⟨edit, hedit, rfl⟩ := hset (Option.some.inj h)
    exact ⟨edit, rfl, Or.inl ⟨rfl, hedit⟩⟩
  · obtain ⟨r, hr, hreplace⟩ := Option.map_eq_some_iff.mp h
    obtain ⟨edit, rfl, rfl⟩ := hset hreplace
    obtain ⟨size, text, hlookup, rfl⟩ := nopLine_lookup hr
    exact ⟨_, rfl, Or.inr ⟨by decide, fun _ => ended_nop hlookup⟩⟩

theorem editIsLocal_set {edit : Text} (hlines : LinesOk lines)
    (hedit : Ended edit ∨ (cursor + 1 = lines.length ∧ LastLine edit)) :
    EditIsLocal lines cursor (readLines (lines.set cursor edit).flatten) := by
  rw [readLines_flatten (hlines.set hedit)]
  exact ⟨List.length_set, fun i hi => List.getElem?_set_ne (Ne.symm hi)⟩

/-- A line without its end in the place of another than the last: there is one line less. -/
theorem not_editIsLocal_set {edit : Text} (hlines : LinesOk lines) (hlt : cursor + 1 < lines.length)
    (hedit : '\n' ∉ edit) :
    ¬ EditIsLocal lines cursor (readLines (lines.set cursor edit).flatten) := by
  intro hlocal
  have hbefore : ∀ line ∈ lines.take cursor, Ended line := by
    intro line hmem
    obtain ⟨i, hi, rfl⟩ := List.mem_iff_getElem.mp hmem
    rw [List.length_take] at hi
    rw [List.getElem_take]
    exact (hlines.line (by omega)).2 (by omega)
  have hrest : readLines (lines.drop (cursor + 1)).flatten = lines.drop (cursor + 1) :=
    readLines_flatten (hlines.drop (cursor + 1))
  have hlen := hlocal.length
  rw [List.set_eq_take_append_cons_drop, if_pos (by omega), List.flatten_append,
    readLines_flatten_append hbefore, List.flatten_cons, List.length_append] at hlen
  rw [List.drop_eq_getElem_cons hlt] at hrest hlen
  rw [readLines_swallow hedit hrest] at hlen
  simp only [List.length_take, List.length_cons, List.length_drop] at hlen
  omega

/-- An edit is local except for a mask in a line that has no comment and is not the last one. -/
theorem modifyInstruction_local_iff {file : Text} (hpass : pass.editsLine)
    (hcursor : cursor < (readLines file).length) (hne : modified ≠ [])
    (h : pass.modifyInstruction env (readLines file) cursor = some modified) :
    EditIsLocal (readLines file) cursor (readLines modified.flatten) ↔
      pass ≠ .mask ∨ env.isa.commentSymbol <:+: (readLines file).getD cursor [] ∨
        cursor + 1 = (readLines file).length := by
  obtain ⟨edit, rfl, hedit⟩ := modifyInstruction_set hpass hne h
  have hlines := linesOk_readLines file
  have hline := hlines.line hcursor
  rw [show (readLines file).getD cursor [] = (readLines file)[cursor] by
    rw [List.getD_eq_getElem?_getD, List.getElem?_eq_getElem hcursor]; rfl] at hedit ⊢
  rcases hedit with ⟨rfl, hmask⟩ | ⟨hother, hended⟩
  · constructor
    · intro hlocal
      by_contra hnot
      rw [not_or, not_or] at hnot
      obtain ⟨code, hcode, rfl, -⟩ := simplifyMask_split hline.1 hmask
      rw [afterText_eq_nil hnot.2.1, List.append_nil] at hlocal
      have hlast : cursor + 1 ≠ (readLines file).length := hnot.2.2
      exact not_editIsLocal_set hlines (by omega) hcode hlocal
    · rintro (habsurd | hcomment | hlast)
      · exact absurd rfl habsurd
      · obtain ⟨hkept, hlastLine⟩ := simplifyMask_comment hline.1 hmask hcomment
        rcases Nat.lt_or_ge (cursor + 1) (readLines file).length with hlt | hge
        · exact editIsLocal_set hlines (Or.inl (hkept (hline.2 hlt)))
        · exact editIsLocal_set hlines (Or.inr ⟨by omega, hlastLine⟩)
      · obtain ⟨code, hcode, rfl, hcodene⟩ := simplifyMask_split hline.1 hmask
        refine editIsLocal_set hlines ?_
        by_cases hcomment : env.isa.commentSymbol <:+: (readLines file)[cursor]
        · exact Or.inr ⟨hlast, (simplifyMask_comment hline.1 hmask hcomment).2⟩
        · rw [afterText_eq_nil hcomment, List.append_nil]
          exact Or.inr ⟨hlast, Or.inr ⟨hcodene, hcode⟩⟩
  · refine iff_of_true ?_ (Or.inl hother)
    exact editIsLocal_set hlines (Or.inl (hended hline.1))

end Reading

section Samples

def sampleMaskEnv : PassEnv := ⟨.x86_64, fun _ => some 4, fun _ => true⟩

/-- The second line has a mask and no comment. -/
def sampleMaskFile : Text :=
  ".intel_syntax noprefix\nand rbx, 0b1000000000000\nmov rax, rbx\n".toList

/-- The program that the mask pass makes of it. -/
def sampleMaskEdited : List Text :=
  [".intel_syntax noprefix\n".toList, "and rbx, 0b0000000000000 #".toList,
    "mov rax, rbx\n".toList]

theorem sampleMask_modifyInstruction :
    InstructionPass.mask.modifyInstruction sampleMaskEnv (readLines sampleMaskFile) 1 =
      some sampleMaskEdited := by
  decide +kernel

/-- The same program with a comment behind the mask. -/
def sampleCommentFile : Text :=
  ".intel_syntax noprefix
and rbx, 0b1000000000000 # instrumentation
mov rax, rbx
".toList

def sampleCommentEdited : List Text :=
  [".intel_syntax noprefix
".toList, "and rbx, 0b0000000000000 # instrumentation
".toList,
    "mov rax, rbx
".toList]

theorem modifyInstruction_local_sample :
    EditIsLocal (readLines sampleCommentFile) 1 (readLines sampleCommentEdited.flatten) :=
  (modifyInstruction_local_iff (Or.inr (Or.inr (Or.inl rfl))) (by decide +kernel) (by decide)
    (show InstructionPass.mask.modifyInstruction sampleMaskEnv (readLines sampleCommentFile) 1 =
      some sampleCommentEdited by decide +kernel)).2 (Or.inr (Or.inl (by decide +kernel)))

/-- The next instruction becomes a part of the comment. -/
theorem mask_swallows_instruction :
    ∃ modified, InstructionPass.mask.modifyInstruction sampleMaskEnv (readLines sampleMaskFile) 1 =
        some modified ∧ modified ≠ [] ∧
      ¬ EditIsLocal (readLines sampleMaskFile) 1 (readLines modified.flatten) := by
  refine ⟨sampleMaskEdited, sampleMask_modifyInstruction, by decide, fun hlocal => ?_⟩
  exact absurd hlocal.length (by decide +kernel)

end Samples

end Rvzr.Postprocessing
