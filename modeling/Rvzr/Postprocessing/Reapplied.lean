import Rvzr.Lib.Folds
import Rvzr.Postprocessing.InstructionPasses

/-!
# The program that an instruction pass returns

The loop verifies changes of its running copy; the pass returns the file with the changes made
again. The results compare the two. Only the removal and the NOP pass do more than the loop: they
clear the `instrumentation` tag in the line before a changed one.
-/

namespace Rvzr.Postprocessing

open Rvzr.Lib

variable {env : PassEnv} {pass : InstructionPass} {answers : Nat → Bool}

/-! ## The loop -/

section Loop

variable {s s' : LoopState} {cursor : Nat}

/-- The line at the cursor is tried. -/
def tried (env : PassEnv) (pass : InstructionPass) (line : Text) : Bool :=
  !lineIsSkipped env.isa pass.skipInstrumentationLines (cleanLine line)

/-- A round of the loop changes nothing, or it verifies a change. -/
theorem minimizationStep_cases (h : minimizationStep env pass answers cursor s = some s') :
    ((tried env pass (s.instructions.getD cursor []) = false ∨
      pass.modifyInstruction env s.instructions cursor = some []) ∧ s' = s) ∨
    (tried env pass (s.instructions.getD cursor []) = true ∧ ∃ modified, modified ≠ [] ∧
      pass.modifyInstruction env s.instructions cursor = some modified ∧
      ((answers cursor = true ∧
          s' = ⟨modified, s.modifiableIds ++ [cursor], s.verified ++ [(modified, true)]⟩) ∨
        (answers cursor = false ∧
          s' = ⟨s.instructions, s.modifiableIds, s.verified ++ [(modified, false)]⟩))) := by
  unfold minimizationStep at h
  dsimp only at h
  unfold tried
  cases hskip : lineIsSkipped env.isa pass.skipInstrumentationLines
      (cleanLine (s.instructions.getD cursor [])) with
  | true =>
    rw [hskip, if_pos rfl] at h
    cases h
    exact Or.inl ⟨Or.inl rfl, rfl⟩
  | false =>
    rw [hskip, if_neg (by simp)] at h
    rcases hmodify : pass.modifyInstruction env s.instructions cursor with - | - | ⟨line, lines⟩
    · rw [hmodify] at h
      exact absurd h (by simp)
    · rw [hmodify] at h
      cases h
      exact Or.inl ⟨Or.inr rfl, rfl⟩
    · rw [hmodify] at h
      dsimp only at h
      right
      refine ⟨rfl, line :: lines, by simp, rfl, ?_⟩
      split at h
      · exact absurd h (by simp)
      · split at h
        · rename_i hanswer
          cases h
          exact Or.inl ⟨hanswer, rfl⟩
        · rename_i hanswer
          cases h
          exact Or.inr ⟨by simpa using hanswer, rfl⟩

theorem loopFrom_inv {P : Nat → LoopState → Prop}
    (hstep : ∀ c s s', P (c + 1) s → minimizationStep env pass answers (c + 1) s = some s' →
      P c s') {n : Nat} (hs : P n s) (h : loopFrom env pass answers n s = some s') : P 0 s' := by
  induction n generalizing s with
  | zero =>
    cases h
    exact hs
  | succ n ih =>
    obtain ⟨t, ht, hrest⟩ := Option.bind_eq_some_iff.mp h
    exact ih (hstep n s t hs ht) hrest

/-- An invariant of the loop from the file on. -/
theorem minimizationLoop_inv {lines : List Text} {P : Nat → LoopState → Prop}
    (hstart : lines ≠ [] → P (lines.length - 1) ⟨lines, [], []⟩)
    (hstep : ∀ c s s', P (c + 1) s → minimizationStep env pass answers (c + 1) s = some s' →
      P c s')
    (h : minimizationLoop env pass answers lines = some s) : P 0 s := by
  unfold minimizationLoop at h
  by_cases hne : lines = []
  · rw [if_pos hne] at h
    exact absurd h (by simp)
  · rw [if_neg hne] at h
    exact loopFrom_inv hstep (hstart hne) h

/-- The running copy is the last program that was verified with success. -/
theorem minimizationLoop_lastVerified {file : Text}
    (h : minimizationLoop env pass answers (readLines file) = some s) :
    lastVerified file s.verified = s.instructions.flatten := by
  refine minimizationLoop_inv (P := fun _ s => lastVerified file s.verified =
    s.instructions.flatten) ?_ ?_ h
  · intro _
    exact (flatten_readLines file).symm
  · intro c s s' hs hstep
    rcases minimizationStep_cases hstep with ⟨-, rfl⟩ | ⟨-, modified, -, -, ⟨-, rfl⟩ | ⟨-, rfl⟩⟩
    · exact hs
    · simp [lastVerified]
    · simpa [lastVerified] using hs

end Loop

/-! ## Passes that make their changes again -/

section Reapplying

variable {s : LoopState} {lines : List Text}

/-- The changes of the loop, made again one after the other, give its running copy. -/
theorem minimizationLoop_modify (h : minimizationLoop env pass answers lines = some s) :
    s.modifiableIds.foldlM (fun instructions i => pass.modifyInstruction env instructions i)
      lines = some s.instructions := by
  refine minimizationLoop_inv (P := fun _ s => s.modifiableIds.foldlM
    (fun instructions i => pass.modifyInstruction env instructions i) lines =
      some s.instructions) ?_ ?_ h
  · intro _
    rfl
  · intro c s s' hs hstep
    rcases minimizationStep_cases hstep with
      ⟨-, rfl⟩ | ⟨-, modified, -, hmodify, ⟨-, rfl⟩ | ⟨-, rfl⟩⟩
    · exact hs
    · rw [List.foldlM_append, hs]
      simpa using hmodify
    · exact hs

theorem minimizationLoop_insertFence (h : minimizationLoop env .fence answers lines = some s) :
    s.modifiableIds.foldl (insertFence env) lines = s.instructions := by
  refine minimizationLoop_inv (P := fun _ s => s.modifiableIds.foldl (insertFence env) lines =
    s.instructions) ?_ ?_ h
  · intro _
    rfl
  · intro c s s' hs hstep
    rcases minimizationStep_cases hstep with
      ⟨-, rfl⟩ | ⟨-, modified, hne, hmodify, ⟨-, rfl⟩ | ⟨-, rfl⟩⟩
    · exact hs
    · rw [List.foldl_append, hs]
      simp only [InstructionPass.modifyInstruction] at hmodify
      split at hmodify
      · cases hmodify
        exact absurd rfl hne
      · exact Option.some.inj hmodify
    · exact hs

end Reapplying

/-! ## Passes that change single lines -/

/-- There is a change for the line, and its verification succeeds. -/
def accepts (env : PassEnv) (pass : InstructionPass) (answers : Nat → Bool) (lines : List Text)
    (i : Nat) : Bool :=
  0 < i && i < lines.length && tried env pass (lines.getD i []) &&
    (match pass.modifyInstruction env lines i with
      | some (_ :: _) => true
      | _ => false) && answers i

/-- The passes that clear the tag. -/
def InstructionPass.clearsTag (pass : InstructionPass) : Prop := pass = .removal ∨ pass = .nop

/-- What the removal and the NOP pass put in place of a line, if they change it. -/
def lineChange (env : PassEnv) (line : Text) : InstructionPass → Option (Option (List Text))
  | .removal => some (some [])
  | .nop => (nopLine env line).map fun r => r.map fun replacement => [replacement]
  | _ => none

def lineEdit (env : PassEnv) (pass : InstructionPass) (line : Text) : List Text :=
  match lineChange env line pass with
  | some (some edit) => edit
  | _ => [line]

/-- A line of the file in the running copy. -/
def edited (env : PassEnv) (pass : InstructionPass) (answers : Nat → Bool) (lines : List Text)
    (line : Text × Nat) : List Text :=
  if accepts env pass answers lines line.2 then lineEdit env pass line.1 else [line.1]

section Local

variable {s : LoopState} {lines : List Text} {n : Nat}

/-- The running copy from a line on. -/
def editedFrom (env : PassEnv) (pass : InstructionPass) (answers : Nat → Bool)
    (lines : List Text) (n : Nat) : List Text :=
  (lines.zipIdx.drop n).flatMap (edited env pass answers lines)

theorem editedFrom_eq (h : n < lines.length) :
    editedFrom env pass answers lines n =
      edited env pass answers lines (lines[n], n) ++ editedFrom env pass answers lines (n + 1) := by
  unfold editedFrom
  have hlt : n < lines.zipIdx.length := by rwa [List.length_zipIdx]
  rw [List.drop_eq_getElem_cons hlt, List.flatMap_cons, List.getElem_zipIdx, Nat.zero_add]

theorem getD_take_append (h : n < lines.length) (rest : List Text) :
    (lines.take (n + 1) ++ rest).getD n [] = lines[n] := by
  have hlt : n < (lines.take (n + 1)).length := by
    rw [List.length_take]
    omega
  rw [List.getD_eq_getElem?_getD, List.getElem?_append_left hlt, List.getElem?_take_of_lt
    (Nat.lt_succ_self n), List.getElem?_eq_getElem h, Option.getD_some]

/-- A change depends on its line only, and it leaves the other lines alone. -/
theorem modifyInstruction_local (env : PassEnv) (hpass : pass.clearsTag) (h : n < lines.length)
    (rest : List Text) :
    pass.modifyInstruction env (lines.take (n + 1) ++ rest) n =
      (lineChange env lines[n] pass).map fun change =>
        match change with
        | none => []
        | some edit => lines.take n ++ edit ++ rest := by
  have hsplit : lines.take (n + 1) ++ rest = lines.take n ++ lines[n] :: rest := by
    rw [List.take_succ_eq_append_getElem h, List.append_assoc, List.singleton_append]
  have hlen : (lines.take n).length = n := List.length_take_of_le (Nat.le_of_lt h)
  rcases hpass with rfl | rfl
  · simp only [InstructionPass.modifyInstruction, lineChange, hsplit]
    simp [List.drop_append, hlen]
  · simp only [InstructionPass.modifyInstruction, lineChange, getD_take_append h]
    cases nopLine env lines[n] with
    | none => rfl
    | some r =>
      cases r with
      | none => rfl
      | some replacement =>
        simp only [Option.map_some, replaceLine, hsplit]
        simp [hlen]

/-- The lines that are changed, by what the pass has in their place. -/
theorem accepts_iff (env : PassEnv) (answers : Nat → Bool) (hpass : pass.clearsTag) (hpos : 0 < n) (h : n < lines.length) :
    accepts env pass answers lines n = true ↔
      tried env pass lines[n] = true ∧ (∃ edit, lineChange env lines[n] pass = some (some edit)) ∧
        answers n = true := by
  have hget : lines.getD n [] = lines[n] := by
    rw [List.getD_eq_getElem?_getD, List.getElem?_eq_getElem h, Option.getD_some]
  have hmodify := modifyInstruction_local env hpass h (lines.drop (n + 1))
  rw [List.take_append_drop] at hmodify
  have hne : lines.take n ≠ [] := by
    intro hnil
    have hlen := congrArg List.length hnil
    rw [List.length_take_of_le (Nat.le_of_lt h), List.length_nil] at hlen
    omega
  unfold accepts
  rw [hmodify, hget]
  rcases lineChange env lines[n] pass with - | - | edit
  · simp
  · simp
  · cases htake : lines.take n with
    | nil => exact absurd htake hne
    | cons l ls => simp [hpos, h]

/-- After the lines above the cursor, the running copy is the file below it and the changed lines
above it. -/
structure LocalInv (env : PassEnv) (pass : InstructionPass) (answers : Nat → Bool)
    (lines : List Text) (cursor : Nat) (s : LoopState) : Prop where
  cursor_lt : cursor < lines.length
  instructions : s.instructions =
    lines.take (cursor + 1) ++ editedFrom env pass answers lines (cursor + 1)
  ids : ∀ i, i ∈ s.modifiableIds ↔ cursor < i ∧ accepts env pass answers lines i = true

theorem LocalInv.step {s' : LoopState} {c : Nat} (hpass : pass.clearsTag)
    (hinv : LocalInv env pass answers lines (c + 1) s)
    (h : minimizationStep env pass answers (c + 1) s = some s') :
    LocalInv env pass answers lines c s' := by
  have hlt := hinv.cursor_lt
  have hline : s.instructions.getD (c + 1) [] = lines[c + 1] := by
    rw [hinv.instructions, getD_take_append hlt]
  have hmodify := modifyInstruction_local env hpass hlt
    (editedFrom env pass answers lines (c + 2))
  rw [← hinv.instructions] at hmodify
  have hiff := accepts_iff env answers hpass (Nat.succ_pos c) hlt
  have htake : lines.take (c + 1) ++ [lines[c + 1]] = lines.take (c + 2) :=
    (List.take_succ_eq_append_getElem hlt).symm
  have hids (i : Nat) : c < i ↔ i = c + 1 ∨ c + 1 < i := by omega
  -- a line that is not accepted stays
  have hstays (hnot : ¬ accepts env pass answers lines (c + 1) = true) (t : LoopState)
      (hi : t.instructions = s.instructions) (hm : t.modifiableIds = s.modifiableIds) :
      LocalInv env pass answers lines c t := by
    refine ⟨by omega, ?_, ?_⟩
    · rw [hi, hinv.instructions, editedFrom_eq hlt, edited, if_neg hnot, ← htake,
        List.append_assoc]
    · intro i
      rw [hm, hinv.ids, hids]
      constructor
      · rintro ⟨hi, ha⟩
        exact ⟨Or.inr hi, ha⟩
      · rintro ⟨rfl | hi, ha⟩
        · exact absurd ha hnot
        · exact ⟨hi, ha⟩
  rcases minimizationStep_cases h with
    ⟨hskip, rfl⟩ | ⟨htried, modified, hne, hmod, ⟨hanswer, rfl⟩ | ⟨hanswer, rfl⟩⟩
  · refine hstays ?_ s' rfl rfl
    rw [hiff]
    rintro ⟨htried, ⟨edit, hedit⟩, -⟩
    rcases hskip with hskip | hskip
    · rw [hline, htried] at hskip
      exact absurd hskip (by simp)
    · rw [hmodify, hedit] at hskip
      have hnil := Option.some.inj hskip
      simp at hnil
      have hlen : lines.length = 0 := by simp [hnil.1]
      omega
  · rw [hmodify] at hmod
    rcases hchange : lineChange env lines[c + 1] pass with - | - | edit
    · rw [hchange] at hmod
      exact absurd hmod (by simp)
    · rw [hchange] at hmod
      exact absurd (Option.some.inj hmod).symm hne
    · rw [hchange] at hmod
      have hyes := hiff.mpr ⟨by rw [← hline]; exact htried, ⟨edit, hchange⟩, hanswer⟩
      refine ⟨by omega, ?_, ?_⟩
      · rw [← Option.some.inj hmod, editedFrom_eq hlt, edited, if_pos hyes]
        simp [lineEdit, hchange]
      · intro i
        rw [List.mem_append, List.mem_singleton, hinv.ids, hids]
        constructor
        · rintro (⟨hi, ha⟩ | rfl)
          · exact ⟨Or.inr hi, ha⟩
          · exact ⟨Or.inl rfl, hyes⟩
        · rintro ⟨rfl | hi, ha⟩
          · exact Or.inr rfl
          · exact Or.inl ⟨hi, ha⟩
  · refine hstays ?_ _ rfl rfl
    rw [hiff]
    rintro ⟨-, -, htrue⟩
    rw [hanswer] at htrue
    exact absurd htrue (by simp)

theorem accepts_zero : accepts env pass answers lines 0 = false := by simp [accepts]

/-- The running copy at the end of the loop, line by line. -/
theorem minimizationLoop_edited (hpass : pass.clearsTag)
    (h : minimizationLoop env pass answers lines = some s) :
    s.instructions = lines.zipIdx.flatMap (edited env pass answers lines) ∧
      ∀ i, i ∈ s.modifiableIds ↔ accepts env pass answers lines i = true := by
  have hinv : LocalInv env pass answers lines 0 s := by
    refine minimizationLoop_inv (P := LocalInv env pass answers lines) ?_ ?_ h
    · intro hne
      have hpos : 0 < lines.length := List.length_pos_iff.mpr hne
      refine ⟨by omega, ?_, ?_⟩
      · rw [show lines.length - 1 + 1 = lines.length by omega, editedFrom,
          List.drop_eq_nil_of_le (by simp)]
        simp
      · intro i
        simp [accepts]
        omega
    · intro c s s' hinv hstep
      exact hinv.step hpass hstep
  constructor
  · have hall : lines.zipIdx.flatMap (edited env pass answers lines) =
        editedFrom env pass answers lines 0 := rfl
    rw [hall, editedFrom_eq hinv.cursor_lt, edited, if_neg (by simp [accepts_zero]),
      hinv.instructions, List.take_succ_eq_append_getElem hinv.cursor_lt]
    simp
  · intro i
    rw [hinv.ids]
    cases i with
    | zero => simp [accepts_zero]
    | succ i => simp

end Local

/-! ## The cleared tags -/

theorem removeWord_of_not_contains {line : Text}
    (h : containsText instrumentationTag (lowerText line) = false) :
    removeWord instrumentationTag line = line := by
  apply removeWord_of_not_infix (by decide)
  intro hsub
  have hlower : lowerText instrumentationTag <:+: lowerText line := hsub.map _
  have htag : lowerText instrumentationTag = instrumentationTag := by decide
  rw [htag, ← containsText_iff_infix, h] at hlower
  exact absurd hlower (by simp)

/-- The test before the replacement makes no difference. -/
theorem clearTag_eq : clearTag = removeWord instrumentationTag := by
  funext line
  unfold clearTag
  cases h : containsText instrumentationTag (lowerText line) with
  | true => rw [if_pos rfl]
  | false => rw [if_neg (by simp), removeWord_of_not_contains h]

/-- A line of the running copy, and how often the pass clears its tag. -/
abbrev Marked := Text × Nat

def Marked.cleared (m : Marked) : Text := (removeWord instrumentationTag)^[m.2] m.1

def markLast (marks : List Marked) : List Marked :=
  marks.modify (marks.length - 1) fun m => (m.1, m.2 + 1)

/-- The lines of the running copy and of the returned program at the same time. -/
def markStep (env : PassEnv) (pass : InstructionPass) (answers : Nat → Bool) (lines : List Text)
    (marks : List Marked) (line : Text × Nat) : List Marked :=
  if accepts env pass answers lines line.2 then
    markLast marks ++ (lineEdit env pass line.1).map fun l => (l, 0)
  else marks ++ [(line.1, 0)]

def marksOf (env : PassEnv) (pass : InstructionPass) (answers : Nat → Bool) (lines : List Text) :
    List Marked :=
  lines.zipIdx.foldl (markStep env pass answers lines) []

section Marks

variable {lines : List Text}

theorem markLast_map_fst (marks : List Marked) :
    (markLast marks).map Prod.fst = marks.map Prod.fst := by
  unfold markLast
  apply List.ext_getElem?
  intro i
  simp only [List.getElem?_map, List.getElem?_modify]
  split
  · cases marks[i]? <;> rfl
  · cases marks[i]? <;> rfl

theorem markLast_map_cleared (marks : List Marked) :
    (markLast marks).map Marked.cleared =
      (marks.map Marked.cleared).modify ((marks.map Marked.cleared).length - 1) clearTag := by
  unfold markLast
  apply List.ext_getElem?
  intro i
  simp only [List.getElem?_map, List.getElem?_modify, List.length_map, clearTag_eq]
  cases marks[i]? with
  | none => split <;> rfl
  | some m =>
    split
    · simp [Marked.cleared, Function.iterate_succ_apply']
    · rfl

theorem markLast_append (marks : List Marked) (m : Marked) :
    markLast (marks ++ [m]) = marks ++ [(m.1, m.2 + 1)] := by
  unfold markLast
  apply List.ext_getElem?
  intro i
  rw [List.getElem?_modify, List.length_append, List.length_singleton]
  rcases Nat.lt_trichotomy i marks.length with hi | rfl | hi
  · rw [List.getElem?_append_left hi, List.getElem?_append_left hi]
    have hne : ¬ marks.length = i := by omega
    simp [hne]
  · simp
  · rw [List.getElem?_eq_none (by simp; omega), List.getElem?_eq_none (by simp; omega)]
    split <;> rfl

/-- The marked lines are those of the running copy. -/
theorem markStep_foldl_map_fst (ls : List (Text × Nat)) (marks : List Marked) :
    (ls.foldl (markStep env pass answers lines) marks).map Prod.fst =
      marks.map Prod.fst ++ ls.flatMap (edited env pass answers lines) := by
  induction ls generalizing marks with
  | nil => simp
  | cons line ls ih =>
    rw [List.foldl_cons, ih, List.flatMap_cons, ← List.append_assoc]
    congr 1
    unfold markStep edited
    split
    · rw [List.map_append, markLast_map_fst, List.map_map]
      exact congrArg _ (List.map_id' _)
    · simp

theorem lineEdit_removal (line : Text) : lineEdit env .removal line = [] := rfl

/-- The removal pass writes the cleared lines. -/
theorem keepOrRemove_foldl {ids : List Nat}
    (hids : ∀ i, i ∈ ids ↔ accepts env .removal answers lines i = true)
    (ls : List (Text × Nat)) (marks : List Marked) :
    ls.foldl (keepOrRemove ids) (marks.map Marked.cleared) =
      (ls.foldl (markStep env .removal answers lines) marks).map Marked.cleared := by
  induction ls generalizing marks with
  | nil => rfl
  | cons line ls ih =>
    rw [List.foldl_cons, List.foldl_cons, ← ih]
    congr 1
    unfold keepOrRemove markStep
    by_cases ha : accepts env .removal answers lines line.2 = true
    · rw [if_pos ((hids _).mpr ha), if_pos ha, lineEdit_removal, List.map_nil, List.append_nil,
        markLast_map_cleared]
    · rw [if_neg fun hmem => ha ((hids _).mp hmem), if_neg ha]
      simp [Marked.cleared]

/-- A line that the NOP pass changes has a replacement. -/
theorem nopLine_of_accepts {n : Nat} (h : n < lines.length)
    (ha : accepts env .nop answers lines n = true) :
    ∃ replacement, nopLine env lines[n] = some (some replacement) := by
  have hpos : 0 < n := by
    cases n with
    | zero =>
      rw [accepts_zero] at ha
      exact absurd ha (by simp)
    | succ n => exact Nat.succ_pos n
  obtain ⟨-, ⟨edit, hedit⟩, -⟩ := (accepts_iff env answers (Or.inr rfl) hpos h).mp ha
  simp only [lineChange, Option.map_eq_some_iff] at hedit
  obtain ⟨r, hr, replacement, hreplacement, -⟩ := hedit
  exact ⟨replacement, by rw [hr, hreplacement]⟩

/-- The NOP pass writes the cleared lines. -/
theorem keepOrNop_foldlM {ids : List Nat}
    (hids : ∀ i, i ∈ ids ↔ accepts env .nop answers lines i = true)
    {ls : List (Text × Nat)}
    (hls : ∀ line ∈ ls, ∃ h : line.2 < lines.length, lines[line.2] = line.1)
    (marks : List Marked) :
    ls.foldlM (keepOrNop env ids) (marks.map Marked.cleared) =
      some ((ls.foldl (markStep env .nop answers lines) marks).map Marked.cleared) := by
  induction ls generalizing marks with
  | nil => rfl
  | cons line ls ih =>
    rw [List.foldlM_cons, List.foldl_cons]
    have hstep : keepOrNop env ids (marks.map Marked.cleared) line =
        some ((markStep env .nop answers lines marks line).map Marked.cleared) := by
      unfold keepOrNop markStep
      by_cases ha : accepts env .nop answers lines line.2 = true
      · obtain ⟨hlt, hline⟩ := hls line List.mem_cons_self
        obtain ⟨replacement, hr⟩ := nopLine_of_accepts hlt ha
        rw [hline] at hr
        rw [if_pos ((hids _).mpr ha), if_pos ha, hr, List.map_append, markLast_map_cleared]
        simp [lineEdit, lineChange, hr, Marked.cleared]
      · rw [if_neg fun hmem => ha ((hids _).mp hmem), if_neg ha]
        simp [Marked.cleared]
    rw [hstep]
    exact ih (fun l hl => hls l (List.mem_cons_of_mem _ hl)) _

end Marks

/-! ## Where a cleared tag shows -/

/-- The tag is in the code of the line. -/
def TagInCode (isa : InstructionSet) (line : Text) : Prop :=
  instrumentationTag <:+: lineCode isa.commentSymbol line

/-- No changed line follows a line of the file that stays and has the tag in its code. -/
def TagsCommented (env : PassEnv) (pass : InstructionPass) (answers : Nat → Bool)
    (lines : List Text) : Prop :=
  ∀ i, accepts env pass answers lines (i + 1) = true → accepts env pass answers lines i = false →
    ¬ TagInCode env.isa (lines.getD i [])

section Clean

variable {lines : List Text}

theorem apart_tag (isa : InstructionSet) :
    Apart instrumentationTag [isa.commentSymbol, ['\n']] := by
  cases isa with
  | x86_64 => exact ⟨by decide, by decide, disjoint_of_all (by decide), by decide⟩
  | arm64 => exact ⟨by decide, by decide, disjoint_of_all (by decide), by decide⟩

theorem lineCode_cleared_iff (isa : InstructionSet) (m : Marked) :
    lineCode isa.commentSymbol m.cleared = lineCode isa.commentSymbol m.1 ↔
      (0 < m.2 → ¬ TagInCode isa m.1) :=
  beforeText_removeWords_iff (apart_tag isa) m.2

theorem not_tagInCode_nop {isa : InstructionSet} {size : Nat} {replacement : Text}
    (h : isa.nopReplacements.lookup size = some replacement) :
    ¬ TagInCode isa (replacement ++ ['\n']) := by
  have hall : ∀ r ∈ isa.nopReplacements,
      containsText instrumentationTag (lineCode isa.commentSymbol (r.2 ++ ['\n'])) = false := by
    cases isa with
    | x86_64 => decide +kernel
    | arm64 => decide +kernel
  obtain ⟨before, after, hsplit, -⟩ := List.lookup_eq_some_iff.mp h
  have hmem : (size, replacement) ∈ isa.nopReplacements := by
    rw [hsplit]
    simp
  unfold TagInCode
  rw [← containsText_iff_infix, hall _ hmem]
  simp

/-- A replacement is one of the table, with its end. -/
theorem nopLine_lookup {line replacement : Text} (h : nopLine env line = some (some replacement)) :
    ∃ size text, env.isa.nopReplacements.lookup size = some text ∧ text ++ ['\n'] = replacement := by
  unfold nopLine at h
  dsimp only at h
  split at h
  · cases h
  · split at h
    · cases h
    · obtain ⟨size, -, hlookup⟩ := Option.map_eq_some_iff.mp h
      obtain ⟨text, htext, heq⟩ := Option.map_eq_some_iff.mp hlookup
      exact ⟨size, text, htext, heq⟩

theorem not_tagInCode_lineEdit (hpass : pass.clearsTag) {line : Text} {edit : List Text}
    (h : lineChange env line pass = some (some edit)) : ∀ l ∈ edit, ¬ TagInCode env.isa l := by
  rcases hpass with rfl | rfl
  · cases h
    simp
  · simp only [lineChange, Option.map_eq_some_iff] at h
    obtain ⟨r, hr, replacement, rfl, rfl⟩ := h
    intro l hl
    obtain ⟨size, text, hlookup, rfl⟩ := nopLine_lookup hr
    rw [List.mem_singleton.mp hl]
    exact not_tagInCode_nop hlookup

/-- After some lines: what the last marked line is, and that the tags that were cleared so far
were in comments exactly if the lines so far have them there. -/
structure MarksInv (env : PassEnv) (pass : InstructionPass) (answers : Nat → Bool)
    (lines : List Text) (n : Nat) (marks : List Marked) : Prop where
  last : ∀ i, n = i + 1 → ∀ h : i < lines.length, ∃ init m, marks = init ++ [m] ∧
    ((accepts env pass answers lines i = false ∧ m = (lines[i], 0)) ∨
      (accepts env pass answers lines i = true ∧ (0 < m.2 ∨ ¬ TagInCode env.isa m.1)))
  clean : (∀ m ∈ marks, 0 < m.2 → ¬ TagInCode env.isa m.1) ↔
    ∀ i, i + 1 < n → accepts env pass answers lines (i + 1) = true →
      accepts env pass answers lines i = false → ¬ TagInCode env.isa (lines.getD i [])

theorem MarksInv.keep {n : Nat} {marks : List Marked} (h : n < lines.length)
    (hinv : MarksInv env pass answers lines n marks)
    (ha : accepts env pass answers lines n = false) :
    MarksInv env pass answers lines (n + 1) (marks ++ [(lines[n], 0)]) := by
  constructor
  · intro i hi hlt
    obtain rfl : n = i := by omega
    exact ⟨marks, _, rfl, Or.inl ⟨ha, rfl⟩⟩
  · have hnew : (∀ m ∈ marks ++ [((lines[n], 0) : Marked)], 0 < m.2 → ¬ TagInCode env.isa m.1) ↔
        ∀ m ∈ marks, 0 < m.2 → ¬ TagInCode env.isa m.1 := by
      rw [List.forall_mem_append]
      simp
    rw [hnew, hinv.clean]
    constructor
    · intro hold i hi hyes
      by_cases hin : i + 1 = n
      · rw [hin, ha] at hyes
        exact absurd hyes (by simp)
      · exact hold i (by omega) hyes
    · intro hold i hi
      exact hold i (by omega)

theorem MarksInv.change (hpass : pass.clearsTag) {i : Nat} {marks : List Marked}
    (h : i + 1 < lines.length) (hinv : MarksInv env pass answers lines (i + 1) marks)
    (ha : accepts env pass answers lines (i + 1) = true) :
    MarksInv env pass answers lines (i + 2)
      (markLast marks ++ (lineEdit env pass lines[i + 1]).map fun l => (l, 0)) := by
  obtain ⟨-, ⟨edit, hedit⟩, -⟩ := (accepts_iff env answers hpass (Nat.succ_pos i) h).mp ha
  have hle : lineEdit env pass lines[i + 1] = edit := by simp [lineEdit, hedit]
  obtain ⟨init, m, rfl, hm⟩ := hinv.last i rfl (by omega)
  have hget : lines.getD i [] = lines[i] := by
    rw [List.getD_eq_getElem?_getD, List.getElem?_eq_getElem (by omega), Option.getD_some]
  rw [markLast_append, hle]
  constructor
  · intro j hj hlt
    obtain rfl : i + 1 = j := by omega
    have hedits := not_tagInCode_lineEdit hpass hedit
    rcases List.eq_nil_or_concat edit with rfl | ⟨ls, l, rfl⟩
    · exact ⟨init, (m.1, m.2 + 1), by simp, Or.inr ⟨ha, Or.inl (Nat.succ_pos _)⟩⟩
    · refine ⟨init ++ [(m.1, m.2 + 1)] ++ ls.map fun l => (l, 0), (l, 0), by simp, ?_⟩
      exact Or.inr ⟨ha, Or.inr (hedits l (by simp))⟩
  · have hclean := hinv.clean
    rw [List.forall_mem_append] at hclean
    have hnew : (∀ x ∈ init ++ [((m.1, m.2 + 1) : Marked)] ++ edit.map fun l => (l, 0),
        0 < x.2 → ¬ TagInCode env.isa x.1) ↔
        (∀ x ∈ init, 0 < x.2 → ¬ TagInCode env.isa x.1) ∧ ¬ TagInCode env.isa m.1 := by
      rw [List.forall_mem_append, List.forall_mem_append]
      simp
    rw [hnew]
    constructor
    · rintro ⟨hinit, hlast⟩ j hj hyes hno
      by_cases hji : j = i
      · subst hji
        rcases hm with ⟨-, rfl⟩ | ⟨hm, -⟩
        · rwa [hget]
        · rw [hno] at hm
          exact absurd hm (by simp)
      · exact hclean.mp ⟨hinit, by simpa using fun _ => hlast⟩ j (by omega) hyes hno
    · intro hall
      have hold := hclean.mpr fun j hj => hall j (by omega)
      refine ⟨hold.1, ?_⟩
      rcases hm with ⟨hno, rfl⟩ | ⟨-, hpos | hnot⟩
      · have hi := hall i (by omega) ha hno
        rwa [hget] at hi
      · exact hold.2 m (by simp) hpos
      · exact hnot

/-- The cleared tags are in comments exactly if the lines of the file have them there. -/
theorem marks_clean_iff (hpass : pass.clearsTag) :
    (∀ m ∈ marksOf env pass answers lines, 0 < m.2 → ¬ TagInCode env.isa m.1) ↔
      TagsCommented env pass answers lines := by
  have hinv : MarksInv env pass answers lines lines.length (marksOf env pass answers lines) := by
    apply foldl_zipIdx_inv
    · exact ⟨by omega, by simp⟩
    · intro n marks h hinv
      unfold markStep
      by_cases ha : accepts env pass answers lines n = true
      · rw [if_pos ha]
        cases n with
        | zero =>
          rw [accepts_zero] at ha
          exact absurd ha (by simp)
        | succ i => exact hinv.change hpass h ha
      · rw [if_neg ha]
        exact hinv.keep h (by simpa using ha)
  rw [hinv.clean]
  constructor
  · intro hall i hyes
    have hlt : i + 1 < lines.length := by
      simp only [accepts, Bool.and_eq_true, decide_eq_true_eq] at hyes
      exact hyes.1.1.1.2
    exact hall i hlt hyes
  · intro hall i _
    exact hall i

end Clean

/-! ## Lines that are read back -/

section Ends

variable {lines : List Text}

theorem ended_removeWord {line : Text} (h : Ended line) :
    Ended (removeWord instrumentationTag line) := by
  obtain ⟨w, hw, rfl⟩ := h
  have hend : ∀ c ∈ ['\n'].head?, c ∉ instrumentationTag := by
    rintro c hc
    cases hc
    decide
  refine ⟨removeWord instrumentationTag w, ?_, ?_⟩
  · intro hmem
    exact hw (removeWord_subset (by decide) hmem)
  · rw [removeWord_append (by decide) hend]
    rfl

theorem ended_cleared {m : Marked} (h : Ended m.1) : Ended m.cleared := by
  unfold Marked.cleared
  induction m.2 with
  | zero => exact h
  | succ k ih =>
    rw [Function.iterate_succ_apply']
    exact ended_removeWord ih

theorem ended_nop {isa : InstructionSet} {size : Nat} {replacement : Text}
    (h : isa.nopReplacements.lookup size = some replacement) : Ended (replacement ++ ['\n']) := by
  have hall : ∀ r ∈ isa.nopReplacements, '\n' ∉ r.2 := by
    cases isa with
    | x86_64 => decide +kernel
    | arm64 => decide +kernel
  obtain ⟨before, after, hsplit, -⟩ := List.lookup_eq_some_iff.mp h
  exact ⟨replacement, hall (size, replacement) (by rw [hsplit]; simp), rfl⟩

theorem ended_lineEdit (hpass : pass.clearsTag) {line : Text} {edit : List Text}
    (h : lineChange env line pass = some (some edit)) : ∀ l ∈ edit, Ended l := by
  rcases hpass with rfl | rfl
  · cases h
    simp
  · intro l hl
    simp only [lineChange, Option.map_eq_some_iff] at h
    obtain ⟨r, hr, replacement, rfl, rfl⟩ := h
    obtain ⟨size, text, hlookup, rfl⟩ := nopLine_lookup hr
    rw [List.mem_singleton.mp hl]
    exact ended_nop hlookup

/-- Marked lines that have their ends, but for an unmarked last one. -/
def MarksEnded (lines : List Text) (n : Nat) (marks : List Marked) : Prop :=
  (∀ m ∈ marks, Ended m.1) ∨
    (n = lines.length ∧ ∃ init line, marks = init ++ [(line, 0)] ∧ (∀ m ∈ init, Ended m.1) ∧
      LastLine line)

theorem marksOf_ended (env : PassEnv) (answers : Nat → Bool) (hpass : pass.clearsTag) (hlines : LinesOk lines) :
    MarksEnded lines lines.length (marksOf env pass answers lines) := by
  apply foldl_zipIdx_inv
  · exact Or.inl (by simp)
  · intro n marks h hinv
    have hended : ∀ m ∈ marks, Ended m.1 := by
      rcases hinv with hended | ⟨hn, -⟩
      · exact hended
      · omega
    unfold markStep
    by_cases ha : accepts env pass answers lines n = true
    · rw [if_pos ha]
      have hpos : 0 < n := by
        cases n with
        | zero =>
          rw [accepts_zero] at ha
          exact absurd ha (by simp)
        | succ i => exact Nat.succ_pos i
      obtain ⟨-, ⟨edit, hedit⟩, -⟩ := (accepts_iff env answers hpass hpos h).mp ha
      left
      rw [List.forall_mem_append]
      constructor
      · intro m hm
        have hfst : m.1 ∈ (markLast marks).map Prod.fst := List.mem_map_of_mem hm
        rw [markLast_map_fst] at hfst
        obtain ⟨m', hm', heq⟩ := List.mem_map.mp hfst
        rw [← heq]
        exact hended m' hm'
      · intro m hm
        obtain ⟨l, hl, rfl⟩ := List.mem_map.mp hm
        have hedits := ended_lineEdit hpass hedit
        exact hedits l (by simpa [lineEdit, hedit] using hl)
    · rw [if_neg ha]
      by_cases hlast : n + 1 = lines.length
      · refine Or.inr ⟨hlast, marks, lines[n], rfl, hended, hlines.2 _ ?_⟩
        rw [List.getLast?_eq_getElem?, ← hlast]
        simp [h]
      · left
        rw [List.forall_mem_append]
        refine ⟨hended, ?_⟩
        have hmem : lines[n] ∈ lines.dropLast := by
          rw [← List.getElem_dropLast (by simp; omega)]
          exact List.getElem_mem _
        simpa using hlines.1 _ hmem

theorem linesOk_append {us : List Text} {line : Text} (hus : ∀ l ∈ us, Ended l)
    (hline : LastLine line) : LinesOk (us ++ [line]) :=
  ⟨by simpa using hus, by simpa using hline⟩

theorem linesOk_of_ended {us : List Text} (hus : ∀ l ∈ us, Ended l) : LinesOk us :=
  ⟨fun l hl => hus l (List.dropLast_subset us hl),
    fun l hl => Or.inl (hus l (List.mem_of_getLast? hl))⟩

theorem MarksEnded.linesOk {n : Nat} {marks : List Marked} (h : MarksEnded lines n marks) :
    LinesOk (marks.map Prod.fst) ∧ LinesOk (marks.map Marked.cleared) := by
  rcases h with hall | ⟨-, init, line, rfl, hinit, hline⟩
  · constructor
    · apply linesOk_of_ended
      simpa using fun a b hm => hall (a, b) hm
    · apply linesOk_of_ended
      intro l hl
      obtain ⟨m, hm, rfl⟩ := List.mem_map.mp hl
      exact ended_cleared (hall m hm)
  · rw [List.map_append, List.map_append]
    constructor
    · refine linesOk_append ?_ hline
      simpa using fun a b hm => hinit (a, b) hm
    · refine linesOk_append ?_ hline
      intro l hl
      obtain ⟨m, hm, rfl⟩ := List.mem_map.mp hl
      exact ended_cleared (hinit m hm)

end Ends

/-- The loop's running copy and the returned program, for the passes that clear the tag. -/
theorem run_marks {file : Text} {result : PassResult} (hpass : pass.clearsTag)
    (h : pass.run env answers file = some result) :
    lastVerified file result.verified =
        ((marksOf env pass answers (readLines file)).map Prod.fst).flatten ∧
      result.program =
        ((marksOf env pass answers (readLines file)).map Marked.cleared).flatten := by
  unfold InstructionPass.run at h
  rw [if_neg (by rintro ⟨rfl, -⟩; rcases hpass with hp | hp <;> cases hp)] at h
  obtain ⟨s, hloop, h⟩ := Option.bind_eq_some_iff.mp h
  obtain ⟨instructions, hreapply, h⟩ := Option.bind_eq_some_iff.mp h
  split at h
  · cases h
    obtain ⟨hinstr, hids⟩ := minimizationLoop_edited hpass hloop
    refine ⟨?_, ?_⟩
    · rw [minimizationLoop_lastVerified hloop, hinstr, marksOf, markStep_foldl_map_fst]
      simp
    · refine congrArg List.flatten ?_
      rcases hpass with rfl | rfl
      · rw [← Option.some.inj hreapply]
        exact keepOrRemove_foldl hids _ []
      · have hzip : ∀ line ∈ (readLines file).zipIdx,
            ∃ h : line.2 < (readLines file).length, (readLines file)[line.2] = line.1 := by
          rintro ⟨line, i⟩ hmem
          obtain ⟨hlt, hline⟩ := List.getElem?_eq_some_iff.mp (List.mem_zipIdx_iff_getElem?.mp hmem)
          exact ⟨hlt, hline⟩
        have hfold := keepOrNop_foldlM hids hzip []
        exact Option.some.inj (hreapply.symm.trans hfold)
  · exact absurd h (by simp)

/-- The other passes return the running copy as it is. -/
theorem run_eq_lastVerified {file : Text} {result : PassResult} (hpass : ¬ pass.clearsTag)
    (h : pass.run env answers file = some result) :
    result.program = lastVerified file result.verified := by
  unfold InstructionPass.run at h
  split at h
  · cases h
    rfl
  · obtain ⟨s, hloop, h⟩ := Option.bind_eq_some_iff.mp h
    obtain ⟨instructions, hreapply, h⟩ := Option.bind_eq_some_iff.mp h
    split at h
    · cases h
      rw [minimizationLoop_lastVerified hloop]
      have hmodify := minimizationLoop_modify hloop
      refine congrArg List.flatten ?_
      cases pass with
      | removal => exact absurd (Or.inl rfl) hpass
      | nop => exact absurd (Or.inr rfl) hpass
      | fence =>
        have hfence := Option.some.inj hreapply
        exact hfence.symm.trans (minimizationLoop_insertFence hloop)
      | simplification => exact Option.some.inj (hreapply.symm.trans hmodify)
      | constant => exact Option.some.inj (hreapply.symm.trans hmodify)
      | mask => exact Option.some.inj (hreapply.symm.trans hmodify)
    · exact absurd h (by simp)

/-- The program that a pass returns is the last verified one up to comments, exactly if the pass
clears no tag outside of a comment. -/
theorem run_sameCode_iff {env : PassEnv} {pass : InstructionPass} {answers : Nat → Bool}
    {file : Text} {result : PassResult} (h : pass.run env answers file = some result) :
    SameCode env.isa.commentSymbol result.program (lastVerified file result.verified) ↔
      (pass.clearsTag → TagsCommented env pass answers (readLines file)) := by
  by_cases hpass : pass.clearsTag
  · obtain ⟨hlast, hprogram⟩ := run_marks hpass h
    obtain ⟨hok, hcleared⟩ :=
      (marksOf_ended env answers hpass (linesOk_readLines file)).linesOk
    rw [hlast, hprogram, sameCode_flatten_iff hcleared hok, List.map_map, List.map_map,
      List.map_inj_left, ← marks_clean_iff hpass]
    have heach (m : Marked) := lineCode_cleared_iff env.isa m
    simp [hpass, heach]
  · rw [run_eq_lastVerified hpass h]
    simp [hpass, SameCode]

section Samples

/-- An environment in which every program can be parsed. -/
def sampleEnv : PassEnv := ⟨.x86_64, fun _ => some 4, fun _ => true⟩

/-- A masked access whose last instruction can be removed; the tag of the line before it is in a
comment. -/
def maskedSample : Text :=
  ".intel_syntax noprefix\nand rbx, 0b111 # instrumentation\nadd rcx, rbx\n".toList

/-- The verified program, and the returned one without the tag. -/
theorem run_sameCode_maskedSample :
    SameCode "#".toList ".intel_syntax noprefix\nand rbx, 0b111 # \n".toList
      ".intel_syntax noprefix\nand rbx, 0b111 # instrumentation\n".toList := by
  have hrun : InstructionPass.removal.run sampleEnv (fun _ => true) maskedSample =
      some ⟨".intel_syntax noprefix\nand rbx, 0b111 # \n".toList,
        [([".intel_syntax noprefix\n".toList,
          "and rbx, 0b111 # instrumentation\n".toList], true)]⟩ := by rfl
  refine (run_sameCode_iff hrun).mpr ?_
  intro _ i hyes hno
  have hlt : i + 1 < 3 := by
    simp only [accepts, Bool.and_eq_true, decide_eq_true_eq] at hyes
    exact hyes.1.1.1.2
  unfold TagInCode
  rw [← containsText_iff_infix]
  have hcases : i = 0 ∨ i = 1 := by omega
  rcases hcases with rfl | rfl
  · decide +kernel
  · decide +kernel

/-- The removed instruction follows a label that has the tag in its name. -/
def labelSample : Text :=
  ".intel_syntax noprefix\n.bb_instrumentation:\nadd rcx, rbx\n.test_case_exit:\n".toList

/-- The returned program has another label than the one that was verified. -/
theorem run_labelSample_not_sameCode :
    ∃ result, InstructionPass.removal.run sampleEnv (fun _ => true) labelSample = some result ∧
      ¬ SameCode "#".toList result.program (lastVerified labelSample result.verified) := by
  refine ⟨⟨".intel_syntax noprefix\n.bb_:\n.test_case_exit:\n".toList,
    [([".intel_syntax noprefix\n".toList, ".bb_instrumentation:\n".toList,
      ".test_case_exit:\n".toList], true)]⟩, rfl, ?_⟩
  unfold SameCode
  decide +kernel

end Samples

end Rvzr.Postprocessing
