import Rvzr.Lib.Lines

/-!
# Numerals in printed lists

The maximal runs of digits, signs and dots of a text. The runs of a printed Python list are its
numbers, and those of a printed numpy array the numbers that numpy shows, with the ellipsis: so two
arrays print alike exactly when numpy shows the same of them (`numpyStr_eq_iff`).
-/

namespace Rvzr.Lib

section Runs

/-- Characters of numbers, and of the ellipsis. -/
def isNumeral (c : Char) : Bool := c.isDigit || c = '-' || c = '.'

/-- The run at the start of a text, and the later ones. -/
def leadingRun : Text → Text × List Text
  | [] => ([], [])
  | c :: cs =>
    let next := leadingRun cs
    if isNumeral c then (c :: next.1, next.2)
    else ([], if next.1 = [] then next.2 else next.1 :: next.2)

/-- The maximal runs of numeral characters. -/
def runs (t : Text) : List Text :=
  if (leadingRun t).1 = [] then (leadingRun t).2 else (leadingRun t).1 :: (leadingRun t).2

variable {a b t w : Text} {c : Char}

theorem leadingRun_append_cons (hc : isNumeral c = false) :
    leadingRun (a ++ c :: b) = ((leadingRun a).1, (leadingRun a).2 ++ runs b) := by
  induction a with
  | nil => simp [leadingRun, hc, runs]
  | cons d ds ih =>
    rw [List.cons_append, leadingRun, ih, leadingRun]
    by_cases hd : isNumeral d = true
    · simp [hd]
    · by_cases hrun : (leadingRun ds).1 = []
      · simp [hd, hrun]
      · simp [hd, hrun]

theorem runs_append_cons (hc : isNumeral c = false) : runs (a ++ c :: b) = runs a ++ runs b := by
  simp only [runs, leadingRun_append_cons hc]
  by_cases hrun : (leadingRun a).1 = []
  · simp [hrun]
  · simp [hrun]

theorem runs_nil : runs [] = [] := rfl

theorem runs_cons (hc : isNumeral c = false) : runs (c :: b) = runs b := by
  simpa [runs_nil] using runs_append_cons (a := []) (b := b) hc

theorem runs_concat (hc : isNumeral c = false) : runs (a ++ [c]) = runs a := by
  simpa [runs_nil] using runs_append_cons (a := a) (b := []) hc

theorem runs_append_blanks (n : Nat) : runs (a ++ List.replicate n ' ') = runs a := by
  induction n with
  | zero => simp
  | succ n ih => rw [List.replicate_succ', ← List.append_assoc, runs_concat (by decide), ih]

theorem runs_of_numerals (hw : ∀ c ∈ w, isNumeral c = true) (hne : w ≠ []) : runs w = [w] := by
  have hlead : leadingRun w = (w, []) := by
    clear hne
    induction w with
    | nil => rfl
    | cons c cs ih =>
      rw [leadingRun, ih fun x hx => hw x (List.mem_cons_of_mem _ hx)]
      simp [hw c List.mem_cons_self]
  rw [runs, hlead, if_neg hne]

theorem runs_padLeft (n : Nat) (hw : ∀ c ∈ w, isNumeral c = true) (hne : w ≠ []) :
    runs (padLeft n w) = [w] := by
  rw [padLeft]
  induction n - w.length with
  | zero => exact runs_of_numerals hw hne
  | succ k ih => rw [List.replicate_succ, List.cons_append, runs_cons (by decide), ih]

theorem isNumeral_strNat (n : Nat) : ∀ c ∈ strNat n, isNumeral c = true := by
  intro c hc
  simp [isNumeral, isDigit_of_mem_strNat hc]

theorem strNat_ne_nil (n : Nat) : strNat n ≠ [] := Nat.toDigits_ne_nil

theorem isNumeral_strInt (n : Int) : ∀ c ∈ strInt n, isNumeral c = true := by
  cases n with
  | ofNat n => exact isNumeral_strNat n
  | negSucc n =>
    intro c hc
    obtain rfl | hc := List.mem_cons.1 hc
    · decide
    · exact isNumeral_strNat (n + 1) c hc

theorem strInt_ne_nil (n : Int) : strInt n ≠ [] := by
  cases n with
  | ofNat n => exact strNat_ne_nil n
  | negSucc n => exact List.cons_ne_nil _ _

theorem strNat_injective : Function.Injective strNat := by
  intro m n h
  have hm := pyInt_strNat m
  rw [h, pyInt_strNat n] at hm
  have heq := Option.some.inj hm
  omega

theorem strInt_injective : Function.Injective strInt := by
  intro m n h
  have hminus : ∀ n, '-' ∉ strNat n := fun n => not_mem_strNat (by decide)
  cases m with
  | ofNat m =>
    cases n with
    | ofNat n => rw [strNat_injective h]
    | negSucc n =>
      have h' : strNat m = '-' :: strNat (n + 1) := h
      exact absurd (h' ▸ List.mem_cons_self) (hminus m)
  | negSucc m =>
    cases n with
    | ofNat n =>
      have h' : '-' :: strNat (m + 1) = strNat n := h
      exact absurd (h' ▸ List.mem_cons_self) (hminus n)
    | negSucc n =>
      have h' := strNat_injective (List.cons.inj h).2
      omega

end Runs

/-! ### Python lists -/

theorem runs_joinText {ws : List Text} (hws : ∀ w ∈ ws, (∀ c ∈ w, isNumeral c = true) ∧ w ≠ []) :
    runs (joinText [',', ' '] ws) = ws := by
  induction ws with
  | nil => rfl
  | cons w ws ih =>
    have hw := hws w List.mem_cons_self
    have hrest := ih fun x hx => hws x (List.mem_cons_of_mem _ hx)
    cases ws with
    | nil => exact runs_of_numerals hw.1 hw.2
    | cons v vs =>
      have hjoin : joinText [',', ' '] (w :: v :: vs) =
          w ++ ',' :: ' ' :: joinText [',', ' '] (v :: vs) := by simp [joinText]
      rw [hjoin, runs_append_cons (by decide), runs_of_numerals hw.1 hw.2, runs_cons (by decide), hrest]
      rfl

theorem runs_strIntList (xs : List Int) : runs (strIntList xs) = xs.map strInt := by
  rw [strIntList, runs_concat (by decide), runs_cons (by decide)]
  apply runs_joinText
  intro w hw
  obtain ⟨n, -, rfl⟩ := List.mem_map.1 hw
  exact ⟨isNumeral_strInt n, strInt_ne_nil n⟩

theorem strIntList_injective : Function.Injective strIntList := by
  intro xs ys h
  have hruns := congrArg runs h
  rw [runs_strIntList, runs_strIntList] at hruns
  exact List.map_injective_iff.2 strInt_injective hruns

/-! ### Numpy arrays -/

section Numpy

variable {out : Text × Text} {l w : Text} {ws : List Text} {width : Nat}

theorem eq_rstrip_append (t : Text) : ∃ n, t = rstrip t ++ List.replicate n ' ' := by
  have hblanks : ∀ u : Text, ∃ n, u = List.replicate n ' ' ++ u.dropWhile (· = ' ') := by
    intro u
    induction u with
    | nil => exact ⟨0, rfl⟩
    | cons c cs ih =>
      by_cases hc : c = ' '
      · obtain ⟨n, hn⟩ := ih
        refine ⟨n + 1, ?_⟩
        rw [hc, List.dropWhile_cons_of_pos (by simp), List.replicate_succ, List.cons_append, ← hn]
      · exact ⟨0, by rw [List.dropWhile_cons_of_neg (by simp [hc])]; rfl⟩
  obtain ⟨n, hn⟩ := hblanks t.reverse
  refine ⟨n, ?_⟩
  have hrev := congrArg List.reverse hn
  rwa [List.reverse_reverse, List.reverse_append, List.reverse_replicate] at hrev

/-- The text so far. -/
def written (out : Text × Text) : Text := out.1 ++ out.2

/-- A text whose first character belongs to no number. -/
def StartsBlank (t : Text) : Prop := ∃ c cs, t = c :: cs ∧ isNumeral c = false

theorem StartsBlank.append {t u : Text} (h : StartsBlank t) : StartsBlank (t ++ u) := by
  obtain ⟨c, cs, rfl, hc⟩ := h
  exact ⟨c, cs ++ u, rfl, hc⟩

variable (w width) in
theorem extendLine_spec (hl : out.2 = l ++ [' ']) (hstart : StartsBlank (written out)) :
    runs (written (extendLine width out w)) = runs (written out) ++ runs w ∧
      StartsBlank (written (extendLine width out w)) := by
  rw [extendLine]
  split
  · obtain ⟨n, hn⟩ := eq_rstrip_append out.2
    have hkept : runs (out.1 ++ rstrip out.2) = runs (written out) := by
      rw [written, hn, ← List.append_assoc, runs_append_blanks, ← hn]
    constructor
    · rw [written]
      simp only [List.append_assoc, List.cons_append, List.nil_append]
      rw [← List.append_assoc, runs_append_cons (by decide), runs_cons (by decide), hkept]
    · rw [written]
      simp only [List.append_assoc, List.cons_append, List.nil_append]
      rw [← List.append_assoc]
      cases hfirst : out.1 ++ rstrip out.2 with
      | nil => exact ⟨'\n', _, rfl, by decide⟩
      | cons c cs =>
        obtain ⟨d, ds, hd, hblank⟩ := hstart
        have hwritten : written out = out.1 ++ rstrip out.2 ++ List.replicate n ' ' := by
          rw [written, List.append_assoc, ← hn]
        rw [hwritten, hfirst] at hd
        obtain ⟨rfl, -⟩ := List.cons.inj hd
        exact ⟨c, _, rfl, hblank⟩
  · constructor
    · rw [written, written, hl]
      simp only [List.append_assoc, List.cons_append, List.nil_append]
      rw [← List.append_assoc, ← List.append_assoc, runs_append_cons (by decide),
        runs_concat (by decide)]
    · have h := hstart.append (u := w)
      rwa [written, List.append_assoc] at h

variable (ws width) in
/-- The numerals of the lines are those of their words. -/
theorem extendLines_spec (hl : out.2 = l ++ [' ']) (hstart : StartsBlank (written out)) :
    runs (written (extendLines width out ws)) = runs (written out) ++ ws.flatMap runs ∧
      StartsBlank (written (extendLines width out ws)) := by
  induction ws generalizing out l with
  | nil => exact ⟨by simp [extendLines], hstart⟩
  | cons w ws ih =>
    obtain ⟨hruns, hblank⟩ := extendLine_spec w width hl hstart
    cases ws with
    | nil => exact ⟨by simpa [extendLines] using hruns, hblank⟩
    | cons v vs =>
      have hwritten : written ((extendLine width out w).1, (extendLine width out w).2 ++ [' ']) =
          written (extendLine width out w) ++ [' '] := by simp [written]
      have hstart' : StartsBlank (written ((extendLine width out w).1,
          (extendLine width out w).2 ++ [' '])) := by
        rw [hwritten]
        exact hblank.append
      obtain ⟨hrest, hblank'⟩ := ih rfl hstart'
      rw [hwritten, runs_concat (by decide), hruns] at hrest
      rw [extendLines]
      · refine ⟨?_, hblank'⟩
        rw [hrest, List.append_assoc]
        rfl
      · simp

/-- The numerals of the words between the brackets. -/
theorem runs_lines (words : List Text) :
    runs ('[' :: ((extendLines 74 ([], [' ']) words).1 ++
      (extendLines 74 ([], [' ']) words).2).drop 1 ++ [']']) = words.flatMap runs := by
  have hstart : StartsBlank (written ([], [' '])) := ⟨' ', [], rfl, by decide⟩
  obtain ⟨hruns, c, cs, hcs, hc⟩ := extendLines_spec words 74 (l := []) rfl hstart
  have hblank : runs (written ([], [' '])) = [] := rfl
  rw [hcs, runs_cons hc, hblank, List.nil_append] at hruns
  rw [written] at hcs
  rw [hcs, List.drop_one, List.tail_cons, runs_concat (by decide), runs_cons (by decide), hruns]

/-- The numbers that numpy shows, with the ellipsis. -/
theorem runs_numpyStr (xs : List Nat) :
    runs (numpyStr xs) = (numpyShown xs).1.map strNat ++
      (if 1000 < xs.length then [['.', '.', '.']] else []) ++ (numpyShown xs).2.map strNat := by
  by_cases hnil : xs = []
  · subst hnil
    rfl
  · have hwords : ∀ (n : Nat) (ns : List Nat),
        (ns.map fun k => padLeft n (strNat k)).flatMap runs = ns.map strNat := by
      intro n ns
      induction ns with
      | nil => rfl
      | cons k ns ih =>
        rw [List.map_cons, List.flatMap_cons, ih, runs_padLeft n (isNumeral_strNat k) (strNat_ne_nil k)]
        rfl
    have hdots : (if 1000 < xs.length then [['.', '.', '.']] else [] : List Text).flatMap runs =
        if 1000 < xs.length then [['.', '.', '.']] else [] := by
      split <;> rfl
    rw [numpyStr, if_neg hnil]
    refine (runs_lines _).trans ?_
    simp only [List.flatMap_append, hwords, hdots]

theorem numpyShown_snd (xs : List Nat) : (numpyShown xs).2 = [] ↔ ¬1000 < xs.length := by
  rw [numpyShown]
  split
  · rename_i h
    have hlen : (xs.drop (xs.length - 3)).length = 3 := by simp; omega
    refine iff_of_false ?_ (by simpa using h)
    intro hnil
    dsimp only at hnil
    rw [hnil] at hlen
    exact absurd hlen (by decide)
  · rename_i h
    simpa using h

/-- Two arrays print alike exactly when the same numbers of them are shown. -/
theorem numpyStr_eq_iff {xs ys : List Nat} :
    numpyStr xs = numpyStr ys ↔ numpyShown xs = numpyShown ys := by
  constructor
  · intro h
    have hruns := congrArg runs h
    rw [runs_numpyStr, runs_numpyStr] at hruns
    have hdots : ∀ n, strNat n ≠ ['.', '.', '.'] := by
      intro n hn
      exact absurd (hn ▸ List.mem_cons_self : '.' ∈ strNat n) (not_mem_strNat (by decide))
    have hmem : ∀ ns : List Nat, ['.', '.', '.'] ∉ ns.map strNat := by
      intro ns hns
      obtain ⟨n, -, hn⟩ := List.mem_map.1 hns
      exact hdots n hn
    have hin : ∀ n, ['.', '.', '.'] ∈ (if 1000 < n then [['.', '.', '.']] else [] : List Text) ↔
        1000 < n := by
      intro n
      split <;> simp_all
    have hlong : 1000 < xs.length ↔ 1000 < ys.length := by
      have hiff := congrArg (fun ws => ['.', '.', '.'] ∈ ws) hruns
      simp only [List.mem_append, hmem, or_false, false_or, hin] at hiff
      exact iff_of_eq hiff
    have hinj := List.map_injective_iff.2 strNat_injective
    by_cases hx : 1000 < xs.length
    · have hy := hlong.1 hx
      simp only [numpyShown, if_pos hx, if_pos hy, List.append_assoc] at hruns ⊢
      obtain ⟨hfirst, hrest⟩ := List.append_inj hruns (by simp; omega)
      rw [hinj hfirst, hinj (List.append_cancel_left hrest)]
    · have hy := mt hlong.2 hx
      simp only [numpyShown, if_neg hx, if_neg hy, List.append_nil, List.map_nil] at hruns ⊢
      rw [hinj hruns]
  · intro h
    have hlong : 1000 < xs.length ↔ 1000 < ys.length := by
      have hx := numpyShown_snd xs
      rw [h, numpyShown_snd ys] at hx
      exact (not_iff_not.1 hx).symm
    have hempty : ∀ zs : List Nat, zs = [] ↔ numpyShown zs = ([], []) := by
      intro zs
      rw [numpyShown]
      split
      · rename_i hz
        have hne : zs ≠ [] := by
          rintro rfl
          exact absurd hz (by decide)
        simp [hne]
      · simp
    have hnil : xs = [] ↔ ys = [] := by rw [hempty xs, hempty ys, h]
    simp only [numpyStr, h, hlong, hnil]

/-- What numpy leaves out of a long array. -/
theorem numpyStr_frame {first last : List Nat} (hfirst : first.length = 3) (hlast : last.length = 3)
    {xs ys : List Nat} (hxs : 995 ≤ xs.length) (hys : 995 ≤ ys.length) :
    numpyStr (first ++ xs ++ last) = numpyStr (first ++ ys ++ last) := by
  have hshown : ∀ zs : List Nat, 995 ≤ zs.length →
      numpyShown (first ++ zs ++ last) = (first, last) := by
    intro zs hzs
    have hlen : (first ++ zs ++ last).length = (first ++ zs).length + 3 := by
      rw [List.length_append, hlast]
    have hlong : (first ++ zs).length = 3 + zs.length := by rw [List.length_append, hfirst]
    have hdrop : (first ++ zs ++ last).length - 3 = (first ++ zs).length := by omega
    rw [numpyShown, if_pos (by omega), hdrop, List.drop_left, List.append_assoc, ← hfirst,
      List.take_left]
  rw [numpyStr_eq_iff, hshown xs hxs, hshown ys hys]

end Numpy

end Rvzr.Lib
