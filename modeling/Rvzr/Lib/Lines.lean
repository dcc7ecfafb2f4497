import Rvzr.Lib.Text

/-!
# Reading printed numbers back

The operations of Python on text that a reader of numbers uses: `split`, `in` and `int`. The
results say that they invert `joinText` and `strNat`.
-/

namespace Rvzr.Lib

/-- `t.split(sep)` for a separator of one character. -/
def splitText (sep : Char) : Text → List Text
  | [] => [[]]
  | c :: cs =>
    if c = sep then [] :: splitText sep cs
    else
      match splitText sep cs with
      | [] => [[c]]
      | w :: ws => (c :: w) :: ws

/-- `pat in t`. -/
def containsText (pat : Text) : Text → Bool
  | [] => pat.isEmpty
  | c :: cs => pat.isPrefixOf (c :: cs) || containsText pat cs

/-- The digits of a number may be grouped by single underscores. -/
def digitsValid : Text → Bool
  | [] => false
  | [c] => c.isDigit
  | c :: d :: cs => c.isDigit && (digitsValid (d :: cs) || (d == '_' && digitsValid cs))

/-- White space that `int` ignores around a number. -/
def isBlank (c : Char) : Bool := c == ' ' || (9 ≤ c.toNat && c.toNat ≤ 13)

/-- `t.strip()`. -/
def stripText (t : Text) : Text := ((t.dropWhile isBlank).reverse.dropWhile isBlank).reverse

/-- `t.lower()` of a text in ASCII. -/
def lowerText (t : Text) : Text := t.map Char.toLower

/-- The value of an unsigned literal. -/
def pyNat (t : Text) : Option Nat :=
  if digitsValid t then some (Nat.ofDigitChars 10 (t.filter (· != '_')) 0) else none

/-- `int(t)`; `none` is a `ValueError`. -/
def pyInt (t : Text) : Option Int :=
  match stripText t with
  | '-' :: ds => (pyNat ds).map fun n => -(n : Int)
  | '+' :: ds => (pyNat ds).map fun n => (n : Int)
  | ds => (pyNat ds).map fun n => (n : Int)

section Split

theorem splitText_of_not_mem {sep : Char} {w : Text} (h : sep ∉ w) : splitText sep w = [w] := by
  induction w with
  | nil => rfl
  | cons c cs ih =>
    rw [List.mem_cons, not_or] at h
    rw [splitText, if_neg (Ne.symm h.1), ih h.2]

theorem splitText_append {sep : Char} {w : Text} (h : sep ∉ w) (rest : Text) :
    splitText sep (w ++ sep :: rest) = w :: splitText sep rest := by
  induction w with
  | nil => rw [List.nil_append, splitText, if_pos rfl]
  | cons c cs ih =>
    rw [List.mem_cons, not_or] at h
    rw [List.cons_append, splitText, if_neg (Ne.symm h.1), ih h.2]

theorem splitText_join {sep : Char} {ws : List Text} (hne : ws ≠ []) (h : ∀ w ∈ ws, sep ∉ w) :
    splitText sep (joinText [sep] ws) = ws := by
  induction ws with
  | nil => exact absurd rfl hne
  | cons w ws ih =>
    cases ws with
    | nil => exact splitText_of_not_mem (h w (by simp))
    | cons v vs =>
      have hrest := ih (by simp) fun u hu => h u (List.mem_cons_of_mem _ hu)
      rw [joinText, List.append_assoc, List.singleton_append,
        splitText_append (h w (by simp)), hrest]
      simp

/-- A text is only contained where its first character is. -/
theorem containsText_of_not_mem {c : Char} {pat t : Text} (h : c ∉ t) :
    containsText (c :: pat) t = false := by
  induction t with
  | nil => rfl
  | cons d ds ih =>
    rw [List.mem_cons, not_or] at h
    have hne : (c == d) = false := by simpa using h.1
    rw [containsText, ih h.2, Bool.or_false, List.isPrefixOf, hne, Bool.false_and]

theorem containsText_iff_infix {pat t : Text} : containsText pat t = true ↔ pat <:+: t := by
  induction t with
  | nil => simp [containsText]
  | cons c cs ih =>
    rw [containsText, Bool.or_eq_true, ih, List.isPrefixOf_iff_prefix, List.infix_cons_iff]

theorem containsText_append (pat : Text) {t u : Text} (h : containsText pat u = true) :
    containsText pat (t ++ u) = true := by
  induction t with
  | nil => exact h
  | cons c cs ih => rw [List.cons_append, containsText, ih, Bool.or_true]

end Split

section Decimal

theorem isDigit_of_mem_strNat {n : Nat} {c : Char} (h : c ∈ strNat n) : c.isDigit = true :=
  Nat.isDigit_of_mem_toDigits (by decide) (by decide) h

theorem not_mem_strNat {n : Nat} {c : Char} (h : c.isDigit = false) : c ∉ strNat n := by
  intro hc
  rw [isDigit_of_mem_strNat hc] at h
  exact absurd h (by simp)

theorem digitsValid_of_forall {t : Text} (hne : t ≠ []) (h : ∀ c ∈ t, c.isDigit = true) :
    digitsValid t = true := by
  induction t with
  | nil => exact absurd rfl hne
  | cons c cs ih =>
    cases cs with
    | nil => exact h c (by simp)
    | cons d ds =>
      have hrest := ih (by simp) fun x hx => h x (List.mem_cons_of_mem _ hx)
      rw [digitsValid, h c (by simp), hrest]
      rfl

theorem isBlank_of_isDigit {c : Char} (h : c.isDigit = true) : isBlank c = false := by
  have hval : 48 ≤ c.toNat := by
    simp only [Char.isDigit, Bool.and_eq_true, decide_eq_true_eq] at h
    exact h.1
  have hspace : c ≠ ' ' := by
    intro heq
    rw [heq] at hval
    exact absurd hval (by decide)
  unfold isBlank
  simp only [Bool.or_eq_false_iff, beq_eq_false_iff_ne, Bool.and_eq_false_iff,
    decide_eq_false_iff_not]
  exact ⟨hspace, Or.inr (by omega)⟩

theorem stripText_of_digits {t : Text} (h : ∀ c ∈ t, c.isDigit = true) : stripText t = t := by
  have hdrop : ∀ u : Text, (∀ c ∈ u, c.isDigit = true) → u.dropWhile isBlank = u := by
    intro u hu
    cases u with
    | nil => rfl
    | cons c cs => rw [List.dropWhile_cons_of_neg (by simp [isBlank_of_isDigit (hu c (by simp))])]
  unfold stripText
  rw [hdrop t h, hdrop t.reverse fun c hc => h c (List.mem_reverse.mp hc), List.reverse_reverse]

/-- `int(str(n)) == n`. -/
theorem pyInt_strNat (n : Nat) : pyInt (strNat n) = some (n : Int) := by
  have hdig : ∀ c ∈ strNat n, c.isDigit = true := fun c hc => isDigit_of_mem_strNat hc
  have hne : strNat n ≠ [] := Nat.toDigits_ne_nil
  have hfilter : (strNat n).filter (· != '_') = strNat n := by
    rw [List.filter_eq_self]
    intro c hc
    have : c ≠ '_' := fun heq => absurd (hdig c hc) (by rw [heq]; decide)
    simpa using this
  have hnat : pyNat (strNat n) = some n := by
    unfold pyNat
    rw [if_pos (digitsValid_of_forall hne hdig), hfilter]
    exact congrArg some Nat.ofDigitChars_ten_toDigits
  unfold pyInt
  rw [stripText_of_digits hdig]
  split
  · rename_i heq
    exact absurd (hdig '-' (by rw [heq]; simp)) (by decide)
  · rename_i heq
    exact absurd (hdig '+' (by rw [heq]; simp)) (by decide)
  · rw [hnat]
    rfl

end Decimal

end Rvzr.Lib
