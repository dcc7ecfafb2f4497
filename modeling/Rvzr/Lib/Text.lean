import Mathlib.Algebra.Ring.Int.Defs
import Mathlib.Algebra.Ring.Nat
import Mathlib.Data.List.Basic

/-!
# Printed numbers

Text is a list of characters. Numbers are printed in decimal; `numpyStr` is what `str` gives
for a one-dimensional numpy array of unsigned integers (`numpy.array2string` with its default
options): equally wide columns, lines of at most 75 characters and, above 1000 elements, only
the three first and the three last ones around an ellipsis.
-/

namespace Rvzr.Lib

abbrev Text := List Char

instance : LawfulBEq Text := inferInstance

/-- `str(n)` of a natural number. -/
def strNat (n : Nat) : Text := Nat.toDigits 10 n

/-- `str(i)` of an integer. -/
def strInt : Int → Text
  | .ofNat n => strNat n
  | .negSucc n => '-' :: strNat (n + 1)

/-- `sep.join(words)`. -/
def joinText (sep : Text) : List Text → Text
  | [] => []
  | [w] => w
  | w :: ws => w ++ sep ++ joinText sep ws

/-- `str` of a Python list of integers. -/
def strIntList (xs : List Int) : Text := '[' :: joinText [',', ' '] (xs.map strInt) ++ [']']

/-- `t.rjust(w)`. -/
def padLeft (w : Nat) (t : Text) : Text := List.replicate (w - t.length) ' ' ++ t

/-- `t.rstrip()` of a line without other white space. -/
def rstrip (t : Text) : Text := (t.reverse.dropWhile (· = ' ')).reverse

/-- numpy's `_extendLine`: put `word` on the current line, or on a new one if it does not
fit and the current line holds more than its indentation. -/
def extendLine (width : Nat) (out : Text × Text) (word : Text) : Text × Text :=
  if width < out.2.length + word.length ∧ 1 < out.2.length then
    (out.1 ++ rstrip out.2 ++ ['\n'], ' ' :: word)
  else (out.1, out.2 ++ word)

/-- The words of one array, separated by blanks, starting from the text `out`. -/
def extendLines (width : Nat) (out : Text × Text) : List Text → Text × Text
  | [] => out
  | [w] => extendLine width out w
  | w :: ws =>
    let next := extendLine width out w
    extendLines width (next.1, next.2 ++ [' ']) ws

/-- The numbers numpy prints of an array, before and after the ellipsis. -/
def numpyShown (xs : List Nat) : List Nat × List Nat :=
  if 1000 < xs.length then (xs.take 3, xs.drop (xs.length - 3)) else (xs, [])

/-- `str` of a one-dimensional numpy array of unsigned integers. -/
def numpyStr (xs : List Nat) : Text :=
  if xs = [] then ['[', ']']
  else
    let shown := numpyShown xs
    let column := ((shown.1 ++ shown.2).map fun n => (strNat n).length).foldl max 0
    let word := fun n => padLeft column (strNat n)
    let words := shown.1.map word ++
      (if 1000 < xs.length then [['.', '.', '.']] else []) ++ shown.2.map word
    let out := extendLines 74 ([], [' ']) words
    '[' :: (out.1 ++ out.2).drop 1 ++ [']']

end Rvzr.Lib
