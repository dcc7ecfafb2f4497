import Rvzr.Km.Sysfs
import Rvzr.Lib.Lines

/-!
# The reader of hardware traces

`_read_trace` and `_rewind_km_output_to_end` of `executor.py`. Each `cat` of the sysfs file is
one call of `trace_show`; how sysfs hands the text of the buffer to the reader is a parameter,
`sysfs`. The loops are bounded by `fuel`, and a read that runs out of it ends as `starved`.

`envs` gives the environment of every call of `trace_test_case`, in order. A `CatCall` records
the state of the module that a call of `cat` met, and what the generator yielded from its
output.
-/

namespace Rvzr.Executor

open Rvzr.Lib Rvzr.Km

/-- What the generator yields: repetition, input, and the numbers of the line. -/
structure Yield where
  rep : Nat
  input : Nat
  line : List Int
  deriving DecidableEq, Repr

/-- `rep_id` and `input_id`. -/
structure Cursor where
  rep : Nat
  input : Nat
  deriving DecidableEq, Repr

/-- Move to the next input; below input 0 the next repetition begins. -/
def Cursor.next (nInputs : Nat) (c : Cursor) : Cursor :=
  if c.input = 0 then ⟨c.rep + 1, nInputs - 1⟩ else ⟨c.rep, c.input - 1⟩

inductive LinesEnd where
  | more
  | done
  | valueError
  | rejected
  deriving DecidableEq, Repr

/-- `tuple(int(x) for x in line.split(","))`. -/
def lineInts (line : Text) : Option (List Int) := (splitText ',' line).mapM pyInt

/-- The loop over the lines of one output. -/
def readLines (nInputs : Nat) (archMode : Bool) :
    List Text → Cursor → List Yield × Cursor × LinesEnd
  | [], c => ([], c, .more)
  | line :: lines, c =>
    if line = [] then readLines nInputs archMode lines c
    else if containsText ['d', 'o', 'n', 'e'] line then ([], c, .done)
    else
      match lineInts line with
      | none => ([], c, .valueError)
      | some ints =>
        if ints.length ≠ 6 then ([], c, .rejected)
        else if ints.head? = some 0 ∧ archMode = false then ([], c, .rejected)
        else
          let r := readLines nInputs archMode lines (c.next nInputs)
          (⟨c.rep, c.input, ints⟩ :: r.1, r.2)

/-- One call of `cat`; `none` is a failed read. -/
def catTrace (sysfs : Text → Text) (env : TraceEnv) (km : KmState) : KmState × Option Text :=
  match traceShow env km with
  | (km, ret, text) => (km, if ret < 0 then none else some (sysfs text))

inductive ReadEnd where
  | finished
  | ioError
  | calledProcessError
  | valueError
  | assertionError
  | starved
  deriving DecidableEq, Repr

/-- One call of `cat` and the readings that were yielded from its output. -/
structure CatCall where
  before : KmState
  yields : List Yield

structure ReadResult where
  km : KmState
  calls : List CatCall
  outcome : ReadEnd

/-- All readings that the generator yielded. -/
def ReadResult.yields (r : ReadResult) : List Yield := r.calls.flatMap CatCall.yields

/-- A call of `cat` before the rest of a read. -/
def ReadResult.after (c : CatCall) (r : ReadResult) : ReadResult :=
  { r with calls := c :: r.calls }

section Reader

variable (sysfs : Text → Text) (envs : Nat → TraceEnv)

/-- `_rewind_km_output_to_end`: read until an output contains `done`. -/
def rewindKmOutputToEnd : Nat → KmState → KmState × ReadEnd
  | 0, km => (km, .starved)
  | fuel + 1, km =>
    match catTrace sysfs (envs km.runs) km with
    | (km, none) => (km, .calledProcessError)
    | (km, some text) =>
      if containsText ['d', 'o', 'n', 'e'] text then (km, .ioError)
      else rewindKmOutputToEnd fuel km

/-- The two loops of `_read_trace`; `inner` says that the last output had no `done`. -/
def readLoop (nReps nInputs : Nat) (archMode : Bool) : Nat → Bool → Cursor → KmState → ReadResult
  | 0, _, _, km => ⟨km, [], .starved⟩
  | fuel + 1, inner, c, km =>
    if inner = false ∧ nReps ≤ c.rep then ⟨km, [], .finished⟩
    else
      let c := if inner then c else ⟨c.rep, nInputs - 1⟩
      match catTrace sysfs (envs km.runs) km with
      | (km', none) => ⟨km', [⟨km, []⟩], .calledProcessError⟩
      | (km', some text) =>
        match readLines nInputs archMode (splitText '\n' text) c with
        | (ys, c', .more) =>
          (readLoop nReps nInputs archMode fuel true c' km').after ⟨km, ys⟩
        | (ys, c', .done) =>
          if c'.input = nInputs - 1 then
            (readLoop nReps nInputs archMode fuel false c' km').after ⟨km, ys⟩
          else ⟨km', [⟨km, ys⟩], .assertionError⟩
        | (ys, _, .valueError) => ⟨km', [⟨km, ys⟩], .valueError⟩
        | (ys, _, .rejected) =>
          match rewindKmOutputToEnd sysfs envs fuel km' with
          | (km'', o) => ⟨km'', [⟨km, ys⟩], o⟩

/-- `_read_trace`. -/
def readTrace (nReps nInputs : Nat) (archMode : Bool) (fuel : Nat) (km : KmState) : ReadResult :=
  if nInputs = 0 then ⟨km, [], .finished⟩
  else readLoop sysfs envs nReps nInputs archMode fuel false ⟨0, nInputs - 1⟩ km

end Reader

/-- What sysfs promises: a text that is shorter than a page arrives as it is. -/
def DeliversPage (sysfs : Text → Text) : Prop := ∀ t : Text, t.length < 4096 → sysfs t = t

/-- The readings from index `k - 1` down to `left`. -/
def printed (ms : List Reading) (left k : Nat) : List Reading :=
  ((List.range' left (k - left)).map fun i => ms.getD i Reading.zero).reverse

/-- The numbers of a line as the reader sees them. -/
def readingInts (r : Reading) : List Int := (readingNumbers r).map Int.ofNat

/-- The reader on a list of readings instead of their text; `false` when it meets a zero. -/
def readEntries (nInputs : Nat) (archMode : Bool) :
    List Reading → Cursor → List Yield × Cursor × Bool
  | [], c => ([], c, true)
  | r :: rs, c =>
    if r.htrace = 0 ∧ archMode = false then ([], c, false)
    else
      let q := readEntries nInputs archMode rs (c.next nInputs)
      (⟨c.rep, c.input, readingInts r⟩ :: q.1, q.2)

section Printing

variable (ms : List Reading)

theorem printed_self (k : Nat) : printed ms k k = [] := by simp [printed]

theorem printed_succ {left k : Nat} (h : left ≤ k) :
    printed ms left (k + 1) = ms.getD k Reading.zero :: printed ms left k := by
  unfold printed
  rw [show k + 1 - left = k - left + 1 from by omega, List.range'_concat, List.map_append,
    List.reverse_append, show left + 1 * (k - left) = k from by omega]
  rfl

/-- The text of one call: the readings that fit, and the end marker after the last one. -/
theorem printEntries_eq (k : Nat) (buf : Text) :
    (printEntries ms k buf).1 ≤ k ∧
      (printEntries ms k buf).2 = buf ++ (printed ms (printEntries ms k buf).1 k).flatMap readingLine
        ++ (if (printEntries ms k buf).1 = 0 then doneLine else []) := by
  induction k generalizing buf with
  | zero => exact ⟨Nat.le_refl 0, by simp [printEntries, printed]⟩
  | succ k ih =>
    rw [printEntries]
    by_cases hfull : 4096 - 128 ≤ buf.length
    · rw [if_pos hfull]
      refine ⟨Nat.le_refl _, ?_⟩
      dsimp only
      rw [printed_self, if_neg (by omega)]
      simp
    · rw [if_neg hfull]
      obtain ⟨hle, htext⟩ := ih (buf ++ readingLine (ms.getD k Reading.zero))
      refine ⟨by omega, ?_⟩
      rw [htext, printed_succ ms hle]
      simp

/-- Every call prints at least one reading. -/
theorem printEntries_lt (k : Nat) : (printEntries ms (k + 1) []).1 < k + 1 := by
  rw [printEntries, if_neg (by decide)]
  have := (printEntries_eq ms k ([] ++ readingLine (ms.getD k Reading.zero))).1
  omega

end Printing

end Rvzr.Executor
