import Rvzr.Executor.Agreement

/-!
# The pages of `trace_show`

Successive calls of `trace_show` print the measurements of one experiment. Before every line but not
before the end marker the loop checks for space, and the flag `unfinished_call` is only cleared after
an experiment without an error. `traceShow_series_iff` says when a series of calls stays in its pages,
prints everything and clears the flag.
-/

namespace Rvzr.Executor

open Rvzr.Lib Rvzr.Km

/-! ### Series of calls -/

section Calls

variable (envs : Nat → TraceEnv) (km : KmState)

/-- The module after `k` calls of `trace_show`. -/
def afterShows : Nat → KmState
  | 0 => km
  | k + 1 => (traceShow (envs k) (afterShows k)).1

/-- The text that call `k` leaves in its buffer. -/
def shownText (k : Nat) : Text := (traceShow (envs k) (afterShows envs km k)).2.2

/-- The bytes a call writes: `sprintf` ends the text with a NUL. -/
def bufferBytes (text : Text) : Nat := if text = [] then 0 else text.length + 1

/-- The measurements that are there to be printed once the first call has its results. -/
def shownMeasurements : List Reading :=
  (startMeasurement (envs 0) { km with unfinishedCall := true }).1.measurements.getD []

/-- Their number: all of a new experiment, or what is left of an old one. -/
def shownCount : Nat :=
  if km.nextMeasurementId < 0 then km.inp.nInputs else (km.nextMeasurementId + 1).toNat

/-- The first `m` calls are those up to the one that leaves nothing to print. -/
structure SeriesOf (m : Nat) : Prop where
  pos : 0 < m
  more : ∀ k, 0 < k → k < m → 0 ≤ (afterShows envs km k).nextMeasurementId
  last : (afterShows envs km m).nextMeasurementId < 0

/-- The calls stay in their pages, print every measurement in reverse order and one end marker, and
leave the flag cleared. -/
structure ShowsAll (m : Nat) : Prop extends SeriesOf envs km m where
  pages : ∀ k < m, bufferBytes (shownText envs km k) ≤ 4096
  text : (List.range m).flatMap (shownText envs km) =
    (printed (shownMeasurements envs km) 0 (shownCount km)).flatMap readingLine ++ doneLine
  cleared : ∀ k < m, (afterShows envs km (k + 1)).unfinishedCall = false

end Calls

/-- The characters on a page that has `n` of them after one more line. -/
def addLine (n : Nat) (r : Reading) : Nat :=
  (if 4096 - 128 ≤ n then 0 else n) + (readingLine r).length

/-- The characters of the lines that share the last page with the end marker. -/
def lastPageChars (es : List Reading) : Nat := es.foldl addLine 0

/-- The experiment succeeds, the number of inputs is kept by the conversion to `int`, and the last
page has room for the end marker. -/
structure ShowsOk (envs : Nat → TraceEnv) (km : KmState) : Prop where
  measured : km.nextMeasurementId < 0 →
    (Km.traceTestCase (envs 0) { km with unfinishedCall := true }).2 = 0
  count : km.nextMeasurementId < 0 → km.inp.nInputs ≤ 2 ^ 31
  lastPage : lastPageChars (printed (shownMeasurements envs km) 0 (shownCount km)) ≤ 4090

section Series

variable {envs : Nat → TraceEnv} {km : KmState}

theorem SeriesOf.le {m m' : Nat} (h : SeriesOf envs km m) (h' : SeriesOf envs km m') : m ≤ m' := by
  by_contra hlt
  have hmore := h.more m' h'.pos (by omega)
  have hlast := h'.last
  omega

theorem SeriesOf.unique {m m' : Nat} (h : SeriesOf envs km m) (h' : SeriesOf envs km m') : m = m' :=
  Nat.le_antisymm (h.le h') (h'.le h)

/-- The calls after the first one. -/
theorem afterShows_succ (k : Nat) :
    afterShows envs km (k + 1) =
      afterShows (fun i => envs (i + 1)) (traceShow (envs 0) km).1 k := by
  induction k with
  | zero => rfl
  | succ k ih => rw [afterShows, ih, afterShows]

theorem shownText_succ (k : Nat) :
    shownText envs km (k + 1) =
      shownText (fun i => envs (i + 1)) (traceShow (envs 0) km).1 k := by
  rw [shownText, afterShows_succ, shownText]

theorem shownText_range_succ (m : Nat) :
    (List.range (m + 1)).flatMap (shownText envs km) = (traceShow (envs 0) km).2.2 ++
      (List.range m).flatMap (shownText (fun i => envs (i + 1)) (traceShow (envs 0) km).1) := by
  rw [List.range_succ_eq_map, List.flatMap_cons, List.flatMap_map]
  simp only [shownText_succ]
  rfl

/-- A call that leaves nothing to print is a series. -/
theorem seriesOf_one (h : (traceShow (envs 0) km).1.nextMeasurementId < 0) : SeriesOf envs km 1 where
  pos := Nat.one_pos
  more k hk hk' := absurd hk' (by omega)
  last := h

/-- A call that leaves something to print, and the series after it. -/
theorem SeriesOf.cons {m : Nat} (hnext : 0 ≤ (traceShow (envs 0) km).1.nextMeasurementId)
    (h : SeriesOf (fun i => envs (i + 1)) (traceShow (envs 0) km).1 m) : SeriesOf envs km (m + 1) where
  pos := Nat.succ_pos m
  more k hk hk' := by
    obtain ⟨k, rfl⟩ := Nat.exists_eq_succ_of_ne_zero (Nat.ne_of_gt hk)
    rw [Nat.succ_eq_add_one, afterShows_succ]
    rcases Nat.eq_zero_or_pos k with rfl | hpos
    · exact hnext
    · exact h.more k hpos (by omega)
  last := by
    rw [afterShows_succ]
    exact h.last

end Series

/-! ### One page -/

section Page

variable {ms : List Reading}

variable (ms) in
/-- What a call prints, and what it leaves for the last page. -/
theorem printEntries_chars (k : Nat) (buf : Text) :
    ((printEntries ms k buf).1 = 0 →
        (printEntries ms k buf).2.length = (printed ms 0 k).foldl addLine buf.length + 5) ∧
      ((printEntries ms k buf).1 ≠ 0 →
        (printed ms 0 k).foldl addLine buf.length =
          lastPageChars (printed ms 0 (printEntries ms k buf).1)) := by
  induction k generalizing buf with
  | zero =>
    refine ⟨fun _ => ?_, fun hne => absurd rfl hne⟩
    rw [printEntries, printed_self, List.length_append]
    rfl
  | succ k ih =>
    rw [printEntries, printed_succ ms (Nat.zero_le k), List.foldl_cons]
    by_cases hfull : 4096 - 128 ≤ buf.length
    · rw [if_pos hfull]
      refine ⟨fun hz => absurd hz (Nat.succ_ne_zero k), fun _ => ?_⟩
      dsimp only
      rw [lastPageChars, printed_succ ms (Nat.zero_le k), List.foldl_cons, addLine, if_pos hfull,
        addLine]
      rfl
    · rw [if_neg hfull, addLine, if_neg hfull, ← List.length_append]
      exact ih _

end Page

/-! ### One call -/

section Call

variable {env : TraceEnv} {km km₁ : KmState}

theorem allocMeasurements_flag (env : TraceEnv) (km : KmState) :
    (allocMeasurements env km).1.unfinishedCall = km.unfinishedCall ∧
      ((allocMeasurements env km).2 = 0 → km.measurements.isSome = true →
        (allocMeasurements env km).1.measurements.isSome = true) := by
  have hmem : (-enomem : Int) ≠ 0 := by decide
  unfold allocMeasurements
  split
  · exact ⟨rfl, fun _ h => h⟩
  · dsimp only
    split
    · exact ⟨rfl, fun _ _ => rfl⟩
    · exact ⟨rfl, fun hret => absurd hret hmem⟩

/-- An experiment keeps the flag, and its results are there when it succeeds. -/
theorem traceTestCase_flag (env : TraceEnv) (km : KmState) :
    (Km.traceTestCase env km).1.unfinishedCall = km.unfinishedCall ∧
      ((Km.traceTestCase env km).2 = 0 → km.measurements.isSome = true →
        (Km.traceTestCase env km).1.measurements.isSome = true) := by
  have hio : (-eio : Int) ≠ 0 := by decide
  have halloc := allocMeasurements_flag env { km with runs := km.runs + 1 }
  unfold Km.traceTestCase
  cases hrun : allocMeasurements env { km with runs := km.runs + 1 } with
  | mk km' err =>
    rw [hrun] at halloc
    obtain ⟨hflag, hsome⟩ := halloc
    dsimp only at hflag hsome ⊢
    split
    · exact ⟨hflag, fun hret => absurd hret hio⟩
    rename_i herr
    split
    · exact ⟨hflag, fun hret => absurd hret hio⟩
    split
    · exact ⟨hflag, fun _ h => hsome (not_not.1 herr) h⟩
    · exact ⟨hflag, fun _ _ => rfl⟩

/-- A call after its first half has failed. -/
theorem traceShow_failed {err : Int} (hlive : Live km)
    (hstart : startMeasurement env { km with unfinishedCall := true } = (km₁, err))
    (herr : err ≠ 0) : traceShow env km = (km₁, err, []) := by
  unfold traceShow
  rw [if_neg (by simp [hlive.present]), if_neg (by simp [hlive.inputsDone]),
    if_neg (by simp [hlive.testCaseDone]), hstart]
  dsimp only
  rw [if_pos herr]

/-- A call after its first half has succeeded. -/
theorem traceShow_started (hlive : Live km)
    (hstart : startMeasurement env { km with unfinishedCall := true } = (km₁, 0)) :
    traceShow env km = ((printResults { km₁ with unfinishedCall := false }).1,
      ((printResults { km₁ with unfinishedCall := false }).2.length : Int),
      (printResults { km₁ with unfinishedCall := false }).2) := by
  unfold traceShow
  rw [if_neg (by simp [hlive.present]), if_neg (by simp [hlive.inputsDone]),
    if_neg (by simp [hlive.testCaseDone]), hstart]
  dsimp only
  rw [if_neg (by simp)]

variable (env) in
/-- A call that goes on printing. -/
theorem traceShow_goesOn (hlive : Live km) {k : Nat} (hnext : km.nextMeasurementId = k) :
    traceShow env km = (KmState.leaving km (printEntries (km.measurements.getD []) (k + 1) []).1,
      ((printEntries (km.measurements.getD []) (k + 1) []).2.length : Int),
      (printEntries (km.measurements.getD []) (k + 1) []).2) := by
  have hstart : startMeasurement env { km with unfinishedCall := true } =
      ({ km with unfinishedCall := true }, 0) :=
    if_neg (show ¬ km.nextMeasurementId < 0 by omega)
  rw [traceShow_started hlive hstart]
  have hprint : printResults { km with unfinishedCall := false } = _ := printResults_eq hnext
  rw [hprint]
  rfl

variable (env) in
/-- The calls that are refused leave everything as it is. -/
theorem traceShow_refused (h : ¬ Live km) : traceShow env km = (km, -eio, []) := by
  unfold traceShow
  by_cases h₁ : km.measurements.isSome = false
  · rw [if_pos h₁]
  by_cases h₂ : inputParsingCompleted km.inp = false
  · rw [if_neg h₁, if_pos h₂]
  by_cases h₃ : tcParsingCompleted km.tc = false
  · rw [if_neg h₁, if_neg h₂, if_pos h₃]
  · exact absurd ⟨Bool.not_eq_false _ ▸ h₁, Bool.not_eq_false _ ▸ h₂, Bool.not_eq_false _ ▸ h₃⟩ h

end Call

/-! ### A whole series -/

section Whole

/-- What a series prints from `c` measurements on, apart from the question whether it stays in its
pages. -/
structure Prints (envs : Nat → TraceEnv) (km : KmState) (ms : List Reading) (c m : Nat) : Prop
    extends SeriesOf envs km m where
  text : (List.range m).flatMap (shownText envs km) =
    (printed ms 0 c).flatMap readingLine ++ doneLine
  cleared : ∀ k < m, (afterShows envs km (k + 1)).unfinishedCall = false
  pages : (∀ k < m, bufferBytes (shownText envs km k) ≤ 4096) ↔
    lastPageChars (printed ms 0 c) ≤ 4090

theorem bufferBytes_le_iff {t : Text} : bufferBytes t ≤ 4096 ↔ t.length < 4096 := by
  unfold bufferBytes
  by_cases ht : t = []
  · rw [if_pos ht, ht]
    simp
  · rw [if_neg ht]
    omega

theorem forall_lt_one {p : Nat → Prop} : (∀ k < 1, p k) ↔ p 0 :=
  ⟨fun h => h 0 Nat.one_pos, fun h k hk => by rwa [Nat.lt_one_iff.1 hk]⟩

/-- A series of one call that prints the end marker. -/
theorem prints_one {envs : Nat → TraceEnv} {km : KmState} {ms : List Reading} {c : Nat}
    (hnext : (traceShow (envs 0) km).1.nextMeasurementId < 0)
    (hflag : (traceShow (envs 0) km).1.unfinishedCall = false)
    (htext : (traceShow (envs 0) km).2.2 = (printed ms 0 c).flatMap readingLine ++ doneLine)
    (hlen : (traceShow (envs 0) km).2.2.length = lastPageChars (printed ms 0 c) + 5) :
    Prints envs km ms c 1 where
  toSeriesOf := seriesOf_one hnext
  text := by
    rw [List.range_one, List.flatMap_singleton]
    exact htext
  cleared := forall_lt_one.2 hflag
  pages := by
    rw [forall_lt_one, bufferBytes_le_iff, shownText, afterShows, hlen]
    omega

/-- A first call that leaves something to print. -/
theorem Prints.cons {envs : Nat → TraceEnv} {km : KmState} {ms : List Reading} {c left m : Nat}
    (h : Prints (fun i => envs (i + 1)) (traceShow (envs 0) km).1 ms left m)
    (hnext : 0 ≤ (traceShow (envs 0) km).1.nextMeasurementId)
    (hflag : (traceShow (envs 0) km).1.unfinishedCall = false) (hleft : left ≤ c)
    (htext : (traceShow (envs 0) km).2.2 = (printed ms left c).flatMap readingLine)
    (hfits : (traceShow (envs 0) km).2.2.length < 4096)
    (hlast : lastPageChars (printed ms 0 c) = lastPageChars (printed ms 0 left)) :
    Prints envs km ms c (m + 1) where
  toSeriesOf := h.toSeriesOf.cons hnext
  text := by
    rw [shownText_range_succ, h.text, htext, printed_append ms hleft, List.flatMap_append,
      List.append_assoc]
  cleared := by
    intro k hk
    rw [afterShows_succ]
    rcases Nat.eq_zero_or_pos k with rfl | hpos
    · exact hflag
    · obtain ⟨k, rfl⟩ := Nat.exists_eq_succ_of_ne_zero (Nat.ne_of_gt hpos)
      exact h.cleared k (by omega)
  pages := by
    rw [hlast, ← h.pages]
    constructor
    · intro hall k hk
      rw [← shownText_succ]
      exact hall (k + 1) (by omega)
    · intro hrest k hk
      rcases Nat.eq_zero_or_pos k with rfl | hpos
      · exact bufferBytes_le_iff.2 hfits
      · obtain ⟨k, rfl⟩ := Nat.exists_eq_succ_of_ne_zero (Nat.ne_of_gt hpos)
        rw [Nat.succ_eq_add_one, shownText_succ]
        exact hrest k (by omega)

/-- The calls that print what an experiment has left. -/
theorem prints_rest (k : Nat) (envs : Nat → TraceEnv) {km : KmState} (hlive : Live km)
    (hnext : km.nextMeasurementId = k) :
    ∃ m, Prints envs km (km.measurements.getD []) (k + 1) m := by
  induction k using Nat.strongRecOn generalizing envs km with
  | ind k ih =>
    have hcall := traceShow_goesOn (envs 0) hlive hnext
    obtain ⟨hle, htext⟩ := printEntries_eq (km.measurements.getD []) (k + 1) []
    obtain ⟨hdone, hmore⟩ := printEntries_chars (km.measurements.getD []) (k + 1) []
    have hlt := printEntries_lt (km.measurements.getD []) k
    have hfits : (printEntries (km.measurements.getD []) (k + 1) []).1 ≠ 0 →
        (printEntries (km.measurements.getD []) (k + 1) []).2.length < 4096 :=
      printEntries_fits (by decide)
    generalize hr : printEntries (km.measurements.getD []) (k + 1) [] = r at *
    obtain ⟨left, text⟩ := r
    rw [List.nil_append] at htext
    by_cases hleft : left = 0
    · subst hleft
      refine ⟨1, prints_one ?_ ?_ ?_ ?_⟩
      · rw [hcall]
        show ((0 : Nat) : Int) - 1 < 0
        omega
      · rw [hcall]
        rfl
      · rw [hcall, htext, if_pos rfl]
      · rw [hcall]
        exact hdone rfl
    · obtain ⟨left, rfl⟩ := Nat.exists_eq_succ_of_ne_zero hleft
      dsimp only at hcall hle htext hmore hlt hfits
      have hleave : (traceShow (envs 0) km).1 = KmState.leaving km (left + 1 : Nat) := by rw [hcall]
      have hnext' : (traceShow (envs 0) km).1.nextMeasurementId = left := by
        rw [hleave]
        show ((left + 1 : Nat) : Int) - 1 = left
        omega
      obtain ⟨m, hm⟩ := ih left (by omega) (fun i => envs (i + 1))
        (by rw [hleave]; exact hlive.leaving _) hnext'
      have hms : (traceShow (envs 0) km).1.measurements.getD [] = km.measurements.getD [] := by
        rw [hleave]
        rfl
      rw [hms] at hm
      refine ⟨m + 1, hm.cons (by omega) ?_ hle ?_ ?_ (hmore hleft)⟩
      · rw [hleave]
        rfl
      · rw [hcall, htext, if_neg hleft, List.append_nil]
      · rw [hcall]
        exact hfits hleft

/-- The calls that follow do not tell the module before the first call from the one after its first
half. -/
theorem Prints.of_started {envs : Nat → TraceEnv} {km km₁ : KmState} {ms : List Reading} {c m : Nat}
    (hcall : traceShow (envs 0) km = traceShow (envs 0) km₁) (h : Prints envs km₁ ms c m) :
    Prints envs km ms c m := by
  have hafter : ∀ k, afterShows envs km (k + 1) = afterShows envs km₁ (k + 1) := fun k => by
    rw [afterShows_succ, afterShows_succ, hcall]
  have htext : shownText envs km = shownText envs km₁ := by
    funext k
    cases k with
    | zero => exact congrArg (·.2.2) hcall
    | succ k => rw [shownText_succ, shownText_succ, hcall]
  have hnext : ∀ k, 0 < k → afterShows envs km k = afterShows envs km₁ k := fun k hk => by
    obtain ⟨k, rfl⟩ := Nat.exists_eq_succ_of_ne_zero (Nat.ne_of_gt hk)
    exact hafter k
  refine ⟨⟨h.pos, fun k hk hk' => ?_, ?_⟩, ?_, fun k hk => ?_, ?_⟩
  · rw [hnext k hk]
    exact h.more k hk hk'
  · rw [hnext m h.pos]
    exact h.last
  · rw [htext]
    exact h.text
  · rw [hafter]
    exact h.cleared k hk
  · rw [htext]
    exact h.pages

/-- The series after a first half without an error: it prints as many measurements as the variable
says that the first half has set. -/
theorem prints_started {envs : Nat → TraceEnv} {km km₁ : KmState} (hlive : Live km)
    (hlive₁ : Live km₁)
    (hstart : startMeasurement (envs 0) { km with unfinishedCall := true } = (km₁, 0)) :
    ∃ m, Prints envs km (km₁.measurements.getD []) (km₁.nextMeasurementId + 1).toNat m := by
  have hcall := traceShow_started hlive hstart
  by_cases hneg : km₁.nextMeasurementId < 0
  · have hprint : printResults { km₁ with unfinishedCall := false } =
        ({ km₁ with unfinishedCall := false }, doneLine) := printResults_of_neg hneg
    rw [hprint] at hcall
    have hcount : (km₁.nextMeasurementId + 1).toNat = 0 := by omega
    rw [hcount]
    refine ⟨1, prints_one ?_ ?_ ?_ ?_⟩
    · rw [hcall]
      exact hneg
    · rw [hcall]
    · rw [hcall, printed_self]
      rfl
    · rw [hcall, printed_self]
      rfl
  · obtain ⟨k, hk⟩ := Int.eq_ofNat_of_zero_le (Int.not_lt.1 hneg)
    obtain ⟨m, hm⟩ := prints_rest k envs hlive₁ hk
    have hcount : (km₁.nextMeasurementId + 1).toNat = k + 1 := by omega
    rw [hcount]
    refine ⟨m, hm.of_started ?_⟩
    have hagain : startMeasurement (envs 0) { km₁ with unfinishedCall := true } =
        ({ km₁ with unfinishedCall := true }, 0) :=
      if_neg (show ¬ km₁.nextMeasurementId < 0 by omega)
    rw [hcall, traceShow_started hlive₁ hagain]

/-- The text of a series tells how many measurements it prints. -/
theorem printed_text_inj {ms : List Reading} {c c' : Nat}
    (h : (printed ms 0 c).flatMap readingLine ++ doneLine =
      (printed ms 0 c').flatMap readingLine ++ doneLine) : c = c' := by
  have hlines : ∀ {a b : Nat}, a < b → ((printed ms 0 a).flatMap readingLine).length <
      ((printed ms 0 b).flatMap readingLine).length := by
    intro a b hab
    obtain ⟨b, rfl⟩ := Nat.exists_eq_succ_of_ne_zero (by omega : b ≠ 0)
    have hline : 0 < (readingLine (ms.getD b Reading.zero)).length := by
      rw [readingLine, List.length_append, List.length_singleton]
      omega
    rw [Nat.succ_eq_add_one, printed_append ms (by omega : a ≤ b + 1), printed_succ ms (by omega),
      List.cons_append, List.flatMap_cons, List.flatMap_append, List.length_append,
      List.length_append]
    omega
  have hlen := congrArg List.length (List.append_cancel_right h)
  rcases Nat.lt_trichotomy c c' with hlt | heq | hgt
  · exact absurd hlen (Nat.ne_of_lt (hlines hlt))
  · exact heq
  · exact absurd hlen (Nat.ne_of_gt (hlines hgt))

/-- The number of lines is the number of measurements, unless the conversion to `int` has lost it. -/
theorem count_started_iff (n : Nat) :
    (toInt32 (sub64 n 1) + 1).toNat = n ↔ n ≤ 2 ^ 31 := by
  constructor
  · intro h
    have hlt := toInt32_lt (sub64 n 1)
    omega
  · intro h
    by_cases hzero : n = 0
    · subst hzero
      decide
    · rw [sub64_of_le (by omega) (by omega), toInt32_of_lt (by omega)]
      omega

/-- What the first half of a call leaves. -/
inductive StartOutcome (env : TraceEnv) (km km₁ : KmState) (err : Int) : Prop
  | failed (herr : err ≠ 0) (hneg : km.nextMeasurementId < 0)
      (hflag : km₁.unfinishedCall = km.unfinishedCall) (hrun : (Km.traceTestCase env km).2 ≠ 0)
  | ran (herr : err = 0) (hlive : Live km₁) (hneg : km.nextMeasurementId < 0)
      (hrun : (Km.traceTestCase env km).2 = 0)
      (hnext : km₁.nextMeasurementId = toInt32 (sub64 km.inp.nInputs 1))
  | goesOn (herr : err = 0) (hlive : Live km₁) (hnext : ¬ km.nextMeasurementId < 0)
      (hsame : km₁ = km)

theorem startMeasurement_cases {env : TraceEnv} {km km₁ : KmState} {err : Int} (hlive : Live km)
    (hstart : startMeasurement env km = (km₁, err)) : StartOutcome env km km₁ err := by
  have hsame := traceTestCase_same env km
  obtain ⟨hflag, hsome⟩ := traceTestCase_flag env km
  unfold startMeasurement at hstart
  by_cases hneg : km.nextMeasurementId < 0
  · rw [if_pos hneg] at hstart
    cases htrace : Km.traceTestCase env km with
    | mk km₂ err₂ =>
      rw [htrace] at hstart hflag hsome hsame
      dsimp only at hstart hflag hsome hsame
      have hret : (Km.traceTestCase env km).2 = err₂ := congrArg Prod.snd htrace
      by_cases herr : err₂ = 0
      · rw [if_neg (by simp [herr])] at hstart
        obtain ⟨hkm, rfl⟩ := Prod.mk.inj hstart
        have hnext : km₁.nextMeasurementId = toInt32 (sub64 km.inp.nInputs 1) := by
          rw [← hkm, ← hsame.inp, KmState.setNext]
        have hlive₁ : Live km₁ := by
          rw [← hkm]
          refine ⟨?_, ?_, ?_⟩
          · rw [setNext_measurements]
            exact hsome herr hlive.present
          · rw [(setNext_same km₂ _).inp, hsame.inp]
            exact hlive.inputsDone
          · rw [(setNext_same km₂ _).tc, hsame.tc]
            exact hlive.testCaseDone
        exact .ran rfl hlive₁ hneg (hret.trans herr) hnext
      · rw [if_pos herr] at hstart
        obtain ⟨rfl, rfl⟩ := Prod.mk.inj hstart
        exact .failed (by decide) hneg hflag (by rw [hret]; exact herr)
  · rw [if_neg hneg] at hstart
    obtain ⟨rfl, rfl⟩ := Prod.mk.inj hstart
    exact .goesOn rfl hlive hneg rfl

/-- What a series prints against what it has to print. -/
theorem Prints.showsAll_iff {envs : Nat → TraceEnv} {km : KmState} {c m : Nat}
    (h : Prints envs km (shownMeasurements envs km) c m) :
    (∃ m, ShowsAll envs km m) ↔ c = shownCount km ∧
      lastPageChars (printed (shownMeasurements envs km) 0 (shownCount km)) ≤ 4090 := by
  constructor
  · rintro ⟨m', hall⟩
    have hm : m' = m := hall.toSeriesOf.unique h.toSeriesOf
    subst hm
    have hc : c = shownCount km := printed_text_inj (h.text.symm.trans hall.text)
    rw [← hc]
    exact ⟨rfl, h.pages.1 hall.pages⟩
  · rintro ⟨rfl, hlast⟩
    exact ⟨m, h.toSeriesOf, h.pages.2 hlast, h.text, h.cleared⟩

/-- Every series of calls: one that is not refused stays in its pages, prints all measurements and
clears the flag if and only if `ShowsOk` holds. A refused call writes nothing and changes nothing. -/
theorem traceShow_series_iff (envs : Nat → TraceEnv) (km : KmState) :
    (Live km → ((∃ m, ShowsAll envs km m) ↔ ShowsOk envs km)) ∧
      (¬ Live km → bufferBytes (shownText envs km 0) = 0 ∧ afterShows envs km 1 = km) := by
  refine ⟨fun hlive => ?_, fun hrefused => ?_⟩
  · cases hstart : startMeasurement (envs 0) { km with unfinishedCall := true } with
    | mk km₁ err =>
      have hlive' : Live { km with unfinishedCall := true } :=
        ⟨hlive.present, hlive.inputsDone, hlive.testCaseDone⟩
      have hms : shownMeasurements envs km = km₁.measurements.getD [] := by
        rw [shownMeasurements, hstart]
      cases startMeasurement_cases hlive' hstart with
      | failed herr hneg hflag hrun =>
        refine ⟨fun ⟨m, hall⟩ => ?_, fun hok => absurd (hok.measured hneg) hrun⟩
        have hcleared := hall.cleared 0 hall.pos
        rw [afterShows, afterShows, traceShow_failed hlive hstart herr, hflag] at hcleared
        exact absurd hcleared (by simp)
      | ran herr hlive₁ hneg hrun hnext =>
        subst herr
        obtain ⟨m, hm⟩ := prints_started hlive hlive₁ hstart
        rw [← hms, hnext] at hm
        have hcount : shownCount km = km.inp.nInputs := if_pos hneg
        rw [hm.showsAll_iff, hcount, count_started_iff]
        constructor
        · rintro ⟨hn, hlast⟩
          exact ⟨fun _ => hrun, fun _ => hn, by rw [hcount]; exact hlast⟩
        · intro hok
          exact ⟨hok.count hneg, by rw [← hcount]; exact hok.lastPage⟩
      | goesOn herr hlive₁ hneg hsame =>
        subst herr hsame
        obtain ⟨m, hm⟩ := prints_started hlive hlive₁ hstart
        rw [← hms] at hm
        have hcount : shownCount km = (km.nextMeasurementId + 1).toNat := if_neg hneg
        rw [hm.showsAll_iff, hcount]
        constructor
        · rintro ⟨-, hlast⟩
          exact ⟨fun h => absurd h hneg, fun h => absurd h hneg, by rw [hcount]; exact hlast⟩
        · intro hok
          exact ⟨rfl, by rw [← hcount]; exact hok.lastPage⟩
  · have hcall := traceShow_refused (envs 0) hrefused
    have htext : shownText envs km 0 = [] := congrArg (·.2.2) hcall
    rw [htext]
    exact ⟨rfl, congrArg (·.1) hcall⟩

end Whole

section Samples

/-- The module with a batch of `n` inputs for one actor. -/
def sampleBatchReady (n : Nat) : KmState :=
  let km := KmState.init (fun _ => 0) Reading.zero
  { km with inp := { km.inp with
      nInputs := n, inputs := some ⟨inputMetadataEntrySize, inputFragmentSize * n, .allocated, .allocated⟩
      highestNActors := 1, highestNInputs := n, allocatedData := some (inputFragmentSize * n) } }

/-- Six numbers with 20 digits. -/
def sampleLongReading : Reading := ⟨0xFFFFFFFFFFFFFFFF, Vector.replicate 5 0xFFFFFFFFFFFFFFFF⟩

/-- A reading whose line has 61 characters. -/
def sampleShortReading : Reading :=
  ⟨0xFFFFFFFFFFFFFFFF, #v[0xFFFFFFFFFFFFFFFF, 100000000000, 0, 0, 0]⟩

/-- All executions end normally, and the second input from the front has the short line. -/
def sampleLongEnv : TraceEnv :=
  ⟨fun _ => true, 0, 0, fun i =>
    .returned 0 (if i = 1 then sampleShortReading else sampleLongReading) ⟨statusEnded, 0⟩⟩

/-- `pfc_configure` fails. -/
def sampleFailingEnv : TraceEnv := { sampleLongEnv with preRunErr := 1 }

theorem sampleBatchReady_live (n : Nat) : Live (sampleBatchReady n) := ⟨rfl, rfl, rfl⟩

theorem traceShow_series_iff_sample : ∃ m, ShowsAll (fun _ => sampleLongEnv) (sampleBatchReady 2) m :=
  ((traceShow_series_iff (fun _ => sampleLongEnv) (sampleBatchReady 2)).1 (sampleBatchReady_live 2)).2
    ⟨fun _ => by decide +kernel, fun _ => by decide, by decide +kernel⟩

/-- The readings of 33 inputs. -/
def sampleLongReadings : List Reading :=
  [markValid sampleLongReading, markValid sampleShortReading] ++
    List.replicate 31 (markValid sampleLongReading)

/-- What the printing loop leaves and prints when entry `j` has a line of `lens j` characters, on a
page with `chars` characters. -/
def printedChars (lens : Nat → Nat) : Nat → Nat → Nat × Nat
  | 0, chars => (0, chars + 5)
  | k + 1, chars =>
    if 4096 - 128 ≤ chars then (k + 1, chars) else printedChars lens k (chars + lens k)

theorem printEntries_printedChars {ms : List Reading} {lens : Nat → Nat} {k : Nat} (buf : Text)
    (hlens : ∀ j < k, (readingLine (ms.getD j Reading.zero)).length = lens j) :
    ((printEntries ms k buf).1, (printEntries ms k buf).2.length) =
      printedChars lens k buf.length := by
  induction k generalizing buf with
  | zero =>
    rw [printEntries, printedChars, List.length_append]
    rfl
  | succ k ih =>
    rw [printEntries, printedChars]
    split
    · rfl
    · rw [ih _ fun j hj => hlens j (Nat.lt_succ_of_lt hj), List.length_append,
        hlens k (Nat.lt_succ_self k)]

/-- The first call prints from the last measurement on. -/
theorem shownText_first {envs : Nat → TraceEnv} {km : KmState} {ms : List Reading} {k : Nat}
    (hlive : Live km) (herr : (startMeasurement (envs 0) { km with unfinishedCall := true }).2 = 0)
    (hnext : (startMeasurement (envs 0) { km with unfinishedCall := true }).1.nextMeasurementId = k)
    (hms : (startMeasurement (envs 0) { km with unfinishedCall := true }).1.measurements = some ms) :
    shownText envs km 0 = (printEntries ms (k + 1) []).2 := by
  unfold shownText afterShows
  cases hs : startMeasurement (envs 0) { km with unfinishedCall := true } with
  | mk km₁ err =>
    rw [hs] at herr hnext hms
    have herr : err = 0 := herr
    have hms : km₁.measurements = some ms := hms
    subst herr
    rw [traceShow_started hlive hs]
    have hprint : printResults { km₁ with unfinishedCall := false } = _ :=
      printResults_eq (show km₁.nextMeasurementId = k from hnext)
    rw [hprint, hms]
    rfl

theorem shownText_sampleLong :
    (shownText (fun _ => sampleLongEnv) (sampleBatchReady 33) 0).length = 4098 := by
  obtain ⟨herr, hnext, hms⟩ : (startMeasurement sampleLongEnv
        { sampleBatchReady 33 with unfinishedCall := true }).2 = 0 ∧
      (startMeasurement sampleLongEnv
        { sampleBatchReady 33 with unfinishedCall := true }).1.nextMeasurementId = (32 : Nat) ∧
      (startMeasurement sampleLongEnv
        { sampleBatchReady 33 with unfinishedCall := true }).1.measurements =
          some sampleLongReadings := by decide +kernel
  have hpage : shownText (fun _ => sampleLongEnv) (sampleBatchReady 33) 0 =
      (printEntries sampleLongReadings 33 []).2 :=
    shownText_first (sampleBatchReady_live 33) herr hnext hms
  rw [hpage]
  have hlong : (readingLine (markValid sampleLongReading)).length = 126 := by decide +kernel
  have hshort : (readingLine (markValid sampleShortReading)).length = 61 := by decide +kernel
  have hlens : ∀ j < 33, (readingLine (sampleLongReadings.getD j Reading.zero)).length =
      if j = 1 then 61 else 126 := by
    intro j hj
    unfold sampleLongReadings
    rcases j with _ | _ | j
    · exact hlong
    · exact hshort
    · rw [if_neg (by omega), List.cons_append, List.cons_append, List.nil_append,
        List.getD_cons_succ, List.getD_cons_succ, List.getD, List.getElem?_replicate_of_lt (by omega)]
      exact hlong
  have hprinted := printEntries_printedChars [] hlens
  have hchars : printedChars (fun j => if j = 1 then 61 else 126) 33 0 = (0, 4098) := by decide
  rw [List.length_nil, hchars] at hprinted
  exact (Prod.mk.inj hprinted).2

/-- The page of 33 measurements is overrun by its end marker, and a failing experiment leaves the
flag set. -/
theorem traceShow_overruns :
    bufferBytes (shownText (fun _ => sampleLongEnv) (sampleBatchReady 33) 0) = 4099 ∧
      ¬ (∃ m, ShowsAll (fun _ => sampleLongEnv) (sampleBatchReady 33) m) ∧
      (afterShows (fun _ => sampleFailingEnv) (sampleBatchReady 2) 1).unfinishedCall = true ∧
      ¬ ∃ m, ShowsAll (fun _ => sampleFailingEnv) (sampleBatchReady 2) m := by
  have hbytes : bufferBytes (shownText (fun _ => sampleLongEnv) (sampleBatchReady 33) 0) = 4099 := by
    unfold bufferBytes
    rw [if_neg, shownText_sampleLong]
    intro hnil
    have hlen := shownText_sampleLong
    rw [hnil] at hlen
    exact absurd hlen (by decide)
  have hflag : (afterShows (fun _ => sampleFailingEnv) (sampleBatchReady 2) 1).unfinishedCall =
      true := by decide +kernel
  refine ⟨hbytes, fun ⟨m, hall⟩ => ?_, hflag, fun ⟨m, hall⟩ => ?_⟩
  · have hpage := hall.pages 0 hall.pos
    rw [hbytes] at hpage
    exact absurd hpage (by decide)
  · have hcleared := hall.cleared 0 hall.pos
    rw [hflag] at hcleared
    exact absurd hcleared (by decide)

end Samples

end Rvzr.Executor
