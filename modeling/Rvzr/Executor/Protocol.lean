import Rvzr.Executor.Reader

/-!
# Printer and reader of the trace protocol

The printer splits the readings of one experiment into pages, the reader splits the pages into
lines and the lines into numbers. `readLoop_batch` says that the pages of one experiment are
read as the list of its readings (`readEntries`), wherever the page boundaries fall.
-/

namespace Rvzr.Executor

open Rvzr.Lib Rvzr.Km

/-- A line without its end. -/
def lineText (r : Reading) : Text := joinText [','] ((readingNumbers r).map strNat)

section Lines

variable {r : Reading}

theorem mem_joinText {sep c : Char} {ws : List Text} (h : c ∈ joinText [sep] ws) :
    c = sep ∨ ∃ w ∈ ws, c ∈ w := by
  induction ws with
  | nil => exact absurd h (by simp [joinText])
  | cons w ws ih =>
    cases ws with
    | nil => exact Or.inr ⟨w, by simp, h⟩
    | cons v vs =>
      rw [joinText, List.append_assoc, List.mem_append, List.singleton_append, List.mem_cons] at h
      · rcases h with hw | hsep | hrest
        · exact Or.inr ⟨w, by simp, hw⟩
        · exact Or.inl hsep
        · rcases ih hrest with hsep | ⟨u, hu, hc⟩
          · exact Or.inl hsep
          · exact Or.inr ⟨u, List.mem_cons_of_mem _ hu, hc⟩
      · simp

/-- A line consists of digits and commas. -/
theorem not_mem_lineText {c : Char} (hdigit : c.isDigit = false) (hcomma : c ≠ ',') :
    c ∉ lineText r := by
  intro hc
  rcases mem_joinText hc with hsep | ⟨w, hw, hcw⟩
  · exact hcomma hsep
  · obtain ⟨n, -, rfl⟩ := List.mem_map.mp hw
    exact not_mem_strNat hdigit hcw

theorem readingNumbers_length : (readingNumbers r).length = 6 := by simp [readingNumbers]

theorem lineText_ne_nil : lineText r ≠ [] := by
  have hne : strNat r.htrace.toNat ≠ [] := Nat.toDigits_ne_nil
  unfold lineText readingNumbers
  have hsome : ∃ v vs, (r.pfcReading.toList.map UInt64.toNat).map strNat = v :: vs := by
    cases hl : (r.pfcReading.toList.map UInt64.toNat).map strNat with
    | nil => simpa using congrArg List.length hl
    | cons v vs => exact ⟨v, vs, rfl⟩
  obtain ⟨v, vs, hvs⟩ := hsome
  rw [List.map_cons, hvs, joinText]
  · simp [hne]
  · simp

/-- The reader gets back the numbers of a line. -/
theorem lineInts_lineText : lineInts (lineText r) = some (readingInts r) := by
  unfold lineInts lineText readingInts
  rw [splitText_join]
  · rw [List.mapM_map]
    have hfun : (pyInt ∘ strNat) = fun n : Nat => pure (Int.ofNat n) := by
      funext n
      exact pyInt_strNat n
    rw [hfun]
    exact List.mapM_pure
  · simp [readingNumbers]
  · intro w hw
    obtain ⟨n, -, rfl⟩ := List.mem_map.mp hw
    exact not_mem_strNat (by decide)

theorem readLines_lineText (nInputs : Nat) (archMode : Bool) (rest : List Text) (c : Cursor) :
    readLines nInputs archMode (lineText r :: rest) c =
      if r.htrace = 0 ∧ archMode = false then ([], c, .rejected)
      else
        let q := readLines nInputs archMode rest (c.next nInputs)
        (⟨c.rep, c.input, readingInts r⟩ :: q.1, q.2) := by
  have hlen : (readingInts r).length = 6 := by
    rw [readingInts, List.length_map, readingNumbers_length]
  have hhead : (readingInts r).head? = some 0 ↔ r.htrace = 0 := by
    unfold readingInts readingNumbers
    simp [← UInt64.toNat_inj]
  rw [readLines, if_neg lineText_ne_nil, if_neg (by
    rw [containsText_of_not_mem (not_mem_lineText (by decide) (by decide))]
    simp), lineInts_lineText]
  dsimp only
  rw [if_neg (by simp [hlen])]
  simp only [hhead]

end Lines

section Pages

variable {ms : List Reading}

theorem readingLine_eq (r : Reading) : readingLine r = lineText r ++ ['\n'] := rfl

/-- A page of printed readings is read as these readings. -/
theorem readLines_page (nInputs : Nat) (archMode : Bool) (es : List Reading) (last : Bool)
    (c : Cursor) :
    readLines nInputs archMode
        (splitText '\n' (es.flatMap readingLine ++ if last then doneLine else [])) c =
      ((readEntries nInputs archMode es c).1, (readEntries nInputs archMode es c).2.1,
        if (readEntries nInputs archMode es c).2.2 then if last then .done else .more
        else .rejected) := by
  induction es generalizing c with
  | nil =>
    cases last with
    | false => rfl
    | true => rfl
  | cons r rs ih =>
    rw [List.flatMap_cons, readingLine_eq, List.append_assoc, List.append_assoc,
      List.singleton_append, splitText_append (not_mem_lineText (by decide) (by decide)),
      readLines_lineText, readEntries]
    by_cases hz : r.htrace = 0 ∧ archMode = false
    · rw [if_pos hz, if_pos hz]
      rfl
    · rw [if_neg hz, if_neg hz, ih]

theorem strNat_length_le {n : Nat} (h : n < 2 ^ 64) : (strNat n).length ≤ 20 := by
  unfold strNat
  rw [Nat.length_toDigits_le_iff (by decide) (by decide)]
  omega

theorem joinText_length_le {ws : List Text} {b : Nat} (h : ∀ w ∈ ws, w.length ≤ b) :
    (joinText [','] ws).length ≤ (b + 1) * ws.length := by
  induction ws with
  | nil => simp [joinText]
  | cons w ws ih =>
    have hw := h w (by simp)
    cases ws with
    | nil =>
      rw [joinText]
      simp only [List.length_singleton]
      omega
    | cons v vs =>
      have hrest := ih fun u hu => h u (List.mem_cons_of_mem _ hu)
      rw [joinText]
      · rw [List.length_cons, List.length_append, List.length_append, List.length_singleton,
          Nat.mul_succ]
        omega
      · simp

/-- Six numbers of 64 bits, the commas and the end of the line. -/
theorem readingLine_length_le (r : Reading) : (readingLine r).length ≤ 127 := by
  have hnums : ∀ w ∈ (readingNumbers r).map strNat, w.length ≤ 20 := by
    intro w hw
    obtain ⟨n, hn, rfl⟩ := List.mem_map.mp hw
    apply strNat_length_le
    rcases List.mem_cons.mp hn with rfl | hn
    · exact r.htrace.toNat_lt
    · obtain ⟨u, -, rfl⟩ := List.mem_map.mp hn
      exact u.toNat_lt
  have hlen := joinText_length_le hnums
  rw [List.length_map, readingNumbers_length] at hlen
  unfold readingLine
  rw [List.length_append, List.length_singleton]
  omega

/-- A page that is not the last one always fits. -/
theorem printEntries_fits {k : Nat} {buf : Text} (hbuf : buf.length < 4095)
    (hleft : (printEntries ms k buf).1 ≠ 0) : (printEntries ms k buf).2.length < 4096 := by
  induction k generalizing buf with
  | zero => exact absurd rfl hleft
  | succ k ih =>
    rw [printEntries] at hleft ⊢
    by_cases hfull : 4096 - 128 ≤ buf.length
    · rw [if_pos hfull]
      show buf.length < 4096
      omega
    · rw [if_neg hfull] at hleft ⊢
      have hline := readingLine_length_le (ms.getD k Reading.zero)
      exact ih (by rw [List.length_append]; omega) hleft

/-- The pages of `k` readings fit. Only the last one can be too long, because of its end
marker. -/
inductive PageSafe (ms : List Reading) : Nat → Prop
  | last {k : Nat} (hleft : (printEntries ms k []).1 = 0)
      (hfits : (printEntries ms k []).2.length < 4096) : PageSafe ms k
  | more {k : Nat} (hleft : (printEntries ms k []).1 ≠ 0)
      (hrest : PageSafe ms (printEntries ms k []).1) : PageSafe ms k

theorem PageSafe.fits {k : Nat} (h : PageSafe ms k) : (printEntries ms k []).2.length < 4096 := by
  cases h with
  | last _ hfits => exact hfits
  | more hleft _ => exact printEntries_fits (by decide) hleft

theorem PageSafe.rest {k : Nat} (h : PageSafe ms k) (hleft : (printEntries ms k []).1 ≠ 0) :
    PageSafe ms (printEntries ms k []).1 := by
  cases h with
  | last hzero _ => exact absurd hzero hleft
  | more _ hrest => exact hrest

theorem printEntries_length_le {b : Nat} (hb : ∀ r ∈ ms, (readingLine r).length ≤ b)
    (hzero : (readingLine Reading.zero).length ≤ b) (k : Nat) {buf : Text}
    (hbuf : buf.length < 3968 + b) : (printEntries ms k buf).2.length < 3968 + b + 5 := by
  induction k generalizing buf with
  | zero =>
    rw [printEntries, List.length_append, show doneLine.length = 5 from rfl]
    omega
  | succ k ih =>
    rw [printEntries]
    by_cases hfull : 4096 - 128 ≤ buf.length
    · rw [if_pos hfull]
      show buf.length < 3968 + b + 5
      omega
    · rw [if_neg hfull]
      have hline : (readingLine (ms.getD k Reading.zero)).length ≤ b := by
        by_cases hk : k < ms.length
        · rw [List.getD, List.getElem?_eq_getElem hk]
          exact hb _ (List.getElem_mem hk)
        · rw [List.getD, List.getElem?_eq_none (by omega)]
          exact hzero
      exact ih (by rw [List.length_append]; omega)

/-- Lines of at most 123 characters never fill the last page. -/
theorem pageSafe_of_short (h : ∀ r ∈ ms, (readingLine r).length ≤ 123) (k : Nat) :
    PageSafe ms k := by
  induction k using Nat.strongRecOn with
  | ind k ih =>
    have hlen := printEntries_length_le h (by decide) k (show ([] : Text).length < 3968 + 123 by decide)
    by_cases hleft : (printEntries ms k []).1 = 0
    · exact .last hleft (by omega)
    · refine .more hleft (ih _ ?_)
      cases k with
      | zero => exact absurd rfl hleft
      | succ k => exact printEntries_lt ms k

end Pages

section Cat

variable {sysfs : Text → Text} {km : KmState}

/-- `trace_show` does not refuse to work. -/
structure Live (km : KmState) : Prop where
  present : km.measurements.isSome = true
  inputsDone : inputParsingCompleted km.inp = true
  testCaseDone : tcParsingCompleted km.tc = true

theorem startMeasurement_err (env : TraceEnv) (km : KmState) :
    (startMeasurement env km).2 = 0 ∨ (startMeasurement env km).2 < 0 := by
  have hneg : (-eio : Int) < 0 := by decide
  unfold startMeasurement
  split
  · cases traceTestCase env km with
    | mk km' err =>
      dsimp only
      split
      · exact Or.inr hneg
      · exact Or.inl rfl
  · exact Or.inl rfl

/-- A call of `cat` that is not refused. -/
theorem catTrace_eq (env : TraceEnv) (h₁ : km.measurements.isSome = true)
    (h₂ : inputParsingCompleted km.inp = true) (h₃ : tcParsingCompleted km.tc = true)
    {km₁ : KmState} {err : Int}
    (hstart : startMeasurement env { km with unfinishedCall := true } = (km₁, err)) :
    catTrace sysfs env km =
      if err = 0 then
        ((printResults { km₁ with unfinishedCall := false }).1,
          some (sysfs (printResults { km₁ with unfinishedCall := false }).2))
      else (km₁, none) := by
  have herr := startMeasurement_err env { km with unfinishedCall := true }
  rw [hstart] at herr
  unfold catTrace traceShow
  rw [if_neg (by simp [h₁]), if_neg (by simp [h₂]), if_neg (by simp [h₃]), hstart]
  dsimp only
  by_cases h0 : err = 0
  · rw [if_pos h0, if_neg (by simp [h0])]
    dsimp only
    rw [if_neg (by omega)]
  · rw [if_neg h0, if_pos h0]
    dsimp only
    rw [if_pos (by omega)]

/-- The printing half, with `k + 1` entries left. -/
theorem printResults_of_neg (h : km.nextMeasurementId < 0) :
    printResults km = (km, doneLine) := by
  unfold printResults
  exact if_pos h

theorem printResults_eq {k : Nat} (h : km.nextMeasurementId = k) :
    printResults km =
      (km.setNext ((printEntries (km.measurements.getD []) (k + 1) []).1 - 1),
        (printEntries (km.measurements.getD []) (k + 1) []).2) := by
  unfold printResults
  rw [if_neg (by omega), h, show ((k : Int) + 1).toNat = k + 1 from by omega]

end Cat

section Entries

theorem printed_getElem {ms : List Reading} {left k p : Nat} {r : Reading}
    (h : (printed ms left (k + 1))[p]? = some r) : p ≤ k ∧ r = ms.getD (k - p) Reading.zero := by
  unfold printed at h
  obtain ⟨hlt, heq⟩ := List.getElem?_eq_some_iff.mp h
  rw [List.length_reverse, List.length_map, List.length_range'] at hlt
  refine ⟨by omega, ?_⟩
  rw [← heq, List.getElem_reverse, List.getElem_map, List.getElem_range', List.length_map,
    List.length_range']
  congr 1
  omega

/-- A zero in front stops the reader at once. -/
theorem readEntries_zero {nInputs : Nat} {r : Reading} {rs : List Reading} {c : Cursor}
    (h : r.htrace = 0) : readEntries nInputs false (r :: rs) c = ([], c, false) := by
  rw [readEntries, if_pos ⟨h, rfl⟩]

end Entries

end Rvzr.Executor
