import Rvzr.Executor.Agreement
import Rvzr.Km.Fragments

/-!
# Which readings reach the analyser

A session is a sequence of writes to the module and of calls of `_read_trace`. A reading is
valid when it was measured by the experiment that the call belongs to and passed
`check_measurement_status`. The module reports a corrupted experiment as a success, and the
reader only recognises it when the entry that is printed first is zero: then it reads the output
up to the next end marker and raises an `IOError`.
-/

namespace Rvzr.Executor

open Rvzr.Lib Rvzr.Km

/-- The performance counters have at most 19 digits; the processor's have 48 bits. -/
def ShortCounters (r : Reading) : Prop :=
  ∀ v ∈ r.pfcReading.toList, (strNat v.toNat).length ≤ 19

instance (r : Reading) : Decidable (ShortCounters r) :=
  List.decidableBAll (fun v : UInt64 => (strNat v.toNat).length ≤ 19) r.pfcReading.toList

/-- Between two reads nothing is left to print, and the module is in its normal configuration. -/
structure Resting (km : KmState) : Prop where
  array : km.ArrayOk
  inputs : km.inp.nInputs ≤ 2 ^ 20
  normal : km.dbgGprMode = false
  warmups : 0 ≤ km.uarchResetRounds
  next : km.nextMeasurementId < 0
  short : ∀ r ∈ km.measurements.getD [], ShortCounters r

/-- The array is filled with `ms`, of which some may be left to print. -/
structure Filled (km : KmState) (ms : List Reading) : Prop extends Live km where
  array : km.ArrayOk
  inputs : km.inp.nInputs ≤ 2 ^ 20
  normal : km.dbgGprMode = false
  warmups : 0 ≤ km.uarchResetRounds
  filled : km.measurements = some ms
  short : ∀ r ∈ ms, ShortCounters r

/-- An experiment comes to its end, and its counters have at most 19 digits. -/
structure ExperimentEnds (env : TraceEnv) (uarchResetRounds : Int) (nInputs : Nat) : Prop
    extends Completes env uarchResetRounds nInputs where
  short : ∀ i, -uarchResetRounds ≤ i → i < nInputs → ∀ err r st,
    env.execution i = .returned err r st → ShortCounters r

section Short

variable {r : Reading}

theorem ShortCounters.markValid (h : ShortCounters r) : ShortCounters (markValid r) := h

theorem readingLine_short (h : ShortCounters r) : (readingLine r).length ≤ 123 := by
  have hfirst := strNat_length_le r.htrace.toNat_lt
  have hrest : ∀ w ∈ (r.pfcReading.toList.map UInt64.toNat).map strNat, w.length ≤ 19 := by
    intro w hw
    obtain ⟨n, hn, rfl⟩ := List.mem_map.mp hw
    obtain ⟨u, hu, rfl⟩ := List.mem_map.mp hn
    exact h u hu
  have hlen := joinText_length_le hrest
  have hfive : ((r.pfcReading.toList.map UInt64.toNat).map strNat).length = 5 := by simp
  rw [readingLine, readingNumbers, List.map_cons]
  generalize (r.pfcReading.toList.map UInt64.toNat).map strNat = ws at hlen hfive ⊢
  cases ws with
  | nil => cases hfive
  | cons v vs =>
    rw [hfive] at hlen
    rw [joinText]
    · simp only [List.length_append, List.length_singleton]
      omega
    · simp

end Short

section Pages

variable {sysfs : Text → Text} {envs : Nat → TraceEnv} {km : KmState} {ms : List Reading}

theorem Filled.pages (h : Filled km ms) (k : Nat) : PageSafe ms k :=
  pageSafe_of_short (fun r hr => readingLine_short (h.short r hr)) k

theorem Filled.leaving (h : Filled km ms) (left : Int) : Filled (KmState.leaving km left) ms :=
  ⟨h.toLive.leaving left, h.array, h.inputs, h.normal, h.warmups, h.filled, h.short⟩

/-- When everything is printed, the module is at rest. -/
theorem Filled.resting (h : Filled km ms) : Resting (KmState.leaving km 0) :=
  ⟨h.array, h.inputs, h.normal, h.warmups, show (0 : Int) - 1 < 0 by decide, by
    rw [show (KmState.leaving km 0).measurements = km.measurements from rfl, h.filled]
    exact h.short⟩

/-- The end marker is on the last page only. -/
theorem containsText_page (ms : List Reading) (k : Nat) :
    containsText ['d', 'o', 'n', 'e'] (printEntries ms k []).2 = true ↔
      (printEntries ms k []).1 = 0 := by
  rw [(printEntries_eq ms k []).2, List.nil_append]
  by_cases hleft : (printEntries ms k []).1 = 0
  · rw [if_pos hleft]
    exact iff_of_true (containsText_append _ (by decide)) hleft
  · rw [if_neg hleft, List.append_nil, containsText_of_not_mem]
    · exact iff_of_false (by simp) hleft
    · intro hd
      obtain ⟨r, -, hr⟩ := List.mem_flatMap.mp hd
      rw [readingLine_eq, List.mem_append, List.mem_singleton] at hr
      rcases hr with hr | hr
      · exact not_mem_lineText (by decide) (by decide) hr
      · exact absurd hr (by decide)

/-- The reader rejects a page that begins with a zero. -/
theorem readLines_zeroPage (n : Nat) {k : Nat} (hzero : (ms.getD k Reading.zero).htrace = 0)
    (c : Cursor) :
    readLines n false (splitText '\n' (printEntries ms (k + 1) []).2) c = ([], c, .rejected) := by
  have hle := Nat.le_of_lt_succ (printEntries_lt ms k)
  have hpage := readLines_page n false (printed ms (printEntries ms (k + 1) []).1 (k + 1))
    (decide ((printEntries ms (k + 1) []).1 = 0)) c
  rw [printed_succ ms hle, readEntries_zero hzero] at hpage
  rw [(printEntries_eq ms (k + 1) []).2, List.nil_append, printed_succ ms hle]
  simpa using hpage

variable (envs) in
/-- Rewinding in the middle of a batch reads its pages up to the end marker. -/
theorem rewind_pages (hsys : DeliversPage sysfs) {k : Nat} (hsafe : PageSafe ms k)
    (h : Filled km ms) (hnext : km.nextMeasurementId = (k : Int) - 1) (hk : k ≠ 0) {fuel : Nat}
    (hfuel : k ≤ fuel) :
    rewindKmOutputToEnd sysfs envs fuel km = (KmState.leaving km 0, .ioError) := by
  induction hsafe generalizing km fuel with
  | @last k hleft hfits =>
    obtain ⟨fuel, rfl⟩ := Nat.exists_eq_succ_of_ne_zero (show fuel ≠ 0 by omega)
    rw [rewindKmOutputToEnd, catTrace_page hsys (envs km.runs) hnext hk h.toLive h.filled hfits]
    dsimp only
    rw [if_pos ((containsText_page ms k).mpr hleft), hleft]
    rfl
  | @more k hleft hrest ih =>
    obtain ⟨fuel, rfl⟩ := Nat.exists_eq_succ_of_ne_zero (show fuel ≠ 0 by omega)
    obtain ⟨k, rfl⟩ := Nat.exists_eq_succ_of_ne_zero hk
    have hlt : (printEntries ms k.succ []).1 < k + 1 := printEntries_lt ms k
    rw [rewindKmOutputToEnd, catTrace_page hsys (envs km.runs) hnext hk h.toLive h.filled
      (printEntries_fits (by decide) hleft)]
    dsimp only
    rw [if_neg fun hdone => hleft ((containsText_page ms (k + 1)).mp hdone)]
    exact ih (h.leaving _) rfl hleft (by omega)

end Pages

section Experiments

variable {sysfs : Text → Text} {envs : Nat → TraceEnv} {km : KmState} {ms : List Reading} {N : Nat}

/-- The module is at rest and has what an experiment on `N` inputs needs. -/
structure Idle (km : KmState) (N : Nat) : Prop extends Resting km, Live km where
  batch : inputsPresent km.inp = true
  nInputs : km.inp.nInputs = N
  nonempty : N ≠ 0

theorem Idle.leaving (h : Idle km N) {km₁ : KmState} (hc : SameConfig km km₁)
    (hf : Filled km₁ ms) : Idle (KmState.leaving km₁ 0) N :=
  ⟨hf.resting, hf.toLive.leaving 0, by
    rw [show (KmState.leaving km₁ 0).inp = km.inp from hc.inp]
    exact h.batch, by
    rw [show (KmState.leaving km₁ 0).inp = km.inp from hc.inp]
    exact h.nInputs, h.nonempty⟩

theorem Resting.reused_short (h : Resting km) : ∀ r ∈ km.reused, ShortCounters r := by
  unfold KmState.reused
  split
  · exact h.short
  · intro r hr v hv
    rw [List.eq_of_mem_replicate hr, Reading.zero, Vector.toList_replicate] at hv
    rw [List.eq_of_mem_replicate hv]
    exact Nat.le_of_ble_eq_true rfl

/-- An experiment fills the array. -/
theorem Idle.start (h : Idle km N) (hok : ExperimentEnds (envs km.runs) km.uarchResetRounds N) :
    ∃ km₁ ms, startMeasurement (envs km.runs) { km with unfinishedCall := true } = (km₁, 0) ∧
      Filled km₁ ms ∧ SameConfig km km₁ ∧ km₁.runs = km.runs + 1 ∧
      km₁.nextMeasurementId = (N : Int) - 1 ∧ km₁.reused = ms ∧ N ≤ km.reused.length ∧
      (measureRounds false (envs km.runs).execution (rounds km.uarchResetRounds N) km.reused =
          (ms, .complete) ∨
        measureRounds false (envs km.runs).execution (rounds km.uarchResetRounds N) km.reused =
          (ms, .corrupted)) := by
  obtain rfl := h.nInputs
  obtain ⟨km₁, ms, hstart, hms, hlen, hend, hcfg, harr, hruns, hnext, hold⟩ :
      ∃ km₁ ms, startMeasurement (envs km.runs) { km with unfinishedCall := true } = (km₁, 0) ∧
        km₁.measurements = some ms ∧ km.inp.nInputs ≤ km.reused.length ∧
        (measureRounds false (envs km.runs).execution (rounds km.uarchResetRounds km.inp.nInputs)
            km.reused = (ms, .complete) ∨
          measureRounds false (envs km.runs).execution (rounds km.uarchResetRounds km.inp.nInputs)
            km.reused = (ms, .corrupted)) ∧
        SameConfig km km₁ ∧ km₁.ArrayOk ∧ km₁.runs = km.runs + 1 ∧
        km₁.nextMeasurementId = (km.inp.nInputs : Int) - 1 ∧
        km.inp.nInputs ≤ toU64 km₁.oldNInputs := by
    obtain ⟨km₁, ms, hstart, hms, hlen, hend, hcfg, hrest⟩ := startMeasurement_completes
      (show ({ km with unfinishedCall := true } : KmState).ArrayOk from h.array) h.inputs h.present
      h.next h.nonempty h.batch h.normal hok.toCompletes
    exact ⟨km₁, ms, hstart, hms, hlen, hend, ⟨hcfg.tc, hcfg.inp, hcfg.uarchResetRounds,
      hcfg.dbgGprMode⟩, hrest⟩
  have hall : ∀ r ∈ (measureRounds false (envs km.runs).execution
      (rounds km.uarchResetRounds km.inp.nInputs) km.reused).1, ShortCounters r :=
    measureRounds_all (fun i hi err r st hex =>
      have hr := hok.short i (neg_le_of_mem_rounds hi) (lt_of_mem_rounds hi) err r st hex
      ⟨hr, hr.markValid⟩) h.toResting.reused_short
  have hshort : ∀ r ∈ ms, ShortCounters r := by
    rcases hend with hend | hend
    · rw [hend] at hall
      exact hall
    · rw [hend] at hall
      exact hall
  have hlive : Live km₁ := by
    refine ⟨by rw [hms]; rfl, ?_, ?_⟩
    · rw [hcfg.inp]
      exact h.inputsDone
    · rw [hcfg.tc]
      exact h.testCaseDone
  refine ⟨km₁, ms, hstart, ⟨hlive, harr, ?_, ?_, ?_, hms, hshort⟩, hcfg, hruns, hnext, ?_, hlen,
    hend⟩
  · rw [hcfg.inp]
    exact h.inputs
  · rw [hcfg.dbgGprMode]
    exact h.normal
  · rw [hcfg.uarchResetRounds]
    exact h.warmups
  · unfold KmState.reused
    rw [hcfg.inp, if_pos hold, hms]
    rfl

variable (envs) in
/-- Rewinding a module at rest runs one more experiment. -/
theorem Idle.rewind (hsys : DeliversPage sysfs) (h : Idle km N)
    (hok : ExperimentEnds (envs km.runs) km.uarchResetRounds N) {fuel : Nat} (hfuel : N ≤ fuel) :
    ∃ km', Resting km' ∧ km.runs ≤ km'.runs ∧
      rewindKmOutputToEnd sysfs envs fuel km = (km', .ioError) := by
  obtain ⟨km₁, ms, hstart, hf, -, hruns, hnext, -, -, -⟩ := h.start hok
  have hN := h.nonempty
  have hcat := catTrace_start sysfs h.toLive hf.toLive (by rw [hnext]; omega) hstart
  have hpages := rewind_pages envs hsys (hf.pages N) hf hnext hN hfuel
  refine ⟨_, hf.resting, by show km.runs ≤ km₁.runs; omega, ?_⟩
  obtain ⟨fuel, rfl⟩ := Nat.exists_eq_succ_of_ne_zero (show fuel ≠ 0 by omega)
  rw [rewindKmOutputToEnd] at hpages ⊢
  rw [hcat]
  exact hpages

/-- An experiment whose first entry is zero: nothing is yielded, and the output is rewound. -/
theorem readLoop_corrupted (hsys : DeliversPage sysfs) (nReps n : Nat) (h : Filled km ms)
    (hidle : Idle (KmState.leaving km 0) N)
    (hok : ExperimentEnds (envs km.runs) km.uarchResetRounds N)
    (hnext : km.nextMeasurementId = (N : Int) - 1)
    (hzero : (ms.getD (N - 1) Reading.zero).htrace = 0) {fuel : Nat} (hfuel : N ≤ fuel)
    (c : Cursor) :
    ∃ km', Resting km' ∧ km.runs ≤ km'.runs ∧
      readLoop sysfs envs nReps n false (fuel + 1) true c km = ⟨km', [⟨km, []⟩], .ioError⟩ := by
  obtain ⟨k, rfl⟩ := Nat.exists_eq_succ_of_ne_zero hidle.nonempty
  rw [Nat.succ_sub_one] at hzero
  have hsafe := h.pages (k + 1)
  have hlt := printEntries_lt ms k
  have hcat := catTrace_page hsys (envs km.runs) hnext hidle.nonempty h.toLive h.filled hsafe.fits
  have hlines := readLines_zeroPage n hzero c
  have hrewind : ∃ km', Resting km' ∧ km.runs ≤ km'.runs ∧
      rewindKmOutputToEnd sysfs envs fuel (KmState.leaving km (printEntries ms (k + 1) []).1) =
        (km', .ioError) := by
    by_cases hleft : (printEntries ms (k + 1) []).1 = 0
    · rw [hleft]
      exact hidle.rewind envs hsys hok hfuel
    · exact ⟨_, h.resting, Nat.le_refl _, rewind_pages envs hsys (hsafe.rest hleft) (h.leaving _)
        rfl hleft (by omega)⟩
  obtain ⟨km', hrest, hruns, heq⟩ := hrewind
  refine ⟨km', hrest, hruns, ?_⟩
  rw [readLoop, if_neg (by simp)]
  dsimp only
  rw [if_pos rfl, hcat]
  dsimp only
  rw [hlines]
  dsimp only
  rw [heq]

/-- What the array holds for the last input before experiment `e` of a read: at first what it
held before the read, later the entry of the experiment before. -/
def held (envs : Nat → TraceEnv) (km : KmState) : Nat → Reading
  | 0 => km.reused.getD (km.inp.nInputs - 1) Reading.zero
  | e + 1 => finalReading false (envs (km.runs + e)).execution (km.inp.nInputs - 1)

/-- A read of `count` experiments has ended after `e` of them were yielded. -/
structure Ended (envs : Nat → TraceEnv) (km : KmState) (n N count t e : Nat) (r : ReadResult) :
    Prop where
  le : e ≤ count
  resting : Resting r.km
  runs : km.runs + e ≤ r.km.runs
  measured : ∀ x, km.runs ≤ x → x < km.runs + e → ∀ j, j < N →
    Measured (envs x).execution km.uarchResetRounds j (finalReading false (envs x).execution j)
  yields : r.yields = cells n t (callReadings envs km N e)
  outcome : (e = count ∧ r.outcome = .finished) ∨ (e < count ∧ r.outcome = .ioError)

/-- The entries of an experiment that has run to its end. -/
theorem measureRounds_final {exec : Int → Execution} {w : Int} (hw : 0 ≤ w)
    {ms' : List Reading} (hlen : N ≤ ms.length)
    (h : measureRounds false exec (rounds w N) ms = (ms', .complete)) {j : Nat} (hj : j < N) :
    ms'.getD j Reading.zero = finalReading false exec j ∧
      Measured exec w j (finalReading false exec j) := by
  have hmeasured := measureRounds_measured hw hlen h hj
  obtain ⟨r, st, hex, hst, hr⟩ := hmeasured.2
  have hfinal : finalReading false exec j = ms'.getD j Reading.zero := by
    rw [finalReading, hex, hr]
    exact if_pos ⟨rfl, hst⟩
  rw [hfinal]
  exact ⟨rfl, hmeasured⟩

theorem measured_htrace_ne {exec : Int → Execution} {w : Int} {j : Nat} {r : Reading}
    (h : Measured exec w j r) : r.htrace ≠ 0 := by
  obtain ⟨r₀, st, -, -, rfl⟩ := h.2
  exact fun hz => absurd (UInt64.or_eq_zero_iff.mp hz).2 (by decide)

/-- One valid experiment before the rest of a read. -/
theorem Ended.step {n count t e : Nat} {km₂ : KmState} {r q : ReadResult}
    (hq : Ended envs km₂ n N count (t + N) e q) (hruns : km₂.runs = km.runs + 1)
    (hwarm : km₂.uarchResetRounds = km.uarchResetRounds) (hdbg : km₂.dbgGprMode = km.dbgGprMode)
    (hmeasured : ∀ j, j < N → Measured (envs km.runs).execution km.uarchResetRounds j
      (finalReading false (envs km.runs).execution j))
    (hreads : ReadsAs r
      (cells n t (printed (finalReadings km.dbgGprMode (envs km.runs) N) 0 N)) q) :
    Ended envs km n N (count + 1) t (e + 1) r := by
  have hle := hq.le
  refine ⟨by omega, ?_, ?_, fun x hx hx' => ?_, ?_, ?_⟩
  · rw [hreads.km]
    exact hq.resting
  · have := hq.runs
    rw [hreads.km]
    omega
  · by_cases hfirst : x = km.runs
    · subst hfirst
      exact hmeasured
    · rw [← hwarm]
      exact hq.measured x (by omega) (by omega)
  · rw [hreads.yields, hq.yields, callReadings, callReadings, List.range'_succ, List.flatMap_cons,
      cells_append, printed_length, Nat.sub_zero, hruns, hdbg]
  · rw [hreads.outcome]
    rcases hq.outcome with ⟨he, ho⟩ | ⟨he, ho⟩
    · exact Or.inl ⟨by omega, ho⟩
    · exact Or.inr ⟨by omega, ho⟩

variable (envs) in
/-- All experiments of a read, up to the first one in which a measurement is corrupted. -/
theorem readLoop_ended (hsys : DeliversPage sysfs) {nReps n : Nat} (hn : n ≠ 0) (hdvd : N % n = 0)
    {count : Nat} (h : Idle km N)
    (hends : ∀ e, e ≤ count → ExperimentEnds (envs (km.runs + e)) km.uarchResetRounds N)
    (hvis : ∀ e, e < count → Visible (envs (km.runs + e)).execution N (held envs km e))
    {t : Nat} (ht : t % n = 0) (hreps : n * nReps = t + N * count) {fuel : Nat}
    (hfuel : N * count < fuel) :
    ∃ e, Ended envs km n N count t e
      (readLoop sysfs envs nReps n false fuel false (Cursor.ofCount n t) km) := by
  have hpos : 0 < n := Nat.pos_of_ne_zero hn
  induction count generalizing km t fuel with
  | zero =>
    obtain ⟨fuel, rfl⟩ := Nat.exists_eq_succ_of_ne_zero (show fuel ≠ 0 by omega)
    have hrep : nReps ≤ (Cursor.ofCount n t).rep := by
      rw [Nat.mul_zero, Nat.add_zero] at hreps
      exact Nat.le_of_eq (by rw [Cursor.ofCount, ← hreps, Nat.mul_div_cancel_left _ hpos])
    rw [readLoop, if_pos ⟨rfl, hrep⟩]
    exact ⟨0, Nat.le_refl 0, h.toResting, Nat.le_refl _, fun x hx hx' => absurd hx' (by omega), rfl,
      Or.inl ⟨rfl, rfl⟩⟩
  | succ count ih =>
    rw [Nat.mul_succ] at hreps hfuel
    have hN := h.nonempty
    have hrep : t / n < nReps := Nat.div_lt_of_lt_mul (by omega)
    have hcursor : (Cursor.ofCount n t).input = n - 1 := by
      rw [Cursor.ofCount, ht, Nat.sub_zero]
    obtain ⟨km₁, ms, hstart, hf, hcfg, hruns, hnext, hreused, hlen, hrun⟩ :=
      h.start (hends 0 (by omega))
    have hidle := h.leaving hcfg hf
    obtain ⟨fuel, rfl⟩ := Nat.exists_eq_succ_of_ne_zero (show fuel ≠ 0 by omega)
    have hfirst := readLoop_start sysfs false (c := Cursor.ofCount n t) hcursor hrep h.toLive
      hf.toLive (by rw [hnext]; omega) hstart fuel
    rcases hrun with hcomplete | hcorrupted
    · have hfinal := fun j (hj : j < N) => measureRounds_final h.warmups hlen hcomplete hj
      have hnz : ∀ j, j < N → (ms.getD j Reading.zero).htrace ≠ 0 := by
        intro j hj
        rw [(hfinal j hj).1]
        exact measured_htrace_ne (hfinal j hj).2
      have hnext' : (t + N) % n = 0 := by rw [Nat.add_mod, ht, hdvd, Nat.zero_mod]
      obtain ⟨fuel', hle, hreads⟩ := readLoop_batch envs nReps false hsys hn (hf.pages N) hnext hN
        hf.toLive hf.filled hnz (fuel + 1 - N) hnext'
      rw [show fuel + 1 - N + N = fuel + 1 from by omega] at hreads
      have hruns₂ : (KmState.leaving km₁ 0).runs = km.runs + 1 := hruns
      have hwarm₂ : (KmState.leaving km₁ 0).uarchResetRounds = km.uarchResetRounds :=
        hcfg.uarchResetRounds
      have hheld : ∀ e, held envs (KmState.leaving km₁ 0) e = held envs km (e + 1) := by
        intro e
        cases e with
        | zero =>
          rw [held, held, h.nInputs, hidle.nInputs, show (KmState.leaving km₁ 0).reused =
            km₁.reused from rfl, hreused, (hfinal (N - 1) (by omega)).1]
          rfl
        | succ e =>
          rw [held, held, h.nInputs, hidle.nInputs, hruns₂,
            show km.runs + 1 + e = km.runs + (e + 1) from by omega]
      obtain ⟨e, he⟩ := ih hidle
        (fun e he => by
          rw [hruns₂, hwarm₂, show km.runs + 1 + e = km.runs + (e + 1) from by omega]
          exact hends (e + 1) (by omega))
        (fun e he => by
          rw [hheld, hruns₂, show km.runs + 1 + e = km.runs + (e + 1) from by omega]
          exact hvis (e + 1) (by omega)) hnext' (by omega) (show _ < fuel' by omega)
      have hprinted : printed ms 0 N =
          printed (finalReadings km.dbgGprMode (envs km.runs) N) 0 N := by
        refine printed_congr fun j hj => ?_
        rw [finalReadings_getD _ _ hj, h.normal]
        exact (hfinal j hj).1
      rw [hprinted] at hreads
      exact ⟨e + 1, he.step hruns₂ hwarm₂ hcfg.dbgGprMode (fun j hj => (hfinal j hj).2)
        (hfirst.trans hreads)⟩
    · -- the entry that is printed first is zero
      have hzero := measureRounds_visible h.warmups hN hlen hcorrupted (by
        have := hvis 0 (by omega)
        rw [held, h.nInputs] at this
        exact this)
      have hnextEnds : ExperimentEnds (envs km₁.runs) km₁.uarchResetRounds N := by
        rw [hruns, hcfg.uarchResetRounds]
        exact hends 1 (by omega)
      obtain ⟨km', hrest, hruns', hloop⟩ := readLoop_corrupted hsys nReps n hf hidle hnextEnds
        hnext hzero (show N ≤ fuel by omega) (Cursor.ofCount n t)
      rw [hloop] at hfirst
      refine ⟨0, Nat.zero_le _, ?_, ?_, fun x hx hx' => absurd hx' (by omega), ?_, ?_⟩
      · rw [hfirst.km]
        exact hrest
      · rw [hfirst.km]
        show km.runs + 0 ≤ km'.runs
        omega
      · rw [hfirst.yields]
        rfl
      · rw [hfirst.outcome]
        exact Or.inr ⟨Nat.succ_pos _, rfl⟩

end Experiments

section Sessions

/-- An operation on the module: a write to one of its two files, or a whole call of
`_read_trace` in normal mode. -/
inductive Op where
  | testCaseStore (env : CallEnv) (prep : LoadEnv) (buf : WriteBuf)
  | inputsStore (env : InputEnv) (buf : WriteBuf)
  | readTrace (nReps nInputs fuel : Nat)

variable (sysfs : Text → Text) (envs : Nat → TraceEnv)

def opStep (km : KmState) : Op → KmState
  | .testCaseStore env prep buf => (testCaseStore env prep km buf).1
  | .inputsStore env buf => (inputsStore env km buf).1
  | .readTrace nReps nInputs fuel => (readTrace sysfs envs nReps nInputs false fuel km).km

/-- What a read needs: a batch that consists of copies of the reader's inputs, and experiments
that come to their end. If a measurement of an experiment is corrupted, the entry that is printed
first is zero afterwards. The last experiment of `ends` only runs when the output is rewound. -/
structure ReadOk (km : KmState) (nReps nInputs fuel : Nat) : Prop where
  live : Live km
  batch : inputsPresent km.inp = true
  nonempty : km.inp.nInputs ≠ 0
  copies : nInputs ∣ km.inp.nInputs
  repetitions : km.inp.nInputs ∣ nInputs * nReps
  ends : ∀ e, km.inp.nInputs * e ≤ nInputs * nReps →
    ExperimentEnds (envs (km.runs + e)) km.uarchResetRounds km.inp.nInputs
  visible : ∀ e, km.inp.nInputs * e < nInputs * nReps →
    Visible (envs (km.runs + e)).execution km.inp.nInputs (held envs km e)
  fuel : nInputs * nReps < fuel

/-- No batch has more inputs than `MAX_INPUTS`, and the reads are in order. -/
def OpOk (km : KmState) : Op → Prop
  | .testCaseStore _ _ _ => True
  | .inputsStore env buf => (inputsStore env km buf).1.inp.nInputs ≤ 2 ^ 20
  | .readTrace nReps nInputs fuel => ReadOk envs km nReps nInputs fuel

/-- Number `p` of the readings of `r`, a read from `km`, was measured by the experiment that the
read ran for it, and passed the check. An experiment is read from its last input downwards. -/
def YieldValid (km : KmState) (r : ReadResult) (p : Nat) (y : Yield) : Prop :=
  km.runs + p / km.inp.nInputs < r.km.runs ∧
    ∃ reading, Measured (envs (km.runs + p / km.inp.nInputs)).execution km.uarchResetRounds
      (km.inp.nInputs - 1 - p % km.inp.nInputs) reading ∧ y.line = readingInts reading

/-- Every reading of a read is valid; unless all of them are yielded, it raises an `IOError`. -/
def ReadsValid (km : KmState) : Op → Prop
  | .readTrace nReps nInputs fuel =>
    let r := readTrace sysfs envs nReps nInputs false fuel km
    (∀ p y, r.yields[p]? = some y → YieldValid envs km r p y) ∧
      ((r.outcome = .finished ∧ r.yields.length = nInputs * nReps) ∨
        (r.outcome = .ioError ∧ r.yields.length < nInputs * nReps))
  | _ => True

variable {sysfs envs} {km : KmState}

/-- The readings of the experiments that were yielded are valid. -/
theorem Ended.yieldValid {n count e : Nat} {r : ReadResult}
    (h : Ended envs km n km.inp.nInputs count 0 e r) (hnormal : km.dbgGprMode = false)
    (hN : km.inp.nInputs ≠ 0) {p : Nat} {y : Yield} (hy : r.yields[p]? = some y) :
    YieldValid envs km r p y := by
  rw [h.yields] at hy
  have hlt := (List.getElem?_eq_some_iff.mp hy).1
  rw [cells_length, callReadings_length] at hlt
  have hexperiment := Nat.add_lt_add_left (Nat.div_lt_of_lt_mul hlt) km.runs
  have hmod := Nat.mod_lt p (Nat.pos_of_ne_zero hN)
  rw [cells_getElem, callReadings_getElem envs km hlt, hnormal] at hy
  refine ⟨Nat.lt_of_lt_of_le hexperiment h.runs, _,
    h.measured _ (Nat.le_add_right _ _) hexperiment _ (by omega), ?_⟩
  rw [← Option.some.inj hy]

theorem readTrace_valid (hsys : DeliversPage sysfs) {nReps nInputs fuel : Nat} (h : Resting km)
    (hok : ReadOk envs km nReps nInputs fuel) :
    ReadsValid sysfs envs km (.readTrace nReps nInputs fuel) ∧
      Resting (readTrace sysfs envs nReps nInputs false fuel km).km := by
  have hn : nInputs ≠ 0 := fun hz => hok.nonempty (Nat.eq_zero_of_zero_dvd (hz ▸ hok.copies))
  have hpos := Nat.pos_of_ne_zero hok.nonempty
  obtain ⟨count, hcount⟩ := hok.repetitions
  have hcursor : (⟨0, nInputs - 1⟩ : Cursor) = Cursor.ofCount nInputs 0 := by
    rw [Cursor.ofCount, Nat.zero_div, Nat.zero_mod, Nat.sub_zero]
  obtain ⟨e, he⟩ := readLoop_ended envs hsys hn (Nat.mod_eq_zero_of_dvd hok.copies)
    (show Idle km km.inp.nInputs from ⟨h, hok.live, hok.batch, rfl, hok.nonempty⟩)
    (fun e he => hok.ends e (by rw [hcount]; exact Nat.mul_le_mul_left _ he))
    (fun e he => hok.visible e (by rw [hcount]; exact Nat.mul_lt_mul_of_pos_left he hpos))
    (Nat.zero_mod _) (show _ = 0 + km.inp.nInputs * count by rw [Nat.zero_add]; exact hcount)
    (show km.inp.nInputs * count < fuel by rw [← hcount]; exact hok.fuel)
  have hread : readLoop sysfs envs nReps nInputs false fuel false (Cursor.ofCount nInputs 0) km =
      readTrace sysfs envs nReps nInputs false fuel km := by
    rw [readTrace, if_neg hn, hcursor]
  rw [hread] at he
  have hlen : (readTrace sysfs envs nReps nInputs false fuel km).yields.length =
      km.inp.nInputs * e := by
    rw [he.yields, cells_length, callReadings_length]
  refine ⟨⟨fun p y hy => he.yieldValid h.normal hok.nonempty hy, ?_⟩, he.resting⟩
  rw [hlen, hcount]
  rcases he.outcome with ⟨hall, ho⟩ | ⟨hlt, ho⟩
  · exact Or.inl ⟨ho, by rw [hall]⟩
  · exact Or.inr ⟨ho, Nat.mul_lt_mul_of_pos_left hlt hpos⟩

/-- Writes keep the module at rest. -/
theorem Resting.testCaseStore (h : Resting km) (env : CallEnv) (prep : LoadEnv) (buf : WriteBuf) :
    Resting (Km.testCaseStore env prep km buf).1 := by
  unfold Km.testCaseStore
  dsimp only
  cases parseTestCaseBuffer env km.tc buf with
  | mk tc r =>
    dsimp only
    split
    · exact ⟨h.array, h.inputs, h.normal, h.warmups, h.next, h.short⟩
    split
    · exact ⟨h.array, h.inputs, h.normal, h.warmups, h.next, h.short⟩
    split
    · exact ⟨h.array, h.inputs, h.normal, h.warmups, h.next, h.short⟩
    split
    · exact ⟨h.array, h.inputs, h.normal, h.warmups, h.next, h.short⟩
    · exact ⟨h.array, h.inputs, h.normal, h.warmups, show (-1 : Int) < 0 by decide, h.short⟩

theorem Resting.inputsStore (h : Resting km) (env : InputEnv) (buf : WriteBuf)
    (hn : (Km.inputsStore env km buf).1.inp.nInputs ≤ 2 ^ 20) :
    Resting (Km.inputsStore env km buf).1 :=
  ⟨h.array, hn, h.normal, h.warmups, h.next, h.short⟩

theorem Resting.step (hsys : DeliversPage sysfs) (h : Resting km) (op : Op)
    (hok : OpOk envs km op) :
    Resting (opStep sysfs envs km op) ∧ ReadsValid sysfs envs km op := by
  cases op with
  | testCaseStore env prep buf => exact ⟨h.testCaseStore env prep buf, trivial⟩
  | inputsStore env buf => exact ⟨h.inputsStore env buf hok, trivial⟩
  | readTrace nReps nInputs fuel => exact (readTrace_valid hsys h hok).symm

/-- In every session from a resting module whose operations are in order, everything that
`_read_trace` yields is a valid measurement of the current experiment, and a read that does not
yield all readings raises an `IOError`. -/
theorem session_readsValid (hsys : DeliversPage sysfs) (h : Resting km) {ops : List Op}
    (hok : AllSteps (opStep sysfs envs) (OpOk envs) km ops) :
    AllSteps (opStep sysfs envs) (ReadsValid sysfs envs) km ops :=
  AllSteps.imp (fun _ op hr ho => (Resting.step hsys hr op ho).1)
    (fun _ op hr ho => (Resting.step hsys hr op ho).2) hok h

end Sessions

section Samples

/-- The writes of a batch of `n` inputs for one actor. -/
def sampleBatch (n : Nat) : List Op :=
  .inputsStore sampleInputEnv ⟨encodeWords [1, n], fun _ => 0⟩ ::
    .inputsStore sampleInputEnv ⟨encodeWords [8192, 0], fun _ => 0⟩ ::
    List.replicate (3 * n) (.inputsStore sampleInputEnv ⟨List.replicate 4096 0, fun _ => 0⟩)

/-- A system management interrupt corrupts the measurement of input 0 in the first experiment. -/
def sampleInterrupted (x : Nat) : TraceEnv :=
  ⟨fun _ => true, 0, 0, fun i =>
    .returned 0 ⟨5, Vector.replicate 5 0⟩ ⟨2, if x = 0 ∧ i = 0 then 1 else 0⟩⟩

/-- The module after the writes; they do not depend on the environment of the reads. -/
def sampleLoaded (n : Nat) : KmState :=
  run (opStep id sampleInterrupted) sampleTestCaseLoaded (sampleBatch n)

/-- The module after the first read of the two inputs. -/
def sampleRewound : KmState := (readTrace id sampleInterrupted 1 2 false 10 (sampleLoaded 2)).km

/-- A system management interrupt corrupts every measurement. -/
def sampleCorrupted : TraceEnv :=
  ⟨fun _ => true, 0, 0, fun _ => .returned 0 ⟨1, Vector.replicate 5 0⟩ ⟨2, 1⟩⟩

/-- The states of the module before and after the first read, and how the two reads end. -/
theorem sampleReads_states :
    ((sampleLoaded 2).oldNInputs = 0 ∧ (sampleLoaded 2).dbgGprMode = false ∧
      (sampleLoaded 2).uarchResetRounds = 1 ∧ (sampleLoaded 2).nextMeasurementId = -1 ∧
      ∀ r ∈ (sampleLoaded 2).measurements.getD [], ShortCounters r) ∧
    ((sampleLoaded 2).measurements.isSome = true ∧
      inputParsingCompleted (sampleLoaded 2).inp = true ∧
      tcParsingCompleted (sampleLoaded 2).tc = true ∧
      inputsPresent (sampleLoaded 2).inp = true ∧ (sampleLoaded 2).inp.nInputs = 2 ∧
      ((sampleLoaded 2).reused.getD 1 Reading.zero).htrace = 0 ∧ (sampleLoaded 2).runs = 0) ∧
    (sampleRewound.measurements.isSome = true ∧ inputParsingCompleted sampleRewound.inp = true ∧
      tcParsingCompleted sampleRewound.tc = true ∧ inputsPresent sampleRewound.inp = true ∧
      sampleRewound.inp.nInputs = 2 ∧ sampleRewound.runs = 2) ∧
    (readTrace id sampleInterrupted 1 2 false 10 (sampleLoaded 2)).outcome = .ioError ∧
    (readTrace id sampleInterrupted 1 2 false 10 sampleRewound).yields.length = 2 := by
  decide +kernel

theorem sampleLoaded_resting : Resting (sampleLoaded 2) := by
  obtain ⟨⟨hold, hnormal, hwarmups, hnext, hshort⟩, ⟨-, -, -, -, hinputs, -⟩, -⟩ :=
    sampleReads_states
  refine ⟨fun ms _ => ?_, by rw [hinputs]; decide, hnormal, by rw [hwarmups]; decide,
    by rw [hnext]; decide, hshort⟩
  rw [hold]
  exact Nat.zero_le _

theorem sampleInterrupted_ends (x : Nat) (w : Int) (n : Nat) :
    ExperimentEnds (sampleInterrupted x) w n := by
  refine ⟨⟨rfl, rfl, rfl, fun _ _ _ => ⟨_, _, rfl⟩⟩, fun i _ _ err r st hex => ?_⟩
  cases hex
  decide

theorem sampleInterrupted_sound {x : Nat} (hx : x ≠ 0) (j : Nat) :
    ¬ Corrupted (sampleInterrupted x).execution j := by
  rintro ⟨err, r, st, hex, hst⟩
  cases hex
  exact hst (by rw [if_neg fun hc => hx hc.1]; rfl)

/-- A read of the two inputs. -/
theorem sampleRead_ok {km : KmState} (hlive : Live km) (hbatch : inputsPresent km.inp = true)
    (hnum : km.inp.nInputs = 2)
    (hvis : Visible (sampleInterrupted km.runs).execution 2 (held sampleInterrupted km 0)) :
    OpOk sampleInterrupted km (.readTrace 1 2 10) := by
  refine ⟨hlive, hbatch, by omega, by omega, by simp only [hnum, Nat.mul_one, Nat.dvd_refl],
    fun e _ => sampleInterrupted_ends _ _ _, fun e he => ?_, by decide⟩
  rw [hnum] at he ⊢
  obtain rfl : e = 0 := by omega
  exact hvis

theorem sampleReads_ok : OpOk sampleInterrupted (sampleLoaded 2) (.readTrace 1 2 10) ∧
    OpOk sampleInterrupted sampleRewound (.readTrace 1 2 10) := by
  obtain ⟨-, hloaded, hrewound, -⟩ := sampleReads_states
  generalize sampleLoaded 2 = km at hloaded ⊢
  generalize sampleRewound = km' at hrewound ⊢
  obtain ⟨h₁, h₂, h₃, hbatch, hnum, hheld, hruns⟩ := hloaded
  obtain ⟨h₁', h₂', h₃', hbatch', hnum', hruns'⟩ := hrewound
  have hsound := sampleInterrupted_sound (x := km'.runs) (by rw [hruns']; decide)
  refine ⟨sampleRead_ok ⟨h₁, h₂, h₃⟩ hbatch hnum ⟨fun _ => ?_, fun hall _ => ?_⟩,
    sampleRead_ok ⟨h₁', h₂', h₃'⟩ hbatch' hnum' ⟨?_, fun _ hlast => absurd hlast (hsound _)⟩⟩
  · rw [held, hnum]
    exact hheld
  · -- input 0 is corrupted
    rw [hruns] at hall
    exact absurd ⟨0, _, _, rfl, by decide⟩ (hall 0 (by decide))
  · rintro ⟨j, -, hj⟩
    exact absurd hj (hsound j)

/-- The corrupted measurement of the first read is noticed, and all readings of the second one
are yielded. -/
theorem session_readsValid_sample :
    AllSteps (opStep id sampleInterrupted) (ReadsValid id sampleInterrupted) (sampleLoaded 2)
      [.readTrace 1 2 10, .readTrace 1 2 10] ∧
    (readTrace id sampleInterrupted 1 2 false 10 (sampleLoaded 2)).outcome = .ioError ∧
    (readTrace id sampleInterrupted 1 2 false 10 sampleRewound).yields.length = 2 :=
  ⟨session_readsValid (fun _ _ => rfl) sampleLoaded_resting
    ⟨sampleReads_ok.1, sampleReads_ok.2, trivial⟩, sampleReads_states.2.2.2⟩

/-- A corrupted measurement of the only input is yielded, and the read ends without an error. -/
theorem sampleCorrupted_yielded :
    (readTrace id (fun _ => sampleCorrupted) 1 1 false 10 (sampleLoaded 1)).outcome = .finished ∧
    (readTrace id (fun _ => sampleCorrupted) 1 1 false 10 (sampleLoaded 1)).yields =
      [⟨0, 0, [1, 0, 0, 0, 0, 0]⟩] ∧
    ¬ ReadsValid id (fun _ => sampleCorrupted) (sampleLoaded 1) (.readTrace 1 1 10) := by
  have hyields : (readTrace id (fun _ => sampleCorrupted) 1 1 false 10 (sampleLoaded 1)).yields =
      [⟨0, 0, [1, 0, 0, 0, 0, 0]⟩] := by decide +kernel
  refine ⟨by decide +kernel, hyields, fun h => ?_⟩
  obtain ⟨-, reading, ⟨-, r₀, st, hex, hst, -⟩, -⟩ := h.1 0 _ (by rw [hyields]; rfl)
  cases hex
  exact absurd hst (by decide)

end Samples

end Rvzr.Executor
