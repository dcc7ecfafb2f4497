import Rvzr.Km.Sysfs

/-!
# What an experiment leaves in the array of measurements

The array is reused. An entry is only rewritten when the loop reaches its input, and a loop that
is left because of a corrupted measurement reports success. `measureRounds_complete` and
`measureRounds_values` say when all entries come from the experiment.
-/

namespace Rvzr.Km

open Rvzr.Lib

/-- The round returns a measurement, which passes the check unless it is a warm-up. -/
def RoundOk (exec : Int → Execution) (i : Int) : Prop :=
  ∃ r st, exec i = .returned 0 r st ∧ (0 ≤ i → checkMeasurementStatus st = 0)

/-- The numbers `line` were measured by the experiment for input `j`: the loop reached this
round, and the measurement passed the check. -/
def Measured (exec : Int → Execution) (uarchResetRounds : Int) (j : Nat) (r : Reading) : Prop :=
  (∀ i, -uarchResetRounds ≤ i → i < j → RoundOk exec i) ∧
    ∃ r₀ st, exec j = .returned 0 r₀ st ∧ checkMeasurementStatus st = 0 ∧ r = markValid r₀

/-- What the loop stores for input `j`. -/
def finalReading (dbgGprMode : Bool) (exec : Int → Execution) (j : Nat) : Reading :=
  match exec j with
  | .trapped => Reading.zero
  | .returned _ r st =>
    if dbgGprMode = false ∧ checkMeasurementStatus st = 0 then markValid r else r

/-- The loop does not stop before its last round, and nothing but the last measurement may be
corrupted. -/
structure Uninterrupted (dbgGprMode : Bool) (exec : Int → Execution) (uarchResetRounds : Int)
    (nInputs : Nat) : Prop where
  returns : ∀ i, -uarchResetRounds ≤ i → i < nInputs → ∃ r st, exec i = .returned 0 r st
  valid : dbgGprMode = false → ∀ j : Nat, j + 1 < nInputs → ∀ r st, exec j = .returned 0 r st →
    checkMeasurementStatus st = 0

/-- The measurement for input `j` does not pass the check. -/
def Corrupted (exec : Int → Execution) (j : Nat) : Prop :=
  ∃ err r st, exec j = .returned err r st ∧ checkMeasurementStatus st ≠ 0

/-- If a measurement is corrupted, the entry of the last input, which is printed first, is zero
afterwards. The loop stops at the first corrupted measurement: when it is the last one, the entry
is the corrupted measurement itself, else it is still what the array `held`. -/
structure Visible (exec : Int → Execution) (nInputs : Nat) (held : Reading) : Prop where
  stopped : (∃ j, j + 1 < nInputs ∧ Corrupted exec j) → held.htrace = 0
  last : (∀ j, j + 1 < nInputs → ¬ Corrupted exec j) → Corrupted exec (nInputs - 1) →
    ∀ err r st, exec ((nInputs - 1 : Nat) : Int) = .returned err r st → r.htrace = 0

section Loop

variable {exec : Int → Execution}

@[simp] theorem measureRounds_length (dbg : Bool) (is : List Int) (ms : List Reading) :
    (measureRounds dbg exec is ms).1.length = ms.length := by
  induction is generalizing ms with
  | nil => rfl
  | cons i is ih =>
    rw [measureRounds]
    split
    · rfl
    · split
      · rfl
      · split
        · split
          · exact List.length_set
          · rw [ih, List.length_set]
        · rw [ih, List.length_set]

/-- A loop that runs to its end has met only good rounds. -/
theorem measureRounds_complete {is : List Int} {ms ms' : List Reading}
    (h : measureRounds false exec is ms = (ms', .complete)) : ∀ i ∈ is, RoundOk exec i := by
  induction is generalizing ms with
  | nil =>
    intro i hi
    exact absurd hi (by simp)
  | cons i is ih =>
    rw [measureRounds] at h
    cases hex : exec i with
    | trapped => rw [hex] at h; cases h
    | returned err r st =>
      rw [hex] at h
      dsimp only at h
      by_cases herr : err = 0
      · subst herr
        rw [if_neg (by simp)] at h
        by_cases hi : 0 ≤ i
        · rw [if_pos ⟨hi, rfl⟩] at h
          by_cases hst : checkMeasurementStatus st = 0
          · rw [if_neg (by simp [hst])] at h
            intro j hj
            rcases List.mem_cons.mp hj with rfl | hj
            · exact ⟨r, st, hex, fun _ => hst⟩
            · exact ih h j hj
          · rw [if_pos hst] at h
            cases h
        · rw [if_neg fun hc => hi hc.1] at h
          intro j hj
          rcases List.mem_cons.mp hj with rfl | hj
          · exact ⟨r, st, hex, fun h0 => absurd h0 hi⟩
          · exact ih h j hj
      · rw [if_pos herr] at h
        cases h

theorem getD_set_self {ms : List Reading} {j : Nat} (h : j < ms.length) (r : Reading) :
    (ms.set j r).getD j Reading.zero = r := by
  rw [List.getD, List.getElem?_set_self h]
  rfl

theorem getD_set_ne {ms : List Reading} {i j : Nat} (h : i ≠ j) (r : Reading) :
    (ms.set i r).getD j Reading.zero = ms.getD j Reading.zero := by
  rw [List.getD, List.getElem?_set_ne h, List.getD]

/-- The entries after the rounds from `a - w` on; those before hold their final values. -/
theorem measureRounds_from {dbg : Bool} {w : Int} {n : Nat} (h : Uninterrupted dbg exec w n)
    (m a : Nat) (hend : (a + m : Int) = n + w) {ms : List Reading} (hlen : n ≤ ms.length)
    (hms : ∀ j : Nat, (j : Int) < a - w → ms.getD j Reading.zero = finalReading dbg exec j) :
    (∀ j : Nat, j < n → (measureRounds dbg exec ((List.range' a m).map fun k : Nat => (k : Int) - w)
        ms).1.getD j Reading.zero = finalReading dbg exec j) ∧
      ((measureRounds dbg exec ((List.range' a m).map fun k : Nat => (k : Int) - w) ms).2 = .complete ∨
        (measureRounds dbg exec ((List.range' a m).map fun k : Nat => (k : Int) - w) ms).2 =
          .corrupted) := by
  induction m generalizing a ms with
  | zero =>
    refine ⟨fun j hj => hms j ?_, Or.inl rfl⟩
    omega
  | succ m ih =>
    have hrest := fun ms' => @ih (a + 1) (by push_cast at hend ⊢; omega) ms'
    rw [List.range'_succ, List.map_cons, measureRounds]
    by_cases hw : (a : Int) - w < -w
    · omega
    obtain ⟨r, st, hex⟩ := h.returns (a - w) (by omega) (by push_cast at hend; omega)
    rw [hex]
    dsimp only
    rw [if_neg (by simp)]
    by_cases hi : 0 ≤ (a : Int) - w
    · obtain ⟨j, hj⟩ := Int.eq_ofNat_of_zero_le hi
      have hjn : j < n := by push_cast at hend; omega
      have hneg : ¬ (a : Int) - w < 0 := by omega
      have hexj : exec j = .returned 0 r st := by rw [← hj]; exact hex
      have hfinal : finalReading dbg exec j =
          if dbg = false ∧ checkMeasurementStatus st = 0 then markValid r else r := by
        unfold finalReading
        rw [hexj]
      -- the entries up to `j` after the round has stored `r'`
      have hset : ∀ r', finalReading dbg exec j = r' → ∀ j' : Nat, (j' : Int) < (a : Int) + 1 - w →
          (ms.set j r').getD j' Reading.zero = finalReading dbg exec j' := by
        intro r' hr' j' hj'
        by_cases heq : j = j'
        · subst heq
          rw [getD_set_self (by omega), hr']
        · rw [getD_set_ne heq]
          exact hms j' (by omega)
      rw [if_neg hneg, hj, Int.toNat_natCast]
      by_cases hdbg : dbg = false
      · rw [if_pos ⟨by omega, hdbg⟩]
        by_cases hst : checkMeasurementStatus st = 0
        · rw [if_neg (by simp [hst])]
          rw [if_pos ⟨hdbg, hst⟩] at hfinal
          apply hrest
          · rw [List.length_set]; exact hlen
          · intro j' hj'
            exact hset _ hfinal j' (by push_cast at hj'; omega)
        · -- a corrupted measurement can only be the last one
          have hlast : ¬ j + 1 < n := fun hlt => hst (h.valid hdbg j hlt r st hexj)
          rw [if_pos hst]
          rw [if_neg fun hc => hst hc.2] at hfinal
          exact ⟨fun j' hj' => hset _ hfinal j' (by omega), Or.inr rfl⟩
      · rw [if_neg fun hc => hdbg hc.2]
        rw [if_neg fun hc => hdbg hc.1] at hfinal
        apply hrest
        · rw [List.length_set]; exact hlen
        · intro j' hj'
          exact hset _ hfinal j' (by push_cast at hj'; omega)
    · rw [if_neg fun hc => hi hc.1]
      apply hrest
      · rw [List.length_set]; exact hlen
      · intro j' hj'
        push_cast at hj'
        omega

/-- All entries of an uninterrupted experiment come from it. -/
theorem measureRounds_values {dbg : Bool} {w : Int} (hw : 0 ≤ w) {n : Nat}
    (h : Uninterrupted dbg exec w n) {ms : List Reading} (hlen : n ≤ ms.length) :
    (∀ j : Nat, j < n → (measureRounds dbg exec (rounds w n) ms).1.getD j Reading.zero =
        finalReading dbg exec j) ∧
      ((measureRounds dbg exec (rounds w n) ms).2 = .complete ∨
        (measureRounds dbg exec (rounds w n) ms).2 = .corrupted) := by
  unfold rounds
  rw [List.range_eq_range']
  apply measureRounds_from h _ 0 ?_ hlen
  · intro j hj
    omega
  · have hnat : (((n : Int) + w).toNat : Int) = n + w := Int.toNat_of_nonneg (by omega)
    rw [hnat]
    omega

theorem mem_rounds {w : Int} {n : Nat} {i : Int} (h : -w ≤ i) (hn : i < n) : i ∈ rounds w n := by
  unfold rounds
  rw [List.mem_map]
  refine ⟨(i + w).toNat, ?_, ?_⟩
  · rw [List.mem_range]
    omega
  · rw [Int.toNat_of_nonneg (by omega)]
    omega

/-- A loop that runs to its end has measured every input. -/
theorem measureRounds_measured {w : Int} (hw : 0 ≤ w) {n : Nat} {ms ms' : List Reading}
    (hlen : n ≤ ms.length) (h : measureRounds false exec (rounds w n) ms = (ms', .complete))
    {j : Nat} (hj : j < n) : Measured exec w j (ms'.getD j Reading.zero) := by
  have hok : ∀ i, -w ≤ i → i < n → RoundOk exec i := fun i hi hn =>
    measureRounds_complete h i (mem_rounds hi hn)
  have hun : Uninterrupted false exec w n := by
    refine ⟨fun i hi hn => ?_, fun _ i hi r st hex => ?_⟩
    · obtain ⟨r, st, hex, -⟩ := hok i hi hn
      exact ⟨r, st, hex⟩
    · obtain ⟨r', st', hex', hst⟩ := hok i (by omega) (by omega)
      rw [hex] at hex'
      cases hex'
      exact hst (by omega)
  have hval := (measureRounds_values hw hun hlen).1 j hj
  rw [h] at hval
  obtain ⟨r, st, hex, hst⟩ := hok j (by omega) (by omega)
  refine ⟨fun i hi hij => hok i hi (by omega), r, st, hex, hst (by omega), ?_⟩
  rw [hval, finalReading, hex]
  dsimp only
  rw [if_pos ⟨rfl, hst (by omega)⟩]

/-- Entries of other inputs are left alone. -/
theorem measureRounds_frame {is : List Int} {j : Nat}
    (h : ∀ i ∈ is, (if i < 0 then 0 else i.toNat) ≠ j) (ms : List Reading) :
    (measureRounds false exec is ms).1.getD j Reading.zero = ms.getD j Reading.zero := by
  induction is generalizing ms with
  | nil => rfl
  | cons i is ih =>
    have hi := h i (by simp)
    have hrest := ih fun i' hi' => h i' (List.mem_cons_of_mem _ hi')
    rw [measureRounds]
    split
    · rfl
    · split
      · rfl
      · split
        · split
          · exact getD_set_ne hi _
          · rw [hrest, getD_set_ne hi]
        · rw [hrest, getD_set_ne hi]

theorem measureRounds_append (is js : List Int) (ms : List Reading) :
    measureRounds false exec (is ++ js) ms =
      if (measureRounds false exec is ms).2 = .complete then
        measureRounds false exec js (measureRounds false exec is ms).1
      else measureRounds false exec is ms := by
  induction is generalizing ms with
  | nil => rfl
  | cons i is ih =>
    rw [List.cons_append, measureRounds, measureRounds]
    split
    · rfl
    · split
      · rfl
      · split
        · split
          · rfl
          · exact ih _
        · exact ih _

theorem rounds_succ {w : Int} (hw : 0 ≤ w) (n : Nat) :
    rounds w (n + 1) = rounds w n ++ [(n : Int)] := by
  unfold rounds
  rw [show (((n + 1 : Nat) : Int) + w).toNat = ((n : Int) + w).toNat + 1 from by omega,
    List.range_succ, List.map_append]
  have hlast : ((((n : Int) + w).toNat : Nat) : Int) - w = n := by
    rw [Int.toNat_of_nonneg (by omega)]
    omega
  rw [List.map_singleton, hlast]

theorem neg_le_of_mem_rounds {w : Int} {n : Nat} {i : Int} (h : i ∈ rounds w n) : -w ≤ i := by
  unfold rounds at h
  obtain ⟨k, -, rfl⟩ := List.mem_map.mp h
  omega

theorem lt_of_mem_rounds {w : Int} {n : Nat} {i : Int} (h : i ∈ rounds w n) : i < n := by
  unfold rounds at h
  obtain ⟨k, hk, rfl⟩ := List.mem_map.mp h
  have := List.mem_range.mp hk
  omega

/-- A loop whose executions all return ends as complete or as corrupted. -/
theorem measureRounds_returns {is : List Int}
    (h : ∀ i ∈ is, ∃ r st, exec i = .returned 0 r st) (ms : List Reading) :
    (measureRounds false exec is ms).2 = .complete ∨
      (measureRounds false exec is ms).2 = .corrupted := by
  induction is generalizing ms with
  | nil => exact Or.inl rfl
  | cons i is ih =>
    obtain ⟨r, st, hex⟩ := h i (by simp)
    have hrest := ih fun i' hi' => h i' (List.mem_cons_of_mem _ hi')
    rw [measureRounds, hex]
    dsimp only
    rw [if_neg (by simp)]
    split
    · split
      · exact Or.inr rfl
      · exact hrest _
    · exact hrest _

/-- A loop that ends as corrupted has met a corrupted measurement of an input. -/
theorem measureRounds_corrupted {is : List Int} {ms : List Reading}
    (h : (measureRounds false exec is ms).2 = .corrupted) :
    ∃ j : Nat, (j : Int) ∈ is ∧ Corrupted exec j := by
  induction is generalizing ms with
  | nil => cases h
  | cons i is ih =>
    rw [measureRounds] at h
    have hlater : ∀ ms', (measureRounds false exec is ms').2 = .corrupted →
        ∃ j : Nat, (j : Int) ∈ i :: is ∧ Corrupted exec j := by
      intro ms' h'
      obtain ⟨j, hj, hc⟩ := ih h'
      exact ⟨j, List.mem_cons_of_mem _ hj, hc⟩
    cases hex : exec i with
    | trapped => rw [hex] at h; cases h
    | returned err r st =>
      rw [hex] at h
      dsimp only at h
      split at h
      · cases h
      · split at h
        · rename_i hi
          split at h
          · rename_i hst
            obtain ⟨j, hj⟩ := Int.eq_ofNat_of_zero_le hi.1
            exact ⟨j, by rw [← hj]; simp, err, r, st, by rw [← hj]; exact hex, hst⟩
          · exact hlater _ h
        · exact hlater _ h

/-- What holds of the entries before and of all measurements holds of the entries after. -/
theorem measureRounds_all {P : Reading → Prop} {is : List Int}
    (h : ∀ i ∈ is, ∀ err r st, exec i = .returned err r st → P r ∧ P (markValid r))
    {ms : List Reading} (hms : ∀ r ∈ ms, P r) :
    ∀ r ∈ (measureRounds false exec is ms).1, P r := by
  induction is generalizing ms with
  | nil => exact hms
  | cons i is ih =>
    have hrest := fun ms' => @ih (fun i' hi' => h i' (List.mem_cons_of_mem _ hi')) ms'
    have hset : ∀ k r', P r' → ∀ r ∈ ms.set k r', P r := by
      intro k r' hr' r hr
      rcases List.mem_or_eq_of_mem_set hr with hr | rfl
      · exact hms r hr
      · exact hr'
    rw [measureRounds]
    cases hex : exec i with
    | trapped => exact hms
    | returned err r st =>
      obtain ⟨hr, hmark⟩ := h i (by simp) err r st hex
      dsimp only
      split
      · exact hms
      · split
        · split
          · exact hset _ _ hr
          · exact hrest _ (hset _ _ hmark)
        · exact hrest _ (hset _ _ hr)

/-- After a corrupted experiment the entry that is printed first is zero. -/
theorem measureRounds_visible {w : Int} (hw : 0 ≤ w) {n : Nat} (hn : n ≠ 0)
    {ms ms' : List Reading} (hlen : n ≤ ms.length)
    (h : measureRounds false exec (rounds w n) ms = (ms', .corrupted))
    (hvis : Visible exec n (ms.getD (n - 1) Reading.zero)) :
    (ms'.getD (n - 1) Reading.zero).htrace = 0 := by
  obtain ⟨m, rfl⟩ := Nat.exists_eq_succ_of_ne_zero hn
  rw [rounds_succ hw, measureRounds_append] at h
  rw [Nat.succ_sub_one] at hvis ⊢
  by_cases hcomplete : (measureRounds false exec (rounds w m) ms).2 = .complete
  · -- all measurements but the last one have passed the check
    have hok : ∀ i ∈ rounds w m, RoundOk exec i :=
      measureRounds_complete (Prod.ext rfl hcomplete)
    have hsound : ∀ j, j + 1 < m + 1 → ¬ Corrupted exec j := by
      rintro j hj ⟨err, r, st, hex, hst⟩
      obtain ⟨r', st', hex', hst'⟩ := hok j (mem_rounds (by omega) (by omega))
      rw [hex] at hex'
      cases hex'
      exact hst (hst' (by omega))
    rw [if_pos hcomplete] at h
    rw [measureRounds] at h
    cases hex : exec m with
    | trapped => rw [hex] at h; cases h
    | returned err r st =>
      rw [hex] at h
      dsimp only at h
      by_cases herr : err = 0
      · subst herr
        have hneg : ¬ (m : Int) < 0 := by omega
        rw [if_neg (by simp), if_pos ⟨by omega, rfl⟩, if_neg hneg, Int.toNat_natCast] at h
        by_cases hst : checkMeasurementStatus st = 0
        · rw [if_neg (by simp [hst])] at h
          cases h
        · rw [if_pos hst] at h
          cases h
          rw [getD_set_self (by rw [measureRounds_length]; omega)]
          exact hvis.last hsound ⟨0, r, st, hex, hst⟩ 0 r st hex
      · rw [if_pos herr] at h
        cases h
  · rw [if_neg hcomplete] at h
    obtain ⟨j, hj, hc⟩ := measureRounds_corrupted (congrArg Prod.snd h)
    have hjm := lt_of_mem_rounds hj
    have hfst : (measureRounds false exec (rounds w m) ms).1 = ms' := by rw [h]
    rw [← hfst, measureRounds_frame ?_ ms]
    · exact hvis.stopped ⟨j, by omega, hc⟩
    · intro i hi
      have hlt := lt_of_mem_rounds hi
      by_cases hneg : i < 0
      · rw [if_pos hneg]
        omega
      · rw [if_neg hneg]
        omega

end Loop

/-- The array is as long as `alloc_measurements` believes. -/
def KmState.ArrayOk (km : KmState) : Prop :=
  ∀ ms, km.measurements = some ms → toU64 km.oldNInputs ≤ ms.length

/-- The array in which the next experiment stores: the old one, or zeroed memory when there are
more inputs than ever before. -/
def KmState.reused (km : KmState) : List Reading :=
  if km.inp.nInputs ≤ toU64 km.oldNInputs then km.measurements.getD []
  else List.replicate km.inp.nInputs Reading.zero

/-- What a call of `trace_test_case` never changes. -/
structure SameConfig (km km' : KmState) : Prop where
  tc : km'.tc = km.tc
  inp : km'.inp = km.inp
  uarchResetRounds : km'.uarchResetRounds = km.uarchResetRounds
  dbgGprMode : km'.dbgGprMode = km.dbgGprMode

theorem SameConfig.trans {a b c : KmState} (h : SameConfig a b) (h' : SameConfig b c) :
    SameConfig a c :=
  ⟨h'.tc.trans h.tc, h'.inp.trans h.inp, h'.uarchResetRounds.trans h.uarchResetRounds,
    h'.dbgGprMode.trans h.dbgGprMode⟩

theorem setNext_config (km : KmState) (n : Int) : SameConfig km (km.setNext n) :=
  ⟨rfl, rfl, rfl, rfl⟩

theorem setNext_measurements (km : KmState) (n : Int) :
    (km.setNext n).measurements = km.measurements := rfl

theorem setNext_oldNInputs (km : KmState) (n : Int) :
    (km.setNext n).oldNInputs = km.oldNInputs := rfl

section Calls

variable {km : KmState}

theorem KmState.ArrayOk.setNext (h : km.ArrayOk) (n : Int) : (km.setNext n).ArrayOk := h

theorem toU64_toInt32 {n : Nat} (h : n ≤ 2 ^ 20) : toU64 (toInt32 n) = n := by
  rw [toInt32_of_lt (by omega), toU64_natCast (by omega)]

/-- The array has room for all inputs, or the allocation failed. -/
theorem allocMeasurements_spec (env : TraceEnv) (h : km.ArrayOk) (hn : km.inp.nInputs ≤ 2 ^ 20)
    (hsome : km.measurements.isSome = true) {km' : KmState} {err : Int}
    (halloc : allocMeasurements env km = (km', err)) :
    SameConfig km km' ∧ km'.ArrayOk ∧ km'.nextMeasurementId = km.nextMeasurementId ∧
      km'.runs = km.runs ∧
      (err = 0 → ∃ ms, km'.measurements = some ms ∧ km.inp.nInputs ≤ ms.length) := by
  unfold allocMeasurements at halloc
  split at halloc
  · rename_i hle
    cases halloc
    obtain ⟨ms, hms⟩ := Option.isSome_iff_exists.mp hsome
    exact ⟨⟨rfl, rfl, rfl, rfl⟩, h, rfl, rfl, fun _ => ⟨ms, hms, Nat.le_trans hle (h ms hms)⟩⟩
  · dsimp only at halloc
    split at halloc
    · cases halloc
      refine ⟨⟨rfl, rfl, rfl, rfl⟩, fun ms hms => ?_, rfl, rfl, fun _ => ⟨_, rfl, ?_⟩⟩
      · cases hms
        show toU64 (toInt32 km.inp.nInputs) ≤ _
        rw [toU64_toInt32 hn]
        exact Nat.le_of_eq List.length_replicate.symm
      · exact Nat.le_of_eq List.length_replicate.symm
    · cases halloc
      exact ⟨⟨rfl, rfl, rfl, rfl⟩, fun ms hms => absurd hms (by simp), rfl, rfl,
        fun herr => absurd herr (by decide)⟩

/-- A call of `trace_test_case` that returns 0 has run the loop, unless there are no inputs. -/
inductive Traced (env : TraceEnv) (km km' : KmState) : Prop
  | idle (hzero : km.inp.nInputs = 0) (hsome : km'.measurements.isSome = true)
  | ran (ms ms' : List Reading) (hpos : km.inp.nInputs ≠ 0)
      (hbefore : (allocMeasurements env { km with runs := km.runs + 1 }).1.measurements = some ms)
      (hms : km'.measurements = some ms') (hlen : km.inp.nInputs ≤ ms.length)
      (hrun : measureRounds km.dbgGprMode env.execution
          (rounds km.uarchResetRounds km.inp.nInputs) ms = (ms', .complete) ∨
        measureRounds km.dbgGprMode env.execution
          (rounds km.uarchResetRounds km.inp.nInputs) ms = (ms', .corrupted))

theorem Traced.setNext {env : TraceEnv} {km' : KmState} (h : Traced env km km') (n : Int) :
    Traced env km (km'.setNext n) := by
  cases h with
  | idle hzero hsome => exact .idle hzero hsome
  | ran ms ms' hpos hbefore hms hlen hrun => exact .ran ms ms' hpos hbefore hms hlen hrun

theorem runExperiment_length (w : Int) (dbg : Bool) (env : TraceEnv) (n : Nat)
    (ms : List Reading) : (runExperiment w dbg env n ms).1.length = ms.length := by
  unfold runExperiment
  split
  · exact List.length_modify _ _ _
  · have hlen := @measureRounds_length env.execution dbg (rounds w n) ms
    split
    · rename_i heq
      rw [heq] at hlen
      exact hlen
    · rename_i heq
      rw [heq] at hlen
      exact hlen
    · rename_i heq
      rw [heq] at hlen
      exact (List.length_modify _ _ _).trans hlen
    · rename_i heq
      rw [heq] at hlen
      exact hlen

theorem runExperiment_zero {w : Int} {dbg : Bool} {env : TraceEnv} {n : Nat} {ms : List Reading}
    (h : (runExperiment w dbg env n ms).2 = 0) :
    measureRounds dbg env.execution (rounds w n) ms =
        ((runExperiment w dbg env n ms).1, .complete) ∨
      measureRounds dbg env.execution (rounds w n) ms =
        ((runExperiment w dbg env n ms).1, .corrupted) := by
  unfold runExperiment at h ⊢
  split at h
  · exact absurd (show -eio = 0 from h) (by decide)
  · rename_i hsetup
    rw [if_neg hsetup]
    cases hm : measureRounds dbg env.execution (rounds w n) ms with
    | mk ms' e =>
      rw [hm] at h
      cases e with
      | complete => exact Or.inl rfl
      | corrupted => exact Or.inr rfl
      | error err => exact absurd (show -eio = 0 from h) (by decide)
      | trapped => exact absurd (show (1 : Int) = 0 from h) (by decide)

theorem traceTestCase_spec (env : TraceEnv) (h : km.ArrayOk) (hn : km.inp.nInputs ≤ 2 ^ 20)
    (hsome : km.measurements.isSome = true) {km' : KmState} {err : Int}
    (htrace : traceTestCase env km = (km', err)) :
    SameConfig km km' ∧ km'.ArrayOk ∧ km'.nextMeasurementId = km.nextMeasurementId ∧
      km'.runs = km.runs + 1 ∧ (err = 0 → Traced env km km') := by
  unfold traceTestCase at htrace
  cases halloc : allocMeasurements env { km with runs := km.runs + 1 } with
  | mk km₁ err₁ =>
    obtain ⟨hsame, harr, hnext, hruns, hroom⟩ := allocMeasurements_spec env
      (show ({ km with runs := km.runs + 1 } : KmState).ArrayOk from h) hn hsome halloc
    rw [halloc] at htrace
    dsimp only at htrace
    have hcfg : SameConfig km km₁ := ⟨hsame.tc, hsame.inp, hsame.uarchResetRounds, hsame.dbgGprMode⟩
    have hfail : ∀ e : Int, e ≠ 0 → (km₁, e) = (km', err) →
        SameConfig km km' ∧ km'.ArrayOk ∧ km'.nextMeasurementId = km.nextMeasurementId ∧
          km'.runs = km.runs + 1 ∧ (err = 0 → Traced env km km') := by
      intro e he heq
      cases heq
      exact ⟨hcfg, harr, hnext, hruns, fun h0 => absurd h0 he⟩
    split at htrace
    · exact hfail _ (by decide) htrace
    rename_i herr
    split at htrace
    · exact hfail _ (by decide) htrace
    split at htrace
    · rename_i hzero
      cases htrace
      obtain ⟨ms, hms, -⟩ := hroom (not_not.mp herr)
      exact ⟨hcfg, harr, hnext, hruns,
        fun _ => .idle (by rw [← hcfg.inp]; exact hzero) (by rw [hms]; rfl)⟩
    · rename_i hpos
      obtain ⟨ms, hms, hle⟩ := hroom (not_not.mp herr)
      have hinp : km₁.inp = km.inp := hcfg.inp
      rw [hms, Option.getD_some, hinp, hcfg.uarchResetRounds, hcfg.dbgGprMode] at htrace
      cases htrace
      refine ⟨⟨hcfg.tc, rfl, rfl, rfl⟩, fun ms' hms' => ?_, hnext, hruns, fun hret => ?_⟩
      · cases hms'
        rw [runExperiment_length]
        exact harr ms hms
      · refine .ran ms _ (by rw [← hinp]; exact hpos) (by rw [halloc]; exact hms) rfl hle
          (runExperiment_zero ?_)
        by_contra hne
        rw [if_pos hne] at hret
        exact absurd hret (by decide)

/-- The first half of `trace_show` when there is nothing left to print. -/
theorem startMeasurement_spec (env : TraceEnv) (h : km.ArrayOk) (hn : km.inp.nInputs ≤ 2 ^ 20)
    (hsome : km.measurements.isSome = true) (hneg : km.nextMeasurementId < 0) {km' : KmState}
    {err : Int} (hstart : startMeasurement env km = (km', err)) :
    SameConfig km km' ∧ km'.ArrayOk ∧ km'.runs = km.runs + 1 ∧
      (err ≠ 0 → km'.nextMeasurementId < 0) ∧
      (err = 0 → Traced env km km' ∧ km'.nextMeasurementId = (km.inp.nInputs : Int) - 1) := by
  unfold startMeasurement at hstart
  rw [if_pos hneg] at hstart
  cases htrace : traceTestCase env km with
  | mk km₁ err₁ =>
    obtain ⟨hcfg, harr, hnext, hruns, hran⟩ := traceTestCase_spec env h hn hsome htrace
    rw [htrace] at hstart
    dsimp only at hstart
    by_cases herr : err₁ = 0
    · rw [if_neg (by simp [herr])] at hstart
      cases hstart
      have hlast : toInt32 (sub64 km₁.inp.nInputs 1) = (km.inp.nInputs : Int) - 1 := by
        rw [hcfg.inp]
        by_cases hzero : km.inp.nInputs = 0
        · rw [hzero]
          decide
        · rw [sub64_of_le (by omega) (by omega), toInt32_of_lt (by omega)]
          omega
      rw [hlast]
      exact ⟨hcfg.trans (setNext_config _ _), harr.setNext _, hruns, fun hne => absurd rfl hne,
        fun _ => ⟨(hran herr).setNext _, rfl⟩⟩
    · rw [if_pos herr] at hstart
      cases hstart
      exact ⟨hcfg, harr, hruns, fun _ => by rw [hnext]; exact hneg,
        fun h0 => absurd h0 (by decide)⟩

/-- What an experiment needs from the kernel and the processor to come to its end. -/
structure ExperimentOk (env : TraceEnv) (dbgGprMode : Bool) (uarchResetRounds : Int)
    (nInputs : Nat) : Prop where
  memory : env.vmalloc nInputs = true
  preRun : env.preRunErr = 0
  setup : env.setupErr = 0
  loop : Uninterrupted dbgGprMode env.execution uarchResetRounds nInputs

theorem runExperiment_ok {env : TraceEnv} {dbg : Bool} {w : Int} (hw : 0 ≤ w) {n : Nat}
    (h : ExperimentOk env dbg w n) {ms : List Reading} (hlen : n ≤ ms.length) :
    (runExperiment w dbg env n ms).2 = 0 ∧
      ∀ j, j < n → (runExperiment w dbg env n ms).1.getD j Reading.zero =
        finalReading dbg env.execution j := by
  obtain ⟨hval, hend⟩ := measureRounds_values hw h.loop hlen
  unfold runExperiment
  rw [if_neg (by simp [h.setup])]
  cases hm : measureRounds dbg env.execution (rounds w n) ms with
  | mk ms' e =>
    rw [hm] at hval hend
    cases hend with
    | inl hc =>
      cases hc
      exact ⟨rfl, hval⟩
    | inr hc =>
      cases hc
      exact ⟨rfl, hval⟩

/-- The array in which an experiment stores, when there is memory for it. -/
theorem allocMeasurements_ok {env : TraceEnv} (h : km.ArrayOk) (hn : km.inp.nInputs ≤ 2 ^ 20)
    (hsome : km.measurements.isSome = true) (hmem : env.vmalloc km.inp.nInputs = true) :
    ∃ km' ms, allocMeasurements env km = (km', 0) ∧ SameConfig km km' ∧
      km'.measurements = some ms ∧ km.inp.nInputs ≤ ms.length ∧
      km.inp.nInputs ≤ toU64 km'.oldNInputs ∧ ms = km.reused := by
  unfold allocMeasurements KmState.reused
  by_cases hroom : km.inp.nInputs ≤ toU64 km.oldNInputs
  · obtain ⟨ms, hms⟩ := Option.isSome_iff_exists.mp hsome
    rw [if_pos hroom, if_pos hroom]
    exact ⟨km, ms, rfl, ⟨rfl, rfl, rfl, rfl⟩, hms, Nat.le_trans hroom (h ms hms), hroom,
      by rw [hms]; rfl⟩
  · rw [if_neg hroom, if_neg hroom]
    dsimp only
    rw [if_pos hmem]
    refine ⟨_, _, rfl, ⟨rfl, rfl, rfl, rfl⟩, rfl, Nat.le_of_eq List.length_replicate.symm, ?_, rfl⟩
    exact Nat.le_of_eq (toU64_toInt32 hn).symm

/-- A call of `trace_test_case` that reaches the experiment. -/
theorem traceTestCase_reaches {env : TraceEnv} (h : km.ArrayOk) (hn : km.inp.nInputs ≤ 2 ^ 20)
    (hsome : km.measurements.isSome = true) (hpos : km.inp.nInputs ≠ 0)
    (hpresent : inputsPresent km.inp = true) (hmem : env.vmalloc km.inp.nInputs = true)
    (hpre : env.preRunErr = 0) :
    ∃ ms, km.inp.nInputs ≤ ms.length ∧ ms = km.reused ∧
      (traceTestCase env km).1.measurements = some
        (runExperiment km.uarchResetRounds km.dbgGprMode env km.inp.nInputs ms).1 ∧
      km.inp.nInputs ≤ toU64 (traceTestCase env km).1.oldNInputs ∧
      (traceTestCase env km).2 =
        if (runExperiment km.uarchResetRounds km.dbgGprMode env km.inp.nInputs ms).2 ≠ 0 then -eio
        else 0 := by
  obtain ⟨km₁, ms, halloc, hsame, hms, hlen, hold, hreused⟩ := allocMeasurements_ok
    (show ({ km with runs := km.runs + 1 } : KmState).ArrayOk from h) hn hsome hmem
  have hinp : km₁.inp = km.inp := hsame.inp
  have hdbg : km₁.dbgGprMode = km.dbgGprMode := hsame.dbgGprMode
  have hrounds : km₁.uarchResetRounds = km.uarchResetRounds := hsame.uarchResetRounds
  refine ⟨ms, hlen, hreused, ?_⟩
  unfold traceTestCase
  rw [halloc]
  dsimp only
  rw [if_neg (by simp), hinp, if_neg (by simp [hpresent, hpre]), if_neg hpos, hms, Option.getD_some,
    hdbg, hrounds]
  exact ⟨rfl, hold, rfl⟩

/-- An experiment that meets no error fills all entries. -/
theorem traceTestCase_ok {env : TraceEnv} (h : km.ArrayOk) (hn : km.inp.nInputs ≤ 2 ^ 20)
    (hsome : km.measurements.isSome = true) (hpos : km.inp.nInputs ≠ 0)
    (hpresent : inputsPresent km.inp = true) (hw : 0 ≤ km.uarchResetRounds)
    (hok : ExperimentOk env km.dbgGprMode km.uarchResetRounds km.inp.nInputs) :
    (traceTestCase env km).2 = 0 ∧ ∃ ms, (traceTestCase env km).1.measurements = some ms ∧
      ∀ j, j < km.inp.nInputs → ms.getD j Reading.zero =
        finalReading km.dbgGprMode env.execution j := by
  obtain ⟨ms, hlen, -, hms, -, hret⟩ := traceTestCase_reaches h hn hsome hpos hpresent hok.memory
    hok.preRun
  obtain ⟨hzero, hval⟩ := runExperiment_ok hw hok hlen
  rw [hzero] at hret
  exact ⟨hret, _, hms, hval⟩

theorem startMeasurement_of_trace {env : TraceEnv} (hneg : km.nextMeasurementId < 0)
    (hret : (traceTestCase env km).2 = 0) :
    startMeasurement env km = ((traceTestCase env km).1.setNext
      (toInt32 (sub64 (traceTestCase env km).1.inp.nInputs 1)), 0) := by
  unfold startMeasurement
  rw [if_pos hneg]
  cases htrace : traceTestCase env km with
  | mk km₁ err =>
    rw [htrace] at hret
    dsimp only at hret ⊢
    rw [if_neg (by simp [hret])]

/-- The first half of `trace_show`, when the experiment meets no error. -/
theorem startMeasurement_ok {env : TraceEnv} (h : km.ArrayOk) (hn : km.inp.nInputs ≤ 2 ^ 20)
    (hsome : km.measurements.isSome = true) (hneg : km.nextMeasurementId < 0)
    (hpos : km.inp.nInputs ≠ 0) (hpresent : inputsPresent km.inp = true)
    (hw : 0 ≤ km.uarchResetRounds)
    (hok : ExperimentOk env km.dbgGprMode km.uarchResetRounds km.inp.nInputs) :
    ∃ km' ms, startMeasurement env km = (km', 0) ∧ km'.measurements = some ms ∧
      (∀ j, j < km.inp.nInputs → ms.getD j Reading.zero =
        finalReading km.dbgGprMode env.execution j) ∧
      SameConfig km km' ∧ km'.ArrayOk ∧ km'.runs = km.runs + 1 ∧
      km'.nextMeasurementId = (km.inp.nInputs : Int) - 1 := by
  obtain ⟨hret, ms, hms, hval⟩ := traceTestCase_ok h hn hsome hpos hpresent hw hok
  have hstart := startMeasurement_of_trace hneg hret
  generalize traceTestCase env km = r at hms hstart
  obtain ⟨hcfg, harr, hruns, -, hzero⟩ := startMeasurement_spec env h hn hsome hneg hstart
  exact ⟨_, ms, hstart, (setNext_measurements _ _).trans hms, hval, hcfg, harr, hruns,
    (hzero rfl).2⟩

/-- What an experiment needs to come to its end, whatever the check says of its measurements. -/
structure Completes (env : TraceEnv) (uarchResetRounds : Int) (nInputs : Nat) : Prop where
  memory : env.vmalloc nInputs = true
  preRun : env.preRunErr = 0
  setup : env.setupErr = 0
  returns : ∀ i, -uarchResetRounds ≤ i → i < nInputs → ∃ r st, env.execution i = .returned 0 r st

theorem runExperiment_completes {env : TraceEnv} {w : Int} {n : Nat} (h : Completes env w n)
    (ms : List Reading) : (runExperiment w false env n ms).2 = 0 := by
  have hend : (measureRounds false env.execution (rounds w n) ms).2 = .complete ∨
      (measureRounds false env.execution (rounds w n) ms).2 = .corrupted :=
    measureRounds_returns (fun i hi =>
      h.returns i (neg_le_of_mem_rounds hi) (lt_of_mem_rounds hi)) ms
  unfold runExperiment
  rw [if_neg (by simp [h.setup])]
  cases hm : measureRounds false env.execution (rounds w n) ms with
  | mk ms' e =>
    rw [hm] at hend
    rcases hend with hc | hc
    · cases hc
      rfl
    · cases hc
      rfl

/-- The first half of `trace_show`, when the experiment comes to its end. -/
theorem startMeasurement_completes {env : TraceEnv} (h : km.ArrayOk) (hn : km.inp.nInputs ≤ 2 ^ 20)
    (hsome : km.measurements.isSome = true) (hneg : km.nextMeasurementId < 0)
    (hpos : km.inp.nInputs ≠ 0) (hpresent : inputsPresent km.inp = true)
    (hdbg : km.dbgGprMode = false) (hok : Completes env km.uarchResetRounds km.inp.nInputs) :
    ∃ km' ms, startMeasurement env km = (km', 0) ∧ km'.measurements = some ms ∧
      km.inp.nInputs ≤ km.reused.length ∧
      (measureRounds false env.execution (rounds km.uarchResetRounds km.inp.nInputs) km.reused =
          (ms, .complete) ∨
        measureRounds false env.execution (rounds km.uarchResetRounds km.inp.nInputs) km.reused =
          (ms, .corrupted)) ∧
      SameConfig km km' ∧ km'.ArrayOk ∧ km'.runs = km.runs + 1 ∧
      km'.nextMeasurementId = (km.inp.nInputs : Int) - 1 ∧
      km.inp.nInputs ≤ toU64 km'.oldNInputs := by
  obtain ⟨ms, hlen, rfl, hms, hold, hret⟩ := traceTestCase_reaches h hn hsome hpos hpresent
    hok.memory hok.preRun
  rw [hdbg] at hms hret
  have hzero := runExperiment_completes hok km.reused
  rw [hzero] at hret
  have hstart := startMeasurement_of_trace hneg hret
  have hran := runExperiment_zero hzero
  generalize traceTestCase env km = r at hms hold hstart
  obtain ⟨hcfg, harr, hruns, -, hnext⟩ := startMeasurement_spec env h hn hsome hneg hstart
  exact ⟨_, _, hstart, (setNext_measurements _ _).trans hms, hlen, hran, hcfg, harr, hruns,
    (hnext rfl).2, by rw [setNext_oldNInputs]; exact hold⟩

end Calls

end Rvzr.Km
