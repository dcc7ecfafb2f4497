import Rvzr.Analyser.Detection
import Rvzr.Lib.Folds
import Mathlib.Algebra.Order.Ring.Rat
import Mathlib.Data.Finset.Filter
import Mathlib.Data.Finset.Dedup

/-!
# Outlier filtering of the two trace comparisons

Both docstrings promise the same filter: a value counts if it occurs at least
`analyser_outliers_threshold * n` times among the `n` samples. `MergedBitmapAnalyser` counts
occurrences, `SetAnalyser` compares the values themselves with the threshold. The law below is the
documented filter seen from outside. On 64-bit traces `SetAnalyser` obeys it exactly when the
threshold is at most one occurrence, or so large that no two values pass it;
`MergedBitmapAnalyser`, which keeps bitmaps under the hash of a trace, exactly when the traces that
share a hash do no harm (`filtersByFrequency_iff`).
-/

namespace Rvzr.Analyser

open Rvzr.Lib

variable (xxh64 : Text → Nat) (conf : Conf) (cls : AnalyserCls)

/-- The values that occur at least `threshold` times in `raw`. -/
def frequentValues (threshold : ℚ) (raw : List UInt64) : Finset UInt64 :=
  raw.toFinset.filter fun x => threshold ≤ (raw.count x : ℚ)

/-- The frequent values of a trace at the configured threshold. -/
def HTrace.frequent (h : HTrace) : Finset UInt64 :=
  frequentValues (conf.outlierThreshold h.sampleSize) h.getRawTraces

/-- What `htraces_are_equivalent` returns on an analyser with the given cache; `none` is an
exception. -/
def verdict (cache : BitmapCache) (h₁ h₂ : HTrace) : Option Bool :=
  (htracesAreEquivalent xxh64 conf cls h₁ h₂).run' cache

/-- The caches of an analyser that has compared traces of `S`. -/
inductive CacheOf (S : HTrace → Prop) : BitmapCache → Prop
  | new : CacheOf S []
  | compared {cache cache' : BitmapCache} {h₁ h₂ : HTrace} {b : Bool} (h : CacheOf S cache)
      (hh₁ : S h₁) (hh₂ : S h₂)
      (hrun : (htracesAreEquivalent xxh64 conf cls h₁ h₂).run cache = some (b, cache')) :
      CacheOf S cache'

/-- The documented filter on traces of `n` samples: whatever analysers of class `cls` have compared
before, their verdicts on traces of `S` follow the frequent values. -/
structure FrequencyLaw (n : Nat) (S : HTrace → Prop) : Prop where
  /-- Only the frequent values of the two traces matter. -/
  dependsOnly : ∀ {cache cache' h₁ h₂ k₁ k₂}, CacheOf xxh64 conf cls S cache →
    CacheOf xxh64 conf cls S cache' → (∀ h ∈ [h₁, h₂, k₁, k₂], S h ∧ h.sampleSize = n) →
    h₁.frequent conf = k₁.frequent conf → h₂.frequent conf = k₂.frequent conf →
    verdict xxh64 conf cls cache h₁ h₂ = verdict xxh64 conf cls cache' k₁ k₂
  /-- The samples of the traces may be reordered. -/
  reordered : ∀ {cache cache' h₁ h₂ k₁ k₂}, CacheOf xxh64 conf cls S cache →
    CacheOf xxh64 conf cls S cache' → (∀ h ∈ [h₁, h₂, k₁, k₂], S h ∧ h.sampleSize = n) →
    h₁.getRawTraces.Perm k₁.getRawTraces → h₂.getRawTraces.Perm k₂.getRawTraces →
    verdict xxh64 conf cls cache h₁ h₂ = verdict xxh64 conf cls cache' k₁ k₂
  symm : ∀ {cache cache' h₁ h₂}, CacheOf xxh64 conf cls S cache →
    CacheOf xxh64 conf cls S cache' → (∀ h ∈ [h₁, h₂], S h ∧ h.sampleSize = n) →
    verdict xxh64 conf cls cache h₁ h₂ = verdict xxh64 conf cls cache' h₂ h₁
  refl : ∀ {cache h}, CacheOf xxh64 conf cls S cache → S h → h.sampleSize = n →
    verdict xxh64 conf cls cache h h = some true
  /-- Traces with the same frequent values are equivalent. -/
  equalFrequent : ∀ {cache h₁ h₂}, CacheOf xxh64 conf cls S cache →
    (∀ h ∈ [h₁, h₂], S h ∧ h.sampleSize = n) → h₁.frequent conf = h₂.frequent conf →
    verdict xxh64 conf cls cache h₁ h₂ = some true

/-- Both analysers obey the law: `SetAnalyser` on all traces of `n` samples, `MergedBitmapAnalyser`,
whose verdicts depend on what it compared before, on the traces `S` that it is given. -/
def FiltersByFrequency (n : Nat) (S : HTrace → Prop) : Prop :=
  FrequencyLaw xxh64 conf .sets n (fun _ => True) ∧ FrequencyLaw xxh64 conf .mergedBitmap n S

/-- A threshold that every occurring value meets by its count, or that no two different
traces can meet by their values. -/
def HarmlessThreshold (threshold : ℚ) : Prop :=
  threshold ≤ 1 ∨
    ((2 ^ 64 - (if conf.analyserSubsetsIsViolation then 1 else 2) : Nat) : ℚ) < threshold

/-- Traces of `S` that share a hash do no harm: for two traces of `n` samples with different hashes
it makes no difference which of the traces with these hashes were cached, and two traces that share
a hash have equivalent bitmaps if the same frequent values also occur under different hashes. -/
structure CollisionsHarmless (n : Nat) (S : HTrace → Prop) : Prop where
  apart : ∀ {h₁ h₂ k₁ k₂}, (∀ h ∈ [h₁, h₂], S h ∧ h.sampleSize = n) → S k₁ → S k₂ →
    k₁.hash xxh64 = h₁.hash xxh64 → k₂.hash xxh64 = h₂.hash xxh64 →
    h₁.hash xxh64 ≠ h₂.hash xxh64 →
    bitmapsAreEquivalent conf (bitmapOf conf k₁) (bitmapOf conf k₂) =
      bitmapsAreEquivalent conf (bitmapOf conf h₁) (bitmapOf conf h₂)
  together : ∀ {h₁ h₂ k₁ k₂}, (∀ h ∈ [h₁, h₂, k₁, k₂], S h ∧ h.sampleSize = n) →
    h₁.frequent conf = k₁.frequent conf → h₂.frequent conf = k₂.frequent conf →
    h₁.hash xxh64 = h₂.hash xxh64 → k₁.hash xxh64 ≠ k₂.hash xxh64 →
    bitmapsAreEquivalent conf (bitmapOf conf h₁) (bitmapOf conf h₂) = true

section Frequent

variable {threshold : ℚ} {raw raw' : List UInt64}

theorem mem_frequentValues {x : UInt64} :
    x ∈ frequentValues threshold raw ↔ x ∈ raw ∧ threshold ≤ (raw.count x : ℚ) := by
  simp [frequentValues]

theorem frequentValues_perm (h : raw.Perm raw') :
    frequentValues threshold raw = frequentValues threshold raw' := by
  ext x
  rw [mem_frequentValues, mem_frequentValues, h.mem_iff, h.count_eq]

/-- Up to one occurrence no value is an outlier. -/
theorem mem_frequentValues_of_le (hle : threshold ≤ 1) {x : UInt64} :
    x ∈ frequentValues threshold raw ↔ x ∈ raw := by
  rw [mem_frequentValues]
  refine and_iff_left_of_imp fun hx => hle.trans ?_
  exact_mod_cast List.one_le_count_iff.mpr hx

/-- Above one occurrence a value that occurs once is an outlier. -/
theorem frequentValues_append_single {x : UInt64} (hlt : 1 < threshold) (hx : x ∉ raw) :
    frequentValues threshold (raw ++ [x]) = frequentValues threshold raw := by
  ext y
  rw [mem_frequentValues, mem_frequentValues, List.count_append, List.count_singleton]
  by_cases hxy : x = y
  · subst hxy
    have hone : ((0 + 1 : Nat) : ℚ) < threshold := by simpa using hlt
    simp only [List.count_eq_zero_of_not_mem hx, beq_self_eq_true, if_true, not_le.mpr hone,
      hx, false_and, and_false]
  · simp [hxy, Ne.symm hxy]

/-- The merged bitmap depends on the frequent values only. -/
theorem mergeBitmap_of_frequentValues
    (h : frequentValues threshold raw = frequentValues threshold raw') :
    mergeBitmap threshold raw = mergeBitmap threshold raw' := by
  refine foldl_of_mem_iff ?_ ?_ ?_ 0
  · exact fun b a a' => by rw [UInt64.or_assoc, UInt64.or_comm a, UInt64.or_assoc]
  · exact fun b a => by rw [UInt64.or_assoc, UInt64.or_self]
  · intro x
    have hx := Finset.ext_iff.mp h x
    rw [mem_frequentValues, mem_frequentValues] at hx
    simpa using hx

end Frequent

section Equivalence

variable {conf cls} {threshold : ℚ} {raw₁ raw₂ : List UInt64}

theorem bitmapsAreEquivalent_comm (b₁ b₂ : UInt64) :
    bitmapsAreEquivalent conf b₁ b₂ = bitmapsAreEquivalent conf b₂ b₁ := by
  rw [bitmapsAreEquivalent, bitmapsAreEquivalent, Bool.or_comm, @BEq.comm _ _ _ b₁]

theorem setsAreEquivalent_comm :
    setsAreEquivalent conf threshold raw₁ raw₂ = setsAreEquivalent conf threshold raw₂ raw₁ := by
  simp only [setsAreEquivalent]
  split
  · rw [Bool.and_comm]
  · rw [Bool.or_comm]

/-- The samples `SetAnalyser` keeps. -/
def keptSamples (threshold : ℚ) (raw : List UInt64) : List UInt64 :=
  raw.filter fun x => threshold ≤ (x.toNat : ℚ)

theorem setsAreEquivalent_iff :
    setsAreEquivalent conf threshold raw₁ raw₂ = true ↔
      if conf.analyserSubsetsIsViolation then
        ∀ x, x ∈ keptSamples threshold raw₁ ↔ x ∈ keptSamples threshold raw₂
      else keptSamples threshold raw₁ ⊆ keptSamples threshold raw₂ ∨
        keptSamples threshold raw₂ ⊆ keptSamples threshold raw₁ := by
  have hall : ∀ l l' : List UInt64, (l.all (l'.contains ·)) = true ↔ l ⊆ l' := by
    intro l l'
    simp only [List.all_eq_true, List.contains_iff_mem, List.subset_def]
  simp only [setsAreEquivalent]
  split
  · rw [Bool.and_eq_true]
    exact (and_congr (hall _ _) (hall _ _)).trans
      ⟨fun h x => ⟨fun hx => h.1 hx, fun hx => h.2 hx⟩,
        fun h => ⟨fun x hx => (h x).mp hx, fun x hx => (h x).mpr hx⟩⟩
  · rw [Bool.or_eq_true]
    exact or_congr (hall _ _) (hall _ _)

theorem mem_keptSamples {x : UInt64} :
    x ∈ keptSamples threshold raw₁ ↔ x ∈ raw₁ ∧ threshold ≤ (x.toNat : ℚ) := by
  simp [keptSamples]

theorem lt_of_mem_keptSamples {m : Nat} (hlt : (m : ℚ) < threshold) {x : UInt64}
    (hx : x ∈ keptSamples threshold raw₁) : m < x.toNat := by
  have hcast : (m : ℚ) < (x.toNat : ℚ) := hlt.trans_le (mem_keptSamples.mp hx).2
  exact_mod_cast hcast

/-- Above all but one 64-bit value at most that value is kept. -/
theorem eq_of_mem_keptSamples (hlt : ((2 ^ 64 - 2 : Nat) : ℚ) < threshold) {x y : UInt64}
    (hx : x ∈ keptSamples threshold raw₁) (hy : y ∈ keptSamples threshold raw₂) : x = y := by
  have hx' := lt_of_mem_keptSamples hlt hx
  have hy' := lt_of_mem_keptSamples hlt hy
  have hxlt := x.toNat_lt
  have hylt := y.toNat_lt
  apply UInt64.toNat_inj.mp
  omega

theorem keptSamples_eq_nil (hlt : ((2 ^ 64 - 1 : Nat) : ℚ) < threshold) :
    keptSamples threshold raw₁ = [] := by
  rw [List.eq_nil_iff_forall_not_mem]
  intro x hx
  have hx' := lt_of_mem_keptSamples hlt hx
  have hxlt := x.toNat_lt
  omega

/-- If no two traces can be told apart, all are equivalent. -/
theorem setsAreEquivalent_of_large
    (h : ((2 ^ 64 - (if conf.analyserSubsetsIsViolation then 1 else 2) : Nat) : ℚ) < threshold) :
    setsAreEquivalent conf threshold raw₁ raw₂ = true := by
  rw [setsAreEquivalent_iff]
  split
  · rename_i hsub
    rw [if_pos hsub] at h
    simp [keptSamples_eq_nil h]
  · rename_i hsub
    rw [if_neg hsub] at h
    by_cases hnil : keptSamples threshold raw₁ = []
    · exact Or.inl (by simp [hnil])
    · obtain ⟨x, hx⟩ := List.exists_mem_of_ne_nil _ hnil
      exact Or.inr fun y hy => eq_of_mem_keptSamples h hx hy ▸ hx

/-- Traces with the same values keep the same samples. -/
theorem setsAreEquivalent_congr {raw₁' raw₂' : List UInt64} (h₁ : ∀ x, x ∈ raw₁ ↔ x ∈ raw₁')
    (h₂ : ∀ x, x ∈ raw₂ ↔ x ∈ raw₂') :
    setsAreEquivalent conf threshold raw₁ raw₂ = setsAreEquivalent conf threshold raw₁' raw₂' := by
  rw [Bool.eq_iff_iff, setsAreEquivalent_iff, setsAreEquivalent_iff]
  simp only [List.subset_def, mem_keptSamples, h₁, h₂]

end Equivalence

section Cache

variable {xxh64 conf} {S : HTrace → Prop} {cache : BitmapCache} {h k h₁ h₂ : HTrace}

variable (xxh64 conf) in
/-- The bitmap that an analyser with this cache takes for the trace. -/
def usedBitmap (cache : BitmapCache) (h : HTrace) : UInt64 :=
  (cache.lookup (h.hash xxh64)).getD (bitmapOf conf h)

variable (xxh64 conf) in
/-- The cache after the bitmap of the trace was taken. -/
def cachedAfter (cache : BitmapCache) (h : HTrace) : BitmapCache :=
  if (cache.lookup (h.hash xxh64)).isSome then cache
  else Dict.insert cache (h.hash xxh64) (bitmapOf conf h)

theorem cachedBitmap_run : (cachedBitmap xxh64 (conf.outlierThreshold h.sampleSize) h).run cache =
    some (usedBitmap xxh64 conf cache h, cachedAfter xxh64 conf cache h) := by
  unfold usedBitmap cachedAfter
  cases hl : cache.lookup (h.hash xxh64) with
  | some b => simp [cachedBitmap, hl]
  | none => simp [cachedBitmap, hl, bitmapOf]

theorem lookup_cachedAfter (key : Nat) : (cachedAfter xxh64 conf cache h).lookup key =
    if key = h.hash xxh64 then some (usedBitmap xxh64 conf cache h) else cache.lookup key := by
  unfold cachedAfter usedBitmap
  cases hl : cache.lookup (h.hash xxh64) with
  | some b =>
    by_cases hkey : key = h.hash xxh64
    · simp [hkey, hl]
    · simp [hkey]
  | none =>
    have hnotMem : h.hash xxh64 ∉ cache.map Prod.fst := by
      rw [List.lookup_eq_none_iff] at hl
      intro hmem
      obtain ⟨e, he, hk⟩ := List.mem_map.mp hmem
      exact absurd (hl e he) (by simp [hk])
    rw [Option.isSome_none, if_neg (by simp), Dict.insert_of_notMem _ hnotMem, List.lookup_append]
    by_cases hkey : key = h.hash xxh64
    · simp [hkey, hl]
    · have hne : (key == h.hash xxh64) = false := by simpa using hkey
      simp [hkey, List.lookup_cons, hne]

theorem usedBitmap_cachedAfter : usedBitmap xxh64 conf (cachedAfter xxh64 conf cache h) k =
    if k.hash xxh64 = h.hash xxh64 then usedBitmap xxh64 conf cache h
    else usedBitmap xxh64 conf cache k := by
  rw [usedBitmap, lookup_cachedAfter]
  split
  · rfl
  · rfl

theorem htracesAreEquivalent_run (hsize : h₁.sampleSize = h₂.sampleSize) :
    (htracesAreEquivalent xxh64 conf .mergedBitmap h₁ h₂).run cache =
      some (bitmapsAreEquivalent conf (usedBitmap xxh64 conf cache h₁)
          (usedBitmap xxh64 conf (cachedAfter xxh64 conf cache h₁) h₂),
        cachedAfter xxh64 conf (cachedAfter xxh64 conf cache h₁) h₂) := by
  have hsecond : (cachedBitmap xxh64 (conf.outlierThreshold h₁.sampleSize) h₂).run
      (cachedAfter xxh64 conf cache h₁) = some (usedBitmap xxh64 conf
        (cachedAfter xxh64 conf cache h₁) h₂,
        cachedAfter xxh64 conf (cachedAfter xxh64 conf cache h₁) h₂) := by
    rw [hsize]
    exact cachedBitmap_run
  rw [htracesAreEquivalent, if_neg (by simpa using hsize)]
  simp only [StateT.run_bind, cachedBitmap_run, Option.bind_eq_bind, Option.bind_some, hsecond,
    StateT.run_pure]
  rfl

theorem verdict_mergedBitmap (hsize : h₁.sampleSize = h₂.sampleSize) :
    verdict xxh64 conf .mergedBitmap cache h₁ h₂ =
      some (bitmapsAreEquivalent conf (usedBitmap xxh64 conf cache h₁)
        (if h₂.hash xxh64 = h₁.hash xxh64 then usedBitmap xxh64 conf cache h₁
          else usedBitmap xxh64 conf cache h₂)) := by
  rw [verdict, StateT.run'_eq, htracesAreEquivalent_run hsize, usedBitmap_cachedAfter]
  rfl

/-- What is cached under a hash is the bitmap of a trace with that hash. -/
theorem CacheOf.lookup (hcache : CacheOf xxh64 conf .mergedBitmap S cache) {key : Nat} {b : UInt64}
    (hl : cache.lookup key = some b) : ∃ k, S k ∧ k.hash xxh64 = key ∧ b = bitmapOf conf k := by
  induction hcache generalizing key b with
  | new => cases hl
  | @compared c c' k₁ k₂ answer _ hk₁ hk₂ hrun ih =>
    -- what one trace adds to a cache
    have hstep : ∀ {c : BitmapCache} {k : HTrace}, S k →
        (∀ {key b}, c.lookup key = some b →
          ∃ k, S k ∧ k.hash xxh64 = key ∧ b = bitmapOf conf k) →
        ∀ {key b}, (cachedAfter xxh64 conf c k).lookup key = some b →
          ∃ k, S k ∧ k.hash xxh64 = key ∧ b = bitmapOf conf k := by
      intro c k hk hc key b hl
      rw [lookup_cachedAfter] at hl
      split at hl
      · rename_i hkey
        subst hkey
        rw [usedBitmap] at hl
        cases hold : c.lookup (k.hash xxh64) with
        | some b' =>
          rw [hold] at hl
          exact hc (hold.trans hl)
        | none =>
          rw [hold] at hl
          exact ⟨k, hk, rfl, (Option.some.inj hl).symm⟩
      · exact hc hl
    by_cases hsize : k₁.sampleSize = k₂.sampleSize
    · rw [htracesAreEquivalent_run hsize] at hrun
      cases hrun
      exact hstep hk₂ (hstep hk₁ ih) hl
    · rw [htracesAreEquivalent, if_pos hsize] at hrun
      cases hrun

/-- Any trace may have been compared, with itself. -/
theorem CacheOf.cachedAfter (hcache : CacheOf xxh64 conf .mergedBitmap S cache) (hk : S k) :
    CacheOf xxh64 conf .mergedBitmap S (Analyser.cachedAfter xxh64 conf cache k) := by
  have hrun := @htracesAreEquivalent_run xxh64 conf cache k k rfl
  have hsame : Analyser.cachedAfter xxh64 conf (Analyser.cachedAfter xxh64 conf cache k) k =
      Analyser.cachedAfter xxh64 conf cache k := by
    conv_lhs => rw [Analyser.cachedAfter]
    rw [lookup_cachedAfter, if_pos rfl]
    rfl
  rw [hsame] at hrun
  exact .compared hcache hk hk hrun

/-- The bitmap that is taken for a trace is that of a trace with the same hash. -/
theorem CacheOf.usedBitmap (hcache : CacheOf xxh64 conf .mergedBitmap S cache) (hh : S h) :
    ∃ k, S k ∧ k.hash xxh64 = h.hash xxh64 ∧
      Analyser.usedBitmap xxh64 conf cache h = bitmapOf conf k := by
  rw [Analyser.usedBitmap]
  cases hl : cache.lookup (h.hash xxh64) with
  | some b => exact hcache.lookup hl
  | none => exact ⟨h, hh, rfl, rfl⟩

/-- The bitmaps of two traces with different hashes may both be cached. -/
theorem exists_cacheOf {k₁ k₂ : HTrace} (hk₁ : S k₁) (hk₂ : S k₂)
    (hne : k₁.hash xxh64 ≠ k₂.hash xxh64) : ∃ cache, CacheOf xxh64 conf .mergedBitmap S cache ∧
      (∀ h, h.hash xxh64 = k₁.hash xxh64 → usedBitmap xxh64 conf cache h = bitmapOf conf k₁) ∧
      ∀ h, h.hash xxh64 = k₂.hash xxh64 → usedBitmap xxh64 conf cache h = bitmapOf conf k₂ := by
  have hnew : ∀ k, usedBitmap xxh64 conf [] k = bitmapOf conf k := fun _ => rfl
  refine ⟨_, (CacheOf.new.cachedAfter hk₁).cachedAfter hk₂, fun h hh => ?_, fun h hh => ?_⟩
  · rw [usedBitmap, lookup_cachedAfter, hh, if_neg hne, lookup_cachedAfter, if_pos rfl, hnew]
    rfl
  · rw [usedBitmap, lookup_cachedAfter, if_pos hh, usedBitmap_cachedAfter, if_neg (Ne.symm hne),
      hnew]
    rfl

end Cache

section Law

variable {conf cls} {S : HTrace → Prop} {n : Nat}

theorem equivalentTraces_comm {h₁ h₂ : HTrace} (hsize : h₁.sampleSize = h₂.sampleSize) :
    equivalentTraces conf cls h₁ h₂ = equivalentTraces conf cls h₂ h₁ := by
  cases cls with
  | mergedBitmap => exact bitmapsAreEquivalent_comm _ _
  | sets =>
    simp only [equivalentTraces, hsize]
    exact setsAreEquivalent_comm

theorem bitmapOf_of_frequent {h k : HTrace} (hsize : h.sampleSize = k.sampleSize)
    (hf : h.frequent conf = k.frequent conf) : bitmapOf conf h = bitmapOf conf k := by
  simp only [HTrace.frequent, hsize] at hf
  rw [bitmapOf, bitmapOf, hsize, mergeBitmap_of_frequentValues hf]

theorem mem_getRawTraces_of_frequent {h k : HTrace} (hh : h.sampleSize = n) (hk : k.sampleSize = n)
    (hle : conf.outlierThreshold n ≤ 1) (hf : h.frequent conf = k.frequent conf) (x : UInt64) :
    x ∈ h.getRawTraces ↔ x ∈ k.getRawTraces := by
  have hx := Finset.ext_iff.mp hf x
  rwa [HTrace.frequent, HTrace.frequent, hh, hk, mem_frequentValues_of_le hle,
    mem_frequentValues_of_le hle] at hx

theorem getRawTraces_eq_nil {h : HTrace} (hh : h.sampleSize = 0) : h.getRawTraces = [] := by
  rw [HTrace.getRawTraces, List.length_eq_zero_iff.mp hh, List.map_nil]

theorem HTrace.frequent_perm {h k : HTrace} (hp : h.getRawTraces.Perm k.getRawTraces) :
    h.frequent conf = k.frequent conf := by
  have hsize : h.sampleSize = k.sampleSize := by
    simpa [HTrace.getRawTraces, HTrace.sampleSize] using hp.length_eq
  rw [HTrace.frequent, HTrace.frequent, hsize, frequentValues_perm hp]

/-- The law, for verdicts that do not depend on the cache. -/
theorem frequencyLaw_of_answer (answer : HTrace → HTrace → Bool)
    (hanswer : ∀ {cache h₁ h₂}, CacheOf xxh64 conf cls S cache →
      (∀ h ∈ [h₁, h₂], S h ∧ h.sampleSize = n) →
      verdict xxh64 conf cls cache h₁ h₂ = some (answer h₁ h₂))
    (hfrequent : ∀ {h₁ h₂ k₁ k₂}, (∀ h ∈ [h₁, h₂, k₁, k₂], S h ∧ h.sampleSize = n) →
      h₁.frequent conf = k₁.frequent conf → h₂.frequent conf = k₂.frequent conf →
      answer h₁ h₂ = answer k₁ k₂)
    (hcomm : ∀ {h₁ h₂}, (∀ h ∈ [h₁, h₂], S h ∧ h.sampleSize = n) → answer h₁ h₂ = answer h₂ h₁)
    (hself : ∀ h, answer h h = true) : FrequencyLaw xxh64 conf cls n S := by
  have hpairs : ∀ {h₁ h₂ k₁ k₂ : HTrace}, (∀ h ∈ [h₁, h₂, k₁, k₂], S h ∧ h.sampleSize = n) →
      (∀ h ∈ [h₁, h₂], S h ∧ h.sampleSize = n) ∧ ∀ h ∈ [k₁, k₂], S h ∧ h.sampleSize = n :=
    fun hS => ⟨fun h hh => hS h (List.mem_append_left [_, _] hh),
      fun h hh => hS h (List.mem_append_right [_, _] hh)⟩
  have hdep : ∀ {cache cache' h₁ h₂ k₁ k₂}, CacheOf xxh64 conf cls S cache →
      CacheOf xxh64 conf cls S cache' → (∀ h ∈ [h₁, h₂, k₁, k₂], S h ∧ h.sampleSize = n) →
      h₁.frequent conf = k₁.frequent conf → h₂.frequent conf = k₂.frequent conf →
      verdict xxh64 conf cls cache h₁ h₂ = verdict xxh64 conf cls cache' k₁ k₂ := by
    intro cache cache' h₁ h₂ k₁ k₂ hc hc' hS hf₁ hf₂
    rw [hanswer hc (hpairs hS).1, hanswer hc' (hpairs hS).2, hfrequent hS hf₁ hf₂]
  have hrefl : ∀ {cache h}, CacheOf xxh64 conf cls S cache → S h → h.sampleSize = n →
      verdict xxh64 conf cls cache h h = some true := by
    intro cache h hc hh hn
    rw [hanswer hc (by simp [hh, hn]), hself]
  constructor
  case dependsOnly => exact hdep
  case reordered =>
    intro cache cache' h₁ h₂ k₁ k₂ hc hc' hS hp₁ hp₂
    exact hdep hc hc' hS (HTrace.frequent_perm hp₁) (HTrace.frequent_perm hp₂)
  case symm =>
    intro cache cache' h₁ h₂ hc hc' hS
    have hS' : ∀ h ∈ [h₂, h₁], S h ∧ h.sampleSize = n :=
      fun h hh => hS h (by simpa [or_comm] using hh)
    rw [hanswer hc hS, hanswer hc' hS', hcomm hS]
  case refl => exact hrefl
  case equalFrequent =>
    intro cache h₁ h₂ hc hS hf
    have hh₂ := hS h₂ (by simp)
    rw [← hrefl hc hh₂.1 hh₂.2]
    refine hdep hc hc (fun h hh => hS h ?_) hf rfl
    simpa using hh

theorem verdict_sets {cache : BitmapCache} {h₁ h₂ : HTrace} (hsize : h₁.sampleSize = h₂.sampleSize) :
    verdict xxh64 conf .sets cache h₁ h₂ = some (equivalentTraces conf .sets h₁ h₂) := by
  rw [verdict, htracesAreEquivalent, if_neg (by simpa using hsize)]
  rfl

/-- For harmless thresholds `SetAnalyser` obeys the law. -/
theorem frequencyLaw_sets (hcond : n = 0 ∨ HarmlessThreshold conf (conf.outlierThreshold n)) :
    FrequencyLaw xxh64 conf .sets n S := by
  have hsizes : ∀ {h₁ h₂ : HTrace}, (∀ h ∈ [h₁, h₂], S h ∧ h.sampleSize = n) →
      h₁.sampleSize = h₂.sampleSize :=
    fun hS => (hS _ (by simp)).2.trans (hS _ (by simp)).2.symm
  refine frequencyLaw_of_answer xxh64 _ (fun _ hS => verdict_sets xxh64 (hsizes hS)) ?_
    (fun hS => equivalentTraces_comm (hsizes hS))
    fun h => equivalentTraces_of_getRawTraces conf .sets rfl
  intro h₁ h₂ k₁ k₂ hS hf₁ hf₂
  simp only [List.forall_mem_cons, List.not_mem_nil, false_implies, implies_true, and_true] at hS
  obtain ⟨⟨-, hh₁⟩, ⟨-, hh₂⟩, ⟨-, hk₁⟩, -, hk₂⟩ := hS
  simp only [equivalentTraces, hh₁, hk₁]
  rcases hcond with rfl | hle | hlarge
  · rw [getRawTraces_eq_nil hh₁, getRawTraces_eq_nil hh₂, getRawTraces_eq_nil hk₁,
      getRawTraces_eq_nil hk₂]
  · exact setsAreEquivalent_congr (mem_getRawTraces_of_frequent hh₁ hk₁ hle hf₁)
      (mem_getRawTraces_of_frequent hh₂ hk₂ hle hf₂)
  · rw [setsAreEquivalent_of_large hlarge, setsAreEquivalent_of_large hlarge]

variable (conf) in
/-- The answer of `MergedBitmapAnalyser` when collisions are harmless. -/
def mergedAnswer (h₁ h₂ : HTrace) : Bool :=
  h₁.hash xxh64 == h₂.hash xxh64 ||
    bitmapsAreEquivalent conf (bitmapOf conf h₁) (bitmapOf conf h₂)

/-- `MergedBitmapAnalyser` obeys the law exactly if collisions are harmless. -/
theorem frequencyLaw_mergedBitmap_iff :
    FrequencyLaw xxh64 conf .mergedBitmap n S ↔ CollisionsHarmless xxh64 conf n S := by
  have hsizes : ∀ {h₁ h₂ : HTrace}, (∀ h ∈ [h₁, h₂], S h ∧ h.sampleSize = n) →
      h₁.sampleSize = h₂.sampleSize :=
    fun hS => (hS _ (by simp)).2.trans (hS _ (by simp)).2.symm
  have hbitmaps : ∀ {h₁ h₂ k₁ k₂ : HTrace}, (∀ h ∈ [h₁, h₂, k₁, k₂], S h ∧ h.sampleSize = n) →
      h₁.frequent conf = k₁.frequent conf → h₂.frequent conf = k₂.frequent conf →
      bitmapOf conf h₁ = bitmapOf conf k₁ ∧ bitmapOf conf h₂ = bitmapOf conf k₂ :=
    fun hS hf₁ hf₂ =>
      ⟨bitmapOf_of_frequent ((hS _ (by simp)).2.trans (hS _ (by simp)).2.symm) hf₁,
        bitmapOf_of_frequent ((hS _ (by simp)).2.trans (hS _ (by simp)).2.symm) hf₂⟩
  have hself : ∀ b, bitmapsAreEquivalent conf b b = true := by
    intro b
    simp only [bitmapsAreEquivalent]
    split <;> simp
  constructor
  · intro hlaw
    constructor
    · -- two analysers that have met different traces with these hashes first
      intro h₁ h₂ k₁ k₂ hS hk₁ hk₂ he₁ he₂ hne
      obtain ⟨cache, hcache, hused₁, hused₂⟩ := exists_cacheOf hk₁ hk₂ (by rw [he₁, he₂]; exact hne)
      obtain ⟨cache', hcache', hused₁', hused₂'⟩ :=
        exists_cacheOf (hS h₁ (by simp)).1 (hS h₂ (by simp)).1 hne
      have hsame : verdict xxh64 conf .mergedBitmap cache h₁ h₂ =
          verdict xxh64 conf .mergedBitmap cache' h₁ h₂ := by
        refine hlaw.dependsOnly hcache hcache' (fun h hh => hS h ?_) rfl rfl
        simp only [List.mem_cons, List.not_mem_nil, or_false] at hh ⊢
        tauto
      rw [verdict_mergedBitmap (hsizes hS), verdict_mergedBitmap (hsizes hS), if_neg (Ne.symm hne),
        if_neg (Ne.symm hne), hused₁ h₁ he₁.symm, hused₂ h₂ he₂.symm, hused₁' h₁ rfl,
        hused₂' h₂ rfl] at hsame
      exact Option.some.inj hsame
    · intro h₁ h₂ k₁ k₂ hS hf₁ hf₂ he hne
      have hsame := hlaw.dependsOnly .new .new hS hf₁ hf₂
      rw [verdict_mergedBitmap ((hS h₁ (by simp)).2.trans (hS h₂ (by simp)).2.symm),
        verdict_mergedBitmap ((hS k₁ (by simp)).2.trans (hS k₂ (by simp)).2.symm), if_pos he.symm,
        if_neg (Ne.symm hne), hself] at hsame
      rw [(hbitmaps hS hf₁ hf₂).1, (hbitmaps hS hf₁ hf₂).2]
      exact (Option.some.inj hsame).symm
  · intro hharmless
    refine frequencyLaw_of_answer xxh64 (mergedAnswer xxh64 conf) ?_ ?_ ?_ ?_
    · intro cache h₁ h₂ hcache hS
      rw [verdict_mergedBitmap (hsizes hS), mergedAnswer]
      by_cases he : h₁.hash xxh64 = h₂.hash xxh64
      · rw [if_pos he.symm, hself, beq_iff_eq.mpr he, Bool.true_or]
      · obtain ⟨k₁, hk₁, he₁, hused₁⟩ := hcache.usedBitmap (hS h₁ (by simp)).1
        obtain ⟨k₂, hk₂, he₂, hused₂⟩ := hcache.usedBitmap (hS h₂ (by simp)).1
        rw [if_neg (Ne.symm he), hused₁, hused₂, hharmless.apart hS hk₁ hk₂ he₁ he₂ he,
          beq_false_of_ne he, Bool.false_or]
    · intro h₁ h₂ k₁ k₂ hS hf₁ hf₂
      obtain ⟨hb₁, hb₂⟩ := hbitmaps hS hf₁ hf₂
      rw [mergedAnswer, mergedAnswer, ← hb₁, ← hb₂]
      by_cases hh : h₁.hash xxh64 = h₂.hash xxh64
      · by_cases hk : k₁.hash xxh64 = k₂.hash xxh64
        · rw [beq_iff_eq.mpr hh, beq_iff_eq.mpr hk, Bool.true_or]
        · rw [hharmless.together hS hf₁ hf₂ hh hk, Bool.or_true, Bool.or_true]
      · by_cases hk : k₁.hash xxh64 = k₂.hash xxh64
        · have hS' : ∀ h ∈ [k₁, k₂, h₁, h₂], S h ∧ h.sampleSize = n := by
            intro h hmem
            refine hS h ?_
            simp only [List.mem_cons, List.not_mem_nil, or_false] at hmem ⊢
            tauto
          have htrue := hharmless.together hS' hf₁.symm hf₂.symm hk hh
          rw [← hb₁, ← hb₂] at htrue
          rw [htrue, Bool.or_true, Bool.or_true]
        · rw [beq_false_of_ne hh, beq_false_of_ne hk]
    · intro h₁ h₂ _
      rw [mergedAnswer, mergedAnswer, bitmapsAreEquivalent_comm, @BEq.comm _ _ _ (h₁.hash xxh64)]
    · intro h
      rw [mergedAnswer, hself, Bool.or_true]

end Law

section Failing

variable {conf} {n : Nat} {threshold : ℚ}

/-- A trace that shows the values `raw`. -/
def traceOf (raw : List UInt64) : HTrace := ⟨raw.map fun x => ⟨x, 0, 0, 0, 0, 0⟩⟩

@[simp] theorem traceOf_getRawTraces (raw : List UInt64) : (traceOf raw).getRawTraces = raw := by
  rw [traceOf, HTrace.getRawTraces, List.map_map]
  exact List.map_id raw

@[simp] theorem traceOf_sampleSize (raw : List UInt64) : (traceOf raw).sampleSize = raw.length := by
  simp [traceOf, HTrace.sampleSize]

/-- A trace of `m + 1` samples with one outlier `x`. -/
def outlierTrace (m : Nat) (x : UInt64) : HTrace := traceOf (List.replicate m 0 ++ [x])

theorem outlierTrace_frequent {m : Nat} {x : UInt64} (hx : x ≠ 0)
    (hlt : 1 < conf.outlierThreshold (m + 1)) : (outlierTrace m x).frequent conf =
      frequentValues (conf.outlierThreshold (m + 1)) (List.replicate m 0) := by
  have hnot : x ∉ List.replicate m 0 := fun h => hx (List.eq_of_mem_replicate h)
  simp only [HTrace.frequent, outlierTrace, traceOf_getRawTraces, traceOf_sampleSize,
    List.length_append, List.length_replicate, List.length_singleton]
  exact frequentValues_append_single hlt hnot

/-- `SetAnalyser` keeps a lone outlier if its value passes the threshold. -/
theorem mem_keptSamples_outlier {m : Nat} {x y : UInt64} (hlt : 1 < threshold) :
    y ∈ keptSamples threshold (List.replicate m 0 ++ [x]) ↔
      y = x ∧ threshold ≤ (x.toNat : ℚ) := by
  rw [mem_keptSamples, List.mem_append, List.mem_singleton]
  constructor
  · rintro ⟨hy | rfl, hle⟩
    · rw [List.eq_of_mem_replicate hy] at hle
      exact absurd (hlt.trans_le hle) (by simp)
    · exact ⟨rfl, hle⟩
  · rintro ⟨rfl, hle⟩
    exact ⟨Or.inr rfl, hle⟩

/-- Two outliers with equal frequent values that `SetAnalyser` tells apart. -/
theorem exists_outliers (hlt : 1 < threshold) (hsmall : ¬ HarmlessThreshold conf threshold)
    (m : Nat) : ∃ x y : UInt64, x ≠ 0 ∧ y ≠ 0 ∧
      setsAreEquivalent conf threshold (List.replicate m 0 ++ [x]) (List.replicate m 0 ++ [y]) =
        false := by
  rw [HarmlessThreshold, not_or, not_lt] at hsmall
  by_cases hsub : conf.analyserSubsetsIsViolation = true
  · rw [if_pos hsub] at hsmall
    refine ⟨18446744073709551615, 1, by decide, by decide, ?_⟩
    rw [← Bool.not_eq_true, setsAreEquivalent_iff, if_pos hsub]
    intro h
    have hmem := (h 18446744073709551615).mp ((mem_keptSamples_outlier hlt).mpr ⟨rfl, hsmall.2⟩)
    exact absurd ((mem_keptSamples_outlier hlt).mp hmem).1 (by decide)
  · rw [if_neg hsub] at hsmall
    have hmax : threshold ≤ ((18446744073709551615 : UInt64).toNat : ℚ) := by
      refine hsmall.2.trans ?_
      exact_mod_cast (by decide : 2 ^ 64 - 2 ≤ (18446744073709551615 : UInt64).toNat)
    refine ⟨18446744073709551615, 18446744073709551614, by decide, by decide, ?_⟩
    rw [← Bool.not_eq_true, setsAreEquivalent_iff, if_neg hsub]
    rintro (h | h)
    · have hmem := h ((mem_keptSamples_outlier hlt).mpr ⟨rfl, hmax⟩)
      exact absurd ((mem_keptSamples_outlier hlt).mp hmem).1 (by decide)
    · have hmem := h ((mem_keptSamples_outlier hlt).mpr ⟨rfl, hsmall.2⟩)
      exact absurd ((mem_keptSamples_outlier hlt).mp hmem).1 (by decide)

end Failing

/-- There is no harm when the hash tells the traces apart. -/
theorem collisionsHarmless_of_hashInjective {n : Nat} {S : HTrace → Prop}
    (hinj : HashInjective xxh64 S) : CollisionsHarmless xxh64 conf n S := by
  constructor
  · intro h₁ h₂ k₁ k₂ hS hk₁ hk₂ he₁ he₂ _
    rw [bitmapOf_of_getRawTraces conf (hinj k₁ h₁ hk₁ (hS h₁ (by simp)).1 he₁),
      bitmapOf_of_getRawTraces conf (hinj k₂ h₂ hk₂ (hS h₂ (by simp)).1 he₂)]
  · intro h₁ h₂ k₁ k₂ hS _ _ he _
    exact equivalentTraces_of_getRawTraces conf .mergedBitmap
      (hinj h₁ h₂ (hS h₁ (by simp)).1 (hS h₂ (by simp)).1 he)

/-- Beyond a thousand samples the hash only sees the first and the last three: the cached analyser
takes a trace that differs in between for the one it met before. -/
theorem hash_elided {h k : HTrace} (hsize : h.sampleSize = k.sampleSize) (hlong : 1000 < h.sampleSize)
    (hfirst : h.getRawTraces.take 3 = k.getRawTraces.take 3)
    (hlast : h.getRawTraces.drop (h.sampleSize - 3) = k.getRawTraces.drop (h.sampleSize - 3)) :
    h.hash xxh64 = k.hash xxh64 := by
  have hlen : ∀ t : HTrace, (t.getRawTraces.map UInt64.toNat).length = t.sampleSize := by
    simp [HTrace.getRawTraces, HTrace.sampleSize]
  have hne : ∀ t : HTrace, 1000 < t.sampleSize → t.getRawTraces.map UInt64.toNat ≠ [] := by
    intro t ht hnil
    rw [← hlen t, hnil] at ht
    exact absurd ht (by simp)
  have hshown : numpyShown (h.getRawTraces.map UInt64.toNat) =
      numpyShown (k.getRawTraces.map UInt64.toNat) := by
    rw [numpyShown, numpyShown, hlen, hlen, if_pos hlong, if_pos (hsize ▸ hlong), ← hsize,
      ← List.map_take, ← List.map_take, ← List.map_drop, ← List.map_drop, hfirst, hlast]
  rw [HTrace.hash, HTrace.hash, numpyStr, numpyStr, if_neg (hne h hlong),
    if_neg (hne k (hsize ▸ hlong)), hshown, hlen, hlen, hsize]

/-- So the cached analyser breaks the law on long traces that show the same, if their bitmaps compare
differently with that of a trace that shows something else. -/
theorem not_frequencyLaw_elided {S : HTrace → Prop} {n : Nat} {h k h' : HTrace}
    (hS : ∀ t ∈ [h, k, h'], S t ∧ t.sampleSize = n) (hlong : 1000 < n)
    (hfirst : h.getRawTraces.take 3 = k.getRawTraces.take 3)
    (hlast : h.getRawTraces.drop (n - 3) = k.getRawTraces.drop (n - 3))
    (hother : h.hash xxh64 ≠ h'.hash xxh64)
    (hdiff : bitmapsAreEquivalent conf (bitmapOf conf k) (bitmapOf conf h') ≠
      bitmapsAreEquivalent conf (bitmapOf conf h) (bitmapOf conf h')) :
    ¬ FrequencyLaw xxh64 conf .mergedBitmap n S := by
  obtain ⟨hh, hk, hh'⟩ : S h ∧ S k ∧ S h' :=
    ⟨(hS h (by simp)).1, (hS k (by simp)).1, (hS h' (by simp)).1⟩
  have hn := (hS h (by simp)).2
  have hhash : h.hash xxh64 = k.hash xxh64 := by
    refine hash_elided xxh64 (hn.trans (hS k (by simp)).2.symm) (by rw [hn]; exact hlong) hfirst ?_
    rw [hn]
    exact hlast
  rw [frequencyLaw_mergedBitmap_iff]
  intro hharmless
  exact hdiff (hharmless.apart (fun t ht => hS t (by simp at ht ⊢; tauto)) hk hh' hhash.symm rfl
    hother)

end Rvzr.Analyser
