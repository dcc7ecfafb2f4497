import Rvzr.Analyser.HwClasses

/-!
# What `filter_violations` detects

The class docstring of `EquivalenceAnalyserCommon` defines a violation by pairs: equal
contract traces, inequivalent hardware traces. The code compares every hardware trace of a
contract class with the representatives it met before. The two agree on a list of
measurements exactly when the first measurement of every violating class is part of an
inequivalent pair (`filterViolations_detects_iff`), which an equivalence that tolerates
subsets does not grant.
-/

namespace Rvzr.Analyser

open Rvzr.Lib

/-- One measurement, as the caller of `filter_violations` has it in three parallel lists. -/
structure Measurement (ι : Type) where
  input : ι
  ctrace : CTrace
  htrace : HTrace

variable {ι τ : Type}

/-- A measurement the analyser keeps: neither empty nor corrupted or ignored. -/
def Measurement.valid (m : Measurement ι) : Bool :=
  !(m.htrace.isEmpty || m.htrace.isCorruptedOrIgnored)

/-- The measurement a bundle was made of. -/
def TraceBundle.measurement (b : TraceBundle ι) : Measurement ι := ⟨b.input, b.ctrace, b.htrace⟩

variable (xxh64 : Text → Nat) (conf : Conf) (cls : AnalyserCls)

/-- A measurement the analyser keeps for the contract trace `c`. -/
def inClass (c : CTrace) (m : Measurement ι) : Bool :=
  m.valid && m.ctrace.digest xxh64 == c.digest xxh64

/-- `htraces_are_equivalent` of a new analyser answers `False`. -/
def Inequivalent (h₁ h₂ : HTrace) : Prop :=
  (htracesAreEquivalent xxh64 conf cls h₁ h₂).run' [] = some false

instance (h₁ h₂ : HTrace) : Decidable (Inequivalent xxh64 conf cls h₁ h₂) :=
  inferInstanceAs (Decidable (_ = _))

/-- The documented definition: two kept measurements have contract trace `c` and inequivalent
hardware traces. -/
def PairViolates (ms : List (Measurement ι)) (c : CTrace) : Prop :=
  ∃ m ∈ ms, ∃ m' ∈ ms, inClass xxh64 c m = true ∧ inClass xxh64 c m' = true ∧
    Inequivalent xxh64 conf cls m.htrace m'.htrace

/-- Some kept measurement of the class of `c` is inequivalent to `m`. -/
def HasInequivalent (ms : List (Measurement ι)) (c : CTrace) (m : Measurement ι) : Prop :=
  ∃ m' ∈ ms, inClass xxh64 c m' = true ∧ Inequivalent xxh64 conf cls m'.htrace m.htrace

/-- The first kept measurement of the class of `c` is inequivalent to another one. -/
def FirstDiverges (ms : List (Measurement ι)) (c : CTrace) : Prop :=
  ∃ m, (ms.filter (inClass xxh64 c)).head? = some m ∧ HasInequivalent xxh64 conf cls ms c m

/-- Some violation is reported for the contract trace `c`. -/
def Reports (vs : List (Violation ι τ)) (c : CTrace) : Prop :=
  ∃ v ∈ vs, v.ctrace.digest xxh64 = c.digest xxh64

/-- `filter_violations` on the measurements `ms`. -/
def filterViolationsOf (testCaseCode : τ) (ms : List (Measurement ι)) :
    AnalyserM (List (Violation ι τ)) :=
  filterViolations xxh64 conf cls (ms.map Measurement.ctrace) (ms.map Measurement.htrace)
    testCaseCode (ms.map Measurement.input)

/-- On `ms`, started with `cache`, the analyser reports exactly the contract traces the
documented definition calls violated. -/
def DetectsExactly (cache : BitmapCache) (testCaseCode : τ) (ms : List (Measurement ι)) : Prop :=
  ∃ vs cache', (filterViolationsOf xxh64 conf cls testCaseCode ms).run cache = some (vs, cache') ∧
    ∀ c, Reports xxh64 vs c ↔ PairViolates xxh64 conf cls ms c

/-- The bitmap of a trace, computed without the cache. -/
def bitmapOf (h : HTrace) : UInt64 :=
  mergeBitmap (conf.outlierThreshold h.sampleSize) h.getRawTraces

/-- The equivalence function without the cache and the size assertion. -/
def equivalentTraces (h₁ h₂ : HTrace) : Bool :=
  match cls with
  | .mergedBitmap => bitmapsAreEquivalent conf (bitmapOf conf h₁) (bitmapOf conf h₂)
  | .sets =>
    setsAreEquivalent conf (conf.outlierThreshold h₁.sampleSize) h₁.getRawTraces h₂.getRawTraces

/-- The traces of `S` have distinct digests. -/
def HashInjective (S : HTrace → Prop) : Prop :=
  ∀ h₁ h₂, S h₁ → S h₂ → h₁.hash xxh64 = h₂.hash xxh64 → h₁.getRawTraces = h₂.getRawTraces

/-- Every cached bitmap of a trace of `S` is the bitmap of that trace. -/
def CacheSound (S : HTrace → Prop) (cache : BitmapCache) : Prop :=
  ∀ h b, S h → cache.lookup (h.hash xxh64) = some b → b = bitmapOf conf h

theorem cacheSound_nil (S : HTrace → Prop) : CacheSound xxh64 conf S [] := by
  intro h b _ hl
  simp at hl

theorem sampleSize_of_getRawTraces {h₁ h₂ : HTrace} (h : h₁.getRawTraces = h₂.getRawTraces) :
    h₁.sampleSize = h₂.sampleSize := by
  have := congrArg List.length h
  simpa [HTrace.getRawTraces, HTrace.sampleSize] using this

theorem bitmapOf_of_getRawTraces {h₁ h₂ : HTrace} (h : h₁.getRawTraces = h₂.getRawTraces) :
    bitmapOf conf h₁ = bitmapOf conf h₂ := by
  rw [bitmapOf, bitmapOf, sampleSize_of_getRawTraces h, h]

/-- Traces with equal samples are equivalent. -/
theorem equivalentTraces_of_getRawTraces {h₁ h₂ : HTrace}
    (h : h₁.getRawTraces = h₂.getRawTraces) : equivalentTraces conf cls h₁ h₂ = true := by
  cases cls with
  | mergedBitmap =>
    simp only [equivalentTraces, bitmapsAreEquivalent, bitmapOf_of_getRawTraces conf h]
    split <;> simp
  | sets =>
    have hself : ∀ s : List UInt64, s.all (s.contains ·) = true := by simp
    simp only [equivalentTraces, setsAreEquivalent, h, hself]
    split <;> rfl

section Cache

variable {S : HTrace → Prop} (hinj : HashInjective xxh64 S)
include hinj

/-- A new entry of the cache is right for every trace with its digest. -/
theorem CacheSound.insert {cache : BitmapCache} {h : HTrace} (hc : CacheSound xxh64 conf S cache)
    (hh : S h) (hnone : cache.lookup (h.hash xxh64) = none) :
    CacheSound xxh64 conf S (Dict.insert cache (h.hash xxh64) (bitmapOf conf h)) := by
  have hnotMem : h.hash xxh64 ∉ cache.map Prod.fst := by
    rw [List.lookup_eq_none_iff] at hnone
    intro hmem
    obtain ⟨e, he, hk⟩ := List.mem_map.mp hmem
    exact absurd (hnone e he) (by simp [hk])
  rw [Dict.insert_of_notMem _ hnotMem]
  intro h' b hh' hl
  rw [List.lookup_append] at hl
  cases hl' : cache.lookup (h'.hash xxh64) with
  | some b' =>
    rw [hl'] at hl
    have hb : b' = b := by simpa using hl
    exact hb ▸ hc h' b' hh' hl'
  | none =>
    rw [hl'] at hl
    by_cases hk : h'.hash xxh64 = h.hash xxh64
    · have hb : bitmapOf conf h = b := by simpa [hk] using hl
      rw [← hb]
      exact bitmapOf_of_getRawTraces conf (hinj h h' hh hh' hk.symm)
    · have hk' : (h'.hash xxh64 == h.hash xxh64) = false := by simpa using hk
      simp [List.lookup_cons, hk'] at hl

theorem cachedBitmap_answers {h : HTrace} (hh : S h) :
    Answers (CacheSound xxh64 conf S)
      (cachedBitmap xxh64 (conf.outlierThreshold h.sampleSize) h) (bitmapOf conf h) := by
  intro cache hc
  cases hl : cache.lookup (h.hash xxh64) with
  | some b =>
    refine ⟨cache, hc, ?_⟩
    have hb := hc h b hh hl
    subst hb
    simp [cachedBitmap, hl]
  | none =>
    refine ⟨_, hc.insert xxh64 conf hinj hh hl, ?_⟩
    simp [cachedBitmap, hl, bitmapOf]

/-- From a sound cache the equivalence function answers what it would answer without one. -/
theorem htracesAreEquivalent_answers {h₁ h₂ : HTrace} (hh₁ : S h₁) (hh₂ : S h₂)
    (hsize : h₁.sampleSize = h₂.sampleSize) :
    Answers (CacheSound xxh64 conf S) (htracesAreEquivalent xxh64 conf cls h₁ h₂)
      (equivalentTraces conf cls h₁ h₂) := by
  unfold htracesAreEquivalent
  rw [if_neg (by simpa using hsize)]
  cases cls with
  | mergedBitmap =>
    refine (cachedBitmap_answers xxh64 conf hinj hh₁).bind ?_
    rw [hsize]
    exact (cachedBitmap_answers xxh64 conf hinj hh₂).bind (Answers.pure _)
  | sets => exact Answers.pure _

theorem inequivalent_iff {h₁ h₂ : HTrace} (hh₁ : S h₁) (hh₂ : S h₂)
    (hsize : h₁.sampleSize = h₂.sampleSize) :
    Inequivalent xxh64 conf cls h₁ h₂ ↔ equivalentTraces conf cls h₁ h₂ = false := by
  obtain ⟨cache, -, hrun⟩ := htracesAreEquivalent_answers xxh64 conf cls hinj hh₁ hh₂ hsize []
    (cacheSound_nil xxh64 conf S)
  rw [Inequivalent, StateT.run'_eq, hrun]
  simp

end Cache

/-- The bundles the packaging loop makes of the kept measurements. -/
def bundlesFrom : Nat → List (Measurement ι) → List (TraceBundle ι)
  | _, [] => []
  | i, m :: ms =>
    if m.valid then ⟨i, m.input, m.ctrace, m.htrace⟩ :: bundlesFrom (i + 1) ms
    else bundlesFrom (i + 1) ms

theorem packMeasurements_eq (i : Nat) (ms : List (Measurement ι)) :
    packMeasurements i (ms.map Measurement.input) (ms.map Measurement.ctrace)
      (ms.map Measurement.htrace) = some (bundlesFrom i ms) := by
  induction ms generalizing i with
  | nil => rfl
  | cons m ms ih =>
    simp only [List.map_cons, packMeasurements, bundlesFrom, ih]
    by_cases hv : m.htrace.isEmpty || m.htrace.isCorruptedOrIgnored
    · simp [hv, Measurement.valid]
    · simp [hv, Measurement.valid]

/-- The bundles are the kept measurements in their order. -/
theorem bundlesFrom_measurement (i : Nat) (ms : List (Measurement ι)) :
    (bundlesFrom i ms).map TraceBundle.measurement = ms.filter Measurement.valid := by
  induction ms generalizing i with
  | nil => rfl
  | cons m ms ih =>
    unfold bundlesFrom
    by_cases hv : m.valid
    · simp [hv, ih, TraceBundle.measurement]
    · simp [hv, ih]

/-- The bundles with contract trace `c` are the kept measurements of that trace. -/
theorem filter_bundlesFrom (c : CTrace) (ms : List (Measurement ι)) :
    ((bundlesFrom 0 ms).filter fun b => b.ctrace.digest xxh64 = c.digest xxh64).map
        TraceBundle.measurement = ms.filter (inClass xxh64 c) := by
  have hcomp : (fun b : TraceBundle ι => decide (b.ctrace.digest xxh64 = c.digest xxh64)) =
      (fun m : Measurement ι => decide (m.ctrace.digest xxh64 = c.digest xxh64)) ∘
        TraceBundle.measurement := rfl
  rw [hcomp, ← List.filter_map, bundlesFrom_measurement, List.filter_filter]
  congr 1
  funext m
  by_cases h : m.ctrace.digest xxh64 = c.digest xxh64 <;> simp [inClass, h]

/-- The measurements come from the traces of `S`, the kept ones have one sample size, and
`hash` tells their contract traces apart. -/
structure Measured (S : HTrace → Prop) (ms : List (Measurement ι)) : Prop where
  mem : ∀ m ∈ ms, S m.htrace
  ctrace : ∀ m ∈ ms, ∀ m' ∈ ms, m.ctrace.hash xxh64 = m'.ctrace.hash xxh64 →
    m.ctrace.digest xxh64 = m'.ctrace.digest xxh64
  size : ∀ m ∈ ms, ∀ m' ∈ ms, m.valid = true → m'.valid = true →
    m.htrace.sampleSize = m'.htrace.sampleSize

theorem Measured.perm {S : HTrace → Prop} {ms ms' : List (Measurement ι)} (h : Measured xxh64 S ms)
    (hp : ms'.Perm ms) : Measured xxh64 S ms' :=
  ⟨fun m hm => h.mem m (hp.mem_iff.mp hm),
    fun m hm m' hm' => h.ctrace m (hp.mem_iff.mp hm) m' (hp.mem_iff.mp hm'),
    fun m hm m' hm' => h.size m (hp.mem_iff.mp hm) m' (hp.mem_iff.mp hm')⟩

theorem mem_bundlesFrom {i : Nat} {ms : List (Measurement ι)} {b : TraceBundle ι}
    (hb : b ∈ bundlesFrom i ms) : b.measurement ∈ ms ∧ b.measurement.valid = true := by
  have hmem : b.measurement ∈ (bundlesFrom i ms).map TraceBundle.measurement :=
    List.mem_map.mpr ⟨b, hb, rfl⟩
  rw [bundlesFrom_measurement] at hmem
  exact List.mem_filter.mp hmem

/-- The violation `filter_violations` makes of a contract class, if it makes one. -/
def violationOf (testCaseCode : τ) (inputs : List ι) (eqClass : ContractEqClass ι) :
    Option (Violation ι τ) :=
  let groups := greedyGroups (bundleRel (equivalentTraces conf cls)) eqClass.measurements
  if 2 ≤ groups.length then
    some (Violation.fromContractEqClass eqClass (hwClassesOf groups) inputs testCaseCode)
  else none

/-- The violations of the contract classes `cs`, in the order of their traces. -/
def violationsOf (testCaseCode : τ) (inputs : List ι) (cs : List (ContractEqClass ι)) :
    List (Violation ι τ) :=
  (((cs.filter fun c => 2 ≤ c.measurements.length).insertionSort
    fun x y => x.ctrace.digest xxh64 ≤ y.ctrace.digest xxh64).map
      (violationOf conf cls testCaseCode inputs)).filterMap id

/-- The two conditions under which a contract class is reported. -/
def Diverges (ms : List (TraceBundle ι)) : Prop :=
  2 ≤ ms.length ∧ 2 ≤ (greedyGroups (bundleRel (equivalentTraces conf cls)) ms).length

theorem reports_violationsOf (testCaseCode : τ) (inputs : List ι)
    (cs : List (ContractEqClass ι)) (c : CTrace) :
    Reports xxh64 (violationsOf xxh64 conf cls testCaseCode inputs cs) c ↔
      ∃ cl ∈ cs, cl.ctrace.digest xxh64 = c.digest xxh64 ∧ Diverges conf cls cl.measurements := by
  unfold Reports violationsOf
  simp only [List.mem_filterMap, List.mem_map, List.mem_insertionSort, List.mem_filter, id]
  constructor
  · rintro ⟨v, ⟨-, ⟨cl, ⟨hcl, hlen⟩, rfl⟩, hv⟩, hdigest⟩
    simp only [violationOf, Option.ite_none_right_eq_some, Option.some.injEq] at hv
    obtain ⟨hgroups, rfl⟩ := hv
    exact ⟨cl, hcl, hdigest, by simpa using hlen, hgroups⟩
  · rintro ⟨cl, hcl, hdigest, hlen, hgroups⟩
    have hv : violationOf conf cls testCaseCode inputs cl = some _ := if_pos hgroups
    exact ⟨_, ⟨_, ⟨cl, ⟨hcl, by simpa using hlen⟩, rfl⟩, hv⟩, hdigest⟩

/-- A class diverges exactly when its first measurement is inequivalent to a later one. -/
theorem diverges_iff {b : TraceBundle ι} {bs : List (TraceBundle ι)} :
    Diverges conf cls (b :: bs) ↔
      ∃ b' ∈ bs, equivalentTraces conf cls b'.htrace b.htrace = false := by
  have hrefl : bundleRel (equivalentTraces conf cls) b b = true :=
    equivalentTraces_of_getRawTraces conf cls rfl
  unfold Diverges
  rw [two_le_greedyGroups _ bs hrefl]
  constructor
  · rintro ⟨-, b', hb', hne⟩
    rcases List.mem_cons.mp hb' with rfl | hb'
    · rw [hrefl] at hne
      exact absurd hne (by simp)
    · exact ⟨b', hb', hne⟩
  · rintro ⟨b', hb', hne⟩
    have hpos := List.length_pos_of_mem hb'
    exact ⟨by rw [List.length_cons]; omega, b', List.mem_cons_of_mem _ hb', hne⟩

theorem pairViolates_perm {ms ms' : List (Measurement ι)} (hp : ms'.Perm ms) (c : CTrace) :
    PairViolates xxh64 conf cls ms' c ↔ PairViolates xxh64 conf cls ms c := by
  simp only [PairViolates, hp.mem_iff]

section Detect

variable {S : HTrace → Prop} (hinj : HashInjective xxh64 S)
include hinj

theorem classViolation_answers {ms : List (Measurement ι)} (hms : Measured xxh64 S ms)
    (testCaseCode : τ) (inputs : List ι) {eqClass : ContractEqClass ι}
    (hcls : ∀ b ∈ eqClass.measurements, b ∈ bundlesFrom 0 ms) :
    Answers (CacheSound xxh64 conf S) (classViolation xxh64 conf cls inputs testCaseCode eqClass)
      (violationOf conf cls testCaseCode inputs eqClass) := by
  have hS : ∀ b ∈ eqClass.measurements, S b.htrace := fun b hb =>
    hms.mem _ (mem_bundlesFrom (hcls b hb)).1
  have hsize : ∀ a ∈ eqClass.measurements, ∀ b ∈ eqClass.measurements,
      a.htrace.sampleSize = b.htrace.sampleSize := by
    intro a ha b hb
    obtain ⟨ham, hav⟩ := mem_bundlesFrom (hcls a ha)
    obtain ⟨hbm, hbv⟩ := mem_bundlesFrom (hcls b hb)
    exact hms.size _ ham _ hbm hav hbv
  have hclasses := buildHwClasses_answers xxh64
    (fun a ha b hb =>
      htracesAreEquivalent_answers xxh64 conf cls hinj (hS a ha) (hS b hb) (hsize a ha b hb))
    (fun a ha b hb he =>
      equivalentTraces_of_getRawTraces conf cls (hinj _ _ (hS a ha) (hS b hb) he))
  refine hclasses.bind ?_
  simp only [violationOf, hwClassesOf, List.length_map]
  split
  · exact Answers.pure _
  · exact Answers.pure _

/-- What `filter_violations` answers from any sound cache: it reports the contract traces
whose first kept measurement is inequivalent to another one of its class. -/
theorem filterViolationsOf_answers {ms : List (Measurement ι)} (hms : Measured xxh64 S ms)
    (testCaseCode : τ) :
    ∃ vs : List (Violation ι τ),
      Answers (CacheSound xxh64 conf S) (filterViolationsOf xxh64 conf cls testCaseCode ms) vs ∧
      ∀ c, Reports xxh64 vs c ↔ ∃ m rest, ms.filter (inClass xxh64 c) = m :: rest ∧
        ∃ m' ∈ rest, equivalentTraces conf cls m'.htrace m.htrace = false := by
  -- both early returns happen without any kept measurement
  have hnone : bundlesFrom 0 ms = [] → ∀ c, Reports xxh64 ([] : List (Violation ι τ)) c ↔
      ∃ m rest, ms.filter (inClass xxh64 c) = m :: rest ∧
        ∃ m' ∈ rest, equivalentTraces conf cls m'.htrace m.htrace = false := by
    intro hb c
    have hfil := filter_bundlesFrom xxh64 c ms
    rw [hb] at hfil
    simp [Reports, ← hfil]
  unfold filterViolationsOf filterViolations
  by_cases hms0 : ms = []
  · subst hms0
    exact ⟨[], Answers.pure _, hnone rfl⟩
  have hne : (ms.map Measurement.htrace).isEmpty = false := by simpa using hms0
  rw [hne, packMeasurements_eq]
  by_cases hb : bundlesFrom 0 ms = []
  · exact ⟨[], (Answers.lift _).bind (by rw [hb]; exact Answers.pure _), hnone hb⟩
  have hbne : (bundlesFrom 0 ms).isEmpty = false := by simpa using hb
  have hct : CHashInjective xxh64 (bundlesFrom 0 ms) := fun a ha b hb =>
    hms.ctrace _ (mem_bundlesFrom ha).1 _ (mem_bundlesFrom hb).1
  obtain ⟨cs, hcs, hmem⟩ := buildContractClasses_spec xxh64 hct
  have hcls : ∀ c ∈ cs, ∀ b ∈ c.measurements, b ∈ bundlesFrom 0 ms := by
    intro c hc b hbm
    obtain ⟨m, rest, hfil, rfl⟩ := (hmem c).mp hc
    have : b ∈ sameCTrace xxh64 (bundlesFrom 0 ms) m := by
      rw [hfil]; exact hbm
    exact (List.mem_filter.mp this).1
  refine ⟨violationsOf xxh64 conf cls testCaseCode (ms.map Measurement.input) cs,
    (Answers.lift _).bind ?_, ?_⟩
  · simp only [hbne, Bool.false_eq_true, if_false, hcs]
    refine (Answers.lift _).bind ((Answers.mapM ?_).bind (Answers.pure _))
    intro c hc
    rw [List.mem_insertionSort, List.mem_filter] at hc
    exact classViolation_answers xxh64 conf cls hinj hms testCaseCode _ (hcls c hc.1)
  · intro c
    rw [reports_violationsOf]
    constructor
    · rintro ⟨cl, hcl, hdigest, hdiv⟩
      obtain ⟨b, rest, hfil, rfl⟩ := (hmem cl).mp hcl
      rw [diverges_iff] at hdiv
      obtain ⟨b', hb', hne'⟩ := hdiv
      refine ⟨b.measurement, rest.map TraceBundle.measurement, ?_, b'.measurement,
        List.mem_map.mpr ⟨b', hb', rfl⟩, hne'⟩
      simp only [sameCTrace] at hfil
      rw [← filter_bundlesFrom, ← hdigest, hfil]
      rfl
    · rintro ⟨m, rest, hfil, m', hm', hne'⟩
      rw [← filter_bundlesFrom] at hfil
      obtain ⟨b, brest, hbs, rfl, rfl⟩ := List.map_eq_cons_iff.mp hfil
      obtain ⟨b', hb', rfl⟩ := List.mem_map.mp hm'
      have hdigest : b.ctrace.digest xxh64 = c.digest xxh64 := by
        have : b ∈ (bundlesFrom 0 ms).filter fun x => x.ctrace.digest xxh64 = c.digest xxh64 := by
          simp [hbs]
        simpa using (List.mem_filter.mp this).2
      refine ⟨⟨b.ctrace, b :: brest⟩, (hmem _).mpr ⟨b, brest, ?_, rfl⟩, hdigest, ?_⟩
      · rw [sameCTrace, hdigest]; exact hbs
      · exact (diverges_iff conf cls).mpr ⟨b', hb', hne'⟩

theorem inequivalent_of_inClass {ms : List (Measurement ι)} (hms : Measured xxh64 S ms) {c : CTrace}
    {m m' : Measurement ι} (hm : m ∈ ms) (hc : inClass xxh64 c m = true) (hm' : m' ∈ ms)
    (hc' : inClass xxh64 c m' = true) :
    Inequivalent xxh64 conf cls m.htrace m'.htrace ↔
      equivalentTraces conf cls m.htrace m'.htrace = false := by
  have hv : m.valid = true := (Bool.and_eq_true_iff.mp hc).1
  have hv' : m'.valid = true := (Bool.and_eq_true_iff.mp hc').1
  exact inequivalent_iff xxh64 conf cls hinj (hms.mem m hm) (hms.mem m' hm')
    (hms.size m hm m' hm' hv hv')

/-- The analyser agrees with the documented definition on `ms` exactly when the first
measurement of every violating class takes part in a violation. -/
theorem detectsExactly_iff {ms : List (Measurement ι)} (hms : Measured xxh64 S ms)
    {cache : BitmapCache} (hcache : CacheSound xxh64 conf S cache) (testCaseCode : τ) :
    DetectsExactly xxh64 conf cls cache testCaseCode ms ↔
      ∀ c, PairViolates xxh64 conf cls ms c → FirstDiverges xxh64 conf cls ms c := by
  obtain ⟨vs, hans, hreports⟩ :=
    filterViolationsOf_answers xxh64 conf cls hinj hms testCaseCode
  have hfirst : ∀ c, Reports xxh64 vs c ↔ FirstDiverges xxh64 conf cls ms c := by
    intro c
    rw [hreports]
    constructor
    · rintro ⟨m, rest, hfil, m', hm', hne⟩
      have hm := List.mem_filter.mp (hfil ▸ List.mem_cons_self : m ∈ ms.filter (inClass xxh64 c))
      have hm'' := List.mem_filter.mp
        (hfil ▸ List.mem_cons_of_mem _ hm' : m' ∈ ms.filter (inClass xxh64 c))
      refine ⟨m, by rw [hfil]; rfl, m', hm''.1, hm''.2, ?_⟩
      exact (inequivalent_of_inClass xxh64 conf cls hinj hms hm''.1 hm''.2 hm.1 hm.2).mpr hne
    · rintro ⟨m, hhead, m', hm', hc', hne⟩
      obtain ⟨rest, hfil⟩ := List.head?_eq_some_iff.mp hhead
      have hm := List.mem_filter.mp (hfil ▸ List.mem_cons_self : m ∈ ms.filter (inClass xxh64 c))
      have hne' := (inequivalent_of_inClass xxh64 conf cls hinj hms hm' hc' hm.1 hm.2).mp hne
      have hmem : m' ∈ m :: rest := hfil ▸ List.mem_filter.mpr ⟨hm', hc'⟩
      rcases List.mem_cons.mp hmem with rfl | hmem
      · rw [equivalentTraces_of_getRawTraces conf cls rfl] at hne'
        exact absurd hne' (by simp)
      · exact ⟨m, rest, hfil, m', hmem, hne'⟩
  obtain ⟨cache', -, hrun⟩ := hans cache hcache
  constructor
  · rintro ⟨vs', cache'', hrun', hdet⟩ c hpair
    rw [hrun] at hrun'
    obtain ⟨rfl, -⟩ := Prod.mk.inj (Option.some.inj hrun')
    exact (hfirst c).mp ((hdet c).mpr hpair)
  · intro h
    refine ⟨vs, cache', hrun, ?_⟩
    intro c
    rw [hfirst]
    refine ⟨?_, h c⟩
    rintro ⟨m, hhead, m', hm', hc', hne⟩
    have hm := List.mem_filter.mp (List.mem_of_mem_head? hhead)
    exact ⟨m', hm', m, hm.1, hc', hm.2, hne⟩

/-- Detection agrees with the documented definition on a list of measurements exactly when
the first kept measurement of every violating contract class takes part in a violation, and
it does so in every order of the measurements exactly when every kept measurement of every
violating class takes part in one. -/
theorem filterViolations_detects_iff {ms : List (Measurement ι)} (hms : Measured xxh64 S ms)
    {cache : BitmapCache} (hcache : CacheSound xxh64 conf S cache) (testCaseCode : τ) :
    (DetectsExactly xxh64 conf cls cache testCaseCode ms ↔
      ∀ c, PairViolates xxh64 conf cls ms c → FirstDiverges xxh64 conf cls ms c) ∧
    ((∀ ms', ms'.Perm ms → DetectsExactly xxh64 conf cls cache testCaseCode ms') ↔
      ∀ c, PairViolates xxh64 conf cls ms c → ∀ m ∈ ms, inClass xxh64 c m = true →
        HasInequivalent xxh64 conf cls ms c m) := by
  refine ⟨detectsExactly_iff xxh64 conf cls hinj hms hcache testCaseCode, ?_⟩
  constructor
  · intro h c hpair m hm hc
    obtain ⟨l₁, l₂, rfl⟩ := List.append_of_mem hm
    have hp : (m :: (l₁ ++ l₂)).Perm (l₁ ++ m :: l₂) := List.perm_middle.symm
    have hdet := (detectsExactly_iff xxh64 conf cls hinj (hms.perm xxh64 hp) hcache testCaseCode).mp
      (h _ hp) c ((pairViolates_perm xxh64 conf cls hp c).mpr hpair)
    obtain ⟨m₁, hhead, m', hm', hrest⟩ := hdet
    have hm₁ : m₁ = m := by simpa [hc, eq_comm] using hhead
    subst hm₁
    exact ⟨m', hp.mem_iff.mp hm', hrest⟩
  · intro h ms' hp
    rw [detectsExactly_iff xxh64 conf cls hinj (hms.perm xxh64 hp) hcache testCaseCode]
    intro c hpair
    have hpair' := (pairViolates_perm xxh64 conf cls hp c).mp hpair
    obtain ⟨m₀, hm₀, -, -, hc₀, -⟩ := hpair
    have hne : ms'.filter (inClass xxh64 c) ≠ [] :=
      List.ne_nil_of_mem (List.mem_filter.mpr ⟨hm₀, hc₀⟩)
    obtain ⟨m, rest, hfil⟩ := List.exists_cons_of_ne_nil hne
    have hm := List.mem_filter.mp (hfil ▸ List.mem_cons_self : m ∈ ms'.filter (inClass xxh64 c))
    obtain ⟨m', hm', hrest⟩ := h c hpair' m (hp.mem_iff.mp hm.1) hm.2
    exact ⟨m, by rw [hfil]; rfl, m', hp.mem_iff.mpr hm', hrest⟩

end Detect

section Example

/-- The digests `xxhash.xxh64` gives for the printed traces below. -/
def sampleXxh64 (t : Text) : Nat :=
  let printed (n : Nat) : Text := '[' :: strNat n ++ [']']
  (([(printed 0, 8901456161705147630), (printed 9223372036854775811, 14765799392269186990),
    (printed 9223372036854775809, 3194596467862098825),
    (printed 9223372036854775810, 15105602795429664075)] : List (Text × Nat)).lookup t).getD 0

/-- Subsets are tolerated, the outlier threshold is a tenth. -/
def sampleConf : Conf := ⟨false, fun n => n / 10⟩

/-- One sample with the validity bit and the cache lines `lines`. -/
def sampleHTrace (lines : UInt64) : HTrace := ⟨[⟨0x8000000000000000 ||| lines, 0, 0, 0, 0, 0⟩]⟩

def sampleMeasurement (lines : UInt64) : Measurement Unit :=
  ⟨(), ⟨[⟨.pc, 0⟩]⟩, sampleHTrace lines⟩

/-- The three hardware traces of the example. -/
def SampleHTraces (h : HTrace) : Prop := h ∈ [3, 1, 2].map sampleHTrace

theorem sample_hashInjective : HashInjective sampleXxh64 SampleHTraces := by
  have h : ∀ h₁ ∈ [3, 1, 2].map sampleHTrace, ∀ h₂ ∈ [3, 1, 2].map sampleHTrace,
      h₁.hash sampleXxh64 = h₂.hash sampleXxh64 → h₁.getRawTraces = h₂.getRawTraces := by
    decide +kernel
  exact fun h₁ h₂ hh₁ hh₂ => h h₁ hh₁ h₂ hh₂

theorem sample_measured : Measured sampleXxh64 SampleHTraces ([3, 1, 2].map sampleMeasurement) := by
  refine ⟨?_, ?_, ?_⟩
  · unfold SampleHTraces
    decide +kernel
  · intro m hm m' hm' _
    simp only [List.map_cons, List.map_nil, List.mem_cons, List.not_mem_nil, or_false] at hm hm'
    rcases hm with rfl | rfl | rfl <;> rcases hm' with rfl | rfl | rfl <;> rfl
  · intro m hm m' hm' _ _
    simp only [List.map_cons, List.map_nil, List.mem_cons, List.not_mem_nil, or_false] at hm hm'
    rcases hm with rfl | rfl | rfl <;> rcases hm' with rfl | rfl | rfl <;> rfl

/-- Cache lines {0}, {1} are inequivalent, but both are equivalent to {0, 1}, which comes first:
nothing is reported. -/
theorem filterViolations_misses_pair :
    HashInjective sampleXxh64 SampleHTraces ∧
      Measured sampleXxh64 SampleHTraces ([3, 1, 2].map sampleMeasurement) ∧
      ¬ DetectsExactly sampleXxh64 sampleConf .mergedBitmap [] ()
        ([3, 1, 2].map sampleMeasurement) := by
  refine ⟨sample_hashInjective, sample_measured, ?_⟩
  rw [detectsExactly_iff _ _ _ sample_hashInjective sample_measured (cacheSound_nil _ _ _)]
  intro h
  obtain ⟨m, hhead, m', hm', -, hne⟩ := h ⟨[⟨.pc, 0⟩]⟩
    ⟨sampleMeasurement 1, by simp, sampleMeasurement 2, by simp, by decide +kernel,
      by decide +kernel, by decide +kernel⟩
  have hm : m = sampleMeasurement 3 := by
    have hc : inClass sampleXxh64 ⟨[⟨.pc, 0⟩]⟩ (sampleMeasurement 3) = true := by decide +kernel
    rw [List.map_cons, List.filter_cons_of_pos hc] at hhead
    exact (Option.some.inj hhead).symm
  subst hm
  -- the first measurement is equivalent to each of the three
  have heq : ∀ lines ∈ [3, 1, 2], ¬ Inequivalent sampleXxh64 sampleConf .mergedBitmap
      (sampleHTrace lines) (sampleHTrace 3) := by
    simp only [List.forall_mem_cons, List.not_mem_nil, false_implies, implies_true, and_true]
    decide +kernel
  obtain ⟨lines, hlines, rfl⟩ := List.mem_map.mp hm'
  exact heq lines hlines hne

/-- Without the first measurement the pair is found, and it is found in every order. -/
theorem filterViolations_detects_pair :
    Measured sampleXxh64 SampleHTraces ([1, 2].map sampleMeasurement) ∧
    ((DetectsExactly sampleXxh64 sampleConf .mergedBitmap [] () ([1, 2].map sampleMeasurement) ↔
      ∀ c, PairViolates sampleXxh64 sampleConf .mergedBitmap ([1, 2].map sampleMeasurement) c →
        FirstDiverges sampleXxh64 sampleConf .mergedBitmap ([1, 2].map sampleMeasurement) c) ∧
    ((∀ ms', ms'.Perm ([1, 2].map sampleMeasurement) →
        DetectsExactly sampleXxh64 sampleConf .mergedBitmap [] () ms') ↔
      ∀ c, PairViolates sampleXxh64 sampleConf .mergedBitmap ([1, 2].map sampleMeasurement) c →
        ∀ m ∈ [1, 2].map sampleMeasurement, inClass sampleXxh64 c m = true →
          HasInequivalent sampleXxh64 sampleConf .mergedBitmap ([1, 2].map sampleMeasurement)
            c m)) := by
  have hsub : ∀ m ∈ [1, 2].map sampleMeasurement, m ∈ [3, 1, 2].map sampleMeasurement :=
    fun m hm => List.mem_cons_of_mem _ hm
  have hms : Measured sampleXxh64 SampleHTraces ([1, 2].map sampleMeasurement) :=
    ⟨fun m hm => sample_measured.mem m (hsub m hm),
      fun m hm m' hm' => sample_measured.ctrace m (hsub m hm) m' (hsub m' hm'),
      fun m hm m' hm' => sample_measured.size m (hsub m hm) m' (hsub m' hm')⟩
  exact ⟨hms, filterViolations_detects_iff _ _ _ sample_hashInjective hms
    (cacheSound_nil _ _ _) ()⟩

end Example

end Rvzr.Analyser
