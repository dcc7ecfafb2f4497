import Rvzr.Analyser.HwClasses
import Rvzr.Fuzzer.Round

/-!
# The analyser of a round

`filter_violations` of the equivalence-class analysers as the analyser that a round asks:
a violation holds the inputs of the call, and only inputs with a usable trace
(`equivalenceAnalyser`).
-/

namespace Rvzr.Fuzzer

open Rvzr.Lib Rvzr.Analyser

variable (xxh64 : Text → Nat) (conf : Analyser.Conf) (cls : AnalyserCls) {ι τ : Type}

/-- The packed measurements are the usable traces, under their index. -/
theorem mem_packMeasurements {i : Nat} {inputs : List ι} {cs : List CTrace} {hs : List HTrace}
    {ms : List (TraceBundle ι)} (h : packMeasurements i inputs cs hs = some ms)
    {m : TraceBundle ι} (hm : m ∈ ms) :
    ∃ k, m.inputId = i + k ∧ hs[k]? = some m.htrace ∧ m.htrace.isEmpty = false ∧
      m.htrace.isCorruptedOrIgnored = false := by
  induction hs generalizing i inputs cs ms with
  | nil =>
    simp only [packMeasurements, Option.some.injEq] at h
    subst h
    exact absurd hm (by simp)
  | cons h₀ hs ih =>
    -- a measurement of the rest is one index further
    have hrest : ∀ {inputs cs ms}, packMeasurements (i + 1) inputs cs hs = some ms → m ∈ ms →
        ∃ k, m.inputId = i + k ∧ (h₀ :: hs)[k]? = some m.htrace ∧ m.htrace.isEmpty = false ∧
          m.htrace.isCorruptedOrIgnored = false := by
      intro inputs cs ms hp hm
      obtain ⟨k, hk, hget, husable⟩ := ih hp hm
      exact ⟨k + 1, by omega, by simpa using hget, husable⟩
    unfold packMeasurements at h
    split at h
    · exact absurd ‹h₀ :: hs = []› (by simp)
    · rename_i heq
      obtain ⟨rfl, rfl⟩ := List.cons.inj heq
      split at h
      · exact hrest h hm
      · rename_i huse
        obtain ⟨ms', hp, rfl⟩ := Option.map_eq_some_iff.mp h
        rcases List.mem_cons.mp hm with rfl | hm
        · rw [Bool.or_eq_true, not_or, Bool.not_eq_true, Bool.not_eq_true] at huse
          exact ⟨0, rfl, rfl, huse⟩
        · exact hrest hp hm
    · rename_i heq
      obtain ⟨rfl, rfl⟩ := List.cons.inj heq
      split at h
      · exact hrest h hm
      · exact absurd h (by simp)

/-- The classes are made of the measurements. -/
theorem mem_buildContractClasses {ms : List (TraceBundle ι)} {cs : List (ContractEqClass ι)}
    (h : buildContractClasses xxh64 ms = some cs) {c : ContractEqClass ι} (hc : c ∈ cs)
    {m : TraceBundle ι} (hm : m ∈ c.measurements) : m ∈ ms := by
  obtain ⟨group, hgroup, hof⟩ := mapM_option_mem h hc
  have hsame : c.measurements = group := by
    cases group with
    | nil => exact absurd hof (by simp [ContractEqClass.ofGroup])
    | cons b bs =>
      simp only [ContractEqClass.ofGroup, Option.ite_none_right_eq_some, Option.some.injEq] at hof
      rw [← hof.2]
  obtain ⟨⟨k, g⟩, hmem, rfl⟩ := List.mem_map.mp hgroup
  have hfilter := ((groupByKey_groupsOf (fun m : TraceBundle ι => m.ctrace.hash xxh64) ms k _).mp
    hmem).2
  rw [hsame, hfilter] at hm
  exact (List.mem_filter.mp hm).1

/-- A violation of the answer comes from packed measurements of the call. -/
theorem filterViolations_mem {cs : List CTrace} {hs : List HTrace} {code : τ} {inputs : List ι}
    {st st' : BitmapCache} {vs : List (Violation ι τ)}
    (h : (filterViolations xxh64 conf cls cs hs code inputs).run st = some (vs, st'))
    {v : Violation ι τ} (hv : v ∈ vs) :
    v.inputSequence = inputs ∧ ∃ ms, packMeasurements 0 inputs cs hs = some ms ∧
      ∀ m ∈ v.measurements, m ∈ ms := by
  unfold filterViolations at h
  split at h
  · obtain ⟨rfl, -⟩ := Prod.mk.inj (Option.some.inj h)
    exact absurd hv (by simp)
  · obtain ⟨ms, st₁, hms, h⟩ := run_bind_some h
    obtain ⟨hpack, rfl⟩ := run_lift_some hms
    split at h
    · obtain ⟨rfl, -⟩ := Prod.mk.inj (Option.some.inj h)
      exact absurd hv (by simp)
    · obtain ⟨classes, st₂, hcls, h⟩ := run_bind_some h
      obtain ⟨hbuild, rfl⟩ := run_lift_some hcls
      obtain ⟨answers, st₃, hans, h⟩ := run_bind_some h
      obtain ⟨rfl, -⟩ := Prod.mk.inj (Option.some.inj h)
      have hmem : some v ∈ answers := by simpa using hv
      obtain ⟨c, hc, s, s', hrun⟩ := mapM_stateT_mem hans hmem
      have hcmem : c ∈ classes := (List.mem_filter.mp ((List.mem_insertionSort _).mp hc)).1
      obtain ⟨hw, s₁, -, hrun⟩ := run_bind_some hrun
      split at hrun
      · obtain ⟨hveq, -⟩ := Prod.mk.inj (Option.some.inj hrun)
        have hveq := Option.some.inj hveq
        subst hveq
        exact ⟨rfl, ms, hpack, fun m hm => mem_buildContractClasses xxh64 hbuild hcmem hm⟩
      · exact absurd (Prod.mk.inj (Option.some.inj hrun)).1 (by simp)

/-- The equivalence-class analysers. -/
def equivalenceAnalyser : AnalyserOf ι τ BitmapCache where
  filterViolations := filterViolations xxh64 conf cls
  htracesAreEquivalent := Analyser.htracesAreEquivalent xxh64 conf cls
  inputSequence_eq h v hv := (filterViolations_mem xxh64 conf cls h hv).1
  measured h v hv m hm := by
    obtain ⟨-, ms, hpack, hmem⟩ := filterViolations_mem xxh64 conf cls h hv
    obtain ⟨k, hk, hget, husable⟩ := mem_packMeasurements hpack (hmem m hm)
    rw [Nat.zero_add] at hk
    exact ⟨m.htrace, hk ▸ hget, husable⟩

end Rvzr.Fuzzer
