import Rvzr.Lib.Answers
import Rvzr.Analyser.FilterViolations

/-!
# What the class builders compute

`build_hw_classes` keeps its groups in a dictionary keyed by trace hashes and asks the
analyser for every comparison. As long as the analyser's answers do not depend on its cache,
and traces with one hash are equivalent, the dictionary is the greedy split of the
measurements (`buildHwClasses_answers`).
-/

namespace Rvzr.Analyser

open Rvzr.Lib

variable (xxh64 : Text → Nat) {ι : Type} {P : BitmapCache → Prop}

/-- The dictionary of `build_hw_classes` for the groups `gs`. -/
def hwGroupsOf (gs : List (Cluster (TraceBundle ι))) : Dict Nat (List (TraceBundle ι)) :=
  gs.map fun g => (g.rep.htrace.hash xxh64, g.members)

/-- The list `diverging_htraces` for the groups `gs`. -/
def divergingOf (gs : List (Cluster (TraceBundle ι))) : List HTrace := gs.map fun g => g.rep.htrace

/-- Equivalence of measurements through their hardware traces. -/
def bundleRel (rel : HTrace → HTrace → Bool) (m m' : TraceBundle ι) : Bool :=
  rel m.htrace m'.htrace

/-- The hardware classes of the greedy split. -/
def hwClassesOf (gs : List (Cluster (TraceBundle ι))) : List (HardwareEqClass ι) :=
  gs.map fun g => ⟨g.rep.htrace, g.members⟩

theorem findEquivalent_answers {ef : HTrace → HTrace → AnalyserM Bool}
    {rel : HTrace → HTrace → Bool} {h : HTrace} :
    ∀ {hs : List HTrace}, (∀ h' ∈ hs, Answers P (ef h h') (rel h h')) →
      Answers P (findEquivalent ef h hs) (hs.find? (rel h))
  | [], _ => Answers.pure _
  | h' :: hs, hef => by
    unfold findEquivalent
    refine (hef h' (by simp)).bind ?_
    rw [List.find?_cons]
    cases hr : rel h h' with
    | true => exact Answers.pure _
    | false => exact findEquivalent_answers fun x hx => hef x (List.mem_cons_of_mem _ hx)

/-- What the loop of `build_hw_classes` maintains: later representatives were not equivalent
to earlier ones, all of them come from the measurements `ms`, and every group starts with its
representative. -/
structure HwGroupsOk (rel : HTrace → HTrace → Bool) (ms : List (TraceBundle ι))
    (gs : List (Cluster (TraceBundle ι))) : Prop where
  pairwise : (gs.map Cluster.rep).Pairwise fun a b => bundleRel rel b a = false
  reps_mem : ∀ g ∈ gs, g.rep ∈ ms
  head : ∀ g ∈ gs, ∃ rest, g.members = g.rep :: rest

theorem HwGroupsOk.step {rel : HTrace → HTrace → Bool} {ms : List (TraceBundle ι)}
    {gs : List (Cluster (TraceBundle ι))} (h : HwGroupsOk rel ms gs) {m : TraceBundle ι}
    (hm : m ∈ ms) : HwGroupsOk rel ms (greedyStep (bundleRel rel) gs m) := by
  refine ⟨greedyStep_pairwise _ m h.pairwise, ?_, ?_⟩
  · intro g hg
    rcases greedyStep_mem _ hg with hg | ⟨g', hg', -, rfl⟩ | rfl
    · exact h.reps_mem g hg
    · exact h.reps_mem g' hg'
    · exact hm
  · intro g hg
    rcases greedyStep_mem _ hg with hg | ⟨g', hg', -, rfl⟩ | rfl
    · exact h.head g hg
    · obtain ⟨rest, he⟩ := h.head g' hg'
      exact ⟨rest ++ [m], by simp [he]⟩
    · exact ⟨[], rfl⟩

/-- Distinct groups have distinct hashes: equal hashes make representatives equivalent. -/
theorem HwGroupsOk.hash_ne {rel : HTrace → HTrace → Bool} {ms : List (TraceBundle ι)}
    {gs : List (Cluster (TraceBundle ι))} (h : HwGroupsOk rel ms gs)
    (hhash : ∀ a ∈ ms, ∀ b ∈ ms, a.htrace.hash xxh64 = b.htrace.hash xxh64 →
      rel a.htrace b.htrace = true) :
    gs.Pairwise fun a b => a.rep.htrace.hash xxh64 ≠ b.rep.htrace.hash xxh64 := by
  have hp := List.pairwise_map.mp h.pairwise
  refine hp.imp_of_mem ?_
  intro a b ha hb hne he
  have := hhash b.rep (h.reps_mem b hb) a.rep (h.reps_mem a ha) he.symm
  rw [bundleRel, this] at hne
  exact absurd hne (by simp)

/-- Appending at the hash of the first equivalent representative is the greedy step. -/
theorem push_hwGroupsOf {rel : HTrace → HTrace → Bool} {m : TraceBundle ι} {other : HTrace} :
    ∀ {gs : List (Cluster (TraceBundle ι))},
      (gs.Pairwise fun a b => a.rep.htrace.hash xxh64 ≠ b.rep.htrace.hash xxh64) →
      (divergingOf gs).find? (rel m.htrace) = some other →
      (hwGroupsOf xxh64 gs).push (other.hash xxh64) m =
        hwGroupsOf xxh64 (greedyStep (bundleRel rel) gs m)
  | [], _, hf => by simp [divergingOf] at hf
  | g :: gs, hne, hf => by
    rw [List.pairwise_cons] at hne
    unfold greedyStep
    by_cases hg : rel m.htrace g.rep.htrace = true
    · have ho : other = g.rep.htrace := by simpa [divergingOf, hg, eq_comm] using hf
      subst ho
      have htail : (hwGroupsOf xxh64 gs).map (fun e =>
          if e.1 = g.rep.htrace.hash xxh64 then (e.1, e.2 ++ [m]) else e) =
            hwGroupsOf xxh64 gs := by
        conv_rhs => rw [← List.map_id (hwGroupsOf xxh64 gs)]
        apply List.map_congr_left
        intro e he
        obtain ⟨g', hg', rfl⟩ := List.mem_map.mp he
        simp [(hne.1 g' hg').symm]
      simp only [bundleRel, hg, if_true]
      simp only [hwGroupsOf, List.map_cons, Dict.push, if_true]
      exact congrArg _ htail
    · have hf' : (divergingOf gs).find? (rel m.htrace) = some other := by
        simpa [divergingOf, hg] using hf
      obtain ⟨g', hg', ho⟩ := List.mem_map.mp (List.mem_of_find?_eq_some hf')
      have hk : g.rep.htrace.hash xxh64 ≠ other.hash xxh64 := ho ▸ hne.1 g' hg'
      have ih := push_hwGroupsOf (m := m) hne.2 hf'
      simp only [bundleRel, hg]
      simp only [hwGroupsOf, List.map_cons, Dict.push, hk, if_false] at ih ⊢
      exact congrArg _ ih

/-- One iteration of the loop is one greedy step. -/
theorem buildHwStep_answers {ef : HTrace → HTrace → AnalyserM Bool}
    {rel : HTrace → HTrace → Bool} {ms : List (TraceBundle ι)}
    (hef : ∀ a ∈ ms, ∀ b ∈ ms, Answers P (ef a.htrace b.htrace) (rel a.htrace b.htrace))
    (hhash : ∀ a ∈ ms, ∀ b ∈ ms, a.htrace.hash xxh64 = b.htrace.hash xxh64 →
      rel a.htrace b.htrace = true)
    {gs : List (Cluster (TraceBundle ι))} (h : HwGroupsOk rel ms gs) {m : TraceBundle ι}
    (hm : m ∈ ms) :
    Answers P (buildHwStep xxh64 ef (hwGroupsOf xxh64 gs, divergingOf gs) m)
      (hwGroupsOf xxh64 (greedyStep (bundleRel rel) gs m),
        divergingOf (greedyStep (bundleRel rel) gs m)) := by
  have hfind : Answers P (findEquivalent ef m.htrace (divergingOf gs))
      ((divergingOf gs).find? (rel m.htrace)) := by
    refine findEquivalent_answers ?_
    intro h' hh'
    obtain ⟨g, hg, rfl⟩ := List.mem_map.mp hh'
    exact hef m hm g.rep (h.reps_mem g hg)
  -- a new group is opened under a hash that is not yet in the dictionary
  have hopen : (∀ g ∈ gs, bundleRel rel m g.rep = false) →
      (hwGroupsOf xxh64 gs).insert (m.htrace.hash xxh64) [m] =
          hwGroupsOf xxh64 (greedyStep (bundleRel rel) gs m) ∧
        divergingOf gs ++ [m.htrace] = divergingOf (greedyStep (bundleRel rel) gs m) := by
    intro hnone
    rw [greedyStep_of_unrelated _ hnone]
    refine ⟨?_, by simp [divergingOf]⟩
    rw [Dict.insert_of_notMem]
    · simp [hwGroupsOf]
    · intro hmem
      obtain ⟨e, he, hk⟩ := List.mem_map.mp hmem
      obtain ⟨g, hg, rfl⟩ := List.mem_map.mp he
      have hrel := hhash m hm g.rep (h.reps_mem g hg) hk.symm
      have hno := hnone g hg
      rw [bundleRel, hrel] at hno
      exact absurd hno (by simp)
  unfold buildHwStep
  cases gs with
  | nil =>
    obtain ⟨h1, h2⟩ := hopen (by simp)
    simp only [divergingOf, List.map_nil, List.isEmpty_nil, if_true] at h2 ⊢
    rw [h1, h2]
    exact Answers.pure _
  | cons g gs =>
    have hne : (divergingOf (g :: gs)).isEmpty = false := by simp [divergingOf]
    simp only [hne, Bool.false_eq_true, if_false]
    refine hfind.bind ?_
    cases hf : (divergingOf (g :: gs)).find? (rel m.htrace) with
    | some other =>
      have hpush := push_hwGroupsOf xxh64 (h.hash_ne xxh64 hhash) hf
      have hreps : divergingOf (greedyStep (bundleRel rel) (g :: gs) m) =
          divergingOf (g :: gs) := by
        obtain ⟨g', hg', ho⟩ := List.mem_map.mp (List.mem_of_find?_eq_some hf)
        have hr := List.find?_some hf
        have hrel : ∃ g' ∈ g :: gs, bundleRel rel m g'.rep = true :=
          ⟨g', hg', by rw [bundleRel, ho]; exact hr⟩
        have := congrArg (List.map TraceBundle.htrace) (greedyStep_reps_of_related _ hrel)
        simpa [divergingOf, Function.comp_def] using this
      rw [← hpush, hreps]
      exact Answers.pure _
    | none =>
      have hnone : ∀ g' ∈ g :: gs, bundleRel rel m g'.rep = false := by
        intro g' hg'
        have := List.find?_eq_none.mp hf g'.rep.htrace (List.mem_map.mpr ⟨g', hg', rfl⟩)
        simpa [bundleRel] using this
      obtain ⟨h1, h2⟩ := hopen hnone
      rw [h1, h2]
      exact Answers.pure _

theorem mapM_ofGroup {gs : List (Cluster (TraceBundle ι))}
    (h : ∀ g ∈ gs, ∃ rest, g.members = g.rep :: rest) :
    (hwGroupsOf xxh64 gs).values.mapM HardwareEqClass.ofGroup = some (hwClassesOf gs) := by
  rw [hwGroupsOf, Dict.values, List.map_map]
  refine mapM_map_some fun g hg => ?_
  obtain ⟨rest, he⟩ := h g hg
  simp [HardwareEqClass.ofGroup, he]

/-- `build_hw_classes` computes the greedy split of the measurements. -/
theorem buildHwClasses_answers {ef : HTrace → HTrace → AnalyserM Bool}
    {rel : HTrace → HTrace → Bool} {ms : List (TraceBundle ι)}
    (hef : ∀ a ∈ ms, ∀ b ∈ ms, Answers P (ef a.htrace b.htrace) (rel a.htrace b.htrace))
    (hhash : ∀ a ∈ ms, ∀ b ∈ ms, a.htrace.hash xxh64 = b.htrace.hash xxh64 →
      rel a.htrace b.htrace = true) :
    Answers P (buildHwClasses xxh64 ef ms) (hwClassesOf (greedyGroups (bundleRel rel) ms)) := by
  have hinit : HwGroupsOk rel ms ([] : List (Cluster (TraceBundle ι))) :=
    ⟨by simp, by simp, by simp⟩
  have hloop := Answers.foldlM (P := P)
    (fun gs : List (Cluster (TraceBundle ι)) => (hwGroupsOf xxh64 gs, divergingOf gs)) hinit
    (fun gs m hm hgs => ⟨hgs.step hm, buildHwStep_answers xxh64 hef hhash hgs hm⟩)
  refine hloop.2.bind ?_
  have hm := mapM_ofGroup xxh64 hloop.1.head
  dsimp only
  rw [hm]
  exact Answers.lift _

/-- No two contract traces of `ms` collide in `hash` without being equal. -/
def CHashInjective (ms : List (TraceBundle ι)) : Prop :=
  ∀ a ∈ ms, ∀ b ∈ ms, a.ctrace.hash xxh64 = b.ctrace.hash xxh64 →
    a.ctrace.digest xxh64 = b.ctrace.digest xxh64

/-- The measurements of `ms` with the contract trace of `m`. -/
def sameCTrace (ms : List (TraceBundle ι)) (m : TraceBundle ι) : List (TraceBundle ι) :=
  ms.filter fun x => x.ctrace.digest xxh64 = m.ctrace.digest xxh64

theorem filter_hash_eq_sameCTrace {ms : List (TraceBundle ι)} (h : CHashInjective xxh64 ms)
    {m : TraceBundle ι} (hm : m ∈ ms) :
    (ms.filter fun x => x.ctrace.hash xxh64 = m.ctrace.hash xxh64) = sameCTrace xxh64 ms m := by
  apply List.filter_congr
  intro x hx
  rw [decide_eq_decide]
  refine ⟨h x hx m hm, ?_⟩
  intro he
  rw [CTrace.hash, CTrace.hash, he]

/-- Every group of the contract-trace dictionary passes the checks of the constructor. -/
theorem contractGroup_spec {ms : List (TraceBundle ι)} (hinj : CHashInjective xxh64 ms)
    {e : Nat × List (TraceBundle ι)}
    (he : e ∈ groupByKey (fun m : TraceBundle ι => m.ctrace.hash xxh64) ms) :
    ∃ m rest, sameCTrace xxh64 ms m = m :: rest ∧ e = (m.ctrace.hash xxh64, m :: rest) ∧
      ContractEqClass.ofGroup xxh64 e.2 = some ⟨m.ctrace, m :: rest⟩ := by
  obtain ⟨k, gms⟩ := e
  obtain ⟨hk, rfl⟩ := (groupByKey_groupsOf _ ms k gms).mp he
  obtain ⟨x, hx, rfl⟩ := List.mem_map.mp hk
  rw [filter_hash_eq_sameCTrace xxh64 hinj hx]
  have hxf : x ∈ sameCTrace xxh64 ms x := by simp [sameCTrace, hx]
  cases hl : sameCTrace xxh64 ms x with
  | nil => rw [hl] at hxf; simp at hxf
  | cons m rest =>
    have hall : ∀ y ∈ m :: rest, y.ctrace.digest xxh64 = x.ctrace.digest xxh64 := by
      intro y hy
      rw [← hl] at hy
      simpa using (List.mem_filter.mp hy).2
    have hmx := hall m (by simp)
    refine ⟨m, rest, ?_, by rw [CTrace.hash, CTrace.hash, hmx], ?_⟩
    · rw [← hl]; simp only [sameCTrace, hmx]
    · simp only [ContractEqClass.ofGroup]
      rw [if_pos]
      rw [List.all_eq_true]
      intro y hy
      simp [hall y hy, hmx]

/-- The contract classes of `ms`: one for every contract trace that occurs, holding the
measurements with that trace in their order. -/
theorem buildContractClasses_spec {ms : List (TraceBundle ι)} (hinj : CHashInjective xxh64 ms) :
    ∃ cs, buildContractClasses xxh64 ms = some cs ∧
      ∀ c : ContractEqClass ι, c ∈ cs ↔
        ∃ m rest, sameCTrace xxh64 ms m = m :: rest ∧ c = ⟨m.ctrace, m :: rest⟩ := by
  have hdef : ∀ g ∈ (groupByKey (fun m : TraceBundle ι => m.ctrace.hash xxh64) ms).values,
      ∃ c, ContractEqClass.ofGroup xxh64 g = some c := by
    intro g hg
    obtain ⟨e, he, rfl⟩ := List.mem_map.mp hg
    obtain ⟨m, rest, -, -, hof⟩ := contractGroup_spec xxh64 hinj he
    exact ⟨_, hof⟩
  obtain ⟨cs, hcs, hmem⟩ := mapM_option_spec hdef
  refine ⟨cs, hcs, ?_⟩
  intro c
  rw [hmem]
  constructor
  · rintro ⟨g, hg, hc⟩
    obtain ⟨e, he, rfl⟩ := List.mem_map.mp hg
    obtain ⟨m, rest, hfil, -, hof⟩ := contractGroup_spec xxh64 hinj he
    rw [hof] at hc
    exact ⟨m, rest, hfil, (Option.some.inj hc).symm⟩
  · rintro ⟨m, rest, hfil, rfl⟩
    have hm : m ∈ ms := by
      have : m ∈ sameCTrace xxh64 ms m := by simp [hfil]
      exact (List.mem_filter.mp this).1
    have he : (m.ctrace.hash xxh64, m :: rest) ∈
        groupByKey (fun m : TraceBundle ι => m.ctrace.hash xxh64) ms := by
      refine (groupByKey_groupsOf _ ms _ _).mpr ⟨List.mem_map.mpr ⟨m, hm, rfl⟩, ?_⟩
      rw [← hfil]
      exact (filter_hash_eq_sameCTrace xxh64 hinj hm).symm
    obtain ⟨m', rest', -, heq, hof⟩ := contractGroup_spec xxh64 hinj he
    obtain ⟨-, hl⟩ := Prod.mk.inj heq
    obtain ⟨rfl, rfl⟩ := List.cons.inj hl
    exact ⟨_, List.mem_map.mpr ⟨_, he, rfl⟩, hof⟩

end Rvzr.Analyser
