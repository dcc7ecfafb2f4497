import Rvzr.Lib.Partition
import Rvzr.Analyser.HwClasses
import Rvzr.Analyser.TraceEquality

/-!
# The class builders partition the measurements

`build_contract_classes` and `build_hw_classes` (`rvzr/traces.py`) keep their groups in
dictionaries keyed by hashes. As long as the hashes do not collide, the contract classes are the
greedy split by equality of hashes and the hardware classes are the greedy split by the equivalence
function, and both are ordered partitions (`classes_partition`).
-/

namespace Rvzr.Analyser

open Rvzr.Lib

variable (xxh64 : Text → Nat) {ι : Type} {P : BitmapCache → Prop}

/-- The groups of `build_contract_classes`. -/
def contractGroups (ms : List (TraceBundle ι)) : List (Cluster (TraceBundle ι)) :=
  greedyGroups (fun m m' => decide (m.ctrace.hash xxh64 = m'.ctrace.hash xxh64)) ms

theorem contractGroups_split (ms : List (TraceBundle ι)) :
    GreedySplit (fun m m' => decide (m.ctrace.hash xxh64 = m'.ctrace.hash xxh64)) ms
      (contractGroups xxh64 ms) :=
  greedyGroups_split fun _ _ => decide_eq_true rfl

/-- No hash is shared by hardware traces that the function `rel` tells apart. -/
def HHashFaithful (rel : HTrace → HTrace → Bool) (ms : List (TraceBundle ι)) : Prop :=
  ∀ a ∈ ms, ∀ b ∈ ms, a.htrace.hash xxh64 = b.htrace.hash xxh64 →
    ∀ h, rel a.htrace h = rel b.htrace h

/-- What `build_contract_classes` returns: an ordered partition by contract trace. -/
structure ContractPartition (ms : List (TraceBundle ι)) (cs : List (ContractEqClass ι)) : Prop where
  partition : OrderedPartition (cs.map ContractEqClass.measurements) ms
  same : ∀ c ∈ cs, ∀ m ∈ c.measurements, m.ctrace.eq xxh64 c.ctrace = true
  different : cs.Pairwise fun c c' => c'.ctrace.eq xxh64 c.ctrace = false

/-- What `build_hw_classes` returns: an ordered partition whose classes hold the measurements that
are equivalent to their first one. -/
structure HardwarePartition (rel : HTrace → HTrace → Bool) (ms : List (TraceBundle ι))
    (ws : List (HardwareEqClass ι)) : Prop where
  partition : OrderedPartition (ws.map HardwareEqClass.measurements) ms
  first : ∀ w ∈ ws, ∃ m rest, w.measurements = m :: rest ∧ w.htrace = m.htrace
  related : ∀ w ∈ ws, ∀ m ∈ w.measurements, rel m.htrace w.htrace = true
  unrelated : ws.Pairwise fun w w' =>
    rel w.htrace w'.htrace = false ∧ rel w'.htrace w.htrace = false

variable {xxh64}

/-- Every contract group becomes a class: its members have the trace of the first one. -/
theorem ofGroup_contractGroup {ms : List (TraceBundle ι)} (hct : CHashInjective xxh64 ms)
    {g : Cluster (TraceBundle ι)} (hg : g ∈ contractGroups xxh64 ms) :
    ContractEqClass.ofGroup xxh64 g.members = some ⟨g.rep.ctrace, g.members⟩ ∧
      ∀ m ∈ g.members, m.ctrace.eq xxh64 g.rep.ctrace = true := by
  have hsplit := contractGroups_split xxh64 ms
  have hsame : ∀ m ∈ g.members, m.ctrace.digest xxh64 = g.rep.ctrace.digest xxh64 := by
    intro m hm
    have hhash := of_decide_eq_true (hsplit.related g hg m hm)
    exact hct m (hsplit.mem hg hm) g.rep (hsplit.rep_mem hg) hhash
  refine ⟨?_, fun m hm => by rw [CTrace.eq, hsame m hm, beq_self_eq_true]⟩
  obtain ⟨rest, hrest⟩ := hsplit.head g hg
  rw [hrest] at hsame ⊢
  rw [ContractEqClass.ofGroup, if_pos]
  rw [List.all_eq_true]
  intro m hm
  rw [hsame m hm, beq_self_eq_true]

theorem buildContractClasses_eq {ms : List (TraceBundle ι)} (hct : CHashInjective xxh64 ms) :
    buildContractClasses xxh64 ms =
      some ((contractGroups xxh64 ms).map fun g => ⟨g.rep.ctrace, g.members⟩) := by
  rw [buildContractClasses, groupByKey_eq_greedyGroups, keyedGroups, Dict.values, List.map_map]
  exact mapM_map_some fun g hg => (ofGroup_contractGroup hct hg).1

theorem contractGroups_partition {ms : List (TraceBundle ι)} (hct : CHashInjective xxh64 ms) :
    ContractPartition xxh64 ms
      ((contractGroups xxh64 ms).map fun g => ⟨g.rep.ctrace, g.members⟩) := by
  have hsplit := contractGroups_split xxh64 ms
  refine ⟨?_, ?_, ?_⟩
  · simpa [Function.comp_def] using hsplit.partition
  · intro c hc m hm
    obtain ⟨g, hg, rfl⟩ := List.mem_map.1 hc
    exact (ofGroup_contractGroup hct hg).2 m hm
  · rw [List.pairwise_map]
    refine (List.pairwise_map.1 hsplit.reps).imp ?_
    intro g g' hne
    have hhash := of_decide_eq_false hne
    rw [CTrace.eq, beq_eq_false_iff_ne]
    intro hdigest
    exact hhash (by rw [CTrace.hash, CTrace.hash, hdigest])

theorem hwClasses_partition {rel : HTrace → HTrace → Bool} (hrefl : ∀ h, rel h h = true)
    (hsymm : ∀ h h', rel h h' = rel h' h) (ms : List (TraceBundle ι)) :
    HardwarePartition rel ms (hwClassesOf (greedyGroups (bundleRel rel) ms)) := by
  have hsplit : GreedySplit (bundleRel rel) ms (greedyGroups (bundleRel rel) ms) :=
    greedyGroups_split fun m _ => hrefl m.htrace
  refine ⟨?_, ?_, ?_, ?_⟩
  · simpa [hwClassesOf, Function.comp_def] using hsplit.partition
  · intro w hw
    obtain ⟨g, hg, rfl⟩ := List.mem_map.1 hw
    obtain ⟨rest, hrest⟩ := hsplit.head g hg
    exact ⟨g.rep, rest, hrest, rfl⟩
  · intro w hw m hm
    obtain ⟨g, hg, rfl⟩ := List.mem_map.1 hw
    exact hsplit.related g hg m hm
  · rw [hwClassesOf, List.pairwise_map]
    refine (List.pairwise_map.1 hsplit.reps).imp ?_
    intro g g' hne
    exact ⟨(hsymm _ _).trans hne, hne⟩

/-- The class builders place every measurement in one contract class and, within it, in one hardware
class, in the order of the measurements. -/
theorem classes_partition {ef : HTrace → HTrace → AnalyserM Bool} {rel : HTrace → HTrace → Bool}
    {ms : List (TraceBundle ι)}
    (hef : ∀ a ∈ ms, ∀ b ∈ ms, Answers P (ef a.htrace b.htrace) (rel a.htrace b.htrace))
    (hrefl : ∀ h, rel h h = true) (hsymm : ∀ h h', rel h h' = rel h' h)
    (hct : CHashInjective xxh64 ms) (hht : HHashFaithful xxh64 rel ms) :
    ∃ cs, buildContractClasses xxh64 ms = some cs ∧ ContractPartition xxh64 ms cs ∧
      ∀ c ∈ cs, ∃ ws, Answers P (buildHwClasses xxh64 ef c.measurements) ws ∧
        HardwarePartition rel c.measurements ws := by
  have hparts := contractGroups_partition hct
  refine ⟨_, buildContractClasses_eq hct, hparts, ?_⟩
  intro c hc
  have hmem : ∀ m ∈ c.measurements, m ∈ ms := fun m hm =>
    hparts.partition.mem (List.mem_map_of_mem hc) hm
  refine ⟨_, buildHwClasses_answers xxh64 (fun a ha b hb => hef a (hmem a ha) b (hmem b hb)) ?_,
    hwClasses_partition hrefl hsymm c.measurements⟩
  intro a ha b hb hhash
  rw [hht a (hmem a ha) b (hmem b hb) hhash, hrefl]

def sampleBundle (id : Nat) (n : UInt64) : TraceBundle Unit :=
  ⟨id, (), ⟨[⟨.val, 1⟩]⟩, ⟨[sampleReading n]⟩⟩

/-- Three measurements of one contract class, compared by their raw traces. -/
theorem classes_partition_sample :
    let ms := [sampleBundle 0 1, sampleBundle 1 2, sampleBundle 2 1]
    let rel := fun h h' : HTrace => h.getRawTraces == h'.getRawTraces
    ∃ cs, buildContractClasses sampleHash ms = some cs ∧
      ContractPartition sampleHash ms cs ∧
      ∀ c ∈ cs, ∃ ws, Answers (fun _ => True)
          (buildHwClasses sampleHash (fun h h' => pure (rel h h')) c.measurements) ws ∧
        HardwarePartition rel c.measurements ws := by
  refine classes_partition (fun _ _ _ _ => Answers.pure _) (fun h => beq_self_eq_true _)
    (fun h h' => Bool.beq_comm) (by unfold CHashInjective; decide) ?_
  have hraw : ∀ a ∈ [sampleBundle 0 1, sampleBundle 1 2, sampleBundle 2 1],
      ∀ b ∈ [sampleBundle 0 1, sampleBundle 1 2, sampleBundle 2 1],
      a.htrace.hash sampleHash = b.htrace.hash sampleHash →
        a.htrace.getRawTraces = b.htrace.getRawTraces := by decide
  intro a ha b hb hhash h
  dsimp only
  rw [hraw a ha b hb hhash]

end Rvzr.Analyser
