import Rvzr.Analyser.ClassBuilding
import Rvzr.Postprocessing.InputPasses

/-!
# The pair of the differential minimizer

`DifferentialInputMinimizerPass` works on the first two measurements of a violation and ignores all
other inputs. What makes a violation is that its measurements fall into several hardware classes,
and the first two may fall into the same one: they are told apart exactly when the equivalence
function tells the second from the first (`violatingPair_iff`).
-/

namespace Rvzr.Postprocessing

open Rvzr.Lib Rvzr.Analyser

variable {τ : Type}

/-- What the passes see of a violation that the analyser has returned. -/
def Violation.ofAnalyser (round : Nat) (v : Analyser.Violation Ref τ) : Violation where
  round := round
  inputSequence := v.inputSequence
  measurements := v.measurements.map TraceBundle.inputId

/-- Two inputs have measurements in different hardware classes. -/
def InDifferentClasses {ι : Type} (ws : List (HardwareEqClass ι)) (a b : Nat) : Prop :=
  ∃ (j k : Nat) (w w' : HardwareEqClass ι), j ≠ k ∧ ws[j]? = some w ∧ ws[k]? = some w' ∧
    a ∈ w.measurements.map TraceBundle.inputId ∧ b ∈ w'.measurements.map TraceBundle.inputId

theorem setPassContext_run (v : Violation) {a b : Nat} {rest : List Nat}
    (hv : v.measurements = a :: b :: rest) (s : State) :
    setPassContext v s = .ok ⟨v.inputSequence, (a, b),
      (List.range v.inputSequence.length).filter fun i => !([a, b].contains i)⟩ s := by
  unfold setPassContext
  rw [hv]
  rfl

section Classes

variable {xxh64 : Text → Nat} {P : BitmapCache → Prop} {ι : Type}
  {ef : HTrace → HTrace → AnalyserM Bool} {rel : HTrace → HTrace → Bool}

/-- The hardware classes that a run of the builder returns are those of the greedy split. -/
theorem buildHwClasses_eq {ms : List (TraceBundle ι)} {ws : List (HardwareEqClass ι)}
    {cache cache' : BitmapCache}
    (hef : ∀ a ∈ ms, ∀ b ∈ ms, Answers P (ef a.htrace b.htrace) (rel a.htrace b.htrace))
    (hrefl : ∀ m ∈ ms, rel m.htrace m.htrace = true) (hht : HHashFaithful xxh64 rel ms)
    (hcache : P cache) (hws : (buildHwClasses xxh64 ef ms).run cache = some (ws, cache')) :
    ws = hwClassesOf (greedyGroups (bundleRel rel) ms) := by
  have hanswers := buildHwClasses_answers (P := P) xxh64 hef fun a ha b hb hhash => by
    rw [hht a ha b hb hhash]
    exact hrefl b hb
  obtain ⟨s', -, hrun⟩ := hanswers cache hcache
  rw [hrun] at hws
  exact (Prod.mk.inj (Option.some.inj hws)).1.symm

/-- Among distinct inputs, the first two are in different classes exactly when the second is not
equivalent to the first. -/
theorem firstTwo_inDifferentClasses_iff {m₁ m₂ : TraceBundle ι} {rest : List (TraceBundle ι)}
    (hrefl : ∀ m ∈ m₁ :: m₂ :: rest, rel m.htrace m.htrace = true)
    (hnodup : ((m₁ :: m₂ :: rest).map TraceBundle.inputId).Nodup) :
    InDifferentClasses (hwClassesOf (greedyGroups (bundleRel rel) (m₁ :: m₂ :: rest)))
        m₁.inputId m₂.inputId ↔ rel m₂.htrace m₁.htrace = false := by
  have hsplit : GreedySplit (bundleRel rel) (m₁ :: m₂ :: rest)
      (greedyGroups (bundleRel rel) (m₁ :: m₂ :: rest)) :=
    greedyGroups_split fun m hm => hrefl m hm
  have hfirst := greedyGroups_first_two (bundleRel rel) m₁ m₂ rest
  generalize greedyGroups (bundleRel rel) (m₁ :: m₂ :: rest) = gs at hsplit hfirst
  have hclass : ∀ {j : Nat} {g : Cluster (TraceBundle ι)}, gs[j]? = some g →
      (hwClassesOf gs)[j]? = some ⟨g.rep.htrace, g.members⟩ := by
    intro j g hg
    rw [hwClassesOf, List.getElem?_map, hg]
    rfl
  constructor
  · rintro ⟨j, k, w, w', hne, hw, hw', ha, hb⟩
    by_contra hrel
    have hrel : bundleRel rel m₂ m₁ = true := by
      rw [bundleRel]
      exact Bool.eq_true_of_not_eq_false hrel
    rw [if_pos hrel] at hfirst
    obtain ⟨g, hg, hm₁, hm₂⟩ := hfirst
    -- every class with one of the two is the first one
    have hzero : ∀ {i : Nat} {w : HardwareEqClass ι} {m : TraceBundle ι},
        (hwClassesOf gs)[i]? = some w → m ∈ g.members →
        m.inputId ∈ w.measurements.map TraceBundle.inputId → i = 0 := by
      intro i w m hi hm hid
      obtain ⟨m', hm', heq⟩ := List.mem_map.1 hid
      rw [hwClassesOf, List.getElem?_map, Option.map_eq_some_iff] at hi
      obtain ⟨g', hg', rfl⟩ := hi
      exact hsplit.partition.part_unique hnodup
        (show (gs.map Cluster.members)[i]? = some g'.members by rw [List.getElem?_map, hg']; rfl)
        (show (gs.map Cluster.members)[0]? = some g.members by rw [List.getElem?_map, hg]; rfl)
        hm' hm heq
    exact hne ((hzero hw hm₁ ha).trans (hzero hw' hm₂ hb).symm)
  · intro hrel
    rw [if_neg (by rw [bundleRel, hrel]; simp)] at hfirst
    obtain ⟨g, g', hg, hg', hm₁, hm₂⟩ := hfirst
    exact ⟨0, 1, _, _, by decide, hclass hg, hclass hg', List.mem_map_of_mem hm₁,
      List.mem_map_of_mem hm₂⟩

/-- For a violation with two hardware classes, the ignore list of the pass holds all inputs but the
selected two, and these are in different classes exactly when the equivalence function tells the
second measurement from the first. -/
theorem violatingPair_iff {ms : List (TraceBundle Ref)} {ws : List (HardwareEqClass Ref)}
    {cache cache' : BitmapCache} (ctrace : CTrace) (inputs : List Ref) (testCase : τ) (round : Nat)
    (s : State)
    (hef : ∀ a ∈ ms, ∀ b ∈ ms, Answers P (ef a.htrace b.htrace) (rel a.htrace b.htrace))
    (hrefl : ∀ m ∈ ms, rel m.htrace m.htrace = true) (hht : HHashFaithful xxh64 rel ms)
    (hcache : P cache) (hws : (buildHwClasses xxh64 ef ms).run cache = some (ws, cache'))
    (hnodup : (ms.map TraceBundle.inputId).Nodup) (htwo : 2 ≤ ws.length) :
    ∃ m₁ m₂ rest ctx, ms = m₁ :: m₂ :: rest ∧
      setPassContext (.ofAnalyser round
        (.fromContractEqClass ⟨ctrace, ms⟩ ws inputs testCase)) s = .ok ctx s ∧
      (InDifferentClasses ws ctx.violatingIds.1 ctx.violatingIds.2 ↔
        rel m₂.htrace m₁.htrace = false) ∧
      ∀ i, i ∈ ctx.localIgnoreList ↔
        i < inputs.length ∧ i ≠ ctx.violatingIds.1 ∧ i ≠ ctx.violatingIds.2 := by
  have heq := buildHwClasses_eq hef hrefl hht hcache hws
  subst heq
  cases ms with
  | nil => exact absurd htwo (by simp [hwClassesOf, greedyGroups])
  | cons m₁ ms =>
    cases ms with
    | nil => exact absurd htwo (by simp [hwClassesOf, greedyGroups, greedyStep])
    | cons m₂ rest =>
      refine ⟨m₁, m₂, rest, _, rfl, setPassContext_run _ rfl s,
        firstTwo_inDifferentClasses_iff hrefl hnodup, fun i => ?_⟩
      rw [List.mem_filter, List.mem_range]
      simp [Violation.ofAnalyser, Violation.fromContractEqClass]

end Classes

section Samples

/-- A measurement of input `id` whose hardware trace has the one sample `n`. -/
def samplePairBundle (id : Nat) (n : UInt64) : TraceBundle Ref :=
  ⟨id, id, ⟨[⟨.mem, 0⟩]⟩, ⟨[sampleReading n]⟩⟩

/-- Three measurements of one contract class. -/
def samplePairMeasurements (a b c : UInt64) : List (TraceBundle Ref) :=
  [samplePairBundle 0 a, samplePairBundle 1 b, samplePairBundle 2 c]

def samplePairRel (h h' : HTrace) : Bool := h.getRawTraces == h'.getRawTraces

/-- The hardware classes when the third measurement is like the first. -/
def samplePairClasses : List (HardwareEqClass Ref) :=
  [⟨⟨[sampleReading 1]⟩, [samplePairBundle 0 1, samplePairBundle 2 1]⟩,
    ⟨⟨[sampleReading 2]⟩, [samplePairBundle 1 2]⟩]

/-- The hardware classes when the second measurement is like the first. -/
def samplePairBadClasses : List (HardwareEqClass Ref) :=
  [⟨⟨[sampleReading 1]⟩, [samplePairBundle 0 1, samplePairBundle 1 1]⟩,
    ⟨⟨[sampleReading 2]⟩, [samplePairBundle 2 2]⟩]

theorem violatingPair_iff_sample :
    ∃ m₁ m₂ rest ctx, samplePairMeasurements 1 2 1 = m₁ :: m₂ :: rest ∧
      setPassContext (.ofAnalyser 0 (.fromContractEqClass
        ⟨⟨[⟨.mem, 0⟩]⟩, samplePairMeasurements 1 2 1⟩ samplePairClasses [0, 1, 2] ())) ⟨[], 1, []⟩ =
          .ok ctx ⟨[], 1, []⟩ ∧
      (InDifferentClasses samplePairClasses ctx.violatingIds.1 ctx.violatingIds.2 ↔
        samplePairRel m₂.htrace m₁.htrace = false) ∧
      ∀ i, i ∈ ctx.localIgnoreList ↔
        i < [0, 1, 2].length ∧ i ≠ ctx.violatingIds.1 ∧ i ≠ ctx.violatingIds.2 := by
  have hhash : ∀ a ∈ samplePairMeasurements 1 2 1, ∀ b ∈ samplePairMeasurements 1 2 1,
      a.htrace.hash sampleHash = b.htrace.hash sampleHash →
        a.htrace.getRawTraces = b.htrace.getRawTraces := by decide
  refine violatingPair_iff (P := fun _ => True) ⟨[⟨.mem, 0⟩]⟩ [0, 1, 2] () 0 ⟨[], 1, []⟩
    (fun _ _ _ _ => Answers.pure _) (fun _ _ => beq_self_eq_true _) ?_ trivial
    (show (buildHwClasses sampleHash (fun h h' => pure (samplePairRel h h'))
      (samplePairMeasurements 1 2 1)).run [] = some (samplePairClasses, []) from rfl)
    (by decide) (by decide)
  intro a ha b hb heq h
  unfold samplePairRel
  rw [hhash a ha b hb heq]

/-- The second measurement is like the first and the third one differs: the violation has two
classes, and the pass works on two inputs of the same one. -/
theorem violatingPair_same_class :
    (buildHwClasses sampleHash (fun h h' => pure (samplePairRel h h'))
        (samplePairMeasurements 1 1 2)).run [] = some (samplePairBadClasses, []) ∧
      2 ≤ samplePairBadClasses.length ∧
      ∃ ctx, setPassContext (.ofAnalyser 0 (.fromContractEqClass
          ⟨⟨[⟨.mem, 0⟩]⟩, samplePairMeasurements 1 1 2⟩ samplePairBadClasses [0, 1, 2] ()))
          ⟨[], 1, []⟩ = .ok ctx ⟨[], 1, []⟩ ∧
        ¬ InDifferentClasses samplePairBadClasses ctx.violatingIds.1 ctx.violatingIds.2 := by
  refine ⟨rfl, by decide, _, setPassContext_run _ rfl _, ?_⟩
  rintro ⟨j, k, w, w', hne, hw, hw', ha, hb⟩
  -- inputs 0 and 1 are in the first class only
  have hfirst : ∀ {i id : Nat} {w : HardwareEqClass Ref}, samplePairBadClasses[i]? = some w →
      id ∈ w.measurements.map TraceBundle.inputId → id < 2 → i = 0 := by
    intro i id w hi hid hlt
    rcases i with _ | _ | i
    · rfl
    · cases hi
      rw [List.mem_singleton.mp hid] at hlt
      exact absurd hlt (by decide)
    · cases hi
  exact hne ((hfirst hw ha (show 0 < 2 by decide)).trans (hfirst hw' hb (show 1 < 2 by decide)).symm)

end Samples

end Rvzr.Postprocessing
