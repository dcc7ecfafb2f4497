import Rvzr.Dynamorio.TaintTracker

/-!
Several inputs traced by one `TaintTracker`: what `store_taints` writes for an input, in a process
that has traced others before and in a fresh one. `enable` does not clear the tainted labels and the
dependencies; everything else that one input leaves behind has no effect on the next. What is left
behind does no harm if the later input taints the labels by itself and reads no label whose
dependencies are not its own.
-/

namespace Rvzr.Dynamorio

open Rvzr.Lib

namespace TaintTracker

/-- A call into the tracker while an input is traced. -/
inductive TrackerCall where
  | trackInstruction (o : Operands) (r14 : Nat)
  | trackMemoryAccess (isWrite : Bool) (addr size : Nat)
  | taint (type : TaintEntryType)
  | checkpoint (includeCurrentInst : Bool)
  | rollback
  deriving Repr, DecidableEq

def call (t : TaintTracker) : TrackerCall → Option TaintTracker
  | .trackInstruction o r14 => some (t.trackInstruction o r14)
  | .trackMemoryAccess isWrite addr size => t.trackMemoryAccess isWrite addr size
  | .taint type => some (t.taint type)
  | .checkpoint includeCurrentInst => some (t.checkpoint includeCurrentInst)
  | .rollback => t.rollback

/-- The calls made for one input, from `enable` to `finalize`. An architectural exception ends the
process before `finalize`. -/
structure TracedInput where
  calls : List TrackerCall
  raises : Bool := false
  deriving Repr, DecidableEq

/-- Trace one input; `none` when the process ends. -/
def traceInput (t : TaintTracker) (input : TracedInput) :
    Option (TaintTracker × Finset (Label × Nat)) := do
  let t ← t.enable
  let t ← input.calls.foldlM call t
  if input.raises then none else t.finalize

/-- What is written for each input, up to the end of the process. -/
def traceInputs (t : TaintTracker) : List TracedInput → List (Finset (Label × Nat))
  | [] => []
  | input :: inputs =>
    match t.traceInput input with
    | none => []
    | some (t, stored) => stored :: traceInputs t inputs

/-- What is written for the inputs if each of them is traced by a tracker of its own. -/
def traceAlone : List TracedInput → List (Finset (Label × Nat))
  | [] => []
  | input :: inputs =>
    match traceInput {} input with
    | none => []
    | some (_, stored) => stored :: traceAlone inputs

/-- The number of open checkpoints after a call; a rollback needs one. -/
def depth (n : Nat) : TrackerCall → Option Nat
  | .checkpoint _ => some (n + 1)
  | .rollback => if n = 0 then none else some (n - 1)
  | _ => some n

/-- Every checkpoint of the input is rolled back before it ends, as the speculator does. -/
def Balanced (input : TracedInput) : Prop := input.calls.foldlM depth 0 = some 0

/-! ### What earlier inputs leave behind -/

/-- What `enable` makes of a tracker between two inputs. -/
def started (t : TaintTracker) : TaintTracker :=
  { t with enabled := true, trackingInProgress := true, sandboxBase := 0 }

/-- The labels that an input taints by itself. -/
def ownTaints (input : TracedInput) : Finset Label :=
  match input.calls.foldlM call (started {}) with
  | none => ∅
  | some t => t.settle.taintedLabels

/-- A label that is not written, or that the input taints by itself anyway. -/
def harmless (own : Finset Label) (l : Label) : Bool := !isStored l || decide (l ∈ own)

/-- The dependencies of a label are left from earlier inputs: they lack the label itself, or hold
others that do harm. -/
def leftover (own : Finset Label) (d : Dependencies) (l : Label) : Bool :=
  !decide (l ∈ d.ofLabel l ∧ ∀ l' ∈ d.ofLabel l, l' = l ∨ harmless own l' = true)

/-- The labels whose dependencies are left from earlier inputs, now and at the open checkpoints. -/
structure Stale where
  now : Label → Bool
  saved : List (Label → Bool)

/-- The instruction overrides the label. -/
def overrides (i : TrackedInstruction) : Label → Bool
  | .reg r => overriddenReg i = some r
  | .mem _ => false

namespace Stale

variable (s : Stale)

def settle : Option TrackedInstruction → Stale
  | none => s
  | some i => { s with now := fun l => s.now l && !overrides i l }

def push : Stale := { s with saved := s.now :: s.saved }

def pop : Stale :=
  match s.saved with
  | [] => s
  | now :: saved => ⟨now, saved⟩

def call (i : Option TrackedInstruction) : TrackerCall → Stale
  | .trackInstruction _ _ => s.settle i
  | .checkpoint includeCurrentInst => (if includeCurrentInst then s.settle i else s).push
  | .rollback => s.pop
  | _ => s

end Stale

/-- The tracked instruction reads and exposes no stale label. -/
def freshReads (now : Label → Bool) (t : TaintTracker) : Bool :=
  match t.currentInstruction with
  | none => true
  | some i => decide (∀ l ∈ i.reads ∪ t.pendingTaint, now l = false)

/-- No instruction reads or exposes a label that is stale before it. -/
def readsFresh (s : Stale) (t : TaintTracker) : List TrackerCall → Bool
  | [] => freshReads s.now t
  | c :: cs => freshReads s.now t &&
    match t.call c with
    | none => true
    | some t' => readsFresh (s.call t.currentInstruction c) t' cs

/-- What earlier inputs have left in the tracker does no harm to the input. -/
structure Undisturbed (t : TaintTracker) (input : TracedInput) : Prop where
  tainted : ∀ l ∈ t.taintedLabels, harmless (ownTaints input) l = true
  reads : readsFresh ⟨leftover (ownTaints input) t.dependencies, []⟩ t.started input.calls = true

/-- Every input that is traced starts on a tracker that does no harm to it. -/
def UndisturbedStarts (t : TaintTracker) : List TracedInput → Prop
  | [] => True
  | input :: inputs => Undisturbed t input ∧ ∀ t' stored, t.traceInput input = some (t', stored) →
      UndisturbedStarts t' inputs

/-! ### Sets that differ by harmless labels -/

structure Near (own ls ls₀ : Finset Label) : Prop where
  subset : ls₀ ⊆ ls
  rest : ∀ l ∈ ls, l ∈ ls₀ ∨ harmless own l = true

section Near

variable {own ls ls₀ ls' ls₀' : Finset Label}

theorem Near.union (h : Near own ls ls₀) (h' : Near own ls' ls₀') :
    Near own (ls ∪ ls') (ls₀ ∪ ls₀') := by
  refine ⟨Finset.union_subset_union h.subset h'.subset, fun l hl => ?_⟩
  rcases Finset.mem_union.mp hl with hl | hl
  · exact (h.rest l hl).imp_left (Finset.mem_union_left _)
  · exact (h'.rest l hl).imp_left (Finset.mem_union_right _)

theorem Near.biUnion {s : Finset Label} {f f₀ : Label → Finset Label}
    (h : ∀ x ∈ s, Near own (f x) (f₀ x)) : Near own (s.biUnion f) (s.biUnion f₀) := by
  refine ⟨fun l hl => ?_, fun l hl => ?_⟩
  · obtain ⟨x, hx, hl⟩ := Finset.mem_biUnion.mp hl
    exact Finset.mem_biUnion.mpr ⟨x, hx, (h x hx).subset hl⟩
  · obtain ⟨x, hx, hl⟩ := Finset.mem_biUnion.mp hl
    exact ((h x hx).rest l hl).imp_left fun hl₀ => Finset.mem_biUnion.mpr ⟨x, hx, hl₀⟩

/-- Sets that differ by harmless labels are written alike if the harmless ones are there. -/
theorem Near.storedLabels_eq (h : Near own ls ls₀) (hown : own ⊆ ls₀) (sandboxBase : Nat) :
    storedLabels sandboxBase ls = storedLabels sandboxBase ls₀ := by
  have hfilter : (ls.filter fun l => isStored l) = ls₀.filter fun l => isStored l := by
    refine Finset.Subset.antisymm (fun l hl => ?_) (Finset.filter_subset_filter _ h.subset)
    obtain ⟨hl, hstored⟩ := Finset.mem_filter.mp hl
    refine Finset.mem_filter.mpr ⟨?_, hstored⟩
    rcases h.rest l hl with hl₀ | hharmless
    · exact hl₀
    · rw [harmless, hstored] at hharmless
      exact hown (of_decide_eq_true hharmless)
  rw [storedLabels, hfilter, storedLabels]

theorem Near.any_isMem (h : Near own ls ls₀) (hown : own ⊆ ls₀) :
    (∃ l ∈ ls, isMem l = true) ↔ ∃ l ∈ ls₀, isMem l = true := by
  refine ⟨?_, fun ⟨l, hl, hmem⟩ => ⟨l, h.subset hl, hmem⟩⟩
  rintro ⟨l, hl, hmem⟩
  refine ⟨l, ?_, hmem⟩
  rcases h.rest l hl with hl₀ | hharmless
  · exact hl₀
  · cases l with
    | reg r => cases hmem
    | mem addr => exact hown (of_decide_eq_true hharmless)

end Near

/-! ### A tracker that has traced other inputs, beside a fresh one -/

/-- The labels that are not stale depend on the same labels. -/
def NearDeps (own : Finset Label) (now : Label → Bool) (d d₀ : Dependencies) : Prop :=
  ∀ l, now l = false → Near own (d.ofLabel l) (d₀.ofLabel l)

inductive NearSaved (own : Finset Label) :
    List (Label → Bool) → List Dependencies → List Dependencies → Prop
  | nil : NearSaved own [] [] []
  | cons {now : Label → Bool} {d d₀ : Dependencies} {saved : List (Label → Bool)}
      {ds ds₀ : List Dependencies} (h : NearDeps own now d d₀) (hs : NearSaved own saved ds ds₀) :
      NearSaved own (now :: saved) (d :: ds) (d₀ :: ds₀)

/-- `t` has traced other inputs, `t₀` is fresh; the pending taint counts only while an instruction
is tracked. -/
structure Related (own : Finset Label) (s : Stale) (t t₀ : TaintTracker) : Prop where
  enabled : t.enabled = true
  freshEnabled : t₀.enabled = true
  sandboxBase : t.sandboxBase = t₀.sandboxBase
  current : t.currentInstruction = t₀.currentInstruction
  pending : t.currentInstruction ≠ none → t.pendingTaint = t₀.pendingTaint
  tainted : Near own t.taintedLabels t₀.taintedLabels
  dependencies : NearDeps own s.now t.dependencies t₀.dependencies
  checkpoints : NearSaved own s.saved t.checkpoints t₀.checkpoints

section Related

variable {own : Finset Label} {s : Stale} {t t₀ : TaintTracker} {i : TrackedInstruction}

theorem NearDeps.add {now : Label → Bool} {d d₀ : Dependencies} (h : NearDeps own now d d₀)
    (hsrc : Near own (d.collectSource i) (d₀.collectSource i)) :
    NearDeps own now (d.add i) (d₀.add i) := by
  intro l hl
  rw [d.add_ofLabel, d₀.add_ofLabel]
  split
  · exact (h l hl).union hsrc
  · exact h l hl

/-- What is overridden is not stale any more. -/
theorem NearDeps.removeOverwritten {now : Label → Bool} {d d₀ : Dependencies}
    (h : NearDeps own now d d₀) (hsrc : Near own (d.collectSource i) (d₀.collectSource i)) :
    NearDeps own (fun l => now l && !overrides i l) ((d.add i).removeOverwritten i)
      ((d₀.add i).removeOverwritten i) := by
  intro l hl
  by_cases hover : overrides i l = true
  · cases l with
    | mem addr => cases hover
    | reg r =>
      have hr : overriddenReg i = some r := of_decide_eq_true hover
      rw [d.removeOverwritten_overridden hr, d₀.removeOverwritten_overridden hr]
      exact hsrc
  · have hother : ∀ r, l = .reg r → overriddenReg i ≠ some r := by
      rintro r rfl hr
      exact hover (decide_eq_true hr)
    rw [Dependencies.removeOverwritten_other _ hother,
      Dependencies.removeOverwritten_other _ hother]
    refine h.add hsrc l ?_
    rw [Bool.not_eq_true] at hover
    simpa [hover] using hl

theorem settle_of_none (h : t.currentInstruction = none) : t.settle = t := by
  rw [settle, h]

theorem settle_of_some (h : t.currentInstruction = some i) : t.settle = t.finalizeInstruction i := by
  rw [settle, h]

/-- The end of an instruction that reads and exposes no stale label. -/
theorem Related.settle (h : Related own s t t₀) (hfresh : freshReads s.now t = true) :
    Related own (s.settle t.currentInstruction) t.settle t₀.settle := by
  cases hcur : t.currentInstruction with
  | none =>
    rw [settle_of_none hcur, settle_of_none (h.current.symm.trans hcur)]
    exact h
  | some i =>
    rw [settle_of_some hcur, settle_of_some (h.current.symm.trans hcur)]
    rw [freshReads, hcur] at hfresh
    have hnow : ∀ l ∈ i.reads ∪ t.pendingTaint, s.now l = false := of_decide_eq_true hfresh
    have hsrc : Near own (t.dependencies.collectSource i) (t₀.dependencies.collectSource i) := by
      rw [Dependencies.collectSource_eq, Dependencies.collectSource_eq]
      exact Near.biUnion fun l hl =>
        h.dependencies l (hnow l (Finset.mem_union_left _ hl))
    have hpending : t.pendingTaint = t₀.pendingTaint := h.pending (by simp [hcur])
    have htaints : Near own (t.pendingTaint.biUnion (t.dependencies.add i).ofLabel)
        (t₀.pendingTaint.biUnion (t₀.dependencies.add i).ofLabel) := by
      rw [← hpending]
      exact Near.biUnion fun l hl =>
        h.dependencies.add hsrc l (hnow l (Finset.mem_union_right _ hl))
    exact ⟨h.enabled, h.freshEnabled, h.sandboxBase, rfl, fun hne => absurd rfl hne,
      h.tainted.union htaints, h.dependencies.removeOverwritten hsrc, h.checkpoints⟩

/-- A call on both trackers: it fails on both or on none. -/
inductive RelatedCalls (own : Finset Label) (s : Stale) :
    Option TaintTracker → Option TaintTracker → Prop
  | fails : RelatedCalls own s none none
  | ok {t t₀ : TaintTracker} (h : Related own s t t₀) : RelatedCalls own s (some t) (some t₀)

theorem settle_currentInstruction (t : TaintTracker) : t.settle.currentInstruction = none := by
  unfold settle
  cases h : t.currentInstruction with
  | none => exact h
  | some i => rfl

theorem call_trackInstruction (he : t.enabled = true) (o : Operands) (r14 : Nat) :
    t.call (.trackInstruction o r14) = some { t.settle with
      sandboxBase := if t.sandboxBase = 0 then r14 else t.sandboxBase
      currentInstruction := some (parseInstructionOperands o)
      pendingTaint := ∅ } := by
  simp only [call, trackInstruction, he, Bool.not_true, Bool.false_eq_true, if_false]
  by_cases hb : t.sandboxBase = 0
  · cases hcur : t.currentInstruction with
    | none => simp [settle, hb, hcur, he]
    | some i => simp [settle, hb, hcur, he, finalizeInstruction]
  · cases hcur : t.currentInstruction with
    | none => simp [settle, hb, hcur]
    | some i => simp [settle, hb, hcur, finalizeInstruction]

/-- What one call preserves. -/
theorem Related.call (h : Related own s t t₀) (hfresh : freshReads s.now t = true)
    (c : TrackerCall) :
    RelatedCalls own (s.call t.currentInstruction c) (t.call c) (t₀.call c) := by
  have hsettle := h.settle hfresh
  cases c with
  | trackInstruction o r14 =>
    rw [call_trackInstruction h.enabled, call_trackInstruction h.freshEnabled, ← h.sandboxBase]
    exact .ok ⟨hsettle.enabled, hsettle.freshEnabled, rfl, rfl, fun _ => rfl, hsettle.tainted,
      hsettle.dependencies, hsettle.checkpoints⟩
  | trackMemoryAccess isWrite addr size =>
    simp only [TaintTracker.call, trackMemoryAccess, h.enabled, h.freshEnabled, Bool.not_true,
      Bool.false_eq_true, if_false, ← h.current]
    cases hcur : t.currentInstruction with
    | none => exact .fails
    | some i =>
      have hpending := h.pending (by simp [hcur])
      exact .ok ⟨rfl, rfl, h.sandboxBase, rfl, fun _ => hpending, h.tainted, h.dependencies,
        h.checkpoints⟩
  | taint type =>
    simp only [TaintTracker.call, taint, h.enabled, h.freshEnabled, Bool.not_true,
      Bool.false_eq_true, if_false, ← h.current]
    cases hcur : t.currentInstruction with
    | none => exact .ok h
    | some i =>
      have hpending := h.pending (by simp [hcur])
      cases type with
      | pc =>
        dsimp only
        split
        · exact .ok ⟨rfl, rfl, h.sandboxBase, rfl,
            fun _ => congrArg (insert (Label.reg ripReg)) hpending, h.tainted, h.dependencies,
            h.checkpoints⟩
        · exact .ok h
      | mem =>
        exact .ok ⟨rfl, rfl, h.sandboxBase, rfl,
          fun _ => congrArg (· ∪ (i.memAddressRegs.map Label.reg).toFinset) hpending, h.tainted,
          h.dependencies, h.checkpoints⟩
      | eot => exact .ok h
  | checkpoint includeCurrentInst =>
    simp only [TaintTracker.call, checkpoint, h.enabled, h.freshEnabled, Bool.not_true,
      Bool.false_eq_true, if_false]
    have hpush : ∀ {s : Stale} {t t₀ : TaintTracker}, Related own s t t₀ →
        Related own s.push { t with checkpoints := t.dependencies :: t.checkpoints }
          { t₀ with checkpoints := t₀.dependencies :: t₀.checkpoints } := fun h =>
      ⟨h.enabled, h.freshEnabled, h.sandboxBase, h.current, h.pending, h.tainted, h.dependencies,
        .cons h.dependencies h.checkpoints⟩
    cases includeCurrentInst with
    | true => exact .ok (hpush hsettle)
    | false => exact .ok (hpush h)
  | rollback =>
    simp only [TaintTracker.call, rollback, h.enabled, h.freshEnabled, Bool.not_true,
      Bool.false_eq_true, if_false]
    obtain ⟨now, saved⟩ := s
    have hsaved := h.checkpoints
    generalize hds : t.checkpoints = ds at hsaved
    generalize hds₀ : t₀.checkpoints = ds₀ at hsaved
    cases hsaved with
    | nil => exact .fails
    | cons hd hs =>
      exact .ok ⟨hsettle.enabled, hsettle.freshEnabled, hsettle.sandboxBase, hsettle.current,
        hsettle.pending, hsettle.tainted, hd, hs⟩

/-- What the calls of an input preserve, up to the end of its last instruction. -/
theorem Related.calls (h : Related own s t t₀) {cs : List TrackerCall}
    (hfresh : readsFresh s t cs = true) :
    (cs.foldlM TaintTracker.call t = none ∧ cs.foldlM TaintTracker.call t₀ = none) ∨
      ∃ t' t₀' s', cs.foldlM TaintTracker.call t = some t' ∧
        cs.foldlM TaintTracker.call t₀ = some t₀' ∧ Related own s' t'.settle t₀'.settle := by
  induction cs generalizing s t t₀ with
  | nil => exact Or.inr ⟨t, t₀, _, rfl, rfl, h.settle hfresh⟩
  | cons c cs ih =>
    rw [readsFresh, Bool.and_eq_true] at hfresh
    have hcall := h.call hfresh.1 c
    have hrest := hfresh.2
    rw [List.foldlM_cons, List.foldlM_cons]
    generalize t.call c = x at hcall hrest
    generalize t₀.call c = x₀ at hcall
    cases hcall with
    | fails => exact Or.inl ⟨rfl, rfl⟩
    | ok h' => exact ih h' hrest

end Related

/-! ### Between two inputs -/

/-- The state in which an input ends: no instruction is tracked and no checkpoint open. -/
structure AtRest (t : TaintTracker) : Prop where
  trackingInProgress : t.trackingInProgress = false
  currentInstruction : t.currentInstruction = none
  checkpoints : t.checkpoints = []

theorem atRest_init : AtRest {} := ⟨rfl, rfl, rfl⟩

theorem settle_checkpoints (t : TaintTracker) : t.settle.checkpoints = t.checkpoints := by
  unfold settle
  cases t.currentInstruction with
  | none => rfl
  | some i => rfl

theorem settle_enabled (t : TaintTracker) : t.settle.enabled = t.enabled := by
  unfold settle
  cases t.currentInstruction with
  | none => rfl
  | some i => rfl

/-- While tracking is on, the open checkpoints are counted by `depth`. -/
theorem call_depth {t t' : TaintTracker} {c : TrackerCall} (he : t.enabled = true)
    (h : t.call c = some t') :
    t'.enabled = true ∧ depth t.checkpoints.length c = some t'.checkpoints.length := by
  cases c with
  | trackInstruction o r14 =>
    rw [call_trackInstruction he] at h
    cases h
    exact ⟨(settle_enabled t).trans he, by simp [depth, settle_checkpoints]⟩
  | trackMemoryAccess isWrite addr size =>
    simp only [call, trackMemoryAccess, he, Bool.not_true, Bool.false_eq_true, if_false] at h
    cases hc : t.currentInstruction with
    | none => simp [hc] at h
    | some i =>
      rw [hc] at h
      cases h
      exact ⟨rfl, rfl⟩
  | taint type =>
    simp only [call, taint, he, Bool.not_true, Bool.false_eq_true, if_false,
      Option.some.injEq] at h
    subst h
    cases t.currentInstruction with
    | none => exact ⟨he, rfl⟩
    | some i =>
      cases type with
      | pc =>
        dsimp only
        split
        · exact ⟨rfl, rfl⟩
        · exact ⟨he, rfl⟩
      | mem => exact ⟨rfl, rfl⟩
      | eot => exact ⟨he, rfl⟩
  | checkpoint includeCurrentInst =>
    simp only [call, checkpoint, he, Bool.not_true, Bool.false_eq_true, if_false,
      Option.some.injEq] at h
    subst h
    cases includeCurrentInst with
    | true => simp [settle_checkpoints, settle_enabled, he, depth]
    | false => simp [he, depth]
  | rollback =>
    simp only [call, rollback, he, Bool.not_true, Bool.false_eq_true, if_false] at h
    cases hc : t.checkpoints with
    | nil => simp [hc] at h
    | cons d ds =>
      rw [hc] at h
      cases h
      exact ⟨(settle_enabled t).trans he, by simp [depth]⟩

theorem calls_depth {t t' : TaintTracker} {cs : List TrackerCall} (he : t.enabled = true)
    (h : cs.foldlM call t = some t') :
    cs.foldlM depth t.checkpoints.length = some t'.checkpoints.length := by
  induction cs generalizing t with
  | nil =>
    cases h
    rfl
  | cons c cs ih =>
    rw [List.foldlM_cons] at h ⊢
    cases hc : t.call c with
    | none => simp [hc] at h
    | some t₁ =>
      rw [hc] at h
      have hd := call_depth he hc
      rw [hd.2]
      exact ih hd.1 h

theorem finalize_atRest {t t' : TaintTracker} {stored : Finset (Label × Nat)}
    (h : t.finalize = some (t', stored)) (hc : t.checkpoints = []) : AtRest t' := by
  simp only [finalize, Option.bind_eq_bind, Option.bind_eq_some_iff] at h
  obtain ⟨vs, -, heq⟩ := h
  cases heq
  exact ⟨rfl, settle_currentInstruction t, (settle_checkpoints t).trans hc⟩

theorem enable_of_not_inProgress {t : TaintTracker} (h : t.trackingInProgress = false) :
    t.enable = some t.started := by
  simp [enable, h, started]

/-- A traced input leaves the tracker at rest. -/
theorem traceInput_atRest {t t' : TaintTracker} {input : TracedInput}
    {stored : Finset (Label × Nat)} (ht : AtRest t) (hbal : Balanced input)
    (h : t.traceInput input = some (t', stored)) : AtRest t' := by
  simp only [traceInput, enable_of_not_inProgress ht.trackingInProgress, Option.bind_eq_bind,
    Option.bind_some, Option.bind_eq_some_iff] at h
  obtain ⟨t₁, hcalls, h⟩ := h
  have hdepth : input.calls.foldlM depth t.checkpoints.length = some t₁.checkpoints.length :=
    calls_depth (t := t.started) rfl hcalls
  have hzero : ([] : List Dependencies).length = 0 := rfl
  rw [ht.checkpoints, hzero, hbal, Option.some.injEq] at hdepth
  by_cases hr : input.raises = true
  · rw [if_pos hr] at h
    cases h
  · rw [if_neg hr] at h
    exact finalize_atRest h (List.length_eq_zero_iff.1 hdepth.symm)

theorem nearDeps_leftover (own : Finset Label) (d : Dependencies) :
    NearDeps own (leftover own d) d {} := by
  intro l hl
  have hfresh : ({} : Dependencies).ofLabel l = {l} := by
    cases l with
    | reg r => rfl
    | mem addr => rfl
  rw [leftover, Bool.not_eq_false', decide_eq_true_eq] at hl
  rw [hfresh]
  refine ⟨Finset.singleton_subset_iff.mpr hl.1, fun l' hl' => ?_⟩
  exact (hl.2 l' hl').imp_left Finset.mem_singleton.mpr

theorem related_started {t : TaintTracker} {own : Finset Label} (ht : AtRest t)
    (htainted : ∀ l ∈ t.taintedLabels, harmless own l = true) :
    Related own ⟨leftover own t.dependencies, []⟩ t.started (started {}) where
  enabled := rfl
  freshEnabled := rfl
  sandboxBase := rfl
  current := ht.currentInstruction
  pending h := absurd ht.currentInstruction h
  tainted := ⟨Finset.empty_subset _, fun l hl => Or.inr (htainted l hl)⟩
  dependencies := nearDeps_leftover own t.dependencies
  checkpoints := by
    have hnone : t.started.checkpoints = [] := ht.checkpoints
    rw [hnone]
    exact .nil

theorem finalize_snd (t : TaintTracker) : t.finalize.map Prod.snd = t.settle.storeTaints := by
  simp only [finalize, Option.bind_eq_bind]
  cases t.settle.storeTaints with
  | none => rfl
  | some stored => rfl

theorem Related.storeTaints_eq {own : Finset Label} {s : Stale} {t t₀ : TaintTracker}
    (h : Related own s t t₀) (hown : own ⊆ t₀.taintedLabels) : t.storeTaints = t₀.storeTaints := by
  simp only [storeTaints, h.sandboxBase, h.tainted.any_isMem hown,
    h.tainted.storedLabels_eq hown]

/-- If nothing that is left does harm to an input, it is traced as by a fresh tracker. -/
theorem traceInput_undisturbed {t : TaintTracker} {input : TracedInput} (ht : AtRest t)
    (h : Undisturbed t input) :
    (t.traceInput input).map Prod.snd = (traceInput {} input).map Prod.snd := by
  have hrun := (related_started ht h.tainted).calls h.reads
  simp only [traceInput, enable_of_not_inProgress ht.trackingInProgress,
    enable_of_not_inProgress atRest_init.trackingInProgress, Option.bind_eq_bind, Option.bind_some]
  rcases hrun with ⟨hfails, hfails₀⟩ | ⟨t', t₀', s', hcalls, hcalls₀, hrel⟩
  · rw [hfails, hfails₀]
  · rw [hcalls, hcalls₀, Option.bind_some, Option.bind_some]
    have hown : ownTaints input ⊆ t₀'.settle.taintedLabels := by
      rw [ownTaints, hcalls₀]
    by_cases hr : input.raises = true
    · rw [if_pos hr, if_pos hr]
    · rw [if_neg hr, if_neg hr, finalize_snd, finalize_snd, hrel.storeTaints_eq hown]

theorem traceInputs_undisturbed {t : TaintTracker} {inputs : List TracedInput} (ht : AtRest t)
    (hbal : ∀ input ∈ inputs, Balanced input) (hstarts : UndisturbedStarts t inputs) :
    t.traceInputs inputs = traceAlone inputs := by
  induction inputs generalizing t with
  | nil => rfl
  | cons input inputs ih =>
    rw [List.forall_mem_cons] at hbal
    have hsame := traceInput_undisturbed ht hstarts.1
    rw [traceInputs, traceAlone]
    cases h : t.traceInput input with
    | none =>
      rw [h, Option.map_none, eq_comm, Option.map_eq_none_iff] at hsame
      rw [hsame]
    | some r =>
      rw [h, Option.map_some, eq_comm, Option.map_eq_some_iff] at hsame
      obtain ⟨r', hr', heq⟩ := hsame
      rw [hr']
      show r.2 :: _ = r'.2 :: _
      rw [heq, ih (traceInput_atRest ht hbal.1 h) hbal.2 (hstarts.2 r.1 r.2 h)]

theorem leftover_fresh (own : Finset Label) (l : Label) : leftover own {} l = false := by
  cases l with
  | reg r => simp [leftover, Dependencies.ofLabel, Dependencies.ofReg]
  | mem addr => simp [leftover, Dependencies.ofLabel, Dependencies.ofMem]

/-- No label is stale. -/
def Stale.None (s : Stale) : Prop := ∀ now ∈ s.now :: s.saved, ∀ l, now l = false

theorem Stale.None.settle {s : Stale} (hs : s.None) (i : Option TrackedInstruction) :
    (s.settle i).None := by
  cases i with
  | none => exact hs
  | some i =>
    intro now hnow l
    rcases List.mem_cons.mp hnow with rfl | hnow
    · show (s.now l && _) = false
      rw [hs s.now (by simp) l, Bool.false_and]
    · exact hs now (List.mem_cons_of_mem _ hnow) l

theorem Stale.None.push {s : Stale} (hs : s.None) : s.push.None := by
  intro now hnow
  rcases List.mem_cons.mp hnow with rfl | hnow
  · exact hs s.now (by simp)
  · exact hs now hnow

theorem Stale.None.call {s : Stale} (hs : s.None) (i : Option TrackedInstruction)
    (c : TrackerCall) : (s.call i c).None := by
  cases c with
  | trackInstruction o r14 => exact hs.settle i
  | checkpoint includeCurrentInst =>
    cases includeCurrentInst with
    | true => exact (hs.settle i).push
    | false => exact hs.push
  | rollback =>
    obtain ⟨now, saved⟩ := s
    cases saved with
    | nil => exact hs
    | cons now' saved => exact fun n hn => hs n (List.mem_cons_of_mem _ hn)
  | trackMemoryAccess isWrite addr size => exact hs
  | taint type => exact hs

/-- Without stale labels every read is fresh. -/
theorem readsFresh_of_none {s : Stale} (hs : s.None) (t : TaintTracker) (cs : List TrackerCall) :
    readsFresh s t cs = true := by
  have hfresh : ∀ {s : Stale}, s.None → ∀ t, freshReads s.now t = true := by
    intro s hs t
    unfold freshReads
    cases t.currentInstruction with
    | none => rfl
    | some i => exact decide_eq_true fun l _ => hs _ (by simp) l
  induction cs generalizing s t with
  | nil => exact hfresh hs t
  | cons c cs ih =>
    rw [readsFresh, hfresh hs t, Bool.true_and]
    cases t.call c with
    | none => rfl
    | some t' => exact ih (hs.call t.currentInstruction c) t'

/-- The first input of a process is undisturbed. -/
theorem undisturbed_first (input : TracedInput) : Undisturbed {} input :=
  ⟨by simp, readsFresh_of_none (by simpa [Stale.None] using leftover_fresh _) _ _⟩

/-- In a process in which what earlier inputs have left in the tracker does no harm to the inputs
after them, each input is given the taints that a fresh tracker gives it. -/
theorem traceInputs_isolated (inputs : List TracedInput)
    (hbal : ∀ input ∈ inputs, Balanced input) (hstarts : UndisturbedStarts {} inputs) :
    traceInputs {} inputs = traceAlone inputs :=
  traceInputs_undisturbed atRest_init hbal hstarts

/-- The operands of a load through a register into `RCX`. -/
def loadThrough (g : Gpr) : Operands where
  opcode := .movLd
  dsts := [.reg (.gpr .rcx .full)]
  srcs := [.baseDisp (.gpr g .full) .null 1 0]

/-- The operands of `JZ` and of `RET`. -/
def jumpIfZero : Operands where
  opcode := .other 0
  isCbr := true
  readFlags := [.zf]

def ret : Operands where
  opcode := .other 1
  dsts := [.reg (.gpr .rsp .full)]
  srcs := [.reg (.gpr .rsp .full), .baseDisp (.gpr .rsp .full) .null 1 0]

/-- The calls under the CT tracer for a conditional jump, a load through one register where it falls
through and through another one where it is taken, and the return. -/
def jumpAndLoad (g : Gpr) (addr : Nat) : TracedInput where
  calls := [.trackInstruction jumpIfZero 0x11000, .taint .pc,
    .trackInstruction (loadThrough g) 0x11000, .taint .pc, .trackMemoryAccess false addr 8,
    .taint .mem,
    .trackInstruction ret 0x11000, .taint .pc, .trackMemoryAccess false 0x7fff0 8, .taint .mem]

/-- The tracker after an input that falls through. -/
def afterFirst : TaintTracker :=
  ((traceInput {} (jumpAndLoad .rax 0x11000)).map Prod.fst).getD {}

/-- Two inputs that fall through and load from different addresses. The return of the first one has
left dependencies of `RSP`, and its load some of `RCX`, which the second one does not read. -/
theorem traceInputs_isolated_twice :
    traceInputs {} [jumpAndLoad .rax 0x11000, jumpAndLoad .rax 0x11040] =
        traceAlone [jumpAndLoad .rax 0x11000, jumpAndLoad .rax 0x11040] ∧
      (traceAlone [jumpAndLoad .rax 0x11000, jumpAndLoad .rax 0x11040]).length = 2 := by
  refine ⟨traceInputs_isolated _ ?_ ⟨undisturbed_first _, fun t' stored h => ⟨?_, ?_⟩⟩, by
    decide +kernel⟩
  · intro input hinput
    simp only [List.mem_cons, List.not_mem_nil, or_false] at hinput
    rcases hinput with rfl | rfl
    · rfl
    · rfl
  · have ht' : t' = afterFirst := by
      rw [afterFirst, h]
      rfl
    rw [ht']
    exact ⟨by decide +kernel, by decide +kernel⟩
  · exact fun _ _ _ => trivial

/-- The second input, which loads through `RBX`, is given the taint of `RAX` from the first one. -/
theorem traceInputs_not_isolated :
    ∃ stored alone,
      (traceInputs {} [jumpAndLoad .rax 0x11000, jumpAndLoad .rbx 0x11000])[1]? = some stored ∧
      (traceAlone [jumpAndLoad .rax 0x11000, jumpAndLoad .rbx 0x11000])[1]? = some alone ∧
      (.reg (.gpr .rax .full), 0x2000) ∈ stored ∧ (.reg (.gpr .rax .full), 0x2000) ∉ alone :=
  ⟨_, _, rfl, rfl, by decide +kernel, by decide +kernel⟩

end TaintTracker

end Rvzr.Dynamorio
