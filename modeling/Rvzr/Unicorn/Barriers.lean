import Rvzr.Unicorn.Levels

/-!
Serialising instructions. `executedPaths` reads off the log which instructions have taken effect on
the speculative path of every open level. A barrier on such a path should be its end. It is, unless
a store bypass opens its level in the hook of the barrier itself: the barrier test comes first, and
the run was not in speculation then.
-/

namespace Rvzr.Unicorn

open Rvzr.Lib

/-- The instructions that took effect on the path of each open level, innermost level and newest
instruction first. -/
def executedPaths : List Event → List (List Inst)
  | [] => []
  | .execute _ inst :: l =>
    match executedPaths l with
    | [] => []
    | p :: ps => (inst :: p) :: ps
  | .checkpoint _ _ :: l =>
    match executedPaths l with
    | [] => [[]]
    | p :: ps => p :: p :: ps
  | .rollback :: l => (executedPaths l).tail
  | .dispatch _ _ :: l => executedPaths l
  | .access _ :: l => executedPaths l
  | .resume _ :: l => executedPaths l

/-- A barrier that the model dispatches; macro placeholders are not real instructions. -/
def Inst.serialising (inst : Inst) : Bool := inst.isBarrier && !inst.isMacroPlaceholder

def Clean (p : List Inst) : Prop := ∀ x ∈ p, x.serialising = false

/-- No instruction is dispatched or takes effect behind a barrier on a speculative path. -/
def Serialised : List Event → Prop
  | [] => True
  | .dispatch _ _ :: l => Clean ((executedPaths l).headD []) ∧ Serialised l
  | .execute _ _ :: l => Clean ((executedPaths l).headD []) ∧ Serialised l
  | .access _ :: l => Serialised l
  | .checkpoint _ _ :: l => Serialised l
  | .rollback :: l => Serialised l
  | .resume _ :: l => Serialised l

/-- No open level has a barrier behind it. -/
structure BarrierInv (v : View) : Prop where
  serialised : Serialised v.log
  spec : v.inSpeculation = !v.checkpoints.isEmpty
  levels : (executedPaths v.log).length = v.checkpoints.length
  clean : ∀ p ∈ executedPaths v.log, Clean p

namespace BarrierInv

variable {v : View}

theorem head (h : BarrierInv v) : Clean ((executedPaths v.log).headD []) := by
  cases hp : executedPaths v.log with
  | nil => simp [Clean]
  | cons p ps => exact h.clean p (by simp [hp])

theorem nil_of_not_spec (h : BarrierInv v) (hs : v.inSpeculation = false) :
    executedPaths v.log = [] := by
  have hcs : v.checkpoints = [] := by
    have := h.spec
    rw [hs] at this
    simpa using this.symm
  have hl := h.levels
  rw [hcs] at hl
  exact List.eq_nil_of_length_eq_zero hl

theorem access (h : BarrierInv v) (a : Access) : BarrierInv (v.record (.access a)) :=
  ⟨h.serialised, h.spec, h.levels, h.clean⟩

theorem resume (h : BarrierInv v) (ms : MacroState) : BarrierInv (v.record (.resume ms)) :=
  ⟨h.serialised, h.spec, h.levels, h.clean⟩

theorem dispatch (h : BarrierInv v) (pc : Nat) (inst : Inst) : BarrierInv (v.dispatch pc inst) :=
  ⟨⟨h.head, h.serialised⟩, h.spec, h.levels, h.clean⟩

/-- An instruction may take effect if it is no barrier or if nothing is open. -/
theorem execute (h : BarrierInv v) (pc : Nat) {inst : Inst}
    (hi : v.inSpeculation = true → inst.serialising = false) :
    BarrierInv (v.record (.execute pc inst)) := by
  have hser : Serialised (v.record (.execute pc inst)).log := ⟨h.head, h.serialised⟩
  cases hs : v.inSpeculation with
  | false =>
      have hp : executedPaths (v.record (.execute pc inst)).log = [] := by
        simp [View.record, executedPaths, h.nil_of_not_spec hs]
      refine ⟨hser, h.spec, ?_, by simp [hp]⟩
      rw [hp]
      have hl := h.levels
      rwa [h.nil_of_not_spec hs] at hl
  | true =>
      cases hp : executedPaths v.log with
      | nil =>
          have hp' : executedPaths (v.record (.execute pc inst)).log = [] := by
            simp [View.record, executedPaths, hp]
          refine ⟨hser, h.spec, ?_, by simp [hp']⟩
          rw [hp']
          have hl := h.levels
          rwa [hp] at hl
      | cons p ps =>
          have hp' : executedPaths (v.record (.execute pc inst)).log = (inst :: p) :: ps := by
            simp [View.record, executedPaths, hp]
          have hclean : ∀ q ∈ p :: ps, Clean q := fun q hq => h.clean q (hp ▸ hq)
          refine ⟨hser, h.spec, ?_, ?_⟩
          · rw [hp']
            have hl := h.levels
            rwa [hp] at hl
          · intro q hq
            rw [hp'] at hq
            cases List.mem_cons.mp hq with
            | inr hq => exact hclean q (List.mem_cons_of_mem _ hq)
            | inl heq =>
                subst q
                intro x hx
                cases List.mem_cons.mp hx with
                | inl heq => exact heq ▸ hi hs
                | inr hx => exact hclean p List.mem_cons_self x hx

/-- A new level starts on the path of the level outside. -/
theorem checkpoint (h : BarrierInv v) (c : Checkpoint) (included : Bool) (ms : MacroState) :
    BarrierInv { v with
      checkpoints := c :: v.checkpoints
      inSpeculation := true
      log := .checkpoint included ms :: v.log } := by
  have hl := h.levels
  cases hp : executedPaths v.log with
  | nil =>
      refine ⟨h.serialised, rfl, ?_, ?_⟩
      · rw [hp] at hl
        simp [executedPaths, hp, ← hl]
      · simp [executedPaths, hp, Clean]
  | cons p ps =>
      have hclean : ∀ q ∈ p :: ps, Clean q := fun q hq => h.clean q (hp ▸ hq)
      refine ⟨h.serialised, rfl, ?_, ?_⟩
      · rw [hp] at hl
        simp [executedPaths, hp, ← hl]
      · intro q hq
        simp only [executedPaths, hp, List.mem_cons] at hq
        exact hclean q (by simp only [List.mem_cons]; tauto)

theorem rollback (h : BarrierInv v) {v' : View} (hr : v.rollback = some v') : BarrierInv v' := by
  unfold View.rollback at hr
  cases hcs : v.checkpoints with
  | nil => simp [hcs] at hr
  | cons c cs =>
      simp only [hcs, Option.some.injEq] at hr
      subst v'
      refine ⟨h.serialised, ?_, ?_, fun p hp => h.clean p (List.mem_of_mem_tail hp)⟩
      · show (v.inSpeculation && !cs.isEmpty) = !cs.isEmpty
        simp [h.spec, hcs]
      · have hl := h.levels
        rw [hcs] at hl
        show (executedPaths v.log).tail.length = cs.length
        rw [List.length_tail, hl]
        rfl

end BarrierInv

namespace Setup

variable (m : Setup)

/-- The speculator opens a level that gets behind the barrier at hand: a store is still pending when
the barrier is reached outside speculation, or the bytes of the barrier are those of a jump. -/
def PassesBarrier (c : Mode × State) : Prop :=
  ∃ pc size inst, c.1 = .emu pc ∧ m.AtInstruction pc size inst c.2 ∧
    inst.isMacroPlaceholder = false ∧ inst.isBarrier = true ∧
    ((c.2.inSpeculation = false ∧ m.OpensBpas c.2) ∨
      (c.2.inSpeculation = true ∧ m.OpensCond pc size c.2))

variable {m}

theorem notBarrier_of_stop {lim : Limits} {inst : Inst} {v : View}
    (h : stopRequested lim inst v = false) (hs : v.inSpeculation = true) :
    inst.serialising = false := by
  simp only [stopRequested, hs, Bool.true_and, Bool.or_eq_false_iff] at h
  simp [Inst.serialising, h.1]

/-- Barriers are kept by every step that does not open a level past one. -/
theorem barrier_preserved (m : Setup) :
    m.Preserved (fun c => ¬m.PassesBarrier c) BarrierInv BarrierInv where
  toR _ h := h
  access _ a h := h.access a
  resume _ ms h := h.resume ms
  rollback _ _ h hr := h.rollback hr
  placeholder _ pc inst hplace h := h.execute pc fun _ => by simp [Inst.serialising, hplace]
  hook s pc size inst h hok hat hplace := by
    obtain ⟨hstop, hcases⟩ := m.hookAt_cases pc size inst s
    rw [hstop]
    have hd := h.dispatch pc inst
    -- outside the steps that are ruled out, an instruction that opens a level is no barrier
    have hno : ∀ b, s.inSpeculation = b → inst.isBarrier = true →
        ¬((b = false ∧ m.OpensBpas s) ∨ (b = true ∧ m.OpensCond pc size s)) := by
      rintro b rfl hb hopens
      exact hok ⟨pc, size, inst, rfl, hat, hplace, hb, hopens⟩
    rcases hcases with ⟨hv, hi⟩ | ⟨hopens, ⟨c, ms, -, hv⟩, hi, -⟩ | ⟨hopens, ⟨c, ms, -, hv⟩, hi⟩
    · rw [hv, hi]
      exact ⟨hd, fun _ => hd, fun hst => hd.execute pc fun hs => notBarrier_of_stop hst hs⟩
    · have hexec : BarrierInv ((s.view.dispatch pc inst).record (.execute pc inst)) := by
        apply hd.execute pc
        intro hs
        by_contra hb
        have hb' : inst.isBarrier = true := by
          simp only [Inst.serialising, hplace, Bool.not_false, Bool.and_true] at hb
          simpa using hb
        exact hno true hs hb' (.inr ⟨rfl, hopens⟩)
      have hopen := hexec.checkpoint c true ms
      rw [hv, hi]
      exact ⟨hopen, fun _ => hopen, fun _ => hopen⟩
    · have hopen := hd.checkpoint c false ms
      rw [hv, hi]
      refine ⟨hopen, fun _ => hopen, fun hst => hopen.execute pc fun _ => ?_⟩
      cases hs : s.inSpeculation with
      | true => exact notBarrier_of_stop hst hs
      | false =>
          by_contra hb
          have hb' : inst.isBarrier = true := by
            simp only [Inst.serialising, hplace, Bool.not_false, Bool.and_true] at hb
            simpa using hb
          exact hno false hs hb' (.inl ⟨rfl, hopens⟩)

/-- **Barriers end speculation.** In a run in which no step opens a level past a barrier, no
instruction is dispatched or takes effect behind a barrier on a speculative path. -/
theorem run_serialised (m : Setup) (em : Emulator) (targets : SwitchKey → Nat) (lstar n : Nat)
    (hok : ∀ k < n, ¬m.PassesBarrier (m.run em targets lstar k)) :
    Serialised (m.run em targets lstar n).2.log := by
  have hstart : BarrierInv (m.start em targets lstar).2.view :=
    ⟨trivial, rfl, rfl, by simp [start, State.view, executedPaths]⟩
  exact ((barrier_preserved m).roll_of_holds
    ((barrier_preserved m).holds_run hstart n hok)).serialised

/-! ### A store before a fence -/

/-- A store at the start, then instructions without memory accesses. -/
def fenceUc : Uc where
  fetch _ _ := .ok 2
  exec em pc := ⟨if pc = 0 then [.write 131072 [1]] else [], .done em.reg (pc + 2)⟩

/-- A store, a fence at the given offset, and other instructions, traced with nesting 1 and a
window of one instruction. -/
def storeFence (fence : Nat) : Setup where
  uc := fenceUc
  lim := ⟨.storeBpasSpeculator, 1, 1⟩
  dataStart := 65536
  codeStart := 0
  nActors := 1
  exitAddr := 256
  faultHandlerAddr := 256
  instruction _ offset :=
    some ⟨if offset = 0 then "mov" else if offset = fence then "lfence" else "nop", false, .unknown⟩
  functionTable := []
  macroTable := []
  privilegeLevel _ := some .kernel
  isAmd := false
  handledFaults _ := false
  softFault _ _ := none

def fenceStart : Emulator := ⟨fun _ => 0, fun _ => 2⟩

instance (p : List Inst) : Decidable (Clean p) :=
  inferInstanceAs (Decidable (∀ x ∈ p, x.serialising = false))

instance decidableSerialised : (l : List Event) → Decidable (Serialised l)
  | [] => .isTrue trivial
  | .dispatch _ _ :: l => @instDecidableAnd _ _ inferInstance (decidableSerialised l)
  | .execute _ _ :: l => @instDecidableAnd _ _ inferInstance (decidableSerialised l)
  | .access _ :: l => decidableSerialised l
  | .checkpoint _ _ :: l => decidableSerialised l
  | .rollback :: l => decidableSerialised l
  | .resume _ :: l => decidableSerialised l

/-- The bypass of the store opens its level in the hook of the fence; the fence executes inside,
and the instruction after it is dispatched. -/
theorem storeFence_not_serialised :
    ¬Serialised ((storeFence 2).run fenceStart (fun _ => 0) 256 4).2.log := by
  decide +kernel

/-- With an instruction between the store and the fence, the fence ends the speculation. -/
theorem storeFence_serialised :
    (∀ k < 6, ¬(storeFence 4).PassesBarrier ((storeFence 4).run fenceStart (fun _ => 0) 256 k)) ∧
      Serialised ((storeFence 4).run fenceStart (fun _ => 0) 256 6).2.log := by
  have hspec : ∀ k < 6, ((storeFence 4).run fenceStart (fun _ => 0) 256 k).1 = .emu 4 →
      ((storeFence 4).run fenceStart (fun _ => 0) 256 k).2.inSpeculation = true := by
    decide +kernel
  have hmain : ∀ k < 6,
      ((storeFence 4).run fenceStart (fun _ => 0) 256 k).2.currentActor = 0 := by
    decide +kernel
  have hok : ∀ k < 6,
      ¬(storeFence 4).PassesBarrier ((storeFence 4).run fenceStart (fun _ => 0) 256 k) := by
    rintro k hk ⟨pc, size, inst, hpc, hat, -, hb, hopens⟩
    have hfour : pc = 4 := by
      have hfound := hat.found
      rw [hmain k hk] at hfound
      have hinst : ⟨if pc = 0 then "mov" else if pc = 4 then "lfence" else "nop", false,
          .unknown⟩ = inst := Option.some.inj hfound
      by_contra hne
      rw [← hinst] at hb
      by_cases h0 : pc = 0
      · simp [Inst.isBarrier, barriers, h0] at hb
      · simp [Inst.isBarrier, barriers, h0, hne] at hb
    cases hopens with
    | inl h =>
        have := hspec k hk (hfour ▸ hpc)
        simp [h.1] at this
    | inr h => exact absurd h.2.1 (by decide)
  exact ⟨hok, run_serialised (storeFence 4) fenceStart (fun _ => 0) 256 6 hok⟩

end Setup

end Rvzr.Unicorn
