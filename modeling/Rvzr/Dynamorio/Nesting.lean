import Rvzr.Dynamorio.Speculator

/-!
The nesting invariant of the DynamoRIO speculators: checkpoints, store log and nesting level agree
after every sequence of handler calls, and a rollback finds its checkpoint and leaves nothing
behind.
-/

namespace Rvzr.Dynamorio

open Rvzr.Lib

/-- What a handler may end with: a good result, or the one abort that a failed memory write
causes. -/
def Sound {α : Type} (good : α → Prop) : Except Abort α → Prop
  | .ok a => good a
  | .error e => e = .rollbackStore

theorem Sound.bind {α β : Type} {good : α → Prop} {good' : β → Prop} {x : Except Abort α}
    {f : α → Except Abort β} (h : Sound good x) (hf : ∀ a, good a → Sound good' (f a)) :
    Sound good' (x >>= f) := by
  cases x with
  | error e => exact h
  | ok a => exact hf a h

theorem Sound.imp {α : Type} {good good' : α → Prop} {x : Except Abort α} (h : Sound good x)
    (hf : ∀ a, good a → good' a) : Sound good' x := by
  cases x with
  | error e => exact h
  | ok a => exact hf a h

namespace StoreLog

/-- No entry counts as committed that is not there. -/
def Bounded (l : StoreLog) : Prop := l.lastCommitted ≤ l.size

theorem Bounded.popBack {l : StoreLog} (h : l.Bounded) : l.popBack.Bounded := by
  cases l with
  | mk entries lastCommitted =>
    cases entries with
    | nil => simp_all [Bounded, StoreLog.popBack, size]
    | cons e es =>
      simp only [Bounded, StoreLog.popBack, size, List.length_cons, List.tail_cons] at h ⊢
      split <;> omega

/-- The flush removes from the end whatever is not committed. -/
theorem flushLoop_spec (lastCommitted : Nat) (es : List StoreLogEntry)
    (h : lastCommitted ≤ es.length) :
    flushLoop lastCommitted es =
      { entries := es.drop (es.length - lastCommitted), lastCommitted := lastCommitted } := by
  induction es with
  | nil => simp [flushLoop]
  | cons e es ih =>
    by_cases hc : lastCommitted < es.length + 1
    · have hne : ¬ es.length + 1 = lastCommitted := by omega
      have hlen : es.length + 1 - lastCommitted = (es.length - lastCommitted) + 1 := by omega
      simp only [flushLoop, hasUncommitted, popBack, size, List.length_cons, hc, decide_true,
        if_true, if_neg hne, hlen, List.drop_succ_cons]
      exact ih (by omega)
    · have heq : lastCommitted = es.length + 1 := by
        simp only [List.length_cons] at h
        omega
      simp [flushLoop, hasUncommitted, size, heq]

theorem flushUncommitted_entries {l : StoreLog} (h : l.Bounded) :
    l.flushUncommitted.entries = l.entries.drop (l.size - l.lastCommitted) := by
  simp only [flushUncommitted, flushLoop_spec _ _ h, size]

theorem Bounded.flushUncommitted {l : StoreLog} (h : l.Bounded) : l.flushUncommitted.Bounded := by
  have hb : l.lastCommitted ≤ l.entries.length := h
  simp only [Bounded, StoreLog.flushUncommitted, flushLoop_spec _ _ h, size, List.length_drop]
  omega

end StoreLog

namespace Speculator

variable {lim : Limits} {p : Process}

/-- The state invariant. The newest entry of the store log has the highest level. -/
structure Nested (lim : Limits) (s : Speculator) : Prop where
  nesting_eq : s.nesting = s.checkpoints.length
  nesting_le : s.nesting ≤ lim.maxNesting
  inSpeculation_iff : s.inSpeculation = true ↔ 0 < s.nesting
  levels_sorted : s.storeLog.entries.Pairwise fun newer older =>
    older.nestingLevel ≤ newer.nestingLevel
  levels_range : ∀ e ∈ s.storeLog.entries, 1 ≤ e.nestingLevel ∧ e.nestingLevel ≤ s.nesting
  bounded : s.storeLog.Bounded

theorem nested_init (enabled : Bool) : Nested lim { enabled := enabled } := by
  refine ⟨rfl, Nat.zero_le _, ?_, List.Pairwise.nil, ?_, Nat.le_refl _⟩
  · simp
  · simp

/-! ### Rollback -/

/-- Undoing stores removes the entries of the level, from the newest one, and can only fail at a
memory write. -/
theorem undoStores_sound (nesting : Nat) (mem : Mem) (lastCommitted : Nat)
    (es : List StoreLogEntry) (hb : lastCommitted ≤ es.length) :
    Sound (fun r => r.2.entries = es.dropWhile (fun e => nesting ≤ e.nestingLevel) ∧ r.2.Bounded)
      (undoStores p nesting mem lastCommitted es) := by
  induction es generalizing mem lastCommitted with
  | nil => exact ⟨rfl, hb⟩
  | cons e es ih =>
    by_cases hlt : e.nestingLevel < nesting
    · have hle : ¬ nesting ≤ e.nestingLevel := by omega
      simp only [undoStores, if_pos hlt]
      exact ⟨by simp [hle], hb⟩
    · have hle : nesting ≤ e.nestingLevel := by omega
      simp only [undoStores, if_neg hlt, List.dropWhile_cons, hle, decide_true, if_true]
      cases hw : p.safeWrite mem e.addr e.size e.val with
      | none => rfl
      | some mem' =>
        have hb' : StoreLog.Bounded { entries := e :: es, lastCommitted := lastCommitted } := hb
        exact ih mem' _ hb'.popBack

theorem dropWhile_levels {n : Nat} {es : List StoreLogEntry}
    (h : es.Pairwise fun newer older => older.nestingLevel ≤ newer.nestingLevel) :
    ∀ e ∈ es.dropWhile (fun e => n ≤ e.nestingLevel), e.nestingLevel < n := by
  induction es with
  | nil => simp
  | cons e es ih =>
    cases h with
    | cons hhead htail =>
      by_cases hle : n ≤ e.nestingLevel
      · simpa [hle] using ih htail
      · intro x hx
        simp only [List.dropWhile_cons, hle, decide_false, Bool.false_eq_true, if_false,
          List.mem_cons] at hx
        cases hx with
        | inl heq => subst heq; omega
        | inr hmem =>
          have := hhead x hmem
          omega

theorem decr32_of_pos {n : Nat} (hpos : 0 < n) (hlt : n < 2 ^ 32) : decr32 n = n - 1 := by
  unfold decr32
  omega

/-- A rollback out of a state that meets the invariant leaves the window one level further out, or
stops at a failed memory write. -/
theorem rollback_sound {w : World} (h : Nested lim w.spec)
    (hin : w.spec.inSpeculation = true) :
    Sound (fun r => Nested lim r.1.spec ∧ r.1.spec.nesting = w.spec.nesting - 1 ∧
      ∃ cp, w.spec.checkpoints = cp :: r.1.spec.checkpoints ∧ r.1.mc = cp.mc ∧
        r.2 = cp.rollbackPc ∧ r.1.spec.specWindow = cp.specWindow ∧
        r.1.spec.enabled = w.spec.enabled)
      (rollback p w) := by
  have hpos : 0 < w.spec.nesting := h.inSpeculation_iff.1 hin
  have hlt : w.spec.nesting < 2 ^ 32 := Nat.lt_of_le_of_lt h.nesting_le lim.maxNesting_lt
  have hlen := h.nesting_eq
  cases hcp : w.spec.checkpoints with
  | nil => simp [hcp] at hlen; omega
  | cons cp cps =>
    have hcps : cps.length = w.spec.nesting - 1 := by
      rw [hcp, List.length_cons] at hlen
      omega
    simp only [rollback, hcp]
    apply Sound.bind (undoStores_sound w.spec.nesting w.mem _ _ h.bounded)
    intro r hr
    have hbelow : ∀ e ∈ r.2.entries, e.nestingLevel < w.spec.nesting := by
      rw [hr.1]
      exact dropWhile_levels h.levels_sorted
    have hrange : ∀ e ∈ r.2.entries, 1 ≤ e.nestingLevel := by
      intro e he
      rw [hr.1] at he
      exact (h.levels_range e (List.dropWhile_subset _ he)).1
    rw [decr32_of_pos hpos hlt]
    have hclear : w.spec.nesting - 1 = 0 → cps = [] ∧ r.2.entries = [] := by
      intro hzero
      constructor
      · exact List.length_eq_zero_iff.1 (by omega)
      · apply List.eq_nil_iff_forall_not_mem.2
        intro e he
        have h1 := hbelow e he
        have h2 := hrange e he
        omega
    have hno : ¬ (w.spec.nesting - 1 = 0 ∧ ¬ (cps = [] ∧ r.2.entries = [])) :=
      fun hc => hc.2 (hclear hc.1)
    rw [if_neg hno]
    refine ⟨⟨hcps.symm, ?_, ?_, ?_, ?_, hr.2⟩, rfl, cp, rfl, rfl, rfl, rfl, rfl⟩
    · have := h.nesting_le
      show w.spec.nesting - 1 ≤ lim.maxNesting
      omega
    · by_cases hzero : w.spec.nesting - 1 = 0
      · simp [hzero]
      · simp [hzero, hin]
        omega
    · show r.2.entries.Pairwise _
      rw [hr.1]
      exact h.levels_sorted.sublist (List.dropWhile_sublist _)
    · intro e he
      have h1 := hbelow e he
      have h2 := hrange e he
      show 1 ≤ e.nestingLevel ∧ e.nestingLevel ≤ w.spec.nesting - 1
      omega

/-! ### The handlers -/

theorem Nested.updateCommitted {s : Speculator} (h : Nested lim s) :
    Nested lim { s with storeLog := s.storeLog.updateCommitted } :=
  { h with bounded := Nat.le_refl _ }

theorem Nested.specWindow {s : Speculator} (h : Nested lim s) (n : Nat) :
    Nested lim { s with specWindow := n } := { h with }

theorem Nested.flushUncommitted {s : Speculator} (h : Nested lim s) :
    Nested lim { s with storeLog := s.storeLog.flushUncommitted } := by
  have hsub : s.storeLog.flushUncommitted.entries.Sublist s.storeLog.entries := by
    rw [StoreLog.flushUncommitted_entries h.bounded]
    exact List.drop_sublist _ _
  exact { h with
    levels_sorted := h.levels_sorted.sublist hsub
    levels_range := fun e he => h.levels_range e (hsub.subset he)
    bounded := h.bounded.flushUncommitted }

theorem Nested.pushBack {s : Speculator} (h : Nested lim s) (hin : s.inSpeculation = true)
    {e : StoreLogEntry} (he : e.nestingLevel = s.nesting) :
    Nested lim { s with storeLog := s.storeLog.pushBack e } := by
  have hpos : 0 < s.nesting := h.inSpeculation_iff.1 hin
  refine { h with levels_sorted := ?_, levels_range := ?_, bounded := ?_ }
  · apply List.Pairwise.cons _ h.levels_sorted
    intro x hx
    rw [he]
    exact (h.levels_range x hx).2
  · intro x hx
    cases List.mem_cons.1 hx with
    | inl heq => rw [heq, he]; exact ⟨hpos, Nat.le_refl _⟩
    | inr hmem => exact h.levels_range x hmem
  · exact Nat.le_succ_of_le h.bounded

/-- Whatever word the log stops at, the invariant holds. -/
theorem Nested.logWords {s : Speculator} (h : Nested lim s) (hin : s.inSpeculation = true)
    (mem : Mem) (ws : List (Nat × Nat)) :
    Nested lim { s with storeLog := (Speculator.logWords p mem s.nesting s.storeLog ws).1 } := by
  induction ws generalizing s with
  | nil => exact h
  | cons word ws ih =>
    cases word with
    | mk addr size =>
      simp only [Speculator.logWords]
      cases hr : p.safeRead mem addr size with
      | none => exact h
      | some val => exact ih (h.pushBack hin (e := ⟨addr, val, size, s.nesting⟩) rfl) hin

theorem Nested.handleMemAccess {w : World} (h : Nested lim w.spec) (isWrite : Bool)
    (addr size : Nat) : Nested lim (Speculator.handleMemAccess p isWrite addr size w).1.spec := by
  unfold Speculator.handleMemAccess
  by_cases hskip : (!w.spec.inSpeculation || !isWrite) = true
  · rw [if_pos hskip]
    exact h
  · rw [if_neg hskip]
    have hin : w.spec.inSpeculation = true := by
      cases hs : w.spec.inSpeculation with
      | true => rfl
      | false => simp [hs] at hskip
    exact h.logWords hin w.mem _

theorem incr32_of_lt {n m : Nat} (h : n < m) (hm : m < 2 ^ 32) : incr32 n = n + 1 := by
  unfold incr32
  omega

theorem Nested.checkpoint {w : World} (h : Nested lim w.spec)
    (hskip : w.spec.skipSpeculation lim = false) (pc : Nat) :
    Nested lim (Speculator.checkpoint w pc).spec := by
  have hlt : w.spec.nesting < lim.maxNesting := by
    simp only [skipSpeculation, Bool.or_eq_false_iff, decide_eq_false_iff_not] at hskip
    omega
  have hincr := incr32_of_lt hlt lim.maxNesting_lt
  refine ⟨?_, ?_, ?_, h.levels_sorted, ?_, h.bounded⟩
  · show incr32 w.spec.nesting = (_ :: w.spec.checkpoints).length
    rw [hincr, List.length_cons, h.nesting_eq]
  · show incr32 w.spec.nesting ≤ lim.maxNesting
    omega
  · show true = true ↔ 0 < incr32 w.spec.nesting
    simp [hincr]
  · intro e he
    have := h.levels_range e he
    show 1 ≤ e.nestingLevel ∧ e.nestingLevel ≤ incr32 w.spec.nesting
    omega

theorem Nested.handleInstructionABC {w : World} (h : Nested lim w.spec) (i : Instr) :
    Sound (fun r => Nested lim r.1.spec) (Speculator.handleInstructionABC lim p i w) := by
  simp only [Speculator.handleInstructionABC]
  by_cases hin : w.spec.inSpeculation = true
  · have hroll : ∀ n, Sound (fun r => Nested lim r.1.spec)
        (rollback p { w with spec := { w.spec with
          storeLog := w.spec.storeLog.updateCommitted, specWindow := n } }) := fun n =>
      (rollback_sound (w := { w with spec := { w.spec with
        storeLog := w.spec.storeLog.updateCommitted, specWindow := n } })
        (h.updateCommitted.specWindow n) hin).imp fun _ hr => hr.1
    rw [if_neg (by simp [hin])]
    split
    · exact hroll w.spec.specWindow
    · split
      · exact hroll _
      · split
        · exact hroll _
        · exact h.updateCommitted.specWindow _
  · rw [if_pos (by simpa using hin)]
    exact h.updateCommitted

theorem Nested.handleException {w : World} (h : Nested lim w.spec) :
    Sound (fun r => Nested lim r.1.spec) (Speculator.handleException lim p w) := by
  simp only [Speculator.handleException]
  by_cases hin : w.spec.inSpeculation = true
  · rw [if_neg (by simp [hin])]
    split
    · exact h
    · apply Sound.bind (rollback_sound (w := { w with spec := { w.spec with
        storeLog := w.spec.storeLog.flushUncommitted } }) h.flushUncommitted hin)
      intro r hr
      exact hr.1
  · rw [if_pos (by simpa using hin)]
    exact h

end Speculator

namespace SpeculatorCond

open Speculator

variable {lim : Limits} {p : Process}

theorem nested_mispredict {w : World} (h : Nested lim w.spec) (i : Instr) :
    Nested lim (mispredict lim p i w).1.spec := by
  simp only [mispredict]
  cases hskip : w.spec.skipSpeculation lim with
  | true => exact h
  | false =>
    cases hcbr : i.isCbr with
    | false => exact h
    | true =>
      simp only [Bool.not_true, Bool.false_eq_true, if_false]
      have hopen := Nested.checkpoint (w := { w with mc := countDown i w.mc }) h hskip
      split
      · exact hopen _
      · exact hopen _

theorem nested_handleInstruction {w : World} (h : Nested lim w.spec) (i : Instr) :
    Sound (fun r => Nested lim r.1.spec) (handleInstruction lim p i w) := by
  unfold handleInstruction
  apply Sound.bind (h.handleInstructionABC i)
  intro r hr
  show Nested lim (if r.2 ≠ 0 then r else mispredict lim p i r.1).1.spec
  split
  · exact hr
  · exact nested_mispredict hr i

/-! ### Sequences of calls -/

/-- A call into the speculator from outside. `memAccessDispatch` is a memory access with the
rollback that the dispatcher makes when it is rejected, `exitCallback` the rollback that it makes
at a speculative exit. -/
inductive SpecCall where
  | enable
  | disable
  | handleInstruction (i : Instr)
  | handleMemAccess (isWrite : Bool) (addr size : Nat)
  | memAccessDispatch (isWrite : Bool) (addr size : Nat)
  | handleException
  | exitCallback

/-- A call together with the process, the machine context and the memory it meets: between two
calls the program may have done anything to them. -/
structure Event where
  process : Process
  mc : Mcontext
  mem : Mem
  call : SpecCall

/-- One call; after an abort nothing happens any more. -/
def step (lim : Limits) (s : Except Abort Speculator) (e : Event) : Except Abort Speculator :=
  match s with
  | .error a => .error a
  | .ok s =>
    let w : World := { mc := e.mc, mem := e.mem, spec := s }
    match e.call with
    | .enable => .ok { s with enabled := true }
    | .disable => .ok { s with enabled := false }
    | .handleInstruction i =>
      (SpeculatorCond.handleInstruction lim e.process i w).map fun r => r.1.spec
    | .handleMemAccess isWrite addr size =>
      .ok (Speculator.handleMemAccess e.process isWrite addr size w).1.spec
    | .memAccessDispatch isWrite addr size =>
      let r := Speculator.handleMemAccess e.process isWrite addr size w
      if r.2 then .ok r.1.spec else (Speculator.rollback e.process r.1).map fun r => r.1.spec
    | .handleException => (Speculator.handleException lim e.process w).map fun r => r.1.spec
    | .exitCallback =>
      if s.inSpeculation then (Speculator.rollback e.process w).map fun r => r.1.spec else .ok s

theorem Sound.map {α β : Type} {good : β → Prop} {f : α → β} {x : Except Abort α}
    (h : Sound (fun a => good (f a)) x) : Sound good (x.map f) := by
  cases x with
  | error e => exact h
  | ok a => exact h

/-- A rejected access is one made while speculating, and it leaves the speculator there. -/
theorem inSpeculation_of_rejected {isWrite : Bool} {addr size : Nat} {w : World}
    (h : (handleMemAccess p isWrite addr size w).2 = false) :
    (handleMemAccess p isWrite addr size w).1.spec.inSpeculation = true := by
  unfold handleMemAccess at h ⊢
  by_cases hskip : (!w.spec.inSpeculation || !isWrite) = true
  · rw [if_pos hskip] at h
    cases h
  · rw [if_neg hskip]
    cases hin : w.spec.inSpeculation with
    | true => rfl
    | false => simp [hin] at hskip

theorem nested_step (s : Except Abort Speculator) (e : Event) (h : Sound (Nested lim) s) :
    Sound (Nested lim) (step lim s e) := by
  cases s with
  | error a => exact h
  | ok s =>
    have hs : Nested lim s := h
    simp only [step]
    cases e.call with
    | enable => exact { hs with }
    | disable => exact { hs with }
    | handleInstruction i => exact Sound.map (nested_handleInstruction hs i)
    | handleMemAccess isWrite addr size =>
      exact Nested.handleMemAccess (w := { mc := e.mc, mem := e.mem, spec := s }) hs isWrite addr size
    | memAccessDispatch isWrite addr size =>
      have hlog := Nested.handleMemAccess (p := e.process)
        (w := { mc := e.mc, mem := e.mem, spec := s }) hs isWrite addr size
      dsimp only
      split
      · exact hlog
      · rename_i hrejected
        exact Sound.map ((rollback_sound hlog
          (inSpeculation_of_rejected (by simpa using hrejected))).imp fun _ hr => hr.1)
    | handleException =>
      exact Sound.map (Nested.handleException (w := { mc := e.mc, mem := e.mem, spec := s }) hs)
    | exitCallback =>
      by_cases hin : s.inSpeculation = true
      · simp only [hin, if_true]
        exact Sound.map ((rollback_sound (w := { mc := e.mc, mem := e.mem, spec := s }) hs
          hin).imp fun _ hr => hr.1)
      · rw [if_neg hin]
        exact hs

/-- After any sequence of calls on a fresh speculator, its state meets the invariant, or the
process was ended by a memory write that failed: neither of the other two aborts is reached. -/
theorem nested_run (lim : Limits) (es : List Event) :
    (∀ s, run (step lim) (.ok {}) es = .ok s → Nested lim s) ∧
    run (step lim) (.ok {}) es ≠ .error .noCheckpoints ∧
    run (step lim) (.ok {}) es ≠ .error .leftovers := by
  have hinit : Sound (Nested lim) (.ok {}) := nested_init false
  have hrun : Sound (Nested lim) (run (step lim) (.ok {}) es) := run_inv nested_step hinit es
  cases hr : run (step lim) (.ok {}) es with
  | error a =>
    rw [hr] at hrun
    have ha : a = .rollbackStore := hrun
    subst ha
    refine ⟨?_, ?_, ?_⟩ <;> simp
  | ok s =>
    rw [hr] at hrun
    refine ⟨?_, ?_, ?_⟩
    · intro s' hs'
      cases hs'
      exact hrun
    · simp
    · simp

end SpeculatorCond

end Rvzr.Dynamorio
