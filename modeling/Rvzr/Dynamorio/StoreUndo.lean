import Rvzr.Dynamorio.Nesting
import Rvzr.Dynamorio.Dispatcher

/-!
The store log of the DynamoRIO speculators at work: what the memory accesses of an instruction put
into it, and that undoing its entries brings the memory back. A rollback undoes the entries of one
window and leaves the others, so the memory that all of them lead back to stays the same.
-/

namespace Rvzr.Dynamorio

open Rvzr.Lib

namespace StoreLogEntry

/-- The address lies in the logged word. -/
def Covers (e : StoreLogEntry) (x : Nat) : Prop := e.addr ≤ x ∧ x < e.addr + e.size

/-- The entry has the bytes that the memory holds. -/
def Saved (mem : Mem) (e : StoreLogEntry) : Prop :=
  mem.read e.addr e.size = leBytes e.size e.val

def Writable (p : Process) (e : StoreLogEntry) : Prop :=
  Process.covers p.writable e.addr e.size = true

end StoreLogEntry

namespace StoreLog

/-- The memory with the stores of a log undone, the newest entry first. -/
def undo (mem : Mem) (es : List StoreLogEntry) : Mem :=
  es.foldl (fun mem e => mem.write e.addr (leBytes e.size e.val)) mem

@[simp] theorem undo_nil (mem : Mem) : undo mem [] = mem := rfl

@[simp] theorem undo_cons (mem : Mem) (e : StoreLogEntry) (es : List StoreLogEntry) :
    undo mem (e :: es) = undo (mem.write e.addr (leBytes e.size e.val)) es := rfl

theorem undo_append (mem : Mem) (es es' : List StoreLogEntry) :
    undo mem (es ++ es') = undo (undo mem es) es' := List.foldl_append

/-- Entries that were saved together undo whatever was written to their words. -/
theorem undo_saved {mem mem' : Mem} {es : List StoreLogEntry} (hsaved : ∀ e ∈ es, e.Saved mem)
    (hsame : ∀ x, (∀ e ∈ es, ¬ e.Covers x) → mem' x = mem x) : undo mem' es = mem := by
  induction es generalizing mem' with
  | nil =>
    funext x
    exact hsame x (by simp)
  | cons e es ih =>
    rw [undo_cons]
    apply ih (fun e' he' => hsaved e' (List.mem_cons_of_mem _ he'))
    intro x hx
    rw [← hsaved e List.mem_cons_self]
    by_cases hcov : e.Covers x
    · have hread : (mem.read e.addr e.size)[x - e.addr]? = some (mem x) := by
        rw [read_getElem?, if_pos (by have := hcov.1; have := hcov.2; omega),
          Nat.add_sub_cancel' hcov.1]
      simp [Mem.write, hcov.1, hread]
    · rw [write_other]
      · apply hsame
        intro e' he'
        cases List.mem_cons.1 he' with
        | inl heq => rwa [heq]
        | inr hmem => exact hx e' hmem
      · have hlen : (mem.read e.addr e.size).length = e.size := by simp [Mem.read]
        rw [hlen]
        unfold StoreLogEntry.Covers at hcov
        omega

/-- The entries for the words of a store, the last word first. -/
def entriesOf (mem : Mem) (nesting : Nat) (ws : List (Nat × Nat)) : List StoreLogEntry :=
  ws.reverse.map fun w =>
    { addr := w.1, val := Mem.ofLe (mem.read w.1 w.2), size := w.2, nestingLevel := nesting }

theorem entriesOf_cons (mem : Mem) (nesting : Nat) (w : Nat × Nat) (ws : List (Nat × Nat)) :
    entriesOf mem nesting (w :: ws) = entriesOf mem nesting ws ++
      [{ addr := w.1, val := Mem.ofLe (mem.read w.1 w.2), size := w.2, nestingLevel := nesting }] := by
  simp [entriesOf]

theorem entriesOf_append (mem : Mem) (nesting : Nat) (ws ws' : List (Nat × Nat)) :
    entriesOf mem nesting (ws ++ ws') = entriesOf mem nesting ws' ++ entriesOf mem nesting ws := by
  simp [entriesOf]

theorem mem_entriesOf {mem : Mem} {nesting : Nat} {ws : List (Nat × Nat)} {e : StoreLogEntry}
    (he : e ∈ entriesOf mem nesting ws) :
    (e.addr, e.size) ∈ ws ∧ e.nestingLevel = nesting ∧ e.Saved mem := by
  cases List.mem_map.1 he with
  | intro w hw =>
    rw [← hw.2]
    refine ⟨List.mem_reverse.1 hw.1, rfl, ?_⟩
    have hlen : (mem.read w.1 w.2).length = w.2 := by simp [Mem.read]
    have hback := leBytes_ofLe (mem.read w.1 w.2)
    rw [hlen] at hback
    exact hback.symm

/-- The entries of the instruction at hand, and the others. -/
def uncommitted (l : StoreLog) : List StoreLogEntry := l.entries.take (l.size - l.lastCommitted)
def committed (l : StoreLog) : List StoreLogEntry := l.entries.drop (l.size - l.lastCommitted)

theorem uncommitted_append_committed (l : StoreLog) :
    l.uncommitted ++ l.committed = l.entries := List.take_append_drop _ _

theorem uncommitted_updateCommitted (l : StoreLog) : l.updateCommitted.uncommitted = [] := by
  simp [uncommitted, updateCommitted, size]

end StoreLog

namespace Speculator

variable {lim : Limits} {p : Process}

/-! ### Rollback -/

/-- As long as the logged words can be written, nothing stops the loop. -/
theorem undoStores_writable (nesting : Nat) (mem : Mem) (lastCommitted : Nat)
    {es : List StoreLogEntry} (hw : ∀ e ∈ es, e.Writable p) :
    ∃ r, undoStores p nesting mem lastCommitted es = .ok r ∧ r.2.entries ⊆ es ∧
      StoreLog.undo r.1 r.2.entries = StoreLog.undo mem es := by
  induction es generalizing mem lastCommitted with
  | nil => exact ⟨_, rfl, List.Subset.refl _, rfl⟩
  | cons e es ih =>
    by_cases hlt : e.nestingLevel < nesting
    · refine ⟨(mem, { entries := e :: es, lastCommitted := lastCommitted }), ?_, ?_, rfl⟩
      · simp only [undoStores, if_pos hlt]
      · exact List.Subset.refl _
    · have hwrite : p.safeWrite mem e.addr e.size e.val =
          some (mem.write e.addr (leBytes e.size e.val)) := if_pos (hw e List.mem_cons_self)
      simp only [undoStores, if_neg hlt, hwrite, StoreLog.undo_cons]
      cases ih (mem.write e.addr (leBytes e.size e.val))
          (StoreLog.popBack { entries := e :: es, lastCommitted := lastCommitted }).lastCommitted
          (fun e' he' => hw e' (List.mem_cons_of_mem _ he')) with
      | intro r hr =>
        exact ⟨r, hr.1, List.subset_cons_of_subset _ hr.2.1, hr.2.2⟩

/-- What a rollback to the checkpoint `cp` leaves. -/
structure RolledBack (lim : Limits) (w : World) (cp : Checkpoint) (w' : World) : Prop where
  nested : Nested lim w'.spec
  checkpoints : w.spec.checkpoints = cp :: w'.spec.checkpoints
  mc : w'.mc = cp.mc
  specWindow : w'.spec.specWindow = cp.specWindow
  enabled : w'.spec.enabled = w.spec.enabled
  entries : w'.spec.storeLog.entries ⊆ w.spec.storeLog.entries
  undo : StoreLog.undo w'.mem w'.spec.storeLog.entries =
    StoreLog.undo w.mem w.spec.storeLog.entries
  outside : Host.outside w'.calls = Host.outside w.calls

/-- A rollback whose logged words can be written goes through. -/
theorem rollback_writable {w : World} (h : Nested lim w.spec)
    (hin : w.spec.inSpeculation = true) (hw : ∀ e ∈ w.spec.storeLog.entries, e.Writable p) :
    ∃ cp w', rollback p w = .ok (w', cp.rollbackPc) ∧ RolledBack lim w cp w' := by
  have hsound := rollback_sound (p := p) h hin
  have hok : ∃ r, rollback p w = .ok r ∧
      r.1.spec.storeLog.entries ⊆ w.spec.storeLog.entries ∧
      StoreLog.undo r.1.mem r.1.spec.storeLog.entries =
        StoreLog.undo w.mem w.spec.storeLog.entries ∧
      Host.outside r.1.calls = Host.outside w.calls := by
    cases undoStores_writable w.spec.nesting w.mem w.spec.storeLog.lastCommitted hw with
    | intro r hr =>
      unfold rollback at hsound ⊢
      cases hcp : w.spec.checkpoints with
      | nil =>
        simp only [hcp] at hsound
        cases hsound
      | cons cp cps =>
        simp only [hcp, hr.1, bind, Except.bind, pure, Except.pure] at hsound ⊢
        by_cases hleft : decr32 w.spec.nesting = 0 ∧ ¬ (cps = [] ∧ r.2.entries = [])
        · rw [if_pos hleft] at hsound
          cases hsound
        · rw [if_neg hleft]
          refine ⟨_, rfl, hr.2.1, hr.2.2, ?_⟩
          simp [Host.outside]
  cases hok with
  | intro r hr =>
    rw [hr.1] at hsound
    cases hsound.2.2 with
    | intro cp hcp =>
      refine ⟨cp, r.1, ?_, hsound.1, hcp.1, hcp.2.1, hcp.2.2.2.1, hcp.2.2.2.2, hr.2.1, hr.2.2.1,
        hr.2.2.2⟩
      rw [hr.1, ← hcp.2.2.1]

/-! ### Logging the stores of an instruction -/

/-- `dr_safe_read` of the word succeeds. -/
def Readable (p : Process) (w : Nat × Nat) : Prop := Process.covers p.readable w.1 w.2 = true

/-- Reading stopped at the first word of `post`, if there is one. -/
def StopsAt (p : Process) (post : List (Nat × Nat)) : Prop :=
  ∃ w rest, post = w :: rest ∧ ¬ Readable p w

/-- The words up to the first unreadable one are logged. -/
theorem logWords_spec (mem : Mem) (nesting : Nat) (log : StoreLog) (ws : List (Nat × Nat)) :
    ∃ pre post, ws = pre ++ post ∧ (∀ w ∈ pre, Readable p w) ∧
      (logWords p mem nesting log ws).1 =
        { log with entries := StoreLog.entriesOf mem nesting pre ++ log.entries } ∧
      (post = [] ∧ (logWords p mem nesting log ws).2 = true ∨
        StopsAt p post ∧ (logWords p mem nesting log ws).2 = false) := by
  induction ws generalizing log with
  | nil => exact ⟨[], [], rfl, by simp, rfl, .inl ⟨rfl, rfl⟩⟩
  | cons w ws ih =>
    cases w with
    | mk addr size =>
      by_cases hread : Readable p (addr, size)
      · have hval : p.safeRead mem addr size = some (Mem.ofLe (mem.read addr size)) :=
          if_pos hread
        simp only [logWords, hval]
        cases ih (log.pushBack ⟨addr, Mem.ofLe (mem.read addr size), size, nesting⟩) with
        | intro pre h =>
          cases h with
          | intro post h =>
            refine ⟨(addr, size) :: pre, post, by rw [h.1]; rfl, ?_, ?_, h.2.2.2⟩
            · intro w hw
              cases List.mem_cons.1 hw with
              | inl heq => rwa [heq]
              | inr hmem => exact h.2.1 w hmem
            · rw [h.2.2.1, StoreLog.entriesOf_cons]
              simp [StoreLog.pushBack]
      · have hval : p.safeRead mem addr size = none := if_neg hread
        refine ⟨[], (addr, size) :: ws, rfl, by simp, ?_, .inr ⟨⟨_, _, rfl, hread⟩, ?_⟩⟩
        · simp [logWords, hval, StoreLog.entriesOf]
        · simp [logWords, hval]

/-- The words of the memory references that are writes. -/
def writeWords (size : Nat) (refs : List (Nat × Bool)) : List (Nat × Nat) :=
  refs.flatMap fun r => if r.2 then storeWords r.1 size else []

/-- The world with the words logged. -/
def logged (w : World) (calls : List Call) (ws : List (Nat × Nat)) : World := { w with
  spec := { w.spec with storeLog := { w.spec.storeLog with
    entries := StoreLog.entriesOf w.mem w.spec.nesting ws ++ w.spec.storeLog.entries } }
  calls := calls }

theorem logged_append (w : World) (calls calls' : List Call) (ws ws' : List (Nat × Nat)) :
    logged (logged w calls ws) calls' ws' = logged w calls' (ws ++ ws') := by
  simp [logged, StoreLog.entriesOf_append]

theorem StopsAt.append {post : List (Nat × Nat)} (h : StopsAt p post) (ws : List (Nat × Nat)) :
    StopsAt p (post ++ ws) := by
  cases h with
  | intro v h =>
    cases h with
    | intro rest h => exact ⟨v, rest ++ ws, by rw [h.1]; rfl, h.2⟩

/-- One memory reference in speculation. -/
theorem handleMemAccess_spec (isWrite : Bool) (addr size : Nat) {w : World}
    (hin : w.spec.inSpeculation = true) :
    ∃ pre post, (if isWrite then storeWords addr size else []) = pre ++ post ∧
      (∀ v ∈ pre, Readable p v) ∧
      (post = [] ∧ handleMemAccess p isWrite addr size w = (logged w w.calls pre, true) ∨
        StopsAt p post ∧ handleMemAccess p isWrite addr size w = (logged w w.calls pre, false)) := by
  cases isWrite with
  | false =>
    refine ⟨[], [], rfl, by simp, .inl ⟨rfl, ?_⟩⟩
    simp [handleMemAccess, logged, StoreLog.entriesOf]
  | true =>
    cases logWords_spec (p := p) w.mem w.spec.nesting w.spec.storeLog (storeWords addr size) with
    | intro pre h =>
      cases h with
      | intro post h =>
        refine ⟨pre, post, h.1, h.2.1, ?_⟩
        have hworld : handleMemAccess p true addr size w = (logged w w.calls pre,
            (logWords p w.mem w.spec.nesting w.spec.storeLog (storeWords addr size)).2) := by
          simp [handleMemAccess, hin, h.2.2.1, logged]
        rw [hworld]
        cases h.2.2.2 with
        | inl hall => exact .inl ⟨hall.1, by rw [hall.2]⟩
        | inr hstop => exact .inr ⟨hstop.1, by rw [hstop.2]⟩

/-- The memory references of an instruction in speculation: the words of its stores are logged, or
those before an unreadable one are and a rollback follows. -/
theorem accessLoop_spec (size : Nat) {w : World} (hin : w.spec.inSpeculation = true)
    (refs : List (Nat × Bool)) :
    ∃ pre post calls, writeWords size refs = pre ++ post ∧ (∀ v ∈ pre, Readable p v) ∧
      Host.outside calls = Host.outside w.calls ∧
      (post = [] ∧ Host.accessLoop p size w refs = .ok (logged w calls pre, 0) ∨
        StopsAt p post ∧ Host.accessLoop p size w refs = rollback p (logged w calls pre)) := by
  induction refs generalizing w with
  | nil => exact ⟨[], [], w.calls, rfl, by simp, rfl, .inl ⟨rfl, rfl⟩⟩
  | cons ref refs ih =>
    cases ref with
    | mk addr isWrite =>
      have hout : Host.outside (w.calls ++ [.memAccess isWrite addr size]) =
          Host.outside w.calls := by simp [Host.outside]
      have hwords : writeWords size ((addr, isWrite) :: refs) =
          (if isWrite then storeWords addr size else []) ++ writeWords size refs := rfl
      cases handleMemAccess_spec (p := p) isWrite addr size
          (w := { w with calls := w.calls ++ [.memAccess isWrite addr size] }) hin with
      | intro pre h =>
        cases h with
        | intro post h =>
          cases h.2.2 with
          | inr hstop =>
            refine ⟨pre, post ++ writeWords size refs, _, ?_, h.2.1, hout,
              .inr ⟨hstop.1.append _, ?_⟩⟩
            · rw [hwords, h.1, List.append_assoc]
            · simp only [Host.accessLoop, hstop.2]
              rfl
          | inl hall =>
            cases ih (w := logged { w with calls := w.calls ++ [.memAccess isWrite addr size] }
                (w.calls ++ [.memAccess isWrite addr size]) pre) hin with
            | intro pre' h' =>
              cases h' with
              | intro post' h' =>
                cases h' with
                | intro calls h' =>
                  simp only [Host.accessLoop, hall.2, if_true]
                  refine ⟨pre ++ pre', post', calls, ?_, ?_, h'.2.2.1.trans hout, ?_⟩
                  · rw [hwords, h.1, hall.1, h'.1, List.append_nil, List.append_assoc]
                  · intro v hv
                    cases List.mem_append.1 hv with
                    | inl hpre => exact h.2.1 v hpre
                    | inr hpre => exact h'.2.1 v hpre
                  · rw [← logged_append w (w.calls ++ [.memAccess isWrite addr size]) calls]
                    exact h'.2.2.2

end Speculator

end Rvzr.Dynamorio
