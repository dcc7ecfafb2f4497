import Rvzr.Unicorn.Levels

/-!
The sequential run as the reference for the others. It opens nothing and no store is ever pending
in it. As long as another speculator opens no checkpoint either, its run is the sequential one, up
to the store that the store bypass keeps in mind; `noted` reads this store off the sequential log.
-/

namespace Rvzr.Unicorn

open Rvzr.Lib

/-- Events that belong to no checkpoint. -/
def Event.flat : Event → Bool
  | .checkpoint _ _ => false
  | .rollback => false
  | _ => true

/-! ### Stores that the bypass keeps in mind -/

/-- One more store: the first one is kept, a duplicate call is ignored, and another store is the
end of the run. -/
def note (w : Option (Nat × List UInt8)) (address : Nat) (bytes : List UInt8) :
    Option (Option (Nat × List UInt8)) :=
  match w with
  | none => some (some (address, bytes))
  | some (a, bs) =>
    if a ≤ address ∧ address + bytes.length ≤ a + bs.length ∧
        (bs[address - a]?.map UInt8.toNat) = some (Mem.ofLe bytes) then some (some (a, bs))
    else none

/-- The store that is pending after a log, or `none` after an instruction with several stores. -/
def noted : List Event → Option (Option (Nat × List UInt8))
  | [] => some none
  | .access (.write address bytes) :: l => (noted l).bind fun w => note w address bytes
  | .dispatch _ _ :: l => (noted l).map fun _ => none
  | .rollback :: l => (noted l).map fun _ => none
  | _ :: l => noted l

/-- Only the store bypass keeps stores in mind. -/
def notedBy (c : SpeculatorCls) (log : List Event) : Option (Option (Nat × List UInt8)) :=
  if c.memAccessOwner = .storeBpasSpeculator then noted log else some none

theorem noted_none_cons (e : Event) {l : List Event} (h : noted l = none) :
    noted (e :: l) = none := by
  cases e with
  | access a => cases a <;> simp [noted, h]
  | _ => simp [noted, h]

theorem notedBy_none_cons {c : SpeculatorCls} (e : Event) {l : List Event}
    (h : notedBy c l = none) : notedBy c (e :: l) = none := by
  unfold notedBy at h ⊢
  split at h
  · rename_i hc
    rw [if_pos hc]
    exact noted_none_cons e h
  · simp at h

def PendingStore.key (p : PendingStore) : Nat × List UInt8 := (p.address, p.newValue)

def State.withPending (t : State) (p : Option PendingStore) : State := { t with previousStore := p }

/-- A state of another run against a state of the sequential run. -/
def UpTo (c : SpeculatorCls) (s t : State) : Prop :=
  ∃ p, s = t.withPending p ∧ notedBy c t.log = some (p.map PendingStore.key)

theorem bpasMemAccess_write (s : State) (address : Nat) (bytes : List UInt8) :
    (bpasMemAccess s (.write address bytes) = none ∧
      note (s.previousStore.map PendingStore.key) address bytes = none) ∨
    ∃ p, bpasMemAccess s (.write address bytes) = some (s.withPending p) ∧
      note (s.previousStore.map PendingStore.key) address bytes
        = some (p.map PendingStore.key) := by
  unfold bpasMemAccess note
  cases hp : s.previousStore with
  | none => exact .inr ⟨_, rfl, rfl⟩
  | some q =>
      simp only [Option.map_some, PendingStore.key]
      split
      · exact .inr ⟨some q, by rw [State.withPending, ← hp], rfl⟩
      · exact .inl ⟨rfl, rfl⟩

namespace Setup

variable (m : Setup)

/-- The same test case under another speculator and nesting limit. -/
def under (c : SpeculatorCls) (n : Nat) : Setup :=
  { m with lim := { m.lim with cls := c, maxNesting := n } }

/-- No checkpoint is open and no store pending. -/
structure Quiet (s : State) : Prop where
  checkpoints : s.checkpoints = []
  inSpeculation : s.inSpeculation = false
  previousStore : s.previousStore = none

variable {m}

/-! ### The sequential run -/

section NoPending

variable (hm : m.lim.cls.memAccessOwner ≠ .storeBpasSpeculator) {s : State}

theorem rollbackStep_previousStore (h : s.previousStore = none) :
    (rollbackStep s).2.previousStore = none := by
  unfold rollbackStep Unicorn.rollback
  cases s.checkpoints with
  | nil => exact h
  | cons c cs => rfl

theorem afterStop_previousStore (h : s.previousStore = none) :
    (afterStop s).2.previousStore = none := by
  unfold afterStop
  split
  · exact rollbackStep_previousStore h
  · exact h

theorem afterFault_previousStore (errno : Nat) (h : s.previousStore = none) :
    (m.afterFault errno s).2.previousStore = none := by
  unfold afterFault
  cases s.previousContext with
  | none => exact h
  | some context =>
      have hp : (m.patchContext context s).previousStore = none := by
        unfold patchContext
        rw [addToTrace_previousStore]
        exact h
      simp only [handleFault]
      split
      · exact rollbackStep_previousStore hp
      · split
        · exact hp
        · split
          · split
            · exact hp
            · exact hp
          · exact hp

include hm

theorem execute_previousStore (pc : Nat) (inst : Inst) (h : s.previousStore = none) :
    (m.execute pc inst s).2.previousStore = none := by
  unfold execute
  split
  · exact h
  · rename_i s' hs
    have hs' : s'.previousStore = none := (performAll_previousStore hm hs).trans h
    unfold afterExec
    split
    · exact hs'
    · exact afterFault_previousStore _ hs'
    · split
      · exact hs'
      · rename_i hd
        exact afterFault_previousStore _ ((memAccessDispatch_previousStore hm hd).trans hs')

theorem afterHook_previousStore {pc : Nat} {inst : Inst} {h : Hook} {r : Interpreted}
    (hr : r.Keeps h) (hs : s.previousStore = none) (hp : h.st.previousStore = none) :
    (m.afterHook pc inst r s).2.previousStore = none := by
  cases r with
  | crash => exact hs
  | fault errno h' => exact afterFault_previousStore errno (hr.previousStore.trans hp)
  | ok h' =>
      have hp' := hr.previousStore.trans hp
      simp only [afterHook]
      split
      · exact afterStop_previousStore hp'
      · split
        · show (if h'.included then h'.st else h'.st.record _).previousStore = none
          split <;> exact hp'
        · exact execute_previousStore hm pc inst hp'

/-- Without a store bypass no store is ever pending. -/
theorem step_previousStore {c : Mode × State} (h : c.2.previousStore = none) :
    (m.step c).2.previousStore = none := by
  obtain ⟨mode, s⟩ := c
  cases mode with
  | returned => exact h
  | crashed => exact h
  | loop pc =>
      simp only [step, loopStep]
      split
      · split
        · exact rollbackStep_previousStore h
        · exact h
      · split
        · exact rollbackStep_previousStore h
        · exact h
  | emu pc =>
      simp only [step, emuStep]
      split
      · exact afterStop_previousStore h
      · split
        · exact afterFault_previousStore _ h
        · split
          · exact afterStop_previousStore h
          · split
            · exact h
            · split
              · exact execute_previousStore hm pc _ h
              · exact afterHook_previousStore hm (interpretInstruction_keeps pc _ _) h
                  (hookAt_previousStore pc _ _ h)

end NoPending

/-- Without branch misprediction and store bypass nothing is ever opened, and what the flat events
keep of the log is kept. -/
theorem flat_preserved (hown : m.lim.cls.instructionOwner = .unicornSpeculator)
    {Q : List Event → Prop} (hQ : ∀ e l, e.flat → Q l → Q (e :: l)) :
    m.Preserved (fun _ => True)
      (fun v => v.checkpoints = [] ∧ v.inSpeculation = false ∧ Q v.log)
      (fun v => v.checkpoints = [] ∧ v.inSpeculation = false ∧ Q v.log) where
  toR _ h := h
  access _ a h := ⟨h.1, h.2.1, hQ (.access a) _ rfl h.2.2⟩
  resume _ ms h := ⟨h.1, h.2.1, hQ (.resume ms) _ rfl h.2.2⟩
  rollback v v' h hr := by
    simp [View.rollback, h.1] at hr
  placeholder _ pc inst _ h := ⟨h.1, h.2.1, hQ (.execute pc inst) _ rfl h.2.2⟩
  hook s pc size inst h _ _ _ := by
    have hd : (s.view.dispatch pc inst).checkpoints = [] ∧
        (s.view.dispatch pc inst).inSpeculation = false ∧ Q (s.view.dispatch pc inst).log :=
      ⟨h.1, h.2.1, hQ (.dispatch pc inst) _ rfl h.2.2⟩
    have hview : (m.hookAt pc size inst s).st.view = s.view.dispatch pc inst ∧
        (m.hookAt pc size inst s).included = false := by
      rcases (m.hookAt_cases pc size inst s).2 with hv | ⟨ho, -⟩ | ⟨ho, -⟩
      · exact hv
      · exact absurd (hown.symm.trans ho.1) (by decide)
      · exact absurd (hown.symm.trans ho.1) (by decide)
    rw [hview.1, hview.2]
    exact ⟨hd, fun _ => hd, fun _ => ⟨hd.1, hd.2.1, hQ (.execute pc inst) _ rfl hd.2.2⟩⟩

/-! ### A run that opens nothing -/

theorem addToTrace_pending (t : State) (p : Option PendingStore) (e : CTraceEntry) :
    (t.withPending p).addToTrace e = (t.addToTrace e).withPending p := by
  unfold State.addToTrace
  show (if t.enableTracing then _ else _) = _
  split <;> rfl

theorem addToTrace_log (t : State) (e : CTraceEntry) : (t.addToTrace e).log = t.log :=
  congrArg View.log (view_addToTrace t e)

variable {c : SpeculatorCls} {n b : Nat} {s t : State}

theorem memAccessDispatch_upTo (h : UpTo c s t) (inst : Inst) (a : Access) :
    ∃ t', (m.under .seqSpeculator b).memAccessDispatch inst t a = some t' ∧
      (((m.under c n).memAccessDispatch inst s a = none ∧ notedBy c t'.log = none) ∨
        ∃ s', (m.under c n).memAccessDispatch inst s a = some s' ∧ UpTo c s' t') := by
  obtain ⟨p, rfl, hp⟩ := h
  unfold memAccessDispatch
  cases hplace : inst.isMacroPlaceholder with
  | true => exact ⟨t, rfl, .inr ⟨_, rfl, p, rfl, hp⟩⟩
  | false =>
      have hseq : handleMemAccess (m.under .seqSpeculator b).lim t a = some (logStore t a) :=
        handleMemAccess_eq (m := m.under .seqSpeculator b)
          (fun h => absurd (memOwner_seq.symm.trans h) (by decide)) t a
      have hlog : logStore (t.withPending p) a = (logStore t a).withPending p := by
        cases a <;> rfl
      have hpost : ∀ q, (((logStore t a).withPending q).record (.access a)).addToTrace
            (.mem a.address)
          = (((logStore t a).record (.access a)).addToTrace (.mem a.address)).withPending q :=
        fun q => addToTrace_pending ((logStore t a).record (.access a)) q _
      have htlog : (((logStore t a).record (.access a)).addToTrace (.mem a.address)).log
          = .access a :: t.log := by
        rw [addToTrace_log]
        cases a <;> rfl
      refine ⟨((logStore t a).record (.access a)).addToTrace (.mem a.address), by simp [hseq], ?_⟩
      rw [htlog]
      by_cases hc : c.memAccessOwner = .storeBpasSpeculator
      · have hhandle : handleMemAccess (m.under c n).lim (t.withPending p) a
            = bpasMemAccess ((logStore t a).withPending p) a := by
          have hcls : (m.under c n).lim.cls.memAccessOwner = .storeBpasSpeculator := hc
          unfold handleMemAccess speculateMemAccess
          rw [hcls, hlog]
        simp only [notedBy, if_pos hc] at hp
        cases a with
        | write address bytes =>
            rw [hhandle]
            rcases bpasMemAccess_write ((logStore t (.write address bytes)).withPending p)
              address bytes with ⟨hb, hn⟩ | ⟨q, hb, hn⟩
            · left
              rw [hb]
              refine ⟨rfl, ?_⟩
              simp only [notedBy, if_pos hc, noted, hp, Option.bind_some]
              exact hn
            · right
              rw [hb]
              refine ⟨_, rfl, q, hpost q, ?_⟩
              rw [htlog]
              simp only [notedBy, if_pos hc, noted, hp, Option.bind_some]
              exact hn
        | read | unmapped =>
            right
            rw [hhandle]
            refine ⟨_, rfl, p, hpost p, ?_⟩
            rw [htlog]
            simp only [notedBy, if_pos hc, noted, hp]
      · right
        have hhandle := handleMemAccess_eq (m := m.under c n) hc (t.withPending p) a
        simp only [notedBy, if_neg hc] at hp
        rw [hhandle, hlog]
        refine ⟨_, rfl, p, hpost p, ?_⟩
        rw [htlog]
        simp only [notedBy, if_neg hc, hp]

theorem performAccess_upTo (h : UpTo c s t) (inst : Inst) (a : Access) :
    ∃ t', (m.under .seqSpeculator b).performAccess inst t a = some t' ∧
      (((m.under c n).performAccess inst s a = none ∧ notedBy c t'.log = none) ∨
        ∃ s', (m.under c n).performAccess inst s a = some s' ∧ UpTo c s' t') := by
  obtain ⟨t₁, ht₁, hcases⟩ := memAccessDispatch_upTo (m := m) (n := n) (b := b) h inst a
  unfold performAccess
  rw [ht₁]
  refine ⟨_, rfl, ?_⟩
  rcases hcases with ⟨hs, hn⟩ | ⟨s₁, hs, p, rfl, hp⟩
  · left
    rw [hs]
    cases a <;> exact ⟨rfl, hn⟩
  · right
    rw [hs]
    cases a <;> exact ⟨_, rfl, p, rfl, hp⟩

/-- The sequential run performs every access. -/
theorem performAll_defined (hm : m.lim.cls.memAccessOwner ≠ .storeBpasSpeculator) (inst : Inst)
    (as : List Access) (t : State) : ∃ t', as.foldlM (m.performAccess inst) t = some t' := by
  induction as generalizing t with
  | nil => exact ⟨t, rfl⟩
  | cons a as ih =>
      have hone : ∃ t₁, m.performAccess inst t a = some t₁ := by
        unfold performAccess memAccessDispatch
        cases inst.isMacroPlaceholder with
        | true => exact ⟨_, rfl⟩
        | false =>
            rw [handleMemAccess_eq hm]
            exact ⟨_, rfl⟩
      obtain ⟨t₁, ht₁⟩ := hone
      obtain ⟨t', ht'⟩ := ih t₁
      exact ⟨t', by rw [List.foldlM_cons, ht₁]; exact ht'⟩

theorem seq_memAccessOwner :
    (m.under .seqSpeculator b).lim.cls.memAccessOwner ≠ .storeBpasSpeculator :=
  fun h => absurd (memOwner_seq.symm.trans h) (by decide)

/-- A run in which a store was one too many stays such a run. -/
theorem overrun_preserved (m : Setup) (c : SpeculatorCls) (b : Nat) :
    (m.under .seqSpeculator b).Preserved (fun _ => True)
      (fun v => v.checkpoints = [] ∧ v.inSpeculation = false ∧ notedBy c v.log = none)
      (fun v => v.checkpoints = [] ∧ v.inSpeculation = false ∧ notedBy c v.log = none) :=
  flat_preserved (Q := fun l => notedBy c l = none) owner_seq fun e _ _ h => notedBy_none_cons e h

theorem performAll_upTo (inst : Inst) (as : List Access) (h : UpTo c s t)
    (hcp : t.checkpoints = []) (hspec : t.inSpeculation = false) :
    ∃ t', as.foldlM ((m.under .seqSpeculator b).performAccess inst) t = some t' ∧
      ((as.foldlM ((m.under c n).performAccess inst) s = none ∧
          t'.checkpoints = [] ∧ t'.inSpeculation = false ∧ notedBy c t'.log = none) ∨
        ∃ s', as.foldlM ((m.under c n).performAccess inst) s = some s' ∧ UpTo c s' t') := by
  induction as generalizing s t with
  | nil => exact ⟨t, rfl, .inr ⟨s, rfl, h⟩⟩
  | cons a as ih =>
      obtain ⟨t₁, ht₁, hcases⟩ := performAccess_upTo (m := m) (n := n) (b := b) h inst a
      have hview : t₁.checkpoints = [] ∧ t₁.inSpeculation = false := by
        cases performAccess_view ht₁ with
        | inl hv => exact ⟨(congrArg View.checkpoints hv).trans hcp,
            (congrArg View.inSpeculation hv).trans hspec⟩
        | inr hv => exact ⟨(congrArg View.checkpoints hv).trans hcp,
            (congrArg View.inSpeculation hv).trans hspec⟩
      rw [List.foldlM_cons, List.foldlM_cons, ht₁]
      rcases hcases with ⟨hs, hn⟩ | ⟨s₁, hs, hup⟩
      · obtain ⟨t', ht'⟩ := performAll_defined (seq_memAccessOwner (m := m) (b := b)) inst as t₁
        exact ⟨t', ht', .inl ⟨by rw [hs]; rfl,
          (overrun_preserved m c b).performAll inst ht' ⟨hview.1, hview.2, hn⟩⟩⟩
      · obtain ⟨t', ht', hrest⟩ := ih hup hview.1 hview.2
        rw [hs]
        exact ⟨t', ht', hrest⟩

/-- A configuration of another run against one of the sequential run: the same up to the pending
store, or at its end after a store too many. -/
def Follows (c : SpeculatorCls) (x y : Mode × State) : Prop :=
  (x.1 = y.1 ∧ UpTo c x.2 y.2) ∨ (x.1 = .crashed ∧ notedBy c y.2.log = none)

theorem rollback_withPending (t : State) (p : Option PendingStore) :
    Unicorn.rollback (t.withPending p) = Unicorn.rollback t := rfl

theorem follows_rollbackStep (h : UpTo c s t) : Follows c (rollbackStep s) (rollbackStep t) := by
  obtain ⟨p, rfl, hp⟩ := h
  unfold rollbackStep
  rw [rollback_withPending]
  unfold Unicorn.rollback
  cases t.checkpoints with
  | nil => exact .inl ⟨rfl, p, rfl, hp⟩
  | cons k ks =>
      refine .inl ⟨rfl, none, rfl, ?_⟩
      unfold notedBy at hp ⊢
      split at hp
      · rename_i hc
        simp [noted, hp, hc]
      · rename_i hc
        simp [hc]

theorem follows_afterStop (h : UpTo c s t) : Follows c (afterStop s) (afterStop t) := by
  have hspec : s.inSpeculation = t.inSpeculation := by
    obtain ⟨p, rfl, -⟩ := h
    rfl
  unfold afterStop
  rw [hspec]
  split
  · exact follows_rollbackStep h
  · exact .inl ⟨rfl, h⟩

theorem follows_handleFault (errno : Nat) (h : UpTo c s t) :
    Follows c (m.handleFault errno s) (m.handleFault errno t) := by
  have hroll := follows_rollbackStep h
  obtain ⟨p, rfl, hp⟩ := h
  have hup : ∀ v, UpTo c { t.withPending p with hadArchFault := v }
      { t with hadArchFault := v } := fun v => ⟨p, rfl, hp⟩
  unfold handleFault
  have hspec : (t.withPending p).inSpeculation = t.inSpeculation := rfl
  have harch : (t.withPending p).hadArchFault = t.hadArchFault := rfl
  rw [hspec, harch]
  split
  · exact hroll
  · split
    · exact .inl ⟨rfl, p, rfl, hp⟩
    · split
      · split
        · exact .inl ⟨rfl, hup true⟩
        · exact .inl ⟨rfl, hup true⟩
      · exact .inl ⟨rfl, hup true⟩

theorem follows_afterFault (errno : Nat) (h : UpTo c s t) :
    Follows c (m.afterFault errno s) (m.afterFault errno t) := by
  obtain ⟨p, rfl, hp⟩ := h
  have hprev : (t.withPending p).previousContext = t.previousContext := rfl
  unfold afterFault
  rw [hprev]
  cases t.previousContext with
  | none => exact .inl ⟨rfl, p, rfl, hp⟩
  | some context =>
      apply follows_handleFault
      refine ⟨p, addToTrace_pending { t with reg := context } p _, ?_⟩
      rw [show (m.patchContext context t).log = t.log from
        addToTrace_log { t with reg := context } _]
      exact hp

/-- The state after the accesses of an instruction, and after the access that a fault attempts. -/
theorem follows_afterExec (inst : Inst) (o : Outcome) (h : UpTo c s t)
    (hcp : t.checkpoints = []) (hspec : t.inSpeculation = false) :
    Follows c ((m.under c n).afterExec inst s o)
      ((m.under .seqSpeculator b).afterExec inst t o) := by
  cases o with
  | done reg pc =>
      obtain ⟨p, rfl, hp⟩ := h
      exact .inl ⟨rfl, p, rfl, hp⟩
  | fault errno attempt =>
      cases attempt with
      | none => exact follows_afterFault (m := m) errno h
      | some a =>
          obtain ⟨t', ht', hcases⟩ := memAccessDispatch_upTo (m := m) (n := n) (b := b) h inst a
          have hover := overrun_preserved m c b
          simp only [afterExec, ht']
          rcases hcases with ⟨hs, hn⟩ | ⟨s', hs, hup⟩
          · have hview : t'.checkpoints = [] ∧ t'.inSpeculation = false := by
              cases memAccessDispatch_view ht' with
              | inl hv => exact ⟨(congrArg View.checkpoints hv).trans hcp,
                  (congrArg View.inSpeculation hv).trans hspec⟩
              | inr hv => exact ⟨(congrArg View.checkpoints hv).trans hcp,
                  (congrArg View.inSpeculation hv).trans hspec⟩
            rw [hs]
            have hI := hover.holds_afterFault (s := t') errno ⟨hview.1, hview.2, hn⟩
              fun _ => ⟨hview.1, hview.2, hn⟩
            exact .inr ⟨rfl, (hover.roll_of_holds hI).2.2⟩
          · rw [hs]
            exact follows_afterFault (m := m) errno hup

theorem follows_execute (pc : Nat) (inst : Inst) (h : UpTo c s t)
    (hcp : t.checkpoints = []) (hspec : t.inSpeculation = false) :
    Follows c ((m.under c n).execute pc inst s)
      ((m.under .seqSpeculator b).execute pc inst t) := by
  have hem : s.emulator = t.emulator := by
    obtain ⟨p, rfl, -⟩ := h
    rfl
  have hrec : UpTo c (s.record (.execute pc inst)) (t.record (.execute pc inst)) := by
    obtain ⟨p, rfl, hp⟩ := h
    refine ⟨p, rfl, ?_⟩
    unfold notedBy at hp ⊢
    exact hp
  obtain ⟨t', ht', hcases⟩ := performAll_upTo (m := m) (n := n) (b := b) inst
    (m.uc.exec t.emulator pc).accesses hrec hcp hspec
  have hexec : (m.under .seqSpeculator b).execute pc inst t
      = (m.under .seqSpeculator b).afterExec inst t' (m.uc.exec t.emulator pc).outcome := by
    unfold execute
    rw [show (m.under .seqSpeculator b).uc = m.uc from rfl, ht']
  have hover := overrun_preserved m c b
  rw [hexec]
  rcases hcases with ⟨hs, hI⟩ | ⟨s', hs, hup⟩
  · have hrun : (m.under c n).execute pc inst s = (.crashed, s) := by
      unfold execute
      rw [show (m.under c n).uc = m.uc from rfl, hem, hs]
    rw [hrun]
    exact .inr ⟨rfl, (hover.roll_of_holds (hover.holds_afterExec (s := t') inst _ hI)).2.2⟩
  · have hrun : (m.under c n).execute pc inst s
        = (m.under c n).afterExec inst s' (m.uc.exec t.emulator pc).outcome := by
      unfold execute
      rw [show (m.under c n).uc = m.uc from rfl, hem, hs]
    rw [hrun]
    have hview : t'.checkpoints = [] ∧ t'.inSpeculation = false := by
      have hflat := (flat_preserved (m := m.under .seqSpeculator b) (Q := fun _ => True)
        owner_seq fun _ _ _ _ => trivial).performAll inst ht' ⟨hcp, hspec, trivial⟩
      exact ⟨hflat.1, hflat.2.1⟩
    exact follows_afterExec inst _ hup hview.1 hview.2

/-! ### Opening a checkpoint -/

/-- Outside speculation, the hook of the instruction at hand opens a checkpoint. -/
def Opens (m : Setup) (x : Mode × State) : Prop :=
  ∃ pc size inst, x.1 = .emu pc ∧ m.AtInstruction pc size inst x.2 ∧
    inst.isMacroPlaceholder = false ∧ x.2.inSpeculation = false ∧
    x.2.checkpoints.length < (m.hookAt pc size inst x.2).st.checkpoints.length

theorem countedAt_checkpoints (m : Setup) (pc : Nat) (inst : Inst) (s : State) :
    (m.countedAt pc inst s).st.checkpoints = s.checkpoints :=
  congrArg View.checkpoints (m.countedAt_spec pc inst s).1

theorem maxNestingReached_countedAt (m : Setup) (pc : Nat) (inst : Inst) (s : State) :
    maxNestingReached m.lim (m.countedAt pc inst s).st = maxNestingReached m.lim s := by
  rw [maxNestingReached, maxNestingReached, countedAt_checkpoints]

theorem checkpoint_checkpoints (pc : Nat) (inst : Inst) (next : Nat) (included : Bool) (h : Hook) :
    (checkpoint pc inst next included h).st.checkpoints.length = h.st.checkpoints.length + 1 := by
  cases included <;> rfl

theorem hookAt_opensCond {pc size : Nat} {inst : Inst} (h : m.OpensCond pc size s) :
    s.checkpoints.length < (m.hookAt pc size inst s).st.checkpoints.length := by
  obtain ⟨howner, hn, hsize, hdec⟩ := h
  obtain ⟨-, -, -, -, hmem, hreg, -⟩ := m.countedAt_spec pc inst s
  have hn' := (m.maxNestingReached_countedAt pc inst s).trans hn
  have hcp := m.countedAt_checkpoints pc inst s
  rw [hookAt_eq]
  unfold speculateInstruction
  rw [howner]
  generalize m.countedAt pc inst s = h at hmem hreg hn' hcp
  rw [← hmem, ← hreg] at hdec
  simp only [condInstruction, hn', Bool.false_eq_true, if_false, if_neg (Nat.not_lt.mpr hsize),
    if_neg hdec]
  rw [checkpoint_checkpoints, ← hcp]
  split
  · exact Nat.lt_succ_self _
  · exact Nat.lt_succ_self _

theorem hookAt_opensBpas {pc size : Nat} {inst : Inst} (h : m.OpensBpas s) :
    s.checkpoints.length < (m.hookAt pc size inst s).st.checkpoints.length := by
  obtain ⟨howner, hn, hp⟩ := h
  have hprev := (m.countedAt_spec pc inst s).2.2.2.2.2.2
  have hn' := (m.maxNestingReached_countedAt pc inst s).trans hn
  have hcp := m.countedAt_checkpoints pc inst s
  rw [hookAt_eq]
  unfold speculateInstruction
  rw [howner]
  generalize m.countedAt pc inst s = h at hprev hn' hcp
  cases hq : h.st.previousStore with
  | none => exact absurd (hprev.symm.trans hq) hp
  | some q =>
      simp only [bpasInstruction, hn', Bool.false_eq_true, if_false, hq]
      rw [checkpoint_checkpoints, ← hcp]
      exact Nat.lt_succ_self _

/-- A hook that opens nothing only counts the instruction. -/
theorem hookAt_of_not_opens {pc size : Nat} {inst : Inst} (hn : maxNestingReached m.lim s = false)
    (hno : ¬s.checkpoints.length < (m.hookAt pc size inst s).st.checkpoints.length) :
    m.hookAt pc size inst s = m.countedAt pc inst s := by
  have hcond : ¬m.OpensCond pc size s := fun h => hno (hookAt_opensCond h)
  have hbpas : ¬m.OpensBpas s := fun h => hno (hookAt_opensBpas h)
  obtain ⟨-, -, -, -, hmem, hreg, hprev⟩ := m.countedAt_spec pc inst s
  have hn' := (m.maxNestingReached_countedAt pc inst s).trans hn
  rw [hookAt_eq]
  generalize m.countedAt pc inst s = h at hmem hreg hprev hn'
  unfold speculateInstruction
  split
  · rename_i howner
    rcases condInstruction_cases m.lim pc size inst h with heq | ⟨-, hsize, hdec, -⟩
    · exact heq
    · rw [hmem, hreg] at hdec
      exact absurd ⟨howner, hn, hsize, hdec⟩ hcond
  · rename_i howner
    unfold bpasInstruction
    rw [hn']
    cases hq : h.st.previousStore with
    | none => rfl
    | some q =>
        refine absurd ⟨howner, hn, ?_⟩ hbpas
        rw [← hprev, hq]
        simp
  · rfl

/-! ### One step, and a run -/

theorem owner_of_memOwner {c : SpeculatorCls} (h : c.memAccessOwner = .storeBpasSpeculator) :
    c.instructionOwner = .storeBpasSpeculator := by
  cases c with
  | unicornSpeculator => exact absurd h (by decide)
  | seqSpeculator => exact absurd h (by decide)
  | x86CondSpeculator => exact absurd h (by decide)
  | storeBpasSpeculator => rfl
  | x86CondBpasSpeculator => rfl

theorem notedBy_execute (c : SpeculatorCls) (pc : Nat) (inst : Inst) (l : List Event) :
    notedBy c (.execute pc inst :: l) = notedBy c l := rfl

theorem notedBy_dispatch {c : SpeculatorCls} (pc : Nat) (inst : Inst) {l : List Event}
    (h : notedBy c l ≠ none) : notedBy c (.dispatch pc inst :: l) = some none := by
  unfold notedBy at h ⊢
  split
  · rename_i hc
    rw [if_pos hc] at h
    obtain ⟨w, hw⟩ := Option.ne_none_iff_exists'.mp h
    simp [noted, hw]
  · rfl

/-- A state without a pending store follows itself. -/
theorem upTo_refl {s : State} (h : s.previousStore = none) (hn : notedBy c s.log = some none) :
    UpTo c s s := ⟨none, by rw [State.withPending, ← h], hn⟩

/-- The two hooks agree, and what the interpreter makes of them is followed alike. -/
theorem follows_afterHook (pc : Nat) (inst : Inst) {h : Hook} {r : Interpreted} (hr : r.Keeps h)
    (h₀ : Quiet h.st) (hn : notedBy c h.st.log = some none) (hs : UpTo c s t) :
    Follows c ((m.under c n).afterHook pc inst r s)
      ((m.under .seqSpeculator b).afterHook pc inst r t) := by
  cases r with
  | crash => exact .inl ⟨rfl, hs⟩
  | fault errno h' =>
      have hlog : h'.st.log = h.st.log := congrArg View.log hr.view
      exact follows_afterFault (m := m) errno
        (upTo_refl (hr.previousStore.trans h₀.previousStore) (hlog ▸ hn))
  | ok h' =>
      have hlog : h'.st.log = h.st.log := congrArg View.log hr.view
      have hcp : h'.st.checkpoints = [] := (congrArg View.checkpoints hr.view).trans h₀.checkpoints
      have hspec : h'.st.inSpeculation = false :=
        (congrArg View.inSpeculation hr.view).trans h₀.inSpeculation
      have hprev := hr.previousStore.trans h₀.previousStore
      have hup : UpTo c h'.st h'.st := upTo_refl hprev (hlog ▸ hn)
      simp only [afterHook]
      split
      · exact follows_afterStop hup
      · cases h'.jump with
        | none => exact follows_execute pc inst hup hcp hspec
        | some pc' =>
            refine .inl ⟨rfl, ?_⟩
            show UpTo c (if h'.included then h'.st else h'.st.record (.execute pc inst))
              (if h'.included then h'.st else h'.st.record (.execute pc inst))
            split
            · exact hup
            · have hn' : notedBy c (h'.st.record (.execute pc inst)).log = some none := by
                rw [State.record, notedBy_execute, hlog]
                exact hn
              exact upTo_refl hprev hn'

theorem hookAt_seq (pc size : Nat) (inst : Inst) (s : State) :
    (m.under .seqSpeculator n).hookAt pc size inst s
      = (m.under .seqSpeculator n).countedAt pc inst s := by
  rw [hookAt_eq]
  unfold speculateInstruction
  rw [show (m.under .seqSpeculator n).lim.cls.instructionOwner = .unicornSpeculator from owner_seq]

theorem countedAt_under (pc : Nat) (inst : Inst) {s : State} (hs : s.inSpeculation = false) :
    (m.under c n).countedAt pc inst s = m.countedAt pc inst s := by
  unfold countedAt countInstruction
  simp [State.record, hs]

theorem quiet_countedAt (m : Setup) (pc : Nat) (inst : Inst) {s : State} (h : Quiet s) :
    Quiet (m.countedAt pc inst s).st :=
  ⟨(m.countedAt_checkpoints pc inst s).trans h.checkpoints,
    (congrArg View.inSpeculation (m.countedAt_spec pc inst s).1).trans h.inSpeculation,
    (m.countedAt_spec pc inst s).2.2.2.2.2.2.trans h.previousStore⟩

theorem follows_emuStep {pc : Nat} (h : UpTo c s t) (hq : Quiet t) (hn : 1 ≤ n)
    (hno : ¬(m.under c n).Opens (.emu pc, s)) :
    Follows c ((m.under c n).emuStep pc s) ((m.under .seqSpeculator b).emuStep pc t) := by
  obtain ⟨p, rfl, hp⟩ := h
  have hup : UpTo c (t.withPending p) t := ⟨p, rfl, hp⟩
  unfold emuStep
  have hcode : (m.under c n).codeEnd = m.codeEnd := rfl
  have hcode' : (m.under .seqSpeculator b).codeEnd = m.codeEnd := rfl
  have hmem : (t.withPending p).mem = t.mem := rfl
  have huc : (m.under c n).uc = m.uc := rfl
  have huc' : (m.under .seqSpeculator b).uc = m.uc := rfl
  rw [hcode, hcode', huc, huc', hmem]
  by_cases hend : pc = m.codeEnd
  · rw [if_pos hend, if_pos hend]
    exact follows_afterStop hup
  rw [if_neg hend, if_neg hend]
  cases hfetch : m.uc.fetch t.mem pc with
  | error errno => exact follows_afterFault errno hup
  | ok size =>
      dsimp only
      have hexits : (m.under c n).isExitAddr (t.withPending p) pc = m.isExitAddr t pc := rfl
      have hexits' : (m.under .seqSpeculator b).isExitAddr t pc = m.isExitAddr t pc := rfl
      have hat : (m.under c n).instructionAt (t.withPending p).currentActor pc =
        m.instructionAt t.currentActor pc := rfl
      have hat' : (m.under .seqSpeculator b).instructionAt t.currentActor pc =
        m.instructionAt t.currentActor pc := rfl
      rw [hexits, hexits', hat, hat']
      cases hexit : m.isExitAddr t pc with
      | true => exact follows_afterStop hup
      | false =>
          simp only [Bool.false_eq_true, if_false]
          cases hinst : m.instructionAt t.currentActor pc with
          | none => exact .inl ⟨rfl, hup⟩
          | some inst =>
              simp only
              cases hplace : inst.isMacroPlaceholder with
              | true =>
                  exact follows_execute pc inst ⟨p, rfl, hp⟩ hq.checkpoints hq.inSpeculation
              | false =>
                  -- the pending store would be bypassed here
                  have hat : (m.under c n).AtInstruction pc size inst (t.withPending p) :=
                    ⟨hend, hfetch, hexit, hinst⟩
                  have hsame : ¬(t.withPending p).checkpoints.length <
                      ((m.under c n).hookAt pc size inst (t.withPending p)).st.checkpoints.length :=
                    fun hlt => hno ⟨pc, size, inst, rfl, hat, hplace, hq.inSpeculation, hlt⟩
                  have hmax : maxNestingReached (m.under c n).lim (t.withPending p) = false := by
                    have hcp : (t.withPending p).checkpoints = [] := hq.checkpoints
                    have hlim : (m.under c n).lim.maxNesting = n := rfl
                    simp only [maxNestingReached, hcp, hlim, List.length_nil, decide_eq_false_iff_not]
                    omega
                  have hnone : p = none := by
                    by_contra hne
                    by_cases hc : c.memAccessOwner = .storeBpasSpeculator
                    · exact hsame (hookAt_opensBpas ⟨owner_of_memOwner hc, hmax, hne⟩)
                    · simp only [notedBy, if_neg hc, Option.some.injEq] at hp
                      exact hne (Option.map_eq_none_iff.mp hp.symm)
                  have hst : t.withPending p = t := by
                    rw [hnone, State.withPending, ← hq.previousStore]
                  have hhook : (m.under c n).hookAt pc size inst (t.withPending p)
                      = m.countedAt pc inst t := by
                    rw [hookAt_of_not_opens hmax hsame, hst, countedAt_under pc inst hq.inSpeculation]
                  have hseq : (m.under .seqSpeculator b).hookAt pc size inst t
                      = m.countedAt pc inst t := by
                    rw [hookAt_seq, countedAt_under pc inst hq.inSpeculation]
                  have hnoted : notedBy c (m.countedAt pc inst t).st.log = some none := by
                    rw [show (m.countedAt pc inst t).st.log = .dispatch pc inst :: t.log from
                      congrArg View.log (m.countedAt_spec pc inst t).1]
                    exact notedBy_dispatch pc inst (by simp [hp])
                  show Follows c ((m.under c n).afterHook pc inst (m.interpretInstruction pc inst
                      ((m.under c n).hookAt pc size inst (t.withPending p))) _)
                    ((m.under .seqSpeculator b).afterHook pc inst (m.interpretInstruction pc inst
                      ((m.under .seqSpeculator b).hookAt pc size inst t)) _)
                  rw [hhook, hseq]
                  exact follows_afterHook pc inst (interpretInstruction_keeps pc inst _)
                    (quiet_countedAt m pc inst hq) hnoted ⟨p, rfl, hp⟩

theorem follows_loopStep (pc : Nat) (h : UpTo c s t) :
    Follows c ((m.under c n).loopStep pc s) ((m.under .seqSpeculator b).loopStep pc t) := by
  obtain ⟨p, rfl, hp⟩ := h
  -- `u` is the state in which the loop decides
  have hdecide : ∀ u : State, notedBy c u.log = some (p.map PendingStore.key) →
      Follows c
        (if pc ≠ m.codeStart ∧ m.isExitAddr u pc then
          if u.inSpeculation then rollbackStep (u.withPending p) else (.returned, u.withPending p)
        else if pc ≠ m.codeStart ∧ pc = m.faultHandlerAddr ∧ u.inSpeculation then
          rollbackStep (u.withPending p)
        else (.emu pc, u.withPending p))
        (if pc ≠ m.codeStart ∧ m.isExitAddr u pc then
          if u.inSpeculation then rollbackStep u else (.returned, u)
        else if pc ≠ m.codeStart ∧ pc = m.faultHandlerAddr ∧ u.inSpeculation then rollbackStep u
        else (.emu pc, u)) := by
    intro u hu
    have hup : UpTo c (u.withPending p) u := ⟨p, rfl, hu⟩
    split
    · split
      · exact follows_rollbackStep hup
      · exact .inl ⟨rfl, hup⟩
    · split
      · exact follows_rollbackStep hup
      · exact .inl ⟨rfl, hup⟩
  exact hdecide ({ t with currentActor := m.codeAddrToActorId pc }.record
    (.resume { t with currentActor := m.codeAddrToActorId pc }.macroState)) hp

/-- One step that opens nothing. -/
theorem follows_step {x y : Mode × State} (h : Follows c x y) (hq : Quiet y.2) (hn : 1 ≤ n)
    (hno : ¬(m.under c n).Opens x) :
    Follows c ((m.under c n).step x) ((m.under .seqSpeculator b).step y) := by
  obtain ⟨mode, s⟩ := x
  obtain ⟨mode', t⟩ := y
  cases h with
  | inr h =>
      have hmode : mode = .crashed := h.1
      subst hmode
      have hover := overrun_preserved m c b
      have hholds : Holds (fun v => v.checkpoints = [] ∧ v.inSpeculation = false ∧
          notedBy c v.log = none) (fun v => v.checkpoints = [] ∧ v.inSpeculation = false ∧
          notedBy c v.log = none) (mode', t) := by
        cases mode' <;> exact ⟨hq.checkpoints, hq.inSpeculation, h.2⟩
      exact .inr ⟨rfl, (hover.roll_of_holds (hover.holds_step hholds trivial)).2.2⟩
  | inl h =>
      have hmode : mode = mode' := h.1
      subst hmode
      cases mode with
      | returned => exact .inl h
      | crashed => exact .inl h
      | emu pc => exact follows_emuStep h.2 hq hn hno
      | loop pc =>
          exact follows_loopStep pc h.2

/-- Once a run is over it stays as it is. -/
theorem run_returned {em : Emulator} {targets : SwitchKey → Nat} {lstar k : Nat}
    (h : (m.run em targets lstar k).1 = .returned) (j : Nat) (hj : k ≤ j) :
    m.run em targets lstar j = m.run em targets lstar k := by
  induction j, hj using Nat.le_induction with
  | base => rfl
  | succ j _ ih =>
      have hstep : m.run em targets lstar (j + 1) = m.step (m.run em targets lstar j) :=
        Function.iterate_succ_apply' _ _ _
      rw [hstep, ih]
      generalize m.run em targets lstar k = x at h
      obtain ⟨mode, s⟩ := x
      have hmode : mode = .returned := h
      subst hmode
      rfl

theorem quiet_run (m : Setup) (b : Nat) (em : Emulator) (targets : SwitchKey → Nat)
    (lstar k : Nat) : Quiet ((m.under .seqSpeculator b).run em targets lstar k).2 := by
  have hprev : ((m.under .seqSpeculator b).run em targets lstar k).2.previousStore = none := by
    induction k with
    | zero => rfl
    | succ k ih =>
        rw [run, Function.iterate_succ_apply']
        exact step_previousStore seq_memAccessOwner ih
  have hflat := flat_preserved (m := m.under .seqSpeculator b) (Q := fun _ => True) owner_seq
    fun _ _ _ _ => trivial
  have hholds : Holds _ _ ((m.under .seqSpeculator b).run em targets lstar k) :=
    hflat.holds_run ⟨rfl, rfl, trivial⟩ k fun _ _ => trivial
  have hview := hflat.roll_of_holds hholds
  exact ⟨hview.1, hview.2.1, hprev⟩

/-- **Without an opening a run is the sequential one**, up to the store that the bypass keeps in
mind. -/
theorem follows_run (m : Setup) {c : SpeculatorCls} {n : Nat} (b : Nat) (hn : 1 ≤ n)
    (em : Emulator) (targets : SwitchKey → Nat) (lstar k : Nat)
    (hno : ∀ j < k, ¬(m.under c n).Opens ((m.under c n).run em targets lstar j)) :
    Follows c ((m.under c n).run em targets lstar k)
      ((m.under .seqSpeculator b).run em targets lstar k) := by
  induction k with
  | zero =>
      refine .inl ⟨rfl, none, rfl, ?_⟩
      show notedBy c [] = some none
      unfold notedBy
      split <;> rfl
  | succ k ih =>
      rw [run, run, Function.iterate_succ_apply', Function.iterate_succ_apply']
      exact follows_step (ih fun j hj => hno j (by omega)) (quiet_run m b em targets lstar k) hn
        (hno k (by omega))

end Setup

end Rvzr.Unicorn
