import Rvzr.Km.CodeLoader
import Rvzr.Km.Readiness
import Rvzr.Km.Recovery
import Rvzr.Km.SandboxRuns

/-!
# The features of a test case

`__batch_tc_parsing_end` says in `features` which kinds of actors a test case has.
`check_test_case_compat` and `allocate_sandbox` do what a kind of actor needs if its flag is set.
One loop sets the flags of the virtual machines and of the user actors, and it ends with the first
flag that it sets, so it tells the truth when only one of the two kinds is there.
-/

namespace Rvzr.Km

open Rvzr.Lib

/-! ### The kinds of actors -/

def modeGuest : Nat := 1
def plUser : Nat := 1

namespace TcParser

variable (s : TcParser)

def HasGuest : Prop := ∃ i < s.nActors, s.actorMode i = modeGuest
def HasUser : Prop := ∃ i < s.nActors, s.actorPl i = plUser
def HasFaultHandler : Prop := ∃ e ∈ s.symbolList, e.id = macroFaultHandler

/-- What `allocate_sandbox` knows of the test case. -/
def testCase : SandboxManager.TestCase where
  nActors := s.nActors
  includesVmActors := s.features.includesVmActors
  isGuest i := s.actorMode i == modeGuest

end TcParser

/-! ### The checks of the processor -/

inductive CpuVendor where
  | intel | amd | other
  deriving DecidableEq, Repr

/-- What the checks find: whether CR4 has SMAP or SMEP set, and the results of
`vmx_check_cpu_compatibility` and `svm_check_cpu_compatibility`. The first check is not built with
`FORCE_SMAP_OFF`. -/
structure Cpu where
  forceSmapOff : Bool
  smapOrSmep : Bool
  vendor : CpuVendor
  vmxErr : Int
  svmErr : Int

/-- `err` after the checks of the virtual machines. -/
def Cpu.vmErr (cpu : Cpu) : Int :=
  match cpu.vendor with
  | .intel => cpu.vmxErr
  | .amd => cpu.svmErr
  | .other => 0

/-- `check_test_case_compat` (`main.c:311-334`). -/
def checkTestCaseCompat (cpu : Cpu) (features : TcFeatures) : Int :=
  if features.includesUserActors ∧ cpu.forceSmapOff = false ∧ cpu.smapOrSmep then -eio
  else if features.includesVmActors then if cpu.vmErr ≠ 0 then -eio else 0
  else 0

/-- The processor can execute user actors. -/
def Cpu.UserOk (cpu : Cpu) : Prop := cpu.forceSmapOff = true ∨ cpu.smapOrSmep = false

/-- The processor can execute virtual machines, as far as is checked for its vendor. -/
def Cpu.VmOk (cpu : Cpu) : Prop := cpu.vmErr = 0

theorem checkTestCaseCompat_iff (cpu : Cpu) (features : TcFeatures) :
    checkTestCaseCompat cpu features = 0 ↔
      (features.includesUserActors = true → cpu.UserOk) ∧
        (features.includesVmActors = true → cpu.VmOk) := by
  have hio : (-eio : Int) ≠ 0 := by decide
  unfold checkTestCaseCompat Cpu.UserOk Cpu.VmOk
  by_cases huser : features.includesUserActors = true ∧ cpu.forceSmapOff = false ∧
      cpu.smapOrSmep = true
  · rw [if_pos huser]
    refine ⟨fun h => absurd h hio, fun h => ?_⟩
    rcases h.1 huser.1 with hforce | hclear
    · exact absurd (huser.2.1.symm.trans hforce) (by decide)
    · exact absurd (huser.2.2.symm.trans hclear) (by decide)
  · rw [if_neg huser]
    have hfirst : features.includesUserActors = true → cpu.forceSmapOff = true ∨
        cpu.smapOrSmep = false := by
      intro hu
      cases hforce : cpu.forceSmapOff with
      | true => exact .inl rfl
      | false =>
        cases hsmap : cpu.smapOrSmep with
        | true => exact absurd ⟨hu, hforce, hsmap⟩ huser
        | false => exact .inr rfl
    by_cases hvm : features.includesVmActors = true
    · rw [if_pos hvm]
      by_cases herr : cpu.vmErr = 0
      · rw [if_neg (not_not.2 herr)]
        exact ⟨fun _ => ⟨hfirst, fun _ => herr⟩, fun _ => rfl⟩
      · rw [if_pos herr]
        exact ⟨fun h => absurd h hio, fun h => absurd (h.2 hvm) herr⟩
    · rw [if_neg hvm]
      exact ⟨fun _ => ⟨hfirst, fun h => absurd h hvm⟩, fun _ => rfl⟩

/-! ### The allocations for the guests -/

namespace SandboxManager

variable {k : Kernel}

/-- The tables that `map_sandbox_to_guest_memory` asks for. -/
def mappedTables : List Var :=
  [.allocatedPageTables, .allocatedExtendedPageTables, .allocatedGuestGdts]

/-- The guests' tables have memory and are set, as far as the two flags ask for it. -/
structure TablesSet (pt ept : Bool) (s : Manager) : Prop where
  tables : ∀ x ∈ mappedTables, s.vars x ≠ none
  pageTables : pt = true → s.rest.guestPtIsSet = true
  extended : ept = true → s.rest.eptIsSet = true

/-- From every such state a program returns in such a state, unless it stops. -/
abbrev KeepsTables (pt ept : Bool) {α : Type} (x : ManagerM α) : Prop :=
  Triple (TablesSet pt ept) x (fun _ => TablesSet pt ept) fun _ _ => True

section Keeps

variable {pt ept : Bool}

theorem keeps_same {s : Manager} {α : Type} {a : α} (h : TablesSet pt ept s) :
    Triple (fun t => t = s) (pure a : ManagerM α) (fun _ => TablesSet pt ept) fun _ _ => True := by
  apply Triple.pure
  rintro t rfl
  exact h

theorem keeps_free {x : Var} (hx : x ∉ mappedTables) : KeepsTables pt ept (Ledger.free x) := by
  apply Triple.get_bind
  intro s h
  cases s.vars x with
  | none => exact keeps_same h
  | some i =>
    dsimp only
    cases s.blocks i with
    | none => exact Triple.throw fun _ _ => trivial
    | some b =>
      intro t _
      refine ⟨fun y hy => ?_, h.pageTables, h.extended⟩
      have hne : y ≠ x := fun heq => hx (heq ▸ hy)
      rw [Ledger.freed_vars_other s hne]
      exact h.tables y hy

theorem keeps_checkedAlloc {x : Var} (hx : x ∉ mappedTables) (size : Nat) :
    KeepsTables pt ept (checkedAlloc k x size) := by
  apply Triple.each
  intro s h
  rw [← bind_pure (checkedAlloc k x size)]
  refine checkedAlloc_triple (fun addr => ?_) trivial
  apply Triple.pure
  rintro t rfl
  refine ⟨fun y hy => ?_, h.pageTables, h.extended⟩
  have hne : y ≠ x := fun heq => hx (heq ▸ hy)
  rw [Ledger.given_vars_other s hne]
  exact h.tables y hy

theorem keeps_touch (x : Var) (off n : Nat) : KeepsTables pt ept (Ledger.touch x off n) := by
  apply Triple.get_bind
  intro s h
  refine Triple.start ?_ h
  apply Triple.get_bind
  intro t ht
  apply Triple.ite
  · intro _
    exact keeps_same ht
  · intro _
    cases (s.vars x).map fun i => ({ block := i, off := off } : Ptr) with
    | none => exact Triple.throw fun _ _ => trivial
    | some p =>
      apply Triple.ite
      · intro _
        exact keeps_same ht
      · intro _
        exact Triple.throw fun _ _ => trivial

theorem keeps_modifyRest {f : Statics → Statics} {pt' ept' : Bool}
    (hpt : ∀ r, (pt = true → r.guestPtIsSet = true) → pt' = true → (f r).guestPtIsSet = true)
    (hept : ∀ r, (ept = true → r.eptIsSet = true) → ept' = true → (f r).eptIsSet = true) :
    Triple (TablesSet pt ept) (Ledger.modifyRest f) (fun _ => TablesSet pt' ept')
      fun (_ : Stop Int) _ => True :=
  fun s h => ⟨h.tables, hpt s.rest h.pageTables, hept s.rest h.extended⟩

theorem keeps_toPhys (p : Option Ptr) (n : Nat) : KeepsTables pt ept (toPhys k p n) := by
  apply Triple.forM
  intro i _
  have hwalk : ∀ q, KeepsTables pt ept (walk k q) := by
    intro q
    apply Triple.get_bind
    intro s h
    cases q with
    | none => exact keeps_same h
    | some q =>
      apply Triple.ite
      · intro _
        exact keeps_same h
      · intro _
        have hstale : KeepsTables pt ept
            (Ledger.modifyRest fun r => { r with staleUse := true }) :=
          keeps_modifyRest (fun _ h => h) fun _ h => h
        refine Triple.start (Triple.bind hstale fun _ => ?_) h
        exact Triple.pure fun _ h => h
  apply Triple.bind (hwalk _)
  intro _
  exact Triple.pure fun _ h => h

theorem keeps_entryOf (x : Var) (actor size : Nat) : KeepsTables pt ept (entryOf x actor size) := by
  apply Triple.get_bind
  intro s h
  exact keeps_same h

/-- What follows a read of the state. -/
theorem keeps_get {α : Type} {f : Manager → ManagerM α} (h : ∀ s, KeepsTables pt ept (f s)) :
    KeepsTables pt ept (get >>= f) := by
  apply Triple.get_bind
  intro s hs
  exact Triple.start (h s) hs

theorem keeps_bind {α β : Type} {x : ManagerM α} {f : α → ManagerM β} (hx : KeepsTables pt ept x)
    (hf : ∀ a, KeepsTables pt ept (f a)) : KeepsTables pt ept (x >>= f) := Triple.bind hx hf

theorem keeps_throwIf {c : Prop} [Decidable c] {e : Stop Int} {x : ManagerM Unit}
    (hx : KeepsTables pt ept x) : KeepsTables pt ept (if c then throw e else x) := by
  apply Triple.ite
  · intro _
    exact Triple.throw fun _ _ => trivial
  · intro _
    exact hx

theorem keeps_setGuestPageTable (actor : Nat) :
    KeepsTables pt ept (setGuestPageTable k actor) := by
  unfold setGuestPageTable
  refine keeps_bind (keeps_touch _ _ _) fun _ => keeps_bind (keeps_touch _ _ _) fun _ => ?_
  have hend : KeepsTables pt ept
      (if k.collides actor then throw (.error (-eio)) else pure () : ManagerM Unit) :=
    keeps_throwIf (Triple.pure fun _ h => h)
  apply Triple.ite
  · intro _
    refine keeps_get fun _ => keeps_bind (keeps_toPhys _ _) fun _ => ?_
    exact keeps_get fun _ => keeps_bind (keeps_toPhys _ _) fun _ => hend
  · intro _
    exact hend

theorem keeps_setExtendedPageTable (actor : Nat) :
    KeepsTables pt ept (setExtendedPageTable k actor) := by
  unfold setExtendedPageTable
  refine keeps_bind (keeps_entryOf _ _ _) fun _ => keeps_bind (keeps_toPhys _ _) fun _ => ?_
  refine keeps_bind (keeps_touch _ _ _) fun _ => keeps_bind (keeps_touch _ _ _) fun _ => ?_
  refine keeps_get fun _ => keeps_bind (keeps_toPhys _ _) fun _ => ?_
  refine keeps_bind (keeps_toPhys _ _) fun _ => keeps_bind (keeps_toPhys _ _) fun _ => ?_
  refine keeps_bind (keeps_entryOf _ _ _) fun _ => keeps_bind (keeps_toPhys _ _) fun _ => ?_
  refine keeps_bind (keeps_entryOf _ _ _) fun _ => keeps_bind (keeps_toPhys _ _) fun _ => ?_
  refine keeps_bind (keeps_entryOf _ _ _) fun _ => keeps_bind (keeps_toPhys _ _) fun _ => ?_
  exact keeps_throwIf (Triple.pure fun _ h => h)

theorem keeps_updateEptp (n : Nat) : KeepsTables pt ept (updateEptp k n) := by
  unfold updateEptp
  refine keeps_get fun _ => keeps_throwIf ?_
  refine keeps_bind (keeps_free (by decide)) fun _ => ?_
  refine keeps_bind (keeps_checkedAlloc (by decide) _) fun _ => ?_
  apply Triple.forM
  intro actor _
  refine keeps_bind (keeps_entryOf _ _ _) fun _ => keeps_bind (keeps_toPhys _ _) fun _ => ?_
  exact keeps_touch _ _ _

end Keeps

/-- The page tables of the guests are set. -/
theorem setGuestPageTables_sets (tc : TestCase) (pt ept : Bool) :
    Triple (TablesSet pt ept) (setGuestPageTables k tc) (fun _ => TablesSet true ept)
      fun _ _ => True := by
  have hcount : KeepsTables pt ept
      (Ledger.modifyRest fun r => { r with guestPtOldNActors := tc.nActors }) :=
    keeps_modifyRest (fun _ h => h) fun _ h => h
  have hset : Triple (TablesSet pt ept) (Ledger.modifyRest fun r => { r with guestPtIsSet := true })
      (fun _ => TablesSet true ept) fun (_ : Stop Int) _ => True :=
    keeps_modifyRest (fun _ _ _ => rfl) fun _ h => h
  have htail : Triple (TablesSet pt ept) (do
      Ledger.modifyRest fun r => { r with guestPtOldNActors := tc.nActors }
      ((List.range tc.nActors).filter tc.isGuest).forM (setGuestPageTable k)
      Ledger.modifyRest fun r => { r with guestPtIsSet := true })
      (fun _ => TablesSet true ept) fun (_ : Stop Int) _ => True := by
    refine Triple.bind hcount fun _ => Triple.bind (Triple.forM ?_) fun _ => hset
    exact fun actor _ => keeps_setGuestPageTable actor
  unfold setGuestPageTables
  apply Triple.get_bind
  intro s hs
  refine Triple.start ?_ hs
  apply Triple.ite
  · intro _
    refine Triple.bind (keeps_free (by decide)) fun _ => ?_
    refine Triple.bind (keeps_free (by decide)) fun _ => ?_
    refine Triple.bind (keeps_checkedAlloc (by decide) _) fun _ => ?_
    exact Triple.bind (keeps_checkedAlloc (by decide) _) fun _ => htail
  · intro _
    exact htail

/-- The extended page tables are set, once the page tables are. -/
theorem setExtendedPageTables_sets (tc : TestCase) (ept : Bool) :
    Triple (TablesSet true ept) (setExtendedPageTables k tc) (fun _ => TablesSet true true)
      fun _ _ => True := by
  have hset : Triple (TablesSet true ept) (Ledger.modifyRest fun r => { r with eptIsSet := true })
      (fun _ => TablesSet true true) fun (_ : Stop Int) _ => True :=
    keeps_modifyRest (fun _ h => h) fun _ _ _ => rfl
  unfold setExtendedPageTables
  apply Triple.get_bind
  intro s hs
  refine Triple.start ?_ hs
  apply Triple.ite
  · intro _
    exact Triple.throw fun _ _ => trivial
  · intro _
    apply Triple.get_bind
    intro t ht
    refine Triple.start ?_ ht
    apply Triple.ite
    · intro _
      exact Triple.throw fun _ _ => trivial
    · intro _
      refine Triple.bind (Triple.forM ?_) fun _ => hset
      exact fun actor _ => keeps_setExtendedPageTable actor

/-- What `map_sandbox_to_guest_memory` leaves when it succeeds. -/
theorem mapSandboxToGuestMemory_sets (tc : TestCase) :
    Triple (fun _ => True) (mapSandboxToGuestMemory k tc) (fun _ => TablesSet true true)
      fun _ _ => True := by
  have hany : ∀ {P : Manager → Prop} {Q : Unit → Manager → Prop} {x : ManagerM Unit},
      Triple P x Q (fun _ _ => True) → Triple P (checkErr x) Q fun _ _ => True :=
    fun h => checkErr_any (fun _ _ _ => trivial) h
  unfold mapSandboxToGuestMemory
  apply Triple.get_bind
  intro s _
  apply Triple.ite
  · intro _
    exact Triple.throw fun _ _ => trivial
  intro hpages
  apply Triple.step (get_run s)
  apply Triple.ite
  · intro _
    exact Triple.throw fun _ _ => trivial
  intro hextended
  apply Triple.step (get_run s)
  apply Triple.ite
  · intro _
    exact Triple.throw fun _ _ => trivial
  intro hgdts
  have hstart : TablesSet false false s := by
    refine ⟨fun x hx => ?_, fun h => absurd h (by decide), fun h => absurd h (by decide)⟩
    simp only [mappedTables, List.mem_cons, List.not_mem_nil, or_false] at hx
    rcases hx with rfl | rfl | rfl
    · exact hpages
    · exact hextended
    · exact hgdts
  refine Triple.start ?_ hstart
  refine Triple.bind (hany (setGuestPageTables_sets tc false false)) fun _ => ?_
  refine Triple.bind (hany (setExtendedPageTables_sets tc false)) fun _ => ?_
  exact hany (keeps_updateEptp tc.nActors)

/-- A call of `allocate_sandbox` that succeeds has served the virtual machines, if their flag is
set. -/
theorem allocateSandbox_sets {tc : TestCase} (hvm : tc.includesVmActors = true) {s t : Manager}
    (hrun : allocateSandbox k tc s = .ok () t) : TablesSet true true t := by
  have hany : ∀ {α : Type} (x : ManagerM α),
      Triple (fun _ => True) x (fun _ _ => True) fun _ _ => True :=
    fun x s _ => by cases x s <;> trivial
  have hserved : Triple (fun _ => True) (do
      checkErr (allocateGuestPageTables k tc.nActors)
      checkErr (mapSandboxToGuestMemory k tc)
      Ledger.modifyRest fun r => { r with oldNActors := tc.nActors })
      (fun _ => TablesSet true true) fun (_ : Stop Int) _ => True := by
    refine Triple.bind (hany _) fun _ => ?_
    refine Triple.bind (checkErr_any (fun _ _ _ => trivial) (mapSandboxToGuestMemory_sets tc))
      fun _ => ?_
    exact keeps_modifyRest (fun _ h => h) fun _ h => h
  have htail : Triple (fun _ => True) (do
      Ledger.touchAt (← get).rest.vaddrAligned (sizeofUtil k + tc.nActors * sizeofActorData)
      checkErr (cacheHostPteps k tc.nActors)
      if tc.includesVmActors then
        checkErr (allocateGuestPageTables k tc.nActors)
        checkErr (mapSandboxToGuestMemory k tc)
      Ledger.modifyRest fun r => { r with oldNActors := tc.nActors })
      (fun _ => TablesSet true true) fun (_ : Stop Int) _ => True := by
    refine Triple.bind (R := fun _ _ => True) (hany _) fun _ => ?_
    refine Triple.bind (hany _) fun _ => Triple.bind (hany _) fun _ => ?_
    rw [if_pos hvm]
    exact hserved
  have htriple : Triple (fun _ => True) (allocateSandbox k tc) (fun _ => TablesSet true true)
      fun _ _ => True := by
    unfold allocateSandbox
    refine Triple.bind (R := fun _ _ => True) (hany _) fun s => ?_
    apply Triple.ite
    · intro _
      refine Triple.bind (hany _) fun _ => Triple.bind (hany _) fun _ => ?_
      exact Triple.bind (hany _) fun _ => htail
    · intro _
      exact htail
  exact htriple.ok trivial hrun

end SandboxManager

/-! ### The flags -/

/-- The features of `new_test_case`. -/
def noFeatures : TcFeatures := ⟨false, false, false⟩

/-- No flag is set while a test case is received. -/
def FreshFeatures (s : TcParser) : Prop := s.isReceivingTestCase = true → s.features = noFeatures

section Fresh

variable {env : CallEnv} {s : TcParser}

theorem allocSymbolTable_features (env : CallEnv) (k : Nat) (s : TcParser) :
    (s.allocSymbolTable env k).1.features = s.features := by
  unfold TcParser.allocSymbolTable
  split
  · split
    · rfl
    · rfl
  · rfl

theorem allocActorTables_features (env : CallEnv) (k : Nat) (s : TcParser) :
    (s.allocActorTables env k).1.features = s.features := by
  unfold TcParser.allocActorTables
  dsimp only
  split
  · split
    · split
      · split
        · rfl
        · rfl
      · rfl
    · rfl
  · rfl

/-- An accepted header clears the flags. -/
theorem batchTcParsingStart_features (env : CallEnv) (s : TcParser) (buf : WriteBuf)
    (h : (batchTcParsingStart env s buf).2 = 16) :
    (batchTcParsingStart env s buf).1.features = noFeatures := by
  have hio : ¬ (-eio : Int) = 16 := by decide
  have hmem : ¬ (-enomem : Int) = 16 := by decide
  unfold batchTcParsingStart at h ⊢
  dsimp only at h ⊢
  by_cases hk : env.kmalloc sizeofTestCase = false
  · rw [if_pos hk] at h
    exact absurd h hmem
  by_cases h0 : buf.mem.word64 0 = 0
  · rw [if_neg hk, if_pos h0] at h
    exact absurd h hio
  by_cases hm : maxSymbols < buf.mem.word64 8
  · rw [if_neg hk, if_neg h0, if_pos hm] at h
    exact absurd h hio
  rw [if_neg hk, if_neg h0, if_neg hm] at h ⊢
  generalize hs₁ : TcParser.setSizes _ (buf.mem.word64 0) (buf.mem.word64 8) = s₁ at h ⊢
  have hfresh : s₁.features = noFeatures := by
    rw [← hs₁]
    rfl
  have hsymbols := allocSymbolTable_features env (buf.mem.word64 8) s₁
  cases h₁ : s₁.allocSymbolTable env (buf.mem.word64 8) with
  | mk s₂ ok₂ =>
    rw [h₁] at h hsymbols
    cases ok₂ with
    | false => exact absurd h hmem
    | true =>
      have hactors := allocActorTables_features env (buf.mem.word64 0) s₂
      dsimp only at h hsymbols ⊢
      cases h₂ : s₂.allocActorTables env (buf.mem.word64 0) with
      | mk s₃ ok₃ =>
        rw [h₂] at h hactors
        cases ok₃ with
        | false => exact absurd h hmem
        | true => exact (hactors.trans hsymbols).trans hfresh

theorem batchTcParsingEnd_isReceiving (env : CallEnv) (s : TcParser) :
    (batchTcParsingEnd env s).1.isReceivingTestCase = s.isReceivingTestCase := by
  unfold batchTcParsingEnd
  split
  · rfl
  split
  · rfl
  split
  · rfl
  split
  · rfl
  · rfl

/-- After a call the flags are clear while the test case goes on, and the final check of a complete
test case started with clear flags. -/
def ChecksFresh (env : CallEnv) (r : TcParser × ParseResult) : Prop :=
  FreshFeatures r.1 ∧ (r.2.finished = true → r.2.passed = true →
    ∃ s₀ : TcParser, s₀.features = noFeatures ∧ batchTcParsingEnd env s₀ = (r.1, 0))

theorem finishParsing_features (h : s.features = noFeatures) (k count : Nat) :
    ChecksFresh env (finishParsing env s k count) := by
  unfold finishParsing
  by_cases hdone : s.nActors ≤ s.currSectionId
  · rw [if_pos hdone]
    dsimp only
    generalize hs₀ : ({ s with
      currSectionId := 0, currSectionStart := 0, currSectionEnd := 0,
      isReceivingTestCase := false } : TcParser) = s₀
    have hfresh : s₀.features = noFeatures := by
      rw [← hs₀]
      exact h
    have hrec : (batchTcParsingEnd env s₀).1.isReceivingTestCase = false := by
      rw [batchTcParsingEnd_isReceiving, ← hs₀]
    cases hend : batchTcParsingEnd env s₀ with
    | mk s' err =>
      rw [hend] at hrec
      have hnot : ¬ s'.isReceivingTestCase = true := by simpa using hrec
      by_cases herr : err = 0
      · subst herr
        exact ⟨fun hrec' => absurd hrec' hnot, fun _ _ => ⟨s₀, hfresh, hend⟩⟩
      · split
        · rename_i heq
          exact absurd (Prod.mk.inj heq).2 herr
        · rename_i heq
          obtain ⟨rfl, -⟩ := Prod.mk.inj heq
          exact ⟨fun hrec' => absurd hrec' hnot,
            fun _ hpassed => by simp [ParseResult.passed] at hpassed⟩
  · rw [if_neg hdone]
    exact ⟨fun _ => h, fun hfin => absurd hfin (by simp)⟩

theorem copySection_features (s : TcParser) (buf : WriteBuf) :
    (copySection s buf).1.features = s.features := by
  unfold copySection
  dsimp only
  split
  · rfl
  · rfl

theorem enterSections_features (s : TcParser) : s.enterSections.features = s.features := by
  unfold TcParser.enterSections
  split
  · rfl
  · rfl

/-- A call that returns early does not reach the final check. -/
theorem checksFresh_stopped {s' : TcParser} (h : s'.isReceivingTestCase = false) (ret : Int)
    (n : Nat) : ChecksFresh env (s', ⟨ret, false, n⟩) :=
  ⟨fun hrec => absurd (h.symm.trans hrec) (by decide), fun hfin => absurd hfin (by simp)⟩

/-- One call of the parser. -/
theorem parse_features (h : FreshFeatures s) (buf : WriteBuf) :
    ChecksFresh env (parseTestCaseBuffer env s buf) := by
  cases hrec : s.isReceivingTestCase with
  | false =>
    have hsame := (batchTcParsingStart_sized env s buf).1
    have hfresh := batchTcParsingStart_features env s buf
    cases hstart : batchTcParsingStart env s buf with
    | mk s' ret =>
      rw [hstart] at hsame hfresh
      rw [parse_header env buf hrec hstart]
      by_cases hret : ret = 16
      · rw [if_neg (not_not.2 hret)]
        refine finishParsing_features ?_ _ _
        exact hfresh hret
      · rw [if_pos hret]
        exact checksFresh_stopped (hsame.trans hrec) _ _
  | true =>
    have hfresh := h hrec
    by_cases hp₁ : s.cursor < s.actorTableEnd
    · rw [parse_actorTable env buf hrec hp₁]
      refine finishParsing_features ?_ _ _
      exact hfresh
    by_cases hp₂ : s.cursor < s.symbolTableEnd
    · rw [parse_symbolTable env buf hrec hp₁ hp₂]
      refine finishParsing_features ?_ _ _
      exact hfresh
    by_cases hp₃ : s.cursor < s.metadataEnd
    · rw [parse_metadata env buf hrec hp₁ hp₂ hp₃]
      refine finishParsing_features ?_ _ _
      exact hfresh
    have hdata : s.InDataPhase := ⟨hp₁, hp₂, hp₃⟩
    by_cases hsize : maxSectionSize < s.sectionSize s.currSectionId
    · rw [parse_oversize env buf hrec hdata hsize]
      exact checksFresh_stopped rfl _ _
    · rw [parse_section env buf hrec hdata hsize]
      refine finishParsing_features ?_ _ _
      rw [copySection_features, enterSections_features]
      exact hfresh

theorem runWrites_fresh (h : FreshFeatures s) (ws : List TcWrite) :
    FreshFeatures (runWrites s ws) := by
  have hstep : ∀ t (w : TcWrite), FreshFeatures t → FreshFeatures (writeStep t w) :=
    fun _ w ht => (parse_features ht w.buf).1
  exact run_inv hstep h ws

end Fresh

/-! ### What the loop finds -/

/-- The loop sets no flag, or one that an actor of its kind asks for. -/
theorem scanActors_cases (s : TcParser) (is : List Nat) (f : TcFeatures) :
    (scanActors s is f = f ∧ ∀ i ∈ is, s.actorMode i ≠ modeGuest ∧ s.actorPl i ≠ plUser) ∨
      (scanActors s is f = { f with includesVmActors := true } ∧
        ∃ i ∈ is, s.actorMode i = modeGuest) ∨
      (scanActors s is f = { f with includesUserActors := true } ∧
        ∃ i ∈ is, s.actorPl i = plUser) := by
  induction is with
  | nil => exact .inl ⟨rfl, by simp⟩
  | cons i is ih =>
    by_cases hguest : s.actorMode i = 1
    · refine .inr (.inl ⟨?_, i, List.mem_cons_self, hguest⟩)
      rw [scanActors, if_pos hguest]
    by_cases huser : s.actorPl i = 1
    · refine .inr (.inr ⟨?_, i, List.mem_cons_self, huser⟩)
      rw [scanActors, if_neg hguest, if_pos huser]
    rw [scanActors, if_neg hguest, if_neg huser]
    rcases ih with ⟨hf, hnone⟩ | ⟨hf, j, hj, hmode⟩ | ⟨hf, j, hj, hpl⟩
    · refine .inl ⟨hf, fun j hj => ?_⟩
      rcases List.mem_cons.1 hj with rfl | hj
      · exact ⟨hguest, huser⟩
      · exact hnone j hj
    · exact .inr (.inl ⟨hf, j, List.mem_cons_of_mem _ hj, hmode⟩)
    · exact .inr (.inr ⟨hf, j, List.mem_cons_of_mem _ hj, hpl⟩)

/-- The final check changes nothing but the flags. -/
theorem batchTcParsingEnd_passed {env : CallEnv} {s s' : TcParser}
    (h : batchTcParsingEnd env s = (s', 0)) :
    s' = { s with features := { scanActors s (List.range s.nActors) s.features with
      hasExplicitFaultHandler := s.symbolList.any fun e => e.id == macroFaultHandler } } := by
  have hio : ¬ (-eio : Int) = 0 := by decide
  have hone : ¬ (-1 : Int) = 0 := by decide
  unfold batchTcParsingEnd at h
  split at h
  · exact absurd (Prod.mk.inj h).2 hio
  split at h
  · exact absurd (Prod.mk.inj h).2 hone
  split at h
  · exact absurd (Prod.mk.inj h).2 hone
  split at h
  · exact absurd (Prod.mk.inj h).2 hone
  · exact (Prod.mk.inj h).1.symm

/-- Each flag describes the test case, and what depends on the flags is done for every kind of actor
that it has. -/
structure FeaturesDescribe (s : TcParser) : Prop where
  vm : s.features.includesVmActors = true ↔ s.HasGuest
  user : s.features.includesUserActors = true ↔ s.HasUser
  faultHandler : s.features.hasExplicitFaultHandler = true ↔ s.HasFaultHandler
  compat : ∀ cpu : Cpu, checkTestCaseCompat cpu s.features = 0 ↔
    (s.HasUser → cpu.UserOk) ∧ (s.HasGuest → cpu.VmOk)
  allocate : ∀ (k : SandboxManager.Kernel) (m m' : SandboxManager.Manager),
    SandboxManager.allocateSandbox k s.testCase m = .ok () m' → s.HasGuest →
      SandboxManager.TablesSet true true m'

/-- The checks and the allocations follow the flags. -/
theorem featuresDescribe_of_flags {s : TcParser}
    (hvm : s.features.includesVmActors = true ↔ s.HasGuest)
    (huser : s.features.includesUserActors = true ↔ s.HasUser)
    (hfault : s.features.hasExplicitFaultHandler = true ↔ s.HasFaultHandler) :
    FeaturesDescribe s where
  vm := hvm
  user := huser
  faultHandler := hfault
  compat cpu := by rw [checkTestCaseCompat_iff, hvm, huser]
  allocate _ _ _ hrun hguest := SandboxManager.allocateSandbox_sets (hvm.2 hguest) hrun

/-- What the final check leaves describes the test case if it has only one kind of actors. -/
theorem batchTcParsingEnd_describes {env : CallEnv} {s s' : TcParser}
    (hfresh : s.features = noFeatures) (h : batchTcParsingEnd env s = (s', 0)) :
    FeaturesDescribe s' ↔ ¬ (s'.HasGuest ∧ s'.HasUser) := by
  have hs' := batchTcParsingEnd_passed h
  have hguest : s'.HasGuest ↔ s.HasGuest := by
    subst hs'
    exact Iff.rfl
  have huser : s'.HasUser ↔ s.HasUser := by
    subst hs'
    exact Iff.rfl
  have hfault : s'.features.hasExplicitFaultHandler = true ↔ s'.HasFaultHandler := by
    have hany : (s.symbolList.any fun e => e.id == macroFaultHandler) = true ↔
        s.HasFaultHandler := by
      simp only [List.any_eq_true, beq_iff_eq, TcParser.HasFaultHandler]
    subst hs'
    exact hany
  have hvmFlag : s'.features.includesVmActors =
      (scanActors s (List.range s.nActors) noFeatures).includesVmActors := by
    rw [hs', hfresh]
  have huserFlag : s'.features.includesUserActors =
      (scanActors s (List.range s.nActors) noFeatures).includesUserActors := by
    rw [hs', hfresh]
  rw [hguest, huser]
  rcases scanActors_cases s (List.range s.nActors) noFeatures with
    ⟨hf, hnone⟩ | ⟨hf, i, hi, hmode⟩ | ⟨hf, i, hi, hpl⟩
  · have hnoGuest : ¬ s.HasGuest := by
      rintro ⟨i, hi, hmode⟩
      exact (hnone i (List.mem_range.2 hi)).1 hmode
    have hnoUser : ¬ s.HasUser := by
      rintro ⟨i, hi, hpl⟩
      exact (hnone i (List.mem_range.2 hi)).2 hpl
    rw [hf] at hvmFlag huserFlag
    refine ⟨fun _ hboth => hnoGuest hboth.1, fun _ => ?_⟩
    refine featuresDescribe_of_flags ?_ ?_ hfault
    · rw [hvmFlag, hguest]
      exact iff_of_false (by decide) hnoGuest
    · rw [huserFlag, huser]
      exact iff_of_false (by decide) hnoUser
  · have hsome : s.HasGuest := ⟨i, List.mem_range.1 hi, hmode⟩
    rw [hf] at hvmFlag huserFlag
    have hclear : ¬ s'.features.includesUserActors = true := by
      rw [huserFlag]
      decide
    refine ⟨fun hd hboth => hclear (hd.user.2 (huser.2 hboth.2)), fun hone => ?_⟩
    refine featuresDescribe_of_flags ?_ ?_ hfault
    · rw [hvmFlag, hguest]
      exact iff_of_true rfl hsome
    · rw [huser]
      exact iff_of_false hclear fun hu => hone ⟨hsome, hu⟩
  · have hsome : s.HasUser := ⟨i, List.mem_range.1 hi, hpl⟩
    rw [hf] at hvmFlag huserFlag
    have hclear : ¬ s'.features.includesVmActors = true := by
      rw [hvmFlag]
      decide
    refine ⟨fun hd hboth => hclear (hd.vm.2 (hguest.2 hboth.1)), fun hone => ?_⟩
    refine featuresDescribe_of_flags ?_ ?_ hfault
    · rw [hguest]
      exact iff_of_false hclear fun hg => hone ⟨hg, hsome⟩
    · rw [huserFlag, huser]
      exact iff_of_true rfl hsome

/-- After any series of writes, the flags of a test case that the parser accepts describe it exactly
when it does not have both guests and user actors. -/
theorem acceptedFeatures_describe_iff (garbage : Mem) (ws : List TcWrite) (env : CallEnv)
    (buf : WriteBuf)
    (hfin : (parseTestCaseBuffer env (runWrites (TcParser.init garbage) ws) buf).2.finished = true)
    (hpassed :
      (parseTestCaseBuffer env (runWrites (TcParser.init garbage) ws) buf).2.passed = true) :
    FeaturesDescribe (parseTestCaseBuffer env (runWrites (TcParser.init garbage) ws) buf).1 ↔
      ¬ ((parseTestCaseBuffer env (runWrites (TcParser.init garbage) ws) buf).1.HasGuest ∧
        (parseTestCaseBuffer env (runWrites (TcParser.init garbage) ws) buf).1.HasUser) := by
  have hfresh : FreshFeatures (runWrites (TcParser.init garbage) ws) :=
    runWrites_fresh (fun _ => rfl) ws
  obtain ⟨s₀, hclear, hend⟩ := (parse_features hfresh buf).2 hfin hpassed
  exact batchTcParsingEnd_describes hclear hend

section Samples

/-- The mode and the privilege level of each actor after the main one, which is a kernel actor of
the host, with the symbols of the sample test case and one byte of code for each actor. All but the
last section are written. -/
def sampleActors (actors : List (Nat × Nat)) : List TcWrite :=
  let entry (i : Nat) (a : Nat × Nat) := [i, a.1, a.2, 0, 0, 0]
  let all := (0, 0) :: actors
  [sampleWrite (encodeWords [all.length, 3]),
    sampleWrite (encodeWords (all.zipIdx.flatMap fun a => entry a.2 a.1)),
    sampleWrite ((sampleImage.bytes.drop 64).take 96),
    sampleWrite (encodeWords (all.zipIdx.flatMap fun a => [a.2, 1, 0]))] ++
    actors.map fun _ => sampleWrite [0x90]

/-- The call with the code of the last actor. -/
def sampleAccepted (actors : List (Nat × Nat)) : TcParser × ParseResult :=
  parseTestCaseBuffer sampleEnv (runWrites (TcParser.init fun _ => 0) (sampleActors actors))
    ⟨[0x90], fun _ => 0⟩

/-- Two guests after the main actor. -/
theorem acceptedFeatures_describe_iff_sample :
    (sampleAccepted [(modeGuest, 0), (modeGuest, 0)]).2.finished = true ∧
      (sampleAccepted [(modeGuest, 0), (modeGuest, 0)]).2.passed = true ∧
      (FeaturesDescribe (sampleAccepted [(modeGuest, 0), (modeGuest, 0)]).1 ↔
        ¬ ((sampleAccepted [(modeGuest, 0), (modeGuest, 0)]).1.HasGuest ∧
          (sampleAccepted [(modeGuest, 0), (modeGuest, 0)]).1.HasUser)) :=
  ⟨by decide +kernel, by decide +kernel,
    acceptedFeatures_describe_iff (fun _ => 0) (sampleActors [(modeGuest, 0), (modeGuest, 0)])
      sampleEnv ⟨[0x90], fun _ => 0⟩ (by decide +kernel) (by decide +kernel)⟩

/-- With a guest after a user actor the parser accepts the test case, the flag of the virtual
machines stays clear, and a processor without VMX passes the checks. -/
theorem guestAfterUser_unnoticed :
    (sampleAccepted [(0, plUser), (modeGuest, 0)]).2.finished = true ∧
      (sampleAccepted [(0, plUser), (modeGuest, 0)]).2.passed = true ∧
      (sampleAccepted [(0, plUser), (modeGuest, 0)]).1.HasGuest ∧
      (sampleAccepted [(0, plUser), (modeGuest, 0)]).1.features.includesVmActors = false ∧
      checkTestCaseCompat ⟨false, false, .intel, -1, 0⟩
        (sampleAccepted [(0, plUser), (modeGuest, 0)]).1.features = 0 ∧
      ¬ FeaturesDescribe (sampleAccepted [(0, plUser), (modeGuest, 0)]).1 := by
  have hguest : (sampleAccepted [(0, plUser), (modeGuest, 0)]).1.HasGuest :=
    ⟨2, by decide +kernel, by decide +kernel⟩
  have hclear :
      (sampleAccepted [(0, plUser), (modeGuest, 0)]).1.features.includesVmActors = false := by
    decide +kernel
  refine ⟨by decide +kernel, by decide +kernel, hguest, hclear, by decide +kernel, fun h => ?_⟩
  exact absurd (hclear.symm.trans (h.vm.2 hguest)) (by decide)

end Samples

end Rvzr.Km
