import Rvzr.TestCase.Macros
import Rvzr.Km.RoundTrip

/-!
# The types of switch targets

Whether the checks of `_validate_macros` on the macros that set the target of an actor switch are
those that `__batch_tc_parsing_end` makes when the same table is loaded.
-/

namespace Rvzr.Km

open Rvzr.Lib Rvzr.TestCase

/-- A saved symbol as the kernel module reads it. -/
def entryOf (s : SymbolTableEntry) : TcSymbolEntry :=
  ⟨s.sid.toNat, s.offset.toNat, s.type_.toNat, s.arg.toNat⟩

/-- The kernel's tables hold the actors and the symbols of a test case. -/
structure Holds (tc : TestCaseBinary) (s : TcParser) : Prop where
  actors : ∀ i a, tc.getActors[i]? = some a →
    s.actorMode i = a.mode.value.toNat ∧ s.actorPl i = a.privilegeLevel.value.toNat
  symbols : s.symbolList = tc.sortedSymbols.map entryOf

/-- The actors are numbered, as `populate_elf_data` leaves them. -/
def Numbered (tc : TestCaseBinary) : Prop :=
  ∀ (i : Nat) (a : Actor), tc.getActors[i]? = some a → a.id = i

/-- A symbol as `_assign_macro_metadata` and `_assign_function_metadata` make them: of a known type,
with actor arguments that name actors. -/
structure Resolved (tc : TestCaseBinary) (e : SymbolTableEntry) : Prop where
  arg : 0 ≤ e.arg
  known : e.type_ = 0 ∨ ∃ spec ∈ macroSpecs, spec.type_ = e.type_
  actors : ∀ spec ∈ macroSpecs, spec.type_ = e.type_ → ∀ i, spec.args[i]? = some .actorId →
    ∃ a ∈ tc.actorValues, a.id = argOf e.arg i

/-- The actor that a macro sets as a target of a switch. -/
def IsTarget (tc : TestCaseBinary) (e : SymbolTableEntry) (a : Actor) : Prop :=
  e ∈ tc.symbolTable ∧ a ∈ tc.actorValues ∧ a.id = argOf e.arg 0

/-! ### Where the two rules differ -/

/-- The parser accepts the target and the kernel module does not. -/
def OnlyParser (t : Int) (a : Actor) : Prop :=
  (t = macroSetK2uTarget ∧ a.privilegeLevel = .kernel ∧ a.mode = .host) ∨
  (t = macroSetU2kTarget ∧ a.privilegeLevel = .user ∧ a.mode = .host) ∨
  (t = macroSetH2gTarget ∧ a.mode = .host) ∨
  (t = macroSetG2hTarget ∧ a.mode = .guest)

/-- The kernel module accepts the target and the parser does not. -/
def OnlyKernel (t : Int) (a : Actor) : Prop :=
  (t = macroSetH2gTarget ∧ a.mode = .guest ∧ a.privilegeLevel = .user) ∨
  (t = macroSetG2hTarget ∧ a.mode = .host ∧ a.privilegeLevel = .user)

/-- Both reject the target. -/
def Neither (t : Int) (a : Actor) : Prop :=
  (t = macroSetK2uTarget ∧ a.mode = .guest ∧ a.privilegeLevel = .kernel) ∨
  (t = macroSetU2kTarget ∧ a.mode = .guest ∧ a.privilegeLevel = .user)

/-- The table has no target that the two rules disagree on, or a target that both reject, or one
that only the parser and one that only the kernel module accepts. -/
def TargetsAgree (tc : TestCaseBinary) : Prop :=
  (∃ e a, IsTarget tc e a ∧ Neither e.type_ a) ∨
  ((∃ e a, IsTarget tc e a ∧ OnlyParser e.type_ a) ∧
    ∃ e a, IsTarget tc e a ∧ OnlyKernel e.type_ a) ∨
  ((¬ ∃ e a, IsTarget tc e a ∧ OnlyParser e.type_ a) ∧
    ¬ ∃ e a, IsTarget tc e a ∧ OnlyKernel e.type_ a)

/-! ### The parser -/

theorem accepts_checkActorType {spec : MacroSpec} (h : spec ∈ macroSpecs) (a : Actor) :
    accepts (checkActorType spec a) = true ↔
      ¬ OnlyKernel spec.type_ a ∧ ¬ Neither spec.type_ a := by
  have hnames := target_names h
  unfold checkActorType
  rw [accepts_check, accepts_check, accepts_check, accepts_last_check, hnames.1, hnames.2.1,
    hnames.2.2.1, hnames.2.2.2]
  unfold OnlyKernel Neither macroSetK2uTarget macroSetU2kTarget macroSetH2gTarget
    macroSetG2hTarget
  cases a.mode with
  | host =>
    cases a.privilegeLevel with
    | kernel => simp
    | user => simp
  | guest =>
    cases a.privilegeLevel with
    | kernel => simp
    | user => simp; omega

section

variable {tc : TestCaseBinary} {s : TcParser}

/-- The actor that a symbol's argument names is the only one with its number. -/
theorem Numbered.unique (h : Numbered tc) {a b : Actor} (ha : a ∈ tc.actorValues)
    (hb : b ∈ tc.actorValues) (hid : b.id = a.id) : b = a := by
  have hmem : ∀ c ∈ tc.actorValues, ∃ i, tc.getActors[i]? = some c := fun c hc =>
    List.mem_iff_getElem?.1 (tc.mem_getActors.2 hc)
  cases hmem a ha with
  | intro i hi =>
    cases hmem b hb with
    | intro j hj =>
      have hij : j = i := by
        have hai := h i a hi
        have hbj := h j b hj
        omega
      rw [hij, hi] at hj
      exact (Option.some.inj hj).symm

/-- What kind of target a macro sets is decided by its type. -/
theorem isTargetType {t : Int} {a : Actor} (h : OnlyParser t a ∨ OnlyKernel t a ∨ Neither t a) :
    t = 5 ∨ t = 7 ∨ t = 9 ∨ t = 11 := by
  unfold OnlyParser OnlyKernel Neither macroSetK2uTarget macroSetU2kTarget macroSetH2gTarget
    macroSetG2hTarget at h
  omega

theorem accepts_validateMacro (hnum : Numbered tc) {e : SymbolTableEntry} (he : Resolved tc e) :
    accepts (validateMacro tc.actorValues e) = true ↔
      ∀ a ∈ tc.actorValues, a.id = argOf e.arg 0 → ¬ OnlyKernel e.type_ a ∧ ¬ Neither e.type_ a := by
  have hother : ∀ a, ¬ (e.type_ = 5 ∨ e.type_ = 7 ∨ e.type_ = 9 ∨ e.type_ = 11) →
      ¬ OnlyKernel e.type_ a ∧ ¬ Neither e.type_ a := fun a ht =>
    ⟨fun h => ht (isTargetType (.inr (.inl h))), fun h => ht (isTargetType (.inr (.inr h)))⟩
  unfold validateMacro
  by_cases hzero : e.type_ = 0
  · rw [if_pos hzero]
    exact ⟨fun _ a _ _ => hother a (by omega), fun _ => rfl⟩
  · rw [if_neg hzero]
    cases he.known with
    | inl h => exact absurd h hzero
    | inr h =>
      cases h with
      | intro spec hspec =>
        have hmem := hspec.1
        have htype := hspec.2
        rw [← htype, getMacroSpecFromType_mem hmem, accepts_ok_bind, accepts_forM,
          List.all_eq_true]
        by_cases harg : spec.args[0]? = some .actorId
        · cases he.actors spec hmem htype 0 harg with
          | intro a ha =>
            have hfind : findActor tc.actorValues (argOf e.arg 0) = some a := by
              rw [← ha.2]
              exact findActor_eq ha.1 fun b hb hid => hnum.unique ha.1 hb hid
            have hcheck := accepts_checkActorType hmem a
            constructor
            · intro h b hb hid
              have hzero' := h 0 (by simp)
              rw [if_pos harg, validateTarget_of_find hfind] at hzero'
              rw [hnum.unique ha.1 hb (hid.trans ha.2.symm)]
              exact hcheck.1 hzero'
            · intro h i hi
              by_cases hi₀ : spec.args[i]? = some .actorId
              · have hindex := actorId_first hmem (List.mem_range.1 hi) hi₀
                rw [if_pos hi₀, hindex, validateTarget_of_find hfind]
                exact hcheck.2 (h a ha.1 ha.2)
              · rw [if_neg hi₀]
                rfl
        · constructor
          · intro _ a _ _
            rw [htype]
            exact hother a fun ht => harg (target_args hmem (htype ▸ ht))
          · intro _ i hi
            have hi₀ : spec.args[i]? ≠ some .actorId := fun hi₀ => by
              have hindex := actorId_first hmem (List.mem_range.1 hi) hi₀
              rw [hindex] at hi₀
              exact harg hi₀
            rw [if_neg hi₀]
            rfl

theorem accepts_validateMacros (hnum : Numbered tc) (hres : ∀ e ∈ tc.symbolTable, Resolved tc e) :
    accepts (validateMacros tc.actorValues tc.symbolTable) = true ↔
      ∀ e a, IsTarget tc e a → ¬ OnlyKernel e.type_ a ∧ ¬ Neither e.type_ a := by
  unfold validateMacros
  rw [accepts_forM, List.all_eq_true]
  constructor
  · intro h e a ht
    exact (accepts_validateMacro hnum (hres e ht.1)).1 (h e ht.1) a ht.2.1 ht.2.2
  · intro h e he
    exact (accepts_validateMacro hnum (hres e he)).2 fun a ha hid => h e a ⟨he, ha, hid⟩

/-! ### The kernel module -/

theorem mem_sortedSymbols {e : SymbolTableEntry} : e ∈ tc.sortedSymbols ↔ e ∈ tc.symbolTable := by
  unfold TestCaseBinary.sortedSymbols
  simp only [List.mem_append, List.mem_insertionSort, List.mem_filter, decide_eq_true_eq]
  by_cases h : e.type_ = 0
  · simp [h]
  · simp [h]

/-- With fewer than 256 actors, the byte that the kernel module takes for the actor is all of it. -/
theorem args_mod {arg : Int} (h : 0 ≤ arg) {i : Nat} (hi : argOf arg 0 = i) (hlt : i < 256) :
    arg.toNat % 256 = i := by
  unfold argOf at hi
  omega

/-- The assertions of the kernel module on a target, by its type. -/
theorem targetRule {t : Int} (ht : t = 5 ∨ t = 7 ∨ t = 9 ∨ t = 11) (a : Actor) :
    ((t.toNat != macroSetK2uTarget || a.privilegeLevel.value.toNat == 1) &&
      (t.toNat != macroSetU2kTarget || a.privilegeLevel.value.toNat == 0) &&
      (t.toNat != macroSetH2gTarget || a.mode.value.toNat == 1) &&
      (t.toNat != macroSetG2hTarget || a.mode.value.toNat == 0)) = true ↔
      ¬ OnlyParser t a ∧ ¬ Neither t a := by
  unfold OnlyParser Neither macroSetK2uTarget macroSetU2kTarget macroSetH2gTarget macroSetG2hTarget
  cases ht with
  | inl h => cases a.mode <;> cases a.privilegeLevel <;> simp [h, ActorMode.value, ActorPL.value]
  | inr ht =>
    cases ht with
    | inl h => cases a.mode <;> cases a.privilegeLevel <;> simp [h, ActorMode.value, ActorPL.value]
    | inr ht =>
      cases ht with
      | inl h => cases a.mode <;> cases a.privilegeLevel <;> simp [h, ActorMode.value]
      | inr h => cases a.mode <;> cases a.privilegeLevel <;> simp [h, ActorMode.value]

theorem switchTargetOk_iff (hs : Holds tc s) (hnum : Numbered tc) (hn : tc.actorValues.length < 256)
    {e : SymbolTableEntry} (he : Resolved tc e) :
    switchTargetOk s (entryOf e) = true ↔
      ∀ a ∈ tc.actorValues, a.id = argOf e.arg 0 → ¬ OnlyParser e.type_ a ∧ ¬ Neither e.type_ a := by
  by_cases ht : e.type_ = 5 ∨ e.type_ = 7 ∨ e.type_ = 9 ∨ e.type_ = 11
  · have hspec : ∃ spec ∈ macroSpecs, spec.type_ = e.type_ := by
      cases he.known with
      | inl h => omega
      | inr h => exact h
    cases hspec with
    | intro spec hspec =>
      have harg := target_args hspec.1 (hspec.2 ▸ ht)
      cases he.actors spec hspec.1 hspec.2 0 harg with
      | intro a ha =>
        cases List.mem_iff_getElem?.1 (tc.mem_getActors.2 ha.1) with
        | intro i hi =>
          have hid := hnum i a hi
          have hlt : i < tc.getActors.length := (List.getElem?_eq_some_iff.1 hi).1
          have htarget : (entryOf e).args % 256 = i := by
            have hlen := tc.length_getActors
            exact args_mod he.arg (ha.2.symm.trans hid) (by omega)
          have hmode := hs.actors i a hi
          have hall : (∀ b ∈ tc.actorValues, b.id = argOf e.arg 0 →
              ¬ OnlyParser e.type_ b ∧ ¬ Neither e.type_ b) ↔
                ¬ OnlyParser e.type_ a ∧ ¬ Neither e.type_ a := by
            constructor
            · intro h
              exact h a ha.1 ha.2
            · intro h b hb hid
              rw [hnum.unique ha.1 hb (hid.trans ha.2.symm)]
              exact h
          rw [hall]
          unfold switchTargetOk
          simp only [htarget, hmode.1, hmode.2]
          exact targetRule ht a
  · have hno : ∀ a, ¬ OnlyParser e.type_ a ∧ ¬ Neither e.type_ a := fun a =>
      ⟨fun h => ht (isTargetType (.inl h)), fun h => ht (isTargetType (.inr (.inr h)))⟩
    have hid : (entryOf e).id ≠ 5 ∧ (entryOf e).id ≠ 7 ∧ (entryOf e).id ≠ 9 ∧
        (entryOf e).id ≠ 11 := by
      show e.type_.toNat ≠ 5 ∧ e.type_.toNat ≠ 7 ∧ e.type_.toNat ≠ 9 ∧ e.type_.toNat ≠ 11
      omega
    constructor
    · intro _ a _ _
      exact hno a
    · intro _
      unfold switchTargetOk macroSetK2uTarget macroSetU2kTarget macroSetH2gTarget macroSetG2hTarget
      simp [hid.1, hid.2.1, hid.2.2.1, hid.2.2.2]

theorem switchTargets_iff (hs : Holds tc s) (hnum : Numbered tc) (hn : tc.actorValues.length < 256)
    (hres : ∀ e ∈ tc.symbolTable, Resolved tc e) :
    (∀ e ∈ s.symbolList, switchTargetOk s e = true) ↔
      ∀ e a, IsTarget tc e a → ¬ OnlyParser e.type_ a ∧ ¬ Neither e.type_ a := by
  rw [hs.symbols]
  constructor
  · intro h e a ht
    have hok := h (entryOf e) (List.mem_map_of_mem (mem_sortedSymbols.2 ht.1))
    exact (switchTargetOk_iff hs hnum hn (hres e ht.1)).1 hok a ht.2.1 ht.2.2
  · intro h e he
    cases List.mem_map.1 he with
    | intro e' he' =>
      rw [← he'.2]
      have hmem := mem_sortedSymbols.1 he'.1
      exact (switchTargetOk_iff hs hnum hn (hres e' hmem)).2 fun a ha hid => h e' a ⟨hmem, ha, hid⟩

/-! ### The two rules -/

theorem rules_agree (p k n : Prop) :
    ((¬ k ∧ ¬ n) ↔ (¬ p ∧ ¬ n)) ↔ n ∨ (p ∧ k) ∨ (¬ p ∧ ¬ k) := by
  by_cases hn : n
  · simp [hn]
  · by_cases hp : p
    · simp [hn, hp]
    · simp [hn, hp]

/-- The parser accepts a table exactly when no check of the kernel module fails on it, precisely
under `TargetsAgree`. -/
theorem validateMacros_agrees_iff (hs : Holds tc s) (hnum : Numbered tc)
    (hn : tc.actorValues.length < 256) (hres : ∀ e ∈ tc.symbolTable, Resolved tc e) :
    (accepts (validateMacros tc.actorValues tc.symbolTable) = true ↔
      ∀ e ∈ s.symbolList, switchTargetOk s e = true) ↔ TargetsAgree tc := by
  rw [accepts_validateMacros hnum hres, switchTargets_iff hs hnum hn hres]
  have hparser : (∀ e a, IsTarget tc e a → ¬ OnlyKernel e.type_ a ∧ ¬ Neither e.type_ a) ↔
      (¬ ∃ e a, IsTarget tc e a ∧ OnlyKernel e.type_ a) ∧
        ¬ ∃ e a, IsTarget tc e a ∧ Neither e.type_ a := by
    constructor
    · intro h
      exact ⟨fun ⟨e, a, ht, hk⟩ => (h e a ht).1 hk, fun ⟨e, a, ht, hk⟩ => (h e a ht).2 hk⟩
    · intro h e a ht
      exact ⟨fun hk => h.1 ⟨e, a, ht, hk⟩, fun hk => h.2 ⟨e, a, ht, hk⟩⟩
  have hkernel : (∀ e a, IsTarget tc e a → ¬ OnlyParser e.type_ a ∧ ¬ Neither e.type_ a) ↔
      (¬ ∃ e a, IsTarget tc e a ∧ OnlyParser e.type_ a) ∧
        ¬ ∃ e a, IsTarget tc e a ∧ Neither e.type_ a := by
    constructor
    · intro h
      exact ⟨fun ⟨e, a, ht, hk⟩ => (h e a ht).1 hk, fun ⟨e, a, ht, hk⟩ => (h e a ht).2 hk⟩
    · intro h e a ht
      exact ⟨fun hk => h.1 ⟨e, a, ht, hk⟩, fun hk => h.2 ⟨e, a, ht, hk⟩⟩
  rw [hparser, hkernel]
  exact rules_agree _ _ _

end

/-! ### The tables in the kernel -/

theorem words_getElem? {m : Mem} {n i : Nat} (h : i < n) :
    (m.words n)[i]? = some (m.word64 (8 * i)) := by
  simp [Mem.words, h]

/-- A word of a decoded table, from the integer that was saved. -/
theorem word_of_decoded {m : Mem} {n k i j : Nat} {α : Type} {l : List α} {g : α → List Int} {a : α}
    {v : Int} (hm : m.words (k * n) = TestCaseBinary.wordsOf (l.flatMap g))
    (hg : ∀ a, (g a).length = k) (hi : i < n) (ha : l[i]? = some a) (hv : (g a)[j]? = some v) :
    m.word64 (8 * (k * i + j)) = v.toNat := by
  have hj : j < k := by
    have hlt := (List.getElem?_eq_some_iff.1 hv).1
    rwa [hg] at hlt
  have hlt : k * i + j < k * n := by
    have hle : k * (i + 1) ≤ k * n := Nat.mul_le_mul_left k hi
    rw [Nat.mul_succ] at hle
    omega
  have hword := words_getElem? (m := m) hlt
  rw [hm] at hword
  unfold TestCaseBinary.wordsOf at hword
  rw [List.getElem?_map, TestCaseBinary.getElem?_flatMap_const g k hg hj, ha, Option.bind_some,
    hv] at hword
  exact (Option.some.inj hword).symm

/-- A file that was decoded holds the test case that was saved. -/
theorem holds_of_decoded {tc : TestCaseBinary} {bytes : List UInt8} (h : tc.saveRcbf = some bytes)
    (hl : tc.WithinLimits) {s : TcParser} (hs : Decoded (tc.image h hl) s) : Holds tc s := by
  have hn : (tc.image h hl).nActors = tc.getActors.length := List.length_map _
  constructor
  · intro i a ha
    have hi : i < (tc.image h hl).nActors := by
      rw [hn]
      exact (List.getElem?_eq_some_iff.1 ha).1
    have hword : ∀ j v, [a.id, a.mode.value, a.privilegeLevel.value, a.dataProperties,
        a.dataEptProperties, 0][j]? = some v → s.actorTable.word64 (8 * (6 * i + j)) = v.toNat :=
      fun j v hv => word_of_decoded hs.actorTable (fun _ => rfl) hi ha hv
    have hoff : ∀ j, 8 * (6 * i + j) = actorMetadataSize * i + 8 * j := by
      intro j
      unfold actorMetadataSize
      omega
    constructor
    · have hmode := hword 1 a.mode.value rfl
      rwa [hoff] at hmode
    · have hpl := hword 2 a.privilegeLevel.value rfl
      rwa [hoff] at hpl
  · have hns : s.nSymbols = tc.sortedSymbols.length := by
      rw [hs.nSymbols, tc.length_sortedSymbols]
      rfl
    apply List.ext_getElem?
    intro i
    by_cases hi : i < s.nSymbols
    · have hget : tc.sortedSymbols[i]? = some tc.sortedSymbols[i] :=
        List.getElem?_eq_getElem (by omega)
      have hword : ∀ j v, [tc.sortedSymbols[i].sid, tc.sortedSymbols[i].offset,
          tc.sortedSymbols[i].type_, tc.sortedSymbols[i].arg][j]? = some v →
            s.symbolTable.word64 (8 * (4 * i + j)) = v.toNat := fun j v hv =>
        word_of_decoded hs.symbolTable (fun _ => rfl) (hs.nSymbols ▸ hi) hget hv
      have hoff : ∀ j, 8 * (4 * i + j) = tcSymbolEntrySize * i + 8 * j := by
        intro j
        unfold tcSymbolEntrySize
        omega
      have h₀ := hword 0 _ rfl
      have h₁ := hword 1 _ rfl
      have h₂ := hword 2 _ rfl
      have h₃ := hword 3 _ rfl
      rw [hoff] at h₀ h₁ h₂ h₃
      rw [List.getElem?_map, hget]
      unfold TcParser.symbolList
      rw [List.getElem?_map, List.getElem?_range hi]
      show some (s.symbolAt i) = some (entryOf tc.sortedSymbols[i])
      unfold TcParser.symbolAt entryOf
      simp only [Nat.mul_zero, Nat.add_zero] at h₀
      simp only [h₀, h₁, h₂, h₃]
    · rw [List.getElem?_eq_none (by simp [TcParser.symbolList]; omega),
        List.getElem?_eq_none (by rw [List.length_map]; omega)]

/-! ### Two tables -/

/-- A kernel state with the tables of a test case. -/
def holder (tc : TestCaseBinary) : TcParser := { TcParser.init (fun _ => 0) with
  nActors := tc.getActors.length
  nSymbols := tc.sortedSymbols.length
  actorTable := fun i => (encodeWords (TestCaseBinary.wordsOf tc.actorInts)).getD i 0
  symbolTable := fun i => (encodeWords (TestCaseBinary.wordsOf tc.symbolInts)).getD i 0 }

theorem holds_holder {tc : TestCaseBinary}
    (hactors : ∀ i < tc.getActors.length, ∀ a ∈ tc.getActors[i]?,
      (holder tc).actorMode i = a.mode.value.toNat ∧
        (holder tc).actorPl i = a.privilegeLevel.value.toNat)
    (hsymbols : (holder tc).symbolList = tc.sortedSymbols.map entryOf) : Holds tc (holder tc) :=
  ⟨fun i a ha => hactors i (List.getElem?_eq_some_iff.1 ha).1 a ha, hsymbols⟩

/-- Of a table whose symbols name an actor in their first argument, every symbol is resolved. -/
theorem resolved_of_first {tc : TestCaseBinary} {e : SymbolTableEntry} (harg : 0 ≤ e.arg)
    (hknown : e.type_ = 0 ∨ ∃ spec ∈ macroSpecs, spec.type_ = e.type_)
    (hactor : ∃ a ∈ tc.actorValues, a.id = argOf e.arg 0) : Resolved tc e := by
  refine ⟨harg, hknown, ?_⟩
  intro spec hspec _ i hi
  have hlen : ∀ spec ∈ macroSpecs, spec.args.length = 4 := by decide
  have hlt := (List.getElem?_eq_some_iff.1 hi).1
  rw [hlen spec hspec] at hlt
  rw [actorId_first hspec hlt hi]
  exact hactor

theorem numbered_of_lt {tc : TestCaseBinary}
    (h : ∀ i < tc.getActors.length, ∀ a ∈ tc.getActors[i]?, a.id = (i : Nat)) : Numbered tc :=
  fun i a ha => h i (List.getElem?_eq_some_iff.1 ha).1 a ha

/-- A user actor that is the target of a switch from the kernel. -/
def userTarget : TestCaseBinary :=
  ⟨[sampleActor 0 0 2, { sampleActor 1 0 2 with privilegeLevel := .user }],
    [⟨0, 0, 0, 0⟩, ⟨0, 1, 5, 1⟩], [0x90, 0x90], by decide⟩

theorem validateMacros_agrees_userTarget :
    (accepts (validateMacros userTarget.actorValues userTarget.symbolTable) = true ↔
      ∀ e ∈ (holder userTarget).symbolList, switchTargetOk (holder userTarget) e = true) ↔
      TargetsAgree userTarget :=
  validateMacros_agrees_iff (holds_holder (by decide +kernel) (by decide +kernel))
    (numbered_of_lt (by decide +kernel)) (by decide) (by
      intro e he
      have hcases : e = ⟨0, 0, 0, 0⟩ ∨ e = ⟨0, 1, 5, 1⟩ := by simpa [userTarget] using he
      cases hcases with
      | inl h => exact h ▸ resolved_of_first (by decide) (by decide) (by decide)
      | inr h => exact h ▸ resolved_of_first (by decide) (by decide) (by decide))

theorem sampleActor_in_file : ∀ a ∈ [sampleActor 0 0 2],
    a.codeSection.offset + a.codeSection.size ≤ [(0x90 : UInt8), 0x90].length := by decide

/-- The main actor as the target of a switch into a guest. -/
def hostAsGuest : TestCaseBinary :=
  ⟨[sampleActor 0 0 2], [⟨0, 0, 9, 0⟩], [0x90, 0x90], sampleActor_in_file⟩

/-- The parser accepts it, the kernel module does not. -/
theorem hostAsGuest_accepted_by_parser_only :
    ¬ ∀ (tc : TestCaseBinary) (s : TcParser), Holds tc s → Numbered tc →
      tc.actorValues.length < 256 → (∀ e ∈ tc.symbolTable, Resolved tc e) →
        (accepts (validateMacros tc.actorValues tc.symbolTable) = true ↔
          ∀ e ∈ s.symbolList, switchTargetOk s e = true) := by
  intro h
  have hagree := h hostAsGuest (holder hostAsGuest)
    (holds_holder (by decide +kernel) (by decide +kernel)) (numbered_of_lt (by decide +kernel))
    (by decide) (by
      intro e he
      have heq : e = ⟨0, 0, 9, 0⟩ := by simpa [hostAsGuest] using he
      exact heq ▸ resolved_of_first (by decide) (by decide) (by decide))
  have hok := hagree.1 (by decide +kernel) ⟨0, 0, 9, 0⟩ (by decide +kernel)
  exact absurd hok (by decide +kernel)

end Rvzr.Km
