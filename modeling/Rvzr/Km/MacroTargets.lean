import Rvzr.TestCase.Numbering
import Rvzr.Km.TargetTypes
import Rvzr.Lib.Sorting
import Mathlib.Tactic.Ring

/-!
# The targets of macros

Where the macro interpreter of the model (`rvzr/model_unicorn/interpreter.py:199-264`) and the
kernel module (`macro_expansion.c:290-305`, `x86/macros.c:97-114`) send a macro with an actor and a
function, when both have the symbol table of one parsed test case.
-/

namespace Rvzr.Km

open Rvzr.Lib Rvzr.TestCase

/-- The number of instructions that a macro takes up. -/
def instructionPerMacro (instructionSet : Text) : Nat :=
  if instructionSet = "arm64".toList then 3 else 1

/-! ### The interpreter -/

/-- `_function_table`. -/
def functionTable (tc : TestCaseBinary) : List SymbolTableEntry :=
  (tc.symbolTable.filter fun s => s.type_ = 0).insertionSort fun a b => a.arg ≤ b.arg

/-- `_macro_table`. -/
def macroTable (tc : TestCaseBinary) : List SymbolTableEntry :=
  tc.symbolTable.filter fun s => s.type_ ≠ 0

/-- `_get_macro_args`; `none` is a critical error. -/
def getMacroArgs (tc : TestCaseBinary) (sectionId sectionOffset : Int) : Option (List Int) :=
  ((macroTable tc).find? fun s => s.sid = sectionId ∧ s.offset = sectionOffset).map fun s =>
    (List.range 4).map (argOf s.arg)

/-- `_find_function_by_id`; `none` is a critical error. -/
def findFunctionById (tc : TestCaseBinary) (functionId : Int) : Option SymbolTableEntry :=
  if functionId < 0 ∨ functionId ≥ (functionTable tc).length then none
  else (functionTable tc)[functionId.toNat]?

/-- The section and the offset that a macro with an actor and a function is resolved to. -/
def interpreterTarget (tc : TestCaseBinary) (args : List Int) : Option (Int × Int) :=
  (findFunctionById tc (args.getD 1 0)).map fun s => (args.getD 0 0, s.offset)

/-! ### The kernel module -/

/-- The arguments that `inject_macro_configurable_part` takes from an entry. -/
def macroArgs (e : TcSymbolEntry) : List Nat :=
  (List.range 4).map fun i => e.args / 2 ^ (16 * i) % 2 ^ 16

/-- The entry of the macro that is expanded at an offset of a section. -/
def macroEntryAt (s : TcParser) (sectionId offset : Nat) : Option TcSymbolEntry :=
  s.symbolList.find? fun e => e.id ≠ 0 ∧ e.owner = sectionId ∧ e.offset = offset

/-- `get_function_addr`: the section, and the offset in `symbol_table[function_id]`. -/
def kernelTarget (s : TcParser) (args : List Nat) : Option (Nat × Nat) :=
  s.symbolList[args.getD 1 0]?.map fun e => (args.getD 0 0, e.offset)

/-! ### Agreement -/

/-- The four arguments that a list of values stands for. -/
def fourArgs (values : List Int) : List Int := (List.range 4).map fun i => values.getD i 0

/-- A macro is resolved alike, and its arguments are those that were encoded. -/
structure MacroAgrees (bin : TestCaseBinary) (s : TcParser) (sectionId offset : Nat)
    (values : List Int) : Prop where
  interpreter : getMacroArgs bin sectionId offset = some (fourArgs values)
  kernel : ∃ e, macroEntryAt s sectionId offset = some e ∧
    (macroArgs e).map Int.ofNat = fourArgs values ∧
    ∃ sid target : Nat, interpreterTarget bin (fourArgs values) = some ((sid : Int), (target : Int)) ∧
      kernelTarget s (macroArgs e) = some (sid, target)

/-- A macro specification with an actor and a function. -/
def HasTarget (spec : MacroSpec) : Prop :=
  spec.args[0]? = some .actorId ∧ spec.args[1]? = some .functionId

/-- The functions are numbered from 0 on, the function with id `k` is saved as entry `k`, and every
macro with an actor and a function is resolved alike. -/
structure ResolvedAlike (perMacro : Nat) (addrs : InstrAddrMap) (tc : TestCaseProgram)
    (sections : List SectionData) (bin : TestCaseBinary) (s : TcParser) : Prop where
  ids : (functionsOf sections).map FunctionData.id =
    (List.range (functionsOf sections).length).map Int.ofNat
  entries : ∀ sec ∈ sections, ∀ f ∈ sec.functions, ∀ k : Nat, f.id = k →
    bin.sortedSymbols[k]? = some ⟨sec.id, f.offset, 0, k⟩
  macros : ∀ sec ∈ sections, ∀ p ∈ macrosAt perMacro tc sec, ∀ spec values offset,
    ((addrs sec.name).getD [])[p.1]? = some offset →
    macroValues sections (functionsOf sections) p.2 = .ok (spec, values) → HasTarget spec →
    MacroAgrees bin s sec.id offset values

/-- The name of a macro. -/
def macroName (inst : Instruction) : Text := ((inst.operands.getD 0 []).drop 1).map Char.toLower

/-- The names that a macro has as its arguments. -/
def macroArgNames (inst : Instruction) : List Text :=
  ((splitText '.' (inst.operands.getD 1 [])).drop 1).map fun t => t.map Char.toLower

/-- The macros with an actor and a function name sections and functions whose numbers fit into 16
bits. -/
def SmallTargets (tc : TestCaseProgram) (sections : List SectionData) : Prop :=
  ∀ sec ∈ sections, ∀ inst ∈ codeOf tc sec, inst.isMacro = true →
    (∃ spec ∈ macroSpecs, spec.name.toList = macroName inst ∧ HasTarget spec) →
    (∀ name, (macroArgNames inst)[0]? = some name →
      name ∈ (sections.map SectionData.name).take (2 ^ 16)) ∧
    ∀ name, (macroArgNames inst)[1]? = some name →
      '.' :: name ∈ ((functionsOf sections).map FunctionData.name).take (2 ^ 16)

/-- No macro is called `function`. -/
def NoFunctionMacro (tc : TestCaseProgram) (sections : List SectionData) : Prop :=
  ∀ sec ∈ sections, ∀ inst ∈ codeOf tc sec, inst.isMacro = true → macroName inst ≠ "function".toList

/-! ### Packed arguments -/

theorem packArgs_cons (v : Int) (values : List Int) :
    packArgs (v :: values) = v + 2 ^ 16 * packArgs values := by
  have hshift : ∀ (k : Nat) (vs : List Int), ((vs.zipIdx (k + 1)).map fun w => w.1 * 2 ^ (16 * w.2)).sum =
      2 ^ 16 * ((vs.zipIdx k).map fun w => w.1 * 2 ^ (16 * w.2)).sum := by
    intro k vs
    induction vs generalizing k with
    | nil => rfl
    | cons w vs ih =>
      have hpow : (2 : Int) ^ (16 * (k + 1)) = 2 ^ 16 * 2 ^ (16 * k) := by
        rw [← pow_add]
        congr 1
        omega
      rw [List.zipIdx_cons, List.map_cons, List.sum_cons, ih, List.zipIdx_cons, List.map_cons,
        List.sum_cons, hpow]
      ring
  unfold packArgs
  rw [List.zipIdx_cons, List.map_cons, List.sum_cons, hshift]
  simp

theorem packArgs_nonneg {values : List Int} (h : ∀ v ∈ values, 0 ≤ v) : 0 ≤ packArgs values := by
  induction values with
  | nil => exact le_refl _
  | cons v values ih =>
    rw [packArgs_cons]
    have hv := h v List.mem_cons_self
    have hrest := ih fun w hw => h w (List.mem_cons_of_mem v hw)
    omega

theorem argOf_succ (v x : Int) (h : 0 ≤ v ∧ v < 2 ^ 16) (i : Nat) :
    argOf (v + 2 ^ 16 * x) (i + 1) = argOf x i := by
  unfold argOf
  have hpow : (2 : Int) ^ (16 * (i + 1)) = 2 ^ 16 * 2 ^ (16 * i) := by
    rw [← pow_add]
    congr 1
    omega
  have hdiv : (v + 2 ^ 16 * x) / 2 ^ 16 = x := by omega
  rw [hpow, ← Int.ediv_ediv_of_nonneg (by decide), hdiv]

/-- The arguments are read back when each of them fits into 16 bits. -/
theorem argOf_packArgs {values : List Int} (h : ∀ v ∈ values, 0 ≤ v ∧ v < 2 ^ 16) (i : Nat) :
    argOf (packArgs values) i = values.getD i 0 := by
  induction values generalizing i with
  | nil =>
    show (0 : Int) / _ % _ = _
    simp
  | cons v values ih =>
    rw [packArgs_cons]
    have hv := h v List.mem_cons_self
    cases i with
    | zero =>
      unfold argOf
      show (v + 2 ^ 16 * packArgs values) / 2 ^ (16 * 0) % 2 ^ 16 = v
      omega
    | succ i =>
      rw [argOf_succ v _ hv, ih fun w hw => h w (List.mem_cons_of_mem v hw)]
      rfl

theorem argOf_lt (arg : Int) (i : Nat) : 0 ≤ argOf arg i ∧ argOf arg i < 2 ^ 16 := by
  unfold argOf
  omega

/-- The kernel module reads the arguments that the model reads. -/
theorem macroArgs_entryOf {e : SymbolTableEntry} (h : 0 ≤ e.arg) :
    (macroArgs (entryOf e)).map Int.ofNat = (List.range 4).map (argOf e.arg) := by
  unfold macroArgs
  rw [List.map_map]
  apply List.map_congr_left
  intro i _
  show (((e.arg.toNat / 2 ^ (16 * i) % 2 ^ 16 : Nat) : Int)) = argOf e.arg i
  unfold argOf
  rw [Int.natCast_emod, Int.natCast_ediv, Int.toNat_of_nonneg h]
  norm_cast

/-! ### The values of a macro -/

section Values

variable {sections : List SectionData} {functions : List FunctionData} {inst : Instruction}
  {spec : MacroSpec} {values : List Int}

theorem macroSpec_ok {name : Text} (h : macroSpec name = .ok spec) :
    spec ∈ macroSpecs ∧ spec.name.toList = name := by
  unfold macroSpec at h
  cases hf : macroSpecs.find? fun spec => spec.name.toList = name with
  | none =>
    rw [hf] at h
    exact nomatch h
  | some spec' =>
    rw [hf] at h
    rw [← Except.ok.inj h]
    exact ⟨List.mem_of_find?_eq_some hf, by simpa using List.find?_some hf⟩

theorem getD_of_item {xs : List Text} {i : Nat} {x : Text} (h : item xs i = .ok x) :
    xs.getD i [] = x := by
  rw [List.getD_eq_getElem?_getD, item_ok h]
  rfl

/-- The values of a macro are those of the names, in their places. -/
structure ValuesOf (sections : List SectionData) (functions : List FunctionData)
    (inst : Instruction) (spec : MacroSpec) (values : List Int) : Prop where
  spec_mem : spec ∈ macroSpecs
  name : spec.name.toList = macroName inst
  length : values.length = (macroArgNames inst).length
  value : ∀ (i : Nat) v, values[i]? = some v → ∃ kind arg, spec.args[i]? = some kind ∧
    (macroArgNames inst)[i]? = some arg ∧ argValue sections functions kind arg = .ok v

theorem macroValues_ok (h : macroValues sections functions inst = .ok (spec, values)) :
    ValuesOf sections functions inst spec values := by
  unfold macroValues at h
  cases except_bind_ok h with
  | intro op₀ hop₀ =>
    cases except_bind_ok hop₀.2 with
    | intro spec' hspec =>
      cases except_bind_ok hspec.2 with
      | intro op₁ hop₁ =>
        cases except_bind_ok hop₁.2 with
        | intro values' hvalues =>
          have hres := Prod.mk.inj (Except.ok.inj hvalues.2)
          have hmem := macroSpec_ok hspec.1
          have hargs := mapM_ok hvalues.1
          rw [hres.1] at hmem hargs
          rw [hres.2] at hargs
          have hnames : macroArgNames inst =
              ((splitText '.' op₁).drop 1).map fun t => t.map Char.toLower := by
            unfold macroArgNames
            rw [getD_of_item hop₁.1]
          refine ⟨hmem.1, ?_, ?_, ?_⟩
          · rw [hmem.2]
            unfold macroName
            rw [getD_of_item hop₀.1]
          · rw [hnames, ← hargs.length_eq]
            simp
          · intro i v hv
            have hlt : i < values.length := (List.getElem?_eq_some_iff.1 hv).1
            have hlt' : i < (((splitText '.' op₁).drop 1).zipIdx).length := by
              rw [hargs.length_eq]
              exact hlt
            have hrel := (List.forall₂_iff_get.1 hargs).2 i hlt' hlt
            cases except_bind_ok hrel with
            | intro kind hkind =>
              have hlen : i < ((splitText '.' op₁).drop 1).length := by
                simpa using hlt'
              refine ⟨kind, (((splitText '.' op₁).drop 1)[i]).map Char.toLower, ?_, ?_, ?_⟩
              · have hitem := item_ok hkind.1
                simpa using hitem
              · rw [hnames, List.getElem?_map, List.getElem?_eq_getElem hlen]
                rfl
              · have hval := hkind.2
                rw [List.get_eq_getElem, List.get_eq_getElem, List.getElem_zipIdx] at hval
                rw [(List.getElem?_eq_some_iff.1 hv).2] at hval
                exact hval

end Values

/-! ### The function table -/

theorem function_spec {spec : MacroSpec} (h : spec ∈ macroSpecs) :
    spec.type_ = 0 ↔ spec.name.toList = "function".toList := by
  revert spec
  decide

theorem function_args {spec : MacroSpec} (h : spec ∈ macroSpecs) (ht : spec.type_ = 0) :
    ∀ kind ∈ spec.args, kind = .none := by
  revert spec
  decide

theorem functionSymbols_args (sections : List SectionData) :
    (sections.flatMap functionSymbols).map SymbolTableEntry.arg =
      (functionsOf sections).map FunctionData.id := by
  unfold functionsOf functionSymbols
  rw [List.map_flatMap, List.map_flatMap]
  simp [Function.comp_def]

theorem mem_functionSymbols {sections : List SectionData} {e : SymbolTableEntry} :
    e ∈ sections.flatMap functionSymbols ↔
      ∃ sec ∈ sections, ∃ f ∈ sec.functions, e = ⟨sec.id, f.offset, 0, f.id⟩ := by
  unfold functionSymbols
  simp only [List.mem_flatMap, List.mem_map]
  constructor
  · intro h
    cases h with
    | intro sec hsec =>
      cases hsec.2 with
      | intro f hf => exact ⟨sec, hsec.1, f, hf.1, hf.2.symm⟩
  · intro h
    cases h with
    | intro sec hsec =>
      cases hsec.2 with
      | intro f hf => exact ⟨sec, hsec.1, f, hf.1, hf.2.symm⟩

/-- The functions are numbered from 0 on. -/
def FunctionsNumbered (sections : List SectionData) : Prop :=
  (functionsOf sections).map FunctionData.id =
    (List.range (functionsOf sections).length).map Int.ofNat

section Table

variable {perMacro : Nat} {addrs : InstrAddrMap} {tc : TestCaseProgram}
  {sections : List SectionData} {bin : TestCaseBinary} {ms : List SymbolTableEntry}

theorem macroSymbol_eq {functions : List FunctionData} {sec : SectionData} {p : Nat × Instruction}
    {e : SymbolTableEntry} (h : MacroSymbol perMacro addrs sections functions tc sec p e) :
    ∃ spec values, ∃ offset : Nat, macroValues sections functions p.2 = .ok (spec, values) ∧
      ((addrs sec.name).getD [])[p.1]? = some offset ∧
      e = ⟨sec.id, offset, spec.type_, packArgs values⟩ := by
  cases h.2 with
  | intro offset he =>
    cases except_bind_ok he.2 with
    | intro m hm => exact ⟨m.1, m.2, offset, hm.1, he.1, (Except.ok.inj hm.2).symm⟩

/-- The symbols of type 0 are those of the functions and those of the macros `function`. -/
theorem functions_perm (h : Recorded perMacro addrs sections (functionsOf sections) tc sections
      bin.symbolTable ms) :
    (bin.symbolTable.filter fun s => s.type_ = 0).Perm
      (sections.flatMap functionSymbols ++ ms.filter fun s => s.type_ = 0) := by
  have hperm := h.perm.filter fun s => s.type_ = 0
  have hself : (sections.flatMap functionSymbols).filter (fun s => s.type_ = 0) =
      sections.flatMap functionSymbols := by
    rw [List.filter_eq_self]
    intro e he
    cases mem_functionSymbols.1 he with
    | intro sec hsec =>
      cases hsec.2 with
      | intro f hf => simp [hf.2]
  rwa [List.filter_append, hself] at hperm

/-- A macro whose symbol has type 0 is called `function`, and its argument is 0. -/
theorem function_symbol (h : Recorded perMacro addrs sections (functionsOf sections) tc sections
      bin.symbolTable ms) {e : SymbolTableEntry} (he : e ∈ ms) (ht : e.type_ = 0) :
    e.arg = 0 ∧ ∃ sec ∈ sections, ∃ p,
      MacroSymbol perMacro addrs sections (functionsOf sections) tc sec p e ∧
      macroName p.2 = "function".toList := by
  cases (h.mem e).1 he with
  | intro sec hsec =>
    cases hsec.2 with
    | intro p hp =>
      obtain ⟨spec, values, offset, hvalues, _, heq⟩ := macroSymbol_eq hp
      have hv := macroValues_ok hvalues
      have htype : spec.type_ = 0 := by rw [← ht, heq]
      have hzero : ∀ v ∈ values, v = 0 := by
        intro v hmem
        cases List.mem_iff_getElem?.1 hmem with
        | intro i hi =>
          obtain ⟨kind, arg, hkind, _, hval⟩ := hv.value i v hi
          have hnone := function_args hv.spec_mem htype kind (List.mem_of_getElem? hkind)
          rw [hnone] at hval
          exact (Except.ok.inj hval).symm
      have hpack : ∀ vs : List Int, (∀ v ∈ vs, v = 0) → packArgs vs = 0 := by
        intro vs
        induction vs with
        | nil => exact fun _ => rfl
        | cons v vs ih =>
          intro hall
          rw [packArgs_cons, hall v List.mem_cons_self,
            ih fun w hw => hall w (List.mem_cons_of_mem v hw)]
          rfl
      refine ⟨?_, sec, hsec.1, p, hp, ?_⟩
      · rw [heq]
        exact hpack values hzero
      · rw [← hv.name]
        exact (function_spec hv.spec_mem).1 htype

theorem functionTable_eq (bin : TestCaseBinary) :
    functionTable bin = sortBy SymbolTableEntry.arg (bin.symbolTable.filter fun s => s.type_ = 0) :=
  rfl

theorem range_strict (n : Nat) : ((List.range n).map Int.ofNat).Pairwise (· < ·) :=
  List.pairwise_map.2 (List.pairwise_lt_range.imp fun h => Int.ofNat_lt.2 h)

/-- Without macros `function`, the function with id `k` is entry `k`. -/
theorem functionTable_of_no_macro (h : Recorded perMacro addrs sections (functionsOf sections) tc
      sections bin.symbolTable ms) (hids : FunctionsNumbered sections)
    (hno : NoFunctionMacro tc sections) {sec : SectionData} (hsec : sec ∈ sections)
    {f : FunctionData} (hf : f ∈ sec.functions) {k : Nat} (hk : f.id = k) :
    (functionTable bin)[k]? = some ⟨sec.id, f.offset, 0, k⟩ := by
  have hperm := functions_perm h
  have hnone : (ms.filter fun s => s.type_ = 0) = [] := by
    rw [List.filter_eq_nil_iff]
    intro e he ht
    obtain ⟨_, sec', hsec', p, hp, hname⟩ := function_symbol h he (by simpa using ht)
    have hmem := mem_macrosAt hp.1
    exact hno sec' hsec' p.2 hmem.1 hmem.2 hname
  rw [hnone, List.append_nil] at hperm
  have hentry : (⟨sec.id, f.offset, 0, k⟩ : SymbolTableEntry) ∈
      bin.symbolTable.filter fun s => s.type_ = 0 := by
    rw [hperm.mem_iff, mem_functionSymbols]
    exact ⟨sec, hsec, f, hf, by rw [hk]⟩
  have hargs : ((bin.symbolTable.filter fun s => s.type_ = 0).map SymbolTableEntry.arg).Perm
      ((List.range (functionsOf sections).length).map Int.ofNat) := by
    rw [← hids, ← functionSymbols_args]
    exact hperm.map _
  have hlt : k < (functionsOf sections).length := by
    have hmem : f.id ∈ (functionsOf sections).map FunctionData.id :=
      List.mem_map_of_mem (List.mem_flatMap.2 ⟨sec, hsec, hf⟩)
    rw [hids, hk] at hmem
    simpa using hmem
  rw [functionTable_eq]
  refine getElem?_sortBy hargs (range_strict _) hentry ?_
  rw [List.getElem?_map, List.getElem?_range hlt]
  rfl

/-- A section is known by its number. -/
theorem section_of_id (hsids : sections.map SectionData.id = List.range sections.length)
    {sec sec' : SectionData} (h : sec ∈ sections) (h' : sec' ∈ sections) (hid : sec.id = sec'.id) :
    sec = sec' := by
  have hnodup : (sections.map SectionData.id).Nodup := by
    rw [hsids]
    exact List.nodup_range
  exact List.inj_on_of_nodup_map hnodup h h' hid

/-- A function is in one section. -/
theorem section_of_function (hsids : sections.map SectionData.id = List.range sections.length)
    (hids : FunctionsNumbered sections) {sec sec' : SectionData} (h : sec ∈ sections)
    (h' : sec' ∈ sections) {f : FunctionData} (hf : f ∈ sec.functions) (hf' : f ∈ sec'.functions) :
    sec = sec' := by
  have hnodup : ((sections.flatMap functionSymbols).map SymbolTableEntry.arg).Nodup := by
    rw [functionSymbols_args, hids]
    exact (range_strict _).imp ne_of_lt
  have hentry := mem_functionSymbols.2 ⟨sec, h, f, hf, rfl⟩
  have hentry' := mem_functionSymbols.2 ⟨sec', h', f, hf', rfl⟩
  have heq := List.inj_on_of_nodup_map hnodup hentry hentry' rfl
  exact section_of_id hsids h h' (Int.ofNat.inj (SymbolTableEntry.mk.inj heq).1)

theorem exists_function {sec : SectionData} {inst : Instruction} (h : inst ∈ codeOf tc sec) :
    ∃ f, f ∈ sec.functions := by
  cases List.mem_flatMap.1 h with
  | intro f hf => exact ⟨f, hf.1⟩

/-- With a single function, the symbols of type 0 all have argument 0 and stand behind it. -/
theorem single_function (h : Recorded perMacro addrs sections (functionsOf sections) tc sections
      bin.symbolTable ms) (hsids : sections.map SectionData.id = List.range sections.length)
    (hids : FunctionsNumbered sections) (hincr : ∀ name as, addrs name = some as → as.Pairwise (· < ·))
    (hfirst : ∀ sec ∈ sections, ∀ f rest, sec.functions = f :: rest →
      ((addrs sec.name).getD [])[0]? = some f.offset)
    {sec : SectionData} (hsec : sec ∈ sections) {f : FunctionData} (hf : f ∈ sec.functions)
    (hone : functionsOf sections = [f]) {e : SymbolTableEntry}
    (he : e ∈ bin.symbolTable.filter fun s => s.type_ = 0) :
    e.sid = sec.id ∧ e.type_ = 0 ∧ e.arg = 0 ∧ (f.offset : Int) ≤ e.offset := by
  have hid : f.id = 0 := by
    have hnumbered := hids
    unfold FunctionsNumbered at hnumbered
    rw [hone] at hnumbered
    exact (List.cons.inj hnumbered).1
  have hthe : ∀ sec' ∈ sections, ∀ f' ∈ sec'.functions, sec' = sec ∧ f' = f := by
    intro sec' hsec' f' hf'
    have hmem : f' ∈ functionsOf sections := List.mem_flatMap.2 ⟨sec', hsec', hf'⟩
    rw [hone, List.mem_singleton] at hmem
    rw [hmem] at hf'
    exact ⟨section_of_function hsids hids hsec' hsec hf' hf, hmem⟩
  have ht : e.type_ = 0 := by simpa using (List.mem_filter.1 he).2
  cases List.mem_append.1 ((functions_perm h).mem_iff.1 he) with
  | inl hfun =>
    obtain ⟨sec', hsec', f', hf', heq⟩ := mem_functionSymbols.1 hfun
    have hboth := hthe sec' hsec' f' hf'
    rw [heq, hboth.1, hboth.2]
    exact ⟨rfl, rfl, hid, le_refl _⟩
  | inr hmac =>
    obtain ⟨harg, sec', hsec', p, hp, _⟩ := function_symbol h (List.mem_filter.1 hmac).1 ht
    obtain ⟨spec, values, offset, _, hoffset, heq⟩ := macroSymbol_eq hp
    cases exists_function (mem_macrosAt hp.1).1 with
    | intro f' hf' =>
      have hboth := hthe sec' hsec' f' hf'
      refine ⟨by rw [heq, hboth.1], ht, harg, ?_⟩
      rw [heq]
      rw [hboth.1] at hoffset
      have hlist : ∃ rest, sec.functions = f :: rest := by
        cases hfs : sec.functions with
        | nil =>
          rw [hfs] at hf
          exact nomatch hf
        | cons g rest =>
          have hg := hthe sec hsec g (by rw [hfs]; exact List.mem_cons_self)
          exact ⟨rest, by rw [hg.2]⟩
      cases hlist with
      | intro rest hrest =>
        have hzero := hfirst sec hsec f rest hrest
        have hpair : ((addrs sec.name).getD []).Pairwise (· < ·) := by
          cases ha : addrs sec.name with
          | none => exact .nil
          | some as => exact hincr sec.name as ha
        show (f.offset : Int) ≤ offset
        cases hp₁ : p.1 with
        | zero =>
          rw [hp₁, hzero] at hoffset
          rw [Option.some.inj hoffset]
        | succ i =>
          rw [hp₁] at hoffset
          have hlt := List.pairwise_iff_getElem.1 hpair 0 (i + 1)
            (List.getElem?_eq_some_iff.1 hzero).1 (List.getElem?_eq_some_iff.1 hoffset).1 (by omega)
          rw [(List.getElem?_eq_some_iff.1 hzero).2, (List.getElem?_eq_some_iff.1 hoffset).2] at hlt
          omega

theorem functionTable_of_one (h : Recorded perMacro addrs sections (functionsOf sections) tc sections
      bin.symbolTable ms) (hsids : sections.map SectionData.id = List.range sections.length)
    (hids : FunctionsNumbered sections) (hincr : ∀ name as, addrs name = some as → as.Pairwise (· < ·))
    (hfirst : ∀ sec ∈ sections, ∀ f rest, sec.functions = f :: rest →
      ((addrs sec.name).getD [])[0]? = some f.offset)
    (hsorted : bin.symbolTable.Pairwise fun a b => toLex (a.sid, a.offset) ≤ toLex (b.sid, b.offset))
    (hone : (functionsOf sections).length ≤ 1) {sec : SectionData} (hsec : sec ∈ sections)
    {f : FunctionData} (hf : f ∈ sec.functions) {k : Nat} (hk : f.id = k) :
    (functionTable bin)[k]? = some ⟨sec.id, f.offset, 0, k⟩ := by
  have hmem : f ∈ functionsOf sections := List.mem_flatMap.2 ⟨sec, hsec, hf⟩
  have hlist : functionsOf sections = [f] := by
    cases hl : functionsOf sections with
    | nil =>
      rw [hl] at hmem
      exact nomatch hmem
    | cons g rest =>
      rw [hl] at hone hmem
      have hrest : rest = [] := List.eq_nil_of_length_eq_zero (by simpa using hone)
      rw [hrest] at hmem ⊢
      rw [List.mem_singleton.1 hmem]
  have hall := fun e (he : e ∈ bin.symbolTable.filter fun s => s.type_ = 0) =>
    single_function h hsids hids hincr hfirst hsec hf hlist he
  have hentry : (⟨sec.id, f.offset, 0, k⟩ : SymbolTableEntry) ∈
      bin.symbolTable.filter fun s => s.type_ = 0 := by
    rw [(functions_perm h).mem_iff, List.mem_append, mem_functionSymbols]
    exact .inl ⟨sec, hsec, f, hf, by rw [hk]⟩
  have hzero : k = 0 := by
    have harg := (hall _ hentry).2.2.1
    exact Int.ofNat.inj harg
  have htable : functionTable bin = bin.symbolTable.filter fun s => s.type_ = 0 := by
    refine List.Pairwise.insertionSort_eq (List.Pairwise.imp_of_mem ?_ (hsorted.filter _))
    intro a b ha hb _
    rw [(hall a ha).2.2.1, (hall b hb).2.2.1]
  have hpair := hsorted.filter fun s => decide (s.type_ = 0)
  rw [htable, hzero] at *
  cases hl : bin.symbolTable.filter fun s => decide (s.type_ = 0) with
  | nil =>
    rw [hl] at hentry
    exact nomatch hentry
  | cons x t =>
    rw [hl] at hentry hpair hall
    have hx := hall x List.mem_cons_self
    have hle : x.offset ≤ f.offset := by
      cases List.mem_cons.1 hentry with
      | inl heq => rw [← heq]
      | inr hrest =>
        have hlex := (List.pairwise_cons.1 hpair).1 _ hrest
        rw [Prod.Lex.toLex_le_toLex] at hlex
        cases hlex with
        | inl hlt => exact absurd hlt (by rw [hx.1]; exact lt_irrefl _)
        | inr heq => exact heq.2
    have hoffset : x.offset = f.offset := le_antisymm hle hx.2.2.2
    show some x = some _
    congr 1
    cases x with
    | mk sid offset type_ arg =>
      have h₁ : sid = sec.id := hx.1
      have h₂ : type_ = 0 := hx.2.1
      have h₃ : arg = 0 := hx.2.2.1
      have h₄ : offset = f.offset := hoffset
      rw [h₁, h₂, h₃, h₄]
      rfl

theorem sortedSymbols_eq (bin : TestCaseBinary) : ∃ rest, bin.sortedSymbols = functionTable bin ++ rest :=
  ⟨_, rfl⟩

/-- There is a function with every number. -/
theorem function_of_id (hids : FunctionsNumbered sections) {k : Nat}
    (hk : k < (functionsOf sections).length) :
    ∃ sec ∈ sections, ∃ f ∈ sec.functions, f.id = k := by
  have hmem : (k : Int) ∈ (functionsOf sections).map FunctionData.id := by
    rw [hids]
    exact List.mem_map_of_mem (List.mem_range.2 hk)
  obtain ⟨f, hf, hid⟩ := List.mem_map.1 hmem
  obtain ⟨sec, hsec, hf⟩ := List.mem_flatMap.1 hf
  exact ⟨sec, hsec, f, hf, hid⟩

/-- A macro `function` displaces the entry of the second function. -/
theorem no_macro_of_entries (h : Recorded perMacro addrs sections (functionsOf sections) tc sections
      bin.symbolTable ms) (hids : FunctionsNumbered sections)
    (hentries : ∀ sec ∈ sections, ∀ f ∈ sec.functions, ∀ k : Nat, f.id = k →
      bin.sortedSymbols[k]? = some ⟨sec.id, f.offset, 0, k⟩) :
    NoFunctionMacro tc sections ∨ (functionsOf sections).length ≤ 1 := by
  by_cases hone : (functionsOf sections).length ≤ 1
  · exact .inr hone
  · left
    intro sec hsec inst hinst hmac hname
    have hperm := functions_perm h
    cases exists_macrosAt perMacro hinst hmac with
    | intro c hc =>
      cases h.all sec hsec _ hc with
      | intro e he =>
        have hms : e ∈ ms := (h.mem e).2 ⟨sec, hsec, _, he⟩
        obtain ⟨spec, values, offset, hvalues, _, heq⟩ := macroSymbol_eq he
        have hv := macroValues_ok hvalues
        have ht : e.type_ = 0 := by
          rw [heq]
          exact (function_spec hv.spec_mem).2 (hv.name.trans hname)
        have harg := (function_symbol h hms ht).1
        obtain ⟨sec₀, hsec₀, f₀, hf₀, hid₀⟩ := function_of_id hids (k := 0) (by omega)
        obtain ⟨sec₁, hsec₁, f₁, hf₁, hid₁⟩ := function_of_id hids (k := 1) (by omega)
        have hcount : 2 ≤ (functionTable bin).countP fun s => s.arg = 0 := by
          have htable : (functionTable bin).Perm
              (sections.flatMap functionSymbols ++ ms.filter fun s => s.type_ = 0) :=
            (List.perm_insertionSort _ _).trans hperm
          rw [htable.countP_eq, List.countP_append]
          have hfun : 0 < (sections.flatMap functionSymbols).countP fun s => s.arg = 0 :=
            List.countP_pos_iff.2 ⟨_, mem_functionSymbols.2 ⟨sec₀, hsec₀, f₀, hf₀, rfl⟩,
              by simpa using hid₀⟩
          have hmac : 0 < (ms.filter fun s => s.type_ = 0).countP fun s => s.arg = 0 :=
            List.countP_pos_iff.2 ⟨e, List.mem_filter.2 ⟨hms, by simpa using ht⟩, by simpa using harg⟩
          omega
        have hlen := List.countP_le_length (p := fun s : SymbolTableEntry => decide (s.arg = 0))
          (l := functionTable bin)
        have hsecond := hentries sec₁ hsec₁ f₁ hf₁ 1 hid₁
        cases sortedSymbols_eq bin with
        | intro rest hrest =>
          rw [hrest, List.getElem?_append_left (by omega)] at hsecond
          have hsorted := pairwise_sortBy SymbolTableEntry.arg
            (bin.symbolTable.filter fun s => s.type_ = 0)
          rw [← functionTable_eq] at hsorted
          cases hl : functionTable bin with
          | nil =>
            rw [hl] at hsecond
            exact nomatch hsecond
          | cons x t =>
            cases t with
            | nil =>
              rw [hl] at hsecond
              exact nomatch hsecond
            | cons y t =>
              rw [hl] at hsecond hsorted hcount
              have hy : y.arg = 1 := by
                have hy : y = _ := Option.some.inj hsecond
                rw [hy]
                rfl
              have htail : (y :: t).countP (fun s => s.arg = 0) = 0 := by
                rw [List.countP_eq_zero]
                intro z hz
                have hle : 1 ≤ z.arg := by
                  cases List.mem_cons.1 hz with
                  | inl heq => rw [heq, hy]
                  | inr hrest =>
                    have hyz := (List.pairwise_cons.1 (List.pairwise_cons.1 hsorted).2).1 z hrest
                    rwa [hy] at hyz
                simp only [decide_eq_true_eq]
                omega
              rw [List.countP_cons, htail] at hcount
              split at hcount
              · omega
              · omega

/-! ### The values of macros with a target -/

theorem target_spec {spec : MacroSpec} (h : spec ∈ macroSpecs) (ht : HasTarget spec) :
    spec.args = [.actorId, .functionId, .none, .none] ∧ 0 < spec.type_ := by
  have hall : ∀ spec ∈ macroSpecs, spec.args[0]? = some .actorId →
      spec.args[1]? = some .functionId →
        spec.args = [.actorId, .functionId, .none, .none] ∧ 0 < spec.type_ := by
    decide
  exact hall spec h ht.1 ht.2

theorem spec_of_name {spec spec' : MacroSpec} (h : spec ∈ macroSpecs) (h' : spec' ∈ macroSpecs)
    (hname : spec.name.toList = spec'.name.toList) : spec = spec' := by
  have hnodup : (macroSpecs.map fun spec => spec.name.toList).Nodup := by decide
  exact List.inj_on_of_nodup_map hnodup h h' hname

theorem sectionNameToId_ok {name : Text} {v : Int} (h : sectionNameToId sections name = .ok v) :
    ∃ sec, sections.find? (fun s => s.name = name) = some sec ∧ v = sec.id := by
  unfold sectionNameToId at h
  cases hf : sections.find? fun s => s.name = name with
  | none =>
    rw [hf] at h
    exact nomatch h
  | some sec =>
    rw [hf] at h
    exact ⟨sec, rfl, (Except.ok.inj h).symm⟩

theorem functionNameToId_ok {functions : List FunctionData} {name : Text} {v : Int}
    (h : functionNameToId functions name = .ok v) :
    ∃ f, functions.find? (fun f => f.name = name) = some f ∧ v = f.id := by
  unfold functionNameToId at h
  cases hf : functions.find? fun f => f.name = name with
  | none =>
    rw [hf] at h
    exact nomatch h
  | some f =>
    rw [hf] at h
    exact ⟨f, rfl, (Except.ok.inj h).symm⟩

/-- The first two values are the numbers of a section and of a function, the others are 0. -/
structure TargetValues (sections : List SectionData) (inst : Instruction) (values : List Int) :
    Prop where
  actor : ∀ v : Int, values[0]? = some v → ∃ name sec, (macroArgNames inst)[0]? = some name ∧
    sections.find? (fun s => s.name = name) = some sec ∧ v = sec.id
  function : ∀ v : Int, values[1]? = some v → ∃ name f, (macroArgNames inst)[1]? = some name ∧
    (functionsOf sections).find? (fun f => f.name = '.' :: name) = some f ∧ v = f.id
  rest : ∀ (i : Nat) (v : Int), 2 ≤ i → values[i]? = some v → v = 0

theorem ValuesOf.target {inst : Instruction} {spec : MacroSpec} {values : List Int}
    (h : ValuesOf sections (functionsOf sections) inst spec values) (ht : HasTarget spec) :
    TargetValues sections inst values := by
  have hargs := (target_spec h.spec_mem ht).1
  refine ⟨?_, ?_, ?_⟩
  · intro v hv
    obtain ⟨kind, name, hkind, hname, hval⟩ := h.value 0 v hv
    rw [hargs] at hkind
    have hk : kind = .actorId := (Option.some.inj hkind).symm
    rw [hk] at hval
    obtain ⟨sec, hsec⟩ := sectionNameToId_ok hval
    exact ⟨name, sec, hname, hsec⟩
  · intro v hv
    obtain ⟨kind, name, hkind, hname, hval⟩ := h.value 1 v hv
    rw [hargs] at hkind
    have hk : kind = .functionId := (Option.some.inj hkind).symm
    rw [hk] at hval
    obtain ⟨f, hf⟩ := functionNameToId_ok hval
    exact ⟨name, f, hname, hf⟩
  · intro i v hi hv
    obtain ⟨kind, name, hkind, _, hval⟩ := h.value i v hv
    rw [hargs] at hkind
    have hk : kind = .none := by
      match i, hi with
      | 2, _ => exact (Option.some.inj hkind).symm
      | 3, _ => exact (Option.some.inj hkind).symm
      | n + 4, _ => exact nomatch hkind
    rw [hk] at hval
    exact (Except.ok.inj hval).symm

theorem sectionIds_cast (hsids : sections.map SectionData.id = List.range sections.length) :
    sections.map (fun s => (s.id : Int)) = (List.range sections.length).map Int.ofNat := by
  rw [← hsids, List.map_map]
  rfl

theorem function_id_nonneg (hids : FunctionsNumbered sections) {f : FunctionData}
    (hf : f ∈ functionsOf sections) : ∃ k : Nat, f.id = k ∧ k < (functionsOf sections).length := by
  have hmem : f.id ∈ (functionsOf sections).map FunctionData.id := List.mem_map_of_mem hf
  rw [hids] at hmem
  obtain ⟨k, hk, heq⟩ := List.mem_map.1 hmem
  exact ⟨k, heq.symm, List.mem_range.1 hk⟩

theorem TargetValues.nonneg {inst : Instruction} {values : List Int} (hids : FunctionsNumbered sections)
    (h : TargetValues sections inst values) : ∀ v ∈ values, 0 ≤ v := by
  intro v hv
  obtain ⟨i, hi⟩ := List.mem_iff_getElem?.1 hv
  match i with
  | 0 =>
    obtain ⟨_, sec, _, _, heq⟩ := h.actor v hi
    omega
  | 1 =>
    obtain ⟨_, f, _, hf, heq⟩ := h.function v hi
    obtain ⟨k, hk, _⟩ := function_id_nonneg hids (List.mem_of_find?_eq_some hf)
    omega
  | n + 2 =>
    have := h.rest (n + 2) v (by omega) hi
    omega

/-- The names are among the first 2^16 exactly when the values fit into 16 bits. -/
theorem TargetValues.small_iff {inst : Instruction} {values : List Int}
    (hsids : sections.map SectionData.id = List.range sections.length)
    (hids : FunctionsNumbered sections) (h : TargetValues sections inst values)
    (hlen : values.length = (macroArgNames inst).length) :
    ((∀ name, (macroArgNames inst)[0]? = some name →
        name ∈ (sections.map SectionData.name).take (2 ^ 16)) ∧
      ∀ name, (macroArgNames inst)[1]? = some name →
        '.' :: name ∈ ((functionsOf sections).map FunctionData.name).take (2 ^ 16)) ↔
      values.getD 0 0 < 2 ^ 16 ∧ values.getD 1 0 < 2 ^ 16 := by
  have hvalue : ∀ i : Nat, (∃ name, (macroArgNames inst)[i]? = some name) →
      ∃ v, values[i]? = some v := by
    intro i hname
    obtain ⟨name, hname⟩ := hname
    have hlt := (List.getElem?_eq_some_iff.1 hname).1
    exact ⟨_, List.getElem?_eq_getElem (by omega)⟩
  apply and_congr
  · cases hv : values[0]? with
    | none =>
      rw [List.getD_eq_getElem?_getD, hv]
      constructor
      · intro _
        decide
      · intro _ name hname
        obtain ⟨v, hv'⟩ := hvalue 0 ⟨name, hname⟩
        rw [hv] at hv'
        exact nomatch hv'
    | some v =>
      obtain ⟨name, sec, hname, hfind, heq⟩ := h.actor v hv
      have htake := mem_take_iff hfind (sectionIds_cast hsids) (2 ^ 16)
      rw [List.getD_eq_getElem?_getD, hv, hname, Option.getD_some, heq]
      constructor
      · intro hall
        exact htake.1 (hall name rfl)
      · intro hlt name' hname'
        rw [← Option.some.inj hname']
        exact htake.2 hlt
  · cases hv : values[1]? with
    | none =>
      rw [List.getD_eq_getElem?_getD, hv]
      constructor
      · intro _
        decide
      · intro _ name hname
        obtain ⟨v, hv'⟩ := hvalue 1 ⟨name, hname⟩
        rw [hv] at hv'
        exact nomatch hv'
    | some v =>
      obtain ⟨name, f, hname, hfind, heq⟩ := h.function v hv
      have htake := mem_take_iff hfind hids (2 ^ 16)
      rw [List.getD_eq_getElem?_getD, hv, hname, Option.getD_some, heq]
      constructor
      · intro hall
        exact htake.1 (hall name rfl)
      · intro hlt name' hname'
        rw [← Option.some.inj hname']
        exact htake.2 hlt

theorem TargetValues.bounded {inst : Instruction} {values : List Int}
    (hids : FunctionsNumbered sections) (h : TargetValues sections inst values)
    (hsmall : values.getD 0 0 < 2 ^ 16 ∧ values.getD 1 0 < 2 ^ 16) :
    ∀ v ∈ values, 0 ≤ v ∧ v < 2 ^ 16 := by
  intro v hv
  refine ⟨h.nonneg hids v hv, ?_⟩
  obtain ⟨i, hi⟩ := List.mem_iff_getElem?.1 hv
  match i with
  | 0 =>
    have hlt := hsmall.1
    rwa [List.getD_eq_getElem?_getD, hi] at hlt
  | 1 =>
    have hlt := hsmall.2
    rwa [List.getD_eq_getElem?_getD, hi] at hlt
  | n + 2 =>
    have := h.rest (n + 2) v (by omega) hi
    omega

/-! ### The two targets -/

theorem getD_map_ofNat (l : List Nat) (i : Nat) : (l.map Int.ofNat).getD i 0 = (l.getD i 0 : Nat) := by
  rw [List.getD_eq_getElem?_getD, List.getD_eq_getElem?_getD, List.getElem?_map]
  cases l[i]? with
  | none => rfl
  | some n => rfl

theorem fourArgs_getD (values : List Int) {i : Nat} (hi : i < 4) :
    (fourArgs values).getD i 0 = values.getD i 0 := by
  unfold fourArgs
  rw [List.getD_eq_getElem?_getD, List.getElem?_map, List.getElem?_range hi]
  rfl

/-- The only symbol of a macro at its place. -/
theorem macroSymbol_unique (h : Recorded perMacro addrs sections (functionsOf sections) tc sections
      bin.symbolTable ms) (hsids : sections.map SectionData.id = List.range sections.length)
    (hincr : ∀ name as, addrs name = some as → as.Pairwise (· < ·)) (hp : 0 < perMacro)
    {sec : SectionData} (hsec : sec ∈ sections) {p : Nat × Instruction}
    (hmem : p ∈ macrosAt perMacro tc sec) {offset : Nat}
    (hoffset : ((addrs sec.name).getD [])[p.1]? = some offset) {e e' : SymbolTableEntry}
    (he : MacroSymbol perMacro addrs sections (functionsOf sections) tc sec p e)
    (he' : e' ∈ bin.symbolTable) (ht : e'.type_ ≠ 0) (hsid : e'.sid.toNat = sec.id)
    (hoff : e'.offset.toNat = offset) : e' = e := by
  cases List.mem_append.1 (h.perm.mem_iff.1 he') with
  | inl hfun =>
    obtain ⟨_, _, _, _, heq⟩ := mem_functionSymbols.1 hfun
    rw [heq] at ht
    exact absurd rfl ht
  | inr hmac =>
    obtain ⟨sec', hsec', p', hp'⟩ := (h.mem e').1 hmac
    obtain ⟨spec, values, offset', _, hoffset', heq⟩ := macroSymbol_eq hp'
    rw [heq] at hsid hoff
    have hsame : sec' = sec := section_of_id hsids hsec' hsec hsid
    rw [hsame] at hp' hoffset'
    have hoffsets : offset' = offset := hoff
    rw [hoffsets] at hoffset'
    have hnodup : ((addrs sec.name).getD []).Nodup := by
      cases ha : addrs sec.name with
      | none => exact List.nodup_nil
      | some as => exact (hincr sec.name as ha).imp ne_of_lt
    have hlt := (List.getElem?_eq_some_iff.1 hoffset').1
    have hpos : p'.1 = p.1 :=
      (List.getElem?_inj hlt hnodup).1 (hoffset'.trans hoffset.symm)
    have hpp := macrosAt_unique hp hp'.1 hmem hpos
    rw [hpp] at hp'
    exact hp'.2.unique he.2

/-- With the functions in their entries, a macro whose values fit into 16 bits is resolved alike. -/
theorem macro_agrees (h : Recorded perMacro addrs sections (functionsOf sections) tc sections
      bin.symbolTable ms) (hsids : sections.map SectionData.id = List.range sections.length)
    (hids : FunctionsNumbered sections)
    (hincr : ∀ name as, addrs name = some as → as.Pairwise (· < ·)) (hp : 0 < perMacro)
    {s : TcParser} (hs : Holds bin s)
    (htable : ∀ sec ∈ sections, ∀ f ∈ sec.functions, ∀ k : Nat, f.id = k →
      (functionTable bin)[k]? = some ⟨sec.id, f.offset, 0, k⟩)
    {sec : SectionData} (hsec : sec ∈ sections) {p : Nat × Instruction}
    (hmem : p ∈ macrosAt perMacro tc sec) {spec : MacroSpec} {values : List Int} {offset : Nat}
    (hoffset : ((addrs sec.name).getD [])[p.1]? = some offset)
    (hvalues : macroValues sections (functionsOf sections) p.2 = .ok (spec, values))
    (ht : HasTarget spec) (hsmall : values.getD 0 0 < 2 ^ 16 ∧ values.getD 1 0 < 2 ^ 16) :
    MacroAgrees bin s sec.id offset values := by
  have hv := macroValues_ok hvalues
  have htarget := hv.target ht
  have hbounded := htarget.bounded hids hsmall
  have hpos := (target_spec hv.spec_mem ht).2
  let e : SymbolTableEntry := ⟨sec.id, offset, spec.type_, packArgs values⟩
  have hsymbol : MacroSymbol perMacro addrs sections (functionsOf sections) tc sec p e := by
    refine ⟨hmem, offset, hoffset, ?_⟩
    unfold assignMacroMetadata
    rw [hvalues]
    rfl
  have he : e ∈ bin.symbolTable :=
    h.perm.mem_iff.2 (List.mem_append_right _ ((h.mem e).2 ⟨sec, hsec, p, hsymbol⟩))
  have hunique : ∀ e' ∈ bin.symbolTable, e'.type_ ≠ 0 → e'.sid.toNat = sec.id →
      e'.offset.toNat = offset → e' = e := fun e' he' ht' hsid hoff =>
    macroSymbol_unique h hsids hincr hp hsec hmem hoffset hsymbol he' ht' hsid hoff
  have hdecode : (List.range 4).map (argOf e.arg) = fourArgs values :=
    List.map_congr_left fun i _ => argOf_packArgs hbounded i
  have hargs : (macroArgs (entryOf e)).map Int.ofNat = fourArgs values := by
    rw [macroArgs_entryOf (packArgs_nonneg fun v hv => (hbounded v hv).1)]
    exact hdecode
  have hnat : e.type_.toNat ≠ 0 := by
    show spec.type_.toNat ≠ 0
    omega
  constructor
  · have hfind : (macroTable bin).find? (fun s => s.sid = (sec.id : Int) ∧ s.offset = (offset : Int)) =
        some e := by
      refine find?_unique ?_ (by simp [e]) ?_
      · refine List.mem_filter.2 ⟨he, ?_⟩
        show decide (spec.type_ ≠ 0) = true
        simpa using Int.ne_of_gt hpos
      · intro e' he' hcond
        have hplace : e'.sid = sec.id ∧ e'.offset = offset := by simpa using hcond
        have hmem' := List.mem_filter.1 he'
        refine hunique e' hmem'.1 (by simpa using hmem'.2) ?_ ?_
        · rw [hplace.1]
          rfl
        · rw [hplace.2]
          rfl
    unfold getMacroArgs
    rw [hfind, Option.map_some, hdecode]
  · have hentry : macroEntryAt s sec.id offset = some (entryOf e) := by
      unfold macroEntryAt
      rw [hs.symbols, List.find?_map, find?_unique (a := e) (mem_sortedSymbols.2 he)]
      · rfl
      · simpa [entryOf, e] using hpos
      · intro e' he' hcond
        have hplace : e'.type_.toNat ≠ 0 ∧ e'.sid.toNat = sec.id ∧ e'.offset.toNat = offset :=
          of_decide_eq_true hcond
        exact hunique e' (mem_sortedSymbols.1 he') (by omega) hplace.2.1 hplace.2.2
    refine ⟨entryOf e, hentry, hargs, ?_⟩
    have hactor : ∃ sid : Nat, values.getD 0 0 = sid := by
      cases h₀ : values[0]? with
      | none => exact ⟨0, by rw [List.getD_eq_getElem?_getD, h₀]; rfl⟩
      | some v =>
        obtain ⟨_, sec', _, _, heq⟩ := htarget.actor v h₀
        exact ⟨sec'.id, by rw [List.getD_eq_getElem?_getD, h₀]; exact heq⟩
    have hfunction : ∃ sec' ∈ sections, ∃ f ∈ sec'.functions, f.id = values.getD 1 0 := by
      cases h₁ : values[1]? with
      | none =>
        rw [List.getD_eq_getElem?_getD, h₁]
        refine function_of_id hids (k := 0) ?_
        cases exists_function (mem_macrosAt hmem).1 with
        | intro f hf => exact List.length_pos_of_mem (List.mem_flatMap.2 ⟨sec, hsec, hf⟩)
      | some v =>
        obtain ⟨_, f, _, hfind, heq⟩ := htarget.function v h₁
        rw [List.getD_eq_getElem?_getD, h₁]
        obtain ⟨sec', hsec', hf⟩ := List.mem_flatMap.1 (List.mem_of_find?_eq_some hfind)
        exact ⟨sec', hsec', f, hf, heq.symm⟩
    obtain ⟨sid, hsid⟩ := hactor
    obtain ⟨sec', hsec', f, hf, hid⟩ := hfunction
    obtain ⟨k, hk, _⟩ := function_id_nonneg hids (List.mem_flatMap.2 ⟨sec', hsec', hf⟩)
    have hget := htable sec' hsec' f hf k hk
    have hlt := (List.getElem?_eq_some_iff.1 hget).1
    have hk₁ : values.getD 1 0 = k := hid.symm.trans hk
    refine ⟨sid, f.offset, ?_, ?_⟩
    · unfold interpreterTarget findFunctionById
      rw [fourArgs_getD values (by decide), fourArgs_getD values (by decide), hsid, hk₁,
        if_neg (by omega), Int.toNat_natCast, hget]
      rfl
    · have harg₀ : (macroArgs (entryOf e)).getD 0 0 = sid := by
        have hcast := getD_map_ofNat (macroArgs (entryOf e)) 0
        rw [hargs, fourArgs_getD values (by decide), hsid] at hcast
        exact Int.ofNat.inj hcast.symm
      have harg₁ : (macroArgs (entryOf e)).getD 1 0 = k := by
        have hcast := getD_map_ofNat (macroArgs (entryOf e)) 1
        rw [hargs, fourArgs_getD values (by decide), hk₁] at hcast
        exact Int.ofNat.inj hcast.symm
      unfold kernelTarget
      obtain ⟨rest, hrest⟩ := sortedSymbols_eq bin
      rw [harg₀, harg₁, hs.symbols, List.getElem?_map, hrest, List.getElem?_append_left hlt, hget]
      rfl

/-- What the agreement on a macro says of its values. -/
theorem MacroAgrees.small {s : TcParser} {sid offset : Nat} {values : List Int}
    (h : MacroAgrees bin s sid offset values) :
    values.getD 0 0 < 2 ^ 16 ∧ values.getD 1 0 < 2 ^ 16 := by
  have hargs := h.interpreter
  unfold getMacroArgs at hargs
  cases hf : (macroTable bin).find? fun s => s.sid = (sid : Int) ∧ s.offset = (offset : Int) with
  | none =>
    rw [hf] at hargs
    exact nomatch hargs
  | some e =>
    rw [hf, Option.map_some] at hargs
    have hlist := Option.some.inj hargs
    have hget : ∀ i < 4, values.getD i 0 = argOf e.arg i := by
      intro i hi
      rw [← fourArgs_getD values hi, ← hlist, List.getD_eq_getElem?_getD, List.getElem?_map,
        List.getElem?_range hi]
      rfl
    rw [hget 0 (by decide), hget 1 (by decide)]
    exact ⟨(argOf_lt e.arg 0).2, (argOf_lt e.arg 1).2⟩

end Table

/-- The model and the kernel module resolve the macros of a parsed test case alike exactly when no
macro `function` displaces a second function and no target has a number over 16 bits. -/
theorem resolvedAlike_iff {isa : Text} {addrs : InstrAddrMap} {elf : ElfFile} {tc : TestCaseProgram}
    {bin : TestCaseBinary} {m : Dict Nat (Dict Nat Placed)} {data : ElfData} {s : TcParser}
    (h : populateElfData (instructionPerMacro isa) addrs elf tc = .ok (bin, m))
    (hdata : parseSymtab elf = .ok data)
    (hincr : ∀ name as, addrs name = some as → as.Pairwise (· < ·)) (hs : Holds bin s) :
    ResolvedAlike (instructionPerMacro isa) addrs tc data.sectionData.values bin s ↔
      (NoFunctionMacro tc data.sectionData.values ∨
        (functionsOf data.sectionData.values).length ≤ 1) ∧
      SmallTargets tc data.sectionData.values := by
  obtain ⟨data', b, b', exitAddr, hdata', _, hparsed⟩ := populateElfData_ok h
  rw [hdata] at hdata'
  rw [← Except.ok.inj hdata'] at hparsed
  obtain ⟨ms, hrec⟩ := hparsed.recorded
  have hsids := parseSymtab_sectionIds hdata
  have hids : FunctionsNumbered data.sectionData.values := parseSymtab_functionIds hdata
  have hp : 0 < instructionPerMacro isa := by
    unfold instructionPerMacro
    split
    · decide
    · decide
  have hsorted : bin.symbolTable.Pairwise fun a b =>
      toLex (a.sid, a.offset) ≤ toLex (b.sid, b.offset) := by
    rw [hparsed.table]
    exact pairwise_sortBy (fun a : SymbolTableEntry => toLex (a.sid, a.offset)) b'.symbolTable
  constructor
  · intro hall
    refine ⟨no_macro_of_entries hrec hids hall.entries, ?_⟩
    intro sec hsec inst hinst hmac htarget
    obtain ⟨spec, hspec, hname, ht⟩ := htarget
    obtain ⟨c, hc⟩ := exists_macrosAt (instructionPerMacro isa) hinst hmac
    obtain ⟨e, he⟩ := hrec.all sec hsec _ hc
    obtain ⟨spec', values, offset, hvalues, hoffset, _⟩ := macroSymbol_eq he
    have hv := macroValues_ok hvalues
    have hsame : spec' = spec := spec_of_name hv.spec_mem hspec (hv.name.trans hname.symm)
    rw [hsame] at hvalues hv
    have hagrees := hall.macros sec hsec _ hc spec values offset hoffset hvalues ht
    exact ((hv.target ht).small_iff hsids hids hv.length).2 hagrees.small
  · intro hall
    have htable : ∀ sec ∈ data.sectionData.values, ∀ f ∈ sec.functions, ∀ k : Nat, f.id = k →
        (functionTable bin)[k]? = some ⟨sec.id, f.offset, 0, k⟩ := by
      intro sec hsec f hf k hk
      cases hall.1 with
      | inl hno => exact functionTable_of_no_macro hrec hids hno hsec hf hk
      | inr hone =>
        exact functionTable_of_one hrec hsids hids hincr hparsed.first_offset hsorted hone hsec hf hk
    refine ⟨hids, ?_, ?_⟩
    · intro sec hsec f hf k hk
      have hget := htable sec hsec f hf k hk
      obtain ⟨rest, hrest⟩ := sortedSymbols_eq bin
      rw [hrest, List.getElem?_append_left (List.getElem?_eq_some_iff.1 hget).1]
      exact hget
    · intro sec hsec p hmem spec values offset hoffset hvalues ht
      have hv := macroValues_ok hvalues
      have hinst := mem_macrosAt hmem
      have hnames := hall.2 sec hsec p.2 hinst.1 hinst.2 ⟨spec, hv.spec_mem, hv.name, ht⟩
      have hsmall := ((hv.target ht).small_iff hsids hids hv.length).1 hnames
      exact macro_agrees hrec hsids hids hincr hp hs htable hsec hmem hoffset hvalues ht hsmall

/-! ### Two test cases -/

/-- A macro as the parser reads it. -/
def sampleMacro (name args : String) : Instruction := ⟨"macro".toList, [name.toList, args.toList], false⟩

/-- A test case with two functions of one instruction each. -/
def twoFunctions (first second : Instruction) : TestCaseProgram where
  actors := [⟨"main".toList, .host, .kernel, 0, 0⟩]
  sections := [⟨"main".toList, [
    ⟨".function_0".toList, [⟨"bb0".toList, [first], []⟩], ⟨"exit0".toList, [], []⟩⟩,
    ⟨".function_1".toList, [⟨"bb1".toList, [second], []⟩], ⟨"exit1".toList, [], []⟩⟩]⟩]
  names := rfl
  nodup := by decide
  main_first := rfl

/-- Its object file: a macro takes up eight bytes, and the last byte is the exit. -/
def twoFunctionsElf : ElfFile where
  sections := [⟨".data.main".toList, 0, 17⟩]
  symbols := [⟨".function_0".toList, 0, 0⟩, ⟨".function_1".toList, 8, 0⟩,
    ⟨".test_case_exit".toList, 16, 0⟩]
  bytes := List.replicate 17 0x90

def twoFunctionsAddrs : InstrAddrMap := fun name =>
  if name = "main".toList then some [0, 8, 16] else none

def parsedSample (first second : Instruction) : TestCaseBinary × Dict Nat (Dict Nat Placed) :=
  returned (⟨[], [], [], by decide⟩, [])
    (populateElfData (instructionPerMacro "x86-64".toList) twoFunctionsAddrs twoFunctionsElf
      (twoFunctions first second))

theorem parsedSample_eq {first second : Instruction}
    (h : accepts (populateElfData (instructionPerMacro "x86-64".toList) twoFunctionsAddrs
      twoFunctionsElf (twoFunctions first second)) = true) :
    populateElfData (instructionPerMacro "x86-64".toList) twoFunctionsAddrs twoFunctionsElf
      (twoFunctions first second) = .ok ((parsedSample first second).1, (parsedSample first second).2) :=
  returned_of_accepts _ h

def sampleData : ElfData := returned ⟨[], none⟩ (parseSymtab twoFunctionsElf)

theorem sampleData_eq : parseSymtab twoFunctionsElf = .ok sampleData :=
  returned_of_accepts _ (by decide +kernel)

theorem twoFunctionsAddrs_increasing :
    ∀ name as, twoFunctionsAddrs name = some as → as.Pairwise (· < ·) := by
  intro name as h
  unfold twoFunctionsAddrs at h
  split at h
  · rw [← Option.some.inj h]
    decide
  · exact nomatch h

/-- A switch to the second function of the main actor. -/
def switchSample : Instruction := sampleMacro ".switch" ".main.function_1"

theorem resolvedAlike_switchSample :
    ResolvedAlike (instructionPerMacro "x86-64".toList) twoFunctionsAddrs
        (twoFunctions switchSample (sampleMacro ".measurement_end" ".noarg"))
        sampleData.sectionData.values
        (parsedSample switchSample (sampleMacro ".measurement_end" ".noarg")).1
        (holder (parsedSample switchSample (sampleMacro ".measurement_end" ".noarg")).1) ↔
      (NoFunctionMacro (twoFunctions switchSample (sampleMacro ".measurement_end" ".noarg"))
          sampleData.sectionData.values ∨
        (functionsOf sampleData.sectionData.values).length ≤ 1) ∧
      SmallTargets (twoFunctions switchSample (sampleMacro ".measurement_end" ".noarg"))
        sampleData.sectionData.values :=
  resolvedAlike_iff (parsedSample_eq (by decide +kernel)) sampleData_eq twoFunctionsAddrs_increasing
    (holds_holder (by decide +kernel) (by decide +kernel))

/-- A macro `function` in the first function. -/
def functionSample : Instruction := sampleMacro ".function" ".noarg"

/-- Its symbol takes the entry of the second function. -/
theorem functionSample_not_resolvedAlike :
    ¬ ∀ (isa : Text) (addrs : InstrAddrMap) (elf : ElfFile) (tc : TestCaseProgram)
        (bin : TestCaseBinary) (m : Dict Nat (Dict Nat Placed)) (data : ElfData) (s : TcParser),
      populateElfData (instructionPerMacro isa) addrs elf tc = .ok (bin, m) →
      parseSymtab elf = .ok data → (∀ name as, addrs name = some as → as.Pairwise (· < ·)) →
      Holds bin s →
        ResolvedAlike (instructionPerMacro isa) addrs tc data.sectionData.values bin s := by
  intro h
  have hall := h "x86-64".toList twoFunctionsAddrs twoFunctionsElf
    (twoFunctions functionSample switchSample) (parsedSample functionSample switchSample).1
    (parsedSample functionSample switchSample).2 sampleData
    (holder (parsedSample functionSample switchSample).1)
    (parsedSample_eq (by decide +kernel)) sampleData_eq twoFunctionsAddrs_increasing
    (holds_holder (by decide +kernel) (by decide +kernel))
  have hsec : (⟨0, "main".toList, 0, 17, [⟨0, ".function_0".toList, 0⟩,
      ⟨1, ".function_1".toList, 8⟩]⟩ : SectionData) ∈ sampleData.sectionData.values := by
    decide +kernel
  have hentry := hall.entries _ hsec ⟨1, ".function_1".toList, 8⟩ (by decide) 1 rfl
  exact absurd hentry (by decide +kernel)

end Rvzr.Km
