import Rvzr.TestCase.ElfParser
import Rvzr.Lib.Folds

/-!
# Numbers and symbols of a parsed test case

What `populate_elf_data` leaves: the sections and the functions are numbered in the order of the
ELF file, every function has a symbol, and so has every macro, at the address of its position.
-/

namespace Rvzr.TestCase

open Rvzr.Lib

/-! ### Numbers -/

/-- All functions of a list of sections. -/
def functionsOf (sections : List SectionData) : List FunctionData :=
  sections.flatMap SectionData.functions

theorem numberFunctions_ids (next : Nat) (functions : List FunctionData) :
    (numberFunctions next functions).map FunctionData.id =
      (List.range' next functions.length).map Int.ofNat := by
  unfold numberFunctions
  simp only [List.map_map]
  have hlen : (functions.insertionSort fun f g => f.offset ≤ g.offset).length = functions.length :=
    List.length_insertionSort _ _
  rw [← hlen]
  generalize (functions.insertionSort fun f g => f.offset ≤ g.offset) = sorted
  rw [← List.zipIdx_map_snd next sorted, List.map_map]
  rfl

@[simp] theorem length_numberFunctions (next : Nat) (functions : List FunctionData) :
    (numberFunctions next functions).length = functions.length := by
  simp [numberFunctions]

theorem numberSections_functionIds (next : Nat) (ss : List SectionData) :
    (functionsOf (numberSections next ss)).map FunctionData.id =
      (List.range' next (functionsOf ss).length).map Int.ofNat := by
  induction ss generalizing next with
  | nil => rfl
  | cons s ss ih =>
    have hrange : List.range' next (functionsOf (s :: ss)).length =
        List.range' next s.functions.length ++
          List.range' (next + s.functions.length) (functionsOf ss).length := by
      rw [List.range'_append_1]
      simp [functionsOf]
    have hih := ih (next + s.functions.length)
    rw [hrange, List.map_append, ← numberFunctions_ids, ← hih]
    simp [functionsOf, numberSections]

theorem numberSections_ids (next : Nat) (ss : List SectionData) :
    (numberSections next ss).map SectionData.id = ss.map SectionData.id := by
  induction ss generalizing next with
  | nil => rfl
  | cons s ss ih => simp [numberSections, ih]

/-- The sections of a parsed symbol table are numbered in their order. -/
theorem parseSymtab_sectionIds {elf : ElfFile} {data : ElfData} (h : parseSymtab elf = .ok data) :
    data.sectionData.values.map SectionData.id = List.range data.sectionData.values.length := by
  cases except_bind_ok h with
  | intro d hd =>
    have hdata : sortElfData d = data := Except.ok.inj hd.2
    rw [← hdata]
    unfold sortElfData Dict.values
    simp only [List.map_map, Function.comp_def]
    rw [List.map_id', numberSections_ids]
    generalize (d.sectionData.insertionSort fun a b => a.1 ≤ b.1) = sorted
    have hlen : (numberSections 0 (sorted.zipIdx.map fun e => { e.1.2 with id := e.2 })).length =
        sorted.length := by
      rw [← List.length_map (f := SectionData.id), numberSections_ids]
      simp
    rw [hlen, List.map_map, List.range_eq_range', ← List.zipIdx_map_snd 0 sorted]
    rfl

/-- The functions of a parsed symbol table are numbered from 0 on. -/
theorem parseSymtab_functionIds {elf : ElfFile} {data : ElfData} (h : parseSymtab elf = .ok data) :
    (functionsOf data.sectionData.values).map FunctionData.id =
      (List.range (functionsOf data.sectionData.values).length).map Int.ofNat := by
  cases except_bind_ok h with
  | intro d hd =>
    have hdata : sortElfData d = data := Except.ok.inj hd.2
    rw [← hdata]
    unfold sortElfData Dict.values
    simp only [List.map_map, Function.comp_def]
    rw [List.map_id', numberSections_functionIds, List.range_eq_range']
    congr 2
    generalize (List.map _ _ : List SectionData) = renamed
    have hlen := congrArg List.length (numberSections_functionIds 0 renamed)
    simpa using hlen.symm

/-! ### Positions -/

/-- The number of addresses that an instruction takes up. -/
def width (perMacro : Nat) (inst : Instruction) : Nat := if inst.isMacro then perMacro else 1

/-- Where the next instruction stands. -/
def endOf (perMacro : Nat) (insts : List Instruction) : Nat := (insts.map (width perMacro)).sum

/-- The instructions with the positions of their addresses, from `c` on. -/
def positions (perMacro : Nat) : Nat → List Instruction → List (Nat × Instruction)
  | _, [] => []
  | c, inst :: insts => (c, inst) :: positions perMacro (c + width perMacro inst) insts

/-- The instructions of a section in the order of its functions. -/
def codeOf (tc : TestCaseProgram) (s : SectionData) : List Instruction :=
  s.functions.flatMap fun f => ((tc.findFunction f.name).map fun e => e.2.all).getD []

/-- The macros of a section with the positions of their addresses. -/
def macrosAt (perMacro : Nat) (tc : TestCaseProgram) (s : SectionData) : List (Nat × Instruction) :=
  (positions perMacro 0 (codeOf tc s)).filter fun p => p.2.isMacro

@[simp] theorem endOf_append (perMacro : Nat) (l₁ l₂ : List Instruction) :
    endOf perMacro (l₁ ++ l₂) = endOf perMacro l₁ + endOf perMacro l₂ := by
  simp [endOf]

theorem positions_append (perMacro c : Nat) (l₁ l₂ : List Instruction) :
    positions perMacro c (l₁ ++ l₂) =
      positions perMacro c l₁ ++ positions perMacro (c + endOf perMacro l₁) l₂ := by
  induction l₁ generalizing c with
  | nil => simp [positions, endOf]
  | cons inst l₁ ih =>
    rw [List.cons_append, positions, ih, positions, List.cons_append]
    simp [endOf, Nat.add_assoc]

@[simp] theorem map_snd_positions (perMacro c : Nat) (l : List Instruction) :
    (positions perMacro c l).map Prod.snd = l := by
  induction l generalizing c with
  | nil => rfl
  | cons inst l ih => rw [positions, List.map_cons, ih]

/-- An instruction is the only one at its position. -/
theorem positions_pairwise {perMacro : Nat} (hp : 0 < perMacro) (c : Nat) (l : List Instruction) :
    (∀ p ∈ positions perMacro c l, c ≤ p.1) ∧
      (positions perMacro c l).Pairwise fun p q => p.1 < q.1 := by
  induction l generalizing c with
  | nil => exact ⟨fun p h => (nomatch h), List.Pairwise.nil⟩
  | cons inst l ih =>
    have hih := ih (c + width perMacro inst)
    have hwidth : 0 < width perMacro inst := by
      unfold width
      split
      · exact hp
      · exact Nat.one_pos
    constructor
    · intro p h
      cases List.mem_cons.1 h with
      | inl h => rw [h]
      | inr h =>
        have := hih.1 p h
        omega
    · refine List.pairwise_cons.2 ⟨?_, hih.2⟩
      intro p h
      have := hih.1 p h
      show c < p.1
      omega

theorem mem_macrosAt {perMacro : Nat} {tc : TestCaseProgram} {s : SectionData}
    {p : Nat × Instruction} (h : p ∈ macrosAt perMacro tc s) :
    p.2 ∈ codeOf tc s ∧ p.2.isMacro = true := by
  have hp := List.mem_filter.1 h
  refine ⟨?_, hp.2⟩
  rw [← map_snd_positions perMacro 0 (codeOf tc s)]
  exact List.mem_map_of_mem hp.1

theorem exists_macrosAt (perMacro : Nat) {tc : TestCaseProgram} {s : SectionData}
    {inst : Instruction} (h : inst ∈ codeOf tc s) (hmac : inst.isMacro = true) :
    ∃ c, (c, inst) ∈ macrosAt perMacro tc s := by
  rw [← map_snd_positions perMacro 0 (codeOf tc s)] at h
  cases List.mem_map.1 h with
  | intro p hp =>
    refine ⟨p.1, List.mem_filter.2 ⟨?_, hmac⟩⟩
    rw [← hp.2]
    exact hp.1

theorem macrosAt_unique {perMacro : Nat} (hp : 0 < perMacro) {tc : TestCaseProgram} {s : SectionData}
    {p q : Nat × Instruction} (h : p ∈ macrosAt perMacro tc s) (h' : q ∈ macrosAt perMacro tc s)
    (heq : p.1 = q.1) : p = q := by
  have hnodup : ((positions perMacro 0 (codeOf tc s)).map Prod.fst).Nodup :=
    List.pairwise_map.2 ((positions_pairwise hp 0 (codeOf tc s)).2.imp Nat.ne_of_lt)
  exact List.inj_on_of_nodup_map hnodup (List.mem_filter.1 h).1 (List.mem_filter.1 h').1 heq

/-! ### The walk over the instructions -/

section Walk

variable {perMacro : Nat} {addrs : InstrAddrMap} {sections : List SectionData}
  {functions : List FunctionData} {tc : TestCaseProgram}

theorem item_ok {α : Type} {xs : List α} {i : Nat} {x : α} (h : item xs i = .ok x) :
    xs[i]? = some x := by
  unfold item at h
  cases hx : xs[i]? with
  | none =>
    rw [hx] at h
    exact nomatch h
  | some y =>
    rw [hx] at h
    rw [Except.ok.inj h]

theorem addrsOf_ok {name : Text} {as : List Nat} (h : addrsOf addrs name = .ok as) :
    addrs name = some as := by
  unfold addrsOf at h
  cases ha : addrs name with
  | none =>
    rw [ha] at h
    exact nomatch h
  | some bs =>
    rw [ha] at h
    rw [Except.ok.inj h]

/-- The symbol of a macro, at the address of its position. -/
def IsSymbolOf (sections : List SectionData) (functions : List FunctionData) (sid : Nat)
    (as : List Nat) (p : Nat × Instruction) (e : SymbolTableEntry) : Prop :=
  ∃ offset, as[p.1]? = some offset ∧ assignMacroMetadata sections functions sid offset p.2 = .ok e

/-- What one instruction does. -/
structure Stepped (perMacro : Nat) (sections : List SectionData) (functions : List FunctionData)
    (sid : Nat) (as : List Nat) (inst : Instruction) (st st' : Nat × BinMetadata) : Prop where
  cursor : st'.1 = st.1 + width perMacro inst
  map : assignInstruction perMacro as sid st.1 (.instruction inst) inst.isMacro
    st.2.instructionMap = .ok st'.2.instructionMap
  assigned : st'.2.assigned = st.2.assigned
  plain : inst.isMacro = false → st'.2.symbolTable = st.2.symbolTable
  macroSymbol : inst.isMacro = true → ∃ e,
    IsSymbolOf sections functions sid as (st.1, inst) e ∧
      st'.2.symbolTable = st.2.symbolTable ++ [e]

theorem assignStep_ok {sid : Nat} {as : List Nat} {inst : Instruction} {st st' : Nat × BinMetadata}
    (h : assignStep perMacro sections functions sid as st inst = .ok st') :
    Stepped perMacro sections functions sid as inst st st' := by
  unfold assignStep at h
  cases except_bind_ok h with
  | intro m hm =>
    have hnext := hm.2
    by_cases hmac : inst.isMacro = true
    · rw [if_pos hmac] at hnext
      cases except_bind_ok hnext with
      | intro offset hoffset =>
        cases except_bind_ok hoffset.2 with
        | intro e he =>
          have hst := Except.ok.inj he.2
          rw [← hst]
          refine ⟨by simp [width, hmac], hm.1, rfl, ?_, ?_⟩
          · intro hfalse
            rw [hmac] at hfalse
            exact nomatch hfalse
          · intro _
            exact ⟨e, ⟨offset, item_ok hoffset.1, he.1⟩, rfl⟩
    · rw [if_neg hmac] at hnext
      have hst := Except.ok.inj hnext
      rw [← hst]
      refine ⟨by simp [width, hmac], hm.1, rfl, fun _ => rfl, ?_⟩
      intro htrue
      exact absurd htrue hmac

/-- The function of the test case that an entry of the ELF data stands for. -/
structure Found (tc : TestCaseProgram) (addrs : InstrAddrMap) (s : SectionData) (f : FunctionData)
    (c : Nat) (func : Function) (as : List Nat) : Prop where
  func : ∃ owner, tc.findFunction f.name = some (owner, func) ∧ owner.name = s.name
  addrs : addrs s.name = some as
  offset : as[c]? = some f.offset

theorem assignFunction_ok {s : SectionData} {f : FunctionData} {st st' : Nat × BinMetadata}
    (h : assignFunction perMacro addrs sections functions tc s st f = .ok st') :
    ∃ func as, Found tc addrs s f st.1 func as ∧
      func.all.foldlM (assignStep perMacro sections functions s.id as) st = .ok st' := by
  unfold assignFunction at h
  cases hf : tc.findFunction f.name with
  | none =>
    rw [hf] at h
    exact nomatch h
  | some e =>
    rw [hf] at h
    have howner := except_check_ok h
    cases except_bind_ok howner.2 with
    | intro as has =>
      cases except_bind_ok has.2 with
      | intro offset hoffset =>
        have hchecked := except_check_ok hoffset.2
        refine ⟨e.2, as, ⟨⟨e.1, hf, not_not.1 howner.1⟩, addrsOf_ok has.1, ?_⟩, hchecked.2⟩
        rw [not_not.1 hchecked.1]
        exact item_ok hoffset.1

/-- The section before its first instruction. -/
def opened (b : BinMetadata) (s : SectionData) : BinMetadata :=
  { assigned := b.assigned ++ [s.name]
    symbolTable := b.symbolTable ++ s.functions.map fun f =>
      { sid := s.id, offset := f.offset, type_ := 0, arg := f.id }
    instructionMap := Dict.insert b.instructionMap s.id [] }

/-- The instructions of a section are taken one after the other, at the addresses of the section. -/
theorem assignFunctions_ok {s : SectionData} {fs : List FunctionData} {st st' : Nat × BinMetadata}
    (h : fs.foldlM (assignFunction perMacro addrs sections functions tc s) st = .ok st') :
    (fs.flatMap fun f => ((tc.findFunction f.name).map fun e => e.2.all).getD []).foldlM
      (assignStep perMacro sections functions s.id ((addrs s.name).getD [])) st = .ok st' := by
  refine foldlM_prefix (I := fun pre st' => (pre.flatMap fun f =>
    ((tc.findFunction f.name).map fun e => e.2.all).getD []).foldlM
      (assignStep perMacro sections functions s.id ((addrs s.name).getD [])) st = .ok st') rfl ?_ h
  intro pre f c c' _ hpre hc
  cases assignFunction_ok hc with
  | intro func hfunc =>
    cases hfunc with
    | intro as has =>
      cases has.1.func with
      | intro owner howner =>
        have hlast := has.2
        rw [List.flatMap_append, List.foldlM_append, hpre]
        show List.foldlM _ c ([f].flatMap _) = _
        rw [List.flatMap_singleton, howner.1, has.1.addrs]
        exact hlast

theorem assignSection_ok {s : SectionData} {b b' : BinMetadata}
    (h : assignSection perMacro addrs sections functions tc b s = .ok b') :
    (∃ owner, tc.findSection s.name = some owner) ∧ s.name ∉ b.assigned ∧
      ∃ c, s.functions.foldlM (assignFunction perMacro addrs sections functions tc s)
        (0, opened b s) = .ok (c, b') := by
  unfold assignSection at h
  cases hs : tc.findSection s.name with
  | none =>
    rw [hs] at h
    exact nomatch h
  | some owner =>
    rw [hs] at h
    have hchecked := except_check_ok h
    cases except_bind_ok hchecked.2 with
    | intro st hst =>
      refine ⟨⟨owner, rfl⟩, hchecked.1, st.1, ?_⟩
      rw [← Except.ok.inj hst.2]
      exact hst.1

/-- What a list of instructions does. -/
structure Walked (perMacro : Nat) (sections : List SectionData) (functions : List FunctionData)
    (sid : Nat) (as : List Nat) (insts : List Instruction) (st st' : Nat × BinMetadata) : Prop where
  cursor : st'.1 = st.1 + endOf perMacro insts
  assigned : st'.2.assigned = st.2.assigned
  symbols : ∃ ms, st'.2.symbolTable = st.2.symbolTable ++ ms ∧
    List.Forall₂ (IsSymbolOf sections functions sid as)
      ((positions perMacro st.1 insts).filter fun p => p.2.isMacro) ms

theorem Walked.step {sid : Nat} {as : List Nat} {insts : List Instruction} {inst : Instruction}
    {st c c' : Nat × BinMetadata} (h : Walked perMacro sections functions sid as insts st c)
    (hc : Stepped perMacro sections functions sid as inst c c') :
    Walked perMacro sections functions sid as (insts ++ [inst]) st c' := by
  have hpositions : (positions perMacro st.1 (insts ++ [inst])).filter (fun p => p.2.isMacro) =
      (positions perMacro st.1 insts).filter (fun p => p.2.isMacro) ++
        if inst.isMacro then [(c.1, inst)] else [] := by
    rw [positions_append, List.filter_append, ← h.cursor]
    simp [positions, List.filter_cons]
  refine ⟨?_, hc.assigned.trans h.assigned, ?_⟩
  · rw [hc.cursor, h.cursor, endOf_append]
    simp [endOf, Nat.add_assoc]
  · rw [hpositions]
    cases h.symbols with
    | intro ms hms =>
      by_cases hmac : inst.isMacro = true
      · cases hc.macroSymbol hmac with
        | intro e he =>
          refine ⟨ms ++ [e], ?_, ?_⟩
          · rw [he.2, hms.1, List.append_assoc]
          · rw [if_pos hmac]
            exact List.rel_append hms.2 (.cons he.1 .nil)
      · have hplain : inst.isMacro = false := by simpa using hmac
        refine ⟨ms, (hc.plain hplain).trans hms.1, ?_⟩
        rw [if_neg hmac, List.append_nil]
        exact hms.2

theorem walked_of_foldlM {sid : Nat} {as : List Nat} {insts : List Instruction}
    {st st' : Nat × BinMetadata}
    (h : insts.foldlM (assignStep perMacro sections functions sid as) st = .ok st') :
    Walked perMacro sections functions sid as insts st st' := by
  refine foldlM_prefix (I := fun pre st' => Walked perMacro sections functions sid as pre st st')
    ⟨rfl, rfl, [], by simp, .nil⟩ ?_ h
  intro pre inst c c' _ hpre hc
  exact hpre.step (assignStep_ok hc)

/-! ### The symbol table -/

/-- The symbols of the functions of a section. -/
def functionSymbols (s : SectionData) : List SymbolTableEntry :=
  s.functions.map fun f => { sid := s.id, offset := f.offset, type_ := 0, arg := f.id }

/-- A macro of a section and its symbol. -/
def MacroSymbol (perMacro : Nat) (addrs : InstrAddrMap) (sections : List SectionData)
    (functions : List FunctionData) (tc : TestCaseProgram) (s : SectionData)
    (p : Nat × Instruction) (e : SymbolTableEntry) : Prop :=
  p ∈ macrosAt perMacro tc s ∧
    IsSymbolOf sections functions s.id ((addrs s.name).getD []) p e

/-- The symbols of some sections: those of their functions and one for each macro. -/
structure Recorded (perMacro : Nat) (addrs : InstrAddrMap) (sections : List SectionData)
    (functions : List FunctionData) (tc : TestCaseProgram) (pre : List SectionData)
    (table ms : List SymbolTableEntry) : Prop where
  perm : table.Perm (pre.flatMap functionSymbols ++ ms)
  mem : ∀ e, e ∈ ms ↔ ∃ s ∈ pre, ∃ p, MacroSymbol perMacro addrs sections functions tc s p e
  all : ∀ s ∈ pre, ∀ p ∈ macrosAt perMacro tc s, ∃ e,
    MacroSymbol perMacro addrs sections functions tc s p e

theorem IsSymbolOf.unique {sid : Nat} {as : List Nat} {p : Nat × Instruction}
    {e e' : SymbolTableEntry} (h : IsSymbolOf sections functions sid as p e)
    (h' : IsSymbolOf sections functions sid as p e') : e = e' := by
  cases h with
  | intro offset h =>
    cases h' with
    | intro offset' h' =>
      have hoffset : offset = offset' := Option.some.inj (h.1.symm.trans h'.1)
      have hsymbol := h.2
      rw [hoffset, h'.2] at hsymbol
      exact (Except.ok.inj hsymbol).symm

theorem Recorded.snoc {pre : List SectionData} {s : SectionData}
    {table ms table' ms' : List SymbolTableEntry}
    (h : Recorded perMacro addrs sections functions tc pre table ms)
    (htable : table' = table ++ functionSymbols s ++ ms')
    (hms : List.Forall₂ (IsSymbolOf sections functions s.id ((addrs s.name).getD []))
      (macrosAt perMacro tc s) ms') :
    Recorded perMacro addrs sections functions tc (pre ++ [s]) table' (ms ++ ms') := by
  have hall : ∀ p ∈ macrosAt perMacro tc s, ∃ e ∈ ms',
      MacroSymbol perMacro addrs sections functions tc s p e := by
    intro p hp
    cases List.forall₂_iff_get.1 hms with
    | intro hlen hget =>
      cases List.mem_iff_get.1 hp with
      | intro i hi =>
        have hlt : i.1 < ms'.length := by omega
        have hrel := hget i.1 i.2 hlt
        refine ⟨_, List.get_mem ms' ⟨i.1, hlt⟩, hp, ?_⟩
        rwa [← hi]
  have hmem : ∀ e ∈ ms', ∃ p, MacroSymbol perMacro addrs sections functions tc s p e := by
    intro e he
    cases List.forall₂_iff_get.1 hms with
    | intro hlen hget =>
      cases List.mem_iff_get.1 he with
      | intro i hi =>
        have hlt : i.1 < (macrosAt perMacro tc s).length := by omega
        have hrel := hget i.1 hlt i.2
        refine ⟨_, List.get_mem (macrosAt perMacro tc s) ⟨i.1, hlt⟩, ?_⟩
        rwa [← hi]
  refine ⟨?_, ?_, ?_⟩
  · rw [htable, List.flatMap_append, List.flatMap_singleton]
    have hperm := (h.perm.append_right (functionSymbols s)).append_right ms'
    refine hperm.trans ?_
    rw [List.append_assoc, List.append_assoc, List.append_assoc]
    refine List.Perm.append_left _ ?_
    rw [← List.append_assoc, ← List.append_assoc]
    exact (List.perm_append_comm).append_right ms'
  · intro e
    rw [List.mem_append]
    constructor
    · intro he
      cases he with
      | inl he =>
        cases (h.mem e).1 he with
        | intro s' hs' => exact ⟨s', List.mem_append_left _ hs'.1, hs'.2⟩
      | inr he => exact ⟨s, by simp, hmem e he⟩
    · intro he
      cases he with
      | intro s' hs' =>
        cases List.mem_append.1 hs'.1 with
        | inl hpre => exact .inl ((h.mem e).2 ⟨s', hpre, hs'.2⟩)
        | inr hlast =>
          cases hs'.2 with
          | intro p hp =>
            rw [List.mem_singleton.1 hlast] at hp
            cases hall p hp.1 with
            | intro e' he' =>
              right
              rw [hp.2.unique he'.2.2]
              exact he'.1
  · intro s' hs' p hp
    cases List.mem_append.1 hs' with
    | inl hpre => exact h.all s' hpre p hp
    | inr hlast =>
      rw [List.mem_singleton.1 hlast] at hp ⊢
      cases hall p hp with
      | intro e he => exact ⟨e, he.2⟩

/-- What the sections leave. -/
theorem recorded_of_foldlM {ss : List SectionData} {b : BinMetadata}
    (h : ss.foldlM (assignSection perMacro addrs sections functions tc) {} = .ok b) :
    ∃ ms, Recorded perMacro addrs sections functions tc ss b.symbolTable ms := by
  refine foldlM_prefix (I := fun pre b => ∃ ms,
    Recorded perMacro addrs sections functions tc pre b.symbolTable ms) ?_ ?_ h
  · exact ⟨[], by simp, by simp, by simp⟩
  · intro pre s b b' _ hpre hb
    cases hpre with
    | intro ms hms =>
      cases (assignSection_ok hb).2.2 with
      | intro c hc =>
        have hwalk := walked_of_foldlM (assignFunctions_ok hc)
        cases hwalk.symbols with
        | intro ms' hms' => exact ⟨ms ++ ms', hms.snoc hms'.1 hms'.2⟩

end Walk

/-! ### Parsed test cases -/

/-- How a parsed test case has come about. -/
structure Parsed (perMacro : Nat) (addrs : InstrAddrMap) (tc : TestCaseProgram) (data : ElfData)
    (bin : TestCaseBinary) (b b' : BinMetadata) (exitAddr : Nat) : Prop where
  sections : data.sectionData.values.foldlM (assignSection perMacro addrs data.sectionData.values
    (functionsOf data.sectionData.values) tc) {} = .ok b
  exit_found : data.exitAddr = some exitAddr
  exit : assignExit addrs data.sectionData.values exitAddr b = .ok b'
  table : bin.symbolTable = sortSymbols b'.symbolTable
  count : b'.instructionMap.length = tc.sections.length
  actors : tc.actors.mapM (actorOf data.sectionData.values) = .ok bin.actorValues

theorem populateElfData_ok {perMacro : Nat} {addrs : InstrAddrMap} {elf : ElfFile}
    {tc : TestCaseProgram} {bin : TestCaseBinary} {m : Dict Nat (Dict Nat Placed)}
    (h : populateElfData perMacro addrs elf tc = .ok (bin, m)) :
    ∃ data b b' exitAddr, parseSymtab elf = .ok data ∧ m = b'.instructionMap ∧
      Parsed perMacro addrs tc data bin b b' exitAddr := by
  unfold populateElfData at h
  cases except_bind_ok h with
  | intro data hdata =>
    cases except_bind_ok hdata.2 with
    | intro b'' hb'' =>
      have hchecked := except_check_ok hb''.2
      cases except_bind_ok hchecked.2 with
      | intro actors hactors =>
        cases except_bind_ok hactors.2 with
        | intro _ hvalid =>
          have hlast := hvalid.2
          split at hlast
          · have hres := Except.ok.inj hlast
            have hassign := hb''.1
            unfold assignBinMetadata at hassign
            cases except_bind_ok hassign with
            | intro b hb =>
              cases hexit : data.exitAddr with
              | none =>
                rw [hexit] at hb
                exact nomatch hb.2
              | some exitAddr =>
                rw [hexit] at hb
                cases except_bind_ok hb.2 with
                | intro b' hb' =>
                  have hb'' := Except.ok.inj hb'.2
                  have hbin : bin.symbolTable = sortSymbols b'.symbolTable := by
                    rw [← (Prod.mk.inj hres).1, ← hb'']
                  have hmap : m = b'.instructionMap := by
                    rw [← (Prod.mk.inj hres).2, ← hb'']
                  refine ⟨data, b, b', exitAddr, hdata.1, hmap, hb.1, hexit, hb'.1, hbin, ?_, ?_⟩
                  · rw [← hmap, ← (Prod.mk.inj hres).2]
                    exact not_not.1 hchecked.1
                  · rw [← (Prod.mk.inj hres).1]
                    exact hactors.1
          · exact nomatch hlast

/-- How the exit of a test case is placed. -/
structure ExitPlaced (addrs : InstrAddrMap) (sections : List SectionData) (exitAddr : Nat)
    (b b' : BinMetadata) (mainAddrs : List Nat) (first : SectionData) (as : List Nat)
    (e : Nat × Dict Nat Placed) : Prop where
  main_addrs : addrs "main".toList = some mainAddrs
  head : sections[0]? = some first
  first_addrs : if first.name = "main".toList then as = mainAddrs ++ [exitAddr]
    else addrs first.name = some as
  entry : b.instructionMap.find? (fun e => e.1 = 0) = some e
  map : assignInstruction 1 as first.id e.2.length .exitNop false b.instructionMap =
    .ok b'.instructionMap
  table : b'.symbolTable = b.symbolTable

theorem assignExit_ok {addrs : InstrAddrMap} {sections : List SectionData} {exitAddr : Nat}
    {b b' : BinMetadata} (h : assignExit addrs sections exitAddr b = .ok b') :
    ∃ mainAddrs first as e, ExitPlaced addrs sections exitAddr b b' mainAddrs first as e := by
  unfold assignExit at h
  cases except_bind_ok h with
  | intro mainAddrs hmain =>
    cases except_bind_ok hmain.2 with
    | intro first hfirst =>
      have hlist := hfirst.2
      dsimp only at hlist
      cases hfind : b.instructionMap.find? fun e => e.1 = 0 with
      | none =>
        rw [hfind] at hlist
        by_cases hname : first.name = "main".toList
        · rw [if_pos hname] at hlist
          cases hlist
        · rw [if_neg hname] at hlist
          cases except_bind_ok hlist with
          | intro as has => cases has.2
      | some e =>
        rw [hfind] at hlist
        have hstep : ∃ as, (if first.name = "main".toList then as = mainAddrs ++ [exitAddr]
            else addrs first.name = some as) ∧ ∃ m,
              assignInstruction 1 as first.id e.2.length .exitNop false b.instructionMap = .ok m ∧
                Except.ok { b with instructionMap := m } = (Except.ok b' : Except ElfError _) := by
          by_cases hname : first.name = "main".toList
          · rw [if_pos hname] at hlist
            exact ⟨_, by rw [if_pos hname], except_bind_ok hlist⟩
          · rw [if_neg hname] at hlist
            cases except_bind_ok hlist with
            | intro as has =>
              refine ⟨as, ?_, except_bind_ok has.2⟩
              rw [if_neg hname]
              exact addrsOf_ok has.1
        cases hstep with
        | intro as has =>
          cases has.2 with
          | intro m hm =>
            refine ⟨mainAddrs, first, as, e, addrsOf_ok hmain.1, item_ok hfirst.1, has.1, hfind, ?_, ?_⟩
            · rw [← Except.ok.inj hm.2]
              exact hm.1
            · rw [← Except.ok.inj hm.2]

/-- The symbols of a parsed test case. -/
theorem Parsed.recorded {perMacro : Nat} {addrs : InstrAddrMap} {tc : TestCaseProgram}
    {data : ElfData} {bin : TestCaseBinary} {b b' : BinMetadata} {exitAddr : Nat}
    (h : Parsed perMacro addrs tc data bin b b' exitAddr) :
    ∃ ms, Recorded perMacro addrs data.sectionData.values (functionsOf data.sectionData.values) tc
      data.sectionData.values bin.symbolTable ms := by
  cases recorded_of_foldlM h.sections with
  | intro ms hms =>
    refine ⟨ms, ?_, hms.mem, hms.all⟩
    have htable : b'.symbolTable = b.symbolTable := by
      obtain ⟨_, _, _, _, hexit⟩ := assignExit_ok h.exit
      exact hexit.table
    rw [h.table, htable]
    exact (List.perm_insertionSort _ _).trans hms.perm

/-- The first function of a section is at its first address. -/
theorem Parsed.first_offset {perMacro : Nat} {addrs : InstrAddrMap} {tc : TestCaseProgram}
    {data : ElfData} {bin : TestCaseBinary} {b b' : BinMetadata} {exitAddr : Nat}
    (h : Parsed perMacro addrs tc data bin b b' exitAddr) :
    ∀ s ∈ data.sectionData.values, ∀ f rest, s.functions = f :: rest →
      ((addrs s.name).getD [])[0]? = some f.offset := by
  refine foldlM_forall ?_ h.sections
  intro s b b' hb f rest hf
  cases (assignSection_ok hb).2.2 with
  | intro c hc =>
    rw [hf, List.foldlM_cons] at hc
    cases except_bind_ok hc with
    | intro st hst =>
      cases assignFunction_ok hst.1 with
      | intro func hfunc =>
        cases hfunc with
        | intro as has =>
          rw [has.1.addrs]
          exact has.1.offset

end Rvzr.TestCase
