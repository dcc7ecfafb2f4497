import Rvzr.TestCase.SectionIds
import Rvzr.Km.MacroTargets
import Rvzr.Unicorn.StateMachine

/-!
# The section of the main actor

What the model (`rvzr/sandbox.py:210-231`, `rvzr/model_unicorn/execution_context.py:60-110`), the
encoder and the kernel module take for the main section of a parsed test case, and where it is
loaded.
-/

namespace Rvzr.Unicorn

open Rvzr.Lib Rvzr.TestCase Rvzr.Km

/-! ### The model -/

/-- `get_code_addr(CodeArea.MAIN, actor_id)`. -/
def getCodeAddr (codeStart actorId : Int) : Int := codeStart + actorId * codeSizePerActor

/-- `get_exit_addr`, from the section of the main actor. -/
def getExitAddr (codeStart : Int) (main : SectionData) : Int := codeStart + main.size - 1

/-- `get_macro_offset`. -/
def getMacroOffset (bin : TestCaseBinary) (macroType : Int) : Int :=
  match bin.symbolTable.find? fun s => s.type_ = macroType with
  | some s => s.offset
  | none => -1

/-- The type of the macro `fault_handler`. -/
def faultHandlerType : Int := 3

/-- `_set_fault_handler_addr`. -/
def faultHandlerAddr (codeStart : Int) (main : SectionData) (bin : TestCaseBinary) : Int :=
  if getMacroOffset bin faultHandlerType = -1 then getExitAddr codeStart main
  else codeStart + getMacroOffset bin faultHandlerType

/-! ### Agreement -/

/-- All components take the section of the main actor for the main section, and the addresses that
the model has for the exit and the fault handler are those at which they are loaded. -/
structure MainAgrees (codeStart : Int) (main : SectionData) (exitAddr : Nat) (bin : TestCaseBinary)
    (m : Dict Nat (Dict Nat Placed)) : Prop where
  id : main.id = 0
  exit : getExitAddr codeStart main = getCodeAddr codeStart main.id + exitAddr
  exitNop : entryAt m main.id exitAddr = some .exitNop
  faultHandler : ∀ e, bin.symbolTable.find? (fun s => s.type_ = faultHandlerType) = some e →
    faultHandlerAddr codeStart main bin = getCodeAddr codeStart e.sid + e.offset
  firstActor : ∃ a, bin.getActors[0]? = some a ∧ a.codeSection = ⟨main.offset, main.size, main.id⟩
  kernel : ∀ bytes (h : bin.saveRcbf = some bytes) (hl : bin.WithinLimits) (s : TcParser),
    Decoded (bin.image h hl) s →
      s.sections.read 0 main.size = (bin.objFile.drop main.offset).take main.size

/-- The section has a macro `fault_handler`. -/
def HasFaultHandler (tc : TestCaseProgram) (sec : SectionData) : Prop :=
  ∃ inst ∈ codeOf tc sec, inst.isMacro = true ∧ macroName inst = "fault_handler".toList

/-- The main section comes first in the object file and ends with the exit, to which the
disassembler has come after as many addresses as the section has instructions; and when there is a
fault handler, there is one in the main section. -/
structure MainFirst (perMacro : Nat) (addrs : InstrAddrMap) (elf : ElfFile) (tc : TestCaseProgram)
    (sections : List SectionData) (main : SectionData) (exitAddr : Nat) : Prop where
  first : firstSectionName elf = some "main".toList
  last : main.size = exitAddr + 1
  count : ((addrs "main".toList).getD [] ++ [exitAddr])[endOf perMacro (codeOf tc main)]? =
    some exitAddr
  handler : (∃ sec ∈ sections, HasFaultHandler tc sec) → HasFaultHandler tc main

/-! ### The first section -/

section

variable {perMacro : Nat} {addrs : InstrAddrMap} {elf : ElfFile} {tc : TestCaseProgram}
  {data : ElfData} {bin : TestCaseBinary} {b b' : BinMetadata} {exitAddr : Nat} {main : SectionData}

theorem section_of_zero (hdata : parseSymtab elf = .ok data) {sec : SectionData}
    (hsec : sec ∈ data.sectionData.values) : sec.id = 0 ↔ data.sectionData.values[0]? = some sec := by
  have hids := parseSymtab_sectionIds hdata
  obtain ⟨i, hi⟩ := List.mem_iff_getElem?.1 hsec
  have hlt := (List.getElem?_eq_some_iff.1 hi).1
  have hid : sec.id = i := by
    have hget : (data.sectionData.values.map SectionData.id)[i]? = some sec.id := by
      rw [List.getElem?_map, hi]
      rfl
    rw [hids, List.getElem?_range hlt] at hget
    exact (Option.some.inj hget).symm
  constructor
  · intro hzero
    have hi₀ : i = 0 := hid.symm.trans hzero
    rwa [hi₀] at hi
  · intro hget
    have hnodup : (data.sectionData.values.map SectionData.id).Nodup := by
      rw [hids]
      exact List.nodup_range
    have hi₀ : i = 0 := by
      refine (List.getElem?_inj hlt (List.Nodup.of_map _ hnodup)).1 ?_
      rw [hi, hget]
    rw [hid, hi₀]

/-- The main section has number 0 exactly when it comes first in the object file. -/
theorem main_id_iff (hdata : parseSymtab elf = .ok data)
    (hmain : data.sectionData.values.find? (fun s => s.name = "main".toList) = some main) :
    main.id = 0 ↔ firstSectionName elf = some "main".toList := by
  have hmem := List.mem_of_find?_eq_some hmain
  have hname : main.name = "main".toList := by simpa using List.find?_some hmain
  rw [section_of_zero hdata hmem, ← parseSymtab_head hdata]
  cases hv : data.sectionData.values with
  | nil =>
    rw [hv] at hmem
    exact nomatch hmem
  | cons s ss =>
    rw [hv, List.find?_cons] at hmain
    show some s = some main ↔ some s.name = some "main".toList
    constructor
    · intro h
      rw [Option.some.inj h, hname]
    · intro h
      have hs : s.name = "main".toList := Option.some.inj h
      simpa [hs] using hmain

/-! ### The entry of the exit -/

/-- With the main section first, the exit is entered at its address exactly when the disassembler
has come to it after as many addresses as the section has instructions. -/
theorem exitNop_iff (hp : 0 < perMacro) (hincr : ∀ name as, addrs name = some as → as.Pairwise (· < ·))
    (hdata : parseSymtab elf = .ok data) (hparsed : Parsed perMacro addrs tc data bin b b' exitAddr)
    (hmain : data.sectionData.values.find? (fun s => s.name = "main".toList) = some main)
    (hzero : main.id = 0) :
    entryAt b'.instructionMap main.id exitAddr = some .exitNop ↔
      ((addrs "main".toList).getD [] ++ [exitAddr])[endOf perMacro (codeOf tc main)]? =
        some exitAddr := by
  have hmem := List.mem_of_find?_eq_some hmain
  have hname : main.name = "main".toList := by simpa using List.find?_some hmain
  have hids : (data.sectionData.values.map SectionData.id).Nodup := by
    rw [parseSymtab_sectionIds hdata]
    exact List.nodup_range
  have hfilled := filled_of_foldlM hp hids hincr hparsed.sections
  obtain ⟨mainAddrs, first, as, e, hexit⟩ := assignExit_ok hparsed.exit
  have hget := (section_of_zero hdata hmem).1 hzero
  have hfirst : first = main := Option.some.inj (hexit.head.symm.trans hget)
  have has := hexit.first_addrs
  rw [hfirst, if_pos hname] at has
  have hmap := hexit.map
  have hfind := hexit.entry
  rw [hfirst, has] at hmap
  rw [hexit.main_addrs, Option.getD_some]
  cases hv : data.sectionData.values with
  | nil =>
    rw [hv] at hmem
    exact nomatch hmem
  | cons s ss =>
    have hs : s = main := by
      rw [hv] at hget
      exact Option.some.inj hget
    rw [hv, hs] at hfilled
    generalize hm : b.instructionMap = map at hfilled hfind hmap
    cases hfilled with
    | @cons _ e₀ _ rest hhead htail =>
      rw [List.find?_cons, hhead.1, hzero] at hfind
      have he : e₀ = e := by simpa using hfind
      rw [← he] at hmap
      have hlen : e₀.2.length = endOf perMacro (codeOf tc main) := hhead.2.length
      rw [hlen] at hmap
      unfold assignInstruction at hmap
      cases except_bind_ok hmap with
      | intro a ha =>
        have hlast := Except.ok.inj ha.2
        have hat := item_ok ha.1
        rw [hat, ← hlast]
        unfold entryAt setEntry
        rw [List.map_cons, List.find?_cons, if_pos hhead.1, hhead.1]
        simp only [decide_true, Option.bind_some]
        rw [Dict.find?_insert]
        by_cases hexitAddr : a = exitAddr
        · rw [if_pos hexitAddr, hexitAddr]
          exact ⟨fun _ => rfl, fun _ => rfl⟩
        · rw [if_neg hexitAddr]
          constructor
          · intro h
            cases hf : e₀.2.find? fun p => p.1 = exitAddr with
            | none =>
              rw [hf] at h
              exact nomatch h
            | some p =>
              rw [hf] at h
              exact absurd (Option.some.inj h) (hhead.2.noExit p (List.mem_of_find?_eq_some hf))
          · intro h
            exact absurd (Option.some.inj h) hexitAddr

/-! ### The fault handler -/

theorem faultHandler_spec {spec : MacroSpec} (h : spec ∈ macroSpecs) :
    spec.type_ = faultHandlerType ↔ spec.name.toList = "fault_handler".toList := by
  revert spec
  decide

/-- The symbols of fault handlers are in the sections that have one. -/
theorem handler_symbol {ms : List SymbolTableEntry} {sections : List SectionData}
    (h : Recorded perMacro addrs sections (functionsOf sections) tc sections bin.symbolTable ms)
    {e : SymbolTableEntry} (he : e ∈ bin.symbolTable) (ht : e.type_ = faultHandlerType) :
    ∃ sec ∈ sections, HasFaultHandler tc sec ∧ e.sid = sec.id ∧ 0 ≤ e.offset := by
  cases List.mem_append.1 (h.perm.mem_iff.1 he) with
  | inl hfun =>
    obtain ⟨_, _, _, _, heq⟩ := mem_functionSymbols.1 hfun
    rw [heq] at ht
    have hfunction : (0 : Int) ≠ faultHandlerType := by decide
    exact absurd ht hfunction
  | inr hmac =>
    obtain ⟨sec, hsec, p, hp⟩ := (h.mem e).1 hmac
    obtain ⟨spec, values, offset, hvalues, _, heq⟩ := macroSymbol_eq hp
    have hv := macroValues_ok hvalues
    have hinst := mem_macrosAt hp.1
    have htype : spec.type_ = faultHandlerType := by rw [← ht, heq]
    refine ⟨sec, hsec, ⟨p.2, hinst.1, hinst.2, ?_⟩, ?_, ?_⟩
    · rw [← hv.name]
      exact (faultHandler_spec hv.spec_mem).1 htype
    · rw [heq]
    · rw [heq]
      exact Int.natCast_nonneg offset

theorem symbol_of_handler {ms : List SymbolTableEntry} {sections : List SectionData}
    (h : Recorded perMacro addrs sections (functionsOf sections) tc sections bin.symbolTable ms)
    {sec : SectionData} (hsec : sec ∈ sections) (hhas : HasFaultHandler tc sec) :
    ∃ e ∈ bin.symbolTable, e.type_ = faultHandlerType ∧ e.sid = sec.id := by
  obtain ⟨inst, hinst, hmac, hname⟩ := hhas
  obtain ⟨c, hc⟩ := exists_macrosAt perMacro hinst hmac
  obtain ⟨e, he⟩ := h.all sec hsec _ hc
  obtain ⟨spec, values, offset, hvalues, _, heq⟩ := macroSymbol_eq he
  have hv := macroValues_ok hvalues
  refine ⟨e, h.perm.mem_iff.2 (List.mem_append_right _ ((h.mem e).2 ⟨sec, hsec, _, he⟩)), ?_, ?_⟩
  · rw [heq]
    exact (faultHandler_spec hv.spec_mem).2 (hv.name.trans hname)
  · rw [heq]

/-- The first element that a search finds in a sorted list is below the others. -/
theorem find?_le {α : Type} {r : α → α → Prop} (hrefl : ∀ a, r a a) {p : α → Bool} {l : List α}
    (hl : l.Pairwise r) {x y : α} (hx : l.find? p = some x) (hy : y ∈ l) (hp : p y = true) :
    r x y := by
  obtain ⟨_, before, after, heq, hno⟩ := List.find?_eq_some_iff_append.1 hx
  rw [heq] at hy hl
  cases List.mem_append.1 hy with
  | inl hbefore =>
    have hnot := hno y hbefore
    rw [hp] at hnot
    exact nomatch hnot
  | inr hafter =>
    cases List.mem_cons.1 hafter with
    | inl hsame =>
      rw [hsame]
      exact hrefl x
    | inr hlater => exact (List.pairwise_cons.1 (List.pairwise_append.1 hl).2.1).1 y hlater

/-- With the main section first, the address of the fault handler is that of its code exactly when
the main section has one. -/
theorem faultHandler_iff {ms : List SymbolTableEntry} {codeStart : Int}
    (hdata : parseSymtab elf = .ok data)
    (h : Recorded perMacro addrs data.sectionData.values (functionsOf data.sectionData.values) tc
      data.sectionData.values bin.symbolTable ms)
    (hsorted : bin.symbolTable.Pairwise fun a b => toLex (a.sid, a.offset) ≤ toLex (b.sid, b.offset))
    (hmem : main ∈ data.sectionData.values) (hzero : main.id = 0) :
    (∀ e, bin.symbolTable.find? (fun s => s.type_ = faultHandlerType) = some e →
      faultHandlerAddr codeStart main bin = getCodeAddr codeStart e.sid + e.offset) ↔
      ((∃ sec ∈ data.sectionData.values, HasFaultHandler tc sec) → HasFaultHandler tc main) := by
  have haddr : ∀ e, bin.symbolTable.find? (fun s => s.type_ = faultHandlerType) = some e →
      0 ≤ e.offset → faultHandlerAddr codeStart main bin = codeStart + e.offset := by
    intro e he hoffset
    have hmac : getMacroOffset bin faultHandlerType = e.offset := by
      unfold getMacroOffset
      rw [he]
    unfold faultHandlerAddr
    rw [hmac, if_neg (by omega)]
  constructor
  · intro hall hhas
    obtain ⟨sec, hsec, hhandler⟩ := hhas
    obtain ⟨e', he', ht', _⟩ := symbol_of_handler h hsec hhandler
    cases hf : bin.symbolTable.find? fun s => s.type_ = faultHandlerType with
    | none =>
      have hno := List.find?_eq_none.1 hf e' he'
      simp [ht'] at hno
    | some e =>
      have ht : e.type_ = faultHandlerType := by simpa using List.find?_some hf
      obtain ⟨sec', hsec', hhas', hsid, hoffset⟩ :=
        handler_symbol h (List.mem_of_find?_eq_some hf) ht
      have heq := hall e hf
      rw [haddr e hf hoffset] at heq
      have hid : sec'.id = 0 := by
        unfold getCodeAddr codeSizePerActor pageSize at heq
        omega
      have hsame : sec' = main := Option.some.inj
        (((section_of_zero hdata hsec').1 hid).symm.trans ((section_of_zero hdata hmem).1 hzero))
      exact hsame ▸ hhas'
  · intro hall e hf
    have ht : e.type_ = faultHandlerType := by simpa using List.find?_some hf
    obtain ⟨sec, hsec, hhas, hsid, hoffset⟩ := handler_symbol h (List.mem_of_find?_eq_some hf) ht
    obtain ⟨e₀, he₀, ht₀, hsid₀⟩ := symbol_of_handler h hmem (hall ⟨sec, hsec, hhas⟩)
    have hle : toLex (e.sid, e.offset) ≤ toLex (e₀.sid, e₀.offset) :=
      find?_le (r := fun a b => toLex (a.sid, a.offset) ≤ toLex (b.sid, b.offset))
        (fun _ => le_refl _) hsorted hf he₀ (by simpa using ht₀)
    rw [Prod.Lex.toLex_le_toLex] at hle
    have hzero' : e.sid = 0 := by
      simp only at hle
      omega
    rw [haddr e hf hoffset, hzero']
    unfold getCodeAddr
    omega

/-! ### The saved sections -/

theorem actorOf_ok {sections : List SectionData} {decl : ActorDecl} {a : Actor}
    (h : actorOf sections decl = .ok a) :
    ∃ sec, sections.find? (fun s => s.name = decl.name) = some sec ∧
      a.codeSection = ⟨sec.offset, sec.size, sec.id⟩ ∧ a.id = sec.id := by
  unfold actorOf elfSectionOf at h
  cases hf : sections.find? fun s => s.name = decl.name with
  | none =>
    rw [hf] at h
    exact nomatch h
  | some sec =>
    rw [hf] at h
    rw [← Except.ok.inj h]
    exact ⟨sec, rfl, rfl, rfl⟩

/-- With the main section first, the main actor is saved first. -/
theorem firstActor (hdata : parseSymtab elf = .ok data)
    (hparsed : Parsed perMacro addrs tc data bin b b' exitAddr)
    (hmain : data.sectionData.values.find? (fun s => s.name = "main".toList) = some main)
    (hzero : main.id = 0) :
    ∃ a, bin.getActors[0]? = some a ∧ a.codeSection = ⟨main.offset, main.size, main.id⟩ := by
  have hactors := mapM_ok hparsed.actors
  have hname := tc.main_first
  have hmem := List.mem_of_find?_eq_some hmain
  have hsorted := pairwise_sortBy Actor.id bin.actorValues
  have hall : ∀ a ∈ bin.actorValues, ∃ sec ∈ data.sectionData.values,
      a.codeSection = ⟨sec.offset, sec.size, sec.id⟩ ∧ a.id = sec.id := by
    intro a ha
    obtain ⟨i, hi⟩ := List.mem_iff_get.1 ha
    have hlt : i.1 < tc.actors.length := by
      rw [hactors.length_eq]
      exact i.2
    have hrel := (List.forall₂_iff_get.1 hactors).2 i.1 hlt i.2
    obtain ⟨sec, hsec, hcode, hid⟩ := actorOf_ok hrel
    rw [← hi]
    exact ⟨sec, List.mem_of_find?_eq_some hsec, hcode, hid⟩
  cases hdecl : tc.actors with
  | nil =>
    rw [hdecl] at hname
    exact nomatch hname
  | cons decl rest =>
    rw [hdecl] at hname hactors
    generalize hvalues : bin.actorValues = values at hactors hall hsorted
    cases hactors with
    | @cons _ a₀ _ as hhead htail =>
      obtain ⟨sec, hsec, hcode, hid⟩ := actorOf_ok hhead
      have hdname : decl.name = "main".toList := Option.some.inj hname
      rw [hdname, hmain] at hsec
      have hsecMain : main = sec := Option.some.inj hsec
      have hsorted' : (sortBy Actor.id (a₀ :: as)) = bin.getActors := by
        unfold TestCaseBinary.getActors
        rw [hvalues]
        rfl
      cases hl : bin.getActors with
      | nil =>
        have hlen := length_sortBy Actor.id (a₀ :: as)
        rw [hsorted', hl] at hlen
        exact nomatch hlen
      | cons x t =>
        refine ⟨x, rfl, ?_⟩
        rw [hsorted', hl] at hsorted
        have hmem₀ : a₀ ∈ x :: t := by
          rw [← hl, ← hsorted', mem_sortBy]
          exact List.mem_cons_self
        have hx : x ∈ a₀ :: as := by
          rw [← mem_sortBy Actor.id, hsorted', hl]
          exact List.mem_cons_self
        obtain ⟨sec', hsec', hcode', hid'⟩ := hall x hx
        have hle : x.id ≤ a₀.id := by
          cases List.mem_cons.1 hmem₀ with
          | inl heq => rw [heq]
          | inr ht => exact (List.pairwise_cons.1 hsorted).1 a₀ ht
        have hzero' : sec'.id = 0 := by
          rw [← hsecMain] at hid
          omega
        have hsame : sec' = main := Option.some.inj
          (((section_of_zero hdata hsec').1 hzero').symm.trans
            ((section_of_zero hdata hmem).1 hzero))
        rw [hcode', hsame]

theorem kernel_main {a : Actor} (ha : bin.getActors[0]? = some a)
    (hcode : a.codeSection = ⟨main.offset, main.size, main.id⟩) {bytes : List UInt8}
    (h : bin.saveRcbf = some bytes) (hl : bin.WithinLimits) {s : TcParser}
    (hs : Decoded (bin.image h hl) s) :
    s.sections.read 0 main.size = (bin.objFile.drop main.offset).take main.size := by
  have hsection : (bin.image h hl).section_ 0 = bin.sectionCode a := by
    unfold RcbfImage.section_ TestCaseBinary.image
    simp [ha]
  have hlen : (bin.sectionCode a).length = main.size := by
    rw [bin.length_sectionCode (List.mem_of_getElem? ha), hcode]
  have hread := hs.sections 0 (by
    show 0 < (bin.getActors.map bin.sectionCode).length
    rw [List.length_map]
    exact (List.getElem?_eq_some_iff.1 ha).1)
  rw [hsection, hlen] at hread
  rw [Nat.mul_zero] at hread
  rw [hread]
  unfold TestCaseBinary.sectionCode
  rw [hcode]

end

/-- All components agree on the main section exactly when it comes first in the object file and ends
with the exit, the disassembler has as many addresses before the exit as it has instructions, and
the fault handler is in it. -/
theorem mainAgrees_iff {isa : Text} {addrs : InstrAddrMap} {elf : ElfFile} {tc : TestCaseProgram}
    {bin : TestCaseBinary} {m : Dict Nat (Dict Nat Placed)} {data : ElfData} {main : SectionData}
    {exitAddr : Nat} {codeStart : Int}
    (h : populateElfData (instructionPerMacro isa) addrs elf tc = .ok (bin, m))
    (hdata : parseSymtab elf = .ok data) (hexit : data.exitAddr = some exitAddr)
    (hmain : data.sectionData.values.find? (fun s => s.name = "main".toList) = some main)
    (hincr : ∀ name as, addrs name = some as → as.Pairwise (· < ·)) :
    MainAgrees codeStart main exitAddr bin m ↔
      MainFirst (instructionPerMacro isa) addrs elf tc data.sectionData.values main exitAddr := by
  obtain ⟨data', b, b', exitAddr', hdata', hm, hparsed⟩ := populateElfData_ok h
  rw [hdata] at hdata'
  rw [← Except.ok.inj hdata'] at hparsed
  have hsame : exitAddr' = exitAddr := Option.some.inj (hparsed.exit_found.symm.trans hexit)
  rw [hsame] at hparsed
  obtain ⟨ms, hrec⟩ := hparsed.recorded
  have hmem := List.mem_of_find?_eq_some hmain
  have hp : 0 < instructionPerMacro isa := by
    unfold instructionPerMacro
    split
    · decide
    · decide
  have hsorted : bin.symbolTable.Pairwise fun a b =>
      toLex (a.sid, a.offset) ≤ toLex (b.sid, b.offset) := by
    rw [hparsed.table]
    exact pairwise_sortBy (fun a : SymbolTableEntry => toLex (a.sid, a.offset)) b'.symbolTable
  rw [hm]
  constructor
  · intro hall
    refine ⟨(main_id_iff hdata hmain).1 hall.id, ?_, ?_, ?_⟩
    · have haddr := hall.exit
      rw [hall.id] at haddr
      unfold getExitAddr getCodeAddr at haddr
      omega
    · exact (exitNop_iff hp hincr hdata hparsed hmain hall.id).1 hall.exitNop
    · exact (faultHandler_iff hdata hrec hsorted hmem hall.id).1 hall.faultHandler
  · intro hall
    have hzero := (main_id_iff hdata hmain).2 hall.first
    obtain ⟨a, ha, hcode⟩ := firstActor hdata hparsed hmain hzero
    refine ⟨hzero, ?_, ?_, ?_, ⟨a, ha, hcode⟩, ?_⟩
    · have hsize := hall.last
      rw [hzero]
      unfold getExitAddr getCodeAddr
      omega
    · exact (exitNop_iff hp hincr hdata hparsed hmain hzero).2 hall.count
    · exact (faultHandler_iff hdata hrec hsorted hmem hzero).2 hall.handler
    · intro bytes hbytes hl s hs
      exact kernel_main ha hcode hbytes hl hs

/-! ### Two test cases -/

/-- The section of the main actor of the sample with two functions. -/
def sampleMain : SectionData :=
  ⟨0, "main".toList, 0, 17, [⟨0, ".function_0".toList, 0⟩, ⟨1, ".function_1".toList, 8⟩]⟩

theorem switchSample_mainFirst :
    MainFirst (instructionPerMacro "x86-64".toList) twoFunctionsAddrs twoFunctionsElf
      (twoFunctions switchSample (sampleMacro ".measurement_end" ".noarg"))
      sampleData.sectionData.values sampleMain 16 where
  first := by decide +kernel
  last := rfl
  count := by decide +kernel
  handler := by
    rintro ⟨sec, hsec, h⟩
    have hvalues : sampleData.sectionData.values = [sampleMain] := by decide +kernel
    rw [hvalues, List.mem_singleton] at hsec
    exact hsec ▸ h

theorem mainAgrees_switchSample :
    MainAgrees 0 sampleMain 16
      (parsedSample switchSample (sampleMacro ".measurement_end" ".noarg")).1
      (parsedSample switchSample (sampleMacro ".measurement_end" ".noarg")).2 :=
  (mainAgrees_iff (parsedSample_eq (by decide +kernel)) sampleData_eq (by decide +kernel)
    (by decide +kernel) twoFunctionsAddrs_increasing).2 switchSample_mainFirst

/-- The section of a second actor comes first. Its `.byte` directive is one instruction for the
parser and two for the disassembler. -/
def actorFirst : TestCaseProgram where
  actors := [⟨"main".toList, .host, .kernel, 0, 0⟩, ⟨"actor1".toList, .host, .kernel, 0, 0⟩]
  sections := [
    ⟨"main".toList, [⟨".function_0".toList, [⟨"bb0".toList, [⟨"nop".toList, [], false⟩], []⟩],
      ⟨"exit0".toList, [], []⟩⟩]⟩,
    ⟨"actor1".toList, [⟨".function_1".toList, [⟨"bb1".toList,
      [⟨"opcode".toList, [], false⟩], []⟩], ⟨"exit1".toList, [], []⟩⟩]⟩]
  names := rfl
  nodup := by decide
  main_first := rfl

def actorFirstElf : ElfFile where
  sections := [⟨".data.actor1".toList, 0, 2⟩, ⟨".data.main".toList, 2, 2⟩]
  symbols := [⟨".function_1".toList, 0, 0⟩, ⟨".function_0".toList, 0, 1⟩,
    ⟨".test_case_exit".toList, 1, 1⟩]
  bytes := List.replicate 4 0x90

def actorFirstAddrs : InstrAddrMap := fun name =>
  if name = "main".toList ∨ name = "actor1".toList then some [0, 1] else none

def actorFirstParsed : TestCaseBinary × Dict Nat (Dict Nat Placed) :=
  returned (⟨[], [], [], sections_in_file_nil⟩, [])
    (populateElfData (instructionPerMacro "x86-64".toList) actorFirstAddrs actorFirstElf actorFirst)

def actorFirstData : ElfData := returned ⟨[], none⟩ (parseSymtab actorFirstElf)

theorem actorFirst_parsed : populateElfData (instructionPerMacro "x86-64".toList) actorFirstAddrs
    actorFirstElf actorFirst = .ok (actorFirstParsed.1, actorFirstParsed.2) := by
  show _ = Except.ok actorFirstParsed
  exact returned_of_accepts _ (by decide +kernel)

theorem actorFirst_data : parseSymtab actorFirstElf = .ok actorFirstData :=
  returned_of_accepts _ (by decide +kernel)

/-- The section of the main actor has number 1. -/
theorem actorFirst_not_mainAgrees :
    ¬ ∀ (isa : Text) (addrs : InstrAddrMap) (elf : ElfFile) (tc : TestCaseProgram)
        (bin : TestCaseBinary) (m : Dict Nat (Dict Nat Placed)) (data : ElfData)
        (main : SectionData) (exitAddr : Nat) (codeStart : Int),
      populateElfData (instructionPerMacro isa) addrs elf tc = .ok (bin, m) →
      parseSymtab elf = .ok data → data.exitAddr = some exitAddr →
      data.sectionData.values.find? (fun s => s.name = "main".toList) = some main →
      (∀ name as, addrs name = some as → as.Pairwise (· < ·)) →
        MainAgrees codeStart main exitAddr bin m := by
  intro h
  have hincr : ∀ name as, actorFirstAddrs name = some as → as.Pairwise (· < ·) := by
    intro name as ha
    unfold actorFirstAddrs at ha
    split at ha
    · rw [← Option.some.inj ha]
      decide
    · exact nomatch ha
  have hall := h "x86-64".toList actorFirstAddrs actorFirstElf actorFirst actorFirstParsed.1
    actorFirstParsed.2 actorFirstData
    ⟨1, "main".toList, 2, 2, [⟨1, ".function_0".toList, 0⟩]⟩ 1 0 actorFirst_parsed actorFirst_data
    (by decide +kernel) (by decide +kernel) hincr
  exact absurd hall.id (by decide)

end Rvzr.Unicorn
