import Rvzr.TestCase.Numbering
import Rvzr.Lib.Sorting

/-!
# The order of the sections and the instruction map

The sections of a parsed test case come in the order of the ELF file. The instruction map has for
each of them the addresses up to the end of its last instruction.
-/

namespace Rvzr.TestCase

open Rvzr.Lib

/-! ### The order of the sections -/

/-- The name of the first section of the object file that belongs to an actor. -/
def firstSectionName (elf : ElfFile) : Option Text :=
  (elf.sections.find? fun s => s.name.take 6 = ".data.".toList).map fun s =>
    (splitText '.' s.name).getD 2 []

/-- The keys and the names of some sections. -/
def keysAndNames (sections : Dict Nat SectionData) : List (Nat × Text) :=
  sections.map fun e => (e.1, e.2.name)

theorem addSymbol_names {d d' : ElfData} {s : ElfSymbol} (h : addSymbol d s = .ok d') :
    keysAndNames d'.sectionData = keysAndNames d.sectionData := by
  have hset : ∀ entry : FunctionData, keysAndNames (d.sectionData.map fun e =>
      if e.1 = s.shndx then (e.1, { e.2 with functions := setFunction e.2.functions entry }) else e) =
        keysAndNames d.sectionData := by
    intro entry
    unfold keysAndNames
    rw [List.map_map]
    apply List.map_congr_left
    intro e _
    by_cases he : e.1 = s.shndx
    · simp [he]
    · simp [he]
  have hexit : ∀ x : ElfData, (if containsText ".test_case_exit".toList s.name = true then
      pure { x with exitAddr := some s.value } else pure x : Except ElfError ElfData) = .ok d' →
        keysAndNames d'.sectionData = keysAndNames x.sectionData := by
    intro x hx
    by_cases hc : containsText ".test_case_exit".toList s.name = true
    · rw [if_pos hc] at hx
      rw [← Except.ok.inj hx]
    · rw [if_neg hc] at hx
      rw [← Except.ok.inj hx]
  unfold addSymbol at h
  dsimp only at h
  by_cases hfun : ".function".toList.isPrefixOf s.name = true
  · rw [if_pos hfun] at h
    by_cases hkey : d.sectionData.contains s.shndx = true
    · rw [if_pos hkey] at h
      cases except_bind_ok h with
      | intro x hx =>
        rw [← Except.ok.inj hx.1] at hx
        exact (hexit _ hx.2).trans (hset _)
    · rw [if_neg hkey] at h
      exact nomatch h
  · rw [if_neg hfun] at h
    exact hexit d h

theorem collectSections_sorted (elf : ElfFile) :
    (collectSections elf).Pairwise fun a b => a.1 ≤ b.1 := by
  have hzip : elf.sections.zipIdx.Pairwise fun a b => a.2 ≤ b.2 := by
    have hrange : (elf.sections.zipIdx.map Prod.snd).Pairwise (· ≤ ·) := by
      rw [List.zipIdx_map_snd]
      exact (List.pairwise_lt_range').imp le_of_lt
    exact List.pairwise_map.1 hrange
  refine List.Pairwise.filterMap _ ?_ hzip
  intro a b hab x hx y hy
  have hkey : ∀ {c : ElfSection × Nat} {z : Nat × SectionData},
      (if c.1.name.take 6 = ".data.".toList then
        some (c.2, ({ id := c.2, name := (splitText '.' c.1.name).getD 2 [], offset := c.1.offset,
                      size := c.1.size, functions := [] } : SectionData))
      else none) = some z → z.1 = c.2 := by
    intro c z hz
    split at hz
    · rw [← Option.some.inj hz]
    · exact nomatch hz
  rw [hkey hx, hkey hy]
  exact hab

theorem collectSections_head (elf : ElfFile) :
    (keysAndNames (collectSections elf)).head?.map Prod.snd = firstSectionName elf := by
  unfold collectSections firstSectionName keysAndNames
  generalize 0 = n
  generalize ".data.".toList = data
  induction elf.sections generalizing n with
  | nil => rfl
  | cons s ss ih =>
    rw [List.zipIdx_cons, List.filterMap_cons, List.find?_cons]
    by_cases hs : s.name.take 6 = data
    · simp [hs]
    · simp only [hs, if_false, decide_false]
      exact ih (n + 1)

theorem numberSections_names (next : Nat) (ss : List SectionData) :
    (numberSections next ss).map SectionData.name = ss.map SectionData.name := by
  induction ss generalizing next with
  | nil => rfl
  | cons s ss ih => simp [numberSections, ih]

/-- The first section is the first one in the object file. -/
theorem parseSymtab_head {elf : ElfFile} {data : ElfData} (h : parseSymtab elf = .ok data) :
    data.sectionData.values.head?.map SectionData.name = firstSectionName elf := by
  cases except_bind_ok h with
  | intro d hd =>
    have hdata : sortElfData d = data := Except.ok.inj hd.2
    have hnames : keysAndNames d.sectionData = keysAndNames (collectSections elf) := by
      have hunsorted := hd.1
      unfold getUnsortedData at hunsorted
      cases except_bind_ok hunsorted with
      | intro d' hd' =>
        have hlast := except_check_ok hd'.2
        rw [← Except.ok.inj hlast.2]
        refine foldlM_prefix (I := fun _ d => keysAndNames d.sectionData =
          keysAndNames (collectSections elf)) rfl ?_ hd'.1
        intro q a c c' _ hq hc
        exact (addSymbol_names hc).trans hq
    have hkeys : (d.sectionData.map Prod.fst) = (collectSections elf).map Prod.fst := by
      have hmap := congrArg (List.map Prod.fst) hnames
      unfold keysAndNames at hmap
      rwa [List.map_map, List.map_map] at hmap
    have hsorted : d.sectionData.Pairwise fun a b => a.1 ≤ b.1 := by
      have hcollect : ((collectSections elf).map Prod.fst).Pairwise (· ≤ ·) :=
        List.pairwise_map.2 (collectSections_sorted elf)
      rw [← hkeys] at hcollect
      exact List.pairwise_map.1 hcollect
    rw [← hdata, ← collectSections_head, ← hnames, ← List.head?_map]
    unfold sortElfData Dict.values keysAndNames
    simp only [List.map_map, Function.comp_def]
    rw [hsorted.insertionSort_eq, numberSections_names, List.map_map, ← List.head?_map]
    congr 1
    rw [List.map_map]
    conv_rhs => rw [← List.zipIdx_map_fst 0 d.sectionData, List.map_map]
    rfl

/-! ### The instruction map -/

/-- What an instruction map has at an offset of a section. -/
def entryAt (m : Dict Nat (Dict Nat Placed)) (sid offset : Nat) : Option MapEntry :=
  (m.find? fun e => e.1 = sid).bind fun e =>
    (e.2.find? fun p => p.1 = offset).map fun p => p.2.entry

/-- The entries of a section at its first `c` addresses. -/
structure Filled (as : List Nat) (c : Nat) (d : Dict Nat Placed) : Prop where
  keys : d.map Prod.fst = as.take c
  le : c ≤ as.length
  noExit : ∀ p ∈ d, p.2.entry ≠ .exitNop

section Filling

variable {sid : Nat} {as : List Nat} {m₀ : Dict Nat (Dict Nat Placed)} {d : Dict Nat Placed}

theorem Filled.length {c : Nat} (h : Filled as c d) : d.length = c := by
  have hlen := congrArg List.length h.keys
  rw [List.length_map, List.length_take] at hlen
  have := h.le
  omega

/-- An update of the section that was opened last. -/
theorem setEntry_last (hsid : sid ∉ m₀.map Prod.fst) (a : Nat) (p : Placed) :
    setEntry (m₀ ++ [(sid, d)]) sid a p = m₀ ++ [(sid, Dict.insert d a p)] := by
  unfold setEntry
  rw [List.map_append]
  congr 1
  · conv_rhs => rw [← List.map_id m₀]
    apply List.map_congr_left
    intro e he
    have hne : e.1 ≠ sid := fun heq => hsid (heq ▸ List.mem_map_of_mem he)
    rw [if_neg hne]
    rfl
  · simp

theorem Filled.insert {c a : Nat} {p : Placed} (h : Filled as c d) (hs : as.Pairwise (· < ·))
    (ha : as[c]? = some a) (hp : p.entry ≠ .exitNop) : Filled as (c + 1) (Dict.insert d a p) := by
  have hc := List.getElem?_eq_some_iff.1 ha
  have hfresh : a ∉ d.map Prod.fst := by
    rw [h.keys, List.mem_take_iff_getElem]
    intro hmem
    obtain ⟨j, hj, hja⟩ := hmem
    have hlt := List.pairwise_iff_getElem.1 hs j c (by omega) hc.1 (by omega)
    rw [hja, hc.2] at hlt
    exact lt_irrefl a hlt
  rw [Dict.insert_of_notMem p hfresh]
  refine ⟨?_, hc.1, ?_⟩
  · rw [List.map_append, h.keys, List.take_add_one, ha]
    rfl
  · intro q hq
    cases List.mem_append.1 hq with
    | inl hq => exact h.noExit q hq
    | inr hq =>
      rw [List.mem_singleton.1 hq]
      exact hp

/-- The placeholders of a macro come after its own entry. -/
theorem placeholders_filled (hsid : sid ∉ m₀.map Prod.fst) (hs : as.Pairwise (· < ·)) {c k n : Nat}
    {m : Dict Nat (Dict Nat Placed)} (hd : Filled as (c + k) d)
    (h : (List.range' k n).foldlM (fun m i => do
      let a ← item as (c + i)
      return setEntry m sid a { entry := .macroPlaceholder, sectionId := sid, offset := a, size := -1 })
      (m₀ ++ [(sid, d)]) = .ok m) :
    ∃ d', m = m₀ ++ [(sid, d')] ∧ Filled as (c + k + n) d' := by
  induction n generalizing k d with
  | zero =>
    exact ⟨d, (Except.ok.inj h).symm, hd⟩
  | succ n ih =>
    rw [List.range'_succ, List.foldlM_cons] at h
    cases except_bind_ok h with
    | intro m₁ hm₁ =>
      cases except_bind_ok hm₁.1 with
      | intro a ha =>
        have hset := Except.ok.inj ha.2
        rw [setEntry_last hsid] at hset
        have hnext := hm₁.2
        rw [← hset] at hnext
        have hfilled := hd.insert (p := ⟨.macroPlaceholder, sid, a, -1⟩) hs (item_ok ha.1)
          (by simp)
        cases ih (k := k + 1) hfilled hnext with
        | intro d' hd' =>
          refine ⟨d', hd'.1, ?_⟩
          have hsum : c + k + (n + 1) = c + (k + 1) + n := by omega
          rw [hsum]
          exact hd'.2

theorem assignInstruction_filled {perMacro c : Nat} (hp : 0 < perMacro) {inst : Instruction}
    {m : Dict Nat (Dict Nat Placed)} (hsid : sid ∉ m₀.map Prod.fst) (hs : as.Pairwise (· < ·))
    (hd : Filled as c d)
    (h : assignInstruction perMacro as sid c (.instruction inst) inst.isMacro (m₀ ++ [(sid, d)]) =
      .ok m) :
    ∃ d', m = m₀ ++ [(sid, d')] ∧ Filled as (c + width perMacro inst) d' := by
  unfold assignInstruction at h
  cases except_bind_ok h with
  | intro a ha =>
    have hnext := ha.2
    dsimp only at hnext
    rw [setEntry_last hsid] at hnext
    have hfilled (size : Int) :=
      hd.insert (p := ⟨.instruction inst, sid, a, size⟩) hs (item_ok ha.1) (by simp)
    by_cases hmac : inst.isMacro = true
    · rw [if_pos hmac] at hnext
      cases placeholders_filled hsid hs (hfilled _) hnext with
      | intro d' hd' =>
        refine ⟨d', hd'.1, ?_⟩
        have hwidth : c + width perMacro inst = c + 1 + (perMacro - 1) := by
          unfold width
          rw [if_pos hmac]
          omega
        rw [hwidth]
        exact hd'.2
    · rw [if_neg hmac] at hnext
      refine ⟨_, (Except.ok.inj hnext).symm, ?_⟩
      unfold width
      rw [if_neg hmac]
      exact hfilled _

/-- The walk over the instructions of the section that was opened last. -/
theorem walk_filled {perMacro : Nat} (hp : 0 < perMacro) {sections : List SectionData}
    {functions : List FunctionData} {insts : List Instruction} {st st' : Nat × BinMetadata}
    (hsid : sid ∉ m₀.map Prod.fst) (hs : as.Pairwise (· < ·))
    (hst : st.2.instructionMap = m₀ ++ [(sid, d)]) (hd : Filled as st.1 d)
    (h : insts.foldlM (assignStep perMacro sections functions sid as) st = .ok st') :
    ∃ d', st'.2.instructionMap = m₀ ++ [(sid, d')] ∧ Filled as st'.1 d' := by
  refine foldlM_prefix (I := fun _ st' => ∃ d', st'.2.instructionMap = m₀ ++ [(sid, d')] ∧
    Filled as st'.1 d') ⟨d, hst, hd⟩ ?_ h
  intro q inst c c' _ hq hc
  cases hq with
  | intro d₁ hd₁ =>
    have hstep := assignStep_ok hc
    have hmap := hstep.map
    rw [hd₁.1] at hmap
    cases assignInstruction_filled hp hsid hs hd₁.2 hmap with
    | intro d' hd' =>
      refine ⟨d', hd'.1, ?_⟩
      rw [hstep.cursor]
      exact hd'.2

end Filling

/-- The part of an instruction map that belongs to a section. -/
def FilledBy (perMacro : Nat) (addrs : InstrAddrMap) (tc : TestCaseProgram) (s : SectionData)
    (e : Nat × Dict Nat Placed) : Prop :=
  e.1 = s.id ∧ Filled ((addrs s.name).getD []) (endOf perMacro (codeOf tc s)) e.2

/-- What the sections leave in the instruction map. -/
theorem filled_of_foldlM {perMacro : Nat} (hp : 0 < perMacro) {addrs : InstrAddrMap}
    {sections : List SectionData} {functions : List FunctionData} {tc : TestCaseProgram}
    {ss : List SectionData} {b : BinMetadata} (hids : (ss.map SectionData.id).Nodup)
    (hincr : ∀ name as, addrs name = some as → as.Pairwise (· < ·))
    (h : ss.foldlM (assignSection perMacro addrs sections functions tc) {} = .ok b) :
    List.Forall₂ (FilledBy perMacro addrs tc) ss b.instructionMap := by
  refine foldlM_prefix (I := fun pre b => List.Forall₂ (FilledBy perMacro addrs tc) pre
    b.instructionMap) .nil ?_ h
  intro q s c c' hpre hq hc
  have hkeys : c.instructionMap.map Prod.fst = q.map SectionData.id := by
    have hmap : List.Forall₂ (fun s e => s = e) (q.map SectionData.id)
        (c.instructionMap.map Prod.fst) := by
      rw [List.forall₂_map_left_iff, List.forall₂_map_right_iff]
      exact hq.imp fun _ _ h => h.1.symm
    exact (List.forall₂_eq_eq_eq ▸ hmap).symm
  have hfresh : s.id ∉ c.instructionMap.map Prod.fst := by
    have hnodup : ((q ++ [s]).map SectionData.id).Nodup :=
      hids.sublist (hpre.sublist.map SectionData.id)
    rw [List.map_append, List.nodup_append] at hnodup
    rw [hkeys]
    intro hmem
    exact hnodup.2.2 _ hmem s.id (by simp) rfl
  have hs : ((addrs s.name).getD []).Pairwise (· < ·) := by
    cases ha : addrs s.name with
    | none => exact .nil
    | some as => exact hincr s.name as ha
  cases (assignSection_ok hc).2.2 with
  | intro n hn =>
    have hwalk := assignFunctions_ok hn
    have hopen : ((0, opened c s) : Nat × BinMetadata).2.instructionMap =
        c.instructionMap ++ [(s.id, [])] :=
      Dict.insert_of_notMem [] hfresh
    have hempty : Filled ((addrs s.name).getD []) 0 [] :=
      ⟨rfl, Nat.zero_le _, fun p hp => (nomatch hp)⟩
    cases walk_filled hp hfresh hs hopen hempty hwalk with
    | intro d hd =>
      have hcursor := (walked_of_foldlM hwalk).cursor
      have hend : n = endOf perMacro (codeOf tc s) := by
        rw [Nat.zero_add] at hcursor
        exact hcursor
      have hlast := hd.2
      rw [hend] at hlast
      rw [hd.1]
      exact List.rel_append hq (.cons ⟨rfl, hlast⟩ .nil)

end Rvzr.TestCase
