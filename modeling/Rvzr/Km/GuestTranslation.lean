import Mathlib.Data.List.Nodup
import Rvzr.Km.GuestPageTables

/-!
# The memory that a guest reaches

The two translations of a guest after `map_sandbox_to_guest_memory`. Every page of the guest-virtual
layout leads to the page of the actor in the host's memory, and nothing else is mapped; whatever
addresses a guest forms, its extended page tables lead only to its own pages and to the shared ones.
-/

namespace Rvzr.Km.GuestTables

open Rvzr.Lib

variable {cfg : Config}

/-! ### Addresses -/

/-- The machine: `vmalloc_to_phys` of a page that is in memory is the address of a page frame, and
different pages have different ones; four levels of tables can hold them, and one table holds the
guest's memory. -/
structure Config.Ok (cfg : Config) : Prop where
  wide : 21 ≤ cfg.physicalWidth
  narrow : ∀ p, cfg.vmallocToPhys p < 2 ^ 48
  small : cfg.nUtilPages + 13 ≤ entriesPerPage
  aligned : ∀ p, cfg.vmallocToPhys p % pageSize = 0
  bounded : ∀ p, cfg.vmallocToPhys p < 2 ^ cfg.physicalWidth
  nonzero : ∀ p ∈ hostPages cfg, cfg.vmallocToPhys p ≠ 0
  injective : ∀ p ∈ hostPages cfg, ∀ q ∈ hostPages cfg,
    cfg.vmallocToPhys p = cfg.vmallocToPhys q → p = q

namespace GuestPage

theorem mem_extended_of_mapped {n : Nat} {p : GuestPage} (h : p ∈ mapped n) : p ∈ extended n :=
  List.mem_append_left _ h

theorem guestPageTables_mem {n i : Nat} (hi : i < 4) : guestPageTables i ∈ extended n :=
  List.mem_append_right _ (List.mem_map_of_mem (List.mem_range.mpr hi))

theorem number_lt {n : Nat} {p : GuestPage} (h : p ∈ extended n) : p.number n < n + 13 := by
  simp only [extended, mapped, List.mem_append, List.mem_map, List.mem_range, List.mem_cons,
    List.not_mem_nil, or_false, nDataPagesPerActor, nCodePagesPerActor] at h
  rcases h with (((⟨i, hi, rfl⟩ | ⟨i, hi, rfl⟩) | ⟨i, hi, rfl⟩) | rfl | rfl) | ⟨i, hi, rfl⟩ <;>
    simp only [number, nDataPagesPerActor, nCodePagesPerActor] <;> omega

/-- The pages of the layout do not overlap. -/
theorem nodup_number (n : Nat) : ((extended n).map (number n)).Nodup := by
  have h : (extended n).map (number n) = List.range n ++
      (List.range 4).map (n + ·) ++ (List.range 3).map (n + 4 + ·) ++ [n + 8, n + 7] ++
      (List.range 4).map (n + 9 + ·) := by
    simp [extended, mapped, List.map_append, List.map_map, Function.comp_def, number,
      nDataPagesPerActor, nCodePagesPerActor]
  rw [h]
  simp only [List.nodup_append, List.mem_append, List.mem_map, List.mem_range, List.mem_cons,
    List.not_mem_nil, or_false, List.nodup_range]
  refine ⟨⟨⟨⟨trivial, ?_, ?_⟩, ?_, ?_⟩, ?_, ?_⟩, ?_, ?_⟩
  · exact List.Nodup.map (fun _ _ => Nat.add_left_cancel) List.nodup_range
  · rintro a ha _ ⟨b, hb, rfl⟩; omega
  · exact List.Nodup.map (fun _ _ => Nat.add_left_cancel) List.nodup_range
  · rintro a (ha | ⟨b, hb, rfl⟩) _ ⟨c, hc, rfl⟩ <;> omega
  · simp
  · rintro a ((ha | ⟨b, hb, rfl⟩) | ⟨b, hb, rfl⟩) c (rfl | rfl) <;> omega
  · exact List.Nodup.map (fun _ _ => Nat.add_left_cancel) List.nodup_range
  · rintro a (((ha | ⟨b, hb, rfl⟩) | ⟨b, hb, rfl⟩) | rfl | rfl) _ ⟨c, hc, rfl⟩ <;> omega

end GuestPage

theorem host_mem_hostPages {actor : Nat} {p : GuestPage} (ha : actor < cfg.nActors)
    (hp : p ∈ GuestPage.extended cfg.nUtilPages) : p.host actor ∈ hostPages cfg := by
  have hactor : ∀ q ∈ actorPages actor, q ∈ hostPages cfg := fun q hq =>
    List.mem_append_right _ (List.mem_flatMap.mpr ⟨actor, List.mem_range.mpr ha, hq⟩)
  simp only [GuestPage.extended, GuestPage.mapped, List.mem_append, List.mem_map, List.mem_range,
    List.mem_cons, List.not_mem_nil, or_false] at hp
  rcases hp with (((⟨i, hi, rfl⟩ | ⟨i, hi, rfl⟩) | ⟨i, hi, rfl⟩) | rfl | rfl) | ⟨i, hi, rfl⟩
  · exact List.mem_append_left _ (List.mem_append_left _ (List.mem_map_of_mem (List.mem_range.mpr hi)))
  · exact hactor _ (by simp [actorPages, GuestPage.host, hi])
  · exact hactor _ (by simp [actorPages, GuestPage.host, hi])
  · exact hactor _ (by simp [actorPages, GuestPage.host])
  · exact List.mem_append_left _ (List.mem_append_right _ (List.mem_singleton_self _))
  · exact hactor _ (by simp [actorPages, GuestPage.host, hi])

theorem ept_mem_hostPages {actor i : Nat} (ha : actor < cfg.nActors) (hi : i < 4) :
    HostPage.ept actor i ∈ hostPages cfg :=
  List.mem_append_right _ (List.mem_flatMap.mpr
    ⟨actor, List.mem_range.mpr ha, by simp [actorPages, hi]⟩)

theorem pageAt_vmallocToPhys (h : cfg.Ok) {p : HostPage} (hp : p ∈ hostPages cfg) :
    pageAt cfg (cfg.vmallocToPhys p) = some p := by
  unfold pageAt
  cases hfind : (hostPages cfg).find? fun q => cfg.vmallocToPhys q == cfg.vmallocToPhys p with
  | none => exact absurd (List.find?_eq_none.mp hfind p hp) (by simp)
  | some q =>
    have hq := List.find?_some hfind
    rw [h.injective q (List.mem_of_find?_eq_some hfind) p hp (beq_iff_eq.mp hq)]

/-- A page-aligned address comes back from the field of an entry. -/
theorem Config.Ok.frame_eq (h : cfg.Ok) {paddr : Nat} (halign : paddr % pageSize = 0)
    (hlt : paddr < 2 ^ cfg.physicalWidth) : cfg.frame paddr * pageSize = paddr := by
  have hwidth : 2 ^ (cfg.physicalWidth - 12) * 2 ^ 12 = 2 ^ cfg.physicalWidth := by
    rw [← Nat.pow_add, Nat.sub_add_cancel (by have := h.wide; omega)]
  have hfit : paddr / 2 ^ 12 < 2 ^ (cfg.physicalWidth - 12) :=
    Nat.div_lt_of_lt_mul (by rw [Nat.mul_comm, hwidth]; exact hlt)
  rw [Config.frame, Nat.mod_eq_of_lt hfit]
  exact Nat.div_mul_cancel (Nat.dvd_of_mod_eq_zero halign)

theorem Config.Ok.frame_phys (h : cfg.Ok) (p : HostPage) :
    cfg.frame (cfg.vmallocToPhys p) * pageSize = cfg.vmallocToPhys p :=
  h.frame_eq (h.aligned p) (h.bounded p)

theorem paddr_eq (p : GuestPage) (n : Nat) : p.paddr n = p.number n * pageSize := Nat.zero_add _

theorem vaddr_eq (p : GuestPage) (n : Nat) : p.vaddr n = p.number n * pageSize := Nat.zero_add _

/-- The layout lies in the memory of one table. -/
theorem Config.Ok.number_lt (h : cfg.Ok) {p : GuestPage}
    (hp : p ∈ GuestPage.extended cfg.nUtilPages) : p.number cfg.nUtilPages < entriesPerPage :=
  Nat.lt_of_lt_of_le (GuestPage.number_lt hp) h.small

theorem Config.Ok.paddr_lt (h : cfg.Ok) {p : GuestPage}
    (hp : p ∈ GuestPage.extended cfg.nUtilPages) : p.paddr cfg.nUtilPages < 2 ^ 21 := by
  have hnumber := h.number_lt hp
  rw [paddr_eq]
  simp only [entriesPerPage, pageSize] at *
  omega

theorem gpaOf_cases (cfg : Config) (p : GuestPage) :
    gpaOf cfg p = p.paddr cfg.nUtilPages ∨ ∃ q, gpaOf cfg p = cfg.vmallocToPhys q := by
  unfold gpaOf
  split
  · cases p
    case data i => exact .inr ⟨_, rfl⟩
    case code i => exact .inr ⟨_, rfl⟩
    all_goals exact .inl rfl
  · exact .inl rfl

theorem gpaOf_guestPageTables (cfg : Config) (i : Nat) :
    gpaOf cfg (.guestPageTables i) = (GuestPage.guestPageTables i).paddr cfg.nUtilPages := by
  unfold gpaOf
  split <;> rfl

theorem Config.Ok.gpaOf_aligned (h : cfg.Ok) (p : GuestPage) : gpaOf cfg p % pageSize = 0 := by
  rcases gpaOf_cases cfg p with heq | ⟨q, heq⟩
  · rw [heq, paddr_eq, Nat.mul_mod_left]
  · rw [heq]
    exact h.aligned q

theorem Config.Ok.gpaOf_lt (h : cfg.Ok) {p : GuestPage}
    (hp : p ∈ GuestPage.extended cfg.nUtilPages) : gpaOf cfg p < 2 ^ cfg.physicalWidth := by
  rcases gpaOf_cases cfg p with heq | ⟨q, heq⟩
  · rw [heq]
    exact Nat.lt_of_lt_of_le (h.paddr_lt hp) (Nat.pow_le_pow_right (by decide) h.wide)
  · rw [heq]
    exact h.bounded q

theorem Config.Ok.gpaOf_lt_48 (h : cfg.Ok) {p : GuestPage}
    (hp : p ∈ GuestPage.extended cfg.nUtilPages) : gpaOf cfg p < 2 ^ 48 := by
  rcases gpaOf_cases cfg p with heq | ⟨q, heq⟩
  · rw [heq]
    exact Nat.lt_trans (h.paddr_lt hp) (by decide)
  · rw [heq]
    exact h.narrow q

/-! ### Indices -/

/-- The indices of an address are those of the macros. -/
theorem tableIndices_four (a : Nat) : tableIndices entriesPerPage 4 (a / pageSize) =
    [pml4Index a, pdptIndex a, pdtIndex a, ptIndex a] := by
  simp only [tableIndices, entriesPerPage, pageSize, pml4Index, pdptIndex, pdtIndex, ptIndex,
    Nat.div_div_eq_div_mul, Nat.reducePow, Nat.reduceMul]

theorem ptIndex_vaddr {n : Nat} {p : GuestPage} (h : p.number n < entriesPerPage) :
    ptIndex (p.vaddr n) = p.number n := by
  have hdiv : p.number n * pageSize / 2 ^ 12 = p.number n := Nat.mul_div_cancel _ (by decide)
  rw [ptIndex, vaddr_eq, hdiv, Nat.mod_eq_of_lt h]

/-- The indices are those of the page of the address. -/
theorem index_page {a off : Nat} (halign : a % pageSize = 0) (hoff : off < pageSize) :
    (a + off) / pageSize = a / pageSize ∧ (a + off) % pageSize = off := by
  simp only [pageSize] at *
  omega

/-! ### What `set_guest_page_tables` leaves -/

/-- The tables of an actor whose first three levels are set, and the last one for the pages `l`. -/
structure PtSet (cfg : Config) (l : List GuestPage) (s : ActorTables) : Prop where
  l4 : s.pageTable.l4 = Function.update (fun _ => {}) 0
    (cfg.initPte ((GuestPage.guestPageTables 2).paddr cfg.nUtilPages) {})
  l3 : s.pageTable.l3 = Function.update (fun _ => {}) 0
    (cfg.initPte ((GuestPage.guestPageTables 1).paddr cfg.nUtilPages) {})
  l2 : s.pageTable.l2 = Function.update (fun _ => {}) 0
    (cfg.initPte ((GuestPage.guestPageTables 0).paddr cfg.nUtilPages) {})
  l1 : Claimed (fun _ => true) (fun e : Pte => !e.present)
    (fun p => ptIndex (p.vaddr cfg.nUtilPages))
    (fun p e => { cfg.initPte (gpaOf cfg p) e with dirty := true }) (fun _ => {}) l s.pageTable.l1
  ept : s.ept = {}
  gpa : ∀ p ∈ l, (s.translations p).gpa = gpaOf cfg p
  gpaTables : ∀ i < 4, (s.translations (.guestPageTables i)).gpa = gpaOf cfg (.guestPageTables i)

/-- The translation of a page does not change the guest-physical address of a table. -/
theorem ptSet_upperLevels (cfg : Config) : PtSet cfg [] (setUpperLevels cfg {}) where
  l4 := rfl
  l3 := rfl
  l2 := rfl
  l1 := Claimed.nil _ _ _ _ _
  ept := rfl
  gpa := by simp
  gpaTables := by
    intro i hi
    rw [gpaOf_guestPageTables]
    obtain rfl | rfl | rfl | rfl : i = 0 ∨ i = 1 ∨ i = 2 ∨ i = 3 := by omega
    all_goals rfl

/-- One page; its entry is free unless an earlier page has the same index. -/
theorem PtSet.step {l : List GuestPage} {s : ActorTables} {p : GuestPage} (h : PtSet cfg l s)
    (hp : ∀ i, p ≠ .guestPageTables i) :
    (∀ s', setLastPtLevel cfg s p (gpaOf cfg p) (p.vaddr cfg.nUtilPages) = .ok s' →
      PtSet cfg (l ++ [p]) s') ∧
    (ptIndex (p.vaddr cfg.nUtilPages) ∉ l.map (fun p => ptIndex (p.vaddr cfg.nUtilPages)) →
      ∃ s', setLastPtLevel cfg s p (gpaOf cfg p) (p.vaddr cfg.nUtilPages) = .ok s') := by
  constructor
  · intro s' hs'
    unfold setLastPtLevel at hs'
    split at hs'
    · cases hs'
    · rename_i hfree
      cases hs'
      refine ⟨h.l4, h.l3, h.l2, ?_, h.ept, ?_, ?_⟩
      · exact h.l1.snoc (fun _ _ _ _ => rfl) rfl (by simpa using hfree)
      · intro q hq
        by_cases hqp : q = p
        · rw [hqp]
          simp only [Function.update_self]
        · simp only [Function.update_of_ne hqp]
          exact h.gpa q ((List.mem_append.mp hq).resolve_right fun hmem =>
            hqp (List.mem_singleton.mp hmem))
      · intro i hi
        simp only [Function.update_of_ne (hp i).symm]
        exact h.gpaTables i hi
  · intro hnew
    have hfree : (s.pageTable.l1 (ptIndex (p.vaddr cfg.nUtilPages))).present = false := by
      rw [h.l1.others _ hnew]
    unfold setLastPtLevel
    rw [hfree]
    exact ⟨_, rfl⟩

theorem mapped_not_table {n : Nat} {p : GuestPage} (h : p ∈ GuestPage.mapped n) (i : Nat) :
    p ≠ .guestPageTables i := by
  rintro rfl
  simp [GuestPage.mapped] at h

/-- The guest page tables can always be set in zeroed tables. -/
theorem setGuestPageTable_ok (h : cfg.Ok) :
    ∃ s, setGuestPageTable cfg {} = .ok s ∧ PtSet cfg (GuestPage.mapped cfg.nUtilPages) s := by
  have hindex : ∀ p ∈ GuestPage.mapped cfg.nUtilPages,
      ptIndex (p.vaddr cfg.nUtilPages) = p.number cfg.nUtilPages := fun p hp =>
    ptIndex_vaddr (h.number_lt (GuestPage.mem_extended_of_mapped hp))
  have hnodup : ((GuestPage.mapped cfg.nUtilPages).map
      fun p => ptIndex (p.vaddr cfg.nUtilPages)).Nodup := by
    rw [List.map_congr_left hindex]
    exact (GuestPage.nodup_number cfg.nUtilPages).sublist
      ((List.sublist_append_left _ _).map _)
  have hends := foldlM_ends (R := fun _ (_ : Int) => False) (ptSet_upperLevels cfg)
    (l := GuestPage.mapped cfg.nUtilPages)
    (f := fun s p => setLastPtLevel cfg s p (gpaOf cfg p) (p.vaddr cfg.nUtilPages))
    fun q p s hq hs => by
      have hp := hq.subset (List.mem_append_right q (List.mem_singleton_self p))
      have hstep := hs.step (mapped_not_table hp)
      have hsub := hnodup.sublist (hq.sublist.map _)
      rw [List.map_append, List.map_singleton, List.nodup_append] at hsub
      obtain ⟨s', hs'⟩ := hstep.2 fun hmem => hsub.2.2 _ hmem _ (List.mem_singleton_self _) rfl
      rw [hs']
      exact hstep.1 s' hs'
  unfold setGuestPageTable
  revert hends
  cases (GuestPage.mapped cfg.nUtilPages).foldlM
    (fun s p => setLastPtLevel cfg s p (gpaOf cfg p) (p.vaddr cfg.nUtilPages))
    (setUpperLevels cfg {}) with
  | error e => exact fun ⟨_, _, hfalse⟩ => hfalse.elim
  | ok s => exact fun hs => ⟨s, rfl, hs⟩

/-! ### What `set_extended_page_tables` leaves -/

theorem initEpte_idem (cfg : Config) (paddr : Nat) (e : Epte) :
    cfg.initEpte paddr (cfg.initEpte paddr e) = cfg.initEpte paddr e := by
  unfold Config.initEpte
  cases cfg.vendor <;> rfl

@[simp] theorem lastLevel_paddr (cfg : Config) (e : Epte) : (cfg.lastLevel e).paddr = e.paddr := by
  unfold Config.lastLevel
  cases cfg.vendor <;> rfl

@[simp] theorem initEpte_paddr (cfg : Config) (paddr : Nat) (e : Epte) :
    (cfg.initEpte paddr e).paddr = cfg.frame paddr := by
  unfold Config.initEpte
  cases cfg.vendor <;> rfl

/-- The extended tables of an actor that are set for the pages `l`; `s₀` has its guest page
tables. -/
structure EptSet (cfg : Config) (actor : Nat) (s₀ : ActorTables) (l : List GuestPage)
    (s : ActorTables) : Prop where
  pageTable : s.pageTable = s₀.pageTable
  gpa : ∀ p, (s.translations p).gpa = (s₀.translations p).gpa
  l4 : Marked (cfg.initEpte (cfg.vmallocToPhys (.ept actor 2)))
    (fun p => pml4Index (gpaOf cfg p)) (fun _ => {}) l s.ept.l4
  l3 : Marked (cfg.initEpte (cfg.vmallocToPhys (.ept actor 1)))
    (fun p => pdptIndex (gpaOf cfg p)) (fun _ => {}) l s.ept.l3
  l2 : Marked (cfg.initEpte (cfg.vmallocToPhys (.ept actor 0)))
    (fun p => pdtIndex (gpaOf cfg p)) (fun _ => {}) l s.ept.l2
  l1 : Claimed (fun p => decide (cfg.vmallocToPhys (p.host actor) ≠ 0))
    (fun e : Epte => e.paddr == 0) (fun p => ptIndex (gpaOf cfg p))
    (fun p e => cfg.lastLevel (cfg.initEpte (cfg.vmallocToPhys (p.host actor)) e)) (fun _ => {}) l
    s.ept.l1

theorem EptSet.nil (cfg : Config) (actor : Nat) {s₀ : ActorTables} (hept : s₀.ept = {}) :
    EptSet cfg actor s₀ [] s₀ := by
  refine ⟨rfl, fun _ => rfl, ?_, ?_, ?_, ?_⟩ <;> rw [hept]
  · exact Marked.nil _ _ _
  · exact Marked.nil _ _ _
  · exact Marked.nil _ _ _
  · exact Claimed.nil _ _ _ _ _

/-- The write of a page makes its entry used. -/
theorem Config.Ok.entry_used (h : cfg.Ok) (hva : HostPage) (e : Epte)
    (hne : decide (cfg.vmallocToPhys hva ≠ 0) = true) :
    ((cfg.lastLevel (cfg.initEpte (cfg.vmallocToPhys hva) e)).paddr == 0) = false := by
  rw [lastLevel_paddr, initEpte_paddr, beq_eq_false_iff_ne]
  intro hzero
  have hphys := h.frame_phys hva
  rw [hzero, Nat.zero_mul] at hphys
  exact of_decide_eq_true hne hphys.symm

/-- The step of the loops for one page. -/
abbrev eptStep (cfg : Config) (actor : Nat) (s : ActorTables) (p : GuestPage) :
    Except Int ActorTables :=
  setEptEntry cfg s p (cfg.vmallocToPhys (.ept actor 2)) (cfg.vmallocToPhys (.ept actor 1))
    (cfg.vmallocToPhys (.ept actor 0)) (p.host actor)

theorem EptSet.step (hok : cfg.Ok) {actor : Nat} {s₀ s : ActorTables} {l : List GuestPage}
    {p : GuestPage} (h : EptSet cfg actor s₀ l s)
    (hgpa : (s₀.translations p).gpa = gpaOf cfg p) :
    (∀ s', eptStep cfg actor s p = .ok s' → EptSet cfg actor s₀ (l ++ [p]) s') ∧
    (ptIndex (gpaOf cfg p) ∉ l.map (fun p => ptIndex (gpaOf cfg p)) →
      cfg.vmallocToPhys (p.host actor) ≠ 0 → ∃ s', eptStep cfg actor s p = .ok s') := by
  have hgpa' : (s.translations p).gpa = gpaOf cfg p := (h.gpa p).trans hgpa
  constructor
  · intro s' hs'
    simp only [eptStep, setEptEntry, hgpa'] at hs'
    split at hs'
    · cases hs'
    · rename_i hfree
      split at hs'
      · cases hs'
      · rename_i hne
        cases hs'
        refine ⟨h.pageTable, ?_, ?_, ?_, ?_, ?_⟩
        · intro q
          by_cases hqp : q = p
          · rw [hqp]
            simp only [Function.update_self]
            exact hgpa.symm
          · simp only [Function.update_of_ne hqp]
            exact h.gpa q
        · exact h.l4.snoc (initEpte_idem cfg _)
        · exact h.l3.snoc (initEpte_idem cfg _)
        · exact h.l2.snoc (initEpte_idem cfg _)
        · have hl1 := h.l1.snoc (a := p) (fun q e hq _ => hok.entry_used (q.host actor) e hq)
            (decide_eq_true hne) (beq_iff_eq.mpr (not_not.mp hfree))
          simp only [writeEpte, Function.update_idem, Function.update_self]
          exact hl1
  · intro hnew hne
    have hfree : (s.ept.l1 (ptIndex (gpaOf cfg p))).paddr = 0 := by
      rw [h.l1.others _ hnew]
    simp only [eptStep, setEptEntry, hgpa', hfree, ne_eq, not_true_eq_false, if_false, hne]
    exact ⟨_, rfl⟩

theorem setExtendedPageTable_ok (hok : cfg.Ok) {actor : Nat} {s₀ s : ActorTables}
    (hept : s₀.ept = {})
    (hgpa : ∀ p ∈ GuestPage.extended cfg.nUtilPages, (s₀.translations p).gpa = gpaOf cfg p)
    (h : setExtendedPageTable cfg actor s₀ = .ok s) :
    EptSet cfg actor s₀ (GuestPage.extended cfg.nUtilPages) s := by
  refine foldlM_prefix (f := eptStep cfg actor) (I := fun l s => EptSet cfg actor s₀ l s)
    (EptSet.nil cfg actor hept) ?_ h
  intro q p c c' hq hc hstep
  have hp := hq.subset (List.mem_append_right q (List.mem_singleton_self p))
  exact (hc.step hok (hgpa p hp)).1 c' hstep

/-- The extended tables can be set exactly if the last indices of the guest-physical pages are
different. -/
theorem setExtendedPageTable_ok_iff (hok : cfg.Ok) {actor : Nat} (ha : actor < cfg.nActors)
    {s₀ : ActorTables} (hept : s₀.ept = {})
    (hgpa : ∀ p ∈ GuestPage.extended cfg.nUtilPages, (s₀.translations p).gpa = gpaOf cfg p) :
    (∃ s, setExtendedPageTable cfg actor s₀ = .ok s) ↔
      ((GuestPage.extended cfg.nUtilPages).map fun p => ptIndex (gpaOf cfg p)).Nodup := by
  constructor
  · rintro ⟨s, hs⟩
    exact (setExtendedPageTable_ok hok hept hgpa hs).l1.nodup
  · intro hnodup
    have hends := foldlM_ends (R := fun _ (_ : Int) => False) (EptSet.nil cfg actor hept)
      (l := GuestPage.extended cfg.nUtilPages) (f := eptStep cfg actor) fun q p s hq hs => by
        have hp := hq.subset (List.mem_append_right q (List.mem_singleton_self p))
        have hstep := hs.step hok (hgpa p hp)
        have hsub := hnodup.sublist (hq.sublist.map _)
        rw [List.map_append, List.map_singleton, List.nodup_append] at hsub
        obtain ⟨s', hs'⟩ := hstep.2
          (fun hmem => hsub.2.2 _ hmem _ (List.mem_singleton_self _) rfl)
          (hok.nonzero _ (host_mem_hostPages ha hp))
        rw [hs']
        exact hstep.1 s' hs'
    change ∃ s, (GuestPage.extended cfg.nUtilPages).foldlM (eptStep cfg actor) s₀ = .ok s
    revert hends
    cases (GuestPage.extended cfg.nUtilPages).foldlM (eptStep cfg actor) s₀ with
    | error e => exact fun ⟨_, _, hfalse⟩ => hfalse.elim
    | ok s => exact fun _ => ⟨s, rfl⟩

/-! ### The set-up -/

theorem PtSet.gpa_extended {s : ActorTables} (h : PtSet cfg (GuestPage.mapped cfg.nUtilPages) s)
    {p : GuestPage} (hp : p ∈ GuestPage.extended cfg.nUtilPages) :
    (s.translations p).gpa = gpaOf cfg p := by
  rcases List.mem_append.mp hp with hp | hp
  · exact h.gpa p hp
  · obtain ⟨i, hi, rfl⟩ := List.mem_map.mp hp
    exact h.gpaTables i (List.mem_range.mp hi)

/-- The guests of the test case. -/
def Config.Guest (cfg : Config) (actor : Nat) : Prop := actor < cfg.nActors ∧ cfg.isGuest actor = true

theorem guest_mem {actor : Nat} :
    actor ∈ (List.range cfg.nActors).filter cfg.isGuest ↔ cfg.Guest actor := by
  rw [List.mem_filter, List.mem_range]
  rfl

theorem nodup_guests (cfg : Config) : ((List.range cfg.nActors).filter cfg.isGuest).Nodup :=
  List.nodup_range.filter _

/-- Both tables of a guest are set. -/
def ActorReady (cfg : Config) (actor : Nat) (s : ActorTables) : Prop :=
  ∃ s₀, PtSet cfg (GuestPage.mapped cfg.nUtilPages) s₀ ∧
    EptSet cfg actor s₀ (GuestPage.extended cfg.nUtilPages) s

/-- What the set-up leaves. -/
structure Ready (cfg : Config) (s : State) : Prop where
  actor : ∀ a, cfg.Guest a → ActorReady cfg a (s.actors a)
  eptp : ∀ a < cfg.nActors, s.eptPtr[a]? = some (eptpOf cfg a)

theorem checkErr_ok_iff {α : Type} {x : Except Int α} {a : α} :
    checkErr x = .ok a ↔ x = .ok a := by
  cases x <;> simp [checkErr, Except.mapError]

theorem checkedAlloc_ok_iff {l : List Allocation} :
    checkedAlloc cfg l = .ok () ↔ ∀ x ∈ l, cfg.granted x = true := by
  rw [checkedAlloc, ← List.all_eq_true]
  split <;> simp_all

/-- The allocations that `allocate_guest_page_tables`, `set_guest_page_tables` and
`map_sandbox_to_guest_memory` ask for. -/
def tableAllocations (cfg : Config) (s : State) : List Allocation :=
  if cfg.nActors ≤ s.oldNActors then []
  else [.pageTables, .extendedPageTables, .guestGdts, .translations, .vmlaunchPage, .faultyPtes,
    .faultyEptes]

def faultyAllocations (cfg : Config) (s : State) : List Allocation :=
  if s.guestPtOldNActors < cfg.nActors then [.moreFaultyPtes, .moreFaultyEptes] else []

def mapAllocations (cfg : Config) (s : State) : List Allocation :=
  faultyAllocations cfg s ++ [.eptPtr]

/-- `set_guest_page_tables` from zeroed tables: all guests get theirs. -/
theorem setGuestPageTables_ok_iff (h : cfg.Ok) {s : State}
    (hzero : ∀ a < cfg.nActors, s.actors a = {}) :
    (∃ s', setGuestPageTables cfg s = .ok s') ↔
      ∀ x ∈ faultyAllocations cfg s, cfg.granted x = true := by
  obtain ⟨s₀, hs₀, hset⟩ := setGuestPageTable_ok h
  have hround : ∀ a, cfg.Guest a → setGuestPageTable cfg (s.actors a) = .ok s₀ := fun a ha => by
    rw [hzero a ha.1, hs₀]
  obtain ⟨t, ht⟩ := (foldlM_update_ok_iff (f := fun _ => setGuestPageTable cfg) (t := s.actors)
    (nodup_guests cfg)).mpr fun a ha => ⟨s₀, hround a (guest_mem.mp ha)⟩
  have htables : forGuests cfg (fun _ => setGuestPageTable cfg) s.actors = .ok t := ht
  rw [setGuestPageTables, htables, ← checkedAlloc_ok_iff]
  change (∃ s', checkedAlloc cfg (faultyAllocations cfg s) >>= _ = .ok s') ↔ _
  cases checkedAlloc cfg (faultyAllocations cfg s) with
  | error e => exact iff_of_false (fun ⟨_, hs⟩ => by cases hs) fun hs => by cases hs
  | ok u => exact iff_of_true ⟨_, rfl⟩ rfl

theorem setGuestPageTables_ok (h : cfg.Ok) {s s' : State}
    (hzero : ∀ a < cfg.nActors, s.actors a = {}) (hs : setGuestPageTables cfg s = .ok s') :
    s'.guestPtIsSet = true ∧ ∀ a, cfg.Guest a →
      PtSet cfg (GuestPage.mapped cfg.nUtilPages) (s'.actors a) := by
  obtain ⟨s₀, hs₀, hset⟩ := setGuestPageTable_ok h
  obtain ⟨_, -, hs⟩ := except_bind_ok hs
  obtain ⟨t, ht, hs⟩ := except_bind_ok hs
  cases hs
  refine ⟨rfl, fun a ha => ?_⟩
  have hdone := (foldlM_update_ok (nodup_guests cfg) ht).1 a (guest_mem.mpr ha)
  rw [hzero a ha.1, hs₀] at hdone
  have heq : s₀ = t a := Except.ok.inj hdone
  change PtSet cfg _ (t a)
  rwa [← heq]

theorem setExtendedPageTables_ok_iff {s s' : State} (hflag : s.guestPtIsSet = true) :
    setExtendedPageTables cfg s = .ok s' ↔
      ∃ t, forGuests cfg (setExtendedPageTable cfg) s.actors = .ok t ∧
        s' = { s with actors := t, eptIsSet := true } := by
  have hnot : ¬ (!s.guestPtIsSet) = true := by rw [hflag]; decide
  rw [setExtendedPageTables, if_neg hnot]
  cases forGuests cfg (setExtendedPageTable cfg) s.actors with
  | error e => simp [Except.map]
  | ok t => simp [Except.map, eq_comm]

theorem updateEptp_ok_iff {s s' : State} (hflag : s.eptIsSet = true) :
    updateEptp cfg s = .ok s' ↔ cfg.granted .eptPtr = true ∧
      s' = { s with eptPtr := (List.range cfg.nActors).map (eptpOf cfg) } := by
  have hnot : ¬ (!s.eptIsSet) = true := by rw [hflag]; decide
  rw [updateEptp, if_neg hnot, checkedAlloc]
  cases hptr : cfg.granted .eptPtr
  · simp [hptr, Except.map]
  · simp [hptr, Except.map, eq_comm]

theorem mapSandboxToGuestMemory_split {s s' : State}
    (hs : mapSandboxToGuestMemory cfg s = .ok s') : ∃ s₁ s₂,
      setGuestPageTables cfg s = .ok s₁ ∧ setExtendedPageTables cfg s₁ = .ok s₂ ∧
        updateEptp cfg s₂ = .ok s' := by
  obtain ⟨s₁, hs₁, hs⟩ := except_bind_ok hs
  obtain ⟨s₂, hs₂, hs⟩ := except_bind_ok hs
  exact ⟨s₁, s₂, checkErr_ok_iff.mp hs₁, checkErr_ok_iff.mp hs₂, checkErr_ok_iff.mp hs⟩

/-- From zeroed tables, the mapping succeeds if its allocations are granted, and no two
guest-physical pages share the last index or there is no guest. -/
theorem mapSandboxToGuestMemory_ok_iff (h : cfg.Ok) {s : State}
    (hzero : ∀ a < cfg.nActors, s.actors a = {}) :
    (∃ s', mapSandboxToGuestMemory cfg s = .ok s') ↔
      (∀ x ∈ mapAllocations cfg s, cfg.granted x = true) ∧ ∀ a, cfg.Guest a →
        ((GuestPage.extended cfg.nUtilPages).map fun p => ptIndex (gpaOf cfg p)).Nodup := by
  have hept : ∀ s₁, setGuestPageTables cfg s = .ok s₁ →
      ((∃ t, forGuests cfg (setExtendedPageTable cfg) s₁.actors = .ok t) ↔
        ∀ a, cfg.Guest a →
          ((GuestPage.extended cfg.nUtilPages).map fun p => ptIndex (gpaOf cfg p)).Nodup) := by
    intro s₁ hs₁
    have hset := (setGuestPageTables_ok h hzero hs₁).2
    refine (foldlM_update_ok_iff (nodup_guests cfg)).trans (forall_congr' fun a => ?_)
    rw [guest_mem]
    refine imp_congr_right fun ha => ?_
    exact setExtendedPageTable_ok_iff h ha.1 (hset a ha).ept fun p hp => (hset a ha).gpa_extended hp
  rw [mapAllocations, List.forall_mem_append, List.forall_mem_singleton]
  constructor
  · rintro ⟨s', hs'⟩
    obtain ⟨s₁, s₂, hs₁, hs₂, hs'⟩ := mapSandboxToGuestMemory_split hs'
    have hflag := (setGuestPageTables_ok h hzero hs₁).1
    obtain ⟨t, ht, rfl⟩ := (setExtendedPageTables_ok_iff hflag).mp hs₂
    exact ⟨⟨(setGuestPageTables_ok_iff h hzero).mp ⟨s₁, hs₁⟩, ((updateEptp_ok_iff rfl).mp hs').1⟩,
      (hept s₁ hs₁).mp ⟨t, ht⟩⟩
  · rintro ⟨⟨hmore, hptr⟩, hnodup⟩
    obtain ⟨s₁, hs₁⟩ := (setGuestPageTables_ok_iff h hzero).mpr hmore
    have hflag := (setGuestPageTables_ok h hzero hs₁).1
    obtain ⟨t, ht⟩ := (hept s₁ hs₁).mpr hnodup
    have hs₂ := (setExtendedPageTables_ok_iff hflag).mpr ⟨t, ht, rfl⟩
    have hs₃ : updateEptp cfg { s₁ with actors := t, eptIsSet := true } = .ok _ :=
      (updateEptp_ok_iff rfl).mpr ⟨hptr, rfl⟩
    rw [mapSandboxToGuestMemory, checkErr_ok_iff.mpr hs₁]
    change ∃ s', checkErr (setExtendedPageTables cfg s₁) >>= _ = .ok s'
    rw [checkErr_ok_iff.mpr hs₂]
    exact ⟨_, checkErr_ok_iff.mpr hs₃⟩

theorem mapSandboxToGuestMemory_ok (h : cfg.Ok) {s s' : State}
    (hzero : ∀ a < cfg.nActors, s.actors a = {}) (hs : mapSandboxToGuestMemory cfg s = .ok s') :
    Ready cfg s' := by
  obtain ⟨s₁, s₂, hs₁, hs₂, hs'⟩ := mapSandboxToGuestMemory_split hs
  obtain ⟨hflag, hset⟩ := setGuestPageTables_ok h hzero hs₁
  obtain ⟨t, ht, rfl⟩ := (setExtendedPageTables_ok_iff hflag).mp hs₂
  obtain ⟨-, rfl⟩ := (updateEptp_ok_iff rfl).mp hs'
  refine ⟨fun a ha => ?_, fun a ha => ?_⟩
  · have hdone := (foldlM_update_ok (nodup_guests cfg) ht).1 a (guest_mem.mpr ha)
    exact ⟨s₁.actors a, hset a ha, setExtendedPageTable_ok h (hset a ha).ept
      (fun p hp => (hset a ha).gpa_extended hp) hdone⟩
  · rw [List.getElem?_map, List.getElem?_range ha, Option.map_some]

/-- `allocate_guest_page_tables`: the tables of the actors are zeroed when they are mapped. -/
theorem allocateGuestPageTables_ok_iff {s : State} :
    (∃ s', allocateGuestPageTables cfg s = .ok s') ↔
      cfg.nActors < 64 ∧ ∀ x ∈ tableAllocations cfg s, cfg.granted x = true := by
  rw [allocateGuestPageTables, tableAllocations]
  by_cases hmany : 64 ≤ cfg.nActors
  · rw [if_pos hmany]
    exact iff_of_false (fun ⟨_, hs⟩ => by cases hs) fun hall => Nat.not_le.mpr hall.1 hmany
  · rw [if_neg hmany]
    by_cases hold : cfg.nActors ≤ s.oldNActors
    · rw [if_pos hold, if_pos hold]
      exact iff_of_true ⟨_, rfl⟩ ⟨Nat.not_le.mp hmany, by simp⟩
    · rw [if_neg hold, if_neg hold, ← checkedAlloc_ok_iff, and_iff_right (Nat.not_le.mp hmany)]
      cases checkedAlloc cfg [.pageTables, .extendedPageTables, .guestGdts, .translations,
        .vmlaunchPage, .faultyPtes, .faultyEptes] <;> simp [Except.map]

theorem allocateGuestPageTables_ok {s s' : State} (h : allocateGuestPageTables cfg s = .ok s') :
    (∀ a < cfg.nActors, s'.actors a = {}) ∧ s'.guestPtOldNActors = s.guestPtOldNActors := by
  unfold allocateGuestPageTables at h
  split at h
  · cases h
  · split at h
    · cases h
      exact ⟨fun a ha => if_pos ha, rfl⟩
    · cases halloc : checkedAlloc cfg [.pageTables, .extendedPageTables, .guestGdts, .translations,
        .vmlaunchPage, .faultyPtes, .faultyEptes] with
      | error e => rw [halloc] at h; cases h
      | ok _ =>
        rw [halloc] at h
        cases h
        exact ⟨fun a ha => if_pos ha, rfl⟩

theorem setUpGuests_ready (h : cfg.Ok) {s s' : State} (hs : setUpGuests cfg s = .ok s') :
    Ready cfg s' := by
  obtain ⟨s₁, hs₁, hmap⟩ := except_bind_ok hs
  exact mapSandboxToGuestMemory_ok h (allocateGuestPageTables_ok (checkErr_ok_iff.mp hs₁)).1
    (checkErr_ok_iff.mp hmap)

/-! ### A test case with two guests -/

/-- The pages of the main actor and two guests. -/
def samplePages : List HostPage :=
  (List.range 9).map .util ++ [.vmlaunchPage] ++ (List.range 3).flatMap actorPages

/-- Pages in a row of frames, and collisions. -/
def sampleConfig : Config where
  nActors := 3
  isGuest actor := actor != 0
  enableHpaGpaCollisions := true
  nUtilPages := 9
  vendor := .intel
  physicalWidth := 46
  vmallocToPhys p := if p ∈ samplePages then (samplePages.idxOf p + 100) * pageSize else 0
  granted _ := true

def sampleState : State where
  actors _ := {}
  eptPtr := []
  guestPtIsSet := false
  eptIsSet := false
  oldNActors := 0
  guestPtOldNActors := 0

theorem sampleConfig_phys {p : HostPage} (hp : p ∈ samplePages) :
    sampleConfig.vmallocToPhys p = (samplePages.idxOf p + 100) * pageSize := if_pos hp

theorem sampleConfig_ok : sampleConfig.Ok where
  wide := by decide
  narrow p := by
    by_cases hp : p ∈ samplePages
    · have hlt : samplePages.idxOf p < 58 := List.idxOf_lt_length_iff.mpr hp
      rw [sampleConfig_phys hp, pageSize]
      omega
    · have hzero : sampleConfig.vmallocToPhys p = 0 := if_neg hp
      rw [hzero]
      exact Nat.two_pow_pos _
  small := by decide
  aligned p := by
    by_cases hp : p ∈ samplePages
    · rw [sampleConfig_phys hp, Nat.mul_mod_left]
    · have hzero : sampleConfig.vmallocToPhys p = 0 := if_neg hp
      rw [hzero]
      rfl
  bounded p := by
    by_cases hp : p ∈ samplePages
    · have hlt : samplePages.idxOf p < 58 := List.idxOf_lt_length_iff.mpr hp
      rw [sampleConfig_phys hp]
      simp only [sampleConfig, pageSize]
      omega
    · have hzero : sampleConfig.vmallocToPhys p = 0 := if_neg hp
      rw [hzero]
      exact Nat.two_pow_pos _
  nonzero p hp := by
    rw [sampleConfig_phys hp, pageSize]
    omega
  injective p hp q hq heq := by
    change p ∈ samplePages at hp
    rw [sampleConfig_phys hp, sampleConfig_phys hq, pageSize] at heq
    exact (List.idxOf_inj hp).mp (by omega)

theorem sampleConfig_nodup :
    ((GuestPage.extended sampleConfig.nUtilPages).map fun p =>
      ptIndex (gpaOf sampleConfig p)).Nodup := by decide +kernel

/-! ### When the set-up succeeds -/

/-- Without collisions, the guest-physical pages are in order. -/
theorem nodup_gpaOf (h : cfg.Ok) (hoff : cfg.enableHpaGpaCollisions = false) :
    ((GuestPage.extended cfg.nUtilPages).map fun p => ptIndex (gpaOf cfg p)).Nodup := by
  have hindex : ∀ p ∈ GuestPage.extended cfg.nUtilPages,
      ptIndex (gpaOf cfg p) = p.number cfg.nUtilPages := by
    intro p hp
    have hgpa : gpaOf cfg p = p.vaddr cfg.nUtilPages := by
      unfold gpaOf
      rw [hoff]
      rfl
    rw [hgpa]
    exact ptIndex_vaddr (h.number_lt hp)
  rw [List.map_congr_left hindex]
  exact GuestPage.nodup_number cfg.nUtilPages

/-- Setting up the guests succeeds for fewer than 64 actors, if the allocations that it asks for are
granted, and there is no guest or no two guest-physical pages have the same last index; they never
have without collisions. -/
theorem setUpGuests_ok_iff (h : cfg.Ok) (st : State) :
    ((∃ s, setUpGuests cfg st = .ok s) ↔ cfg.nActors < 64 ∧
      (∀ x ∈ tableAllocations cfg st ++ mapAllocations cfg st, cfg.granted x = true) ∧
      ∀ a, cfg.Guest a →
        ((GuestPage.extended cfg.nUtilPages).map fun p => ptIndex (gpaOf cfg p)).Nodup) ∧
    (cfg.enableHpaGpaCollisions = false → cfg.nActors < 64 →
      (∀ x ∈ tableAllocations cfg st ++ mapAllocations cfg st, cfg.granted x = true) →
      ∃ s, setUpGuests cfg st = .ok s) := by
  have hiff : (∃ s, setUpGuests cfg st = .ok s) ↔ cfg.nActors < 64 ∧
      (∀ x ∈ tableAllocations cfg st ++ mapAllocations cfg st, cfg.granted x = true) ∧
      ∀ a, cfg.Guest a →
        ((GuestPage.extended cfg.nUtilPages).map fun p => ptIndex (gpaOf cfg p)).Nodup := by
    rw [List.forall_mem_append]
    constructor
    · rintro ⟨s, hs⟩
      obtain ⟨s₁, hs₁, hmap⟩ := except_bind_ok hs
      rw [checkErr_ok_iff] at hs₁ hmap
      obtain ⟨hfew, htables⟩ := allocateGuestPageTables_ok_iff.mp ⟨s₁, hs₁⟩
      obtain ⟨hzero, hold⟩ := allocateGuestPageTables_ok hs₁
      obtain ⟨hgranted, hnodup⟩ := (mapSandboxToGuestMemory_ok_iff h hzero).mp ⟨s, hmap⟩
      rw [mapAllocations, faultyAllocations, hold] at hgranted
      exact ⟨hfew, ⟨htables, hgranted⟩, hnodup⟩
    · rintro ⟨hfew, ⟨htables, hgranted⟩, hnodup⟩
      obtain ⟨s₁, hs₁⟩ := allocateGuestPageTables_ok_iff.mpr ⟨hfew, htables⟩
      obtain ⟨hzero, hold⟩ := allocateGuestPageTables_ok hs₁
      rw [mapAllocations, faultyAllocations, ← hold] at hgranted
      obtain ⟨s, hs⟩ := (mapSandboxToGuestMemory_ok_iff h hzero).mpr ⟨hgranted, hnodup⟩
      rw [setUpGuests, checkErr_ok_iff.mpr hs₁]
      exact ⟨s, checkErr_ok_iff.mpr hs⟩
  exact ⟨hiff, fun hoff hfew hgranted => hiff.mpr ⟨hfew, hgranted, fun _ _ => nodup_gpaOf h hoff⟩⟩

/-- A machine that refuses the pointers to the extended tables. -/
def refusingConfig : Config := { sampleConfig with granted := fun x => x != .eptPtr }

theorem setUpGuests_ok_iff_sample :
    (∃ s, setUpGuests sampleConfig sampleState = .ok s) ∧
      ¬ ∃ s, setUpGuests refusingConfig sampleState = .ok s := by
  constructor
  · exact (setUpGuests_ok_iff sampleConfig_ok sampleState).1.mpr
      ⟨by decide, fun _ _ => rfl, fun _ _ => sampleConfig_nodup⟩
  · intro hok
    have hrefusing : refusingConfig.Ok := ⟨sampleConfig_ok.wide, sampleConfig_ok.narrow,
      sampleConfig_ok.small, sampleConfig_ok.aligned, sampleConfig_ok.bounded,
      sampleConfig_ok.nonzero, sampleConfig_ok.injective⟩
    have hgranted := ((setUpGuests_ok_iff hrefusing sampleState).1.mp hok).2.1 .eptPtr (by decide)
    exact absurd hgranted (by decide)

theorem sample_setUp : ∃ s, setUpGuests sampleConfig sampleState = .ok s := by
  obtain ⟨s₁, hs₁⟩ := allocateGuestPageTables_ok_iff.mpr
    (show sampleConfig.nActors < 64 ∧ ∀ x ∈ tableAllocations sampleConfig sampleState,
      sampleConfig.granted x = true from ⟨by decide, fun _ _ => rfl⟩)
  obtain ⟨s, hs⟩ := (mapSandboxToGuestMemory_ok_iff sampleConfig_ok
    (allocateGuestPageTables_ok hs₁).1).mpr ⟨fun _ _ => rfl, fun _ _ => sampleConfig_nodup⟩
  rw [setUpGuests, checkErr_ok_iff.mpr hs₁]
  exact ⟨s, checkErr_ok_iff.mpr hs⟩

/-! ### Through the extended tables -/

theorem eptTarget_initEpte (h : cfg.Ok) (p : HostPage) (e : Epte) :
    cfg.eptTarget (cfg.initEpte (cfg.vmallocToPhys p) e) = some (cfg.vmallocToPhys p) := by
  have hpresent : cfg.epteIsPresent (cfg.initEpte (cfg.vmallocToPhys p) e) = true := by
    unfold Config.epteIsPresent Config.initEpte
    cases cfg.vendor <;> rfl
  rw [Config.eptTarget, if_pos hpresent, initEpte_paddr, h.frame_phys]

theorem eptTarget_lastLevel (e : Epte) : cfg.eptTarget (cfg.lastLevel e) = cfg.eptTarget e := by
  unfold Config.eptTarget Config.epteIsPresent Config.lastLevel
  cases cfg.vendor <;> rfl

theorem eptTarget_zero : cfg.eptTarget {} = none := by
  unfold Config.eptTarget Config.epteIsPresent
  cases cfg.vendor <;> rfl

/-- An upper level leads to the next table at the indices in use. -/
theorem eptTarget_marked (h : cfg.Ok) {key : GuestPage → Nat} {l : List GuestPage}
    {p : HostPage} {t : Nat → Epte}
    (ht : Marked (cfg.initEpte (cfg.vmallocToPhys p)) key (fun _ => {}) l t) (i : Nat) :
    cfg.eptTarget (t i) = if i ∈ l.map key then some (cfg.vmallocToPhys p) else none := by
  rw [ht i]
  split
  · exact eptTarget_initEpte h p _
  · exact eptTarget_zero

/-- The last level leads to the page with the index. -/
theorem EptSet.target_l1 (h : cfg.Ok) {actor : Nat} {s₀ s : ActorTables} {l : List GuestPage}
    (hs : EptSet cfg actor s₀ l s) (i : Nat) :
    cfg.eptTarget (s.ept.l1 i) = (l.find? fun p => ptIndex (gpaOf cfg p) == i).map
      fun p => cfg.vmallocToPhys (p.host actor) := by
  cases hfind : l.find? fun p => ptIndex (gpaOf cfg p) == i with
  | none =>
    have hother : i ∉ l.map fun p => ptIndex (gpaOf cfg p) := by
      intro hmem
      obtain ⟨p, hp, heq⟩ := List.mem_map.mp hmem
      exact List.find?_eq_none.mp hfind p hp (beq_iff_eq.mpr heq)
    rw [hs.l1.others i hother]
    exact eptTarget_zero
  | some p =>
    have hp := List.mem_of_find?_eq_some hfind
    have hi := List.find?_some hfind
    rw [beq_iff_eq] at hi
    rw [← hi, hs.l1.written p hp, eptTarget_lastLevel, eptTarget_initEpte h]
    rfl

theorem eptNext_ept (h : cfg.Ok) {s : State} {actor level : Nat} (ha : actor < cfg.nActors)
    (hlevel : level < 4) (i : Nat) : eptNext cfg s (cfg.vmallocToPhys (.ept actor level)) i =
      cfg.eptTarget ((s.actors actor).ept.table level i) := by
  rw [eptNext, pageAt_vmallocToPhys h (ept_mem_hostPages ha hlevel)]

/-- The page of the layout that a guest-physical address leads to: the upper indices are in use,
and the last one says which page it is. -/
def pageOfGpa (cfg : Config) (gpa : Nat) : Option GuestPage :=
  let pages := GuestPage.extended cfg.nUtilPages
  if pml4Index gpa ∈ pages.map (fun p => pml4Index (gpaOf cfg p)) ∧
      pdptIndex gpa ∈ pages.map (fun p => pdptIndex (gpaOf cfg p)) ∧
      pdtIndex gpa ∈ pages.map (fun p => pdtIndex (gpaOf cfg p)) then
    pages.find? fun p => ptIndex (gpaOf cfg p) == ptIndex gpa
  else none

/-- The second translation of a guest, of any guest-physical address. -/
theorem eptTranslate_eq (h : cfg.Ok) {s : State} (hs : Ready cfg s) {actor : Nat}
    (ha : cfg.Guest actor) {gpa : Nat} (hgpa : gpa < 2 ^ 48) :
    eptTranslate cfg s (eptpOf cfg actor) gpa = (pageOfGpa cfg gpa).map
      fun p => cfg.vmallocToPhys (p.host actor) + gpa % pageSize := by
  obtain ⟨s₀, -, hept⟩ := hs.actor actor ha
  have hroot : (eptpOf cfg actor).paddr * pageSize = cfg.vmallocToPhys (.ept actor 3) :=
    h.frame_phys _
  have h4 := fun i => (eptNext_ept h ha.1 (by decide : 3 < 4) i).trans
    (eptTarget_marked h hept.l4 i)
  have h3 := fun i => (eptNext_ept h ha.1 (by decide : 2 < 4) i).trans
    (eptTarget_marked h hept.l3 i)
  have h2 := fun i => (eptNext_ept h ha.1 (by decide : 1 < 4) i).trans
    (eptTarget_marked h hept.l2 i)
  have h1 := fun i => (eptNext_ept h ha.1 (by decide : 0 < 4) i).trans (hept.target_l1 h i)
  rw [eptTranslate, if_pos hgpa, hroot]
  change (tableWalk _ _ (tableIndices entriesPerPage 4 (gpa / pageSize))).map _ = _
  rw [tableIndices_four, tableWalk, h4, pageOfGpa]
  by_cases hi4 : pml4Index gpa ∈ (GuestPage.extended cfg.nUtilPages).map
      fun p => pml4Index (gpaOf cfg p)
  · rw [if_pos hi4, Option.bind_some, tableWalk, h3]
    by_cases hi3 : pdptIndex gpa ∈ (GuestPage.extended cfg.nUtilPages).map
        fun p => pdptIndex (gpaOf cfg p)
    · rw [if_pos hi3, Option.bind_some, tableWalk, h2]
      by_cases hi2 : pdtIndex gpa ∈ (GuestPage.extended cfg.nUtilPages).map
          fun p => pdtIndex (gpaOf cfg p)
      · rw [if_pos hi2, Option.bind_some, tableWalk, h1, if_pos ⟨hi4, hi3, hi2⟩]
        cases (GuestPage.extended cfg.nUtilPages).find?
          fun p => ptIndex (gpaOf cfg p) == ptIndex gpa <;> rfl
      · rw [if_neg hi2, if_neg fun hall => hi2 hall.2.2]
        rfl
    · rw [if_neg hi3, if_neg fun hall => hi3 hall.2.1]
      rfl
  · rw [if_neg hi4, if_neg fun hall => hi4 hall.1]
    rfl

/-- The indices of an address are those of its page. -/
theorem indices_page {a off : Nat} (halign : a % pageSize = 0) (hoff : off < pageSize) :
    pml4Index (a + off) = pml4Index a ∧ pdptIndex (a + off) = pdptIndex a ∧
      pdtIndex (a + off) = pdtIndex a ∧ ptIndex (a + off) = ptIndex a := by
  have h := tableIndices_four (a + off)
  rw [(index_page halign hoff).1, tableIndices_four a] at h
  simp only [List.cons.injEq, and_true] at h
  exact ⟨h.1.symm, h.2.1.symm, h.2.2.1.symm, h.2.2.2.symm⟩

theorem find?_of_nodup {α κ : Type} [DecidableEq κ] {key : α → κ} {l : List α}
    (hl : (l.map key).Nodup) {a : α} (ha : a ∈ l) : (l.find? fun b => key b == key a) = some a := by
  cases hfind : l.find? fun b => key b == key a with
  | none => exact absurd (List.find?_eq_none.mp hfind a ha) (by simp)
  | some b =>
    have hb := List.find?_some hfind
    rw [beq_iff_eq] at hb
    rw [List.inj_on_of_nodup_map hl (List.mem_of_find?_eq_some hfind) ha hb]

/-- A guest-physical page of the layout leads to itself. -/
theorem pageOfGpa_gpaOf (h : cfg.Ok)
    (hnodup : ((GuestPage.extended cfg.nUtilPages).map fun p => ptIndex (gpaOf cfg p)).Nodup)
    {p : GuestPage} (hp : p ∈ GuestPage.extended cfg.nUtilPages) {off : Nat} (hoff : off < pageSize) :
    pageOfGpa cfg (gpaOf cfg p + off) = some p := by
  obtain ⟨h4, h3, h2, h1⟩ := indices_page (h.gpaOf_aligned p) hoff
  rw [pageOfGpa, h4, h3, h2, h1, if_pos ⟨List.mem_map_of_mem hp, List.mem_map_of_mem hp,
    List.mem_map_of_mem hp⟩]
  exact find?_of_nodup hnodup hp

/-- The second translation of an address of the layout. -/
theorem eptTranslate_gpaOf (h : cfg.Ok) {s : State} (hs : Ready cfg s) {actor : Nat}
    (ha : cfg.Guest actor) {p : GuestPage} (hp : p ∈ GuestPage.extended cfg.nUtilPages) {off : Nat}
    (hoff : off < pageSize) : eptTranslate cfg s (eptpOf cfg actor) (gpaOf cfg p + off) =
      some (cfg.vmallocToPhys (p.host actor) + off) := by
  obtain ⟨s₀, -, hept⟩ := hs.actor actor ha
  have hlt : gpaOf cfg p + off < 2 ^ 48 := by
    have hpage := h.gpaOf_lt_48 hp
    have halign := h.gpaOf_aligned p
    simp only [pageSize] at *
    omega
  rw [eptTranslate_eq h hs ha hlt, pageOfGpa_gpaOf h hept.l1.nodup hp hoff, Option.map_some,
    (index_page (h.gpaOf_aligned p) hoff).2]

/-! ### Through the guest tables -/

section Guest

variable {s : State} {actor : Nat}

/-- An access to a guest table: the second translation of its address succeeds, and ends at the
table. -/
theorem guestNext_table (h : cfg.Ok) (hs : Ready cfg s) (ha : cfg.Guest actor) {level : Nat}
    (hlevel : level < 4) (i : Nat) :
    guestNext cfg s (eptpOf cfg actor) ((GuestPage.guestPageTables level).paddr cfg.nUtilPages) i =
      Pte.target ((s.actors actor).pageTable.table level i) := by
  have hmem := GuestPage.guestPageTables_mem (n := cfg.nUtilPages) hlevel
  have htable := eptTranslate_gpaOf h hs ha hmem (by decide : 0 < pageSize)
  rw [gpaOf_guestPageTables, Nat.add_zero, Nat.add_zero] at htable
  rw [guestNext, htable, Option.bind_some, pageAt_vmallocToPhys h (host_mem_hostPages ha.1 hmem)]
  rfl

theorem target_initPte (h : cfg.Ok) {gpa : Nat} (halign : gpa % pageSize = 0)
    (hlt : gpa < 2 ^ cfg.physicalWidth) (e : Pte) : (cfg.initPte gpa e).target = some gpa := by
  have hframe : (cfg.initPte gpa e).target = some (cfg.frame gpa * pageSize) := rfl
  rw [hframe, h.frame_eq halign hlt]

/-- The only entry of an upper level is that of the next table. -/
theorem target_upperLevel (h : cfg.Ok) {level : Nat} (hlevel : level < 4) (i : Nat) :
    (Function.update (fun _ => ({} : Pte)) 0
      (cfg.initPte ((GuestPage.guestPageTables level).paddr cfg.nUtilPages) {}) i).target =
      if i = 0 then some ((GuestPage.guestPageTables level).paddr cfg.nUtilPages) else none := by
  have hmem := GuestPage.guestPageTables_mem (n := cfg.nUtilPages) hlevel
  split
  · rename_i hi
    rw [hi, Function.update_self, ← gpaOf_guestPageTables]
    exact target_initPte h (h.gpaOf_aligned _) (h.gpaOf_lt hmem) _
  · rename_i hi
    rw [Function.update_of_ne hi]
    rfl

/-- The last level leads to the page with the number. -/
theorem PtSet.target_l1 (h : cfg.Ok) {s₀ : ActorTables}
    (hs : PtSet cfg (GuestPage.mapped cfg.nUtilPages) s₀) (i : Nat) :
    (s₀.pageTable.l1 i).target =
      ((GuestPage.mapped cfg.nUtilPages).find? fun p => p.number cfg.nUtilPages == i).map
        (gpaOf cfg) := by
  have hindex : ∀ p ∈ GuestPage.mapped cfg.nUtilPages,
      ptIndex (p.vaddr cfg.nUtilPages) = p.number cfg.nUtilPages := fun p hp =>
    ptIndex_vaddr (h.number_lt (GuestPage.mem_extended_of_mapped hp))
  cases hfind : (GuestPage.mapped cfg.nUtilPages).find? fun p => p.number cfg.nUtilPages == i with
  | none =>
    have hother : i ∉ (GuestPage.mapped cfg.nUtilPages).map
        fun p => ptIndex (p.vaddr cfg.nUtilPages) := by
      intro hmem
      obtain ⟨p, hp, heq⟩ := List.mem_map.mp hmem
      rw [hindex p hp] at heq
      exact List.find?_eq_none.mp hfind p hp (beq_iff_eq.mpr heq)
    rw [hs.l1.others i hother]
    rfl
  | some p =>
    have hp := List.mem_of_find?_eq_some hfind
    have hi := List.find?_some hfind
    rw [beq_iff_eq] at hi
    have hwritten := hs.l1.written p hp
    rw [hindex p hp, hi] at hwritten
    rw [hwritten]
    exact target_initPte h (h.gpaOf_aligned p)
      (h.gpaOf_lt (GuestPage.mem_extended_of_mapped hp)) {}

/-- The way through the upper levels. -/
theorem onlyPath_guest (h : cfg.Ok) (hs : Ready cfg s) (ha : cfg.Guest actor) :
    OnlyPath (guestNext cfg s (eptpOf cfg actor)) (guestCr3 cfg) [0, 0, 0]
      ((GuestPage.guestPageTables 0).paddr cfg.nUtilPages) := by
  obtain ⟨s₀, hpt, hept⟩ := hs.actor actor ha
  have hlevel : ∀ level < 3, ∀ i,
      (s.actors actor).pageTable.table (level + 1) i = Function.update (fun _ => ({} : Pte)) 0
        (cfg.initPte ((GuestPage.guestPageTables level).paddr cfg.nUtilPages) {}) i := by
    intro level hlt i
    rw [hept.pageTable]
    obtain rfl | rfl | rfl : level = 0 ∨ level = 1 ∨ level = 2 := by omega
    · exact congrFun hpt.l2 i
    · exact congrFun hpt.l3 i
    · exact congrFun hpt.l4 i
  have hnext : ∀ level < 3, ∀ i, guestNext cfg s (eptpOf cfg actor)
      ((GuestPage.guestPageTables (level + 1)).paddr cfg.nUtilPages) i =
        if i = 0 then some ((GuestPage.guestPageTables level).paddr cfg.nUtilPages) else none := by
    intro level hlt i
    rw [guestNext_table h hs ha (by omega), hlevel level hlt]
    exact target_upperLevel h (by omega) i
  have hpath : ∀ level < 3, ∀ path leaf,
      OnlyPath (guestNext cfg s (eptpOf cfg actor))
        ((GuestPage.guestPageTables level).paddr cfg.nUtilPages) path leaf →
      OnlyPath (guestNext cfg s (eptpOf cfg actor))
        ((GuestPage.guestPageTables (level + 1)).paddr cfg.nUtilPages) (0 :: path) leaf := by
    intro level hlt path leaf hrest
    refine ⟨fun j hj => ?_, _, ?_, hrest⟩
    · rw [hnext level hlt, if_neg hj]
    · rw [hnext level hlt, if_pos rfl]
  exact hpath 2 (by decide) _ _ (hpath 1 (by decide) _ _ (hpath 0 (by decide) _ _ rfl))

/-- The indices of the pages in the first table. -/
theorem upper_zero_iff {gva : Nat} (hgva : gva < 2 ^ 48) :
    [pml4Index gva, pdptIndex gva, pdtIndex gva] = [0, 0, 0] ↔
      gva / pageSize < entriesPerPage := by
  have hpage : gva / pageSize < entriesPerPage ^ 4 := by
    simp only [pageSize, entriesPerPage]
    omega
  have hzero : ∀ k < entriesPerPage, tableIndices entriesPerPage 4 k = [0, 0, 0, k] := by
    intro k hk
    simp only [tableIndices, entriesPerPage, Nat.reducePow, Nat.div_one] at *
    rw [Nat.div_eq_of_lt (by omega), Nat.div_eq_of_lt (by omega), Nat.div_eq_of_lt (by omega),
      Nat.mod_eq_of_lt hk]
  have hlt : ptIndex gva < entriesPerPage := Nat.mod_lt _ (by decide)
  constructor
  · intro h
    have hindices : tableIndices entriesPerPage 4 (gva / pageSize) =
        tableIndices entriesPerPage 4 (ptIndex gva) := by
      rw [tableIndices_four, hzero _ hlt]
      simp only [List.cons.injEq, and_true] at h ⊢
      exact h
    rw [tableIndices_inj hpage (Nat.lt_of_lt_of_le hlt (by decide)) hindices]
    exact hlt
  · intro h
    have hindices := hzero _ h
    rw [tableIndices_four] at hindices
    simp only [List.cons.injEq, and_true] at hindices ⊢
    exact ⟨hindices.1, hindices.2.1, hindices.2.2.1⟩

/-- The mapped page at a guest-virtual address. -/
def pageOfGva (cfg : Config) (gva : Nat) : Option GuestPage :=
  (GuestPage.mapped cfg.nUtilPages).find? fun p => p.number cfg.nUtilPages == gva / pageSize

/-- The first translation of a guest. -/
theorem guestWalk_eq (h : cfg.Ok) (hs : Ready cfg s) (ha : cfg.Guest actor) {gva : Nat}
    (hgva : gva < 2 ^ 48) : guestWalk cfg s (eptpOf cfg actor) gva =
      (pageOfGva cfg gva).map fun p => gpaOf cfg p + gva % pageSize := by
  obtain ⟨s₀, hpt, hept⟩ := hs.actor actor ha
  have hsplit : tableIndices entriesPerPage 4 (gva / pageSize) =
      [pml4Index gva, pdptIndex gva, pdtIndex gva] ++ [ptIndex gva] := tableIndices_four gva
  have hpath : tableWalk (guestNext cfg s (eptpOf cfg actor)) (guestCr3 cfg)
      [pml4Index gva, pdptIndex gva, pdtIndex gva] =
        if [pml4Index gva, pdptIndex gva, pdtIndex gva] = [0, 0, 0] then
          some ((GuestPage.guestPageTables 0).paddr cfg.nUtilPages) else none :=
    (onlyPath_guest h hs ha).tableWalk_eq rfl
  rw [guestWalk, if_pos hgva, hsplit, tableWalk_append, hpath]
  by_cases hupper : [pml4Index gva, pdptIndex gva, pdtIndex gva] = [0, 0, 0]
  · have hpage := (upper_zero_iff hgva).mp hupper
    have hindex : ptIndex gva = gva / pageSize := Nat.mod_eq_of_lt hpage
    rw [if_pos hupper, Option.bind_some, tableWalk, guestNext_table h hs ha (by decide)]
    change (((s.actors actor).pageTable.l1 (ptIndex gva)).target.bind _).map _ = _
    rw [hept.pageTable, hpt.target_l1 h, hindex, pageOfGva]
    cases (GuestPage.mapped cfg.nUtilPages).find?
      fun p => p.number cfg.nUtilPages == gva / pageSize <;> rfl
  · have hnone : pageOfGva cfg gva = none := by
      refine List.find?_eq_none.mpr fun p hp heq => hupper ((upper_zero_iff hgva).mpr ?_)
      rw [← beq_iff_eq.mp heq]
      exact h.number_lt (GuestPage.mem_extended_of_mapped hp)
    rw [if_neg hupper, hnone]
    rfl

/-- The accesses of a guest. A page of the guest-virtual layout is at its guest-physical address, and
leads to the page of the actor; no other address is mapped. -/
theorem guest_accesses_own_pages (h : cfg.Ok) {st : State} (hs : setUpGuests cfg st = .ok s)
    (ha : cfg.Guest actor) {eptp : Eptp} (hptr : s.eptPtr[actor]? = some eptp) {gva : Nat}
    (hgva : gva < 2 ^ 48) :
    guestWalk cfg s eptp gva =
        (pageOfGva cfg gva).map (fun p => gpaOf cfg p + gva % pageSize) ∧
      guestTranslate cfg s eptp gva =
        (pageOfGva cfg gva).map fun p => cfg.vmallocToPhys (p.host actor) + gva % pageSize := by
  have hready := setUpGuests_ready h hs
  have heptp : eptp = eptpOf cfg actor := by
    rw [hready.eptp actor ha.1] at hptr
    exact (Option.some.inj hptr).symm
  have hwalk := guestWalk_eq h hready ha hgva
  rw [heptp, guestTranslate, hwalk]
  refine ⟨rfl, ?_⟩
  cases hpage : pageOfGva cfg gva with
  | none => rfl
  | some p =>
    have hmem := GuestPage.mem_extended_of_mapped (List.mem_of_find?_eq_some hpage)
    exact eptTranslate_gpaOf h hready ha hmem (Nat.mod_lt _ (by decide))

end Guest

/-- The data page of a guest is at the physical address of the main actor's as the guest sees it, and
at its own as the host does. -/
theorem guest_accesses_own_pages_sample : ∃ s eptp,
    setUpGuests sampleConfig sampleState = .ok s ∧ s.eptPtr[1]? = some eptp ∧
      guestWalk sampleConfig s eptp (9 * 4096 + 5) =
        some (sampleConfig.vmallocToPhys (.data 0 0) + 5) ∧
      guestTranslate sampleConfig s eptp (9 * 4096 + 5) =
        some (sampleConfig.vmallocToPhys (.data 1 0) + 5) ∧
      guestTranslate sampleConfig s eptp (18 * 4096) = none := by
  obtain ⟨s, hs⟩ := sample_setUp
  have ha : sampleConfig.Guest 1 := ⟨by decide, by decide⟩
  have hptr := (setUpGuests_ready sampleConfig_ok hs).eptp 1 ha.1
  have hdata := guest_accesses_own_pages sampleConfig_ok hs ha hptr
    (by decide : 9 * 4096 + 5 < 2 ^ 48)
  have hnone := guest_accesses_own_pages sampleConfig_ok hs ha hptr
    (by decide : 18 * 4096 < 2 ^ 48)
  have hpage : pageOfGva sampleConfig (9 * 4096 + 5) = some (.data 0) := by decide
  have hunmapped : pageOfGva sampleConfig (18 * 4096) = none := by decide
  rw [hpage] at hdata
  rw [hunmapped] at hnone
  exact ⟨s, _, hs, hptr, hdata.1, hdata.2, hnone.2⟩

/-! ### Isolation -/

/-- The actor that a page belongs to; the others are shared. -/
def HostPage.owner : HostPage → Option Nat
  | .data actor _ | .code actor _ | .guestGdt actor | .pageTable actor _ | .ept actor _ => some actor
  | .util _ | .vmlaunchPage => none

/-- Where a guest-physical address leads, whatever it is: to the place in a page that is shared or
the actor's, but not an extended table. -/
theorem eptTranslate_confined (h : cfg.Ok) {s : State} (hs : Ready cfg s) {actor : Nat}
    (ha : cfg.Guest actor) {gpa hpa : Nat}
    (hpa' : eptTranslate cfg s (eptpOf cfg actor) gpa = some hpa) :
    ∃ p ∈ hostPages cfg, hpa = cfg.vmallocToPhys p + gpa % pageSize ∧
      (p.owner = none ∨ p.owner = some actor) ∧ ∀ a i, p ≠ .ept a i := by
  have hgpa : gpa < 2 ^ 48 := by
    by_contra hge
    rw [eptTranslate, if_neg hge] at hpa'
    cases hpa'
  rw [eptTranslate_eq h hs ha hgpa] at hpa'
  obtain ⟨p, hp, heq⟩ := Option.map_eq_some_iff.mp hpa'
  have hmem : p ∈ GuestPage.extended cfg.nUtilPages := by
    simp only [pageOfGpa] at hp
    split at hp
    · exact List.mem_of_find?_eq_some hp
    · cases hp
  refine ⟨p.host actor, host_mem_hostPages ha.1 hmem, heq.symm, ?_, ?_⟩
  · cases p
    case util i => exact .inl rfl
    case vmlaunchPage => exact .inl rfl
    all_goals exact .inr rfl
  · intro a i
    cases p <;> exact fun heq => HostPage.noConfusion heq

/-- What a guest reaches, whatever guest-physical address it uses: a page of its own or a shared one,
never an extended table; a page that another guest reaches too is shared. -/
theorem guests_isolated (h : cfg.Ok) {st s : State} (hs : setUpGuests cfg st = .ok s)
    {actor : Nat} (ha : cfg.Guest actor) {eptp : Eptp} (hptr : s.eptPtr[actor]? = some eptp)
    {gpa hpa : Nat} (htrans : eptTranslate cfg s eptp gpa = some hpa) :
    ∃ p ∈ hostPages cfg, hpa = cfg.vmallocToPhys p + gpa % pageSize ∧
      (p.owner = none ∨ p.owner = some actor) ∧ (∀ a i, p ≠ .ept a i) ∧
      ∀ other eptp' gpa' hpa', cfg.Guest other → other ≠ actor → s.eptPtr[other]? = some eptp' →
        eptTranslate cfg s eptp' gpa' = some hpa' → hpa' / pageSize = hpa / pageSize →
          p.owner = none := by
  have hready := setUpGuests_ready h hs
  have hframe : ∀ q x, (cfg.vmallocToPhys q + x % pageSize) / pageSize =
      cfg.vmallocToPhys q / pageSize := fun q x =>
    (index_page (h.aligned q) (Nat.mod_lt x (by decide))).1
  rw [hready.eptp actor ha.1] at hptr
  rw [← Option.some.inj hptr] at htrans
  obtain ⟨p, hp, hpa, hown, hept⟩ := eptTranslate_confined h hready ha htrans
  refine ⟨p, hp, hpa, hown, hept, ?_⟩
  intro other eptp' gpa' hpa' hother hne hptr' htrans' hpage
  rw [hready.eptp other hother.1] at hptr'
  rw [← Option.some.inj hptr'] at htrans'
  obtain ⟨q, hq, hqa, hown', -⟩ := eptTranslate_confined h hready hother htrans'
  have hphys : cfg.vmallocToPhys p = cfg.vmallocToPhys q := by
    have hp0 := h.aligned p
    have hq0 := h.aligned q
    rw [hpa, hqa, hframe, hframe] at hpage
    simp only [pageSize] at *
    omega
  have hsame : p = q := h.injective p hp q hq hphys
  rcases hown with hown | hown
  · exact hown
  · rw [hsame] at hown
    rcases hown' with hnone | hsome
    · rw [hsame, hnone]
    · rw [hsome] at hown
      exact absurd (Option.some.inj hown) hne

/-- Both guests reach the first utility page, which is shared. -/
theorem guests_isolated_sample : ∃ s eptp eptp' hpa,
    setUpGuests sampleConfig sampleState = .ok s ∧ s.eptPtr[1]? = some eptp ∧
      s.eptPtr[2]? = some eptp' ∧ eptTranslate sampleConfig s eptp 5 = some hpa ∧
      eptTranslate sampleConfig s eptp' 5 = some hpa ∧
      ∃ p ∈ hostPages sampleConfig, hpa = sampleConfig.vmallocToPhys p + 5 ∧ p.owner = none := by
  obtain ⟨s, hs⟩ := sample_setUp
  have hready := setUpGuests_ready sampleConfig_ok hs
  have h1 : sampleConfig.Guest 1 := ⟨by decide, by decide⟩
  have h2 : sampleConfig.Guest 2 := ⟨by decide, by decide⟩
  have hmem : GuestPage.util 0 ∈ GuestPage.extended sampleConfig.nUtilPages := by decide
  have htrans := eptTranslate_gpaOf sampleConfig_ok hready h1 hmem (by decide : 5 < pageSize)
  have htrans' := eptTranslate_gpaOf sampleConfig_ok hready h2 hmem (by decide : 5 < pageSize)
  have hptr := hready.eptp 1 h1.1
  have hptr' := hready.eptp 2 h2.1
  obtain ⟨p, hp, hpa, -, -, hother⟩ := guests_isolated sampleConfig_ok hs h1 hptr htrans
  exact ⟨s, _, _, _, hs, hptr, hptr', htrans, htrans', p, hp, hpa,
    hother 2 _ _ _ h2 (by decide) hptr' htrans' rfl⟩

end Rvzr.Km.GuestTables
