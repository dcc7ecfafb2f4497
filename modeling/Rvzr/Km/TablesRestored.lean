import Rvzr.Km.PageTables
import Mathlib.Tactic.Cases

/-!
# Which page tables an experiment restores

Whatever the loop over the rounds did, `recover_orig_state` writes the saved entries. The host
entries were all saved when the experiment began. An entry of a guest's faulty page was saved in
this experiment only if a round was begun; else what is written is a value of an earlier one.
-/

namespace Rvzr.Km

/-! ### Saving and restoring entries -/

theorem storePtes_spec {live : Ptes} {pages : List Nat} {saved l : List UInt64}
    (h : storePtes live pages saved = some l) :
    (∀ i, saved[i]? = some (live i) → l[i]? = some (live i)) ∧
      ∀ i ∈ pages, l[i]? = some (live i) := by
  induction pages generalizing saved with
  | nil =>
    cases h
    exact ⟨fun i hi => hi, fun i hi => absurd hi (by simp)⟩
  | cons page pages ih =>
    rw [storePtes, List.foldlM_cons] at h
    by_cases hlt : page < saved.length
    · rw [if_pos hlt] at h
      have hrest := ih h
      have hself : (saved.set page (live page))[page]? = some (live page) :=
        List.getElem?_set_self hlt
      refine ⟨fun i hi => hrest.1 i ?_, fun i hi => ?_⟩
      · by_cases heq : page = i
        · rw [← heq]
          exact hself
        · rw [List.getElem?_set_ne heq]
          exact hi
      · cases List.mem_cons.1 hi with
        | inl heq => rw [heq]; exact hrest.1 page hself
        | inr hmem => exact hrest.2 i hmem
    · rw [if_neg hlt] at h
      cases h

theorem restorePte_eq (live : Ptes) (page : Nat) (old : UInt64) :
    restorePte live page old = Function.update live page old := by
  unfold restorePte
  by_cases h : live page = old
  · rw [if_neg (by simpa using h), ← h, Function.update_eq_self]
  · rw [if_pos h]

theorem restorePtes_spec {saved : List UInt64} {pages : List Nat} {live live' : Ptes}
    (h : restorePtes saved pages live = some live') :
    (∀ i ∈ pages, saved[i]? = some (live' i)) ∧ ∀ i ∉ pages, live' i = live i := by
  induction pages generalizing live with
  | nil =>
    cases h
    exact ⟨fun i hi => absurd hi (by simp), fun i _ => rfl⟩
  | cons page pages ih =>
    rw [restorePtes, List.foldlM_cons] at h
    cases hold : saved[page]? with
    | none =>
      rw [hold] at h
      cases h
    | some old =>
      rw [hold] at h
      have hrest := ih h
      rw [restorePte_eq] at hrest
      refine ⟨fun i hi => ?_, fun i hi => ?_⟩
      · by_cases hmem : i ∈ pages
        · exact hrest.1 i hmem
        · have heq : i = page := by
            cases List.mem_cons.1 hi with
            | inl heq => exact heq
            | inr hmem' => exact absurd hmem' hmem
          rw [hrest.2 i hmem, heq, Function.update_self, hold]
      · have hne : i ≠ page := fun heq => hi (heq ▸ List.mem_cons_self)
        rw [hrest.2 i fun hmem => hi (List.mem_cons_of_mem _ hmem), Function.update_of_ne hne]

theorem restorePtes_defined {saved : List UInt64} {pages : List Nat}
    (h : ∀ i ∈ pages, ∃ v, saved[i]? = some v) (live : Ptes) :
    ∃ live', restorePtes saved pages live = some live' := by
  induction pages generalizing live with
  | nil => exact ⟨live, rfl⟩
  | cons page pages ih =>
    cases h page List.mem_cons_self with
    | intro v hv =>
      rw [restorePtes, List.foldlM_cons, hv]
      exact ih (fun i hi => h i (List.mem_cons_of_mem _ hi)) (restorePte live page v)

section Faulty

variable {modifiable : UInt64} {perms : Nat → UInt64} {slot : Nat → Nat}

theorem setFaultyPages_spec (hslot : Function.Injective slot) {actors : List Nat}
    (hnodup : actors.Nodup) {live live' : Ptes} {saved saved' : List UInt64}
    (h : setFaultyPages modifiable perms slot actors (live, saved) = some (live', saved')) :
    (∀ a ∈ actors, saved'[a]? = some (live (slot a))) ∧
      ∀ a ∉ actors, saved'[a]? = saved[a]? := by
  induction actors generalizing live saved with
  | nil =>
    cases h
    exact ⟨fun a ha => absurd ha (by simp), fun a _ => rfl⟩
  | cons b actors ih =>
    rw [setFaultyPages] at h
    by_cases hlt : b < saved.length
    · rw [if_pos hlt] at h
      have hb : b ∉ actors := (List.nodup_cons.1 hnodup).1
      have hrest := ih (List.nodup_cons.1 hnodup).2 h
      refine ⟨fun a ha => ?_, fun a ha => ?_⟩
      · cases List.mem_cons.1 ha with
        | inl heq => rw [heq, hrest.2 b hb, List.getElem?_set_self hlt]
        | inr hmem =>
          have hne : slot a ≠ slot b := fun heq => hb (hslot heq ▸ hmem)
          rw [hrest.1 a hmem, Function.update_of_ne hne]
      · have hne : b ≠ a := fun heq => ha (heq ▸ List.mem_cons_self)
        rw [hrest.2 a fun hmem => ha (List.mem_cons_of_mem _ hmem), List.getElem?_set_ne hne]
    · rw [if_neg hlt] at h
      cases h

theorem restoreFaultyPages_spec (hslot : Function.Injective slot) {actors : List Nat}
    (hnodup : actors.Nodup) {live live' : Ptes} {saved : List UInt64}
    (h : restoreFaultyPages slot saved actors live = some live') :
    (∀ a ∈ actors, saved[a]? = some (live' (slot a))) ∧
      ∀ page, (∀ a ∈ actors, slot a ≠ page) → live' page = live page := by
  induction actors generalizing live with
  | nil =>
    cases h
    exact ⟨fun a ha => absurd ha (by simp), fun page _ => rfl⟩
  | cons b actors ih =>
    rw [restoreFaultyPages] at h
    cases hold : saved[b]? with
    | none =>
      rw [hold] at h
      cases h
    | some old =>
      rw [hold] at h
      have hb : b ∉ actors := (List.nodup_cons.1 hnodup).1
      have hrest := ih (List.nodup_cons.1 hnodup).2 h
      refine ⟨fun a ha => ?_, fun page hpage => ?_⟩
      · cases List.mem_cons.1 ha with
        | inl heq =>
          have hkeep : live' (slot b) = Function.update live (slot b) old (slot b) :=
            hrest.2 (slot b) fun c hc heq' => hb (hslot heq' ▸ hc)
          rw [heq, hkeep, Function.update_self, hold]
        | inr hmem => exact hrest.1 a hmem
      · have hne : page ≠ slot b := fun heq => hpage b List.mem_cons_self heq.symm
        rw [hrest.2 page fun a ha => hpage a (List.mem_cons_of_mem _ ha),
          Function.update_of_ne hne]

theorem restoreFaultyPages_defined (slot : Nat → Nat) {actors : List Nat} {saved : List UInt64}
    (h : ∀ a ∈ actors, ∃ v, saved[a]? = some v) (live : Ptes) :
    ∃ live', restoreFaultyPages slot saved actors live = some live' := by
  induction actors generalizing live with
  | nil => exact ⟨live, rfl⟩
  | cons b actors ih =>
    cases h b List.mem_cons_self with
    | intro v hv =>
      rw [restoreFaultyPages, hv]
      exact ih (fun a ha => h a (List.mem_cons_of_mem _ ha)) (Function.update live (slot b) v)

end Faulty

theorem faultyPage_injective : Function.Injective faultyPage := by
  intro a b h
  simp only [faultyPage, nDataPagesPerActor] at h
  omega

section Experiment

variable {cfg : PtConfig} {env : PtEnv} {s s' : PtState}

theorem actors_nodup : cfg.actors.Nodup := List.nodup_range

theorem guests_nodup : cfg.guests.Nodup := actors_nodup.filter _

theorem faultyPage_mem {a : Nat} (h : a ∈ cfg.actors) : faultyPage a ∈ cfg.dataPages := by
  have ha : a < cfg.nActors := List.mem_range.1 h
  apply List.mem_range.2
  simp only [faultyPage, nDataPagesPerActor, faultyPageId]
  omega

/-! ### What is saved -/

/-- The original entries are saved, those of the tables `t`. -/
structure OrigSaved (cfg : PtConfig) (t : Tables) (s : PtState) : Prop where
  cached : s.ptepsCached = true
  util : ∀ i ∈ List.range cfg.nUtilPages, s.saved.util[i]? = some (t.util i)
  data : ∀ i ∈ cfg.dataPages, s.saved.data[i]? = some (t.data i)
  code : ∀ i ∈ cfg.codePages, s.saved.code[i]? = some (t.code i)

/-- The guests' entries of the faulty pages are saved, those of the tables `t`. -/
def FaultySaved (cfg : PtConfig) (t : Tables) (s : PtState) : Prop :=
  ∀ a ∈ cfg.guests, s.saved.guestFaulty[a]? = some (t.guest a) ∧
    s.saved.eptFaulty[a]? = some (t.ept a)

/-- The guests' entries of the faulty pages are those of the tables `t`. -/
def GuestsSame (cfg : PtConfig) (t t' : Tables) : Prop :=
  ∀ a ∈ cfg.guests, t'.guest a = t.guest a ∧ t'.ept a = t.ept a

/-- All entries of the sandbox are those of the tables `t`. -/
structure SameEntries (cfg : PtConfig) (t t' : Tables) : Prop where
  util : ∀ i ∈ List.range cfg.nUtilPages, t'.util i = t.util i
  data : ∀ i ∈ cfg.dataPages, t'.data i = t.data i
  code : ∀ i ∈ cfg.codePages, t'.code i = t.code i
  guests : GuestsSame cfg t t'

/-! ### One call -/

theorem setFaultyPagePermissions_spec (h : setFaultyPagePermissions cfg s = some s') :
    FaultySaved cfg s.tables s' ∧ ∀ t, OrigSaved cfg t s → OrigSaved cfg t s' := by
  unfold setFaultyPagePermissions at h
  split at h
  · cases h
  · simp only [Option.bind_eq_bind, Option.bind_eq_some_iff, Option.pure_def, Option.some.injEq,
      Prod.exists] at h
    obtain ⟨data, faulty, -, guest, guestFaulty, hguest, ept, eptFaulty, hept, rfl⟩ := h
    have hg := setFaultyPages_spec Function.injective_id guests_nodup hguest
    have he := setFaultyPages_spec Function.injective_id guests_nodup hept
    refine ⟨fun a ha => ⟨hg.1 a ha, he.1 a ha⟩, fun t ht => ?_⟩
    exact ⟨ht.cached, ht.util, ht.data, ht.code⟩

theorem restoreFaultyPagePermissions_spec (h : restoreFaultyPagePermissions cfg s = some s') :
    s'.saved = s.saved ∧ s'.ptepsCached = s.ptepsCached ∧ s'.oldNActors = s.oldNActors ∧
      FaultySaved cfg s'.tables s ∧ (∀ a ∈ cfg.actors, ∃ v, s.saved.faulty[a]? = some v) ∧
      s'.tables.util = s.tables.util ∧ s'.tables.code = s.tables.code ∧
      (∀ i ∉ cfg.dataPages, s'.tables.data i = s.tables.data i) ∧
      (∀ a ∉ cfg.guests, s'.tables.guest a = s.tables.guest a ∧
        s'.tables.ept a = s.tables.ept a) := by
  unfold restoreFaultyPagePermissions at h
  split at h
  · cases h
  · simp only [Option.bind_eq_bind, Option.bind_eq_some_iff, Option.pure_def,
      Option.some.injEq] at h
    obtain ⟨data, hdata, guest, hguest, ept, hept, rfl⟩ := h
    have hd := restoreFaultyPages_spec faultyPage_injective actors_nodup hdata
    have hg := restoreFaultyPages_spec Function.injective_id guests_nodup hguest
    have he := restoreFaultyPages_spec Function.injective_id guests_nodup hept
    refine ⟨rfl, rfl, rfl, fun a ha => ⟨hg.1 a ha, he.1 a ha⟩, fun a ha => ⟨_, hd.1 a ha⟩, rfl, rfl,
      fun i hi => hd.2 i fun a ha heq => hi (heq ▸ faultyPage_mem ha), fun a ha => ?_⟩
    exact ⟨hg.2 a fun b hb heq => ha (heq ▸ hb), he.2 a fun b hb heq => ha (heq ▸ hb)⟩

theorem restoreOrigHostPermissions_spec (hc : s.ptepsCached = true)
    (h : restoreOrigHostPermissions cfg s = some s') :
    s'.saved = s.saved ∧ s'.ptepsCached = s.ptepsCached ∧ s'.oldNActors = s.oldNActors ∧
      s'.tables.guest = s.tables.guest ∧ s'.tables.ept = s.tables.ept ∧
      OrigSaved cfg s'.tables s ∧
      (∀ i ∉ List.range cfg.nUtilPages, s'.tables.util i = s.tables.util i) ∧
      (∀ i ∉ cfg.dataPages, s'.tables.data i = s.tables.data i) ∧
      (∀ i ∉ cfg.codePages, s'.tables.code i = s.tables.code i) := by
  unfold restoreOrigHostPermissions at h
  rw [if_neg (by simp [hc])] at h
  simp only [Option.bind_eq_bind, Option.bind_eq_some_iff, Option.pure_def, Option.some.injEq] at h
  obtain ⟨util, hutil, data, hdata, code, hcode, rfl⟩ := h
  have hu := restorePtes_spec hutil
  have hd := restorePtes_spec hdata
  have hk := restorePtes_spec hcode
  exact ⟨rfl, rfl, rfl, rfl, rfl, ⟨hc, hu.1, hd.1, hk.1⟩, hu.2, hd.2, hk.2⟩

/-- `recover_orig_state` leaves the saved values in the entries. -/
theorem recoverOrigState_spec {t : Tables} (ht : OrigSaved cfg t s)
    (h : recoverOrigState cfg s = some s') :
    s'.saved = s.saved ∧ s'.ptepsCached = true ∧ s'.oldNActors = s.oldNActors ∧
      (∀ i ∈ List.range cfg.nUtilPages, s'.tables.util i = t.util i) ∧
      (∀ i ∈ cfg.dataPages, s'.tables.data i = t.data i) ∧
      (∀ i ∈ cfg.codePages, s'.tables.code i = t.code i) ∧
      FaultySaved cfg s'.tables s ∧ (∀ a ∈ cfg.actors, ∃ v, s.saved.faulty[a]? = some v) := by
  simp only [recoverOrigState, Option.bind_eq_bind, Option.bind_eq_some_iff] at h
  obtain ⟨s₁, hfaulty, horig⟩ := h
  obtain ⟨hsaved, hcached, hold, hguests, hdefined, -⟩ := restoreFaultyPagePermissions_spec hfaulty
  obtain ⟨hsaved', hcached', hold', hguest, hept, hlive, -⟩ :=
    restoreOrigHostPermissions_spec (hcached.trans ht.cached) horig
  refine ⟨hsaved'.trans hsaved, hcached'.trans (hcached.trans ht.cached), hold'.trans hold,
    fun i hi => ?_, fun i hi => ?_, fun i hi => ?_, ?_, hdefined⟩
  · have hl := hlive.util i hi
    rw [hsaved, ht.util i hi] at hl
    exact (Option.some.inj hl).symm
  · have hl := hlive.data i hi
    rw [hsaved, ht.data i hi] at hl
    exact (Option.some.inj hl).symm
  · have hl := hlive.code i hi
    rw [hsaved, ht.code i hi] at hl
    exact (Option.some.inj hl).symm
  · intro a ha
    rw [hguest, hept]
    exact hguests a ha

/-- What `recover_orig_state` does not touch. -/
theorem recoverOrigState_frame (hc : s.ptepsCached = true)
    (h : recoverOrigState cfg s = some s') :
    (∀ i ∉ List.range cfg.nUtilPages, s'.tables.util i = s.tables.util i) ∧
      (∀ i ∉ cfg.dataPages, s'.tables.data i = s.tables.data i) ∧
      (∀ i ∉ cfg.codePages, s'.tables.code i = s.tables.code i) ∧
      (∀ a ∉ cfg.guests, s'.tables.guest a = s.tables.guest a ∧
        s'.tables.ept a = s.tables.ept a) := by
  simp only [recoverOrigState, Option.bind_eq_bind, Option.bind_eq_some_iff] at h
  obtain ⟨s₁, hfaulty, horig⟩ := h
  obtain ⟨-, hcached, -, -, -, hutil, hcode, hdata, hguests⟩ :=
    restoreFaultyPagePermissions_spec hfaulty
  obtain ⟨-, -, -, hguest, hept, -, hutil', hdata', hcode'⟩ :=
    restoreOrigHostPermissions_spec (hcached.trans hc) horig
  refine ⟨fun i hi => ?_, fun i hi => ?_, fun i hi => ?_, fun a ha => ?_⟩
  · rw [hutil' i hi, hutil]
  · rw [hdata' i hi, hdata i hi]
  · rw [hcode' i hi, hcode]
  · rw [hguest, hept]
    exact hguests a ha

theorem recoverOrigState_defined {t : Tables} (ht : OrigSaved cfg t s)
    (hhost : ∀ a ∈ cfg.actors, ∃ v, s.saved.faulty[a]? = some v)
    (hguests : ∃ t', FaultySaved cfg t' s) : ∃ s', recoverOrigState cfg s = some s' := by
  obtain ⟨t', ht'⟩ := hguests
  obtain ⟨data, hdata⟩ := restoreFaultyPages_defined faultyPage hhost s.tables.data
  obtain ⟨guest, hguest⟩ := restoreFaultyPages_defined id (fun a ha => ⟨_, (ht' a ha).1⟩)
    s.tables.guest
  obtain ⟨ept, hept⟩ := restoreFaultyPages_defined id (fun a ha => ⟨_, (ht' a ha).2⟩) s.tables.ept
  obtain ⟨util, hutil⟩ := restorePtes_defined (fun i hi => ⟨_, ht.util i hi⟩) s.tables.util
  obtain ⟨data', hdata'⟩ := restorePtes_defined (fun i hi => ⟨_, ht.data i hi⟩) data
  obtain ⟨code, hcode⟩ := restorePtes_defined (fun i hi => ⟨_, ht.code i hi⟩) s.tables.code
  refine ⟨{ s with tables := ⟨util, data', code, guest, ept⟩ }, ?_⟩
  simp [recoverOrigState, restoreFaultyPagePermissions, restoreOrigHostPermissions, ht.cached,
    hdata, hguest, hept, hutil, hdata', hcode]

/-- Recovering twice is the same as recovering once. -/
theorem recoverOrigState_idem {t : Tables} (ht : OrigSaved cfg t s)
    (h : recoverOrigState cfg s = some s') : recoverOrigState cfg s' = some s' := by
  obtain ⟨hsaved, hcached, hold, hutil, hdata, hcode, hguests, hhost⟩ := recoverOrigState_spec ht h
  have ht' : OrigSaved cfg t s' := by
    refine ⟨hcached, ?_, ?_, ?_⟩ <;> rw [hsaved]
    · exact ht.util
    · exact ht.data
    · exact ht.code
  have hguests' : FaultySaved cfg s'.tables s' := by
    intro a ha
    rw [hsaved]
    exact hguests a ha
  obtain ⟨s₂, hs₂⟩ := recoverOrigState_defined ht' (by rw [hsaved]; exact hhost) ⟨_, hguests'⟩
  obtain ⟨hsaved₂, hcached₂, hold₂, hutil₂, hdata₂, hcode₂, hguests₂, -⟩ :=
    recoverOrigState_spec ht' hs₂
  obtain ⟨futil, fdata, fcode, fguests⟩ := recoverOrigState_frame hcached hs₂
  have heq : s₂ = s' := by
    cases s₂ with
    | mk tables saved ptepsCached oldNActors =>
      cases tables with
      | mk util data code guest ept =>
        have hguest₂ : ∀ a, guest a = s'.tables.guest a ∧ ept a = s'.tables.ept a := by
          intro a
          by_cases ha : a ∈ cfg.guests
          · exact ⟨Option.some.inj ((hguests₂ a ha).1.symm.trans (hguests' a ha).1),
              Option.some.inj ((hguests₂ a ha).2.symm.trans (hguests' a ha).2)⟩
          · exact fguests a ha
        have hsame : (⟨util, data, code, guest, ept⟩ : Tables) = s'.tables := by
          rw [show s'.tables = ⟨s'.tables.util, s'.tables.data, s'.tables.code, s'.tables.guest,
            s'.tables.ept⟩ from rfl]
          congr 1
          · funext i
            by_cases hi : i ∈ List.range cfg.nUtilPages
            · exact (hutil₂ i hi).trans (hutil i hi).symm
            · exact futil i hi
          · funext i
            by_cases hi : i ∈ cfg.dataPages
            · exact (hdata₂ i hi).trans (hdata i hi).symm
            · exact fdata i hi
          · funext i
            by_cases hi : i ∈ cfg.codePages
            · exact (hcode₂ i hi).trans (hcode i hi).symm
            · exact fcode i hi
          · exact funext fun a => (hguest₂ a).1
          · exact funext fun a => (hguest₂ a).2
        rw [hsame]
        cases s' with
        | mk tables' saved' ptepsCached' oldNActors' =>
          cases hsaved₂
          cases hold₂
          rw [show ptepsCached = true from hcached₂, show ptepsCached' = true from hcached]
  rw [hs₂, heq]

/-! ### The set-up -/

theorem reallocSaved_failed {zalloc : Nat → Bool} {saved : SavedPtes}
    (h : (reallocSaved cfg zalloc saved).2 ≠ 0) :
    (reallocSaved cfg zalloc saved).1.data = [] ∨ (reallocSaved cfg zalloc saved).1.code = [] ∨
      (reallocSaved cfg zalloc saved).1.faulty = [] := by
  unfold reallocSaved at h ⊢
  dsimp only at h ⊢
  split at h <;> rename_i h0
  · rw [if_pos h0]
    exact Or.inl rfl
  · rw [if_neg h0]
    split at h <;> rename_i h1
    · rw [if_pos h1]
      exact Or.inr (Or.inl rfl)
    · rw [if_neg h1]
      split at h <;> rename_i h2
      · rw [if_pos h2]
        exact Or.inr (Or.inr rfl)
      · exact absurd rfl h

theorem reallocSaved_guests (zalloc : Nat → Bool) (saved : SavedPtes) :
    (reallocSaved cfg zalloc saved).1.guestFaulty = saved.guestFaulty ∧
      (reallocSaved cfg zalloc saved).1.eptFaulty = saved.eptFaulty := by
  unfold reallocSaved
  dsimp only
  split
  · exact ⟨rfl, rfl⟩
  · split
    · exact ⟨rfl, rfl⟩
    · split
      · exact ⟨rfl, rfl⟩
      · exact ⟨rfl, rfl⟩

/-- A recovery that returns has found every array in place. -/
theorem recoverOrigState_arrays (hpos : cfg.nActors ≠ 0) (h : recoverOrigState cfg s = some s') :
    s.ptepsCached = true ∧ s.saved.data ≠ [] ∧ s.saved.code ≠ [] ∧ s.saved.faulty ≠ [] := by
  simp only [recoverOrigState, Option.bind_eq_bind, Option.bind_eq_some_iff] at h
  obtain ⟨s₁, hfaulty, horig⟩ := h
  have hcached : s.ptepsCached = true := by
    cases hc : s.ptepsCached with
    | true => rfl
    | false => simp [restoreFaultyPagePermissions, hc, hpos] at hfaulty
  obtain ⟨hsaved, hcached', -, -, hdefined, -⟩ := restoreFaultyPagePermissions_spec hfaulty
  obtain ⟨-, -, -, -, -, hlive, -⟩ :=
    restoreOrigHostPermissions_spec (hcached'.trans hcached) horig
  have hactor : 0 ∈ cfg.actors := List.mem_range.2 (by omega)
  have hdata := hlive.data 0 (List.mem_range.2 (by unfold nDataPagesPerActor; omega))
  have hcode := hlive.code 0 (List.mem_range.2 (by unfold nCodePagesPerActor; omega))
  rw [hsaved] at hdata hcode
  refine ⟨hcached, ?_, ?_, ?_⟩
  · intro hnil
    simp [hnil] at hdata
  · intro hnil
    simp [hnil] at hcode
  · intro hnil
    obtain ⟨v, hv⟩ := hdefined 0 hactor
    simp [hnil] at hv

/-- `store_orig_host_permissions` saves the entries, or it leaves an array missing. -/
theorem storeOrigHostPermissions_spec {zalloc : Nat → Bool} {err : Int}
    (h : storeOrigHostPermissions cfg zalloc s = some (s', err)) :
    s'.tables = s.tables ∧ s'.saved.guestFaulty = s.saved.guestFaulty ∧
      s'.saved.eptFaulty = s.saved.eptFaulty ∧ (err = 0 → OrigSaved cfg s.tables s') ∧
      (err ≠ 0 → s'.ptepsCached = false ∨ cfg.nActors ≠ 0 ∧
        (s'.saved.data = [] ∨ s'.saved.code = [] ∨ s'.saved.faulty = [])) := by
  unfold storeOrigHostPermissions at h
  by_cases hc : s.ptepsCached = true
  · rw [if_neg (by simp [hc])] at h
    dsimp only at h
    have hguests : (if s.oldNActors < cfg.nActors then reallocSaved cfg zalloc s.saved
        else (s.saved, 0)).1.guestFaulty = s.saved.guestFaulty ∧
        (if s.oldNActors < cfg.nActors then reallocSaved cfg zalloc s.saved
        else (s.saved, 0)).1.eptFaulty = s.saved.eptFaulty := by
      split
      · exact reallocSaved_guests zalloc s.saved
      · exact ⟨rfl, rfl⟩
    by_cases herr : (if s.oldNActors < cfg.nActors then reallocSaved cfg zalloc s.saved
        else (s.saved, 0)).2 ≠ 0
    · rw [if_pos herr] at h
      cases h
      refine ⟨rfl, hguests.1, hguests.2, fun h0 => absurd h0 herr, fun _ => Or.inr ?_⟩
      by_cases hlt : s.oldNActors < cfg.nActors
      · rw [if_pos hlt] at herr ⊢
        exact ⟨by omega, reallocSaved_failed herr⟩
      · rw [if_neg hlt] at herr
        exact absurd rfl herr
    · rw [if_neg herr] at h
      simp only [Option.bind_eq_bind, Option.bind_eq_some_iff, Option.pure_def,
        Option.some.injEq, Prod.mk.injEq] at h
      obtain ⟨util, hutil, data, hdata, code, hcode, rfl, rfl⟩ := h
      refine ⟨rfl, hguests.1, hguests.2, fun _ => ⟨hc, ?_, ?_, ?_⟩, fun h0 => absurd rfl h0⟩
      · exact (storePtes_spec hutil).2
      · exact (storePtes_spec hdata).2
      · exact (storePtes_spec hcode).2
  · rw [if_pos (by simpa using hc)] at h
    cases h
    exact ⟨rfl, rfl, rfl, fun h0 => absurd h0 (by decide), fun _ => Or.inl (by simpa using hc)⟩

/-! ### The rounds -/

/-- A round saves the guests' entries, and writes them back unless it was trapped. -/
theorem faultyRound_spec {i : Int} (h : faultyRound cfg env i s = some s') :
    FaultySaved cfg s.tables s' ∧ (∀ t, OrigSaved cfg t s → OrigSaved cfg t s') ∧
      (env.execution i ≠ .trapped → GuestsSame cfg s.tables s'.tables) := by
  simp only [faultyRound, Option.bind_eq_bind, Option.bind_eq_some_iff] at h
  obtain ⟨s₁, hset, h⟩ := h
  obtain ⟨hsaved, horig⟩ := setFaultyPagePermissions_spec hset
  cases hex : env.execution i with
  | trapped =>
    rw [hex] at h
    cases h
    exact ⟨hsaved, fun t ht => ⟨(horig t ht).cached, (horig t ht).util, (horig t ht).data,
      (horig t ht).code⟩, fun hne => absurd rfl hne⟩
  | returned err r st =>
    rw [hex] at h
    dsimp only at h
    obtain ⟨heq, hcached, -, hwritten, -⟩ := restoreFaultyPagePermissions_spec h
    have hkept : FaultySaved cfg s.tables s' := by
      intro a ha
      rw [heq]
      exact hsaved a ha
    refine ⟨hkept, fun t ht => ?_, fun _ a ha => ?_⟩
    · have ht' := horig t ht
      refine ⟨hcached.trans ht'.cached, ?_, ?_, ?_⟩ <;> rw [heq]
      · exact ht'.util
      · exact ht'.data
      · exact ht'.code
    · have hw := hwritten a ha
      have hs := hsaved a ha
      exact ⟨Option.some.inj (hw.1.symm.trans hs.1), Option.some.inj (hw.2.symm.trans hs.2)⟩

/-- After at least one round, however the loop ends, the guests' entries of before the loop are
the saved ones. -/
theorem faultyRounds_spec {t : Tables} {dbg : Bool} {is : List Int} {e : LoopEnd}
    (hsame : GuestsSame cfg t s.tables) (h : faultyRounds cfg env dbg is s = some (s', e)) :
    (∀ t₀, OrigSaved cfg t₀ s → OrigSaved cfg t₀ s') ∧
      (is = [] → s' = s) ∧ (is ≠ [] → FaultySaved cfg t s') := by
  induction is generalizing s with
  | nil =>
    cases h
    exact ⟨fun t₀ ht => ht, fun _ => rfl, fun hne => absurd rfl hne⟩
  | cons i is ih =>
    simp only [faultyRounds, Option.bind_eq_bind, Option.bind_eq_some_iff] at h
    obtain ⟨s₁, hround, h⟩ := h
    obtain ⟨hsaved, horig, hback⟩ := faultyRound_spec hround
    have hsaved' : FaultySaved cfg t s₁ := by
      intro a ha
      rw [← (hsame a ha).1, ← (hsame a ha).2]
      exact hsaved a ha
    refine ⟨?_, fun hnil => absurd hnil (by simp), fun _ => ?_⟩
    all_goals
      cases hex : env.execution i with
      | trapped =>
        rw [hex] at h
        cases h
        first | exact horig | exact hsaved'
      | returned err r st =>
        rw [hex] at h
        dsimp only at h
        have hsame' : GuestsSame cfg t s₁.tables := by
          intro a ha
          have hb := hback (by simp [hex]) a ha
          exact ⟨hb.1.trans (hsame a ha).1, hb.2.trans (hsame a ha).2⟩
        split at h
        · cases h
          first | exact horig | exact hsaved'
        · split at h
          · cases h
            first | exact horig | exact hsaved'
          · have hrest := ih hsame' h
            first
              | exact fun t₀ ht => hrest.1 t₀ (horig t₀ ht)
              | by_cases hnil : is = []
                · rw [hrest.2.1 hnil]
                  exact hsaved'
                · exact hrest.2.2 hnil

/-! ### The experiment -/

theorem setSandboxPageTables_spec {zalloc : Nat → Bool} {err : Int}
    (h : setSandboxPageTables cfg zalloc s = some (s', err)) :
    s'.tables.guest = s.tables.guest ∧ s'.tables.ept = s.tables.ept ∧
      s'.saved.guestFaulty = s.saved.guestFaulty ∧ s'.saved.eptFaulty = s.saved.eptFaulty ∧
      (err = 0 → OrigSaved cfg s.tables s') ∧
      (err ≠ 0 → s'.tables = s.tables ∧ (s'.ptepsCached = false ∨ cfg.nActors ≠ 0 ∧
        (s'.saved.data = [] ∨ s'.saved.code = [] ∨ s'.saved.faulty = []))) := by
  simp only [setSandboxPageTables, Option.bind_eq_bind, Option.bind_eq_some_iff] at h
  obtain ⟨⟨s₁, err₁⟩, hstore, h⟩ := h
  obtain ⟨htables, hguest, hept, hok, hfailed⟩ := storeOrigHostPermissions_spec hstore
  dsimp only at h
  by_cases herr : err₁ ≠ 0
  · rw [if_pos herr] at h
    cases h
    exact ⟨by rw [htables], by rw [htables], hguest, hept, fun h0 => absurd h0 (by decide),
      fun _ => ⟨htables, hfailed herr⟩⟩
  · rw [if_neg herr] at h
    cases h
    have hok' := hok (by simpa using herr)
    refine ⟨?_, ?_, ?_, ?_, fun _ => ?_, fun h0 => absurd rfl h0⟩
    · rw [← htables]
      split
      · rfl
      · rfl
    · rw [← htables]
      split
      · rfl
      · rfl
    · split <;> exact hguest
    · split <;> exact hept
    · split
      · exact ⟨hok'.cached, hok'.util, hok'.data, hok'.code⟩
      · exact hok'

/-- An experiment that goes on to the recovery with the original entries saved: all entries are
restored exactly if those of the guests are saved too. -/
theorem recoverOrigState_restores {t : Tables} (ht : OrigSaved cfg t s)
    (h : recoverOrigState cfg s = some s') :
    (SameEntries cfg t s'.tables ↔ FaultySaved cfg t s) := by
  obtain ⟨-, -, -, hutil, hdata, hcode, hguests, -⟩ := recoverOrigState_spec ht h
  constructor
  · intro hsame a ha
    rw [← (hsame.guests a ha).1, ← (hsame.guests a ha).2]
    exact hguests a ha
  · intro hsaved
    refine ⟨hutil, hdata, hcode, fun a ha => ?_⟩
    exact ⟨Option.some.inj ((hguests a ha).1.symm.trans (hsaved a ha).1),
      Option.some.inj ((hguests a ha).2.symm.trans (hsaved a ha).2)⟩

/-- A failed set-up of the tables with a recovery that returns: there is no actor. -/
theorem recoverOrigState_failed (hfailed : s.ptepsCached = false ∨ cfg.nActors ≠ 0 ∧
      (s.saved.data = [] ∨ s.saved.code = [] ∨ s.saved.faulty = []))
    (h : recoverOrigState cfg s = some s') : cfg.nActors = 0 ∧ s' = s := by
  have hzero : cfg.nActors = 0 := by
    by_contra hpos
    obtain ⟨hcached, hdata, hcode, hfaulty⟩ := recoverOrigState_arrays hpos h
    rcases hfailed with hc | ⟨-, hd | hk | hf⟩
    · rw [hcached] at hc
      cases hc
    · exact hdata hd
    · exact hcode hk
    · exact hfaulty hf
  have hc : s.ptepsCached = false := by
    rcases hfailed with hc | ⟨hpos, -⟩
    · exact hc
    · exact absurd hzero hpos
  refine ⟨hzero, ?_⟩
  have hnone : cfg.actors = [] := by simp [PtConfig.actors, hzero]
  have hguests : cfg.guests = [] := by simp [PtConfig.guests, hnone]
  simp [recoverOrigState, restoreFaultyPagePermissions, restoreOrigHostPermissions, hc, hzero,
    hnone, hguests, restoreFaultyPages] at h
  rw [← h, ← hc]

theorem rounds_ne_nil {w : Int} {n : Nat} : rounds w n ≠ [] ↔ 0 < n + w := by
  unfold rounds
  rw [ne_eq, List.map_eq_nil_iff, List.range_eq_nil]
  omega

/-- When an experiment has returned, all entries of the sandbox are what they were exactly if it
began a round, or the guests' faulty pages still have the values that were saved last. A second
recovery changes nothing. -/
theorem runPageTables_restores {w : Int} {dbg : Bool} {n : Nat} {err : Int}
    (h : runPageTables cfg env w dbg n s = some (s', err)) :
    (SameEntries cfg s.tables s'.tables ↔
      env.environmentErr = 0 ∧ 0 < n + w ∨ FaultySaved cfg s.tables s) ∧
    recoverOrigState cfg s' = some s' := by
  simp only [runPageTables, Option.bind_eq_bind, Option.bind_eq_some_iff] at h
  obtain ⟨⟨s₁, err₁⟩, hset, h⟩ := h
  obtain ⟨hguest, hept, hsavedGuest, hsavedEpt, hok, hfailed⟩ := setSandboxPageTables_spec hset
  dsimp only at h
  have hsame : GuestsSame cfg s.tables s₁.tables := fun a _ => by rw [hguest, hept]; exact ⟨rfl, rfl⟩
  have hkept : FaultySaved cfg s.tables s₁ ↔ FaultySaved cfg s.tables s := by
    unfold FaultySaved
    rw [hsavedGuest, hsavedEpt]
  by_cases herr : err₁ ≠ 0
  · rw [if_pos herr, Option.bind_eq_some_iff] at h
    obtain ⟨s₂, hrecover, h⟩ := h
    cases h
    obtain ⟨htables, harrays⟩ := hfailed herr
    obtain ⟨hzero, rfl⟩ := recoverOrigState_failed harrays hrecover
    have hnoGuests : cfg.guests = [] := by simp [PtConfig.guests, PtConfig.actors, hzero]
    refine ⟨iff_of_true ?_ (Or.inr ?_), hrecover⟩
    · rw [htables]
      exact ⟨fun _ _ => rfl, fun _ _ => rfl, fun _ _ => rfl, fun _ _ => ⟨rfl, rfl⟩⟩
    · intro a ha
      simp [hnoGuests] at ha
  · rw [if_neg herr] at h
    have horig := hok (by simpa using herr)
    by_cases henv : env.environmentErr ≠ 0
    · rw [if_pos henv, Option.bind_eq_some_iff] at h
      obtain ⟨s₂, hrecover, h⟩ := h
      cases h
      refine ⟨?_, recoverOrigState_idem horig hrecover⟩
      rw [recoverOrigState_restores horig hrecover, hkept]
      exact ⟨Or.inr, fun hc => hc.resolve_left fun hrounds => henv hrounds.1⟩
    · rw [if_neg henv] at h
      simp only [Option.bind_eq_some_iff] at h
      obtain ⟨⟨s₂, e⟩, hloop, s₃, hrecover, h⟩ := h
      obtain ⟨hkeeps, hnil, hrounds⟩ := faultyRounds_spec hsame hloop
      have hs₃ : s₃ = s' := by
        cases e <;> cases h <;> rfl
      subst hs₃
      refine ⟨?_, recoverOrigState_idem (hkeeps _ horig) hrecover⟩
      rw [recoverOrigState_restores (hkeeps _ horig) hrecover]
      by_cases hempty : rounds w n = []
      · have hnone : ¬ 0 < n + w := fun hpos => rounds_ne_nil.2 hpos hempty
        rw [hnil hempty, hkept]
        exact ⟨Or.inr, fun hc => hc.resolve_left fun hc' => hnone hc'.2⟩
      · exact iff_of_true (hrounds hempty) (Or.inl ⟨by simpa using henv, rounds_ne_nil.1 hempty⟩)

/-! ### Which experiments return -/

/-- The arrays have a place for every entry of the test case. -/
structure SavedPtes.Fits (cfg : PtConfig) (saved : SavedPtes) : Prop where
  util : ∀ i ∈ List.range cfg.nUtilPages, i < saved.util.length
  data : ∀ i ∈ cfg.dataPages, i < saved.data.length
  code : ∀ i ∈ cfg.codePages, i < saved.code.length
  faulty : ∀ a ∈ cfg.actors, a < saved.faulty.length
  guestFaulty : ∀ a ∈ cfg.guests, a < saved.guestFaulty.length
  eptFaulty : ∀ a ∈ cfg.guests, a < saved.eptFaulty.length

def SavedPtes.lengths (saved : SavedPtes) : List Nat :=
  [saved.util.length, saved.data.length, saved.code.length, saved.faulty.length,
    saved.guestFaulty.length, saved.eptFaulty.length]

theorem SavedPtes.Fits.congr {saved saved' : SavedPtes} (hf : saved.Fits cfg)
    (h : saved'.lengths = saved.lengths) : saved'.Fits cfg := by
  simp only [SavedPtes.lengths, List.cons.injEq, and_true] at h
  obtain ⟨hutil, hdata, hcode, hfaulty, hguest, hept⟩ := h
  exact ⟨hutil ▸ hf.util, hdata ▸ hf.data, hcode ▸ hf.code, hfaulty ▸ hf.faulty,
    hguest ▸ hf.guestFaulty, hept ▸ hf.eptFaulty⟩

theorem recoverOrigState_returns_iff (hc : s.ptepsCached = true) :
    (∃ s', recoverOrigState cfg s = some s') ↔ s.saved.Fits cfg := by
  constructor
  · rintro ⟨s', h⟩
    simp only [recoverOrigState, Option.bind_eq_bind, Option.bind_eq_some_iff] at h
    obtain ⟨s₁, hfaulty, horig⟩ := h
    obtain ⟨hsaved, hcached, -, hguests, hhost, -⟩ := restoreFaultyPagePermissions_spec hfaulty
    obtain ⟨-, -, -, -, -, hlive, -⟩ := restoreOrigHostPermissions_spec (hcached.trans hc) horig
    rw [← hsaved]
    refine ⟨fun i hi => ?_, fun i hi => ?_, fun i hi => ?_, fun a ha => ?_, fun a ha => ?_,
      fun a ha => ?_⟩
    · exact (List.getElem?_eq_some_iff.1 (hlive.util i hi)).1
    · exact (List.getElem?_eq_some_iff.1 (hlive.data i hi)).1
    · exact (List.getElem?_eq_some_iff.1 (hlive.code i hi)).1
    · obtain ⟨v, hv⟩ := hhost a ha
      exact hsaved ▸ (List.getElem?_eq_some_iff.1 hv).1
    · exact hsaved ▸ (List.getElem?_eq_some_iff.1 (hguests a ha).1).1
    · exact hsaved ▸ (List.getElem?_eq_some_iff.1 (hguests a ha).2).1
  · intro hf
    -- the tables that the arrays describe
    let t : Tables := ⟨fun i => s.saved.util.getD i 0, fun i => s.saved.data.getD i 0,
      fun i => s.saved.code.getD i 0, fun i => s.saved.guestFaulty.getD i 0,
      fun i => s.saved.eptFaulty.getD i 0⟩
    have hget : ∀ {l : List UInt64} {i : Nat}, i < l.length → l[i]? = some (l.getD i 0) := by
      intro l i hi
      rw [List.getD_eq_getElem?_getD, List.getElem?_eq_getElem hi, Option.getD_some]
    have horig : OrigSaved cfg t s :=
      ⟨hc, fun i hi => hget (hf.util i hi), fun i hi => hget (hf.data i hi),
        fun i hi => hget (hf.code i hi)⟩
    exact recoverOrigState_defined horig (fun a ha => ⟨_, hget (hf.faulty a ha)⟩)
      ⟨t, fun a ha => ⟨hget (hf.guestFaulty a ha), hget (hf.eptFaulty a ha)⟩⟩

theorem storePtes_length {live : Ptes} {pages : List Nat} {saved l : List UInt64}
    (h : storePtes live pages saved = some l) : l.length = saved.length := by
  induction pages generalizing saved with
  | nil =>
    cases h
    rfl
  | cons page pages ih =>
    rw [storePtes, List.foldlM_cons] at h
    by_cases hlt : page < saved.length
    · rw [if_pos hlt] at h
      exact (ih h).trans List.length_set
    · rw [if_neg hlt] at h
      cases h

theorem storePtes_defined {pages : List Nat} {saved : List UInt64}
    (h : ∀ i ∈ pages, i < saved.length) (live : Ptes) :
    ∃ l, storePtes live pages saved = some l := by
  induction pages generalizing saved with
  | nil => exact ⟨saved, rfl⟩
  | cons page pages ih =>
    rw [storePtes, List.foldlM_cons, if_pos (h page List.mem_cons_self)]
    apply ih
    intro i hi
    rw [List.length_set]
    exact h i (List.mem_cons_of_mem _ hi)

theorem setFaultyPages_length {modifiable : UInt64} {perms : Nat → UInt64} {slot : Nat → Nat}
    {actors : List Nat} {live live' : Ptes} {saved saved' : List UInt64}
    (h : setFaultyPages modifiable perms slot actors (live, saved) = some (live', saved')) :
    saved'.length = saved.length := by
  induction actors generalizing live saved with
  | nil =>
    cases h
    rfl
  | cons a actors ih =>
    rw [setFaultyPages] at h
    split at h
    · exact (ih h).trans List.length_set
    · cases h

theorem setFaultyPages_defined (modifiable : UInt64) (perms : Nat → UInt64) (slot : Nat → Nat)
    {actors : List Nat} {saved : List UInt64} (h : ∀ a ∈ actors, a < saved.length) (live : Ptes) :
    ∃ r, setFaultyPages modifiable perms slot actors (live, saved) = some r := by
  induction actors generalizing live saved with
  | nil => exact ⟨_, rfl⟩
  | cons a actors ih =>
    rw [setFaultyPages, if_pos (h a List.mem_cons_self)]
    apply ih
    intro b hb
    rw [List.length_set]
    exact h b (List.mem_cons_of_mem _ hb)

theorem setFaultyPagePermissions_lengths (h : setFaultyPagePermissions cfg s = some s') :
    s'.saved.lengths = s.saved.lengths ∧ s'.ptepsCached = s.ptepsCached := by
  unfold setFaultyPagePermissions at h
  split at h
  · cases h
  · simp only [Option.bind_eq_bind, Option.bind_eq_some_iff, Option.pure_def, Option.some.injEq,
      Prod.exists] at h
    obtain ⟨data, faulty, hdata, guest, guestFaulty, hguest, ept, eptFaulty, hept, rfl⟩ := h
    unfold SavedPtes.lengths
    rw [setFaultyPages_length hdata, setFaultyPages_length hguest, setFaultyPages_length hept]
    exact ⟨rfl, rfl⟩

theorem setFaultyPagePermissions_defined (hc : s.ptepsCached = true) (hf : s.saved.Fits cfg) :
    ∃ s', setFaultyPagePermissions cfg s = some s' := by
  obtain ⟨host, hhost⟩ := setFaultyPages_defined cfg.modifiablePteBits cfg.dataPermissions faultyPage
    hf.faulty s.tables.data
  obtain ⟨guest, hguest⟩ := setFaultyPages_defined cfg.modifiablePteBits cfg.dataPermissions id
    hf.guestFaulty s.tables.guest
  obtain ⟨ept, hept⟩ := setFaultyPages_defined cfg.modifiableEpteBits cfg.dataEptProperties id
    hf.eptFaulty s.tables.ept
  refine ⟨{ s with
    tables := { s.tables with data := host.1, guest := guest.1, ept := ept.1 }
    saved := { s.saved with faulty := host.2, guestFaulty := guest.2, eptFaulty := ept.2 } }, ?_⟩
  simp [setFaultyPagePermissions, hc, hhost, hguest, hept]

theorem restoreFaultyPagePermissions_defined (hc : s.ptepsCached = true) (hf : s.saved.Fits cfg) :
    ∃ s', restoreFaultyPagePermissions cfg s = some s' := by
  obtain ⟨s', h⟩ := (recoverOrigState_returns_iff hc).2 hf
  simp only [recoverOrigState, Option.bind_eq_bind, Option.bind_eq_some_iff] at h
  obtain ⟨s₁, hs₁, -⟩ := h
  exact ⟨s₁, hs₁⟩

theorem faultyRound_lengths {i : Int} (h : faultyRound cfg env i s = some s') :
    s'.saved.lengths = s.saved.lengths ∧ s'.ptepsCached = s.ptepsCached := by
  simp only [faultyRound, Option.bind_eq_bind, Option.bind_eq_some_iff] at h
  obtain ⟨s₁, hset, h⟩ := h
  have hkept := setFaultyPagePermissions_lengths hset
  cases hex : env.execution i with
  | trapped =>
    rw [hex] at h
    cases h
    exact hkept
  | returned err r st =>
    rw [hex] at h
    obtain ⟨hsaved, hcached, -⟩ := restoreFaultyPagePermissions_spec h
    rw [hsaved, hcached]
    exact hkept

theorem faultyRound_defined (env : PtEnv) (i : Int) (hc : s.ptepsCached = true)
    (hf : s.saved.Fits cfg) : ∃ s', faultyRound cfg env i s = some s' := by
  obtain ⟨s₁, hset⟩ := setFaultyPagePermissions_defined hc hf
  obtain ⟨hlengths, hcached⟩ := setFaultyPagePermissions_lengths hset
  unfold faultyRound
  rw [hset]
  cases hex : env.execution i with
  | trapped => exact ⟨_, rfl⟩
  | returned err r st =>
    exact restoreFaultyPagePermissions_defined (s := { s₁ with tables := env.touch i s₁.tables })
      (hcached.trans hc) (hf.congr hlengths)

theorem faultyRounds_lengths {dbg : Bool} {is : List Int} {e : LoopEnd}
    (h : faultyRounds cfg env dbg is s = some (s', e)) :
    s'.saved.lengths = s.saved.lengths ∧ s'.ptepsCached = s.ptepsCached := by
  induction is generalizing s with
  | nil =>
    cases h
    exact ⟨rfl, rfl⟩
  | cons i is ih =>
    simp only [faultyRounds, Option.bind_eq_bind, Option.bind_eq_some_iff] at h
    obtain ⟨s₁, hround, h⟩ := h
    have hkept := faultyRound_lengths hround
    cases hex : env.execution i with
    | trapped =>
      rw [hex] at h
      cases h
      exact hkept
    | returned err r st =>
      rw [hex] at h
      dsimp only at h
      split at h
      · cases h
        exact hkept
      · split at h
        · cases h
          exact hkept
        · exact ⟨(ih h).1.trans hkept.1, (ih h).2.trans hkept.2⟩

theorem faultyRounds_defined (env : PtEnv) (dbg : Bool) (is : List Int)
    (hc : s.ptepsCached = true) (hf : s.saved.Fits cfg) : ∃ r, faultyRounds cfg env dbg is s = some r := by
  induction is generalizing s with
  | nil => exact ⟨_, rfl⟩
  | cons i is ih =>
    obtain ⟨s₁, hround⟩ := faultyRound_defined env i hc hf
    obtain ⟨hlengths, hcached⟩ := faultyRound_lengths hround
    unfold faultyRounds
    rw [hround]
    cases hex : env.execution i with
    | trapped => exact ⟨(s₁, .trapped), rfl⟩
    | returned err r st =>
      simp only [Option.bind_eq_bind, Option.bind_some]
      split
      · exact ⟨_, rfl⟩
      · split
        · exact ⟨_, rfl⟩
        · exact ih (hcached.trans hc) (hf.congr hlengths)

/-- There is room to save the entries of the test case: the arrays can be allocated or are large
enough from before. -/
structure HasRoom (cfg : PtConfig) (zalloc : Nat → Bool) (s : PtState) : Prop where
  cached : s.ptepsCached = true
  allocated : s.oldNActors < cfg.nActors → ∀ k < 3, zalloc k = true
  util : cfg.nUtilPages ≤ s.saved.util.length
  kept : cfg.nActors ≤ s.oldNActors → nDataPagesPerActor * cfg.nActors ≤ s.saved.data.length ∧
    nCodePagesPerActor * cfg.nActors ≤ s.saved.code.length ∧ cfg.nActors ≤ s.saved.faulty.length
  guests : ∀ a ∈ cfg.guests, a < s.saved.guestFaulty.length ∧ a < s.saved.eptFaulty.length

/-- The arrays in which the entries are saved. -/
def arraysOf (cfg : PtConfig) (zalloc : Nat → Bool) (s : PtState) : SavedPtes × Int :=
  if s.oldNActors < cfg.nActors then reallocSaved cfg zalloc s.saved else (s.saved, 0)

theorem reallocSaved_of_ok {zalloc : Nat → Bool} (h : ∀ k < 3, zalloc k = true)
    (saved : SavedPtes) : reallocSaved cfg zalloc saved = ({ saved with
      data := zeroed (nDataPagesPerActor * cfg.nActors)
      code := zeroed (nCodePagesPerActor * cfg.nActors)
      faulty := zeroed cfg.nActors }, 0) := by
  simp [reallocSaved, h 0 (by omega), h 1 (by omega), h 2 (by omega)]

theorem reallocSaved_ok {zalloc : Nat → Bool} {saved : SavedPtes}
    (h : (reallocSaved cfg zalloc saved).2 = 0) : ∀ k < 3, zalloc k = true := by
  unfold reallocSaved at h
  dsimp only at h
  have hfailed : (-enomem : Int) ≠ 0 := by decide
  split at h
  · exact absurd h hfailed
  · split at h
    · exact absurd h hfailed
    · split at h
      · exact absurd h hfailed
      · rename_i h0 h1 h2
        intro k hk
        have hcases : k = 0 ∨ k = 1 ∨ k = 2 := by omega
        rcases hcases with rfl | rfl | rfl
        · simpa using h0
        · simpa using h1
        · simpa using h2

theorem range_lt_iff {n m : Nat} : (∀ i ∈ List.range n, i < m) ↔ n ≤ m := by
  constructor
  · intro h
    by_contra hlt
    exact absurd (h m (List.mem_range.2 (by omega))) (by omega)
  · intro h i hi
    exact Nat.lt_of_lt_of_le (List.mem_range.1 hi) h

theorem fits_iff {saved : SavedPtes} : saved.Fits cfg ↔
    cfg.nUtilPages ≤ saved.util.length ∧ nDataPagesPerActor * cfg.nActors ≤ saved.data.length ∧
      nCodePagesPerActor * cfg.nActors ≤ saved.code.length ∧ cfg.nActors ≤ saved.faulty.length ∧
      ∀ a ∈ cfg.guests, a < saved.guestFaulty.length ∧ a < saved.eptFaulty.length := by
  constructor
  · intro h
    exact ⟨range_lt_iff.1 h.util, range_lt_iff.1 h.data, range_lt_iff.1 h.code,
      range_lt_iff.1 h.faulty, fun a ha => ⟨h.guestFaulty a ha, h.eptFaulty a ha⟩⟩
  · rintro ⟨hutil, hdata, hcode, hfaulty, hguests⟩
    exact ⟨range_lt_iff.2 hutil, range_lt_iff.2 hdata, range_lt_iff.2 hcode,
      range_lt_iff.2 hfaulty, fun a ha => (hguests a ha).1, fun a ha => (hguests a ha).2⟩

theorem hasRoom_iff {zalloc : Nat → Bool} (hc : s.ptepsCached = true) :
    HasRoom cfg zalloc s ↔
      (arraysOf cfg zalloc s).2 = 0 ∧ (arraysOf cfg zalloc s).1.Fits cfg := by
  unfold arraysOf
  rw [fits_iff]
  by_cases hlt : s.oldNActors < cfg.nActors
  · rw [if_pos hlt]
    constructor
    · intro h
      rw [reallocSaved_of_ok (h.allocated hlt)]
      exact ⟨rfl, h.util, by simp [zeroed], by simp [zeroed], by simp [zeroed], h.guests⟩
    · rintro ⟨hok, hf⟩
      have hall := reallocSaved_ok hok
      rw [reallocSaved_of_ok hall] at hf
      exact ⟨hc, fun _ => hall, hf.1, fun hle => absurd hlt (by omega), hf.2.2.2.2⟩
  · rw [if_neg hlt]
    constructor
    · intro h
      have hkept := h.kept (by omega)
      exact ⟨rfl, h.util, hkept.1, hkept.2.1, hkept.2.2, h.guests⟩
    · rintro ⟨-, hutil, hdata, hcode, hfaulty, hguests⟩
      exact ⟨hc, fun h => absurd h hlt, hutil, fun _ => ⟨hdata, hcode, hfaulty⟩, hguests⟩

/-- After a failed allocation there is an array without room. -/
theorem arraysOf_ok {zalloc : Nat → Bool} (hf : (arraysOf cfg zalloc s).1.Fits cfg) :
    (arraysOf cfg zalloc s).2 = 0 := by
  unfold arraysOf at hf ⊢
  by_cases hlt : s.oldNActors < cfg.nActors
  · rw [if_pos hlt] at hf ⊢
    by_contra herr
    obtain ⟨-, hdata, hcode, hfaulty, -⟩ := fits_iff.1 hf
    unfold nDataPagesPerActor at hdata
    unfold nCodePagesPerActor at hcode
    rcases reallocSaved_failed herr with hnil | hnil | hnil
    · rw [hnil, List.length_nil] at hdata
      omega
    · rw [hnil, List.length_nil] at hcode
      omega
    · rw [hnil, List.length_nil] at hfaulty
      omega
  · rw [if_neg hlt]

theorem storeOrigHostPermissions_eq (zalloc : Nat → Bool) (hc : s.ptepsCached = true) :
    storeOrigHostPermissions cfg zalloc s =
      if (arraysOf cfg zalloc s).2 ≠ 0 then
        some ({ s with saved := (arraysOf cfg zalloc s).1 }, (arraysOf cfg zalloc s).2)
      else do
        let util ← storePtes s.tables.util (List.range cfg.nUtilPages) (arraysOf cfg zalloc s).1.util
        let data ← storePtes s.tables.data cfg.dataPages (arraysOf cfg zalloc s).1.data
        let code ← storePtes s.tables.code cfg.codePages (arraysOf cfg zalloc s).1.code
        return ({ s with
          oldNActors := cfg.nActors
          saved := { (arraysOf cfg zalloc s).1 with
            util := util, data := data, code := code } }, 0) := by
  unfold storeOrigHostPermissions
  rw [if_neg (by simp [hc])]
  rfl

theorem setSandboxPageTables_lengths {zalloc : Nat → Bool} {err : Int} (hc : s.ptepsCached = true)
    (h : setSandboxPageTables cfg zalloc s = some (s', err)) :
    s'.ptepsCached = true ∧ s'.saved.lengths = (arraysOf cfg zalloc s).1.lengths := by
  simp only [setSandboxPageTables, Option.bind_eq_bind, Option.bind_eq_some_iff] at h
  obtain ⟨⟨s₁, err₁⟩, hstore, h⟩ := h
  have hkept : s₁.ptepsCached = true ∧
      s₁.saved.lengths = (arraysOf cfg zalloc s).1.lengths := by
    rw [storeOrigHostPermissions_eq zalloc hc] at hstore
    generalize arraysOf cfg zalloc s = r at hstore ⊢
    split at hstore
    · cases hstore
      exact ⟨hc, rfl⟩
    · simp only [Option.bind_eq_bind, Option.bind_eq_some_iff, Option.pure_def,
        Option.some.injEq, Prod.mk.injEq] at hstore
      obtain ⟨util, hutil, data, hdata, code, hcode, rfl, rfl⟩ := hstore
      unfold SavedPtes.lengths
      rw [storePtes_length hutil, storePtes_length hdata, storePtes_length hcode]
      exact ⟨hc, rfl⟩
  dsimp only at h
  split at h
  · cases h
    exact hkept
  · cases h
    split
    · exact hkept
    · exact hkept

theorem setSandboxPageTables_defined {zalloc : Nat → Bool} (hc : s.ptepsCached = true)
    (hok : (arraysOf cfg zalloc s).2 = 0) (hf : (arraysOf cfg zalloc s).1.Fits cfg) :
    ∃ s', setSandboxPageTables cfg zalloc s = some (s', 0) := by
  obtain ⟨util, hutil⟩ := storePtes_defined (fun i hi => hf.util i hi) s.tables.util
  obtain ⟨data, hdata⟩ := storePtes_defined (fun i hi => hf.data i hi) s.tables.data
  obtain ⟨code, hcode⟩ := storePtes_defined (fun i hi => hf.code i hi) s.tables.code
  unfold setSandboxPageTables
  rw [storeOrigHostPermissions_eq zalloc hc, if_neg (by simp [hok]), hutil, hdata, hcode]
  exact ⟨_, rfl⟩

/-- An experiment returns exactly if there is room to save the entries, or if there is nothing to
save because there are no actors. Else the recovery runs into a missing array. -/
theorem runPageTables_returns_iff {w : Int} {dbg : Bool} {n : Nat} :
    (∃ s' err, runPageTables cfg env w dbg n s = some (s', err)) ↔
      HasRoom cfg env.zalloc s ∨ s.ptepsCached = false ∧ cfg.nActors = 0 := by
  cases hc : s.ptepsCached with
  | false =>
    have hset : setSandboxPageTables cfg env.zalloc s = some (s, -eio) := by
      simp [setSandboxPageTables, storeOrigHostPermissions, hc, eio]
    rw [or_iff_right fun h : HasRoom cfg env.zalloc s => absurd (hc.symm.trans h.cached) (by simp),
      and_iff_right rfl]
    constructor
    · rintro ⟨s', err, h⟩
      simp only [runPageTables, Option.bind_eq_bind, Option.bind_eq_some_iff] at h
      obtain ⟨⟨s₁, err₁⟩, hset', h⟩ := h
      cases hset.symm.trans hset'
      dsimp only at h
      rw [if_pos (by decide), Option.bind_eq_some_iff] at h
      obtain ⟨s₂, hrecover, -⟩ := h
      exact (recoverOrigState_failed (Or.inl hc) hrecover).1
    · intro hzero
      have hnone : cfg.actors = [] := by simp [PtConfig.actors, hzero]
      have hguests : cfg.guests = [] := by simp [PtConfig.guests, hnone]
      refine ⟨{ s with ptepsCached := false }, -eio, ?_⟩
      simp [runPageTables, hset, recoverOrigState, restoreFaultyPagePermissions,
        restoreOrigHostPermissions, hc, hzero, hnone, hguests, restoreFaultyPages, eio]
  | true =>
    rw [or_iff_left (by simp), hasRoom_iff hc]
    constructor
    · rintro ⟨s', err, h⟩
      simp only [runPageTables, Option.bind_eq_bind, Option.bind_eq_some_iff] at h
      obtain ⟨⟨s₁, err₁⟩, hset, h⟩ := h
      obtain ⟨hcached, hlengths⟩ := setSandboxPageTables_lengths hc hset
      -- on every path the recovery has returned, with the arrays of the set-up
      have hrecovered : ∃ s₂ s₃ : PtState, recoverOrigState cfg s₂ = some s₃ ∧
          s₂.ptepsCached = true ∧ s₂.saved.lengths = s₁.saved.lengths := by
        dsimp only at h
        split at h
        · rw [Option.bind_eq_some_iff] at h
          obtain ⟨s₃, hrecover, -⟩ := h
          exact ⟨s₁, s₃, hrecover, hcached, rfl⟩
        · split at h
          · rw [Option.bind_eq_some_iff] at h
            obtain ⟨s₃, hrecover, -⟩ := h
            exact ⟨s₁, s₃, hrecover, hcached, rfl⟩
          · simp only [Option.bind_eq_some_iff] at h
            obtain ⟨⟨s₂, e⟩, hloop, s₃, hrecover, -⟩ := h
            obtain ⟨hsame, hcached'⟩ := faultyRounds_lengths hloop
            exact ⟨s₂, s₃, hrecover, hcached'.trans hcached, hsame⟩
      obtain ⟨s₂, s₃, hrecover, hcached₂, hsame⟩ := hrecovered
      have hf := ((recoverOrigState_returns_iff hcached₂).1 ⟨s₃, hrecover⟩).congr
        (hlengths.symm.trans hsame.symm)
      exact ⟨arraysOf_ok hf, hf⟩
    · rintro ⟨hok, hf⟩
      obtain ⟨s₁, hset⟩ := setSandboxPageTables_defined hc hok hf
      obtain ⟨hcached, hlengths⟩ := setSandboxPageTables_lengths hc hset
      have hf₁ := hf.congr hlengths
      by_cases henv : env.environmentErr ≠ 0
      · obtain ⟨s₂, hrecover⟩ := (recoverOrigState_returns_iff hcached).2 hf₁
        exact ⟨s₂, -eio, by simp [runPageTables, hset, henv, hrecover]⟩
      · obtain ⟨⟨s₂, e⟩, hloop⟩ := faultyRounds_defined env dbg (rounds w n) hcached hf₁
        obtain ⟨hsame, hcached₂⟩ := faultyRounds_lengths hloop
        obtain ⟨s₃, hrecover⟩ :=
          (recoverOrigState_returns_iff (hcached₂.trans hcached)).2 (hf₁.congr hsame)
        have henv' : env.environmentErr = 0 := by simpa using henv
        cases e with
        | complete => exact ⟨s₃, 0, by simp [runPageTables, hset, henv', hloop, hrecover]⟩
        | corrupted => exact ⟨s₃, 0, by simp [runPageTables, hset, henv', hloop, hrecover]⟩
        | error err => exact ⟨s₃, -eio, by simp [runPageTables, hset, henv', hloop, hrecover]⟩
        | trapped => exact ⟨s₃, 1, by simp [runPageTables, hset, henv', hloop, hrecover]⟩

end Experiment

/-! ### A guest whose experiment does not start -/

/-- The main actor and a guest. The arrays of the faulty pages are new: no round was run yet. -/
def sampleGuestConfig : PtConfig where
  nActors := 2
  nUtilPages := 9
  includesUserActors := false
  isUser := fun _ => false
  isGuest := fun a => a == 1
  dataPermissions := fun _ => 0x63
  dataEptProperties := fun _ => 0x63
  modifiablePteBits := 0xF80800000000006B
  modifiableEpteBits := 0xF80800000000006B

def sampleGuestState : PtState where
  tables := ⟨fun _ => 0x8000000000000163, fun _ => 0x8000000000000163, fun _ => 0x163,
    fun _ => 0x63, fun _ => 0x67⟩
  saved := ⟨zeroed 9, zeroed 8, zeroed 6, zeroed 2, zeroed 2, zeroed 2⟩
  ptepsCached := true
  oldNActors := 2

/-- The processor refuses to start virtualisation. -/
def sampleNoVm : PtEnv where
  zalloc := fun _ => true
  environmentErr := -5
  execution := fun _ => .trapped
  touch := fun _ t => t

/-- Virtualisation starts, and every execution returns a good measurement. -/
def sampleVm : PtEnv where
  zalloc := fun _ => true
  environmentErr := 0
  execution := fun _ => .returned 0 Reading.zero ⟨statusEnded, 0⟩
  touch := fun _ t => t

theorem sampleNoVm_run :
    (runPageTables sampleGuestConfig sampleNoVm 1 false 1 sampleGuestState).map
      (fun r => (r.1.tables.guest 1, r.1.tables.ept 1, r.2)) = some (0, 0, -5) := by
  decide +kernel

/-- The entries are not restored on every exit: `start_vmx_operation` fails, and the recovery
overwrites the guest's entries with the zeros of the new array. -/
theorem runPageTables_not_restored : ¬ ∀ (cfg : PtConfig) (env : PtEnv) (w : Int) (dbg : Bool)
    (n : Nat) (s s' : PtState) (err : Int), runPageTables cfg env w dbg n s = some (s', err) →
      SameEntries cfg s.tables s'.tables := by
  intro hall
  have hrun := sampleNoVm_run
  cases h : runPageTables sampleGuestConfig sampleNoVm 1 false 1 sampleGuestState with
  | none =>
    rw [h] at hrun
    cases hrun
  | some r =>
    rw [h] at hrun
    have hsame := (hall _ _ _ _ _ _ r.1 r.2 h).guests 1 (by decide)
    have hguest : r.1.tables.guest 1 = 0 := by
      have := congrArg (fun o => o.map Prod.fst) hrun
      simpa using this
    rw [hguest] at hsame
    exact absurd hsame.1 (by decide)

/-- With virtualisation the experiment restores them. -/
theorem runPageTables_restores_sample : ∃ s',
    runPageTables sampleGuestConfig sampleVm 1 false 1 sampleGuestState = some (s', 0) ∧
      SameEntries sampleGuestConfig sampleGuestState.tables s'.tables := by
  have hrun : (runPageTables sampleGuestConfig sampleVm 1 false 1 sampleGuestState).map
      (fun r => r.2) = some 0 := by decide +kernel
  cases h : runPageTables sampleGuestConfig sampleVm 1 false 1 sampleGuestState with
  | none =>
    rw [h] at hrun
    cases hrun
  | some r =>
    cases r with
    | mk s' err =>
      rw [h] at hrun
      have herr : err = 0 := by simpa using hrun
      refine ⟨s', by rw [herr], ?_⟩
      exact (runPageTables_restores h).1.2 (Or.inl ⟨rfl, by decide⟩)

end Rvzr.Km
