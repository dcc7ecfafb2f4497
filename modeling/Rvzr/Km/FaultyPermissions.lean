import Rvzr.Km.TablesRestored
import Rvzr.Km.SpecialRegisters
import Rvzr.Lib.Bits
import Rvzr.Lib.Answers
import Rvzr.Unicorn.Permissions

/-!
# Permissions of the faulty pages in the model and in the executor

The model protects the faulty area of an actor by the masks of the actor, the executor by writing
the modifiable bits of the masks into its page tables (`page_tables_host.c`,
`x86/page_tables_guest.c`). All bits that decide about reads and writes are modifiable, so both
permit the same accesses (`protection_agrees`). The user bit is not modifiable: it comes from
`set_user_pages`, and `user_faults_agree_iff` says when the two sides agree on it.
-/

namespace Rvzr.Km

open Rvzr.Lib
open Rvzr.TestCase (ActorMode ActorPL)
open Rvzr.Config (PteDescriptor PteBitName TargetDesc x86TargetDesc)
open Rvzr.Unicorn (DataArea dataSizePerActor getDataAddr)
open Rvzr.Faults

/-- `MODIFIABLE_PTE_BITS` on x86: present, writable, write-through, cache-disable, accessed, dirty,
reserved (51), the protection key (59 to 62), non-executable. -/
def modifiablePteBitsX86 : UInt64 := 0xF80800000000007B

/-- `MODIFIABLE_EPTE_BITS` on Intel: present, writable, executable, accessed, dirty, user, reserved
(51). -/
def modifiableEpteBitsIntel : UInt64 := 0x0008000000000707

/-- The configuration of the page tables for a test case on x86. -/
def ptConfig (isIntel includesUserActors : Bool) (nUtilPages : Nat)
    (actors : List Config.Actor) : PtConfig where
  nActors := actors.length
  nUtilPages := nUtilPages
  includesUserActors := includesUserActors
  isUser a := actors[a]?.any fun actor => actor.privilegeLevel = .user
  isGuest a := actors[a]?.any fun actor => actor.mode = .guest
  dataPermissions a := UInt64.ofNat ((actors[a]?.map fun actor => actor.dataProperties).getD 0)
  dataEptProperties a :=
    UInt64.ofNat ((actors[a]?.map fun actor => actor.dataEptProperties).getD 0)
  modifiablePteBits := modifiablePteBitsX86
  modifiableEpteBits := if isIntel then modifiableEpteBitsIntel else modifiablePteBitsX86

/-! ### The entries that the executor writes -/

section Entries

variable {modifiable : UInt64} {perms : Nat → UInt64} {slot : Nat → Nat}

theorem setFaultyPages_entries (hslot : Function.Injective slot) {actors : List Nat}
    (hnodup : actors.Nodup) {live live' : Ptes} {saved saved' : List UInt64}
    (h : setFaultyPages modifiable perms slot actors (live, saved) = some (live', saved')) :
    (∀ a ∈ actors, live' (slot a) = applyMask modifiable (perms a) (live (slot a))) ∧
      ∀ page, (∀ a ∈ actors, slot a ≠ page) → live' page = live page := by
  induction actors generalizing live saved with
  | nil =>
    cases h
    exact ⟨fun a ha => absurd ha List.not_mem_nil, fun page _ => rfl⟩
  | cons b actors ih =>
    rw [setFaultyPages] at h
    by_cases hlt : b < saved.length
    · rw [if_pos hlt] at h
      have hb : b ∉ actors := (List.nodup_cons.1 hnodup).1
      have hrest := ih (List.nodup_cons.1 hnodup).2 h
      refine ⟨fun a ha => ?_, fun page hpage => ?_⟩
      · rcases List.mem_cons.1 ha with rfl | hmem
        · rw [hrest.2 (slot a) fun c hc heq => hb (hslot heq ▸ hc), Function.update_self]
        · have hne : slot a ≠ slot b := fun heq => hb (hslot heq ▸ hmem)
          rw [hrest.1 a hmem, Function.update_of_ne hne]
      · have hne : page ≠ slot b := fun heq => hpage b List.mem_cons_self heq.symm
        rw [hrest.2 page fun a ha => hpage a (List.mem_cons_of_mem _ ha),
          Function.update_of_ne hne]
    · rw [if_neg hlt] at h
      cases h

variable {cfg : PtConfig} {s s' : PtState}

/-- What `set_faulty_page_permissions` writes: in each table the entries of the faulty pages. -/
theorem setFaultyPagePermissions_entries (h : setFaultyPagePermissions cfg s = some s') :
    (∀ a ∈ cfg.actors, s'.tables.data (faultyPage a) =
      applyMask cfg.modifiablePteBits (cfg.dataPermissions a) (s.tables.data (faultyPage a))) ∧
    (∀ a ∈ cfg.guests, s'.tables.guest a =
      applyMask cfg.modifiablePteBits (cfg.dataPermissions a) (s.tables.guest a)) ∧
    (∀ a ∈ cfg.guests, s'.tables.ept a =
      applyMask cfg.modifiableEpteBits (cfg.dataEptProperties a) (s.tables.ept a)) ∧
    ∀ page, (∀ a ∈ cfg.actors, faultyPage a ≠ page) → s'.tables.data page = s.tables.data page := by
  unfold setFaultyPagePermissions at h
  split at h
  · cases h
  · simp only [Option.bind_eq_bind, Option.bind_eq_some_iff, Option.pure_def, Option.some.injEq,
      Prod.exists] at h
    rcases h with ⟨data, faulty, hdata, guest, guestFaulty, hguest, ept, eptFaulty, hept, rfl⟩
    have hd := setFaultyPages_entries faultyPage_injective actors_nodup hdata
    have hg := setFaultyPages_entries Function.injective_id guests_nodup hguest
    have he := setFaultyPages_entries Function.injective_id guests_nodup hept
    exact ⟨hd.1, hg.1, he.1, hd.2⟩

theorem toNat_ofNat_testBit (mask : Nat) {i : Nat} (h : i < 64) :
    (UInt64.ofNat mask).toNat.testBit i = mask.testBit i := by
  rw [UInt64.toNat_ofNat', Nat.testBit_mod_two_pow, decide_eq_true h, Bool.true_and]

/-- A bit of an entry after its modifiable bits were set by a mask. -/
theorem testBit_applyMask (mask : Nat) (old : UInt64) {i : Nat} (h : i < 64) :
    (applyMask modifiable (UInt64.ofNat mask) old).toNat.testBit i =
      if modifiable.toNat.testBit i then mask.testBit i else old.toNat.testBit i := by
  rw [applyMask, testBit_masked _ _ _ h, toNat_ofNat_testBit mask h]

end Entries

/-! ### Reads and writes -/

section Permissions

/-- The fields of an entry that decide about reads and writes. The physical width is less than 52, so
that bit 51 is in `reserved_51_M`. -/
structure EntryFormat where
  present : Nat
  writeAccess : Nat
  accessed : Nat
  dirty : Nat

def EntryFormat.bits (f : EntryFormat) : List Nat :=
  [f.present, f.writeAccess, f.accessed, f.dirty, 51]

/-- `pte_t_`. -/
def pteFormat : EntryFormat := ⟨0, 1, 5, 6⟩

/-- `epte_t_`, where the first bit is `read_access`; on AMD it is `pte_t_`. -/
def epteFormat (isIntel : Bool) : EntryFormat := if isIntel then ⟨0, 1, 8, 9⟩ else pteFormat

/-- Whether the processor completes an access through an entry without fault and without assist. An
entry that is not present, a reserved bit and a write to a page that is not writable cause faults; it
takes an assist to set the accessed flag, and the dirty flag on a write. -/
def EntryFormat.permits (f : EntryFormat) (entry : Nat) (write : Bool) : Bool :=
  entry.testBit f.present && entry.testBit f.accessed && !entry.testBit 51 &&
    (!write || entry.testBit f.writeAccess && entry.testBit f.dirty)

/-- Whether the entries of the faulty page of an actor permit an access. An access of a guest goes
through its own entry and the extended one. -/
def entryPermits (isIntel : Bool) (t : Tables) (a : Nat) (actor : Config.Actor)
    (write : Bool) : Bool :=
  if actor.mode = .guest then
    pteFormat.permits (t.guest a).toNat write && (epteFormat isIntel).permits (t.ept a).toNat write
  else pteFormat.permits (t.data (faultyPage a)).toNat write

variable {desc : PteDescriptor} {modifiable : UInt64} {f : EntryFormat}

/-- The bits that decide about reads and writes can be set by the executor. -/
def AccessModifiable (f : EntryFormat) (modifiable : UInt64) : Prop :=
  ∀ i ∈ f.bits, i < 64 ∧ modifiable.toNat.testBit i = true

theorem accessModifiable_pte : AccessModifiable pteFormat modifiablePteBitsX86 := by
  unfold AccessModifiable
  decide +kernel

theorem accessModifiable_epte (isIntel : Bool) : AccessModifiable (epteFormat isIntel)
    (if isIntel then modifiableEpteBitsIntel else modifiablePteBitsX86) := by
  cases isIntel <;> unfold AccessModifiable <;> decide +kernel

/-- An entry that the executor writes permits what the mask says. -/
theorem permits_applyMask (h : AccessModifiable f modifiable) (mask : Nat) (old : UInt64)
    (write : Bool) :
    f.permits (applyMask modifiable (UInt64.ofNat mask) old).toNat write = f.permits mask write := by
  have hbit : ∀ i ∈ f.bits,
      (applyMask modifiable (UInt64.ofNat mask) old).toNat.testBit i = mask.testBit i := by
    intro i hi
    rcases h i hi with ⟨hlt, hset⟩
    rw [testBit_applyMask mask old hlt, if_pos hset]
  have hpresent := hbit f.present (by simp [EntryFormat.bits])
  have hwrite := hbit f.writeAccess (by simp [EntryFormat.bits])
  have haccessed := hbit f.accessed (by simp [EntryFormat.bits])
  have hdirty := hbit f.dirty (by simp [EntryFormat.bits])
  have hreserved := hbit 51 (by simp [EntryFormat.bits])
  simp only [EntryFormat.permits, hpresent, hwrite, haccessed, hdirty, hreserved]

/-- The model looks for the bits where the entries have them. -/
structure Describes (desc : PteDescriptor) (f : EntryFormat) : Prop where
  present : (desc.get? .present).map Prod.fst = some f.present
  writable : (desc.get? .writable).map Prod.fst = some f.writeAccess
  accessed : (desc.get? .accessed).map Prod.fst = some f.accessed
  dirty : (desc.get? .dirty).map Prod.fst = some f.dirty
  reserved : (desc.get? .reservedBit).map Prod.fst = some 51

theorem describes_pte (isIntel : Bool) : Describes (x86TargetDesc isIntel).pteBits pteFormat :=
  ⟨rfl, rfl, rfl, rfl, rfl⟩

theorem describes_epte (isIntel : Bool) :
    Describes (x86TargetDesc isIntel).vmPteBits (epteFormat isIntel) := by
  cases isIntel <;> exact ⟨rfl, rfl, rfl, rfl, rfl⟩

theorem pteBit_eq {name : PteBitName} {i : Nat} (h : (desc.get? name).map Prod.fst = some i)
    (pet : Nat) : pteBit desc name pet = some (pet.testBit i) := by
  rcases Option.map_eq_some_iff.mp h with ⟨bit, hbit, rfl⟩
  rw [pteBit, hbit, Option.map_some, and_bit_bne_zero]

theorem x86PageIsReadable_eq (h : Describes desc f) (pet : Nat) :
    x86PageIsReadable desc pet = some (f.permits pet false) := by
  simp only [x86PageIsReadable, pteBit_eq h.present, pteBit_eq h.accessed, pteBit_eq h.reserved,
    EntryFormat.permits, Option.bind_some, Option.map_some]
  cases pet.testBit f.present <;> cases pet.testBit f.accessed <;> simp

theorem x86PageIsWritable_eq (h : Describes desc f) (pet : Nat) :
    x86PageIsWritable desc pet = some (pet.testBit f.writeAccess && pet.testBit f.dirty) := by
  simp only [x86PageIsWritable, pteBit_eq h.writable, pteBit_eq h.dirty, Option.bind_some]
  cases pet.testBit f.writeAccess <;> simp

/-- What the model keeps for an actor. -/
def maskPermissions (isIntel : Bool) (actor : Config.Actor) : PagePermissions where
  readable := pteFormat.permits actor.dataProperties false &&
    (actor.mode ≠ .guest || (epteFormat isIntel).permits actor.dataEptProperties false)
  writable := actor.dataProperties.testBit 1 && actor.dataProperties.testBit 6 &&
    (actor.mode ≠ .guest ||
      actor.dataEptProperties.testBit (epteFormat isIntel).writeAccess &&
        actor.dataEptProperties.testBit (epteFormat isIntel).dirty)
  userAccessible := actor.dataProperties.testBit 2
  mainUserAccessible := actor.privilegeLevel = .user

variable {isIntel includesUserActors : Bool} {nUtilPages : Nat} {actors : List Config.Actor}
  {a : Nat} {actor : Config.Actor} {s s' : PtState}

theorem pagePermissions_eq (isIntel : Bool) (actor : Config.Actor) :
    pagePermissions (x86FaultInterpreter (x86TargetDesc isIntel)) actor =
      some (maskPermissions isIntel actor) := by
  have huser : pteBit (x86TargetDesc isIntel).pteBits .user actor.dataProperties =
      some (actor.dataProperties.testBit 2) := pteBit_eq rfl _
  have hwritable : x86PageIsWritable (x86TargetDesc isIntel).pteBits actor.dataProperties =
      some (actor.dataProperties.testBit 1 && actor.dataProperties.testBit 6) :=
    x86PageIsWritable_eq (describes_pte isIntel) _
  by_cases hguest : actor.mode = .guest
  · simp [pagePermissions, x86FaultInterpreter, x86PageIsReadable_eq (describes_pte isIntel),
      x86PageIsReadable_eq (describes_epte isIntel), hwritable,
      x86PageIsWritable_eq (describes_epte isIntel), huser, hguest, maskPermissions]
  · simp [pagePermissions, x86FaultInterpreter, x86PageIsReadable_eq (describes_pte isIntel),
      hwritable, huser, hguest, maskPermissions]

theorem mem_actors (h : actors[a]? = some actor) :
    a ∈ (ptConfig isIntel includesUserActors nUtilPages actors).actors :=
  List.mem_range.mpr (List.getElem?_eq_some_iff.mp h).1

theorem mem_guests (h : actors[a]? = some actor) (hguest : actor.mode = .guest) :
    a ∈ (ptConfig isIntel includesUserActors nUtilPages actors).guests := by
  refine List.mem_filter.mpr ⟨mem_actors h, ?_⟩
  simp [ptConfig, h, hguest]

/-- The entries that the executor writes for an actor permit what the model keeps for it. -/
theorem entryPermits_eq
    (hset : setFaultyPagePermissions (ptConfig isIntel includesUserActors nUtilPages actors) s =
      some s') (ha : actors[a]? = some actor) (write : Bool) :
    entryPermits isIntel s'.tables a actor write =
      (maskPermissions isIntel actor).allows write := by
  rcases setFaultyPagePermissions_entries hset with ⟨hdata, hguests, hept, -⟩
  have hperms : (ptConfig isIntel includesUserActors nUtilPages actors).dataPermissions a =
      UInt64.ofNat actor.dataProperties := by simp [ptConfig, ha]
  have heptPerms : (ptConfig isIntel includesUserActors nUtilPages actors).dataEptProperties a =
      UInt64.ofNat actor.dataEptProperties := by simp [ptConfig, ha]
  by_cases hguest : actor.mode = .guest
  · have hg : pteFormat.permits (s'.tables.guest a).toNat write =
        pteFormat.permits actor.dataProperties write := by
      rw [hguests a (mem_guests ha hguest), hperms]
      exact permits_applyMask accessModifiable_pte ..
    have he : (epteFormat isIntel).permits (s'.tables.ept a).toNat write =
        (epteFormat isIntel).permits actor.dataEptProperties write := by
      rw [hept a (mem_guests ha hguest), heptPerms]
      exact permits_applyMask (accessModifiable_epte isIntel) ..
    rw [entryPermits, if_pos hguest, hg, he]
    simp only [EntryFormat.permits, maskPermissions, PagePermissions.allows, hguest, pteFormat]
    cases write <;> simp <;> ac_rfl
  · have hd : pteFormat.permits (s'.tables.data (faultyPage a)).toNat write =
        pteFormat.permits actor.dataProperties write := by
      rw [hdata a (mem_actors ha), hperms]
      exact permits_applyMask accessModifiable_pte ..
    rw [entryPermits, if_neg hguest, hd]
    simp [EntryFormat.permits, maskPermissions, PagePermissions.allows, hguest, pteFormat]

/-- After any run, once an input is loaded, the emulator permits the accesses to the faulty page of
an actor that the processor completes through the entries of the executor without fault or assist. -/
theorem protection_agrees {ps : List PagePermissions} {events : List Faults.Event}
    {prot loaded : Protection}
    (hload : loadTestCase (x86FaultInterpreter (x86TargetDesc isIntel)) actors = some ps)
    (hrun : Faults.run ps events = some prot) (hinput : Faults.loadInput ps prot = some loaded)
    (hset : setFaultyPagePermissions (ptConfig isIntel includesUserActors nUtilPages actors) s =
      some s') (ha : actors[a]? = some actor) (write : Bool) :
    (loaded a).allows write = entryPermits isIntel s'.tables a actor write := by
  have hp : ps[a]? = some (maskPermissions isIntel actor) := by
    rw [mapM_option_getElem? hload, ha, Option.bind_some, pagePermissions_eq]
  rw [loaded_configured hrun hinput a _ hp, prot_allows, entryPermits_eq hset ha]

/-- The main actor, and a guest in user mode whose faulty page is not dirty. -/
def faultyActors : List Config.Actor :=
  [⟨.host, .kernel, "main", 0x8000000000000063, 0, false⟩,
    ⟨.guest, .user, "guest", 0x8000000000000027, 0x303, false⟩]

def faultyPermissions : List PagePermissions :=
  [⟨true, true, false, false⟩, ⟨true, false, true, true⟩]

/-- The page tables before the experiment: all pages belong to the kernel. -/
def kernelPages : PtState where
  tables := ⟨fun _ => 0x63, fun _ => 0x63, fun _ => 0x63, fun _ => 0x63, fun _ => 0x303⟩
  saved := ⟨[0], zeroed 8, zeroed 6, [0, 0], [0, 0], [0, 0]⟩
  ptepsCached := true
  oldNActors := 2

/-- Reads of the guest's page are permitted on both sides, writes are not. -/
theorem protection_agrees_guest :
    entryPermits true ((setFaultyPagePermissions (ptConfig true true 1 faultyActors)
      kernelPages).get rfl).tables 1 ⟨.guest, .user, "guest", 0x8000000000000027, 0x303, false⟩
      false = true ∧
    entryPermits true ((setFaultyPagePermissions (ptConfig true true 1 faultyActors)
      kernelPages).get rfl).tables 1 ⟨.guest, .user, "guest", 0x8000000000000027, 0x303, false⟩
      true = false := by
  have hload : loadTestCase (x86FaultInterpreter (x86TargetDesc true)) faultyActors =
      some faultyPermissions := by decide +kernel
  have hrun : Faults.run faultyPermissions [.permit 1] =
      some (setFaultyAreaRw true true 1 fun _ => .all) := rfl
  have hset : setFaultyPagePermissions (ptConfig true true 1 faultyActors) kernelPages =
      some ((setFaultyPagePermissions (ptConfig true true 1 faultyActors) kernelPages).get rfl) :=
    (Option.some_get rfl).symm
  have hagrees := protection_agrees (a := 1) hload hrun rfl hset rfl
  exact ⟨(hagrees false).symm, (hagrees true).symm⟩

end Permissions

/-! ### User faults -/

section UserFaults

variable {isIntel includesUserActors : Bool} {nUtilPages : Nat} {actors : List Config.Actor}
  {dataStart : Nat} {ps : List PagePermissions} {zalloc : Nat → Bool} {s s₁ s₂ : PtState}
  {cpu : SpecialRegisters.Cpu} {opts : SpecialRegisters.Options}
  {st regs : SpecialRegisters.State}

/-- The user bit of an entry. -/
def isUserEntry (entry : UInt64) : Bool := entry.toNat.testBit 2

/-- SMAP is on: `X86_CR4_SMAP`. -/
def smapIsOn (m : SpecialRegisters.Machine) : Bool := (m .cr4).toNat.testBit 21

/-- A host actor faults on a page: user code on the pages of the kernel, and kernel code on those of
users if SMAP is on. -/
def PrivilegeFault (smap : Bool) (pl : ActorPL) (isUser : Bool) : Prop :=
  pl = .user ∧ isUser = false ∨ pl = .kernel ∧ isUser = true ∧ smap = true

/-- The model assumes that SMAP is on. -/
theorem privilegeFault_iff {smap x y : Bool} :
    (∀ pl, PrivilegeFault true pl x ↔ PrivilegeFault smap pl y) ↔
      x = y ∧ (x = true → smap = true) := by
  constructor
  · intro h
    have hkernel := h .kernel
    have huser := h .user
    simp only [PrivilegeFault, reduceCtorEq, false_and, true_and, false_or, or_false,
      and_true] at hkernel huser
    cases x <;> cases y <;> simp_all
  · rintro ⟨rfl, hsmap⟩ pl
    cases x
    · simp [PrivilegeFault]
    · rw [hsmap rfl]

theorem testBit_and_compl (x : UInt64) {mask : UInt64} {i : Nat} (hi : i < 64)
    (h : mask.toNat.testBit i = true) : (x &&& ~~~mask).toNat.testBit i = false := by
  have hbits : ∀ y : UInt64, y.toNat.testBit i = y.toBitVec.getLsbD i := fun y => rfl
  rw [hbits] at h ⊢
  rw [UInt64.toBitVec_and, UInt64.toBitVec_not, BitVec.getLsbD_and, BitVec.getLsbD_not, h,
    Bool.not_true, Bool.and_false, Bool.and_false]

theorem setMsrsForUserActors_smap (cpu : SpecialRegisters.Cpu) (m : SpecialRegisters.Machine) :
    smapIsOn (SpecialRegisters.setMsrsForUserActors cpu m) = false := by
  have hmask : (SpecialRegisters.bit 21 ||| SpecialRegisters.bit 20).toNat.testBit 21 = true := by
    decide +kernel
  have hoff := testBit_and_compl (m .cr4) (by decide) hmask
  unfold smapIsOn SpecialRegisters.setMsrsForUserActors SpecialRegisters.wrmsr
  split
  · rwa [Function.update_self]
  · rwa [Function.update_of_ne (by simp), Function.update_self]

/-- The registers of the VM actors leave SMAP off, unless the processor does not allow it. -/
theorem setMsrsForVmActors_smap {m : SpecialRegisters.Machine} (hoff : smapIsOn m = false)
    (hfixed : ((SpecialRegisters.setMsrsForVmActors cpu opts m).1
      (.msr SpecialRegisters.msrIa32VmxCr4Fixed0)).toNat.testBit 21 = false) :
    smapIsOn (SpecialRegisters.setMsrsForVmActors cpu opts m).1 = false := by
  have hvmxe : (SpecialRegisters.bit 13).toNat.testBit 21 = false := by decide +kernel
  have hkept : ∀ id value, smapIsOn (SpecialRegisters.wrmsr cpu m id value) = false := by
    intro id value
    unfold smapIsOn SpecialRegisters.wrmsr
    split
    · exact hoff
    · rwa [Function.update_of_ne (by simp)]
  unfold SpecialRegisters.setMsrsForVmActors at hfixed ⊢
  by_cases hvm : opts.includesVmActors = true
  · rw [if_pos hvm] at hfixed ⊢
    cases hvendor : cpu.vendor
    · simp only [hvendor, SpecialRegisters.setMsrsForVmx, smapIsOn] at hoff hfixed ⊢
      rw [Function.update_of_ne (by simp), Function.update_of_ne (by simp)] at hfixed
      rw [Function.update_self, UInt64.toNat_or, UInt64.toNat_or, UInt64.toNat_and,
        Nat.testBit_or, Nat.testBit_or, Nat.testBit_and, hoff, hfixed, hvmxe]
      rfl
    · dsimp only [SpecialRegisters.setMsrsForSvm]
      split_ifs
      · exact hoff
      · exact hkept _ _
      · exact hoff
  · rwa [if_neg hvm]

/-- With user actors the test case runs with SMAP off. -/
theorem setSpecialRegisters_smap
    (hregs : SpecialRegisters.setSpecialRegisters cpu opts st = (regs, 0))
    (huser : opts.includesUserActors = true)
    (hfixed : (regs.machine (.msr SpecialRegisters.msrIa32VmxCr4Fixed0)).toNat.testBit 21 =
      false) : smapIsOn regs.machine = false := by
  unfold SpecialRegisters.setSpecialRegisters at hregs
  dsimp only at hregs
  split at hregs
  · exact absurd (congrArg Prod.snd hregs) ‹_›
  · rcases Prod.mk.inj hregs with ⟨rfl, -⟩
    unfold SpecialRegisters.setControlRegisters at hfixed ⊢
    simp only [huser, if_true] at hfixed ⊢
    exact setMsrsForVmActors_smap (setMsrsForUserActors_smap cpu _) hfixed

theorem isUserEntry_setUserBit (entry : UInt64) : isUserEntry (setUserBit entry) = true := by
  have hfour : (4 : UInt64).toNat.testBit 2 = true := by decide
  rw [isUserEntry, setUserBit, UInt64.toNat_or, Nat.testBit_or, hfour, Bool.or_true]

theorem isUserEntry_applyMask (mask : Nat) (old : UInt64) :
    isUserEntry (applyMask modifiablePteBitsX86 (UInt64.ofNat mask) old) = isUserEntry old := by
  have hmodifiable : modifiablePteBitsX86.toNat.testBit 2 = false := by decide +kernel
  rw [isUserEntry, testBit_applyMask mask old (by decide), hmodifiable]
  rfl

/-- The user bits of the data pages during an experiment: only `set_user_pages` sets them. -/
theorem isUserEntry_data
    (hset : setSandboxPageTables (ptConfig isIntel includesUserActors nUtilPages actors) zalloc s =
      some (s₁, 0))
    (hfaulty : setFaultyPagePermissions (ptConfig isIntel includesUserActors nUtilPages actors) s₁ =
      some s₂)
    (hkernel : ∀ page < nDataPagesPerActor * actors.length,
      isUserEntry (s.tables.data page) = false) {a : Nat}
    {actor : Config.Actor} (ha : actors[a]? = some actor) {page : Nat}
    (hpage : page / nDataPagesPerActor = a) :
    isUserEntry (s₂.tables.data page) =
      (includesUserActors && decide (actor.privilegeLevel = .user)) := by
  rcases setFaultyPagePermissions_entries hfaulty with ⟨hdata, -, -, hrest⟩
  have hkept : isUserEntry (s₂.tables.data page) = isUserEntry (s₁.tables.data page) := by
    by_cases hslot : ∃ b ∈ (ptConfig isIntel includesUserActors nUtilPages actors).actors,
        faultyPage b = page
    · rcases hslot with ⟨b, hb, rfl⟩
      rw [hdata b hb]
      exact isUserEntry_applyMask _ _
    · rw [hrest page fun b hb heq => hslot ⟨b, hb, heq⟩]
  simp only [setSandboxPageTables, Option.bind_eq_bind, Option.bind_eq_some_iff] at hset
  rcases hset with ⟨⟨s₀, err⟩, hstore, hset⟩
  have htables := (storeOrigHostPermissions_spec hstore).1
  dsimp only at hset htables
  by_cases herr : err ≠ 0
  · rw [if_pos herr] at hset
    have hcode : -eio = 0 := congrArg Prod.snd (Option.some.inj hset)
    exact absurd hcode (by decide)
  · rw [if_neg herr] at hset
    rcases Prod.mk.inj (Option.some.inj hset) with ⟨rfl, -⟩
    have hlt := (List.getElem?_eq_some_iff.mp ha).1
    have hclear : isUserEntry (s.tables.data page) = false := by
      refine hkernel page ?_
      rw [nDataPagesPerActor] at hpage ⊢
      omega
    obtain rfl := Option.some.inj ((List.getElem?_eq_getElem hlt).symm.trans ha)
    rw [hkept]
    cases includesUserActors with
    | false => simp [ptConfig, htables, hclear]
    | true =>
      by_cases huser : actors[a].privilegeLevel = .user
      · simp [ptConfig, setUserPages, htables, hpage, hlt, huser, isUserEntry_setUserBit]
      · simp [ptConfig, setUserPages, htables, hpage, hlt, huser, hclear]

theorem and_pageMask {n : Nat} (h : n < 2 ^ 64) : n &&& 0xFFFFFFFFFFFFF000 = n / 4096 * 4096 := by
  have hmask : 0xFFFFFFFFFFFFF000 = (2 ^ 52 - 1) <<< 12 := by decide
  have hpage : n / 4096 * 4096 = (n >>> 12) <<< 12 := by
    rw [Nat.shiftRight_eq_div_pow, Nat.shiftLeft_eq]
  refine Nat.eq_of_testBit_eq fun i => ?_
  rw [hpage, hmask, Nat.testBit_and, Nat.testBit_shiftLeft, Nat.testBit_shiftLeft,
    Nat.testBit_two_pow_sub_one, Nat.testBit_shiftRight]
  by_cases hi : 12 ≤ i
  · rw [Nat.add_sub_cancel' hi]
    by_cases hlarge : i < 64
    · have hsmall : i - 12 < 52 := by omega
      simp [hi, hsmall]
    · have hbit : n.testBit i = false :=
        Nat.testBit_lt_two_pow (Nat.lt_of_lt_of_le h (Nat.pow_le_pow_right (by decide) (by omega)))
      simp [hbit]
  · simp [hi]

/-- Whether the model takes a data page of an actor for one of a user. -/
def isUserPage (p : PagePermissions) (a page : Nat) : Bool :=
  if page = faultyPage a then p.userAccessible else p.mainUserAccessible

/-- The faults of `induce_user_faults` for an address in the data of an actor. -/
theorem induceUserFaults_iff {a address : Nat} {p : PagePermissions}
    (haligned : dataStart % 4096 = 0) (hp : ps[a]? = some p) (h : InData dataStart a address)
    (hword : address < 2 ^ 64) (pl : ActorPL) :
    (∃ errno, induceUserFaults dataStart ps pl address = some (some errno)) ↔
      PrivilegeFault true pl (isUserPage p a ((address - dataStart) / 4096)) := by
  have hlt := (List.getElem?_eq_some_iff.mp hp).1
  rcases h with ⟨hlow, hhigh⟩
  rw [getDataAddr_start] at hlow hhigh
  have hconst : dataSizePerActor = 16384 := rfl
  have hdata : isDataAddr dataStart ps.length address = true := by
    rw [isDataAddr, hconst, decide_eq_true_eq]
    omega
  have htarget : (address - dataStart) / dataSizePerActor = a := by
    rw [hconst]
    omega
  have hpage : (address &&& 0xFFFFFFFFFFFFF000 = getDataAddr dataStart .faulty a) ↔
      (address - dataStart) / 4096 = faultyPage a := by
    rw [and_pageMask hword, getDataAddr_faulty]
    simp only [faultyPage, nDataPagesPerActor, faultyPageId]
    omega
  simp only [induceUserFaults, hdata, htarget, hp, hpage, Bool.not_true, Bool.false_eq_true,
    if_false, Option.map_some, decide_eq_true_eq]
  by_cases hfaulty : (address - dataStart) / 4096 = faultyPage a
  · simp only [hfaulty, if_true, isUserPage]
    cases pl <;> cases p.userAccessible <;> simp [PrivilegeFault]
  · simp only [hfaulty, if_false, isUserPage]
    cases pl <;> cases p.mainUserAccessible <;> simp [PrivilegeFault]

/-- The two sides agree at an address in the data of an actor iff they take its page for one of the
same privilege level, and SMAP is on if it is one of a user. -/
theorem user_faults_agree_at {smap : Bool} (haligned : dataStart % 4096 = 0)
    (hload : loadTestCase (x86FaultInterpreter (x86TargetDesc isIntel)) actors = some ps)
    (hset : setSandboxPageTables (ptConfig isIntel includesUserActors nUtilPages actors) zalloc s =
      some (s₁, 0))
    (hfaulty : setFaultyPagePermissions (ptConfig isIntel includesUserActors nUtilPages actors) s₁ =
      some s₂)
    (hkernel : ∀ page < nDataPagesPerActor * actors.length,
      isUserEntry (s.tables.data page) = false) {a address : Nat} {actor : Config.Actor}
    (ha : actors[a]? = some actor) (hin : InData dataStart a address) (hword : address < 2 ^ 64) :
    (∀ pl, (∃ errno, induceUserFaults dataStart ps pl address = some (some errno)) ↔
      PrivilegeFault smap pl (isUserEntry (s₂.tables.data ((address - dataStart) / 4096)))) ↔
    (if (address - dataStart) / 4096 = faultyPage a then actor.dataProperties.testBit 2
      else decide (actor.privilegeLevel = .user)) =
      (includesUserActors && decide (actor.privilegeLevel = .user)) ∧
    ((if (address - dataStart) / 4096 = faultyPage a then actor.dataProperties.testBit 2
      else decide (actor.privilegeLevel = .user)) = true → smap = true) := by
  have hp := mapM_option_getElem? hload a
  rw [ha, Option.bind_some, pagePermissions_eq isIntel] at hp
  have hbounds := hin
  rw [InData, getDataAddr_start, getDataAddr_start] at hbounds
  have hpage : (address - dataStart) / 4096 / nDataPagesPerActor = a := by
    rw [nDataPagesPerActor]
    omega
  rw [isUserEntry_data hset hfaulty hkernel ha hpage]
  simp only [induceUserFaults_iff haligned hp hin hword]
  rw [privilegeFault_iff]
  rfl

/-- The user faults of the model are those that the host entries of the executor cause, with SMAP as
the set-up leaves it, iff the test case has no user actor and no mask with a user bit: with user
actors SMAP is off. -/
theorem user_faults_agree_iff (haligned : dataStart % 4096 = 0)
    (hword : dataStart + actors.length * dataSizePerActor ≤ 2 ^ 64)
    (hload : loadTestCase (x86FaultInterpreter (x86TargetDesc isIntel)) actors = some ps)
    (hset : setSandboxPageTables (ptConfig isIntel opts.includesUserActors nUtilPages actors)
      zalloc s = some (s₁, 0))
    (hfaulty : setFaultyPagePermissions
      (ptConfig isIntel opts.includesUserActors nUtilPages actors) s₁ = some s₂)
    (hkernel : ∀ page < nDataPagesPerActor * actors.length,
      isUserEntry (s.tables.data page) = false)
    (hregs : SpecialRegisters.setSpecialRegisters cpu opts st = (regs, 0))
    (hfixed : (regs.machine (.msr SpecialRegisters.msrIa32VmxCr4Fixed0)).toNat.testBit 21 =
      false) :
    (∀ address, isDataAddr dataStart actors.length address = true → ∀ pl,
      ((∃ errno, induceUserFaults dataStart ps pl address = some (some errno)) ↔
        PrivilegeFault (smapIsOn regs.machine) pl
          (isUserEntry (s₂.tables.data ((address - dataStart) / 4096))))) ↔
    ∀ actor ∈ actors,
      actor.privilegeLevel ≠ .user ∧ actor.dataProperties.testBit 2 = false := by
  have hconst : dataSizePerActor = 16384 := rfl
  rw [hconst] at hword
  constructor
  · intro hall actor hactor
    rcases List.mem_iff_getElem?.mp hactor with ⟨a, ha⟩
    have hlt := (List.getElem?_eq_some_iff.mp ha).1
    have hmain : InData dataStart a (dataStart + a * 16384) := by
      rw [InData, getDataAddr_start, getDataAddr_start]
      omega
    have hfault : InData dataStart a (dataStart + a * 16384 + 8192) := by
      rw [InData, getDataAddr_start, getDataAddr_start]
      omega
    have hdata : ∀ address, InData dataStart a address →
        isDataAddr dataStart actors.length address = true := by
      intro address hin
      rw [InData, getDataAddr_start, getDataAddr_start] at hin
      rw [isDataAddr, hconst, decide_eq_true_eq]
      omega
    have h₁ := (user_faults_agree_at haligned hload hset hfaulty hkernel ha hmain (by omega)).mp
      (hall _ (hdata _ hmain))
    have h₂ := (user_faults_agree_at haligned hload hset hfaulty hkernel ha hfault (by omega)).mp
      (hall _ (hdata _ hfault))
    rw [if_neg (by simp only [faultyPage, nDataPagesPerActor, faultyPageId]; omega)] at h₁
    rw [if_pos (by simp only [faultyPage, nDataPagesPerActor, faultyPageId]; omega)] at h₂
    -- a user actor needs SMAP, which is off as soon as its pages are set up
    have hpl : actor.privilegeLevel ≠ .user := by
      intro huser
      rw [huser] at h₁
      have hon := h₁.2 (decide_eq_true rfl)
      have hincludes : opts.includesUserActors = true := by simpa using h₁.1
      rw [setSpecialRegisters_smap hregs hincludes hfixed] at hon
      exact Bool.false_ne_true hon
    refine ⟨hpl, ?_⟩
    rw [h₂.1, decide_eq_false hpl, Bool.and_false]
  · intro hall address hdata
    rw [isDataAddr, hconst, decide_eq_true_eq] at hdata
    have hlt : (address - dataStart) / 16384 < actors.length := by omega
    have ha := List.getElem?_eq_getElem hlt
    have hin : InData dataStart ((address - dataStart) / 16384) address := by
      rw [InData, getDataAddr_start, getDataAddr_start]
      omega
    rcases hall _ (List.mem_of_getElem? ha) with ⟨hpl, hbit⟩
    refine (user_faults_agree_at haligned hload hset hfaulty hkernel ha hin (by omega)).mpr ?_
    rw [hbit, decide_eq_false hpl, ite_self, Bool.and_false]
    exact ⟨rfl, fun h => absurd h Bool.false_ne_true⟩

/-- The sandbox for the sample, before and after the faulty pages are set. -/
def guestSandbox : PtState :=
  ((setSandboxPageTables (ptConfig true true 1 faultyActors) (fun _ => true) kernelPages).get
    rfl).1

def guestFaultyPages : PtState :=
  (setFaultyPagePermissions (ptConfig true true 1 faultyActors) guestSandbox).get rfl

/-- A processor with all features, SMAP among them. -/
def smapCpu : SpecialRegisters.Cpu where
  vendor := .intel
  family := 6
  model := 0x8e
  hasMsrSpecCtrl := true
  hasVirtSsbd := false
  hasLsCfgSsbd := false
  vmbuild := false
  faultHandler := 0xffffffffc0000000
  ignores _ := false

def smapOptions : SpecialRegisters.Options where
  enableSsbpPatch := true
  enablePrefetchers := false
  includesUserActors := true
  includesVmActors := true

/-- `IA32_VMX_CR4_FIXED0` asks for `VMXE` only. -/
def smapState : SpecialRegisters.State where
  machine r := if r = .msr SpecialRegisters.msrIa32VmxCr4Fixed0 then 0x2000 else 0x3706f0
  saved _ := 0

/-- The guest is a user: the kernel may access its data, but the model faults. -/
theorem user_faults_agree_guest : ¬ ∀ address,
    isDataAddr 0x1000 faultyActors.length address = true → ∀ pl,
      ((∃ errno, induceUserFaults 0x1000 faultyPermissions pl address = some (some errno)) ↔
        PrivilegeFault
          (smapIsOn (SpecialRegisters.setSpecialRegisters smapCpu smapOptions smapState).1.machine)
          pl (isUserEntry (guestFaultyPages.tables.data ((address - 0x1000) / 4096)))) := by
  have hload : loadTestCase (x86FaultInterpreter (x86TargetDesc true)) faultyActors =
      some faultyPermissions := by decide +kernel
  have hset : setSandboxPageTables (ptConfig true true 1 faultyActors) (fun _ => true)
      kernelPages = some (guestSandbox, 0) := rfl
  have hfaulty : setFaultyPagePermissions (ptConfig true true 1 faultyActors) guestSandbox =
      some guestFaultyPages := rfl
  have hkernel : isUserEntry 0x63 = false := by decide +kernel
  have hok : (SpecialRegisters.setSpecialRegisters smapCpu smapOptions smapState).2 = 0 := by
    decide +kernel
  have hfixed : ((SpecialRegisters.setSpecialRegisters smapCpu smapOptions smapState).1.machine
      (.msr SpecialRegisters.msrIa32VmxCr4Fixed0)).toNat.testBit 21 = false := by decide +kernel
  intro hagree
  have hregs : SpecialRegisters.setSpecialRegisters smapCpu smapOptions smapState = (_, 0) :=
    Prod.ext rfl hok
  have hnone := (user_faults_agree_iff (by decide) (by decide +kernel) hload hset hfaulty
    (fun _ _ => hkernel) hregs hfixed).mp hagree
  exact (hnone ⟨.guest, .user, "guest", 0x8000000000000027, 0x303, false⟩ (by simp [faultyActors])).1
    rfl

end UserFaults

end Rvzr.Km
