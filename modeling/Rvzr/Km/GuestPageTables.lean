import Rvzr.Km.PageTables
import Rvzr.Km.SandboxManager
import Rvzr.Lib.Folds
import Rvzr.Lib.TableWalk

/-!
# The page tables of the guests

`executor_km/x86/page_tables_guest.c` with the formats of `page_tables_common.h`, and how the CPU
reads the tables. Every guest actor has four tables from guest-virtual to guest-physical addresses,
and four extended tables from there to host-physical addresses, one of each level.

The kernel may refuse an allocation. A function that fails gives its error, without the state it
leaves; what a refused allocation leaves behind is in the model of the sandbox manager.
-/

namespace Rvzr.Km.GuestTables

open Rvzr.Lib

/-! ### Pages -/

/-- The pages of `guest_memory_t` and of `guest_memory_translations_t`: `guestPageTables i` is the
table of level `i + 1`. -/
inductive GuestPage where
  | util (i : Nat)
  | data (i : Nat)
  | code (i : Nat)
  | vmlaunchPage
  | gdt
  | guestPageTables (i : Nat)
  deriving DecidableEq, Repr

/-- The pages of the host's memory that the module maps or uses as tables. -/
inductive HostPage where
  | util (i : Nat)
  | data (actor i : Nat)
  | code (actor i : Nat)
  | guestGdt (actor : Nat)
  | vmlaunchPage
  | pageTable (actor i : Nat)
  | ept (actor i : Nat)
  deriving DecidableEq, Repr

inductive Vendor where
  | intel | amd
  deriving DecidableEq, Repr

/-- The allocations of `allocate_guest_page_tables`, of `set_guest_page_tables` for more actors, and
of `update_eptp`. -/
inductive Allocation where
  | pageTables | extendedPageTables | guestGdts | translations | vmlaunchPage | faultyPtes | faultyEptes
  | moreFaultyPtes | moreFaultyEptes
  | eptPtr
  deriving DecidableEq, Repr

/-- The test case, the build and the machine. `vmallocToPhys` gives the physical address of a page;
`sizeof(util_t)` is `nUtilPages` pages; `granted` are the answers of the allocator. -/
structure Config where
  nActors : Nat
  isGuest : Nat → Bool
  enableHpaGpaCollisions : Bool
  nUtilPages : Nat
  vendor : Vendor
  physicalWidth : Nat
  vmallocToPhys : HostPage → Nat
  granted : Allocation → Bool

/-- `GUEST_P_MEMORY_START`, `GUEST_V_MEMORY_START`. -/
def guestPMemoryStart : Nat := 0
def guestVMemoryStart : Nat := 0

namespace GuestPage

variable (n : Nat)

/-- The number of the page in `guest_memory_t`, with `n` pages of `util_t`. -/
def number : GuestPage → Nat
  | util i => i
  | data i => n + i
  | code i => n + nDataPagesPerActor + i
  | vmlaunchPage => n + nDataPagesPerActor + nCodePagesPerActor
  | gdt => n + nDataPagesPerActor + nCodePagesPerActor + 1
  | guestPageTables i => n + nDataPagesPerActor + nCodePagesPerActor + 2 + i

/-- The address of the page in `guest_v_memory` and in `guest_p_memory`. -/
def vaddr (p : GuestPage) : Nat := guestVMemoryStart + p.number n * pageSize
def paddr (p : GuestPage) : Nat := guestPMemoryStart + p.number n * pageSize

/-- The pages that the loops of `set_guest_page_tables` map, in their order. -/
def mapped : List GuestPage :=
  (List.range n).map util ++ (List.range nDataPagesPerActor).map data ++
    (List.range nCodePagesPerActor).map code ++ [gdt, vmlaunchPage]

/-- The pages that the loops of `set_extended_page_tables` map. -/
def extended : List GuestPage := mapped n ++ (List.range 4).map guestPageTables

/-- The host page behind a page of an actor. -/
def host (actor : Nat) : GuestPage → HostPage
  | util i => .util i
  | data i => .data actor i
  | code i => .code actor i
  | vmlaunchPage => .vmlaunchPage
  | gdt => .guestGdt actor
  | guestPageTables i => .pageTable actor i

end GuestPage

/-! ### Entries -/

/-- `pte_t_`, and the fields that the formats of the other levels share with it. -/
structure Pte where
  present : Bool := false
  writeAccess : Bool := false
  userSupervisor : Bool := false
  pageWriteThrough : Bool := false
  pageCacheDisable : Bool := false
  accessed : Bool := false
  dirty : Bool := false
  paddr : Nat := 0
  executeDisable : Bool := false
  deriving DecidableEq, Repr

/-- `epte_t_` and the other levels: the fields of the Intel format, and of the AMD format, which is
that of a page table entry. -/
structure Epte where
  readAccess : Bool := false
  executeAccess : Bool := false
  eptMemType : Nat := 0
  ignorePat : Bool := false
  present : Bool := false
  userSupervisor : Bool := false
  pageWriteThrough : Bool := false
  pageCacheDisable : Bool := false
  pageAttributeTable : Bool := false
  executeDisable : Bool := false
  writeAccess : Bool := false
  accessed : Bool := false
  dirty : Bool := false
  paddr : Nat := 0
  deriving DecidableEq, Repr

/-- `PML4_INDEX` to `PT_INDEX`: the bits from the shift on, in tables of 512 entries. -/
def entriesPerPage : Nat := 512
def pml4Index (vaddr : Nat) : Nat := vaddr / 2 ^ 39 % entriesPerPage
def pdptIndex (vaddr : Nat) : Nat := vaddr / 2 ^ 30 % entriesPerPage
def pdtIndex (vaddr : Nat) : Nat := vaddr / 2 ^ 21 % entriesPerPage
def ptIndex (vaddr : Nat) : Nat := vaddr / 2 ^ 12 % entriesPerPage

namespace Config

variable (cfg : Config)

/-- What the bit field `paddr` keeps of `PADDR >> 12`. -/
def frame (paddr : Nat) : Nat := paddr / 2 ^ 12 % 2 ^ (cfg.physicalWidth - 12)

/-- `INIT_PTE_DEFAULT`. -/
def initPte (paddr : Nat) (e : Pte) : Pte := { e with
  present := true
  writeAccess := true
  userSupervisor := false
  pageWriteThrough := false
  pageCacheDisable := false
  paddr := cfg.frame paddr
  executeDisable := false
  accessed := true }

/-- `INIT_EPTE_DEFAULT`. -/
def initEpte (paddr : Nat) (e : Epte) : Epte :=
  match cfg.vendor with
  | .intel => { e with
    readAccess := true
    writeAccess := true
    executeAccess := true
    paddr := cfg.frame paddr
    accessed := true }
  | .amd => { e with
    present := true
    writeAccess := true
    userSupervisor := true
    pageWriteThrough := false
    pageCacheDisable := false
    paddr := cfg.frame paddr
    executeDisable := false
    accessed := true }

/-- The additional properties of the last level. -/
def lastLevel (e : Epte) : Epte :=
  match cfg.vendor with
  | .intel => { e with dirty := true, eptMemType := 6, ignorePat := true }
  | .amd => { e with dirty := true, pageAttributeTable := true }

/-- `EPTE_IS_PRESENT`. -/
def epteIsPresent (e : Epte) : Bool :=
  match cfg.vendor with
  | .intel => e.readAccess
  | .amd => e.present

end Config

/-! ### The state -/

/-- `hgpa_t`. -/
structure Hgpa where
  hpa : Nat := 0
  gpa : Nat := 0
  gva : Nat := 0
  hva : Option HostPage := none
  deriving DecidableEq, Repr

/-- `actor_page_table_t`. -/
structure ActorPageTable where
  l1 : Nat → Pte := fun _ => {}
  l2 : Nat → Pte := fun _ => {}
  l3 : Nat → Pte := fun _ => {}
  l4 : Nat → Pte := fun _ => {}

/-- `actor_ept_t`. -/
structure ActorEpt where
  l1 : Nat → Epte := fun _ => {}
  l2 : Nat → Epte := fun _ => {}
  l3 : Nat → Epte := fun _ => {}
  l4 : Nat → Epte := fun _ => {}

/-- The entries of one actor in the arrays of the module. -/
structure ActorTables where
  pageTable : ActorPageTable := {}
  ept : ActorEpt := {}
  translations : GuestPage → Hgpa := fun _ => {}

/-- `eptp_t`. -/
structure Eptp where
  memoryType : Nat := 0
  pageWalkLength : Nat := 0
  adEnabled : Bool := false
  supervSdwStack : Bool := false
  paddr : Nat := 0
  deriving DecidableEq, Repr

/-- `oldNActors` and `guestPtOldNActors` are the static variables of `allocate_guest_page_tables` and
of `set_guest_page_tables`. -/
structure State where
  actors : Nat → ActorTables
  eptPtr : List Eptp
  guestPtIsSet : Bool
  eptIsSet : Bool
  oldNActors : Nat
  guestPtOldNActors : Nat

section Functions

variable (cfg : Config)

/-- `CHECKED_VMALLOC` and `CHECKED_ZALLOC`, one after the other. -/
def checkedAlloc (l : List Allocation) : Except Int Unit :=
  if l.all cfg.granted then .ok () else .error (-enomem)

/-- `CHECK_ERR`. -/
def checkErr {α : Type} (x : Except Int α) : Except Int α := x.mapError fun _ => -eio

/-! ### The guest page tables -/

/-- `set_last_pt_level`, for the entry of the page in the translations. -/
def setLastPtLevel (s : ActorTables) (p : GuestPage) (paddr vaddr : Nat) :
    Except Int ActorTables :=
  if (s.pageTable.l1 (ptIndex vaddr)).present then .error (-eio)
  else
    let e := { cfg.initPte paddr (s.pageTable.l1 (ptIndex vaddr)) with dirty := true }
    .ok { s with
      pageTable := { s.pageTable with
        l1 := Function.update s.pageTable.l1 (ptIndex vaddr) e }
      translations := Function.update s.translations p
        { s.translations p with gpa := paddr, gva := vaddr } }

/-- The guest-physical address of a page. With collisions, that of a data or code page is the
host-physical address of the same page of the first actor. -/
def gpaOf (p : GuestPage) : Nat :=
  if cfg.enableHpaGpaCollisions then
    match p with
    | .data i => cfg.vmallocToPhys (.data 0 i)
    | .code i => cfg.vmallocToPhys (.code 0 i)
    | p => p.paddr cfg.nUtilPages
  else p.paddr cfg.nUtilPages

/-- The first three levels: each has one entry, for the table below it. -/
def setUpperLevels (s : ActorTables) : ActorTables :=
  let gpa i := (GuestPage.guestPageTables i).paddr cfg.nUtilPages
  let pt := s.pageTable
  let setGpa (t : GuestPage → Hgpa) i := Function.update t (.guestPageTables i)
    { t (.guestPageTables i) with gpa := gpa i }
  { s with
    pageTable := { pt with
      l4 := Function.update pt.l4 (pml4Index guestVMemoryStart)
        (cfg.initPte (gpa 2) (pt.l4 (pml4Index guestVMemoryStart)))
      l3 := Function.update pt.l3 (pdptIndex guestVMemoryStart)
        (cfg.initPte (gpa 1) (pt.l3 (pdptIndex guestVMemoryStart)))
      l2 := Function.update pt.l2 (pdtIndex guestVMemoryStart)
        (cfg.initPte (gpa 0) (pt.l2 (pdtIndex guestVMemoryStart))) }
    translations := [3, 2, 1, 0].foldl setGpa s.translations }

/-- The round of `set_guest_page_tables` for one guest. -/
def setGuestPageTable (s : ActorTables) : Except Int ActorTables :=
  (GuestPage.mapped cfg.nUtilPages).foldlM
    (fun s p => setLastPtLevel cfg s p (gpaOf cfg p) (p.vaddr cfg.nUtilPages))
    (setUpperLevels cfg s)

/-- A round for each guest. -/
def forGuests (round : Nat → ActorTables → Except Int ActorTables) (actors : Nat → ActorTables) :
    Except Int (Nat → ActorTables) :=
  ((List.range cfg.nActors).filter cfg.isGuest).foldlM
    (fun t actor => (round actor (t actor)).map (Function.update t actor)) actors

/-- `set_guest_page_tables`. -/
def setGuestPageTables (s : State) : Except Int State := do
  checkedAlloc cfg
    (if s.guestPtOldNActors < cfg.nActors then [.moreFaultyPtes, .moreFaultyEptes] else [])
  let t ← forGuests cfg (fun _ => setGuestPageTable cfg) s.actors
  return { s with actors := t, guestPtIsSet := true, guestPtOldNActors := cfg.nActors }

/-! ### The extended page tables -/

/-- `INIT_EPTE_DEFAULT` of an entry of a table. -/
def writeEpte (t : Nat → Epte) (i hpa : Nat) : Nat → Epte :=
  Function.update t i (cfg.initEpte hpa (t i))

/-- `set_ept_entry`, for the entry of the page in the translations. -/
def setEptEntry (s : ActorTables) (p : GuestPage) (l3Hpa l2Hpa l1Hpa : Nat) (hva : HostPage) :
    Except Int ActorTables :=
  let gpa := (s.translations p).gpa
  let hpa := cfg.vmallocToPhys hva
  if (s.ept.l1 (ptIndex gpa)).paddr ≠ 0 then .error (-eio)
  else if hpa = 0 then .error (-eio)
  else
    let l1 := writeEpte cfg s.ept.l1 (ptIndex gpa) hpa
    .ok { s with
      translations := Function.update s.translations p
        { s.translations p with hpa := hpa, hva := some hva }
      ept :=
        { l4 := writeEpte cfg s.ept.l4 (pml4Index gpa) l3Hpa
          l3 := writeEpte cfg s.ept.l3 (pdptIndex gpa) l2Hpa
          l2 := writeEpte cfg s.ept.l2 (pdtIndex gpa) l1Hpa
          l1 := Function.update l1 (ptIndex gpa) (cfg.lastLevel (l1 (ptIndex gpa))) } }

/-- The round of `set_extended_page_tables` for one guest. -/
def setExtendedPageTable (actor : Nat) (s : ActorTables) : Except Int ActorTables :=
  let phys i := cfg.vmallocToPhys (.ept actor i)
  (GuestPage.extended cfg.nUtilPages).foldlM
    (fun s p => setEptEntry cfg s p (phys 2) (phys 1) (phys 0) (p.host actor)) s

/-- `set_extended_page_tables`. -/
def setExtendedPageTables (s : State) : Except Int State :=
  if !s.guestPtIsSet then .error (-eio)
  else (forGuests cfg (setExtendedPageTable cfg) s.actors).map
    fun t => { s with actors := t, eptIsSet := true }

/-- The pointer to the extended tables of an actor. -/
def eptpOf (actor : Nat) : Eptp where
  memoryType := 6
  pageWalkLength := 3
  adEnabled := true
  supervSdwStack := false
  paddr := cfg.frame (cfg.vmallocToPhys (.ept actor 3))

/-- `update_eptp`. -/
def updateEptp (s : State) : Except Int State :=
  if !s.eptIsSet then .error (-eio)
  else (checkedAlloc cfg [.eptPtr]).map
    fun _ => { s with eptPtr := (List.range cfg.nActors).map (eptpOf cfg) }

/-! ### The interface -/

/-- `map_sandbox_to_guest_memory`. -/
def mapSandboxToGuestMemory (s : State) : Except Int State := do
  let s ← checkErr (setGuestPageTables cfg s)
  let s ← checkErr (setExtendedPageTables cfg s)
  checkErr (updateEptp cfg s)

/-- `allocate_guest_page_tables`: the tables of the actors are zeroed, in new memory if there are
more actors than before. -/
def allocateGuestPageTables (s : State) : Except Int State :=
  let zeroed := fun actor => if actor < cfg.nActors then {} else s.actors actor
  if 64 ≤ cfg.nActors then .error (-eio)
  else if cfg.nActors ≤ s.oldNActors then .ok { s with actors := zeroed }
  else (checkedAlloc cfg [.pageTables, .extendedPageTables, .guestGdts, .translations, .vmlaunchPage,
      .faultyPtes, .faultyEptes]).map fun _ => { s with
    actors := zeroed
    guestPtIsSet := false
    eptIsSet := false
    oldNActors := cfg.nActors }

/-- The part of `allocate_sandbox` for test cases with guests. -/
def setUpGuests (s : State) : Except Int State := do
  let s ← checkErr (allocateGuestPageTables cfg s)
  checkErr (mapSandboxToGuestMemory cfg s)

end Functions

/-! ### How the CPU reads the tables -/

def ActorPageTable.table (t : ActorPageTable) : Nat → Nat → Pte
  | 0 => t.l1
  | 1 => t.l2
  | 2 => t.l3
  | _ => t.l4

def ActorEpt.table (t : ActorEpt) : Nat → Nat → Epte
  | 0 => t.l1
  | 1 => t.l2
  | 2 => t.l3
  | _ => t.l4

section Cpu

variable (cfg : Config) (s : State)

/-- The pages of an actor. -/
def actorPages (actor : Nat) : List HostPage :=
  (List.range nDataPagesPerActor).map (.data actor) ++
    (List.range nCodePagesPerActor).map (.code actor) ++ [.guestGdt actor] ++
    (List.range 4).map (.pageTable actor) ++ (List.range 4).map (.ept actor)

/-- The pages in memory. -/
def hostPages : List HostPage :=
  (List.range cfg.nUtilPages).map .util ++ [.vmlaunchPage] ++
    (List.range cfg.nActors).flatMap actorPages

/-- The page at a physical address. -/
def pageAt (hpa : Nat) : Option HostPage :=
  (hostPages cfg).find? fun p => cfg.vmallocToPhys p == hpa

/-- The address in an entry, if the entry is present. -/
def Pte.target (e : Pte) : Option Nat :=
  if e.present then some (e.paddr * pageSize) else none

def Config.eptTarget (e : Epte) : Option Nat :=
  if cfg.epteIsPresent e then some (e.paddr * pageSize) else none

/-- An access to an extended table in host-physical memory. -/
def eptNext (tableHpa i : Nat) : Option Nat :=
  match pageAt cfg tableHpa with
  | some (.ept actor level) => cfg.eptTarget ((s.actors actor).ept.table level i)
  | _ => none

/-- The host-physical address of a guest-physical address, through the extended page tables of the
pointer. -/
def eptTranslate (eptp : Eptp) (gpa : Nat) : Option Nat :=
  if gpa < 2 ^ 48 then
    (tableWalk (eptNext cfg s) (eptp.paddr * pageSize)
      (tableIndices entriesPerPage (eptp.pageWalkLength + 1) (gpa / pageSize))).map
        (· + gpa % pageSize)
  else none

/-- An access to a guest table in guest-physical memory. -/
def guestNext (eptp : Eptp) (tableGpa i : Nat) : Option Nat :=
  (eptTranslate cfg s eptp tableGpa).bind fun hpa =>
    match pageAt cfg hpa with
    | some (.pageTable actor level) => Pte.target ((s.actors actor).pageTable.table level i)
    | _ => none

/-- The `cr3` of the guests in `vmx.c` and `svm.c`. -/
def guestCr3 : Nat := (GuestPage.guestPageTables 3).paddr cfg.nUtilPages

/-- The guest-physical address of the 48 bits of a guest-virtual address. -/
def guestWalk (eptp : Eptp) (gva : Nat) : Option Nat :=
  if gva < 2 ^ 48 then
    (tableWalk (guestNext cfg s eptp) (guestCr3 cfg) (tableIndices entriesPerPage 4 (gva / pageSize))).map
      (· + gva % pageSize)
  else none

/-- The host-physical address that a guest accesses. -/
def guestTranslate (eptp : Eptp) (gva : Nat) : Option Nat :=
  (guestWalk cfg s eptp gva).bind (eptTranslate cfg s eptp)

end Cpu

end Rvzr.Km.GuestTables
