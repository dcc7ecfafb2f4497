import Rvzr.Km.TestCaseParser
import Rvzr.Lib.Ledger
import Mathlib.Data.Nat.Log

/-!
# The memory of the sandbox

`executor_km/sandbox_manager.c`, with the tables that `allocate_sandbox` allocates in
`page_tables_host.c` and `x86/page_tables_guest.c`. The allocations are those of a ledger: the
kernel may refuse any of them, and freeing or accessing what is not allocated is a fault.

A walk of the page tables (`get_pte`, `vmalloc_to_phys`) does not access the address it is about,
so a stale address is no fault there; the state records it in `staleUse`.
-/

namespace Rvzr.Km

open Rvzr.Lib

/-! ### Sizes -/

def pageSize : Nat := 4096

/-- `sizeof(actor_data_t)`, `sizeof(actor_code_t)`. -/
def sizeofActorData : Nat := 4 * pageSize
def sizeofActorCode : Nat := 3 * pageSize

/-- The tables of one guest actor. -/
def sizeofActorPageTable : Nat := 4 * pageSize
def sizeofActorEpt : Nat := 4 * pageSize
def sizeofActorGdt : Nat := pageSize
def sizeofHgpa : Nat := 32

/-- `DIV_ROUND_UP(size, PAGE_SIZE)`. -/
def pagesOf (size : Nat) : Nat := (size + pageSize - 1) / pageSize

/-- `get_order`. -/
def getOrder (size : Nat) : Nat := Nat.clog 2 (pagesOf size)

namespace SandboxManager

/-! ### The state -/

/-- The pointers to allocated memory. `pages` is entry 0 of `page_array`. -/
inductive Var where
  | vaddrUnaligned | pageArray | pages | code | sandbox
  | dataPteps | codePteps
  | allocatedPageTables | allocatedExtendedPageTables | allocatedGuestGdts
  | guestMemoryTranslations | vmlaunchPage | faultyPtes | faultyEptes | eptPtr
  deriving DecidableEq, Repr

/-- `sandbox_t`. -/
structure SandboxPointers where
  data : Option Ptr := none
  code : Option Ptr := none
  util : Option Ptr := none
  deriving DecidableEq, Repr

/-- The other variables. Each `old…` is the static `old_n_actors` of one function. -/
structure Statics where
  vaddrAligned : Option Ptr := none
  numPages : Nat := 0
  oldXSize : Nat := 0
  loadedTestCaseEntry : Option Ptr := none
  sandbox : SandboxPointers := {}
  oldNActors : Nat := 1
  ptepsOldNActors : Nat := 1
  guestOldNActors : Nat := 0
  guestPtOldNActors : Nat := 0
  guestPtIsSet : Bool := false
  eptIsSet : Bool := false
  staleUse : Bool := false
  deriving DecidableEq, Repr

abbrev Manager := Ledger Var Statics
abbrev ManagerM := EStateM (Stop Int) Manager

/-- What the build and the kernel decide. `grant` has the address of every allocation that is not
refused, by its number, and `vmapPage` the page that `vmap` maps it to. `present` says whether the
page tables have an entry for a page that is not allocated any more, `collides` whether a guest's
entry is taken already. -/
structure Kernel where
  l1dSizeKb : Nat
  grant : Nat → Option Nat
  vmapPage : Nat → Option Nat
  present : Ptr → Bool
  collides : Nat → Bool
  enableHpaGpaCollisions : Bool

/-- The test case that memory is allocated for. -/
structure TestCase where
  nActors : Nat
  includesVmActors : Bool
  isGuest : Nat → Bool

variable (k : Kernel)

/-- `sizeof(util_t)`. -/
def sizeofUtil : Nat := k.l1dSizeKb * 1024 + pageSize

def nUtilPages : Nat := sizeofUtil k / pageSize

def sizeofTranslations : Nat := (nUtilPages k + 4 + 3 + 1 + 1 + 4) * sizeofHgpa

/-- The answers of `vmap`. -/
def vmap : Nat → Option Nat := fun i => (k.vmapPage i).map fun page => page * pageSize

/-! ### Allocation -/

/-- `CHECKED_MALLOC` and its relatives: the caller returns `-ENOMEM`. -/
def checkedAlloc (x : Var) (size : Nat) : ManagerM Unit := do
  if ← Ledger.allocate k.grant x size then pure () else throw (.error (-enomem))

/-- A walk of the page tables for an address: whether there is an entry. -/
def walk (p : Option Ptr) : ManagerM Bool := do
  let s ← get
  match p with
  | none => return false
  | some q =>
    if s.live q pageSize then return true
    else
      Ledger.modifyRest fun r => { r with staleUse := true }
      return k.present q

/-- `safe_free_util_data`; the order of the pages comes from `num_pages`. -/
def safeFreeUtilData : ManagerM Unit := do
  Ledger.free .vaddrUnaligned
  -- without a mapping the aligned address is null already
  Ledger.modifyRest fun r => { r with vaddrAligned := none }
  let s ← get
  match s.vars .pageArray with
  | none => pure ()
  | some array =>
    match s.blocks array, (s.vars .pages).bind s.blocks with
    | some _, some pages =>
      if pages.size = 2 ^ getOrder (s.rest.numPages * pageSize) * pageSize then pure ()
      else throw .fault
    | _, _ => throw .fault
    Ledger.free .pages
    Ledger.free .pageArray

/-- `safe_free_code`. -/
def safeFreeCode : ManagerM Unit := do
  let s ← get
  match s.vars .code with
  | none => pure ()
  | some _ =>
    Ledger.touch .code 0 (s.rest.oldXSize * pageSize)
    Ledger.free .code
    Ledger.modifyRest fun r => { r with loadedTestCaseEntry := none }

/-- `ALIGN(addr, 0x2000)`, as an offset from the address. -/
def alignOffset (addr : Nat) : Nat := (addr + 0x1fff) / 0x2000 * 0x2000 - addr

/-- `allocate_util_and_data`. -/
def allocateUtilAndData (nActors : Nat) : ManagerM Unit := do
  safeFreeUtilData
  let allocSize := sizeofUtil k + nActors * sizeofActorData + 0x1000
  let numPages := pagesOf allocSize
  Ledger.modifyRest fun r => { r with numPages := numPages }
  -- `alloc_pages` goes to a local variable, the entries of the array are written below
  if !(← Ledger.allocate k.grant .pages (2 ^ getOrder allocSize * pageSize)) then
    throw (.error (-enomem))
  if !(← Ledger.allocate k.grant .pageArray (numPages * 8)) then
    Ledger.free .pages
    throw (.error (-enomem))
  Ledger.touch .pageArray 0 (numPages * 8)
  if !(← Ledger.allocate (vmap k) .vaddrUnaligned (numPages * pageSize)) then
    Ledger.free .pageArray
    Ledger.free .pages
    throw (.error (-enomem))
  modify fun s => { s with rest := { s.rest with
    vaddrAligned := (s.vars .vaddrUnaligned).bind fun i => (s.blocks i).map fun b =>
      { block := i, off := alignOffset b.addr } } }

/-- `reset_code_area`: the area is filled, and begins with a return. -/
def resetCodeArea (nActors : Nat) : ManagerM Unit := do
  Ledger.touch .code 0 (sizeofActorCode * nActors)
  Ledger.touch .code 0 1

/-- `allocate_code`. -/
def allocateCode (nActors : Nat) : ManagerM Unit := do
  safeFreeCode
  checkedAlloc k .code (nActors * sizeofActorCode)
  resetCodeArea nActors
  let xSize := pagesOf (nActors * sizeofActorCode)
  Ledger.modifyRest fun r => { r with oldXSize := xSize }
  Ledger.touch .code 0 (xSize * pageSize)

/-- `init_sandbox_pointers`. -/
def initSandboxPointers : ManagerM Unit := do
  if (← get).vars .sandbox = none then checkedAlloc k .sandbox 24
  Ledger.touch .sandbox 0 24
  modify fun s =>
    let code := (s.vars .code).map fun i => { block := i, off := 0 }
    { s with rest := { s.rest with
      sandbox := {
        data := s.rest.vaddrAligned.map fun p => { p with off := p.off + sizeofUtil k }
        code := code
        util := s.rest.vaddrAligned }
      loadedTestCaseEntry := code } }

/-- `CHECK_ERR`: any error becomes `-EIO`. -/
def checkErr (x : ManagerM Unit) : ManagerM Unit :=
  tryCatch x fun
    | .error _ => throw (.error (-eio))
    | .fault => throw .fault

/-! ### The entries of the host page tables -/

/-- A position `off` bytes further. -/
def advance (p : Option Ptr) (off : Nat) : Option Ptr := p.map fun q => { q with off := q.off + off }

/-- `get_pte`, asserted not to be null. -/
def getPte (p : Option Ptr) : ManagerM Unit := do
  if ← walk k p then pure () else throw (.error (-eio))

/-- Cache the entries of `n` pages from `base` on in the array `x`, starting at index `first`. -/
def cachePages (base : Option Ptr) (x : Var) (first n : Nat) : ManagerM Unit :=
  (List.range n).forM fun i => do
    getPte k (advance base (i * pageSize))
    Ledger.touch x ((first + i) * 8) 8

/-- `cache_host_pteps`. The utility entries have an array of fixed size. -/
def cacheHostPteps (nActors : Nat) : ManagerM Unit := do
  if (← get).vars .sandbox = none then throw (.error (-eio))
  if (← get).rest.ptepsOldNActors < nActors then
    Ledger.free .dataPteps
    Ledger.free .codePteps
    checkedAlloc k .dataPteps (4 * nActors * 8)
    checkedAlloc k .codePteps (3 * nActors * 8)
  Ledger.modifyRest fun r => { r with ptepsOldNActors := nActors }
  let sandbox := (← get).rest.sandbox
  (List.range (nUtilPages k)).forM fun i => getPte k (advance sandbox.util (i * pageSize))
  (List.range nActors).forM fun actor => do
    cachePages k (advance sandbox.data (actor * sizeofActorData)) .dataPteps (actor * 4) 4
    cachePages k (advance sandbox.code (actor * sizeofActorCode)) .codePteps (actor * 3) 3

/-! ### The tables of the guests -/

/-- `allocate_guest_page_tables`. -/
def allocateGuestPageTables (nActors : Nat) : ManagerM Unit := do
  if ¬ nActors < 64 then throw (.error (-eio))
  if nActors ≤ (← get).rest.guestOldNActors then
    Ledger.touch .allocatedPageTables 0 (nActors * sizeofActorPageTable)
    Ledger.touch .allocatedExtendedPageTables 0 (nActors * sizeofActorEpt)
    Ledger.touch .allocatedGuestGdts 0 (nActors * sizeofActorGdt)
    Ledger.touch .guestMemoryTranslations 0 (nActors * sizeofTranslations k)
  else
    Ledger.modifyRest fun r => { r with guestOldNActors := nActors }
    Ledger.free .allocatedPageTables
    Ledger.free .allocatedExtendedPageTables
    Ledger.free .allocatedGuestGdts
    Ledger.free .guestMemoryTranslations
    Ledger.free .vmlaunchPage
    checkedAlloc k .allocatedPageTables (nActors * sizeofActorPageTable)
    Ledger.touch .allocatedPageTables 0 (nActors * sizeofActorPageTable)
    checkedAlloc k .allocatedExtendedPageTables (nActors * sizeofActorEpt)
    Ledger.touch .allocatedExtendedPageTables 0 (nActors * sizeofActorEpt)
    checkedAlloc k .allocatedGuestGdts (nActors * sizeofActorGdt)
    checkedAlloc k .guestMemoryTranslations (nActors * sizeofTranslations k)
    checkedAlloc k .vmlaunchPage pageSize
    Ledger.touch .vmlaunchPage 0 3
    checkedAlloc k .faultyPtes 8
    checkedAlloc k .faultyEptes 8
    Ledger.modifyRest fun r => { r with guestPtIsSet := false, eptIsSet := false }

/-- `vmalloc_to_phys` of the `n` bytes from `p` on, page by page. -/
def toPhys (p : Option Ptr) (n : Nat) : ManagerM Unit :=
  (List.range (n / pageSize)).forM fun i => do
    let _ ← walk k (advance p (i * pageSize))

/-- The entry of an actor in an array. -/
def entryOf (x : Var) (actor size : Nat) : ManagerM (Option Ptr) := do
  return ((← get).vars x).map fun i => { block := i, off := actor * size }

/-- The round of `set_guest_page_tables` for one guest. -/
def setGuestPageTable (actor : Nat) : ManagerM Unit := do
  Ledger.touch .allocatedPageTables (actor * sizeofActorPageTable) sizeofActorPageTable
  Ledger.touch .guestMemoryTranslations (actor * sizeofTranslations k) (sizeofTranslations k)
  if k.enableHpaGpaCollisions then
    toPhys k (← get).rest.sandbox.data sizeofActorData
    toPhys k (← get).rest.sandbox.code sizeofActorCode
  if k.collides actor then throw (.error (-eio))

/-- `set_guest_page_tables`. -/
def setGuestPageTables (tc : TestCase) : ManagerM Unit := do
  if (← get).rest.guestPtOldNActors < tc.nActors then
    Ledger.free .faultyPtes
    Ledger.free .faultyEptes
    checkedAlloc k .faultyPtes (8 * tc.nActors)
    checkedAlloc k .faultyEptes (8 * tc.nActors)
  Ledger.modifyRest fun r => { r with guestPtOldNActors := tc.nActors }
  ((List.range tc.nActors).filter tc.isGuest).forM (setGuestPageTable k)
  Ledger.modifyRest fun r => { r with guestPtIsSet := true }

/-- The round of `set_extended_page_tables` for one guest. -/
def setExtendedPageTable (actor : Nat) : ManagerM Unit := do
  toPhys k (← entryOf .allocatedExtendedPageTables actor sizeofActorEpt) sizeofActorEpt
  Ledger.touch .allocatedExtendedPageTables (actor * sizeofActorEpt) sizeofActorEpt
  Ledger.touch .guestMemoryTranslations (actor * sizeofTranslations k) (sizeofTranslations k)
  let sandbox := (← get).rest.sandbox
  toPhys k sandbox.util (nUtilPages k * pageSize)
  toPhys k (advance sandbox.data (actor * sizeofActorData)) sizeofActorData
  toPhys k (advance sandbox.code (actor * sizeofActorCode)) sizeofActorCode
  toPhys k (← entryOf .allocatedGuestGdts actor sizeofActorGdt) sizeofActorGdt
  toPhys k (← entryOf .vmlaunchPage 0 0) pageSize
  toPhys k (← entryOf .allocatedPageTables actor sizeofActorPageTable) sizeofActorPageTable
  if k.collides actor then throw (.error (-eio))

/-- `set_extended_page_tables`. -/
def setExtendedPageTables (tc : TestCase) : ManagerM Unit := do
  if (← get).vars .sandbox = none then throw (.error (-eio))
  if !(← get).rest.guestPtIsSet then throw (.error (-eio))
  ((List.range tc.nActors).filter tc.isGuest).forM (setExtendedPageTable k)
  Ledger.modifyRest fun r => { r with eptIsSet := true }

/-- `update_eptp`. -/
def updateEptp (nActors : Nat) : ManagerM Unit := do
  if !(← get).rest.eptIsSet then throw (.error (-eio))
  Ledger.free .eptPtr
  checkedAlloc k .eptPtr (8 * nActors)
  (List.range nActors).forM fun actor => do
    toPhys k (← entryOf .allocatedExtendedPageTables actor sizeofActorEpt) sizeofActorEpt
    Ledger.touch .eptPtr (8 * actor) 8

/-- `map_sandbox_to_guest_memory`. -/
def mapSandboxToGuestMemory (tc : TestCase) : ManagerM Unit := do
  if (← get).vars .allocatedPageTables = none then throw (.error (-eio))
  if (← get).vars .allocatedExtendedPageTables = none then throw (.error (-eio))
  if (← get).vars .allocatedGuestGdts = none then throw (.error (-eio))
  checkErr (setGuestPageTables k tc)
  checkErr (setExtendedPageTables k tc)
  checkErr (updateEptp k tc.nActors)

/-! ### The interface -/

/-- `allocate_sandbox`. -/
def allocateSandbox (tc : TestCase) : ManagerM Unit := do
  let n := tc.nActors
  if (← get).rest.oldNActors < n then
    checkErr (allocateUtilAndData k n)
    checkErr (allocateCode k n)
    checkErr (initSandboxPointers k)
  Ledger.touchAt (← get).rest.vaddrAligned (sizeofUtil k + n * sizeofActorData)
  checkErr (cacheHostPteps k n)
  if tc.includesVmActors then
    checkErr (allocateGuestPageTables k n)
    checkErr (mapSandboxToGuestMemory k tc)
  Ledger.modifyRest fun r => { r with oldNActors := n }

/-- `init_sandbox_manager`, and the arrays of `init_page_table_manager`. -/
def initSandboxManager : ManagerM Unit := do
  checkErr (allocateUtilAndData k 1)
  checkErr (allocateCode k 1)
  checkErr (initSandboxPointers k)
  checkedAlloc k .dataPteps (4 * 8)
  checkedAlloc k .codePteps (3 * 8)

/-- The state when the module is loaded. -/
def unloaded : Manager where
  blocks := fun _ => none
  vars := fun _ => none
  next := 0
  rest := {}

end SandboxManager

end Rvzr.Km
