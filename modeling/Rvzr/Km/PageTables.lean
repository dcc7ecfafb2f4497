import Rvzr.Km.Measurement
import Mathlib.Logic.Function.Basic

/-!
# The page tables of the sandbox during an experiment

`executor_km/page_tables_host.c`, the faulty-page functions of `x86/page_tables_guest.c`, and the
part of `run_experiment` that sets and restores entries (`measurement.c`). There are two pairs of
save and restore: all host entries, once for an experiment, and the entries of the faulty pages,
once for a round. `recover_orig_state` undoes both, however far the experiment came.

An access through a null pointer or past the end of an array gives no result (`none`): the
experiment does not return.
-/

namespace Rvzr.Km

/-- Page-table entries by the number of the page. -/
abbrev Ptes := Nat → UInt64

/-- The entries that the module writes: the host entries of the utility, data and code pages, and
for the guest actors the guest and the extended entry of the faulty page. -/
structure Tables where
  util : Ptes
  data : Ptes
  code : Ptes
  guest : Ptes
  ept : Ptes

/-- The copies: `orig_ptes` and `faulty_ptes` of the host, `faulty_ptes` and `faulty_eptes` of
the guests. A freed array is empty. -/
structure SavedPtes where
  util : List UInt64
  data : List UInt64
  code : List UInt64
  faulty : List UInt64
  guestFaulty : List UInt64
  eptFaulty : List UInt64
  deriving DecidableEq

/-- The state of the page table manager; `oldNActors` is the static variable of
`store_orig_host_permissions`. -/
structure PtState where
  tables : Tables
  saved : SavedPtes
  ptepsCached : Bool
  oldNActors : Nat

/-- The test case, and what the build fixes. -/
structure PtConfig where
  nActors : Nat
  nUtilPages : Nat
  includesUserActors : Bool
  isUser : Nat → Bool
  isGuest : Nat → Bool
  dataPermissions : Nat → UInt64
  dataEptProperties : Nat → UInt64
  modifiablePteBits : UInt64
  modifiableEpteBits : UInt64

/-- `N_DATA_PAGES_PER_ACTOR`, `N_CODE_PAGES_PER_ACTOR`, `FAULTY_PAGE_ID`. -/
def nDataPagesPerActor : Nat := 4
def nCodePagesPerActor : Nat := 3
def faultyPageId : Nat := 2

namespace PtConfig

variable (cfg : PtConfig)

def actors : List Nat := List.range cfg.nActors

def guests : List Nat := cfg.actors.filter cfg.isGuest

def dataPages : List Nat := List.range (nDataPagesPerActor * cfg.nActors)

def codePages : List Nat := List.range (nCodePagesPerActor * cfg.nActors)

end PtConfig

/-- The page of the faulty area of an actor. -/
def faultyPage (actor : Nat) : Nat := actor * nDataPagesPerActor + faultyPageId

/-! ### The original permissions -/

/-- Copy entries into an array. -/
def storePtes (live : Ptes) (pages : List Nat) (saved : List UInt64) : Option (List UInt64) :=
  pages.foldlM (fun l page => if page < l.length then some (l.set page (live page)) else none) saved

/-- `restore_pte`. -/
def restorePte (live : Ptes) (page : Nat) (old : UInt64) : Ptes :=
  if live page ≠ old then Function.update live page old else live

def restorePtes (saved : List UInt64) (pages : List Nat) (live : Ptes) : Option Ptes :=
  pages.foldlM (fun live page => saved[page]?.map (restorePte live page)) live

def zeroed (n : Nat) : List UInt64 := List.replicate n 0

/-- The reallocation in `store_orig_host_permissions`; `zalloc` says which of the three
allocations succeed, and the first that fails ends the function. -/
def reallocSaved (cfg : PtConfig) (zalloc : Nat → Bool) (saved : SavedPtes) : SavedPtes × Int :=
  let n := cfg.nActors
  let saved := { saved with data := [], code := [] }
  if !zalloc 0 then (saved, -enomem)
  else
    let saved := { saved with data := zeroed (nDataPagesPerActor * n) }
    if !zalloc 1 then (saved, -enomem)
    else
      let saved := { saved with code := zeroed (nCodePagesPerActor * n), faulty := [] }
      if !zalloc 2 then (saved, -enomem)
      else ({ saved with faulty := zeroed n }, 0)

/-- `store_orig_host_permissions`. The data and the code loop of an actor write different
arrays. -/
def storeOrigHostPermissions (cfg : PtConfig) (zalloc : Nat → Bool) (s : PtState) :
    Option (PtState × Int) :=
  if !s.ptepsCached then some (s, -eio)
  else
    let r := if s.oldNActors < cfg.nActors then reallocSaved cfg zalloc s.saved else (s.saved, 0)
    if r.2 ≠ 0 then some ({ s with saved := r.1 }, r.2)
    else do
      let util ← storePtes s.tables.util (List.range cfg.nUtilPages) r.1.util
      let data ← storePtes s.tables.data cfg.dataPages r.1.data
      let code ← storePtes s.tables.code cfg.codePages r.1.code
      return ({ s with
        oldNActors := cfg.nActors
        saved := { r.1 with util := util, data := data, code := code } }, 0)

/-- `restore_orig_host_permissions`. -/
def restoreOrigHostPermissions (cfg : PtConfig) (s : PtState) : Option PtState :=
  if !s.ptepsCached then some s
  else do
    let util ← restorePtes s.saved.util (List.range cfg.nUtilPages) s.tables.util
    let data ← restorePtes s.saved.data cfg.dataPages s.tables.data
    let code ← restorePtes s.saved.code cfg.codePages s.tables.code
    return { s with tables := { s.tables with util := util, data := data, code := code } }

/-- `set_user_bit`. -/
def setUserBit (pte : UInt64) : UInt64 := pte ||| 4

/-- `set_user_pages`; it is called with the pointers checked. -/
def setUserPages (cfg : PtConfig) (t : Tables) : Tables := { t with
  util := fun page => if page < cfg.nUtilPages then setUserBit (t.util page) else t.util page
  data := fun page =>
    if page / nDataPagesPerActor < cfg.nActors ∧ cfg.isUser (page / nDataPagesPerActor)
    then setUserBit (t.data page) else t.data page
  code := fun page =>
    if page / nCodePagesPerActor < cfg.nActors ∧ cfg.isUser (page / nCodePagesPerActor)
    then setUserBit (t.code page) else t.code page }

/-- `set_sandbox_page_tables`. -/
def setSandboxPageTables (cfg : PtConfig) (zalloc : Nat → Bool) (s : PtState) :
    Option (PtState × Int) := do
  let (s, err) ← storeOrigHostPermissions cfg zalloc s
  if err ≠ 0 then return (s, -eio)
  return (if cfg.includesUserActors then { s with tables := setUserPages cfg s.tables } else s, 0)

/-! ### The permissions of the faulty pages -/

/-- The new value of an entry: `(org | mask_set) & mask_clear`. -/
def applyMask (modifiable perms org : UInt64) : UInt64 :=
  (org ||| (perms &&& modifiable)) &&& (perms ||| ~~~modifiable)

/-- The loop of the `set_faulty_page_*_permissions` functions: save the entry of an actor's faulty
page, then change it. -/
def setFaultyPages (modifiable : UInt64) (perms : Nat → UInt64) (slot : Nat → Nat) :
    List Nat → Ptes × List UInt64 → Option (Ptes × List UInt64)
  | [], s => some s
  | actor :: actors, (live, saved) =>
    if actor < saved.length then
      let org := live (slot actor)
      setFaultyPages modifiable perms slot actors
        (Function.update live (slot actor) (applyMask modifiable (perms actor) org),
          saved.set actor org)
    else none

/-- The loop of the `restore_faulty_page_*_permissions` functions. -/
def restoreFaultyPages (slot : Nat → Nat) (saved : List UInt64) : List Nat → Ptes → Option Ptes
  | [], live => some live
  | actor :: actors, live =>
    match saved[actor]? with
    | none => none
    | some old => restoreFaultyPages slot saved actors (Function.update live (slot actor) old)

/-- `set_faulty_page_permissions`: host, guest and extended tables. -/
def setFaultyPagePermissions (cfg : PtConfig) (s : PtState) : Option PtState :=
  if !s.ptepsCached ∧ cfg.nActors ≠ 0 then none
  else do
    let (data, faulty) ← setFaultyPages cfg.modifiablePteBits cfg.dataPermissions faultyPage
      cfg.actors (s.tables.data, s.saved.faulty)
    let (guest, guestFaulty) ← setFaultyPages cfg.modifiablePteBits cfg.dataPermissions id
      cfg.guests (s.tables.guest, s.saved.guestFaulty)
    let (ept, eptFaulty) ← setFaultyPages cfg.modifiableEpteBits cfg.dataEptProperties id
      cfg.guests (s.tables.ept, s.saved.eptFaulty)
    return { s with
      tables := { s.tables with data := data, guest := guest, ept := ept }
      saved := { s.saved with
        faulty := faulty, guestFaulty := guestFaulty, eptFaulty := eptFaulty } }

/-- `restore_faulty_page_permissions`. -/
def restoreFaultyPagePermissions (cfg : PtConfig) (s : PtState) : Option PtState :=
  if !s.ptepsCached ∧ cfg.nActors ≠ 0 then none
  else do
    let data ← restoreFaultyPages faultyPage s.saved.faulty cfg.actors s.tables.data
    let guest ← restoreFaultyPages id s.saved.guestFaulty cfg.guests s.tables.guest
    let ept ← restoreFaultyPages id s.saved.eptFaulty cfg.guests s.tables.ept
    return { s with tables := { s.tables with data := data, guest := guest, ept := ept } }

/-! ### The experiment -/

/-- `recover_orig_state`, as far as it concerns page tables. -/
def recoverOrigState (cfg : PtConfig) (s : PtState) : Option PtState := do
  let s ← restoreFaultyPagePermissions cfg s
  restoreOrigHostPermissions cfg s

/-- What the kernel and the processor do. `touch` is the effect of one execution of the test case
on the tables, in which the processor sets flags. -/
structure PtEnv where
  zalloc : Nat → Bool
  environmentErr : Int
  execution : Int → Execution
  touch : Int → Tables → Tables

/-- One round: set the faulty pages, execute, restore them unless the execution was trapped. -/
def faultyRound (cfg : PtConfig) (env : PtEnv) (i : Int) (s : PtState) : Option PtState := do
  let s ← setFaultyPagePermissions cfg s
  let s := { s with tables := env.touch i s.tables }
  match env.execution i with
  | .trapped => return s
  | .returned _ _ _ => restoreFaultyPagePermissions cfg s

/-- The loop of `run_experiment` over the rounds that are left. -/
def faultyRounds (cfg : PtConfig) (env : PtEnv) (dbgGprMode : Bool) :
    List Int → PtState → Option (PtState × LoopEnd)
  | [], s => some (s, .complete)
  | i :: is, s => do
    let s ← faultyRound cfg env i s
    match env.execution i with
    | .trapped => return (s, .trapped)
    | .returned err _ st =>
      if err ≠ 0 then return (s, .error err)
      else if 0 ≤ i ∧ dbgGprMode = false ∧ checkMeasurementStatus st ≠ 0 then
        return (s, .corrupted)
      else faultyRounds cfg env dbgGprMode is s

/-- `run_experiment` with the error code it returns. After an unexpected fault the fault handler
calls `recover_orig_state`, and `run_experiment_outer` returns 1. -/
def runPageTables (cfg : PtConfig) (env : PtEnv) (uarchResetRounds : Int) (dbgGprMode : Bool)
    (nInputs : Nat) (s : PtState) : Option (PtState × Int) := do
  let (s, err) ← setSandboxPageTables cfg env.zalloc s
  if err ≠ 0 then return (← recoverOrigState cfg s, -eio)
  if env.environmentErr ≠ 0 then return (← recoverOrigState cfg s, -eio)
  let (s, loopEnd) ← faultyRounds cfg env dbgGprMode (rounds uarchResetRounds nInputs) s
  let s ← recoverOrigState cfg s
  match loopEnd with
  | .complete | .corrupted => return (s, 0)
  | .error _ => return (s, -eio)
  | .trapped => return (s, 1)

end Rvzr.Km
