import Rvzr.TestCase.ActorConf
import Rvzr.Unicorn.LoadInput
import Mathlib.Logic.Function.Basic

/-!
# Page permissions in the emulator

The fault interpreters of `model_unicorn/interpreter.py` and `set_faulty_area_rw` (`model.py`).
`load_input` leaves a page with full access as it is, so what the emulator permits after it depends
on the run before: speculators open the faulty areas, and may put the configured permissions back.
-/

namespace Rvzr.Faults

open Rvzr.Lib
open Rvzr.TestCase (ActorMode ActorPL)
open Rvzr.Config (PteDescriptor PteBitName TargetDesc Actor)
open Rvzr.Unicorn (DataArea dataAreaOffset dataAreaSize dataSizePerActor getDataAddr)

/-! ### Permissions of an entry -/

/-- `pet & (1 << pte_desc[name][0])`; `none` is a `KeyError`. -/
def pteBit (desc : PteDescriptor) (name : PteBitName) (pet : Nat) : Option Bool :=
  (desc.get? name).map fun bit => pet &&& 1 <<< bit.1 != 0

/-- The methods that the subclasses of `_FaultInterpreterCommon` define. -/
structure Methods where
  pageIsReadable : Nat → Option Bool
  pageIsWritable : Nat → Option Bool
  pageIsUserAccessible : Nat → Option Bool
  extendedPageIsReadable : Nat → Option Bool
  extendedPageIsWritable : Nat → Option Bool

/-- `_page_is_readable` and `_extended_page_is_readable` of `_X86FaultInterpreter`. -/
def x86PageIsReadable (desc : PteDescriptor) (pet : Nat) : Option Bool :=
  (pteBit desc .present pet).bind fun present =>
    if !present then some false
    else (pteBit desc .accessed pet).bind fun accessed =>
      if !accessed then some false
      else (pteBit desc .reservedBit pet).map fun reserved => !reserved

/-- `_page_is_writable` and `_extended_page_is_writable` of `_X86FaultInterpreter`. -/
def x86PageIsWritable (desc : PteDescriptor) (pet : Nat) : Option Bool :=
  (pteBit desc .writable pet).bind fun writable =>
    if !writable then some false else pteBit desc .dirty pet

/-- `_X86FaultInterpreter`. -/
def x86FaultInterpreter (target : TargetDesc) : Methods where
  pageIsReadable := x86PageIsReadable target.pteBits
  pageIsWritable := x86PageIsWritable target.pteBits
  pageIsUserAccessible := pteBit target.pteBits .user
  extendedPageIsReadable := x86PageIsReadable target.vmPteBits
  extendedPageIsWritable := x86PageIsWritable target.vmPteBits

/-- `ARM64TargetDesc.pte_bits`. -/
def arm64PteBits : PteDescriptor :=
  [(.valid, 0, true), (.user, 6, false), (.nonWritable, 7, false), (.accessed, 10, true),
    (.nonExecutable, 53, true)]

/-- `_ARM64FaultInterpreter`. -/
def arm64FaultInterpreter : Methods where
  pageIsReadable := pteBit arm64PteBits .valid
  pageIsWritable pet := (pteBit arm64PteBits .nonWritable pet).map fun nonWritable => !nonWritable
  pageIsUserAccessible _ := some true
  extendedPageIsReadable _ := some true
  extendedPageIsWritable _ := some true

/-- What the interpreter keeps for an actor: `_faulty_page_readable`, `_faulty_page_writable`,
`_faulty_page_user_accessible` and `_main_page_user_accessible`. -/
structure PagePermissions where
  readable : Bool
  writable : Bool
  userAccessible : Bool
  mainUserAccessible : Bool
  deriving DecidableEq, Repr

/-- The body of the loop of `load_test_case`. -/
def pagePermissions (methods : Methods) (actor : Actor) : Option PagePermissions := do
  let readable ← methods.pageIsReadable actor.dataProperties
  let writable ← methods.pageIsWritable actor.dataProperties
  let user ← methods.pageIsUserAccessible actor.dataProperties
  let mainUser : Bool := actor.privilegeLevel = .user
  if actor.mode = .guest then do
    let extendedReadable ← methods.extendedPageIsReadable actor.dataEptProperties
    let extendedWritable ← methods.extendedPageIsWritable actor.dataEptProperties
    return ⟨readable && extendedReadable, writable && extendedWritable, user, mainUser⟩
  else return ⟨readable, writable, user, mainUser⟩

/-- `load_test_case`: the permissions by the number of the actor. -/
def loadTestCase (methods : Methods) (actors : List Actor) : Option (List PagePermissions) :=
  actors.mapM (pagePermissions methods)

/-! ### Protection of the faulty areas -/

/-- The values that `mem_protect` is given. -/
inductive UcProt where
  | none | read | all
  deriving DecidableEq, Repr

/-- Whether an access is allowed. -/
def UcProt.allows : UcProt → Bool → Bool
  | .none, _ => false
  | .read, write => !write
  | .all, _ => true

/-- The protection of the faulty area of each actor. -/
abbrev Protection := Nat → UcProt

/-- `set_faulty_area_rw`. -/
def setFaultyAreaRw (r w : Bool) (actor : Nat) (prot : Protection) : Protection :=
  Function.update prot actor (if !r then .none else if !w then .read else .all)

/-- The body of the loop of `load_input`; `none` is a `KeyError`. -/
def loadActor (ps : List PagePermissions) (prot : Protection) (actor : Nat) : Option Protection :=
  ps[actor]?.map fun p =>
    if !p.readable then setFaultyAreaRw false false actor prot
    else if !p.writable then setFaultyAreaRw true false actor prot
    else prot

/-- `load_input`. -/
def loadInput (ps : List PagePermissions) (prot : Protection) : Option Protection :=
  (List.range ps.length).foldlM (loadActor ps) prot

/-- What changes the protection: a new input, and the two ways in which speculators set it. -/
inductive Event where
  | loadInput
  | permit (actor : Nat)
  | restore (actor : Nat)
  deriving DecidableEq, Repr

/-- `load_input`, `set_faulty_area_rw(actor_id, True, True)` and
`_restore_faulty_page_permissions`. -/
def step (ps : List PagePermissions) (prot : Protection) : Event → Option Protection
  | .loadInput => loadInput ps prot
  | .permit actor => some (setFaultyAreaRw true true actor prot)
  | .restore actor => ps[actor]?.map fun p => setFaultyAreaRw p.readable p.writable actor prot

/-- The protection after some events; the memory is mapped with full access. -/
def run (ps : List PagePermissions) (events : List Event) : Option Protection :=
  events.foldlM (step ps) fun _ => .all

/-! ### Faults that the model raises itself -/

/-- `UC_ERR_WRITE_PROT`, `UC_ERR_READ_PROT`. -/
def ucErrWriteProt : Nat := 12
def ucErrReadProt : Nat := 13

/-- `data_addr_to_actor_id`. -/
def dataAddrToActorId (dataStart address : Nat) : Int :=
  ((address : Int) - dataStart) / dataSizePerActor

/-- `emulate_crossing_fault`: the fault that is signalled, if any; the outer `none` is a
`KeyError`. -/
def emulateCrossingFault (dataStart : Nat) (ps : List PagePermissions) (write : Bool)
    (address size : Nat) : Option (Option Nat) :=
  if address % 0x1000 + size < 0x1000 then some none
  else
    let accessEnd : Int := address + size - 1
    let actorId := dataAddrToActorId dataStart address
    if actorId = -1 then some none
    else
      let faultyBase : Int := dataStart + actorId * dataSizePerActor + dataAreaOffset .faulty
      let faultyEnd : Int := faultyBase + dataAreaSize .faulty
      if accessEnd < faultyBase ∨ faultyEnd ≤ accessEnd then some none
      else if actorId < 0 then none
      else ps[actorId.toNat]?.map fun p =>
        if !p.readable then some ucErrReadProt
        else if write && !p.writable then some ucErrWriteProt
        else none

/-- `is_data_addr`. -/
def isDataAddr (dataStart nActors address : Nat) : Bool :=
  dataStart ≤ address ∧ address < dataStart + nActors * dataSizePerActor

/-- `induce_user_faults`; the outer `none` is a `KeyError`. -/
def induceUserFaults (dataStart : Nat) (ps : List PagePermissions) (current : ActorPL)
    (address : Nat) : Option (Option Nat) :=
  if !isDataAddr dataStart ps.length address then some none
  else
    let target := (address - dataStart) / dataSizePerActor
    let faultyAreaStart := getDataAddr dataStart .faulty target
    let isFaultyPage : Bool := address &&& 0xFFFFFFFFFFFFF000 = faultyAreaStart
    ps[target]?.map fun p =>
      let targetPageIsUser := if isFaultyPage then p.userAccessible else p.mainUserAccessible
      if current = .user ∧ !targetPageIsUser then some 13
      else if current = .kernel ∧ targetPageIsUser then some 13
      else none

/-! ### Protection after a run -/

/-- The configured protection of a faulty area. -/
def PagePermissions.prot (p : PagePermissions) : UcProt :=
  if !p.readable then .none else if !p.writable then .read else .all

section Run

variable {ps : List PagePermissions} {prot prot' : Protection}

/-- Each faulty area has its configured protection. -/
def Configured (ps : List PagePermissions) (prot : Protection) : Prop :=
  ∀ actor p, ps[actor]? = some p → prot actor = p.prot

/-- Each faulty area has its configured protection, or is open. -/
def ConfiguredOrOpen (ps : List PagePermissions) (prot : Protection) : Prop :=
  ∀ actor p, ps[actor]? = some p → prot actor = p.prot ∨ prot actor = .all

theorem setFaultyAreaRw_self (r w : Bool) (actor : Nat) (prot : Protection) :
    setFaultyAreaRw r w actor prot actor = if !r then .none else if !w then .read else .all :=
  Function.update_self _ _ _

theorem setFaultyAreaRw_of_ne {actor actor' : Nat} (r w : Bool) (prot : Protection)
    (h : actor' ≠ actor) : setFaultyAreaRw r w actor prot actor' = prot actor' :=
  Function.update_of_ne h _ _

/-- The loop leaves an area alone or sets it, so it ends as configured if it is open for no other
reason than that it should be. -/
theorem loadActor_spec {actor : Nat} {p : PagePermissions} (hp : ps[actor]? = some p)
    (prot : Protection) : ∃ prot', loadActor ps prot actor = some prot' ∧
      (prot actor = p.prot ∨ prot actor = .all → prot' actor = p.prot) ∧
      ∀ actor', actor' ≠ actor → prot' actor' = prot actor' := by
  rw [loadActor, hp, Option.map_some]
  refine ⟨_, rfl, ?_, ?_⟩
  · intro h
    cases hr : p.readable with
    | false => simp [setFaultyAreaRw_self, PagePermissions.prot, hr]
    | true =>
      cases hw : p.writable with
      | false => simp [setFaultyAreaRw_self, PagePermissions.prot, hr, hw]
      | true => simpa [PagePermissions.prot, hr, hw] using h
  · intro actor' hne
    cases hr : p.readable with
    | false => simp [setFaultyAreaRw_of_ne, hne]
    | true =>
      cases hw : p.writable with
      | false => simp [setFaultyAreaRw_of_ne, hne]
      | true => simp

theorem loadInput_from (ps : List PagePermissions) {actors : List Nat} (hnodup : actors.Nodup)
    (hlt : ∀ actor ∈ actors, actor < ps.length) (prot : Protection) :
    ∃ prot', actors.foldlM (loadActor ps) prot = some prot' ∧
      (∀ actor p, actor ∈ actors → ps[actor]? = some p →
        prot actor = p.prot ∨ prot actor = .all → prot' actor = p.prot) ∧
      ∀ actor ∉ actors, prot' actor = prot actor := by
  induction actors generalizing prot with
  | nil => exact ⟨prot, rfl, fun _ _ h => absurd h List.not_mem_nil, fun _ _ => rfl⟩
  | cons first actors ih =>
    have hfirst := hlt first List.mem_cons_self
    rcases loadActor_spec (List.getElem?_eq_getElem hfirst) prot with ⟨next, hstep, hset, hkeep⟩
    rcases ih (List.nodup_cons.mp hnodup).2 (fun a ha => hlt a (List.mem_cons_of_mem _ ha)) next
      with ⟨prot', hrun, hall, hrest⟩
    have hnotin := (List.nodup_cons.mp hnodup).1
    refine ⟨prot', by rw [List.foldlM_cons, hstep]; exact hrun, ?_, ?_⟩
    · intro actor p hmem hp h
      rcases List.mem_cons.mp hmem with rfl | hmem
      · rw [List.getElem?_eq_getElem hfirst] at hp
        obtain rfl := Option.some.inj hp
        rw [hrest actor hnotin, hset h]
      · have hne : actor ≠ first := fun heq => hnotin (heq ▸ hmem)
        exact hall actor p hmem hp (by rwa [hkeep actor hne])
    · intro actor hmem
      rw [List.mem_cons, not_or] at hmem
      rw [hrest actor hmem.2, hkeep actor hmem.1]

/-- After an input is loaded every faulty area has its configured protection. -/
theorem loadInput_configured (h : ConfiguredOrOpen ps prot) :
    ∃ prot', loadInput ps prot = some prot' ∧ Configured ps prot' := by
  rcases loadInput_from ps List.nodup_range (fun a ha => List.mem_range.mp ha) prot with
    ⟨prot', hrun, hall, -⟩
  refine ⟨prot', hrun, fun actor p hp => hall actor p ?_ hp (h actor p hp)⟩
  exact List.mem_range.mpr (List.getElem?_eq_some_iff.mp hp).1

theorem step_configuredOrOpen {event : Event} (h : ConfiguredOrOpen ps prot)
    (hstep : step ps prot event = some prot') : ConfiguredOrOpen ps prot' := by
  cases event with
  | loadInput =>
    rcases loadInput_configured h with ⟨loaded, hloaded, hconf⟩
    obtain rfl := Option.some.inj (hloaded.symm.trans hstep)
    exact fun actor p hp => .inl (hconf actor p hp)
  | permit target =>
    obtain rfl := Option.some.inj hstep
    intro actor p hp
    by_cases heq : actor = target
    · exact .inr (by rw [heq, setFaultyAreaRw_self]; rfl)
    · rw [setFaultyAreaRw_of_ne _ _ _ heq]
      exact h actor p hp
  | restore target =>
    rcases Option.map_eq_some_iff.mp hstep with ⟨q, hq, rfl⟩
    intro actor p hp
    by_cases heq : actor = target
    · rw [heq, hq] at hp
      obtain rfl := Option.some.inj hp
      exact .inl (by rw [heq, setFaultyAreaRw_self]; rfl)
    · rw [setFaultyAreaRw_of_ne _ _ _ heq]
      exact h actor p hp

theorem run_configuredOrOpen {events : List Event} (h : run ps events = some prot) :
    ConfiguredOrOpen ps prot := by
  have hrun : ∀ (events : List Event) (start : Protection), ConfiguredOrOpen ps start →
      events.foldlM (step ps) start = some prot → ConfiguredOrOpen ps prot := by
    intro events
    induction events with
    | nil =>
      intro start hstart hr
      rwa [← Option.some.inj hr]
    | cons event events ih =>
      intro start hstart hr
      rw [List.foldlM_cons] at hr
      rcases Option.bind_eq_some_iff.mp hr with ⟨next, hnext, hr⟩
      exact ih next (step_configuredOrOpen hstart hnext) hr
  exact hrun events _ (fun _ _ _ => .inr rfl) h

/-- After any run, once an input is loaded, each faulty area has its configured protection. -/
theorem loaded_configured {events : List Event} (hrun : run ps events = some prot)
    (hload : loadInput ps prot = some prot') : Configured ps prot' := by
  rcases loadInput_configured (run_configuredOrOpen hrun) with ⟨loaded, hloaded, hconf⟩
  obtain rfl := Option.some.inj (hloaded.symm.trans hload)
  exact hconf

end Run

/-! ### Accesses across the end of a page -/

/-- Whether the configuration allows an access to the faulty area. -/
def PagePermissions.allows (p : PagePermissions) (write : Bool) : Bool :=
  p.readable && (!write || p.writable)

theorem prot_allows (p : PagePermissions) (write : Bool) :
    p.prot.allows write = p.allows write := by
  rcases p with ⟨r, w, _, _⟩
  cases r <;> cases w <;> cases write <;> rfl

/-- The address is in the data of an actor. -/
def InData (dataStart actor address : Nat) : Prop :=
  getDataAddr dataStart .start actor ≤ address ∧ address < getDataAddr dataStart .start (actor + 1)

/-- The address is in the faulty area of an actor. -/
def InFaulty (dataStart actor address : Nat) : Prop :=
  getDataAddr dataStart .faulty actor ≤ address ∧
    address < getDataAddr dataStart .faulty actor + dataAreaSize .faulty

instance (dataStart actor address : Nat) : Decidable (InFaulty dataStart actor address) :=
  inferInstanceAs (Decidable (_ ∧ _))

/-- The check of the emulator, `faults`, is about the page of the first byte of an access. -/
def ChecksFirstPage (dataStart : Nat) (ps : List PagePermissions) (prot : Protection)
    (faults : Bool → Nat → Nat → Bool) : Prop :=
  ∀ write address size actor, actor < ps.length → InData dataStart actor address →
    (faults write address size = true ↔
      InFaulty dataStart actor address ∧ (prot actor).allows write = false)

section Crossing

variable {dataStart actor address size : Nat} {ps : List PagePermissions} {p : PagePermissions}

theorem getDataAddr_start (dataStart actor : Nat) :
    getDataAddr dataStart .start actor = dataStart + actor * 16384 := rfl

theorem getDataAddr_faulty (dataStart actor : Nat) :
    getDataAddr dataStart .faulty actor = dataStart + actor * 16384 + 8192 := rfl

theorem dataAddrToActorId_eq (h : InData dataStart actor address) :
    dataAddrToActorId dataStart address = actor := by
  rcases h with ⟨hlow, hhigh⟩
  rw [getDataAddr_start] at hlow hhigh
  have hsize : dataSizePerActor = 16384 := rfl
  rw [dataAddrToActorId, hsize]
  omega

/-- The fault for an access to the faulty area. -/
def crossingFault (p : PagePermissions) (write : Bool) : Option Nat :=
  if !p.readable then some ucErrReadProt
  else if write && !p.writable then some ucErrWriteProt
  else none

theorem crossingFault_isSome (p : PagePermissions) (write : Bool) :
    (∃ errno, crossingFault p write = some errno) ↔ p.allows write = false := by
  rcases p with ⟨r, w, _, _⟩
  cases r <;> cases w <;> cases write <;> simp [crossingFault, PagePermissions.allows]

/-- The workaround acts iff the access reaches the end of a page and its last byte is in the faulty
area. -/
theorem emulateCrossingFault_eq (hp : ps[actor]? = some p) (h : InData dataStart actor address)
    (hsize : 0 < size) (write : Bool) :
    emulateCrossingFault dataStart ps write address size =
      some (if 4096 ≤ address % 4096 + size ∧ InFaulty dataStart actor (address + size - 1)
        then crossingFault p write else none) := by
  have hid := dataAddrToActorId_eq h
  have hcast : (actor : Int).toNat = actor := Int.toNat_natCast actor
  have hactor : dataSizePerActor = 16384 := rfl
  have hoffset : dataAreaOffset .faulty = 8192 := rfl
  have harea : dataAreaSize .faulty = 4096 := rfl
  have hlast : InFaulty dataStart actor (address + size - 1) ↔
      dataStart + actor * 16384 + 8192 ≤ address + size - 1 ∧
        address + size - 1 < dataStart + actor * 16384 + 8192 + 4096 := Iff.rfl
  simp only [emulateCrossingFault, hid, hcast, hp, hactor, hoffset, harea, Option.map_some]
  by_cases hend : address % 4096 + size < 4096
  · rw [if_pos hend, if_neg fun hboth => absurd hboth.1 (Nat.not_le.mpr hend)]
  · rw [if_neg hend, if_neg (by omega)]
    by_cases hin : InFaulty dataStart actor (address + size - 1)
    · have hbounds := hlast.mp hin
      rw [if_neg (by omega), if_neg (by omega), if_pos (And.intro (Nat.not_lt.mp hend) hin)]
      rfl
    · have hout := mt hlast.mpr hin
      rw [if_pos (by omega), if_neg fun hboth => hin hboth.2]

/-- With the workaround, an access faults iff one of its bytes is in the faulty area of the actor
and the area does not allow the access. -/
theorem access_faults_iff {prot loaded : Protection} {events : List Event}
    {faults : Bool → Nat → Nat → Bool} (haligned : dataStart % 4096 = 0)
    (hrun : run ps events = some prot) (hload : loadInput ps prot = some loaded)
    (hfirst : ChecksFirstPage dataStart ps loaded faults) (hp : ps[actor]? = some p)
    (h : InData dataStart actor address) (hpos : 0 < size) (hsize : size ≤ 4096) (write : Bool) :
    (faults write address size = true ∨
      ∃ errno, emulateCrossingFault dataStart ps write address size = some (some errno)) ↔
    (∃ byte, address ≤ byte ∧ byte < address + size ∧ InFaulty dataStart actor byte) ∧
      p.allows write = false := by
  have hactor : actor < ps.length := (List.getElem?_eq_some_iff.mp hp).1
  have hconf := loaded_configured hrun hload actor p hp
  rw [hfirst write address size actor hactor h, hconf, prot_allows,
    emulateCrossingFault_eq hp h hpos]
  have hends : (4096 ≤ address % 4096 + size ∧ InFaulty dataStart actor (address + size - 1)) ∨
      InFaulty dataStart actor address ↔
      ∃ byte, address ≤ byte ∧ byte < address + size ∧ InFaulty dataStart actor byte := by
    rcases h with ⟨hlow, hhigh⟩
    rw [getDataAddr_start] at hlow hhigh
    have hconst : dataAreaSize .faulty = 4096 := rfl
    simp only [InFaulty, getDataAddr_faulty, hconst]
    constructor
    · rintro (⟨-, hlast⟩ | hfirst)
      · exact ⟨address + size - 1, by omega, by omega, hlast⟩
      · exact ⟨address, by omega, by omega, hfirst⟩
    · rintro ⟨byte, hle, hlt, hbyte⟩
      by_cases hin : dataStart + actor * 16384 + 8192 ≤ address
      · exact .inr ⟨hin, by omega⟩
      · exact .inl ⟨by omega, by omega, by omega⟩
  rw [← hends]
  by_cases hcross : 4096 ≤ address % 4096 + size ∧ InFaulty dataStart actor (address + size - 1)
  · rw [if_pos hcross]
    simp only [Option.some.injEq, crossingFault_isSome, hcross, true_or, true_and, and_true]
    exact ⟨fun hor => hor.elim (fun hboth => hboth.2) id, .inr⟩
  · rw [if_neg hcross]
    simp [hcross]

theorem access_faults_read_only :
    ((decide (InFaulty 0 0 8188) && true) = true ∨
      ∃ errno, emulateCrossingFault 0 [⟨true, false, false, false⟩] true 8188 8 =
        some (some errno)) ↔
    (∃ byte, 8188 ≤ byte ∧ byte < 8188 + 8 ∧ InFaulty 0 0 byte) ∧
      PagePermissions.allows ⟨true, false, false, false⟩ true = false := by
  refine @access_faults_iff 0 0 8188 8 [⟨true, false, false, false⟩] _ _ _ [.permit 0]
    (fun write address _ => decide (InFaulty 0 0 address) && write) rfl rfl rfl ?_ rfl
    ⟨by decide, by decide⟩ (by decide) (by decide) true
  intro write address size actor hactor _
  obtain rfl : actor = 0 := by simpa using hactor
  cases write <;> simp [setFaultyAreaRw_self, UcProt.allows]

end Crossing

end Rvzr.Faults
