import Mathlib.Data.Nat.Notation
import Rvzr.Km.TestCaseParser
import Rvzr.Lib.Runs
import Rvzr.Lib.Saved

/-!
# The special registers during an experiment

`executor_km/x86/special_registers.c`: the registers are saved and changed at the start of an
experiment, and put back at its end, however far it came. A register is put back if the value that
was saved is not zero, as zero stands for a register that was not saved.

The registers are those of a machine of 64-bit values; a write to a model-specific register may have
no effect. The module is loaded on Intel and AMD CPUs only, and is built with `FORCE_SMAP_OFF`. The
special registers are those that `special_registers_t` has a field for; `VM_HSAVE_PA` is not one of
them: it is saved and put back with the SVM operation.
-/

namespace Rvzr.Km.SpecialRegisters

open Rvzr.Lib

/-! ### Registers -/

inductive Reg where
  | cr0
  | cr4
  | gdtrBase
  | gdtrLimit
  | msr (id : Nat)
  deriving DecidableEq, Repr

abbrev Machine := Reg → UInt64

def msrEfer : Nat := 0xc0000080
def msrLstar : Nat := 0xc0000082
def msrFsBase : Nat := 0xc0000100
def msrGsBase : Nat := 0xc0000101
def msrSyscfg : Nat := 0xc0010010
def msrVmCr : Nat := 0xc0010114
def msrVmHsavePa : Nat := 0xc0010117
def msrIa32SpecCtrl : Nat := 0x48
def msrAmd64VirtSpecCtrl : Nat := 0xc001011f
def msrAmd64LsCfg : Nat := 0xc0011020
def msrMiscFeatureControl : Nat := 0x1a4
def msrAmd64DcCfg : Nat := 0xc0011022
def msrIa32VmxCr0Fixed0 : Nat := 0x486
def msrIa32VmxCr0Fixed1 : Nat := 0x487
def msrIa32VmxCr4Fixed0 : Nat := 0x488
def msrIa32VmxCr4Fixed1 : Nat := 0x489

def bit (i : UInt64) : UInt64 := (1 : UInt64) <<< i

inductive Vendor where
  | intel | amd
  deriving DecidableEq, Repr

/-- What the module reads of `cpuinfo`, the build flag `VMBUILD`, the address of the handler, and the
registers that keep their value when they are written. -/
structure Cpu where
  vendor : Vendor
  family : Nat
  model : Nat
  hasMsrSpecCtrl : Bool
  hasVirtSsbd : Bool
  hasLsCfgSsbd : Bool
  vmbuild : Bool
  faultHandler : UInt64
  ignores : Nat → Bool

/-- The settings of the module and the features of the test case. -/
structure Options where
  enableSsbpPatch : Bool
  enablePrefetchers : Bool
  includesUserActors : Bool
  includesVmActors : Bool

/-- The fields of `special_registers_t`. -/
inductive Slot where
  | cr0 | cr4 | efer | lstar | specCtrl | prefetcherCtrl | fsBase | gsBase | gdtrBase | gdtrLimit
  | syscfg
  deriving DecidableEq, Repr

/-- The machine, and `orig_special_registers_state`. -/
structure State where
  machine : Machine
  saved : Slot → UInt64

section Functions

variable (cpu : Cpu)

def wrmsr (m : Machine) (id : Nat) (value : UInt64) : Machine :=
  if cpu.ignores id then m else Function.update m (.msr id) value

/-! ### The registers of the features -/

/-- The variables `msr_id` and `msr_mask`, and the error. -/
structure MsrCtrls where
  msrId : Nat := 0
  msrMask : UInt64 := 0
  err : Int := 0

/-- `get_ssbp_patch_msr_ctrls`. -/
def getSsbpPatchMsrCtrls : MsrCtrls :=
  if cpu.hasMsrSpecCtrl then { msrId := msrIa32SpecCtrl, msrMask := bit 2 }
  else if cpu.hasVirtSsbd then { msrId := msrAmd64VirtSpecCtrl, msrMask := bit 2 }
  else if cpu.hasLsCfgSsbd then
    if cpu.family = 0x15 then { msrId := msrAmd64LsCfg, msrMask := bit 54 }
    else if cpu.family = 0x16 then { msrId := msrAmd64LsCfg, msrMask := bit 33 }
    else if cpu.family = 0x17 then { msrId := msrAmd64LsCfg, msrMask := bit 10 }
    else { msrId := msrAmd64LsCfg, err := -1 }
  else { err := -1 }

/-- `get_prefetcher_msr_ctrls`. -/
def getPrefetcherMsrCtrls : MsrCtrls :=
  match cpu.vendor with
  | .intel =>
    if cpu.model ∈ [0x97, 0x9a, 0xba, 0xb7, 0xbf] then
      { msrId := msrMiscFeatureControl, msrMask := 0b101111 }
    else { msrId := msrMiscFeatureControl, msrMask := 0b1111 }
  | .amd =>
    if cpu.family = 0x19 then { msrId := 0xc0000108, msrMask := 0b101111 }
    else { msrId := msrAmd64DcCfg, msrMask := bit 13 ||| bit 15 }

/-- The register of a field. -/
def Slot.reg : Slot → Reg
  | cr0 => .cr0
  | cr4 => .cr4
  | efer => .msr msrEfer
  | lstar => .msr msrLstar
  | specCtrl => .msr (getSsbpPatchMsrCtrls cpu).msrId
  | prefetcherCtrl => .msr (getPrefetcherMsrCtrls cpu).msrId
  | fsBase => .msr msrFsBase
  | gsBase => .msr msrGsBase
  | gdtrBase => .gdtrBase
  | gdtrLimit => .gdtrLimit
  | syscfg => .msr msrSyscfg

/-- A register is copied to its field. -/
def save (s : State) (slot : Slot) : State :=
  { s with saved := Function.update s.saved slot (s.machine (slot.reg cpu)) }

/-- The fields that `store_orig_msr_state` writes. -/
def origSlots : List Slot :=
  [.cr0, .cr4, .lstar, .efer, .fsBase, .gsBase, .gdtrBase, .gdtrLimit] ++
    if cpu.vendor = .amd then [.syscfg] else []

/-- `store_orig_msr_state`. -/
def storeOrigMsrState (s : State) : State := (origSlots cpu).foldl (save cpu) s

/-! ### Setting the registers -/

/-- The bits of the mask are set or cleared. -/
def masked (value mask : UInt64) (enable : Bool) : UInt64 :=
  if enable then value ||| mask else value &&& ~~~mask

/-- `apply_msr_mask`. -/
def applyMsrMask (m : Machine) (ctrls : MsrCtrls) (enable : Bool) : Machine × Int :=
  let value := masked (m (.msr ctrls.msrId)) ctrls.msrMask enable
  let m := wrmsr cpu m ctrls.msrId value
  (m, if m (.msr ctrls.msrId) ≠ value then -1 else 0)

/-- One of the two features in `set_special_registers`: its register is saved even if the CPU is not
known. -/
def setFeature (s : State) (slot : Slot) (ctrls : MsrCtrls) (enable : Bool) : State × Int :=
  let s := save cpu s slot
  if ctrls.err ≠ 0 then (s, ctrls.err)
  else
    let r := applyMsrMask cpu s.machine ctrls enable
    ({ s with machine := r.1 }, r.2)

/-- `set_msrs_for_user_actors`, with SMAP and SMEP off. -/
def setMsrsForUserActors (m : Machine) : Machine :=
  let m := Function.update m .cr4 (m .cr4 &&& ~~~(bit 21 ||| bit 20))
  wrmsr cpu m msrLstar cpu.faultHandler

/-- `set_msrs_for_vmx`. -/
def setMsrsForVmx (m : Machine) : Machine :=
  let cr0 := m .cr0 &&& m (.msr msrIa32VmxCr0Fixed1) ||| m (.msr msrIa32VmxCr0Fixed0)
  let cr4 := m .cr4 &&& m (.msr msrIa32VmxCr4Fixed1) ||| m (.msr msrIa32VmxCr4Fixed0)
  Function.update (Function.update m .cr0 cr0) .cr4 (cr4 ||| bit 13)

/-- `set_msrs_for_svm`. -/
def setMsrsForSvm (m : Machine) : Machine × Int :=
  if m (.msr msrVmCr) &&& bit 4 ≠ 0 then (m, -eio)
  else if m (.msr msrEfer) &&& bit 12 = 0 then
    (wrmsr cpu m msrEfer (m (.msr msrEfer) ||| bit 12), 0)
  else (m, 0)

/-- The last step of `set_special_registers`. -/
def setMsrsForVmActors (opts : Options) (m : Machine) : Machine × Int :=
  if opts.includesVmActors then
    match cpu.vendor with
    | .intel => (setMsrsForVmx m, 0)
    | .amd => setMsrsForSvm cpu m
  else (m, 0)

/-- The rest of `set_special_registers`: caches on, counters readable, and what the actors need. -/
def setControlRegisters (opts : Options) (m : Machine) : Machine × Int :=
  let m := Function.update m .cr0 (m .cr0 &&& ~~~(bit 30))
  let m := Function.update m .cr4 (m .cr4 ||| bit 8)
  let m := if opts.includesUserActors then setMsrsForUserActors cpu m else m
  setMsrsForVmActors cpu opts m

/-- The part of `set_special_registers` that is left out for virtual machines. -/
def setFeatures (opts : Options) (s : State) : State × Int :=
  if cpu.vmbuild then (s, 0)
  else
    let r := setFeature cpu s .specCtrl (getSsbpPatchMsrCtrls cpu) opts.enableSsbpPatch
    if r.2 ≠ 0 then r
    else setFeature cpu r.1 .prefetcherCtrl (getPrefetcherMsrCtrls cpu) !opts.enablePrefetchers

/-- `set_special_registers`. -/
def setSpecialRegisters (opts : Options) (s : State) : State × Int :=
  let r := setFeatures cpu opts (storeOrigMsrState cpu s)
  if r.2 ≠ 0 then r
  else
    let c := setControlRegisters cpu opts r.1.machine
    ({ r.1 with machine := c.1 }, c.2)

/-! ### Restoring them -/

/-- The field that is tested before a register is written. -/
def Slot.guard : Slot → Slot
  | gdtrLimit => .gdtrBase
  | slot => slot

def Reg.ignored : Reg → Bool
  | .msr id => cpu.ignores id
  | _ => false

/-- The writes of `restore_special_registers`, in their order. -/
def restoredSlots : List Slot :=
  [.cr0, .cr4, .efer, .lstar, .specCtrl, .prefetcherCtrl, .fsBase, .gsBase, .gdtrBase, .gdtrLimit] ++
    if cpu.vendor = .amd then [.syscfg] else []

/-- `restore_special_registers`. -/
def restoreSpecialRegisters (s : State) : State where
  machine := putBack (Slot.reg cpu)
    (fun slot => s.saved slot.guard != 0 && !(slot.reg cpu).ignored cpu)
    s.saved (restoredSlots cpu) s.machine
  saved _ := 0

/-! ### Experiments -/

/-- What `run_experiment` does with the registers: whether the page tables could be set, what the
machine does after `set_special_registers` has succeeded, and the value of `orig_host_ssa_hpa` at the
end. -/
structure Experiment where
  tablesSet : Bool
  opts : Options
  body : Machine → Machine
  origHostSsaHpa : UInt64

/-- The state at the label `cleanup` of `run_experiment`. -/
def atCleanup (s : State) (e : Experiment) : State :=
  if e.tablesSet then
    let r := setSpecialRegisters cpu e.opts s
    { r.1 with machine := if r.2 = 0 then e.body r.1.machine else r.1.machine }
  else s

/-- `stop_svm_operation`, and `stop_vmx_operation`, which writes none of the registers. -/
def stopVmOperation (e : Experiment) (m : Machine) : Machine :=
  if e.opts.includesVmActors then
    match cpu.vendor with
    | .intel => m
    | .amd => wrmsr cpu m msrVmHsavePa e.origHostSsaHpa
  else m

/-- `recover_orig_state`: the VM operation is stopped even if it was never started. -/
def recoverOrigState (s : State) (e : Experiment) : State :=
  restoreSpecialRegisters cpu { s with machine := stopVmOperation cpu e s.machine }

/-- The registers in `run_experiment`. -/
def runExperiment (s : State) (e : Experiment) : State :=
  recoverOrigState cpu (atCleanup cpu s e) e

end Functions

end Rvzr.Km.SpecialRegisters
