import Rvzr.Lib.Bits
import Rvzr.Lib.Folds
import Rvzr.Lib.Grouping
import Rvzr.TestCase.Binary

/-!
# Actors in the configuration

From the `actors` of a configuration file to the actors of a test case:
`Conf.set_actor_properties` (`rvzr/config.py`), `_create_pte_mask` and `Actor.from_dict`
(`tc_components/actor.py`), and `generate_actors_with_sections` (`code_generator.py`), with the
x86 tables of `arch/x86/config.py` and `arch/x86/target_desc.py`.
-/

namespace Rvzr.Config

open Rvzr.Lib Rvzr.TestCase

/-- `PagePropertyName`. -/
inductive PageProperty where
  | present | writable | user | writeThrough | cacheDisable | accessed | dirty | executable
  | reservedBit | randomized
  deriving DecidableEq, Repr

/-- `PageConf`. -/
abbrev PageConf := Dict PageProperty Bool

/-- The name of a property in the file; it may be none of the known ones. -/
inductive PropertyKey where
  | known (p : PageProperty)
  | unknown (key : String)
  deriving DecidableEq, Repr

/-- `ActorConf`, without the two blocklists, which only the generator reads. -/
structure ActorConf where
  name : String
  mode : String
  privilegeLevel : String
  observer : Bool
  dataProperties : PageConf
  dataEptProperties : PageConf
  deriving DecidableEq, Repr

/-- One entry of the list that describes an actor. -/
inductive ActorSetting where
  | name (v : String)
  | mode (v : String)
  | privilegeLevel (v : String)
  | observer (v : Bool)
  | dataProperties (v : List (PropertyKey × Bool))
  | dataEptProperties (v : List (PropertyKey × Bool))
  | instructionBlocklist
  | faultBlocklist
  | unknown (key : String)
  deriving DecidableEq, Repr

/-- `ActorConfKey`. -/
inductive ActorConfKey where
  | name | mode | privilegeLevel | observer | dataProperties | dataEptProperties
  | instructionBlocklist | faultBlocklist
  | unknown (key : String)
  deriving DecidableEq, Repr

def ActorSetting.key : ActorSetting → ActorConfKey
  | name _ => .name
  | mode _ => .mode
  | privilegeLevel _ => .privilegeLevel
  | observer _ => .observer
  | dataProperties _ => .dataProperties
  | dataEptProperties _ => .dataEptProperties
  | instructionBlocklist => .instructionBlocklist
  | faultBlocklist => .faultBlocklist
  | unknown key => .unknown key

/-- `ConfigException`. -/
inductive ConfigException where
  | unknownValue (key : String)
  | mainMode
  | mainPrivilegeLevel
  | unsupportedMode (v : String)
  | unsupportedPrivilegeLevel (v : String)
  | unsupportedDataProperty (key : PropertyKey)
  | unsupportedEptProperty (key : PropertyKey)
  | eptOfHost
  deriving DecidableEq, Repr

/-! ### Updates of the configuration -/

/-- `_actor_default`. -/
def actorDefault : ActorConf where
  name := "main"
  mode := "host"
  privilegeLevel := "kernel"
  observer := false
  dataProperties := [(.present, true), (.writable, true), (.user, false), (.writeThrough, false),
    (.cacheDisable, false), (.accessed, true), (.dirty, true), (.executable, false),
    (.reservedBit, false), (.randomized, false)]
  dataEptProperties := [(.present, true), (.writable, true), (.executable, false),
    (.accessed, true), (.dirty, true), (.user, false), (.reservedBit, false), (.randomized, false)]

/-- `_option_values["actor_data_properties"]`. -/
def actorDataProperties : List PageProperty :=
  [.present, .writable, .user, .writeThrough, .cacheDisable, .accessed, .dirty, .executable,
    .reservedBit, .randomized]

/-- `_option_values["actor_data_ept_properties"]`. -/
def actorDataEptProperties : List PageProperty :=
  [.present, .writable, .executable, .accessed, .dirty, .reservedBit, .randomized]

/-- `_check_options("actor", ...)`. -/
def checkActorOptions (settings : List ActorSetting) : Except ConfigException Unit :=
  settings.forM fun
    | .unknown key => .error (.unknownValue key)
    | _ => .ok ()

/-- The dictionary `update`: the last setting of a key, at the place of its first. -/
def updateOf (settings : List ActorSetting) : Dict ActorConfKey ActorSetting :=
  settings.foldl (fun update s => update.insert s.key s) []

/-- `update.get('mode', 'host')`. -/
def updateMode (update : Dict ActorConfKey ActorSetting) : String :=
  match update.get? .mode with
  | some (.mode v) => v
  | _ => "host"

/-- `update.get('privilege_level', 'kernel')`. -/
def updatePrivilegeLevel (update : Dict ActorConfKey ActorSetting) : String :=
  match update.get? .privilegeLevel with
  | some (.privilegeLevel v) => v
  | _ => "kernel"

/-- The loop over the properties of a page. -/
def setProperties (options : List PageProperty) (unsupported : PropertyKey → ConfigException)
    (conf : PageConf) (properties : List (PropertyKey × Bool)) : Except ConfigException PageConf :=
  properties.foldlM (fun conf property =>
    match property.1 with
    | .known p =>
      if p ∈ options then .ok (conf.insert p property.2) else .error (unsupported property.1)
    | .unknown _ => .error (unsupported property.1)) conf

/-- The body of the loop over `update`. -/
def applySetting (update : Dict ActorConfKey ActorSetting) (entry : ActorConf) :
    ActorSetting → Except ConfigException ActorConf
  | .name v => .ok { entry with name := v }
  | .mode v =>
    if v = "host" ∨ v = "guest" then .ok { entry with mode := v } else .error (.unsupportedMode v)
  | .privilegeLevel v =>
    if v = "kernel" ∨ v = "user" then .ok { entry with privilegeLevel := v }
    else .error (.unsupportedPrivilegeLevel v)
  | .observer v => .ok { entry with observer := v }
  | .dataProperties v => do
    let conf ← setProperties actorDataProperties .unsupportedDataProperty entry.dataProperties v
    return { entry with dataProperties := conf }
  | .dataEptProperties v =>
    if updateMode update ≠ "guest" then .error .eptOfHost
    else do
      let conf ← setProperties actorDataEptProperties .unsupportedEptProperty
        entry.dataEptProperties v
      return { entry with dataEptProperties := conf }
  | .instructionBlocklist | .faultBlocklist | .unknown _ => .ok entry

/-- The configured actors (`Conf._actors`). -/
abbrev Actors := Dict String ActorConf

/-- The body of the loop of `set_actor_properties`: the settings of one actor. -/
def setActor (actors : Actors) (new : String × List ActorSetting) :
    Except ConfigException Actors := do
  checkActorOptions new.2
  let update := updateOf new.2
  if new.1 = "main" ∧ updateMode update ≠ "host" then throw .mainMode
  if new.1 = "main" ∧ updatePrivilegeLevel update ≠ "kernel" then throw .mainPrivilegeLevel
  let entry := (actors.get? new.1).getD { actorDefault with name := new.1 }
  let entry ← update.values.foldlM (applySetting update) entry
  return actors.insert new.1 entry

/-- `set_actor_properties`. -/
def setActorProperties (actors : Actors) (new : List (String × List ActorSetting)) :
    Except ConfigException Actors :=
  new.foldlM setActor actors

/-- The actors after `set_to_arch_defaults`. -/
def defaultActors : Actors := [("main", actorDefault)]

/-! ### Page-table entries -/

/-- `PTEBitName`. -/
inductive PteBitName where
  | present | writable | nonWritable | user | writeThrough | cacheDisable | accessed | dirty
  | reservedBit | executable | nonExecutable | valid
  deriving DecidableEq, Repr

/-- The offset and the default of each bit. -/
abbrev PteDescriptor := Dict PteBitName (Nat × Bool)

/-- The bit of each property, and whether it is inverted. -/
abbrev PropertyMap := Dict PageProperty (PteBitName × Bool)

/-- The tables of `TargetDesc` that describe page-table entries. -/
structure TargetDesc where
  pteBits : PteDescriptor
  vmPteBits : PteDescriptor
  pagePropertyToPteBitName : PropertyMap
  pagePropertyToVmPteBitName : PropertyMap

def x86PteBits : PteDescriptor :=
  [(.present, 0, true), (.writable, 1, true), (.user, 2, false), (.writeThrough, 3, false),
    (.cacheDisable, 4, false), (.accessed, 5, true), (.dirty, 6, true), (.reservedBit, 51, false),
    (.nonExecutable, 63, true)]

def x86PagePropertyToPteBitName : PropertyMap :=
  [(.present, .present, false), (.writable, .writable, false), (.user, .user, false),
    (.writeThrough, .writeThrough, false), (.cacheDisable, .cacheDisable, false),
    (.accessed, .accessed, false), (.dirty, .dirty, false), (.executable, .nonExecutable, true),
    (.reservedBit, .reservedBit, false)]

/-- `_epte_bits_intel`. -/
def epteBitsIntel : PteDescriptor :=
  [(.present, 0, true), (.writable, 1, true), (.executable, 2, false), (.accessed, 8, true),
    (.dirty, 9, true), (.user, 10, false), (.reservedBit, 51, false)]

def pagePropertyToEpteBitName : PropertyMap :=
  [(.present, .present, false), (.writable, .writable, false), (.user, .user, false),
    (.accessed, .accessed, false), (.dirty, .dirty, false), (.executable, .executable, false),
    (.reservedBit, .reservedBit, false)]

/-- `_npte_bits_amd`. -/
def npteBitsAmd : PteDescriptor :=
  [(.present, 0, true), (.writable, 1, true), (.user, 2, true), (.accessed, 5, true),
    (.dirty, 6, true), (.reservedBit, 51, false), (.nonExecutable, 63, true)]

def pagePropertyToNpteBitName : PropertyMap :=
  [(.present, .present, false), (.writable, .writable, false), (.user, .user, false),
    (.accessed, .accessed, false), (.dirty, .dirty, false), (.executable, .nonExecutable, true),
    (.reservedBit, .reservedBit, false)]

/-- `X86TargetDesc` on a processor of Intel or of another vendor. -/
def x86TargetDesc (isIntel : Bool) : TargetDesc where
  pteBits := x86PteBits
  vmPteBits := if isIntel then epteBitsIntel else npteBitsAmd
  pagePropertyToPteBitName := x86PagePropertyToPteBitName
  pagePropertyToVmPteBitName :=
    if isIntel then pagePropertyToEpteBitName else pagePropertyToNpteBitName

/-- `arch_specific_properties`; `none` is the failed assertion about an unsupported property. -/
def archSpecificProperties (map : PropertyMap) (conf : PageConf) : Option (Dict PteBitName Bool) :=
  conf.foldlM (fun properties property =>
    if property.1 = .randomized then some properties
    else (map.get? property.1).map fun bit =>
      properties.insert bit.1 (if bit.2 then !property.2 else property.2)) []

/-- The value of a bit in the mask; `toDefault` is the outcome of the comparison
`random.random() < probability_of_default`. -/
def bitValue (isRandomized toDefault default value : Bool) : Bool :=
  if !isRandomized || value == default then value
  else if toDefault then default else value

/-- `_create_pte_mask`; `none` is a `KeyError` or a failed assertion. -/
def createPteMask (descriptor : PteDescriptor) (conf : PageConf) (map : PropertyMap)
    (toDefault : PteBitName → Bool) : Option Nat := do
  let isRandomized ← conf.get? .randomized
  let properties ← archSpecificProperties map conf
  guard (isRandomized → descriptor.all fun bit => properties.contains bit.1)
  properties.foldlM (fun mask property =>
    (descriptor.get? property.1).map fun bit =>
      mask ||| (bitValue isRandomized (toDefault property.1) bit.2 property.2).toNat <<< bit.1) 0

/-! ### The actors of a test case -/

/-- `Actor` without its code section. -/
structure Actor where
  mode : ActorMode
  privilegeLevel : ActorPL
  name : String
  dataProperties : Nat
  dataEptProperties : Nat
  observer : Bool
  deriving DecidableEq, Repr

/-- The random choices for an actor: for the bits of the page table and of the extended one. -/
structure Draws where
  pte : PteBitName → Bool
  epte : PteBitName → Bool

/-- `Actor.from_dict`; `none` is an exception. -/
def Actor.fromDict (target : TargetDesc) (draws : Draws) (conf : ActorConf) : Option Actor := do
  let mode ← if conf.mode = "host" then some ActorMode.host
    else if conf.mode = "guest" then some ActorMode.guest else none
  let pl ← if conf.privilegeLevel = "kernel" then some ActorPL.kernel
    else if conf.privilegeLevel = "user" then some ActorPL.user else none
  let data ← createPteMask target.pteBits conf.dataProperties target.pagePropertyToPteBitName
    draws.pte
  let ept ← createPteMask target.vmPteBits conf.dataEptProperties
    target.pagePropertyToVmPteBitName draws.epte
  return ⟨mode, pl, conf.name, data, ept, conf.observer⟩

/-- `Actor.create_main`. -/
def Actor.createMain : Actor := ⟨.host, .kernel, "main", 0, 0, false⟩

/-- `add_actor_with_section`: the actors of the test case by name, each with a section of that
name; `none` is an exception. -/
def addActorWithSection (allowOverwrite : Bool) (actors : Dict String Actor) (actor : Actor) :
    Option (Dict String Actor) :=
  if allowOverwrite = false ∧ actors.contains actor.name then none
  else if actor.name = "main" ∧ (actor.mode ≠ .host ∨ actor.privilegeLevel ≠ .kernel) then none
  else some (actors.insert actor.name actor)

/-- `generate_actors_with_sections` on a new test case. -/
def generateActorsWithSections (target : TargetDesc) (draws : String → Draws) (conf : Actors) :
    Option (Dict String Actor) :=
  conf.foldlM (fun actors entry => do
    let actor ← Actor.fromDict target (draws entry.1) entry.2
    addActorWithSection (entry.1 = "main") actors actor) [("main", Actor.createMain)]

end Rvzr.Config
