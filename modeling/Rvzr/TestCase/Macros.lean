import Rvzr.TestCase.Binary

/-!
# Macros

The macro specifications of `rvzr/target_desc.py:93-135`, and the checks that
`ELFParser._validate_macros` makes on a symbol table (`rvzr/elf_parser.py:451-483`).
-/

namespace Rvzr.TestCase

/-- The kinds of macro arguments; the empty string is `none`. -/
inductive MacroArg where
  | actorId | functionId | int | none
  deriving DecidableEq, Repr

structure MacroSpec where
  type_ : Int
  name : String
  args : List MacroArg
  deriving DecidableEq, Repr

/-- `TargetDesc.macro_specs`, in the order of the dictionary. -/
def macroSpecs : List MacroSpec := [
  ⟨-1, "random_instructions", [.int, .int, .none, .none]⟩,
  ⟨0, "function", [.none, .none, .none, .none]⟩,
  ⟨1, "measurement_start", [.none, .none, .none, .none]⟩,
  ⟨2, "measurement_end", [.none, .none, .none, .none]⟩,
  ⟨3, "fault_handler", [.none, .none, .none, .none]⟩,
  ⟨4, "switch", [.actorId, .functionId, .none, .none]⟩,
  ⟨5, "set_k2u_target", [.actorId, .functionId, .none, .none]⟩,
  ⟨6, "switch_k2u", [.actorId, .none, .none, .none]⟩,
  ⟨7, "set_u2k_target", [.actorId, .functionId, .none, .none]⟩,
  ⟨8, "switch_u2k", [.actorId, .none, .none, .none]⟩,
  ⟨9, "set_h2g_target", [.actorId, .functionId, .none, .none]⟩,
  ⟨10, "switch_h2g", [.actorId, .none, .none, .none]⟩,
  ⟨11, "set_g2h_target", [.actorId, .functionId, .none, .none]⟩,
  ⟨12, "switch_g2h", [.actorId, .none, .none, .none]⟩,
  ⟨13, "landing_k2u", [.none, .none, .none, .none]⟩,
  ⟨14, "landing_u2k", [.none, .none, .none, .none]⟩,
  ⟨15, "landing_h2g", [.none, .none, .none, .none]⟩,
  ⟨16, "landing_g2h", [.none, .none, .none, .none]⟩,
  ⟨18, "set_data_permissions", [.actorId, .int, .int, .none]⟩]

/-- The exceptions that end the parser; `parsingError` is its own `_ParsingError`. -/
inductive ElfError where
  | parsingError (message : String)
  | keyError (message : String)
  | indexError
  | valueError
  | assertionError
  deriving DecidableEq, Repr

/-- `_ParsingError`. -/
def parsingError (message : String) : ElfError :=
  .parsingError ("[ELFParser] Error while parsing assembly\n       Issue: " ++ message)

/-- `get_macro_spec_from_type`. -/
def getMacroSpecFromType (t : Int) : Except ElfError MacroSpec :=
  match macroSpecs.find? fun spec => spec.type_ = t with
  | some spec => .ok spec
  | none => .error (.keyError s!"Unknown macro type: {t}")

/-- `find_actor(actor_id=...)`. -/
def findActor (actors : List Actor) (id : Int) : Option Actor := actors.find? fun a => a.id = id

/-- Argument `i` of a symbol: `(arg >> (i * 16)) & 0xFFFF`. -/
def argOf (arg : Int) (i : Nat) : Int := arg / 2 ^ (16 * i) % 2 ^ 16

/-- The actor of a target macro has the type that the macro expects. -/
def checkActorType (spec : MacroSpec) (actor : Actor) : Except ElfError Unit := do
  if spec.name = "set_k2u_target" ∧ actor.privilegeLevel ≠ .user ∧ actor.mode ≠ .host then
    throw (parsingError "Macro set_k2u_target expects a user actor")
  if spec.name = "set_u2k_target" ∧ actor.privilegeLevel ≠ .kernel ∧ actor.mode ≠ .host then
    throw (parsingError "Macro set_u2k_target expects a kernel actor")
  if spec.name = "set_h2g_target" ∧ actor.mode ≠ .host ∧ actor.privilegeLevel ≠ .kernel then
    throw (parsingError "Macro set_h2g_target expects a host actor")
  if spec.name = "set_g2h_target" ∧ actor.mode ≠ .guest ∧ actor.privilegeLevel ≠ .kernel then
    throw (parsingError "Macro set_g2h_target expects a guest actor")

/-- The actor of an argument exists and has the right type. -/
def validateTarget (actors : List Actor) (spec : MacroSpec) (target : Int) : Except ElfError Unit :=
  match findActor actors target with
  | none => throw (parsingError s!"Macro references an unknown actor id {target}")
  | some actor => checkActorType spec actor

/-- The checks on one symbol. -/
def validateMacro (actors : List Actor) (symbol : SymbolTableEntry) : Except ElfError Unit := do
  if symbol.type_ = 0 then return
  let spec ← getMacroSpecFromType symbol.type_
  (List.range 4).forM fun i => do
    if spec.args[i]? = some .actorId then validateTarget actors spec (argOf symbol.arg i)

/-- `_validate_macros`. -/
def validateMacros (actors : List Actor) (symbols : List SymbolTableEntry) :
    Except ElfError Unit := symbols.forM (validateMacro actors)

/-! ### What the checks accept -/

/-- Whether a run returned. -/
def accepts {α : Type} (r : Except ElfError α) : Bool :=
  match r with
  | .ok _ => true
  | .error _ => false

/-- What a run returned, or a default. -/
def returned {α : Type} (d : α) (r : Except ElfError α) : α :=
  match r with
  | .ok a => a
  | .error _ => d

theorem returned_of_accepts {α : Type} (d : α) {r : Except ElfError α} (h : accepts r = true) :
    r = .ok (returned d r) := by
  cases r with
  | error e => exact nomatch h
  | ok a => rfl

@[simp] theorem accepts_throw {α : Type} (e : ElfError) :
    accepts (throw e : Except ElfError α) = false := rfl

@[simp] theorem accepts_pure {α : Type} (a : α) : accepts (pure a : Except ElfError α) = true := rfl

theorem accepts_bind_unit (x : Except ElfError Unit) (f : Unit → Except ElfError Unit) :
    accepts (x >>= f) = (accepts x && accepts (f ())) := by
  cases x with
  | error e => rfl
  | ok u => rfl

theorem accepts_ok_bind {α β : Type} (a : α) (f : α → Except ElfError β) :
    accepts (Except.ok a >>= f) = accepts (f a) := rfl

theorem accepts_forM {α : Type} (f : α → Except ElfError Unit) (l : List α) :
    accepts (l.forM f) = l.all fun a => accepts (f a) := by
  induction l with
  | nil => rfl
  | cons a l ih =>
    show accepts (f a >>= fun _ => l.forM f) = _
    rw [accepts_bind_unit, ih]
    rfl

/-- A check that raises an error, and what follows it. -/
theorem accepts_check (c : Prop) [Decidable c] {α β : Type} (e : ElfError)
    (f : α → Except ElfError β) (y : Except ElfError β) :
    accepts (if c then throw e >>= f else y) = true ↔ ¬ c ∧ accepts y = true := by
  by_cases hc : c
  · rw [if_pos hc]
    exact ⟨fun h => (nomatch h), fun h => absurd hc h.1⟩
  · simp [hc]

theorem accepts_last_check (c : Prop) [Decidable c] (e : ElfError) :
    accepts (if c then throw e else pure () : Except ElfError Unit) = true ↔ ¬ c := by
  by_cases hc : c
  · simp [hc]
  · simp [hc]

/-! ### The dictionary of specifications -/

theorem getMacroSpecFromType_mem {spec : MacroSpec} (h : spec ∈ macroSpecs) :
    getMacroSpecFromType spec.type_ = .ok spec := by
  have hfind : ∀ spec ∈ macroSpecs, macroSpecs.find? (fun x => x.type_ = spec.type_) = some spec := by
    decide
  unfold getMacroSpecFromType
  rw [hfind spec h]

/-- An actor can only be the first argument. -/
theorem actorId_first {spec : MacroSpec} (h : spec ∈ macroSpecs) {i : Nat} (hi : i < 4)
    (harg : spec.args[i]? = some .actorId) : i = 0 := by
  have hall : ∀ spec ∈ macroSpecs, ∀ i < 4, spec.args[i]? = some .actorId → i = 0 := by decide
  exact hall spec h i hi harg

/-- The macros that set the target of a switch are known by name and by type. -/
theorem target_names {spec : MacroSpec} (h : spec ∈ macroSpecs) :
    (spec.name = "set_k2u_target" ↔ spec.type_ = 5) ∧
    (spec.name = "set_u2k_target" ↔ spec.type_ = 7) ∧
    (spec.name = "set_h2g_target" ↔ spec.type_ = 9) ∧
    (spec.name = "set_g2h_target" ↔ spec.type_ = 11) := by
  revert spec
  decide

theorem target_args {spec : MacroSpec} (h : spec ∈ macroSpecs)
    (ht : spec.type_ = 5 ∨ spec.type_ = 7 ∨ spec.type_ = 9 ∨ spec.type_ = 11) :
    spec.args[0]? = some .actorId := by
  revert spec
  decide

theorem validateTarget_of_find {actors : List Actor} {spec : MacroSpec} {target : Int} {a : Actor}
    (h : findActor actors target = some a) :
    validateTarget actors spec target = checkActorType spec a := by
  unfold validateTarget
  rw [h]

theorem findActor_eq {actors : List Actor} {a : Actor} (ha : a ∈ actors)
    (hid : ∀ b ∈ actors, b.id = a.id → b = a) : findActor actors a.id = some a := by
  unfold findActor
  cases hf : actors.find? fun b => b.id = a.id with
  | none =>
    have hnone := List.find?_eq_none.1 hf a ha
    simp at hnone
  | some b =>
    have hb : b.id = a.id := by simpa using List.find?_some hf
    rw [hid b (List.mem_of_find?_eq_some hf) hb]

end Rvzr.TestCase
