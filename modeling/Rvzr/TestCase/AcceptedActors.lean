import Rvzr.TestCase.ActorConf

/-!
# Accepted configurations of actors

Every configuration that `set_actor_properties` accepts, in any number of calls, is sound: its
modes and privilege levels are known ones and its pages have all properties. So actors can be
built from it, with a mask that has the configured value at the bit of each property
(`createPteMask_data`, `createPteMask_ept`).
-/

namespace Rvzr.Config

open Rvzr.Lib Rvzr.TestCase

/-! ### What every accepted configuration keeps -/

/-- A configuration of an actor from which `from_dict` builds one. -/
structure ActorConf.Sound (conf : ActorConf) : Prop where
  mode : conf.mode = "host" ∨ conf.mode = "guest"
  privilegeLevel : conf.privilegeLevel = "kernel" ∨ conf.privilegeLevel = "user"
  data : conf.dataProperties.map Prod.fst = actorDefault.dataProperties.map Prod.fst
  ept : conf.dataEptProperties.map Prod.fst = actorDefault.dataEptProperties.map Prod.fst

theorem actorDefault_sound (name : String) : { actorDefault with name := name }.Sound :=
  ⟨.inl rfl, .inl rfl, rfl, rfl⟩

/-- Setting properties of a page that has all of them adds none. -/
theorem setProperties_keys {options : List PageProperty} {e : PropertyKey → ConfigException}
    {conf conf' : PageConf} {properties : List (PropertyKey × Bool)}
    (hall : ∀ p ∈ options, p ∈ conf.map Prod.fst)
    (h : setProperties options e conf properties = .ok conf') :
    conf'.map Prod.fst = conf.map Prod.fst := by
  refine foldlM_prefix (I := fun _ c => c.map Prod.fst = conf.map Prod.fst) rfl ?_ h
  intro _ property c c' _ hc hstep
  cases hkey : property.1 with
  | unknown key => simp [hkey] at hstep
  | known p =>
    by_cases hp : p ∈ options
    · simp only [hkey, hp, if_true, Except.ok.injEq] at hstep
      rw [← hstep, Dict.insert_keys_of_mem _ (hc ▸ hall p hp), hc]
    · simp [hkey, hp] at hstep

theorem applySetting_sound {update : Dict ActorConfKey ActorSetting} {conf conf' : ActorConf}
    {s : ActorSetting} (hconf : conf.Sound) (h : applySetting update conf s = .ok conf') :
    conf'.Sound := by
  cases s with
  | name v | observer v | instructionBlocklist | faultBlocklist | unknown v =>
    obtain rfl := Except.ok.inj h
    exact ⟨hconf.mode, hconf.privilegeLevel, hconf.data, hconf.ept⟩
  | mode v =>
    rw [applySetting] at h
    split at h
    · rename_i hv
      obtain rfl := Except.ok.inj h
      exact { hconf with mode := hv }
    · cases h
  | privilegeLevel v =>
    rw [applySetting] at h
    split at h
    · rename_i hv
      obtain rfl := Except.ok.inj h
      exact { hconf with privilegeLevel := hv }
    · cases h
  | dataProperties v =>
    rcases except_bind_ok h with ⟨c, hc, hr⟩
    obtain rfl := Except.ok.inj hr
    have hkeys := setProperties_keys (by rw [hconf.data]; decide) hc
    exact { hconf with data := hkeys.trans hconf.data }
  | dataEptProperties v =>
    rw [applySetting] at h
    split at h
    · cases h
    · rcases except_bind_ok h with ⟨c, hc, hr⟩
      obtain rfl := Except.ok.inj hr
      have hkeys := setProperties_keys (by rw [hconf.ept]; decide) hc
      exact { hconf with ept := hkeys.trans hconf.ept }

/-- The main actor is in host and kernel mode. -/
def ActorConf.IsMain (conf : ActorConf) : Prop :=
  conf.mode = "host" ∧ conf.privilegeLevel = "kernel"

/-- The actors of an accepted configuration: each has its own entry, the first is the main one. -/
structure Accepted (actors : Actors) : Prop where
  nodup : (actors.map Prod.fst).Nodup
  sound : ∀ entry ∈ actors, entry.2.Sound
  main : ∃ conf rest, actors = ("main", conf) :: rest ∧ conf.IsMain

theorem defaultActors_accepted : Accepted defaultActors where
  nodup := by decide
  sound := by
    intro entry hentry
    rw [List.mem_singleton.mp hentry]
    exact actorDefault_sound "main"
  main := ⟨actorDefault, [], rfl, rfl, rfl⟩

/-- Every entry of the dictionary `update` is one of the settings, under its own key. -/
theorem updateOf_key {settings : List ActorSetting} {entry : ActorConfKey × ActorSetting}
    (h : entry ∈ updateOf settings) : entry.2.key = entry.1 := by
  have hinv : ∀ (l : List ActorSetting) (d : Dict ActorConfKey ActorSetting),
      (∀ e ∈ d, e.2.key = e.1) →
      ∀ e ∈ l.foldl (fun update s => update.insert s.key s) d, e.2.key = e.1 := by
    intro l
    induction l with
    | nil => exact fun _ hd => hd
    | cons s l ih =>
      intro d hd
      refine ih _ fun e he => ?_
      rcases Dict.mem_insert he with he | rfl
      · exact hd e he
      · rfl
  exact hinv settings [] (by simp) entry h

theorem updateOf_nodup (settings : List ActorSetting) :
    ((updateOf settings).map Prod.fst).Nodup := by
  have hinv : ∀ (l : List ActorSetting) (d : Dict ActorConfKey ActorSetting),
      (d.map Prod.fst).Nodup →
      ((l.foldl (fun update s => update.insert s.key s) d).map Prod.fst).Nodup := by
    intro l
    induction l with
    | nil => exact fun _ hd => hd
    | cons s l ih => exact fun d hd => ih _ (Dict.nodup_insert hd _ _)
  exact hinv settings [] List.nodup_nil

/-- There is at most one setting of the mode in the dictionary, the one that was checked. -/
theorem updateMode_of_mem {settings : List ActorSetting} {v : String}
    (h : .mode v ∈ (updateOf settings).values) : updateMode (updateOf settings) = v := by
  rcases List.mem_map.mp h with ⟨entry, hentry, hv⟩
  have hget := Dict.get?_of_mem (updateOf_nodup settings) hentry
  rw [← updateOf_key hentry, hv] at hget
  simp only [ActorSetting.key] at hget
  simp [updateMode, hget]

theorem updatePrivilegeLevel_of_mem {settings : List ActorSetting} {v : String}
    (h : .privilegeLevel v ∈ (updateOf settings).values) :
    updatePrivilegeLevel (updateOf settings) = v := by
  rcases List.mem_map.mp h with ⟨entry, hentry, hv⟩
  have hget := Dict.get?_of_mem (updateOf_nodup settings) hentry
  rw [← updateOf_key hentry, hv] at hget
  simp only [ActorSetting.key] at hget
  simp [updatePrivilegeLevel, hget]

theorem applySetting_isMain {update : Dict ActorConfKey ActorSetting} {conf conf' : ActorConf}
    {s : ActorSetting} (hconf : conf.IsMain) (hmode : ∀ v, s = .mode v → v = "host")
    (hpl : ∀ v, s = .privilegeLevel v → v = "kernel") (h : applySetting update conf s = .ok conf') :
    conf'.IsMain := by
  cases s with
  | name v | observer v | instructionBlocklist | faultBlocklist | unknown v =>
    obtain rfl := Except.ok.inj h
    exact ⟨hconf.1, hconf.2⟩
  | mode v =>
    rw [applySetting] at h
    split at h
    · obtain rfl := Except.ok.inj h
      exact ⟨hmode v rfl, hconf.2⟩
    · cases h
  | privilegeLevel v =>
    rw [applySetting] at h
    split at h
    · obtain rfl := Except.ok.inj h
      exact ⟨hconf.1, hpl v rfl⟩
    · cases h
  | dataProperties v =>
    rcases except_bind_ok h with ⟨c, -, hr⟩
    obtain rfl := Except.ok.inj hr
    exact ⟨hconf.1, hconf.2⟩
  | dataEptProperties v =>
    rw [applySetting] at h
    split at h
    · cases h
    · rcases except_bind_ok h with ⟨c, -, hr⟩
      obtain rfl := Except.ok.inj hr
      exact ⟨hconf.1, hconf.2⟩

/-- What the settings of one actor do: its entry is sound, and that of main stays a main one. -/
theorem setActor_ok {actors actors' : Actors} {new : String × List ActorSetting}
    (hactors : ∀ entry ∈ actors, entry.2.Sound) (h : setActor actors new = .ok actors') :
    ∃ conf, actors' = actors.insert new.1 conf ∧ conf.Sound ∧
      (new.1 = "main" → (∃ old, actors.get? "main" = some old ∧ old.IsMain) → conf.IsMain) := by
  rcases except_bind_ok h with ⟨_, -, h⟩
  rcases except_check_ok h with ⟨hmode, h⟩
  rcases except_check_ok h with ⟨hpl, h⟩
  rcases except_bind_ok h with ⟨conf, hconf, hr⟩
  obtain rfl := Except.ok.inj hr
  refine ⟨conf, rfl, ?_, ?_⟩
  · refine foldlM_prefix (I := fun _ c => c.Sound) ?_
      (fun _ _ _ _ _ hc hstep => applySetting_sound hc hstep) hconf
    cases hold : actors.get? new.1 with
    | none => exact actorDefault_sound new.1
    | some old => exact hactors (new.1, old) (Dict.mem_of_get? hold)
  · rintro hmain ⟨old, hold, holdMain⟩
    have hhost : updateMode (updateOf new.2) = "host" := by
      by_contra hne
      exact hmode ⟨hmain, hne⟩
    have hkernel : updatePrivilegeLevel (updateOf new.2) = "kernel" := by
      by_contra hne
      exact hpl ⟨hmain, hne⟩
    rw [hmain, hold] at hconf
    refine foldlM_prefix (I := fun _ c => c.IsMain) holdMain ?_ hconf
    intro q s c c' hpre hc hstep
    have hs : s ∈ (updateOf new.2).values := hpre.subset (by simp)
    refine applySetting_isMain hc ?_ ?_ hstep
    · rintro v rfl
      exact (updateMode_of_mem hs).symm.trans hhost
    · rintro v rfl
      exact (updatePrivilegeLevel_of_mem hs).symm.trans hkernel

theorem setActor_accepted {actors actors' : Actors} {new : String × List ActorSetting}
    (hactors : Accepted actors) (h : setActor actors new = .ok actors') : Accepted actors' := by
  rcases setActor_ok hactors.sound h with ⟨conf, rfl, hsound, hmain⟩
  refine ⟨Dict.nodup_insert hactors.nodup _ _, ?_, ?_⟩
  · intro entry hentry
    rcases Dict.mem_insert hentry with hold | rfl
    · exact hactors.sound entry hold
    · exact hsound
  · rcases hactors.main with ⟨old, rest, rfl, hold⟩
    by_cases hname : new.1 = "main"
    · refine ⟨conf, _, by rw [hname, Dict.insert_cons_self], hmain hname ⟨old, ?_, hold⟩⟩
      exact Dict.get?_of_mem hactors.nodup List.mem_cons_self
    · exact ⟨old, _, Dict.insert_cons_of_ne _ _ (Ne.symm hname), hold⟩

/-- The actors after loading several configurations one after the other. -/
def loadActors (actors : Actors) (calls : List (List (String × List ActorSetting))) :
    Except ConfigException Actors :=
  calls.foldlM setActorProperties actors

theorem loadActors_accepted {actors actors' : Actors}
    {calls : List (List (String × List ActorSetting))} (hactors : Accepted actors)
    (h : loadActors actors calls = .ok actors') : Accepted actors' :=
  foldlM_prefix (I := fun _ a => Accepted a) hactors
    (fun _ _ _ _ _ ha hcall => foldlM_prefix (I := fun _ a => Accepted a) ha
      (fun _ _ _ _ _ hb hstep => setActor_accepted hb hstep) hcall) h

/-! ### Masks -/

/-- The configured value of a property. -/
def value (conf : PageConf) (p : PageProperty) : Bool := (conf.get? p).getD false

/-- A configured property as a bit of the entry. -/
def specific (map : PropertyMap) (property : PageProperty × Bool) : Option (PteBitName × Bool) :=
  if property.1 = .randomized then none
  else (map.get? property.1).map fun bit =>
    (bit.1, if bit.2 then !property.2 else property.2)

/-- A bit of the entry with its offset and its value in the mask. -/
def placed (descriptor : PteDescriptor) (isRandomized : Bool) (toDefault : PteBitName → Bool)
    (property : PteBitName × Bool) : Option (Nat × Bool) :=
  (descriptor.get? property.1).map fun bit =>
    (bit.1, bitValue isRandomized (toDefault property.1) bit.2 property.2)

/-- The bits that properties with the keys `keys` set. -/
def bitNames (map : PropertyMap) (keys : List PageProperty) : List PteBitName :=
  keys.filterMap fun p => if p = .randomized then none else (map.get? p).map Prod.fst

/-- The tables of a target describe the entry of a page with the properties `keys`: every
property has a bit of its own, with an offset of its own. -/
structure Describes (descriptor : PteDescriptor) (map : PropertyMap) (keys : List PageProperty) :
    Prop where
  keys_nodup : keys.Nodup
  randomized : .randomized ∈ keys
  known : ∀ p ∈ keys, p ≠ .randomized → (map.get? p).isSome
  bits_nodup : (bitNames map keys).Nodup
  described : ∀ b ∈ bitNames map keys, (descriptor.get? b).isSome
  configured : ∀ b ∈ descriptor.map Prod.fst, b ∈ bitNames map keys
  offsets_nodup : ((bitNames map keys).filterMap fun b => (descriptor.get? b).map Prod.fst).Nodup
  offsets_lt : ∀ bit ∈ descriptor, bit.2.1 < 64
  covers : ∀ bit ∈ map, bit.1 ∈ keys ∧ bit.1 ≠ .randomized

theorem describes_data : Describes x86PteBits x86PagePropertyToPteBitName
    (actorDefault.dataProperties.map Prod.fst) := by
  constructor <;> decide

theorem describes_ept (isIntel : Bool) : Describes (x86TargetDesc isIntel).vmPteBits
    (x86TargetDesc isIntel).pagePropertyToVmPteBitName
    (actorDefault.dataEptProperties.map Prod.fst) := by
  cases isIntel <;> constructor <;> decide

section Masks

variable {descriptor : PteDescriptor} {map : PropertyMap} {conf : PageConf}
  {toDefault : PteBitName → Bool}

theorem specific_keys (map : PropertyMap) (conf : PageConf) :
    (conf.filterMap (specific map)).map Prod.fst = bitNames map (conf.map Prod.fst) := by
  rw [bitNames, List.map_filterMap, List.filterMap_map]
  congr 1
  funext property
  by_cases hr : property.1 = .randomized
  · simp [specific, hr]
  · simp [specific, hr, Function.comp_def]

theorem archSpecificProperties_from (acc : Dict PteBitName Bool)
    (hknown : ∀ property ∈ conf, property.1 ≠ .randomized → (map.get? property.1).isSome)
    (hnodup : (acc.map Prod.fst ++ (conf.filterMap (specific map)).map Prod.fst).Nodup) :
    conf.foldlM (fun properties property =>
      if property.1 = .randomized then some properties
      else (map.get? property.1).map fun bit =>
        properties.insert bit.1 (if bit.2 then !property.2 else property.2)) acc =
      some (acc ++ conf.filterMap (specific map)) := by
  induction conf generalizing acc with
  | nil => simp
  | cons property conf ih =>
    have hrest := fun p hp => hknown p (List.mem_cons_of_mem property hp)
    by_cases hr : property.1 = .randomized
    · have hnone : specific map property = none := by simp [specific, hr]
      rw [List.filterMap_cons_none hnone] at hnodup ⊢
      simp only [List.foldlM_cons, hr, if_true, Option.bind_eq_bind, Option.bind_some]
      exact ih acc hrest hnodup
    · rcases Option.isSome_iff_exists.mp (hknown property List.mem_cons_self hr) with ⟨bit, hbit⟩
      have hsome : specific map property =
          some (bit.1, if bit.2 then !property.2 else property.2) := by simp [specific, hr, hbit]
      rw [List.filterMap_cons_some hsome] at hnodup ⊢
      have hnew : bit.1 ∉ acc.map Prod.fst := by
        intro hmem
        exact (List.nodup_append.mp hnodup).2.2 _ hmem _ (by simp) rfl
      simp only [List.foldlM_cons, hr, if_false, hbit, Option.map_some, Option.bind_eq_bind,
        Option.bind_some]
      rw [Dict.insert_of_notMem _ hnew, ih _ hrest ?_, List.append_assoc, List.singleton_append]
      simpa [List.append_assoc] using hnodup

theorem mask_from (descriptor : PteDescriptor) (toDefault : PteBitName → Bool)
    (isRandomized : Bool) (properties : Dict PteBitName Bool) (mask : Nat)
    (h : ∀ property ∈ properties, (descriptor.get? property.1).isSome) :
    properties.foldlM (fun mask property => (descriptor.get? property.1).map fun bit =>
      mask ||| (bitValue isRandomized (toDefault property.1) bit.2 property.2).toNat <<< bit.1)
      mask =
    some ((properties.filterMap (placed descriptor isRandomized toDefault)).foldl
      (fun mask b => mask ||| b.2.toNat <<< b.1) mask) := by
  induction properties generalizing mask with
  | nil => simp
  | cons property properties ih =>
    rcases Option.isSome_iff_exists.mp (h property List.mem_cons_self) with ⟨bit, hbit⟩
    have hplaced : placed descriptor isRandomized toDefault property =
        some (bit.1, bitValue isRandomized (toDefault property.1) bit.2 property.2) := by
      simp [placed, hbit]
    rw [List.filterMap_cons_some hplaced, List.foldl_cons, List.foldlM_cons, hbit]
    exact ih _ fun p hp => h p (List.mem_cons_of_mem property hp)

/-- The bits of the mask of a page: their offsets and values. -/
def maskBits (descriptor : PteDescriptor) (map : PropertyMap) (conf : PageConf)
    (toDefault : PteBitName → Bool) : List (Nat × Bool) :=
  (conf.filterMap (specific map)).filterMap
    (placed descriptor (value conf .randomized) toDefault)

theorem createPteMask_eq (h : Describes descriptor map (conf.map Prod.fst)) :
    createPteMask descriptor conf map toDefault =
      some (maskOf (maskBits descriptor map conf toDefault)) := by
  have hkeys := specific_keys map conf
  have hspecific : archSpecificProperties map conf = some (conf.filterMap (specific map)) := by
    refine archSpecificProperties_from [] (fun property hp => ?_) ?_
    · exact h.known property.1 (List.mem_map_of_mem hp)
    · rw [hkeys]
      exact h.bits_nodup
  have hrandomized : conf.get? .randomized = some (value conf .randomized) := by
    rcases List.mem_map.mp h.randomized with ⟨property, hp, hkey⟩
    rw [value, ← hkey, Dict.get?_of_mem h.keys_nodup hp, Option.getD_some]
  have hall : (descriptor.all fun bit => Dict.contains (conf.filterMap (specific map)) bit.1) =
      true := by
    refine List.all_eq_true.mpr fun bit hbit => Dict.contains_iff.mpr ?_
    rw [hkeys]
    exact h.configured bit.1 (List.mem_map_of_mem hbit)
  have hmask := mask_from descriptor toDefault
    (value conf .randomized) (conf.filterMap (specific map)) 0 (fun property hp => by
      refine h.described property.1 ?_
      rw [← hkeys]
      exact List.mem_map_of_mem hp)
  simp only [createPteMask, hrandomized, hspecific, hall, Option.bind_eq_bind, Option.bind_some,
    implies_true, guard_true, Option.pure_def, hmask]
  rfl

theorem maskBits_offsets (conf : PageConf) :
    (maskBits descriptor map conf toDefault).map Prod.fst =
      (bitNames map (conf.map Prod.fst)).filterMap fun b => (descriptor.get? b).map Prod.fst := by
  rw [maskBits, ← specific_keys, List.map_filterMap, List.filterMap_map]
  congr 1
  funext property
  simp [placed, Function.comp_def]

/-- A mask has the configured value at the bit of each property. -/
def HasBits (descriptor : PteDescriptor) (map : PropertyMap) (conf : PageConf)
    (toDefault : PteBitName → Bool) (mask : Nat) : Prop :=
  ∀ p bit entry, map.get? p = some bit → descriptor.get? bit.1 = some entry →
    mask.testBit entry.1 = bitValue (value conf .randomized) (toDefault bit.1) entry.2
      (if bit.2 then !value conf p else value conf p)

/-- `_create_pte_mask` never fails on a page with all properties, and the mask fits in an entry. -/
theorem createPteMask_spec (toDefault : PteBitName → Bool)
    (h : Describes descriptor map (conf.map Prod.fst)) :
    ∃ mask, createPteMask descriptor conf map toDefault = some mask ∧ mask < 2 ^ 64 ∧
      HasBits descriptor map conf toDefault mask := by
  refine ⟨_, createPteMask_eq h, ?_, ?_⟩
  · refine Nat.lt_pow_two_of_testBit _ fun i hi => ?_
    rw [testBit_maskOf]
    refine List.any_eq_false.mpr fun b hb => ?_
    rcases List.mem_filterMap.mp hb with ⟨property, -, hplaced⟩
    rcases Option.map_eq_some_iff.mp hplaced with ⟨bit, hbit, rfl⟩
    have hlt := h.offsets_lt _ (Dict.mem_of_get? hbit)
    have hne : bit.1 ≠ i := Nat.ne_of_lt (Nat.lt_of_lt_of_le hlt hi)
    simp [hne]
  · intro p bit entry hbit hentry
    rcases h.covers _ (Dict.mem_of_get? hbit) with ⟨hp, hr⟩
    rcases List.mem_map.mp hp with ⟨property, hproperty, rfl⟩
    have hvalue : value conf property.1 = property.2 := by
      rw [value, Dict.get?_of_mem h.keys_nodup hproperty, Option.getD_some]
    refine testBit_maskOf_mem (by rw [maskBits_offsets]; exact h.offsets_nodup) ?_
    refine List.mem_filterMap.mpr
      ⟨(bit.1, if bit.2 then !value conf property.1 else value conf property.1),
        List.mem_filterMap.mpr ⟨property, hproperty, ?_⟩, ?_⟩
    · simp [specific, hr, hbit, hvalue]
    · simp [placed, hentry]

end Masks

/-! ### The actors of a test case -/

/-- The actor of a sound configuration. -/
structure BuiltFrom (target : TargetDesc) (draws : Draws) (conf : ActorConf) (actor : Actor) :
    Prop where
  mode : actor.mode = .host ∧ conf.mode = "host" ∨ actor.mode = .guest ∧ conf.mode = "guest"
  privilegeLevel : actor.privilegeLevel = .kernel ∧ conf.privilegeLevel = "kernel" ∨
    actor.privilegeLevel = .user ∧ conf.privilegeLevel = "user"
  name : actor.name = conf.name
  observer : actor.observer = conf.observer
  data_lt : actor.dataProperties < 2 ^ 64
  ept_lt : actor.dataEptProperties < 2 ^ 64
  data : HasBits target.pteBits target.pagePropertyToPteBitName conf.dataProperties draws.pte
    actor.dataProperties
  ept : HasBits target.vmPteBits target.pagePropertyToVmPteBitName conf.dataEptProperties
    draws.epte actor.dataEptProperties

theorem fromDict_builds {conf : ActorConf} (isIntel : Bool) (draws : Draws) (h : conf.Sound) :
    ∃ actor, Actor.fromDict (x86TargetDesc isIntel) draws conf = some actor ∧
      BuiltFrom (x86TargetDesc isIntel) draws conf actor := by
  have hdata : Describes (x86TargetDesc isIntel).pteBits
      (x86TargetDesc isIntel).pagePropertyToPteBitName (conf.dataProperties.map Prod.fst) := by
    rw [h.data]
    exact describes_data
  have hept := describes_ept isIntel
  rw [← h.ept] at hept
  rcases createPteMask_spec draws.pte hdata with ⟨data, hd, hdlt, hdbits⟩
  rcases createPteMask_spec draws.epte hept with ⟨ept, he, helt, hebits⟩
  rcases h.mode with hm | hm <;> rcases h.privilegeLevel with hp | hp <;>
    simp only [Actor.fromDict, hm, hp, hd, he, String.reduceEq, if_true, if_false,
      Option.bind_eq_bind, Option.bind_some, Option.pure_def, Option.some.injEq,
      exists_eq_left'] <;>
    exact ⟨by simp [hm], by simp [hp], rfl, rfl, hdlt, helt, hdbits, hebits⟩

/-- The names of the actors are distinct, and only the main one may be called so. -/
def DistinctNames (actors : Actors) : Prop :=
  (actors.map fun entry => entry.2.name).Nodup ∧ ∀ entry ∈ actors.tail, entry.2.name ≠ "main"

instance (actors : Actors) : Decidable (DistinctNames actors) :=
  inferInstanceAs (Decidable (_ ∧ _))

section Generate

variable (isIntel : Bool) (draws : String → Draws)

/-- The actor of one entry, under its name. -/
def Generates (entry : String × ActorConf) (new : String × Actor) : Prop :=
  new.1 = entry.2.name ∧ BuiltFrom (x86TargetDesc isIntel) (draws entry.1) entry.2 new.2

/-- The body of the loop of `generate_actors_with_sections`. -/
def generateActor (actors : Dict String Actor) (entry : String × ActorConf) :
    Option (Dict String Actor) := do
  let actor ← Actor.fromDict (x86TargetDesc isIntel) (draws entry.1) entry.2
  addActorWithSection (entry.1 = "main") actors actor

variable {isIntel draws} {built : Dict String Actor}

/-- An actor other than the main one goes to the end, unless its name is taken. -/
theorem generateActor_spec {entry : String × ActorConf} (hsound : entry.2.Sound)
    (hname : entry.1 ≠ "main") (hmain : "main" ∈ built.map Prod.fst) :
    ∃ new, Generates isIntel draws entry new ∧ generateActor isIntel draws built entry =
      if entry.2.name ∈ built.map Prod.fst then none else some (built ++ [new]) := by
  rcases fromDict_builds isIntel (draws entry.1) hsound with ⟨actor, hactor, hbuilt⟩
  refine ⟨(entry.2.name, actor), ⟨rfl, hbuilt⟩, ?_⟩
  simp only [generateActor, hactor, Option.bind_eq_bind, Option.bind_some, addActorWithSection,
    hname, decide_false, Dict.contains_iff, true_and, hbuilt.name]
  by_cases hmem : entry.2.name ∈ built.map Prod.fst
  · rw [if_pos hmem, if_pos hmem]
  · have hne : entry.2.name ≠ "main" := fun heq => hmem (heq ▸ hmain)
    rw [if_neg hmem, if_neg hmem, if_neg (fun h => hne h.1), Dict.insert_of_notMem _ hmem]

/-- The loop over the actors other than the main one: it fails iff a name is repeated. -/
theorem generateRest_spec {rest : Actors} (hsound : ∀ entry ∈ rest, entry.2.Sound)
    (hnames : ∀ entry ∈ rest, entry.1 ≠ "main") (hmain : "main" ∈ built.map Prod.fst)
    (hnodup : (built.map Prod.fst).Nodup) :
    ∃ news, List.Forall₂ (Generates isIntel draws) rest news ∧
      rest.foldlM (generateActor isIntel draws) built =
        if ((built ++ news).map Prod.fst).Nodup then some (built ++ news) else none := by
  induction rest generalizing built with
  | nil => exact ⟨[], .nil, by simp [hnodup]⟩
  | cons entry rest ih =>
    rcases generateActor_spec (hsound entry List.mem_cons_self)
      (hnames entry List.mem_cons_self) hmain with ⟨new, hnew, hstep⟩
    have hsound' := fun e he => hsound e (List.mem_cons_of_mem entry he)
    have hnames' := fun e he => hnames e (List.mem_cons_of_mem entry he)
    rw [List.foldlM_cons, hstep]
    by_cases hmem : entry.2.name ∈ built.map Prod.fst
    · rcases ih hsound' hnames' hmain hnodup with ⟨news, hnews, -⟩
      refine ⟨new :: news, .cons hnew hnews, ?_⟩
      have hrepeated : ¬ ((built ++ new :: news).map Prod.fst).Nodup := by
        rw [List.map_append, List.nodup_append]
        intro h
        exact h.2.2 _ hmem _ List.mem_cons_self hnew.1.symm
      rw [if_pos hmem, if_neg hrepeated]
      rfl
    · have hnodup' : ((built ++ [new]).map Prod.fst).Nodup := by
        rw [List.map_append, List.nodup_append]
        refine ⟨hnodup, List.nodup_singleton _, ?_⟩
        rintro a ha b hb rfl
        rw [List.map_singleton, List.mem_singleton, hnew.1] at hb
        exact hmem (hb ▸ ha)
      have hmain' : "main" ∈ (built ++ [new]).map Prod.fst := by
        rw [List.map_append]
        exact List.mem_append_left _ hmain
      rcases ih hsound' hnames' hmain' hnodup' with ⟨news, hnews, hrun⟩
      refine ⟨new :: news, .cons hnew hnews, ?_⟩
      rw [List.append_assoc, List.singleton_append] at hrun
      rw [if_neg hmem]
      exact hrun

theorem generates_names {rest : Actors} {news : Dict String Actor}
    (h : List.Forall₂ (Generates isIntel draws) rest news) :
    news.map Prod.fst = rest.map fun entry => entry.2.name := by
  induction h with
  | nil => rfl
  | cons hnew _ ih => rw [List.map_cons, List.map_cons, ih, hnew.1]

theorem generates_mem {rest : Actors} {news : Dict String Actor}
    (h : List.Forall₂ (Generates isIntel draws) rest news) {entry : String × ActorConf}
    (hentry : entry ∈ rest) : ∃ new ∈ news, Generates isIntel draws entry new := by
  induction h with
  | nil => exact absurd hentry List.not_mem_nil
  | cons hnew _ ih =>
    rcases List.mem_cons.mp hentry with rfl | hentry
    · exact ⟨_, List.mem_cons_self, hnew⟩
    · rcases ih hentry with ⟨new, hmem, hnew⟩
      exact ⟨new, List.mem_cons_of_mem _ hmem, hnew⟩

/-- The names with which the loop starts: that of the main actor, and that of the first entry if it
has another one. -/
def firstNames (conf : ActorConf) : List String :=
  "main" :: if conf.name = "main" then [] else [conf.name]

theorem firstNames_nodup (conf : ActorConf) : (firstNames conf).Nodup := by
  by_cases hname : conf.name = "main"
  · simp [firstNames, hname]
  · simp [firstNames, hname, Ne.symm hname]

theorem mem_firstNames {conf : ActorConf} {name : String} (h : name ∈ firstNames conf) :
    name = "main" ∨ conf.name = name := by
  rcases List.mem_cons.mp h with rfl | h
  · exact .inl rfl
  · by_cases hname : conf.name = "main"
    · simp [hname] at h
    · exact .inr (by simpa [hname, eq_comm] using h)

theorem distinctNames_iff (conf : ActorConf) (rest : Actors) :
    (firstNames conf ++ rest.map fun entry => entry.2.name).Nodup ↔
      DistinctNames (("main", conf) :: rest) := by
  rw [firstNames, DistinctNames]
  by_cases hname : conf.name = "main"
  · simp only [hname, if_true, List.map_cons, List.tail_cons, List.cons_append,
      List.nil_append, List.nodup_cons, List.mem_map, not_exists, not_and]
    exact ⟨fun h => ⟨h, fun e he heq => h.1 e he heq⟩, fun h => h.1⟩
  · simp only [hname, if_false, List.map_cons, List.tail_cons, List.cons_append,
      List.nil_append, List.nodup_cons, List.mem_cons, List.mem_map, not_exists, not_and,
      not_or]
    exact ⟨fun h => ⟨h.2, h.1.2⟩, fun h => ⟨⟨Ne.symm hname, h.2⟩, h.1⟩⟩

/-- The actors of a test case that was generated from a configuration. -/
structure GeneratedFrom (isIntel : Bool) (draws : String → Draws) (actors : Actors)
    (built : Dict String Actor) : Prop where
  nodup : (built.map Prod.fst).Nodup
  configured : ∀ entry ∈ actors, ∃ actor, built.get? entry.2.name = some actor ∧
    BuiltFrom (x86TargetDesc isIntel) (draws entry.1) entry.2 actor
  only : ∀ name ∈ built.map Prod.fst, name = "main" ∨ ∃ entry ∈ actors, entry.2.name = name
  main : ∃ main rest, built = ("main", main) :: rest ∧ main.mode = .host ∧
    main.privilegeLevel = .kernel

/-- The first actor replaces the one with which a test case is created, or comes after it if it has
another name. -/
theorem generateMain_spec (isIntel : Bool) (draws : String → Draws) {conf : ActorConf}
    (hsound : conf.Sound) (hmain : conf.IsMain) :
    ∃ actor : Actor, Generates isIntel draws ("main", conf) (conf.name, actor) ∧
      actor.mode = .host ∧ actor.privilegeLevel = .kernel ∧
      generateActor isIntel draws [("main", Actor.createMain)] ("main", conf) =
        some (if conf.name = "main" then [("main", actor)]
          else [("main", Actor.createMain), (conf.name, actor)]) := by
  rcases fromDict_builds isIntel (draws "main") hsound with ⟨actor, hactor, hbuilt⟩
  have hmode : actor.mode = .host := by
    rcases hbuilt.mode with h | h
    · exact h.1
    · exact absurd (h.2.symm.trans hmain.1) (by simp)
  have hpl : actor.privilegeLevel = .kernel := by
    rcases hbuilt.privilegeLevel with h | h
    · exact h.1
    · exact absurd (h.2.symm.trans hmain.2) (by simp)
  refine ⟨actor, ⟨rfl, hbuilt⟩, hmode, hpl, ?_⟩
  by_cases hname : conf.name = "main"
  · simp [generateActor, hactor, addActorWithSection, hmode, hpl, hbuilt.name, hname,
      Dict.insert_cons_self]
  · have hnew : conf.name ∉ [("main", Actor.createMain)].map Prod.fst := by simpa using hname
    simp [generateActor, hactor, addActorWithSection, hmode, hpl, hbuilt.name, hname,
      Dict.insert_of_notMem _ hnew]

/-- The loop from the main actor on. -/
theorem generatedFrom {conf : ActorConf} {rest : Actors} (main : Actor)
    {first : Dict String Actor} (hsound : ∀ entry ∈ rest, entry.2.Sound)
    (hnames : ∀ entry ∈ rest, entry.1 ≠ "main") (hfirst : first.map Prod.fst = firstNames conf)
    (hactor : ∃ actor, (conf.name, actor) ∈ first ∧
      BuiltFrom (x86TargetDesc isIntel) (draws "main") conf actor)
    (hmain : first.head? = some ("main", main)) (hmode : main.mode = .host)
    (hpl : main.privilegeLevel = .kernel) :
    ((rest.foldlM (generateActor isIntel draws) first).isSome ↔
      DistinctNames (("main", conf) :: rest)) ∧
    ∀ built, rest.foldlM (generateActor isIntel draws) first = some built →
      GeneratedFrom isIntel draws (("main", conf) :: rest) built := by
  have hnodup : (first.map Prod.fst).Nodup := hfirst ▸ firstNames_nodup conf
  rcases generateRest_spec hsound hnames (by simp [hfirst, firstNames]) hnodup with
    ⟨news, hnews, hrun⟩
  have hkeys : (first ++ news).map Prod.fst =
      firstNames conf ++ rest.map fun entry => entry.2.name := by
    rw [List.map_append, hfirst, generates_names hnews]
  rw [hrun, ← distinctNames_iff, ← hkeys]
  by_cases hall : ((first ++ news).map Prod.fst).Nodup
  · rw [if_pos hall]
    refine ⟨iff_of_true rfl hall, fun built hbuilt => ?_⟩
    obtain rfl := Option.some.inj hbuilt
    refine ⟨hall, ?_, ?_, ?_⟩
    · intro entry hentry
      rcases List.mem_cons.mp hentry with rfl | hentry
      · rcases hactor with ⟨actor, hmem, hactor⟩
        exact ⟨actor, Dict.get?_of_mem hall (List.mem_append_left _ hmem), hactor⟩
      · rcases generates_mem hnews hentry with ⟨new, hmem, hname, hbuiltFrom⟩
        have hget := Dict.get?_of_mem hall (List.mem_append_right _ hmem)
        rw [hname] at hget
        exact ⟨new.2, hget, hbuiltFrom⟩
    · intro name hmem
      rw [hkeys, List.mem_append] at hmem
      rcases hmem with hmem | hmem
      · exact (mem_firstNames hmem).imp id fun heq => ⟨_, List.mem_cons_self, heq⟩
      · rcases List.mem_map.mp hmem with ⟨entry, hentry, rfl⟩
        exact .inr ⟨entry, List.mem_cons_of_mem _ hentry, rfl⟩
    · rcases List.head?_eq_some_iff.mp hmain with ⟨tail, rfl⟩
      exact ⟨main, tail ++ news, rfl, hmode, hpl⟩
  · rw [if_neg hall]
    exact ⟨iff_of_false Bool.false_ne_true hall, fun built hbuilt => by cases hbuilt⟩

end Generate

/-- The main actor, and a guest whose extended entry is not dirty. -/
def guestActors : Actors :=
  [("main", actorDefault), ("actor1", { actorDefault with
    name := "actor1"
    mode := "guest"
    dataEptProperties := actorDefault.dataEptProperties.insert .dirty false })]

end Rvzr.Config
