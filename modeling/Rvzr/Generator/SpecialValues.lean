import Mathlib.Tactic.NormNum
import Rvzr.Generator.DataGenerator

/-!
# Special register values

`_generate_one` rolls for every register whether it gets a special value, writes that value and then
fills the whole actor with random data. The rolls are honoured only where the random data happen
to be the special value (`generateOne_honours_iff`).
-/

namespace Rvzr.Generator.Data

open Rvzr.Lib Rvzr.Unicorn

/-- Both halves of the word are the same number, below `bound`. -/
def Mirrored (bound : Nat) (w : UInt64) : Prop :=
  w.toNat / 2 ^ 32 = w.toNat % 2 ^ 32 ∧ w.toNat % 2 ^ 32 < bound

/-- What a register holds after its roll; without a roll it holds random data. -/
def RegisterHonours (conf : DataConf) (w : UInt64) : Option Rat → Prop
  | none => Mirrored conf.maxInputValue w
  | some roll =>
    if roll < conf.probabilityOfZero then w = 0
    else if roll < conf.probabilityOfMax then w = maxGprValue
    else Mirrored conf.maxInputValue w

/-- The data of an actor honour what was drawn for it. -/
structure ActorHonours (conf : DataConf) (draw : Draw) (a : ActorInput) : Prop where
  gpr : ∀ regId < nRegisters, RegisterHonours conf (a (1024 + regId)) draw.rolls[regId]?
  memory : ∀ j < 1024, Mirrored conf.maxInputValue (a j)
  simd : ∀ j, 1032 ≤ j → j < dataEntriesPerActor → Mirrored conf.maxInputValue (a j)
  padding : ∀ j, dataEntriesPerActor ≤ j → j < entriesPerActor → a j = 0

/-- The data of every actor honour what was drawn for it. -/
def HonoursRolls (conf : DataConf) (ds : List Draw) (x : InputArray) : Prop :=
  x.actors.length = ds.length ∧
    ∀ (i : Nat) (draw : Draw) (a : ActorInput), ds[i]? = some draw → x.actors[i]? = some a →
      ActorHonours conf draw a

/-- Where a register was to get a special value, the number drawn for it gives that value. -/
def SpecialDrawn (conf : DataConf) (draw : Draw) : Prop :=
  ∀ regId < nRegisters, ∀ roll, draw.rolls[regId]? = some roll →
    (roll < conf.probabilityOfZero → draw.data.getD (1024 + regId) 0 = 0) ∧
    (¬roll < conf.probabilityOfZero → roll < conf.probabilityOfMax →
      draw.data.getD (1024 + regId) 0 = 0xFFFFFFFF)

/-- A number of up to 32 bits stays within each half. -/
theorem toNat_mirror {d : UInt64} (hd : d.toNat < 2 ^ 32) :
    (mirror d).toNat = d.toNat * 2 ^ 32 + d.toNat := by
  have hshift : (d <<< 32).toNat = d.toNat * 2 ^ 32 % 2 ^ 64 := by
    rw [UInt64.toNat_shiftLeft, Nat.shiftLeft_eq]
    rfl
  rw [mirror, UInt64.toNat_add, hshift]
  omega

theorem mirrored_mirror {bound : Nat} {d : UInt64} (hd : d.toNat < bound) (hbound : bound ≤ 2 ^ 32) :
    Mirrored bound (mirror d) := by
  rw [Mirrored, toNat_mirror (by omega)]
  omega

theorem mirror_eq_zero {d : UInt64} (hd : d.toNat < 2 ^ 32) : mirror d = 0 ↔ d = 0 := by
  rw [← UInt64.toNat_inj, ← UInt64.toNat_inj, toNat_mirror hd, UInt64.toNat_zero]
  omega

theorem mirror_eq_max {d : UInt64} (hd : d.toNat < 2 ^ 32) :
    mirror d = maxGprValue ↔ d = 0xFFFFFFFF := by
  have hmax : maxGprValue.toNat = 2 ^ 64 - 1 := rfl
  have hhalf : (0xFFFFFFFF : UInt64).toNat = 2 ^ 32 - 1 := rfl
  rw [← UInt64.toNat_inj, ← UInt64.toNat_inj, toNat_mirror hd, hmax, hhalf]
  omega

variable {γ : Type} {rng : Rng γ} {conf : DataConf} {uninit : Ref → Nat → ActorInput}

theorem maxInputValue_le (conf : DataConf) : conf.maxInputValue ≤ 2 ^ 32 :=
  Nat.pow_le_pow_right (by decide) conf.entropyBits_le

theorem maxInputValue_pos (conf : DataConf) : 0 < conf.maxInputValue := Nat.two_pow_pos _

theorem mem_draws (hrng : rng.Documented) {seed nActors : Nat} {draw : Draw}
    (h : draw ∈ draws rng conf seed nActors) :
    draw.data.length = entriesPerActor ∧ ∀ d ∈ draw.data, d.toNat < conf.maxInputValue := by
  rw [draws] at h
  generalize rng.defaultRng seed = g at h
  induction nActors generalizing g with
  | zero => simp [drawActors] at h
  | succ n ih =>
    rw [drawActors] at h
    rcases List.mem_cons.1 h with rfl | h
    · have hmax := maxInputValue_le conf
      exact ⟨hrng.length _ _ _, hrng.lt _ _ _ (maxInputValue_pos conf) (by omega)⟩
    · exact ih _ h

theorem filled_data {data : List UInt64} (hdata : data.length = entriesPerActor) {j : Nat}
    (hj : j < dataEntriesPerActor) : ∃ d ∈ data, data.getD j 0 = d ∧ filled data j = mirror d := by
  have hentries : dataEntriesPerActor ≤ entriesPerActor := by decide
  have hlt : j < data.length := by omega
  refine ⟨data[j], List.getElem_mem hlt, by simp [hlt], ?_⟩
  rw [filled, if_neg (by omega)]
  simp [hlt]

/-- The data that end up in an actor honour its rolls exactly when they happen to. -/
theorem actorHonours_iff (hrng : rng.Documented) {seed nActors : Nat} {draw : Draw}
    (h : draw ∈ draws rng conf seed nActors) :
    ActorHonours conf draw (filled draw.data) ↔ SpecialDrawn conf draw := by
  obtain ⟨hlen, hlt⟩ := mem_draws hrng h
  have hmax := maxInputValue_le conf
  have hentry : ∀ j < dataEntriesPerActor, Mirrored conf.maxInputValue (filled draw.data j) := by
    intro j hj
    obtain ⟨d, hd, -, hfilled⟩ := filled_data hlen hj
    rw [hfilled]
    exact mirrored_mirror (hlt d hd) hmax
  have hreg : ∀ regId < nRegisters, 1024 + regId < dataEntriesPerActor := by
    intro regId hregId
    rw [nRegisters] at hregId
    rw [dataEntriesPerActor]
    omega
  constructor
  · intro hh regId hregId roll hroll
    obtain ⟨d, hd, hget, hfilled⟩ := filled_data hlen (hreg regId hregId)
    have hd32 := (hlt d hd).trans_le hmax
    have hgpr := hh.gpr regId hregId
    rw [hroll, RegisterHonours, hfilled] at hgpr
    rw [hget]
    refine ⟨fun hzero => ?_, fun hzero hone => ?_⟩
    · rw [if_pos hzero] at hgpr
      exact (mirror_eq_zero hd32).1 hgpr
    · rw [if_neg hzero, if_pos hone] at hgpr
      exact (mirror_eq_max hd32).1 hgpr
  · intro hs
    refine ⟨fun regId hregId => ?_, fun j hj => hentry j ?_, fun j _ hj => hentry j hj, ?_⟩
    · obtain ⟨d, hd, hget, hfilled⟩ := filled_data hlen (hreg regId hregId)
      have hd32 := (hlt d hd).trans_le hmax
      cases hroll : draw.rolls[regId]? with
      | none => exact hentry _ (hreg regId hregId)
      | some roll =>
        obtain ⟨hzero, hone⟩ := hs regId hregId roll hroll
        rw [hget] at hzero hone
        rw [RegisterHonours, hfilled]
        split
        · exact (mirror_eq_zero hd32).2 (hzero ‹_›)
        · split
          · exact (mirror_eq_max hd32).2 (hone ‹_› ‹_›)
          · exact hfilled ▸ hentry _ (hreg regId hregId)
    · rw [dataEntriesPerActor]
      omega
    · intro j hj hj'
      rw [filled, if_pos ⟨hj, hj'⟩]

/-- Whenever there is an actor `_generate_one` returns an array, and that array honours the rolls
exactly when every special value was drawn as random data as well. -/
theorem generateOne_honours_iff (hrng : rng.Documented) (seed nActors : Nat) (s : GenState) :
    (0 < nActors → ∃ r s', generateOne rng conf uninit seed nActors s = .ok r s') ∧
      ∀ r s', generateOne rng conf uninit seed nActors s = .ok r s' →
        ∃ x, s'.heap[r.1]? = some x ∧
          (HonoursRolls conf (draws rng conf seed nActors) x ↔
            ∀ draw ∈ draws rng conf seed nActors, SpecialDrawn conf draw) := by
  refine ⟨fun hn => ⟨_, _, generateOne_run hrng hn s⟩, ?_⟩
  intro r s' hrun
  rcases Nat.eq_zero_or_pos nActors with rfl | hn
  · rw [generateOne_empty] at hrun
    cases hrun
  rw [generateOne_run hrng hn] at hrun
  cases hrun
  refine ⟨generated rng conf seed nActors, by simp, ?_⟩
  constructor
  · rintro ⟨-, hall⟩ draw hdraw
    obtain ⟨i, hi⟩ := List.getElem?_of_mem hdraw
    refine (actorHonours_iff hrng hdraw).1 (hall i draw _ hi ?_)
    rw [generated, List.getElem?_map, hi]
    rfl
  · intro hall
    refine ⟨by rw [generated, List.length_map], ?_⟩
    intro i draw a hi ha
    have hdraw := List.mem_of_getElem? hi
    rw [generated, List.getElem?_map, hi] at ha
    cases ha
    exact (actorHonours_iff hrng hdraw).2 (hall draw hdraw)

/-! ### A generator whose rolls are all below the probability of zero -/

def sampleState : GenState := ⟨[], 10, 10⟩

theorem sampleDraws : draws sampleRng sampleConf 10 1 =
    [⟨List.replicate entriesPerActor 0x7FFFFFFF, List.replicate nRegisters 0⟩] := by
  have hskip : sampleConf.skipSpecialValues = false := by
    rw [DataConf.skipSpecialValues]
    exact decide_eq_false (by norm_num [sampleConf])
  rw [draws, drawActors, drawActors, drawActor, hskip]
  rfl

/-- The first register rolls 0 and holds `0x7FFFFFFF7FFFFFFF`. -/
theorem generateOne_zero_lost :
    ∃ s' x, generateOne sampleRng sampleConf (fun _ _ _ => 0) 10 1 sampleState = .ok (0, 11) s' ∧
      s'.heap[0]? = some x ∧ ¬HonoursRolls sampleConf (draws sampleRng sampleConf 10 1) x := by
  refine ⟨_, generated sampleRng sampleConf 10 1,
    generateOne_run sampleRng_documented Nat.one_pos _, rfl, ?_⟩
  rw [generated, sampleDraws]
  rintro ⟨-, hall⟩
  have hgpr := (hall 0 _ _ rfl rfl).gpr 0 (by decide)
  have hroll : (0 : Rat) < sampleConf.probabilityOfZero := by
    norm_num [DataConf.probabilityOfZero, sampleConf]
  have hdata : filled (List.replicate entriesPerActor 0x7FFFFFFF) (1024 + 0) ≠ 0 := by
    have hlt : 1024 + 0 < entriesPerActor := by decide
    rw [filled, if_neg (by decide), List.map_replicate, List.getD_eq_getElem?_getD,
      List.getElem?_replicate, if_pos hlt]
    decide
  rw [show (List.replicate nRegisters (0 : Rat))[0]? = some 0 from rfl, RegisterHonours,
    if_pos hroll] at hgpr
  exact hdata hgpr

/-- One actor, seed 10. -/
theorem generateOne_honours_iff_sample :
    (0 < 1 → ∃ r s', generateOne sampleRng sampleConf (fun _ _ _ => 0) 10 1 sampleState =
        .ok r s') ∧
      ∀ r s', generateOne sampleRng sampleConf (fun _ _ _ => 0) 10 1 sampleState = .ok r s' →
        ∃ x, s'.heap[r.1]? = some x ∧
          (HonoursRolls sampleConf (draws sampleRng sampleConf 10 1) x ↔
            ∀ draw ∈ draws sampleRng sampleConf 10 1, SpecialDrawn sampleConf draw) :=
  generateOne_honours_iff sampleRng_documented 10 1 sampleState

end Rvzr.Generator.Data
