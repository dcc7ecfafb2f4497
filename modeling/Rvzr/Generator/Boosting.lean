import Mathlib.Data.List.GetD
import Mathlib.Logic.Relation
import Rvzr.Generator.DataGenerator

/-!
# Boosted inputs

`generate_boosted` puts one fresh array for every input and round behind the arrays that exist and
copies the tainted data of the original into it. It writes to no other array, and its seeds start
over at every call, so a call can be repeated (`generateBoosted_classes`).
-/

namespace Rvzr.Generator.Data

open Rvzr.Lib Rvzr.Unicorn

variable {γ : Type} {rng : Rng γ} {conf : DataConf} {uninit : Ref → Nat → ActorInput}

/-! ### What a call of `generate_boosted` leaves alone -/

/-- `generate` goes on from the same seed and all arrays of `s₀` are as they were. -/
def Frame (s₀ s : GenState) : Prop := s₀.heap <+: s.heap ∧ s.state = s₀.state

theorem Frame.refl (s : GenState) : Frame s s := ⟨List.prefix_rfl, rfl⟩

theorem Frame.trans {s₀ s₁ s₂ : GenState} (h : Frame s₀ s₁) (h' : Frame s₁ s₂) : Frame s₀ s₂ :=
  ⟨h.1.trans h'.1, h'.2.trans h.2⟩

theorem prefix_modify {α : Type} {l l' : List α} {i : Nat} (h : l <+: l') (hi : l.length ≤ i)
    (f : α → α) : l <+: l'.modify i f := by
  rw [List.prefix_iff_eq_take] at h ⊢
  rw [List.take_modify, ← h, List.modify_eq_self hi]

/-- The program keeps the frame, also when it raises. -/
def Keeps {α : Type} (s₀ : GenState) (x : GenM α) : Prop :=
  Triple (Frame s₀) x (fun _ => Frame s₀) fun _ => Frame s₀

section Frame

variable {s₀ : GenState} {ref : Ref}

theorem keeps_modifyHeap (hnew : s₀.heap.length ≤ ref) (f : GenState → InputArray → InputArray) :
    Keeps s₀ (modify fun s => { s with heap := s.heap.modify ref (f s) }) :=
  Triple.modify fun s hs => ⟨prefix_modify hs.1 hnew (f s), hs.2⟩

theorem keeps_modifyInput (hnew : s₀.heap.length ≤ ref) (f : InputArray → InputArray) :
    Keeps s₀ (modifyInput ref f) :=
  keeps_modifyHeap hnew fun _ => f

theorem keeps_modifyActor (hnew : s₀.heap.length ≤ ref) (actor : Nat)
    (f : ActorInput → ActorInput) : Keeps s₀ (modifyActor ref actor f) :=
  keeps_modifyInput hnew _

theorem keeps_setActorData (hnew : s₀.heap.length ≤ ref) (actor : Nat) (data : List UInt64) :
    Keeps s₀ (setActorData ref actor data) := by
  unfold setActorData
  refine Triple.ite (fun _ => Triple.throw fun s hs => hs) fun _ => ?_
  refine Triple.bind (keeps_modifyActor hnew actor _) fun _ => ?_
  exact keeps_modifyActor hnew actor _

theorem keeps_rollRegister (hnew : s₀.heap.length ≤ ref) (actor : Nat) (g : γ) (regId : Nat) :
    Keeps s₀ (rollRegister rng conf ref actor g regId) := by
  unfold rollRegister
  refine Triple.ite (fun _ => ?_) fun _ => Triple.ite (fun _ => ?_) fun _ => ?_
  · exact Triple.bind (keeps_modifyActor hnew actor _) fun _ => Triple.pure fun s hs => hs
  · exact Triple.bind (keeps_modifyActor hnew actor _) fun _ => Triple.pure fun s hs => hs
  · exact Triple.pure fun s hs => hs

theorem keeps_generateActor (hnew : s₀.heap.length ≤ ref) (g : γ) (actor : Nat) :
    Keeps s₀ (generateActor rng conf ref g actor) := by
  have hfill : ∀ g' data, Keeps s₀ (do setActorData ref actor data; pure g' : GenM γ) :=
    fun g' data => Triple.bind (keeps_setActorData hnew actor data) fun _ => Triple.pure fun s hs => hs
  unfold generateActor
  refine Triple.ite (fun _ => ?_) fun _ => ?_
  · exact Triple.bind (R := fun _ => Frame s₀) (Triple.pure fun s hs => hs) fun g' => hfill g' _
  · refine Triple.bind (R := fun _ => Frame s₀) ?_ fun g' => hfill g' _
    exact Triple.foldlM fun g regId _ => keeps_rollRegister hnew actor g regId

/-- A new array is behind the arrays that exist. -/
theorem newInput_frame (nActors : Nat) :
    Triple (Frame s₀) (newInput uninit nActors)
      (fun ref s => s₀.heap.length ≤ ref ∧ Frame s₀ s) fun _ => Frame s₀ :=
  fun _ hs => ⟨hs.1.length_le, hs.1.trans (List.prefix_append _ _), hs.2⟩

theorem generateOne_frame (seed nActors : Nat) :
    Triple (Frame s₀) (generateOne rng conf uninit seed nActors)
      (fun new s => s₀.heap.length ≤ new.1 ∧ Frame s₀ s) fun _ => Frame s₀ := by
  unfold generateOne
  refine Triple.bind (newInput_frame nActors) fun ref => Triple.of_pure fun hnew => ?_
  refine Triple.bind (keeps_modifyInput hnew _) fun _ => ?_
  refine Triple.ite (fun _ => Triple.throw fun s hs => hs) fun _ => ?_
  refine Triple.bind (R := fun _ => Frame s₀) ?_ fun _ => Triple.pure fun s hs => ⟨hnew, hs⟩
  exact Triple.foldlM fun g actor _ => keeps_generateActor hnew g actor

theorem keeps_copyTainted (hnew : s₀.heap.length ≤ ref) (taint : InputTaint) (old : Ref)
    (actor : Nat) : Keeps s₀ (copyTainted taint old ref actor) := by
  unfold copyTainted
  refine Triple.get_bind fun s hs => ?_
  refine Triple.ite (fun _ => Triple.throw ?_) fun _ => ?_
  · rintro _ rfl
    exact hs
  · cases taint[actor]? with
    | none =>
      refine Triple.throw ?_
      rintro _ rfl
      exact hs
    | some row =>
      generalize List.range dataEntriesPerActor = js
      refine Triple.start (P := Frame s₀) (Triple.forM fun j _ => ?_) hs
      refine Triple.ite (fun _ => ?_) fun _ => Triple.pure fun s hs => hs
      exact keeps_modifyHeap hnew _

theorem keeps_boostOne (taints : List InputTaint) (nActors : Nat) (boostedInputs : List Ref)
    (input : Ref × Nat) :
    Keeps s₀ (boostOne rng conf uninit taints nActors boostedInputs input) := by
  unfold boostOne
  refine Triple.get_bind fun s hs => ?_
  refine Triple.bind ((generateOne_frame s.boostingState nActors).start hs) fun new =>
    Triple.of_pure fun hnew => ?_
  refine Triple.bind (R := fun _ => Frame s₀) (Triple.modify fun s hs => hs) fun _ => ?_
  refine Triple.bind (Triple.forM fun actor _ => keeps_copyTainted hnew _ _ actor) fun _ => ?_
  exact Triple.pure fun s hs => hs

variable (rng conf uninit) in
/-- No call of `generate_boosted`, whatever its arguments and however it ends, touches the arrays
that exist or the seed of the next `generate`. -/
theorem keeps_generateBoosted (inputs : List Ref) (taints : List InputTaint) (inputsPerClass : Nat) :
    Keeps s₀ (generateBoosted rng conf uninit inputs taints inputsPerClass) := by
  unfold generateBoosted
  cases inputs with
  | nil => exact Triple.pure fun s hs => hs
  | cons first rest =>
    refine Triple.ite (fun _ => Triple.throw fun s hs => hs) fun _ => ?_
    refine Triple.get_bind fun s hs => ?_
    refine Triple.bind (R := fun _ => Frame s₀) (Triple.modify ?_) fun _ => ?_
    · rintro _ rfl
      exact hs
    · exact Triple.foldlM fun refs _ _ => Triple.foldlM fun refs input _ =>
        keeps_boostOne taints _ refs input

end Frame

/-! ### What a call computes -/

/-- The fresh data of an actor with the tainted data of the original. -/
def copied (row : Nat → Bool) (old a : ActorInput) : ActorInput := fun j =>
  if j < dataEntriesPerActor ∧ row j then old j else a j

/-- A fresh input with the tainted data of the original. -/
def boosted (taint : InputTaint) (old fresh : InputArray) : InputArray :=
  ⟨fresh.seed, fresh.actors.mapIdx fun i a =>
    copied (taint.getD i fun _ => false) (old.actors.getD i fun _ => 0) a⟩

/-- A write through a view. -/
def GenState.modifyActor (s : GenState) (ref actor : Nat) (f : ActorInput → ActorInput) : GenState :=
  { s with heap := s.heap.modify ref fun x => { x with actors := x.actors.modify actor f } }

theorem input_modify {s : GenState} {ref other : Ref} (h : ref ≠ other)
    (f : InputArray → InputArray) :
    GenState.input { s with heap := s.heap.modify ref f } other = s.input other := by
  simp [GenState.input, h]

theorem modifyActor_id (s : GenState) (ref actor : Nat) : s.modifyActor ref actor id = s := by
  have hid : (fun x : InputArray => { x with actors := x.actors.modify actor id }) = id := by
    funext x
    simp
  rw [GenState.modifyActor, hid, List.modify_id]

theorem modifyActor_modifyActor (s : GenState) (ref actor : Nat) (f g : ActorInput → ActorInput) :
    (s.modifyActor ref actor f).modifyActor ref actor g = s.modifyActor ref actor (g ∘ f) := by
  simp only [GenState.modifyActor, List.modify_modify_eq]
  congr 2
  funext x
  simp [List.modify_modify_eq]

section Run

variable {s : GenState} {old new : Ref}

theorem copyEntries_run (hne : new ≠ old) (row : Nat → Bool) (actor : Nat) (js : List Nat) :
    js.forM (copyIfTainted row old new actor) s =
      .ok () (s.modifyActor new actor fun a j => if j ∈ js ∧ row j then
        (s.input old).actors.getD actor (fun _ => 0) j else a j) := by
  induction js generalizing s with
  | nil =>
    have hid : (fun (a : ActorInput) j => if j ∈ ([] : List Nat) ∧ row j then
        (s.input old).actors.getD actor (fun _ => 0) j else a j) = id := by
      funext a j
      simp
    rw [hid, modifyActor_id]
    rfl
  | cons j js ih =>
    by_cases hrow : row j = true
    · have hcopy : copyIfTainted row old new actor j s =
          .ok () (s.modifyActor new actor fun a => Function.update a j
            ((s.input old).actors.getD actor (fun _ => 0) j)) := by
        rw [copyIfTainted, if_pos hrow]
        rfl
      refine (forM_cons_run hcopy).trans ?_
      rw [ih, modifyActor_modifyActor]
      have hinput : (s.modifyActor new actor fun a => Function.update a j
          ((s.input old).actors.getD actor (fun _ => 0) j)).input old = s.input old :=
        input_modify hne _
      rw [hinput]
      congr 2
      funext a i
      by_cases hi : i = j
      · simp [hi, hrow]
      · simp [hi]
    · have hskip : copyIfTainted row old new actor j s = .ok () s := by
        rw [copyIfTainted, if_neg hrow]
        rfl
      refine (forM_cons_run hskip).trans ?_
      rw [ih]
      congr 2
      funext a i
      by_cases hi : i = j
      · simp [hi, hrow]
      · simp [hi]

theorem copyTainted_run {taint : InputTaint} {actor : Nat} (hne : new ≠ old)
    (hactor : actor < (s.input old).actors.length) (htaint : actor < taint.length) :
    copyTainted taint old new actor s =
      .ok () (s.modifyActor new actor (copied (taint.getD actor fun _ => false)
        ((s.input old).actors.getD actor fun _ => 0))) := by
  have hrow : taint[actor]? = some (taint.getD actor fun _ => false) := by simp [htaint]
  have hcopy := copyEntries_run (s := s) hne (taint.getD actor fun _ => false) actor
    (List.range dataEntriesPerActor)
  simp only [List.mem_range] at hcopy
  rw [copyTainted, bind_run (get_run s), if_neg (by omega), hrow]
  exact hcopy

variable (s old new) in
/-- The loop over the actors. -/
theorem copyActors_run (taint : InputTaint) (hne : new ≠ old) (as : List Nat)
    (hactor : ∀ a ∈ as, a < (s.input old).actors.length) (htaint : ∀ a ∈ as, a < taint.length) :
    as.forM (copyTainted taint old new) s =
      .ok () { s with heap := s.heap.modify new fun x =>
        { x with actors := as.foldl (fun acts actor => acts.modify actor
          (copied (taint.getD actor fun _ => false)
            ((s.input old).actors.getD actor fun _ => 0))) x.actors } } := by
  induction as generalizing s with
  | nil =>
    have hid := modifyActor_id s new 0
    simp only [GenState.modifyActor, List.modify_id] at hid
    simp only [List.foldl_nil, hid]
    rfl
  | cons actor as ih =>
    have hinput : ∀ f, (s.modifyActor new actor f).input old = s.input old := fun f =>
      input_modify hne _
    refine (forM_cons_run (copyTainted_run hne (hactor actor List.mem_cons_self)
      (htaint actor List.mem_cons_self))).trans ?_
    rw [ih]
    · simp only [hinput]
      simp only [GenState.modifyActor, List.modify_modify_eq]
      rfl
    · intro a ha
      rw [hinput]
      exact hactor a (List.mem_cons_of_mem _ ha)
    · exact fun a ha => htaint a (List.mem_cons_of_mem _ ha)

end Run

/-- A loop that changes the entries one after the other changes each by its own function. -/
theorem foldl_modify_range {α : Type} (g : Nat → α → α) (l : List α) (n : Nat) :
    (List.range n).foldl (fun l i => l.modify i (g i)) l =
      l.mapIdx fun i a => if i < n then g i a else a := by
  induction n with
  | zero => exact List.ext_getElem? fun i => by simp
  | succ n ih =>
    rw [List.range_succ, List.foldl_append, ih, List.foldl_cons, List.foldl_nil]
    refine List.ext_getElem? fun i => ?_
    rw [List.getElem?_modify, List.getElem?_mapIdx, List.getElem?_mapIdx]
    cases l[i]? with
    | none => rfl
    | some a =>
      rcases Nat.lt_trichotomy i n with hlt | rfl | hgt
      · simp [hlt, hlt.ne', Nat.lt_succ_of_lt hlt]
      · simp
      · simp [hgt.ne, Nat.not_lt_of_gt hgt, Nat.not_lt_of_ge (Nat.succ_le_of_lt hgt)]

theorem boosted_actors (taint : InputTaint) (old fresh : InputArray) :
    (List.range fresh.actors.length).foldl (fun acts actor => acts.modify actor
        (copied (taint.getD actor fun _ => false) (old.actors.getD actor fun _ => 0)))
      fresh.actors = (boosted taint old fresh).actors := by
  rw [foldl_modify_range fun actor => copied (taint.getD actor fun _ => false)
    (old.actors.getD actor fun _ => 0), boosted]
  refine List.ext_getElem? fun i => ?_
  rw [List.getElem?_mapIdx, List.getElem?_mapIdx]
  rcases Nat.lt_or_ge i fresh.actors.length with hi | hi
  · simp [hi]
  · simp [hi]

theorem input_append {s : GenState} {old : Ref} (hold : old < s.heap.length) (xs : List InputArray)
    (boostingState : Nat) :
    GenState.input ⟨s.heap ++ xs, s.state, boostingState⟩ old = s.input old := by
  simp [GenState.input, List.getElem?_append_left hold]

/-- The input can be boosted: it exists, and its taint covers all actors. -/
def Ready (taints : List InputTaint) (nActors : Nat) (s : GenState) (p : Ref × Nat) : Prop :=
  p.1 < s.heap.length ∧ (s.input p.1).actors.length = nActors ∧
    nActors ≤ (taints.getD p.2 []).length

variable (conf uninit) in
/-- One boosted input is one array more. -/
theorem boostOne_run (hrng : rng.Documented) {taints : List InputTaint} {nActors : Nat}
    (hn : 0 < nActors) {s : GenState} {p : Ref × Nat} (hp : Ready taints nActors s p)
    (refs : List Ref) :
    boostOne rng conf uninit taints nActors refs p s =
      .ok (refs ++ [s.heap.length]) ⟨s.heap ++ [boosted (taints.getD p.2 []) (s.input p.1)
        (generated rng conf s.boostingState nActors)], s.state, s.boostingState + 1⟩ := by
  obtain ⟨hold, hactors, htaint⟩ := hp
  have hinput := input_append hold [generated rng conf s.boostingState nActors]
    (s.boostingState + 1)
  have hlen : (generated rng conf s.boostingState nActors).actors.length = nActors := by
    rw [generated, List.length_map, length_draws]
  have hboost := boosted_actors (taints.getD p.2 []) (s.input p.1)
    (generated rng conf s.boostingState nActors)
  rw [hlen] at hboost
  have hcopy := copyActors_run
    ⟨s.heap ++ [generated rng conf s.boostingState nActors], s.state, s.boostingState + 1⟩
    p.1 s.heap.length (taints.getD p.2 []) hold.ne' (List.range nActors)
    (by simp [hinput, hactors]) (fun a ha => by
      have hlt := List.mem_range.1 ha
      omega)
  rw [boostOne, bind_run (get_run s), bind_run (generateOne_run hrng hn s)]
  dsimp only
  rw [bind_run (show (modify _ : GenM PUnit) _ = .ok () _ from rfl), bind_run hcopy, hinput,
    modify_middle, hboost]
  rfl

variable (conf uninit) in
/-- Boosting one input after the other. -/
theorem boostAll_run (hrng : rng.Documented) {taints : List InputTaint} {nActors : Nat}
    (hn : 0 < nActors) (ps : List (Ref × Nat)) {s : GenState}
    (hps : ∀ p ∈ ps, Ready taints nActors s p) (refs : List Ref) :
    ps.foldlM (boostOne rng conf uninit taints nActors) refs s =
      .ok (refs ++ List.range' s.heap.length ps.length)
        ⟨s.heap ++ ps.mapIdx fun m p => boosted (taints.getD p.2 []) (s.input p.1)
          (generated rng conf (s.boostingState + m) nActors), s.state,
          s.boostingState + ps.length⟩ := by
  induction ps generalizing s refs with
  | nil => simp; rfl
  | cons p ps ih =>
    have hrun := boostOne_run conf uninit hrng hn
      (hps p List.mem_cons_self) refs
    have hinput : ∀ q ∈ ps, GenState.input ⟨s.heap ++ [boosted (taints.getD p.2 []) (s.input p.1)
        (generated rng conf s.boostingState nActors)], s.state, s.boostingState + 1⟩ q.1 =
          s.input q.1 :=
      fun q hq => input_append (hps q (List.mem_cons_of_mem _ hq)).1 _ _
    rw [List.foldlM_cons, bind_run hrun, ih]
    · have hmap : (ps.mapIdx fun m q => boosted (taints.getD q.2 []) (GenState.input
          ⟨s.heap ++ [boosted (taints.getD p.2 []) (s.input p.1)
            (generated rng conf s.boostingState nActors)], s.state, s.boostingState + 1⟩ q.1)
          (generated rng conf (s.boostingState + 1 + m) nActors)) =
          ps.mapIdx fun m q => boosted (taints.getD q.2 []) (s.input q.1)
            (generated rng conf (s.boostingState + (m + 1)) nActors) := by
        refine List.ext_getElem? fun i => ?_
        rw [List.getElem?_mapIdx, List.getElem?_mapIdx]
        cases hq : ps[i]? with
        | none => rfl
        | some q =>
          rw [Option.map_some, Option.map_some, hinput q (List.mem_of_getElem? hq)]
          congr 3
          omega
      rw [hmap, List.mapIdx_cons, List.length_append, List.length_cons, List.length_nil,
        List.length_cons, List.range'_succ, List.append_assoc, List.append_assoc]
      simp only [List.singleton_append, Nat.add_zero, Nat.zero_add]
      congr 2
      omega
    · intro q hq
      obtain ⟨hold, hactors, htaint⟩ := hps q (List.mem_cons_of_mem _ hq)
      exact ⟨Nat.lt_of_lt_of_le hold (by simp), by rw [hinput q hq, hactors], htaint⟩

/-- Several rounds over a list are one pass over its repetitions. -/
theorem foldlM_rounds {α β : Type} (f : β → α → GenM β) (l : List α) (n : Nat) (b : β) :
    (List.range n).foldlM (fun b _ => l.foldlM f b) b = (List.replicate n l).flatten.foldlM f b := by
  induction n with
  | zero => rfl
  | succ n ih =>
    rw [List.range_succ, List.foldlM_append, ih, List.replicate_succ', List.flatten_append,
      List.foldlM_append]
    simp

/-- Round `c` visits position `i` after `c` times the length and `i` more. -/
theorem rounds_getElem? {α : Type} (l : List α) {n c i : Nat} (hc : c < n) (hi : i < l.length) :
    (List.replicate n l).flatten[c * l.length + i]? = l[i]? := by
  induction n generalizing c with
  | zero => omega
  | succ n ih =>
    rw [List.replicate_succ, List.flatten_cons]
    cases c with
    | zero => rw [Nat.zero_mul, Nat.zero_add, List.getElem?_append_left hi]
    | succ c =>
      have hge : l.length ≤ (c + 1) * l.length + i := by
        rw [Nat.succ_mul]
        omega
      rw [List.getElem?_append_right hge, ← ih (Nat.lt_of_succ_lt_succ hc)]
      congr 1
      rw [Nat.succ_mul]
      omega

/-- The inputs that are boosted, in the order in which it is done. -/
def boostOrder (inputs : List Ref) (inputsPerClass : Nat) : List (Ref × Nat) :=
  (List.replicate (inputsPerClass - 1) inputs.zipIdx).flatten

/-- The arrays that a call of `generate_boosted` makes. -/
def boostedArrays (rng : Rng γ) (conf : DataConf) (s : GenState) (inputs : List Ref)
    (taints : List InputTaint) (inputsPerClass nActors : Nat) : List InputArray :=
  (boostOrder inputs inputsPerClass).mapIdx fun m p =>
    boosted (taints.getD p.2 []) (s.input p.1) (generated rng conf (s.state + m) nActors)

theorem length_boostOrder (inputs : List Ref) (inputsPerClass : Nat) :
    (boostOrder inputs inputsPerClass).length = (inputsPerClass - 1) * inputs.length := by
  simp [boostOrder]

/-- What the arguments of `generate_boosted` have to be: inputs with the same number of actors, one
or more, and for each of them a taint with at least as many rows. -/
structure Boostable (s : GenState) (inputs : List Ref) (taints : List InputTaint) (nActors : Nat) :
    Prop where
  actors_pos : 0 < nActors
  inputs_actors : ∀ r ∈ inputs, r < s.heap.length ∧ (s.input r).actors.length = nActors
  taints_length : taints.length = inputs.length
  taints_actors : ∀ t ∈ taints, nActors ≤ t.length

theorem Boostable.ready {s : GenState} {inputs : List Ref} {taints : List InputTaint} {nActors : Nat}
    (h : Boostable s inputs taints nActors) {p : Ref × Nat} (hp : p ∈ inputs.zipIdx) :
    Ready taints nActors s p := by
  obtain ⟨hold, hactors⟩ := h.inputs_actors p.1 (List.fst_mem_of_mem_zipIdx hp)
  have hlt : p.2 < taints.length := by
    rw [h.taints_length]
    simpa using List.snd_lt_of_mem_zipIdx hp
  refine ⟨hold, hactors, ?_⟩
  rw [List.getD_eq_getElem _ _ hlt]
  exact h.taints_actors _ (List.getElem_mem hlt)

variable (conf uninit) in
/-- A call of `generate_boosted` on boostable inputs. -/
theorem generateBoosted_run (hrng : rng.Documented) {s : GenState} {inputs : List Ref}
    {taints : List InputTaint} {nActors : Nat} (h : Boostable s inputs taints nActors)
    (inputsPerClass : Nat) :
    ∃ b, generateBoosted rng conf uninit inputs taints inputsPerClass s =
      .ok (inputs ++ List.range' s.heap.length ((inputsPerClass - 1) * inputs.length))
        ⟨s.heap ++ boostedArrays rng conf s inputs taints inputsPerClass nActors, s.state, b⟩ := by
  cases inputs with
  | nil => exact ⟨s.boostingState, by simp [generateBoosted, boostedArrays, boostOrder]; rfl⟩
  | cons first rest =>
    have hactors := (h.inputs_actors first List.mem_cons_self).2
    have hready : ∀ p ∈ boostOrder (first :: rest) inputsPerClass,
        Ready taints nActors { s with boostingState := s.state } p := by
      intro p hp
      obtain ⟨l, hl, hpl⟩ := List.mem_flatten.1 hp
      rw [List.eq_of_mem_replicate hl] at hpl
      exact h.ready hpl
    have hrun := boostAll_run conf uninit hrng h.actors_pos _ hready
      (first :: rest)
    rw [length_boostOrder] at hrun
    refine ⟨s.state + (inputsPerClass - 1) * (first :: rest).length, ?_⟩
    rw [generateBoosted, if_neg (by rw [h.taints_length]; exact not_not_intro rfl)]
    dsimp only
    rw [bind_run (get_run s), bind_run (show (modify _ : GenM PUnit) _ = .ok () _ from rfl),
      foldlM_rounds, hactors]
    exact hrun

/-! ### Boosting keeps classes and can be repeated -/

/-- `x` is what `_generate_one` makes from `seed`. -/
def GeneratedFrom (rng : Rng γ) (conf : DataConf) (uninit : Ref → Nat → ActorInput)
    (seed nActors : Nat) (x : InputArray) : Prop :=
  ∀ s, ∃ s', generateOne rng conf uninit seed nActors s = .ok (s.heap.length, seed + 1) s' ∧
    s'.heap = s.heap ++ [x]

/-- `new` has the tainted data entries of `old` and is `fresh` elsewhere. -/
structure BoostedFrom (nActors : Nat) (taint : InputTaint) (old fresh new : InputArray) : Prop where
  length : new.actors.length = nActors
  entry : ∀ (actor : Nat) (row : Nat → Bool) (a a' : ActorInput), taint[actor]? = some row →
    old.actors[actor]? = some a → fresh.actors[actor]? = some a' →
      ∃ b, new.actors[actor]? = some b ∧
        ∀ j, b j = if j < dataEntriesPerActor ∧ row j then a j else a' j

/-- The arrays behind a list of inputs. -/
def GenState.contents (s : GenState) (refs : List Ref) : List InputArray := refs.map s.input

/-- A call of `generate_boosted` with any arguments, whether it returns or raises. -/
def BoostedCall (rng : Rng γ) (conf : DataConf) (uninit : Ref → Nat → ActorInput)
    (s s' : GenState) : Prop :=
  ∃ inputs taints inputsPerClass,
    (∃ refs, generateBoosted rng conf uninit inputs taints inputsPerClass s = .ok refs s') ∨
      ∃ e, generateBoosted rng conf uninit inputs taints inputsPerClass s = .error e s'

theorem BoostedCall.frame {s s' : GenState} (h : BoostedCall rng conf uninit s s') : Frame s s' := by
  obtain ⟨inputs, taints, k, h⟩ := h
  have hkeeps := keeps_generateBoosted rng conf uninit inputs taints
    k s (Frame.refl s)
  obtain ⟨refs, hrun⟩ | ⟨e, hrun⟩ := h
  · rw [hrun] at hkeeps
    exact hkeeps
  · rw [hrun] at hkeeps
    exact hkeeps

theorem BoostedCall.run_frame {s s' : GenState}
    (h : Relation.ReflTransGen (BoostedCall rng conf uninit) s s') : Frame s s' := by
  induction h with
  | refl => exact Frame.refl s
  | tail _ hstep ih => exact ih.trans hstep.frame

theorem Frame.input {s s' : GenState} (h : Frame s s') {r : Ref} (hr : r < s.heap.length) :
    s'.input r = s.input r := by
  obtain ⟨rest, hrest⟩ := h.1
  rw [GenState.input, GenState.input, ← hrest, List.getD_append _ _ _ _ hr]

theorem Boostable.frame {s s' : GenState} {inputs : List Ref} {taints : List InputTaint}
    {nActors : Nat} (h : Boostable s inputs taints nActors) (hf : Frame s s') :
    Boostable s' inputs taints nActors := by
  refine ⟨h.actors_pos, fun r hr => ?_, h.taints_length, h.taints_actors⟩
  obtain ⟨hlt, hactors⟩ := h.inputs_actors r hr
  exact ⟨Nat.lt_of_lt_of_le hlt hf.1.length_le, by rw [hf.input hlt, hactors]⟩

/-- The arrays of a call depend on the inputs and the seed of the next `generate` only. -/
theorem boostedArrays_frame {s s' : GenState} {inputs : List Ref} {taints : List InputTaint}
    {nActors : Nat} (h : Boostable s inputs taints nActors) (hf : Frame s s') (k : Nat) :
    boostedArrays rng conf s' inputs taints k nActors =
      boostedArrays rng conf s inputs taints k nActors := by
  refine List.ext_getElem? fun m => ?_
  rw [boostedArrays, boostedArrays, List.getElem?_mapIdx, List.getElem?_mapIdx, hf.2]
  cases hp : (boostOrder inputs k)[m]? with
  | none => rfl
  | some p =>
    obtain ⟨l, hl, hpl⟩ := List.mem_flatten.1 (List.mem_of_getElem? hp)
    rw [List.eq_of_mem_replicate hl] at hpl
    rw [Option.map_some, Option.map_some, hf.input (h.ready hpl).1]

theorem length_boostedArrays (s : GenState) (inputs : List Ref) (taints : List InputTaint)
    (k nActors : Nat) :
    (boostedArrays rng conf s inputs taints k nActors).length = (k - 1) * inputs.length := by
  rw [boostedArrays, List.length_mapIdx, length_boostOrder]

theorem input_new {heap xs : List InputArray} {m state boostingState : Nat} {x : InputArray}
    (hx : xs[m]? = some x) :
    GenState.input ⟨heap ++ xs, state, boostingState⟩ (heap.length + m) = x := by
  rw [GenState.input, List.getD_eq_getElem?_getD, List.getElem?_append_right (Nat.le_add_right _ _),
    Nat.add_sub_cancel_left, hx, Option.getD_some]

/-- The arrays behind the list that a call returns. -/
theorem contents_boosted {s : GenState} {inputs : List Ref} {taints : List InputTaint}
    {nActors : Nat} (h : Boostable s inputs taints nActors) (k b : Nat) :
    GenState.contents ⟨s.heap ++ boostedArrays rng conf s inputs taints k nActors, s.state, b⟩
        (inputs ++ List.range' s.heap.length ((k - 1) * inputs.length)) =
      s.contents inputs ++ boostedArrays rng conf s inputs taints k nActors := by
  rw [GenState.contents, List.map_append]
  congr 1
  · exact List.map_congr_left fun r hr => input_append (h.inputs_actors r hr).1 _ _
  · have hlen : (boostedArrays rng conf s inputs taints k nActors).length =
        (k - 1) * inputs.length := length_boostedArrays s inputs taints k nActors
    refine List.ext_getElem (by rw [List.length_map, List.length_range', hlen]) ?_
    intro i hi hi'
    rw [List.getElem_map, List.getElem_range', Nat.one_mul]
    exact input_new (List.getElem?_eq_getElem hi')

theorem boostedFrom_boosted {taint : InputTaint} {old fresh : InputArray} {nActors : Nat}
    (hfresh : fresh.actors.length = nActors) :
    BoostedFrom nActors taint old fresh (boosted taint old fresh) := by
  refine ⟨by rw [boosted, List.length_mapIdx, hfresh], ?_⟩
  intro actor row a a' hrow ha ha'
  refine ⟨copied row a a', ?_, fun j => rfl⟩
  rw [boosted, List.getElem?_mapIdx, ha', Option.map_some, List.getD_eq_getElem?_getD, hrow,
    List.getD_eq_getElem?_getD, ha]
  rfl

variable (rng conf) in
/-- The array at position `i` of round `c`. -/
theorem boostedArrays_getElem? (s : GenState) {inputs : List Ref} {taints : List InputTaint}
    (nActors : Nat) {k c i : Nat} {r : Ref} {taint : InputTaint} (hc : c < k - 1)
    (hr : inputs[i]? = some r) (htaint : taints[i]? = some taint) :
    (boostedArrays rng conf s inputs taints k nActors)[c * inputs.length + i]? =
      some (boosted taint (s.input r)
        (generated rng conf (s.state + (c * inputs.length + i)) nActors)) := by
  have hi : i < inputs.zipIdx.length := by
    rw [List.length_zipIdx]
    exact (List.getElem?_eq_some_iff.1 hr).1
  have horder := rounds_getElem? inputs.zipIdx hc hi
  rw [List.length_zipIdx, List.getElem?_zipIdx, hr, Option.map_some, Nat.zero_add] at horder
  rw [boostedArrays, List.getElem?_mapIdx, boostOrder, horder, Option.map_some,
    List.getD_eq_getElem?_getD, htaint, Option.getD_some]

/-- `generate_boosted` returns the originals, which it leaves as they are, and behind them, round by
round, an array for each that agrees with it on the tainted data entries and is freshly generated
elsewhere. It does not change the seed of the next `generate`, and after any further calls it
returns the same data again. -/
theorem generateBoosted_classes (hrng : rng.Documented) {s : GenState} {inputs : List Ref}
    {taints : List InputTaint} {nActors k : Nat} (h : Boostable s inputs taints nActors)
    (hk : 1 ≤ k) :
    ∃ refs s₁, generateBoosted rng conf uninit inputs taints k s = .ok refs s₁ ∧
      refs.length = k * inputs.length ∧ refs.take inputs.length = inputs ∧ Frame s s₁ ∧
      (∀ c i r taint, 1 ≤ c → c < k → inputs[i]? = some r → taints[i]? = some taint →
        ∃ new fresh, refs[c * inputs.length + i]? = some new ∧ s.heap.length ≤ new ∧
          GeneratedFrom rng conf uninit (s.state + ((c - 1) * inputs.length + i)) nActors fresh ∧
          BoostedFrom nActors taint (s.input r) fresh (s₁.input new)) ∧
      ∀ s₂, Relation.ReflTransGen (BoostedCall rng conf uninit) s₁ s₂ →
        ∃ refs' s₃, generateBoosted rng conf uninit inputs taints k s₂ = .ok refs' s₃ ∧
          s₃.contents refs' = s₁.contents refs ∧ s₃.contents refs = s₁.contents refs := by
  obtain ⟨b, hrun⟩ := generateBoosted_run conf uninit hrng h k
  have hframe : Frame s ⟨s.heap ++ boostedArrays rng conf s inputs taints k nActors, s.state, b⟩ :=
    ⟨List.prefix_append _ _, rfl⟩
  refine ⟨_, _, hrun, ?_, List.take_left, hframe, ?_, ?_⟩
  · obtain ⟨k, rfl⟩ := Nat.exists_eq_add_of_le' hk
    rw [List.length_append, List.length_range', Nat.add_sub_cancel, Nat.succ_mul, Nat.add_comm]
  · intro c i r taint hc hck hr htaint
    have hi := (List.getElem?_eq_some_iff.1 hr).1
    have hpos : c * inputs.length + i = inputs.length + ((c - 1) * inputs.length + i) := by
      obtain ⟨c, rfl⟩ := Nat.exists_eq_add_of_le' hc
      rw [Nat.add_sub_cancel, Nat.succ_mul]
      omega
    have hlt : (c - 1) * inputs.length + i < (k - 1) * inputs.length :=
      calc (c - 1) * inputs.length + i < (c - 1 + 1) * inputs.length := by
            rw [Nat.succ_mul]
            omega
        _ ≤ (k - 1) * inputs.length := Nat.mul_le_mul_right _ (by omega)
    have harray := boostedArrays_getElem? rng conf s nActors
      (by omega : c - 1 < k - 1) hr htaint
    refine ⟨s.heap.length + ((c - 1) * inputs.length + i), _, ?_, Nat.le_add_right _ _,
      fun t => ⟨_, generateOne_run hrng h.actors_pos t, rfl⟩, ?_⟩
    · rw [hpos, List.getElem?_append_right (Nat.le_add_right _ _), Nat.add_sub_cancel_left,
        List.getElem?_range' hlt, Nat.one_mul]
    · rw [input_new harray]
      exact boostedFrom_boosted (by rw [generated, List.length_map, length_draws])
  · intro s₂ hcalls
    have hframe₂ := hframe.trans (BoostedCall.run_frame hcalls)
    have h₂ := h.frame hframe₂
    obtain ⟨b', hrun'⟩ := generateBoosted_run conf uninit hrng h₂ k
    refine ⟨_, _, hrun', ?_, ?_⟩
    · rw [contents_boosted h₂, contents_boosted h, boostedArrays_frame h hframe₂]
      congr 1
      exact List.map_congr_left fun r hr => hframe₂.input (h.inputs_actors r hr).1
    · refine List.map_congr_left fun r hr => ?_
      have hf₃ : Frame ⟨s.heap ++ boostedArrays rng conf s inputs taints k nActors, s.state, b⟩
          ⟨s₂.heap ++ boostedArrays rng conf s₂ inputs taints k nActors, s₂.state, b'⟩ :=
        (BoostedCall.run_frame hcalls).trans ⟨List.prefix_append _ _, rfl⟩
      refine hf₃.input ?_
      rw [List.length_append, length_boostedArrays]
      rcases List.mem_append.1 hr with hr | hr
      · exact Nat.lt_of_lt_of_le (h.inputs_actors r hr).1 (Nat.le_add_right _ _)
      · exact (List.mem_range'_1.1 hr).2

/-! ### Tainted padding, and arguments of the wrong size -/

/-- An input whose single actor holds 7 everywhere. -/
def sampleBoostState : GenState := ⟨[⟨0, [fun _ => 7]⟩], 10, 10⟩

theorem sample_boostable : Boostable sampleBoostState [0] [[fun _ => true]] 1 := by
  refine ⟨Nat.one_pos, ?_, rfl, ?_⟩
  · intro r hr
    rw [List.mem_singleton.1 hr]
    exact ⟨Nat.one_pos, rfl⟩
  · intro t ht
    rw [List.mem_singleton.1 ht]
    exact Nat.le_refl 1

variable (rng conf uninit) in
theorem boostOne_zero_actors (taints : List InputTaint) (refs : List Ref) (p : Ref × Nat)
    (s : GenState) : ∃ s', boostOne rng conf uninit taints 0 refs p s = .error .indexError s' := by
  refine ⟨{ s with heap := s.heap ++ [⟨s.boostingState, []⟩] }, ?_⟩
  rw [boostOne, bind_run (get_run s), bind_run_error (generateOne_empty s)]

variable (conf uninit) in
theorem boostOne_no_taint (hrng : rng.Documented) {nActors : Nat} (hn : 0 < nActors)
    (refs : List Ref) (p : Ref × Nat) (s : GenState) :
    ∃ s', boostOne rng conf uninit [[]] nActors refs p s = .error .indexError s' := by
  obtain ⟨n, rfl⟩ := Nat.exists_eq_add_of_le' hn
  have hcopy : ∀ t, ∃ t', (List.range (n + 1)).forM (copyTainted ([[]].getD p.2 []) p.1
      s.heap.length) t = .error .indexError t' := by
    intro t
    have hnone : ([[]] : List InputTaint).getD p.2 [] = [] := by
      rcases p with ⟨r, _ | i⟩
      · rfl
      · simp
    refine ⟨t, ?_⟩
    rw [hnone, List.range_succ_eq_map]
    refine bind_run_error ?_
    rw [copyTainted, bind_run (get_run t)]
    split
    · rfl
    · rfl
  obtain ⟨t', ht'⟩ := hcopy ⟨s.heap ++ [generated rng conf s.boostingState (n + 1)], s.state,
    s.boostingState + 1⟩
  refine ⟨t', ?_⟩
  rw [boostOne, bind_run (get_run s), bind_run (generateOne_run hrng hn s)]
  dsimp only
  rw [bind_run (show (modify _ : GenM PUnit) _ = .ok () _ from rfl)]
  exact bind_run_error ht'

theorem generateBoosted_first_error {input : Ref} {taints : List InputTaint} {s s' : GenState}
    {e : GenError} (htaints : [input].length = taints.length)
    (h : boostOne rng conf uninit taints (s.input input).actors.length [input] (input, 0)
      { s with boostingState := s.state } = .error e s') :
    generateBoosted rng conf uninit [input] taints 2 s = .error e s' := by
  rw [generateBoosted, if_neg (not_not_intro htaints)]
  dsimp only
  rw [bind_run (get_run s), bind_run (show (modify _ : GenM PUnit) _ = .ok () _ from rfl)]
  exact bind_run_error (bind_run_error h)

/-- A tainted entry of the padding is not copied; inputs without actors and taints without a row for
an actor raise. -/
theorem generateBoosted_exceptions :
    (∃ s₁ b, generateBoosted sampleRng sampleConf (fun _ _ _ => 0) [0] [[fun _ => true]] 2
        sampleBoostState = .ok [0, 1] s₁ ∧ (s₁.input 1).actors[0]? = some b ∧ b 1064 ≠ 7) ∧
      (∃ s₁, generateBoosted sampleRng sampleConf (fun _ _ _ => 0) [0] [[]] 2 ⟨[⟨0, []⟩], 10, 10⟩ =
        .error .indexError s₁) ∧
      ∃ s₁, generateBoosted sampleRng sampleConf (fun _ _ _ => 0) [0] [[]] 2 sampleBoostState =
        .error .indexError s₁ := by
  refine ⟨?_, ?_, ?_⟩
  · obtain ⟨b, hrun⟩ := generateBoosted_run sampleConf (fun _ _ _ => 0)
      sampleRng_documented sample_boostable 2
    refine ⟨_, copied (fun _ => true) (fun _ => 7)
      (filled (drawActor sampleRng sampleConf ()).1.data), hrun, rfl, ?_⟩
    rw [copied, if_neg (by decide), filled, if_pos (by decide)]
    decide
  · obtain ⟨s₁, hs₁⟩ := boostOne_zero_actors sampleRng sampleConf
      (fun _ _ _ => 0) [[]] [0] (0, 0) ⟨[⟨0, []⟩], 10, 10⟩
    exact ⟨s₁, generateBoosted_first_error rfl hs₁⟩
  · obtain ⟨s₁, hs₁⟩ := boostOne_no_taint sampleConf (fun _ _ _ => 0)
      sampleRng_documented Nat.one_pos [0] (0, 0) sampleBoostState
    exact ⟨s₁, generateBoosted_first_error rfl hs₁⟩

/-- Two inputs with two actors each, and their taints. -/
def mixedBoostState : GenState :=
  ⟨[⟨0, [fun _ => 7, fun _ => 8]⟩, ⟨0, [fun _ => 9, fun _ => 5]⟩], 10, 10⟩

def mixedTaints : List InputTaint :=
  [[fun _ => true, fun j => decide (j % 2 = 0)], [fun j => decide (j < 8), fun _ => false]]

theorem mixed_boostable : Boostable mixedBoostState [0, 1] mixedTaints 2 := by
  refine ⟨Nat.two_pos, ?_, rfl, ?_⟩
  · intro r hr
    rcases List.mem_pair.1 hr with rfl | rfl
    · exact ⟨Nat.two_pos, rfl⟩
    · exact ⟨Nat.one_lt_two, rfl⟩
  · intro t ht
    rcases List.mem_pair.1 ht with rfl | rfl
    · exact Nat.le_refl 2
    · exact Nat.le_refl 2

/-- Two partly tainted inputs, three inputs for each class. -/
theorem generateBoosted_classes_sample :
    ∃ refs s₁, generateBoosted sampleRng sampleConf (fun _ _ _ => 0) [0, 1] mixedTaints 3
        mixedBoostState = .ok refs s₁ ∧
      refs.length = 3 * 2 ∧ refs.take 2 = [0, 1] ∧ Frame mixedBoostState s₁ ∧
      (∀ c i r taint, 1 ≤ c → c < 3 → [0, 1][i]? = some r → mixedTaints[i]? = some taint →
        ∃ new fresh, refs[c * 2 + i]? = some new ∧ 2 ≤ new ∧
          GeneratedFrom sampleRng sampleConf (fun _ _ _ => 0) (10 + ((c - 1) * 2 + i)) 2 fresh ∧
          BoostedFrom 2 taint (mixedBoostState.input r) fresh (s₁.input new)) ∧
      ∀ s₂, Relation.ReflTransGen (BoostedCall sampleRng sampleConf fun _ _ _ => 0) s₁ s₂ →
        ∃ refs' s₃, generateBoosted sampleRng sampleConf (fun _ _ _ => 0) [0, 1] mixedTaints 3
            s₂ = .ok refs' s₃ ∧
          s₃.contents refs' = s₁.contents refs ∧ s₃.contents refs = s₁.contents refs :=
  generateBoosted_classes sampleRng_documented mixed_boostable (by decide)

end Rvzr.Generator.Data
