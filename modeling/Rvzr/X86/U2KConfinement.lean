import Rvzr.X86.U2KAccess

/-!
# Redirected accesses stay in the kernel page

The instrumentation in front of a node of the sandbox pass is executed with the masks that
`_X86U2KAccessPass` has reduced. Behind it the address register is less than a page from R14, and
with the offset subtracted the access starts in the FAULTY page of actor 0. A memory operand that the
sandbox pass left alone is not confined (`instrumentFunction_redirects_iff`).
-/

namespace Rvzr.X86

open Rvzr.Lib
open Rvzr.Unicorn (DataArea getDataAddr pageSize)

/-! ### Instructions that keep a small register small -/

section Calm

variable {m : Machine} {g : Gpr} {base : BitVec 64} {i : Instruction}

/-- R14 holds the base and the register is less than a page. -/
def Small (g : Gpr) (base : BitVec 64) (m : Machine) : Prop :=
  m.gpr .r14 = base ∧ (m.gpr g).toNat < pageSize

/-- Instrumentation that changes registers only as division and bit-test instrumentation does. -/
inductive Calm : Instruction → Prop where
  | mem {name : String} {value : Address} {width : Nat} {src dest : Bool} {op : ValueOp}
    {flags : List Operand} (hname : name ∈ ["and", "or", "shr"]) :
    Calm (instrumentation name (.mem value width src dest) op flags)
  | lower {name : String} {r : Reg} {width : Nat} {src dest : Bool} {op : ValueOp}
    {flags : List Operand} (hname : name ∈ ["and", "shr"]) (hr : r.gpr ≠ .r14) :
    Calm (instrumentation name (.reg r width src dest) op flags)
  | set {name : String} {r : Reg} {width immWidth n : Nat} {src dest : Bool}
    {flags : List Operand} (hname : name = "or" ∨ name = "mov" ∧ r.part ≠ .h) (hr : r.gpr ≠ .r14)
    (hn : n < 16) :
    Calm (instrumentation name (.reg r width src dest) (.imm n immWidth) flags)

/-- Only the source of an instruction can be reduced when its destination is no immediate. -/
theorem reduceMasks_instrumentation (name : String) (dest src : ValueOp) (flags : List Operand)
    (hdest : (Operand.value dest).reduceMask = .value dest) :
    ∃ src', (instrumentation name dest src flags).reduceMasks =
      instrumentation name dest src' flags := by
  have hsrc : ∃ src', (Operand.value src).reduceMask = .value src' := by
    cases src with
    | imm mask width => exact ⟨_, rfl⟩
    | reg => exact ⟨_, rfl⟩
    | mem => exact ⟨_, rfl⟩
    | label => exact ⟨_, rfl⟩
    | agen => exact ⟨_, rfl⟩
  obtain ⟨src', hsrc⟩ := hsrc
  exact ⟨src', by simp [Instruction.reduceMasks, instrumentation, hdest, hsrc]⟩

theorem Calm.reduceMasks (h : Calm i) : Calm i.reduceMasks := by
  cases h with
  | @mem name value width src dest op flags hname =>
    obtain ⟨op', heq⟩ := reduceMasks_instrumentation name (.mem value width src dest) op flags rfl
    rw [heq]
    exact .mem hname
  | @lower name r width src dest op flags hname hr =>
    obtain ⟨op', heq⟩ := reduceMasks_instrumentation name (.reg r width src dest) op flags rfl
    rw [heq]
    exact .lower hname hr
  | @set name r width immWidth n src dest flags hname hr hn =>
    have hpage : (pageSize : Int) = 4096 := rfl
    have hreduce : Instruction.reduceMasks
        (instrumentation name (.reg r width src dest) (.imm n immWidth) flags) =
        instrumentation name (.reg r width src dest) (.imm n immWidth) flags := by
      simp only [Instruction.reduceMasks, instrumentation, List.map_cons, List.map_nil,
        Operand.reduceMask, hpage]
      rw [if_neg (by omega)]
    rw [hreduce]
    exact .set hname hr hn

theorem updated_le (r : Reg) {old v : Nat} (h : v ≤ old / 2 ^ r.part.offset % 2 ^ r.width) :
    Machine.updated r.part old v ≤ old := by
  obtain ⟨x, p⟩ := r
  cases p <;> simp only [Part.offset, Reg.width, Machine.updated] at h ⊢ <;> omega

theorem updated_or_lt (r : Reg) {old n : Nat} (hold : old < 2 ^ 12) (hn : n < 2 ^ 4) :
    Machine.updated r.part old (old / 2 ^ r.part.offset % 2 ^ r.width ||| n) < 2 ^ 12 := by
  obtain ⟨x, p⟩ := r
  cases p with
  | q =>
    have hor : old / 2 ^ 0 % 2 ^ 64 ||| n < 2 ^ 12 := Nat.or_lt_two_pow (by omega) (by omega)
    simpa only [Part.offset, Reg.width, Machine.updated] using hor
  | d =>
    have hor : old / 2 ^ 0 % 2 ^ 32 ||| n < 2 ^ 12 := Nat.or_lt_two_pow (by omega) (by omega)
    simp only [Part.offset, Reg.width, Machine.updated]
    omega
  | w =>
    have hor : old / 2 ^ 0 % 2 ^ 16 ||| n < 2 ^ 12 := Nat.or_lt_two_pow (by omega) (by omega)
    simp only [Part.offset, Reg.width, Machine.updated]
    omega
  | l =>
    simp only [Part.offset, Reg.width, Machine.updated]
    omega
  | h =>
    have hor : old / 2 ^ 8 % 2 ^ 8 ||| n < 2 ^ 4 := Nat.or_lt_two_pow (by omega) hn
    simp only [Part.offset, Reg.width, Machine.updated]
    omega

theorem updated_lt (r : Reg) {old n : Nat} (hr : r.part ≠ .h) (hold : old < 2 ^ 12)
    (hn : n < 2 ^ 4) : Machine.updated r.part old n < 2 ^ 12 := by
  obtain ⟨x, p⟩ := r
  cases p with
  | h => exact absurd rfl hr
  | q => simp only [Machine.updated]; omega
  | d => simp only [Machine.updated]; omega
  | w => simp only [Machine.updated]; omega
  | l => simp only [Machine.updated]; omega

theorem small_writeReg {r : Reg} {v : Nat} (hm : Small g base m) (hr : r.gpr ≠ .r14)
    (hv : (m.gpr r.gpr).toNat < pageSize → Machine.updated r.part (m.gpr r.gpr).toNat v < pageSize) :
    Small g base (m.writeReg r v) := by
  obtain ⟨hbase, hsmall⟩ := hm
  refine ⟨?_, ?_⟩
  · rw [Machine.writeReg]
    simp only [if_neg hr.symm, hbase]
  · rw [Machine.writeReg]
    by_cases hg : g = r.gpr
    · subst hg
      simp only [if_true, BitVec.toNat_ofNat]
      exact Nat.lt_of_le_of_lt (Nat.mod_le _ _) (hv hsmall)
    · simpa only [if_neg hg] using hsmall

/-- One calm instruction. -/
theorem Calm.execute (h : Calm i) (hm : Small g base m) :
    ∃ m', m.execute i = some m' ∧ Small g base m' := by
  have hpage : pageSize = 2 ^ 12 := rfl
  cases h with
  | @mem name value width src dest op flags hname =>
    have hwrite : ∀ v, Small g base (m.write (.mem value width src dest) v) := by
      intro v
      simpa only [Small, Machine.write, Machine.writeMem_gpr] using hm
    simp only [List.mem_cons, List.not_mem_nil, or_false] at hname
    obtain rfl | rfl | rfl := hname
    · exact ⟨_, execute_and _ _ _, hwrite _⟩
    · exact ⟨_, execute_or _ _ _, hwrite _⟩
    · exact ⟨_, execute_shr _ _ _, hwrite _⟩
  | @lower name r width src dest op flags hname hr =>
    have hwrite : ∀ v ≤ m.readReg r, Small g base (m.writeReg r v) := fun v hv =>
      small_writeReg hm hr fun hold => Nat.lt_of_le_of_lt (updated_le r hv) hold
    simp only [List.mem_cons, List.not_mem_nil, or_false] at hname
    obtain rfl | rfl := hname
    · exact ⟨_, execute_and _ _ _, hwrite _ Nat.and_le_left⟩
    · exact ⟨_, execute_shr _ _ _, hwrite _ (Nat.shiftRight_le _ _)⟩
  | @set name r width immWidth n src dest flags hname hr hn =>
    have himm : m.read (.imm n immWidth) = n := by
      simp only [Machine.read]
      omega
    obtain rfl | ⟨rfl, hpart⟩ := hname
    · refine ⟨_, execute_or _ _ _, small_writeReg hm hr fun hold => ?_⟩
      rw [himm]
      exact updated_or_lt r hold hn
    · refine ⟨_, execute_mov _ _ _, small_writeReg hm hr fun hold => ?_⟩
      rw [himm]
      exact updated_lt r hpart hold hn

theorem run_calm {is : List Instruction} (his : ∀ i ∈ is, Calm i) (hm : Small g base m) :
    ∃ m', m.run is = some m' ∧ Small g base m' := by
  induction is generalizing m with
  | nil => exact ⟨m, rfl, hm⟩
  | cons i is ih =>
    obtain ⟨m₁, hfirst, hm₁⟩ := (his i List.mem_cons_self).execute hm
    obtain ⟨m', hrest, hm'⟩ := ih (fun i hi => his i (List.mem_cons_of_mem _ hi)) hm₁
    exact ⟨m', by rw [run_cons, hfirst, Option.bind_some, hrest], hm'⟩

end Calm

/-! ### The kinds of instructions -/

section Kinds

variable {conf : SandboxConf} {choice : SandboxChoice} {i : Instruction} {s : Sandboxed}
  {divisor : ValueOp}

/-- R14 is no register operand. -/
def AvoidsR14 (op : ValueOp) : Prop :=
  ∀ r width src dest, op = .reg r width src dest → r.gpr ≠ .r14

theorem preventDivByZero_calm {conf : DivConf} {name : DivName} {is : List Instruction}
    {operand : ValueOp} (hoperand : withDest operand = some divisor) (h14 : AvoidsR14 operand)
    (h : preventDivByZero conf name divisor = some is) : ∀ x ∈ is, Calm x := by
  have hor : ∀ n : Nat, n < 16 →
      Calm (instrumentation "or" divisor (.imm n 8) [logicFlags .w]) := by
    intro n hn
    cases operand with
    | reg r width src dest =>
      obtain rfl := Option.some.inj hoperand
      exact .set (.inl rfl) (h14 r width src dest rfl) hn
    | mem value width src dest =>
      obtain rfl := Option.some.inj hoperand
      exact .mem (by simp)
    | imm => exact absurd hoperand (by simp [withDest])
    | label => exact absurd hoperand (by simp [withDest])
    | agen => exact absurd hoperand (by simp [withDest])
  rw [preventDivByZero] at h
  split at h
  · obtain rfl := Option.some.inj h
    simp
  · split at h
    · obtain rfl := Option.some.inj h
      simpa using hor 1 (by decide)
    · obtain ⟨divider, hdivider, rfl⟩ := Option.map_eq_some_iff.1 h
      have hand : Calm (instrumentation "and" divider (.imm 0b11111000 8) [logicFlags .w]) := by
        cases operand with
        | reg r width src dest =>
          obtain rfl := Option.some.inj hoperand
          obtain ⟨r8, hr8, rfl⟩ := Option.map_eq_some_iff.1 hdivider
          have hgpr : r8.gpr = r.gpr := by
            obtain ⟨g, p⟩ := r
            cases g <;> simp_all [Reg.eightBit] <;> simp [← hr8]
          exact .lower (by simp) (by rw [hgpr]; exact h14 r width src dest rfl)
        | mem value width src dest =>
          obtain rfl := Option.some.inj hoperand
          obtain rfl := Option.some.inj hdivider
          exact .mem (by simp)
        | imm => exact absurd hoperand (by simp [withDest])
        | label => exact absurd hoperand (by simp [withDest])
        | agen => exact absurd hoperand (by simp [withDest])
      intro x hx
      simp only [List.mem_cons, List.not_mem_nil, or_false] at hx
      obtain rfl | rfl := hx
      · exact hor 8 (by decide)
      · exact hand

theorem preventDivOverflow_calm {name : DivName} {out : Instrumented}
    (h : preventDivOverflow name divisor = some out) : ∀ x ∈ out.before, Calm x := by
  simp only [preventDivOverflow] at h
  split at h
  · obtain rfl := Option.some.inj h
    simp
  · split at h
    · obtain rfl := Option.some.inj h
      have hmov : Calm (instrumentation "mov" (.reg ⟨.a, .w⟩ 16 false true) (.imm (1 : Nat) 16) []) :=
        .set (.inr ⟨rfl, by decide⟩) (by decide) (by decide)
      simpa using hmov
    · split at h
      · exact absurd h (by simp)
      · rename_i r hr
        have h14 : r.gpr ≠ .r14 := by
          rw [dRegister] at hr
          split_ifs at hr
          · cases hr
            decide
          · cases hr
            decide
          · cases hr
            decide
        split at h
        · obtain rfl := Option.some.inj h
          simpa using Calm.lower (by simp) h14
        · obtain rfl := Option.some.inj h
          intro x hx
          simp only [List.mem_cons, List.not_mem_nil, or_false] at hx
          obtain rfl | rfl := hx
          · exact .lower (by simp) h14
          · exact .lower (by simp) h14

theorem small_repeated {m : Machine} {g : Gpr} {base : BitVec 64} (hm : Small g base m) :
    ∃ m', m.run ((sandboxRepeatedInstruction i).before.map Instruction.reduceMasks) = some m' ∧
      Small g base m' := by
  have hsame : (sandboxRepeatedInstruction i).before.map Instruction.reduceMasks =
      (sandboxRepeatedInstruction i).before := rfl
  have himm : ∀ m : Machine, m.read (.imm 0xff 8) = 255 ∧ m.read (.imm 1 1) = 1 :=
    fun _ => ⟨rfl, rfl⟩
  have hc : (⟨.c, .q⟩ : Reg).gpr ≠ .r14 := by decide
  have hpage : pageSize = 4096 := rfl
  have hlow : ∀ x : Nat, x &&& 255 ≤ 255 := fun x => Nat.and_le_right
  rw [hsame]
  simp only [sandboxRepeatedInstruction]
  rw [run_cons, execute_and, Option.bind_some, run_cons, execute_add, Option.bind_some, run_nil]
  refine ⟨_, rfl, ?_⟩
  simp only [himm]
  simp only [Machine.write, Machine.read, Machine.readReg_writeReg]
  refine small_writeReg (small_writeReg hm hc fun _ => ?_) hc fun _ => ?_
  · have h := hlow (m.readReg ⟨.c, .q⟩)
    simp only [Machine.updated]
    omega
  · have h := hlow (m.readReg ⟨.c, .q⟩)
    simp only [Machine.updated, Reg.width]
    omega

/-- The second function on an instruction keeps a small register small. -/
theorem sandboxKind_small {m : Machine} {g : Gpr} {base : BitVec 64}
    (h : sandboxKind conf choice i = some s)
    (h14 : ∀ op, .value op ∈ i.operands → AvoidsR14 op) (hm : Small g base m) :
    ∃ m', m.run (s.before.map Instruction.reduceMasks) = some m' ∧ Small g base m' := by
  have hcalm : (∀ x ∈ s.before, Calm x) →
      ∃ m', m.run (s.before.map Instruction.reduceMasks) = some m' ∧ Small g base m' := by
    intro hall
    refine run_calm (fun x hx => ?_) hm
    obtain ⟨y, hy, rfl⟩ := List.mem_map.1 hx
    exact (hall y hy).reduceMasks
  rw [sandboxKind] at h
  split at h
  · obtain rfl := Option.some.inj h
    exact hcalm (by simp)
  · split at h
    · rename_i operand ops hops
      obtain ⟨out, hout, rfl⟩ := Option.map_eq_some_iff.1 h
      refine hcalm ?_
      dsimp only
      have hoperand := h14 operand (by rw [hops]; exact List.mem_cons_self)
      obtain ⟨divisor, hdivisor, hnil | ⟨zero, hzero, heq | ⟨overflow, hoverflow, heq⟩⟩⟩ :=
        sandboxDivision_cases hout
      · simp [hnil]
      · rw [heq]
        exact preventDivByZero_calm hdivisor hoperand hzero
      · intro x hx
        rw [heq] at hx
        obtain hx | hx := List.mem_append.1 hx
        · exact preventDivByZero_calm hdivisor hoperand hzero x hx
        · exact preventDivOverflow_calm hoverflow x hx
    · exact absurd h (by simp)
  · obtain ⟨-, hbefore | ⟨offset, width, src, dest, hoffset, hbefore⟩, -⟩ := sandboxBitTest_cases h
    · exact hcalm (by simp [hbefore])
    · refine hcalm ?_
      rw [hbefore]
      have hr : offset.gpr ≠ .r14 := h14 _ hoffset offset width src dest rfl
      simpa using Calm.lower (by simp) hr
  · obtain rfl := Option.some.inj h
    exact small_repeated hm
  · obtain rfl := Option.some.inj h
    exact hcalm (by simp [sandboxCorruptedCf])
  · obtain rfl := Option.some.inj h
    refine hcalm ?_
    have hleaf : ∀ n : Fin 6, ∃ k < 16, encluLeaf n = ((k : Nat) : Int) := by decide
    obtain ⟨k, hk, hleaf⟩ := hleaf choice.leaf
    simp only [sandboxEnclu, hleaf]
    have hmov : Calm (instrumentation "mov" (.reg ⟨.a, .d⟩ 32 true true) (.imm k 1) []) :=
      .set (.inr ⟨rfl, by decide⟩) (by decide) hk
    simpa using hmov

end Kinds

/-! ### The memory accesses -/

section Accesses

variable {conf : SandboxConf} {i : Instruction} {m : Machine} {g : Gpr} {base : BitVec 64}

theorem accessMask_gt (conf : SandboxConf) (i : Instruction) :
    pageSize < accessMask conf i := by
  have h0 : pageSize < sandboxAddressMask := by decide
  have h5 : pageSize < clearLow 5 sandboxAddressMask := by decide
  have h4 : pageSize < clearLow 4 sandboxAddressMask := by decide
  have h03 : pageSize < clearLow 3 sandboxAddressMask := by decide
  have h53 : pageSize < clearLow 3 (clearLow 5 sandboxAddressMask) := by decide
  have h43 : pageSize < clearLow 3 (clearLow 4 sandboxAddressMask) := by decide
  simp only [accessMask]
  split
  · split
    · exact h53
    · split
      · exact h43
      · exact h03
  · split
    · exact h5
    · split
      · exact h4
      · exact h0

theorem reduceMasks_applyMask {r : Reg} {regWidth mask width : Nat} (h : pageSize < mask) :
    (applyMask r regWidth mask width).reduceMasks =
      applyMask r regWidth (mask % pageSize) width := by
  have hlt : (pageSize : Int) < mask := by exact_mod_cast h
  simp only [applyMask, Instruction.reduceMasks, instrumentation, List.map_cons, List.map_nil,
    Operand.reduceMask, if_pos hlt]
  rfl

theorem readReg_q (m : Machine) (g : Gpr) : m.readReg ⟨g, .q⟩ = (m.gpr g).toNat := by
  have hlt := (m.gpr g).isLt
  simp only [Machine.readReg, Part.offset, Reg.width]
  omega

variable (m g) in
/-- A reduced mask leaves less than a page in its register. -/
theorem execute_applyMask {mask : Nat} (regWidth width : Nat) (hmask : mask < pageSize) :
    ∃ m₁, m.execute (applyMask ⟨g, .q⟩ regWidth mask width) = some m₁ ∧
      (m₁.gpr g).toNat < pageSize ∧ ∀ g' ≠ g, m₁.gpr g' = m.gpr g' := by
  have himm : m.read (.imm mask (immWidth width)) = mask := by
    have hpage : pageSize = 4096 := rfl
    simp only [Machine.read]
    omega
  refine ⟨_, execute_and _ _ _, ?_, ?_⟩
  · have hle : m.readReg ⟨g, .q⟩ &&& mask ≤ mask := Nat.and_le_right
    rw [himm]
    simp only [Machine.write, Machine.writeReg, Machine.updated, if_true, BitVec.toNat_ofNat,
      Machine.read]
    exact Nat.lt_of_le_of_lt (Nat.mod_le _ _) (Nat.lt_of_le_of_lt hle hmask)
  · intro g' hg'
    simp only [Machine.write, Machine.writeReg, if_neg hg']

variable (m g) in
/-- `add` of the base. -/
theorem execute_addBase (width : Nat) :
    ∃ m₁, m.execute (moveBase "add" ⟨g, .q⟩ width) = some m₁ ∧
      m₁.gpr g = m.gpr .r14 + m.gpr g ∧ ∀ g' ≠ g, m₁.gpr g' = m.gpr g' := by
  refine ⟨_, execute_add _ _ _, ?_, ?_⟩
  · simp only [Machine.write, Machine.writeReg, Machine.updated, if_true, Machine.read, readReg_q]
    rw [Nat.add_comm, BitVec.ofNat_add, BitVec.ofNat_toNat, BitVec.ofNat_toNat]
    simp
  · intro g' hg'
    simp only [Machine.write, Machine.writeReg, if_neg hg']

theorem mem_uniqOperands {ops : List (Address × Nat)} {a : Address} :
    a ∈ (uniqOperands ops).map Prod.fst ↔ a ∈ ops.map Prod.fst := by
  induction ops with
  | nil => rfl
  | cons op ops ih =>
    have hfilter : a ∈ ((uniqOperands ops).filter fun o => o.1 ≠ op.1).map Prod.fst ↔
        a ∈ (uniqOperands ops).map Prod.fst ∧ a ≠ op.1 := by
      simp only [List.mem_map, List.mem_filter, decide_eq_true_eq]
      constructor
      · rintro ⟨o, ⟨ho, hne⟩, rfl⟩
        exact ⟨⟨o, ho, rfl⟩, hne⟩
      · rintro ⟨⟨o, ho, rfl⟩, hne⟩
        exact ⟨o, ⟨ho, hne⟩, rfl⟩
    rw [uniqOperands, List.map_cons, List.mem_cons, hfilter, ih, List.map_cons, List.mem_cons]
    tauto

theorem nodup_uniqOperands (ops : List (Address × Nat)) :
    ((uniqOperands ops).map Prod.fst).Nodup := by
  induction ops with
  | nil => simp [uniqOperands]
  | cons op ops ih =>
    rw [uniqOperands, List.map_cons, List.nodup_cons]
    constructor
    · simp
    · exact ih.sublist ((List.filter_sublist).map Prod.fst)

/-- The register holds the base and less than a page. -/
def Based (g : Gpr) (base : BitVec 64) (m : Machine) : Prop :=
  ∃ y < pageSize, m.gpr g = base + BitVec.ofNat 64 y

/-- The instructions in front of implicit accesses: each of their registers is based, and no other
one changes. -/
theorem run_implicit {mask : Nat} (hmask : pageSize < mask) {ops : List (Address × Nat)}
    {out : List (List Instruction × Instruction)} (hnodup : (ops.map Prod.fst).Nodup)
    (h14 : [.reg ⟨.r14, .q⟩] ∉ ops.map Prod.fst)
    (hout : ops.mapM (sandboxImplicit mask) = some out) (hbase : m.gpr .r14 = base) :
    ∃ m', m.run ((out.flatMap Prod.fst).map Instruction.reduceMasks) = some m' ∧
      (∀ g, [.reg ⟨g, .q⟩] ∉ ops.map Prod.fst → m'.gpr g = m.gpr g) ∧
      ∀ g, [.reg ⟨g, .q⟩] ∈ ops.map Prod.fst → Based g base m' := by
  induction ops generalizing m out with
  | nil =>
    rw [List.mapM_nil] at hout
    obtain rfl := Option.some.inj hout
    exact ⟨m, rfl, fun _ _ => rfl, by simp⟩
  | cons op ops ih =>
    rw [List.mapM_cons] at hout
    obtain ⟨group, hgroup, hout⟩ := Option.bind_eq_some_iff.1 hout
    obtain ⟨groups, hgroups, hout⟩ := Option.bind_eq_some_iff.1 hout
    obtain rfl := Option.some.inj hout
    obtain ⟨g, hg, rfl⟩ := sandboxImplicit_cases hgroup
    rw [List.map_cons, hg] at h14 hnodup ⊢
    obtain ⟨hnot, hnodup⟩ := List.nodup_cons.1 hnodup
    simp only [List.mem_cons, not_or] at h14
    have hg14 : g ≠ .r14 := by
      rintro rfl
      exact h14.1 rfl
    -- the mask and the base of this operand
    have hmask' : mask % pageSize < pageSize := Nat.mod_lt _ (by decide)
    obtain ⟨m₁, hand, hsmall, hkept₁⟩ := execute_applyMask m g op.2 op.2 hmask'
    obtain ⟨m₂, hadd, hbased, hkept₂⟩ := execute_addBase m₁ g op.2
    have hkept : ∀ g' ≠ g, m₂.gpr g' = m.gpr g' := fun g' hg' => by
      rw [hkept₂ g' hg', hkept₁ g' hg']
    obtain ⟨m', hrun, hsame, hall⟩ := ih hnodup h14.2 hgroups (m := m₂)
      (by rw [hkept .r14 (Ne.symm hg14), hbase])
    refine ⟨m', ?_, ?_, ?_⟩
    · have hreduce : (moveBase "add" ⟨g, .q⟩ op.2).reduceMasks = moveBase "add" ⟨g, .q⟩ op.2 := rfl
      rw [List.flatMap_cons, List.map_append, List.map_cons, List.map_cons, List.map_nil,
        reduceMasks_applyMask hmask, hreduce, run_append, run_cons, hand, Option.bind_some, run_cons,
        hadd, Option.bind_some, run_nil, Option.bind_some, hrun]
    · intro g' hg'
      simp only [List.mem_cons, not_or] at hg'
      have hne : g' ≠ g := by
        rintro rfl
        exact hg'.1 rfl
      rw [hsame g' hg'.2, hkept g' hne]
    · intro g' hg'
      obtain hg' | hg' := List.mem_cons.1 hg'
      · obtain rfl : g' = g := by simpa using hg'
        refine ⟨(m₁.gpr g').toNat, hsmall, ?_⟩
        rw [hsame g' hnot, hbased, hkept₁ .r14 (Ne.symm hg14), hbase, BitVec.ofNat_toNat,
          BitVec.setWidth_eq]
      · exact hall g' hg'

end Accesses

/-! ### The nodes of the sandbox pass -/

/-- What the sandbox pass is promised of an instruction: the address of a memory operand is one 64-bit
register, R14 is in the register blocklist, and no division, bit test, repeated instruction or ENCLU
of the instruction set has explicit and implicit memory operands. -/
structure Generated (i : Instruction) : Prop where
  address : ∀ op ∈ i.memOperands ++ i.implicitMemOperands, ∃ g, g ≠ .r14 ∧ op.1 = [.reg ⟨g, .q⟩]
  register : ∀ op, .value op ∈ i.operands → AvoidsR14 op
  explicitOnly : i.memOperands ≠ [] → i.implicitMemOperands ≠ [] →
    kind i = none ∨ kind i = some .corruptedCf

/-- The sandbox pass masks the address of the `k`-th explicit operand: the instruction has no
implicit memory operand, or one with the same address. -/
def Confined (i : Instruction) (k : Nat) : Prop :=
  i.implicitMemOperands = [] ∨
    ∃ op, i.memOperands[k]? = some op ∧ op.1 ∈ i.implicitMemOperands.map Prod.fst

section Nodes

variable {conf : SandboxConf} {choice : SandboxChoice} {i j : Instruction} {s : Sandboxed}
  {m : Machine} {base : BitVec 64}

theorem sandboxKind_before {s : Sandboxed} (h : sandboxKind conf choice i = some s)
    (hkind : kind i = none ∨ kind i = some .corruptedCf) : s.before = [] := by
  rw [sandboxKind] at h
  obtain hkind | hkind := hkind
  · rw [hkind] at h
    obtain rfl := Option.some.inj h
    rfl
  · rw [hkind] at h
    obtain rfl := Option.some.inj h
    rfl

theorem address_reg (m : Machine) (g : Gpr) : m.address [.reg ⟨g, .q⟩] = m.gpr g := by
  simp [Machine.address, readReg_q]

theorem address_based (m : Machine) (g : Gpr) :
    m.address [.reg ⟨.r14, .q⟩, .reg ⟨g, .q⟩] = m.gpr .r14 + m.gpr g := by
  simp [Machine.address, readReg_q]

/-- The address of an explicit operand behind the instructions in front of its node: within a page
from R14 if it is confined, and any value of its register if not. -/
theorem sandboxNode_address (hgen : Generated j) (h : sandboxNode conf choice j = some s)
    (hi : s.node = some i) {k width : Nat} {a : Address} (hk : i.memOperands[k]? = some (a, width))
    (hbase : m.gpr .r14 = base) :
    ∃ m', m.run (s.before.map Instruction.reduceMasks) = some m' ∧
      (Confined i k → ∃ y < pageSize, m'.address a = base + BitVec.ofNat 64 y) ∧
      (¬Confined i k → ∃ g, g ≠ .r14 ∧ a = [.reg ⟨g, .q⟩] ∧ m'.gpr g = m.gpr g) := by
  obtain ⟨access, inner, haccess, hinner, rfl⟩ := sandboxNode_cases h
  obtain ⟨hmem, himplicit⟩ := sandboxKind_node hinner hi
  have himplicits : i.implicitMemOperands = access.node.implicitMemOperands := by
    rw [Instruction.implicitMemOperands, himplicit]
    rfl
  rw [hmem] at hk
  obtain ⟨rfl, hnone⟩ | haccess := haccess
  · -- no memory access at all
    have hnil : j.memOperands = [] := by
      have hany : j.operands.any Operand.isMem = false := by
        simp only [Instruction.hasMemOperand, Bool.or_eq_false_iff] at hnone
        exact hnone.1
      rw [Instruction.memOperands, List.filterMap_eq_nil_iff]
      intro op hop
      have hop' := List.any_eq_false.1 hany op hop
      cases op with
      | value op =>
        cases op with
        | mem => exact absurd rfl hop'
        | reg => rfl
        | imm => rfl
        | label => rfl
        | agen => rfl
      | flags => rfl
      | cond => rfl
    simp [hnil] at hk
  · obtain ⟨r, width', hops, himplicit', rfl⟩ | ⟨out, hne, hout, rfl⟩ :=
      sandboxMemoryAccess_cases haccess
    · -- one explicit operand
      obtain ⟨g, hg, hr⟩ := hgen.address ([.reg r], width') (by simp [hops])
      obtain rfl : r = ⟨g, .q⟩ := by simpa using hr
      have ha : a = [.reg ⟨.r14, .q⟩, .reg ⟨g, .q⟩] := by
        have hnode := (getElem?_mem_mapMem (fun _ value => .reg ⟨.r14, .q⟩ :: value) 0 j.operands
          k).symm.trans hk
        change j.memOperands[k]?.map _ = _ at hnode
        rw [hops] at hnode
        cases k with
        | zero => simpa using (congrArg Prod.fst (Option.some.inj hnode)).symm
        | succ k => simp at hnode
      have hmask : accessMask conf j % pageSize < pageSize := Nat.mod_lt _ (by decide)
      obtain ⟨m₁, hand, hsmall, hkept⟩ := execute_applyMask m g 64 width' hmask
      have hm₁ : Small g base m₁ := ⟨by rw [hkept .r14 hg.symm, hbase], hsmall⟩
      obtain ⟨m', hrun, hbase', hsmall'⟩ := sandboxKind_small hinner (by
        rintro op hop r width src dest rfl
        exact hgen.register _ (mem_of_reg_mem_mapMem _ _ _ hop) r width src dest rfl) hm₁
      refine ⟨m', ?_, fun _ => ⟨(m'.gpr g).toNat, hsmall', ?_⟩, fun hnot => ?_⟩
      · rw [List.map_append, run_append, List.map_cons, List.map_nil,
          reduceMasks_applyMask (accessMask_gt conf j), run_cons, hand, Option.bind_some, run_nil,
          Option.bind_some, hrun]
      · rw [ha, address_based, hbase', BitVec.ofNat_toNat, BitVec.setWidth_eq]
      · exact absurd (.inl (by rw [himplicits]; exact himplicit')) hnot
    · -- implicit operands only
      have hkj : j.memOperands[k]? = some (a, width) := hk
      have hmemj : (a, width) ∈ j.memOperands := List.mem_of_getElem? hkj
      obtain ⟨g, hg, rfl⟩ : ∃ g, g ≠ .r14 ∧ a = [.reg ⟨g, .q⟩] :=
        hgen.address (a, width) (List.mem_append_left _ hmemj)
      have hbefore : inner.before = [] := by
        refine sandboxKind_before hinner (hgen.explicitOnly ?_ hne)
        rintro hnil
        simp [hnil] at hmemj
      have h14 : [.reg ⟨.r14, .q⟩] ∉ (uniqOperands j.implicitMemOperands).map Prod.fst := by
        rw [mem_uniqOperands, List.mem_map]
        rintro ⟨op, hop, h14⟩
        obtain ⟨g', hg', hop'⟩ := hgen.address op (List.mem_append_right _ hop)
        rw [h14] at hop'
        exact hg' (by simpa using hop'.symm)
      obtain ⟨m', hrun, hsame, hall⟩ := run_implicit (accessMask_gt conf j)
        (nodup_uniqOperands j.implicitMemOperands) h14 hout hbase
      have hconfined : Confined i k ↔
          [.reg ⟨g, .q⟩] ∈ (uniqOperands j.implicitMemOperands).map Prod.fst := by
        rw [mem_uniqOperands, Confined, himplicits, hmem, or_iff_right hne]
        constructor
        · rintro ⟨op, hop, hmem⟩
          obtain rfl := Option.some.inj (hkj.symm.trans hop)
          exact hmem
        · exact fun hmem => ⟨_, hkj, hmem⟩
      refine ⟨m', ?_, fun hconf => ?_, fun hnot => ⟨g, hg, rfl, hsame g (mt hconfined.2 hnot)⟩⟩
      · rw [hbefore, List.append_nil]
        exact hrun
      · obtain ⟨y, hy, hgpr⟩ := hall g (hconfined.1 hconf)
        exact ⟨y, hy, by rw [address_reg, hgpr]⟩

end Nodes

/-! ### Redirection of a function -/

/-- The instructions of each block, with the index of the instruction that each comes from. -/
abbrev TaggedFunction := List (List (Nat × Instruction))

def untagged (tagged : TaggedFunction) : List (List Instruction) :=
  tagged.map fun bb => bb.map Prod.snd

/-- The instructions of a block in front of position `p` that come from the same instruction. -/
def ownBefore (tags : List Nat) (bb : List Instruction) (p : Nat) : List Instruction :=
  (((tags.zip bb).take p).filter fun x => x.1 = tags.getD p 0).map Prod.snd

/-- The instruction at `q` of block `b` comes from the same one as a selected node. -/
def Belongs (choice : U2KChoice) (tagged : TaggedFunction) (b q : Nat) : Prop :=
  ∃ p k t i j, at? tagged b q = some (t, i) ∧ at? tagged b p = some (t, j) ∧
    Selected choice (untagged tagged) b p k

/-- What the pass does to the sandboxed function: an access is redirected at most once in each operand,
instrumentation only gets smaller masks in front of a selected access, and a selected operand ends up
in the faulty page of the main actor. -/
structure Redirects (start owner : Nat) (choice : U2KChoice) (tagged : TaggedFunction)
    (out : List (List Instruction)) : Prop where
  nodes : ∀ b p i i', at? (untagged tagged) b p = some i → at? out b p = some i' →
    i.isInstrumentation = false → ∃ c : Nat → Nat, i' = i.subtract (u2kOffset owner) c ∧
      ∀ k < i.memOperands.length, c k ≤ 1 ∧ (c k ≠ 0 → Selected choice (untagged tagged) b p k)
  instrumentation : ∀ b q i i', at? (untagged tagged) b q = some i → at? out b q = some i' →
    i.isInstrumentation = true → i' = i ∨ i' = i.reduceMasks ∧ Belongs choice tagged b q
  inside : ∀ b p k, Selected choice (untagged tagged) b p k → ∀ i' a width,
    at? out b p = some i' → i'.memOperands[k]? = some (a, width) →
    ∀ m : Machine, m.gpr .r14 = BitVec.ofNat 64 (getDataAddr start .main owner) →
      ∃ m', m.run (ownBefore ((tagged.getD b []).map Prod.fst) (out.getD b []) p) = some m' ∧
        (m'.address a - BitVec.ofNat 64 (getDataAddr start .faulty 0)).toNat < pageSize

/-- The condition: no operand is selected in two visits, the selected operands are confined, and no
foreign instrumentation directly in front of a selected node has an immediate above a page. -/
structure SafeSelection (choice : U2KChoice) (tagged : TaggedFunction) : Prop where
  once : ∀ b p k visit visit', SelectedIn choice (untagged tagged) visit b p k →
    SelectedIn choice (untagged tagged) visit' b p k → visit = visit'
  confined : ∀ b p k i, at? (untagged tagged) b p = some i →
    Selected choice (untagged tagged) b p k → Confined i k
  ownMasks : ∀ b p q k i, Selected choice (untagged tagged) b p k →
    inFront (keys ((untagged tagged).getD b [])) q p = true → ¬Belongs choice tagged b q →
    at? (untagged tagged) b q = some i → ∀ (mask : Int) (width : Nat),
    .value (.imm mask width) ∈ i.operands → mask ≤ pageSize

section Redirection

variable {start owner : Nat} {choice : U2KChoice} {tagged : TaggedFunction} {b p q k : Nat}
  {i : Instruction}

theorem reduceMasks_eq_iff : i.reduceMasks = i ↔
    ∀ (mask : Int) (width : Nat), .value (.imm mask width) ∈ i.operands → mask ≤ pageSize := by
  have hpage : (pageSize : Int) = 4096 := rfl
  have hop : ∀ op : Operand, op.reduceMask = op ↔
      ∀ mask width, op = .value (.imm mask width) → mask ≤ pageSize := by
    intro op
    cases op with
    | value op =>
      cases op with
      | imm mask width =>
        simp only [Operand.reduceMask, hpage, Operand.value.injEq, ValueOp.imm.injEq]
        constructor
        · rintro h _ _ ⟨rfl, rfl⟩
          by_contra hlt
          rw [if_pos (by omega)] at h
          omega
        · intro h
          have hle := h mask width ⟨rfl, rfl⟩
          exact ⟨if_neg (by omega), trivial⟩
      | reg => simp [Operand.reduceMask]
      | mem => simp [Operand.reduceMask]
      | label => simp [Operand.reduceMask]
      | agen => simp [Operand.reduceMask]
    | flags => simp [Operand.reduceMask]
    | cond => simp [Operand.reduceMask]
  have hops : i.reduceMasks = i ↔ i.operands.map Operand.reduceMask = i.operands := by
    cases i
    simp [Instruction.reduceMasks]
  have hid : i.operands.map Operand.reduceMask = i.operands ↔
      i.operands.map Operand.reduceMask = i.operands.map id := by rw [List.map_id]
  rw [hops, hid, List.map_inj_left]
  simp only [hop, id_eq]
  constructor
  · exact fun h mask width hmem => h _ hmem mask width rfl
  · rintro h op hmem mask width rfl
    exact h mask width hmem

/-- The offset leads from MAIN of the owner to FAULTY of actor 0. -/
theorem main_sub_offset (start owner : Nat) (a : BitVec 64) :
    BitVec.ofNat 64 (getDataAddr start .main owner) + a - BitVec.ofInt 64 (u2kOffset owner) =
      BitVec.ofNat 64 (getDataAddr start .faulty 0) + a := by
  have hsum : (getDataAddr start .main owner : Int) =
      getDataAddr start .faulty 0 + u2kOffset owner := by
    simp only [u2kOffset, getDataAddr]
    push_cast
    omega
  have hofNat : ∀ n : Nat, BitVec.ofNat 64 n = BitVec.ofInt 64 n := fun n => by simp
  rw [hofNat, hsum, BitVec.ofInt_add, hofNat]
  generalize BitVec.ofInt 64 (u2kOffset owner) = x
  generalize BitVec.ofInt 64 (getDataAddr start .faulty 0 : Int) = y
  bv_omega

theorem address_append_minus (m : Machine) (a : Address) (n : Int) :
    m.address (a ++ [.minus n]) = m.address a - BitVec.ofInt 64 n := by
  simp [Machine.address, List.foldl_append]

theorem subtract_congr {offset : Int} {c c' : Nat → Nat}
    (h : i.subtract offset c = i.subtract offset c') (hk : k < i.memOperands.length) :
    c k = c' k := by
  have hops := congrArg (fun i => (Instruction.memOperands i)[k]?.map fun op => op.1.length) h
  simp only [memOperands_subtract, List.getElem?_eq_getElem hk, Option.map_some,
    List.length_append, List.length_replicate] at hops
  have hlen := Option.some.inj hops
  omega

theorem at?_untagged : at? (untagged tagged) b p = (at? tagged b p).map Prod.snd := by
  simp only [at?, untagged, List.getElem?_map]
  cases tagged[b]? with
  | none => rfl
  | some bb => simp

theorem at?_eq_getD {α : Type} (func : List (List α)) (b p : Nat) :
    at? func b p = (func.getD b [])[p]? := by
  rw [at?, List.getD]
  cases func[b]? with
  | none => simp
  | some bb => rfl

theorem ownBefore_eq {front : List Nat} {t : Nat} (back : List Nat) (before bb : List Instruction)
    (hfront : ∀ x ∈ front, x ≠ t)
    (hbb : ∀ n < before.length, bb[front.length + n]? = before[n]?)
    (hlen : front.length + before.length ≤ bb.length) :
    ownBefore (front ++ List.replicate before.length t ++ t :: back) bb
      (front.length + before.length) = before := by
  have hsplit : bb.take (front.length + before.length) = bb.take front.length ++ before := by
    apply List.ext_getElem?
    intro n
    rcases Nat.lt_or_ge n front.length with hn | hn
    · rw [List.getElem?_append_left (by simp; omega), List.getElem?_take_of_lt (by omega),
        List.getElem?_take_of_lt hn]
    · rw [List.getElem?_append_right (by simp; omega), List.length_take,
        Nat.min_eq_left (by omega)]
      rcases Nat.lt_or_ge n (front.length + before.length) with hn' | hn'
      · have h := hbb (n - front.length) (by omega)
        rwa [Nat.add_sub_cancel' hn, ← List.getElem?_take_of_lt hn'] at h
      · rw [List.getElem?_eq_none (by simp; omega), List.getElem?_eq_none (by omega)]
  have htag : (front ++ List.replicate before.length t ++ t :: back).getD
      (front.length + before.length) 0 = t := by
    simp [List.getD]
  have htags : (front ++ List.replicate before.length t ++ t :: back).take
      (front.length + before.length) = front ++ List.replicate before.length t := by
    rw [List.take_append_of_le_length (by simp), List.take_of_length_le (by simp)]
  have hzip : ((front ++ List.replicate before.length t ++ t :: back).zip bb).take
      (front.length + before.length) =
      (front ++ List.replicate before.length t).zip (bb.take front.length ++ before) := by
    rw [List.zip, List.take_zipWith, htags, hsplit]
  have hlength : front.length = (bb.take front.length).length := by simp; omega
  simp only [ownBefore, htag, hzip]
  rw [List.zip_append hlength, List.filter_append, List.map_append]
  have hnone : (front.zip (bb.take front.length)).filter (fun x => x.1 = t) = [] := by
    rw [List.filter_eq_nil_iff]
    rintro ⟨x, y⟩ hxy
    simpa using hfront x (List.of_mem_zip hxy).1
  have hall : ((List.replicate before.length t).zip before).filter (fun x => x.1 = t) =
      (List.replicate before.length t).zip before := by
    rw [List.filter_eq_self]
    rintro ⟨x, y⟩ hxy
    simpa using List.eq_of_mem_replicate (List.of_mem_zip hxy).1
  rw [hnone, hall, List.map_nil, List.nil_append, List.map_snd_zip (by simp)]

/-- The instructions that come from the same one as a node, behind the pass. -/
theorem ownBefore_instrumentFunction {conf : SandboxConf} {choices : Nat → Nat → SandboxChoice}
    {func : List (List Instruction)} (offset : Int)
    (hgen : ∀ bb ∈ func, ∀ i ∈ bb, i.skipped = false → Generated i)
    (htagged : sandboxBlocks conf choices 0 func = some tagged)
    (hi : at? (untagged tagged) b p = some i) (hsel : Selected choice (untagged tagged) b p k) :
    ∃ n j s, Generated j ∧ sandboxNode conf (choices b n) j = some s ∧ s.node = some i ∧
      ownBefore ((tagged.getD b []).map Prod.fst)
        ((instrumentFunction offset choice (untagged tagged)).getD b []) p =
        s.before.map Instruction.reduceMasks := by
  obtain ⟨visit, hb, hvisit, i', pick, hi', hcandidate, hpick, -⟩ := id hsel
  obtain rfl := Option.some.inj (hi.symm.trans hi')
  have hskipped : i.skipped = false := by
    simp only [Instruction.candidate, Bool.and_eq_true, Bool.not_eq_true'] at hcandidate
    exact hcandidate.1.1
  have hi₀ := hi
  rw [at?_untagged] at hi
  obtain ⟨⟨t, i'⟩, hat, rfl⟩ := Option.map_eq_some_iff.1 hi
  obtain ⟨nodes, hnodes, hp⟩ := Option.bind_eq_some_iff.1 hat
  obtain ⟨bb, hbb, hsandbox⟩ := getElem?_sandboxBlocks htagged hnodes
  rw [Nat.zero_add] at hsandbox
  obtain ⟨hplt, hpget⟩ := List.getElem?_eq_some_iff.1 hp
  have hsplit : nodes = nodes.take p ++ (t, i') :: nodes.drop (p + 1) := by
    rw [← hpget, ← List.drop_eq_getElem_cons hplt, List.take_append_drop]
  obtain ⟨-, j, hj, hjskipped, s, front, hs, hnode, hpre, hfront⟩ :=
    sandboxNodes_split hsandbox hsplit hskipped
  refine ⟨t, j, s, hgen bb hbb j hj hjskipped, hs, hnode, ?_⟩
  have hlen : front.length + s.before.length = p := by
    have h := congrArg List.length hpre
    simp only [List.length_take, List.length_append, List.length_map] at h
    omega
  have hget : ∀ q, at? (untagged tagged) b q = nodes[q]?.map Prod.snd := by
    intro q
    rw [at?_untagged, at?, hnodes, Option.bind_some]
  -- every instruction inserted in front of the node is reduced
  have hkeys : (((untagged tagged).map keys).getD b []) = nodes.map fun x => x.2.key := by
    simp [List.getD, untagged, hnodes, keys]
  have hbefore : ∀ n < s.before.length, at? (untagged tagged) b (front.length + n) = s.before[n]? := by
    intro n hn
    rw [hget, hsplit, List.getElem?_append_left (by simp; omega), hpre,
      List.getElem?_append_right (by omega), Nat.add_sub_cancel_left, List.getElem?_map,
      Option.map_map]
    simp [Function.comp_def]
  have hinFront : ∀ n < s.before.length,
      inFront (((untagged tagged).map keys).getD b []) (front.length + n) p = true := by
    intro n hn
    have htake : (nodes.map fun x => x.2.key).take p =
        (front ++ s.before.map (Prod.mk t)).map fun x => x.2.key := by
      rw [← hpre, List.map_take]
    rw [inFront, decide_eq_true (by omega), Bool.true_and, hkeys, htake, List.all_eq_true]
    intro key hkey
    rw [List.map_append, List.drop_append, List.length_map] at hkey
    obtain hkey | hkey := List.mem_append.1 hkey
    · rw [List.drop_of_length_le (by simp)] at hkey
      exact absurd hkey List.not_mem_nil
    · have hmem := List.mem_of_mem_drop hkey
      rw [List.map_map] at hmem
      obtain ⟨x, hx, rfl⟩ := List.mem_map.1 hmem
      exact sandboxNode_instrumentation hs x (List.mem_append_left _ hx)
  have hout : ∀ n < s.before.length,
      ((instrumentFunction offset choice (untagged tagged)).getD b [])[front.length + n]? =
        (s.before.map Instruction.reduceMasks)[n]? := by
    intro n hn
    have hx : at? (untagged tagged) b (front.length + n) = some s.before[n] := by
      rw [hbefore n hn, List.getElem?_eq_getElem hn]
    have hresult := at?_instrumentFunction offset choice hx
    have hinstr := sandboxNode_instrumentation hs s.before[n]
      (List.mem_append_left _ (List.getElem_mem hn))
    have hany : (selections choice (untagged tagged)).any (fun s => s.block = b &&
        inFront (((untagged tagged).map keys).getD b []) (front.length + n) s.position) = true := by
      refine List.any_eq_true.2 ⟨⟨b, p, pick⟩,
        mem_selections_of hvisit hb hi₀ hcandidate hpick, ?_⟩
      simpa using hinFront n hn
    rw [if_pos hinstr, hany, if_pos rfl] at hresult
    rw [List.getElem?_map, List.getElem?_eq_getElem hn, Option.map_some, ← hresult, at?_eq_getD]
  have hlast := at?_instrumentFunction offset choice hi₀
  rw [at?_eq_getD] at hlast
  obtain ⟨hlt, -⟩ := List.getElem?_eq_some_iff.1 hlast
  have htags : (tagged.getD b []).map Prod.fst = front.map Prod.fst ++
      List.replicate (s.before.map Instruction.reduceMasks).length t ++
        t :: (nodes.drop (p + 1)).map Prod.fst := by
    have hconst : (s.before.map (Prod.mk t)).map Prod.fst = List.replicate s.before.length t := by
      rw [List.map_map, Function.comp_def]
      simp
    have hb' : tagged.getD b [] = nodes := by simp [List.getD, hnodes]
    rw [hb']
    conv_lhs => rw [hsplit, hpre]
    simp only [List.map_append, List.map_cons, hconst, List.length_map]
  have hfront' : ∀ x ∈ front.map Prod.fst, x ≠ t := by
    intro x hx
    obtain ⟨y, hy, rfl⟩ := List.mem_map.1 hx
    exact hfront y hy
  have hown := ownBefore_eq ((nodes.drop (p + 1)).map Prod.fst)
    (s.before.map Instruction.reduceMasks)
    ((instrumentFunction offset choice (untagged tagged)).getD b []) hfront' (by simpa using hout)
    (by simp only [List.length_map]; omega)
  rw [htags]
  simpa only [List.length_map, hlen] using hown

end Redirection

section Main

variable {conf : SandboxConf} {choices : Nat → Nat → SandboxChoice}
  {func : List (List Instruction)} {tagged : TaggedFunction} {choice : U2KChoice}
  {start owner : Nat}

theorem selected_node {b p k : Nat} (h : Selected choice (untagged tagged) b p k) :
    ∃ i, at? (untagged tagged) b p = some i ∧ i.isInstrumentation = false ∧
      k < i.memOperands.length := by
  obtain ⟨visit, -, -, i, pick, hi, hcandidate, -, rfl⟩ := h
  simp only [Instruction.candidate, Bool.and_eq_true, Bool.not_eq_true', Bool.or_eq_false_iff]
    at hcandidate
  refine ⟨i, hi, hcandidate.1.1.1, Nat.mod_lt _ ?_⟩
  have hany : i.operands.any Operand.isMem = true := by
    simpa [Instruction.hasMemOperand] using hcandidate.2
  obtain ⟨op, hop, hmem⟩ := List.any_eq_true.1 hany
  have hsome : ∃ x, op.mem? = some x := by
    cases op with
    | value op =>
      cases op with
      | mem value width src dest => exact ⟨_, rfl⟩
      | reg => exact absurd hmem (by simp [Operand.isMem])
      | imm => exact absurd hmem (by simp [Operand.isMem])
      | label => exact absurd hmem (by simp [Operand.isMem])
      | agen => exact absurd hmem (by simp [Operand.isMem])
    | flags => exact absurd hmem (by simp [Operand.isMem])
    | cond => exact absurd hmem (by simp [Operand.isMem])
  obtain ⟨x, hx⟩ := hsome
  exact List.length_pos_of_mem (List.mem_filterMap.2 ⟨op, hop, hx⟩)

theorem getD_keys (func : List (List Instruction)) (b : Nat) :
    (func.map keys).getD b [] = keys (func.getD b []) := by
  rw [List.getD, List.getElem?_map, List.getD]
  cases func[b]? with
  | none => rfl
  | some bb => rfl

theorem safeSelection_redirects
    (hgen : ∀ bb ∈ func, ∀ i ∈ bb, i.skipped = false → Generated i)
    (htagged : sandboxBlocks conf choices 0 func = some tagged)
    (h : SafeSelection choice tagged) :
    Redirects start owner choice tagged
      (instrumentFunction (u2kOffset owner) choice (untagged tagged)) where
  nodes b p i i' hi hi' hinstr := by
    rw [at?_instrumentFunction _ _ hi, if_neg (by simp [hinstr])] at hi'
    refine ⟨_, (Option.some.inj hi').symm, fun k _ => ⟨?_, (countSelections_pos hi).1⟩⟩
    exact (countSelections_le_one hi).2 (h.once b p k)
  instrumentation b q i i' hi hi' hinstr := by
    rw [at?_instrumentFunction _ _ hi, if_pos hinstr] at hi'
    split at hi'
    · rename_i hany
      obtain ⟨s, hs, hfront⟩ := List.any_eq_true.1 hany
      simp only [Bool.and_eq_true, decide_eq_true_eq] at hfront
      obtain ⟨rfl, hfront⟩ := hfront
      obtain ⟨visit, j, hb, hvisit, hj, hcandidate, hpick⟩ := selection_at hs
      have hsel : Selected choice (untagged tagged) s.block s.position
          (s.pick % j.memOperands.length) := ⟨visit, hb, hvisit, j, s.pick, hj, hcandidate, hpick, rfl⟩
      obtain rfl := Option.some.inj hi'
      by_cases hbelongs : Belongs choice tagged s.block q
      · exact .inr ⟨rfl, hbelongs⟩
      · refine .inl (reduceMasks_eq_iff.2 (h.ownMasks s.block s.position q _ i hsel ?_ hbelongs hi))
        rwa [getD_keys] at hfront
    · exact .inl (Option.some.inj hi').symm
  inside b p k hsel i' a width hi' ha m hm := by
    obtain ⟨i, hi, hinstr, hk⟩ := selected_node hsel
    obtain ⟨n, j, s, hj, hs, hnode, hown⟩ :=
      ownBefore_instrumentFunction (u2kOffset owner) hgen htagged hi hsel
    have hcount : countSelections (selections choice (untagged tagged)) b p i.memOperands.length k =
        1 := by
      have hpos := (countSelections_pos hi).2 hsel
      have hle := (countSelections_le_one hi).2 (h.once b p k)
      omega
    obtain ⟨⟨a₀, w₀⟩, hop⟩ : ∃ op, i.memOperands[k]? = some op := ⟨_, List.getElem?_eq_getElem hk⟩
    rw [at?_instrumentFunction _ _ hi, if_neg (by simp [hinstr])] at hi'
    obtain rfl := Option.some.inj hi'
    rw [memOperands_subtract, hcount, hop] at ha
    obtain ⟨rfl, -⟩ := Prod.mk.inj (Option.some.inj ha)
    obtain ⟨m', hrun, hconfined, -⟩ := sandboxNode_address hj hs hnode hop hm
    obtain ⟨y, hy, haddress⟩ := hconfined (h.confined b p k i hi hsel)
    refine ⟨m', by rw [hown]; exact hrun, ?_⟩
    have hpage : pageSize = 4096 := rfl
    rw [List.replicate_one, address_append_minus, haddress, main_sub_offset]
    generalize BitVec.ofNat 64 (getDataAddr start .faulty 0) = faulty
    bv_omega

theorem redirects_safeSelection
    (hgen : ∀ bb ∈ func, ∀ i ∈ bb, i.skipped = false → Generated i)
    (htagged : sandboxBlocks conf choices 0 func = some tagged)
    (h : Redirects start owner choice tagged
      (instrumentFunction (u2kOffset owner) choice (untagged tagged))) :
    SafeSelection choice tagged := by
  have hcount : ∀ b p k i, at? (untagged tagged) b p = some i → i.isInstrumentation = false →
      k < i.memOperands.length →
      countSelections (selections choice (untagged tagged)) b p i.memOperands.length k ≤ 1 := by
    intro b p k i hi hinstr hk
    have hout := at?_instrumentFunction (u2kOffset owner) choice hi
    rw [if_neg (by simp [hinstr])] at hout
    obtain ⟨c, hc, hle⟩ := h.nodes b p i _ hi hout hinstr
    rw [subtract_congr hc hk]
    exact (hle k hk).1
  refine ⟨?_, ?_, ?_⟩
  · intro b p k visit visit' hv hv'
    obtain ⟨i, hi, hinstr, hk⟩ := selected_node ⟨visit, hv⟩
    exact (countSelections_le_one hi).1 (hcount b p k i hi hinstr hk) visit visit' hv hv'
  · intro b p k i hi hsel
    by_contra hnot
    obtain ⟨i', hi', hinstr, hk⟩ := selected_node hsel
    obtain rfl := Option.some.inj (hi.symm.trans hi')
    obtain ⟨n, j, s, hj, hs, hnode, hown⟩ :=
      ownBefore_instrumentFunction (u2kOffset owner) hgen htagged hi hsel
    have hone : countSelections (selections choice (untagged tagged)) b p i.memOperands.length k =
        1 := by
      have hpos := (countSelections_pos hi).2 hsel
      have hle := hcount b p k i hi hinstr hk
      omega
    have hout := at?_instrumentFunction (u2kOffset owner) choice hi
    rw [if_neg (by simp [hinstr])] at hout
    obtain ⟨⟨a, w⟩, hop⟩ : ∃ op, i.memOperands[k]? = some op := ⟨_, List.getElem?_eq_getElem hk⟩
    have ha : (i.subtract (u2kOffset owner) (countSelections (selections choice (untagged tagged)) b p
        i.memOperands.length)).memOperands[k]? = some (a ++ [.minus (u2kOffset owner)], w) := by
      rw [memOperands_subtract, hone, hop]
      rfl
    have haddress : ∀ m : Machine, m.gpr .r14 = BitVec.ofNat 64 (getDataAddr start .main owner) →
        ∃ m', m.run (s.before.map Instruction.reduceMasks) = some m' ∧
          (Confined i k → ∃ y < pageSize, m'.address a =
            BitVec.ofNat 64 (getDataAddr start .main owner) + BitVec.ofNat 64 y) ∧
          (¬Confined i k → ∃ g, g ≠ .r14 ∧ a = [.reg ⟨g, .q⟩] ∧ m'.gpr g = m.gpr g) :=
      fun m hm => sandboxNode_address hj hs hnode hop hm
    -- the register of the operand, and a machine where it is a page behind MAIN
    obtain ⟨_, _, _, hfree⟩ := haddress
      ⟨fun _ => BitVec.ofNat 64 (getDataAddr start .main owner), fun _ => 0⟩ rfl
    obtain ⟨g, hg, rfl, -⟩ := hfree hnot
    let bad : Machine := ⟨fun r => if r = g then
      BitVec.ofNat 64 (getDataAddr start .main owner) + BitVec.ofNat 64 pageSize
      else BitVec.ofNat 64 (getDataAddr start .main owner), fun _ => 0⟩
    have hbase : bad.gpr .r14 = BitVec.ofNat 64 (getDataAddr start .main owner) := if_neg hg.symm
    have hgbad : bad.gpr g = BitVec.ofNat 64 (getDataAddr start .main owner) +
        BitVec.ofNat 64 pageSize := if_pos rfl
    obtain ⟨m', hrun, -, hvalue⟩ := haddress bad hbase
    obtain ⟨g', -, hreg, hgpr⟩ := hvalue hnot
    obtain rfl : g = g' := by simpa using hreg
    obtain ⟨m'', hrun', hinside⟩ := h.inside b p k hsel _ _ _ hout ha bad hbase
    rw [hown] at hrun'
    obtain rfl := Option.some.inj (hrun.symm.trans hrun')
    have hpage : pageSize = 4096 := rfl
    rw [address_append_minus, address_reg, hgpr, hgbad, main_sub_offset, hpage] at hinside
    generalize BitVec.ofNat 64 (getDataAddr start .faulty 0) = faulty at hinside
    bv_omega
  · intro b p q k i hsel hfront hbelongs hi
    obtain ⟨visit, hb, hvisit, j, pick, hj, hcandidate, hpick, -⟩ := hsel
    have hfront' : inFront (((untagged tagged).map keys).getD b []) q p = true := by
      rwa [getD_keys]
    have hinstr : i.isInstrumentation = true :=
      inFront_isInstrumentation hfront' (getElem?_keys hi)
    have hany : (selections choice (untagged tagged)).any (fun s => s.block = b &&
        inFront (((untagged tagged).map keys).getD b []) q s.position) = true :=
      List.any_eq_true.2 ⟨⟨b, p, pick⟩, mem_selections_of hvisit hb hj hcandidate hpick,
        by simpa using hfront'⟩
    have hout := at?_instrumentFunction (u2kOffset owner) choice hi
    rw [if_pos hinstr, hany, if_pos rfl] at hout
    obtain hsame | ⟨-, hbelongs'⟩ := h.instrumentation b q i _ hi hout hinstr
    · exact reduceMasks_eq_iff.1 hsame
    · exact absurd hbelongs' hbelongs

/-- Every selected operand is redirected exactly when none is selected in two visits, each is masked by
the sandbox pass, and no other instruction's instrumentation with an immediate above a page stands
directly in front of a selected access. -/
theorem instrumentFunction_redirects_iff
    (hgen : ∀ bb ∈ func, ∀ i ∈ bb, i.skipped = false → Generated i)
    (htagged : sandboxBlocks conf choices 0 func = some tagged) :
    Redirects start owner choice tagged
        (instrumentFunction (u2kOffset owner) choice (untagged tagged)) ↔
      SafeSelection choice tagged :=
  ⟨redirects_safeSelection hgen htagged, safeSelection_redirects hgen htagged⟩

end Main

/-! ### A store in the first of two blocks -/

/-- `mov qword ptr [rax], rbx`. -/
def sampleStore : Instruction :=
  ⟨"mov", "BASE-DATAXFER", false, false,
    [.value (.mem [.reg ⟨.a, .q⟩] 64 false true), .value (.reg ⟨.b, .q⟩ 64 true false)], []⟩

def sampleFunction : List (List Instruction) := [[sampleStore], []]

def sampleConf : SandboxConf := ⟨⟨[], [], false⟩, false⟩

def sampleTagged : TaggedFunction :=
  [[(0, applyMask ⟨.a, .q⟩ 64 8191 64),
    (0, { sampleStore with operands := [.value (.mem [.reg ⟨.r14, .q⟩, .reg ⟨.a, .q⟩] 64 false true),
      .value (.reg ⟨.b, .q⟩ 64 true false)] })], []]

theorem sampleTagged_eq :
    sandboxBlocks sampleConf (fun _ _ => ⟨0, 0⟩) 0 sampleFunction = some sampleTagged := rfl

theorem sampleStore_generated : Generated sampleStore where
  address op hop := by
    have hmem : sampleStore.memOperands ++ sampleStore.implicitMemOperands =
        [([.reg ⟨.a, .q⟩], 64)] := rfl
    rw [hmem] at hop
    obtain rfl := List.mem_singleton.1 hop
    exact ⟨.a, by decide, rfl⟩
  register op hop := by
    rintro r width src dest rfl
    simp only [sampleStore, List.mem_cons, List.not_mem_nil, or_false, Operand.value.injEq,
      reduceCtorEq, false_or, ValueOp.reg.injEq] at hop
    obtain ⟨rfl, -⟩ := hop
    decide
  explicitOnly _ h := absurd rfl h

theorem sampleFunction_generated :
    ∀ bb ∈ sampleFunction, ∀ i ∈ bb, i.skipped = false → Generated i := by
  intro bb hbb i hi _
  simp only [sampleFunction, List.mem_cons, List.not_mem_nil, or_false] at hbb
  obtain rfl | rfl := hbb
  · obtain rfl := List.mem_singleton.1 hi
    exact sampleStore_generated
  · exact absurd hi List.not_mem_nil

/-- The store is selected when the first block is visited, and not again with the second one. -/
def firstVisit : U2KChoice := fun visit _ _ => if visit = 0 then some 0 else none

theorem firstVisit_selectedIn {visit b p k : Nat}
    (h : SelectedIn firstVisit (untagged sampleTagged) visit b p k) :
    visit = 0 ∧ b = 0 ∧ p = 1 := by
  obtain ⟨hb, -, node, pick, hat, hcandidate, hpick, -⟩ := h
  have hvisit : visit = 0 := by
    by_contra hne
    simp [firstVisit, hne] at hpick
  obtain rfl : b = 0 := by omega
  refine ⟨hvisit, rfl, ?_⟩
  match p with
  | 0 =>
    -- the mask in front of the store is no candidate
    cases hat
    cases hcandidate
  | 1 => rfl
  | p + 2 => cases hat

theorem firstVisit_selected : Selected firstVisit (untagged sampleTagged) 0 1 0 :=
  ⟨0, Nat.le_refl 0, by decide, _, 0, rfl, rfl, rfl, rfl⟩

theorem sample_safeSelection : SafeSelection firstVisit sampleTagged where
  once b p k visit visit' h h' :=
    (firstVisit_selectedIn h).1.trans (firstVisit_selectedIn h').1.symm
  confined b p k i hat hsel := by
    obtain ⟨visit, hin⟩ := hsel
    obtain ⟨-, rfl, rfl⟩ := firstVisit_selectedIn hin
    cases hat
    exact Or.inl rfl
  ownMasks b p q k i hsel hfront hforeign := by
    obtain ⟨visit, hin⟩ := hsel
    obtain ⟨-, rfl, rfl⟩ := firstVisit_selectedIn hin
    unfold inFront at hfront
    simp only [Bool.and_eq_true, decide_eq_true_eq, Nat.lt_one_iff] at hfront
    obtain ⟨rfl, -⟩ := hfront
    exact absurd ⟨1, 0, 0, _, _, rfl, rfl, firstVisit_selected⟩ hforeign

theorem sample_redirected :
    Redirects 0 1 firstVisit sampleTagged
        (instrumentFunction (u2kOffset 1) firstVisit (untagged sampleTagged)) ∧
      Selected firstVisit (untagged sampleTagged) 0 1 0 :=
  ⟨(instrumentFunction_redirects_iff sampleFunction_generated sampleTagged_eq).2
    sample_safeSelection, firstVisit_selected⟩

/-- The store is selected at both blocks, and the offset is subtracted twice. -/
theorem sample_redirected_twice :
    (∀ bb ∈ sampleFunction, ∀ i ∈ bb, i.skipped = false → Generated i) ∧
      sandboxBlocks sampleConf (fun _ _ => ⟨0, 0⟩) 0 sampleFunction = some sampleTagged ∧
      ¬Redirects 0 1 (fun _ _ _ => some 0) sampleTagged
        (instrumentFunction (u2kOffset 1) (fun _ _ _ => some 0) (untagged sampleTagged)) := by
  refine ⟨sampleFunction_generated, sampleTagged_eq, fun h => ?_⟩
  obtain ⟨c, hc, hle⟩ := h.nodes 0 1 _ _ rfl rfl rfl
  have hlen := congrArg (fun i => (Instruction.memOperands i)[0]?.map fun op => op.1.length) hc
  rw [memOperands_subtract] at hlen
  have h4 : some 4 = some (([.reg ⟨.r14, .q⟩, .reg ⟨.a, .q⟩] : Address) ++
      List.replicate (c 0) (Term.minus (u2kOffset 1))).length := hlen
  have hfour := Option.some.inj h4
  have hone := (hle 0 (by decide)).1
  simp only [List.length_append, List.length_cons, List.length_nil, List.length_replicate] at hfour
  omega

end Rvzr.X86
