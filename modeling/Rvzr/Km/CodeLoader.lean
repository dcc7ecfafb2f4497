import Rvzr.Km.Recovery

/-!
# Macro expansion in the code loader

`get_section_macros_start` and `expand_section` of `executor_km/code_loader.c`, for the placeholders
of 8 bytes of x86. The expander follows a single pointer into the symbol table, from the first
macro of the section on. `Plan` describes which entries it visits and which bytes it copies, and
`Arranged` is the condition on the symbol table under which these are the entries of the section.

`reads` records the indices of the entries that are read, `calls` those of the macros that are
expanded, with the position of the placeholder and of the expanded code.
-/

namespace Rvzr.Km

open Rvzr.Lib

def macroPlaceholderSize : Nat := 8

/-- What `expand_macro` depends on: the macros it has a description for, the bytes it writes to
the placeholder, and the size of the expanded code. -/
structure MacroLibrary where
  known : Nat → Bool
  jump : TcSymbolEntry → Nat → Nat → Vector UInt8 8
  size : TcSymbolEntry → Nat

/-- `expand_macro` (`macro_expansion.c:353-392`); `none` is an error, raised before anything is
written. -/
def expandMacro (lib : MacroLibrary) (e : TcSymbolEntry) (dest macros : Nat) :
    Option (Vector UInt8 8 × Nat) :=
  if e.id = 0 then none
  else if lib.known e.id = false then none
  else some (lib.jump e dest macros, lib.size e)

/-- One call of `expand_macro`. -/
structure MacroCall where
  index : Nat
  dest : Nat
  macros : Nat
  deriving DecidableEq, Repr

/-- The variables of `expand_section`, with the destination buffer. -/
structure ExpandState where
  srcCursor : Nat
  destCursor : Nat
  macrosCursor : Nat
  pointer : Option Nat
  dest : Mem
  reads : List Nat
  calls : List MacroCall

/-- Copy one byte. -/
def ExpandState.copy (st : ExpandState) (code : Mem) : ExpandState :=
  { st with srcCursor := st.srcCursor + 1, destCursor := st.destCursor + 1
            dest := st.dest.set st.destCursor (code st.srcCursor) }

/-- Store the bytes of a placeholder. -/
def storeJump (m : Mem) (at_ : Nat) (bytes : Vector UInt8 8) : Mem := fun i =>
  if at_ ≤ i ∧ i < at_ + macroPlaceholderSize then bytes.toList.getD (i - at_) 0 else m i

/-- Entry `p` is read. -/
def ExpandState.read (st : ExpandState) (p : Nat) : ExpandState := { st with reads := p :: st.reads }

/-- `expand_macro` is called for entry `p`. -/
def ExpandState.call (st : ExpandState) (p : Nat) : ExpandState :=
  { st with calls := st.calls ++ [⟨p, st.destCursor, st.macrosCursor⟩] }

/-- The cursors after the placeholder of entry `p`, and the next value of the pointer. -/
def ExpandState.advance (st : ExpandState) (p : Nat) (next : Option Nat) (bytes : Vector UInt8 8)
    (n : Nat) : ExpandState where
  srcCursor := st.srcCursor + macroPlaceholderSize
  destCursor := st.destCursor + macroPlaceholderSize
  macrosCursor := st.macrosCursor + n
  pointer := next
  dest := storeJump st.dest st.destCursor bytes
  reads := (p + 1) :: st.reads
  calls := st.calls

section Expander

variable (table : Nat → TcSymbolEntry) (sectionId : Nat)

/-- The entry is a macro of the section. -/
def isMacroOf (i : Nat) : Bool := (table i).owner == sectionId && (table i).id != 0

/-- The loop of `get_section_macros_start`, with `left` entries after entry `i`. -/
def macrosFrom : Nat → Nat → Option Nat
  | 0, i => if isMacroOf table sectionId i then some i else none
  | left + 1, i => if isMacroOf table sectionId i then some i else macrosFrom left (i + 1)

/-- The entries it reads. -/
def macrosFromReads : Nat → Nat → List Nat
  | 0, i => [i]
  | left + 1, i => if isMacroOf table sectionId i then [i] else i :: macrosFromReads left (i + 1)

/-- The pointer after entry `p` has been expanded. -/
def nextPointer (p : Nat) : Option Nat :=
  if (table (p + 1)).owner = sectionId then some (p + 1) else none

variable (lib : MacroLibrary) (code : Mem) (size : Nat)

/-- The loop of `expand_section`. Every iteration advances the cursor, so that `size` iterations
are enough. -/
def expandLoop : Nat → ExpandState → ExpandState × Int
  | 0, st => (st, 0)
  | fuel + 1, st =>
    if st.srcCursor < size then
      match st.pointer with
      | none => expandLoop fuel (st.copy code)
      | some p =>
        if st.srcCursor ≠ (table p).offset then expandLoop fuel ((st.read p).copy code)
        else if (table p).owner ≠ sectionId then (st.read p, -eio)
        else if (table p).id = 0 then (st.read p, -eio)
        else
          match expandMacro lib (table p) st.destCursor st.macrosCursor with
          | none => ((st.read p).call p, -eio)
          | some (bytes, n) =>
            expandLoop fuel
              (((st.read p).call p).advance p (nextPointer table sectionId p) bytes n)
    else (st, 0)

end Expander

/-- `test_case->sections[id].code`. -/
def TcParser.sectionCode (s : TcParser) (id : Nat) : Mem := fun i => s.sections (maxSectionSize * id + i)

/-- The number of entries `get_section_macros_start` looks at. -/
def TcParser.tableEntries (s : TcParser) : Nat := s.symbolTableSize / tcSymbolEntrySize

/-- The body of `expand_section`, for a symbol table, the code of the section and its size. -/
def expandCode (lib : MacroLibrary) (table : Nat → TcSymbolEntry) (entries sectionId : Nat)
    (code : Mem) (size : Nat) (dest : Mem) : ExpandState × Int :=
  if maxSectionSize < size then (⟨0, 0, 0, none, dest, [], []⟩, -eio)
  else
    let reads := macrosFromReads table sectionId (entries - 1) 0
    match macrosFrom table sectionId (entries - 1) 0 with
    | none =>
      (⟨size, size, 0, none, fun i => if i < size then code i else dest i, reads, []⟩, 0)
    | some p =>
      match expandLoop table sectionId lib code size size ⟨0, 0, 0, some p, dest, reads, []⟩ with
      | (st, err) => (st, if err ≠ 0 then err else if st.srcCursor = size then 0 else -eio)

/-- `expand_section` (`code_loader.c:209-272`): the final values of its variables and its return
value. -/
def expandSection (lib : MacroLibrary) (s : TcParser) (sectionId : Nat) (dest : Mem) :
    ExpandState × Int :=
  expandCode lib s.symbolAt s.tableEntries sectionId (s.sectionCode sectionId)
    (s.sectionSize sectionId) dest

section Tables

variable (table : Nat → TcSymbolEntry) (nSymbols sectionId : Nat) (lib : MacroLibrary) (size : Nat)

/-- Entry `i` of the table is a macro of the section. -/
def IsMacro (i : Nat) : Prop :=
  i < nSymbols ∧ (table i).owner = sectionId ∧ (table i).id ≠ 0

/-- The macros of the section stand next to each other in the table, each 8 bytes or more after
the one before and inside the section, and `expand_macro` knows them. The entry behind the last
one belongs to the table and is not a function that follows in the same section. The last macro
may be unknown when its placeholder is the end of the section. -/
structure Arranged : Prop where
  adjacent : ∀ i j k, IsMacro table nSymbols sectionId i → IsMacro table nSymbols sectionId k →
    i ≤ j → j ≤ k → IsMacro table nSymbols sectionId j
  inside : ∀ i, IsMacro table nSymbols sectionId i → (table i).offset < size
  spaced : ∀ i, IsMacro table nSymbols sectionId i → IsMacro table nSymbols sectionId (i + 1) →
    (table i).offset + macroPlaceholderSize ≤ (table (i + 1)).offset ∧
      lib.known (table i).id = true
  last : ∀ i, IsMacro table nSymbols sectionId i → ¬ IsMacro table nSymbols sectionId (i + 1) →
    (lib.known (table i).id = true → i + 1 < nSymbols ∧
      ((table (i + 1)).owner = sectionId →
        (table (i + 1)).offset < (table i).offset + macroPlaceholderSize ∨
          size ≤ (table (i + 1)).offset)) ∧
    (lib.known (table i).id = false → size ≤ (table i).offset + macroPlaceholderSize)

/-- The expansion is exact: only entries of the table are read, every macro of the section is
expanded once and at its offset, in the order of the offsets, and the other bytes are copied. -/
structure ExpandsExactly (code : Mem) (st : ExpandState) : Prop where
  reads : ∀ i ∈ st.reads, i < nSymbols
  once : (st.calls.map MacroCall.index).Nodup
  macros : ∀ i, i ∈ st.calls.map MacroCall.index ↔ IsMacro table nSymbols sectionId i
  ordered : (st.calls.map MacroCall.index).Pairwise fun i j => (table i).offset ≤ (table j).offset
  position : ∀ c ∈ st.calls, c.dest = (table c.index).offset
  bytes : ∀ i, i < size → (∀ m, IsMacro table nSymbols sectionId m →
      ¬ ((table m).offset ≤ i ∧ i < (table m).offset + macroPlaceholderSize)) →
    st.dest i = code i

end Tables

section Plans

variable (table : Nat → TcSymbolEntry) (sectionId : Nat) (lib : MacroLibrary) (size : Nat)

/-- What the loop does from position `src` on: the macros it expands, the entries it reads after
them, and the position up to which the other bytes are copied. -/
inductive Plan : Option Nat → Nat → List Nat → List Nat → Nat → Prop
  | rest {ptr : Option Nat} {src : Nat}
      (hout : ∀ p, ptr = some p → ¬ (src ≤ (table p).offset ∧ (table p).offset < size)) :
      Plan ptr src [] [] size
  | function {p src : Nat} (hin : src ≤ (table p).offset ∧ (table p).offset < size)
      (hid : (table p).id = 0) : Plan (some p) src [] [] (table p).offset
  | unknown {p src : Nat} (hin : src ≤ (table p).offset ∧ (table p).offset < size)
      (hid : (table p).id ≠ 0) (hknown : lib.known (table p).id = false) :
      Plan (some p) src [p] [] (table p).offset
  | expanded {p src : Nat} {calls reads : List Nat} {stop : Nat}
      (hin : src ≤ (table p).offset ∧ (table p).offset < size) (hid : (table p).id ≠ 0)
      (hknown : lib.known (table p).id = true)
      (hrest : Plan (nextPointer table sectionId p) ((table p).offset + macroPlaceholderSize) calls
        reads stop) : Plan (some p) src (p :: calls) ((p + 1) :: reads) stop

/-- The state `st'` after the plan has been carried out from `st`. -/
structure Follows (code : Mem) (st st' : ExpandState) (calls reads : List Nat) (stop : Nat) :
    Prop where
  called : st'.calls.map MacroCall.index = st.calls.map MacroCall.index ++ calls
  position : ∀ c ∈ st'.calls, c ∈ st.calls ∨ c.dest = (table c.index).offset
  seen : ∀ i ∈ st'.reads, i ∈ st.reads ∨ st.pointer = some i ∨ i ∈ reads
  kept : ∀ i ∈ st.reads ++ reads, i ∈ st'.reads
  copied : ∀ i, (∀ m ∈ calls, ¬ ((table m).offset ≤ i ∧
      i < (table m).offset + macroPlaceholderSize)) →
    st'.dest i = if st.srcCursor ≤ i ∧ i < stop then code i else st.dest i

variable {table sectionId lib size} {ptr : Option Nat} {src p : Nat} {calls reads : List Nat}
  {stop : Nat}

theorem Plan.stop_le (h : Plan table sectionId lib size ptr src calls reads stop) :
    min src size ≤ stop ∧ stop ≤ size := by
  induction h with
  | rest hout => omega
  | function hin hid => omega
  | unknown hin hid hknown => omega
  | expanded hin hid hknown hrest ih => omega

/-- A byte that is not at the offset of the pointer is copied. -/
theorem Plan.back (h : Plan table sectionId lib size ptr (src + 1) calls reads stop)
    (hne : ∀ p, ptr = some p → (table p).offset ≠ src) :
    Plan table sectionId lib size ptr src calls reads stop := by
  cases h with
  | rest hout =>
    refine .rest fun p hp hin => hout p hp ⟨?_, hin.2⟩
    have := hne p hp
    omega
  | function hin hid => exact .function ⟨by omega, hin.2⟩ hid
  | unknown hin hid hknown => exact .unknown ⟨by omega, hin.2⟩ hid hknown
  | expanded hin hid hknown hrest => exact .expanded ⟨by omega, hin.2⟩ hid hknown hrest

theorem nextPointer_owner {p q : Nat} (h : nextPointer table sectionId p = some q) :
    q = p + 1 ∧ (table q).owner = sectionId := by
  unfold nextPointer at h
  split at h
  · rename_i howner
    cases h
    exact ⟨rfl, howner⟩
  · cases h

/-- The expanded entries follow each other in the table. -/
theorem Plan.calls_eq (h : Plan table sectionId lib size ptr src calls reads stop) {p : Nat}
    (hp : ptr = some p) : calls = List.range' p calls.length := by
  induction h generalizing p with
  | rest hout => rfl
  | function hin hid => rfl
  | unknown hin hid hknown =>
    cases hp
    rfl
  | @expanded p' src calls reads stop hin hid hknown hrest ih =>
    cases hp
    rw [List.length_cons, List.range'_succ]
    congr 1
    cases hnext : nextPointer table sectionId p' with
    | none =>
      rw [hnext] at hrest
      cases hrest
      rfl
    | some q =>
      obtain ⟨hq, -⟩ := nextPointer_owner hnext
      subst hq
      exact ih hnext

theorem ExpandState.copy_dest {code : Mem} {st : ExpandState} (h : st.destCursor = st.srcCursor)
    (i : Nat) : (st.copy code).dest i = if i = st.srcCursor then code i else st.dest i := by
  unfold ExpandState.copy Mem.set
  dsimp only
  rw [h]
  split
  · rename_i heq
    rw [heq]
  · rfl

variable {code : Mem} {st st' : ExpandState}

/-- One copied byte in front of a plan. -/
theorem Follows.copy (hplan : Plan table sectionId lib size st.pointer (st.srcCursor + 1) calls
      reads stop) (hlt : st.srcCursor < size) (hdest : st.destCursor = st.srcCursor)
    (h : Follows table code (st.copy code) st' calls reads stop) :
    Follows table code st st' calls reads stop := by
  refine ⟨h.called, h.position, h.seen, h.kept, fun i hi => ?_⟩
  rw [h.copied i hi, ExpandState.copy_dest hdest]
  have hstop := hplan.stop_le
  show (if st.srcCursor + 1 ≤ i ∧ i < stop then _ else _) = _
  by_cases heq : i = st.srcCursor
  · rw [if_neg (by omega), if_pos heq, if_pos (by omega)]
  · by_cases hin : st.srcCursor + 1 ≤ i ∧ i < stop
    · rw [if_pos hin, if_pos (by omega)]
    · rw [if_neg hin, if_neg heq, if_neg (by omega)]

/-- Reading the entry of the pointer changes nothing else. -/
theorem Follows.read {p : Nat} (hp : st.pointer = some p)
    (h : Follows table code (st.read p) st' calls reads stop) :
    Follows table code st st' calls reads stop := by
  refine ⟨h.called, h.position, fun i hi => ?_, fun i hi => ?_, h.copied⟩
  · rcases h.seen i hi with hin | hptr | hin
    · rcases List.mem_cons.mp hin with rfl | hin
      · exact Or.inr (Or.inl hp)
      · exact Or.inl hin
    · exact Or.inr (Or.inl hptr)
    · exact Or.inr (Or.inr hin)
  · apply h.kept
    rcases List.mem_append.mp hi with hin | hin
    · exact List.mem_append_left _ (List.mem_cons_of_mem _ hin)
    · exact List.mem_append_right _ hin

/-- Nothing more happens. -/
theorem Follows.refl (hstop : stop ≤ st.srcCursor) : Follows table code st st [] [] stop := by
  refine ⟨by simp, fun c hc => Or.inl hc, fun i hi => Or.inl hi, fun i hi => by simpa using hi,
    fun i _ => ?_⟩
  rw [if_neg (by omega)]

/-- A call that fails is the last thing that happens. -/
theorem Follows.unknown {p : Nat} (hdest : st.destCursor = st.srcCursor)
    (hoff : st.srcCursor = (table p).offset) :
    Follows table code st (st.call p) [p] [] (table p).offset := by
  refine ⟨by simp [ExpandState.call], fun c hc => ?_, fun i hi => Or.inl hi,
    fun i hi => by simpa [ExpandState.call] using hi, fun i _ => ?_⟩
  · rcases List.mem_append.mp hc with hold | hnew
    · exact Or.inl hold
    · rw [List.mem_singleton] at hnew
      subst hnew
      exact Or.inr (hdest.trans hoff)
  · rw [if_neg (by omega)]
    rfl

/-- A macro in front of a plan. -/
theorem Follows.expanded {p n : Nat} {bytes : Vector UInt8 8} {q : Option Nat}
    (hdest : st.destCursor = st.srcCursor) (hoff : st.srcCursor = (table p).offset)
    (hq : ∀ i, q = some i → i = p + 1)
    (h : Follows table code ((st.call p).advance p q bytes n) st' calls reads stop) :
    Follows table code st st' (p :: calls) ((p + 1) :: reads) stop := by
  refine ⟨?_, fun c hc => ?_, fun i hi => ?_, fun i hi => ?_, fun i hi => ?_⟩
  · rw [h.called]
    show (st.calls ++ [MacroCall.mk p st.destCursor st.macrosCursor]).map MacroCall.index ++ calls = _
    simp
  · rcases h.position c hc with hold | hnew
    · rcases List.mem_append.mp hold with hold | hnew
      · exact Or.inl hold
      · rw [List.mem_singleton] at hnew
        subst hnew
        exact Or.inr (hdest.trans hoff)
    · exact Or.inr hnew
  · rcases h.seen i hi with hin | hptr | hin
    · rcases List.mem_cons.mp hin with rfl | hin
      · exact Or.inr (Or.inr (List.mem_cons_self ..))
      · exact Or.inl hin
    · rw [hq i hptr]
      exact Or.inr (Or.inr (List.mem_cons_self ..))
    · exact Or.inr (Or.inr (List.mem_cons_of_mem _ hin))
  · apply h.kept
    rcases List.mem_append.mp hi with hin | hin
    · exact List.mem_append_left _ (List.mem_cons_of_mem _ hin)
    · rcases List.mem_cons.mp hin with rfl | hin
      · exact List.mem_append_left _ (List.mem_cons_self ..)
      · exact List.mem_append_right _ hin
  · have hself := hi p (by simp)
    rw [h.copied i fun m hm => hi m (List.mem_cons_of_mem _ hm)]
    show (if st.srcCursor + macroPlaceholderSize ≤ i ∧ i < stop then code i
      else storeJump st.dest st.destCursor bytes i) = _
    rw [hoff] at hdest ⊢
    by_cases hin : (table p).offset + macroPlaceholderSize ≤ i ∧ i < stop
    · rw [if_pos hin, if_pos (by omega)]
    · rw [if_neg hin, if_neg (by omega), storeJump, if_neg (by rw [hdest]; exact hself)]

variable {fuel : Nat}

theorem expandLoop_copy {p : Nat} (hlt : st.srcCursor < size) (hptr : st.pointer = some p)
    (hoff : st.srcCursor ≠ (table p).offset) :
    expandLoop table sectionId lib code size (fuel + 1) st =
      expandLoop table sectionId lib code size fuel ((st.read p).copy code) := by
  rw [expandLoop, if_pos hlt, hptr]
  dsimp only
  rw [if_pos hoff]

theorem expandLoop_at {p : Nat} (hlt : st.srcCursor < size) (hptr : st.pointer = some p)
    (hoff : st.srcCursor = (table p).offset) (howner : (table p).owner = sectionId) :
    expandLoop table sectionId lib code size (fuel + 1) st =
      if (table p).id = 0 then (st.read p, -eio)
      else if lib.known (table p).id = false then ((st.read p).call p, -eio)
      else expandLoop table sectionId lib code size fuel
        (((st.read p).call p).advance p (nextPointer table sectionId p)
          (lib.jump (table p) st.destCursor st.macrosCursor) (lib.size (table p))) := by
  rw [expandLoop, if_pos hlt, hptr]
  dsimp only
  rw [if_neg (not_not.mpr hoff), if_neg (not_not.mpr howner)]
  by_cases hid : (table p).id = 0
  · rw [if_pos hid, if_pos hid]
  · rw [if_neg hid, if_neg hid]
    unfold expandMacro
    rw [if_neg hid]
    by_cases hknown : lib.known (table p).id = false
    · rw [if_pos hknown, if_pos hknown]
    · rw [if_neg hknown, if_neg hknown]

/-- The loop carries out a plan. -/
theorem expandLoop_follows (fuel : Nat) (hfuel : size ≤ st.srcCursor + fuel)
    (hdest : st.destCursor = st.srcCursor)
    (howner : ∀ p, st.pointer = some p → (table p).owner = sectionId) :
    ∃ calls reads stop, Plan table sectionId lib size st.pointer st.srcCursor calls reads stop ∧
      Follows table code st (expandLoop table sectionId lib code size fuel st).1 calls reads stop := by
  induction fuel generalizing st with
  | zero =>
    refine ⟨[], [], size, .rest fun p _ hin => ?_, Follows.refl (by omega)⟩
    omega
  | succ fuel ih =>
    by_cases hlt : st.srcCursor < size
    · cases hptr : st.pointer with
      | none =>
        obtain ⟨calls, reads, stop, hplan, hfol⟩ := ih
          (show size ≤ (st.copy code).srcCursor + fuel by
            show size ≤ st.srcCursor + 1 + fuel
            omega)
          (show st.destCursor + 1 = st.srcCursor + 1 by rw [hdest]) howner
        have hplan' : Plan table sectionId lib size st.pointer (st.srcCursor + 1) calls reads stop :=
          hplan
        have hloop : expandLoop table sectionId lib code size (fuel + 1) st =
            expandLoop table sectionId lib code size fuel (st.copy code) := by
          rw [expandLoop, if_pos hlt, hptr]
        rw [hloop, ← hptr]
        refine ⟨calls, reads, stop, hplan'.back fun p hp => ?_, hfol.copy hplan' hlt hdest⟩
        rw [hptr] at hp
        cases hp
      | some p =>
        by_cases hoff : st.srcCursor = (table p).offset
        · rw [expandLoop_at hlt hptr hoff (howner p hptr)]
          have hin : st.srcCursor ≤ (table p).offset ∧ (table p).offset < size := by omega
          by_cases hid : (table p).id = 0
          · rw [if_pos hid]
            exact ⟨[], [], _, .function hin hid, Follows.read hptr (Follows.refl (Nat.le_of_eq hoff.symm))⟩
          rw [if_neg hid]
          cases hknown : lib.known (table p).id with
          | false =>
            rw [if_pos rfl]
            exact ⟨[p], [], _, .unknown hin hid hknown,
              Follows.read hptr (Follows.unknown hdest hoff)⟩
          | true =>
            rw [if_neg (by simp)]
            obtain ⟨calls, reads, stop, hplan, hfol⟩ := ih
              (show size ≤ (((st.read p).call p).advance p (nextPointer table sectionId p)
                (lib.jump (table p) st.destCursor st.macrosCursor)
                (lib.size (table p))).srcCursor + fuel by
                  show size ≤ st.srcCursor + 8 + fuel
                  omega)
              (show st.destCursor + macroPlaceholderSize = st.srcCursor + macroPlaceholderSize by
                rw [hdest])
              (fun q hq => (nextPointer_owner hq).2)
            refine ⟨p :: calls, (p + 1) :: reads, stop, .expanded hin hid hknown ?_, ?_⟩
            · rw [← hoff]
              exact hplan
            · exact Follows.read hptr (Follows.expanded hdest hoff
                (fun q hq => (nextPointer_owner hq).1) hfol)
        · obtain ⟨calls, reads, stop, hplan, hfol⟩ := ih
            (show size ≤ ((st.read p).copy code).srcCursor + fuel by
              show size ≤ st.srcCursor + 1 + fuel
              omega)
            (show st.destCursor + 1 = st.srcCursor + 1 by rw [hdest]) howner
          have hplan' : Plan table sectionId lib size (st.read p).pointer
              ((st.read p).srcCursor + 1) calls reads stop := hplan
          rw [expandLoop_copy hlt hptr hoff, ← hptr]
          refine ⟨calls, reads, stop, hplan'.back fun p' hp' => ?_,
            Follows.read hptr (hfol.copy hplan' hlt hdest)⟩
          have heq : p = p' := Option.some.inj (hptr.symm.trans hp')
          rw [← heq]
          exact fun h => hoff h.symm
    · rw [expandLoop, if_neg hlt]
      refine ⟨[], [], size, .rest fun p _ hin => ?_, Follows.refl (by omega)⟩
      omega

/-- An expanded entry comes after the one that the pointer was at. -/
theorem Plan.le_of_mem (h : Plan table sectionId lib size (nextPointer table sectionId p) src calls
    reads stop) {i : Nat} (hi : i ∈ calls) :
    p + 1 ≤ i ∧ nextPointer table sectionId p = some (p + 1) := by
  cases hnext : nextPointer table sectionId p with
  | none =>
    rw [hnext] at h
    cases h
    exact absurd hi (by simp)
  | some q =>
    have hq := (nextPointer_owner hnext).1
    subst hq
    rw [h.calls_eq hnext] at hi
    obtain ⟨k, -, hk⟩ := List.mem_range'.mp hi
    exact ⟨by omega, rfl⟩

theorem Plan.offset_bounds (h : Plan table sectionId lib size ptr src calls reads stop) {i : Nat}
    (hi : i ∈ calls) : src ≤ (table i).offset ∧ (table i).offset < size := by
  induction h with
  | rest hout => exact absurd hi (by simp)
  | function hin hid => exact absurd hi (by simp)
  | unknown hin hid hknown =>
    rw [List.mem_singleton] at hi
    subst hi
    exact hin
  | expanded hin hid hknown hrest ih =>
    rcases List.mem_cons.mp hi with rfl | hi
    · exact hin
    · have := ih hi
      omega

/-- The placeholders of the expanded entries do not overlap. -/
theorem Plan.spaced (h : Plan table sectionId lib size ptr src calls reads stop) {i j : Nat}
    (hi : i ∈ calls) (hj : j ∈ calls) (hij : i < j) :
    (table i).offset + macroPlaceholderSize ≤ (table j).offset ∧ lib.known (table i).id = true := by
  induction h with
  | rest hout => exact absurd hi (by simp)
  | function hin hid => exact absurd hi (by simp)
  | unknown hin hid hknown =>
    rw [List.mem_singleton] at hi hj
    omega
  | expanded hin hid hknown hrest ih =>
    rcases List.mem_cons.mp hi with rfl | hi
    · rcases List.mem_cons.mp hj with rfl | hj
      · omega
      · exact ⟨(hrest.offset_bounds hj).1, hknown⟩
    · rcases List.mem_cons.mp hj with heq | hj
      · have := (hrest.le_of_mem hi).1
        omega
      · exact ih hi hj

theorem Plan.reads_next (h : Plan table sectionId lib size ptr src calls reads stop) {i : Nat}
    (hi : i ∈ calls) (hknown : lib.known (table i).id = true) : i + 1 ∈ reads := by
  induction h with
  | rest hout => exact absurd hi (by simp)
  | function hin hid => exact absurd hi (by simp)
  | unknown hin hid hunknown =>
    rw [List.mem_singleton] at hi
    subst hi
    rw [hknown] at hunknown
    exact absurd hunknown (by simp)
  | expanded hin hid hknown' hrest ih =>
    rcases List.mem_cons.mp hi with rfl | hi
    · exact List.mem_cons_self ..
    · exact List.mem_cons_of_mem _ (ih hi)

/-- Where the copying ends when the last expanded entry is unknown, or is followed by a function
of the section. -/
theorem Plan.stop_eq (h : Plan table sectionId lib size ptr src calls reads stop) {i : Nat}
    (hi : i ∈ calls) (hlast : i + 1 ∉ calls) :
    (lib.known (table i).id = false → stop = (table i).offset) ∧
      (lib.known (table i).id = true → (table (i + 1)).owner = sectionId →
        (table i).offset + macroPlaceholderSize ≤ (table (i + 1)).offset →
        (table (i + 1)).offset < size → stop = (table (i + 1)).offset) := by
  induction h with
  | rest hout => exact absurd hi (by simp)
  | function hin hid => exact absurd hi (by simp)
  | unknown hin hid hunknown =>
    rw [List.mem_singleton] at hi
    subst hi
    refine ⟨fun _ => rfl, fun hknown => ?_⟩
    rw [hknown] at hunknown
    exact absurd hunknown (by simp)
  | @expanded p src calls reads stop hin hid hknown hrest ih =>
    rcases List.mem_cons.mp hi with rfl | hi
    · refine ⟨fun hunknown => ?_, fun _ howner hafter hinside => ?_⟩
      · rw [hknown] at hunknown
        exact absurd hunknown (by simp)
      · have hnext : nextPointer table sectionId i = some (i + 1) := if_pos howner
        rw [hnext] at hrest
        cases hrest with
        | rest hout => exact absurd ⟨hafter, hinside⟩ (hout (i + 1) rfl)
        | function hin' hid' => rfl
        | unknown hin' hid' hknown' => exact absurd (by simp) hlast
        | expanded hin' hid' hknown' hrest' => exact absurd (by simp) hlast
    · exact ih hi fun hmem => hlast (List.mem_cons_of_mem _ hmem)

end Plans

section Search

variable {table : Nat → TcSymbolEntry} {sectionId : Nat}

theorem macrosFrom_some {left i p : Nat} (h : macrosFrom table sectionId left i = some p) :
    i ≤ p ∧ p ≤ i + left ∧ isMacroOf table sectionId p = true ∧
      ∀ j, i ≤ j → j < p → isMacroOf table sectionId j = false := by
  induction left generalizing i with
  | zero =>
    rw [macrosFrom] at h
    split at h
    · rename_i hm
      cases h
      exact ⟨Nat.le_refl _, Nat.le_refl _, hm, fun j _ _ => by omega⟩
    · cases h
  | succ left ih =>
    rw [macrosFrom] at h
    split at h
    · rename_i hm
      cases h
      exact ⟨Nat.le_refl _, by omega, hm, fun j _ _ => by omega⟩
    · rename_i hm
      obtain ⟨hle, hge, hmac, hfirst⟩ := ih h
      refine ⟨by omega, by omega, hmac, fun j hj hjp => ?_⟩
      by_cases heq : j = i
      · subst heq
        exact Bool.eq_false_iff.mpr hm
      · exact hfirst j (by omega) hjp

theorem macrosFrom_none {left i : Nat} (h : macrosFrom table sectionId left i = none) {j : Nat}
    (hi : i ≤ j) (hj : j ≤ i + left) : isMacroOf table sectionId j = false := by
  induction left generalizing i with
  | zero =>
    rw [macrosFrom] at h
    split at h
    · cases h
    · rename_i hm
      have heq : j = i := by omega
      subst heq
      exact Bool.eq_false_iff.mpr hm
  | succ left ih =>
    rw [macrosFrom] at h
    split at h
    · cases h
    · rename_i hm
      by_cases heq : j = i
      · subst heq
        exact Bool.eq_false_iff.mpr hm
      · exact ih h (by omega) (by omega)

theorem mem_macrosFromReads {left i j : Nat} (h : j ∈ macrosFromReads table sectionId left i) :
    j ≤ i + left := by
  induction left generalizing i with
  | zero =>
    rw [macrosFromReads, List.mem_singleton] at h
    omega
  | succ left ih =>
    rw [macrosFromReads] at h
    split at h
    · rw [List.mem_singleton] at h
      omega
    · rcases List.mem_cons.mp h with rfl | h
      · omega
      · have := ih h
        omega

theorem isMacroOf_iff {i : Nat} :
    isMacroOf table sectionId i = true ↔ (table i).owner = sectionId ∧ (table i).id ≠ 0 := by
  simp [isMacroOf]

end Search

section Exactness

variable {table : Nat → TcSymbolEntry} {nSymbols sectionId : Nat} {lib : MacroLibrary} {size : Nat}

variable (table sectionId) in
/-- The search finds the first macro of the section, if there is one. -/
theorem search_spec (hn : nSymbols ≠ 0) :
    (macrosFrom table sectionId (nSymbols - 1) 0 = none ∧
        ∀ i, ¬ IsMacro table nSymbols sectionId i) ∨
      ∃ p, macrosFrom table sectionId (nSymbols - 1) 0 = some p ∧
        IsMacro table nSymbols sectionId p ∧ ∀ i, IsMacro table nSymbols sectionId i → p ≤ i := by
  cases hfind : macrosFrom table sectionId (nSymbols - 1) 0 with
  | none =>
    refine Or.inl ⟨rfl, fun i hi => ?_⟩
    have hfalse := macrosFrom_none hfind (Nat.zero_le i) (by have := hi.1; omega)
    rw [isMacroOf_iff.mpr hi.2] at hfalse
    exact absurd hfalse (by simp)
  | some p =>
    obtain ⟨-, hle, hmac, hfirst⟩ := macrosFrom_some hfind
    refine Or.inr ⟨p, rfl, ⟨by omega, isMacroOf_iff.mp hmac⟩, fun i hi => ?_⟩
    by_contra hlt
    have hfalse := hfirst i (Nat.zero_le i) (by omega)
    rw [isMacroOf_iff.mpr hi.2] at hfalse
    exact absurd hfalse (by simp)

variable {ptr : Option Nat} {src stop p : Nat} {calls reads : List Nat}

/-- The macros from the last one on. -/
theorem Arranged.from_last (h : Arranged table nSymbols sectionId lib size)
    (hp : IsMacro table nSymbols sectionId p) (hlast : ¬ IsMacro table nSymbols sectionId (p + 1))
    (i : Nat) : i ∈ [p] ↔ p ≤ i ∧ IsMacro table nSymbols sectionId i := by
  rw [List.mem_singleton]
  constructor
  · rintro rfl
    exact ⟨Nat.le_refl _, hp⟩
  · intro hi
    by_contra hne
    exact hlast (h.adjacent p (p + 1) i hp hi.2 (by omega) (by omega))

/-- Nothing happens after the last macro. -/
theorem Arranged.plan_after (h : Arranged table nSymbols sectionId lib size)
    (hp : IsMacro table nSymbols sectionId p) (hlast : ¬ IsMacro table nSymbols sectionId (p + 1))
    (hknown : lib.known (table p).id = true)
    (hplan : Plan table sectionId lib size (nextPointer table sectionId p)
      ((table p).offset + macroPlaceholderSize) calls reads stop) :
    calls = [] ∧ reads = [] ∧ stop = size := by
  cases hptr : nextPointer table sectionId p with
  | none =>
    rw [hptr] at hplan
    cases hplan
    exact ⟨rfl, rfl, rfl⟩
  | some q =>
    obtain ⟨hq, howner⟩ := nextPointer_owner hptr
    have hafter := ((h.last p hp hlast).1 hknown).2
    rw [← hq] at hafter
    have hout : ¬ ((table p).offset + macroPlaceholderSize ≤ (table q).offset ∧
        (table q).offset < size) := by
      have := hafter howner
      omega
    rw [hptr] at hplan
    cases hplan with
    | rest hout => exact ⟨rfl, rfl, rfl⟩
    | function hin hid => exact absurd hin hout
    | unknown hin hid hunknown => exact absurd hin hout
    | expanded hin hid hknown hrest => exact absurd hin hout

/-- The plan of an arranged section expands all its macros and leaves no byte out. -/
theorem Arranged.plan (h : Arranged table nSymbols sectionId lib size)
    (hplan : Plan table sectionId lib size ptr src calls reads stop) (hptr : ptr = some p)
    (hp : IsMacro table nSymbols sectionId p) (hsrc : src ≤ (table p).offset) :
    (∀ i, i ∈ calls ↔ p ≤ i ∧ IsMacro table nSymbols sectionId i) ∧ (∀ i ∈ reads, i < nSymbols) ∧
      ∀ i, i < size → stop ≤ i → ∃ m ∈ calls, (table m).offset ≤ i ∧
        i < (table m).offset + macroPlaceholderSize := by
  induction hplan generalizing p with
  | rest hout => exact absurd ⟨hsrc, h.inside p hp⟩ (hout p hptr)
  | function hin hid =>
    cases hptr
    exact absurd hid hp.2.2
  | @unknown q src hin hid hunknown =>
    cases hptr
    have hlast : ¬ IsMacro table nSymbols sectionId (q + 1) := by
      intro hnext
      have := (h.spaced q hp hnext).2
      rw [hunknown] at this
      exact absurd this (by simp)
    have hend := (h.last q hp hlast).2 hunknown
    refine ⟨h.from_last hp hlast, fun i hi => absurd hi (by simp), fun i hi hstop => ?_⟩
    exact ⟨q, by simp, hstop, by omega⟩
  | @expanded q src calls reads stop hin hid hknown hrest ih =>
    cases hptr
    by_cases hnext : IsMacro table nSymbols sectionId (q + 1)
    · obtain ⟨hcalls, hreads, hcover⟩ := ih (if_pos hnext.2.1) hnext (h.spaced q hp hnext).1
      refine ⟨fun i => ?_, fun i hi => ?_, fun i hi hstop => ?_⟩
      · rw [List.mem_cons, hcalls]
        constructor
        · rintro (rfl | ⟨hle, hi⟩)
          · exact ⟨Nat.le_refl _, hp⟩
          · exact ⟨by omega, hi⟩
        · intro hi
          by_cases heq : i = q
          · exact Or.inl heq
          · exact Or.inr ⟨by omega, hi.2⟩
      · rcases List.mem_cons.mp hi with rfl | hi
        · exact hnext.1
        · exact hreads i hi
      · obtain ⟨m, hm, hin'⟩ := hcover i hi hstop
        exact ⟨m, List.mem_cons_of_mem _ hm, hin'⟩
    · obtain ⟨rfl, rfl, rfl⟩ := h.plan_after hp hnext hknown hrest
      refine ⟨h.from_last hp hnext, fun i hi => ?_, fun i hi hstop => by omega⟩
      rw [List.mem_singleton] at hi
      rw [hi]
      exact ((h.last q hp hnext).1 hknown).1

variable {code : Mem} {st st' : ExpandState}

/-- In an arranged section a plan from the first macro on is exact. -/
theorem Arranged.exact (h : Arranged table nSymbols sectionId lib size)
    (hplan : Plan table sectionId lib size (some p) 0 calls reads stop)
    (hfol : Follows table code st st' calls reads stop) (hptr : st.pointer = some p)
    (hsrc : st.srcCursor = 0) (hcalls : st.calls = []) (hreads : ∀ i ∈ st.reads, i < nSymbols)
    (hp : IsMacro table nSymbols sectionId p)
    (hfirst : ∀ i, IsMacro table nSymbols sectionId i → p ≤ i) :
    ExpandsExactly table nSymbols sectionId size code st' := by
  obtain ⟨hmem, hread, hcover⟩ := h.plan hplan rfl hp (Nat.zero_le _)
  have hcalled : st'.calls.map MacroCall.index = calls := by
    rw [hfol.called, hcalls]
    rfl
  have hall : ∀ i, i ∈ calls ↔ IsMacro table nSymbols sectionId i := by
    intro i
    rw [hmem]
    exact ⟨fun hi => hi.2, fun hi => ⟨hfirst i hi, hi⟩⟩
  have hrange := hplan.calls_eq rfl
  refine ⟨fun i hi => ?_, ?_, ?_, ?_, fun c hc => ?_, fun i hi hout => ?_⟩
  · rcases hfol.seen i hi with hin | heq | hin
    · exact hreads i hin
    · rw [hptr] at heq
      cases heq
      exact hp.1
    · exact hread i hin
  · rw [hcalled, hrange]
    exact List.nodup_range'
  · rw [hcalled]
    exact hall
  · rw [hcalled, hrange]
    refine List.Pairwise.imp_of_mem ?_ List.pairwise_lt_range'
    intro i j hi hj hij
    rw [← hrange] at hi hj
    have := (hplan.spaced hi hj hij).1
    omega
  · rcases hfol.position c hc with hold | hnew
    · rw [hcalls] at hold
      exact absurd hold (by simp)
    · exact hnew
  · have hin : ∀ m ∈ calls, ¬ ((table m).offset ≤ i ∧
        i < (table m).offset + macroPlaceholderSize) := fun m hm => hout m ((hall m).mp hm)
    have hstop : i < stop := by
      by_contra hge
      obtain ⟨m, hm, hplace⟩ := hcover i hi (by omega)
      exact hin m hm hplace
    rw [hfol.copied i hin, if_pos ⟨by omega, hstop⟩]

/-- An exact expansion from the first macro on, of a buffer that did not hold the code before,
shows that the section is arranged. -/
theorem ExpandsExactly.arranged (h : ExpandsExactly table nSymbols sectionId size code st')
    (hplan : Plan table sectionId lib size (some p) 0 calls reads stop)
    (hfol : Follows table code st st' calls reads stop) (hcalls : st.calls = [])
    (hdest : ∀ i, st.dest i ≠ code i) :
    Arranged table nSymbols sectionId lib size := by
  have hcalled : st'.calls.map MacroCall.index = calls := by
    rw [hfol.called, hcalls]
    rfl
  have hall : ∀ i, i ∈ calls ↔ IsMacro table nSymbols sectionId i := by
    intro i
    rw [← hcalled]
    exact h.macros i
  have hrange := hplan.calls_eq rfl
  have hmem : ∀ i, i ∈ calls ↔ p ≤ i ∧ i < p + calls.length := by
    intro i
    rw [hrange, List.mem_range']
    simp only [List.length_range']
    constructor
    · rintro ⟨k, hk, rfl⟩
      omega
    · intro hi
      exact ⟨i - p, by omega, by omega⟩
  -- a byte behind the last placeholder has been copied
  have hcopied : ∀ i m, m ∈ calls → m + 1 ∉ calls → i < size →
      (table m).offset + macroPlaceholderSize ≤ i → i < stop := by
    intro i m hm hlast hi hafter
    by_contra hge
    have hout : ∀ m' ∈ calls, ¬ ((table m').offset ≤ i ∧
        i < (table m').offset + macroPlaceholderSize) := by
      intro m' hm' hin
      have hle : m' ≤ m := by
        rw [hmem] at hm hm' hlast
        omega
      by_cases heq : m' = m
      · subst heq
        omega
      · have := (hplan.spaced hm' hm (by omega)).1
        omega
    have hbyte := h.bytes i hi fun m' hm' => hout m' ((hall m').mpr hm')
    rw [hfol.copied i hout, if_neg (by omega)] at hbyte
    exact hdest i hbyte
  refine ⟨?_, ?_, ?_, ?_⟩
  · intro i j k hi hk hij hjk
    rw [← hall, hmem] at hi hk ⊢
    omega
  · intro i hi
    exact (hplan.offset_bounds ((hall i).mpr hi)).2
  · intro i hi hnext
    exact hplan.spaced ((hall i).mpr hi) ((hall _).mpr hnext) (by omega)
  · intro i hi hlast
    rw [← hall] at hi hlast
    obtain ⟨hunknown, hfunction⟩ := hplan.stop_eq hi hlast
    refine ⟨fun hknown => ⟨?_, fun howner => ?_⟩, fun hknown => ?_⟩
    · exact h.reads _ (hfol.kept _ (List.mem_append_right _ (hplan.reads_next hi hknown)))
    · by_contra hbad
      rw [not_or, Nat.not_lt, Nat.not_le] at hbad
      have hstop := hfunction hknown howner hbad.1 hbad.2
      have := hcopied _ i hi hlast hbad.2 hbad.1
      omega
    · by_contra hbad
      have hstop := hunknown hknown
      have := hcopied ((table i).offset + macroPlaceholderSize) i hi hlast (by omega) (Nat.le_refl _)
      omega

theorem not_isMacro_of_calls (h : ExpandsExactly table nSymbols sectionId size code st)
    (hcalls : st.calls = []) (i : Nat) : ¬ IsMacro table nSymbols sectionId i := by
  rw [← h.macros, hcalls]
  simp

/-- Expansion is exact exactly for arranged sections. -/
theorem expandCode_exact_iff (hn : nSymbols ≠ 0) :
    (∀ dest, ExpandsExactly table nSymbols sectionId size code
        (expandCode lib table nSymbols sectionId code size dest).1) ↔
      size ≤ maxSectionSize ∧ Arranged table nSymbols sectionId lib size := by
  by_cases hsize : maxSectionSize < size
  · -- nothing is copied, although there is at least one byte
    refine ⟨fun h => ?_, fun h => by omega⟩
    have hexact := h fun i => code i + 1
    unfold expandCode at hexact
    rw [if_pos hsize] at hexact
    have hbyte := hexact.bytes 0 (by omega) fun m hm =>
      absurd hm (not_isMacro_of_calls hexact rfl m)
    exact absurd hbyte (by simp)
  rcases search_spec table sectionId hn with
    ⟨hnone, hno⟩ | ⟨p, hsome, hp, hfirst⟩
  · refine ⟨fun _ => ⟨by omega, ?_⟩, fun _ dest => ?_⟩
    · exact ⟨fun i _ _ hi => absurd hi (hno i), fun i hi => absurd hi (hno i),
        fun i hi => absurd hi (hno i), fun i hi => absurd hi (hno i)⟩
    · unfold expandCode
      rw [if_neg hsize, hnone]
      refine ⟨fun i hi => ?_, List.nodup_nil, fun i => ⟨fun hi => absurd hi (by simp),
        fun hi => absurd hi (hno i)⟩, List.Pairwise.nil, fun c hc => absurd hc (by simp),
        fun i hi _ => if_pos hi⟩
      have := mem_macrosFromReads hi
      omega
  · have hreads : ∀ i ∈ macrosFromReads table sectionId (nSymbols - 1) 0, i < nSymbols := by
      intro i hi
      have := mem_macrosFromReads hi
      omega
    have hloop : ∀ dest, ∃ calls reads stop,
        Plan table sectionId lib size (some p) 0 calls reads stop ∧
          Follows table code ⟨0, 0, 0, some p, dest,
              macrosFromReads table sectionId (nSymbols - 1) 0, []⟩
            (expandCode lib table nSymbols sectionId code size dest).1 calls reads stop := by
      intro dest
      unfold expandCode
      rw [if_neg hsize, hsome]
      have howner : ∀ q, (ExpandState.mk 0 0 0 (some p) dest
          (macrosFromReads table sectionId (nSymbols - 1) 0) []).pointer = some q →
          (table q).owner = sectionId := by
        intro q hq
        cases hq
        exact hp.2.1
      exact expandLoop_follows size (Nat.le_add_left _ _) rfl howner
    constructor
    · intro h
      obtain ⟨calls, reads, stop, hplan, hfol⟩ := hloop fun i => code i + 1
      exact ⟨by omega, (h _).arranged hplan hfol rfl fun i => by simp⟩
    · intro h dest
      obtain ⟨calls, reads, stop, hplan, hfol⟩ := hloop dest
      exact h.2.exact hplan hfol rfl rfl rfl hreads hp hfirst

end Exactness

/-- The size of the symbol table is that of its entries while a test case is received. -/
def TableSized (s : TcParser) : Prop :=
  s.isReceivingTestCase = true → s.symbolTableSize = tcSymbolEntrySize * s.nSymbols

section Acceptance

theorem allocSymbolTable_frame (env : CallEnv) (k : Nat) (s : TcParser) :
    (s.allocSymbolTable env k).1.symbolTableSize = s.symbolTableSize ∧
      (s.allocSymbolTable env k).1.isReceivingTestCase = s.isReceivingTestCase := by
  unfold TcParser.allocSymbolTable
  split
  · split
    · exact ⟨rfl, rfl⟩
    · exact ⟨rfl, rfl⟩
  · exact ⟨rfl, rfl⟩

theorem allocActorTables_frame (env : CallEnv) (k : Nat) (s : TcParser) :
    (s.allocActorTables env k).1.symbolTableSize = s.symbolTableSize ∧
      (s.allocActorTables env k).1.isReceivingTestCase = s.isReceivingTestCase := by
  unfold TcParser.allocActorTables
  dsimp only
  split
  · split
    · split
      · split
        · exact ⟨rfl, rfl⟩
        · exact ⟨rfl, rfl⟩
      · exact ⟨rfl, rfl⟩
    · exact ⟨rfl, rfl⟩
  · exact ⟨rfl, rfl⟩

/-- A header that is accepted sets the number of symbols and the size of their table. -/
theorem batchTcParsingStart_sized (env : CallEnv) (s : TcParser) (buf : WriteBuf) :
    (batchTcParsingStart env s buf).1.isReceivingTestCase = s.isReceivingTestCase ∧
      ((batchTcParsingStart env s buf).2 = 16 →
        (batchTcParsingStart env s buf).1.symbolTableSize =
          tcSymbolEntrySize * (batchTcParsingStart env s buf).1.nSymbols) := by
  have hio : ¬ (-eio : Int) = 16 := by decide
  have hmem : ¬ (-enomem : Int) = 16 := by decide
  unfold batchTcParsingStart
  dsimp only
  split
  · exact ⟨rfl, fun h => absurd h hmem⟩
  split
  · exact ⟨rfl, fun h => absurd h hio⟩
  split
  · exact ⟨rfl, fun h => absurd h hio⟩
  rename_i hmax
  have hsize : mul64 (buf.mem.word64 8) tcSymbolEntrySize =
      tcSymbolEntrySize * buf.mem.word64 8 := by
    unfold maxSymbols tcSymbolEntrySize at *
    rw [mul64_of_lt (by omega), Nat.mul_comm]
  generalize buf.mem.word64 8 = k at *
  generalize hs₁ : TcParser.setSizes _ (buf.mem.word64 0) k = s₁
  have hsize₁ : s₁.symbolTableSize = tcSymbolEntrySize * k := by
    rw [← hs₁, ← hsize]
    rfl
  have hrec₁ : s₁.isReceivingTestCase = s.isReceivingTestCase := by
    rw [← hs₁]
    rfl
  obtain ⟨hsym, hrec⟩ := allocSymbolTable_frame env k s₁
  cases h₁ : s₁.allocSymbolTable env k with
  | mk s₂ ok₂ =>
    rw [h₁] at hsym hrec
    cases ok₂ with
    | false => exact ⟨hrec.trans hrec₁, fun h => absurd h hmem⟩
    | true =>
      obtain ⟨hsym', hrec'⟩ := allocActorTables_frame env (buf.mem.word64 0) s₂
      dsimp only
      cases h₂ : s₂.allocActorTables env (buf.mem.word64 0) with
      | mk s₃ ok₃ =>
        rw [h₂] at hsym' hrec'
        cases ok₃ with
        | false => exact ⟨hrec'.trans (hrec.trans hrec₁), fun h => absurd h hmem⟩
        | true =>
          exact ⟨hrec'.trans (hrec.trans hrec₁), fun _ => hsym'.trans (hsym.trans hsize₁)⟩

theorem copySection_sized {s : TcParser} (h : s.symbolTableSize = tcSymbolEntrySize * s.nSymbols)
    (buf : WriteBuf) : (copySection s.enterSections buf).1.symbolTableSize =
      tcSymbolEntrySize * (copySection s.enterSections buf).1.nSymbols := by
  have henter : s.enterSections.symbolTableSize = tcSymbolEntrySize * s.enterSections.nSymbols := by
    unfold TcParser.enterSections
    split
    · exact h
    · exact h
  unfold copySection
  dsimp only
  split
  · exact henter
  · exact henter

/-- A call of the parser rejects its buffer, or comes to its end with a table of the right
size. -/
theorem parseTestCaseBuffer_sized {s : TcParser} (h : TableSized s) (env : CallEnv)
    (buf : WriteBuf) :
    ((parseTestCaseBuffer env s buf).2.finished = false ∧
        (parseTestCaseBuffer env s buf).1.isReceivingTestCase = false) ∨
      ∃ s₁ k, parseTestCaseBuffer env s buf = finishParsing env s₁ k buf.count ∧
        s₁.symbolTableSize = tcSymbolEntrySize * s₁.nSymbols := by
  cases hrec : s.isReceivingTestCase with
  | false =>
    obtain ⟨hr, hsize⟩ := batchTcParsingStart_sized env s buf
    cases hstart : batchTcParsingStart env s buf with
    | mk s' ret =>
      rw [hstart] at hr hsize
      rw [parse_header env buf hrec hstart]
      by_cases hret : ret = 16
      · rw [if_neg (not_not.mpr hret)]
        exact Or.inr ⟨_, _, rfl, hsize hret⟩
      · rw [if_pos hret]
        exact Or.inl ⟨rfl, hr.trans hrec⟩
  | true =>
    have hsize := h hrec
    by_cases hp₁ : s.cursor < s.actorTableEnd
    · rw [parse_actorTable env buf hrec hp₁]
      exact Or.inr ⟨_, _, rfl, hsize⟩
    by_cases hp₂ : s.cursor < s.symbolTableEnd
    · rw [parse_symbolTable env buf hrec hp₁ hp₂]
      exact Or.inr ⟨_, _, rfl, hsize⟩
    by_cases hp₃ : s.cursor < s.metadataEnd
    · rw [parse_metadata env buf hrec hp₁ hp₂ hp₃]
      exact Or.inr ⟨_, _, rfl, hsize⟩
    by_cases hover : maxSectionSize < s.sectionSize s.currSectionId
    · rw [parse_oversize env buf hrec ⟨hp₁, hp₂, hp₃⟩ hover]
      exact Or.inl ⟨rfl, rfl⟩
    · rw [parse_section env buf hrec ⟨hp₁, hp₂, hp₃⟩ hover]
      exact Or.inr ⟨_, _, rfl, copySection_sized hsize buf⟩

theorem finishParsing_frame (env : CallEnv) (s : TcParser) (k count : Nat) :
    (finishParsing env s k count).1.symbolTableSize = s.symbolTableSize ∧
      (finishParsing env s k count).1.nSymbols = s.nSymbols ∧
      (finishParsing env s k count).1.symbolTable = s.symbolTable := by
  by_cases hlt : s.currSectionId < s.nActors
  · rw [finishParsing_of_lt k count hlt]
    exact ⟨rfl, rfl, rfl⟩
  · obtain ⟨f, hfst, -⟩ := finishParsing_of_le env k count (Nat.not_lt.mp hlt)
    rw [hfst]
    exact ⟨rfl, rfl, rfl⟩

theorem writeStep_sized {s : TcParser} (h : TableSized s) (w : TcWrite) :
    TableSized (writeStep s w) := by
  intro hrec
  unfold writeStep at hrec ⊢
  rcases parseTestCaseBuffer_sized h w.env w.buf with ⟨-, hidle⟩ | ⟨s₁, k, heq, hsize⟩
  · rw [hidle] at hrec
    exact absurd hrec (by simp)
  · obtain ⟨hs, hn, -⟩ := finishParsing_frame w.env s₁ k w.buf.count
    rw [heq, hs, hn]
    exact hsize

/-- The final check of the parser asks for a main function. -/
theorem scanSymbols_nil {env : CallEnv} {s s' : TcParser} (h : batchTcParsingEnd env s = (s', 0)) :
    s.nSymbols ≠ 0 := by
  intro hz
  have hlist : s.symbolList = [] := by
    unfold TcParser.symbolList
    rw [hz]
    rfl
  unfold batchTcParsingEnd at h
  rw [hlist, scanSymbols] at h
  dsimp only at h
  rw [if_neg (by simp), if_pos (Or.inr rfl)] at h
  exact absurd (show (-1 : Int) = 0 from congrArg Prod.snd h) (by decide)

theorem finishParsing_accepted {env : CallEnv} {s : TcParser} {k count : Nat}
    (hfin : (finishParsing env s k count).2.finished = true)
    (hret : 0 ≤ (finishParsing env s k count).2.ret) : s.nSymbols ≠ 0 := by
  unfold finishParsing at hfin hret
  split at hfin
  · rename_i hdone
    rw [if_pos hdone] at hret
    dsimp only at hret
    cases hend : batchTcParsingEnd env { s with
      currSectionId := 0, currSectionStart := 0, currSectionEnd := 0,
      isReceivingTestCase := false } with
    | mk s' err =>
      rw [hend] at hret
      by_cases herr : err = 0
      · subst herr
        have hne := scanSymbols_nil hend
        exact hne
      · have hneg : (0 : Int) ≤ -1 := by
          split at hret
          · rename_i heq
            cases heq
            exact absurd rfl herr
          · exact hret
        omega
  · exact absurd hfin (by simp)

/-- For every test case that the parser accepts, after any history of writes, the expansion of a
section is exact if and only if the section is arranged. -/
theorem accepted_expandsExactly_iff (garbage : Mem) (ws : List TcWrite) (w : TcWrite)
    (lib : MacroLibrary) (sectionId : Nat) {s : TcParser} {r : ParseResult}
    (hparse : parseTestCaseBuffer w.env (runWrites (TcParser.init garbage) ws) w.buf = (s, r))
    (hfin : r.finished = true) (hret : 0 ≤ r.ret) :
    (∀ dest, ExpandsExactly s.symbolAt s.nSymbols sectionId (s.sectionSize sectionId)
        (s.sectionCode sectionId) (expandSection lib s sectionId dest).1) ↔
      s.sectionSize sectionId ≤ maxSectionSize ∧
        Arranged s.symbolAt s.nSymbols sectionId lib (s.sectionSize sectionId) := by
  have hsized : TableSized (runWrites (TcParser.init garbage) ws) := by
    have hinit : TableSized (TcParser.init garbage) := fun h => absurd h (by simp [TcParser.init])
    exact @run_inv _ _ writeStep TableSized (fun _ w hs => writeStep_sized hs w) _ hinit ws
  rcases parseTestCaseBuffer_sized hsized w.env w.buf with ⟨hno, -⟩ | ⟨s₁, k, heq, hsize⟩
  · rw [hparse] at hno
    exact absurd (hfin.symm.trans hno) (by simp)
  · rw [hparse] at heq
    obtain ⟨hs, hn, -⟩ := finishParsing_frame w.env s₁ k w.buf.count
    have hacc := @finishParsing_accepted w.env s₁ k w.buf.count
    rw [← heq] at hs hn hacc
    have hne := hacc hfin hret
    have hentries : s.tableEntries = s.nSymbols := by
      unfold TcParser.tableEntries
      rw [hs, hsize, hn]
      exact Nat.mul_div_cancel_left _ (by decide)
    unfold expandSection
    rw [hentries]
    exact expandCode_exact_iff (by rw [hn]; exact hne)

end Acceptance

section Samples

/-- The tables of a test case with one actor, three symbols and 24 bytes of code. -/
def sampleTables (symbols : List Nat) : List TcWrite :=
  [sampleWrite (encodeWords [1, 3]), sampleWrite (encodeWords (List.replicate 6 0)),
    sampleWrite (encodeWords symbols), sampleWrite (encodeWords [0, 24, 0])]

/-- The code of the test case. -/
def sampleCode : TcWrite := sampleWrite (List.replicate 24 0x90)

/-- The last call of the parser. -/
def sampleParsed (symbols : List Nat) : TcParser × ParseResult :=
  parseTestCaseBuffer sampleCode.env (runWrites (TcParser.init fun _ => 0) (sampleTables symbols))
    sampleCode.buf

def sampleLibrary : MacroLibrary := ⟨fun _ => true, fun _ _ _ => Vector.replicate 8 0, fun _ => 16⟩

/-- The two measurement macros, followed by the main function. -/
def sampleFunctionLast : List Nat := [0, 0, 1, 0, 0, 8, 2, 0, 0, 0, 0, 0]

/-- The main function, followed by the two measurement macros. -/
def sampleMacroLast : List Nat := [0, 0, 0, 0, 0, 0, 1, 0, 0, 8, 2, 0]

theorem sampleFunctionLast_arranged :
    (sampleParsed sampleFunctionLast).1.sectionSize 0 ≤ maxSectionSize ∧
      Arranged (sampleParsed sampleFunctionLast).1.symbolAt
        (sampleParsed sampleFunctionLast).1.nSymbols 0 sampleLibrary
        ((sampleParsed sampleFunctionLast).1.sectionSize 0) := by
  have hvals : (sampleParsed sampleFunctionLast).1.sectionSize 0 = 24 ∧
      (sampleParsed sampleFunctionLast).1.nSymbols = 3 ∧
      (sampleParsed sampleFunctionLast).1.symbolAt 0 = ⟨0, 0, 1, 0⟩ ∧
      (sampleParsed sampleFunctionLast).1.symbolAt 1 = ⟨0, 8, 2, 0⟩ ∧
      (sampleParsed sampleFunctionLast).1.symbolAt 2 = ⟨0, 0, 0, 0⟩ := by decide +kernel
  obtain ⟨hsize, hn, h0, h1, h2⟩ := hvals
  generalize (sampleParsed sampleFunctionLast).1.symbolAt = table at *
  rw [hsize, hn]
  have hmac : ∀ i, IsMacro table 3 0 i → i = 0 ∨ i = 1 := by
    intro i hi
    have hlt := hi.1
    by_cases htwo : i = 2
    · have hid := hi.2.2
      rw [htwo, h2] at hid
      exact absurd rfl hid
    · omega
  have hm0 : IsMacro table 3 0 0 := ⟨by decide, by rw [h0], by rw [h0]; decide⟩
  have hm1 : IsMacro table 3 0 1 := ⟨by decide, by rw [h1], by rw [h1]; decide⟩
  refine ⟨by decide, ?_, ?_, ?_, ?_⟩
  · intro i j k hi hk hij hjk
    have := hmac k hk
    by_cases hz : j = 0
    · rw [hz]
      exact hm0
    · rw [show j = 1 by omega]
      exact hm1
  · intro i hi
    rcases hmac i hi with rfl | rfl
    · rw [h0]
      decide
    · rw [h1]
      decide
  · intro i hi hnext
    rcases hmac i hi with rfl | rfl
    · rw [h0, h1]
      decide
    · have := hmac _ hnext
      omega
  · intro i hi hlast
    rcases hmac i hi with rfl | rfl
    · exact absurd hm1 hlast
    · refine ⟨fun _ => ⟨by decide, fun _ => Or.inl ?_⟩, fun h => absurd h (show true ≠ false by decide)⟩
      rw [h1, h2]
      decide

theorem accepted_expandsExactly_sample :
    ExpandsExactly (sampleParsed sampleFunctionLast).1.symbolAt
      (sampleParsed sampleFunctionLast).1.nSymbols 0
      ((sampleParsed sampleFunctionLast).1.sectionSize 0)
      ((sampleParsed sampleFunctionLast).1.sectionCode 0)
      (expandSection sampleLibrary (sampleParsed sampleFunctionLast).1 0 fun _ => 0).1 := by
  have hacc : (sampleParsed sampleFunctionLast).2.finished = true ∧
      0 ≤ (sampleParsed sampleFunctionLast).2.ret := by decide +kernel
  exact (accepted_expandsExactly_iff (fun _ => 0) (sampleTables sampleFunctionLast) sampleCode
    sampleLibrary 0 rfl hacc.1 hacc.2).mpr sampleFunctionLast_arranged _

/-- When the last entry of the table is a macro, the expander reads the entry behind the table. -/
theorem sampleMacroLast_not_exact :
    (sampleParsed sampleMacroLast).2.finished = true ∧ 0 ≤ (sampleParsed sampleMacroLast).2.ret ∧
      ¬ ExpandsExactly (sampleParsed sampleMacroLast).1.symbolAt
        (sampleParsed sampleMacroLast).1.nSymbols 0
        ((sampleParsed sampleMacroLast).1.sectionSize 0)
        ((sampleParsed sampleMacroLast).1.sectionCode 0)
        (expandSection sampleLibrary (sampleParsed sampleMacroLast).1 0 fun _ => 0).1 := by
  have hvals : (sampleParsed sampleMacroLast).2.finished = true ∧
      0 ≤ (sampleParsed sampleMacroLast).2.ret ∧ (sampleParsed sampleMacroLast).1.nSymbols = 3 ∧
      3 ∈ (expandSection sampleLibrary (sampleParsed sampleMacroLast).1 0 fun _ => 0).1.reads := by
    decide +kernel
  refine ⟨hvals.1, hvals.2.1, fun h => ?_⟩
  have hlt := h.reads 3 hvals.2.2.2
  rw [hvals.2.2.1] at hlt
  exact absurd hlt (by decide)

end Samples

end Rvzr.Km
