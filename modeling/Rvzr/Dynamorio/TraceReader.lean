import Rvzr.Dynamorio.TraceFile

/-!
`_TraceReader` of model_dynamorio/model.py: raw traces become contract traces, and the entries of
the return instruction that the adapter appends to the test case are removed.

The reader does not know which entries belong to the return instruction: it goes by the values of
the last entries. `Observed` carries the truth about every entry beside the entry, and
`decodeTraces_iff` says on which traces the two agree.
-/

namespace Rvzr.Dynamorio

open Rvzr.Lib

/-- `CTraceEntry`, for the types that the reader makes. -/
inductive CTraceEntry where
  | mem (value : Int)
  | pc (value : Int)
  | ind (value : Int)
  deriving Repr, DecidableEq

/-- The bases of the `SandboxLayout`. -/
structure Layout where
  dataStart : Int
  codeStart : Int

/-- The exceptions of the reader: those of the decoder, and an index out of range. -/
inductive ReadError where
  | decode (e : DecodeError)
  | index
  deriving Repr, DecidableEq

/-- One step of `_raw_to_ctrace`. -/
def Layout.convert (layout : Layout) (e : TraceEntry) : Option CTraceEntry :=
  match e.type with
  | .read | .write => some (.mem (e.addr.toNat - layout.dataStart))
  | .pc => some (.pc (e.addr.toNat - layout.codeStart))
  | .ind => some (.ind (e.addr.toNat - layout.codeStart))
  | .eot | .exception => none

/-- `_raw_to_ctrace`. -/
def Layout.rawToCtrace (layout : Layout) (raw : List TraceEntry) : List CTraceEntry :=
  raw.filterMap layout.convert

/-- `entry_list[-1]`. -/
def lastEntry (l : List CTraceEntry) : Except ReadError CTraceEntry :=
  match l.getLast? with
  | none => .error .index
  | some e => .ok e

/-- The entries that the filter of `_trim_traces` removes. -/
def matchesReturn (lastMem lastPc : Option Int) : CTraceEntry → Bool
  | .pc v => lastPc == some v
  | .mem v => lastMem == some v
  | .ind _ => false

/-- The body of the loop of `_trim_traces`. -/
def trimTrace (entries : List CTraceEntry) : Except ReadError (List CTraceEntry) := do
  let (lastMem, entries) ← match ← lastEntry entries with
    | .mem v => pure (some v, entries.dropLast)
    | _ => pure (none, entries)
  let (lastPc, entries) ← match ← lastEntry entries with
    | .pc v => pure (some v, entries.dropLast)
    | _ => pure (none, entries)
  return entries.filter fun e => !matchesReturn lastMem lastPc e

/-- `_trim_traces`. -/
def trimTraces : List (List CTraceEntry) → Except ReadError (List (List CTraceEntry))
  | [] => .ok []
  | t :: ts => do
    let t ← trimTrace t
    return t :: (← trimTraces ts)

/-- `decode_traces`. A trace without entries is false in a condition, and is left out. -/
def decodeTraces (layout : Layout) (file : List UInt8) :
    Except ReadError (List (List CTraceEntry)) :=
  match decodeTraceFile file with
  | .error e => .error (.decode e)
  | .ok raws => trimTraces ((raws.map layout.rawToCtrace).filter fun t => t.length ≠ 0)

/-! ### The truth about the entries -/

/-- A raw entry, and whether an execution of the appended return instruction made it. -/
structure Observed where
  entry : TraceEntry
  ofReturn : Bool

/-- The trace as it should be: without the entries of the return instruction, and converted. -/
def expected (layout : Layout) (t : List Observed) : List CTraceEntry :=
  layout.rawToCtrace ((t.filter fun o => !o.ofReturn).map Observed.entry)

/-- The converted entries with what is known about them. -/
def convertedEntries (layout : Layout) (t : List Observed) : List (CTraceEntry × Bool) :=
  t.filterMap fun o => (layout.convert o.entry).map fun e => (e, o.ofReturn)

/-- What the reader takes for entries of the return instruction: those with the values of the
memory access that ends the trace and of the program counter before it or at the end. -/
def looksLikeReturn (entries : List CTraceEntry) : CTraceEntry → Bool :=
  match entries.reverse with
  | .mem m :: .pc p :: _ => matchesReturn (some m) (some p)
  | .mem m :: _ => matchesReturn (some m) none
  | .pc p :: _ => matchesReturn none (some p)
  | _ => fun _ => false

/-- The trace has an entry that can be converted, is not a single memory access, and the entries
of the return instruction are those that look like it. -/
structure Recognised (layout : Layout) (t : List Observed) : Prop where
  ne_nil : convertedEntries layout t ≠ []
  ne_single : ∀ m ret, convertedEntries layout t ≠ [(.mem m, ret)]
  ofReturn_eq : ∀ x ∈ convertedEntries layout t,
    x.2 = looksLikeReturn ((convertedEntries layout t).map Prod.fst) x.1

/-! ### Trimming -/

theorem trimTrace_single (m : Int) : trimTrace [.mem m] = .error .index := rfl

/-- On any other trace with an entry, trimming removes what looks like the return instruction. -/
theorem trimTrace_eq (l : List CTraceEntry) (hne : l ≠ []) (hsingle : ∀ m, l ≠ [.mem m]) :
    trimTrace l = .ok (l.filter fun e => !looksLikeReturn l e) := by
  obtain ⟨l', last, rfl⟩ : ∃ l' last, l = l' ++ [last] :=
    ⟨l.dropLast, l.getLast hne, (List.dropLast_append_getLast hne).symm⟩
  cases last with
  | mem m =>
    have hnil : l' ≠ [] := by
      intro h
      subst h
      exact hsingle m rfl
    obtain ⟨l'', e, rfl⟩ : ∃ l'' e, l' = l'' ++ [e] :=
      ⟨l'.dropLast, l'.getLast hnil, (List.dropLast_append_getLast hnil).symm⟩
    cases e with
    | mem v => simp [trimTrace, lastEntry, looksLikeReturn, matchesReturn, bind, Except.bind, pure,
        Except.pure, List.filter_append, List.filter_cons]
    | pc p => simp [trimTrace, lastEntry, looksLikeReturn, matchesReturn, bind, Except.bind, pure,
        Except.pure, List.filter_append]
    | ind v => simp [trimTrace, lastEntry, looksLikeReturn, matchesReturn, bind, Except.bind, pure,
        Except.pure, List.filter_append]
  | pc p => simp [trimTrace, lastEntry, looksLikeReturn, matchesReturn, bind, Except.bind, pure,
      Except.pure, List.filter_append]
  | ind v =>
    -- nothing of the return instruction is found, and nothing is removed
    have hnone : ∀ e, matchesReturn none none e = false := by
      intro e
      cases e <;> rfl
    simp [trimTrace, lastEntry, looksLikeReturn, hnone, bind, Except.bind, pure, Except.pure]

/-- A filter by value removes what the marks say exactly if every mark is given by the value. -/
theorem filter_values_iff {α : Type} (keep : α → Bool) (c : List (α × Bool)) :
    (c.map Prod.fst).filter keep = (c.filter fun x => !x.2).map Prod.fst ↔
      ∀ x ∈ c, x.2 = !keep x.1 := by
  have hmap : (c.map Prod.fst).filter keep = (c.filter fun x => keep x.1).map Prod.fst := by
    rw [List.filter_map]
    rfl
  constructor
  · intro h
    rw [hmap] at h
    have hkept : ∀ x ∈ c, x.2 = false → keep x.1 = true := by
      intro x hx hfalse
      have hmem : x.1 ∈ (c.filter fun x => !x.2).map Prod.fst :=
        List.mem_map_of_mem (List.mem_filter.2 ⟨hx, by simp [hfalse]⟩)
      rw [← h, List.mem_map] at hmem
      obtain ⟨y, hy, heq⟩ := hmem
      rw [← heq]
      exact (List.mem_filter.1 hy).2
    -- what the marks keep is a sublist of what the values keep, of the same length
    have hsub : (c.filter fun x => !x.2).Sublist (c.filter fun x => keep x.1) := by
      have heq : (c.filter fun x => !x.2) = (c.filter fun x => keep x.1).filter fun x => !x.2 := by
        rw [List.filter_filter]
        apply List.filter_congr
        intro x hx
        cases hx2 : x.2 with
        | false => simp [hkept x hx hx2]
        | true => simp
      rw [heq]
      exact List.filter_sublist
    have hlen := congrArg List.length h
    rw [List.length_map, List.length_map] at hlen
    have hsame := hsub.eq_of_length hlen.symm
    intro x hx
    cases hkeep : keep x.1 with
    | false =>
      cases hx2 : x.2 with
      | false => simp [hkept x hx hx2] at hkeep
      | true => rfl
    | true =>
      have hmem : x ∈ c.filter fun x => !x.2 := by
        rw [hsame]
        exact List.mem_filter.2 ⟨hx, hkeep⟩
      simpa using (List.mem_filter.1 hmem).2
  · intro h
    rw [hmap]
    congr 1
    apply List.filter_congr
    intro x hx
    rw [h x hx, Bool.not_not]

variable {layout : Layout}

theorem rawToCtrace_eq (t : List Observed) :
    layout.rawToCtrace (t.map Observed.entry) = (convertedEntries layout t).map Prod.fst := by
  induction t with
  | nil => rfl
  | cons o t ih =>
    simp only [Layout.rawToCtrace, convertedEntries, List.map_cons, List.filterMap_cons] at ih ⊢
    cases layout.convert o.entry with
    | none => exact ih
    | some e => simp [ih]

theorem expected_eq (t : List Observed) :
    expected layout t = ((convertedEntries layout t).filter fun x => !x.2).map Prod.fst := by
  induction t with
  | nil => rfl
  | cons o t ih =>
    simp only [expected, Layout.rawToCtrace, convertedEntries, List.filter_cons,
      List.filterMap_cons] at ih ⊢
    cases hret : o.ofReturn with
    | true =>
      cases layout.convert o.entry with
      | none => simpa [hret] using ih
      | some e => simpa [hret] using ih
    | false =>
      cases hc : layout.convert o.entry with
      | none => simpa [hret, hc] using ih
      | some e => simpa [hret, hc] using ih

/-- One trace that is kept is trimmed to what it should be exactly if its entries are
recognised. -/
theorem trimTrace_iff (t : List Observed) (hne : convertedEntries layout t ≠ []) :
    trimTrace (layout.rawToCtrace (t.map Observed.entry)) = .ok (expected layout t) ↔
      Recognised layout t := by
  rw [rawToCtrace_eq, expected_eq]
  by_cases hsingle : ∃ m, (convertedEntries layout t).map Prod.fst = [CTraceEntry.mem m]
  · cases hsingle with
    | intro m hm =>
      rw [hm, trimTrace_single]
      constructor
      · intro h
        cases h
      · intro h
        obtain ⟨x, hx, hfst⟩ := List.map_eq_singleton_iff.1 hm
        exact absurd (hx.trans (by rw [← hfst])) (h.ne_single m x.2)
  · rw [trimTrace_eq _ (by simpa using hne) (fun m hm => hsingle ⟨m, hm⟩), Except.ok.injEq,
      filter_values_iff]
    simp only [Bool.not_not]
    constructor
    · intro h
      exact ⟨hne, fun m ret heq => hsingle ⟨m, by rw [heq]; rfl⟩, h⟩
    · intro h
      exact h.ofReturn_eq

theorem trimTraces_length {ts ts' : List (List CTraceEntry)} (h : trimTraces ts = .ok ts') :
    ts'.length = ts.length := by
  induction ts generalizing ts' with
  | nil =>
    cases h
    rfl
  | cons t ts ih =>
    simp only [trimTraces, bind, Except.bind, pure, Except.pure] at h
    cases ht : trimTrace t with
    | error e => simp [ht] at h
    | ok t' =>
      cases hts : trimTraces ts with
      | error e => simp [ht, hts] at h
      | ok ts'' =>
        simp only [ht, hts, Except.ok.injEq] at h
        rw [← h, List.length_cons, List.length_cons, ih hts]

theorem trimTraces_cons_iff (t t' : List CTraceEntry) (ts ts' : List (List CTraceEntry)) :
    trimTraces (t :: ts) = .ok (t' :: ts') ↔ trimTrace t = .ok t' ∧ trimTraces ts = .ok ts' := by
  simp only [trimTraces, bind, Except.bind, pure, Except.pure]
  cases trimTrace t with
  | error e => simp
  | ok x =>
    cases trimTraces ts with
    | error e => simp
    | ok xs => simp

theorem trimTraces_iff (ts : List (List Observed)) :
    trimTraces (((ts.map fun t => t.map Observed.entry).map layout.rawToCtrace).filter
      fun t => t.length ≠ 0) = .ok (ts.map (expected layout)) ↔ ∀ t ∈ ts, Recognised layout t := by
  induction ts with
  | nil => simp [trimTraces]
  | cons t ts ih =>
    rw [List.map_cons, List.map_cons, List.map_cons, List.filter_cons, List.forall_mem_cons]
    by_cases hne : convertedEntries layout t = []
    · -- a trace that is left out makes the result too short
      have hnil : layout.rawToCtrace (t.map Observed.entry) = [] := by
        rw [rawToCtrace_eq, hne]
        rfl
      have hdropped : ¬ decide ((layout.rawToCtrace (t.map Observed.entry)).length ≠ 0) = true := by
        simp [hnil]
      rw [if_neg hdropped]
      constructor
      · intro h
        have hlen := trimTraces_length h
        have hle := List.length_filter_le (fun t : List CTraceEntry => decide (t.length ≠ 0))
          ((ts.map fun t => t.map Observed.entry).map layout.rawToCtrace)
        simp only [List.length_cons, List.length_map] at hlen hle
        omega
      · intro h
        exact absurd hne h.1.ne_nil
    · have hkept : decide ((layout.rawToCtrace (t.map Observed.entry)).length ≠ 0) = true := by
        simpa [rawToCtrace_eq] using hne
      rw [if_pos hkept, trimTraces_cons_iff, trimTrace_iff t hne, ih]

/-- The contract traces are the raw ones without the entries of the return instruction, one for
each and in the same order, exactly if every trace is recognised. -/
theorem decodeTraces_iff (layout : Layout) (file : List UInt8) (ts : List (List Observed))
    (h : decodeTraceFile file = .ok (ts.map fun t => t.map Observed.entry)) :
    decodeTraces layout file = .ok (ts.map (expected layout)) ↔ ∀ t ∈ ts, Recognised layout t := by
  rw [decodeTraces, h]
  exact trimTraces_iff ts

def sampleLayout : Layout := ⟨0x7000, 0x1000⟩

def sampleEntry (type : TraceEntryType) (addr : UInt64) : TraceEntry :=
  ⟨addr, 8, type, Vector.replicate 3 0⟩

/-- An instruction that loads from the given address, and the return instruction, which loads from
the top of the stack. -/
def loadThenReturn (addr : UInt64) : List Observed :=
  [⟨sampleEntry .pc 0x1000, false⟩, ⟨sampleEntry .read addr, false⟩,
    ⟨sampleEntry .pc 0x1004, true⟩, ⟨sampleEntry .read 0x7ff8, true⟩, ⟨sampleEot, false⟩]

/-- The file that the backend writes for one trace. -/
def fileOf (t : List Observed) : List UInt8 :=
  FileBackedBuf.written traceKind (t.map fun o => .pushBack o.entry)

theorem decodeTraces_loadThenReturn :
    decodeTraces sampleLayout (fileOf (loadThenReturn 0x7000)) =
      .ok [expected sampleLayout (loadThenReturn 0x7000)] := by
  refine (decodeTraces_iff sampleLayout _ [loadThenReturn 0x7000] (by decide +kernel)).2 ?_
  intro t ht
  rw [List.mem_singleton.1 ht]
  refine ⟨by decide +kernel, ?_, by decide +kernel⟩
  intro m ret h
  have hlen : (convertedEntries sampleLayout (loadThenReturn 0x7000)).length = 4 := by decide +kernel
  rw [h, List.length_singleton] at hlen
  omega

/-- The test case reads the top of the stack itself: its access is removed with that of the return
instruction. -/
theorem decodeTraces_loses_access :
    decodeTraceFile (fileOf (loadThenReturn 0x7ff8)) =
        .ok [(loadThenReturn 0x7ff8).map Observed.entry] ∧
      decodeTraces sampleLayout (fileOf (loadThenReturn 0x7ff8)) = .ok [[.pc 0]] ∧
      expected sampleLayout (loadThenReturn 0x7ff8) = [.pc 0, .mem 0xff8] := by
  decide +kernel

end Rvzr.Dynamorio
