import Rvzr.Dynamorio.TraceFile

/-!
`TraceDecoder.is_trace_corrupted` of trace_decoder.py beside the decoder. The check decodes the last
bytes of the file only, as many as an entry has; `decodesFully_iff` says what a file has to be
besides for the decoder to agree.
-/

namespace Rvzr.Dynamorio

open Rvzr.Lib

variable {α : Type} {k : Kind α}

/-- The part of `is_trace_corrupted` for one type of entries. -/
def lastEntryCorrupted (k : Kind α) (bs : List UInt8) : Except DecodeError Bool :=
  if bs.length < k.record.size then .ok true
  else
    match k.record.decode (bs.drop (bs.length - k.record.size)) with
    | none => .error .value
    | some entry => .ok (!k.isEot entry)

/-- `is_trace_corrupted` of a file, if it exists. -/
def isTraceCorrupted (file : Option (List UInt8)) : Except DecodeError Bool :=
  match file with
  | none => .ok true
  | some bs =>
    if bs.length = 0 then .ok true
    else
      match readTraceMarker bs with
      | .error e => .error e
      | .ok (none, _) => .ok true
      | .ok (some marker, _) =>
        if marker = 0x54 then lastEntryCorrupted traceKind bs
        else lastEntryCorrupted debugTraceKind bs

/-- The file is decoded without an exception into traces, at least one, and the bytes after the
header are those of the decoded entries. -/
def ReadsFully (k : Kind α) (bs : List UInt8) : Prop :=
  ∃ traces, decodeFile k bs = .ok traces ∧ traces ≠ [] ∧
    (bs.drop 8).length = traces.flatten.length * k.record.size

/-- Behind the header are complete entries, at least one, and each has a known type. -/
def HoldsEntries (k : Kind α) (bs : List UInt8) : Prop :=
  (∃ n, (bs.drop 8).length = (n + 1) * k.record.size) ∧
    ∀ c ∈ completeChunks k.record.size (bs.drop 8), k.record.decode c ≠ none

/-- The decoder that belongs to the marker reads the whole file. -/
def DecodesFully (bs : List UInt8) : Prop :=
  if bs.head? = some 0x54 then ReadsFully traceKind bs else ReadsFully debugTraceKind bs

def KnownEntries (bs : List UInt8) : Prop :=
  if bs.head? = some 0x54 then HoldsEntries traceKind bs else HoldsEntries debugTraceKind bs

theorem readTraceMarker_marker {b : UInt8} (hb : b = 0x54 ∨ b = 0x44) (rest : List UInt8) :
    readTraceMarker (b :: rest) = .ok (some b, rest.drop 7) := by
  unfold readTraceMarker
  rcases hb with rfl | rfl
  · rfl
  · rfl

/-- What the decoder does with the bytes behind the header. -/
theorem decodeFile_marker (hk : k.marker = 0x54 ∨ k.marker = 0x44) (rest : List UInt8)
    (traces : List (List α)) :
    decodeFile k (k.marker :: rest) = .ok traces ↔
      readGroups k.record k.isEot [] (completeChunks k.record.size (rest.drop 7)) = .ok traces := by
  unfold decodeFile
  rw [readTraceMarker_marker hk]
  simp only [bind, Except.bind, ne_eq, not_true_eq_false, if_false]
  cases readGroups k.record k.isEot [] (completeChunks k.record.size (rest.drop 7)) with
  | ok gs => simp [pure, Except.pure]
  | error e => simp [throw, throwThe, MonadExceptOf.throw]

theorem lastEntryCorrupted_iff (bs : List UInt8) :
    lastEntryCorrupted k bs = .ok false ↔ k.record.size ≤ bs.length ∧
      ∃ last, k.record.decode (bs.drop (bs.length - k.record.size)) = some last ∧
        k.isEot last = true := by
  unfold lastEntryCorrupted
  by_cases hlt : bs.length < k.record.size
  · rw [if_pos hlt]
    simp [Nat.not_le.2 hlt]
  · rw [if_neg hlt]
    cases hdec : k.record.decode (bs.drop (bs.length - k.record.size)) with
    | none => simp
    | some entry => simp [Nat.not_lt.1 hlt]

/-- In a file of complete entries the check decodes the last entry. -/
theorem lastEntry_of_aligned {bs : List UInt8} {n : Nat}
    (hlen : (bs.drop 8).length = (n + 1) * k.record.size) :
    k.record.size ≤ bs.length ∧ (completeChunks k.record.size (bs.drop 8)).getLast? =
      some (bs.drop (bs.length - k.record.size)) := by
  have hpos := k.record.size_pos
  have hsize : k.record.size ≤ (bs.drop 8).length := by
    rw [hlen, Nat.succ_mul]
    omega
  rw [List.length_drop] at hsize
  refine ⟨by omega, ?_⟩
  rw [getLast?_completeChunks hpos hlen, List.drop_drop, List.length_drop]
  have hstart : 8 + (bs.length - 8 - k.record.size) = bs.length - k.record.size := by omega
  rw [hstart]

section Entries

variable {bs : List UInt8}

/-- A file that is read as a whole consists of known entries, and the last of them ends a trace. -/
theorem entries_of_read {traces : List (List α)}
    (hread : readGroups k.record k.isEot [] (completeChunks k.record.size (bs.drop 8)) = .ok traces)
    (hne : traces ≠ []) (hlen : (bs.drop 8).length = traces.flatten.length * k.record.size) :
    lastEntryCorrupted k bs = .ok false ∧ HoldsEntries k bs := by
  obtain ⟨as, hdec, hflat, -, hlast⟩ := readGroups_ok hread
  rw [List.nil_append] at hflat
  have hcount : (completeChunks k.record.size (bs.drop 8)).length = as.length := by
    simpa using congrArg List.length hdec
  cases has : as.getLast? with
  | none =>
    -- without an entry there is no trace
    have hnil : completeChunks k.record.size (bs.drop 8) = [] := by
      rw [← List.length_eq_zero_iff, hcount, List.getLast?_eq_none_iff.1 has, List.length_nil]
    rw [hnil, readGroups, if_pos rfl] at hread
    cases hread
    exact absurd rfl hne
  | some last =>
    have hpos : 0 < as.length := List.length_pos_of_ne_nil fun h => by simp [h] at has
    have hlen' : (bs.drop 8).length = (as.length - 1 + 1) * k.record.size := by
      rw [hlen, hflat, Nat.sub_add_cancel hpos]
    obtain ⟨hsize, hwindow⟩ := lastEntry_of_aligned hlen'
    have hdecode : k.record.decode (bs.drop (bs.length - k.record.size)) = some last := by
      have hmap := congrArg List.getLast? hdec
      rw [List.getLast?_map, List.getLast?_map, hwindow, has] at hmap
      simpa using hmap
    refine ⟨(lastEntryCorrupted_iff bs).2 ⟨hsize, last, hdecode, hlast last has⟩, ⟨_, hlen'⟩, ?_⟩
    intro c hc
    have hmem : k.record.decode c ∈ as.map some := hdec ▸ List.mem_map_of_mem hc
    obtain ⟨a, -, ha⟩ := List.mem_map.1 hmem
    rw [← ha]
    exact Option.some_ne_none a

/-- Known entries are read as a whole, if the last of them ends a trace. -/
theorem read_of_entries (hcheck : lastEntryCorrupted k bs = .ok false) (h : HoldsEntries k bs) :
    ∃ traces, readGroups k.record k.isEot [] (completeChunks k.record.size (bs.drop 8)) =
        .ok traces ∧ traces ≠ [] ∧
      (bs.drop 8).length = traces.flatten.length * k.record.size := by
  obtain ⟨-, last, hdecode, hend⟩ := (lastEntryCorrupted_iff bs).1 hcheck
  obtain ⟨⟨n, hlen⟩, hknown⟩ := h
  obtain ⟨-, hwindow⟩ := lastEntry_of_aligned hlen
  obtain ⟨as, hdec⟩ := exists_map_some hknown
  have has : as.getLast? = some last := by
    have hmap := congrArg List.getLast? hdec
    rw [List.getLast?_map, List.getLast?_map, hwindow] at hmap
    cases hlast : as.getLast? with
    | none => simp [hlast] at hmap
    | some a => simpa [hlast, hdecode, eq_comm] using hmap
  obtain ⟨traces, hread⟩ : ∃ traces, readGroups k.record k.isEot []
      (completeChunks k.record.size (bs.drop 8)) = .ok traces :=
    readGroups_of_decodes hdec has hend
  obtain ⟨as', hdec', hflat, -, -⟩ := readGroups_ok hread
  have hsame : as' = as :=
    (List.map_inj_right fun _ _ => Option.some.inj).1 (hdec'.symm.trans hdec)
  rw [List.nil_append, hsame] at hflat
  have hcount : as.length = n + 1 := by
    rw [← List.length_map (f := some), ← hdec, List.length_map, length_completeChunks, hlen,
      Nat.mul_div_cancel _ k.record.size_pos]
  refine ⟨traces, hread, ?_, ?_⟩
  · rintro rfl
    rw [← hflat] at hcount
    simp at hcount
  · rw [hlen, hflat, hcount]

end Entries

/-- The decoder reads the whole file if the check of the last entry passes and all entries are
known. -/
theorem readsFully_iff (hk : k.marker = 0x54 ∨ k.marker = 0x44) (rest : List UInt8) :
    ReadsFully k (k.marker :: rest) ↔
      lastEntryCorrupted k (k.marker :: rest) = .ok false ∧ HoldsEntries k (k.marker :: rest) := by
  constructor
  · rintro ⟨traces, hread, hne, hlen⟩
    exact entries_of_read ((decodeFile_marker hk rest traces).1 hread) hne hlen
  · rintro ⟨hcheck, hknown⟩
    obtain ⟨traces, hread, hne, hlen⟩ := read_of_entries hcheck hknown
    exact ⟨traces, (decodeFile_marker hk rest traces).2 hread, hne, hlen⟩

/-- The file is decoded as a whole exactly if the check finds no corruption and the file consists of
the header and complete entries of known types. -/
theorem decodesFully_iff (bs : List UInt8) (hmarker : bs.head? = some 0x54 ∨ bs.head? = some 0x44) :
    DecodesFully bs ↔ isTraceCorrupted (some bs) = .ok false ∧ KnownEntries bs := by
  cases bs with
  | nil => simp at hmarker
  | cons b rest =>
    simp only [List.head?_cons, Option.some.injEq] at hmarker
    have hne : ¬ (b :: rest).length = 0 := by simp
    unfold DecodesFully KnownEntries isTraceCorrupted
    dsimp only
    rw [if_neg hne, readTraceMarker_marker hmarker, List.head?_cons]
    dsimp only
    rcases hmarker with rfl | rfl
    · rw [if_pos rfl, if_pos rfl, if_pos rfl]
      exact readsFully_iff (k := traceKind) (Or.inl rfl) rest
    · rw [if_neg (by decide), if_neg (by decide), if_neg (by decide)]
      exact readsFully_iff (k := debugTraceKind) (Or.inr rfl) rest

/-- A file with the given entries behind the header. -/
def sampleFile (entries : List (List UInt8)) : List UInt8 :=
  0x54 :: List.replicate 7 0 ++ entries.flatten

theorem knownEntries_sample : KnownEntries (sampleFile [samplePc.encode, sampleEot.encode]) := by
  have hmarker : (sampleFile [samplePc.encode, sampleEot.encode]).head? = some 0x54 := rfl
  unfold KnownEntries
  rw [if_pos hmarker]
  exact ⟨⟨1, by decide +kernel⟩, by decide +kernel⟩

theorem decodesFully_sample : DecodesFully (sampleFile [samplePc.encode, sampleEot.encode]) :=
  (decodesFully_iff _ (Or.inl rfl)).2 ⟨by decide +kernel, knownEntries_sample⟩

/-- The check does not look at the first entry, whose type is unknown to the decoder. -/
theorem unknownEntry_unnoticed :
    isTraceCorrupted (some (sampleFile [List.replicate 16 9, sampleEot.encode])) = .ok false ∧
      ¬ DecodesFully (sampleFile [List.replicate 16 9, sampleEot.encode]) := by
  refine ⟨by decide +kernel, ?_⟩
  have hraises : decodeTraceFile (sampleFile [List.replicate 16 9, sampleEot.encode]) =
      .error .value := by decide +kernel
  rintro ⟨traces, hread, -⟩
  cases hraises.symm.trans hread

end Rvzr.Dynamorio
