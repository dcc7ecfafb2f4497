import Mathlib.Data.Set.Function
import Rvzr.Lib.Numerals
import Rvzr.Analyser.Traces

/-!
# Equality of traces

`__eq__` and `__hash__` of contract and hardware traces (`rvzr/traces.py`). Both compare digests of
a printed form: a contract trace is printed without the types of its entries, and numpy prints only
the first and the last three samples of a long hardware trace. As long as the digest does not
collide, contract traces are equal when their values are, and hardware traces are unless both have
more than 1000 samples (`traces_eq_iff`).
-/

namespace Rvzr.Analyser

open Rvzr.Lib

variable (xxh64 : Text → Nat)

/-- `CTrace.get_untyped`. -/
def CTrace.untyped (c : CTrace) : List Int := c.trace.map CTraceEntry.value

/-- `HTrace._hash`. -/
def HTrace.digest (h : HTrace) : Nat := xxh64 (numpyStr (h.getRawTraces.map UInt64.toNat))

/-- `CTrace.__eq__`. -/
def CTrace.eq (c c' : CTrace) : Bool := c.digest xxh64 == c'.digest xxh64

/-- `HTrace.__eq__`. -/
def HTrace.eq (h h' : HTrace) : Bool := h.digest xxh64 == h'.digest xxh64

/-- The strings that are hashed for the traces of two sets. -/
def printedTexts (cs : Set CTrace) (hs : Set HTrace) : Set Text :=
  {t | (∃ c ∈ cs, t = strIntList c.untyped) ∨
    ∃ h ∈ hs, t = numpyStr (h.getRawTraces.map UInt64.toNat)}

section Equality

variable {xxh64} {cs : Set CTrace} {hs : Set HTrace}

theorem CTrace.eq_iff (hinj : Set.InjOn xxh64 (printedTexts cs hs)) {c c' : CTrace} (hc : c ∈ cs)
    (hc' : c' ∈ cs) : c.eq xxh64 c' = true ↔ c.untyped = c'.untyped := by
  have hprint : c.eq xxh64 c' = true ↔ strIntList c.untyped = strIntList c'.untyped := by
    rw [CTrace.eq, beq_iff_eq, CTrace.digest, CTrace.digest]
    exact hinj.eq_iff (.inl ⟨c, hc, rfl⟩) (.inl ⟨c', hc', rfl⟩)
  rw [hprint, strIntList_injective.eq_iff]

theorem HTrace.eq_iff_print (hinj : Set.InjOn xxh64 (printedTexts cs hs)) {h h' : HTrace}
    (hh : h ∈ hs) (hh' : h' ∈ hs) : h.digest xxh64 = h'.digest xxh64 ↔
      numpyShown (h.getRawTraces.map UInt64.toNat) =
        numpyShown (h'.getRawTraces.map UInt64.toNat) := by
  rw [HTrace.digest, HTrace.digest, hinj.eq_iff (.inr ⟨h, hh, rfl⟩) (.inr ⟨h', hh', rfl⟩),
    numpyStr_eq_iff]

/-- Two arrays of which one is short show the same only when they are equal. -/
theorem numpyShown_eq_iff {xs ys : List Nat} (hshort : ¬(1000 < xs.length ∧ 1000 < ys.length)) :
    numpyShown xs = numpyShown ys ↔ xs = ys := by
  refine ⟨fun h => ?_, fun h => by rw [h]⟩
  have hx := numpyShown_snd xs
  rw [h, numpyShown_snd ys] at hx
  have hx' : ¬1000 < xs.length := by
    intro hlong
    exact hshort ⟨hlong, by_contra fun hy => hx.1 hy hlong⟩
  rw [numpyShown, numpyShown, if_neg hx', if_neg (hx.2 hx')] at h
  exact (Prod.mk.inj h).1

theorem HTrace.digest_eq_iff (hinj : Set.InjOn xxh64 (printedTexts cs hs)) {h h' : HTrace}
    (hh : h ∈ hs) (hh' : h' ∈ hs) (hshort : ¬(1000 < h.sampleSize ∧ 1000 < h'.sampleSize)) :
    h.digest xxh64 = h'.digest xxh64 ↔ h.getRawTraces = h'.getRawTraces := by
  have hmap : Function.Injective (List.map UInt64.toNat) :=
    List.map_injective_iff.2 fun _ _ => UInt64.toNat_inj.1
  rw [HTrace.eq_iff_print hinj hh hh', numpyShown_eq_iff, hmap.eq_iff]
  simpa [HTrace.getRawTraces, HTrace.sampleSize] using hshort

/-- Contract traces are equal when their values are, whatever the types. Hardware traces, unless both
have more than 1000 samples, are equal when their raw values are; the same holds of their keys in a
dictionary if the builtin `hash`, which reduces large digests, does not make these two collide. -/
theorem traces_eq_iff (hinj : Set.InjOn xxh64 (printedTexts cs hs)) :
    (∀ c ∈ cs, ∀ c' ∈ cs, c.eq xxh64 c' = true ↔ c.untyped = c'.untyped) ∧
      ∀ h ∈ hs, ∀ h' ∈ hs, ¬(1000 < h.sampleSize ∧ 1000 < h'.sampleSize) →
        (h.eq xxh64 h' = true ↔ h.getRawTraces = h'.getRawTraces) ∧
        (Set.InjOn pyHash {h.digest xxh64, h'.digest xxh64} →
          (h.hash xxh64 = h'.hash xxh64 ↔ h.getRawTraces = h'.getRawTraces)) := by
  refine ⟨fun c hc c' hc' => CTrace.eq_iff hinj hc hc', fun h hh h' hh' hshort => ?_⟩
  have hdigest := HTrace.digest_eq_iff hinj hh hh' hshort
  refine ⟨by rw [HTrace.eq, beq_iff_eq, hdigest], fun hkey => ?_⟩
  have hhash : h.hash xxh64 = h'.hash xxh64 ↔ h.digest xxh64 = h'.digest xxh64 :=
    hkey.eq_iff (.inl rfl) (.inr rfl)
  rw [hhash, hdigest]

end Equality

/-! ### Traces that are told apart by their content only -/

def sampleReading (n : UInt64) : RawHTraceSample := ⟨n, 0, 0, 0, 0, 0⟩

/-- 1001 samples, all 1 but the one in the middle. -/
def sampleLong (n : UInt64) : HTrace :=
  ⟨List.replicate 3 (sampleReading 1) ++ (List.replicate 497 (sampleReading 1) ++
    sampleReading n :: List.replicate 497 (sampleReading 1)) ++ List.replicate 3 (sampleReading 1)⟩

/-- A load of address 1 against an instruction at address 1, and two long traces with one different
sample: they compare equal under every hash. -/
theorem traces_equal_by_print : ¬ ∃ xxh64 : Text → Nat, ¬
    ((CTrace.eq xxh64 ⟨[⟨.mem, 1⟩]⟩ ⟨[⟨.pc, 1⟩]⟩ = true ∧
      (⟨[⟨.mem, 1⟩]⟩ : CTrace).trace ≠ (⟨[⟨.pc, 1⟩]⟩ : CTrace).trace) ∧
    HTrace.eq xxh64 (sampleLong 1) (sampleLong 2) = true ∧
      (sampleLong 1).getRawTraces ≠ (sampleLong 2).getRawTraces) := by
  rintro ⟨xxh64, hdiffer⟩
  refine hdiffer ?_
  have hraw : ∀ n, (sampleLong n).getRawTraces.map UInt64.toNat =
      List.replicate 3 1 ++ (List.replicate 497 1 ++ n.toNat :: List.replicate 497 1) ++
        List.replicate 3 1 := by
    intro n
    simp only [HTrace.getRawTraces, sampleLong, sampleReading, List.map_append, List.map_cons,
      List.map_replicate]
    rfl
  have hthree : (List.replicate 3 1).length = 3 := List.length_replicate
  have hmid : ∀ n, (List.replicate 497 1 ++ n :: List.replicate 497 1).length = 995 := by
    intro n
    rw [List.length_append, List.length_cons, List.length_replicate]
  refine ⟨⟨by simp [CTrace.eq, CTrace.digest], by simp⟩, ?_, ?_⟩
  · rw [HTrace.eq, beq_iff_eq, HTrace.digest, HTrace.digest, hraw, hraw]
    exact congrArg xxh64 (numpyStr_frame hthree hthree (hmid _).ge (hmid _).ge)
  · intro h
    have hmap := congrArg (List.map UInt64.toNat) h
    rw [hraw, hraw] at hmap
    have htail := List.append_cancel_left (List.append_cancel_left (List.append_cancel_right hmap))
    exact absurd (List.cons.inj htail).1 (by decide)

def sampleHash (t : Text) : Nat := t.foldl (fun n c => n * 256 + c.toNat) 1

/-- Two contract traces and two hardware traces that the hash keeps apart. -/
theorem traces_eq_iff_sample :
    let cs : Set CTrace := {⟨[⟨.mem, 1⟩]⟩, ⟨[⟨.mem, 1⟩, ⟨.pc, 2⟩]⟩}
    let hs : Set HTrace := {⟨[sampleReading 7]⟩, ⟨[sampleReading 7, sampleReading 8]⟩}
    (∀ c ∈ cs, ∀ c' ∈ cs, c.eq sampleHash c' = true ↔ c.untyped = c'.untyped) ∧
      ∀ h ∈ hs, ∀ h' ∈ hs, ¬(1000 < h.sampleSize ∧ 1000 < h'.sampleSize) →
        (h.eq sampleHash h' = true ↔ h.getRawTraces = h'.getRawTraces) ∧
        (Set.InjOn pyHash {h.digest sampleHash, h'.digest sampleHash} →
          (h.hash sampleHash = h'.hash sampleHash ↔ h.getRawTraces = h'.getRawTraces)) := by
  refine traces_eq_iff ?_
  have htexts : ∀ t ∈ printedTexts {⟨[⟨.mem, 1⟩]⟩, ⟨[⟨.mem, 1⟩, ⟨.pc, 2⟩]⟩}
      {⟨[sampleReading 7]⟩, ⟨[sampleReading 7, sampleReading 8]⟩},
      t = "[1]".toList ∨ t = "[1, 2]".toList ∨ t = "[7]".toList ∨ t = "[7 8]".toList := by
    rintro t (⟨c, rfl | rfl, rfl⟩ | ⟨h, rfl | rfl, rfl⟩)
    · exact .inl rfl
    · exact .inr (.inl rfl)
    · exact .inr (.inr (.inl rfl))
    · exact .inr (.inr (.inr rfl))
  intro s hs t ht h
  obtain rfl | rfl | rfl | rfl := htexts s hs <;> obtain rfl | rfl | rfl | rfl := htexts t ht <;>
    first | rfl | exact absurd h (by decide)

end Rvzr.Analyser
