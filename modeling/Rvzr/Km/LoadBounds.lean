import Rvzr.Km.CodeLoader

/-!
# The buffers the code loader writes to

`load_sandbox_code`, `load_section` and `load_section_main` of `executor_km/code_loader.c` over
the `expand_section` of `Rvzr.Km.CodeLoader`. What is written is kept as a log of byte ranges
of `sandbox->code[a].section` and `sandbox->code[a].macros`.

The position in the section area is bounded by the template and the section, whatever the symbol
table holds (`loadSectionMain_section`). The position in the macro area is a sum over the
macros that are expanded, and `CodeFits` is the bound on this sum that keeps all of them inside.
-/

namespace Rvzr.Km

open Rvzr.Lib

def maxExpandedSectionSize : Nat := 0x1000 * 2
def maxExpandedMacrosSize : Nat := 0x1000
def maxTemplateSize : Nat := 0x1000
def templateMarkerSize : Nat := 8

/-- The markers of `x86/entry_exit_points.h`. -/
def templateStart : Nat := 0x0fff379000000000
def templateInsertTc : Nat := 0x0fff2f9000000000
def templateDefaultExceptionLanding : Nat := 0x0fff479000000000
def templateEnd : Nat := 0x0fff279000000000

/-- `MACRO_FAULT_HANDLER_WITH_MEASUREMENT` (`macro_expansion.h:36`). -/
def macroFaultHandlerWithMeasurement : Nat := 17

/-- The two fields of `actor_code_t`. -/
inductive CodeArea where
  | section_
  | macros
  deriving DecidableEq, Repr

def CodeArea.size : CodeArea → Nat
  | .section_ => maxExpandedSectionSize
  | .macros => maxExpandedMacrosSize

/-- The bytes from `start` on that are written for an actor. -/
structure CodeWrite where
  actor : Nat
  area : CodeArea
  start : Nat
  len : Nat
  deriving DecidableEq, Repr

/-- Every byte lies in the buffer. -/
def CodeWrite.Inside (w : CodeWrite) : Prop :=
  ∀ i, w.start ≤ i → i < w.start + w.len → i < w.area.size

/-- Whether `expand_macro` succeeds for the entry. -/
def MacroLibrary.expands (lib : MacroLibrary) (e : TcSymbolEntry) : Bool :=
  e.id != 0 && lib.known e.id

/-- The bytes that one call of `expand_macro` writes to the macro area. -/
def MacroCall.writes (lib : MacroLibrary) (table : Nat → TcSymbolEntry) (actor : Nat)
    (c : MacroCall) : List CodeWrite :=
  if lib.expands (table c.index) then [⟨actor, .macros, c.macros, lib.size (table c.index)⟩] else []

/-- The bytes that `expand_section` writes when it copies to position `base` of the section. -/
def expandWrites (lib : MacroLibrary) (table : Nat → TcSymbolEntry) (actor base : Nat)
    (st : ExpandState) : List CodeWrite :=
  ⟨actor, .section_, base, st.destCursor⟩ :: st.calls.flatMap (MacroCall.writes lib table actor)

/-- The two templates the main section is built from. -/
structure Templates where
  mainSegmentTemplate : Mem
  mainSegmentTemplateDbgGpr : Mem

/-- The template that is used in the given mode. -/
def Templates.selected (templates : Templates) (dbgGprMode : Bool) : Mem :=
  if dbgGprMode then templates.mainSegmentTemplateDbgGpr else templates.mainSegmentTemplate

/-- A loop that looks for a marker: where it ends, and whether the marker is there. -/
def scanFor (src : Mem) (marker : Nat) : Nat → Nat → Nat × Bool
  | 0, cursor => (cursor, false)
  | fuel + 1, cursor =>
    if src.word64 cursor = marker then (cursor, true) else scanFor src marker fuel (cursor + 1)

/-- `src_cursor` is compared with `MAX_TEMPLATE_SIZE` in front of every step. -/
def scanTemplate (src : Mem) (marker cursor : Nat) : Nat × Bool :=
  scanFor src marker (maxTemplateSize - cursor) cursor

/-- The variables of `load_section_main`, with what was written so far. -/
structure MainLoad where
  srcCursor : Nat
  destCursor : Nat
  macrosCursor : Nat
  faultHandler : Option Nat
  writes : List CodeWrite

/-- Copy the template up to a marker, or up to the end of the search. -/
def MainLoad.copied (src : Mem) (marker : Nat) (st : MainLoad) : MainLoad :=
  let n := (scanTemplate src marker st.srcCursor).1 - st.srcCursor
  { st with srcCursor := st.srcCursor + n, destCursor := st.destCursor + n
            writes := st.writes ++ [⟨0, .section_, st.destCursor, n⟩] }

/-- Step over a marker. -/
def MainLoad.stepOver (st : MainLoad) : MainLoad :=
  { st with srcCursor := st.srcCursor + templateMarkerSize }

/-- The loop that copies up to a marker; an error keeps what was written. -/
def MainLoad.copyTo (src : Mem) (marker : Nat) (st : MainLoad) : Except MainLoad MainLoad :=
  if (scanTemplate src marker st.srcCursor).2 then .ok (st.copied src marker).stepOver
  else .error (st.copied src marker)

/-- The test case is expanded in the middle of the template. -/
def MainLoad.insertTestCase (lib : MacroLibrary) (s : TcParser) (dest : Mem) (st : MainLoad) :
    Except MainLoad MainLoad :=
  let r := expandSection lib s 0 fun i => dest (st.destCursor + i)
  let st' := { st with
    writes := st.writes ++ expandWrites lib s.symbolAt 0 st.destCursor r.1 }
  if r.2 ≠ 0 then .error st'
  else .ok { st' with destCursor := st.destCursor + r.1.destCursor
                      macrosCursor := st.macrosCursor + r.1.macrosCursor }

/-- The symbol of the default fault handler. -/
def measurementEnd : TcSymbolEntry := ⟨0, 0, macroFaultHandlerWithMeasurement, 0⟩

/-- The placeholder of the default fault handler. It stays as it is when the test case has a
handler of its own. -/
def MainLoad.landFaultHandler (lib : MacroLibrary) (s : TcParser) (st : MainLoad) :
    Except MainLoad MainLoad :=
  if s.features.hasExplicitFaultHandler then
    .ok { st with destCursor := st.destCursor + macroPlaceholderSize }
  else
    let st := { st with faultHandler := some st.destCursor }
    match expandMacro lib measurementEnd st.destCursor st.macrosCursor with
    | none => .error st
    | some (_, n) =>
      .ok { st with
        destCursor := st.destCursor + macroPlaceholderSize
        macrosCursor := st.macrosCursor + n
        writes := st.writes ++ [⟨0, .section_, st.destCursor, macroPlaceholderSize⟩,
          ⟨0, .macros, st.macrosCursor, n⟩] }

/-- The last check, after everything has been copied. -/
def MainLoad.checkSize (st : MainLoad) : Except MainLoad MainLoad :=
  if st.destCursor < maxExpandedSectionSize then .ok st else .error st

/-- `metadata[id].owner`. -/
def TcParser.sectionOwner (s : TcParser) (id : Nat) : Nat :=
  s.metadata.word64 (tcSectionMetadataEntrySize * id)

/-- `load_section_main` (`code_loader.c:81-183`), over the template that `dbg_gpr_mode` selects. -/
def loadSectionMain (lib : MacroLibrary) (src : Mem) (s : TcParser) (dest : Mem) :
    Except MainLoad MainLoad :=
  let st : MainLoad := ⟨0, 0, 0, none, []⟩
  if s.sectionOwner 0 ≠ 0 then .error st
  else
    let scan := scanTemplate src templateStart 0
    if scan.2 = false then .error st
    else do
      let st ← { st with srcCursor := scan.1 + templateMarkerSize }.copyTo src templateInsertTc
      let st ← st.insertTestCase lib s dest
      let st ← st.copyTo src templateDefaultExceptionLanding
      let st ← st.landFaultHandler lib s
      let st ← st.copyTo src templateEnd
      st.checkSize

/-- What was written, whether loading succeeded or not. -/
def mainWrites : Except MainLoad MainLoad → List CodeWrite
  | .error st => st.writes
  | .ok st => st.writes

/-- `load_section` (`code_loader.c:63-73`). -/
def loadSection (lib : MacroLibrary) (s : TcParser) (a : Nat) (dest : Mem) :
    List CodeWrite × Bool :=
  let r := expandSection lib s a dest
  (expandWrites lib s.symbolAt a 0 r.1, r.2 == 0)

/-- `reset_code_area` (`sandbox_manager.c:189-207`): both areas of every actor are filled, and a
return instruction is put in front. -/
def resetCodeArea (nActors : Nat) : List CodeWrite :=
  (List.range nActors).flatMap (fun a =>
    [⟨a, .section_, 0, maxExpandedSectionSize⟩, ⟨a, .macros, 0, maxExpandedMacrosSize⟩]) ++
      [⟨0, .section_, 0, 1⟩]

/-- The result of `load_sandbox_code`: everything it writes, whether it succeeds, and the
position of the default fault handler. `loaded_test_case_entry` is set when the main section
is loaded. -/
structure Loaded where
  writes : List CodeWrite
  success : Bool
  faultHandler : Option Nat
  hasEntry : Bool

/-- The position of the fault handler that `load_section_main` leaves. -/
def mainFaultHandler : Except MainLoad MainLoad → Option Nat
  | .error st => st.faultHandler
  | .ok st => st.faultHandler

/-- `load_sandbox_code` (`code_loader.c:41-60`). A section that cannot be loaded does not keep
the others from being loaded. -/
def loadSandboxCode (lib : MacroLibrary) (templates : Templates) (dbgGprMode : Bool)
    (s : TcParser) : Loaded :=
  let nops : Mem := fun _ => 0x90
  let main := loadSectionMain lib (templates.selected dbgGprMode) s (nops.set 0 0xc3)
  let others := (List.range (s.nActors - 1)).map fun k => loadSection lib s (k + 1) nops
  if s.nActors = 0 then ⟨resetCodeArea 0, true, none, false⟩
  else
    ⟨resetCodeArea s.nActors ++ (mainWrites main ++ others.flatMap Prod.fst),
      main.isOk && others.all Prod.snd, mainFaultHandler main, main.isOk⟩

section Runs

variable (table : Nat → TcSymbolEntry) (sectionId : Nat) (lib : MacroLibrary) (size : Nat)

/-- Entry `p` belongs to the section and its placeholder begins behind position `src`. -/
def Pending (p src : Nat) : Prop :=
  (table p).owner = sectionId ∧ src ≤ (table p).offset ∧ (table p).offset < size

/-- The `k` entries from entry `p` on are macros of the section that can be expanded, each behind
the placeholder of the one before. -/
def MacroRun : Nat → Nat → Nat → Prop
  | 0, _, _ => True
  | k + 1, p, src => Pending table sectionId size p src ∧ lib.expands (table p) = true ∧
      MacroRun k (p + 1) ((table p).offset + macroPlaceholderSize)

/-- A run after which only code is left. -/
def MacroRunToEnd : Nat → Nat → Nat → Prop
  | 0, p, src => ¬ Pending table sectionId size p src ∧ src ≤ size
  | k + 1, p, src => Pending table sectionId size p src ∧ lib.expands (table p) = true ∧
      MacroRunToEnd k (p + 1) ((table p).offset + macroPlaceholderSize)

/-- The size of the code that `k` entries from entry `p` on are expanded to. -/
def runSize : Nat → Nat → Nat
  | 0, _ => 0
  | k + 1, p => lib.size (table p) + runSize k (p + 1)

/-- The writes to the macro area, from position `cursor` on. -/
def runMacroWrites (actor : Nat) : Nat → Nat → Nat → List CodeWrite
  | _, 0, _ => []
  | cursor, k + 1, p => ⟨actor, .macros, cursor, lib.size (table p)⟩ ::
      runMacroWrites actor (cursor + lib.size (table p)) k (p + 1)

/-- What `expand_section` did from state `st` on: it expanded the `k` entries from entry `p` on. -/
structure Ran (actor k p : Nat) (st st' : ExpandState) (err : Int) : Prop where
  run : MacroRun table sectionId lib size k p st.srcCursor
  longest : ∀ j, MacroRun table sectionId lib size j p st.srcCursor → j ≤ k
  writes : st'.calls.flatMap (MacroCall.writes lib table actor) =
    st.calls.flatMap (MacroCall.writes lib table actor) ++
      runMacroWrites table lib actor st.macrosCursor k p
  cursor : st'.macrosCursor = st.macrosCursor + runSize table lib k p
  dest : st'.destCursor = st'.srcCursor ∧ st.destCursor ≤ st'.destCursor
  bounded : st'.srcCursor ≤ max st.srcCursor (size + 7)
  frame : ∀ i, st'.destCursor ≤ i → st'.dest i = st.dest i
  complete : err = 0 ∧ st'.srcCursor = size ↔
    MacroRunToEnd table sectionId lib size k p st.srcCursor

variable {table sectionId lib size} {actor k p src : Nat} {st st' : ExpandState} {err : Int}

theorem pending_succ (hne : (table p).owner = sectionId → (table p).offset ≠ src) :
    Pending table sectionId size p (src + 1) ↔ Pending table sectionId size p src := by
  unfold Pending
  constructor
  · intro h
    exact ⟨h.1, by omega, h.2.2⟩
  · intro h
    have := hne h.1
    exact ⟨h.1, by omega, h.2.2⟩

theorem macroRun_succ (hne : (table p).owner = sectionId → (table p).offset ≠ src) :
    MacroRun table sectionId lib size k p (src + 1) ↔
      MacroRun table sectionId lib size k p src := by
  cases k with
  | zero => exact Iff.rfl
  | succ k =>
    show Pending table sectionId size p (src + 1) ∧ _ ↔ _
    rw [pending_succ hne]
    exact Iff.rfl

theorem macroRunToEnd_succ (hne : (table p).owner = sectionId → (table p).offset ≠ src)
    (hlt : src < size) :
    MacroRunToEnd table sectionId lib size k p (src + 1) ↔
      MacroRunToEnd table sectionId lib size k p src := by
  cases k with
  | zero =>
    show ¬ Pending table sectionId size p (src + 1) ∧ src + 1 ≤ size ↔
      ¬ Pending table sectionId size p src ∧ src ≤ size
    rw [pending_succ hne]
    exact and_congr_right fun _ => by omega
  | succ k =>
    show Pending table sectionId size p (src + 1) ∧ _ ↔ _
    rw [pending_succ hne]
    exact Iff.rfl

/-- The loop ends behind the section. -/
theorem Ran.stop (hstop : size ≤ st.srcCursor) (hdest : st.destCursor = st.srcCursor) :
    Ran table sectionId lib size actor 0 p st st 0 := by
  have hnot : ¬ Pending table sectionId size p st.srcCursor := fun h => by
    have := h.2
    omega
  refine ⟨trivial, fun j hj => ?_, (List.append_nil _).symm, rfl, ⟨hdest, Nat.le_refl _⟩,
    Nat.le_max_left _ _, fun _ _ => rfl, ?_⟩
  · cases j with
    | zero => exact Nat.le_refl _
    | succ j => exact absurd hj.1 hnot
  · show (0 : Int) = 0 ∧ st.srcCursor = size ↔ ¬ Pending table sectionId size p st.srcCursor ∧
      st.srcCursor ≤ size
    constructor
    · intro h
      exact ⟨hnot, Nat.le_of_eq h.2⟩
    · intro h
      exact ⟨rfl, by omega⟩

/-- Only the reads of the symbol table differ. -/
theorem Ran.read {q : Nat} (h : Ran table sectionId lib size actor k p (st.read q) st' err) :
    Ran table sectionId lib size actor k p st st' err :=
  ⟨h.run, h.longest, h.writes, h.cursor, h.dest, h.bounded, h.frame, h.complete⟩

/-- One copied byte in front of a run. -/
theorem Ran.copy {code : Mem} (hne : (table p).owner = sectionId → (table p).offset ≠ st.srcCursor)
    (hlt : st.srcCursor < size)
    (h : Ran table sectionId lib size actor k p (st.copy code) st' err) :
    Ran table sectionId lib size actor k p st st' err := by
  have hdest : st.destCursor + 1 ≤ st'.destCursor := h.dest.2
  have hbound : st'.srcCursor ≤ max (st.srcCursor + 1) (size + 7) := h.bounded
  refine ⟨(macroRun_succ hne).mp h.run, fun j hj => h.longest j ((macroRun_succ hne).mpr hj),
    h.writes, h.cursor, ⟨h.dest.1, by omega⟩, by omega, fun i hi => ?_,
    h.complete.trans (macroRunToEnd_succ hne hlt)⟩
  rw [h.frame i hi]
  exact Mem.set_other _ _ (by omega)

/-- The entry at the cursor cannot be expanded. -/
theorem Ran.rejected (hdest : st.destCursor = st.srcCursor)
    (hpend : Pending table sectionId size p st.srcCursor)
    (hno : lib.expands (table p) = false) (herr : err ≠ 0) (hsrc : st'.srcCursor = st.srcCursor)
    (hdest' : st'.destCursor = st.destCursor) (hmac : st'.macrosCursor = st.macrosCursor)
    (hmem : st'.dest = st.dest)
    (hcalls : st'.calls.flatMap (MacroCall.writes lib table actor) =
      st.calls.flatMap (MacroCall.writes lib table actor)) :
    Ran table sectionId lib size actor 0 p st st' err := by
  refine ⟨trivial, fun j hj => ?_, hcalls.trans (List.append_nil _).symm, hmac,
    ⟨by omega, by omega⟩, by omega, fun i _ => by rw [hmem], ?_⟩
  · cases j with
    | zero => exact Nat.le_refl _
    | succ j =>
      exact absurd (hno.symm.trans hj.2.1) (by simp)
  · constructor
    · intro h
      exact absurd h.1 herr
    · intro h
      exact absurd hpend h.1

/-- An expanded macro in front of a run. -/
theorem Ran.expanded {bytes : Vector UInt8 8} {next : Option Nat}
    (hpend : Pending table sectionId size p st.srcCursor)
    (hoff : st.srcCursor = (table p).offset) (hyes : lib.expands (table p) = true)
    (h : Ran table sectionId lib size actor k (p + 1)
      ((st.call p).advance p next bytes (lib.size (table p))) st' err) :
    Ran table sectionId lib size actor (k + 1) p st st' err := by
  have hsrc : ((st.call p).advance p next bytes (lib.size (table p))).srcCursor =
      (table p).offset + macroPlaceholderSize := by rw [← hoff]; rfl
  have hdest : st.destCursor + 8 ≤ st'.destCursor := h.dest.2
  have hbound : st'.srcCursor ≤ max (st.srcCursor + 8) (size + 7) := h.bounded
  have hin := hpend.2
  refine ⟨⟨hpend, hyes, hsrc ▸ h.run⟩, fun j hj => ?_, ?_, ?_, ⟨h.dest.1, by omega⟩, by omega,
    fun i hi => ?_, ?_⟩
  · cases j with
    | zero => exact Nat.zero_le _
    | succ j =>
      have := h.longest j (hsrc ▸ hj.2.2)
      omega
  · rw [h.writes]
    show (st.calls ++ [MacroCall.mk p st.destCursor st.macrosCursor]).flatMap _ ++ _ = _
    rw [List.flatMap_append, List.append_assoc]
    congr 1
    show MacroCall.writes lib table actor ⟨p, st.destCursor, st.macrosCursor⟩ ++ [] ++ _ = _
    unfold MacroCall.writes
    rw [if_pos hyes]
    rfl
  · rw [h.cursor]
    show st.macrosCursor + lib.size (table p) + _ = st.macrosCursor + (lib.size (table p) + _)
    omega
  · rw [h.frame i hi]
    show storeJump st.dest st.destCursor bytes i = st.dest i
    unfold storeJump macroPlaceholderSize
    rw [if_neg (by omega)]
  · rw [h.complete, hsrc]
    show _ ↔ _ ∧ _ ∧ _
    constructor
    · intro hend
      exact ⟨hpend, hyes, hend⟩
    · intro hend
      exact hend.2.2

/-- The loop of `expand_section` expands the longest run in front of the cursor. -/
theorem expandLoop_ran {code : Mem} (fuel : Nat) (hfuel : size ≤ st.srcCursor + fuel)
    (hdest : st.destCursor = st.srcCursor)
    (hptr : st.pointer = if (table p).owner = sectionId then some p else none) :
    ∃ k, Ran table sectionId lib size actor k p st
      (expandLoop table sectionId lib code size fuel st).1
      (expandLoop table sectionId lib code size fuel st).2 := by
  induction fuel generalizing st p with
  | zero => exact ⟨0, Ran.stop hfuel hdest⟩
  | succ fuel ih =>
    by_cases hlt : st.srcCursor < size
    · have hcopied : size ≤ (st.copy code).srcCursor + fuel := by
        show size ≤ st.srcCursor + 1 + fuel
        omega
      have hcopied' : (st.copy code).destCursor = (st.copy code).srcCursor :=
        congrArg (· + 1) hdest
      by_cases howner : (table p).owner = sectionId
      · rw [if_pos howner] at hptr
        by_cases hoff : st.srcCursor = (table p).offset
        · rw [expandLoop_at hlt hptr hoff howner]
          have hpend : Pending table sectionId size p st.srcCursor := ⟨howner, by omega, by omega⟩
          by_cases hid : (table p).id = 0
          · rw [if_pos hid]
            have hno : lib.expands (table p) = false := by
              unfold MacroLibrary.expands
              rw [hid]
              rfl
            exact ⟨0, Ran.rejected hdest hpend hno (show (-eio : Int) ≠ 0 by decide) rfl rfl rfl rfl rfl⟩
          rw [if_neg hid]
          cases hknown : lib.known (table p).id with
          | false =>
            rw [if_pos rfl]
            have hno : lib.expands (table p) = false := by
              unfold MacroLibrary.expands
              rw [hknown, Bool.and_false]
            refine ⟨0, Ran.rejected hdest hpend hno (show (-eio : Int) ≠ 0 by decide) rfl rfl rfl rfl ?_⟩
            show (st.calls ++ [MacroCall.mk p st.destCursor st.macrosCursor]).flatMap _ = _
            rw [List.flatMap_append]
            show _ ++ (MacroCall.writes lib table actor ⟨p, st.destCursor, st.macrosCursor⟩ ++ []) = _
            unfold MacroCall.writes
            rw [hno, if_neg (by simp), List.append_nil, List.append_nil]
          | true =>
            rw [if_neg (by simp)]
            have hyes : lib.expands (table p) = true := by
              unfold MacroLibrary.expands
              rw [hknown, Bool.and_true, bne_iff_ne]
              exact hid
            have hahead : size ≤ st.srcCursor + macroPlaceholderSize + fuel := by
              unfold macroPlaceholderSize
              omega
            have halong : st.destCursor + macroPlaceholderSize =
                st.srcCursor + macroPlaceholderSize := congrArg (· + macroPlaceholderSize) hdest
            obtain ⟨k, hk⟩ := @ih (p + 1) (((st.read p).call p).advance p
              (nextPointer table sectionId p)
              (lib.jump (table p) st.destCursor st.macrosCursor) (lib.size (table p)))
              hahead halong rfl
            exact ⟨k + 1, Ran.read (Ran.expanded hpend hoff hyes hk)⟩
        · rw [expandLoop_copy hlt hptr hoff]
          obtain ⟨k, hk⟩ := @ih p ((st.read p).copy code) hcopied hcopied'
            (hptr.trans (if_pos howner).symm)
          exact ⟨k, Ran.read (Ran.copy (fun _ => Ne.symm hoff) hlt hk)⟩
      · have hnone : st.pointer = none := hptr.trans (if_neg howner)
        have hloop : expandLoop table sectionId lib code size (fuel + 1) st =
            expandLoop table sectionId lib code size fuel (st.copy code) := by
          rw [expandLoop, if_pos hlt, hnone]
        obtain ⟨k, hk⟩ := @ih p (st.copy code) hcopied hcopied' hptr
        rw [hloop]
        exact ⟨k, Ran.copy (fun h => absurd h howner) hlt hk⟩
    · rw [expandLoop, if_neg hlt]
      exact ⟨0, Ran.stop (Nat.not_lt.mp hlt) hdest⟩

theorem macroRun_le {j : Nat} (h : MacroRun table sectionId lib size k p src) (hj : j ≤ k) :
    MacroRun table sectionId lib size j p src := by
  induction j generalizing k p src with
  | zero => exact trivial
  | succ j ih =>
    cases k with
    | zero => omega
    | succ k => exact ⟨h.1, h.2.1, ih h.2.2 (by omega)⟩

theorem macroRun_of_toEnd (h : MacroRunToEnd table sectionId lib size k p src) :
    MacroRun table sectionId lib size k p src := by
  induction k generalizing p src with
  | zero => exact trivial
  | succ k ih => exact ⟨h.1, h.2.1, ih h.2.2⟩

theorem macroRunToEnd_longest (h : MacroRunToEnd table sectionId lib size k p src) :
    ¬ MacroRun table sectionId lib size (k + 1) p src := by
  induction k generalizing p src with
  | zero => exact fun hrun => h.1 hrun.1
  | succ k ih => exact fun hrun => ih h.2.2 hrun.2.2

theorem runSize_le {j : Nat} (h : j ≤ k) : runSize table lib j p ≤ runSize table lib k p := by
  induction j generalizing k p with
  | zero => exact Nat.zero_le _
  | succ j ih =>
    cases k with
    | zero => omega
    | succ k => exact Nat.add_le_add_left (ih (by omega)) _

/-- The run that ends the section is the one that is expanded. -/
theorem Ran.toEnd_eq {j : Nat} (h : Ran table sectionId lib size actor k p st st' err)
    (hj : MacroRunToEnd table sectionId lib size j p st.srcCursor) : j = k := by
  have hle := h.longest j (macroRun_of_toEnd hj)
  have hge : ¬ j < k := fun hlt => macroRunToEnd_longest hj (macroRun_le h.run hlt)
  omega

end Runs

section Areas

theorem inside_section {actor start len : Nat} (h : start + len ≤ maxExpandedSectionSize) :
    CodeWrite.Inside ⟨actor, .section_, start, len⟩ := fun i _ hi => by
  show i < maxExpandedSectionSize
  have hi' : i < start + len := hi
  omega

theorem inside_macros_iff {actor start len : Nat} (hstart : start ≤ maxExpandedMacrosSize) :
    CodeWrite.Inside ⟨actor, .macros, start, len⟩ ↔ start + len ≤ maxExpandedMacrosSize := by
  constructor
  · intro h
    cases len with
    | zero => exact hstart
    | succ n => exact h (start + n) (Nat.le_add_right _ _) (Nat.lt_succ_self _)
  · intro h i _ hi
    exact Nat.lt_of_lt_of_le hi h

/-- A run stays inside when its end does. -/
theorem runMacroWrites_inside {table : Nat → TcSymbolEntry} {lib : MacroLibrary}
    {actor cursor k p : Nat} (hcursor : cursor ≤ maxExpandedMacrosSize) :
    (∀ w ∈ runMacroWrites table lib actor cursor k p, w.Inside) ↔
      cursor + runSize table lib k p ≤ maxExpandedMacrosSize := by
  induction k generalizing cursor p with
  | zero => exact ⟨fun _ => hcursor, fun _ w hw => absurd hw (by simp [runMacroWrites])⟩
  | succ k ih =>
    have hsum : cursor + runSize table lib (k + 1) p =
        cursor + lib.size (table p) + runSize table lib k (p + 1) := by
      rw [runSize]
      omega
    rw [runMacroWrites, List.forall_mem_cons, inside_macros_iff hcursor, hsum]
    constructor
    · intro h
      exact (ih h.1).mp h.2
    · intro h
      have hfirst : cursor + lib.size (table p) ≤ maxExpandedMacrosSize := by omega
      exact ⟨hfirst, (ih hfirst).mpr h⟩

end Areas

/-- The first macro of a section. -/
def TcParser.firstMacro (s : TcParser) (a : Nat) : Option Nat :=
  macrosFrom s.symbolAt a (s.tableEntries - 1) 0

section Sections

variable (lib : MacroLibrary) (s : TcParser) (a : Nat)

/-- The macros of every run at the begin of a section fit into the macro area. -/
def SectionFits : Prop :=
  s.sectionSize a ≤ maxSectionSize → ∀ first k, s.firstMacro a = some first →
    MacroRun s.symbolAt a lib (s.sectionSize a) k first 0 →
      runSize s.symbolAt lib k first ≤ maxExpandedMacrosSize

/-- The section can be expanded as a whole, and its macros take `n` bytes. -/
def ExpandsTo (n : Nat) : Prop :=
  s.sectionSize a ≤ maxSectionSize ∧
    match s.firstMacro a with
    | none => n = 0
    | some first => ∃ k, MacroRunToEnd s.symbolAt a lib (s.sectionSize a) k first 0 ∧
        n = runSize s.symbolAt lib k first

/-- What `expand_section` writes, and when it succeeds. -/
structure SectionExpanded (st : ExpandState) (err : Int) : Prop where
  length : st.destCursor ≤ maxSectionSize + 7
  success : err = 0 → st.destCursor ≤ maxSectionSize
  macros : (∀ w ∈ st.calls.flatMap (MacroCall.writes lib s.symbolAt a), w.Inside) ↔
    SectionFits lib s a
  fails : (∀ n, ¬ ExpandsTo lib s a n) → err ≠ 0
  expands : ∀ n, ExpandsTo lib s a n → err = 0 ∧ st.macrosCursor = n

variable {lib s a} in
theorem Ran.sectionExpanded {st st' : ExpandState} {err : Int} {first k : Nat}
    (h : Ran s.symbolAt a lib (s.sectionSize a) a k first st st' err)
    (hle : s.sectionSize a ≤ maxSectionSize) (hfirst : s.firstMacro a = some first)
    (hsrc : st.srcCursor = 0) (hmac : st.macrosCursor = 0) (hcalls : st.calls = []) :
    SectionExpanded lib s a st'
      (if err ≠ 0 then err else if st'.srcCursor = s.sectionSize a then 0 else -eio) := by
  have hsuccess : (if err ≠ 0 then err else if st'.srcCursor = s.sectionSize a then 0 else -eio) =
      0 ↔ MacroRunToEnd s.symbolAt a lib (s.sectionSize a) k first 0 := by
    rw [← hsrc, ← h.complete]
    have heio : ¬ (-eio : Int) = 0 := by decide
    split
    · rename_i herr
      exact ⟨fun h => absurd h herr, fun h => absurd h.1 herr⟩
    · rename_i herr
      split
      · rename_i hend
        exact ⟨fun _ => ⟨not_not.mp herr, hend⟩, fun _ => rfl⟩
      · rename_i hend
        exact ⟨fun h => absurd h heio, fun h => absurd h.2 hend⟩
  have hcursor : st'.macrosCursor = runSize s.symbolAt lib k first := by
    rw [h.cursor, hmac, Nat.zero_add]
  have hbound := h.bounded
  rw [hsrc] at hbound
  refine ⟨by rw [h.dest.1]; omega, fun herr => ?_, ?_, fun hno herr => ?_, fun n hn => ?_⟩
  · have hend := (h.complete.mpr (hsrc ▸ hsuccess.mp herr)).2
    rw [h.dest.1, hend]
    exact hle
  · rw [h.writes, hcalls, List.flatMap_nil, List.nil_append, hmac,
      runMacroWrites_inside (Nat.zero_le _), Nat.zero_add]
    constructor
    · intro hfits _ first' j hfirst' hj
      have heq : first = first' := Option.some.inj (hfirst.symm.trans hfirst')
      subst heq
      exact Nat.le_trans (runSize_le (h.longest j (hsrc ▸ hj))) hfits
    · intro hfits
      exact hfits hle first k hfirst (hsrc ▸ h.run)
  · refine hno (runSize s.symbolAt lib k first) ⟨hle, ?_⟩
    rw [hfirst]
    exact ⟨k, hsuccess.mp herr, rfl⟩
  · have hn' := hn.2
    rw [hfirst] at hn'
    obtain ⟨j, hj, heq⟩ := hn'
    have hjk := h.toEnd_eq (hsrc ▸ hj)
    subst hjk
    exact ⟨hsuccess.mpr hj, hcursor.trans heq.symm⟩

theorem expandSection_expanded (dest : Mem) :
    SectionExpanded lib s a (expandSection lib s a dest).1 (expandSection lib s a dest).2 := by
  unfold expandSection expandCode
  by_cases hsize : maxSectionSize < s.sectionSize a
  · rw [if_pos hsize]
    refine ⟨Nat.zero_le _, fun _ => Nat.zero_le _, ?_,
      fun _ => show (-eio : Int) ≠ 0 by decide, fun n hn => ?_⟩
    · exact ⟨fun _ hle => by omega, fun _ w hw => absurd hw (by simp)⟩
    · have := hn.1
      omega
  · rw [if_neg hsize]
    have hle := Nat.not_lt.mp hsize
    cases hfirst : macrosFrom s.symbolAt a (s.tableEntries - 1) 0 with
    | none =>
      refine ⟨Nat.le_trans hle (Nat.le_add_right _ _), fun _ => hle, ?_, fun h => ?_,
        fun n hn => ?_⟩
      · refine ⟨fun _ _ first k h => ?_, fun _ w hw => absurd hw (by simp)⟩
        exact absurd (hfirst.symm.trans h) (by simp)
      · refine absurd ⟨hle, ?_⟩ (h 0)
        unfold TcParser.firstMacro
        rw [hfirst]
      · have hn' := hn.2
        unfold TcParser.firstMacro at hn'
        rw [hfirst] at hn'
        exact ⟨rfl, hn'.symm⟩
    | some first =>
      have howner : (s.symbolAt first).owner = a := by
        have hmac := (macrosFrom_some hfirst).2.2.1
        unfold isMacroOf at hmac
        rw [Bool.and_eq_true, beq_iff_eq] at hmac
        exact hmac.1
      obtain ⟨k, hk⟩ := @expandLoop_ran s.symbolAt a lib (s.sectionSize a) a first
        ⟨0, 0, 0, some first, dest, macrosFromReads s.symbolAt a (s.tableEntries - 1) 0, []⟩
        (s.sectionCode a) (s.sectionSize a) (Nat.le_add_left _ _) rfl (if_pos howner).symm
      dsimp only
      cases hloop : expandLoop s.symbolAt a lib (s.sectionCode a) (s.sectionSize a)
        (s.sectionSize a) ⟨0, 0, 0, some first, dest,
          macrosFromReads s.symbolAt a (s.tableEntries - 1) 0, []⟩ with
      | mk st' err =>
        rw [hloop] at hk
        exact hk.sectionExpanded hle hfirst rfl rfl rfl

end Sections

section Scans

variable {src : Mem} {marker cursor : Nat}

theorem scanFor_bounds (fuel cursor : Nat) :
    cursor ≤ (scanFor src marker fuel cursor).1 ∧
      (scanFor src marker fuel cursor).1 ≤ cursor + fuel ∧
      ((scanFor src marker fuel cursor).2 = true →
        (scanFor src marker fuel cursor).1 < cursor + fuel) := by
  induction fuel generalizing cursor with
  | zero => exact ⟨Nat.le_refl _, Nat.le_refl _, fun h => absurd h (by simp [scanFor])⟩
  | succ fuel ih =>
    rw [scanFor]
    split
    · exact ⟨Nat.le_refl _, Nat.le_add_right _ _, fun _ => Nat.lt_add_of_pos_right (by omega)⟩
    · have h := ih (cursor + 1)
      refine ⟨by omega, by omega, fun hfound => ?_⟩
      have := h.2.2 hfound
      omega

/-- The cursor stays below `MAX_TEMPLATE_SIZE` when the marker is found. -/
theorem scanTemplate_bounds (src : Mem) (marker cursor : Nat) :
    cursor ≤ (scanTemplate src marker cursor).1 ∧
      (scanTemplate src marker cursor).1 ≤ max cursor maxTemplateSize ∧
      ((scanTemplate src marker cursor).2 = true →
        (scanTemplate src marker cursor).1 < maxTemplateSize) := by
  have h := @scanFor_bounds src marker (maxTemplateSize - cursor) cursor
  unfold scanTemplate
  refine ⟨h.1, by omega, fun hfound => ?_⟩
  have := h.2.2 hfound
  omega

end Scans

section Main

variable (lib : MacroLibrary) (src : Mem) (s : TcParser)

/-- The cursor behind the first marker. -/
def afterStart : Nat := (scanTemplate src templateStart 0).1 + templateMarkerSize

/-- The cursor behind the marker of the test case. -/
def afterInsertTc : Nat := (scanTemplate src templateInsertTc (afterStart src)).1 + templateMarkerSize

/-- The template has a place for the test case. -/
def HasTestCase : Prop :=
  (scanTemplate src templateStart 0).2 = true ∧
    (scanTemplate src templateInsertTc (afterStart src)).2 = true

/-- The template has a place for the fault handler behind it. -/
def HasLanding : Prop :=
  (scanTemplate src templateDefaultExceptionLanding (afterInsertTc src)).2 = true

/-- The default fault handler fits behind the macros of the main section. -/
def HandlerFits : Prop :=
  s.features.hasExplicitFaultHandler = false → lib.expands measurementEnd = true →
    ∀ n, ExpandsTo lib s 0 n → n + lib.size measurementEnd ≤ maxExpandedMacrosSize

/-- The macros of the main section fit, as far as they are expanded. -/
def MainFits : Prop :=
  s.sectionOwner 0 = 0 → HasTestCase src → SectionFits lib s 0 ∧ (HasLanding src → HandlerFits lib s)

variable {lib src s}

/-- Everything that was written is inside. -/
def AllInside (ws : List CodeWrite) : Prop := ∀ w ∈ ws, w.Inside

theorem allInside_append {ws ws' : List CodeWrite} :
    AllInside (ws ++ ws') ↔ AllInside ws ∧ AllInside ws' := List.forall_mem_append

theorem allInside_singleton {w : CodeWrite} : AllInside [w] ↔ w.Inside := List.forall_mem_singleton

/-- The room that the rest of the template needs. -/
def MainLoad.reach (st : MainLoad) : Nat := st.destCursor + (maxTemplateSize - st.srcCursor)

variable {marker : Nat} {st : MainLoad} {P : Prop}

theorem MainLoad.copied_cursors :
    (st.copied src marker).srcCursor = (scanTemplate src marker st.srcCursor).1 ∧
      (st.copied src marker).destCursor + st.srcCursor =
        st.destCursor + (scanTemplate src marker st.srcCursor).1 := by
  have h := (scanTemplate_bounds src marker st.srcCursor).1
  refine ⟨Nat.add_sub_cancel' h, ?_⟩
  show st.destCursor + (_ - _) + _ = _
  omega

theorem MainLoad.copied_inside (hreach : st.reach ≤ maxExpandedSectionSize) :
    AllInside (st.copied src marker).writes ↔ AllInside st.writes := by
  have h := scanTemplate_bounds src marker st.srcCursor
  unfold MainLoad.reach at hreach
  refine allInside_append.trans ⟨fun hin => hin.1, fun hin => ⟨hin, ?_⟩⟩
  exact allInside_singleton.mpr (inside_section (by omega))

/-- A copy adds nothing but bytes of the section area, and only goes on behind the marker. -/
theorem MainLoad.copyTo_inside {f : MainLoad → Except MainLoad MainLoad}
    (hreach : st.reach ≤ maxExpandedSectionSize)
    (hf : (scanTemplate src marker st.srcCursor).2 = true →
      (AllInside (mainWrites (f (st.copied src marker).stepOver)) ↔
        AllInside (st.copied src marker).stepOver.writes ∧ P)) :
    AllInside (mainWrites (st.copyTo src marker >>= f)) ↔
      AllInside st.writes ∧ ((scanTemplate src marker st.srcCursor).2 = true → P) := by
  have hcopied := @MainLoad.copied_inside src marker st hreach
  unfold MainLoad.copyTo
  cases hfound : (scanTemplate src marker st.srcCursor).2 with
  | false =>
    rw [if_neg (by simp)]
    show AllInside (st.copied src marker).writes ↔ _
    rw [hcopied]
    exact ⟨fun h => ⟨h, fun hno => absurd hno (by simp)⟩, fun h => h.1⟩
  | true =>
    rw [if_pos rfl]
    show AllInside (mainWrites (f (st.copied src marker).stepOver)) ↔ _
    rw [hf hfound]
    show AllInside (st.copied src marker).writes ∧ P ↔ _
    rw [hcopied]
    exact ⟨fun h => ⟨h.1, fun _ => h.2⟩, fun h => ⟨h.1, h.2 rfl⟩⟩

/-- The rest of the template. -/
theorem MainLoad.finish_inside (hreach : st.reach ≤ maxExpandedSectionSize) :
    AllInside (mainWrites (st.copyTo src templateEnd >>= MainLoad.checkSize)) ↔
      AllInside st.writes := by
  have h := @MainLoad.copyTo_inside src templateEnd st True MainLoad.checkSize hreach (fun _ => by
      unfold MainLoad.checkSize
      split
      · exact (and_iff_left trivial).symm
      · exact (and_iff_left trivial).symm)
  exact h.trans ⟨fun h => h.1, fun h => ⟨h, fun _ => trivial⟩⟩

/-- The default fault handler is the only other thing that goes to the macro area. -/
theorem MainLoad.landFaultHandler_inside
    (hreach : st.reach + macroPlaceholderSize ≤ maxExpandedSectionSize) :
    AllInside (mainWrites (st.landFaultHandler lib s >>= fun st =>
        st.copyTo src templateEnd >>= MainLoad.checkSize)) ↔
      AllInside st.writes ∧ (s.features.hasExplicitFaultHandler = false →
        lib.expands measurementEnd = true →
          CodeWrite.Inside ⟨0, .macros, st.macrosCursor, lib.size measurementEnd⟩) := by
  unfold MainLoad.reach macroPlaceholderSize at hreach
  unfold MainLoad.landFaultHandler expandMacro
  cases hexp : s.features.hasExplicitFaultHandler with
  | true =>
    rw [if_pos rfl]
    refine (MainLoad.finish_inside ?_).trans
      ⟨fun h => ⟨h, fun hno => absurd hno (by simp)⟩, fun h => h.1⟩
    show st.destCursor + 8 + (maxTemplateSize - st.srcCursor) ≤ maxExpandedSectionSize
    omega
  | false =>
    rw [if_neg (by simp)]
    dsimp only
    rw [if_neg (show ¬ measurementEnd.id = 0 by decide)]
    cases hknown : lib.known measurementEnd.id with
    | false =>
      rw [if_pos rfl]
      refine ⟨fun h => ⟨h, fun _ hyes => ?_⟩, fun h => h.1⟩
      unfold MacroLibrary.expands at hyes
      rw [hknown, Bool.and_false] at hyes
      exact absurd hyes (by simp)
    | true =>
      rw [if_neg (by simp)]
      have hyes : lib.expands measurementEnd = true := by
        unfold MacroLibrary.expands
        rw [hknown]
        rfl
      refine (MainLoad.finish_inside ?_).trans ?_
      · show st.destCursor + 8 + (maxTemplateSize - st.srcCursor) ≤ maxExpandedSectionSize
        omega
      · refine allInside_append.trans ⟨fun h => ⟨h.1, fun _ _ => ?_⟩, fun h => ⟨h.1, ?_⟩⟩
        · exact h.2 _ (List.mem_cons_of_mem _ (List.mem_singleton.mpr rfl))
        · refine List.forall_mem_cons.mpr ⟨inside_section ?_, allInside_singleton.mpr (h.2 rfl hyes)⟩
          show st.destCursor + 8 ≤ maxExpandedSectionSize
          omega

theorem ExpandsTo.le {a n : Nat} (h : ExpandsTo lib s a n) (hfits : SectionFits lib s a) :
    n ≤ maxExpandedMacrosSize := by
  have hn := h.2
  cases hfirst : s.firstMacro a with
  | none =>
    rw [hfirst] at hn
    have hzero : n = 0 := hn
    rw [hzero]
    exact Nat.zero_le _
  | some first =>
    rw [hfirst] at hn
    obtain ⟨k, hk, heq⟩ := hn
    rw [heq]
    exact hfits h.1 first k hfirst (macroRun_of_toEnd hk)

/-- The writes of `expand_section` are inside when the macros fit, as long as there is room for
the section. -/
theorem expandWrites_inside {a base : Nat} (dest : Mem)
    (hbase : base + (maxSectionSize + 7) ≤ maxExpandedSectionSize) :
    AllInside (expandWrites lib s.symbolAt a base (expandSection lib s a dest).1) ↔
      SectionFits lib s a := by
  have h := expandSection_expanded lib s a dest
  have hlen := h.length
  rw [← h.macros]
  refine List.forall_mem_cons.trans ⟨fun h => h.2, fun h => ⟨inside_section ?_, h⟩⟩
  omega

/-- The part of the template behind the test case. -/
def afterTestCase (lib : MacroLibrary) (src : Mem) (s : TcParser) (st : MainLoad) :
    Except MainLoad MainLoad :=
  st.copyTo src templateDefaultExceptionLanding >>= fun st =>
    st.landFaultHandler lib s >>= fun st => st.copyTo src templateEnd >>= MainLoad.checkSize

theorem afterTestCase_inside
    (hreach : st.reach + macroPlaceholderSize ≤ maxExpandedSectionSize) :
    AllInside (mainWrites (afterTestCase lib src s st)) ↔
      AllInside st.writes ∧
        ((scanTemplate src templateDefaultExceptionLanding st.srcCursor).2 = true →
          s.features.hasExplicitFaultHandler = false → lib.expands measurementEnd = true →
            CodeWrite.Inside ⟨0, .macros, st.macrosCursor, lib.size measurementEnd⟩) := by
  refine MainLoad.copyTo_inside (by omega) fun hfound => ?_
  obtain ⟨hsrc, hdest⟩ := @MainLoad.copied_cursors src templateDefaultExceptionLanding st
  have hlt := (scanTemplate_bounds src templateDefaultExceptionLanding st.srcCursor).2.2 hfound
  refine MainLoad.landFaultHandler_inside ?_
  unfold MainLoad.reach macroPlaceholderSize at *
  show (st.copied src templateDefaultExceptionLanding).destCursor + (maxTemplateSize -
    ((st.copied src templateDefaultExceptionLanding).srcCursor + templateMarkerSize)) + 8 ≤ _
  unfold templateMarkerSize maxTemplateSize maxExpandedSectionSize at *
  omega

/-- From the marker of the test case on. -/
theorem insertTestCase_inside {dest : Mem}
    (hreach : st.reach + (maxSectionSize + macroPlaceholderSize) ≤ maxExpandedSectionSize)
    (hmac : st.macrosCursor = 0) :
    AllInside (mainWrites (st.insertTestCase lib s dest >>= afterTestCase lib src s)) ↔
      AllInside st.writes ∧ SectionFits lib s 0 ∧
        ((scanTemplate src templateDefaultExceptionLanding st.srcCursor).2 = true →
          HandlerFits lib s) := by
  have hexp := expandSection_expanded lib s 0 fun i => dest (st.destCursor + i)
  have hin : AllInside (expandWrites lib s.symbolAt 0 st.destCursor
      (expandSection lib s 0 fun i => dest (st.destCursor + i)).1) ↔ SectionFits lib s 0 := by
    refine expandWrites_inside _ ?_
    unfold MainLoad.reach macroPlaceholderSize at hreach
    omega
  unfold MainLoad.insertTestCase
  dsimp only
  by_cases herr : (expandSection lib s 0 fun i => dest (st.destCursor + i)).2 = 0
  · rw [if_neg (not_not.mpr herr)]
    obtain ⟨n, hn⟩ : ∃ n, ExpandsTo lib s 0 n := by
      by_contra hno
      exact hexp.fails (fun n hn => hno ⟨n, hn⟩) herr
    have hcursor := (hexp.expands n hn).2
    have hlen := hexp.success herr
    refine (afterTestCase_inside ?_).trans ?_
    · show st.destCursor + (expandSection lib s 0 fun i => dest (st.destCursor + i)).1.destCursor +
        (maxTemplateSize - st.srcCursor) + macroPlaceholderSize ≤ maxExpandedSectionSize
      unfold MainLoad.reach at hreach
      omega
    · show AllInside (st.writes ++ _) ∧ _ ↔ _
      rw [allInside_append, hin, and_assoc]
      refine and_congr_right fun _ => and_congr_right fun hfits => forall_congr' fun _ =>
        forall_congr' fun _ => forall_congr' fun _ => ?_
      show CodeWrite.Inside ⟨0, .macros, st.macrosCursor +
        (expandSection lib s 0 fun i => dest (st.destCursor + i)).1.macrosCursor, _⟩ ↔ _
      rw [hmac, hcursor, Nat.zero_add, inside_macros_iff (hn.le hfits)]
      constructor
      · intro hle n' hn'
        rw [← (hexp.expands n' hn').2, hcursor]
        exact hle
      · intro hle
        exact hle n hn
  · rw [if_pos herr]
    show AllInside (st.writes ++ _) ↔ _
    rw [allInside_append, hin]
    refine and_congr_right fun _ => ⟨fun hfits => ⟨hfits, fun _ _ _ n hn => ?_⟩, fun h => h.1⟩
    exact absurd (hexp.expands n hn).1 herr

theorem loadSectionMain_inside (dest : Mem) :
    AllInside (mainWrites (loadSectionMain lib src s dest)) ↔ MainFits lib src s := by
  have hnil : AllInside [] := fun w hw => absurd hw (by simp)
  unfold loadSectionMain MainFits HasTestCase HasLanding
  dsimp only
  by_cases howner : s.sectionOwner 0 = 0
  · rw [if_neg (not_not.mpr howner)]
    cases hstart : (scanTemplate src templateStart 0).2 with
    | false =>
      rw [if_pos rfl]
      exact ⟨fun _ _ h => absurd h.1 (by simp), fun _ => hnil⟩
    | true =>
      rw [if_neg (by simp)]
      refine (MainLoad.copyTo_inside (P := SectionFits lib s 0 ∧
        ((scanTemplate src templateDefaultExceptionLanding (afterInsertTc src)).2 = true →
          HandlerFits lib s)) ?_ fun hfound => ?_).trans ?_
      · unfold MainLoad.reach maxTemplateSize maxExpandedSectionSize
        show 0 + (0x1000 - _) ≤ 0x1000 * 2
        omega
      · obtain ⟨hsrc, hdest⟩ := @MainLoad.copied_cursors src templateInsertTc
          ⟨afterStart src, 0, 0, none, []⟩
        have hlt := (scanTemplate_bounds src templateInsertTc (afterStart src)).2.2 hfound
        have hsrc' : ((MainLoad.copied src templateInsertTc
            ⟨afterStart src, 0, 0, none, []⟩).stepOver).srcCursor = afterInsertTc src :=
          congrArg (· + templateMarkerSize) hsrc
        have hinsert := @insertTestCase_inside lib src s
          (MainLoad.copied src templateInsertTc ⟨afterStart src, 0, 0, none, []⟩).stepOver dest ?_
          rfl
        · rw [hsrc'] at hinsert
          exact hinsert
        · have hafter : 8 ≤ afterStart src := Nat.le_add_left _ _
          dsimp only at hdest
          unfold MainLoad.reach
          rw [hsrc']
          show (MainLoad.copied src templateInsertTc ⟨afterStart src, 0, 0, none, []⟩).destCursor +
            (maxTemplateSize - (_ + templateMarkerSize)) + _ ≤ _
          unfold templateMarkerSize maxTemplateSize maxExpandedSectionSize maxSectionSize
            macroPlaceholderSize at *
          omega
      · constructor
        · intro h _ hmarkers
          exact h.2 hmarkers.2
        · intro h
          exact ⟨hnil, fun hfound => h howner ⟨rfl, hfound⟩⟩
  · rw [if_pos howner]
    exact ⟨fun _ h => absurd h howner, fun _ => hnil⟩

end Main

/-- The macros that are expanded fit into the macro area of every actor, in the main section
together with the default fault handler. -/
def CodeFits (lib : MacroLibrary) (src : Mem) (s : TcParser) : Prop :=
  0 < s.nActors → MainFits lib src s ∧ ∀ a, 0 < a → a < s.nActors → SectionFits lib s a

theorem resetCodeArea_inside (n : Nat) : AllInside (resetCodeArea n) := by
  refine allInside_append.mpr ⟨fun w hw => ?_, allInside_singleton.mpr (inside_section (by decide))⟩
  obtain ⟨a, -, ha⟩ := List.mem_flatMap.mp hw
  rcases List.mem_cons.mp ha with rfl | ha
  · exact inside_section (by decide)
  · rw [List.mem_singleton] at ha
    subst ha
    exact (inside_macros_iff (Nat.zero_le _)).mpr (by decide)

/-- Every byte that is written while the code is loaded lies in the buffer it is meant for if and
only if the expanded macros fit. -/
theorem loadSandboxCode_inside_iff (lib : MacroLibrary) (templates : Templates)
    (dbgGprMode : Bool) (s : TcParser) :
    (∀ w ∈ (loadSandboxCode lib templates dbgGprMode s).writes, w.Inside) ↔
      CodeFits lib (templates.selected dbgGprMode) s := by
  show AllInside _ ↔ _
  unfold loadSandboxCode CodeFits
  dsimp only
  by_cases hn : s.nActors = 0
  · rw [if_pos hn]
    exact ⟨fun _ h => by omega, fun _ => resetCodeArea_inside 0⟩
  · rw [if_neg hn]
    dsimp only
    rw [allInside_append, allInside_append, loadSectionMain_inside]
    have hothers : AllInside (((List.range (s.nActors - 1)).map fun k =>
        loadSection lib s (k + 1) fun _ => 0x90).flatMap Prod.fst) ↔
          ∀ a, 0 < a → a < s.nActors → SectionFits lib s a := by
      constructor
      · intro h a hpos hlt
        refine (@expandWrites_inside lib s a 0 (fun _ => 0x90) (by decide)).mp fun w hw => ?_
        refine h w (List.mem_flatMap.mpr ⟨loadSection lib s a fun _ => 0x90, ?_, hw⟩)
        exact List.mem_map.mpr ⟨a - 1, List.mem_range.mpr (by omega),
          by rw [Nat.sub_add_cancel hpos]⟩
      · intro h w hw
        obtain ⟨r, hr, hw⟩ := List.mem_flatMap.mp hw
        obtain ⟨k, hk, rfl⟩ := List.mem_map.mp hr
        have hlt := List.mem_range.mp hk
        exact (@expandWrites_inside lib s (k + 1) 0 (fun _ => 0x90) (by decide)).mpr
          (h (k + 1) (Nat.succ_pos k) (by omega)) w hw
    rw [hothers]
    constructor
    · intro h _
      exact h.2
    · intro h
      exact ⟨resetCodeArea_inside _, h (Nat.pos_of_ne_zero hn)⟩

section Samples

/-- Fourteen macros that start a measurement, one that ends it, and the main function. -/
def crowdedSymbols : List Nat :=
  (List.range 14).flatMap (fun i => [0, 8 * i, 1, 0]) ++ [0, 112, 2, 0, 0, 0, 0, 0]

def crowdedTables : List TcWrite :=
  [sampleWrite (encodeWords [1, 16]), sampleWrite (encodeWords (List.replicate 6 0)),
    sampleWrite (encodeWords crowdedSymbols), sampleWrite (encodeWords [0, 120, 0])]

def crowdedCode : TcWrite := sampleWrite (List.replicate 120 0x90)

/-- The last call of the parser. -/
def crowdedParsed : TcParser × ParseResult :=
  parseTestCaseBuffer crowdedCode.env (runWrites (TcParser.init fun _ => 0) crowdedTables)
    crowdedCode.buf

/-- The macro that fills an L1D cache of eight ways is 289 bytes long, with a jump of 8 bytes
behind it. -/
def primeLibrary : MacroLibrary :=
  ⟨fun _ => true, fun _ _ _ => Vector.replicate 8 0,
    fun e => if e.id = macroMeasurementStart then 297 else 16⟩

/-- A template with nothing between its markers. -/
def bareTemplate : Mem := fun i =>
  (encodeWords [templateStart, templateInsertTc, templateDefaultExceptionLanding,
    templateEnd]).getD i 0

theorem crowdedParsed_tables : crowdedParsed.2.finished = true ∧ 0 ≤ crowdedParsed.2.ret ∧
    crowdedParsed.1.nActors = 1 ∧ crowdedParsed.1.sectionOwner 0 = 0 ∧
    crowdedParsed.1.sectionSize 0 = 120 ∧ crowdedParsed.1.tableEntries = 16 ∧
    ∀ i ∈ List.range 14, crowdedParsed.1.symbolAt i = ⟨0, 8 * i, 1, 0⟩ := by decide +kernel

/-- The last of fourteen macros that start a measurement is written beyond the macro area. -/
theorem crowded_not_inside {s : TcParser} (hn : s.nActors = 1) (howner : s.sectionOwner 0 = 0)
    (hsize : s.sectionSize 0 = 120) (hentries : s.tableEntries = 16)
    (hsymbol : ∀ i ∈ List.range 14, s.symbolAt i = ⟨0, 8 * i, 1, 0⟩) :
    ¬ ∀ w ∈ (loadSandboxCode primeLibrary ⟨bareTemplate, bareTemplate⟩ false s).writes,
      w.Inside := by
  intro hin
  have hsymbol : ∀ i, i < 14 → s.symbolAt i = ⟨0, 8 * i, 1, 0⟩ := fun i hi =>
    hsymbol i (List.mem_range.mpr hi)
  have hmac : isMacroOf s.symbolAt 0 0 = true := by
    unfold isMacroOf
    rw [hsymbol 0 (by decide)]
    rfl
  have hfirst : s.firstMacro 0 = some 0 := by
    unfold TcParser.firstMacro
    rw [hentries, macrosFrom, if_pos hmac]
  have hrun : ∀ k i, i + k ≤ 14 → MacroRun s.symbolAt 0 primeLibrary 120 k i (8 * i) ∧
      runSize s.symbolAt primeLibrary k i = 297 * k := by
    intro k
    induction k with
    | zero => exact fun i _ => ⟨trivial, rfl⟩
    | succ k ih =>
      intro i hi
      obtain ⟨hrest, hsum⟩ := ih (i + 1) (by omega)
      rw [MacroRun, runSize, hsum, Pending, hsymbol i (by omega)]
      refine ⟨⟨⟨rfl, Nat.le_refl _, ?_⟩, rfl, hrest⟩, ?_⟩
      · show 8 * i < 120
        omega
      · show 297 + 297 * k = 297 * (k + 1)
        omega
  have hmain : MainFits primeLibrary bareTemplate s := by
    refine (loadSectionMain_inside (Mem.set (fun _ => 0x90) 0 0xc3)).mp fun w hw => hin w ?_
    unfold loadSandboxCode
    dsimp only
    rw [if_neg (by rw [hn]; decide)]
    exact List.mem_append_right _ (List.mem_append_left _ hw)
  have hmarkers : HasTestCase bareTemplate := by
    unfold HasTestCase
    decide +kernel
  have hfits := (hmain howner hmarkers).1 (by rw [hsize]; decide) 0 14 hfirst
    (by rw [hsize]; exact (hrun 14 0 (by decide)).1)
  rw [(hrun 14 0 (by decide)).2] at hfits
  exact absurd hfits (by decide)

/-- The parser accepts the test case, and the last macro is written beyond the macro area. -/
theorem crowdedParsed_not_inside :
    crowdedParsed.2.finished = true ∧ 0 ≤ crowdedParsed.2.ret ∧
      ¬ ∀ w ∈ (loadSandboxCode primeLibrary ⟨bareTemplate, bareTemplate⟩ false
        crowdedParsed.1).writes, w.Inside := by
  obtain ⟨hfin, hret, hn, howner, hsize, hentries, hsymbols⟩ := crowdedParsed_tables
  exact ⟨hfin, hret, crowded_not_inside hn howner hsize hentries hsymbols⟩

end Samples

end Rvzr.Km
