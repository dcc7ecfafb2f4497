import Rvzr.Lib.Grouping
import Rvzr.Lib.Text
import Rvzr.Lib.Answers
import Rvzr.Lib.Bytes
import Rvzr.Analyser.Traces
import Rvzr.Analyser.HwClasses
import Rvzr.Analyser.FilterViolations
import Rvzr.Analyser.Detection
import Rvzr.Analyser.OutlierFilter
import Rvzr.TestCase.Binary
import Rvzr.Km.TestCaseParser
import Rvzr.Km.Rcbf
import Rvzr.Km.RoundTrip
import Rvzr.Km.Recovery
import Rvzr.Km.Sysfs
import Rvzr.Km.Readiness
import Rvzr.Km.Fragments
import Rvzr.Lib.Lines
import Rvzr.Executor.Reader
import Rvzr.Executor.Agreement
import Rvzr.Executor.Consumers
import Rvzr.Km.CodeLoader
import Rvzr.Lib.Hoare
import Rvzr.Fuzzer.Round
import Rvzr.Fuzzer.Analysis
import Rvzr.Fuzzer.Priming
import Rvzr.Fuzzer.Stages
import Rvzr.Fuzzer.Answers
import Rvzr.Fuzzer.IgnoreList
import Rvzr.Fuzzer.Survivors
import Rvzr.Unicorn.LoadInput
import Rvzr.Unicorn.TaintLabels
import Rvzr.Unicorn.Speculators
import Rvzr.Unicorn.Branches
import Rvzr.Unicorn.Arm64Branches
import Rvzr.Unicorn.StateMachine
import Rvzr.Unicorn.Levels
import Rvzr.Unicorn.Window
import Rvzr.Unicorn.Barriers
import Rvzr.Unicorn.Sequential
import Rvzr.Unicorn.CondBpas
import Rvzr.Unicorn.Rollback
import Rvzr.Unicorn.StepConditions
import Rvzr.Unicorn.Progress
import Rvzr.Unicorn.Transparency
import Rvzr.Dynamorio.Speculator
import Rvzr.Dynamorio.Nesting
import Rvzr.Lib.Records
import Rvzr.Dynamorio.TraceFile
import Rvzr.Dynamorio.TraceReader
import Rvzr.Km.PageTables
import Rvzr.Km.TablesRestored
import Rvzr.Dynamorio.TaintTracker
import Rvzr.Dynamorio.TaintFile
import Rvzr.Dynamorio.TaintIsolation
import Rvzr.Km.LoadBounds
import Rvzr.Km.WholeFile
import Rvzr.Dynamorio.RcbfParser
import Rvzr.Lib.Stutter
import Rvzr.Dynamorio.Dispatcher
import Rvzr.Dynamorio.StoreUndo
import Rvzr.Dynamorio.CondTransparency
import Rvzr.Lib.Ledger
import Rvzr.Km.SandboxManager
import Rvzr.Km.SandboxCapacity
import Rvzr.Km.SandboxTables
import Rvzr.Km.SandboxRuns
import Rvzr.TestCase.Macros
import Rvzr.Km.TargetTypes
import Rvzr.TestCase.ElfParser
import Rvzr.Lib.Folds
import Rvzr.Lib.Sorting
import Rvzr.TestCase.Numbering
import Rvzr.Km.MacroTargets
import Rvzr.TestCase.SectionIds
import Rvzr.Unicorn.MainSection
import Rvzr.Postprocessing.Minimizer
import Rvzr.Postprocessing.Reapplied
import Rvzr.Generator.PlannedFlow
import Rvzr.Generator.DataGenerator
import Rvzr.Generator.SpecialValues
import Rvzr.Generator.Boosting
import Rvzr.Lib.DefUse
import Rvzr.X86.Instruction
import Rvzr.X86.FlagPatching
import Rvzr.X86.Machine
import Rvzr.X86.Division
import Rvzr.X86.Sandboxing
import Rvzr.X86.U2KAccess
import Rvzr.X86.U2KConfinement
import Rvzr.Lib.Numerals
import Rvzr.Lib.Partition
import Rvzr.Analyser.TraceEquality
import Rvzr.Analyser.ClassBuilding
import Rvzr.Km.DataLoader
import Rvzr.Executor.SameStart
import Rvzr.Km.HeaderSizes
import Rvzr.Executor.TracePages
import Rvzr.Executor.Validity
import Rvzr.Km.ActorFeatures
import Rvzr.Dynamorio.TraceCheck
import Rvzr.Lib.Links
import Rvzr.TestCase.CodeBlocks
import Rvzr.Generator.Templates
import Rvzr.Lib.Blocks
import Rvzr.Unicorn.LineTracer
import Rvzr.Postprocessing.ViolatingPair
import Rvzr.TestCase.BlockLists
import Rvzr.Postprocessing.OneMinimal
import Rvzr.Postprocessing.LocalEdits
import Rvzr.Postprocessing.LabelRemoval
import Rvzr.Lib.Bits
import Rvzr.Lib.TableWalk
import Rvzr.Km.GuestPageTables
import Rvzr.Km.GuestTranslation
import Rvzr.Km.GuestSetUp
import Rvzr.Lib.Saved
import Rvzr.Km.SpecialRegisters
import Rvzr.Km.RegistersRestored
import Rvzr.TestCase.AcceptedActors
import Rvzr.Unicorn.Permissions
import Rvzr.Km.FaultyPermissions
