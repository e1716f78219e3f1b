import Rustdv.Machine.Run
import Rustdv.Model.Sync
import Rustdv.Model.Queue
import Rustdv.Machine.Simulation
import Rustdv.Model.Handshake
import Rustdv.Soundness.SequencerRefinement
import Rustdv.Soundness.Agreement
import Rustdv.Soundness.DriverCancel
import Rustdv.Model.Executor
import Rustdv.Soundness.TaskLives
import Rustdv.Soundness.Scheduling
import Rustdv.Model.Phase
import Rustdv.Soundness.PhaseBooks
import Rustdv.Soundness.WriteCoalescing
import Rustdv.Soundness.PhaseWaits
import Rustdv.Model.ConfigDb
import Rustdv.Soundness.Specificity
import Rustdv.Model.Component
import Rustdv.Model.RunPhase
import Rustdv.Soundness.Restore
import Rustdv.Soundness.Consensus
import Rustdv.Soundness.Phaser
import Rustdv.Model.Runner
import Rustdv.Soundness.Regression
import Rustdv.Machine.WaitList
import Rustdv.Soundness.QueueLinearity
import Rustdv.Model.Lock
import Rustdv.Soundness.LockFairness
import Rustdv.Model.Channel
import Rustdv.Soundness.ChannelAgreement
import Rustdv.Model.Responses
import Rustdv.Soundness.ResponseRouting
import Rustdv.Model.TlmFifo
import Rustdv.Soundness.FifoTaps
import Rustdv.Soundness.SignalAliases
import Rustdv.Soundness.TieRule
import Rustdv.ToMathlib.Backlog
import Rustdv.Model.Drain
import Rustdv.Soundness.DrainOrder
import Rustdv.Soundness.Arbitration
import Rustdv.Soundness.SequenceCancel
import Rustdv.Model.Teardown
import Rustdv.Soundness.CallStack
import Rustdv.Soundness.Cleanup
import Rustdv.Soundness.Survival
import Rustdv.Model.TestRun
import Rustdv.Soundness.Attribution
import Rustdv.Model.Log
import Rustdv.Model.Ambient
import Rustdv.Soundness.Isolation
import Rustdv.Soundness.SequenceSeed
import Rustdv.ToMathlib.Followed
import Rustdv.Model.Callbacks
import Rustdv.Soundness.CallbackLifecycle
import Rustdv.Soundness.TrampolinePanics
import Rustdv.ToMathlib.Limbs
import Rustdv.Model.LogicArray
import Rustdv.Soundness.VpiWords
import Rustdv.Soundness.Codec
import Rustdv.Model.LogicHandle
import Rustdv.Soundness.RoundTrip
import Rustdv.Model.Cycle
import Rustdv.Soundness.CycleBackends
import Rustdv.Soundness.GlobInclusion
import Rustdv.Soundness.Precedence
import Rustdv.Model.Factory
import Rustdv.Soundness.Overrides
import Rustdv.Model.RustType
import Rustdv.Soundness.OverrideKeys
import Rustdv.Soundness.FastGetters
import Rustdv.Model.CycleBindings
import Rustdv.Soundness.PortWidths
import Rustdv.ToMathlib.Segments
import Rustdv.Model.Path
import Rustdv.Soundness.LogLevels
import Rustdv.Model.ObjectionWaits
import Rustdv.Soundness.ObjectionBooks
import Rustdv.Model.RuntimeTrace
import Rustdv.Soundness.TraceCapture
import Rustdv.Model.PhaseRegions
import Rustdv.Soundness.DueTasks
import Rustdv.Soundness.RegionInvariant
import Rustdv.Soundness.ReadOnlyRegion
import Rustdv.Soundness.Durations
import Rustdv.ToMathlib.Grounded
import Rustdv.Model.Combinators
import Rustdv.Soundness.Rounds
import Rustdv.Soundness.Joining
import Rustdv.Soundness.Combinators
import Rustdv.Xml.Value
import Rustdv.Xml.Parse
import Rustdv.Xml.Render
import Rustdv.Xml.Decode
import Rustdv.Model.Xunit
import Rustdv.Soundness.XunitTree
import Rustdv.Soundness.XunitReport
import Rustdv.Model.TinyAlu
import Rustdv.Soundness.TinyAluPipeline
import Rustdv.Soundness.TinyAluHandshake
import Rustdv.Soundness.TinyAluTestbench
import Rustdv.Model.AluTests
import Rustdv.Soundness.AluTests
import Rustdv.ToMathlib.XorShift
import Rustdv.Model.Rng
import Rustdv.Soundness.RngPeriod
import Rustdv.Model.StreamBench
import Rustdv.Soundness.StreamPass
import Rustdv.Soundness.StreamVerdict
import Rustdv.Soundness.StreamBackends
import Rustdv.Model.StreamCpp
import Rustdv.Soundness.StreamCpp
import Rustdv.Model.Analysis
import Rustdv.Soundness.AnalysisHubs
import Rustdv.ToMathlib.RecordLayout
import Rustdv.Model.CycleAbi
import Rustdv.Soundness.CycleAbi
import Rustdv.Soundness.TreePaths
import Rustdv.Soundness.SubtreeSettings
