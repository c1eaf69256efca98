import Fhenomenon.Lib.OrderedSet
import Fhenomenon.Lib.FarthestUse
import Fhenomenon.Lib.Ownership
import Fhenomenon.Lib.Removals
import Fhenomenon.Lib.Rounding
import Fhenomenon.Lib.LongestChain
import Fhenomenon.InstructionStream
import Fhenomenon.MovementPlanner
import Fhenomenon.PlannerTables
import Fhenomenon.PlannerSteps
import Fhenomenon.PlanLifetimes
import Fhenomenon.DeviceReplay
import Fhenomenon.PlanReplay
import Fhenomenon.PlanBudget
import Fhenomenon.PlanSoundness
import Fhenomenon.PlanAcceptance
import Fhenomenon.LevelInference
import Fhenomenon.PlannerThreshold
import Fhenomenon.LevelChains
import Fhenomenon.PlanOptimality
import Fhenomenon.DefaultExecutor
import Fhenomenon.DispatchRecipes
import Fhenomenon.RecordedExecution
import Fhenomenon.PlanLegality
import Fhenomenon.StalePlans
import Fhenomenon.DeviceAbi
import Fhenomenon.MovementWorld
import Fhenomenon.ExecutorRefinement
import Fhenomenon.ProgramRefinement
import Fhenomenon.PlanAwareRefinement
import Fhenomenon.ExecutorCleanup
import Fhenomenon.ToyFhe
import Fhenomenon.ToyFheNoise
import Fhenomenon.ToyFheKernels
import Fhenomenon.FusedDispatch
import Fhenomenon.RecordedGraph
import Fhenomenon.Lowering
import Fhenomenon.SessionRuntime
import Fhenomenon.LoweringSound
import Fhenomenon.RecordedMeaning
import Fhenomenon.GraphSimulation
import Fhenomenon.ExecutorLocality
import Fhenomenon.WriteBack
import Fhenomenon.SessionRefinement
import Fhenomenon.SessionWorld
import Fhenomenon.AliasedDecomposition
import Fhenomenon.KernelContracts
import Fhenomenon.CorpusOracle
import Fhenomenon.CheckedDispatch
import Fhenomenon.ToyFheExecution
import Fhenomenon.Lib.Fallible
import Fhenomenon.Recording
import Fhenomenon.EntityMap
import Fhenomenon.RecordingSteps
import Fhenomenon.SessionBodies
import Fhenomenon.RecordingFrame
import Fhenomenon.LiteralRecording
import Fhenomenon.Lib.GuardedRuns
import Fhenomenon.EntityLifetimes
import Fhenomenon.RecordedStore
import Fhenomenon.BodyMeaning
import Fhenomenon.MirroredExpressions
import Fhenomenon.MirroredBodies
import Fhenomenon.ValueSemantics
import Fhenomenon.DecompositionCalls
import Fhenomenon.PlannerRuns
import Fhenomenon.ByteAccounting
import Fhenomenon.HighWaterThreshold
import Fhenomenon.FlatModelScaling
import Fhenomenon.BudgetInclusion
import Fhenomenon.NodeGraphs
import Fhenomenon.LoweringWalk
import Fhenomenon.EmissionInvariant
import Fhenomenon.FaithfulLowering
import Fhenomenon.PrintedGraphs
import Fhenomenon.LegacyEvaluation
import Fhenomenon.MixedBodies
import Fhenomenon.Lib.SharedOwners
import Fhenomenon.SparedBuffers
import Fhenomenon.AdoptedBuffers
import Fhenomenon.BufferOwnership
import Fhenomenon.PinnedIntermediates
import Fhenomenon.UntouchedBuffers
import Fhenomenon.AtomicRuns
import Fhenomenon.Lib.MachineInt
import Fhenomenon.CheckedEngine
import Fhenomenon.PortableProducts
import Fhenomenon.Lib.CyclicShift
import Fhenomenon.Rotations
import Fhenomenon.CheddarLevels
import Fhenomenon.OracleTotality
import Fhenomenon.RotateReduction
import Fhenomenon.UsableParameters
import Fhenomenon.FixedPointProducts
import Fhenomenon.ReachableCiphertexts
import Fhenomenon.Lib.Erasure
import Fhenomenon.ExecutorErasure
import Fhenomenon.RecordingErasure
import Fhenomenon.CertifiedNoise
import Fhenomenon.CertifiedContents
import Fhenomenon.TrackedDevice
import Fhenomenon.CertifiedScalars
import Fhenomenon.BuiltinBackend
import Fhenomenon.BuiltinErasure
import Fhenomenon.SuccessiveRuns
import Fhenomenon.OutsideMeaning
import Fhenomenon.BuiltinLaws
import Fhenomenon.CallerPrograms
import Fhenomenon.RelatedMeaning
import Fhenomenon.BuiltinSessions
import Fhenomenon.CertifiedPrograms
import Fhenomenon.NumberedPrograms
import Fhenomenon.MatvecNoise
import Fhenomenon.MatvecBench
import Fhenomenon.CheddarKernels
import Fhenomenon.CheddarKeys
import Fhenomenon.CheddarMeaning
import Fhenomenon.CheddarDispatch
import Fhenomenon.Lib.RefCounts
import Fhenomenon.Lib.SharedPointers
import Fhenomenon.LibraryContract
import Fhenomenon.LibraryLoading
import Fhenomenon.LibraryResources
import Fhenomenon.BackendHosts
import Fhenomenon.BackendLifetimes
import Fhenomenon.CorpusHandles
import Fhenomenon.CorpusSweep
