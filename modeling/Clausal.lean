import Clausal.Main
import Clausal.Storage.Layout
import Clausal.Stored.Basic
import Clausal.Truth
import Clausal.Proofs.Agreement
import Clausal.Proofs.CounterMeaning
import Clausal.Proofs.CounterEncoding
import Clausal.Proofs.PairwiseMeaning
import Clausal.Proofs.ModelCalls
import Clausal.Proofs.ModelGrowth
import Clausal.Proofs.ModelInvariant
import Clausal.Proofs.Demands
import Clausal.Proofs.Sessions
import Clausal.Proofs.ReadBack
import Clausal.Proofs.RoundTrip
import Clausal.Proofs.OpenCounts
import Clausal.Proofs.ClauseChecking
import Clausal.Proofs.ReadLimits
import Clausal.Proofs.WrittenFormats
import Clausal.Proofs.ValueLines
import Clausal.Proofs.SolverReplies
import Clausal.Proofs.StoredFiles
import Clausal.Proofs.SolverCalls
import Clausal.Proofs.BuiltModels
import Clausal.Proofs.SolverRuns
import Clausal.Proofs.Numerals
import Clausal.Proofs.ClauseGrammar
import Clausal.Proofs.KeptText
import Clausal.Proofs.DecidingLines
import Clausal.Proofs.TruncatedRuns
import Clausal.Proofs.OpenEvaluation
import Clausal.Proofs.EncodingRoutes
import Clausal.Proofs.SolverRoutes
import Clausal.Proofs.CounterPropagation
import Clausal.Proofs.AddedLiterals
import Clausal.Proofs.LineOutcomes
import Clausal.Proofs.LineOrder
import Clausal.Proofs.IgnoredLines
import Clausal.Proofs.HeaderText
import Clausal.Proofs.JoinedBodies
import Clausal.Proofs.DecidedValues
import Clausal.Proofs.ReadModels
import Clausal.Proofs.LineEnds
import Clausal.Proofs.FaultLines
import Clausal.Proofs.Completions
import Clausal.Proofs.CounterLayout
import Clausal.Proofs.PoolHistory
import Clausal.Proofs.EncoderTotals
import Clausal.Proofs.PackedLiterals
import Clausal.Proofs.CollectedLiterals
import Clausal.Proofs.DumpedModels
import Clausal.Proofs.FileNames
import Clausal.Proofs.KeptFiles
