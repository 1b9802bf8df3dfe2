import NetTrial.Main
import NetTrial.Tool.Script
import NetTrial.Proofs.Artifacts
import NetTrial.Proofs.Candidates
import NetTrial.Proofs.Holdings
import NetTrial.Proofs.Trials
import NetTrial.Proofs.BuiltTensors
import NetTrial.Proofs.TensorFormats
import NetTrial.Proofs.ToolPaths
import NetTrial.Proofs.ModelDocument
import NetTrial.Proofs.Suites
import NetTrial.Proofs.StagedPairs
import NetTrial.Proofs.ToldTrials
import NetTrial.Proofs.Convolutions
import NetTrial.Proofs.FormatVerdicts
import NetTrial.Proofs.TruthfulManifests
import NetTrial.Proofs.Launches
import NetTrial.Proofs.Extents
import NetTrial.Proofs.Coordinates
import NetTrial.Proofs.Evaluations
import NetTrial.Proofs.RecordedInputs
import NetTrial.Proofs.AxisOrders
import NetTrial.Proofs.LiteralFiles
import NetTrial.Proofs.LayerTables
import NetTrial.Proofs.Violations
import NetTrial.Proofs.FailedStaging
import NetTrial.Proofs.StagedModels
import NetTrial.Proofs.StoredManifests
import NetTrial.Proofs.CompilerArguments
import NetTrial.Proofs.RuntimeOrders
import NetTrial.Proofs.LoadableRecords
import NetTrial.Proofs.Permutations
