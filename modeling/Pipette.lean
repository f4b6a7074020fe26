import Pipette.Theorems.Retire
import Pipette.Theorems.Report
import Pipette.Theorems.SubmitOnce
import Pipette.Theorems.CheckpointLog
import Pipette.Theorems.Sweep
import Pipette.Theorems.Publish
import Pipette.Theorems.StreamedText
import Pipette.Theorems.LateCancel
import Pipette.Theorems.RefusedStart
import Pipette.Theorems.AndroidOutcomes
import Pipette.Theorems.Live
import Pipette.Theorems.Lookup
import Pipette.Theorems.VaultDownload
import Pipette.Theorems.PublicDownload
import Pipette.Theorems.SharedStores
import Pipette.Theorems.EvalCoverage
import Pipette.Theorems.EvalChunked
import Pipette.Theorems.TornAppends
import Pipette.Theorems.Attempts
import Pipette.Theorems.DetailTags
import Pipette.Theorems.ListTags
import Pipette.Theorems.InFlightMarker
import Pipette.Theorems.Shards
import Pipette.Theorems.HaltedPhone
import Pipette.Theorems.CellIdentity
import Pipette.Theorems.RunState
import Pipette.Theorems.CellRuns
import Pipette.Theorems.LeftBehind
import Pipette.Theorems.RunEnds
import Pipette.Theorems.Teardowns
import Pipette.Theorems.OneTransfer
import Pipette.Theorems.CheckedBuild
import Pipette.Theorems.OwnResults
import Pipette.Theorems.NoBuildCarries
import Pipette.Theorems.OnePerPhone
import Pipette.Theorems.PoolBuilds
import Pipette.Theorems.Reservations
import Pipette.Theorems.CellModel
import Pipette.Theorems.StaleSession
import Pipette.Theorems.JobOutcomes
import Pipette.Theorems.SignedRequests
import Pipette.Theorems.TransferPlan
import Pipette.Theorems.EngineTime
import Pipette.Theorems.UnstartedMarker
import Pipette.Theorems.RangeRounds
import Pipette.Theorems.LastRows
import Pipette.Theorems.ElidedDetail
