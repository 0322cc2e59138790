import Ccp.Controller.Drains
import Ccp.Controller.History
import Ccp.Controller.Limits
import Ccp.Decision.Position
import Ccp.Iterator.Course
import Ccp.Iterator.Failure
import Ccp.Iterator.Remembered
import Ccp.Job.AnyOrder
import Ccp.Job.DatabaseContext
import Ccp.Job.FilterSubdir
import Ccp.Job.Interactive
import Ccp.Job.NextChain
import Ccp.Lib.Attempt
import Ccp.Lib.Columns
import Ccp.Lib.Dict
import Ccp.Lib.Grouped
import Ccp.Lib.Json
import Ccp.Lib.XmlEdit
import Ccp.Package.Files
import Ccp.Package.Hydrate
import Ccp.Package.Move
import Ccp.Package.Name
import Ccp.Package.ProcessingConfig
import Ccp.Replacement.Files
import Ccp.Replacement.Quoting
import Ccp.Replacement.Simultaneous
import Ccp.Store.CleanUp
import Ccp.Store.Files
import Ccp.Store.PackageTimestamps
import Ccp.TaskBackend.ExitCode
import Ccp.TaskBackend.Gauges
import Ccp.TaskBackend.Wire
import Ccp.TaskBackend.Worked
import Ccp.Worker.AccessDirectory
import Ccp.Worker.AccessDirectory.Kept
import Ccp.Worker.AccessDirectory.Places
import Ccp.Worker.AssignFileUUIDs
import Ccp.Worker.ChangePath.Moves
import Ccp.Worker.ClamScan
import Ccp.Worker.Compliance
import Ccp.Worker.Compliance.Accepted
import Ccp.Worker.CreateSIP.Produced
import Ccp.Worker.Dataverse
import Ccp.Worker.Dataverse.Parsed
import Ccp.Worker.EventAgents
import Ccp.Worker.ExtractZipped
import Ccp.Worker.HasPackages
import Ccp.Worker.IDCommand
import Ccp.Worker.JobContext
import Ccp.Worker.Maildir
import Ccp.Worker.ManualNormalization
import Ccp.Worker.ManualNormalization.Access
import Ccp.Worker.MetadataCSV
import Ccp.Worker.Mets.Coherent
import Ccp.Worker.Mets.Described
import Ccp.Worker.Mets.FileTurn
import Ccp.Worker.Mets.Files
import Ccp.Worker.Mets.Given
import Ccp.Worker.Mets.Kept
import Ccp.Worker.Mets.Lost
import Ccp.Worker.Mets.Orphaned
import Ccp.Worker.Mets.Placed
import Ccp.Worker.Mets.Reconstruct
import Ccp.Worker.Mets.Referred
import Ccp.Worker.Mets.SipDiv
import Ccp.Worker.Mets.StructMaps
import Ccp.Worker.Mets.Topped
import Ccp.Worker.Mets.Walked
import Ccp.Worker.MoveOrMerge.Refusals
import Ccp.Worker.OnceNormalized
import Ccp.Worker.ParseMets.DublinCore
import Ccp.Worker.ParseMets.Files
import Ccp.Worker.PidDeclaration
import Ccp.Worker.Pool
import Ccp.Worker.PremisEvents.Stored
import Ccp.Worker.Reingest.NewFiles
import Ccp.Worker.Reingest.ReadBack
import Ccp.Worker.Reingest.Restructure
import Ccp.Worker.Reingest.UpdateRights
import Ccp.Worker.RestructureDip
import Ccp.Worker.RestructureDip.Complete
import Ccp.Worker.RetryNormalize
import Ccp.Worker.RetryNormalize.Again
import Ccp.Worker.RetryNormalize.Retried
import Ccp.Worker.Rights.RoundTrip
import Ccp.Worker.RightsCSV.ReadBack
import Ccp.Worker.Transcoder
import Ccp.Worker.Transcoder.Substitution
import Ccp.Worker.TransferBag.Restructure
import Ccp.Worker.TransferMets.Complete
import Ccp.Worker.TransferMets.Scan
import Ccp.Worker.TransferMets.Scanned
import Ccp.Worker.TrimContainers
import Ccp.Worker.TrimRestructure
import Ccp.Worker.TrimRestructure.Compliance
import Ccp.Worker.TrimRestructure.Frame
import Ccp.Worker.TrimRestructure.Located
import Ccp.Worker.TrimVerify
import Ccp.Worker.UpdateSizeAndChecksum.Applied
import Ccp.Worker.UploadArchivesSpace.Independent
import Ccp.Worker.VerifyChecksum
import Ccp.Worker.XmlMetadata
import Ccp.Worker.XmlMetadata.Processed
