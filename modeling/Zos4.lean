import Zos4.Proofs.Convergence
import Zos4.Proofs.LockOrder
import Zos4.Proofs.LockUpdates
import Zos4.Proofs.Orphans
import Zos4.Proofs.RejectedUpdate
import Zos4.Provision.Admission
import Zos4.Proofs.LiveContracts
import Zos4.Proofs.Ownership
import Zos4.Provisiond.Migration
import Zos4.Proofs.Upgrade
import Zos4.Proofs.Billing
import Zos4.Provision.Stages
import Zos4.Proofs.Decommission
import Zos4.Proofs.Paused
import Zos4.Proofs.Reboot
import Zos4.Proofs.Reports
import Zos4.Proofs.SyncLocks
import Zos4.Proofs.Reclaim
import Zos4.Proofs.LockEvents
import Zos4.Provisiond.CapacitySetter
import Zos4.Provisiond.Usage
import Zos4.Proofs.ReportedUsage
import Zos4.Interaction.Crash
import Zos4.Provision.Tasks
import Zos4.Proofs.Replay
import Zos4.Registrar.Registrar
import Zos4.Proofs.Reregistration
import Zos4.Proofs.NodeIDs
import Zos4.Interaction.Trace
import Zos4.Power.Power
import Zos4.Power.Goroutines
import Zos4.Proofs.PowerDown
import Zos4.Proofs.UptimeFirst
import Zos4.Files.Path
import Zos4.Files.Tree
import Zos4.Files.Names
import Zos4.Files.Package
import Zos4.UpdateWorker.Worker
import Zos4.Proofs.PublishedLink
import Zos4.Upgrade.Install
import Zos4.Proofs.CopyFile
import Zos4.Bootstrap.Bootstrap
import Zos4.Proofs.Services
import Zos4.Bootstrap.Zfs
import Zos4.Proofs.SameTree
import Zos4.Provision.Faults
import Zos4.Proofs.DroppedRecords
import Zos4.Proofs.FailedRequests
import Zos4.Order.Ranked
import Zos4.Proofs.StartupOrder
import Zos4.Provision.Slots
import Zos4.Proofs.OperationOrder
import Zos4.Proofs.MountOrder
import Zos4.Proofs.Addresses
import Zos4.Proofs.Consumption
import Zos4.Proofs.PauseResume
import Zos4.Identityd.Ssh
import Zos4.Proofs.AuthorizedKeys
import Zos4.Proofs.LinkKept
import Zos4.Proofs.BrokenTag
import Zos4.Proofs.Overlay
import Zos4.Order.Insertion
import Zos4.Proofs.BadSizes
import Zos4.Bootstrap.Hub
import Zos4.Bootstrap.Install
import Zos4.Proofs.Download
import Zos4.Proofs.SelfUpdate
import Zos4.Proofs.HubAnswers
import Zos4.Proofs.VmConfigs
import Zos4.Interaction.Service
import Zos4.Interaction.Mutex
import Zos4.Registrar.Register
import Zos4.Registrar.Records
import Zos4.Registrar.Daemon
import Zos4.Proofs.Registered
import Zos4.Proofs.RegistrarGateway
import Zos4.Proofs.ReportOrder
import Zos4.Proofs.JobQueue
import Zos4.Proofs.Apart
import Zos4.Interaction.Growth
import Zos4.Provision.Audit
import Zos4.Proofs.Signed
import Zos4.Proofs.Provenance
import Zos4.Proofs.ListedAddresses
import Zos4.Proofs.UpgraderRuns
import Zos4.Identity.Manager
import Zos4.Proofs.NodeIdentity
import Zos4.Encoding.Base64
import Zos4.Interaction.Crowd
import Zos4.Twins.Twins
import Zos4.Proofs.TwinKeys
import Zos4.Bootstrap.Stages
import Zos4.Proofs.Boot
import Zos4.Files.Local
import Zos4.UpdateWorker.Interval
import Zos4.Proofs.Rounds
