import PiHerder.Lib.Dict
import PiHerder.Lib.Leases
import PiHerder.Lib.Eff
import PiHerder.Lib.PyStr
import PiHerder.Lib.Path
import PiHerder.Lib.IpAddress
import PiHerder.Lib.Runs
import PiHerder.Lib.Sequence
import PiHerder.Lib.Expiring
import PiHerder.Lib.Table
import PiHerder.Jobs.Model
import PiHerder.Jobs.Status
import PiHerder.Jobs.StackLane
import PiHerder.Jobs.Audit
import PiHerder.Jobs.ServerLock
import PiHerder.Jobs.DualLock
import PiHerder.Migrate.Names
import PiHerder.Migrate.Undo
import PiHerder.Migrate.State
import PiHerder.Migrate.Fabric
import PiHerder.Migrate.Cutover
import PiHerder.Migrate.Rebind
import PiHerder.Migrate.Binds
import PiHerder.Migrate.Preflight
import PiHerder.Migrate.CopyLoop
import PiHerder.Migrate.Pipeline
import PiHerder.Migrate.Calls
import PiHerder.Migrate.Recovery
import PiHerder.Migrate.CopyTargets
import PiHerder.Migrate.PushSafety
import PiHerder.Migrate.CopyApart
import PiHerder.Migrate.CopyComplete
import PiHerder.Auth.Model
import PiHerder.Auth.Tokens
import PiHerder.Auth.Factors
import PiHerder.Auth.Password
import PiHerder.Auth.Login
import PiHerder.Console.Model
import PiHerder.Auth.Revocation
import PiHerder.Auth.Enrolment
import PiHerder.Console.SingleUse
import PiHerder.Console.Tickets
import PiHerder.Console.Slots
import PiHerder.Api.Scopes
import PiHerder.Api.Oauth
import PiHerder.Api.Allowlist
import PiHerder.Auth.Admins
import PiHerder.Lib.Relational
import PiHerder.Store.Deletes
import PiHerder.Lib.JsonValue
import PiHerder.Auth.Sso
import PiHerder.Auth.Addresses
import PiHerder.Auth.Identities
import PiHerder.Api.ClientIp
import PiHerder.Lib.Under
import PiHerder.Backup.PathPolicy
import PiHerder.Lib.FileTree
import PiHerder.Lib.Shell
import PiHerder.Backup.Ownership
import PiHerder.Backup.OwnershipAgree
import PiHerder.Lib.Selection
import PiHerder.Backup.Selection
import PiHerder.Backup.NormalForm
import PiHerder.Lib.Globs
import PiHerder.Backup.Replicate
import PiHerder.Lib.PurePath
import PiHerder.Backup.DataFiles
import PiHerder.Backup.Destinations
import PiHerder.Backup.Direct
import PiHerder.Backup.RestorePlaces
import PiHerder.Backup.CopyRequests
import PiHerder.Lib.Files
import PiHerder.Backup.RoundTrip
import PiHerder.Lib.Mirror
import PiHerder.Dns.Records
import PiHerder.Dns.Hijack
import PiHerder.Dns.Follow
import PiHerder.Dns.SyncStatus
import PiHerder.Lib.Constraints
import PiHerder.Lib.Datetime
import PiHerder.Config.Model
import PiHerder.Config.Restore
import PiHerder.Config.Credentials
import PiHerder.Config.Sequences
import PiHerder.Discovery.Devices
import PiHerder.Discovery.Resolution
import PiHerder.Discovery.Review
import PiHerder.Discovery.Targets
import PiHerder.Discovery.ScanOptions
import PiHerder.Discovery.Scope
import PiHerder.Stacks.Masking
import PiHerder.Stacks.SecretsKept
import PiHerder.Stacks.StoredFiles
import PiHerder.Stacks.DriftAfterCalls
import PiHerder.Docker.Inventory
import PiHerder.Schedule.Labels
import PiHerder.Lib.Sftp
import PiHerder.Files.Delete
import PiHerder.Files.Overwrite
import PiHerder.Files.Unzip
import PiHerder.Files.ZipOnHost
import PiHerder.Lib.Scan
import PiHerder.Lib.Format
import PiHerder.Jobs.HostWait
import PiHerder.Jobs.BackupRetry
import PiHerder.Jobs.Queueing
import PiHerder.Backup.ScopedCopies
import PiHerder.Backup.ManifestRoundTrip
import PiHerder.Backup.PullBack
import PiHerder.Lib.Regex
import PiHerder.Docker.Ports
import PiHerder.Lib.Zoned
import PiHerder.Schedule.Stagger
import PiHerder.Schedule.CopyOrder
import PiHerder.Schedule.Registry
import PiHerder.Stacks.EnvCarried
import PiHerder.Stacks.Remerge
import PiHerder.Stacks.ProjectWrite
import PiHerder.Docker.RefreshSlot
import PiHerder.Lib.Cut
import PiHerder.Certificates.Deploying
import PiHerder.Stacks.VolumeSync
import PiHerder.Migrate.BindAliases
import PiHerder.Migrate.PortConflicts
import PiHerder.Migrate.PortLines
import PiHerder.Lib.Slots
import PiHerder.Stacks.Redaction
import PiHerder.Lib.Window
import PiHerder.Auth.RateLimit
import PiHerder.Alerts.Policy
import PiHerder.Alerts.Inbox
import PiHerder.Docker.Versions
import PiHerder.Dns.RuntimeEdges
import PiHerder.Lib.Sweep
import PiHerder.Store.HostDelete
