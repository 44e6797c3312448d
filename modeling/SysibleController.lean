import SysibleController.TransitionSystem
import SysibleController.KeyedTable
import SysibleController.Interleaving
import SysibleController.DecimalRounding
import SysibleController.LengthPrefix
import SysibleController.HashChain
import SysibleController.ActivityLog
import SysibleController.ActivityLogVerify
import SysibleController.ActivityLogInterleaving
import SysibleController.TaskQueue
import SysibleController.PythonInt
import SysibleController.PythonText
import SysibleController.ZonedTime
import SysibleController.Schedules
import SysibleController.PastTrace
import SysibleController.Enrollment
import SysibleController.EnrollmentGuard
import SysibleController.EnrollmentTokens
import SysibleController.Revocation
import SysibleController.AdminAccounts
import SysibleController.Superusers
import SysibleController.Sessions
import SysibleController.Passwords
import SysibleController.LoginThrottle
import SysibleController.BecomeDelivery
import SysibleController.AgentIntegrity
import SysibleController.RestorePoll
import SysibleController.RestoreWalk
import SysibleController.RestoreUnchanged
import SysibleController.CaptureAgreement
import SysibleController.EarlyExit
import SysibleController.Rolling
import SysibleController.RollingPhases
import SysibleController.RollingRuns
import SysibleController.RollingSettle
import SysibleController.RollingRotation
import SysibleController.RollingLedger
import SysibleController.RollingResult
import SysibleController.AtomicSteps
import SysibleController.PosixTree
import SysibleController.PathResolution
import SysibleController.PosixPrograms
import SysibleController.RestorePoint
import SysibleController.FlashbackRestore
import SysibleController.SystemCalls
import SysibleController.RestoreEntry
import SysibleController.RollingSuccess
import SysibleController.Pools
import SysibleController.SelfAddress
import SysibleController.ScheduledJobs
import SysibleController.SchedulerLoop
import SysibleController.MergedHosts
import SysibleController.MergedHostIds
import SysibleController.ScheduledTargets
import SysibleController.AlertRules
import SysibleController.AlertLoop
import SysibleController.SsoSession
import SysibleController.TerminalOpen
import SysibleController.PathText
import SysibleController.FlashbackCapture
import SysibleController.FlashbackRestorable
import SysibleController.RestoreSettled
import SysibleController.RestoreLoop
import SysibleController.RestoreDisplace
import SysibleController.RestoreFaithful
import SysibleController.AlertDelivery
import SysibleController.JsonValue
import SysibleController.HostDispatch
import SysibleController.PythonStrip
import SysibleController.AlertSettings
import SysibleController.ShellQuote
import SysibleController.TextLines
import SysibleController.CriticalPaths
import SysibleController.ShellReader
import SysibleController.ShellCommands
import SysibleController.FirewallPorts
import SysibleController.HeredocBuilders
import SysibleController.HeredocClosure
import SysibleController.JumpHop
import SysibleController.RelayConfig
import SysibleController.Base64
import SysibleController.AgentTransfer
import SysibleController.PythonRepr
import SysibleController.Getopt
import SysibleController.ShellArgv
import SysibleController.IptablesRules
import SysibleController.CredentialChange
import SysibleController.ScheduleGuard
import SysibleController.PowerActions
import SysibleController.VaultKey
import SysibleController.HostRecords
import SysibleController.RestoreDisarm
import SysibleController.StraightPaths
import SysibleController.RestoreStage
import SysibleController.StageComplete
import SysibleController.RestoreAtomic
import SysibleController.TokenScope
import SysibleController.ActivityFeed
import SysibleController.TaskRetention
import SysibleController.SelfAddressStale
import SysibleController.BaselineCycle
import SysibleController.RestorableSound
import SysibleController.FstabAsked
import SysibleController.NothingDeleted
import SysibleController.JsonEquality
import SysibleController.IntegrityCompare
import SysibleController.TlsIdentity
import SysibleController.FixedGrep
import SysibleController.AuthorizedKeys
import SysibleController.CronJobs
import SysibleController.RaidPersist
import SysibleController.NetplanRollback
import SysibleController.ProfileDropIn
import SysibleController.PackageFields
import SysibleController.SshdConfig
import SysibleController.SshdOption
import SysibleController.RealPath
import SysibleController.RestoreBackup
import SysibleController.RestoreRefusal
import SysibleController.Sha512Crypt
import SysibleController.PostureUnknown
import SysibleController.ScriptOnce
import SysibleController.AgentReport
import SysibleController.HostIdTokens
import SysibleController.PortalFiles
import SysibleController.AgentBundle
import SysibleController.NamedOperands
import SysibleController.UpdatesCache
import SysibleController.GrubDefaults
import SysibleController.AuditDigest
import SysibleController.SysMetrics
import SysibleController.FirewallProbe
import SysibleController.CallMachine
import SysibleController.PtySession
import SysibleController.SudoStore
import SysibleController.Suppressions
import SysibleController.RestoreUpload
import SysibleController.PasswordGenerator
import SysibleController.AuditBackfill
import SysibleController.EnrollRate
import SysibleController.PoolStore
import SysibleController.CaptureRequests
import SysibleController.AgentConnection
import SysibleController.CreateBackup
import SysibleController.BackupRoundTrip
import SysibleController.TaskProtocol
import SysibleController.AgentLoop
import SysibleController.TerminalSessions
import SysibleController.BodyLimit
