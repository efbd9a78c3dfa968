import Y2q.Core.Base64
import Y2q.Core.Blocks
import Y2q.Core.Crash
import Y2q.Core.Run
import Y2q.Crypto.EnvelopeIntegrity
import Y2q.Crypto.Keystore
import Y2q.Crypto.Devices.Registry
import Y2q.Crypto.Devices.Unlock
import Y2q.Crypto.Devices.Erasure
import Y2q.Crypto.Devices.MacInput
import Y2q.Crypto.Devices.Mutations
import Y2q.Crypto.Devices.Openers
import Y2q.Crypto.Devices.AttestedTime
import Y2q.Crypto.Devices.GrantLifetimes
import Y2q.Crypto.Devices.Histories
import Y2q.Crypto.Devices.Repair
import Y2q.Crypto.Devices.Fallback
import Y2q.Storage.Database
import Y2q.Storage.EncryptedBackendNonces
import Y2q.Storage.EncryptedBackendRefinement
import Y2q.Storage.LegacyReseal
import Y2q.Storage.TornAppends
import Y2q.Storage.Index
import Y2q.Storage.Locks
import Y2q.Storage.RotationResume
import Y2q.Storage.HeaderUpgrade
import Y2q.Storage.WritePaths
import Y2q.Storage.SameObject
import Y2q.Storage.SetLabels
import Y2q.Daemon.NodeKeyRotation
import Y2q.Daemon.Migration
import Y2q.Daemon.OperatorRotation
import Y2q.Daemon.RotationCoverage
import Y2q.Daemon.DeviceRotation
import Y2q.Storage.Buckets
import Y2q.Daemon.RotationBuckets
import Y2q.Storage.Objects
import Y2q.Storage.IndexAgreement
import Y2q.Storage.Writers
import Y2q.Core.Pages
import Y2q.Core.Tables
import Y2q.Core.Text
import Y2q.Storage.MetadataIndex
import Y2q.Storage.Rekey
import Y2q.Storage.Listing
import Y2q.Daemon.BucketKeys
import Y2q.Daemon.BucketHandlers
import Y2q.Daemon.Grants
import Y2q.Daemon.Epochs
import Y2q.Daemon.PersonaGrants
import Y2q.Daemon.ConfigUpdates
import Y2q.Daemon.ConfigRaces
import Y2q.Daemon.ObjectKeys
import Y2q.Auth.Sessions
import Y2q.Auth.Revocation
import Y2q.Auth.Refresh
import Y2q.Auth.Handlers
import Y2q.Auth.RecordUpdates
import Y2q.Auth.Administrators
import Y2q.Auth.Authority
import Y2q.Auth.Logins
import Y2q.Auth.Lockout
import Y2q.Daemon.FirstBoot
import Y2q.Daemon.KeyAgent
import Y2q.Daemon.KeyCacheOrder
import Y2q.Storage.Overwrites
import Y2q.Auth.Personas
import Y2q.Daemon.Authorization
import Y2q.Daemon.BucketClaims
import Y2q.Crypto.EnvelopeChunks
import Y2q.Storage.RangeReads
import Y2q.Daemon.PlaintextStream
import Y2q.Daemon.RangedGet
import Y2q.Daemon.GetRequests
import Y2q.S3.Credentials
import Y2q.Daemon.Quota
import Y2q.S3.Multipart
import Y2q.S3.PartLifetimes
import Y2q.S3.Assembly
import Y2q.Daemon.Search
import Y2q.S3.ListObjects
import Y2q.Core.Groups
import Y2q.S3.ListRows
import Y2q.S3.ListPaging
import Y2q.S3.Meta
import Y2q.Daemon.LabelEdits
import Y2q.Daemon.LabelLimits
import Y2q.Daemon.LabelHeaders
import Y2q.S3.DeleteBucket
import Y2q.Core.Lockstep
import Y2q.S3.ChunkedBody
import Y2q.S3.ChunkedSlicing
import Y2q.Core.Peg
import Y2q.Core.PegDepth
import Y2q.Core.Pratt
import Y2q.Query.Grammar
import Y2q.Query.DepthGuard
import Y2q.Query.Writing
import Y2q.Daemon.RekeyRegistry
import Y2q.Fuse.InodeTable
import Y2q.Fuse.RenameDirectory
import Y2q.Fuse.InodeRuns
import Y2q.Fuse.DirListing
import Y2q.Fuse.DirReads
import Y2q.Fuse.OpenFiles
import Y2q.Fuse.Posix
import Y2q.Fuse.PosixRuns
import Y2q.Storage.BucketWalk
import Y2q.Crypto.Padme
import Y2q.S3.HttpDate
import Y2q.S3.Conditionals
import Y2q.S3.PercentCoding
import Y2q.Storage.RebuildStatus
import Y2q.Crypto.CipherChecksum
import Y2q.Crypto.MetaSealing
import Y2q.S3.XmlRoundTrip
import Y2q.S3.SessionLeash
import Y2q.S3.SignedChunks
