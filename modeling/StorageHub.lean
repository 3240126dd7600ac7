import StorageHub.Scoped.IndexDelete
import StorageHub.Scoped.IndexTree
import StorageHub.Scoped.SyncRace
import StorageHub.Scoped.SyncAgreement
import StorageHub.Scoped.IndexAnnotations
import StorageHub.Scoped.MoveIndex
import StorageHub.Scoped.Restore
import StorageHub.Scoped.Recovery
import StorageHub.Scoped.WriteRecovery
import StorageHub.Scoped.ReadCache
import StorageHub.Scoped.PendingListed
import StorageHub.Scoped.ProtectedIntegrity
import StorageHub.Library.Effect
import StorageHub.Library.Like
import StorageHub.Library.Transition
import StorageHub.Library.Store
import StorageHub.Library.Text
import StorageHub.Library.WriteBack
import StorageHub.Paths
import StorageHub.Scoped.Sandbox
import StorageHub.Mounts.Transparent
import StorageHub.Mounts.Coherence
import StorageHub.WriteCache.Policy
import StorageHub.WriteCache.Record
import StorageHub.WriteCache.Machine
import StorageHub.WriteCache.Quota
import StorageHub.WriteCache.View
import StorageHub.WriteCache.NoLoss
import StorageHub.WriteCache.ReadFill
import StorageHub.Scoped.Maintenance
import StorageHub.Scoped.SyncGuards
import StorageHub.Scoped.WalIssues
import StorageHub.WriteCache.Filing
import StorageHub.WriteCache.Retry
import StorageHub.WriteCache.Account
import StorageHub.Compression.Interference
import StorageHub.Mounts.Transfer
import StorageHub.Scoped.SubtreeSize
import StorageHub.Scoped.RecursiveListing
import StorageHub.Scoped.Presence
import StorageHub.Scoped.WriteAt
import StorageHub.ReadCache.Bounds
import StorageHub.WriteCache.Barrier
import StorageHub.WriteCache.DirtyMarkers
import StorageHub.Shares.Access
import StorageHub.Protected.HeaderCodec
import StorageHub.Library.Paging
import StorageHub.Listings.Table
import StorageHub.Listings.Totals
import StorageHub.Listings.Streams
import StorageHub.Listings.ExpiredTrash
import StorageHub.Library.StdPath
import StorageHub.Batch.Targets
import StorageHub.Listings.SearchFilters
import StorageHub.Shares.ActiveFlags
import StorageHub.Scoped.ListingSpec
import StorageHub.Listings.DirectoryPages
import StorageHub.Library.TextLines
import StorageHub.Compression.ArchiveListing
import StorageHub.TempFiles.Cleanup
import StorageHub.TempFiles.ActiveSet
import StorageHub.Video.BatchCompress
import StorageHub.Batch.Executor
import StorageHub.Media.HlsSessions
import StorageHub.Thumbnails.ClearDirectory
import StorageHub.Library.Steady
import StorageHub.Library.TreeViews
import StorageHub.Compression.Tasks
import StorageHub.Compression.EntryNames
import StorageHub.Scoped.Deletions
import StorageHub.Compression.Staging
import StorageHub.Compression.Packing
import StorageHub.Compression.Unpacking
import StorageHub.Compression.CompressRuns
import StorageHub.Compression.ExtractRuns
import StorageHub.Compression.PlainStorage
import StorageHub.Compression.RoundTrip
import StorageHub.Compression.Uploads
import StorageHub.Compression.ArchiveMembers
import StorageHub.Compression.ArchiveLoss
import StorageHub.Library.Parts
import StorageHub.Mounts.Synchronise
import StorageHub.Mounts.SyncStorage
import StorageHub.Mounts.PoolSide
import StorageHub.Mounts.TwoPools
import StorageHub.Mounts.Mirror
import StorageHub.Mounts.Bidirectional
import StorageHub.WriteCache.Reload
import StorageHub.WriteCache.Durable
import StorageHub.WriteCache.DurableTasks
import StorageHub.WriteCache.Restarts
import StorageHub.WriteCache.RestartRuns
import StorageHub.Library.Attempts
import StorageHub.Scoped.LoggedRename
import StorageHub.Scoped.RenameRecovery
import StorageHub.Scoped.TrashRecovery
import StorageHub.Scoped.RestoreRecovery
