import Keeplin.WinnerRegister
import Keeplin.VectorClock
import Keeplin.LabelledRun
import Keeplin.LastMaximum
import Keeplin.Directory
import Keeplin.Lines
import Keeplin.AnchoredList
import Keeplin.VersionVector
import Keeplin.Models
import Keeplin.NoteLog
import Keeplin.NoteLogCompaction
import Keeplin.MergeOrder
import Keeplin.NoteDir
import Keeplin.NoteCausality
import Keeplin.SeenLogs
import Keeplin.Versions
import Keeplin.Db
import Keeplin.DbSync
import Keeplin.FsTree
import Keeplin.FsSync
import Keeplin.FsResources
import Keeplin.SlotStore
import Keeplin.Convergence
import Keeplin.Staleness
import Keeplin.Journal
import Keeplin.LocalWrite
import Keeplin.RowCausality
import Keeplin.JournalTail
import Keeplin.TailDelivery
import Keeplin.FsEngine
import Keeplin.LostChanges
import Keeplin.OutgoingSync
import Keeplin.GlobalLog
import Keeplin.Snapshot
import Keeplin.RunningMutator
import Keeplin.JournalCompaction
import Keeplin.Format
import Keeplin.NoteLines
import Keeplin.BodyDiff
import Keeplin.LineRelay
import Keeplin.CollabSession
import Keeplin.CollabDelivery
import Keeplin.DeletionCascade
import Keeplin.FsNotes
import Keeplin.Attachments
import Keeplin.AttachmentRuns
import Keeplin.DbRows
import Keeplin.Payloads
import Keeplin.AttachmentSync
import Keeplin.Transactions
import Keeplin.DbStatements
import Keeplin.KeysetPages
import Keeplin.InboxOrder
import Keeplin.FsNoteIndex
import Keeplin.FileListings
import Keeplin.PageWalks
import Keeplin.NoteProjections
import Keeplin.NoteFreshness
import Keeplin.DbListings
import Keeplin.Encryption
import Keeplin.InboxResequencing
import Keeplin.GuardedTransactions
import Keeplin.DbMutations
import Keeplin.JournalAppend
import Keeplin.JournalledWrites
import Keeplin.EditReplay
import Keeplin.ConcurrentEdits
import Keeplin.ResourceFolders
import Keeplin.LinkingIndex
import Keeplin.InboxIsolation
import Keeplin.AliasUniqueness
import Keeplin.EditRevival
import Keeplin.FieldEdits
import Keeplin.Startup
import Keeplin.TextOrder
import Keeplin.Rfc3339
import Keeplin.KeysetWalks
import Keeplin.SmallestHeap
import Keeplin.PageTokens
import Keeplin.NoteListing
import Keeplin.NoteHistory
import Keeplin.NotePlacement
import Keeplin.PlacementCalls
import Keeplin.PlacementBands
import Keeplin.NotebookCapacity
import Keeplin.Backlinks
import Keeplin.EncryptedBackend
import Keeplin.RevealedDb
import Keeplin.OwnAppends
import Keeplin.LineMirrors
import Keeplin.LineVectors
import Keeplin.OrderEdits
import Keeplin.PinLimits
import Keeplin.PinRaces
import Keeplin.UpdateRequests
import Keeplin.PlacementEnds
import Keeplin.References
import Keeplin.LastTold
import Keeplin.DbFrames
import Keeplin.EventBackend
import Keeplin.EventFeed
import Keeplin.DaemonStack
import Keeplin.SearchIndex
import Keeplin.SearchFaithful
import Keeplin.StackSearch
import Keeplin.SealedCalls
import Keeplin.SealedRows
import Keeplin.NoteResources
import Keeplin.TransparentReads
import Keeplin.Transparency
import Keeplin.FreshStores
import Keeplin.TextCuts
import Keeplin.Rfc3986
import Keeplin.SecurityIssues
import Keeplin.ContentLines
import Keeplin.ContentProperties
import Keeplin.VCard
import Keeplin.IcalTimes
import Keeplin.ICalendar
import Keeplin.ResourceStores
import Keeplin.InteropStorage
import Keeplin.UidLookup
import Keeplin.ResourceShelves
import Keeplin.UidScan
import Keeplin.ReplaceFailures
import Keeplin.HistorySelection
import Keeplin.BatchReverts
import Keeplin.TimedLogs
import Keeplin.RevertUndo
import Keeplin.JsonCodecs
import Keeplin.EntityJson
import Keeplin.JournalCodecs
import Keeplin.JournalAgreement
import Keeplin.Base64
import Keeplin.Tokens
import Keeplin.BasicAuth
import Keeplin.FoldLoop
import Keeplin.LeapSeconds
import Keeplin.Upgrades
import Keeplin.SchemaStatements
import Keeplin.SchemaShapes
import Keeplin.Migrations
import Keeplin.MigrationRuns
import Keeplin.Regexes
import Keeplin.LinkPatterns
import Keeplin.WrittenBodies
import Keeplin.NoteAgreement
import Keeplin.Sockets
import Keeplin.ChangeFrames
import Keeplin.ServerExchange
import Keeplin.ServerHistory
import Keeplin.JournalPruning
import Keeplin.AtomicWrites
import Keeplin.PhraseQueries
import Keeplin.Selections
import Keeplin.SearchQueries
import Keeplin.Procedures
import Keeplin.Migrate
import Keeplin.DbMigration
import Keeplin.SealedMigration
