import Gmeow.OrdMap
import Gmeow.Text
import Gmeow.Codec
import Gmeow.Contracts
import Gmeow.Merge
import Gmeow.Prog
import Gmeow.Chunker
import Gmeow.Dictionary
import Gmeow.World
import Gmeow.ChunkStore
import Gmeow.Store
import Gmeow.Maintenance
import Gmeow.Observed
import Gmeow.Batching
import Gmeow.Annotations
import Gmeow.Discipline
import Gmeow.Operations
import Gmeow.Integrity
import Gmeow.Reading
import Gmeow.Sweep
import Gmeow.Repacking
import Gmeow.Durability
import Gmeow.Collecting
import Gmeow.Relocating
import Gmeow.Crash
import Gmeow.Effects
import Gmeow.Updates
import Gmeow.Calls
import Gmeow.Projection
import Gmeow.Identity
import Gmeow.Sources
import Gmeow.Backfill
import Gmeow.Cursors
import Gmeow.Mbox
import Gmeow.Breaker
import Gmeow.ChangeQueue
import Gmeow.SelfHeal
import Gmeow.Blocks
import Gmeow.Resolution
import Gmeow.Repair
import Gmeow.StateArtifact
import Gmeow.Conservation
import Gmeow.Reingest
import Gmeow.Lifetimes
import Gmeow.Snapshots
import Gmeow.Runes
import Gmeow.TurtleWriting
import Gmeow.Shuffles
import Gmeow.ImportOrder
import Gmeow.IdDiff
import Gmeow.Matchings
import Gmeow.NameTokens
import Gmeow.Imap
import Gmeow.Runs
import Gmeow.OperationRuns
import Gmeow.JmapEmail
import Gmeow.Retrying
import Gmeow.ProjectedRows
import Gmeow.Backoff
import Gmeow.LinePatch
import Gmeow.RecipeReader
import Gmeow.Probes
import Gmeow.Linkage
import Gmeow.PackedShard
import Gmeow.EmailPatch
import Gmeow.Snippets
import Gmeow.ContactFacts
import Gmeow.GedcomValues
import Gmeow.Training
import Gmeow.NulEscapes
import Gmeow.VCards
import Gmeow.VCardParts
import Gmeow.VCardIdentity
import Gmeow.StoredResults
import Gmeow.LedgerIndexes
import Gmeow.EmbeddingChunks
import Gmeow.PackHandles
import Gmeow.KeyLocks
import Gmeow.Links
import Gmeow.SizedLru
import Gmeow.MailSearch
