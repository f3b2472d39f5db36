import Skydriver.Lib.Checked
import Skydriver.Lib.Bytes
import Skydriver.Lib.KeyOrder
import Skydriver.Lib.Worklist
import Skydriver.Lib.SqlNumber
import Skydriver.Lib.Table
import Skydriver.Lib.Interleaving
import Skydriver.Lib.CrashProne
import Skydriver.Lib.CarryStack
import Skydriver.Lib.Buffers
import Skydriver.Lib.AdvisoryLock
import Skydriver.Lib.Utf8
import Skydriver.Lib.Words
import Skydriver.Lib.Json
import Skydriver.Lib.JsonCodec
import Skydriver.Lib.Paging
import Skydriver.Lib.StrictJson
import Skydriver.Lib.PercentEncoding
import Skydriver.Lib.Base64Url
import Skydriver.Lib.Tokens
import Skydriver.Lib.Traversal
import Skydriver.Lib.WhatwgUrl
import Skydriver.Lib.Observing
import Skydriver.Integrity.Directory
import Skydriver.Integrity.Success
import Skydriver.Integrity.FileRoot
import Skydriver.Integrity.FileBinding
import Skydriver.Integrity.Binding
import Skydriver.Integrity.DirectoryTree
import Skydriver.Integrity.BlockManifest
import Skydriver.Crypto.Frame
import Skydriver.Crypto.Layout
import Skydriver.Crypto.Stream
import Skydriver.Crypto.RoundTrip
import Skydriver.Crypto.Authenticity
import Skydriver.Crypto.MetadataCache
import Skydriver.Catalog.Checkpoint
import Skydriver.Catalog.Node
import Skydriver.Catalog.Tree
import Skydriver.Catalog.Delta
import Skydriver.Catalog.RoundTrip
import Skydriver.Catalog.Projection
import Skydriver.Control.Schema
import Skydriver.Control.Tree
import Skydriver.Control.Authority
import Skydriver.Control.Quota
import Skydriver.Control.Planner
import Skydriver.Control.Batches
import Skydriver.Control.Policy
import Skydriver.Control.Lifecycle
import Skydriver.Control.Handlers
import Skydriver.Control.Transfers
import Skydriver.Control.Service
import Skydriver.Control.Reference
import Skydriver.Control.Committed
import Skydriver.Control.Provenance
import Skydriver.Control.Entries
import Skydriver.Control.Revisions
import Skydriver.Control.Depth
import Skydriver.Control.Uploads
import Skydriver.Control.Leases
import Skydriver.Control.Linkage
import Skydriver.Control.DriverQuota
import Skydriver.Control.Obstacles
import Skydriver.Control.Passes
import Skydriver.Control.LeaseDelays
import Skydriver.Control.Recomputed
import Skydriver.Control.Pagination
import Skydriver.Control.SignedGrants
import Skydriver.Control.Listing
import Skydriver.Control.Signing
import Skydriver.Control.AliyunInventory
import Skydriver.Control.TransferMetrics
import Skydriver.Control.RenamePlan
import Skydriver.Control.Maintenance
import Skydriver.Control.SignedTarget
import Skydriver.Client.CatalogNode
import Skydriver.Client.CatalogStore
import Skydriver.Client.Intact
import Skydriver.Client.HeadClosure
import Skydriver.Client.SyncLock
import Skydriver.Client.MultipartJournal
import Skydriver.Client.MultipartCoverage
import Skydriver.Client.RecordSpool
import Skydriver.Client.Multipart
import Skydriver.Vfs.Merkle
import Skydriver.Vfs.MerkleAgreement
import Skydriver.Vfs.Cryptofile
import Skydriver.Vfs.CryptofileAgreement
import Skydriver.Driver.Capabilities
import Skydriver.Driver.LocalInventory
import Skydriver.Journal.Plan
import Skydriver.Journal.Envelope
import Skydriver.Journal.Prepare
import Skydriver.Journal.PlanPersistence
import Skydriver.Journal.Layout
import Skydriver.Control.CatalogHistory
import Skydriver.Control.ChainCommit
import Skydriver.Control.RenameCarried
import Skydriver.Control.Replay
import Skydriver.Control.Serial
import Skydriver.Control.Idempotency
