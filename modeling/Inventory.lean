import Inventory.Cache.Basic
import Inventory.Cache.Change
import Inventory.Cache.Feed
import Inventory.Cbor.Head
import Inventory.Cbor.Read
import Inventory.Cbor.Write
import Inventory.Entity.App
import Inventory.Entity.AppInst
import Inventory.Entity.Basic
import Inventory.Entity.Cloudlet
import Inventory.Entity.Controller
import Inventory.Entity.Flavor
import Inventory.Entity.Kind
import Inventory.Entity.Operations
import Inventory.Entity.Operator
import Inventory.Entity.RateLimit
import Inventory.Entity.Settings
import Inventory.Entity.StoreKey
import Inventory.Error
import Inventory.Hub
import Inventory.Json.Key
import Inventory.Json.Skip
import Inventory.Json.Text
import Inventory.Label.Assign
import Inventory.Label.Candidate
import Inventory.Label.Reservation
import Inventory.Label.Sanitize
import Inventory.Number.Decimal
import Inventory.Number.Double
import Inventory.Number.Power
import Inventory.Policy
import Inventory.Proofs.AccessPorts
import Inventory.Proofs.Addresses
import Inventory.Proofs.Ahead
import Inventory.Proofs.Alone
import Inventory.Proofs.Alongside
import Inventory.Proofs.Cache
import Inventory.Proofs.CacheChanges
import Inventory.Proofs.CacheRuns
import Inventory.Proofs.Canonical
import Inventory.Proofs.Cbor.Extent
import Inventory.Proofs.Cbor.Form
import Inventory.Proofs.Cbor.Head
import Inventory.Proofs.Cbor.Item
import Inventory.Proofs.Cbor.Leaf
import Inventory.Proofs.Cbor.Record
import Inventory.Proofs.Checks
import Inventory.Proofs.Clients
import Inventory.Proofs.CommitLog
import Inventory.Proofs.Contention
import Inventory.Proofs.Contents
import Inventory.Proofs.Copy
import Inventory.Proofs.Counter
import Inventory.Proofs.Crowd
import Inventory.Proofs.Currency
import Inventory.Proofs.Dashes
import Inventory.Proofs.Double
import Inventory.Proofs.Edits
import Inventory.Proofs.Filters
import Inventory.Proofs.FirstFree
import Inventory.Proofs.FullNames
import Inventory.Proofs.History
import Inventory.Proofs.Hub
import Inventory.Proofs.KeyOrder
import Inventory.Proofs.KeySpace
import Inventory.Proofs.KeyString
import Inventory.Proofs.Label
import Inventory.Proofs.Leaves
import Inventory.Proofs.Lifecycle
import Inventory.Proofs.LoadOrder
import Inventory.Proofs.Lowercase
import Inventory.Proofs.Masks
import Inventory.Proofs.Merge
import Inventory.Proofs.Mirror
import Inventory.Proofs.Notices
import Inventory.Proofs.OneByOne
import Inventory.Proofs.Organization
import Inventory.Proofs.OwnKeys
import Inventory.Proofs.Passes
import Inventory.Proofs.Paths
import Inventory.Proofs.Progress
import Inventory.Proofs.Reading
import Inventory.Proofs.Records
import Inventory.Proofs.Refusals
import Inventory.Proofs.Repeats
import Inventory.Proofs.Replacement
import Inventory.Proofs.Requests
import Inventory.Proofs.Reservations
import Inventory.Proofs.Sanitizing
import Inventory.Proofs.Scans
import Inventory.Proofs.SchemaDrift
import Inventory.Proofs.Serial
import Inventory.Proofs.Shares
import Inventory.Proofs.Snapshot
import Inventory.Proofs.StoreKey
import Inventory.Proofs.Sync
import Inventory.Proofs.Truncation
import Inventory.Proofs.Update
import Inventory.Proofs.Upkeep
import Inventory.Proofs.Validity
import Inventory.Proofs.Watch
import Inventory.Proofs.Watchers
import Inventory.Region
import Inventory.Revision
import Inventory.Schema.Basic
import Inventory.Schema.Mask
import Inventory.Schema.Partial
import Inventory.Store.Basic
import Inventory.Store.Op
import Inventory.Sync.Basic
import Inventory.Sync.Delivery
import Inventory.Text.Blank
import Inventory.Text.Invisible
import Inventory.Text.Lowercase
import Inventory.Text.Quoted
import Inventory.Text.Ranges
import Inventory.Text.Utf8
import Inventory.Transaction.Objects
import Inventory.Transaction.Program
import Inventory.Transaction.Session
import Inventory.Transaction.Transact
import Inventory.Visit
