import RegionPolicy.Collection.SortedMap
import RegionPolicy.Collection.SortedSet
import RegionPolicy.Collection.Ranking
import RegionPolicy.Text.Blank
import RegionPolicy.Text.Lowercase
import RegionPolicy.Decimal.Layout
import RegionPolicy.Decimal.Reading
import RegionPolicy.Decimal.Single
import RegionPolicy.Json.Reader
import RegionPolicy.Json.Fields
import RegionPolicy.Region.Id
import RegionPolicy.Geometry.World
import RegionPolicy.Geometry.Selection
import RegionPolicy.Flag.Key
import RegionPolicy.Flag.Binding
import RegionPolicy.Region.Index
import RegionPolicy.Payload.World
import RegionPolicy.Policy.Evaluation
import RegionPolicy.Policy.Inspection
import RegionPolicy.Policy.Script
import RegionPolicy.Store.Memory
import RegionPolicy.Store.Disk
import RegionPolicy.Config
import RegionPolicy.Query
import RegionPolicy.Main
import RegionPolicy.Proofs.Collections
import RegionPolicy.Proofs.Walk
import RegionPolicy.Proofs.Lineage
import RegionPolicy.Proofs.Supply
import RegionPolicy.Proofs.Evaluation
import RegionPolicy.Proofs.StandardHandlers
import RegionPolicy.Proofs.Forest
import RegionPolicy.Proofs.Loading
import RegionPolicy.Proofs.Inheritance
import RegionPolicy.Proofs.Looking
import RegionPolicy.Proofs.Commits
import RegionPolicy.Proofs.Runs
import RegionPolicy.Proofs.Freshness
import RegionPolicy.Proofs.Overlooking
import RegionPolicy.Proofs.Diagnosis
import RegionPolicy.Proofs.Presence
import RegionPolicy.Proofs.Crossing
import RegionPolicy.Proofs.JsonText
import RegionPolicy.Proofs.FloatOrder
import RegionPolicy.Proofs.Rebuilding
import RegionPolicy.Proofs.StoredShapes
import RegionPolicy.Proofs.Reachability
import RegionPolicy.Proofs.Invalidation
import RegionPolicy.Proofs.Texts
import RegionPolicy.Proofs.Failures
import RegionPolicy.Proofs.Misreading
import RegionPolicy.Proofs.Survival
import RegionPolicy.Proofs.Slots
import RegionPolicy.Proofs.Reordering
import RegionPolicy.Proofs.Damage
import RegionPolicy.Proofs.Records
import RegionPolicy.Proofs.Standing
import RegionPolicy.Proofs.Reshaping
import RegionPolicy.Proofs.Worldwide
import RegionPolicy.Proofs.Kinds
import RegionPolicy.Proofs.Renewal
import RegionPolicy.Proofs.Upserting
import RegionPolicy.Proofs.Sharing
import RegionPolicy.Proofs.FileNames
import RegionPolicy.Proofs.Queries
import RegionPolicy.Proofs.Decoding
import RegionPolicy.Proofs.SinglePrecision
import RegionPolicy.Proofs.Definitions
import RegionPolicy.Proofs.ShapeRecords
import RegionPolicy.Proofs.Circles
import RegionPolicy.Proofs.Precedence
import RegionPolicy.Proofs.Spreading
import RegionPolicy.Proofs.Histories
import RegionPolicy.Proofs.Inspection
import RegionPolicy.Proofs.Rings
import RegionPolicy.Proofs.RingBounds
import RegionPolicy.Proofs.Merging
import RegionPolicy.Proofs.Overriding
import RegionPolicy.Proofs.Selections
import RegionPolicy.Proofs.Groupings
import RegionPolicy.Proofs.WorldNames
import RegionPolicy.Proofs.FiniteNumbers
import RegionPolicy.Proofs.Rewriting
