import GraphIndex.ClassifiedMultiset.Json
import GraphIndex.ClassifiedMultiset.Text
import GraphIndex.CompactSet.Shared
import GraphIndex.CompactSet.Text
import GraphIndex.CompactSet.View
import GraphIndex.Dictionary.Json
import GraphIndex.Dictionary.Text
import GraphIndex.Element.Json
import GraphIndex.Index.Catalog
import GraphIndex.Index.Scan
import GraphIndex.Index.Text
import GraphIndex.Json.Shortest
import GraphIndex.Published
import GraphIndex.Value.Json
import GraphIndex.Value.Text
import GraphIndex.Proofs.Distinct
import GraphIndex.Proofs.ProbeTable.Invariant
import GraphIndex.Proofs.ProbeTable.Change
import GraphIndex.Proofs.ProbeTable.Run
import GraphIndex.Proofs.CompactSet.Invariant
import GraphIndex.Proofs.CompactSet.Run
import GraphIndex.Proofs.ClassifiedMultiset.Buckets
import GraphIndex.Proofs.ClassifiedMultiset.Invariant
import GraphIndex.Proofs.ClassifiedMultiset.Pairs
import GraphIndex.Proofs.ClassifiedMultiset.Run
import GraphIndex.Proofs.Index.Invariant
import GraphIndex.Proofs.Index.Run
import GraphIndex.Proofs.Dictionary.Invariant
import GraphIndex.Proofs.Dictionary.Run
import GraphIndex.Proofs.Dictionary.Entries
import GraphIndex.Proofs.Index.Filings
import GraphIndex.Proofs.Registry.Invariant
import GraphIndex.Proofs.Registry.FanOut
import GraphIndex.Proofs.Registry.Keys
import GraphIndex.Proofs.ProbeTable.Search
import GraphIndex.Proofs.ProbeTable.Placement
import GraphIndex.Proofs.Heap
import GraphIndex.Proofs.Published
import GraphIndex.Proofs.Binary64.Decimal
import GraphIndex.Proofs.Json.Reader
import GraphIndex.Proofs.Json.Codec
import GraphIndex.Proofs.Value.Json
import GraphIndex.Proofs.Dictionary.Json
import GraphIndex.Proofs.ProbeTable.Capacity
import GraphIndex.Proofs.CompactSet.Capacity
import GraphIndex.Proofs.ClassifiedMultiset.Capacity
import GraphIndex.Proofs.ClassifiedMultiset.Emptying
import GraphIndex.Proofs.ClassifiedMultiset.Hysteresis
import GraphIndex.Proofs.Value.Key
import GraphIndex.Proofs.CompactSet.Equality
import GraphIndex.Proofs.Dictionary.Equality
import GraphIndex.Proofs.Digest
import GraphIndex.Proofs.CompactSet.View
import GraphIndex.Proofs.ProbeTable.CleanUp
import GraphIndex.Proofs.Registry.Lookups
import GraphIndex.Proofs.ProbeTable.LeastCapacity
import GraphIndex.Proofs.ClassifiedMultiset.Sizing
