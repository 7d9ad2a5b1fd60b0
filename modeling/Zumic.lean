import Zumic.Zsp.Cuts
import Zumic.Zsp.Nesting
import Zumic.Database.PackedRuns
import Zumic.Database.HllRegisters
import Zumic.Zdb.Readers
import Zumic.Zdb.Endless
import Zumic.Zdb.Transform
import Zumic.Engine.Batching
import Zumic.Engine.GeoBackends
import Zumic.Engine.HashRing
import Zumic.Engine.HashSlots
import Zumic.Engine.Plans
import Zumic.Engine.Rebalancing
import Zumic.Engine.Recovery
import Zumic.Engine.Grouped
import Zumic.Engine.Interleaving
import Zumic.Engine.ZdbProtocol
import Zumic.Server.ValueFrames
import Zumic.Server.StringForms
import Zumic.Server.Malformed
import Zumic.Server.Pipeline
import Zumic.Client.Session
import Zumic.Server.Bookkeeping
import Zumic.Server.Protocols
import Zumic.Auth.SetUser
import Zumic.Auth.Lockout
import Zumic.Auth.Validity
import Zumic.Auth.SessionLimit
import Zumic.Pubsub.CommandCodec
import Zumic.Pubsub.Conditions
import Zumic.Pubsub.Compression
import Zumic.Engine.Repair
import Zumic.Database.IntSet
import Zumic.Database.RehashSteps
import Zumic.Zdb.SortedHalves
import Zumic.Database.Equality
import Zumic.Pubsub.Filters
import Zumic.Pubsub.Cleanup
import Zumic.Commands.Ranges
import Zumic.Commands.BitOps
import Zumic.Commands.Collections
import Zumic.Database.RTreeShape
import Zumic.Database.Antimeridian
import Zumic.Database.SdsNumeric
import Zumic.Database.ShardedSkipList
import Zumic.Database.ConcurrentSkipList
import Zumic.Database.Copies
import Zumic.Database.BoxSearch
import Zumic.Database.GeoNeighbors
import Zumic.Engine.Checksum
import Zumic.Database.ExpireMap
import Zumic.Logging.Rotation
