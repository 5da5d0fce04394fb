import MatchingEngine.Framework.OrderedMap
import MatchingEngine.Framework.LinkedList
import MatchingEngine.Framework.Interleaving
import MatchingEngine.Framework.Transition
import MatchingEngine.Framework.RingBuffer
import MatchingEngine.Framework.Replay
import MatchingEngine.Framework.DelimitedText
import MatchingEngine.Framework.Numerals
import MatchingEngine.Common.Types
import MatchingEngine.Common.MemoryPool
import MatchingEngine.Common.LockFreeQueue
import MatchingEngine.Common.SharedQueue
import MatchingEngine.Common.SoloProducer
import MatchingEngine.Common.Logging
import MatchingEngine.Matcher.Messages
import MatchingEngine.Matcher.OrderBook
import MatchingEngine.Matcher.MatchingCore
import MatchingEngine.Matcher.Clock
import MatchingEngine.Matcher.Ladder
import MatchingEngine.Matcher.Sweep
import MatchingEngine.Matcher.WellFormed
import MatchingEngine.Matcher.Memory
import MatchingEngine.Matcher.Branches
import MatchingEngine.Matcher.Representation
import MatchingEngine.Matcher.View
import MatchingEngine.Matcher.MatchLoop
import MatchingEngine.Matcher.Refinement
import MatchingEngine.Matcher.Runs
import MatchingEngine.Matcher.Capacity
import MatchingEngine.Matcher.Reference
import MatchingEngine.Matcher.Simulation
import MatchingEngine.Matcher.Calls
import MatchingEngine.Matcher.Relabelling
import MatchingEngine.MarketData.SnapshotService
import MatchingEngine.OrderServer.RequestSequencer
import MatchingEngine.OrderServer.OrderGatewayServer
import MatchingEngine.Exchange.OrderFile
import MatchingEngine.Exchange.Pipeline
import MatchingEngine.Exchange.Scheduler
import MatchingEngine.Exchange.ExchangeMain
import MatchingEngine.Exchange.Process
import MatchingEngine.Exchange.Report
import MatchingEngine.Properties.PriceTime
import MatchingEngine.Properties.BookInvariant
import MatchingEngine.Properties.Ledger
import MatchingEngine.Properties.Trades
import MatchingEngine.Properties.Traffic
import MatchingEngine.Properties.Snapshot
import MatchingEngine.Properties.Sequencing
import MatchingEngine.Properties.Delivery
import MatchingEngine.Properties.Serial
import MatchingEngine.Properties.EndToEnd
import MatchingEngine.Properties.Completion
import MatchingEngine.Properties.Provenance
import MatchingEngine.Properties.Report
import MatchingEngine.Properties.Headroom
import MatchingEngine.Properties.Process
import MatchingEngine.Properties.Isolation
import MatchingEngine.Properties.Acknowledgement
import MatchingEngine.Properties.Execution
import MatchingEngine.Properties.Maximality
import MatchingEngine.Properties.Frame
import MatchingEngine.Properties.UpdateStream
import MatchingEngine.Properties.CatchUp
import MatchingEngine.Properties.OrderEntry
import MatchingEngine.Properties.Recovery
import MatchingEngine.Properties.Sides
import MatchingEngine.Properties.OriginalQty
import MatchingEngine.Properties.ExecQty
import MatchingEngine.Properties.Symmetry
import MatchingEngine.Properties.PoolHistory
import MatchingEngine.Properties.OrderFile
import MatchingEngine.Properties.LogLines
import MatchingEngine.Properties.LoggerClose
import MatchingEngine.Properties.QueueRefinement
import MatchingEngine.Properties.QueueOverrun
