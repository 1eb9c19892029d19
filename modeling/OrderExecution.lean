import OrderExecution.Solvency
import OrderExecution.ArbStatus
import OrderExecution.ArbCommute
import OrderExecution.ArbMargin
import OrderExecution.NakedLeg
import OrderExecution.SingleFill
import OrderExecution.LiveOrders
import OrderExecution.PositionLedger
import OrderExecution.ArbDispatch
import OrderExecution.Routing
import OrderExecution.FlatHashMapRefines
import OrderExecution.FreshKeys
import OrderExecution.ConflictTracker
import OrderExecution.SingleMargin
import OrderExecution.Shutdown
import OrderExecution.ArbConfluence
import OrderExecution.GuardFrames
import OrderExecution.PositionSums
import OrderExecution.PartialFills
import OrderExecution.FillMargin
import OrderExecution.ConflictCheck
import OrderExecution.Refusals
import OrderExecution.LegReports
import OrderExecution.Unwinds
import OrderExecution.Spreads
import OrderExecution.Freshness
import OrderExecution.Cleanup
import OrderExecution.Slippage
import OrderExecution.Attribution
import OrderExecution.FlatHashMapEnds
import OrderExecution.GatewayRaces
import OrderExecution.MPMCQueueSound
import OrderExecution.AsyncLoggerSound
import OrderExecution.ThreadPoolSound
import OrderExecution.GuardLock
import OrderExecution.PairCompletion
import OrderExecution.LogLines
import OrderExecution.LockOrder
