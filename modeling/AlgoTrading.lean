import AlgoTrading.WorkingNews
import AlgoTrading.Convergence
import AlgoTrading.RecoveryRuns
import AlgoTrading.HaltSafety
import AlgoTrading.BacktestExits
import AlgoTrading.Transport
import AlgoTrading.Router
import AlgoTrading.SubmitTruth
import AlgoTrading.Protection
import AlgoTrading.Runner
import AlgoTrading.Projection
import AlgoTrading.Ceilings
import AlgoTrading.InFlight
import AlgoTrading.Denials
import AlgoTrading.ChildCover
import AlgoTrading.StopRatchet
import AlgoTrading.Coverage
import AlgoTrading.Acts
import AlgoTrading.Lookahead
import AlgoTrading.Levels
import AlgoTrading.Parity
import AlgoTrading.Rearm
import AlgoTrading.Moves
import AlgoTrading.RunnerMoves
import AlgoTrading.Tracking
import AlgoTrading.LiveStops
import AlgoTrading.Equity
import AlgoTrading.Fees
import AlgoTrading.Reconciliation
import AlgoTrading.Settlement
import AlgoTrading.HaltRaces
import AlgoTrading.ExitDecisions
import AlgoTrading.SimulatedBroker
import AlgoTrading.SimulatedBook
import AlgoTrading.Costs
import AlgoTrading.FillParity
import AlgoTrading.Indicators
import AlgoTrading.RuleSets
import AlgoTrading.IndicatorTails
import AlgoTrading.RuleWindows
import AlgoTrading.RuleWarmup
import AlgoTrading.ProtectionGaps
import AlgoTrading.RoundTrips
import AlgoTrading.TradeStreams
import AlgoTrading.TradeAccounts
import AlgoTrading.BarFeed
import AlgoTrading.BarPacing
import AlgoTrading.OrderFates
import AlgoTrading.HoldingAges
import AlgoTrading.RunnerFrames
import AlgoTrading.CloseOrders
import AlgoTrading.FillLedger
import AlgoTrading.FeeModes
import AlgoTrading.HaltLatch
import AlgoTrading.HaltStorage
import AlgoTrading.Decimals
import AlgoTrading.JsonValues
import AlgoTrading.WorkerConfig
import AlgoTrading.WorkerStorage
import AlgoTrading.Money
import AlgoTrading.Columns
import AlgoTrading.BookStorage
import AlgoTrading.OrderStorage
import AlgoTrading.PositionLimit
import AlgoTrading.Backfill
import AlgoTrading.RateLimit
import AlgoTrading.InFlightBound
import AlgoTrading.Inspection
import AlgoTrading.Conservation
import AlgoTrading.BacktestRuns
import AlgoTrading.Calendar
import AlgoTrading.Gaps
import AlgoTrading.GapBackfill
import AlgoTrading.DecimalText
import AlgoTrading.SessionAnchors
import AlgoTrading.BarFills
import AlgoTrading.VolumeCap
import AlgoTrading.LimitFills
import AlgoTrading.SignalOrders
import AlgoTrading.Approvals
import AlgoTrading.CommissionSplits
import AlgoTrading.TouchRule
import AlgoTrading.Extremes
import AlgoTrading.TrailingLevels
import AlgoTrading.Drawdowns
import AlgoTrading.Intervals
import AlgoTrading.Exposure
import AlgoTrading.Crossings
import AlgoTrading.Sorting
import AlgoTrading.TradeIds
import AlgoTrading.Excursions
import AlgoTrading.GapScans
import AlgoTrading.Streaks
import AlgoTrading.Ranks
import AlgoTrading.CorporateActions
import AlgoTrading.Settling
import AlgoTrading.RunRequests
import AlgoTrading.Ingestor
import AlgoTrading.StreamGaps
import AlgoTrading.Staleness
import AlgoTrading.BackfillRequests
import AlgoTrading.BarUpserts
import AlgoTrading.SessionTables
import AlgoTrading.Scheduler
import AlgoTrading.ProtectionPages
import AlgoTrading.FeePages
import AlgoTrading.VenueReads
import AlgoTrading.ReconnectLadder
import AlgoTrading.DashboardBridge
import AlgoTrading.PrefixSeries
import AlgoTrading.IndicatorSeries
import AlgoTrading.Alerts
import AlgoTrading.HaltAlerts
import AlgoTrading.DailyRollover
import AlgoTrading.SocketClients
import AlgoTrading.LoginLimit
import AlgoTrading.Redaction
import AlgoTrading.AlertSinks
import AlgoTrading.LastOfEach
import AlgoTrading.EquityCurve
import AlgoTrading.Sessions
import AlgoTrading.Keyset
import AlgoTrading.AuditTrail
import AlgoTrading.FirstWrites
import AlgoTrading.DecisionStorage
import AlgoTrading.Documents
import AlgoTrading.PublishedState
import AlgoTrading.TokenPages
import AlgoTrading.BarPages
import AlgoTrading.CatchUp
import AlgoTrading.FeedSubscriptions
