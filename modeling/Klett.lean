import Klett.Cunk.AsyncGet
import Klett.Cunk.Backpressure
import Klett.Cunk.Cadence
import Klett.Cunk.Cancellation
import Klett.Cunk.Deadlines
import Klett.Cunk.EventHandlers
import Klett.Cunk.EventLoop
import Klett.Cunk.LatencyTracker
import Klett.Cunk.MpmcOrder
import Klett.Cunk.PowerOfTwo
import Klett.Cunk.Task
import Klett.Cunk.TaskChains
import Klett.Cunk.Wakeups
import Klett.Cunk.WorkerDraining
import Klett.Kaleidoscope.Lexer
import Klett.Luft.CommandDelivery
import Klett.Luft.ConfigFile
import Klett.Luft.ControlValues
import Klett.Luft.Endurance
import Klett.Luft.Mirror
import Klett.Luft.Pacing
import Klett.Luft.SendQueue
import Klett.Luft.StateGuard
import Klett.Luft.Telemetry
import Klett.Nash.HomotopyJacobian
import Klett.Nash.HomotopyReuse
import Klett.Nash.LemkeHowsonSoundness
import Klett.Nash.LemkeHowsonTermination
import Klett.Nash.LinearSolver
import Klett.Nash.NewtonSolver
import Klett.Nash.NullSpace
import Klett.Nash.PathDirection
import Klett.Nash.PathTermination
import Klett.Nash.SolverAgreement
import Klett.Nash.SubsetLoop
import Klett.Nash.SupportExistence
import Klett.Sor.AggregatedLevels
import Klett.Sor.AlpacaNormalizer
import Klett.Sor.ApiGateway
import Klett.Sor.CancelFinality
import Klett.Sor.Commitment
import Klett.Sor.Completion
import Klett.Sor.ConfigManager
import Klett.Sor.ExchangeRuns
import Klett.Sor.FeedRandom
import Klett.Sor.ExecutionReports
import Klett.Sor.FillOrKill
import Klett.Sor.FixCancels
import Klett.Sor.FixIdentity
import Klett.Sor.FixMessageBuilder
import Klett.Sor.FixTags
import Klett.Sor.FixText
import Klett.Sor.FixTotality
import Klett.Sor.KillSwitch
import Klett.Sor.LimitPrice
import Klett.Sor.MpscOrder
import Klett.Sor.OneShot
import Klett.Sor.Orphans
import Klett.Sor.Overtaking
import Klett.Sor.ParentAccounting
import Klett.Sor.ParentTotals
import Klett.Sor.PendingQuantity
import Klett.Sor.PoolOwnership
import Klett.Sor.PriceText
import Klett.Sor.RateThreads
import Klett.Sor.RateTokens
import Klett.Sor.RealizedPnl
import Klett.Sor.ReplayEngine
import Klett.Sor.RiskAccounting
import Klett.Sor.RunningAverage
import Klett.Sor.SimulatedCancels
import Klett.Sor.SimulatedFees
import Klett.Sor.SimulatedRouting
import Klett.Sor.SingleVenue
import Klett.Sor.SpscOrder
import Klett.Sor.StrategyEvaluator
import Klett.Sor.TerminalOrders
import Klett.Sor.VwapChoice
import Klett.Sor.VwapSchedule
import Klett.Luft.EulerAngles
