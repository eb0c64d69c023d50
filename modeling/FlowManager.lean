import FlowManager.Lib.Proc
import FlowManager.Lib.OrderedMap
import FlowManager.Lib.PriceTime
import FlowManager.Lib.Dict
import FlowManager.Lib.Reach
import FlowManager.Lib.Aggregate
import FlowManager.Lib.Renaming
import FlowManager.Lib.Merging
import FlowManager.Lib.InPlace
import FlowManager.Lib.Interleaving
import FlowManager.Lib.LocalSteps
import FlowManager.Lib.Transducer
import FlowManager.Lib.Fair
import FlowManager.Book.Order
import FlowManager.Book.OrderBook
import FlowManager.Book.Representation
import FlowManager.Book.Changes
import FlowManager.Book.Matching
import FlowManager.Book.Calls
import FlowManager.Book.Steps
import FlowManager.Book.FlatBook
import FlowManager.Book.PriceTimePriority
import FlowManager.Book.Conservation
import FlowManager.Book.LevelInfos
import FlowManager.Book.View
import FlowManager.Book.Traceless
import FlowManager.Book.Part
import FlowManager.Book.Snapshot
import FlowManager.Book.Levels
import FlowManager.Book.FillAndKill
import FlowManager.Book.Progress
import FlowManager.Book.ExactSnapshot
import FlowManager.Book.TradePrices
import FlowManager.Book.Depth
import FlowManager.Book.OnQueues
import FlowManager.Book.Relabelling
import FlowManager.Book.Splitting
import FlowManager.Server.Messages
import FlowManager.Server.OrderBookServer
import FlowManager.Server.JsonLibrary
import FlowManager.Server.Handler
import FlowManager.Server.MainLoop
import FlowManager.Server.Atomicity
import FlowManager.Server.Decoder
import FlowManager.Server.FinalStatus
import FlowManager.Server.QueueServer
import FlowManager.Server.Unnoticed
import FlowManager.Broker.Interface
import FlowManager.Broker.CppOrderBookBroker
import FlowManager.Broker.Effects
import FlowManager.Broker.Fills
import FlowManager.Broker.LockDiscipline
import FlowManager.Broker.Maps
import FlowManager.Broker.Stream
import FlowManager.Broker.FillReports
import FlowManager.Broker.SimulatedBroker
import FlowManager.Broker.SimulatedFills
import FlowManager.Broker.SharedSocket
import FlowManager.Broker.Rejections
import FlowManager.Broker.InTurn
import FlowManager.Broker.OwnReplies
import FlowManager.Broker.NoTrace
import FlowManager.Broker.SocketOperations
import FlowManager.Broker.Faults
import FlowManager.Broker.DespiteFaults
import FlowManager.Broker.Tolls
import FlowManager.Broker.CoarseSteps
import FlowManager.PositionManager.Manager
import FlowManager.PositionManager.Consistency
import FlowManager.PositionManager.Loop
import FlowManager.PositionManager.Representation
import FlowManager.PositionManager.Reconciliation
import FlowManager.PositionManager.Queues
import FlowManager.PositionManager.GenuineFills
import FlowManager.PositionManager.Commutation
import FlowManager.PositionManager.Recording
import FlowManager.PositionManager.PerSymbol
import FlowManager.PositionManager.SymbolIndependence
import FlowManager.PositionManager.PendingCancel
import FlowManager.System.Requests
import FlowManager.System.Run
import FlowManager.System.Accounts
import FlowManager.System.Synced
import FlowManager.System.Submitting
import FlowManager.System.Stepping
import FlowManager.System.OnFile
import FlowManager.System.Mirror
import FlowManager.System.MarketData
import FlowManager.System.LostReplies
import FlowManager.System.Protocol
import FlowManager.System.Exchanges
import FlowManager.System.Symbols
import FlowManager.System.TradingLoop
import FlowManager.System.SimulatedRun
import FlowManager.System.Shutdown
import FlowManager.System.Outstanding
import FlowManager.System.Settling
import FlowManager.System.Retargeting
import FlowManager.System.LimitProtection
import FlowManager.Strategy.StrategyRunner
import FlowManager.Strategy.OneWayTargets
import FlowManager.Strategy.Replays
import FlowManager.Strategy.Waiting
import FlowManager.System.Views
