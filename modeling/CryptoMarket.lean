import CryptoMarket.Replay.History
import CryptoMarket.Replay.CircularWait
import CryptoMarket.Replay.Breach
import CryptoMarket.Multicast.Tasks
import CryptoMarket.Publisher.Deadlock
import CryptoMarket.Publisher.Streams
import CryptoMarket.Publisher.Fragments
import CryptoMarket.Publisher.Retry
import CryptoMarket.Replay.Index
import CryptoMarket.Replay.Replies
import CryptoMarket.Multicast.Converge
import CryptoMarket.Integration.Names
import CryptoMarket.Replay.DynamicConfig
import CryptoMarket.Integration.Writer
import CryptoMarket.Publisher.Receiver
import CryptoMarket.Publisher.Frames
import CryptoMarket.Publisher.Handshake
import CryptoMarket.Publisher.Commands
import CryptoMarket.Publisher.Recipients
import CryptoMarket.Integration.BadMessages
import CryptoMarket.Integration.Markets
import CryptoMarket.Multicast.Forward
import CryptoMarket.Publisher.Poison
import CryptoMarket.Publisher.Payload
import CryptoMarket.Multicast.Renotify
import CryptoMarket.Replay.Cleanup
import CryptoMarket.Replay.Outcomes
import CryptoMarket.Replay.TopicNames
import CryptoMarket.Lib.Calendar
import CryptoMarket.Lib.Path
import CryptoMarket.Replay.MarketDataFile
import CryptoMarket.Integration.Endpoints
import CryptoMarket.Publisher.Distribute
import CryptoMarket.Publisher.Interpreter
import CryptoMarket.Publisher.PartialResponses
import CryptoMarket.Publisher.Tokens
import CryptoMarket.Replay.Ledger
import CryptoMarket.Replay.Quiescence
import CryptoMarket.Multicast.Server
import CryptoMarket.Publisher.Order
import CryptoMarket.Integration.Pipeline
import CryptoMarket.Replay.Feeds
import CryptoMarket.Publisher.Outage
import CryptoMarket.Lib.Wiring
import CryptoMarket.System.EndToEnd
import CryptoMarket.Integration.Shutdown
import CryptoMarket.Multicast.Delivery
import CryptoMarket.Publisher.Request
import CryptoMarket.Publisher.Wire
import CryptoMarket.Replay.HistoryHandle
import CryptoMarket.Replay.HistoryNet
import CryptoMarket.Replay.HistoryRest
