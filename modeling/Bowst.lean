import Bowst.Core.BytesRing
import Bowst.Core.FixedTheorems
import Bowst.L2.LoadTheorems
import Bowst.L2.FeedTheorems
import Bowst.Core.BytesRingTheorems
import Bowst.Journal.Format
import Bowst.Journal.Producer
import Bowst.Journal.ProducerTheorems
import Bowst.Core.Instrument
import Bowst.Venue.Json
import Bowst.Venue.Books
import Bowst.Venue.BooksTheorems
import Bowst.Venue.HandlerTheorems
import Bowst.Venue.VerificationTheorems
import Bowst.Core.Text
import Bowst.Core.TextTheorems
import Bowst.Core.DecimalTheorems
import Bowst.Core.RoundingTheorems
import Bowst.Lib.Crc32
import Bowst.Journal.Writer
import Bowst.Journal.Reader
import Bowst.Journal.FormatTheorems
import Bowst.Journal.SegmentTheorems
import Bowst.Journal.JournalTheorems
import Bowst.Lib.JsonGrammar
import Bowst.Venue.JsonTheorems
import Bowst.Core.ValueTheorems
import Bowst.Venue.DepthTheorems
import Bowst.Core.Ring
import Bowst.Core.RingTheorems
import Bowst.Venue.Frame
import Bowst.Venue.WsReader
import Bowst.Venue.WsTheorems
import Bowst.Venue.Replay
import Bowst.Venue.Session
import Bowst.Venue.SessionTheorems
import Bowst.Venue.DescriptionTheorems
import Bowst.Venue.ReplayTheorems
import Bowst.Lib.Meter
import Bowst.Lib.CrlfLines
import Bowst.Venue.RateLimit
import Bowst.Venue.RateLimitTheorems
import Bowst.Venue.Http
import Bowst.Venue.HttpTheorems
import Bowst.Venue.LayoutTheorems
import Bowst.Lib.Radix
import Bowst.Core.OrderIdTheorems
import Bowst.Lib.Ranks
import Bowst.Telemetry.HistogramTheorems
import Bowst.Venue.ClientFrame
import Bowst.Venue.ClientFrameTheorems
import Bowst.Venue.WsProgressTheorems
import Bowst.Lib.Escape
import Bowst.Telemetry.Exposition
import Bowst.Telemetry.ExpositionTheorems
import Bowst.Journal.FileReader
import Bowst.Journal.FileReaderTheorems
import Bowst.Lib.BufferedFile
import Bowst.Journal.FileSink
import Bowst.Journal.FileSinkTheorems
import Bowst.Journal.JournalSystem
import Bowst.Journal.JournalSystemTheorems
import Bowst.Journal.FinishTheorems
import Bowst.Venue.VerificationCountTheorems
import Bowst.Lib.Incremental
import Bowst.Lib.Base64
import Bowst.Venue.Handshake
import Bowst.Venue.HandshakeTheorems
import Bowst.Venue.Net
import Bowst.Venue.NetTheorems
import Bowst.Venue.WsClient
import Bowst.Venue.WsClientTheorems
import Bowst.Venue.Backoff
import Bowst.Venue.BackoffTheorems
import Bowst.Lib.Machine
import Bowst.Venue.MdThread
import Bowst.Venue.MdThreadTheorems
import Bowst.Venue.MdStreamTheorems
import Bowst.Venue.ExchangeInfo
import Bowst.Venue.Rest
import Bowst.Venue.SnapshotWorker
import Bowst.Venue.SnapshotWorkerTheorems
import Bowst.Venue.MdSystem
import Bowst.Venue.MdSystemTheorems
import Bowst.Venue.ExchangeInfoTheorems
import Bowst.Venue.RestTheorems
import Bowst.Venue.ViewTheorems
import Bowst.Md.Metrics
import Bowst.Md.MetricsTheorems
import Bowst.Md.Recorder
import Bowst.Md.ToolTheorems
import Bowst.Telemetry.Server
import Bowst.Telemetry.ServerTheorems
